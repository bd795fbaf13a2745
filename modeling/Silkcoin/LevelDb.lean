/-
  `CTxDB` as the store sees it: byte strings, and a batch that a scanner plays back.

  `TxDb.lean` has typed keys and values and reads the batch with `BatchStore.scan`.  HERE are the
  templates `Read`, `Write`, `Erase` and `Exists` themselves, over serialized keys and values, with
  the handler `CBatchScanner` that keeps three variables up to date while the batch is iterated.
  `scanBatch_eq` says what they hold at the end, and `Represents` that the typed database is this one
  seen through a serializer.

  A reader inside a transaction must see what the commit will leave.  `Read` does.  `Exists` does NOT:
  for a key that the batch deletes it falls through to the disk.  `txnReads_iff` is the exact extent.
-/
import Silkcoin.TxDb

namespace Silkcoin

open Validation BatchStore

/-- A serialized key or value. -/
abbrev Bytes := List UInt8

/-- The handler of `ScanBatch`, with the variables its pointers point to. -/
structure CBatchScanner where
  foundEntry : Bool
  deleted : Bool
  foundValue : Bytes
deriving DecidableEq, Repr

namespace CBatchScanner

variable (needle : Bytes) (scanner : CBatchScanner)

def put (key value : Bytes) : CBatchScanner :=
  if key = needle then ⟨true, false, value⟩ else scanner

def delete (key : Bytes) : CBatchScanner :=
  if key = needle then { scanner with foundEntry := true, deleted := true } else scanner

/-- `Iterate` hands the handler one record of the batch after the other. -/
def handle (op : Bytes × Option Bytes) : CBatchScanner :=
  match op.2 with
  | some value => scanner.put needle op.1 value
  | none => scanner.delete needle op.1

end CBatchScanner

/-- The database object: the store behind it and the batch of the open transaction. -/
structure LevelDb where
  disk : StdMap Bytes Bytes
  activeBatch : Option (Batch Bytes Bytes)
  fReadOnly : Bool

namespace LevelDb

variable (db : LevelDb)

/-! ## The templates -/

/-- `ScanBatch`: `value` is what the caller's string held before. -/
def scanBatch (batch : Batch Bytes Bytes) (key value : Bytes) : CBatchScanner :=
  batch.foldl (CBatchScanner.handle key) ⟨false, false, value⟩

/-- `Read`; a value that does not unserialize is not read. -/
def read {T : Type} (unserialize : Bytes → Option T) (ssKey : Bytes) : Option T :=
  match db.activeBatch with
  | some batch =>
    let scanner := scanBatch batch ssKey []
    if scanner.deleted then none
    else if scanner.foundEntry then unserialize scanner.foundValue
    else (db.disk.lookup ssKey).bind unserialize
  | none => (db.disk.lookup ssKey).bind unserialize

def write (ssKey ssValue : Bytes) : Check LevelDb := do
  require (!db.fReadOnly) (.throw "assert(!\"Write called on database in read-only mode\")")
  match db.activeBatch with
  | some batch => return { db with activeBatch := some (batch ++ [(ssKey, some ssValue)]) }
  | none => return { db with disk := db.disk.insert ssKey ssValue }

def erase (ssKey : Bytes) : Check LevelDb := do
  require (!db.fReadOnly) (.throw "assert(!\"Erase called on database in read-only mode\")")
  match db.activeBatch with
  | some batch => return { db with activeBatch := some (batch ++ [(ssKey, none)]) }
  | none => return { db with disk := db.disk.erase ssKey }

/-- `Exists`: a key that is not written in the batch is looked up on disk. -/
def existsKey (ssKey : Bytes) : Bool :=
  match db.activeBatch with
  | some batch =>
    let scanner := scanBatch batch ssKey []
    if scanner.foundEntry && !scanner.deleted then true else (db.disk.lookup ssKey).isSome
  | none => (db.disk.lookup ssKey).isSome

def txnBegin : Check LevelDb := do
  require db.activeBatch.isNone (.throw "assert(!activeBatch)")
  return { db with activeBatch := some [] }

/-- The batch goes whether or not the store takes it (`ok`). -/
def txnCommit (ok : Bool) : Check LevelDb :=
  match db.activeBatch with
  | none => .error (.throw "assert(activeBatch)")
  | some batch =>
    .ok { db with disk := if ok then apply db.disk batch else db.disk, activeBatch := none }

def txnAbort : LevelDb := { db with activeBatch := none }

/-- A call of `Write` or `Erase`. -/
inductive Call where
  | write (ssKey ssValue : Bytes)
  | erase (ssKey : Bytes)
deriving DecidableEq, Repr

def run (call : Call) : Check LevelDb :=
  match call with
  | .write ssKey ssValue => db.write ssKey ssValue
  | .erase ssKey => db.erase ssKey

/-- `TxnBegin`, and calls inside the transaction. -/
def inTxn (calls : List Call) : Check LevelDb := do
  let db ← db.txnBegin
  calls.foldlM run db

/-! ## What the scanner holds at the end -/

/-- **The last record on the key decides.** -/
theorem scanBatch_eq (batch : Batch Bytes Bytes) (key value : Bytes) :
    (scanBatch batch key value).foundEntry = (scan batch key).isSome ∧
      ((scanBatch batch key value).deleted = true ↔ scan batch key = some none) ∧
      ∀ v, scan batch key = some (some v) → (scanBatch batch key value).foundValue = v := by
  induction batch using List.reverseRecOn with
  | nil => exact ⟨rfl, iff_of_false Bool.false_ne_true (fun h => by cases h), fun v h => by cases h⟩
  | append_singleton batch op ih =>
    obtain ⟨hfound, hdeleted, hvalue⟩ := ih
    obtain ⟨k, ov⟩ := op
    have hstep : scanBatch (batch ++ [(k, ov)]) key value =
        (scanBatch batch key value).handle key (k, ov) := by
      unfold scanBatch
      rw [List.foldl_append]; rfl
    rw [hstep, scan_append_one]
    by_cases hk : k = key
    · rw [if_pos hk]
      cases ov with
      | some v =>
        have hput : (scanBatch batch key value).handle key (k, some v) = ⟨true, false, v⟩ := if_pos hk
        rw [hput]
        exact ⟨rfl, iff_of_false Bool.false_ne_true (fun h => by cases h), fun w h => by cases h; rfl⟩
      | none =>
        have hdelete : (scanBatch batch key value).handle key (k, none) =
            { scanBatch batch key value with foundEntry := true, deleted := true } := if_pos hk
        rw [hdelete]
        exact ⟨rfl, iff_of_true rfl rfl, fun w h => by cases h⟩
    · have hskip : (scanBatch batch key value).handle key (k, ov) = scanBatch batch key value := by
        cases ov <;> exact if_neg hk
      rw [if_neg hk, hskip]
      exact ⟨hfound, hdeleted, hvalue⟩

/-- `Read` is the abstract read of the store, unserialized. -/
theorem read_eq {T : Type} (unserialize : Bytes → Option T) (key : Bytes) :
    db.read unserialize key =
      (match db.activeBatch with
      | some batch => (scan batch key).getD (db.disk.lookup key)
      | none => db.disk.lookup key).bind unserialize := by
  unfold read
  cases db.activeBatch with
  | none => rfl
  | some batch =>
    obtain ⟨hfound, hdeleted, hvalue⟩ := scanBatch_eq batch key []
    dsimp only
    cases hscan : scan batch key with
    | none =>
      rw [hscan] at hfound hdeleted
      rw [hfound, if_neg (fun h => by cases hdeleted.mp h)]; rfl
    | some ov =>
      cases ov with
      | none => rw [if_pos (hdeleted.mpr hscan)]; rfl
      | some v =>
        rw [if_neg (fun h => by rw [hdeleted.mp h] at hscan; cases hscan), hfound, hscan,
          hvalue v hscan]; rfl

/-- `Exists` is not: it looks on disk for a key that the batch deletes. -/
theorem existsKey_eq (key : Bytes) :
    db.existsKey key =
      match db.activeBatch with
      | some batch =>
        match scan batch key with
        | some (some _) => true
        | _ => (db.disk.lookup key).isSome
      | none => (db.disk.lookup key).isSome := by
  unfold existsKey
  cases db.activeBatch with
  | none => rfl
  | some batch =>
    obtain ⟨hfound, hdeleted, -⟩ := scanBatch_eq batch key []
    dsimp only
    cases hscan : scan batch key with
    | none => rw [hfound, hscan]; rfl
    | some ov =>
      cases ov with
      | none => rw [hfound, hscan, hdeleted.mpr hscan]; rfl
      | some v =>
        have hkept : (scanBatch batch key []).deleted = false := by
          rw [← Bool.not_eq_true, hdeleted, hscan]
          exact fun h => by cases h
        rw [hfound, hscan, hkept]; rfl

/-! ## Inside a transaction -/

/-- The record a call leaves in the batch. -/
def Call.record (call : Call) : Bytes × Option Bytes :=
  match call with
  | .write ssKey ssValue => (ssKey, some ssValue)
  | .erase ssKey => (ssKey, none)

variable {db} {db' db'' : LevelDb} {calls : List Call}

theorem run_ok {call : Call} {batch : Batch Bytes Bytes} (hbatch : db.activeBatch = some batch)
    (h : db.run call = .ok db') : db' = { db with activeBatch := some (batch ++ [call.record]) } := by
  cases call <;> simp only [run, write, erase, hbatch, require_bind_ok, pure_ok] at h <;> exact h.2.symm

/-- **In a transaction the calls only queue their records.** -/
theorem inTxn_ok (h : db.inTxn calls = .ok db') : db.activeBatch = none ∧
    db' = { db with activeBatch := some (calls.map Call.record) } := by
  unfold inTxn txnBegin at h
  simp only [bind_ok, require_ok, pure_ok] at h
  obtain ⟨t, ⟨_, hclosed, rfl⟩, hrun⟩ := h
  refine ⟨Option.isNone_iff_eq_none.mp hclosed, ?_⟩
  refine foldlM_ok_induct
    (P := fun pre t => t = { db with activeBatch := some (pre.map Call.record) }) rfl ?_ hrun
  rintro pre call post t t' - rfl hstep
  rw [run_ok rfl hstep, List.map_append]; rfl

/-- The last call on the key deletes it. -/
def EndsErased (calls : List Call) (key : Bytes) : Prop :=
  (calls.filter fun call => call.record.1 = key).getLast? = some (.erase key)

theorem scan_records_none_iff {key : Bytes} :
    scan (calls.map Call.record) key = some none ↔ EndsErased calls key := by
  unfold EndsErased
  induction calls using List.reverseRecOn with
  | nil => exact iff_of_false (fun h => by cases h) (fun h => by cases h)
  | append_singleton calls call ih =>
    rw [List.map_append, List.map_singleton, scan_append_one, List.filter_append]
    by_cases hk : call.record.1 = key
    · rw [if_pos hk, List.filter_singleton, decide_eq_true hk, cond_true, List.getLast?_concat]
      cases call with
      | write ssKey ssValue => exact iff_of_false (fun h => by cases h) (fun h => by cases h)
      | erase ssKey => exact iff_of_true rfl (congrArg (some ∘ Call.erase) hk)
    · rw [if_neg hk, List.filter_singleton, decide_eq_false hk, cond_false, List.append_nil]
      exact ih

/-! ## The exact extent -/

/-- **Reads inside a transaction.**  `Read` always answers as after the commit, and an abort gives
    every answer back.  `Exists` answers as after the commit UNLESS the transaction ends with the key
    deleted and the disk has it. -/
theorem txnReads_iff (h : db.inTxn calls = .ok db') (hcommit : db'.txnCommit true = .ok db'')
    (key : Bytes) :
    ((∀ (T : Type) (unserialize : Bytes → Option T),
        db'.read unserialize key = db''.read unserialize key ∧
          db'.txnAbort.read unserialize key = db.read unserialize key) ∧
      db'.existsKey key = db''.existsKey key ∧ db'.txnAbort.existsKey key = db.existsKey key) ↔
      (EndsErased calls key → db.disk.lookup key = none) := by
  obtain ⟨hclosed, rfl⟩ := inTxn_ok h
  cases hcommit
  have habort : txnAbort { db with activeBatch := some (calls.map Call.record) } = db := by
    show { db with activeBatch := none } = db
    rw [← hclosed]
  rw [habort, ← scan_records_none_iff, existsKey_eq, existsKey_eq]
  simp only [read_eq, apply_lookup, and_true, implies_true, true_and, if_true]
  cases hscan : scan (calls.map Call.record) key with
  | none => simp
  | some ov =>
    cases ov with
    | none => simp
    | some v => simp

/-- A database that holds one key. -/
def oneKey (key value : Bytes) : LevelDb := ⟨AList.insert key value ∅, none, false⟩

/-- Inside a transaction that deletes the key, `Exists` still finds it. -/
theorem existsKey_deleted : ∃ t committed, (oneKey [0x74, 0x78] [1]).inTxn [.erase [0x74, 0x78]] = .ok t ∧
    t.txnCommit true = .ok committed ∧ t.read some [0x74, 0x78] = none ∧
      t.existsKey [0x74, 0x78] = true ∧ committed.existsKey [0x74, 0x78] = false :=
  ⟨⟨AList.insert [0x74, 0x78] [1] ∅, some [([0x74, 0x78], none)], false⟩, ⟨∅, none, false⟩, rfl, rfl,
    rfl, rfl, rfl⟩

/-- A key deleted and written again. -/
theorem txnReads_iff_rewritten :
    let calls := [Call.erase [0x74, 0x78], Call.write [0x74, 0x78] [2]]
    let t : LevelDb := ⟨AList.insert [0x74, 0x78] [1] ∅, some (calls.map Call.record), false⟩
    let committed : LevelDb := ⟨AList.insert [0x74, 0x78] [2] ∅, none, false⟩
    ((∀ (T : Type) (unserialize : Bytes → Option T),
        t.read unserialize [0x74, 0x78] = committed.read unserialize [0x74, 0x78] ∧
          t.txnAbort.read unserialize [0x74, 0x78] = (oneKey [0x74, 0x78] [1]).read unserialize
            [0x74, 0x78]) ∧
      t.existsKey [0x74, 0x78] = committed.existsKey [0x74, 0x78] ∧
        t.txnAbort.existsKey [0x74, 0x78] = (oneKey [0x74, 0x78] [1]).existsKey [0x74, 0x78]) ↔
      (EndsErased calls [0x74, 0x78] → (oneKey [0x74, 0x78] [1]).disk.lookup [0x74, 0x78] = none) :=
  txnReads_iff rfl rfl _

/-! ## The typed database -/

/-- The typed database, seen through a serializer of the keys and one of the values. -/
structure Represents (ssKey : DbKey → Bytes) (ssValue : DbValue → Bytes) (txdb : CTxDB)
    (db : LevelDb) : Prop where
  disk : ∀ key, db.disk.lookup (ssKey key) = (txdb.disk.lookup key).map ssValue
  batch : db.activeBatch =
    txdb.activeBatch.map (List.map fun op => (ssKey op.1, op.2.map ssValue))

section Typed

variable {ssKey : DbKey → Bytes} {ssValue : DbValue → Bytes} {txdb : CTxDB}

theorem scan_serialized (hinj : Function.Injective ssKey) (batch : Batch DbKey DbValue) (key : DbKey) :
    scan (batch.map fun op => (ssKey op.1, op.2.map ssValue)) (ssKey key) =
      (scan batch key).map (Option.map ssValue) := by
  induction batch using List.reverseRecOn with
  | nil => rfl
  | append_singleton batch op ih =>
    rw [List.map_append, List.map_singleton, scan_append_one, scan_append_one, ih]
    by_cases hk : op.1 = key
    · rw [if_pos hk, if_pos (congrArg ssKey hk)]; rfl
    · rw [if_neg hk, if_neg (fun h => hk (hinj h))]

/-- Reading is reading the bytes and unserializing them. -/
theorem Represents.read (hinj : Function.Injective ssKey) {unserialize : Bytes → Option DbValue}
    (hround : ∀ value, unserialize (ssValue value) = some value)
    (h : Represents ssKey ssValue txdb db) (key : DbKey) :
    db.read unserialize (ssKey key) = txdb.read key := by
  have hvalue : ∀ o : Option DbValue, (o.map ssValue).bind unserialize = o := by
    intro o
    cases o with
    | none => rfl
    | some value => exact hround value
  rw [read_eq, h.batch, h.disk]
  unfold CTxDB.read
  cases txdb.activeBatch with
  | none => exact hvalue _
  | some batch =>
    show ((scan (batch.map _) (ssKey key)).getD _).bind unserialize = (scan batch key).getD _
    rw [scan_serialized hinj]
    cases scan batch key with
    | none => exact hvalue _
    | some op => exact hvalue op

theorem Represents.write (hinj : Function.Injective ssKey) (hwritable : db.fReadOnly = false)
    (h : Represents ssKey ssValue txdb db) (key : DbKey) (value : DbValue) :
    ∃ db', db.write (ssKey key) (ssValue value) = .ok db' ∧
      Represents ssKey ssValue (txdb.write key value) db' := by
  unfold LevelDb.write CTxDB.write
  simp only [hwritable, h.batch, Bool.not_false, require_true, ok_bind]
  cases txdb.activeBatch with
  | none =>
    refine ⟨_, rfl, fun k => ?_, rfl⟩
    rw [lookup_insert_eq_ite, lookup_insert_eq_ite, h.disk]
    by_cases hk : key = k
    · rw [if_pos hk, if_pos (congrArg ssKey hk)]; rfl
    · rw [if_neg hk, if_neg (fun he => hk (hinj he))]
  | some batch =>
    refine ⟨_, rfl, h.disk, ?_⟩
    simp

theorem Represents.erase (hinj : Function.Injective ssKey) (hwritable : db.fReadOnly = false)
    (h : Represents ssKey ssValue txdb db) (key : DbKey) :
    ∃ db', db.erase (ssKey key) = .ok db' ∧ Represents ssKey ssValue (txdb.erase key) db' := by
  unfold LevelDb.erase CTxDB.erase
  simp only [hwritable, h.batch, Bool.not_false, require_true, ok_bind]
  cases txdb.activeBatch with
  | none =>
    refine ⟨_, rfl, fun k => ?_, rfl⟩
    have hmodel := applyOp_lookup txdb.disk (key, none) k
    have hbytes := applyOp_lookup db.disk (ssKey key, none) (ssKey k)
    rw [show (db.disk.erase (ssKey key)).lookup (ssKey k) = _ from hbytes,
      show (txdb.disk.erase key).lookup k = _ from hmodel, h.disk]
    by_cases hk : key = k
    · rw [if_pos hk, if_pos (congrArg ssKey hk)]; rfl
    · rw [if_neg hk, if_neg (fun he => hk (hinj he))]
  | some batch =>
    refine ⟨_, rfl, h.disk, ?_⟩
    simp

theorem Represents.txnBegin (h : Represents ssKey ssValue txdb db) (hclosed : txdb.activeBatch = none) :
    ∃ db', db.txnBegin = .ok db' ∧ Represents ssKey ssValue txdb.txnBegin db' := by
  have hopen : db.activeBatch = none := by rw [h.batch, hclosed]; rfl
  unfold LevelDb.txnBegin
  simp only [hopen, Option.isNone_none, require_true, ok_bind]
  exact ⟨_, rfl, h.disk, rfl⟩

/-- The batches are applied record by record. -/
theorem Represents.txnCommit (hinj : Function.Injective ssKey) (h : Represents ssKey ssValue txdb db)
    (hopen : txdb.activeBatch.isSome = true) (ok : Bool) :
    ∃ db', db.txnCommit ok = .ok db' ∧ Represents ssKey ssValue (txdb.txnCommit ok) db' := by
  obtain ⟨batch, hbatch⟩ := Option.isSome_iff_exists.mp hopen
  unfold LevelDb.txnCommit
  rw [h.batch, hbatch]
  refine ⟨_, rfl, fun key => ?_, rfl⟩
  unfold CTxDB.txnCommit
  cases ok with
  | false => exact h.disk key
  | true =>
    show (apply db.disk _).lookup _ = ((apply txdb.disk (txdb.activeBatch.getD [])).lookup key).map _
    rw [hbatch, Option.getD_some, apply_lookup, apply_lookup, scan_serialized hinj, h.disk]
    cases scan batch key <;> rfl

theorem Represents.txnAbort (h : Represents ssKey ssValue txdb db) :
    Represents ssKey ssValue txdb.txnAbort db.txnAbort := ⟨h.disk, rfl⟩

end Typed

end LevelDb
end Silkcoin
