/-
  The memory pool: what its maps say of each other, whatever is called on it.

  `accept` adds a transaction through `addUnchecked`, `remove` takes one out with or WITHOUT what
  spends it, `removeConflicts` takes out families of double spends.  `Indexed` is the agreement of the
  two maps: `mapNextTx` is exactly the inverse of the inputs of `mapTx`.

  `remove` recurses through `mapNextTx` while it changes it.  Two facts carry it through
  (`remove_indexed`): the agreement holds again after every call, and a call only takes transactions
  OUT, so the caller's own inputs are still nobody else's when their entries go.
-/
import Silkcoin.Node
import Silkcoin.Chain
import Silkcoin.Lib.InverseIndex

namespace Silkcoin

open Validation BatchStore

namespace CTxDB

/-- `Exists`: a key that is not written in the batch is looked up on disk. -/
def existsKey (db : CTxDB) (key : DbKey) : Bool :=
  match db.activeBatch with
  | some batch =>
    match scan batch key with
    | some (some _) => true
    | _ => (db.disk.lookup key).isSome
  | none => (db.disk.lookup key).isSome

def containsTx (db : CTxDB) (hash : Uint256) : Bool := db.existsKey (.tx hash)

end CTxDB

/-- What `AreInputsStandard` and the rate limiter of free transactions answer.  The limiter decays a
    count over the time of day. -/
structure RelayPolicy where
  areInputsStandard : CTransaction → MapPrevTx → Bool
  freeTransactionAllowed : CTransaction → Bool

namespace CTxMemPool

variable (P : Primitives) (relay : RelayPolicy) (g : Globals) (txdb : CTxDB) (pool : CTxMemPool)

/-! ## `accept` and `clear` -/

/-- The part of `accept` under `fCheckInputs`. -/
def checkInputs (tx : CTransaction) : Check Unit := do
  let mapInputs ← orFail (tx.fetchInputs g txdb ∅ false false) fun e =>
    if e.2 then .reject 0 "CTxMemPool::accept() : FetchInputs found invalid tx" else .quiet
  require (relay.areInputsStandard tx mapInputs || g.fTestNet)
    (.reject 0 "CTxMemPool::accept() : nonstandard transaction input")
  let nValueIn ← tx.getValueIn mapInputs
  let nValueOut ← tx.getValueOut
  let nFees := int64 (nValueIn - nValueOut)
  require (¬ nFees < tx.getMinFee 1000 .GMF_RELAY tx.getSerializeSize)
    (.reject 0 "CTxMemPool::accept() : not enough fees")
  require (¬ nFees < MIN_RELAY_TX_FEE || relay.freeTransactionAllowed tx)
    (.reject 0 "CTxMemPool::accept() : free transaction rejected by rate limiter")
  let _ ← orFail (tx.connectInputs P g mapInputs ∅ CDiskTxPos.memoryPool g.pindexBest false false)
    (Failure.instead (.reject 0 "CTxMemPool::accept() : ConnectInputs failed"))
  return ()

/-- `accept`.  Its replacement of an older version of a transaction is disabled. -/
def acceptTx (fCheckInputs : Bool) (tx : CTransaction) : Check CTxMemPool := do
  orFail tx.checkTransaction
    (Failure.instead (.reject 0 "CTxMemPool::accept() : CheckTransaction failed"))
  require (!tx.isCoinBase) (.reject 100 "CTxMemPool::accept() : coinbase as individual tx")
  require (!tx.isCoinStake) (.reject 100 "CTxMemPool::accept() : coinstake as individual tx")
  require (¬ tx.nLockTime.toNat > 2147483647)
    (.reject 0 "CTxMemPool::accept() : not accepting nLockTime beyond 2038 yet")
  require (g.fTestNet || P.isStandard tx)
    (.reject 0 "CTxMemPool::accept() : nonstandard transaction type")
  require (pool.mapTx.lookup (P.getHash tx)).isNone .quiet
  require (!(fCheckInputs && txdb.containsTx (P.getHash tx))) .quiet
  require (tx.vin.all fun txin => (pool.mapNextTx.lookup txin.prevout).isNone) .quiet
  if fCheckInputs then checkInputs P relay g txdb tx else .ok ()
  return pool.addUnchecked (P.getHash tx) tx

def clear : CTxMemPool := ⟨∅, ∅⟩

/-- A call on the pool from outside. -/
inductive Call where
  | accept (relay : RelayPolicy) (g : Globals) (txdb : CTxDB) (fCheckInputs : Bool) (tx : CTransaction)
  | remove (fRecursive : Bool) (tx : CTransaction)
  | removeConflicts (tx : CTransaction)
  | clear

/-- The pool after a call; a transaction that is not accepted leaves it alone. -/
def run (pool : CTxMemPool) : Call → CTxMemPool
  | .accept relay g txdb fCheckInputs tx =>
    ((pool.acceptTx P relay g txdb fCheckInputs tx).toOption).getD pool
  | .remove fRecursive tx => pool.remove P fRecursive pool.mapTx.entries.length tx
  | .removeConflicts tx => pool.removeConflicts P tx
  | .clear => clear

/-- The transaction a call is about. -/
def Call.subject : Call → Option CTransaction
  | .accept _ _ _ _ tx => some tx
  | .remove _ tx => some tx
  | .removeConflicts tx => some tx
  | .clear => none

/-! ## The agreement of the two maps -/

/-- `mapNextTx` is the inverse of the inputs of `mapTx`, and a transaction is filed under its hash.
    `S` are the transactions at hand. -/
structure Indexed (S : Set CTransaction) (pool : CTxMemPool) : Prop where
  keyed : ∀ hash tx, pool.mapTx.lookup hash = some tx → P.getHash tx = hash ∧ tx ∈ S
  inverse : InverseIndex CTransaction.prevouts pool.mapTx pool.mapNextTx

/-- Nothing is in the one pool that is not in the other. -/
def Within (pool' pool : CTxMemPool) : Prop :=
  ∀ hash tx, pool'.mapTx.lookup hash = some tx → pool.mapTx.lookup hash = some tx

variable {P} {relay g txdb} {S : Set CTransaction} {pool} {pool' : CTxMemPool}

theorem Within.refl (pool : CTxMemPool) : Within pool pool := fun _ _ h => h

theorem Within.trans {pool₁ pool₂ pool₃ : CTxMemPool} (h : Within pool₃ pool₂)
    (h' : Within pool₂ pool₁) : Within pool₃ pool₁ := fun hash tx htx => h' hash tx (h hash tx htx)

theorem indexed_clear : Indexed P S clear :=
  ⟨(fun _ _ h => by cases h), InverseIndex.empty⟩

/-! ## Adding -/

theorem addUnchecked_eq (hash : Uint256) (tx : CTransaction) : pool.addUnchecked hash tx =
    ⟨pool.mapTx.insert hash tx, claimAll hash tx.prevouts pool.mapNextTx⟩ := by
  unfold addUnchecked claimAll CTransaction.prevouts
  rw [List.zipIdx_map, List.foldl_map]
  rfl

/-- What an accepted transaction has passed. -/
theorem acceptTx_ok {fCheckInputs : Bool} {tx : CTransaction}
    (h : pool.acceptTx P relay g txdb fCheckInputs tx = .ok pool') :
    tx.TxChecked ∧ tx.isCoinBase = false ∧ tx.isCoinStake = false ∧
      pool.mapTx.lookup (P.getHash tx) = none ∧
      (∀ o ∈ tx.prevouts, pool.mapNextTx.lookup o = none) ∧
      (fCheckInputs = true → checkInputs P relay g txdb tx = .ok ()) ∧
      pool' = pool.addUnchecked (P.getHash tx) tx := by
  unfold acceptTx at h
  simp only [bind_ok, orFail_ok, require_ok, exists_const] at h
  obtain ⟨_, hcheck, hcb, hcs, -, -, hnew, -, hfree, h⟩ := h
  have hinputs : (fCheckInputs = true → checkInputs P relay g txdb tx = .ok ()) ∧
      pool' = pool.addUnchecked (P.getHash tx) tx := by
    cases fCheckInputs with
    | false =>
      cases h
      exact ⟨fun hf => absurd hf Bool.false_ne_true, rfl⟩
    | true =>
      rw [if_pos rfl, bind_ok] at h
      obtain ⟨u, hu, hpool⟩ := h
      cases hpool
      exact ⟨fun _ => hu, rfl⟩
  refine ⟨tx.checkTransaction_ok hcheck, by simpa using hcb, by simpa using hcs,
    Option.isNone_iff_eq_none.mp hnew, fun o ho => ?_, hinputs⟩
  obtain ⟨txin, htxin, rfl⟩ := List.mem_map.mp ho
  exact Option.isNone_iff_eq_none.mp (List.all_eq_true.mp hfree txin htxin)

theorem addUnchecked_indexed (hi : Indexed P S pool) {tx : CTransaction} (hS : tx ∈ S)
    (hchecked : tx.TxChecked) (hnew : pool.mapTx.lookup (P.getHash tx) = none)
    (hfree : ∀ o ∈ tx.prevouts, pool.mapNextTx.lookup o = none) :
    Indexed P S (pool.addUnchecked (P.getHash tx) tx) := by
  rw [addUnchecked_eq]
  refine ⟨fun hash t ht => ?_, hi.inverse.insert hnew hchecked.distinct hfree⟩
  rw [lookup_insert_eq_ite] at ht
  split at ht
  · rename_i heq
    cases ht
    exact ⟨heq, hS⟩
  · exact hi.keyed hash t ht

theorem accept_indexed (hi : Indexed P S pool) {fCheckInputs : Bool} {tx : CTransaction} (hS : tx ∈ S)
    (h : pool.acceptTx P relay g txdb fCheckInputs tx = .ok pool') : Indexed P S pool' := by
  obtain ⟨hchecked, -, -, hnew, hfree, -, rfl⟩ := acceptTx_ok h
  exact addUnchecked_indexed hi hS hchecked hnew hfree

/-! ## Taking out -/

/-- The transaction in the pool that spends an outpoint, if there is one. -/
def spenderOf (pool : CTxMemPool) (o : COutPoint) : Option CTransaction :=
  (pool.mapNextTx.lookup o).bind fun r => pool.mapTx.lookup r.1

theorem mem_of_spenderOf (hi : Indexed P S pool) {o : COutPoint} {tx : CTransaction}
    (h : pool.spenderOf o = some tx) : pool.mapTx.lookup (P.getHash tx) = some tx ∧ tx ∈ S ∧
      o ∈ tx.prevouts := by
  obtain ⟨⟨hash, i⟩, hnext, htx⟩ := Option.bind_eq_some_iff.mp h
  obtain ⟨hkey, hS⟩ := hi.keyed hash tx htx
  obtain ⟨t, ht, ho⟩ := hi.inverse.owner o hash i hnext
  rw [show pool.mapTx.lookup hash = some tx from htx] at ht
  cases ht
  exact ⟨by rw [hkey]; exact htx, hS, List.mem_of_getElem? ho⟩

/-- No dangling entry: where there is an entry there is a transaction. -/
theorem spenderOf_eq_none (hi : Indexed P S pool) {o : COutPoint} :
    pool.spenderOf o = none ↔ pool.mapNextTx.lookup o = none := by
  constructor
  · intro h
    cases hnext : pool.mapNextTx.lookup o with
    | none => rfl
    | some r =>
      obtain ⟨t, ht, -⟩ := hi.inverse.owner o r.1 r.2 hnext
      rw [spenderOf, hnext, Option.bind_some, ht] at h
      cases h
  · intro h
    rw [spenderOf, h]; rfl

/-- The first part of a recursive `remove`: what spends the outputs, one output after the other. -/
def removeSpenders (removeOne : CTxMemPool → CTransaction → CTxMemPool) (hash : Uint256)
    (nOutputs : Nat) (pool : CTxMemPool) : CTxMemPool :=
  (List.range nOutputs).foldl (fun pool n =>
    match pool.spenderOf ⟨hash, UInt32.ofNat n⟩ with
    | none => pool
    | some txNext => removeOne pool txNext) pool

theorem mapNextTx_foldl_erase (tx : CTransaction) (next : StdMap COutPoint (Uint256 × Nat)) :
    tx.vin.foldl (fun m txin => m.erase txin.prevout) next = releaseAll tx.prevouts next := by
  unfold releaseAll CTransaction.prevouts
  rw [List.foldl_map]

/-- The last part: the transaction itself. -/
def eraseTx (pool : CTxMemPool) (tx : CTransaction) : CTxMemPool :=
  ⟨pool.mapTx.erase (P.getHash tx), releaseAll tx.prevouts pool.mapNextTx⟩

theorem remove_succ (fRecursive : Bool) (fuel : Nat) (pool : CTxMemPool) (tx : CTransaction) :
    remove P fRecursive (fuel + 1) pool tx =
      if (pool.mapTx.lookup (P.getHash tx)).isSome then
        eraseTx (P := P) (if fRecursive then
          removeSpenders (remove P fRecursive fuel) (P.getHash tx) tx.vout.length pool else pool) tx
      else pool := by
  rw [remove]
  split
  · dsimp only
    rw [mapNextTx_foldl_erase]
    refine congrArg (fun pool => eraseTx (P := P) pool tx) ?_
    split
    · unfold removeSpenders
      congr 1
      funext pool n
      unfold spenderOf
      cases pool.mapNextTx.lookup _ <;> rfl
    · rfl
  · rfl

theorem removeConflicts_eq (pool : CTxMemPool) (tx : CTransaction) :
    pool.removeConflicts P tx = tx.vin.foldl (fun pool txin =>
      match pool.spenderOf txin.prevout with
      | none => pool
      | some txConflict =>
        if txConflict ≠ tx then pool.remove P true pool.mapTx.entries.length txConflict else pool)
        pool := by
  unfold removeConflicts
  congr 1
  funext pool txin
  unfold spenderOf
  cases pool.mapNextTx.lookup txin.prevout <;> rfl

theorem erase_indexed (hinj : Set.InjOn P.getHash S) (hi : Indexed P S pool) {start : CTxMemPool}
    (hstart : Indexed P S start) (hwithin : Within pool start) {tx : CTransaction} (hS : tx ∈ S)
    (hmem : (start.mapTx.lookup (P.getHash tx)).isSome = true) :
    Indexed P S (eraseTx (P := P) pool tx) ∧ Within (eraseTx (P := P) pool tx) start := by
  -- what is filed under the hash is the transaction
  have hsame : start.mapTx.lookup (P.getHash tx) = some tx := by
    obtain ⟨t, ht⟩ := Option.isSome_iff_exists.mp hmem
    obtain ⟨hhash, htS⟩ := hstart.keyed _ _ ht
    rw [ht, hinj htS hS hhash]
  have hlookup : ∀ hash t, (eraseTx (P := P) pool tx).mapTx.lookup hash = some t →
      pool.mapTx.lookup hash = some t := fun hash t ht => BatchStore.lookup_of_erase ht
  refine ⟨⟨fun hash t ht => hi.keyed hash t (hlookup hash t ht), hi.inverse.erase ?_ ?_⟩,
    fun hash t ht => hwithin hash t (hlookup hash t ht)⟩
  · intro t ht o ho
    rw [hwithin _ _ ht] at hsame
    cases hsame
    exact ho
  · intro hash t ht o ho ho'
    exact hstart.inverse.unique (hwithin _ _ ht) ho hsame ho'

/-- **`remove`**, recursive or not. -/
theorem remove_indexed (hinj : Set.InjOn P.getHash S) (fRecursive : Bool) (fuel : Nat) :
    ∀ {pool : CTxMemPool} {tx : CTransaction}, Indexed P S pool → tx ∈ S →
      Indexed P S (remove P fRecursive fuel pool tx) ∧
        Within (remove P fRecursive fuel pool tx) pool := by
  induction fuel with
  | zero => exact fun hi _ => ⟨hi, Within.refl _⟩
  | succ fuel ih =>
    intro pool tx hi hS
    rw [remove_succ]
    split
    · rename_i hmem
      cases fRecursive with
      | false => exact erase_indexed hinj hi hi (Within.refl _) hS hmem
      | true =>
        -- what spends the outputs goes first, and that only shrinks the pool
        obtain ⟨hchildren, hwithin⟩ : Indexed P S (removeSpenders (remove P true fuel) (P.getHash tx)
            tx.vout.length pool) ∧ Within (removeSpenders (remove P true fuel) (P.getHash tx)
            tx.vout.length pool) pool := by
          refine List.foldlRecOn _ _ (motive := fun p => Indexed P S p ∧ Within p pool)
            ⟨hi, Within.refl _⟩ ?_
          rintro p ⟨hp, hpw⟩ n -
          split
          · exact ⟨hp, hpw⟩
          · rename_i txNext hnext
            obtain ⟨h, hw⟩ := ih hp (mem_of_spenderOf hp hnext).2.1
            exact ⟨h, hw.trans hpw⟩
        exact erase_indexed hinj hchildren hi hwithin hS hmem
    · exact ⟨hi, Within.refl _⟩

theorem removeConflicts_indexed (hinj : Set.InjOn P.getHash S) (hi : Indexed P S pool)
    (tx : CTransaction) : Indexed P S (pool.removeConflicts P tx) ∧
      Within (pool.removeConflicts P tx) pool := by
  rw [removeConflicts_eq]
  refine List.foldlRecOn _ _ (motive := fun p => Indexed P S p ∧ Within p pool)
    ⟨hi, Within.refl _⟩ ?_
  rintro p ⟨hp, hpw⟩ txin -
  split
  · exact ⟨hp, hpw⟩
  · rename_i txConflict hconflict
    split
    · obtain ⟨h, hw⟩ := remove_indexed hinj true p.mapTx.entries.length hp
        (mem_of_spenderOf hp hconflict).2.1
      exact ⟨h, hw.trans hpw⟩
    · exact ⟨hp, hpw⟩

/-! ## Every sequence of calls -/

theorem run_indexed (hinj : Set.InjOn P.getHash S) (hi : Indexed P S pool) (call : Call)
    (hS : ∀ tx ∈ call.subject, tx ∈ S) : Indexed P S (run P pool call) := by
  cases call with
  | accept relay g txdb fCheckInputs tx =>
    show Indexed P S (((pool.acceptTx P relay g txdb fCheckInputs tx).toOption).getD pool)
    cases hx : pool.acceptTx P relay g txdb fCheckInputs tx with
    | error e => exact hi
    | ok pool' => exact accept_indexed hi (hS tx rfl) hx
  | remove fRecursive tx => exact (remove_indexed hinj fRecursive _ hi (hS tx rfl)).1
  | removeConflicts tx => exact (removeConflicts_indexed hinj hi tx).1
  | clear => exact indexed_clear

theorem runs_indexed (hinj : Set.InjOn P.getHash S) (calls : List Call)
    (hS : ∀ call ∈ calls, ∀ tx ∈ call.subject, tx ∈ S) :
    Indexed P S (calls.foldl (run P) clear) := by
  refine List.foldlRecOn _ _ (motive := Indexed P S) indexed_clear ?_
  exact fun pool hi call hcall => run_indexed hinj hi call (hS call hcall)

/-- **The links of the memory pool.**  After any sequence of calls on an empty pool, every input of
    every transaction in it has its entry, every entry belongs to a transaction in it, and no two of
    its transactions spend the same outpoint. -/
theorem mapNextTx_inverse (hinj : Set.InjOn P.getHash S) (calls : List Call)
    (hS : ∀ call ∈ calls, ∀ tx ∈ call.subject, tx ∈ S) :
    let pool := calls.foldl (run P) clear
    (∀ hash tx i txin, pool.mapTx.lookup hash = some tx → tx.vin[i]? = some txin →
      pool.mapNextTx.lookup txin.prevout = some (hash, i)) ∧
    (∀ o hash i, pool.mapNextTx.lookup o = some (hash, i) →
      ∃ tx txin, pool.mapTx.lookup hash = some tx ∧ tx.vin[i]? = some txin ∧ txin.prevout = o) ∧
    (∀ hash hash' tx tx' o, pool.mapTx.lookup hash = some tx → pool.mapTx.lookup hash' = some tx' →
      o ∈ tx.prevouts → o ∈ tx'.prevouts → hash = hash') := by
  have hi := (runs_indexed hinj calls hS).inverse
  refine ⟨fun hash tx i txin htx htxin => ?_, fun o hash i hnext => ?_,
    fun hash hash' tx tx' o htx htx' ho ho' => hi.unique htx ho htx' ho'⟩
  · refine hi.entry hash tx i txin.prevout htx ?_
    rw [CTransaction.prevouts, List.getElem?_map, htxin]; rfl
  · obtain ⟨tx, htx, ho⟩ := hi.owner o hash i hnext
    rw [CTransaction.prevouts, List.getElem?_map] at ho
    obtain ⟨txin, htxin, rfl⟩ := Option.map_eq_some_iff.mp ho
    exact ⟨tx, txin, htx, htxin, rfl⟩

end CTxMemPool

/-! ## No exceptions -/

/-- An exception, as against a returned `false`. -/
def Failure.IsThrow : Failure → Prop
  | .throw _ => True
  | .reject _ _ => False

namespace CTransaction

variable {g : Globals} {tx : CTransaction} {inputs : MapPrevTx} {P : Primitives}

/-- Every input has its transaction among the fetched, with that output. -/
def InputsThere (tx : CTransaction) (inputs : MapPrevTx) : Prop :=
  ∀ txin ∈ tx.vin, ∃ txindex txPrev, inputs.lookup txin.prevout.hash = some (txindex, txPrev) ∧
    txin.prevout.n.toNat < txPrev.vout.length

theorem fetchInputs_there {txdb : CTxDB} {mapTestPool : QueuedChanges} {fBlock fMiner : Bool}
    (hcb : tx.isCoinBase = false)
    (h : tx.fetchInputs g txdb mapTestPool fBlock fMiner = .ok inputs) : tx.InputsThere inputs := by
  unfold fetchInputs at h
  rw [if_neg (by rw [hcb]; exact Bool.false_ne_true), bind_ok] at h
  obtain ⟨fetched, -, h⟩ := h
  rw [require_bind_ok, List.all_eq_true] at h
  obtain ⟨hrange, h⟩ := h
  cases h
  intro txin htxin
  have hin := hrange txin htxin
  unfold prevoutInRange at hin
  split at hin
  · cases hin
  · rename_i txindex txPrev hlookup
    rw [decide_eq_true_eq, not_or] at hin
    exact ⟨txindex, txPrev, hlookup, by omega⟩

theorem checkTransaction_noThrow (tx : CTransaction) : Never Failure.IsThrow tx.checkTransaction := by
  unfold checkTransaction
  refine (Never.require id).bind fun _ _ => (Never.require id).bind fun _ _ =>
    (Never.require id).bind fun _ _ => Never.bind ?_ fun _ _ => (Never.require id).bind fun _ _ => ?_
  · refine Never.foldlM (I := fun _ => True) (fun txout _ s _ => ⟨?_, fun _ _ => trivial⟩) trivial
    unfold checkTxOut
    exact (Never.require id).bind fun _ _ => (Never.require id).bind fun _ _ =>
      (Never.require id).bind fun _ _ => (Never.require id).bind fun _ _ => Never.ok _
  · split <;> exact Never.require id

theorem getOutputFor_there (h : tx.InputsThere inputs) {txin : CTxIn} (htxin : txin ∈ tx.vin) :
    ∃ txout, getOutputFor txin inputs = .ok txout := by
  obtain ⟨txindex, txPrev, hlookup, hn⟩ := h txin htxin
  refine ⟨txPrev.vout[txin.prevout.n.toNat], ?_⟩
  unfold getOutputFor
  rw [hlookup]
  dsimp only
  rw [List.getElem?_eq_getElem hn]

theorem exists_getValueIn (h : tx.InputsThere inputs) : ∃ v, tx.getValueIn inputs = .ok v := by
  unfold getValueIn
  split
  · exact ⟨0, rfl⟩
  · obtain ⟨v, hv, -⟩ := foldlM_total (P := fun _ _ => True) (l := tx.vin) (f := addValueIn inputs)
      (b := 0) trivial fun pre txin post r hvin _ => by
        obtain ⟨txout, hout⟩ := getOutputFor_there h
          (by rw [hvin]; exact List.mem_append_right _ List.mem_cons_self)
        unfold addValueIn
        rw [hout]
        exact ⟨_, rfl, trivial⟩
    exact ⟨v, hv⟩

theorem getValueIn_noThrow (h : tx.InputsThere inputs) :
    Never Failure.IsThrow (tx.getValueIn inputs) := by
  obtain ⟨v, hv⟩ := exists_getValueIn h
  rw [hv]
  exact Never.ok v

theorem connectInputs_noThrow {mapTestPool : QueuedChanges} {posThisTx : CDiskTxPos}
    {pindexBlock : BlockPtr} {fBlock fMiner : Bool} (h : tx.InputsThere inputs) (hc : tx.TxChecked) :
    Never Failure.IsThrow
      (tx.connectInputs P g inputs mapTestPool posThisTx pindexBlock fBlock fMiner) := by
  unfold connectInputs
  split
  · exact Never.ok _
  refine Never.bind ?_ fun _ _ => Never.bind ?_ fun _ _ => Never.bind ?_ fun _ _ => Never.ok _
  · refine Never.foldlM (I := fun _ => True) (fun txin htxin s _ => ⟨?_, fun _ _ => trivial⟩) trivial
    obtain ⟨txindex, txPrev, hlookup, hn⟩ := h txin htxin
    unfold checkInput
    rw [hlookup]
    dsimp only
    split
    · exact (Never.require id).bind fun _ _ => (Never.require id).bind fun _ _ =>
        (Never.require id).bind fun _ _ => Never.ok _
    · exact Never.error id
  · -- what is spent stays among the fetched
    refine Never.foldlM (I := fun s => ∀ txin ∈ tx.vin, (s.1.lookup txin.prevout.hash).isSome = true)
      (fun input hinput s hs => ?_) fun txin htxin => ?_
    · have htxin : input.1 ∈ tx.vin := by
        obtain ⟨i, hi, heq⟩ := List.mem_iff_getElem.mp hinput
        rw [← heq, List.getElem_zipIdx]
        exact List.getElem_mem _
      obtain ⟨⟨txindex, txPrev⟩, hlookup⟩ := Option.isSome_iff_exists.mp (hs input.1 htxin)
      unfold spendInput
      dsimp only
      rw [hlookup]
      dsimp only
      constructor
      · split
        · exact Never.error id
        · refine (Never.require id).bind fun _ _ => Never.bind ?_ fun _ _ => Never.ok _
          unfold checkSignature
          split
          · exact Never.ok _
          · exact Never.require id
      · intro s' hs'
        split at hs'
        · cases hs'
        · rw [require_bind_ok, bind_ok] at hs'
          obtain ⟨-, -, -, hs'⟩ := hs'
          cases hs'
          intro txin htxin'
          rw [lookup_insert_eq_ite]
          split
          · rfl
          · exact hs txin htxin'
    · obtain ⟨txindex, txPrev, hlookup, -⟩ := h txin htxin
      rw [hlookup]
      rfl
  · unfold checkFee
    split
    · exact Never.ok _
    · rw [hc.getValueOut_eq]
      exact Never.bind (Never.ok _) fun _ _ => (Never.require id).bind fun _ _ =>
        (Never.require id).bind fun _ _ => (Never.require id).bind fun _ _ => Never.require id

end CTransaction

namespace CTxMemPool

variable {P : Primitives} {relay : RelayPolicy} {g : Globals} {txdb : CTxDB} {pool : CTxMemPool}

theorem isThrow_of_instead {e e' : Failure} (he : ¬ e.IsThrow) (h : (e.instead e').IsThrow) :
    e'.IsThrow := by
  cases e' with
  | reject nDoS msg => exact he h
  | throw what => trivial

/-- A transaction that passed `CheckTransaction` is accepted or refused. -/
theorem checkInputs_noThrow {tx : CTransaction} (hc : tx.TxChecked) (hcb : tx.isCoinBase = false) :
    Never Failure.IsThrow (checkInputs P relay g txdb tx) := by
  unfold checkInputs
  refine Never.bind (Never.orFail fun e _ => ?_) fun mapInputs hfetch => ?_
  · split <;> exact id
  · rw [orFail_ok] at hfetch
    have hthere := CTransaction.fetchInputs_there hcb hfetch
    refine (Never.require id).bind fun _ _ => (CTransaction.getValueIn_noThrow hthere).bind fun _ _ => ?_
    rw [hc.getValueOut_eq]
    refine Never.bind (Never.ok _) fun _ _ => (Never.require id).bind fun _ _ =>
      (Never.require id).bind fun _ _ => Never.bind (Never.orFail fun e he hthrow => ?_) fun _ _ =>
        Never.ok _
    exact CTransaction.connectInputs_noThrow hthere hc e he (isThrow_of_instead id hthrow)

/-- `accept` throws nothing. -/
theorem acceptTx_noThrow (fCheckInputs : Bool) (tx : CTransaction) :
    Never Failure.IsThrow (pool.acceptTx P relay g txdb fCheckInputs tx) := by
  unfold acceptTx
  refine Never.bind (Never.orFail fun e he hthrow => ?_) fun _ hcheck => ?_
  · exact tx.checkTransaction_noThrow e he (isThrow_of_instead id hthrow)
  rw [orFail_ok] at hcheck
  refine (Never.require id).bind fun _ hcb => (Never.require id).bind fun _ _ =>
    (Never.require id).bind fun _ _ => (Never.require id).bind fun _ _ =>
    (Never.require id).bind fun _ _ => (Never.require id).bind fun _ _ =>
    (Never.require id).bind fun _ _ => ?_
  rw [require_ok, Bool.not_eq_true'] at hcb
  split
  · exact (checkInputs_noThrow (tx.checkTransaction_ok hcheck) hcb).bind fun _ _ => Never.ok _
  · exact Never.ok _

end CTxMemPool
/-! ## A family of three -/

namespace Family

open Sample CTxMemPool

/-- A transaction that spends output 0 of the transaction with hash `prev`. -/
def spend (prev : Uint256) (nTime : UInt32) (nValue : Int) : CTransaction where
  nVersion := 1
  nTime := nTime
  vin := [⟨⟨prev, 0⟩, [], 0xffffffff⟩]
  vout := [⟨nValue, [0x51]⟩]
  nLockTime := 0

def parent : CTransaction := spend 0x11 1398947400 (9 * COIN)

def child : CTransaction := spend 0x22 1398947410 (8 * COIN)

def rival : CTransaction := spend 0x11 1398947420 (7 * COIN)

def txs : List (CTransaction × Uint256) := [(parent, 0x22), (child, 0x33), (rival, 0x44)]

def primitives : Primitives := Primitives.ofTables txs [] []

def relay : RelayPolicy := ⟨fun _ _ => true, fun _ => true⟩

/-- The parent, the child, and the rival, which is refused. -/
def calls : List CTxMemPool.Call :=
  [.accept relay (nodeB [genesis]) emptyDb false parent,
    .accept relay (nodeB [genesis]) emptyDb false child,
    .accept relay (nodeB [genesis]) emptyDb false rival]

theorem mapNextTx_inverse_calls :
    let pool := calls.foldl (run primitives) clear
    (∀ hash tx i txin, pool.mapTx.lookup hash = some tx → tx.vin[i]? = some txin →
      pool.mapNextTx.lookup txin.prevout = some (hash, i)) ∧
    (∀ o hash i, pool.mapNextTx.lookup o = some (hash, i) →
      ∃ tx txin, pool.mapTx.lookup hash = some tx ∧ tx.vin[i]? = some txin ∧ txin.prevout = o) ∧
    (∀ hash hash' tx tx' o, pool.mapTx.lookup hash = some tx → pool.mapTx.lookup hash' = some tx' →
      o ∈ tx.prevouts → o ∈ tx'.prevouts → hash = hash') := by
  have hsubjects : ∀ call ∈ calls, ∀ tx ∈ call.subject, tx ∈ txs.map Prod.fst := by decide
  exact mapNextTx_inverse (S := { tx | tx ∈ txs.map Prod.fst })
    (Primitives.ofTables_injOn (by decide) (by decide)) calls hsubjects

end Family
end Silkcoin
