/-
  `ReorderTransactions`: everything in the wallet gets a POSITION.

  Transactions and account entries are gone through by time.  What has no position yet is put behind all that
  was met so far, and what has one is moved up by the number of positions given out at or below its own.

  1. Ordered items are moved up monotonically, and stay in order (`Tidy.lt_of_lt`).  `nOrderPosNext` is
     above all that was met.
  2. The positions given out are those AFTER moving, the ones they are compared with those BEFORE.  So an
     ordered item can be moved onto a position that was given out, once two of them were (`Tidy.clash`).
  3. A transaction that gets its first position is not written, since it is in memory.  Of the account entries
     only those of the account "" are gone through.
-/
import Silkcoin.AccountingEntry
import Silkcoin.WalletNotices

namespace Silkcoin

open Codec Validation BatchStore

/-! ## What is gone through -/

inductive DBErrors where
  | DB_LOAD_OK
  | DB_CORRUPT
  | DB_TOO_NEW
  | DB_LOAD_FAIL
  | DB_NEED_REWRITE
deriving DecidableEq

/-- A transaction, or an entry of the account book. -/
inductive TxPair where
  | pwtx (hash : Uint256) (wtx : CWalletTx)
  | pacentry (acentry : CAccountingObject)

/-- What can have a position: a transaction, or entry number `nEntryNo` of an account. -/
inductive OrderKey where
  | tx (hash : Uint256)
  | acentry (strAccount : List UInt8) (nEntryNo : BitVec 64)
deriving DecidableEq

namespace TxPair

def key : TxPair → OrderKey
  | pwtx hash _ => .tx hash
  | pacentry acentry => .acentry acentry.strAccount acentry.nEntryNo

def nTime : TxPair → Int
  | pwtx _ wtx => wtx.nTimeReceived.toNat
  | pacentry acentry => acentry.nTime

def nOrderPos : TxPair → Int
  | pwtx _ wtx => wtx.nOrderPos
  | pacentry acentry => acentry.nOrderPos

def setOrderPos (nOrderPos : Int) : TxPair → TxPair
  | pwtx hash wtx => pwtx hash { wtx with nOrderPos := nOrderPos }
  | pacentry acentry => pacentry { acentry with nOrderPos := nOrderPos }

def Unordered (item : TxPair) : Prop := item.nOrderPos = -1

instance (item : TxPair) : Decidable item.Unordered := inferInstanceAs (Decidable (_ = _))

@[simp] theorem key_setOrderPos (item : TxPair) (n : Int) : (item.setOrderPos n).key = item.key := by
  cases item <;> rfl

end TxPair

/-- The wallet in memory, and the records "tx" and "acentry" of its file. -/
structure OrderBook where
  mapWallet : StdMap Uint256 CWalletTx
  nOrderPosNext : Int
  txRecords : StdMap Uint256 CWalletTx
  acentries : AccountRecords

namespace OrderBook

/-- `txByTime`: of the same time, transactions come first. -/
def txByTime (b : OrderBook) : List TxPair :=
  let txs := (b.mapWallet.entries.insertionSort fun e e' => e.1 ≤ e'.1).map fun e => TxPair.pwtx e.1 e.2
  let acentries := (b.acentries.listAccountCreditDebit []).map TxPair.pacentry
  (txs ++ acentries).insertionSort fun x y => x.nTime ≤ y.nTime

/-- A position of what is in memory; entries are read from the file whenever they are wanted. -/
def nOrderPos (b : OrderBook) : OrderKey → Option Int
  | .tx hash => (b.mapWallet.lookup hash).map CWalletTx.nOrderPos
  | .acentry strAccount nEntryNo => (b.acentries.lookup (strAccount, nEntryNo)).map fun e => e.nOrderPos

/-- What an item points to is changed; the list of entries is a copy. -/
def keep (b : OrderBook) : TxPair → OrderBook
  | .pwtx hash wtx => { b with mapWallet := b.mapWallet.insert hash wtx }
  | .pacentry _ => b

/-- `WriteTx` and `WriteAccountingEntry`. -/
def write (P : Primitives) (b : OrderBook) : TxPair → OrderBook
  | .pwtx _ wtx => { b with txRecords := b.txRecords.insert (P.getHash wtx.tx) wtx }
  | .pacentry acentry => { b with
      acentries := b.acentries.insert (acentry.strAccount, acentry.nEntryNo) acentry }

end OrderBook

/-! ## The loop -/

/-- `nOrderPosNext` and `nOrderPosOffsets`. -/
structure Placing where
  nOrderPosNext : Int
  nOrderPosOffsets : List Int

/-- How far a position is moved: the loop over `nOrderPosOffsets`. -/
def Placing.orderPosOff (s : Placing) (nOrderPos : Int) : Int :=
  s.nOrderPosOffsets.countP fun nOffsetStart => nOrderPos ≥ nOffsetStart

/-- The position an item with position `nOrderPos` gets. -/
def Placing.place (s : Placing) (nOrderPos : Int) : Int × Placing :=
  if nOrderPos = -1 then
    (s.nOrderPosNext, ⟨int64 (s.nOrderPosNext + 1), s.nOrderPosOffsets ++ [s.nOrderPosNext]⟩)
  else
    let nOrderPos := int64 (nOrderPos + s.orderPosOff nOrderPos)
    (nOrderPos, { s with nOrderPosNext := max s.nOrderPosNext (int64 (nOrderPos + 1)) })

namespace OrderBook

variable (P : Primitives) (canWrite : TxPair → Bool)

/-- What is written back: an entry whenever it gets a position, and all that is moved. -/
def mustWrite (s : Placing) : TxPair → Bool
  | .pwtx _ wtx => decide (wtx.nOrderPos ≠ -1 ∧ s.orderPosOff wtx.nOrderPos ≠ 0)
  | .pacentry acentry => decide (acentry.nOrderPos = -1 ∨ s.orderPosOff acentry.nOrderPos ≠ 0)

/-- The body of the loop; the database may refuse to write. -/
def reorderItem (st : Placing × OrderBook) (item : TxPair) : Except DBErrors (Placing × OrderBook) :=
  let (nOrderPos, s) := st.1.place item.nOrderPos
  let item' := item.setOrderPos nOrderPos
  let b := st.2.keep item'
  if mustWrite st.1 item then
    if canWrite item' then .ok (s, b.write P item') else .error .DB_LOAD_FAIL
  else .ok (s, b)

def reorderTransactions (b : OrderBook) : Except DBErrors OrderBook := do
  let (s, b) ← b.txByTime.foldlM (reorderItem P canWrite) (⟨0, []⟩, b)
  return { b with nOrderPosNext := s.nOrderPosNext }

end OrderBook

/-! ## Positions of what was met -/

/-- Behind the items `done`, each with the position it got: assigned positions are below `B`. -/
structure Tidy (B : Int) (s : Placing) (done : List (TxPair × Int)) : Prop where
  next_nonneg : 0 ≤ s.nOrderPosNext
  next_le : s.nOrderPosNext ≤ B + s.nOrderPosOffsets.length
  offsets : s.nOrderPosOffsets = (done.filter fun x => decide x.1.Unordered).map Prod.snd
  moved : ∀ x ∈ done, ¬x.1.Unordered → 0 ≤ x.1.nOrderPos ∧ x.2 = x.1.nOrderPos + s.orderPosOff x.1.nOrderPos
  range : ∀ x ∈ done, 0 ≤ x.2 ∧ x.2 < s.nOrderPosNext
  -- two items share a position only so
  clash : ∀ before x, before ++ [x] <+: done → ∀ y ∈ before, y.2 = x.2 →
    y.1.Unordered ∧ ¬x.1.Unordered ∧ 2 ≤ (before.filter fun x => decide x.1.Unordered).length

theorem Placing.orderPosOff_nonneg (s : Placing) (p : Int) : 0 ≤ s.orderPosOff p := Int.natCast_nonneg _

theorem Placing.orderPosOff_le (s : Placing) (p : Int) : s.orderPosOff p ≤ s.nOrderPosOffsets.length :=
  Int.ofNat_le.mpr List.countP_le_length

theorem Placing.orderPosOff_mono (s : Placing) {p q : Int} (h : p ≤ q) : s.orderPosOff p ≤ s.orderPosOff q := by
  apply Int.ofNat_le.mpr
  apply List.countP_mono_left
  intro o _ ho
  have hle : p ≥ o := of_decide_eq_true ho
  exact decide_eq_true (by omega)

/-- A position given out later counts only for those at or above it. -/
theorem Placing.orderPosOff_append (s : Placing) (n o p : Int) :
    Placing.orderPosOff ⟨n, s.nOrderPosOffsets ++ [o]⟩ p = s.orderPosOff p + if p ≥ o then 1 else 0 := by
  unfold orderPosOff
  rw [List.countP_append, List.countP_singleton]
  split <;> simp_all

namespace Tidy

variable {B : Int} {s : Placing} {done : List (TxPair × Int)}

theorem start (hB : 0 ≤ B) : Tidy B ⟨0, []⟩ [] where
  next_nonneg := Int.le_refl 0
  next_le := by simpa using hB
  offsets := rfl
  moved x hx := by cases hx
  range x hx := by cases hx
  clash before x hpre := by
    have hlen := hpre.length_le
    simp at hlen

/-- Ordered items keep their order. -/
theorem lt_of_lt (h : Tidy B s done) {x y : TxPair × Int} (hx : x ∈ done) (hy : y ∈ done) (hox : ¬x.1.Unordered)
    (hoy : ¬y.1.Unordered) (hlt : x.1.nOrderPos < y.1.nOrderPos) : x.2 < y.2 := by
  have hx' := (h.moved x hx hox).2
  have hy' := (h.moved y hy hoy).2
  have hmono := s.orderPosOff_mono (Int.le_of_lt hlt)
  omega

/-- An item without a position is put behind the others. -/
theorem step_unordered (h : Tidy B s done) {item : TxPair} (hitem : item.Unordered)
    (hroom : B + done.length < 9223372036854775807) :
    Tidy B (s.place item.nOrderPos).2 (done ++ [(item, (s.place item.nOrderPos).1)]) := by
  have hplace : s.place item.nOrderPos =
      (s.nOrderPosNext, ⟨int64 (s.nOrderPosNext + 1), s.nOrderPosOffsets ++ [s.nOrderPosNext]⟩) := if_pos hitem
  have hcount : s.nOrderPosOffsets.length ≤ done.length := by
    rw [h.offsets, List.length_map]
    exact List.length_filter_le _ _
  have hnext := h.next_le
  have hpos := h.next_nonneg
  have hint : int64 (s.nOrderPosNext + 1) = s.nOrderPosNext + 1 := int64_of_range (by omega) (by omega)
  rw [hplace, hint]
  dsimp only
  refine ⟨by show (0 : Int) ≤ s.nOrderPosNext + 1; omega, ?_, ?_, ?_, ?_, ?_⟩
  · show s.nOrderPosNext + 1 ≤ B + ((s.nOrderPosOffsets ++ [s.nOrderPosNext]).length : Int)
    rw [List.length_append, List.length_singleton]
    omega
  · show s.nOrderPosOffsets ++ [s.nOrderPosNext] = _
    rw [List.filter_append, List.map_append, ← h.offsets, List.filter_singleton, decide_eq_true hitem]
    rfl
  · intro x hx hox
    rcases List.mem_append.mp hx with hx | hx
    · obtain ⟨hnonneg, hmoved⟩ := h.moved x hx hox
      have hlt := (h.range x hx).2
      have hoff := s.orderPosOff_nonneg x.1.nOrderPos
      -- what was met is below the position given out now
      have hbelow : ¬x.1.nOrderPos ≥ s.nOrderPosNext := by omega
      rw [Placing.orderPosOff_append, if_neg hbelow, Int.add_zero]
      exact ⟨hnonneg, hmoved⟩
    · rw [List.mem_singleton.mp hx] at hox
      exact absurd hitem hox
  · intro x hx
    show 0 ≤ x.2 ∧ x.2 < s.nOrderPosNext + 1
    rcases List.mem_append.mp hx with hx | hx
    · have hrange := h.range x hx
      omega
    · rw [List.mem_singleton.mp hx]
      dsimp only
      omega
  · intro before x hpre y hy hsame
    rcases List.prefix_concat_iff.mp hpre with heq | hpre
    · obtain ⟨rfl, hlast⟩ := List.append_inj' heq rfl
      obtain rfl := List.singleton_inj.mp hlast
      have hlt := (h.range y hy).2
      dsimp only at hsame
      omega
    · exact h.clash before x hpre y hy hsame

/-- An item with a position is moved. -/
theorem step_ordered (h : Tidy B s done) {item : TxPair} (hitem : ¬item.Unordered) (hnonneg : 0 ≤ item.nOrderPos)
    (hB : item.nOrderPos < B) (hroom : B + done.length < 9223372036854775807)
    (hdistinct : ∀ y ∈ done, ¬y.1.Unordered → y.1.nOrderPos ≠ item.nOrderPos) :
    Tidy B (s.place item.nOrderPos).2 (done ++ [(item, (s.place item.nOrderPos).1)]) := by
  have hcount : s.nOrderPosOffsets.length ≤ done.length := by
    rw [h.offsets, List.length_map]
    exact List.length_filter_le _ _
  have hoff := s.orderPosOff_nonneg item.nOrderPos
  have hoffle := s.orderPosOff_le item.nOrderPos
  have hnext := h.next_le
  have hpos := h.next_nonneg
  have hplace : s.place item.nOrderPos = (item.nOrderPos + s.orderPosOff item.nOrderPos,
      { s with nOrderPosNext := max s.nOrderPosNext (item.nOrderPos + s.orderPosOff item.nOrderPos + 1) }) := by
    have hint : int64 (item.nOrderPos + s.orderPosOff item.nOrderPos) =
        item.nOrderPos + s.orderPosOff item.nOrderPos := int64_of_range (by omega) (by omega)
    have hint' : int64 (item.nOrderPos + s.orderPosOff item.nOrderPos + 1) =
        item.nOrderPos + s.orderPosOff item.nOrderPos + 1 := int64_of_range (by omega) (by omega)
    have hp : ¬item.nOrderPos = -1 := hitem
    unfold Placing.place
    dsimp only
    rw [if_neg hp, hint, hint']
  rw [hplace]
  dsimp only
  refine ⟨?_, ?_, ?_, ?_, ?_, ?_⟩
  · show 0 ≤ max s.nOrderPosNext (item.nOrderPos + s.orderPosOff item.nOrderPos + 1)
    omega
  · show max s.nOrderPosNext (item.nOrderPos + s.orderPosOff item.nOrderPos + 1) ≤ B + s.nOrderPosOffsets.length
    omega
  · show s.nOrderPosOffsets = _
    rw [List.filter_append, List.map_append, ← h.offsets, List.filter_singleton, decide_eq_false hitem]
    exact (List.append_nil _).symm
  · intro x hx hox
    rcases List.mem_append.mp hx with hx | hx
    · exact h.moved x hx hox
    · rw [List.mem_singleton.mp hx]
      exact ⟨hnonneg, rfl⟩
  · intro x hx
    show 0 ≤ x.2 ∧ x.2 < max s.nOrderPosNext (item.nOrderPos + s.orderPosOff item.nOrderPos + 1)
    rcases List.mem_append.mp hx with hx | hx
    · have hrange := h.range x hx
      omega
    · rw [List.mem_singleton.mp hx]
      dsimp only
      omega
  · intro before x hpre y hy hsame
    rcases List.prefix_concat_iff.mp hpre with heq | hpre
    · obtain ⟨rfl, hlast⟩ := List.append_inj' heq rfl
      obtain rfl := List.singleton_inj.mp hlast
      dsimp only at hsame
      by_cases hoy : y.1.Unordered
      · refine ⟨hoy, hitem, ?_⟩
        -- a single position that was given out is never met
        have hmem : y.2 ∈ s.nOrderPosOffsets := by
          rw [h.offsets]
          exact List.mem_map_of_mem (List.mem_filter.mpr ⟨hy, decide_eq_true hoy⟩)
        have hlen : s.nOrderPosOffsets.length = (before.filter fun x => decide x.1.Unordered).length := by
          rw [h.offsets, List.length_map]
        rw [← hlen]
        by_contra hfew
        obtain ⟨o, ho⟩ := List.length_eq_one_iff.mp
          (Nat.le_antisymm (by omega) (List.length_pos_of_mem hmem))
        rw [ho] at hmem
        obtain rfl := List.mem_singleton.mp hmem
        have hone : s.orderPosOff item.nOrderPos = if item.nOrderPos ≥ y.2 then 1 else 0 := by
          unfold Placing.orderPosOff
          rw [ho, List.countP_singleton]
          split <;> simp_all
        rw [hone] at hsame
        split at hsame <;> omega
      · have hmoved := (h.moved y hy hoy).2
        have hne := hdistinct y hy hoy
        rcases Int.lt_or_gt_of_ne hne with hlt | hlt
        · have hmono := s.orderPosOff_mono (Int.le_of_lt hlt)
          omega
        · have hmono := s.orderPosOff_mono (Int.le_of_lt hlt)
          omega
    · exact h.clash before x hpre y hy hsame

end Tidy

/-! ## The items -/

/-- What the loop looks at: the transactions, and the entries of the account "". -/
def OrderKey.Met : OrderKey → Prop
  | .tx _ => True
  | .acentry strAccount _ => strAccount = []

namespace OrderBook

variable {b : OrderBook}

theorem mem_txByTime {item : TxPair} : item ∈ b.txByTime ↔
    (∃ hash wtx, b.mapWallet.lookup hash = some wtx ∧ item = .pwtx hash wtx) ∨
      ∃ nEntryNo r, b.acentries.lookup ([], nEntryNo) = some r ∧
        item = .pacentry { r with strAccount := [], nEntryNo := nEntryNo } := by
  have hone : ([] : List UInt8) ≠ ascii "*" := by decide
  unfold txByTime
  dsimp only
  rw [(List.perm_insertionSort _ _).mem_iff, List.mem_append, List.mem_map, List.mem_map]
  constructor
  · rintro (⟨⟨hash, wtx⟩, hmem, rfl⟩ | ⟨e, hmem, rfl⟩)
    · exact Or.inl ⟨hash, wtx, AList.mem_lookup_iff.mpr ((List.perm_insertionSort _ _).mem_iff.mp hmem), rfl⟩
    · obtain ⟨nEntryNo, r, hlookup, rfl⟩ := (AccountRecords.mem_listAccountCreditDebit hone).mp hmem
      exact Or.inr ⟨nEntryNo, r, hlookup, rfl⟩
  · rintro (⟨hash, wtx, hlookup, rfl⟩ | ⟨nEntryNo, r, hlookup, rfl⟩)
    · exact Or.inl ⟨⟨hash, wtx⟩, (List.perm_insertionSort _ _).mem_iff.mpr (AList.mem_lookup_iff.mp hlookup), rfl⟩
    · exact Or.inr ⟨_, (AccountRecords.mem_listAccountCreditDebit hone).mpr ⟨nEntryNo, r, hlookup, rfl⟩, rfl⟩

/-- Every item has the position it has in the wallet. -/
theorem nOrderPos_key {item : TxPair} (h : item ∈ b.txByTime) :
    item.key.Met ∧ b.nOrderPos item.key = some item.nOrderPos := by
  rcases mem_txByTime.mp h with ⟨hash, wtx, hlookup, rfl⟩ | ⟨nEntryNo, r, hlookup, rfl⟩
  · refine ⟨trivial, ?_⟩
    show (b.mapWallet.lookup hash).map CWalletTx.nOrderPos = _
    rw [hlookup]
    rfl
  · refine ⟨rfl, ?_⟩
    show (b.acentries.lookup ([], nEntryNo)).map _ = _
    rw [hlookup]
    rfl

theorem exists_item {k : OrderKey} (hmet : k.Met) {p : Int} (h : b.nOrderPos k = some p) :
    ∃ item ∈ b.txByTime, item.key = k ∧ item.nOrderPos = p := by
  have hitem : ∃ item ∈ b.txByTime, item.key = k := by
    cases k with
    | tx hash =>
      obtain ⟨wtx, hlookup, -⟩ := Option.map_eq_some_iff.mp h
      exact ⟨_, mem_txByTime.mpr (Or.inl ⟨hash, wtx, hlookup, rfl⟩), rfl⟩
    | acentry strAccount nEntryNo =>
      obtain rfl : strAccount = [] := hmet
      obtain ⟨r, hlookup, -⟩ := Option.map_eq_some_iff.mp h
      exact ⟨_, mem_txByTime.mpr (Or.inr ⟨nEntryNo, r, hlookup, rfl⟩), rfl⟩
  obtain ⟨item, hmem, rfl⟩ := hitem
  exact ⟨item, hmem, rfl, Option.some.inj ((nOrderPos_key hmem).2.symm.trans h)⟩

/-- No item is met twice. -/
theorem nodup_keys (b : OrderBook) : (b.txByTime.map TxPair.key).Nodup := by
  unfold txByTime
  dsimp only
  rw [((List.perm_insertionSort _ _).map TxPair.key).nodup_iff, List.map_append, List.map_map, List.map_map]
  refine List.Nodup.append ?_ ?_ ?_
  · rw [((List.perm_insertionSort _ b.mapWallet.entries).map _).nodup_iff]
    have hkeys : (b.mapWallet.entries.map fun e => e.1).Nodup := b.mapWallet.nodupKeys
    have htx : Function.Injective OrderKey.tx := fun _ _ h => OrderKey.tx.inj h
    have hmap := hkeys.map htx
    rw [List.map_map] at hmap
    exact hmap
  · unfold AccountRecords.listAccountCreditDebit
    dsimp only
    rw [List.map_map]
    have hkeys : (b.acentries.entries.map fun e => e.1).Nodup := b.acentries.nodupKeys
    have hentry : Function.Injective fun k : List UInt8 × BitVec 64 => OrderKey.acentry k.1 k.2 := by
      rintro ⟨a, n⟩ ⟨a', n'⟩ h
      obtain ⟨rfl, rfl⟩ := OrderKey.acentry.inj h
      rfl
    have hmap := hkeys.map hentry
    rw [List.map_map] at hmap
    exact (((List.filter_sublist).map _).nodup
      ((((List.perm_insertionSort _ b.acentries.entries).map _).nodup_iff).mpr hmap))
  · intro k hk hk'
    obtain ⟨e, -, rfl⟩ := List.mem_map.mp hk
    obtain ⟨e', -, he'⟩ := List.mem_map.mp hk'
    cases he'

/-! ## One item, and all of them -/

variable {P : Primitives} {canWrite : TxPair → Bool} {b₀ : OrderBook} {B : Int} {st st' : Placing × OrderBook}
  {done : List (TxPair × Int)}

/-- The record of a transaction, in memory and in the file, behind the item: what was moved is written. -/
def Recorded (b₀ b : OrderBook) (x : TxPair × Int) : Prop :=
  ∀ hash wtx, x.1 = .pwtx hash wtx →
    b.mapWallet.lookup hash = some { wtx with nOrderPos := x.2 } ∧
    b.txRecords.lookup hash =
      if wtx.nOrderPos ≠ -1 ∧ x.2 ≠ wtx.nOrderPos then some { wtx with nOrderPos := x.2 }
      else b₀.txRecords.lookup hash

/-- Behind the items `done` of `b₀`. -/
structure Placed (b₀ : OrderBook) (B : Int) (st : Placing × OrderBook) (done : List (TxPair × Int)) :
    Prop where
  tidy : Tidy B st.1 done
  given : ∀ x ∈ done, st.2.nOrderPos x.1.key = some x.2
  recorded : ∀ x ∈ done, Recorded b₀ st.2 x
  kept : ∀ k, (∀ x ∈ done, x.1.key ≠ k) → st.2.nOrderPos k = b₀.nOrderPos k
  keptRecord : ∀ hash, (∀ x ∈ done, x.1.key ≠ .tx hash) → st.2.txRecords.lookup hash = b₀.txRecords.lookup hash

theorem nOrderPos_keep (b : OrderBook) (item : TxPair) (k : OrderKey) : (b.keep item).nOrderPos k =
    match item with
    | .pwtx _ _ => if k = item.key then some item.nOrderPos else b.nOrderPos k
    | .pacentry _ => b.nOrderPos k := by
  cases item with
  | pacentry acentry => rfl
  | pwtx hash wtx =>
    dsimp only
    cases k with
    | acentry strAccount nEntryNo =>
      rw [if_neg (by intro h; cases h)]
      rfl
    | tx hash' =>
      show ((b.mapWallet.insert hash wtx).lookup hash').map CWalletTx.nOrderPos = _
      by_cases h : hash' = hash
      · subst h
        rw [AList.lookup_insert]
        exact (if_pos rfl).symm
      · rw [AList.lookup_insert_ne h, if_neg (by intro hkey; exact h (OrderKey.tx.inj hkey))]
        rfl

theorem nOrderPos_write (b : OrderBook) (item : TxPair) (k : OrderKey) : (b.write P item).nOrderPos k =
    match item with
    | .pwtx _ _ => b.nOrderPos k
    | .pacentry _ => if k = item.key then some item.nOrderPos else b.nOrderPos k := by
  cases item with
  | pwtx hash wtx => rfl
  | pacentry acentry =>
    dsimp only
    cases k with
    | tx hash =>
      rw [if_neg (by intro h; cases h)]
      rfl
    | acentry strAccount nEntryNo =>
      show ((b.acentries.insert (acentry.strAccount, acentry.nEntryNo) acentry).lookup
        (strAccount, nEntryNo)).map _ = _
      by_cases h : (strAccount, nEntryNo) = (acentry.strAccount, acentry.nEntryNo)
      · obtain ⟨rfl, rfl⟩ := Prod.mk.inj h
        rw [AList.lookup_insert]
        exact (if_pos rfl).symm
      · have hkey : ¬OrderKey.acentry strAccount nEntryNo = (TxPair.pacentry acentry).key := by
          intro hkey
          obtain ⟨rfl, rfl⟩ := OrderKey.acentry.inj hkey
          exact h rfl
        rw [AList.lookup_insert_ne h, if_neg hkey]
        rfl

@[simp] theorem nOrderPos_setOrderPos (item : TxPair) (n : Int) : (item.setOrderPos n).nOrderPos = n := by
  cases item <;> rfl

/-- What the body of the loop does, when nothing is refused. -/
theorem reorderItem_eq_ok {item : TxPair} (h : reorderItem P canWrite st item = .ok st') :
    st'.1 = (st.1.place item.nOrderPos).2 ∧
      st'.2 = if mustWrite st.1 item then
          (st.2.keep (item.setOrderPos (st.1.place item.nOrderPos).1)).write P
            (item.setOrderPos (st.1.place item.nOrderPos).1)
        else st.2.keep (item.setOrderPos (st.1.place item.nOrderPos).1) := by
  unfold reorderItem at h
  dsimp only at h
  split at h
  · rename_i hmust
    rw [if_pos hmust]
    split at h
    · obtain rfl := Except.ok.inj h
      exact ⟨rfl, rfl⟩
    · cases h
  · rename_i hmust
    rw [if_neg hmust]
    obtain rfl := Except.ok.inj h
    exact ⟨rfl, rfl⟩

/-- Other positions are left alone. -/
theorem nOrderPos_of_ne {item : TxPair} (h : reorderItem P canWrite st item = .ok st') {k : OrderKey}
    (hk : k ≠ item.key) : st'.2.nOrderPos k = st.2.nOrderPos k := by
  rw [(reorderItem_eq_ok h).2]
  split
  · rw [nOrderPos_write]
    cases item with
    | pwtx hash wtx =>
      dsimp only [TxPair.setOrderPos]
      rw [nOrderPos_keep]
      exact if_neg hk
    | pacentry acentry => exact if_neg hk
  · rw [nOrderPos_keep]
    cases item with
    | pwtx hash wtx => exact if_neg hk
    | pacentry acentry => rfl

/-- Other records are left alone. -/
theorem lookup_of_ne {item : TxPair} (hmem : item ∈ b₀.txByTime)
    (hkeyed : ∀ hash wtx, b₀.mapWallet.lookup hash = some wtx → P.getHash wtx.tx = hash)
    (h : reorderItem P canWrite st item = .ok st') {hash : Uint256} (hk : item.key ≠ .tx hash) :
    st'.2.mapWallet.lookup hash = st.2.mapWallet.lookup hash ∧
      st'.2.txRecords.lookup hash = st.2.txRecords.lookup hash := by
  rw [(reorderItem_eq_ok h).2]
  rcases mem_txByTime.mp hmem with ⟨hash', wtx, hlookup, rfl⟩ | ⟨nEntryNo, r, hlookup, rfl⟩
  · have hne : hash ≠ hash' := by
      rintro rfl
      exact hk rfl
    split
    · refine ⟨AList.lookup_insert_ne hne, ?_⟩
      show (AList.insert (P.getHash wtx.tx) _ _).lookup hash = _
      rw [hkeyed hash' wtx hlookup]
      exact AList.lookup_insert_ne hne
    · exact ⟨AList.lookup_insert_ne hne, rfl⟩
  · split
    · exact ⟨rfl, rfl⟩
    · exact ⟨rfl, rfl⟩

/-- An ordered item is moved by `nOrderPosOff`. -/
theorem place_ordered (item : TxPair) (hitem : ¬item.Unordered)
    (htidy : Tidy B (st.1.place item.nOrderPos).2 (done ++ [(item, (st.1.place item.nOrderPos).1)])) :
    (st.1.place item.nOrderPos).1 = item.nOrderPos + st.1.orderPosOff item.nOrderPos := by
  have hp : ¬item.nOrderPos = -1 := hitem
  have hmoved := (htidy.moved _ (List.mem_append_right done List.mem_cons_self) hitem).2
  have hoffsets : (st.1.place item.nOrderPos).2.nOrderPosOffsets = st.1.nOrderPosOffsets := by
    unfold Placing.place
    rw [if_neg hp]
  unfold Placing.orderPosOff at hmoved
  rw [hoffsets] at hmoved
  exact hmoved

/-- The item itself has the position it got, in the wallet and in the file. -/
theorem Placed.given_item {item : TxPair} (h : Placed b₀ B st done) (hmem : item ∈ b₀.txByTime)
    (hnew : ∀ x ∈ done, x.1.key ≠ item.key)
    (htidy : Tidy B (st.1.place item.nOrderPos).2 (done ++ [(item, (st.1.place item.nOrderPos).1)]))
    (hstep : reorderItem P canWrite st item = .ok st') :
    st'.2.nOrderPos item.key = some (st.1.place item.nOrderPos).1 := by
  rw [(reorderItem_eq_ok hstep).2]
  rcases mem_txByTime.mp hmem with ⟨hash, wtx, hlookup, rfl⟩ | ⟨nEntryNo, r, hlookup, rfl⟩
  · split
    · rw [nOrderPos_write]
      dsimp only [TxPair.setOrderPos]
      rw [nOrderPos_keep]
      exact if_pos rfl
    · rw [nOrderPos_keep]
      exact if_pos rfl
  · split
    · rw [nOrderPos_write]
      exact if_pos rfl
    · -- an entry that is not written has not been moved
      rename_i hmust
      obtain ⟨hordered, hoff⟩ := not_or.mp (of_decide_eq_false (Bool.eq_false_iff.mpr hmust))
      have hzero : st.1.orderPosOff r.nOrderPos = 0 := not_not.mp hoff
      have hplace : (st.1.place r.nOrderPos).1 = r.nOrderPos + st.1.orderPosOff r.nOrderPos :=
        place_ordered (.pacentry { r with strAccount := [], nEntryNo := nEntryNo }) hordered htidy
      have hkept := (h.kept _ hnew).trans (nOrderPos_key hmem).2
      rw [nOrderPos_keep]
      refine hkept.trans (congrArg some ?_)
      show r.nOrderPos = (st.1.place r.nOrderPos).1
      omega

/-- What was moved has been written. -/
theorem Placed.recorded_item {item : TxPair} (h : Placed b₀ B st done) (hmem : item ∈ b₀.txByTime)
    (hkeyed : ∀ hash wtx, b₀.mapWallet.lookup hash = some wtx → P.getHash wtx.tx = hash)
    (hnew : ∀ x ∈ done, x.1.key ≠ item.key)
    (htidy : Tidy B (st.1.place item.nOrderPos).2 (done ++ [(item, (st.1.place item.nOrderPos).1)]))
    (hstep : reorderItem P canWrite st item = .ok st') :
    Recorded b₀ st'.2 (item, (st.1.place item.nOrderPos).1) := by
  rintro hash wtx rfl
  have hhash : P.getHash wtx.tx = hash := by
    rcases mem_txByTime.mp hmem with ⟨hash', wtx', hlookup, heq⟩ | ⟨nEntryNo, r, hlookup, heq⟩
    · obtain ⟨rfl, rfl⟩ := TxPair.pwtx.inj heq
      exact hkeyed hash wtx hlookup
    · cases heq
  have hiff : (wtx.nOrderPos ≠ -1 ∧ (st.1.place wtx.nOrderPos).1 ≠ wtx.nOrderPos) ↔
      (wtx.nOrderPos ≠ -1 ∧ st.1.orderPosOff wtx.nOrderPos ≠ 0) := by
    refine and_congr_right fun hordered => ?_
    have hplace : (st.1.place wtx.nOrderPos).1 = wtx.nOrderPos + st.1.orderPosOff wtx.nOrderPos :=
      place_ordered (.pwtx hash wtx) hordered htidy
    omega
  rw [(reorderItem_eq_ok hstep).2]
  by_cases hmoved : wtx.nOrderPos ≠ -1 ∧ st.1.orderPosOff wtx.nOrderPos ≠ 0
  · have hmust : mustWrite st.1 (.pwtx hash wtx) = true := decide_eq_true hmoved
    rw [if_pos hmust]
    refine ⟨AList.lookup_insert _, Eq.trans ?_ (if_pos (hiff.mpr hmoved)).symm⟩
    show (AList.insert (P.getHash wtx.tx) _ _).lookup hash = _
    rw [hhash]
    exact AList.lookup_insert _
  · have hmust : ¬mustWrite st.1 (.pwtx hash wtx) = true := fun hm => hmoved (of_decide_eq_true hm)
    rw [if_neg hmust]
    exact ⟨AList.lookup_insert _, (h.keptRecord hash hnew).trans (if_neg (mt hiff.mp hmoved)).symm⟩

theorem Placed.step {item : TxPair} (h : Placed b₀ B st done) (hmem : item ∈ b₀.txByTime)
    (hkeyed : ∀ hash wtx, b₀.mapWallet.lookup hash = some wtx → P.getHash wtx.tx = hash)
    (hnew : ∀ x ∈ done, x.1.key ≠ item.key)
    (htidy : Tidy B (st.1.place item.nOrderPos).2 (done ++ [(item, (st.1.place item.nOrderPos).1)]))
    (hstep : reorderItem P canWrite st item = .ok st') :
    Placed b₀ B st' (done ++ [(item, (st.1.place item.nOrderPos).1)]) where
  tidy := (reorderItem_eq_ok hstep).1 ▸ htidy
  given x hx := by
    rcases List.mem_append.mp hx with hx | hx
    · rw [nOrderPos_of_ne hstep (hnew x hx)]
      exact h.given x hx
    · obtain rfl := List.mem_singleton.mp hx
      exact h.given_item hmem hnew htidy hstep
  recorded x hx := by
    rcases List.mem_append.mp hx with hx | hx
    · intro hash wtx hpair
      have hne : item.key ≠ .tx hash := by
        intro hkey
        have hother := hnew x hx
        rw [hpair, hkey] at hother
        exact hother rfl
      obtain ⟨hwallet, hrecords⟩ := lookup_of_ne hmem hkeyed hstep hne
      rw [hwallet, hrecords]
      exact h.recorded x hx hash wtx hpair
    · obtain rfl := List.mem_singleton.mp hx
      exact h.recorded_item hmem hkeyed hnew htidy hstep
  kept k hk := by
    have hne : k ≠ item.key := fun heq => hk _ (List.mem_append_right done List.mem_cons_self) heq.symm
    rw [nOrderPos_of_ne hstep hne]
    exact h.kept k fun x hx => hk x (List.mem_append_left _ hx)
  keptRecord hash hk := by
    rw [(lookup_of_ne hmem hkeyed hstep (hk _ (List.mem_append_right done List.mem_cons_self))).2]
    exact h.keptRecord hash fun x hx => hk x (List.mem_append_left _ hx)

/-- What `ReorderTransactions` is promised: transactions are filed under their hashes, no two items have one
    position, and the positions leave room for as many more as there are items. -/
structure Orderly (P : Primitives) (b : OrderBook) : Prop where
  keyed : ∀ hash wtx, b.mapWallet.lookup hash = some wtx → P.getHash wtx.tx = hash
  distinct : ∀ k k' p, p ≠ -1 → b.nOrderPos k = some p → b.nOrderPos k' = some p → k = k'
  nonneg : ∀ k p, p ≠ -1 → b.nOrderPos k = some p → 0 ≤ p
  room : b.txByTime.length < 9223372036854775807
  below : ∀ k p, b.nOrderPos k = some p → p + b.txByTime.length < 9223372036854775807

/-- The whole loop. -/
theorem foldlM_reorderItem (hb : Orderly P b₀) : ∀ (rest : List TxPair) (st : Placing × OrderBook)
    (done : List (TxPair × Int)), Placed b₀ (9223372036854775807 - b₀.txByTime.length) st done →
    done.map Prod.fst ++ rest = b₀.txByTime → rest.foldlM (reorderItem P canWrite) st = .ok st' →
    ∃ done', done'.map Prod.fst = b₀.txByTime ∧
      Placed b₀ (9223372036854775807 - b₀.txByTime.length) st' done' := by
  intro rest
  induction rest with
  | nil =>
    intro st done h hsplit hrun
    obtain rfl := Except.ok.inj hrun
    rw [List.append_nil] at hsplit
    exact ⟨done, hsplit, h⟩
  | cons item rest ih =>
    intro st done h hsplit hrun
    rw [List.foldlM_cons] at hrun
    have hmem : item ∈ b₀.txByTime := hsplit ▸ List.mem_append_right _ List.mem_cons_self
    have hkeys := nodup_keys b₀
    rw [← hsplit, List.map_append, List.map_cons, List.map_map] at hkeys
    have hnew : ∀ x ∈ done, x.1.key ≠ item.key := by
      intro x hx heq
      exact (List.nodup_append.mp hkeys).2.2 _ (List.mem_map_of_mem hx) _ List.mem_cons_self heq
    have hlen := congrArg List.length hsplit
    rw [List.length_append, List.length_map, List.length_cons] at hlen
    obtain ⟨-, hpos⟩ := nOrderPos_key hmem
    have htidy : Tidy (9223372036854775807 - b₀.txByTime.length) (st.1.place item.nOrderPos).2
        (done ++ [(item, (st.1.place item.nOrderPos).1)]) := by
      by_cases hitem : item.Unordered
      · exact h.tidy.step_unordered hitem (by omega)
      · refine h.tidy.step_ordered hitem (hb.nonneg _ _ hitem hpos) ?_ (by omega) ?_
        · have hbelow := hb.below _ _ hpos
          omega
        · intro y hy hoy heq
          have hmemy : y.1 ∈ b₀.txByTime := hsplit ▸ List.mem_append_left _ (List.mem_map_of_mem hy)
          exact hnew y hy (hb.distinct _ _ _ hoy (nOrderPos_key hmemy).2 (heq ▸ hpos))
    cases hstep : reorderItem P canWrite st item with
    | error e =>
      rw [hstep] at hrun
      cases hrun
    | ok st₁ =>
      rw [hstep] at hrun
      refine ih st₁ _ (h.step hmem hb.keyed hnew htidy hstep) ?_ hrun
      rw [List.map_append, List.append_assoc]
      exact hsplit

/-- `k` had no position, `k'` had one and is later in time, behind at least two that had none. -/
def Crosses (b : OrderBook) (k k' : OrderKey) : Prop :=
  ∃ before x y, before ++ [x] <+: b.txByTime ∧ x.key = k' ∧ ¬x.Unordered ∧ y ∈ before ∧ y.key = k ∧ y.Unordered ∧
    2 ≤ (before.filter fun x => decide x.Unordered).length

/-- Where two items got one position. -/
theorem Tidy.crosses {s : Placing} (h : Tidy B s done) (hdone : done.map Prod.fst = b₀.txByTime)
    {x y : TxPair × Int} (hx : x ∈ done) (hy : y ∈ done) (hne : x.1.key ≠ y.1.key) (hsame : x.2 = y.2) :
    b₀.Crosses x.1.key y.1.key ∨ b₀.Crosses y.1.key x.1.key := by
  -- of two items, one stands before the other
  have hone : ∀ before z after, done = before ++ z :: after → ∀ w ∈ before, w.2 = z.2 →
      b₀.Crosses w.1.key z.1.key := by
    intro before z after hsplit w hw heq
    have hpre : before ++ [z] <+: done := ⟨after, by rw [hsplit, List.append_assoc]; rfl⟩
    obtain ⟨hun, hord, hcount⟩ := h.clash before z hpre w hw heq
    refine ⟨before.map Prod.fst, z.1, w.1, ?_, rfl, hord, List.mem_map_of_mem hw, rfl, hun, ?_⟩
    · rw [← hdone]
      have hmap := hpre.map Prod.fst
      rwa [List.map_append] at hmap
    · rw [List.filter_map, List.length_map]
      exact hcount
  obtain ⟨before, after, hsplit⟩ := List.append_of_mem hx
  rw [hsplit] at hy
  rcases List.mem_append.mp hy with hmem | hmem
  · exact Or.inr (hone before x after hsplit y hmem hsame.symm)
  · rcases List.mem_cons.mp hmem with rfl | hmem
    · exact absurd rfl hne
    · obtain ⟨middle, last, rfl⟩ := List.append_of_mem hmem
      have hsplit' : done = (before ++ x :: middle) ++ y :: last := by rw [hsplit, List.append_assoc]; rfl
      exact Or.inl (hone _ y last hsplit' x (List.mem_append_right _ List.mem_cons_self) hsame)

/-- **The order.**  Of the transactions and the entries of the account "": every one has a position, below
    `nOrderPosNext`; ordered ones stay in their order; two have one position only where an ordered one comes
    behind two that were not.  A transaction that was moved has been written. -/
theorem reorderTransactions_order (P : Primitives) (canWrite : TxPair → Bool) (b b' : OrderBook) (hb : Orderly P b)
    (h : b.reorderTransactions P canWrite = .ok b') :
    (∀ k p, k.Met → b.nOrderPos k = some p →
      ∃ q, b'.nOrderPos k = some q ∧ 0 ≤ q ∧ q < b'.nOrderPosNext) ∧
    (∀ k k' p p' q q', k.Met → k'.Met → b.nOrderPos k = some p → b.nOrderPos k' = some p' → p ≠ -1 → p' ≠ -1 →
      p < p' → b'.nOrderPos k = some q → b'.nOrderPos k' = some q' → q < q') ∧
    (∀ k k' p p' q, k.Met → k'.Met → k ≠ k' → b.nOrderPos k = some p → b.nOrderPos k' = some p' →
      b'.nOrderPos k = some q → b'.nOrderPos k' = some q → b.Crosses k k' ∨ b.Crosses k' k) ∧
    ∀ hash wtx, b.mapWallet.lookup hash = some wtx → ∃ q, b'.nOrderPos (.tx hash) = some q ∧
      b'.mapWallet.lookup hash = some { wtx with nOrderPos := q } ∧
      b'.txRecords.lookup hash =
        if wtx.nOrderPos ≠ -1 ∧ q ≠ wtx.nOrderPos then some { wtx with nOrderPos := q }
        else b.txRecords.lookup hash := by
  unfold reorderTransactions at h
  cases hrun : b.txByTime.foldlM (reorderItem P canWrite) (⟨0, []⟩, b) with
  | error e =>
    rw [hrun] at h
    cases h
  | ok st =>
    rw [hrun] at h
    obtain rfl := Except.ok.inj h
    have hroom := hb.room
    have hstart : Placed b (9223372036854775807 - b.txByTime.length) (⟨0, []⟩, b) [] :=
      ⟨Tidy.start (by omega), fun x hx => (by cases hx), fun x hx => (by cases hx), fun k _ => rfl, fun hash _ => rfl⟩
    obtain ⟨done, hdone, hplaced⟩ := foldlM_reorderItem hb _ _ [] hstart rfl hrun
    -- everything that is looked at was met
    have hmet : ∀ k p, k.Met → b.nOrderPos k = some p →
        ∃ x ∈ done, x.1.key = k ∧ x.1.nOrderPos = p ∧ st.2.nOrderPos k = some x.2 := by
      intro k p hk hp
      obtain ⟨item, hitem, rfl, hpos⟩ := exists_item hk hp
      rw [← hdone] at hitem
      obtain ⟨x, hx, rfl⟩ := List.mem_map.mp hitem
      exact ⟨x, hx, rfl, hpos, hplaced.given x hx⟩
    refine ⟨?_, ?_, ?_, ?_⟩
    · intro k p hk hp
      obtain ⟨x, hx, -, -, hq⟩ := hmet k p hk hp
      exact ⟨x.2, hq, hplaced.tidy.range x hx⟩
    · intro k k' p p' q q' hk hk' hp hp' hne hne' hlt hq hq'
      obtain ⟨x, hx, -, hxp, hxq⟩ := hmet k p hk hp
      obtain ⟨y, hy, -, hyp, hyq⟩ := hmet k' p' hk' hp'
      obtain rfl := Option.some.inj (hxq.symm.trans hq)
      obtain rfl := Option.some.inj (hyq.symm.trans hq')
      subst hxp hyp
      exact hplaced.tidy.lt_of_lt hx hy hne hne' hlt
    · intro k k' p p' q hk hk' hne hp hp' hq hq'
      obtain ⟨x, hx, rfl, -, hxq⟩ := hmet k p hk hp
      obtain ⟨y, hy, rfl, -, hyq⟩ := hmet k' p' hk' hp'
      have hsame : x.2 = y.2 := Option.some.inj ((hxq.symm.trans hq).trans (hyq.symm.trans hq').symm)
      exact Tidy.crosses hplaced.tidy hdone hx hy hne hsame
    · intro hash wtx hlookup
      have hitem : TxPair.pwtx hash wtx ∈ b.txByTime := mem_txByTime.mpr (Or.inl ⟨hash, wtx, hlookup, rfl⟩)
      rw [← hdone] at hitem
      obtain ⟨x, hx, hxpair⟩ := List.mem_map.mp hitem
      have hgiven := hplaced.given x hx
      rw [hxpair] at hgiven
      exact ⟨x.2, hgiven, hplaced.recorded x hx hash wtx hxpair⟩

/-! ## A payment and entries of the account book -/

namespace Pages

def paid : CTransaction := ⟨1, 1400000000, [⟨⟨7, 0⟩, [], 0xffffffff⟩], [⟨5 * COIN, [0x51]⟩], 0⟩

def hashPaid : Uint256 := 0xee93389630b5ec596810d7474282fb1e138d0864e9db3bd90b325cc11ea92531

def primitives : Primitives := Primitives.ofTables [(paid, hashPaid)] [] []

def payment (nOrderPos : Int) : CWalletTx :=
  { CWalletTx.ofTx paid with nTimeReceived := 10, nOrderPos := nOrderPos }

def acentry (strAccount : List UInt8) (nEntryNo : BitVec 64) (nTime nOrderPos : Int) : CAccountingObject :=
  { CAccountingObject.null with
    strAccount := strAccount, nEntryNo := nEntryNo, nTime := nTime, nOrderPos := nOrderPos }

/-- A wallet with the payment and these entries. -/
def book (nOrderPos : Int) (entries : List CAccountingObject) : OrderBook where
  mapWallet := (∅ : StdMap Uint256 CWalletTx).insert hashPaid (payment nOrderPos)
  nOrderPosNext := 1
  txRecords := (∅ : StdMap Uint256 CWalletTx).insert hashPaid (payment nOrderPos)
  acentries := entries.foldl (fun m e => m.insert (e.strAccount, e.nEntryNo) e) ∅

/-- The payment has a position, an entry before it has none. -/
def moved : OrderBook := book 0 [acentry [] 1 5 (-1)]

/-- The payment has none and neither has the entry behind it, the last one has; another account has an entry. -/
def crossed : OrderBook := book (-1) [acentry [] 1 20 (-1), acentry [] 2 30 0, acentry (ascii "b") 3 5 (-1)]

/-- The positions of a book, one by one. -/
theorem nOrderPos_eq_some {b : OrderBook} {k : OrderKey} {p : Int} (h : b.nOrderPos k = some p) :
    (k, p) ∈ (b.mapWallet.entries.map fun e => (OrderKey.tx e.1, e.2.nOrderPos)) ++
      b.acentries.entries.map fun e => (OrderKey.acentry e.1.1 e.1.2, e.2.nOrderPos) := by
  cases k with
  | tx hash =>
    obtain ⟨wtx, hlookup, rfl⟩ := Option.map_eq_some_iff.mp h
    exact List.mem_append_left _ (List.mem_map_of_mem (AList.mem_lookup_iff.mp hlookup))
  | acentry strAccount nEntryNo =>
    obtain ⟨r, hlookup, rfl⟩ := Option.map_eq_some_iff.mp h
    exact List.mem_append_right _ (List.mem_map_of_mem (AList.mem_lookup_iff.mp hlookup))

theorem positions_moved {k : OrderKey} {p : Int} (h : moved.nOrderPos k = some p) :
    k = .tx hashPaid ∧ p = 0 ∨ p = -1 := by
  have hmem : (k, p) ∈ [(OrderKey.tx hashPaid, (0 : Int)), (OrderKey.acentry [] 1, -1)] := nOrderPos_eq_some h
  rcases List.mem_pair.mp hmem with heq | heq
  · exact Or.inl (Prod.mk.inj heq)
  · exact Or.inr (Prod.mk.inj heq).2

theorem positions_crossed {k : OrderKey} {p : Int} (hp : p ≠ -1) (h : crossed.nOrderPos k = some p) :
    k = .acentry [] 2 := by
  have hmem : (k, p) ∈ [(OrderKey.tx hashPaid, (-1 : Int)), (OrderKey.acentry (ascii "b") 3, -1),
    (OrderKey.acentry [] 2, 0), (OrderKey.acentry [] 1, -1)] := nOrderPos_eq_some h
  simp only [List.mem_cons, Prod.mk.injEq, List.not_mem_nil, or_false] at hmem
  rcases hmem with ⟨-, rfl⟩ | ⟨-, rfl⟩ | ⟨rfl, -⟩ | ⟨-, rfl⟩
  · exact absurd rfl hp
  · exact absurd rfl hp
  · rfl
  · exact absurd rfl hp

theorem orderly_moved : Orderly primitives moved where
  keyed hash wtx hlookup := by
    have hmem : (⟨hash, wtx⟩ : (_ : Uint256) × CWalletTx) ∈ [(⟨hashPaid, payment 0⟩ : (_ : Uint256) × CWalletTx)] :=
      AList.mem_lookup_iff.mp hlookup
    obtain ⟨rfl, hwtx⟩ := Sigma.mk.inj (List.mem_singleton.mp hmem)
    obtain rfl := eq_of_heq hwtx
    rfl
  distinct k k' p hp h h' := by
    rcases positions_moved h with ⟨rfl, -⟩ | rfl
    · rcases positions_moved h' with ⟨rfl, -⟩ | rfl
      · rfl
      · exact absurd rfl hp
    · exact absurd rfl hp
  nonneg k p hp h := by
    rcases positions_moved h with ⟨-, rfl⟩ | rfl
    · exact Int.le_refl 0
    · exact absurd rfl hp
  room := by decide
  below k p h := by
    rcases positions_moved h with ⟨-, rfl⟩ | rfl
    · decide
    · decide

end Pages

/-- The payment is moved from 0 to 1, and written. -/
theorem reorderTransactions_moved : ∃ b',
    Pages.moved.reorderTransactions Pages.primitives (fun _ => true) = .ok b' ∧
    b'.txRecords.lookup Pages.hashPaid = some (Pages.payment 1) ∧
    ∃ q, b'.nOrderPos (.tx Pages.hashPaid) = some q ∧ 0 ≤ q ∧ q < b'.nOrderPosNext := by
  refine ⟨_, rfl, rfl, ?_⟩
  exact (reorderTransactions_order Pages.primitives (fun _ => true) Pages.moved _ Pages.orderly_moved rfl).1
    (.tx Pages.hashPaid) 0 trivial rfl

/-- The payment gets position 0, and this is not written.  Of the entries, two are at 1, and one is not met. -/
theorem reorderTransactions_crossed :
    (∀ k k' p, p ≠ -1 → Pages.crossed.nOrderPos k = some p → Pages.crossed.nOrderPos k' = some p → k = k') ∧
    ∃ b', Pages.crossed.reorderTransactions Pages.primitives (fun _ => true) = .ok b' ∧
      b'.nOrderPos (.tx Pages.hashPaid) = some 0 ∧ b'.txRecords.lookup Pages.hashPaid = some (Pages.payment (-1)) ∧
      b'.nOrderPos (.acentry [] 1) = some 1 ∧ b'.nOrderPos (.acentry [] 2) = some 1 ∧
      b'.nOrderPos (.acentry (ascii "b") 3) = some (-1) := by
  refine ⟨?_, _, rfl, rfl, rfl, rfl, rfl, rfl⟩
  intro k k' p hp h h'
  rw [Pages.positions_crossed hp h, Pages.positions_crossed hp h']

end OrderBook

end Silkcoin
