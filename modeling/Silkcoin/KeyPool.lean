/-
  The key pool: keys made in advance, each under an index in the wallet's database.

  `setKeyPool` holds the indexes that are free.  A reservation takes the SMALLEST out of the set and
  leaves its record in the database; it ends with `KeepKey`, which erases the record, or with
  `ReturnKey`, which puts the index back.  New keys go above the LARGEST index of the set.

  The indexes that are out are not looked at.  As long as the set holds something above them this does
  no harm; but the set can run empty while reservations are out, and then `TopUpKeyPool` starts again
  at 1, and `NewKeyPool` always starts at 1.  `Held` says that an index about to be made is still out.
  `exclusive_of_clear`: in every run that never does this, the set, the records and the reservations
  fit together.  `reserved_twice` is a run that does it: with `-keypool=0` the second of two
  reservations gets the index of the first.

  A reservation is a `CReserveKey`; one that holds nothing has index -1.  The database does not fail.
  The keys that are generated are given from outside, in their order; that they differ from each other
  is asked of them where it is needed.
-/
import Silkcoin.KeyStore
import Mathlib.Data.Finset.Max
import Mathlib.Data.Int.ConditionallyCompleteOrder
import Mathlib.Data.Finset.Sort

namespace Silkcoin

open BatchStore

/-- A record of the pool. -/
structure CKeyPool where
  nTime : Int
  vchPubKey : List UInt8
deriving DecidableEq, Repr

structure CReserveKey where
  nIndex : Int
  vchPubKey : List UInt8
deriving DecidableEq, Repr

/-- What comes from outside: the argument `-keypool`, the hash of a public key, the public key of the
    next key when there are so many, and the time at which it is made. -/
structure PoolSource where
  nKeyPoolArg : Int
  hash160 : List UInt8 → Uint160
  newKey : Nat → List UInt8
  getTime : Nat → Int

/-- The wallet, as far as the pool goes: the free indexes, the records in the database, the public keys
    of its keys, and the reservations. -/
structure PoolWallet where
  setKeyPool : Finset Int
  pool : StdMap Int CKeyPool
  keys : List (List UInt8)
  fLocked : Bool
  vchDefaultKey : List UInt8
  reserves : Nat → CReserveKey

/-- How a call can end badly: it throws, or an assertion fails and the program is over. -/
inductive PoolFailure where
  | runtimeError
  | assertion
deriving DecidableEq, Repr

/-- `CPubKey::IsValid`. -/
def isValidPubKey (vchPubKey : List UInt8) : Bool :=
  decide (vchPubKey.length = 33 ∨ vchPubKey.length = 65)

namespace PoolWallet

variable (S : PoolSource) (w : PoolWallet)

def haveKey (vchPubKey : List UInt8) : Bool := (w.keys.map S.hash160).contains (S.hash160 vchPubKey)

/-- `walletdb.WritePool(nIndex, CKeyPool(GenerateNewKey()))` and `setKeyPool.insert(nIndex)`. -/
def writeNewKey (nIndex : Int) : PoolWallet where
  setKeyPool := insert nIndex w.setKeyPool
  pool := w.pool.insert nIndex ⟨S.getTime w.keys.length, S.newKey w.keys.length⟩
  keys := S.newKey w.keys.length :: w.keys
  fLocked := w.fLocked
  vchDefaultKey := w.vchDefaultKey
  reserves := w.reserves

/-- `max(GetArg("-keypool", 100), 0)`. -/
def nKeys : Nat := (max S.nKeyPoolArg 0).toNat

/-- The set is emptied even if the wallet is locked. -/
def newKeyPool : Bool × PoolWallet :=
  let w := { w with
    setKeyPool := ∅
    pool := (w.setKeyPool.sort (· ≤ ·)).foldl (fun pool nIndex => pool.erase nIndex) w.pool }
  if w.fLocked then (false, w)
  else (true, (List.range (nKeys S)).foldl (fun w (i : Nat) => w.writeNewKey S (i + 1)) w)

/-- The index of the next new key. -/
def nEnd : Int := if h : w.setKeyPool.Nonempty then w.setKeyPool.max' h + 1 else 1

/-- The loop of `TopUpKeyPool`; each turn adds one index, so `nSize` turns are enough. -/
def topUp (nSize : Nat) : Nat → PoolWallet → PoolWallet
  | 0, w => w
  | n + 1, w => if w.setKeyPool.card < nSize then topUp nSize n (w.writeNewKey S w.nEnd) else w

/-- `nTargetSize + 1`, in an `unsigned int`. -/
def targetSize (nSize : UInt32) : Nat :=
  ((if nSize > 0 then nSize else UInt32.ofNat (nKeys S)) + 1).toNat

def topUpKeyPool (nSize : UInt32) : Bool × PoolWallet :=
  if w.fLocked then (false, w) else (true, topUp S (targetSize S nSize) (targetSize S nSize) w)

/-- The oldest key of the pool.  The index is there even if the call throws; -1 if the pool is
    empty. -/
def reserveOldest : Int × Except PoolFailure (List UInt8) × PoolWallet :=
  if h : w.setKeyPool.Nonempty then
    let nIndex := w.setKeyPool.min' h
    let w' := { w with setKeyPool := w.setKeyPool.erase nIndex }
    match w.pool.lookup nIndex with
    | none => (nIndex, .error .runtimeError, w')
    | some keypool =>
      if w.haveKey S keypool.vchPubKey = false then (nIndex, .error .runtimeError, w')
      else if isValidPubKey keypool.vchPubKey = false then (nIndex, .error .assertion, w')
      else (nIndex, .ok keypool.vchPubKey, w')
  else (-1, .ok [], w)

def reserveKeyFromKeyPool : Int × Except PoolFailure (List UInt8) × PoolWallet :=
  (if w.fLocked then w else (w.topUpKeyPool S 0).2).reserveOldest S

/-- `CWallet::KeepKey`. -/
def keepKey (nIndex : Int) : PoolWallet := { w with pool := w.pool.erase nIndex }

/-- `CWallet::ReturnKey`. -/
def returnKey (nIndex : Int) : PoolWallet := { w with setKeyPool := insert nIndex w.setKeyPool }

/-- A key that is not from the pool. -/
def generateNewKey : List UInt8 × PoolWallet :=
  (S.newKey w.keys.length, { w with keys := S.newKey w.keys.length :: w.keys })

def getKeyFromPool (fAllowReuse : Bool) : Except PoolFailure (Option (List UInt8)) × PoolWallet :=
  match w.reserveKeyFromKeyPool S with
  | (_, .error e, w) => (.error e, w)
  | (nIndex, .ok vchPubKey, w) =>
    if nIndex = -1 then
      if fAllowReuse ∧ isValidPubKey w.vchDefaultKey then (.ok (some w.vchDefaultKey), w)
      else if w.fLocked then (.ok none, w)
      else (.ok (some (w.generateNewKey S).1), (w.generateNewKey S).2)
    else (.ok (some vchPubKey), w.keepKey nIndex)

/-! ## Reservations -/

/-- The member variables of a `CReserveKey` after a call. -/
def setReserve (r : Nat) (reserve : CReserveKey) : PoolWallet :=
  { w with reserves := Function.update w.reserves r reserve }

/-- `assert(vchPubKey.IsValid())`. -/
def assertValid (vchPubKey : List UInt8) : Except PoolFailure (List UInt8) :=
  if isValidPubKey vchPubKey then .ok vchPubKey else .error .assertion

/-- `CReserveKey::GetReservedKey`.  The index is a member passed by reference: it is set even if the
    call throws. -/
def getReservedKey (r : Nat) : Except PoolFailure (List UInt8) × PoolWallet :=
  if (w.reserves r).nIndex = -1 then
    match w.reserveKeyFromKeyPool S with
    | (nIndex, .error e, w) => (.error e, w.setReserve r ⟨nIndex, (w.reserves r).vchPubKey⟩)
    | (nIndex, .ok vchPubKey, w) =>
      let vchPubKey := if nIndex ≠ -1 then vchPubKey else w.vchDefaultKey
      (assertValid vchPubKey, w.setReserve r ⟨nIndex, vchPubKey⟩)
  else (assertValid (w.reserves r).vchPubKey, w)

/-- `CReserveKey::KeepKey`. -/
def keepReserved (r : Nat) : PoolWallet :=
  (if (w.reserves r).nIndex ≠ -1 then w.keepKey (w.reserves r).nIndex else w).setReserve r ⟨-1, []⟩

/-- `CReserveKey::ReturnKey`, which is also what the destructor does. -/
def returnReserved (r : Nat) : PoolWallet :=
  (if (w.reserves r).nIndex ≠ -1 then w.returnKey (w.reserves r).nIndex else w).setReserve r ⟨-1, []⟩

/-! ## Runs -/

inductive Op where
  | newKeyPool
  | topUpKeyPool (nSize : UInt32)
  | getKeyFromPool (fAllowReuse : Bool)
  | getReservedKey (r : Nat)
  | keepReserved (r : Nat)
  | returnReserved (r : Nat)
  | lock
  | unlock

def step : Op → Except PoolFailure Unit × PoolWallet
  | .newKeyPool => (.ok (), (w.newKeyPool S).2)
  | .topUpKeyPool nSize => (.ok (), (w.topUpKeyPool S nSize).2)
  | .getKeyFromPool fAllowReuse =>
    ((w.getKeyFromPool S fAllowReuse).1.map fun _ => (), (w.getKeyFromPool S fAllowReuse).2)
  | .getReservedKey r => ((w.getReservedKey S r).1.map fun _ => (), (w.getReservedKey S r).2)
  | .keepReserved r => (.ok (), w.keepReserved r)
  | .returnReserved r => (.ok (), w.returnReserved r)
  | .lock => (.ok (), { w with fLocked := true })
  | .unlock => (.ok (), { w with fLocked := false })

/-- A wallet as it is read from its file: every record is free, and nothing is reserved.  The records
    have positive indexes, and keys of the wallet that differ from each other. -/
structure Loaded : Prop where
  free : ∀ nIndex, nIndex ∈ w.setKeyPool ↔ (w.pool.lookup nIndex).isSome = true
  positive : ∀ nIndex ∈ w.setKeyPool, 0 < nIndex
  known : ∀ nIndex keypool, w.pool.lookup nIndex = some keypool → keypool.vchPubKey ∈ w.keys
  distinct : ∀ nIndex nIndex' keypool keypool', w.pool.lookup nIndex = some keypool →
    w.pool.lookup nIndex' = some keypool' → keypool.vchPubKey = keypool'.vchPubKey → nIndex = nIndex'
  unreserved : ∀ r, w.reserves r = ⟨-1, []⟩

/-- A reservation holds one of the indexes that are about to be made: `nCount` of them from `nFirst`. -/
def Held (nFirst : Int) (nCount : Nat) : Prop :=
  ∃ r, (w.reserves r).nIndex ≠ -1 ∧
    nFirst ≤ (w.reserves r).nIndex ∧ (w.reserves r).nIndex < nFirst + nCount

/-- The operation makes no index that a reservation holds. -/
def Clear : Op → Prop
  | .newKeyPool => w.fLocked = true ∨ ¬ w.Held 1 (nKeys S)
  | .topUpKeyPool nSize =>
    w.fLocked = true ∨ ¬ w.Held w.nEnd (targetSize S nSize - w.setKeyPool.card)
  | .getKeyFromPool _ =>
    w.fLocked = true ∨ ¬ w.Held w.nEnd (targetSize S 0 - w.setKeyPool.card)
  | .getReservedKey r => (w.reserves r).nIndex ≠ -1 ∨
    w.fLocked = true ∨ ¬ w.Held w.nEnd (targetSize S 0 - w.setKeyPool.card)
  | _ => True

/-- Any order of operations of which each meets `P` in the state it finds.  A failed assertion ends the
    program; after an exception it goes on. -/
inductive Run (P : PoolWallet → Op → Prop) (start : PoolWallet) : PoolWallet → Prop where
  | start : Run P start start
  | step {w : PoolWallet} (h : Run P start w) (op : Op) (hop : P w op)
      (hr : (w.step S op).1 ≠ .error .assertion) : Run P start (w.step S op).2

/-- What is asked of the pool: a free index has a record, no index is out twice, none is both out and
    free, and no key is out twice. -/
structure Exclusive : Prop where
  recorded : ∀ nIndex ∈ w.setKeyPool, (w.pool.lookup nIndex).isSome = true
  disjoint : ∀ r, (w.reserves r).nIndex ≠ -1 → (w.reserves r).nIndex ∉ w.setKeyPool
  indexes : ∀ r r', r ≠ r' → (w.reserves r).nIndex ≠ -1 → (w.reserves r').nIndex ≠ -1 →
    (w.reserves r).nIndex ≠ (w.reserves r').nIndex
  keys : ∀ r r', r ≠ r' → (w.reserves r).nIndex ≠ -1 → (w.reserves r').nIndex ≠ -1 →
    (w.reserves r).vchPubKey ≠ (w.reserves r').vchPubKey

/-! ## The invariant -/

variable {S} {w}

/-- `Exclusive`, with what the operations need for it: a reservation's record is still there. -/
structure Sound (w : PoolWallet) : Prop where
  positive : ∀ nIndex ∈ w.setKeyPool, 0 < nIndex
  recorded : ∀ nIndex ∈ w.setKeyPool, ∃ keypool, w.pool.lookup nIndex = some keypool
  known : ∀ nIndex keypool, w.pool.lookup nIndex = some keypool → keypool.vchPubKey ∈ w.keys
  distinct : ∀ nIndex nIndex' keypool keypool', w.pool.lookup nIndex = some keypool →
    w.pool.lookup nIndex' = some keypool' → keypool.vchPubKey = keypool'.vchPubKey → nIndex = nIndex'
  held : ∀ r, (w.reserves r).nIndex ≠ -1 → 0 < (w.reserves r).nIndex ∧
    (w.reserves r).nIndex ∉ w.setKeyPool ∧ ∃ keypool, w.pool.lookup (w.reserves r).nIndex =
      some keypool ∧ keypool.vchPubKey = (w.reserves r).vchPubKey
  indexes : ∀ r r', r ≠ r' → (w.reserves r).nIndex ≠ -1 → (w.reserves r').nIndex ≠ -1 →
    (w.reserves r).nIndex ≠ (w.reserves r').nIndex

theorem Sound.exclusive (h : Sound w) : w.Exclusive := by
  refine ⟨fun nIndex hi => Option.isSome_iff_exists.mpr (h.recorded nIndex hi),
    fun r hr => (h.held r hr).2.1, h.indexes, ?_⟩
  intro r r' hne hr hr' heq
  obtain ⟨-, -, keypool, hlookup, hkey⟩ := h.held r hr
  obtain ⟨-, -, keypool', hlookup', hkey'⟩ := h.held r' hr'
  -- one key is in one record only
  refine h.indexes r r' hne hr hr' (h.distinct _ _ keypool keypool' hlookup hlookup' ?_)
  rw [hkey, hkey', heq]

theorem Loaded.sound (h : w.Loaded) : Sound w where
  positive := h.positive
  recorded nIndex hi := Option.isSome_iff_exists.mp ((h.free nIndex).mp hi)
  known := h.known
  distinct := h.distinct
  held r hr := absurd (congrArg CReserveKey.nIndex (h.unreserved r)) hr
  indexes r _ _ hr := absurd (congrArg CReserveKey.nIndex (h.unreserved r)) hr

/-! ## New keys -/

/-- No reservation holds the index. -/
def Unheld (w : PoolWallet) (nIndex : Int) : Prop :=
  ∀ r, (w.reserves r).nIndex ≠ -1 → (w.reserves r).nIndex ≠ nIndex

theorem Sound.writeNewKey (h : Sound w) {nIndex : Int} (hpos : 0 < nIndex) (hfree : w.Unheld nIndex)
    (hnew : S.newKey w.keys.length ∉ w.keys) : Sound (w.writeNewKey S nIndex) := by
  -- a record is the new one, or an old one with an old key
  have hrecord : ∀ nIndex' keypool, (w.writeNewKey S nIndex).pool.lookup nIndex' = some keypool →
      nIndex' = nIndex ∧ keypool.vchPubKey = S.newKey w.keys.length ∨
      nIndex' ≠ nIndex ∧ w.pool.lookup nIndex' = some keypool := by
    intro nIndex' keypool hlookup
    have hlookup : (w.pool.insert nIndex _).lookup nIndex' = some keypool := hlookup
    rw [lookup_insert_eq_ite] at hlookup
    split at hlookup
    · rename_i heq
      cases hlookup
      exact Or.inl ⟨heq.symm, rfl⟩
    · rename_i hne
      exact Or.inr ⟨fun heq => hne heq.symm, hlookup⟩
  refine ⟨?_, ?_, ?_, ?_, ?_, h.indexes⟩
  · intro nIndex' hi
    rcases Finset.mem_insert.mp hi with rfl | hi
    · exact hpos
    · exact h.positive nIndex' hi
  · intro nIndex' hi
    show ∃ keypool, (w.pool.insert nIndex _).lookup nIndex' = some keypool
    rw [lookup_insert_eq_ite]
    split
    · exact ⟨_, rfl⟩
    · rename_i hne
      rcases Finset.mem_insert.mp hi with heq | hi
      · exact absurd heq.symm hne
      · exact h.recorded nIndex' hi
  · intro nIndex' keypool hlookup
    rcases hrecord nIndex' keypool hlookup with ⟨-, hkey⟩ | ⟨-, hold⟩
    · rw [hkey]
      exact List.mem_cons_self
    · exact List.mem_cons_of_mem _ (h.known nIndex' keypool hold)
  · intro i j keypool keypool' hi hj heq
    rcases hrecord i keypool hi with ⟨hi', hkey⟩ | ⟨-, hi'⟩ <;>
      rcases hrecord j keypool' hj with ⟨hj', hkey'⟩ | ⟨-, hj'⟩
    · rw [hi', hj']
    · exact absurd (h.known j keypool' hj') (by rw [← heq, hkey]; exact hnew)
    · exact absurd (h.known i keypool hi') (by rw [heq, hkey']; exact hnew)
    · exact h.distinct i j keypool keypool' hi' hj' heq
  · intro r hr
    obtain ⟨hpos', hout, keypool, hlookup, hkey⟩ := h.held r hr
    have hne : (w.reserves r).nIndex ≠ nIndex := hfree r hr
    refine ⟨hpos', ?_, keypool, ?_, hkey⟩
    · intro hin
      rcases Finset.mem_insert.mp hin with heq | hin
      · exact hne heq
      · exact hout hin
    · show (w.pool.insert nIndex _).lookup (w.reserves r).nIndex = some keypool
      rw [lookup_insert_eq_ite, if_neg (fun heq => hne heq.symm)]
      exact hlookup

theorem nEnd_gt {nIndex : Int} (hi : nIndex ∈ w.setKeyPool) : nIndex < w.nEnd := by
  have hne : w.setKeyPool.Nonempty := ⟨nIndex, hi⟩
  have hle : nIndex ≤ w.setKeyPool.max' hne := Finset.le_max' _ _ hi
  have heq : w.nEnd = w.setKeyPool.max' hne + 1 := dif_pos hne
  omega

theorem nEnd_notMem : w.nEnd ∉ w.setKeyPool := fun hi => Int.lt_irrefl _ (nEnd_gt hi)

theorem Sound.nEnd_pos (h : Sound w) : 0 < w.nEnd := by
  by_cases hne : w.setKeyPool.Nonempty
  · have hpos := h.positive _ (w.setKeyPool.max'_mem hne)
    have heq : w.nEnd = w.setKeyPool.max' hne + 1 := dif_pos hne
    omega
  · have heq : w.nEnd = 1 := dif_neg hne
    omega

theorem nEnd_writeNewKey : (w.writeNewKey S w.nEnd).nEnd = w.nEnd + 1 := by
  have hmem : w.nEnd ∈ (w.writeNewKey S w.nEnd).setKeyPool := Finset.mem_insert_self _ _
  have hne : (w.writeNewKey S w.nEnd).setKeyPool.Nonempty := ⟨_, hmem⟩
  have heq : (w.writeNewKey S w.nEnd).nEnd =
      (w.writeNewKey S w.nEnd).setKeyPool.max' hne + 1 := dif_pos hne
  have hmax : (w.writeNewKey S w.nEnd).setKeyPool.max' hne = w.nEnd := by
    refine Int.le_antisymm (Finset.max'_le _ _ _ ?_) (Finset.le_max' _ _ hmem)
    intro nIndex hi
    rcases Finset.mem_insert.mp hi with rfl | hi
    · exact Int.le_refl _
    · exact Int.le_of_lt (nEnd_gt hi)
  rw [heq, hmax]

theorem card_writeNewKey :
    (w.writeNewKey S w.nEnd).setKeyPool.card = w.setKeyPool.card + 1 :=
  Finset.card_insert_of_notMem nEnd_notMem

/-- The keys only get more. -/
theorem topUp_keys (nSize n : Nat) (w : PoolWallet) : w.keys <:+ (topUp S nSize n w).keys := by
  induction n generalizing w with
  | zero => exact List.suffix_refl _
  | succ n ih =>
    show w.keys <:+ (if w.setKeyPool.card < nSize then _ else w).keys
    split
    · exact (List.suffix_cons _ _).trans (ih (w.writeNewKey S w.nEnd))
    · exact List.suffix_refl _

theorem topUp_reserves (nSize n : Nat) (w : PoolWallet) :
    (topUp S nSize n w).reserves = w.reserves := by
  induction n generalizing w with
  | zero => rfl
  | succ n ih =>
    show (if w.setKeyPool.card < nSize then _ else w).reserves = w.reserves
    split
    · exact ih (w.writeNewKey S w.nEnd)
    · rfl

/-- The turns are enough: the loop ends with the set as large as it should be. -/
theorem le_card_topUp {nSize n : Nat} (hn : nSize ≤ w.setKeyPool.card + n) :
    nSize ≤ (topUp S nSize n w).setKeyPool.card := by
  induction n generalizing w with
  | zero => exact hn
  | succ n ih =>
    show nSize ≤ (if w.setKeyPool.card < nSize then _ else w).setKeyPool.card
    split
    · refine ih ?_
      rw [card_writeNewKey]
      omega
    · omega

theorem Sound.topUp {nSize n : Nat} (h : Sound w)
    (hclear : ¬ w.Held w.nEnd (nSize - w.setKeyPool.card))
    (hnodup : (topUp S nSize n w).keys.Nodup) : Sound (topUp S nSize n w) := by
  induction n generalizing w with
  | zero => exact h
  | succ n ih =>
    have heq : PoolWallet.topUp S nSize (n + 1) w = if w.setKeyPool.card < nSize then
        PoolWallet.topUp S nSize n (w.writeNewKey S w.nEnd) else w := rfl
    rw [heq] at hnodup ⊢
    split
    · rename_i hlt
      rw [if_pos hlt] at hnodup
      have hnew : (w.writeNewKey S w.nEnd).keys.Nodup :=
        hnodup.sublist (topUp_keys nSize n _).sublist
      have hfree : w.Unheld w.nEnd := by
        intro r hr heq
        refine hclear ⟨r, hr, ?_, ?_⟩ <;> omega
      refine ih (h.writeNewKey h.nEnd_pos hfree (List.nodup_cons.mp hnew).1) ?_ hnodup
      rintro ⟨r, hr, hlo, hhi⟩
      have hr : (w.reserves r).nIndex ≠ -1 := hr
      have hlo : (w.writeNewKey S w.nEnd).nEnd ≤ (w.reserves r).nIndex := hlo
      have hhi : (w.reserves r).nIndex < (w.writeNewKey S w.nEnd).nEnd +
        ((nSize - (w.writeNewKey S w.nEnd).setKeyPool.card : Nat) : Int) := hhi
      rw [nEnd_writeNewKey, card_writeNewKey] at hhi
      rw [nEnd_writeNewKey] at hlo
      refine hclear ⟨r, hr, ?_, ?_⟩ <;> omega
    · exact h

/-! ## Out of the pool and back -/

/-- Fewer free indexes. -/
theorem Sound.free (h : Sound w) {setKeyPool : Finset Int} (hsub : setKeyPool ⊆ w.setKeyPool) :
    Sound { w with setKeyPool := setKeyPool } where
  positive nIndex hi := h.positive nIndex (hsub hi)
  recorded nIndex hi := h.recorded nIndex (hsub hi)
  known := h.known
  distinct := h.distinct
  held r hr := by
    obtain ⟨hpos, hout, hrecord⟩ := h.held r hr
    exact ⟨hpos, fun hi => hout (hsub hi), hrecord⟩
  indexes := h.indexes

/-- An index that is neither free nor held may lose its record. -/
theorem Sound.keepKey (h : Sound w) {nIndex : Int} (hout : nIndex ∉ w.setKeyPool)
    (hfree : w.Unheld nIndex) : Sound (w.keepKey nIndex) := by
  have hrecord : ∀ nIndex' keypool, (w.keepKey nIndex).pool.lookup nIndex' = some keypool →
      w.pool.lookup nIndex' = some keypool := fun nIndex' keypool hlookup =>
    BatchStore.lookup_of_erase hlookup
  have hkept : ∀ nIndex', nIndex' ≠ nIndex →
      (w.keepKey nIndex).pool.lookup nIndex' = w.pool.lookup nIndex' := fun nIndex' hne =>
    AList.lookup_erase_ne hne
  refine ⟨h.positive, ?_, fun i keypool hi => h.known i keypool (hrecord i keypool hi),
    fun i j keypool keypool' hi hj =>
      h.distinct i j keypool keypool' (hrecord i keypool hi) (hrecord j keypool' hj), ?_, h.indexes⟩
  · intro nIndex' hi
    rw [hkept nIndex' fun heq => hout (heq ▸ hi)]
    exact h.recorded nIndex' hi
  · intro r hr
    show 0 < (w.reserves r).nIndex ∧ (w.reserves r).nIndex ∉ w.setKeyPool ∧
      ∃ keypool, (w.keepKey nIndex).pool.lookup (w.reserves r).nIndex = some keypool ∧ _
    rw [hkept _ (hfree r hr)]
    exact h.held r hr

theorem Sound.returnKey (h : Sound w) {nIndex : Int} (hpos : 0 < nIndex) (hfree : w.Unheld nIndex)
    {keypool : CKeyPool} (hlookup : w.pool.lookup nIndex = some keypool) :
    Sound (w.returnKey nIndex) := by
  refine ⟨?_, ?_, h.known, h.distinct, ?_, h.indexes⟩
  · intro nIndex' hi
    rcases Finset.mem_insert.mp hi with rfl | hi
    · exact hpos
    · exact h.positive nIndex' hi
  · intro nIndex' hi
    rcases Finset.mem_insert.mp hi with rfl | hi
    · exact ⟨keypool, hlookup⟩
    · exact h.recorded nIndex' hi
  · intro r hr
    obtain ⟨hpos', hout, hrecord⟩ := h.held r hr
    refine ⟨hpos', fun hi => ?_, hrecord⟩
    rcases Finset.mem_insert.mp hi with heq | hi
    · exact hfree r hr heq
    · exact hout hi

/-- A reservation lets go. -/
theorem Sound.release (h : Sound w) (r : Nat) (vchPubKey : List UInt8) :
    Sound (w.setReserve r ⟨-1, vchPubKey⟩) ∧
      ((w.reserves r).nIndex ≠ -1 →
        (w.setReserve r ⟨-1, vchPubKey⟩).Unheld (w.reserves r).nIndex) := by
  -- the other reservations are as they were
  have hother : ∀ r', ((w.setReserve r ⟨-1, vchPubKey⟩).reserves r').nIndex ≠ -1 →
      r' ≠ r ∧ (w.setReserve r ⟨-1, vchPubKey⟩).reserves r' = w.reserves r' := by
    intro r' hr'
    have hne : r' ≠ r := by
      rintro rfl
      refine hr' ?_
      show (Function.update w.reserves r' _ r').nIndex = -1
      rw [Function.update_self]
    exact ⟨hne, Function.update_of_ne hne _ _⟩
  constructor
  · refine ⟨h.positive, h.recorded, h.known, h.distinct, ?_, ?_⟩
    · intro r' hr'
      obtain ⟨-, heq⟩ := hother r' hr'
      rw [heq] at hr' ⊢
      exact h.held r' hr'
    · intro r' r'' hne hr' hr''
      obtain ⟨-, heq⟩ := hother r' hr'
      obtain ⟨-, heq'⟩ := hother r'' hr''
      rw [heq] at hr' ⊢
      rw [heq'] at hr'' ⊢
      exact h.indexes r' r'' hne hr' hr''
  · intro hr r' hr'
    obtain ⟨hne, heq⟩ := hother r' hr'
    rw [heq] at hr' ⊢
    exact h.indexes r' r hne hr' hr

/-- A reservation takes an index that is neither free nor held, with the key of its record. -/
theorem Sound.take (h : Sound w) {r : Nat} {nIndex : Int} {keypool : CKeyPool} (hpos : 0 < nIndex)
    (hout : nIndex ∉ w.setKeyPool) (hfree : w.Unheld nIndex)
    (hlookup : w.pool.lookup nIndex = some keypool) :
    Sound (w.setReserve r ⟨nIndex, keypool.vchPubKey⟩) := by
  have hself : (w.setReserve r ⟨nIndex, keypool.vchPubKey⟩).reserves r =
      ⟨nIndex, keypool.vchPubKey⟩ := Function.update_self _ _ _
  have hother : ∀ r', r' ≠ r →
      (w.setReserve r ⟨nIndex, keypool.vchPubKey⟩).reserves r' = w.reserves r' := fun r' hne =>
    Function.update_of_ne hne _ _
  refine ⟨h.positive, h.recorded, h.known, h.distinct, ?_, ?_⟩
  · intro r' hr'
    by_cases heq : r' = r
    · rw [heq, hself]
      exact ⟨hpos, hout, keypool, hlookup, rfl⟩
    · rw [hother r' heq] at hr' ⊢
      exact h.held r' hr'
  · intro r' r'' hne hr' hr''
    by_cases heq : r' = r
    · rw [heq] at hne
      rw [hother r'' (Ne.symm hne)] at hr'' ⊢
      rw [heq, hself]
      exact Ne.symm (hfree r'' hr'')
    · rw [hother r' heq] at hr' ⊢
      by_cases heq' : r'' = r
      · rw [heq', hself]
        exact hfree r' hr'
      · rw [hother r'' heq'] at hr'' ⊢
        exact h.indexes r' r'' hne hr' hr''

/-! ## The operations -/

/-- The pool emptied: what is held keeps its record. -/
theorem Sound.emptied (h : Sound w) :
    Sound { w with
      setKeyPool := ∅
      pool := (w.setKeyPool.sort (· ≤ ·)).foldl (fun pool nIndex => pool.erase nIndex) w.pool } := by
  have hrecord : ∀ nIndex keypool,
      ((w.setKeyPool.sort (· ≤ ·)).foldl (fun pool nIndex => pool.erase nIndex) w.pool).lookup nIndex =
        some keypool → w.pool.lookup nIndex = some keypool := by
    intro nIndex keypool hlookup
    rw [foldl_erase_lookup] at hlookup
    split at hlookup
    · cases hlookup
    · exact hlookup
  refine ⟨fun nIndex hi => absurd hi (Finset.notMem_empty _),
    fun nIndex hi => absurd hi (Finset.notMem_empty _),
    fun i keypool hi => h.known i keypool (hrecord i keypool hi),
    fun i j keypool keypool' hi hj =>
      h.distinct i j keypool keypool' (hrecord i keypool hi) (hrecord j keypool' hj), ?_, h.indexes⟩
  intro r hr
  obtain ⟨hpos, hout, keypool, hlookup, hkey⟩ := h.held r hr
  refine ⟨hpos, Finset.notMem_empty _, keypool, ?_, hkey⟩
  show ((w.setKeyPool.sort (· ≤ ·)).foldl (fun pool nIndex => pool.erase nIndex) w.pool).lookup
    (w.reserves r).nIndex = some keypool
  rw [foldl_erase_lookup, if_neg (fun hi => hout ((Finset.mem_sort _).mp hi))]
  exact hlookup

theorem foldl_writeNewKey_keys (l : List Nat) (w : PoolWallet) :
    w.keys <:+ (l.foldl (fun w (i : Nat) => w.writeNewKey S (i + 1)) w).keys := by
  induction l generalizing w with
  | nil => exact List.suffix_refl _
  | cons i l ih => exact (List.suffix_cons _ _).trans (ih (w.writeNewKey S (i + 1)))

/-- Keys under indexes that nothing holds. -/
theorem Sound.foldl_writeNewKey (h : Sound w) {l : List Nat}
    (hfree : ∀ i ∈ l, w.Unheld ((i : Int) + 1))
    (hnodup : (l.foldl (fun w (i : Nat) => w.writeNewKey S (i + 1)) w).keys.Nodup) :
    Sound (l.foldl (fun w (i : Nat) => w.writeNewKey S (i + 1)) w) := by
  induction l generalizing w with
  | nil => exact h
  | cons i l ih =>
    have hnew : (w.writeNewKey S (i + 1)).keys.Nodup :=
      hnodup.sublist (foldl_writeNewKey_keys l _).sublist
    refine ih (h.writeNewKey (by omega) (hfree i List.mem_cons_self) (List.nodup_cons.mp hnew).1)
      (fun j hj => hfree j (List.mem_cons_of_mem _ hj)) hnodup

theorem Sound.newKeyPool (h : Sound w) (hclear : w.Clear S .newKeyPool)
    (hnodup : (w.newKeyPool S).2.keys.Nodup) : Sound (w.newKeyPool S).2 := by
  cases hlocked : w.fLocked with
  | true =>
    have heq : (w.newKeyPool S).2 = _ := congrArg Prod.snd (if_pos hlocked)
    rw [heq]
    exact h.emptied
  | false =>
    have hne : ¬ w.fLocked = true := by rw [hlocked]; exact Bool.false_ne_true
    have heq : (w.newKeyPool S).2 = _ := congrArg Prod.snd (if_neg hne)
    rw [heq] at hnodup ⊢
    refine h.emptied.foldl_writeNewKey ?_ hnodup
    intro i hi r hr heq
    have hr : (w.reserves r).nIndex ≠ -1 := hr
    have heq : (w.reserves r).nIndex = (i : Int) + 1 := heq
    have hlt : i < nKeys S := List.mem_range.mp hi
    refine (hclear.resolve_left hne) ⟨r, hr, ?_, ?_⟩ <;> omega

theorem topUpKeyPool_reserves (nSize : UInt32) : (w.topUpKeyPool S nSize).2.reserves = w.reserves := by
  unfold PoolWallet.topUpKeyPool
  split
  · rfl
  · exact topUp_reserves _ _ w

theorem Sound.topUpKeyPool (h : Sound w) {nSize : UInt32}
    (hclear : w.fLocked = true ∨ ¬ w.Held w.nEnd (targetSize S nSize - w.setKeyPool.card))
    (hnodup : (w.topUpKeyPool S nSize).2.keys.Nodup) : Sound (w.topUpKeyPool S nSize).2 := by
  unfold PoolWallet.topUpKeyPool at hnodup ⊢
  split
  · exact h
  · rename_i hlocked
    rw [if_neg hlocked] at hnodup
    exact h.topUp (hclear.resolve_left hlocked) hnodup

/-- What `ReserveKeyFromKeyPool` has done when it ends: nothing is out that was not out, and the index
    is one that is neither free nor held, with its record. -/
structure Reserved (w : PoolWallet) (r : Int × Except PoolFailure (List UInt8) × PoolWallet) :
    Prop where
  sound : Sound r.2.2
  reserves : r.2.2.reserves = w.reserves
  index : r.1 = -1 ∧ r.2.1 = .ok [] ∨ 0 < r.1 ∧ r.1 ∉ r.2.2.setKeyPool ∧ r.2.2.Unheld r.1 ∧
    ∃ keypool, r.2.2.pool.lookup r.1 = some keypool ∧
      (r.2.1 = .ok keypool.vchPubKey ∨ r.2.1 = .error .assertion)

theorem reserveOldest_cases (w : PoolWallet) :
    w.reserveOldest S = (-1, .ok [], w) ∨
    ∃ nIndex ∈ w.setKeyPool, ∃ e, w.reserveOldest S =
      (nIndex, e, { w with setKeyPool := w.setKeyPool.erase nIndex }) ∧
      ∀ keypool, w.pool.lookup nIndex = some keypool → keypool.vchPubKey ∈ w.keys →
        e = .ok keypool.vchPubKey ∨ e = .error .assertion := by
  by_cases hne : w.setKeyPool.Nonempty
  · right
    refine ⟨w.setKeyPool.min' hne, Finset.min'_mem _ hne, ?_⟩
    unfold reserveOldest
    rw [dif_pos hne]
    dsimp only
    cases hlookup : w.pool.lookup (w.setKeyPool.min' hne) with
    | none => exact ⟨_, rfl, fun keypool hf => by cases hf⟩
    | some keypool =>
      dsimp only
      split
      · rename_i hhave
        refine ⟨_, rfl, fun keypool' hf hmem => ?_⟩
        cases hf
        -- a key of the wallet is one it has
        have htrue : w.haveKey S keypool.vchPubKey = true :=
          List.contains_iff_mem.mpr (List.mem_map_of_mem hmem)
        rw [htrue] at hhave
        cases hhave
      · split
        · exact ⟨_, rfl, fun keypool' hf _ => Or.inr rfl⟩
        · refine ⟨_, rfl, fun keypool' hf _ => ?_⟩
          cases hf
          exact Or.inl rfl
  · exact Or.inl (dif_neg hne)

theorem Sound.reserveOldest (h : Sound w) : w.Reserved (w.reserveOldest S) := by
  rcases reserveOldest_cases (S := S) w with heq | ⟨nIndex, hmem, e, heq, he⟩
  · rw [heq]
    exact ⟨h, rfl, Or.inl ⟨rfl, rfl⟩⟩
  · rw [heq]
    obtain ⟨keypool, hlookup⟩ := h.recorded nIndex hmem
    refine ⟨h.free (Finset.erase_subset _ _), rfl, Or.inr ⟨h.positive nIndex hmem,
      Finset.notMem_erase _ _, ?_, keypool, hlookup, he keypool hlookup (h.known _ _ hlookup)⟩⟩
    intro r hr hsame
    have hsame : (w.reserves r).nIndex = nIndex := hsame
    exact (h.held r hr).2.1 (hsame ▸ hmem)

theorem reserveOldest_keys (w : PoolWallet) : (w.reserveOldest S).2.2.keys = w.keys := by
  rcases reserveOldest_cases (S := S) w with heq | ⟨nIndex, -, e, heq, -⟩ <;> rw [heq]

theorem Sound.reserveKeyFromKeyPool (h : Sound w)
    (hclear : w.fLocked = true ∨ ¬ w.Held w.nEnd (targetSize S 0 - w.setKeyPool.card))
    (hnodup : (w.reserveKeyFromKeyPool S).2.2.keys.Nodup) :
    w.Reserved (w.reserveKeyFromKeyPool S) := by
  unfold PoolWallet.reserveKeyFromKeyPool at hnodup ⊢
  rw [reserveOldest_keys] at hnodup
  split
  · exact h.reserveOldest
  · rename_i hlocked
    rw [if_neg hlocked] at hnodup
    have hr := (h.topUpKeyPool hclear hnodup).reserveOldest (S := S)
    exact ⟨hr.sound, hr.reserves.trans (topUpKeyPool_reserves 0), hr.index⟩

theorem Sound.addKey (h : Sound w) (vchPubKey : List UInt8) :
    Sound { w with keys := vchPubKey :: w.keys } :=
  ⟨h.positive, h.recorded, fun i keypool hi => List.mem_cons_of_mem _ (h.known i keypool hi), h.distinct,
    h.held, h.indexes⟩

/-- `GetKeyFromPool` and `ReserveKeyFromKeyPool` know the same keys, but for one that is not from the
    pool. -/
theorem getKeyFromPool_keys (fAllowReuse : Bool) :
    (w.reserveKeyFromKeyPool S).2.2.keys <:+ (w.getKeyFromPool S fAllowReuse).2.keys := by
  unfold PoolWallet.getKeyFromPool
  obtain ⟨nIndex, e, w'⟩ := w.reserveKeyFromKeyPool S
  cases e with
  | error e => exact List.suffix_refl _
  | ok vchPubKey =>
    dsimp only
    split
    · split
      · exact List.suffix_refl _
      · split
        · exact List.suffix_refl _
        · exact List.suffix_cons _ _
    · exact List.suffix_refl _

theorem Sound.getKeyFromPool (h : Sound w) {fAllowReuse : Bool}
    (hclear : w.Clear S (.getKeyFromPool fAllowReuse))
    (hnodup : (w.getKeyFromPool S fAllowReuse).2.keys.Nodup) :
    Sound (w.getKeyFromPool S fAllowReuse).2 := by
  have hr := h.reserveKeyFromKeyPool hclear
    (hnodup.sublist (getKeyFromPool_keys fAllowReuse).sublist)
  unfold PoolWallet.getKeyFromPool
  generalize w.reserveKeyFromKeyPool S = reserved at hr ⊢
  obtain ⟨nIndex, e, w'⟩ := reserved
  obtain ⟨hsound, -, hindex⟩ := hr
  cases e with
  | error e => exact hsound
  | ok vchPubKey =>
    dsimp only
    split
    · split
      · exact hsound
      · split
        · exact hsound
        · exact hsound.addKey _
    · rename_i hne
      obtain ⟨-, hout, hfree, -⟩ := hindex.resolve_left fun hf => hne hf.1
      exact hsound.keepKey hout hfree

theorem getReservedKey_keys (r : Nat) (hr : (w.reserves r).nIndex = -1) :
    (w.getReservedKey S r).2.keys = (w.reserveKeyFromKeyPool S).2.2.keys := by
  unfold PoolWallet.getReservedKey
  rw [if_pos hr]
  obtain ⟨nIndex, e, w'⟩ := w.reserveKeyFromKeyPool S
  cases e <;> rfl

theorem Sound.getReservedKey (h : Sound w) {r : Nat} (hclear : w.Clear S (.getReservedKey r))
    (hnodup : (w.getReservedKey S r).2.keys.Nodup)
    (hok : (w.getReservedKey S r).1 ≠ .error .assertion) : Sound (w.getReservedKey S r).2 := by
  by_cases hr : (w.reserves r).nIndex = -1
  · rw [getReservedKey_keys r hr] at hnodup
    have hres := h.reserveKeyFromKeyPool (hclear.resolve_left fun hne => hne hr) hnodup
    unfold PoolWallet.getReservedKey at hok ⊢
    rw [if_pos hr] at hok ⊢
    generalize w.reserveKeyFromKeyPool S = reserved at hres hok ⊢
    obtain ⟨nIndex, e, w'⟩ := reserved
    obtain ⟨hsound, -, hindex⟩ := hres
    cases e with
    | error e =>
      -- the record was there: only the assertion can have failed
      rcases hindex with ⟨-, hf⟩ | ⟨-, -, -, keypool, -, hf | hf⟩
      · cases hf
      · cases hf
      · cases hf
        exact absurd rfl hok
    | ok vchPubKey =>
      have htaken : Sound (w'.setReserve r
          ⟨nIndex, if nIndex ≠ -1 then vchPubKey else w'.vchDefaultKey⟩) := by
        rcases hindex with ⟨hminus, -⟩ | ⟨hpos, hout, hfree, keypool, hlookup, hkey | hf⟩
        · have hminus : nIndex = -1 := hminus
          rw [hminus]
          exact (hsound.release r _).1
        · have hpos : 0 < nIndex := hpos
          have hkey : Except.ok vchPubKey = Except.ok keypool.vchPubKey := hkey
          cases hkey
          rw [if_pos (by omega)]
          exact hsound.take hpos hout hfree hlookup
        · cases hf
      exact htaken
  · unfold PoolWallet.getReservedKey
    rw [if_neg hr]
    exact h

theorem Sound.keepReserved (h : Sound w) (r : Nat) : Sound (w.keepReserved r) := by
  obtain ⟨hsound, hfree⟩ := h.release r []
  unfold PoolWallet.keepReserved
  split
  · rename_i hr
    exact hsound.keepKey (h.held r hr).2.1 (hfree hr)
  · exact hsound

theorem Sound.returnReserved (h : Sound w) (r : Nat) : Sound (w.returnReserved r) := by
  obtain ⟨hsound, hfree⟩ := h.release r []
  unfold PoolWallet.returnReserved
  split
  · rename_i hr
    obtain ⟨hpos, -, keypool, hlookup, -⟩ := h.held r hr
    exact hsound.returnKey hpos (hfree hr) hlookup
  · exact hsound

/-! ## Runs -/

theorem Sound.setLocked (h : Sound w) (fLocked : Bool) : Sound { w with fLocked := fLocked } :=
  ⟨h.positive, h.recorded, h.known, h.distinct, h.held, h.indexes⟩

theorem Sound.step (h : Sound w) {op : Op} (hclear : w.Clear S op)
    (hnodup : (w.step S op).2.keys.Nodup) (hr : (w.step S op).1 ≠ .error .assertion) :
    Sound (w.step S op).2 := by
  cases op with
  | newKeyPool => exact h.newKeyPool hclear hnodup
  | topUpKeyPool nSize => exact h.topUpKeyPool hclear hnodup
  | getKeyFromPool fAllowReuse => exact h.getKeyFromPool hclear hnodup
  | getReservedKey r =>
    refine h.getReservedKey hclear hnodup fun hf => hr ?_
    show (w.getReservedKey S r).1.map _ = _
    rw [hf]
    rfl
  | keepReserved r => exact h.keepReserved r
  | returnReserved r => exact h.returnReserved r
  | lock => exact h.setLocked true
  | unlock => exact h.setLocked false

theorem topUpKeyPool_keys (nSize : UInt32) : w.keys <:+ (w.topUpKeyPool S nSize).2.keys := by
  unfold PoolWallet.topUpKeyPool
  split
  · exact List.suffix_refl _
  · exact topUp_keys _ _ w

theorem reserveKeyFromKeyPool_keys : w.keys <:+ (w.reserveKeyFromKeyPool S).2.2.keys := by
  unfold PoolWallet.reserveKeyFromKeyPool
  rw [reserveOldest_keys]
  split
  · exact List.suffix_refl _
  · exact topUpKeyPool_keys 0

/-- No operation forgets a key. -/
theorem step_keys (op : Op) : w.keys <:+ (w.step S op).2.keys := by
  cases op with
  | newKeyPool =>
    have hkeys := foldl_writeNewKey_keys (S := S) (List.range (nKeys S)) { w with
      setKeyPool := ∅
      pool := (w.setKeyPool.sort (· ≤ ·)).foldl (fun pool nIndex => pool.erase nIndex) w.pool }
    show w.keys <:+ (w.newKeyPool S).2.keys
    unfold PoolWallet.newKeyPool
    dsimp only
    split
    · exact List.suffix_refl _
    · exact hkeys
  | topUpKeyPool nSize => exact topUpKeyPool_keys nSize
  | getKeyFromPool fAllowReuse => exact reserveKeyFromKeyPool_keys.trans (getKeyFromPool_keys fAllowReuse)
  | getReservedKey r =>
    show w.keys <:+ (w.getReservedKey S r).2.keys
    by_cases hr : (w.reserves r).nIndex = -1
    · rw [getReservedKey_keys r hr]
      exact reserveKeyFromKeyPool_keys
    · unfold PoolWallet.getReservedKey
      rw [if_neg hr]
  | keepReserved r =>
    show w.keys <:+ (w.keepReserved r).keys
    unfold PoolWallet.keepReserved
    split <;> exact List.suffix_refl _
  | returnReserved r =>
    show w.keys <:+ (w.returnReserved r).keys
    unfold PoolWallet.returnReserved
    split <;> exact List.suffix_refl _
  | lock => exact List.suffix_refl _
  | unlock => exact List.suffix_refl _

theorem Run.sound {start : PoolWallet} (hstart : start.Loaded)
    (hrun : Run S (Clear S) start w) (hnodup : w.keys.Nodup) : Sound w := by
  induction hrun with
  | start => exact hstart.sound
  | @step w _ op hop hr ih => exact (ih (hnodup.sublist (step_keys op).sublist)).step hop hnodup hr

/-- As long as no operation makes an index that is out, the pool is sound: in every order of operations,
    provided the keys that are generated differ from each other. -/
theorem keyPool_exclusive {S : PoolSource} {start w : PoolWallet} (hstart : start.Loaded)
    (hrun : Run S (Clear S) start w) (hnodup : w.keys.Nodup) : w.Exclusive :=
  (hrun.sound hstart hnodup).exclusive

/-! ## A pool of one key

  With `-keypool=0` a pool is topped up to one key.
-/

namespace OneKey

def source : PoolSource where
  nKeyPoolArg := 0
  hash160 := CCryptoKeyStore.TwoKeys.primitives.hash160
  newKey n := if n = 0 then CCryptoKeyStore.TwoKeys.pubKey1 else CCryptoKeyStore.TwoKeys.pubKey2
  getTime n := 1400000000 + n

/-- A new wallet. -/
def new : PoolWallet where
  setKeyPool := ∅
  pool := ∅
  keys := []
  fLocked := false
  vchDefaultKey := []
  reserves _ := ⟨-1, []⟩

theorem new_loaded : new.Loaded where
  free nIndex := iff_of_false (Finset.notMem_empty _) Bool.false_ne_true
  positive _ hi := absurd hi (Finset.notMem_empty _)
  known _ _ hf := by cases hf
  distinct _ _ _ _ hf := by cases hf
  unreserved _ := rfl

end OneKey

theorem keyPool_exclusive_kept : ∃ w, Run OneKey.source (Clear OneKey.source) OneKey.new w ∧
    (w.reserves 1).nIndex = 1 ∧ w.Exclusive := by
  have h0 : Run OneKey.source (Clear OneKey.source) OneKey.new OneKey.new := Run.start
  have h1 := h0.step (.getReservedKey 0) (Or.inr (Or.inr fun ⟨_, hr, _⟩ => hr rfl)) (by decide)
  have h2 := h1.step (.keepReserved 0) trivial (by decide)
  have hnone : ∀ r, (((OneKey.new.getReservedKey OneKey.source 0).2.keepReserved 0).reserves r).nIndex =
      -1 := by
    intro r
    cases r with
    | zero => decide
    | succ r => rfl
  have h3 := h2.step (.getReservedKey 1) (Or.inr (Or.inr fun ⟨r, hr, _⟩ => hr (hnone r)))
    (by decide)
  exact ⟨_, h3, by decide, keyPool_exclusive OneKey.new_loaded h3 (by decide)⟩

/-- The second reservation finds the set empty and starts again at 1. -/
theorem reserved_twice : OneKey.new.Loaded ∧
    ∃ w, Run OneKey.source (fun _ _ => True) OneKey.new w ∧ w.keys.Nodup ∧ ¬ w.Exclusive := by
  refine ⟨OneKey.new_loaded, ?_⟩
  have h0 : Run OneKey.source (fun _ _ => True) OneKey.new OneKey.new := Run.start
  have h1 := h0.step (.getReservedKey 0) trivial (by decide)
  have h2 := h1.step (.getReservedKey 1) trivial (by decide)
  refine ⟨_, h2, by decide, fun hf => ?_⟩
  exact hf.indexes 0 1 (by decide) (by decide) (by decide) (by decide)

end PoolWallet
end Silkcoin
