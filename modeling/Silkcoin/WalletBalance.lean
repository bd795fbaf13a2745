/-
  THE BALANCE, twice: `GetBalance` and `AvailableCoins`.

  `GetBalance` adds up what every transaction of the wallet still has to spend, and each of them
  REMEMBERS that number.  `AvailableCoins` looks at all outputs anew.  They agree as long as nothing
  remembered is out of date (`Fresh`): whoever changes a spent flag, or puts a transaction in, sees to
  that.  Whoever adds a key does not; only the calls that import one have all records forget
  (`MarkDirty`).  Adding a REDEEM SCRIPT has nobody forget anything: an output that becomes the wallet's
  own by it is among the coins, and not in the balance.

  So the balance is right on every run in which no key and no script makes an output the wallet's own
  that a record with a remembered credit has (`KeepsCredit`).

  A record that is asked also remembers its debit.  A queue of supporting transactions that is never
  worked off (`nSteps`) gives no answer, to either of the two.
-/
import Silkcoin.StakeReward

namespace Silkcoin

open Validation BatchStore

/-! ## What a record remembers -/

/-- `fDebitCached` and `nDebitCached`, `fAvailableCreditCached` and `nAvailableCreditCached`. -/
structure CreditCache where
  nDebitCached : Option Int
  nAvailableCreditCached : Option Int
deriving DecidableEq, Repr

/-- `MarkDirty` of a record. -/
def CreditCache.dirty : CreditCache := ⟨none, none⟩

/-- The wallet with what lies beside its records. -/
structure CachedWallet extends CWallet where
  keystore : CKeyStore
  mapAddressBook : List CTxDestination
  fConfChange : Bool
  /-- the supporting transactions of a record, as far as a `CMerkleTx` goes -/
  vtxPrev : Uint256 → List CWalletTx
  cache : Uint256 → CreditCache

/-- Outputs not flagged as spent. -/
def CWalletTx.unspent (wtx : CWalletTx) : List (CTxOut × Nat) :=
  wtx.tx.vout.zipIdx.filter fun o => !wtx.isSpent o.2

structure COutput where
  tx : CWalletTx
  i : Nat
  nDepth : Int

def COutput.nValue (out : COutput) : Int := ((out.tx.tx.vout[out.i]?).map CTxOut.nValue).getD 0

namespace CachedWallet

variable (P : Primitives) (s : NodeState) (nSteps : Nat) (w : CachedWallet)

/-- `GetBlocksToMaturity`. -/
def blocksToMaturity (wtx : CWalletTx) : Int :=
  if wtx.tx.isCoinBase || wtx.tx.isCoinStake then
    max 0 (s.globals.nCoinbaseMaturity + 10 - s.walletDepth P wtx)
  else 0

/-! ## Debit and trust -/

/-- `CWalletTx::GetDebit`. -/
def getDebitCached (wtx : CWalletTx) (c : CreditCache) : Check (Int × CreditCache) :=
  if wtx.tx.vin = [] then .ok (0, c)
  else
    match c.nDebitCached with
    | some nDebit => .ok (nDebit, c)
    | none => do
      let nDebit ← w.getDebit wtx.tx
      return (nDebit, { c with nDebitCached := some nDebit })

def isFinal (wtx : CWalletTx) : Bool := wtx.tx.isFinal s.nBestHeight s.nAdjustedTime 0 0

/-- The queue of `IsTrusted`: an unconfirmed transaction of ours is as good as what it spends. -/
def trustedFrom (prevs : List CWalletTx) : Nat → List CWalletTx → Check Bool
  | _, [] => .ok true
  | 0, _ :: _ => .error (.throw "vWorkQueue")
  | nSteps + 1, ptx :: rest =>
    if isFinal s ptx = false then .ok false
    else if s.walletDepth P ptx ≥ 1 then trustedFrom prevs nSteps rest
    else if s.walletDepth P ptx < 0 then .ok false
    else do
      let fFromMe ← w.isFromMe ptx.tx
      if fFromMe then
        match ptx.tx.vin.mapM fun txin =>
            prevs.reverse.find? fun prev => decide (P.getHash prev.tx = txin.prevout.hash) with
        | none => .ok false
        | some found => trustedFrom prevs nSteps (rest ++ found)
      else .ok false

def isTrusted (hash : Uint256) (wtx : CWalletTx) (c : CreditCache) : Check (Bool × CreditCache) :=
  if isFinal s wtx = false then .ok (false, c)
  else if s.walletDepth P wtx ≥ 1 then .ok (true, c)
  else if s.walletDepth P wtx < 0 then .ok (false, c)
  else if w.fConfChange then .ok (false, c)
  else do
    let (nDebit, c) ← w.getDebitCached wtx c
    if nDebit > 0 then
      let fTrusted ← w.trustedFrom P s (w.vtxPrev hash) nSteps [wtx]
      return (fTrusted, c)
    else return (false, c)

/-! ## `GetBalance` -/

/-- `GetCredit(txout)`. -/
def getCredit (txout : CTxOut) : Check Int := do
  require (moneyRange txout.nValue) (.throw "CWallet::GetCredit() : value out of range")
  return if w.isMineOut txout then txout.nValue else 0

/-- One turn of the loop of `GetAvailableCredit`. -/
def addCredit (nCredit : Int) (o : CTxOut × Nat) : Check Int := do
  let nMore ← w.getCredit o.1
  let nCredit := int64 (nCredit + nMore)
  require (moneyRange nCredit) (.throw "CWalletTx::GetAvailableCredit() : value out of range")
  return nCredit

def getAvailableCredit (wtx : CWalletTx) (c : CreditCache) : Check (Int × CreditCache) :=
  if (wtx.tx.isCoinBase || wtx.tx.isCoinStake) && decide (blocksToMaturity P s wtx > 0) then .ok (0, c)
  else
    match c.nAvailableCreditCached with
    | some nCredit => .ok (nCredit, c)
    | none => do
      let nCredit ← wtx.unspent.foldlM w.addCredit 0
      return (nCredit, { c with nAvailableCreditCached := some nCredit })

/-- The records in the order of the map. -/
def ordered : List ((_ : Uint256) × CWalletTx) :=
  w.mapWallet.entries.insertionSort fun e e' => e.1 ≤ e'.1

/-- One turn of the loop of `GetBalance`. -/
def balanceTurn (acc : Int × (Uint256 → CreditCache)) (e : (_ : Uint256) × CWalletTx) :
    Check (Int × (Uint256 → CreditCache)) := do
  let (fTrusted, c) ← w.isTrusted P s nSteps e.1 e.2 (acc.2 e.1)
  if fTrusted then
    let (nCredit, c) ← w.getAvailableCredit P s e.2 c
    return (int64 (acc.1 + nCredit), Function.update acc.2 e.1 c)
  else return (acc.1, Function.update acc.2 e.1 c)

def getBalance : Check (Int × CachedWallet) := do
  let (nTotal, cache) ← w.ordered.foldlM (w.balanceTurn P s nSteps) (0, w.cache)
  return (nTotal, { w with cache := cache })

/-! ## `AvailableCoins` -/

/-- The outputs of a record that can be spent. -/
def coinsOf (wtx : CWalletTx) : List COutput :=
  (wtx.unspent.filter fun o => w.isMineOut o.1 && decide (o.1.nValue ≥ w.nMinimumInputValue)).map
    fun o => ⟨wtx, o.2, s.walletDepth P wtx⟩

/-- Unconfirmed ones may be wanted too. -/
def isWanted (fOnlyConfirmed : Bool) (hash : Uint256) (wtx : CWalletTx) (c : CreditCache) :
    Check (Bool × CreditCache) :=
  if fOnlyConfirmed then w.isTrusted P s nSteps hash wtx c else .ok (true, c)

/-- One turn of the loop of `AvailableCoins`, without coin control. -/
def coinsTurn (fOnlyConfirmed : Bool) (acc : List COutput × (Uint256 → CreditCache))
    (e : (_ : Uint256) × CWalletTx) : Check (List COutput × (Uint256 → CreditCache)) :=
  if isFinal s e.2 = false then .ok acc
  else do
    let (fWanted, c) ← w.isWanted P s nSteps fOnlyConfirmed e.1 e.2 (acc.2 e.1)
    let vCoins :=
      if fWanted = false then acc.1
      else if e.2.tx.isCoinBase && decide (blocksToMaturity P s e.2 > 0) then acc.1
      else if e.2.tx.isCoinStake && decide (blocksToMaturity P s e.2 > 0) then acc.1
      else if s.walletDepth P e.2 < 0 then acc.1
      else acc.1 ++ w.coinsOf P s e.2
    return (vCoins, Function.update acc.2 e.1 c)

def availableCoins (fOnlyConfirmed : Bool) : Check (List COutput × CachedWallet) := do
  let (vCoins, cache) ← w.ordered.foldlM (w.coinsTurn P s nSteps fOnlyConfirmed) ([], w.cache)
  return (vCoins, { w with cache := cache })

/-! ## Changing the wallet -/

variable (C : KeyPrimitives) (vMasterKey : List UInt8)

/-- Another key store: what is the wallet's own is asked of it from now on. -/
def withKeys (keystore : CKeyStore) : CachedWallet :=
  { w with keystore := keystore, isMine := keystore.isMine C }

/-- `MarkSpent` and `MarkUnspent`: a flag that changes makes the record forget its credit. -/
def markOut (fSpent : Bool) (hash : Uint256) (nOut : Nat) : CachedWallet :=
  match w.mapWallet.lookup hash with
  | none => w
  | some wtx =>
    -- the source throws
    if nOut ≥ wtx.tx.vout.length then w
    else { w with
      mapWallet := w.mapWallet.insert hash (wtx.mark fSpent nOut)
      cache := if wtx.isSpent nOut = fSpent then w.cache
        else Function.update w.cache hash { w.cache hash with nAvailableCreditCached := none } }

/-- `UpdateSpent`. -/
def updateSpentOf (hash : Uint256) (vfNewSpent : List Bool) : CachedWallet :=
  match w.mapWallet.lookup hash with
  | none => w
  | some wtx => { w with
      mapWallet := w.mapWallet.insert hash (wtx.updateSpent vfNewSpent)
      cache := if (wtx.updateSpent vfNewSpent).vfSpent = wtx.vfSpent then w.cache
        else Function.update w.cache hash { w.cache hash with nAvailableCreditCached := none } }

/-- `BindWallet`. -/
def bindWallet (hash : Uint256) : CachedWallet :=
  { w with cache := Function.update w.cache hash CreditCache.dirty }

/-- `CWallet::MarkDirty`. -/
def markDirty : CachedWallet := { w with cache := fun _ => CreditCache.dirty }

/-- A new record. -/
def insertRecord (hash : Uint256) (wtx : CWalletTx) (vtxPrev : List CWalletTx) : CachedWallet :=
  { w with
    mapWallet := w.mapWallet.insert hash wtx
    vtxPrev := Function.update w.vtxPrev hash vtxPrev
    cache := Function.update w.cache hash CreditCache.dirty }

/-- Everything in a record but the transaction and the flags: its block, its times, its place. -/
def setRecord (hash : Uint256) (wtxNew : CWalletTx) : CachedWallet :=
  match w.mapWallet.lookup hash with
  | none => w
  | some wtx => { w with
      mapWallet := w.mapWallet.insert hash { wtxNew with tx := wtx.tx, vfSpent := wtx.vfSpent } }

def eraseRecord (hash : Uint256) : CachedWallet := { w with mapWallet := w.mapWallet.erase hash }

/-- What a record remembers after it was asked; behind an exception, what it remembered before. -/
def remember {α : Type} (hash : Uint256) (x : Check (α × CreditCache)) : CachedWallet :=
  match x with
  | .ok r => { w with cache := Function.update w.cache hash r.2 }
  | .error _ => w

end CachedWallet

/-! ## What a record has to spend -/

/-- The sum of the unspent outputs that are the wallet's own. -/
def CachedWallet.availableCredit (w : CachedWallet) (wtx : CWalletTx) : Int :=
  ((wtx.unspent.filter fun o => w.isMineOut o.1).map fun o => o.1.nValue).sum

namespace CachedWallet

variable {P : Primitives} {s : NodeState} {nSteps : Nat} {w : CachedWallet}

/-- These are the credits of the wallet's records, as far as any are remembered. -/
def Right (w : CachedWallet) (cache : Uint256 → CreditCache) : Prop :=
  ∀ hash wtx v, w.mapWallet.lookup hash = some wtx →
    (cache hash).nAvailableCreditCached = some v → v = w.availableCredit wtx

/-- Nothing that is remembered is out of date. -/
def Fresh (w : CachedWallet) : Prop := w.Right w.cache

theorem mem_unspent {wtx : CWalletTx} {o : CTxOut × Nat} :
    o ∈ wtx.unspent ↔ wtx.tx.vout[o.2]? = some o.1 ∧ wtx.isSpent o.2 = false := by
  unfold CWalletTx.unspent
  rw [List.mem_filter, List.mem_zipIdx_iff_getElem?, Bool.not_eq_true']

/-- A part of amounts that are not negative is not more than all of them. -/
theorem sum_filter_le {α : Type} (f : α → Int) (p : α → Bool) : ∀ {l : List α}, (∀ a ∈ l, 0 ≤ f a) →
    0 ≤ ((l.filter p).map f).sum ∧ ((l.filter p).map f).sum ≤ (l.map f).sum
  | [], _ => ⟨Int.le_refl 0, Int.le_refl 0⟩
  | a :: l, h => by
    obtain ⟨hlo, hhi⟩ := sum_filter_le f p fun b hb => h b (List.mem_cons_of_mem a hb)
    have ha := h a List.mem_cons_self
    rw [List.filter_cons]
    split <;> simp only [List.map_cons, List.sum_cons] <;> omega

/-- The loop of `GetAvailableCredit` does not leave the range of money, and so it adds up. -/
theorem foldlM_addCredit : ∀ {l : List (CTxOut × Nat)} {nCredit : Int}, 0 ≤ nCredit →
    (∀ o ∈ l, moneyRange o.1.nValue = true) → nCredit + (l.map fun o => o.1.nValue).sum ≤ MAX_MONEY →
    l.foldlM w.addCredit nCredit =
      .ok (nCredit + ((l.filter fun o => w.isMineOut o.1).map fun o => o.1.nValue).sum)
  | [], nCredit, _, _, _ => by rw [List.filter_nil, List.map_nil, List.sum_nil, Int.add_zero]; rfl
  | o :: l, nCredit, hpos, hvalues, hmax => by
    have hmoney : MAX_MONEY = 200000000000000000 := by decide
    have hrange := hvalues o List.mem_cons_self
    have ho := moneyRange_iff.mp hrange
    have hrest := fun o' ho' => hvalues o' (List.mem_cons_of_mem o ho')
    have hsum : 0 ≤ (l.map fun o => o.1.nValue).sum := by
      refine List.sum_nonneg fun x hx => ?_
      obtain ⟨o', ho', rfl⟩ := List.mem_map.mp hx
      exact (moneyRange_iff.mp (hrest o' ho')).1
    rw [List.map_cons, List.sum_cons] at hmax
    -- what the turn makes of the credit
    have hturn : w.addCredit nCredit o =
        .ok (nCredit + if w.isMineOut o.1 then o.1.nValue else 0) := by
      have hmore : 0 ≤ (if w.isMineOut o.1 then o.1.nValue else 0) ∧
          (if w.isMineOut o.1 then o.1.nValue else 0) ≤ o.1.nValue := by
        split <;> omega
      have hin : moneyRange (nCredit + if w.isMineOut o.1 then o.1.nValue else 0) = true :=
        moneyRange_iff.mpr ⟨by omega, by omega⟩
      unfold addCredit getCredit
      rw [hrange]
      show (do
        require (moneyRange (int64 (nCredit + if w.isMineOut o.1 then o.1.nValue else 0))) _
        return _) = _
      rw [int64_of_range (by omega) (by omega), hin]
      rfl
    rw [List.foldlM_cons, hturn]
    show l.foldlM w.addCredit _ = _
    rw [foldlM_addCredit (by split <;> omega) hrest (by split <;> omega), List.filter_cons]
    congr 1
    by_cases hmine : w.isMineOut o.1 = true
    · rw [if_pos hmine, if_pos hmine, List.map_cons, List.sum_cons]
      omega
    · rw [if_neg hmine, if_neg hmine]
      omega

/-- What a checked record has to spend is calculated without an exception. -/
theorem foldlM_unspent {wtx : CWalletTx} (hchecked : wtx.tx.TxChecked) :
    wtx.unspent.foldlM w.addCredit 0 = .ok (w.availableCredit wtx) := by
  have hvalues : ∀ o ∈ wtx.tx.vout.zipIdx, moneyRange o.1.nValue = true := by
    intro o ho
    exact hchecked.values o.1 (List.fst_mem_of_mem_zipIdx ho)
  have hall : (wtx.tx.vout.zipIdx.map fun o => o.1.nValue).sum = wtx.tx.valueOut := by
    have hzip : (wtx.tx.vout.zipIdx.map fun o => o.1.nValue) =
        (wtx.tx.vout.zipIdx.map Prod.fst).map CTxOut.nValue := by rw [List.map_map]; rfl
    rw [hzip, List.zipIdx_map_fst]
    rfl
  have hpart := sum_filter_le (fun o : CTxOut × Nat => o.1.nValue) (fun o => !wtx.isSpent o.2)
    fun o ho => (moneyRange_iff.mp (hvalues o ho)).1
  have htotal := moneyRange_iff.mp hchecked.total
  rw [hall] at hpart
  have hloop := foldlM_addCredit (w := w) (l := wtx.unspent) (Int.le_refl 0)
    (fun o ho => hvalues o (List.mem_of_mem_filter ho))
    (by show 0 + ((wtx.tx.vout.zipIdx.filter _).map _).sum ≤ _; rw [MAX_MONEY, COIN]; omega)
  rw [hloop, Int.zero_add]
  rfl

/-! ## The two loops -/

/-- What `IsTrusted` says yes to is final, and not lost. -/
theorem isTrusted_spec {hash : Uint256} {wtx : CWalletTx} {c c' : CreditCache} {fTrusted : Bool}
    (h : w.isTrusted P s nSteps hash wtx c = .ok (fTrusted, c')) :
    c'.nAvailableCreditCached = c.nAvailableCreditCached ∧
      (fTrusted = true → isFinal s wtx = true ∧ 0 ≤ s.walletDepth P wtx) := by
  unfold isTrusted at h
  split at h
  · cases h
    exact ⟨rfl, fun hf => nomatch hf⟩
  rename_i hfinal
  have hfinal : isFinal s wtx = true := by simpa using hfinal
  split at h
  · rename_i hdepth
    cases h
    exact ⟨rfl, fun _ => ⟨hfinal, by omega⟩⟩
  split at h
  · cases h
    exact ⟨rfl, fun hf => nomatch hf⟩
  rename_i hdepth
  split at h
  · cases h
    exact ⟨rfl, fun hf => nomatch hf⟩
  simp only [bind_ok] at h
  obtain ⟨⟨nDebit, c₁⟩, hdebit, h⟩ := h
  have hc₁ : c₁.nAvailableCreditCached = c.nAvailableCreditCached := by
    unfold getDebitCached at hdebit
    split at hdebit
    · cases hdebit
      rfl
    split at hdebit
    · cases hdebit
      rfl
    · simp only [bind_ok, pure_ok] at hdebit
      obtain ⟨nDebit', -, heq⟩ := hdebit
      cases heq
      rfl
  dsimp only at h
  split at h
  · simp only [bind_ok, pure_ok] at h
    obtain ⟨fTrusted', -, heq⟩ := h
    cases heq
    exact ⟨hc₁, fun _ => ⟨hfinal, by omega⟩⟩
  · cases h
    exact ⟨hc₁, fun hf => nomatch hf⟩

/-- The coins of a record are worth what it has to spend. -/
theorem sum_coinsOf (hmin : w.nMinimumInputValue = 0) {wtx : CWalletTx} (hchecked : wtx.tx.TxChecked) :
    ((w.coinsOf P s wtx).map COutput.nValue).sum = w.availableCredit wtx := by
  unfold coinsOf availableCredit
  rw [List.map_map]
  have hfilter : (wtx.unspent.filter fun o => w.isMineOut o.1 &&
      decide (o.1.nValue ≥ w.nMinimumInputValue)) = wtx.unspent.filter fun o => w.isMineOut o.1 := by
    refine List.filter_congr fun o ho => ?_
    have hat := (mem_unspent.mp ho).1
    have hvalue := (moneyRange_iff.mp (hchecked.values o.1 (List.mem_of_getElem? hat))).1
    rw [hmin, decide_eq_true hvalue, Bool.and_true]
  rw [hfilter]
  congr 1
  refine List.map_congr_left fun o ho => ?_
  have hat := (mem_unspent.mp (List.mem_of_mem_filter ho)).1
  show ((wtx.tx.vout[o.2]?).map CTxOut.nValue).getD 0 = o.1.nValue
  rw [hat]
  rfl

/-- What a trusted record contributes to the balance. -/
theorem getAvailableCredit_fresh {wtx : CWalletTx} {c : CreditCache} (hchecked : wtx.tx.TxChecked)
    (hfresh : ∀ v, c.nAvailableCreditCached = some v → v = w.availableCredit wtx) :
    ∃ c', w.getAvailableCredit P s wtx c =
      .ok (if (wtx.tx.isCoinBase || wtx.tx.isCoinStake) && decide (blocksToMaturity P s wtx > 0) then 0
        else w.availableCredit wtx, c') := by
  unfold getAvailableCredit
  split
  · exact ⟨c, rfl⟩
  · cases hcached : c.nAvailableCreditCached with
    | some v =>
      rw [hfresh v hcached]
      exact ⟨c, rfl⟩
    | none =>
      dsimp only
      rw [foldlM_unspent hchecked]
      exact ⟨_, rfl⟩

/-- Turn by turn: both throw, or both go on, and touch no other record. -/
theorem turn_agrees (P : Primitives) (s : NodeState) (nSteps : Nat)
    (hmin : w.nMinimumInputValue = 0) {e : (_ : Uint256) × CWalletTx}
    (hchecked : e.2.tx.TxChecked) {nTotal : Int} {vCoins : List COutput}
    {cacheB cacheC : Uint256 → CreditCache} (hcache : cacheB e.1 = cacheC e.1)
    (hfresh : ∀ v, (cacheB e.1).nAvailableCreditCached = some v → v = w.availableCredit e.2)
    (htotal : nTotal = int64 (vCoins.map COutput.nValue).sum) :
    (∃ err, w.balanceTurn P s nSteps (nTotal, cacheB) e = .error err ∧
      w.coinsTurn P s nSteps true (vCoins, cacheC) e = .error err) ∨
    ∃ nTotal' vCoins' cacheB' cacheC', w.balanceTurn P s nSteps (nTotal, cacheB) e = .ok (nTotal', cacheB') ∧
      w.coinsTurn P s nSteps true (vCoins, cacheC) e = .ok (vCoins', cacheC') ∧
      nTotal' = int64 (vCoins'.map COutput.nValue).sum ∧
      ∀ hash, hash ≠ e.1 → cacheB' hash = cacheB hash ∧ cacheC' hash = cacheC hash := by
  have hother : ∀ (cache : Uint256 → CreditCache) (c : CreditCache) (hash : Uint256), hash ≠ e.1 →
      Function.update cache e.1 c hash = cache hash :=
    fun cache c hash hne => Function.update_of_ne hne _ _
  cases hx : w.isTrusted P s nSteps e.1 e.2 (cacheB e.1) with
  | error err =>
    have hfinal : ¬ isFinal s e.2 = false := by
      intro hfinal
      rw [isTrusted, if_pos hfinal] at hx
      cases hx
    refine Or.inl ⟨err, ?_, ?_⟩
    · unfold balanceTurn
      rw [hx]
      rfl
    · unfold coinsTurn isWanted
      rw [if_neg hfinal, if_pos rfl, show (vCoins, cacheC).2 e.1 = cacheB e.1 from hcache.symm,
        hx]
      rfl
  | ok r =>
    obtain ⟨fTrusted, c⟩ := r
    obtain ⟨hkept, hspec⟩ := isTrusted_spec hx
    refine Or.inr ?_
    cases fTrusted with
    | false =>
      have hbalance : w.balanceTurn P s nSteps (nTotal, cacheB) e =
          .ok (nTotal, Function.update cacheB e.1 c) := by
        unfold balanceTurn
        rw [hx]
        rfl
      by_cases hfinal : isFinal s e.2 = false
      · refine ⟨nTotal, vCoins, _, cacheC, hbalance, ?_, htotal, fun hash hne => ⟨hother _ _ _ hne, rfl⟩⟩
        rw [coinsTurn, if_pos hfinal]
      · refine ⟨nTotal, vCoins, _, Function.update cacheC e.1 c, hbalance, ?_, htotal,
          fun hash hne => ⟨hother _ _ _ hne, hother _ _ _ hne⟩⟩
        unfold coinsTurn isWanted
        rw [if_neg hfinal, if_pos rfl, show (vCoins, cacheC).2 e.1 = cacheB e.1 from hcache.symm,
        hx]
        rfl
    | true =>
      obtain ⟨hfinal, hdepth⟩ := hspec rfl
      obtain ⟨c', hcredit⟩ := getAvailableCredit_fresh (w := w) (P := P) (s := s) (c := c) hchecked
        (by rw [hkept]; exact hfresh)
      have hbalance : w.balanceTurn P s nSteps (nTotal, cacheB) e = .ok (int64 (nTotal +
          if (e.2.tx.isCoinBase || e.2.tx.isCoinStake) && decide (blocksToMaturity P s e.2 > 0) then 0
          else w.availableCredit e.2), Function.update cacheB e.1 c') := by
        unfold balanceTurn
        rw [hx]
        show (do
          let r ← w.getAvailableCredit P s e.2 c
          return (int64 (nTotal + r.1), Function.update cacheB e.1 r.2) : Check _) = _
        rw [hcredit]
        rfl
      have hcoins : w.coinsTurn P s nSteps true (vCoins, cacheC) e = .ok (
          if (e.2.tx.isCoinBase || e.2.tx.isCoinStake) && decide (blocksToMaturity P s e.2 > 0) then vCoins
          else vCoins ++ w.coinsOf P s e.2, Function.update cacheC e.1 c) := by
        unfold coinsTurn isWanted
        rw [if_neg (by rw [hfinal]; decide), if_pos rfl, show (vCoins, cacheC).2 e.1 = cacheB e.1 from
          hcache.symm, hx]
        show Except.ok (if (true = false) then _ else if _ then _ else if _ then _ else
          if s.walletDepth P e.2 < 0 then _ else _, _) = _
        rw [if_neg (by decide), if_neg (c := s.walletDepth P e.2 < 0) (by omega)]
        cases e.2.tx.isCoinBase <;> cases e.2.tx.isCoinStake <;>
          cases decide (blocksToMaturity P s e.2 > 0) <;> rfl
      refine ⟨_, _, _, _, hbalance, hcoins, ?_, fun hash hne => ⟨hother _ _ _ hne, hother _ _ _ hne⟩⟩
      rw [htotal, int64_add_left]
      split
      · rw [Int.add_zero]
      · rw [List.map_append, List.sum_append, sum_coinsOf hmin hchecked]

theorem loops_agree (hmin : w.nMinimumInputValue = 0) : ∀ {l : List ((_ : Uint256) × CWalletTx)}
    {nTotal : Int} {vCoins : List COutput} {cacheB cacheC : Uint256 → CreditCache},
    (l.map Sigma.fst).Nodup → (∀ e ∈ l, e.2.tx.TxChecked) →
    (∀ e ∈ l, cacheB e.1 = cacheC e.1 ∧
      ∀ v, (cacheB e.1).nAvailableCreditCached = some v → v = w.availableCredit e.2) →
    nTotal = int64 (vCoins.map COutput.nValue).sum →
    (l.foldlM (w.balanceTurn P s nSteps) (nTotal, cacheB)).map Prod.fst =
      (l.foldlM (w.coinsTurn P s nSteps true) (vCoins, cacheC)).map
        fun r => int64 (r.1.map COutput.nValue).sum
  | [], _, _, _, _, _, _, _, htotal => congrArg Except.ok htotal
  | e :: l, nTotal, vCoins, cacheB, cacheC, hnodup, hchecked, hcaches, htotal => by
    obtain ⟨hnew, hnodup⟩ := List.nodup_cons.mp hnodup
    obtain ⟨hcache, hfresh⟩ := hcaches e List.mem_cons_self
    rw [List.foldlM_cons, List.foldlM_cons]
    rcases turn_agrees P s nSteps hmin (hchecked e List.mem_cons_self) hcache
      hfresh htotal with ⟨err, hb, hc⟩ | ⟨nTotal', vCoins', cacheB', cacheC', hb, hc, htotal', hother⟩
    · rw [hb, hc]
      rfl
    · rw [hb, hc]
      refine loops_agree hmin hnodup (fun e' he' => hchecked e' (List.mem_cons_of_mem e he')) ?_ htotal'
      intro e' he'
      have hne : e'.1 ≠ e.1 := fun heq => hnew (heq ▸ List.mem_map_of_mem he')
      obtain ⟨hB, hC⟩ := hother e'.1 hne
      rw [hB, hC]
      exact hcaches e' (List.mem_cons_of_mem e he')

theorem mem_ordered {e : (_ : Uint256) × CWalletTx} :
    e ∈ w.ordered ↔ w.mapWallet.lookup e.1 = some e.2 := by
  have hperm := List.perm_insertionSort (fun e e' : (_ : Uint256) × CWalletTx => e.1 ≤ e'.1)
    w.mapWallet.entries
  rw [ordered, hperm.mem_iff]
  exact AList.mem_lookup_iff.symm

theorem ordered_nodup : (w.ordered.map Sigma.fst).Nodup := by
  have hperm := List.perm_insertionSort (fun e e' : (_ : Uint256) × CWalletTx => e.1 ≤ e'.1)
    w.mapWallet.entries
  exact (hperm.map Sigma.fst).nodup_iff.mpr w.mapWallet.nodupKeys

/-- The records have passed `CheckTransaction`. -/
def Checked (w : CachedWallet) : Prop :=
  ∀ hash wtx, w.mapWallet.lookup hash = some wtx → wtx.tx.TxChecked

/-- Two ways to a balance, if nothing remembered is out of date. -/
theorem balance_of_fresh (hmin : w.nMinimumInputValue = 0) (hchecked : w.Checked) (hfresh : w.Fresh) :
    (w.getBalance P s nSteps).map Prod.fst =
      (w.availableCoins P s nSteps true).map fun r => int64 (r.1.map COutput.nValue).sum := by
  have hloops : (w.ordered.foldlM (w.balanceTurn P s nSteps) (0, w.cache)).map Prod.fst =
      (w.ordered.foldlM (w.coinsTurn P s nSteps true) ([], w.cache)).map
        fun r => int64 (r.1.map COutput.nValue).sum :=
    loops_agree hmin ordered_nodup (fun e he => hchecked e.1 e.2 (mem_ordered.mp he))
      (fun e he => ⟨rfl, fun v hv => hfresh e.1 e.2 v (mem_ordered.mp he) hv⟩) rfl
  unfold getBalance availableCoins
  cases hb : w.ordered.foldlM (w.balanceTurn P s nSteps) (0, w.cache) with
  | error err =>
    rw [hb] at hloops
    cases hc : w.ordered.foldlM (w.coinsTurn P s nSteps true) ([], w.cache) with
    | error err' =>
      rw [hc] at hloops
      exact congrArg _ (Except.error.inj hloops)
    | ok r => rw [hc] at hloops; cases hloops
  | ok r =>
    rw [hb] at hloops
    cases hc : w.ordered.foldlM (w.coinsTurn P s nSteps true) ([], w.cache) with
    | error err' => rw [hc] at hloops; cases hloops
    | ok r' =>
      rw [hc] at hloops
      exact hloops

end CachedWallet

/-! ## Runs -/

/-- The wallet and the chain it is on. -/
structure WalletState where
  chain : NodeState
  wallet : CachedWallet

/-- What can happen to a wallet. -/
inductive CachedWalletOp where
  /-- blocks come and go, and time passes -/
  | chain (s : NodeState)
  | markOut (fSpent : Bool) (hash : Uint256) (nOut : Nat)
  | updateSpent (hash : Uint256) (vfNewSpent : List Bool)
  | bindWallet (hash : Uint256)
  | markDirty
  | insertRecord (wtx : CWalletTx) (vtxPrev : List CWalletTx)
  | setRecord (hash : Uint256) (wtxNew : CWalletTx)
  | eraseRecord (hash : Uint256)
  | setAddressBook (mapAddressBook : List CTxDestination)
  | addCScript (redeemScript : CScript)
  | keys (op : CCryptoKeyStore.Op)
  /-- `importwallet`: all records forget in the end (`importprivkey` has them forget before) -/
  | importKeys (ops : List CCryptoKeyStore.Op)
  | isTrusted (hash : Uint256)
  | getAvailableCredit (hash : Uint256)
  | getBalance
  | availableCoins (fOnlyConfirmed : Bool)

namespace CachedWalletOp

variable (P : Primitives) (C : KeyPrimitives) (vMasterKey : List UInt8) (nSteps : Nat)

/-- The key store an operation leaves. -/
def keystore (w : CachedWallet) : CachedWalletOp → CKeyStore
  | addCScript redeemScript => w.keystore.addCScript C redeemScript
  | keys op => { w.keystore with
      toCCryptoKeyStore := (w.keystore.toCCryptoKeyStore.step C vMasterKey op).2 }
  | importKeys ops => { w.keystore with
      toCCryptoKeyStore := ops.foldl (fun store op => (store.step C vMasterKey op).2)
        w.keystore.toCCryptoKeyStore }
  | _ => w.keystore

/-- The wallet after a question was put to one of its records. -/
def ask {α : Type} (w : CachedWallet) (hash : Uint256)
    (question : CWalletTx → CreditCache → Check (α × CreditCache)) : CachedWallet :=
  match w.mapWallet.lookup hash with
  | none => w
  | some wtx => w.remember hash (question wtx (w.cache hash))

/-- The wallet an operation leaves; an exception leaves it as it was. -/
def wallet (st : WalletState) (op : CachedWalletOp) : CachedWallet :=
  let w := st.wallet
  match op with
  | chain _ => w
  | markOut fSpent hash nOut => w.markOut fSpent hash nOut
  | updateSpent hash vfNewSpent => w.updateSpentOf hash vfNewSpent
  | bindWallet hash => w.bindWallet hash
  | markDirty => w.markDirty
  | insertRecord wtx vtxPrev => w.insertRecord (P.getHash wtx.tx) wtx vtxPrev
  | setRecord hash wtxNew => w.setRecord hash wtxNew
  | eraseRecord hash => w.eraseRecord hash
  | setAddressBook mapAddressBook => { w with mapAddressBook := mapAddressBook }
  | addCScript redeemScript => w.withKeys C ((addCScript redeemScript).keystore C vMasterKey w)
  | keys op => w.withKeys C ((keys op).keystore C vMasterKey w)
  | importKeys ops => (w.withKeys C ((importKeys ops).keystore C vMasterKey w)).markDirty
  | isTrusted hash => ask w hash (w.isTrusted P st.chain nSteps hash)
  | getAvailableCredit hash => ask w hash (w.getAvailableCredit P st.chain)
  | getBalance => (w.getBalance P st.chain nSteps).toOption.elim w Prod.snd
  | availableCoins fOnlyConfirmed =>
    (w.availableCoins P st.chain nSteps fOnlyConfirmed).toOption.elim w Prod.snd

def apply (st : WalletState) (op : CachedWalletOp) : WalletState where
  chain := match op with
    | chain s => s
    | _ => st.chain
  wallet := op.wallet P C vMasterKey nSteps st

/-- Whoever puts a transaction into the wallet has checked it. -/
def Allowed : CachedWalletOp → Prop
  | insertRecord wtx _ => wtx.tx.checkTransaction = .ok ()
  | _ => True

/-- All records forget in the end. -/
def Forgets : CachedWalletOp → Prop
  | markDirty | importKeys _ => True
  | _ => False

/-- No output becomes the wallet's own, or ceases to be, that a record with a remembered credit has
    unspent and that is worth anything. -/
def KeepsCredit (w : CachedWallet) (op : CachedWalletOp) : Prop :=
  op.Forgets ∨ ∀ hash wtx, w.mapWallet.lookup hash = some wtx → (w.cache hash).nAvailableCreditCached ≠ none →
    ∀ o ∈ wtx.unspent, o.1.nValue ≠ 0 →
      (op.keystore C vMasterKey w).isMine C o.1.scriptPubKey = w.keystore.isMine C o.1.scriptPubKey

end CachedWalletOp

/-- A wallet that has just been loaded: its records checked, and nothing remembered. -/
structure CachedWallet.Loaded (C : KeyPrimitives) (w : CachedWallet) : Prop where
  isMine_eq : w.isMine = w.keystore.isMine C
  nMinimumInputValue_eq : w.nMinimumInputValue = 0
  checked : w.Checked
  cache_eq : w.cache = fun _ => CreditCache.dirty

/-- A run of operations that all meet a condition on the wallet they find. -/
inductive CachedWalletRun (P : Primitives) (C : KeyPrimitives) (vMasterKey : List UInt8) (nSteps : Nat)
    (Meets : CachedWallet → CachedWalletOp → Prop) : WalletState → Prop where
  | start (st : WalletState) (h : st.wallet.Loaded C) : CachedWalletRun P C vMasterKey nSteps Meets st
  | step {st : WalletState} (h : CachedWalletRun P C vMasterKey nSteps Meets st) (op : CachedWalletOp)
      (hallowed : op.Allowed) (hmeets : Meets st.wallet op) :
      CachedWalletRun P C vMasterKey nSteps Meets (op.apply P C vMasterKey nSteps st)

/-- The invariant of the runs in which no credit goes out of date. -/
structure CachedWallet.Sound (C : KeyPrimitives) (w : CachedWallet) : Prop where
  isMine_eq : w.isMine = w.keystore.isMine C
  nMinimumInputValue_eq : w.nMinimumInputValue = 0
  checked : w.Checked
  fresh : w.Fresh

namespace CachedWallet

variable {P : Primitives} {C : KeyPrimitives} {vMasterKey : List UInt8} {nSteps : Nat} {s : NodeState}
  {w : CachedWallet}

/-- A record is written, and remembers what is right. -/
theorem Sound.record (h : w.Sound C) {hash : Uint256} (wtx : CWalletTx) (hchecked : wtx.tx.TxChecked)
    {cache : Uint256 → CreditCache} (hother : ∀ hash', hash' ≠ hash → cache hash' = w.cache hash')
    (hcredit : ∀ v, (cache hash).nAvailableCreditCached = some v → v = w.availableCredit wtx)
    (vtxPrev : Uint256 → List CWalletTx) :
    ({ w with mapWallet := w.mapWallet.insert hash wtx, cache := cache, vtxPrev := vtxPrev } :
      CachedWallet).Sound C where
  isMine_eq := h.isMine_eq
  nMinimumInputValue_eq := h.nMinimumInputValue_eq
  checked hash' wtx' hlookup := by
    have hlookup : (w.mapWallet.insert hash wtx).lookup hash' = some wtx' := hlookup
    rw [lookup_insert_eq_ite] at hlookup
    split at hlookup
    · obtain rfl := Option.some.inj hlookup
      exact hchecked
    · exact h.checked hash' wtx' hlookup
  fresh hash' wtx' v hlookup hv := by
    have hlookup : (w.mapWallet.insert hash wtx).lookup hash' = some wtx' := hlookup
    rw [lookup_insert_eq_ite] at hlookup
    split at hlookup
    · rename_i heq
      obtain rfl := Option.some.inj hlookup
      exact hcredit v (heq ▸ hv)
    · rename_i hne
      have hv : (cache hash').nAvailableCreditCached = some v := hv
      rw [hother hash' fun heq => hne heq.symm] at hv
      exact h.fresh hash' wtx' v hlookup hv

/-- Only what is remembered is written. -/
theorem Sound.caches (h : w.Sound C) {cache : Uint256 → CreditCache}
    (hcredit : w.Right cache) : ({ w with cache := cache } : CachedWallet).Sound C where
  isMine_eq := h.isMine_eq
  nMinimumInputValue_eq := h.nMinimumInputValue_eq
  checked := h.checked
  fresh := hcredit

/-- Flags that say the same leave as much to spend. -/
theorem availableCredit_congr {wtx wtx' : CWalletTx} (htx : wtx'.tx = wtx.tx)
    (hflags : ∀ n < wtx.tx.vout.length, wtx'.isSpent n = wtx.isSpent n) :
    w.availableCredit wtx' = w.availableCredit wtx := by
  have hunspent : wtx'.unspent = wtx.unspent := by
    unfold CWalletTx.unspent
    rw [htx]
    refine List.filter_congr fun o ho => ?_
    have hat := List.mem_zipIdx_iff_getElem?.mp ho
    rw [hflags o.2 (List.getElem?_eq_some_iff.mp hat).1]
  rw [availableCredit, availableCredit, hunspent]

theorem Sound.markOut (h : w.Sound C) (fSpent : Bool) (hash : Uint256) (nOut : Nat) :
    (w.markOut fSpent hash nOut).Sound C := by
  unfold CachedWallet.markOut
  split
  · exact h
  rename_i wtx hlookup
  split
  · exact h
  refine h.record (wtx.mark fSpent nOut) (h.checked hash wtx hlookup) ?_ ?_ w.vtxPrev
  · intro hash' hne
    split
    · rfl
    · exact Function.update_of_ne hne _ _
  · intro v hv
    split at hv
    · rename_i hsame
      have htx : (wtx.mark fSpent nOut).tx = wtx.tx := rfl
      rw [h.fresh hash wtx v hlookup hv]
      refine (availableCredit_congr htx fun n hn => ?_).symm
      rw [isSpent_mark fSpent hn]
      split
      · rename_i heq
        rw [← heq, hsame]
      · rfl
    · rw [Function.update_self] at hv
      cases hv

theorem Sound.updateSpentOf (h : w.Sound C) (hash : Uint256) (vfNewSpent : List Bool) :
    (w.updateSpentOf hash vfNewSpent).Sound C := by
  unfold CachedWallet.updateSpentOf
  split
  · exact h
  rename_i wtx hlookup
  refine h.record (wtx.updateSpent vfNewSpent) (h.checked hash wtx hlookup) ?_ ?_ w.vtxPrev
  · intro hash' hne
    split
    · rfl
    · exact Function.update_of_ne hne _ _
  · intro v hv
    split at hv
    · rename_i hsame
      have htx : (wtx.updateSpent vfNewSpent).tx = wtx.tx := rfl
      rw [h.fresh hash wtx v hlookup hv]
      refine (availableCredit_congr htx fun n _ => ?_).symm
      rw [CWalletTx.isSpent, hsame, CWalletTx.isSpent]
    · rw [Function.update_self] at hv
      cases hv

theorem Sound.setRecord (h : w.Sound C) (hash : Uint256) (wtxNew : CWalletTx) :
    (w.setRecord hash wtxNew).Sound C := by
  unfold CachedWallet.setRecord
  split
  · exact h
  · rename_i wtx hlookup
    exact h.record { wtxNew with tx := wtx.tx, vfSpent := wtx.vfSpent }
      (h.checked hash wtx hlookup) (fun _ _ => rfl)
      (fun v hv => (h.fresh hash wtx v hlookup hv).trans (availableCredit_congr rfl fun _ _ => rfl).symm)
      w.vtxPrev

theorem Sound.insertRecord (h : w.Sound C) (hash : Uint256) {wtx : CWalletTx}
    (hchecked : wtx.tx.TxChecked) (vtxPrev : List CWalletTx) : (w.insertRecord hash wtx vtxPrev).Sound C := by
  refine h.record wtx hchecked (fun hash' hne => Function.update_of_ne hne _ _) (fun v hv => ?_) _
  rw [Function.update_self] at hv
  cases hv

theorem Sound.eraseRecord (h : w.Sound C) (hash : Uint256) : (w.eraseRecord hash).Sound C where
  isMine_eq := h.isMine_eq
  nMinimumInputValue_eq := h.nMinimumInputValue_eq
  checked hash' wtx hlookup := h.checked hash' wtx (BatchStore.lookup_of_erase hlookup)
  fresh hash' wtx v hlookup hv := h.fresh hash' wtx v (BatchStore.lookup_of_erase hlookup) hv

/-- The credit of a record is asked of the keys that are there now. -/
theorem Sound.withKeys (h : w.Sound C) {keystore : CKeyStore}
    (hkeeps : ∀ hash wtx, w.mapWallet.lookup hash = some wtx →
      (w.cache hash).nAvailableCreditCached ≠ none → ∀ o ∈ wtx.unspent, o.1.nValue ≠ 0 →
        keystore.isMine C o.1.scriptPubKey = w.keystore.isMine C o.1.scriptPubKey) :
    (w.withKeys C keystore).Sound C where
  isMine_eq := rfl
  nMinimumInputValue_eq := h.nMinimumInputValue_eq
  checked := h.checked
  fresh hash wtx v hlookup hv := by
    have hv : (w.cache hash).nAvailableCreditCached = some v := hv
    have hkept := hkeeps hash wtx hlookup (by rw [hv]; exact fun hf => nomatch hf)
    rw [h.fresh hash wtx v hlookup hv]
    -- an output that is worth nothing may be anyone's
    have hsum : ∀ l : List (CTxOut × Nat), (∀ o ∈ l, o ∈ wtx.unspent) →
        ((l.filter fun o => w.isMineOut o.1).map fun o => o.1.nValue).sum =
          ((l.filter fun o => (w.withKeys C keystore).isMineOut o.1).map fun o => o.1.nValue).sum := by
      intro l hl
      induction l with
      | nil => rfl
      | cons o l ih =>
        have hrest := ih fun o' ho' => hl o' (List.mem_cons_of_mem o ho')
        have ho := hkept o (hl o List.mem_cons_self)
        have hold : w.isMineOut o.1 = w.keystore.isMine C o.1.scriptPubKey :=
          congrFun h.isMine_eq o.1.scriptPubKey
        have hnew : (w.withKeys C keystore).isMineOut o.1 = keystore.isMine C o.1.scriptPubKey := rfl
        by_cases hzero : o.1.nValue = 0
        · rw [List.filter_cons, List.filter_cons]
          split <;> split <;> simp only [List.map_cons, List.sum_cons, hzero, Int.zero_add, hrest]
        · rw [List.filter_cons, List.filter_cons, hold, hnew, ho hzero]
          split
          · rw [List.map_cons, List.map_cons, List.sum_cons, List.sum_cons, hrest]
          · exact hrest
    exact hsum wtx.unspent fun o ho => ho

/-- A record that is asked if it is trusted remembers no other credit. -/
theorem isTrusted_credit {hash : Uint256} {wtx : CWalletTx} {c c' : CreditCache} {fTrusted : Bool}
    (hcredit : ∀ v, c.nAvailableCreditCached = some v → v = w.availableCredit wtx)
    (hx : w.isTrusted P s nSteps hash wtx c = .ok (fTrusted, c')) :
    ∀ v, c'.nAvailableCreditCached = some v → v = w.availableCredit wtx := by
  rw [(isTrusted_spec hx).1]
  exact hcredit

/-- One that is asked for its credit remembers the right one. -/
theorem getAvailableCredit_credit {wtx : CWalletTx} {c c' : CreditCache} {nCredit : Int}
    (hchecked : wtx.tx.TxChecked)
    (hcredit : ∀ v, c.nAvailableCreditCached = some v → v = w.availableCredit wtx)
    (hx : w.getAvailableCredit P s wtx c = .ok (nCredit, c')) :
    ∀ v, c'.nAvailableCreditCached = some v → v = w.availableCredit wtx := by
  unfold getAvailableCredit at hx
  split at hx
  · cases hx
    exact hcredit
  split at hx
  · cases hx
    exact hcredit
  · rw [foldlM_unspent hchecked] at hx
    cases hx
    intro v hv
    exact (Option.some.inj hv).symm

theorem Right.update {cache : Uint256 → CreditCache} (h : w.Right cache) {hash : Uint256}
    {wtx : CWalletTx} (hlookup : w.mapWallet.lookup hash = some wtx) {c : CreditCache}
    (hcredit : ∀ v, c.nAvailableCreditCached = some v → v = w.availableCredit wtx) :
    w.Right (Function.update cache hash c) := by
  intro hash' wtx' v hlookup' hv
  by_cases heq : hash' = hash
  · rw [heq, Function.update_self] at hv
    rw [heq, hlookup] at hlookup'
    obtain rfl := Option.some.inj hlookup'
    exact hcredit v hv
  · rw [Function.update_of_ne heq] at hv
    exact h hash' wtx' v hlookup' hv

theorem Sound.ask (h : w.Sound C) {α : Type} (hash : Uint256)
    {question : CWalletTx → CreditCache → Check (α × CreditCache)}
    (hquestion : ∀ wtx a c', w.mapWallet.lookup hash = some wtx →
      question wtx (w.cache hash) = .ok (a, c') →
      ∀ v, c'.nAvailableCreditCached = some v → v = w.availableCredit wtx) :
    (CachedWalletOp.ask w hash question).Sound C := by
  unfold CachedWalletOp.ask
  split
  · exact h
  · rename_i wtx hlookup
    unfold remember
    split
    · rename_i r hr
      exact h.caches (Right.update h.fresh hlookup (hquestion wtx r.1 r.2 hlookup hr))
    · exact h

theorem Sound.getBalance (h : w.Sound C) {nTotal : Int} {w' : CachedWallet}
    (hx : w.getBalance P s nSteps = .ok (nTotal, w')) : w'.Sound C := by
  unfold CachedWallet.getBalance at hx
  simp only [bind_ok, pure_ok] at hx
  obtain ⟨⟨total, cache⟩, hrun, heq⟩ := hx
  cases heq
  refine h.caches ?_
  have hstart : w.Right ((0 : Int), w.cache).2 := h.fresh
  refine foldlM_ok_induct (P := fun _ (acc : Int × (Uint256 → CreditCache)) => w.Right acc.2)
    hstart ?_ hrun
  intro pre e post acc acc' hl hright hturn
  have hlookup : w.mapWallet.lookup e.1 = some e.2 := mem_ordered.mp
    (by rw [hl]; exact List.mem_append_right _ List.mem_cons_self)
  unfold balanceTurn at hturn
  simp only [bind_ok] at hturn
  obtain ⟨⟨fTrusted, c⟩, htrusted, hturn⟩ := hturn
  have hc := isTrusted_credit (fun v hv => hright e.1 e.2 v hlookup hv) htrusted
  cases fTrusted with
  | false =>
    cases hturn
    exact hright.update hlookup hc
  | true =>
    dsimp only at hturn
    rw [if_pos rfl] at hturn
    simp only [bind_ok, pure_ok] at hturn
    obtain ⟨⟨nCredit, c'⟩, hcredit, heq⟩ := hturn
    cases heq
    exact hright.update hlookup (getAvailableCredit_credit (h.checked e.1 e.2 hlookup) hc hcredit)

theorem Sound.availableCoins (h : w.Sound C) {fOnlyConfirmed : Bool} {vCoins : List COutput}
    {w' : CachedWallet} (hx : w.availableCoins P s nSteps fOnlyConfirmed = .ok (vCoins, w')) :
    w'.Sound C := by
  unfold CachedWallet.availableCoins at hx
  simp only [bind_ok, pure_ok] at hx
  obtain ⟨⟨total, cache⟩, hrun, heq⟩ := hx
  cases heq
  refine h.caches ?_
  have hstart : w.Right (([] : List COutput), w.cache).2 := h.fresh
  refine foldlM_ok_induct (P := fun _ (acc : List COutput × (Uint256 → CreditCache)) => w.Right acc.2)
    hstart ?_ hrun
  intro pre e post acc acc' hl hright hturn
  have hlookup : w.mapWallet.lookup e.1 = some e.2 := mem_ordered.mp
    (by rw [hl]; exact List.mem_append_right _ List.mem_cons_self)
  unfold coinsTurn at hturn
  split at hturn
  · cases hturn
    exact hright
  · simp only [bind_ok, pure_ok] at hturn
    obtain ⟨⟨fWanted, c⟩, hwanted, heq⟩ := hturn
    cases heq
    refine hright.update hlookup ?_
    unfold isWanted at hwanted
    split at hwanted
    · exact isTrusted_credit (fun v hv => hright e.1 e.2 v hlookup hv) hwanted
    · cases hwanted
      exact fun v hv => hright e.1 e.2 v hlookup hv

theorem Sound.apply {st : WalletState} (h : st.wallet.Sound C) {op : CachedWalletOp} (hallowed : op.Allowed)
    (hkeeps : op.KeepsCredit C vMasterKey st.wallet) :
    (op.apply P C vMasterKey nSteps st).wallet.Sound C := by
  show (op.wallet P C vMasterKey nSteps st).Sound C
  cases op with
  | chain s => exact h
  | markOut fSpent hash nOut => exact h.markOut fSpent hash nOut
  | updateSpent hash vfNewSpent => exact h.updateSpentOf hash vfNewSpent
  | bindWallet hash =>
    refine h.caches fun hash' wtx v hlookup hv => ?_
    by_cases heq : hash' = hash
    · rw [heq, Function.update_self] at hv
      cases hv
    · rw [Function.update_of_ne heq] at hv
      exact h.fresh hash' wtx v hlookup hv
  | markDirty => exact h.caches fun hash wtx v hlookup hv => nomatch hv
  | insertRecord wtx vtxPrev => exact h.insertRecord _ (wtx.tx.checkTransaction_ok hallowed) vtxPrev
  | setRecord hash wtxNew => exact h.setRecord hash wtxNew
  | eraseRecord hash => exact h.eraseRecord hash
  | setAddressBook mapAddressBook =>
    exact ⟨h.isMine_eq, h.nMinimumInputValue_eq, h.checked, h.fresh⟩
  | addCScript redeemScript => exact h.withKeys (hkeeps.resolve_left not_false)
  | keys op => exact h.withKeys (hkeeps.resolve_left not_false)
  | importKeys ops => exact ⟨rfl, h.nMinimumInputValue_eq, h.checked, fun hash wtx v hlookup hv => nomatch hv⟩
  | isTrusted hash =>
    exact h.ask hash fun wtx a c' hlookup hx =>
      isTrusted_credit (fun v hv => h.fresh hash wtx v hlookup hv) hx
  | getAvailableCredit hash =>
    exact h.ask hash fun wtx a c' hlookup hx =>
      getAvailableCredit_credit (h.checked hash wtx hlookup) (fun v hv => h.fresh hash wtx v hlookup hv) hx
  | getBalance =>
    show (((st.wallet.getBalance P st.chain nSteps).toOption).elim st.wallet Prod.snd).Sound C
    cases hx : st.wallet.getBalance P st.chain nSteps with
    | error err => exact h
    | ok r => exact h.getBalance hx
  | availableCoins fOnlyConfirmed =>
    show (((st.wallet.availableCoins P st.chain nSteps fOnlyConfirmed).toOption).elim st.wallet
      Prod.snd).Sound C
    cases hx : st.wallet.availableCoins P st.chain nSteps fOnlyConfirmed with
    | error err => exact h
    | ok r => exact h.availableCoins hx

end CachedWallet

/-- No credit goes out of date in a run whose operations all keep what is remembered. -/
theorem CachedWalletRun.sound {P : Primitives} {C : KeyPrimitives} {vMasterKey : List UInt8} {nSteps : Nat}
    {st : WalletState} (h : CachedWalletRun P C vMasterKey nSteps
      (fun w op => op.KeepsCredit C vMasterKey w) st) : st.wallet.Sound C := by
  induction h with
  | start st h =>
    refine ⟨h.isMine_eq, h.nMinimumInputValue_eq, h.checked, fun hash wtx v hlookup hv => ?_⟩
    rw [h.cache_eq] at hv
    cases hv
  | step hrun op hallowed hmeets ih => exact ih.apply hallowed hmeets

/-- In every state of such a run the balance is the sum of the coins. -/
theorem getBalance_eq_availableCoins {P : Primitives} {C : KeyPrimitives} {vMasterKey : List UInt8}
    {nSteps : Nat} {st : WalletState} (h : CachedWalletRun P C vMasterKey nSteps
      (fun w op => op.KeepsCredit C vMasterKey w) st) :
    (st.wallet.getBalance P st.chain nSteps).map Prod.fst =
      (st.wallet.availableCoins P st.chain nSteps true).map
        fun r => int64 (r.1.map COutput.nValue).sum :=
  CachedWallet.balance_of_fresh h.sound.nMinimumInputValue_eq h.sound.checked h.sound.fresh

/-! ## A redeem script that comes late -/

namespace Forging

/-- The wallet of the staker, just loaded. -/
def loaded : CachedWallet := { staker.wallet with
  keystore := keystore
  mapAddressBook := []
  fConfChange := false
  vtxPrev := fun _ => []
  cache := fun _ => CreditCache.dirty }

def start : WalletState := ⟨tipK20, loaded⟩

theorem loaded_ok : loaded.Loaded keyPrimitives where
  isMine_eq := rfl
  nMinimumInputValue_eq := rfl
  checked hash wtx hlookup := wtx.tx.checkTransaction_ok (recordsOk hash wtx hlookup).2
  cache_eq := rfl

/-- The wallet after a few operations. -/
def after (ops : List CachedWalletOp) : WalletState :=
  ops.foldl (fun st op => op.apply primitives keyPrimitives CCryptoKeyStore.TwoKeys.masterKey 8 st) start

/-- The balance is asked for, and then the script is added whose hash the second output pays to: the
    output is among the coins, and not in the balance. -/
theorem balance_out_of_date :
    CachedWalletRun primitives keyPrimitives CCryptoKeyStore.TwoKeys.masterKey 8 (fun _ _ => True)
      (after [.getBalance, .addCScript keyScript]) ∧
    ((after [.getBalance, .addCScript keyScript]).wallet.getBalance primitives tipK20 8).map Prod.fst =
      .ok (4999 * COIN) ∧
    ((after [.getBalance, .addCScript keyScript]).wallet.availableCoins primitives tipK20 8 true).map
      (fun r => int64 (r.1.map COutput.nValue).sum) = .ok (5000 * COIN) := by
  have hstart : CachedWalletRun primitives keyPrimitives CCryptoKeyStore.TwoKeys.masterKey 8 (fun _ _ => True)
      start := .start start loaded_ok
  have hasked := hstart.step .getBalance trivial trivial
  have hadded := hasked.step (.addCScript keyScript) trivial trivial
  refine ⟨hadded, ?_, ?_⟩
  · decide
  · decide

/-- With the script first, the two agree. -/
theorem getBalance_eq_availableCoins_after :
    ((after [.addCScript keyScript, .getBalance]).wallet.getBalance primitives
      (after [.addCScript keyScript, .getBalance]).chain 8).map Prod.fst =
    ((after [.addCScript keyScript, .getBalance]).wallet.availableCoins primitives
      (after [.addCScript keyScript, .getBalance]).chain 8 true).map
        fun r => int64 (r.1.map COutput.nValue).sum := by
  have hstart : CachedWalletRun primitives keyPrimitives CCryptoKeyStore.TwoKeys.masterKey 8
      (fun w op => op.KeepsCredit keyPrimitives CCryptoKeyStore.TwoKeys.masterKey w) start :=
    .start start loaded_ok
  have hadded := hstart.step (.addCScript keyScript) trivial
    (Or.inr fun hash wtx _ hcached => absurd rfl hcached)
  have hasked := hadded.step .getBalance trivial (Or.inr fun hash wtx _ _ o _ _ => rfl)
  exact getBalance_eq_availableCoins hasked

end Forging
end Silkcoin
