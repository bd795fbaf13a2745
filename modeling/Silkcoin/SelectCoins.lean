/-
  `SelectCoinsMinConf`: WHICH COINS PAY FOR A TARGET.

  The eligible coins — deep enough, and not from after the spend — are looked at in a random order.  One
  that is worth exactly the target is the answer at once.  Those below target plus a cent are collected
  (`vValue`), of the rest only the smallest is kept.  If all the collected coins together do not reach
  the target, that one larger coin must do; if there is none the wallet cannot pay.  Otherwise a random
  search (`approximateBestSubset`) looks for the subset that exceeds the target least.

  Whatever the dice say, the search keeps ONE fact: the best total is the sum of the coins flagged best,
  and reaches the target (`IsBest`).  It starts with all coins, and only a total that reaches the target
  ever replaces the best.  So the answer is right for every run of the dice, and the wallet says no
  exactly if its eligible coins do not add up to the target.

  `random_shuffle`, the order `sort` leaves equal values in, and `rand` are `Chances`.
-/
import Silkcoin.WalletBalance
import Silkcoin.Lib.Subset

namespace Silkcoin

open Validation BatchStore Subset

/-- A record of the wallet and the number of one of its outputs. -/
abbrev WalletCoin := CWalletTx × Nat

/-- `pcoin->vout[i].nValue` -/
def coinValue (coin : WalletCoin) : Int := ((coin.1.tx.vout[coin.2]?).map CTxOut.nValue).getD 0

/-- A coin with what it is worth. -/
abbrev ValuedCoin := Int × WalletCoin

def COutput.coin (out : COutput) : WalletCoin := (out.tx, out.i)

def COutput.valued (out : COutput) : ValuedCoin := (out.nValue, out.coin)

/-- What the library and the dice decide; `rand` is asked by call, repetition and coin. -/
structure Chances where
  shuffle : List COutput → List COutput
  shuffle_perm : ∀ l, (shuffle l).Perm l
  sort : List ValuedCoin → List ValuedCoin
  sort_perm : ∀ l, (sort l).Perm l
  sort_sorted : ∀ l, (sort l).Pairwise fun a b => b.1 ≤ a.1
  rand : Nat → Nat → Nat → Bool

/-! ## `ApproximateBestSubset` -/

/-- The variables of the search. -/
structure SubsetSearch where
  vfIncluded : List Bool
  nTotal : Int
  fReachedTarget : Bool
  vfBest : List Bool
  nBest : Int

namespace SubsetSearch

variable (vValue : List ValuedCoin) (nTargetValue : Int)

/-- Coin `i` is added; if that reaches the target, the total may be the best so far, and the coin is
    taken out again. -/
def include1 (s : SubsetSearch) (i : Nat) : SubsetSearch :=
  let nValue := ((vValue[i]?).map Prod.fst).getD 0
  let nTotal := int64 (s.nTotal + nValue)
  let vfIncluded := s.vfIncluded.set i true
  if nTotal ≥ nTargetValue then
    { vfIncluded := vfIncluded.set i false
      nTotal := int64 (nTotal - nValue)
      fReachedTarget := true
      vfBest := if nTotal < s.nBest then vfIncluded else s.vfBest
      nBest := if nTotal < s.nBest then nTotal else s.nBest }
  else { s with vfIncluded := vfIncluded, nTotal := nTotal }

/-- One pass over the coins. -/
def pass (chosen : List Bool → Nat → Bool) (n : Nat) (s : SubsetSearch) : SubsetSearch :=
  (List.range n).foldl
    (fun s i => if chosen s.vfIncluded i then include1 vValue nTargetValue s i else s) s

/-- One repetition: the dice choose first, and if that was not enough all the others are added. -/
def repetition (rand : Nat → Bool) (vfBest : List Bool) (nBest : Int) : SubsetSearch :=
  let s := pass vValue nTargetValue (fun _ i => rand i) vValue.length
    { vfIncluded := List.replicate vValue.length false
      nTotal := 0
      fReachedTarget := false
      vfBest := vfBest
      nBest := nBest }
  if s.fReachedTarget then s
  else pass vValue nTargetValue (fun vfIncluded i => !(vfIncluded[i]?).getD false) vValue.length s

/-- The repetitions from `nRep` on. -/
def repetitions (rand : Nat → Nat → Bool) : Nat → Nat → List Bool × Int → List Bool × Int
  | 0, _, best => best
  | n + 1, nRep, best =>
    if best.2 = nTargetValue then best
    else
      let s := repetition vValue nTargetValue (rand nRep) best.1 best.2
      repetitions rand n (nRep + 1) (s.vfBest, s.nBest)

end SubsetSearch

def approximateBestSubset (rand : Nat → Nat → Bool) (vValue : List ValuedCoin)
    (nTotalLower nTargetValue : Int) (iterations : Nat) : List Bool × Int :=
  SubsetSearch.repetitions vValue nTargetValue rand iterations 0
    (List.replicate vValue.length true, nTotalLower)

/-! ## What the search keeps -/

/-- The sum of the coins flagged. -/
def weight (vValue : List ValuedCoin) (flags : List Bool) : Int :=
  ((picked flags vValue).map Prod.fst).sum

/-- Coins with a value, and not more of them than there is money. -/
structure Priced (vValue : List ValuedCoin) : Prop where
  nonneg : ∀ coin ∈ vValue, 0 ≤ coin.1
  bounded : (vValue.map Prod.fst).sum ≤ MAX_MONEY

theorem Priced.weight_range {vValue : List ValuedCoin} (h : Priced vValue) (flags : List Bool) :
    0 ≤ weight vValue flags ∧ weight vValue flags ≤ MAX_MONEY := by
  constructor
  · apply List.sum_nonneg
    intro v hv
    obtain ⟨coin, hcoin, rfl⟩ := List.mem_map.1 hv
    exact h.nonneg coin ((picked_sublist flags vValue).subset hcoin)
  · exact le_trans (sum_picked_le Prod.fst flags h.nonneg) h.bounded

theorem int64_of_money {x : Int} (h0 : 0 ≤ x) (hx : x ≤ MAX_MONEY) : int64 x = x := by
  have hmax : MAX_MONEY = 200000000000000000 := by decide
  exact int64_of_range (by omega) (by omega)

/-- THE FACT ABOUT THE BEST: it is the sum of the coins flagged, and it reaches the target. -/
structure IsBest (vValue : List ValuedCoin) (nTargetValue : Int) (best : List Bool × Int) : Prop where
  total : best.2 = weight vValue best.1
  reaches : nTargetValue ≤ best.2

/-- The same in an `int64_t`, of any coins whatever. -/
structure IsBest64 (vValue : List ValuedCoin) (nTargetValue : Int) (best : List Bool × Int) : Prop where
  total : best.2 = int64 (weight vValue best.1)
  reaches : nTargetValue ≤ best.2

/-- Coins that are not more than there is do not wrap. -/
theorem IsBest64.isBest {vValue : List ValuedCoin} {nTargetValue : Int} {best : List Bool × Int}
    (h : IsBest64 vValue nTargetValue best) (hpriced : Priced vValue) : IsBest vValue nTargetValue best := by
  have hrange := hpriced.weight_range best.1
  refine ⟨?_, h.reaches⟩
  rw [h.total, int64_of_money hrange.1 hrange.2]

namespace SubsetSearch

variable {vValue : List ValuedCoin} {nTargetValue : Int}

/-- The same of the variables of the search: the running total is the sum of the coins included, in an
    `int64_t`. -/
structure Searching64 (vValue : List ValuedCoin) (nTargetValue : Int) (s : SubsetSearch) : Prop where
  length : s.vfIncluded.length = vValue.length
  total : s.nTotal = int64 (weight vValue s.vfIncluded)
  best : IsBest64 vValue nTargetValue (s.vfBest, s.nBest)

/-- A coin that is not included yet can be tried; it stays in or is taken out again. -/
theorem Searching64.include1 {s : SubsetSearch} {i : Nat} (hs : Searching64 vValue nTargetValue s)
    (hflag : s.vfIncluded[i]? = some false) :
    Searching64 vValue nTargetValue (include1 vValue nTargetValue s i) ∧
      ((SubsetSearch.include1 vValue nTargetValue s i).vfIncluded = s.vfIncluded ∨
        (SubsetSearch.include1 vValue nTargetValue s i).vfIncluded = s.vfIncluded.set i true) := by
  obtain ⟨hi, -⟩ := List.getElem?_eq_some_iff.1 hflag
  rw [hs.length] at hi
  have hcoin : vValue[i]? = some vValue[i] := List.getElem?_eq_getElem hi
  have hset : weight vValue (s.vfIncluded.set i true) = weight vValue s.vfIncluded + (vValue[i]).1 := by
    rw [add_comm]
    exact sum_picked_set Prod.fst hflag hcoin
  have hadd : int64 (s.nTotal + (vValue[i]).1) = int64 (weight vValue (s.vfIncluded.set i true)) := by
    rw [hs.total, int64_add_left, hset]
  have hsub : int64 (int64 (weight vValue (s.vfIncluded.set i true)) - (vValue[i]).1) = s.nTotal := by
    rw [int64_sub_left, hset, add_sub_cancel_right, hs.total]
  simp only [SubsetSearch.include1, hcoin, Option.map_some, Option.getD_some, hadd, hsub]
  split
  · rename_i hreach
    have hflags := set_set_false hflag
    refine ⟨⟨?_, ?_, ?_⟩, Or.inl hflags⟩
    · rw [hflags]
      exact hs.length
    · rw [hflags]
      exact hs.total
    · -- only a total that reaches the target replaces the best
      split
      · exact ⟨rfl, hreach⟩
      · exact hs.best
  · refine ⟨⟨?_, rfl, hs.best⟩, Or.inr rfl⟩
    rw [List.length_set]
    exact hs.length

/-- A pass that only ever chooses coins not included yet; `J` is what it knows of the flags when it
    comes to a coin. -/
theorem Searching64.pass {s : SubsetSearch} {chosen : List Bool → Nat → Bool} {n : Nat}
    (hs : Searching64 vValue nTargetValue s) (J : Nat → List Bool → Prop)
    (hstart : J 0 s.vfIncluded)
    (hflag : ∀ i flags, i < n → flags.length = vValue.length → J i flags → chosen flags i = true →
      flags[i]? = some false)
    (hnext : ∀ i flags, J i flags → J (i + 1) flags ∧ J (i + 1) (flags.set i true)) :
    Searching64 vValue nTargetValue (pass vValue nTargetValue chosen n s) := by
  have hall : ∀ k, k ≤ n →
      Searching64 vValue nTargetValue (SubsetSearch.pass vValue nTargetValue chosen k s) ∧
        J k (SubsetSearch.pass vValue nTargetValue chosen k s).vfIncluded := by
    intro k
    induction k with
    | zero =>
      intro _
      exact ⟨hs, hstart⟩
    | succ k ih =>
      intro hk
      obtain ⟨hk', hJ⟩ := ih (by omega)
      have hstep : SubsetSearch.pass vValue nTargetValue chosen (k + 1) s =
          if chosen (SubsetSearch.pass vValue nTargetValue chosen k s).vfIncluded k then
            SubsetSearch.include1 vValue nTargetValue (SubsetSearch.pass vValue nTargetValue chosen k s) k
          else SubsetSearch.pass vValue nTargetValue chosen k s := by
        unfold SubsetSearch.pass
        rw [List.range_succ, List.foldl_append]
        rfl
      rw [hstep]
      split
      · rename_i hchosen
        have hf := hflag k _ (by omega) hk'.length hJ hchosen
        obtain ⟨hsearch, hflags⟩ := hk'.include1 hf
        refine ⟨hsearch, ?_⟩
        rcases hflags with hflags | hflags
        · rw [hflags]
          exact (hnext k _ hJ).1
        · rw [hflags]
          exact (hnext k _ hJ).2
      · exact ⟨hk', (hnext k _ hJ).1⟩
  exact (hall n (le_refl n)).1

/-- One repetition keeps the fact about the best, whatever the dice say. -/
theorem repetition_best64 {vfBest : List Bool} {nBest : Int}
    (hbest : IsBest64 vValue nTargetValue (vfBest, nBest)) (rand : Nat → Bool) :
    Searching64 vValue nTargetValue (repetition vValue nTargetValue rand vfBest nBest) := by
  have hinit : Searching64 vValue nTargetValue
      { vfIncluded := List.replicate vValue.length false
        nTotal := 0
        fReachedTarget := false
        vfBest := vfBest
        nBest := nBest } := by
    refine ⟨List.length_replicate, ?_, hbest⟩
    rw [weight, picked_none]
    rfl
  -- in the first pass every coin from the present one on is still out
  have hfirst : Searching64 vValue nTargetValue (pass vValue nTargetValue (fun _ i => rand i) vValue.length
      { vfIncluded := List.replicate vValue.length false
        nTotal := 0
        fReachedTarget := false
        vfBest := vfBest
        nBest := nBest }) := by
    apply hinit.pass (fun i flags => ∀ j, i ≤ j → j < flags.length → flags[j]? = some false)
    · intro j _ hj
      rw [List.length_replicate] at hj
      simp [hj]
    · intro i flags hi hlen hJ _
      exact hJ i (le_refl i) (by omega)
    · intro i flags hJ
      constructor
      · intro j hij hj
        exact hJ j (by omega) hj
      · intro j hij hj
        rw [List.length_set] at hj
        rw [List.getElem?_set_ne (by omega)]
        exact hJ j (by omega) hj
  unfold repetition
  dsimp only
  split
  · exact hfirst
  · -- in the second one the flag itself is looked at
    apply hfirst.pass (fun _ _ => True) trivial
    · intro i flags hi hlen _ hchosen
      have hget : flags[i]? = some flags[i] := List.getElem?_eq_getElem (by omega)
      rw [hget] at hchosen ⊢
      simpa using hchosen
    · intro i flags _
      exact ⟨trivial, trivial⟩

theorem repetitions_best64 (rand : Nat → Nat → Bool) (n nRep : Nat)
    {best : List Bool × Int} (hbest : IsBest64 vValue nTargetValue best) :
    IsBest64 vValue nTargetValue (repetitions vValue nTargetValue rand n nRep best) := by
  induction n generalizing nRep best with
  | zero => exact hbest
  | succ n ih =>
    rw [repetitions]
    split
    · exact hbest
    · exact ih (nRep + 1) (repetition_best64 hbest (rand nRep)).best

end SubsetSearch

/-- THE SEARCH IS SOUND for every run of the dice and any coins, in an `int64_t`. -/
theorem approximateBestSubset_best64 {vValue : List ValuedCoin} {nTotalLower nTargetValue : Int}
    (hlower : nTotalLower = int64 (vValue.map Prod.fst).sum) (hreach : nTargetValue ≤ nTotalLower)
    (rand : Nat → Nat → Bool) (iterations : Nat) :
    IsBest64 vValue nTargetValue
      (approximateBestSubset rand vValue nTotalLower nTargetValue iterations) := by
  apply SubsetSearch.repetitions_best64
  constructor
  · show nTotalLower = int64 (weight vValue (List.replicate vValue.length true))
    rw [weight, picked_all]
    exact hlower
  · exact hreach

/-- THE SEARCH IS SOUND for every run of the dice. -/
theorem approximateBestSubset_best {vValue : List ValuedCoin} {nTotalLower nTargetValue : Int}
    (hpriced : Priced vValue) (hlower : nTotalLower = (vValue.map Prod.fst).sum)
    (hreach : nTargetValue ≤ nTotalLower) (rand : Nat → Nat → Bool) (iterations : Nat) :
    IsBest vValue nTargetValue
      (approximateBestSubset rand vValue nTotalLower nTargetValue iterations) := by
  have hall : weight vValue (List.replicate vValue.length true) = (vValue.map Prod.fst).sum := by
    rw [weight, picked_all]
  have hrange := hpriced.weight_range (List.replicate vValue.length true)
  rw [hall] at hrange
  apply IsBest64.isBest _ hpriced
  apply approximateBestSubset_best64 _ hreach
  rw [int64_of_money hrange.1 hrange.2]
  exact hlower

/-! ## `SelectCoinsMinConf` -/

/-- `setCoinsRet` and `nValueRet`. -/
structure Selection where
  setCoinsRet : List WalletCoin
  nValueRet : Int
deriving DecidableEq

namespace Selection

def empty : Selection := ⟨[], 0⟩

def add (sel : Selection) (coin : ValuedCoin) : Selection :=
  ⟨sel.setCoinsRet.insert coin.2, int64 (sel.nValueRet + coin.1)⟩

def addAll (sel : Selection) (coins : List ValuedCoin) : Selection := coins.foldl add sel

end Selection

/-- What the loop over the coins collects. -/
structure CoinScan where
  coinLowestLarger : Int × Option WalletCoin
  vValue : List ValuedCoin
  nTotalLower : Int

/-- `std::numeric_limits<int64_t>::max()` -/
def maxInt64 : Int := 9223372036854775807

def CoinScan.start : CoinScan := ⟨(maxInt64, none), [], 0⟩

/-- `IsFromMe` of a record, which remembers its debit. -/
def CachedWallet.isFromMeCached (P : Primitives) (w : CachedWallet) (wtx : CWalletTx) : Check Bool := do
  let (nDebit, _) ← w.getDebitCached wtx (w.cache (P.getHash wtx.tx))
  return decide (nDebit > 0)

namespace CachedWallet

variable (P : Primitives) (w : CachedWallet) (chances : Chances)
  (nTargetValue : Int) (nSpendTime : UInt32) (nConfMine nConfTheirs : Int)

/-- The loop over the coins: a coin of exactly the target ends it. -/
def scanCoins : List COutput → CoinScan → Check (CoinScan ⊕ ValuedCoin)
  | [], scan => .ok (.inl scan)
  | output :: rest, scan => do
    let fFromMe ← w.isFromMeCached P output.tx
    if output.nDepth < (if fFromMe then nConfMine else nConfTheirs) then scanCoins rest scan
    else if output.tx.tx.nTime > nSpendTime then scanCoins rest scan
    else
      let n := output.nValue
      if n = nTargetValue then .ok (.inr output.valued)
      else if n < int64 (nTargetValue + CENT) then
        scanCoins rest { scan with
          vValue := scan.vValue ++ [output.valued]
          nTotalLower := int64 (scan.nTotalLower + n) }
      else if n < scan.coinLowestLarger.1 then
        scanCoins rest { scan with coinLowestLarger := (n, some output.coin) }
      else scanCoins rest scan

/-- The search, once for the target and perhaps once more for a cent above. -/
def bestSubset (vValue : List ValuedCoin) (nTotalLower : Int) : List Bool × Int :=
  let best := approximateBestSubset (chances.rand 0) vValue nTotalLower nTargetValue 1000
  if best.2 ≠ nTargetValue ∧ nTotalLower ≥ int64 (nTargetValue + CENT) then
    approximateBestSubset (chances.rand 1) vValue nTotalLower (int64 (nTargetValue + CENT)) 1000
  else best

/-- The coins are known: all the small ones, the one larger coin, or a subset. -/
def chooseCoins (scan : CoinScan) : Option Selection :=
  if scan.nTotalLower = nTargetValue then some (Selection.empty.addAll scan.vValue)
  else if scan.nTotalLower < nTargetValue then
    scan.coinLowestLarger.2.map fun coin => Selection.empty.add (scan.coinLowestLarger.1, coin)
  else
    let vValue := chances.sort scan.vValue
    let best := bestSubset chances nTargetValue vValue scan.nTotalLower
    let subset := Selection.empty.addAll (picked best.1 vValue)
    match scan.coinLowestLarger.2 with
    | some coin =>
      -- the bigger coin, if the search found nothing good or it is closer
      if (best.2 ≠ nTargetValue ∧ best.2 < int64 (nTargetValue + CENT)) ∨
          scan.coinLowestLarger.1 ≤ best.2 then
        some (Selection.empty.add (scan.coinLowestLarger.1, coin))
      else some subset
    | none => some subset

/-- `none` is `false`, with both results cleared. -/
def selectCoinsMinConf (vCoins : List COutput) : Check (Option Selection) := do
  match ← w.scanCoins P nTargetValue nSpendTime nConfMine nConfTheirs (chances.shuffle vCoins)
      CoinScan.start with
  | .inr coin => return some (Selection.empty.add coin)
  | .inl scan => return chooseCoins chances nTargetValue scan

/-- The filters: depth and time. -/
def isEligible (out : COutput) : Bool :=
  match w.isFromMeCached P out.tx with
  | .error _ => false
  | .ok fFromMe =>
    !decide (out.nDepth < (if fFromMe then nConfMine else nConfTheirs)) &&
      !decide (out.tx.tx.nTime > nSpendTime)

end CachedWallet

/-! ## What the loop over the coins collects -/

section Scan

variable {P : Primitives} {w : CachedWallet} {chances : Chances}
  {nTargetValue : Int} {nSpendTime : UInt32} {nConfMine nConfTheirs : Int}

/-- Distinct coins with positive values that add up to no more than there is. -/
structure Payable (vCoins : List COutput) (nTargetValue : Int) : Prop where
  distinct : (vCoins.map COutput.coin).Nodup
  positive : ∀ out ∈ vCoins, 0 < out.nValue
  bounded : (vCoins.map COutput.nValue).sum ≤ MAX_MONEY
  target : 0 < nTargetValue ∧ nTargetValue ≤ MAX_MONEY

/-- Below target plus a cent. -/
def COutput.isSmall (nTargetValue : Int) (out : COutput) : Bool := decide (out.nValue < nTargetValue + CENT)

/-- What the loop has collected of the eligible coins `seen`, none of which is worth the target. -/
structure Scanned (nTargetValue : Int) (seen : List COutput) (scan : CoinScan) : Prop where
  vValue : scan.vValue = (seen.filter (COutput.isSmall nTargetValue)).map COutput.valued
  nTotalLower : scan.nTotalLower = (scan.vValue.map Prod.fst).sum
  larger : ∀ coin, scan.coinLowestLarger.2 = some coin →
    ∃ out ∈ seen, out.valued = (scan.coinLowestLarger.1, coin) ∧ nTargetValue < out.nValue
  noLarger : scan.coinLowestLarger.2 = none →
    scan.coinLowestLarger.1 = maxInt64 ∧ ∀ out ∈ seen, out.isSmall nTargetValue = true

theorem CENT_pos : 0 < CENT := by decide

theorem int64_target (htarget : 0 < nTargetValue ∧ nTargetValue ≤ MAX_MONEY) :
    int64 (nTargetValue + CENT) = nTargetValue + CENT := by
  have hmax : MAX_MONEY = 200000000000000000 := by decide
  have hcent : CENT = 1000000 := by decide
  exact int64_of_range (by omega) (by omega)

theorem Scanned.start : Scanned nTargetValue [] CoinScan.start := by
  refine ⟨rfl, rfl, ?_, ?_⟩
  · intro coin hcoin
    cases hcoin
  · intro _
    exact ⟨rfl, by simp⟩

/-- A small coin. -/
theorem Scanned.collect {seen : List COutput} {scan : CoinScan} {out : COutput}
    (hs : Scanned nTargetValue seen scan) (hsmall : out.isSmall nTargetValue = true)
    (hrange : 0 ≤ scan.nTotalLower + out.nValue ∧ scan.nTotalLower + out.nValue ≤ MAX_MONEY) :
    Scanned nTargetValue (seen ++ [out]) { scan with
      vValue := scan.vValue ++ [out.valued]
      nTotalLower := int64 (scan.nTotalLower + out.nValue) } := by
  constructor
  · show scan.vValue ++ [out.valued] = _
    rw [List.filter_append, List.map_append, hs.vValue]
    simp [hsmall]
  · show int64 (scan.nTotalLower + out.nValue) = _
    rw [int64_of_money hrange.1 hrange.2, hs.nTotalLower]
    simp [COutput.valued]
  · intro coin hcoin
    obtain ⟨o, ho, hvalued, hlt⟩ := hs.larger coin hcoin
    exact ⟨o, List.mem_append_left _ ho, hvalued, hlt⟩
  · intro hnone
    obtain ⟨hfirst, hall⟩ := hs.noLarger hnone
    refine ⟨hfirst, ?_⟩
    intro o ho
    rcases List.mem_append.1 ho with ho | ho
    · exact hall o ho
    · rw [List.mem_singleton.1 ho]
      exact hsmall

/-- A larger coin, the smallest of its kind so far. -/
theorem Scanned.lowest {seen : List COutput} {scan : CoinScan} {out : COutput}
    (hs : Scanned nTargetValue seen scan) (hsmall : out.isSmall nTargetValue = false) :
    Scanned nTargetValue (seen ++ [out])
      { scan with coinLowestLarger := (out.nValue, some out.coin) } := by
  have hlarge : nTargetValue + CENT ≤ out.nValue := by
    simpa [COutput.isSmall] using hsmall
  constructor
  · show scan.vValue = _
    rw [List.filter_append, List.map_append, hs.vValue]
    simp [hsmall]
  · exact hs.nTotalLower
  · intro coin hcoin
    refine ⟨out, by simp, ?_, ?_⟩
    · cases hcoin
      rfl
    · have hcent := CENT_pos
      omega
  · intro hnone
    cases hnone

/-- A larger coin that is not the smallest. -/
theorem Scanned.skip {seen : List COutput} {scan : CoinScan} {out : COutput}
    (hs : Scanned nTargetValue seen scan) (hsmall : out.isSmall nTargetValue = false)
    (hlowest : ¬ out.nValue < scan.coinLowestLarger.1) (hmoney : out.nValue ≤ MAX_MONEY) :
    Scanned nTargetValue (seen ++ [out]) scan := by
  constructor
  · rw [List.filter_append, List.map_append, hs.vValue]
    simp [hsmall]
  · exact hs.nTotalLower
  · intro coin hcoin
    obtain ⟨o, ho, hvalued, hlt⟩ := hs.larger coin hcoin
    exact ⟨o, List.mem_append_left _ ho, hvalued, hlt⟩
  · intro hnone
    -- every amount is below what the variable starts with
    obtain ⟨hfirst, -⟩ := hs.noLarger hnone
    have hmax : MAX_MONEY < maxInt64 := by decide
    omega

theorem Scanned.nTotalLower_eq {seen : List COutput} {scan : CoinScan}
    (hs : Scanned nTargetValue seen scan) :
    scan.nTotalLower = ((seen.filter (COutput.isSmall nTargetValue)).map COutput.nValue).sum := by
  rw [hs.nTotalLower, hs.vValue, List.map_map]
  rfl

theorem isEligible_of_ok {out : COutput} {fFromMe : Bool}
    (hfrom : w.isFromMeCached P out.tx = .ok fFromMe) :
    w.isEligible P nSpendTime nConfMine nConfTheirs out =
      (!decide (out.nDepth < (if fFromMe then nConfMine else nConfTheirs)) &&
        !decide (out.tx.tx.nTime > nSpendTime)) := by
  unfold CachedWallet.isEligible
  rw [hfrom]

/-- What the loop may answer: an exception comes from a record's debit, a coin that ends it is eligible
    and worth the target, and otherwise the eligible coins have been collected. -/
def ScanAnswer (P : Primitives) (w : CachedWallet) (nTargetValue : Int) (nSpendTime : UInt32)
    (nConfMine nConfTheirs : Int) (seen rest : List COutput) : Check (CoinScan ⊕ ValuedCoin) → Prop
  | .error e => ∃ out ∈ rest, w.isFromMeCached P out.tx = .error e
  | .ok (.inr coin) => ∃ out ∈ rest, w.isEligible P nSpendTime nConfMine nConfTheirs out = true ∧
      out.nValue = nTargetValue ∧ coin = out.valued
  | .ok (.inl scan) => Scanned nTargetValue
      (seen ++ rest.filter (w.isEligible P nSpendTime nConfMine nConfTheirs)) scan

/-- The first coin is passed over. -/
theorem ScanAnswer.over {seen rest : List COutput} {out : COutput}
    {answer : Check (CoinScan ⊕ ValuedCoin)}
    (h : ScanAnswer P w nTargetValue nSpendTime nConfMine nConfTheirs seen rest answer)
    (hout : w.isEligible P nSpendTime nConfMine nConfTheirs out = false) :
    ScanAnswer P w nTargetValue nSpendTime nConfMine nConfTheirs seen (out :: rest) answer := by
  rcases answer with e | scan | coin
  · obtain ⟨o, ho, he⟩ := h
    exact ⟨o, List.mem_cons_of_mem _ ho, he⟩
  · show Scanned nTargetValue _ scan
    rw [List.filter_cons_of_neg (by simp [hout])]
    exact h
  · obtain ⟨o, ho, hrest⟩ := h
    exact ⟨o, List.mem_cons_of_mem _ ho, hrest⟩

/-- The first coin is among those seen. -/
theorem ScanAnswer.taken {seen rest : List COutput} {out : COutput}
    {answer : Check (CoinScan ⊕ ValuedCoin)}
    (h : ScanAnswer P w nTargetValue nSpendTime nConfMine nConfTheirs (seen ++ [out]) rest answer)
    (hout : w.isEligible P nSpendTime nConfMine nConfTheirs out = true) :
    ScanAnswer P w nTargetValue nSpendTime nConfMine nConfTheirs seen (out :: rest) answer := by
  rcases answer with e | scan | coin
  · obtain ⟨o, ho, he⟩ := h
    exact ⟨o, List.mem_cons_of_mem _ ho, he⟩
  · show Scanned nTargetValue _ scan
    rw [List.filter_cons_of_pos (by simp [hout]), List.append_cons]
    exact h
  · obtain ⟨o, ho, hrest⟩ := h
    exact ⟨o, List.mem_cons_of_mem _ ho, hrest⟩

/-- Coins that are worth something and no more than there is. -/
def Affordable (outs : List COutput) : Prop :=
  (∀ out ∈ outs, 0 ≤ out.nValue) ∧ (outs.map COutput.nValue).sum ≤ MAX_MONEY

theorem Affordable.sublist {outs outs' : List COutput} (h : Affordable outs) (hsub : outs'.Sublist outs) :
    Affordable outs' := by
  constructor
  · intro out hout
    exact h.1 out (hsub.subset hout)
  · refine le_trans ((hsub.map COutput.nValue).sum_le_sum ?_) h.2
    intro v hv
    obtain ⟨out, hout, rfl⟩ := List.mem_map.1 hv
    exact h.1 out hout

theorem Affordable.perm {outs outs' : List COutput} (h : Affordable outs) (hperm : outs'.Perm outs) :
    Affordable outs' := by
  constructor
  · intro out hout
    exact h.1 out (hperm.mem_iff.1 hout)
  · rw [(hperm.map COutput.nValue).sum_eq]
    exact h.2

theorem Affordable.sum_nonneg {outs : List COutput} (h : Affordable outs) :
    0 ≤ (outs.map COutput.nValue).sum := by
  apply List.sum_nonneg
  intro v hv
  obtain ⟨out, hout, rfl⟩ := List.mem_map.1 hv
  exact h.1 out hout

theorem Affordable.le {outs : List COutput} (h : Affordable outs) {out : COutput} (hout : out ∈ outs) :
    out.nValue ≤ (outs.map COutput.nValue).sum :=
  List.single_le_sum (fun v hv => by
    obtain ⟨o, ho, rfl⟩ := List.mem_map.1 hv
    exact h.1 o ho) _ (List.mem_map_of_mem hout)

/-- The total of the small coins has room for one more. -/
theorem Scanned.room {seen rest : List COutput} {scan : CoinScan} {out : COutput}
    (hs : Scanned nTargetValue seen scan) (h : Affordable (seen ++ out :: rest)) :
    0 ≤ scan.nTotalLower + out.nValue ∧ scan.nTotalLower + out.nValue ≤ MAX_MONEY := by
  have hsub : (seen.filter (COutput.isSmall nTargetValue) ++ [out]).Sublist (seen ++ out :: rest) :=
    List.filter_sublist.append ((List.nil_sublist rest).cons_cons out)
  have hsum : ((seen.filter (COutput.isSmall nTargetValue) ++ [out]).map COutput.nValue).sum =
      scan.nTotalLower + out.nValue := by
    rw [hs.nTotalLower_eq]
    simp
  have hroom := h.sublist hsub
  rw [← hsum]
  exact ⟨hroom.sum_nonneg, hroom.2⟩

/-- THE LOOP. -/
theorem scanCoins_answer (htarget : 0 < nTargetValue ∧ nTargetValue ≤ MAX_MONEY) :
    ∀ (rest seen : List COutput) (scan : CoinScan), Affordable (seen ++ rest) →
      Scanned nTargetValue seen scan →
      ScanAnswer P w nTargetValue nSpendTime nConfMine nConfTheirs seen rest
        (w.scanCoins P nTargetValue nSpendTime nConfMine nConfTheirs rest scan) := by
  intro rest
  induction rest with
  | nil =>
    intro seen scan _ hs
    show Scanned nTargetValue (seen ++ []) scan
    rw [List.append_nil]
    exact hs
  | cons out rest ih =>
    intro seen scan hafford hs
    have hover : Affordable (seen ++ rest) :=
      hafford.sublist (List.Sublist.append_left (List.sublist_cons_self out rest) seen)
    have htaken : Affordable ((seen ++ [out]) ++ rest) := by
      rw [← List.append_cons]
      exact hafford
    have hmoney : out.nValue ≤ MAX_MONEY := le_trans (hafford.le (by simp)) hafford.2
    rw [CachedWallet.scanCoins]
    rcases hfrom : w.isFromMeCached P out.tx with e | fFromMe
    · exact ⟨out, by simp, hfrom⟩
    · have helig : w.isEligible P nSpendTime nConfMine nConfTheirs out = _ := isEligible_of_ok hfrom
      show ScanAnswer P w nTargetValue nSpendTime nConfMine nConfTheirs seen (out :: rest) (if _ then _ else _)
      generalize (if fFromMe = true then nConfMine else nConfTheirs) = nMinDepth at helig ⊢
      split
      · rename_i hdepth
        exact (ih seen scan hover hs).over (by rw [helig]; simp [hdepth])
      rename_i hdepth
      split
      · rename_i htime
        exact (ih seen scan hover hs).over (by rw [helig]; simp [htime])
      rename_i htime
      have hyes : w.isEligible P nSpendTime nConfMine nConfTheirs out = true := by
        rw [helig]
        simp [hdepth, htime]
      dsimp only
      split
      · rename_i hexact
        exact ⟨out, by simp, hyes, hexact, rfl⟩
      rw [int64_target htarget]
      split
      · rename_i hsmall
        exact (ih _ _ htaken (hs.collect (decide_eq_true hsmall) (hs.room hafford))).taken hyes
      rename_i hsmall
      split
      · exact (ih _ _ htaken (hs.lowest (decide_eq_false hsmall))).taken hyes
      · rename_i hlowest
        exact (ih _ _ htaken (hs.skip (decide_eq_false hsmall) hlowest hmoney)).taken hyes

/-! ## The choice -/

/-- Distinct coins, worth together what is returned, and that reaches the target. -/
structure Selection.Sound (eligible : List COutput) (nTargetValue : Int) (sel : Selection) : Prop where
  distinct : sel.setCoinsRet.Nodup
  eligible : ∀ coin ∈ sel.setCoinsRet, ∃ out ∈ eligible, out.coin = coin
  total : sel.nValueRet = (sel.setCoinsRet.map coinValue).sum
  reaches : nTargetValue ≤ sel.nValueRet

theorem Selection.addAll_eq :
    ∀ (coins : List ValuedCoin) (sel : Selection), (coins.map Prod.snd).Nodup →
      (∀ coin ∈ coins, coin.2 ∉ sel.setCoinsRet) → (∀ coin ∈ coins, 0 ≤ coin.1) → 0 ≤ sel.nValueRet →
      sel.nValueRet + (coins.map Prod.fst).sum ≤ MAX_MONEY →
      sel.addAll coins = ⟨(coins.map Prod.snd).reverse ++ sel.setCoinsRet,
        sel.nValueRet + (coins.map Prod.fst).sum⟩ := by
  intro coins
  induction coins with
  | nil =>
    intro sel _ _ _ _ _
    simp [Selection.addAll]
  | cons coin coins ih =>
    intro sel hnodup hnew hnonneg hsel hsum
    simp only [List.map_cons, List.nodup_cons, List.sum_cons] at hnodup hsum
    have hcoin := hnonneg coin (by simp)
    have hrest : 0 ≤ (coins.map Prod.fst).sum := by
      apply List.sum_nonneg
      intro v hv
      obtain ⟨c, hc, rfl⟩ := List.mem_map.1 hv
      exact hnonneg c (by simp [hc])
    have hadd : sel.add coin = ⟨coin.2 :: sel.setCoinsRet, sel.nValueRet + coin.1⟩ := by
      unfold Selection.add
      rw [List.insert_of_not_mem (hnew coin (by simp)), int64_of_money (by omega) (by omega)]
    show (sel.add coin).addAll coins = _
    rw [hadd, ih]
    · simp [add_assoc]
    · exact hnodup.2
    · intro c hc hmem
      rcases List.mem_cons.1 hmem with heq | hmem
      · exact hnodup.1 (heq ▸ List.mem_map_of_mem hc)
      · exact hnew c (by simp [hc]) hmem
    · intro c hc
      exact hnonneg c (by simp [hc])
    · show 0 ≤ sel.nValueRet + coin.1
      omega
    · show sel.nValueRet + coin.1 + (coins.map Prod.fst).sum ≤ MAX_MONEY
      omega

theorem valued_fst (outs : List COutput) :
    (outs.map COutput.valued).map Prod.fst = outs.map COutput.nValue := by
  rw [List.map_map]
  rfl

theorem valued_snd (outs : List COutput) :
    (outs.map COutput.valued).map Prod.snd = outs.map COutput.coin := by
  rw [List.map_map]
  rfl

/-- Any coins out of the eligible ones, in whatever order, that reach the target. -/
theorem Selection.addAll_sound {eligible : List COutput} {coins : List ValuedCoin}
    (hdistinct : (eligible.map COutput.coin).Nodup) (hafford : Affordable eligible)
    (hsub : coins.Subperm (eligible.map COutput.valued))
    (hreach : nTargetValue ≤ (coins.map Prod.fst).sum) :
    (Selection.empty.addAll coins).Sound eligible nTargetValue ∧
      nTargetValue ≤ (eligible.map COutput.nValue).sum := by
  obtain ⟨coins', hperm, hsublist⟩ := hsub
  have hmem : ∀ coin ∈ coins, ∃ out ∈ eligible, out.valued = coin := by
    intro coin hcoin
    exact List.mem_map.1 (hsublist.subset (hperm.mem_iff.2 hcoin))
  have hnodup : (coins.map Prod.snd).Nodup := by
    rw [← (hperm.map Prod.snd).nodup_iff]
    apply (hsublist.map Prod.snd).nodup
    rw [valued_snd]
    exact hdistinct
  have hle : (coins.map Prod.fst).sum ≤ (eligible.map COutput.nValue).sum := by
    rw [← (hperm.map Prod.fst).sum_eq, ← valued_fst]
    apply (hsublist.map Prod.fst).sum_le_sum
    intro v hv
    rw [valued_fst] at hv
    obtain ⟨out, hout, rfl⟩ := List.mem_map.1 hv
    exact hafford.1 out hout
  have hmoney := hafford.2
  have heq : Selection.empty.addAll coins =
      ⟨(coins.map Prod.snd).reverse, (coins.map Prod.fst).sum⟩ := by
    rw [Selection.addAll_eq coins Selection.empty hnodup]
    · simp [Selection.empty]
    · intro coin _
      simp [Selection.empty]
    · intro coin hcoin
      obtain ⟨out, hout, rfl⟩ := hmem coin hcoin
      exact hafford.1 out hout
    · exact le_refl 0
    · show 0 + (coins.map Prod.fst).sum ≤ MAX_MONEY
      omega
  rw [heq]
  refine ⟨⟨?_, ?_, ?_, hreach⟩, le_trans hreach hle⟩
  · exact List.nodup_reverse.2 hnodup
  · intro coin hcoin
    rw [List.mem_reverse] at hcoin
    obtain ⟨c, hc, rfl⟩ := List.mem_map.1 hcoin
    obtain ⟨out, hout, rfl⟩ := hmem c hc
    exact ⟨out, hout, rfl⟩
  · show (coins.map Prod.fst).sum = _
    rw [List.map_reverse, List.sum_reverse, List.map_map]
    apply congrArg List.sum
    apply List.map_congr_left
    intro coin hcoin
    obtain ⟨out, hout, rfl⟩ := hmem coin hcoin
    rfl

/-- The one larger coin. -/
theorem Scanned.larger_sound {eligible : List COutput} {scan : CoinScan} {coin : WalletCoin}
    (hs : Scanned nTargetValue eligible scan) (hdistinct : (eligible.map COutput.coin).Nodup)
    (hafford : Affordable eligible) (hcoin : scan.coinLowestLarger.2 = some coin) :
    (Selection.empty.add (scan.coinLowestLarger.1, coin)).Sound eligible nTargetValue ∧
      nTargetValue ≤ (eligible.map COutput.nValue).sum := by
  obtain ⟨out, hout, hvalued, hlt⟩ := hs.larger coin hcoin
  rw [← hvalued]
  show (Selection.empty.addAll [out.valued]).Sound eligible nTargetValue ∧ _
  apply Selection.addAll_sound hdistinct hafford
  · exact List.singleton_subperm_iff.2 (List.mem_map_of_mem hout)
  · simpa [COutput.valued] using hlt.le

/-- The search is over the collected coins in descending order, which are worth `nTotalLower`; its best
    reaches the target, be it the second search or the first. -/
theorem bestSubset_reaches {vValue : List ValuedCoin} {nTotalLower : Int}
    (htarget : 0 < nTargetValue ∧ nTargetValue ≤ MAX_MONEY) (hpriced : Priced vValue)
    (hlower : nTotalLower = (vValue.map Prod.fst).sum) (hreach : nTargetValue ≤ nTotalLower) :
    nTargetValue ≤ weight vValue (CachedWallet.bestSubset chances nTargetValue vValue nTotalLower).1 := by
  have hfirst := approximateBestSubset_best hpriced hlower hreach (chances.rand 0) 1000
  unfold CachedWallet.bestSubset
  dsimp only
  rw [int64_target htarget]
  split
  · rename_i h
    have hsecond := approximateBestSubset_best hpriced hlower h.2 (chances.rand 1) 1000
    rw [← hsecond.total]
    have hcent := CENT_pos
    have hbest := hsecond.reaches
    omega
  · rw [← hfirst.total]
    exact hfirst.reaches

/-- No selection only if the eligible coins do not add up to the target. -/
def RightChoice (eligible : List COutput) (nTargetValue : Int) : Option Selection → Prop
  | none => (eligible.map COutput.nValue).sum < nTargetValue
  | some sel => sel.Sound eligible nTargetValue ∧ nTargetValue ≤ (eligible.map COutput.nValue).sum

/-- THE CHOICE. -/
theorem chooseCoins_right {eligible : List COutput} {scan : CoinScan}
    (htarget : 0 < nTargetValue ∧ nTargetValue ≤ MAX_MONEY)
    (hs : Scanned nTargetValue eligible scan) (hdistinct : (eligible.map COutput.coin).Nodup)
    (hafford : Affordable eligible) :
    RightChoice eligible nTargetValue (CachedWallet.chooseCoins chances nTargetValue scan) := by
  have hsub : scan.vValue.Subperm (eligible.map COutput.valued) := by
    rw [hs.vValue]
    exact (List.filter_sublist.map COutput.valued).subperm
  unfold CachedWallet.chooseCoins
  split
  · rename_i heq
    exact Selection.addAll_sound hdistinct hafford hsub (by rw [← hs.nTotalLower, heq])
  rename_i hne
  split
  · rename_i hlt
    rcases hlarger : scan.coinLowestLarger.2 with _ | coin
    · -- no larger coin: all the eligible ones are small
      have hall := (hs.noLarger hlarger).2
      have htotal := hs.nTotalLower_eq
      rw [List.filter_eq_self.2 hall] at htotal
      show (eligible.map COutput.nValue).sum < nTargetValue
      omega
    · exact hs.larger_sound hdistinct hafford hlarger
  rename_i hnlt
  -- the search: a subset of the collected coins that reaches the target
  have hperm : (chances.sort scan.vValue).Perm scan.vValue := chances.sort_perm scan.vValue
  have hpriced : Priced (chances.sort scan.vValue) := by
    have hsmall := hafford.sublist (@List.filter_sublist _ (COutput.isSmall nTargetValue) eligible)
    constructor
    · intro coin hcoin
      have hmem := hsub.subset (hperm.mem_iff.1 hcoin)
      obtain ⟨out, hout, rfl⟩ := List.mem_map.1 hmem
      exact hafford.1 out hout
    · rw [(hperm.map Prod.fst).sum_eq, ← hs.nTotalLower, hs.nTotalLower_eq]
      exact hsmall.2
  have hlower : scan.nTotalLower = ((chances.sort scan.vValue).map Prod.fst).sum := by
    rw [(hperm.map Prod.fst).sum_eq]
    exact hs.nTotalLower
  have hreach := @bestSubset_reaches chances nTargetValue _ _ htarget hpriced hlower (by omega)
  have hsubset := Selection.addAll_sound hdistinct hafford
    (((picked_sublist _ _).subperm.trans hperm.subperm).trans hsub) hreach
  dsimp only
  rcases hlarger : scan.coinLowestLarger.2 with _ | coin
  · exact hsubset
  · dsimp only
    split
    · exact hs.larger_sound hdistinct hafford hlarger
    · exact hsubset

/-- COIN SELECTION IS SOUND AND COMPLETE, whatever the dice say.  An exception is that of a record whose
    debit is out of range; without one the answer is no exactly if the eligible coins do not reach the
    target, and otherwise a set of distinct eligible coins that do, with their exact sum. -/
theorem selectCoinsMinConf_spec (P : Primitives) (w : CachedWallet) (chances : Chances)
    (nTargetValue : Int) (nSpendTime : UInt32) (nConfMine nConfTheirs : Int) (vCoins : List COutput)
    (hpayable : Payable vCoins nTargetValue) :
    (∀ e, w.selectCoinsMinConf P chances nTargetValue nSpendTime nConfMine nConfTheirs vCoins = .error e →
      ∃ out ∈ vCoins, w.isFromMeCached P out.tx = .error e) ∧
    ∀ answer,
      w.selectCoinsMinConf P chances nTargetValue nSpendTime nConfMine nConfTheirs vCoins = .ok answer →
      (answer = none ↔ ((vCoins.filter (w.isEligible P nSpendTime nConfMine nConfTheirs)).map
        COutput.nValue).sum < nTargetValue) ∧
      ∀ sel, answer = some sel →
        sel.setCoinsRet.Nodup ∧
        (∀ coin ∈ sel.setCoinsRet, ∃ out ∈ vCoins,
          w.isEligible P nSpendTime nConfMine nConfTheirs out = true ∧ out.coin = coin) ∧
        sel.nValueRet = (sel.setCoinsRet.map coinValue).sum ∧
        nTargetValue ≤ sel.nValueRet := by
  have hshuffle := chances.shuffle_perm vCoins
  have hafford : Affordable (chances.shuffle vCoins) :=
    Affordable.perm ⟨fun out hout => (hpayable.positive out hout).le, hpayable.bounded⟩ hshuffle
  have hperm := hshuffle.filter (w.isEligible P nSpendTime nConfMine nConfTheirs)
  have hscan := @scanCoins_answer P w nTargetValue nSpendTime nConfMine nConfTheirs hpayable.target
    (chances.shuffle vCoins) [] CoinScan.start hafford Scanned.start
  -- the eligible coins in the order they were looked at
  generalize helig : (chances.shuffle vCoins).filter (w.isEligible P nSpendTime nConfMine nConfTheirs) =
    eligible at hperm
  have heafford : Affordable eligible := hafford.sublist (helig ▸ List.filter_sublist)
  have hedistinct : (eligible.map COutput.coin).Nodup := by
    apply List.Nodup.sublist ((helig ▸ List.filter_sublist : eligible.Sublist _).map COutput.coin)
    exact (hshuffle.map COutput.coin).nodup_iff.2 hpayable.distinct
  have hmem : ∀ out, out ∈ eligible ↔
      out ∈ vCoins ∧ w.isEligible P nSpendTime nConfMine nConfTheirs out = true := by
    intro out
    rw [hperm.mem_iff, List.mem_filter]
  have hright : ∀ answer, RightChoice eligible nTargetValue answer →
      (answer = none ↔ ((vCoins.filter (w.isEligible P nSpendTime nConfMine nConfTheirs)).map
        COutput.nValue).sum < nTargetValue) ∧
      ∀ sel, answer = some sel →
        sel.setCoinsRet.Nodup ∧
        (∀ coin ∈ sel.setCoinsRet, ∃ out ∈ vCoins,
          w.isEligible P nSpendTime nConfMine nConfTheirs out = true ∧ out.coin = coin) ∧
        sel.nValueRet = (sel.setCoinsRet.map coinValue).sum ∧
        nTargetValue ≤ sel.nValueRet := by
    intro answer hanswer
    rw [← (hperm.map COutput.nValue).sum_eq]
    rcases answer with _ | sel
    · refine ⟨⟨fun _ => hanswer, fun _ => rfl⟩, ?_⟩
      intro sel hsel
      cases hsel
    · obtain ⟨hsound, hreach⟩ := hanswer
      refine ⟨⟨fun h => (by cases h), fun h => absurd hreach (not_le.2 h)⟩, ?_⟩
      intro sel' hsel
      cases hsel
      refine ⟨hsound.distinct, ?_, hsound.total, hsound.reaches⟩
      intro coin hcoin
      obtain ⟨out, hout, heq⟩ := hsound.eligible coin hcoin
      obtain ⟨hin, hyes⟩ := (hmem out).1 hout
      exact ⟨out, hin, hyes, heq⟩
  unfold CachedWallet.selectCoinsMinConf
  rcases hloop : w.scanCoins P nTargetValue nSpendTime nConfMine nConfTheirs (chances.shuffle vCoins)
      CoinScan.start with e | scan | coin
  · rw [hloop] at hscan
    obtain ⟨out, hout, hfrom⟩ := hscan
    constructor
    · intro e' he
      cases he
      exact ⟨out, hshuffle.mem_iff.1 hout, hfrom⟩
    · intro answer hanswer
      cases hanswer
  · rw [hloop] at hscan
    have hscanned : Scanned nTargetValue eligible scan := helig ▸ hscan
    constructor
    · intro e he
      cases he
    · intro answer hanswer
      cases hanswer
      exact hright _ (chooseCoins_right hpayable.target hscanned hedistinct heafford)
  · rw [hloop] at hscan
    obtain ⟨out, hout, hyes, hexact, rfl⟩ := hscan
    have hin : out ∈ eligible := helig ▸ List.mem_filter.2 ⟨hout, hyes⟩
    constructor
    · intro e he
      cases he
    · intro answer hanswer
      cases hanswer
      apply hright
      show (Selection.empty.addAll [out.valued]).Sound eligible nTargetValue ∧ _
      apply Selection.addAll_sound hedistinct heafford
      · exact List.singleton_subperm_iff.2 (List.mem_map_of_mem hin)
      · simp [COutput.valued, hexact]

end Scan

/-! ## Three coins -/

namespace Forging

/-- A transaction that pays the wallet three, four and one. -/
def record : CWalletTx := CWalletTx.ofTx
  { nVersion := 1
    nTime := 100
    vin := []
    vout := [⟨3 * COIN, []⟩, ⟨4 * COIN, []⟩, ⟨COIN, []⟩]
    nLockTime := 0 }

def purse : List COutput := [⟨record, 0, 10⟩, ⟨record, 1, 10⟩, ⟨record, 2, 10⟩]

/-- Nothing is shuffled, and the dice always say yes. -/
def chances : Chances where
  shuffle l := l
  shuffle_perm l := List.Perm.refl l
  sort l := l.insertionSort fun a b => b.1 ≤ a.1
  sort_perm l := List.perm_insertionSort _ l
  sort_sorted l :=
    haveI : Std.Total fun a b : ValuedCoin => b.1 ≤ a.1 := ⟨fun a b => le_total b.1 a.1⟩
    haveI : IsTrans ValuedCoin fun a b => b.1 ≤ a.1 := ⟨fun _ _ _ h h' => le_trans h' h⟩
    List.pairwise_insertionSort _ l
  rand _ _ _ := true

theorem purse_payable : Payable purse (7 * COIN) := by
  constructor
  · decide
  · decide
  · decide
  · decide

/-- Seven out of them: the search takes four and three. -/
theorem selectCoinsMinConf_purse :
    loaded.selectCoinsMinConf primitives chances (7 * COIN) 200 1 6 purse =
      .ok (some ⟨[(record, 0), (record, 1)], 7 * COIN⟩) ∧
    7 * COIN ≤ ((purse.filter (loaded.isEligible primitives 200 1 6)).map COutput.nValue).sum ∧
    [(record, 0), (record, 1)].Nodup := by
  have hrun : loaded.selectCoinsMinConf primitives chances (7 * COIN) 200 1 6 purse =
      .ok (some ⟨[(record, 0), (record, 1)], 7 * COIN⟩) := by decide
  have h := (selectCoinsMinConf_spec primitives loaded chances (7 * COIN) 200 1 6 purse
    purse_payable).2 _ hrun
  refine ⟨hrun, ?_, (h.2 _ rfl).1⟩
  by_contra hlt
  exact absurd (h.1.2 (not_le.1 hlt)) (by simp)

end Forging

end Silkcoin
