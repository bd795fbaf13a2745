/-
  What a selection is WORTH, for any coins.

  `selectCoinsMinConf_spec` is about coins that add up to no more than there is.  Of any other coins the sums
  may wrap; but they wrap everywhere in the same way.  So also then the value returned is the sum of the coins
  returned, as an `int64_t`, and reaches the target (`Selection.Pays`): the search compares totals, and a total
  is that of the coins it flags (`IsBest64`).  And no coin is from after the spend.

  `SelectCoins` asks three times, with weaker and weaker confirmations.  With coin control it does not ask at
  all: every output that is selected and available goes into the set, however old the spend
  (`CCoinControl`, `selectCoins_pays`).
-/
import Silkcoin.SelectCoins
import Silkcoin.Lib.Memo

namespace Silkcoin

open Validation BatchStore Subset

/-- Distinct coins out of those at hand, worth what is returned, and that reaches the target. -/
structure Selection.Pays (vCoins : List COutput) (nTargetValue : Int) (sel : Selection) : Prop where
  distinct : sel.setCoinsRet.Nodup
  available : ∀ coin ∈ sel.setCoinsRet, ∃ out ∈ vCoins, out.coin = coin
  total : sel.nValueRet = int64 (sel.setCoinsRet.map coinValue).sum
  reaches : nTargetValue ≤ sel.nValueRet

/-- From before the spend. -/
def Selection.Timely (nSpendTime : UInt32) (sel : Selection) : Prop :=
  ∀ coin ∈ sel.setCoinsRet, coin.1.tx.nTime ≤ nSpendTime

theorem Selection.addAll_eq64 (coins : List ValuedCoin) (sel : Selection) (hnodup : (coins.map Prod.snd).Nodup)
    (hnew : ∀ coin ∈ coins, coin.2 ∉ sel.setCoinsRet) (hsel : int64 sel.nValueRet = sel.nValueRet) :
    sel.addAll coins = ⟨(coins.map Prod.snd).reverse ++ sel.setCoinsRet,
      int64 (sel.nValueRet + (coins.map Prod.fst).sum)⟩ := by
  induction coins generalizing sel with
  | nil =>
    show sel = ⟨sel.setCoinsRet, int64 (sel.nValueRet + 0)⟩
    rw [Int.add_zero, hsel]
  | cons coin coins ih =>
    obtain ⟨hfresh, hnodup⟩ := List.nodup_cons.mp hnodup
    have hadd : sel.add coin = ⟨coin.2 :: sel.setCoinsRet, int64 (sel.nValueRet + coin.1)⟩ := by
      unfold Selection.add
      rw [List.insert_of_not_mem (hnew coin List.mem_cons_self)]
    show (sel.add coin).addAll coins = _
    rw [hadd, ih _ hnodup _ (int64_int64 _)]
    · rw [List.map_cons, List.map_cons, List.reverse_cons, List.sum_cons, List.append_assoc, int64_add_left,
        add_assoc]
      rfl
    · intro c hc hmem
      rcases List.mem_cons.mp hmem with heq | hmem
      · exact hfresh (heq ▸ List.mem_map_of_mem hc)
      · exact hnew c (List.mem_cons_of_mem _ hc) hmem

/-- Any of the coins, in whatever order, whose sum reaches the target. -/
theorem Selection.addAll_pays {vCoins : List COutput} {coins : List ValuedCoin} {nTargetValue : Int}
    (hdistinct : (vCoins.map COutput.coin).Nodup) (hsub : coins.Subperm (vCoins.map COutput.valued))
    (hreach : nTargetValue ≤ int64 (coins.map Prod.fst).sum) :
    (Selection.empty.addAll coins).Pays vCoins nTargetValue := by
  obtain ⟨coins', hperm, hsublist⟩ := hsub
  have hmem : ∀ coin ∈ coins, ∃ out ∈ vCoins, out.valued = coin := by
    intro coin hcoin
    exact List.mem_map.mp (hsublist.subset (hperm.mem_iff.mpr hcoin))
  have hnodup : (coins.map Prod.snd).Nodup := by
    rw [← (hperm.map Prod.snd).nodup_iff]
    apply (hsublist.map Prod.snd).nodup
    rw [valued_snd]
    exact hdistinct
  have hvalues : (coins.map Prod.snd).map coinValue = coins.map Prod.fst := by
    rw [List.map_map]
    apply List.map_congr_left
    intro coin hcoin
    obtain ⟨out, hout, rfl⟩ := hmem coin hcoin
    rfl
  have heq : Selection.empty.addAll coins =
      ⟨(coins.map Prod.snd).reverse, int64 (coins.map Prod.fst).sum⟩ := by
    rw [Selection.addAll_eq64 coins Selection.empty hnodup (fun _ _ => List.not_mem_nil) rfl]
    show (⟨_ ++ [], int64 (0 + _)⟩ : Selection) = _
    rw [List.append_nil, zero_add]
  rw [heq]
  refine ⟨List.nodup_reverse.mpr hnodup, ?_, ?_, hreach⟩
  · intro coin hcoin
    obtain ⟨c, hc, rfl⟩ := List.mem_map.mp (List.mem_reverse.mp hcoin)
    obtain ⟨out, hout, rfl⟩ := hmem c hc
    exact ⟨out, hout, rfl⟩
  · show int64 _ = int64 _
    rw [List.map_reverse, List.sum_reverse, hvalues]

theorem Selection.addAll_coins (coins : List ValuedCoin) (coin : WalletCoin)
    (h : coin ∈ (Selection.empty.addAll coins).setCoinsRet) : ∃ c ∈ coins, c.2 = coin := by
  have hall : ∀ (coins : List ValuedCoin) (sel : Selection), coin ∈ (sel.addAll coins).setCoinsRet →
      coin ∈ sel.setCoinsRet ∨ ∃ c ∈ coins, c.2 = coin := by
    intro coins
    induction coins with
    | nil => exact fun sel h => Or.inl h
    | cons c coins ih =>
      intro sel h
      rcases ih (sel.add c) h with h | ⟨c', hc', rfl⟩
      · rcases List.mem_insert_iff.mp h with rfl | h
        · exact Or.inr ⟨c, List.mem_cons_self, rfl⟩
        · exact Or.inl h
      · exact Or.inr ⟨c', List.mem_cons_of_mem _ hc', rfl⟩
  exact (hall coins Selection.empty h).resolve_left List.not_mem_nil

/-! ## `SelectCoinsMinConf` -/

/-- What the loop over the coins has collected of those seen. -/
structure Collected (nTargetValue : Int) (nSpendTime : UInt32) (seen : List COutput) (scan : CoinScan) : Prop where
  vValue : scan.vValue.Sublist (seen.map COutput.valued)
  timely : ∀ coin ∈ scan.vValue, coin.2.1.tx.nTime ≤ nSpendTime
  nTotalLower : scan.nTotalLower = int64 (scan.vValue.map Prod.fst).sum
  larger : ∀ coin, scan.coinLowestLarger.2 = some coin →
    ∃ out ∈ seen, out.valued = (scan.coinLowestLarger.1, coin) ∧ nTargetValue ≤ out.nValue ∧
      out.tx.tx.nTime ≤ nSpendTime

section Scan

variable {P : Primitives} {w : CachedWallet} {chances : Chances} {nTargetValue : Int} {nSpendTime : UInt32}
  {nConfMine nConfTheirs : Int}

theorem Collected.start : Collected nTargetValue nSpendTime [] CoinScan.start where
  vValue := List.Sublist.slnil
  timely := fun _ h => absurd h List.not_mem_nil
  nTotalLower := rfl
  larger := fun _ h => nomatch h

variable {seen : List COutput} {scan : CoinScan} {out : COutput}

/-- A coin is passed over. -/
theorem Collected.skip (h : Collected nTargetValue nSpendTime seen scan) :
    Collected nTargetValue nSpendTime (seen ++ [out]) scan where
  vValue := by
    rw [List.map_append]
    exact h.vValue.trans (List.sublist_append_left _ _)
  timely := h.timely
  nTotalLower := h.nTotalLower
  larger coin hcoin := by
    obtain ⟨o, ho, hrest⟩ := h.larger coin hcoin
    exact ⟨o, List.mem_append_left _ ho, hrest⟩

/-- A small coin is collected. -/
theorem Collected.collect (h : Collected nTargetValue nSpendTime seen scan)
    (htime : out.tx.tx.nTime ≤ nSpendTime) :
    Collected nTargetValue nSpendTime (seen ++ [out]) { scan with
      vValue := scan.vValue ++ [out.valued]
      nTotalLower := int64 (scan.nTotalLower + out.nValue) } where
  vValue := by
    rw [List.map_append]
    exact h.vValue.append (List.Sublist.refl _)
  timely coin hcoin := by
    rcases List.mem_append.mp hcoin with hcoin | hcoin
    · exact h.timely coin hcoin
    · rw [List.mem_singleton.mp hcoin]
      exact htime
  nTotalLower := by
    show int64 (scan.nTotalLower + out.nValue) = _
    rw [h.nTotalLower, int64_add_left, List.map_append, List.sum_append]
    show _ = int64 (_ + (out.nValue + 0))
    rw [add_zero]
  larger coin hcoin := by
    obtain ⟨o, ho, hrest⟩ := h.larger coin hcoin
    exact ⟨o, List.mem_append_left _ ho, hrest⟩

/-- A larger coin is kept. -/
theorem Collected.lowest (h : Collected nTargetValue nSpendTime seen scan) (htime : out.tx.tx.nTime ≤ nSpendTime)
    (hlarge : nTargetValue ≤ out.nValue) :
    Collected nTargetValue nSpendTime (seen ++ [out])
      { scan with coinLowestLarger := (out.nValue, some out.coin) } where
  vValue := h.skip.vValue
  timely := h.timely
  nTotalLower := h.nTotalLower
  larger coin hcoin := by
    cases hcoin
    exact ⟨out, List.mem_append_right _ List.mem_cons_self, rfl, hlarge, htime⟩

/-- THE LOOP, for a target that a cent does not carry over the end. -/
theorem scanCoins_collected (hcent : int64 (nTargetValue + CENT) = nTargetValue + CENT) :
    ∀ (rest seen : List COutput) (scan : CoinScan) (answer : CoinScan ⊕ ValuedCoin),
      Collected nTargetValue nSpendTime seen scan →
      w.scanCoins P nTargetValue nSpendTime nConfMine nConfTheirs rest scan = .ok answer →
      (∀ scan', answer = .inl scan' → Collected nTargetValue nSpendTime (seen ++ rest) scan') ∧
      ∀ coin, answer = .inr coin →
        ∃ out ∈ rest, out.tx.tx.nTime ≤ nSpendTime ∧ out.nValue = nTargetValue ∧ coin = out.valued := by
  intro rest
  induction rest with
  | nil =>
    intro seen scan answer hs hrun
    cases hrun
    refine ⟨fun scan' h => ?_, fun coin h => ?_⟩
    · cases h
      rw [List.append_nil]
      exact hs
    · cases h
  | cons out rest ih =>
    intro seen scan answer hs hrun
    -- the rest of the loop, after the first coin has been dealt with
    have hnext : ∀ scan₁, Collected nTargetValue nSpendTime (seen ++ [out]) scan₁ →
        w.scanCoins P nTargetValue nSpendTime nConfMine nConfTheirs rest scan₁ = .ok answer →
        (∀ scan', answer = .inl scan' → Collected nTargetValue nSpendTime (seen ++ out :: rest) scan') ∧
        ∀ coin, answer = .inr coin →
          ∃ out' ∈ out :: rest, out'.tx.tx.nTime ≤ nSpendTime ∧ out'.nValue = nTargetValue ∧
            coin = out'.valued := by
      intro scan₁ hs₁ hrun₁
      obtain ⟨hleft, hright⟩ := ih (seen ++ [out]) scan₁ answer hs₁ hrun₁
      rw [List.append_assoc, List.singleton_append] at hleft
      refine ⟨hleft, fun coin hcoin => ?_⟩
      obtain ⟨out', hmem, hrest⟩ := hright coin hcoin
      exact ⟨out', List.mem_cons_of_mem _ hmem, hrest⟩
    rw [CachedWallet.scanCoins] at hrun
    rcases hfrom : w.isFromMeCached P out.tx with e | fFromMe
    · rw [hfrom] at hrun
      cases hrun
    rw [hfrom] at hrun
    have hrun : (if out.nDepth < (if fFromMe = true then nConfMine else nConfTheirs) then _ else _) = _ := hrun
    generalize (if fFromMe = true then nConfMine else nConfTheirs) = nMinDepth at hrun
    split at hrun
    · exact hnext scan hs.skip hrun
    split at hrun
    · exact hnext scan hs.skip hrun
    rename_i htime
    have htime : out.tx.tx.nTime ≤ nSpendTime := UInt32.not_lt.mp htime
    dsimp only at hrun
    split at hrun
    · rename_i hexact
      cases hrun
      refine ⟨fun scan' h => ?_, fun coin hcoin => ?_⟩
      · cases h
      · cases hcoin
        exact ⟨out, List.mem_cons_self, htime, hexact, rfl⟩
    rw [hcent] at hrun
    split at hrun
    · exact hnext _ (hs.collect htime) hrun
    rename_i hlarge
    split at hrun
    · have := CENT_pos
      exact hnext _ (hs.lowest htime (by omega)) hrun
    · exact hnext scan hs.skip hrun

/-- THE CHOICE. -/
theorem chooseCoins_pays {vCoins : List COutput} {scan : CoinScan}
    (hcent : int64 (nTargetValue + CENT) = nTargetValue + CENT) (hfits : ∀ out ∈ vCoins, FitsInt64 out.nValue)
    (hdistinct : (vCoins.map COutput.coin).Nodup) (hs : Collected nTargetValue nSpendTime vCoins scan)
    {sel : Selection} (hsel : CachedWallet.chooseCoins chances nTargetValue scan = some sel) :
    sel.Pays vCoins nTargetValue ∧ sel.Timely nSpendTime := by
  -- the one larger coin
  have hlarger : ∀ coin, scan.coinLowestLarger.2 = some coin →
      (Selection.empty.add (scan.coinLowestLarger.1, coin)).Pays vCoins nTargetValue ∧
        (Selection.empty.add (scan.coinLowestLarger.1, coin)).Timely nSpendTime := by
    intro coin hcoin
    obtain ⟨out, hout, hvalued, hlarge, htime⟩ := hs.larger coin hcoin
    rw [← hvalued]
    constructor
    · show (Selection.empty.addAll [out.valued]).Pays vCoins nTargetValue
      apply Selection.addAll_pays hdistinct
      · exact List.singleton_subperm_iff.mpr (List.mem_map_of_mem hout)
      · show nTargetValue ≤ int64 (out.nValue + 0)
        rw [add_zero, (hfits out hout).int64_eq]
        exact hlarge
    · intro c hc
      obtain ⟨c', hc', rfl⟩ := Selection.addAll_coins [out.valued] c hc
      rw [List.mem_singleton.mp hc']
      exact htime
  -- some of the collected ones
  have hsome : ∀ coins : List ValuedCoin, coins.Subperm scan.vValue →
      nTargetValue ≤ int64 (coins.map Prod.fst).sum →
      (Selection.empty.addAll coins).Pays vCoins nTargetValue ∧
        (Selection.empty.addAll coins).Timely nSpendTime := by
    intro coins hsub hreach
    refine ⟨Selection.addAll_pays hdistinct (hsub.trans hs.vValue.subperm) hreach, fun c hc => ?_⟩
    obtain ⟨c', hc', rfl⟩ := Selection.addAll_coins coins c hc
    exact hs.timely c' (hsub.subset hc')
  unfold CachedWallet.chooseCoins at hsel
  split at hsel
  · rename_i hexact
    cases hsel
    apply hsome _ (List.Subperm.refl _)
    rw [← hs.nTotalLower, hexact]
  split at hsel
  · obtain ⟨coin, hcoin, rfl⟩ := Option.map_eq_some_iff.mp hsel
    exact hlarger coin hcoin
  rename_i hne hnlt
  -- the search over the collected coins, in whatever order they are
  have hperm : (chances.sort scan.vValue).Perm scan.vValue := chances.sort_perm scan.vValue
  have hlower : scan.nTotalLower = int64 ((chances.sort scan.vValue).map Prod.fst).sum := by
    rw [(hperm.map Prod.fst).sum_eq]
    exact hs.nTotalLower
  have hbest : nTargetValue ≤ int64 (weight (chances.sort scan.vValue)
      (CachedWallet.bestSubset chances nTargetValue (chances.sort scan.vValue) scan.nTotalLower).1) := by
    unfold CachedWallet.bestSubset
    dsimp only
    rw [hcent]
    split
    · rename_i h
      have hsecond := approximateBestSubset_best64 hlower h.2 (chances.rand 1) 1000
      rw [← hsecond.total]
      have hreaches := hsecond.reaches
      have := CENT_pos
      omega
    · have hfirst := @approximateBestSubset_best64 _ _ nTargetValue hlower (by omega) (chances.rand 0) 1000
      rw [← hfirst.total]
      exact hfirst.reaches
  have hsubset := hsome _ (((picked_sublist _ _).subperm).trans hperm.subperm) hbest
  dsimp only at hsel
  split at hsel
  · rename_i coin hcoin
    split at hsel
    · cases hsel
      exact hlarger coin hcoin
    · cases hsel
      exact hsubset
  · cases hsel
    exact hsubset

/-- A selection pays, whatever the coins are worth. -/
theorem selectCoinsMinConf_pays {vCoins : List COutput}
    (hcent : int64 (nTargetValue + CENT) = nTargetValue + CENT) (hfits : ∀ out ∈ vCoins, FitsInt64 out.nValue)
    (hdistinct : (vCoins.map COutput.coin).Nodup) {sel : Selection}
    (hrun : w.selectCoinsMinConf P chances nTargetValue nSpendTime nConfMine nConfTheirs vCoins = .ok (some sel)) :
    sel.Pays vCoins nTargetValue ∧ sel.Timely nSpendTime := by
  have hshuffle := chances.shuffle_perm vCoins
  have hfits' : ∀ out ∈ chances.shuffle vCoins, FitsInt64 out.nValue :=
    fun out hout => hfits out (hshuffle.mem_iff.mp hout)
  have hdistinct' : ((chances.shuffle vCoins).map COutput.coin).Nodup :=
    (hshuffle.map COutput.coin).nodup_iff.mpr hdistinct
  have hback : ∀ sel : Selection, sel.Pays (chances.shuffle vCoins) nTargetValue →
      sel.Pays vCoins nTargetValue := by
    intro sel h
    refine ⟨h.distinct, fun coin hcoin => ?_, h.total, h.reaches⟩
    obtain ⟨out, hout, heq⟩ := h.available coin hcoin
    exact ⟨out, hshuffle.mem_iff.mp hout, heq⟩
  unfold CachedWallet.selectCoinsMinConf at hrun
  rcases hscan : w.scanCoins P nTargetValue nSpendTime nConfMine nConfTheirs (chances.shuffle vCoins)
    CoinScan.start with e | answer
  · rw [hscan] at hrun
    cases hrun
  rw [hscan] at hrun
  obtain ⟨hleft, hright⟩ := scanCoins_collected hcent _ [] _ answer Collected.start hscan
  rcases answer with scan | coin
  · have hrun : (Except.ok (CachedWallet.chooseCoins chances nTargetValue scan) : Check (Option Selection)) =
      .ok (some sel) := hrun
    obtain ⟨hpays, htimely⟩ := chooseCoins_pays hcent hfits' hdistinct' (hleft scan rfl) (Except.ok.inj hrun)
    exact ⟨hback sel hpays, htimely⟩
  · have hrun : (Except.ok (some (Selection.empty.add coin)) : Check (Option Selection)) = .ok (some sel) := hrun
    obtain ⟨out, hout, htime, hexact, rfl⟩ := hright coin rfl
    obtain rfl := Option.some.inj (Except.ok.inj hrun)
    constructor
    · apply hback
      show (Selection.empty.addAll [out.valued]).Pays (chances.shuffle vCoins) nTargetValue
      apply Selection.addAll_pays hdistinct' (List.singleton_subperm_iff.mpr (List.mem_map_of_mem hout))
      show nTargetValue ≤ int64 (out.nValue + 0)
      rw [add_zero, (hfits' out hout).int64_eq, hexact]
    · intro c hc
      obtain ⟨c', hc', rfl⟩ := Selection.addAll_coins [out.valued] c hc
      rw [List.mem_singleton.mp hc']
      exact htime

end Scan

/-! ## Coin control -/

/-- No destination is `CNoDestination`. -/
structure CCoinControl where
  destChange : Option CTxDestination
  setSelected : List COutPoint

namespace CCoinControl

def hasSelected (coinControl : CCoinControl) : Bool := decide (coinControl.setSelected.length > 0)

def isSelected (coinControl : CCoinControl) (hash : Uint256) (n : Nat) : Bool :=
  coinControl.setSelected.contains ⟨hash, UInt32.ofNat n⟩

end CCoinControl

/-- `coinControl && coinControl->HasSelected()` -/
def selects : Option CCoinControl → Bool
  | none => false
  | some coinControl => coinControl.hasSelected

/-- `!coinControl || !coinControl->HasSelected() || coinControl->IsSelected(hash, n)` -/
def allowsCoin (hash : Uint256) (n : Nat) : Option CCoinControl → Bool
  | none => true
  | some coinControl => !coinControl.hasSelected || coinControl.isSelected hash n

namespace CachedWallet

variable (P : Primitives) (s : NodeState) (nSteps : Nat) (w : CachedWallet)

/-- What one turn of the loop of `AvailableCoins` adds. -/
def recordCoins (fOnlyConfirmed : Bool) (coinControl : Option CCoinControl) :
    Memo.Question ((_ : Uint256) × CWalletTx) CreditCache COutput Failure := fun e c =>
  if isFinal s e.2 = false then .ok ([], c)
  else do
    let (fWanted, c) ← w.isWanted P s nSteps fOnlyConfirmed e.1 e.2 c
    let vCoins :=
      if fWanted = false then []
      else if e.2.tx.isCoinBase && decide (blocksToMaturity P s e.2 > 0) then []
      else if e.2.tx.isCoinStake && decide (blocksToMaturity P s e.2 > 0) then []
      else if s.walletDepth P e.2 < 0 then []
      else (w.coinsOf P s e.2).filter fun out => allowsCoin e.1 out.i coinControl
    return (vCoins, c)

/-- `AvailableCoins`, with coin control. -/
def availableCoinsControl (fOnlyConfirmed : Bool) (coinControl : Option CCoinControl) :
    Check (List COutput × CachedWallet) := do
  let (vCoins, cache) ← Memo.pass Sigma.fst (w.recordCoins P s nSteps fOnlyConfirmed coinControl)
    w.ordered ([], w.cache)
  return (vCoins, { w with cache := cache })

variable (chances : Nat → Chances) (nTargetValue : Int) (nSpendTime : UInt32)

/-- One `SelectCoinsMinConf` after the other, until one succeeds. -/
def selectCoinsConfs (vCoins : List COutput) : Nat → List (Int × Int) → Check (Option Selection)
  | _, [] => .ok none
  | n, (nConfMine, nConfTheirs) :: confs => do
    match ← w.selectCoinsMinConf P (chances n) nTargetValue nSpendTime nConfMine nConfTheirs vCoins with
    | some sel => return some sel
    | none => selectCoinsConfs vCoins (n + 1) confs

def selectCoins (coinControl : Option CCoinControl) : Check (Option Selection × CachedWallet) := do
  let (vCoins, w) ← w.availableCoinsControl P s nSteps true coinControl
  if selects coinControl then
    -- all selected outputs go into the transaction
    let sel := Selection.empty.addAll (vCoins.map COutput.valued)
    return (if sel.nValueRet ≥ nTargetValue then some sel else none, w)
  else
    let sel ← w.selectCoinsConfs P chances nTargetValue nSpendTime vCoins 0 [(1, 10), (1, 1), (0, 1)]
    return (sel, w)

end CachedWallet

/-- What the types of a wallet promise: a record stands under its hash, an amount is an `int64_t`, and an
    output can be named. -/
structure CachedWallet.Keyed (P : Primitives) (w : CachedWallet) : Prop where
  keyed : ∀ hash wtx, w.mapWallet.lookup hash = some wtx → P.getHash wtx.tx = hash
  values : ∀ hash wtx, w.mapWallet.lookup hash = some wtx → ∀ txout ∈ wtx.tx.vout, FitsInt64 txout.nValue
  outputs : ∀ hash wtx, w.mapWallet.lookup hash = some wtx → wtx.tx.vout.length ≤ 2 ^ 32

namespace CachedWallet

variable {P : Primitives} {s : NodeState} {nSteps : Nat} {w : CachedWallet}

/-! ## The coins there are -/

/-- A record that is asked again if it is trusted gives the same answer. -/
theorem isTrusted_again {hash : Uint256} {wtx : CWalletTx} {c c' : CreditCache} {fTrusted : Bool}
    (h : w.isTrusted P s nSteps hash wtx c = .ok (fTrusted, c')) :
    w.isTrusted P s nSteps hash wtx c' = .ok (fTrusted, c') := by
  have hdebit : ∀ nDebit c₁, w.getDebitCached wtx c = .ok (nDebit, c₁) →
      w.getDebitCached wtx c₁ = .ok (nDebit, c₁) := by
    intro nDebit c₁ hx
    unfold getDebitCached at hx
    split at hx
    · rename_i hvin
      cases hx
      rw [getDebitCached, if_pos hvin]
    rename_i hvin
    split at hx
    · rename_i hcached
      cases hx
      rw [getDebitCached, if_neg hvin, hcached]
    · simp only [bind_ok, pure_ok] at hx
      obtain ⟨nDebit', -, heq⟩ := hx
      cases heq
      rw [getDebitCached, if_neg hvin]
  unfold isTrusted at h ⊢
  split at h
  · rename_i hfinal
    cases h
    rw [if_pos hfinal]
  rename_i hfinal
  rw [if_neg hfinal]
  split at h
  · rename_i hdepth
    cases h
    rw [if_pos hdepth]
  rename_i hdepth
  rw [if_neg hdepth]
  split at h
  · rename_i hlost
    cases h
    rw [if_pos hlost]
  rename_i hlost
  rw [if_neg hlost]
  split at h
  · rename_i hconf
    cases h
    rw [if_pos hconf]
  rename_i hconf
  rw [if_neg hconf]
  rcases hx : w.getDebitCached wtx c with e | ⟨nDebit, c₁⟩
  · rw [hx] at h
    cases h
  rw [hx] at h
  have h : (if nDebit > 0 then (w.trustedFrom P s (w.vtxPrev hash) nSteps [wtx]).bind fun fTrusted =>
      (Except.ok (fTrusted, c₁) : Check (Bool × CreditCache)) else .ok (false, c₁)) = .ok (fTrusted, c') := h
  have hc : c₁ = c' := by
    split at h
    · rcases htrusted : w.trustedFrom P s (w.vtxPrev hash) nSteps [wtx] with e | f
      · rw [htrusted] at h
        cases h
      · rw [htrusted] at h
        cases h
        rfl
    · cases h
      rfl
  rw [← hc] at h ⊢
  rw [hdebit nDebit c₁ hx]
  exact h

theorem recordCoins_settled (fOnlyConfirmed : Bool) (coinControl : Option CCoinControl) :
    Memo.Settled (w.recordCoins P s nSteps fOnlyConfirmed coinControl) := by
  intro e c answers c' h
  unfold recordCoins at h ⊢
  split at h
  · rename_i hfinal
    cases h
    rw [if_pos hfinal]
  rename_i hfinal
  rw [if_neg hfinal]
  rcases hwanted : w.isWanted P s nSteps fOnlyConfirmed e.1 e.2 c with err | ⟨fWanted, c₁⟩
  · rw [hwanted] at h
    cases h
  rw [hwanted] at h
  have hagain : w.isWanted P s nSteps fOnlyConfirmed e.1 e.2 c₁ = .ok (fWanted, c₁) := by
    unfold isWanted at hwanted ⊢
    split at hwanted
    · rename_i honly
      rw [if_pos honly]
      exact isTrusted_again hwanted
    · rename_i honly
      cases hwanted
      rw [if_neg honly]
  have hc : c₁ = c' := congrArg Prod.snd (Except.ok.inj h)
  rw [← hc] at h ⊢
  rw [hagain]
  exact h

/-- What is remembered of the records is not in what their supporting transactions say. -/
theorem trustedFrom_caches (cache : Uint256 → CreditCache) (prevs : List CWalletTx) :
    ∀ (nSteps : Nat) (queue : List CWalletTx),
      ({ w with cache := cache } : CachedWallet).trustedFrom P s prevs nSteps queue =
        w.trustedFrom P s prevs nSteps queue := by
  intro nSteps
  induction nSteps with
  | zero => exact fun queue => by cases queue <;> rfl
  | succ nSteps ih =>
    intro queue
    cases queue with
    | nil => rfl
    | cons ptx rest =>
      simp only [trustedFrom, ih]

theorem recordCoins_caches (cache : Uint256 → CreditCache) (fOnlyConfirmed : Bool)
    (coinControl : Option CCoinControl) :
    ({ w with cache := cache } : CachedWallet).recordCoins P s nSteps fOnlyConfirmed coinControl =
      w.recordCoins P s nSteps fOnlyConfirmed coinControl := by
  funext e c
  unfold recordCoins isWanted isTrusted
  simp only [trustedFrom_caches]
  rfl

/-- A second look finds the same coins. -/
theorem availableCoinsControl_again {fOnlyConfirmed : Bool} {coinControl : Option CCoinControl}
    {vCoins : List COutput} {w' : CachedWallet}
    (h : w.availableCoinsControl P s nSteps fOnlyConfirmed coinControl = .ok (vCoins, w')) :
    (∃ cache, w' = { w with cache := cache }) ∧
      w'.availableCoinsControl P s nSteps fOnlyConfirmed coinControl = .ok (vCoins, w') := by
  unfold availableCoinsControl at h
  rcases hpass : Memo.pass Sigma.fst (w.recordCoins P s nSteps fOnlyConfirmed coinControl) w.ordered
    ([], w.cache) with e | ⟨coins, cache⟩
  · rw [hpass] at h
    cases h
  rw [hpass] at h
  cases h
  refine ⟨⟨cache, rfl⟩, ?_⟩
  have hagain := Memo.pass_again (recordCoins_settled fOnlyConfirmed coinControl) ordered_nodup hpass
  unfold availableCoinsControl
  rw [recordCoins_caches]
  show (do
    let r ← Memo.pass Sigma.fst (w.recordCoins P s nSteps fOnlyConfirmed coinControl) w.ordered ([], cache)
    return (r.1, { w with cache := r.2 }) : Check _) = _
  rw [hagain]
  rfl

/-- An output that is there to be spent. -/
structure Spendable (P : Primitives) (s : NodeState) (nSteps : Nat) (w : CachedWallet) (hash : Uint256)
    (wtx : CWalletTx) (i : Nat) : Prop where
  record : w.mapWallet.lookup hash = some wtx
  final : isFinal s wtx = true
  trusted : ∃ c, w.isTrusted P s nSteps hash wtx (w.cache hash) = .ok (true, c)
  coinBase : wtx.tx.isCoinBase = true → blocksToMaturity P s wtx ≤ 0
  coinStake : wtx.tx.isCoinStake = true → blocksToMaturity P s wtx ≤ 0
  depth : 0 ≤ s.walletDepth P wtx
  output : ∃ txout, wtx.tx.vout[i]? = some txout ∧ wtx.isSpent i = false ∧ w.isMineOut txout = true ∧
    w.nMinimumInputValue ≤ txout.nValue

theorem mem_coinsOf {wtx : CWalletTx} {out : COutput} : out ∈ w.coinsOf P s wtx ↔
    out.tx = wtx ∧ out.nDepth = s.walletDepth P wtx ∧ ∃ txout, wtx.tx.vout[out.i]? = some txout ∧
      wtx.isSpent out.i = false ∧ w.isMineOut txout = true ∧ w.nMinimumInputValue ≤ txout.nValue := by
  unfold coinsOf
  rw [List.mem_map]
  constructor
  · rintro ⟨o, ho, rfl⟩
    obtain ⟨hmem, hfilter⟩ := List.mem_filter.mp ho
    obtain ⟨hat, hspent⟩ := mem_unspent.mp hmem
    obtain ⟨hmine, hvalue⟩ := (Bool.and_eq_true _ _).mp hfilter
    exact ⟨rfl, rfl, o.1, hat, hspent, hmine, of_decide_eq_true hvalue⟩
  · rintro ⟨htx, hdepth, txout, hat, hspent, hmine, hvalue⟩
    refine ⟨(txout, out.i), List.mem_filter.mpr ⟨mem_unspent.mpr ⟨hat, hspent⟩, ?_⟩, ?_⟩
    · rw [hmine, Bool.true_and]
      exact decide_eq_true hvalue
    · obtain ⟨tx, i, nDepth⟩ := out
      obtain rfl := htx
      show (⟨tx, i, s.walletDepth P tx⟩ : COutput) = ⟨tx, i, nDepth⟩
      rw [← (hdepth : nDepth = s.walletDepth P tx)]

/-- What a record adds, if it is asked with what it remembers at the start. -/
theorem recordCoins_spec {coinControl : Option CCoinControl} {e : (_ : Uint256) × CWalletTx} (he : e ∈ w.ordered)
    {c : CreditCache} {vCoins : List COutput}
    (h : w.recordCoins P s nSteps true coinControl e (w.cache e.1) = .ok (vCoins, c)) (out : COutput) :
    out ∈ vCoins ↔ out.tx = e.2 ∧ out.nDepth = s.walletDepth P e.2 ∧ w.Spendable P s nSteps e.1 e.2 out.i ∧
      allowsCoin e.1 out.i coinControl = true := by
  -- no output of a record that is passed over can be spent
  have hnone : vCoins = [] → (¬ w.Spendable P s nSteps e.1 e.2 out.i) →
      (out ∈ vCoins ↔ out.tx = e.2 ∧ out.nDepth = s.walletDepth P e.2 ∧ w.Spendable P s nSteps e.1 e.2 out.i ∧
        allowsCoin e.1 out.i coinControl = true) := by
    rintro rfl hnot
    constructor
    · exact fun hmem => absurd hmem List.not_mem_nil
    · rintro ⟨-, -, hspendable, -⟩
      exact absurd hspendable hnot
  unfold recordCoins at h
  split at h
  · rename_i hfinal
    cases h
    refine hnone rfl fun hspendable => ?_
    rw [hspendable.final] at hfinal
    cases hfinal
  rename_i hfinal
  rcases htrusted : w.isTrusted P s nSteps e.1 e.2 (w.cache e.1) with err | ⟨fTrusted, c₁⟩
  · rw [isWanted, if_pos rfl, htrusted] at h
    cases h
  rw [isWanted, if_pos rfl, htrusted] at h
  have hv : (if fTrusted = false then [] else if _ then [] else if _ then [] else if _ then [] else _) =
    vCoins := congrArg Prod.fst (Except.ok.inj h)
  split at hv
  · rename_i hfalse
    refine hnone hv.symm fun hspendable => ?_
    obtain ⟨c₂, hyes⟩ := hspendable.trusted
    rw [htrusted, hfalse] at hyes
    cases hyes
  rename_i hyes
  split at hv
  · rename_i hyoung
    obtain ⟨hbase, hyoung⟩ := (Bool.and_eq_true _ _).mp hyoung
    refine hnone hv.symm fun hspendable => ?_
    have hold := hspendable.coinBase hbase
    exact absurd (of_decide_eq_true hyoung) (by omega)
  rename_i hbase
  split at hv
  · rename_i hyoung
    obtain ⟨hstake, hyoung⟩ := (Bool.and_eq_true _ _).mp hyoung
    refine hnone hv.symm fun hspendable => ?_
    have hold := hspendable.coinStake hstake
    exact absurd (of_decide_eq_true hyoung) (by omega)
  rename_i hstake
  split at hv
  · rename_i hdepth
    refine hnone hv.symm fun hspendable => ?_
    have := hspendable.depth
    omega
  rename_i hdepth
  have hripe : ∀ b : Bool, ¬ (b && decide (blocksToMaturity P s e.2 > 0)) = true → b = true →
      blocksToMaturity P s e.2 ≤ 0 := by
    intro b hnot hb
    by_contra hyoung
    exact hnot (by rw [hb, Bool.true_and]; exact decide_eq_true (by omega))
  rw [← hv, List.mem_filter, mem_coinsOf]
  constructor
  · rintro ⟨⟨htx, hnDepth, hout⟩, hallows⟩
    refine ⟨htx, hnDepth, ⟨mem_ordered.mp he, ?_, ⟨c₁, ?_⟩, hripe _ hbase, hripe _ hstake, by omega, hout⟩,
      hallows⟩
    · exact Bool.eq_true_of_not_eq_false hfinal
    · rw [htrusted, Bool.eq_true_of_not_eq_false hyes]
  · rintro ⟨htx, hnDepth, hspendable, hallows⟩
    exact ⟨⟨htx, hnDepth, hspendable.output⟩, hallows⟩

theorem recordCoins_nodup {fOnlyConfirmed : Bool} {coinControl : Option CCoinControl}
    {e : (_ : Uint256) × CWalletTx} {c c' : CreditCache} {vCoins : List COutput}
    (h : w.recordCoins P s nSteps fOnlyConfirmed coinControl e c = .ok (vCoins, c')) :
    (vCoins.map COutput.coin).Nodup ∧ ∀ out ∈ vCoins, out.tx = e.2 := by
  -- at most all the outputs of the record
  have hpart : ∀ l : List COutput, l.Sublist (w.coinsOf P s e.2) →
      (l.map COutput.coin).Nodup ∧ ∀ out ∈ l, out.tx = e.2 := by
    intro l hl
    refine ⟨?_, fun out hout => (mem_coinsOf.mp (hl.subset hout)).1⟩
    refine List.Nodup.sublist (hl.map COutput.coin) ?_
    unfold coinsOf
    rw [List.map_map]
    have hindex : ((e.2.tx.vout.zipIdx).map Prod.snd).Nodup := by
      rw [List.zipIdx_map_snd]
      exact List.nodup_range'
    have hpairs : ∀ l : List (CTxOut × Nat), l.Sublist e.2.unspent → (l.map Prod.snd).Nodup :=
      fun l hl => ((hl.trans List.filter_sublist).map Prod.snd).nodup hindex
    have heq : ∀ l : List (CTxOut × Nat), l.map (COutput.coin ∘ fun o =>
        (⟨e.2, o.2, s.walletDepth P e.2⟩ : COutput)) = (l.map Prod.snd).map fun i => (e.2, i) := by
      intro l
      rw [List.map_map]
      rfl
    rw [heq]
    exact (hpairs _ List.filter_sublist).map fun i j hij => congrArg Prod.snd hij
  unfold recordCoins at h
  split at h
  · cases h
    exact hpart [] (List.nil_sublist _)
  rcases hwanted : w.isWanted P s nSteps fOnlyConfirmed e.1 e.2 c with err | ⟨fWanted, c₁⟩
  · rw [hwanted] at h
    cases h
  rw [hwanted] at h
  have hv : (if fWanted = false then [] else if _ then [] else if _ then [] else if _ then [] else _) =
    vCoins := congrArg Prod.fst (Except.ok.inj h)
  apply hpart
  rw [← hv]
  split
  · exact List.nil_sublist _
  split
  · exact List.nil_sublist _
  split
  · exact List.nil_sublist _
  split
  · exact List.nil_sublist _
  · exact List.filter_sublist

/-- WHAT IS AVAILABLE: each output that can be spent and is allowed, once. -/
theorem mem_availableCoinsControl {coinControl : Option CCoinControl} {vCoins : List COutput}
    {w' : CachedWallet} (h : w.availableCoinsControl P s nSteps true coinControl = .ok (vCoins, w'))
    (out : COutput) : out ∈ vCoins ↔ out.nDepth = s.walletDepth P out.tx ∧
      ∃ hash, w.Spendable P s nSteps hash out.tx out.i ∧ allowsCoin hash out.i coinControl = true := by
  unfold availableCoinsControl at h
  rcases hpass : Memo.pass Sigma.fst (w.recordCoins P s nSteps true coinControl) w.ordered
    ([], w.cache) with e | ⟨coins, cache⟩
  · rw [hpass] at h
    cases h
  rw [hpass] at h
  cases h
  rw [Memo.mem_pass ordered_nodup hpass]
  constructor
  · rintro (hmem | ⟨e, he, answers, c, hans, hmem⟩)
    · exact absurd hmem List.not_mem_nil
    · obtain ⟨htx, hdepth, hspendable, hallows⟩ := (recordCoins_spec he hans out).mp hmem
      rw [htx]
      exact ⟨hdepth, e.1, hspendable, hallows⟩
  · rintro ⟨hdepth, hash, hspendable, hallows⟩
    have he : (⟨hash, out.tx⟩ : (_ : Uint256) × CWalletTx) ∈ w.ordered := mem_ordered.mpr hspendable.record
    obtain ⟨answers, c, hans⟩ := Memo.pass_asked ordered_nodup hpass he
    exact Or.inr ⟨_, he, answers, c, hans,
      (recordCoins_spec he hans out).mpr ⟨rfl, hdepth, hspendable, hallows⟩⟩

theorem availableCoinsControl_nodup (hkeyed : w.Keyed P) {fOnlyConfirmed : Bool}
    {coinControl : Option CCoinControl} {vCoins : List COutput} {w' : CachedWallet}
    (h : w.availableCoinsControl P s nSteps fOnlyConfirmed coinControl = .ok (vCoins, w')) :
    (vCoins.map COutput.coin).Nodup := by
  unfold availableCoinsControl at h
  rcases hpass : Memo.pass Sigma.fst (w.recordCoins P s nSteps fOnlyConfirmed coinControl) w.ordered
    ([], w.cache) with e | ⟨coins, cache⟩
  · rw [hpass] at h
    cases h
  rw [hpass] at h
  cases h
  rw [List.nodup_iff_pairwise_ne, List.pairwise_map]
  -- records under two keys have two hashes
  have hcross : ∀ hash hash' (out out' : COutput), hash ≠ hash' → w.mapWallet.lookup hash = some out.tx →
      w.mapWallet.lookup hash' = some out'.tx → out.coin ≠ out'.coin := by
    intro hash hash' out out' hne hown hown' heq
    have htx : out.tx = out'.tx := congrArg Prod.fst heq
    have hhash := hkeyed.keyed hash out.tx hown
    rw [htx, hkeyed.keyed hash' out'.tx hown'] at hhash
    exact hne hhash.symm
  refine Memo.pass_pairwise hcross ordered_nodup hpass List.Pairwise.nil
    (fun _ h => absurd h List.not_mem_nil) ?_
  intro e he c answers c' hans
  obtain ⟨hnodup, hown⟩ := recordCoins_nodup hans
  constructor
  · rw [List.nodup_iff_pairwise_ne, List.pairwise_map] at hnodup
    exact hnodup
  · intro out hout
    rw [hown out hout]
    exact mem_ordered.mp he

/-! ## `SelectCoins` -/

variable {chances : Nat → Chances} {nTargetValue : Int} {nSpendTime : UInt32}

theorem selectCoinsConfs_pays {vCoins : List COutput}
    (hcent : int64 (nTargetValue + CENT) = nTargetValue + CENT) (hfits : ∀ out ∈ vCoins, FitsInt64 out.nValue)
    (hdistinct : (vCoins.map COutput.coin).Nodup) {sel : Selection} :
    ∀ (confs : List (Int × Int)) (n : Nat),
      w.selectCoinsConfs P chances nTargetValue nSpendTime vCoins n confs = .ok (some sel) →
      sel.Pays vCoins nTargetValue ∧ sel.Timely nSpendTime := by
  intro confs
  induction confs with
  | nil =>
    intro n hrun
    cases hrun
  | cons conf confs ih =>
    intro n hrun
    rw [selectCoinsConfs] at hrun
    rcases hfirst : w.selectCoinsMinConf P (chances n) nTargetValue nSpendTime conf.1 conf.2 vCoins
      with e | _ | found
    · rw [hfirst] at hrun
      cases hrun
    · rw [hfirst] at hrun
      exact ih (n + 1) hrun
    · rw [hfirst] at hrun
      cases hrun
      exact selectCoinsMinConf_pays hcent hfits hdistinct hfirst

/-- WHAT IS SELECTED: coins out of those available, that pay.  Without coin control they are from before
    the spend; with it they are all of those available. -/
theorem selectCoins_pays (hkeyed : w.Keyed P) (hcent : int64 (nTargetValue + CENT) = nTargetValue + CENT)
    {coinControl : Option CCoinControl} {sel : Selection} {w' : CachedWallet}
    (hrun : w.selectCoins P s nSteps chances nTargetValue nSpendTime coinControl = .ok (some sel, w')) :
    ∃ vCoins, w.availableCoinsControl P s nSteps true coinControl = .ok (vCoins, w') ∧
      sel.Pays vCoins nTargetValue ∧ (selects coinControl = false → sel.Timely nSpendTime) ∧
      (selects coinControl = true → ∀ out ∈ vCoins, out.coin ∈ sel.setCoinsRet) := by
  unfold selectCoins at hrun
  rcases havail : w.availableCoinsControl P s nSteps true coinControl with e | ⟨vCoins, w₁⟩
  · rw [havail] at hrun
    cases hrun
  rw [havail] at hrun
  have hdistinct := availableCoinsControl_nodup hkeyed havail
  have hfits : ∀ out ∈ vCoins, FitsInt64 out.nValue := by
    intro out hout
    obtain ⟨-, hash, hspendable, -⟩ := (mem_availableCoinsControl havail out).mp hout
    obtain ⟨txout, hat, -⟩ := hspendable.output
    rw [COutput.nValue, hat]
    exact hkeyed.values _ _ hspendable.record _ (List.mem_of_getElem? hat)
  have hrun : (if selects coinControl = true then
      (.ok (if (Selection.empty.addAll (vCoins.map COutput.valued)).nValueRet ≥ nTargetValue then
        some (Selection.empty.addAll (vCoins.map COutput.valued)) else none, w₁) : Check _)
    else do
      let sel ← w₁.selectCoinsConfs P chances nTargetValue nSpendTime vCoins 0 [(1, 10), (1, 1), (0, 1)]
      return (sel, w₁)) = .ok (some sel, w') := hrun
  split at hrun
  · rename_i hselects
    have hsel : (if (Selection.empty.addAll (vCoins.map COutput.valued)).nValueRet ≥ nTargetValue then
        some (Selection.empty.addAll (vCoins.map COutput.valued)) else none) = some sel :=
      congrArg Prod.fst (Except.ok.inj hrun)
    obtain rfl : w₁ = w' := congrArg Prod.snd (Except.ok.inj hrun)
    split at hsel
    · rename_i hreach
      cases hsel
      have hnodup : ((vCoins.map COutput.valued).map Prod.snd).Nodup := by
        rw [valued_snd]
        exact hdistinct
      have heq := Selection.addAll_eq64 (vCoins.map COutput.valued) Selection.empty hnodup
        (fun _ _ => List.not_mem_nil) rfl
      refine ⟨vCoins, rfl, ?_, fun h => ?_, fun _ out hout => ?_⟩
      · apply Selection.addAll_pays hdistinct (List.Subperm.refl _)
        rw [heq] at hreach
        have hreach : int64 (0 + _) ≥ nTargetValue := hreach
        rw [zero_add] at hreach
        exact hreach
      · rw [hselects] at h
        cases h
      · rw [heq, valued_snd]
        exact List.mem_append_left _ (List.mem_reverse.mpr (List.mem_map_of_mem hout))
    · cases hsel
  · rename_i hselects
    rcases hconfs : w₁.selectCoinsConfs P chances nTargetValue nSpendTime vCoins 0 [(1, 10), (1, 1), (0, 1)]
      with e | found
    · rw [hconfs] at hrun
      cases hrun
    · rw [hconfs] at hrun
      cases hrun
      obtain ⟨hpays, htimely⟩ := selectCoinsConfs_pays hcent hfits hdistinct _ _ hconfs
      exact ⟨vCoins, rfl, hpays, fun _ => htimely, fun h => absurd h hselects⟩

end CachedWallet

end Silkcoin
