/-
  COIN AGE AND THE REWARD FOR IT: how far the arithmetic is exact.

  `GetCoinAge` adds up amount times age over the inputs in a BIGNUM, in cent-seconds, and brings the sum
  down to coin-days.  With no more money than there is, that number is far below 2^64, so what it returns
  is exact.

  `GetProofOfStakeReward` multiplies the coin-days by two million and by 33 in plain `int64_t`, and only
  then divides.  Money and age together are not bounded well enough for that: two thousand million coins
  are old enough after seventy days.  `stakeReward_exact_iff` says which inputs are safe.
-/
import Silkcoin.ConnectBlock

namespace Silkcoin

open Validation BatchStore

namespace CTransaction

variable (g : Globals) (txdb : CTxDB) (tx : CTransaction)

/-- The amount behind an input that is in the index. -/
def inputAmount (txin : CTxIn) : Option Int :=
  (txdb.readPrevTx g.files txin.prevout).map fun r =>
    ((r.1.vout[txin.prevout.n.toNat]?).map CTxOut.nValue).getD 0

/-- The amounts of the inputs. -/
def inputAmounts : List Int := tx.vin.filterMap (inputAmount g txdb)

/-- The cent-seconds of one input: its amount times its age, if it is in the index and old enough. -/
def inputCentSeconds (txin : CTxIn) : Int :=
  match txdb.readPrevTx g.files txin.prevout with
  | none => 0
  | some (txPrev, txindex) =>
    match g.files.readHeader txindex.pos.nFile txindex.pos.nBlockPos with
    | none => 0
    | some header =>
      if header.getBlockTime + g.nStakeMinAge > tx.nTime.toNat then 0
      else ((txPrev.vout[txin.prevout.n.toNat]?).map CTxOut.nValue).getD 0 *
        (tx.nTime - txPrev.nTime).toNat / CENT

/-- The cent-seconds of all of them. -/
def centSeconds : Int := (tx.vin.map (inputCentSeconds g txdb tx)).sum

end CTransaction

/-- The reward for `nCoinAge` coin-days, without rounding errors but the last. -/
def exactStakeReward (nCoinAge nFees : Int) : Int :=
  nCoinAge * COIN_YEAR_REWARD * 33 / (365 * 33 + 8) + nFees

/-- `GetProofOfStakeReward` computes the exact reward, and nothing on the way overflows: neither the
    conversion from `uint64_t`, nor the two products, nor the sum. -/
structure StakeRewardExact (nCoinAge : Nat) (nFees : Int) : Prop where
  converted : FitsInt64 nCoinAge
  product : FitsInt64 (nCoinAge * COIN_YEAR_REWARD)
  product33 : FitsInt64 (nCoinAge * COIN_YEAR_REWARD * 33)
  sum : FitsInt64 (exactStakeReward nCoinAge nFees)
  reward : getProofOfStakeReward (int64 nCoinAge) nFees = exactStakeReward nCoinAge nFees

/-! ## The coin age is exact -/

namespace CTransaction

variable {g : Globals} {txdb : CTxDB} {tx : CTransaction}

/-- What an input of an amount in range adds, and that it is no more than the amount times 2^32. -/
theorem inputCentSeconds_range {txin : CTxIn}
    (hrange : ∀ v, inputAmount g txdb txin = some v → moneyRange v = true) :
    0 ≤ inputCentSeconds g txdb tx txin ∧
      inputCentSeconds g txdb tx txin * CENT ≤ (inputAmount g txdb txin).getD 0 * 4294967296 := by
  unfold inputCentSeconds inputAmount
  unfold inputAmount at hrange
  rcases hread : txdb.readPrevTx g.files txin.prevout with _ | ⟨txPrev, txindex⟩
  · simp
  rw [hread] at hrange
  have hv := moneyRange_iff.1 (hrange _ rfl)
  dsimp only at hv
  simp only [Option.map_some, Option.getD_some]
  generalize ((txPrev.vout[txin.prevout.n.toNat]?).map CTxOut.nValue).getD 0 = v at hv ⊢
  have hzero : (0 : Int) ≤ 0 ∧ 0 * CENT ≤ v * 4294967296 := by
    rw [zero_mul]
    omega
  split
  · exact hzero
  split
  · exact hzero
  have hage : ((tx.nTime - txPrev.nTime).toNat : Int) ≤ 4294967296 := by
    exact_mod_cast (tx.nTime - txPrev.nTime).toNat_lt.le
  constructor
  · exact Int.ediv_nonneg (mul_nonneg hv.1 (Int.natCast_nonneg _)) (by decide)
  · calc v * (tx.nTime - txPrev.nTime).toNat / CENT * CENT
        ≤ v * (tx.nTime - txPrev.nTime).toNat := Int.ediv_mul_le _ (by decide)
      _ ≤ v * 4294967296 := mul_le_mul_of_nonneg_left hage hv.1

/-- The same of all inputs together. -/
theorem centSeconds_range (hrange : ∀ v ∈ inputAmounts g txdb tx, moneyRange v = true) :
    0 ≤ centSeconds g txdb tx ∧
      centSeconds g txdb tx * CENT ≤ (inputAmounts g txdb tx).sum * 4294967296 := by
  unfold centSeconds
  unfold inputAmounts at hrange ⊢
  revert hrange
  induction tx.vin with
  | nil =>
    intro _
    simp
  | cons txin vin ih =>
    intro hrange
    have hone := @inputCentSeconds_range g txdb tx txin fun v hv =>
      hrange v (List.mem_filterMap.2 ⟨txin, by simp, hv⟩)
    have hrest := ih fun v hv => by
      obtain ⟨t, ht, htv⟩ := List.mem_filterMap.1 hv
      exact hrange v (List.mem_filterMap.2 ⟨t, by simp [ht], htv⟩)
    have hsum : ((txin :: vin).filterMap (inputAmount g txdb)).sum =
        (inputAmount g txdb txin).getD 0 + (vin.filterMap (inputAmount g txdb)).sum := by
      rcases hamount : inputAmount g txdb txin with _ | v
      · rw [List.filterMap_cons_none hamount]
        simp
      · rw [List.filterMap_cons_some hamount]
        simp
    rw [hsum, List.map_cons, List.sum_cons, add_mul, add_mul]
    omega

/-- One turn of the loop, if it does not give up. -/
theorem addCoinAge_ok {bnCentSecond r : Int} {txin : CTxIn}
    (hrange : ∀ v, inputAmount g txdb txin = some v → moneyRange v = true)
    (h : tx.addCoinAge g txdb bnCentSecond txin = .ok r) :
    r = bnCentSecond + inputCentSeconds g txdb tx txin := by
  unfold addCoinAge at h
  unfold inputCentSeconds
  unfold inputAmount at hrange
  rcases hread : txdb.readPrevTx g.files txin.prevout with _ | ⟨txPrev, txindex⟩
  · rw [hread] at h
    cases h
    simp
  rw [hread] at h hrange
  dsimp only at h ⊢
  obtain ⟨_, -, h⟩ := bind_ok.1 h
  have hv := moneyRange_iff.1 (hrange _ rfl)
  dsimp only at hv
  rcases hheader : g.files.readHeader txindex.pos.nFile txindex.pos.nBlockPos with _ | header
  · rw [hheader] at h
    cases h
  rw [hheader] at h
  dsimp only at h ⊢
  split at h
  · rename_i hyoung
    cases h
    rw [if_pos hyoung, add_zero]
  · rename_i hold
    cases h
    rw [if_neg hold, Int.tdiv_eq_ediv_of_nonneg (mul_nonneg hv.1 (Int.natCast_nonneg _))]

/-- THE COIN AGE IS EXACT: the bignum holds the cent-seconds, and what is read out of it fits. -/
theorem getCoinAge_exact (hcb : tx.isCoinBase = false)
    (hrange : ∀ v ∈ inputAmounts g txdb tx, moneyRange v = true)
    (htotal : (inputAmounts g txdb tx).sum ≤ MAX_MONEY) {nCoinAge : Nat}
    (h : tx.getCoinAge g txdb = .ok nCoinAge) :
    nCoinAge < 2 ^ 64 ∧ (nCoinAge : Int) = centSeconds g txdb tx / 8640000 := by
  have hcent : CENT = 1000000 := rfl
  have hcoin : COIN = 100000000 := rfl
  have hmax : MAX_MONEY = 200000000000000000 := by decide
  have hloop : ∀ (vin : List CTxIn) (acc r : Int),
      (∀ v ∈ vin.filterMap (inputAmount g txdb), moneyRange v = true) →
      vin.foldlM (addCoinAge g tx txdb) acc = .ok r →
      r = acc + (vin.map (inputCentSeconds g txdb tx)).sum := by
    intro vin
    induction vin with
    | nil =>
      intro acc r _ hr
      cases hr
      simp
    | cons txin vin ih =>
      intro acc r hall hr
      rw [List.foldlM_cons] at hr
      obtain ⟨acc', hstep, hr⟩ := bind_ok.1 hr
      have hone := addCoinAge_ok (fun v hv => hall v (List.mem_filterMap.2 ⟨txin, by simp, hv⟩)) hstep
      have hrest := ih acc' r (fun v hv => by
        obtain ⟨t, ht, htv⟩ := List.mem_filterMap.1 hv
        exact hall v (List.mem_filterMap.2 ⟨t, by simp [ht], htv⟩)) hr
      rw [hrest, hone, List.map_cons, List.sum_cons]
      omega
  unfold getCoinAge at h
  rw [if_neg (by rw [hcb]; exact Bool.false_ne_true)] at h
  obtain ⟨bnCentSecond, hrun, h⟩ := bind_ok.1 h
  have hsum := hloop tx.vin 0 bnCentSecond hrange hrun
  rw [zero_add] at hsum
  change bnCentSecond = centSeconds g txdb tx at hsum
  obtain ⟨hlo, hhi⟩ := centSeconds_range hrange
  rw [hcent] at hhi
  cases h
  rw [hsum, hcent, hcoin]
  generalize centSeconds g txdb tx = n at hlo hhi
  have hdays : (n * 1000000).tdiv 100000000 = n / 100 := by
    rw [Int.tdiv_eq_ediv_of_nonneg (by omega)]
    omega
  rw [hdays, Int.tdiv_eq_ediv_of_nonneg (by omega)]
  unfold getuint64
  omega

end CTransaction

/-! ## The reward is not -/

/-- Up to this many coin-days the products fit. -/
theorem stakeRewardExact_iff {nCoinAge : Nat} {nFees : Int} (hfees : FitsInt64 nFees) :
    StakeRewardExact nCoinAge nFees ↔
      nCoinAge < 139748061165 ∧ exactStakeReward nCoinAge nFees < 9223372036854775808 := by
  have hyear : COIN_YEAR_REWARD = 2000000 := by decide
  obtain ⟨hlo, -⟩ := hfees
  constructor
  · intro h
    have h33 := h.product33.2
    rw [hyear] at h33
    exact ⟨by omega, h.sum.2⟩
  · rintro ⟨hage, hsum⟩
    have hconverted : FitsInt64 nCoinAge := ⟨by omega, by omega⟩
    have hproduct : FitsInt64 (nCoinAge * COIN_YEAR_REWARD) := by
      rw [hyear]
      exact ⟨by omega, by omega⟩
    have hproduct33 : FitsInt64 (nCoinAge * COIN_YEAR_REWARD * 33) := by
      rw [hyear]
      exact ⟨by omega, by omega⟩
    have hfits : FitsInt64 (exactStakeReward nCoinAge nFees) := by
      refine ⟨?_, hsum⟩
      unfold exactStakeReward
      rw [hyear]
      omega
    refine ⟨hconverted, hproduct, hproduct33, hfits, ?_⟩
    have hnonneg : (0 : Int) ≤ nCoinAge * COIN_YEAR_REWARD * 33 := by
      rw [hyear]
      omega
    unfold getProofOfStakeReward stakeSubsidy
    rw [hconverted.int64_eq, hproduct.int64_eq, hproduct33.int64_eq,
      Int.tdiv_eq_ediv_of_nonneg hnonneg]
    exact hfits.int64_eq

/-- WHEN THE ARITHMETIC IS EXACT.  The coin age always is; the reward exactly if the inputs have fewer
    than 139748061165 coin-days in cent-seconds, and the fees do not push the reward past the range. -/
theorem stakeReward_exact_iff (g : Globals) (txdb : CTxDB) (tx : CTransaction) (nFees : Int)
    (nCoinAge : Nat) (hstake : tx.isCoinStake = true)
    (hrange : ∀ v ∈ tx.inputAmounts g txdb, moneyRange v = true)
    (htotal : (tx.inputAmounts g txdb).sum ≤ MAX_MONEY) (hfees : FitsInt64 nFees)
    (hage : tx.getCoinAge g txdb = .ok nCoinAge) :
    (nCoinAge < 2 ^ 64 ∧ (nCoinAge : Int) = tx.centSeconds g txdb * CENT / COIN / (24 * 60 * 60) ∧
      StakeRewardExact nCoinAge nFees) ↔
    tx.centSeconds g txdb < 139748061165 * 8640000 ∧
      exactStakeReward (tx.centSeconds g txdb / 8640000) nFees < 9223372036854775808 := by
  have hcb : tx.isCoinBase = false := by
    by_contra h
    have hnot := tx.not_isCoinStake_of_isCoinBase (by simpa using h)
    rw [hnot] at hstake
    cases hstake
  have hcent : CENT = 1000000 := rfl
  have hcoin : COIN = 100000000 := rfl
  obtain ⟨hfits, hexact⟩ := CTransaction.getCoinAge_exact hcb hrange htotal hage
  rw [stakeRewardExact_iff hfees, ← hexact, hcent, hcoin]
  constructor
  · rintro ⟨-, -, hless, hsum⟩
    exact ⟨by omega, hsum⟩
  · rintro ⟨hless, hsum⟩
    exact ⟨hfits, by omega, by omega, hsum⟩

/-! ## Two thousand million coins after seventy days -/

namespace Whale

/-- A transaction with all the money there may be. -/
def txPrev : CTransaction where
  nVersion := 1
  nTime := 1400000000
  vin := []
  vout := [⟨MAX_MONEY, []⟩]
  nLockTime := 0

/-- Its output staked after some days. -/
def coinStake (days : UInt32) : CTransaction where
  nVersion := 1
  nTime := 1400000000 + days * 86400
  vin := [⟨⟨1, 0⟩, [], 0⟩]
  vout := [⟨0, []⟩, ⟨MAX_MONEY, []⟩]
  nLockTime := 0

def globals : Globals where
  fTestNet := false
  nAdjustedTime := 1500000000
  pindexBest := []
  nBestHeight := 0
  mempool _ := none
  files :=
    { tx := fun nFile nTxPos => if nFile = 1 ∧ nTxPos = 381 then some txPrev else none
      block := fun _ _ => none
      header := fun nFile nBlockPos =>
        if nFile = 1 ∧ nBlockPos = 300 then some ⟨6, 0, 0, 1400000000, 0, 0⟩ else none }

def txdb : CTxDB := (⟨∅, none⟩ : CTxDB).updateTxIndex 1 (CTxIndex.new ⟨1, 300, 381⟩ 1)

/-- What the whale has, what it is old enough for, and what the two functions make of it. -/
theorem ages (days : UInt32) (h : days = 69 ∨ days = 70) :
    (coinStake days).isCoinStake = true ∧
    (coinStake days).inputAmounts globals txdb = [MAX_MONEY] ∧
    (coinStake days).getCoinAge globals txdb = .ok (2000000000 * days.toNat) := by
  rcases h with rfl | rfl
  · decide
  · decide

theorem amounts_ok {days : UInt32} (h : days = 69 ∨ days = 70) :
    (∀ v ∈ (coinStake days).inputAmounts globals txdb, moneyRange v = true) ∧
      ((coinStake days).inputAmounts globals txdb).sum ≤ MAX_MONEY := by
  rw [(ages days h).2.1]
  decide

/-- After sixty-nine days all is well. -/
theorem stakeReward_exact_iff_69 :
    (138000000000 < 2 ^ 64 ∧
      ((138000000000 : Nat) : Int) = (coinStake 69).centSeconds globals txdb * CENT / COIN / (24 * 60 * 60) ∧
      StakeRewardExact 138000000000 0) ↔
    (coinStake 69).centSeconds globals txdb < 139748061165 * 8640000 ∧
      exactStakeReward ((coinStake 69).centSeconds globals txdb / 8640000) 0 < 9223372036854775808 :=
  stakeReward_exact_iff globals txdb (coinStake 69) 0 138000000000 (ages 69 (Or.inl rfl)).1
    (amounts_ok (Or.inl rfl)).1 (amounts_ok (Or.inl rfl)).2 (by decide) (ages 69 (Or.inl rfl)).2.2

/-- The next day the reward is negative. -/
theorem stakeReward_overflows :
    (coinStake 70).isCoinStake = true ∧
    (∀ v ∈ (coinStake 70).inputAmounts globals txdb, moneyRange v = true) ∧
    ((coinStake 70).inputAmounts globals txdb).sum ≤ MAX_MONEY ∧
    (coinStake 70).getCoinAge globals txdb = .ok 140000000000 ∧
    getProofOfStakeReward (int64 140000000000) 0 = -763854979980880 ∧
    exactStakeReward 140000000000 0 = 766614120965734 ∧
    ¬ StakeRewardExact 140000000000 0 := by
  obtain ⟨hstake, -, hage⟩ := ages 70 (Or.inr rfl)
  obtain ⟨hrange, htotal⟩ := amounts_ok (Or.inr rfl)
  refine ⟨hstake, hrange, htotal, hage, by decide, by decide, ?_⟩
  intro h
  exact absurd h.product33 (by decide)

end Whale

end Silkcoin
