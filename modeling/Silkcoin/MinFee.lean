/-
  `GetMinFee` on the MACHINE: what a transaction of a size pays in a block of a size.

  The fee is a base fee for every started kilobyte, and from half of the block size on it is multiplied by
  how full the block has become.  `getMinFee32` is the routine with everything that can go wrong in it: a
  product that is no `int64_t`, a division by zero, and the sum of the two sizes, which is an `unsigned
  int`.  For sizes up to `MAX_BLOCK_SIZE` nothing does, and `getMinFee` is what it returns
  (`getMinFee32_eq`).

  Both steps go up with the sizes, and the last one is the end: a full block costs all the money there is.
-/
import Silkcoin.Transaction

namespace Silkcoin

open Validation

/-- The result of a computation on `int64_t`, if there is no overflow. -/
def fit64 (x : Int) : Option Int := if FitsInt64 x then some x else none

/-- A quotient of two `unsigned int`, if the divisor is not zero. -/
def divide32 (n d : UInt32) : Option UInt32 := if d = 0 then none else some (n / d)

theorem fit64_of_range {x : Int} (hlo : -9223372036854775808 ≤ x) (hhi : x < 9223372036854775808) :
    fit64 x = some x := if_pos ⟨hlo, hhi⟩

namespace CTransaction

/-- `MIN_TX_FEE` or `MIN_RELAY_TX_FEE`. -/
def baseFee (mode : GetMinFee_mode) : Int := if mode = .GMF_RELAY then MIN_RELAY_TX_FEE else MIN_TX_FEE

theorem baseFee_eq (mode : GetMinFee_mode) : baseFee mode = 10000 := by
  unfold baseFee
  split
  · rfl
  · rfl

/-- `GetMinFee`, with every operation on its own type. -/
def getMinFee32 (tx : CTransaction) (nBlockSize : UInt32) (mode : GetMinFee_mode) (nBytes : UInt32) :
    Option Int := do
  let nBaseFee := baseFee mode
  let nNewBlockSize := nBlockSize + nBytes
  let nKilobytes ← fit64 (1 + (nBytes.toNat : Int).tdiv 1000)
  let nMinFee ← fit64 (nKilobytes * nBaseFee)
  let nMinFee :=
    if nMinFee < nBaseFee ∧ ∃ txout ∈ tx.vout, txout.nValue < CENT then nBaseFee else nMinFee
  if nBlockSize ≠ 1 ∧ nNewBlockSize.toNat ≥ MAX_BLOCK_SIZE_GEN / 2 then
    if nNewBlockSize.toNat ≥ MAX_BLOCK_SIZE_GEN then some MAX_MONEY
    else do
      let nFullness ← divide32 (UInt32.ofNat MAX_BLOCK_SIZE_GEN) (UInt32.ofNat MAX_BLOCK_SIZE_GEN - nNewBlockSize)
      let nMinFee ← fit64 (nMinFee * nFullness.toNat)
      some (if moneyRange nMinFee then nMinFee else MAX_MONEY)
  else some (if moneyRange nMinFee then nMinFee else MAX_MONEY)

/-! ## The two steps -/

/-- What the fee is multiplied by when the block has `nNewBlockSize` bytes. -/
def fullness (nNewBlockSize : Nat) : Nat :=
  if nNewBlockSize ≥ 250000 then 500000 / (500000 - nNewBlockSize) else 1

theorem fullness_mono {m n : Nat} (h : m ≤ n) (hn : n < 500000) : fullness m ≤ fullness n := by
  unfold fullness
  by_cases hm : m ≥ 250000
  · rw [if_pos hm, if_pos (by omega)]
    exact Nat.div_le_div_left (by omega) (by omega)
  · rw [if_neg hm]
    split
    · exact (Nat.le_div_iff_mul_le (by omega)).mpr (by omega)
    · exact Nat.le_refl 1

theorem one_le_fullness {n : Nat} (hn : n < 500000) : 1 ≤ fullness n := fullness_mono (Nat.zero_le n) hn

theorem fullness_le (n : Nat) : fullness n ≤ 500000 := by
  unfold fullness
  split
  · exact Nat.div_le_self _ _
  · decide

/-- Kilobytes times base fee times fullness, as long as the block is not full. -/
def feeOf (nBlockSize nBytes : Nat) : Int :=
  if nBlockSize + nBytes ≥ 500000 then MAX_MONEY
  else (((1 + nBytes / 1000) * 10000 * fullness (nBlockSize + nBytes) : Nat) : Int)

theorem feeOf_bounds (nBlockSize nBytes : Nat) :
    10000 ≤ feeOf nBlockSize nBytes ∧ feeOf nBlockSize nBytes ≤ MAX_MONEY := by
  have hmax : MAX_MONEY = 200000000000000000 := by decide
  unfold feeOf
  split
  · omega
  · rename_i hroom
    have hone := one_le_fullness (Nat.lt_of_not_le hroom)
    have hle := fullness_le (nBlockSize + nBytes)
    have hlow : 1 * 10000 * 1 ≤ (1 + nBytes / 1000) * 10000 * fullness (nBlockSize + nBytes) :=
      Nat.mul_le_mul (Nat.mul_le_mul_right 10000 (by omega)) hone
    have hhigh : (1 + nBytes / 1000) * 10000 * fullness (nBlockSize + nBytes) ≤ 501 * 10000 * 500000 :=
      Nat.mul_le_mul (Nat.mul_le_mul_right 10000 (by omega)) hle
    omega

theorem feeOf_mono {m m' n n' : Nat} (hm : m ≤ m') (hn : n ≤ n') : feeOf m n ≤ feeOf m' n' := by
  by_cases hfull : m' + n' ≥ 500000
  · have hend : feeOf m' n' = MAX_MONEY := if_pos hfull
    rw [hend]
    exact (feeOf_bounds m n).2
  · unfold feeOf
    rw [if_neg hfull, if_neg (by omega)]
    have hstep : fullness (m + n) ≤ fullness (m' + n') := fullness_mono (by omega) (by omega)
    have hkilobytes : 1 + n / 1000 ≤ 1 + n' / 1000 := Nat.add_le_add_left (Nat.div_le_div_right hn) 1
    exact Int.ofNat_le.mpr (Nat.mul_le_mul (Nat.mul_le_mul_right 10000 hkilobytes) hstep)

/-! ## What the routine returns -/

/-- The surcharge for dust never applies: every transaction pays for a kilobyte at least. -/
theorem no_surcharge (tx : CTransaction) (nBytes : Nat) :
    ¬ ((1 + (nBytes / 1000 : Nat) : Int) * 10000 < 10000 ∧ ∃ txout ∈ tx.vout, txout.nValue < CENT) := by
  rintro ⟨hlt, -⟩
  omega

theorem getMinFee_eq (tx : CTransaction) {nBlockSize : Nat} (mode : GetMinFee_mode) (nBytes : Nat)
    (hone : nBlockSize ≠ 1) : tx.getMinFee nBlockSize mode nBytes = feeOf nBlockSize nBytes := by
  have hgen : MAX_BLOCK_SIZE_GEN = 500000 := by decide
  have hbase : (if mode = .GMF_RELAY then MIN_RELAY_TX_FEE else MIN_TX_FEE) = 10000 := baseFee_eq mode
  have hbounds := feeOf_bounds nBlockSize nBytes
  have hrange : moneyRange (feeOf nBlockSize nBytes) = true := decide_eq_true ⟨by omega, hbounds.2⟩
  unfold getMinFee
  dsimp only
  rw [hbase, if_neg (no_surcharge tx nBytes), hgen]
  by_cases hfull : nBlockSize + nBytes ≥ 500000
  · rw [if_pos ⟨hone, by omega, hfull⟩]
    exact (if_pos hfull).symm
  · have hfee : feeOf nBlockSize nBytes =
        (((1 + nBytes / 1000) * 10000 * fullness (nBlockSize + nBytes) : Nat) : Int) := if_neg hfull
    have hmax : MAX_MONEY = 200000000000000000 := by decide
    have hscaled : (if nBlockSize ≠ 1 ∧ nBlockSize + nBytes ≥ 500000 / 2 then
        int64 ((1 + (nBytes / 1000 : Nat) : Int) * 10000 *
          (500000 / (500000 - (nBlockSize + nBytes)) : Nat))
        else (1 + (nBytes / 1000 : Nat) : Int) * 10000) = feeOf nBlockSize nBytes := by
      by_cases hhalf : nBlockSize + nBytes ≥ 500000 / 2
      · have hstep : fullness (nBlockSize + nBytes) = 500000 / (500000 - (nBlockSize + nBytes)) :=
          if_pos hhalf
        have hproduct : (1 + (nBytes / 1000 : Nat) : Int) * 10000 *
            (500000 / (500000 - (nBlockSize + nBytes)) : Nat) = feeOf nBlockSize nBytes := by
          rw [hfee, hstep]
          push_cast
          rfl
        rw [if_pos ⟨hone, hhalf⟩, hproduct, int64_of_range (by omega) (by omega)]
      · have hstep : fullness (nBlockSize + nBytes) = 1 := if_neg hhalf
        rw [if_neg (fun h => hhalf h.2), hfee, hstep]
        omega
    rw [if_neg (fun h => hfull h.2.2), hscaled, if_pos hrange]

/-- On the machine nothing overflows, and nothing is divided by zero. -/
theorem getMinFee32_eq (tx : CTransaction) {nBlockSize nBytes : UInt32} (mode : GetMinFee_mode)
    (hone : nBlockSize ≠ 1) (hsize : nBlockSize.toNat ≤ MAX_BLOCK_SIZE)
    (hbytes : nBytes.toNat ≤ MAX_BLOCK_SIZE) :
    tx.getMinFee32 nBlockSize mode nBytes = some (feeOf nBlockSize.toNat nBytes.toNat) := by
  have hgen : MAX_BLOCK_SIZE_GEN = 500000 := by decide
  have hmaxsize : MAX_BLOCK_SIZE = 1000000 := rfl
  have hmax : MAX_MONEY = 200000000000000000 := by decide
  have hbounds := feeOf_bounds nBlockSize.toNat nBytes.toNat
  have hrange : moneyRange (feeOf nBlockSize.toNat nBytes.toNat) = true :=
    decide_eq_true ⟨by omega, hbounds.2⟩
  have hsum : (nBlockSize + nBytes).toNat = nBlockSize.toNat + nBytes.toNat := by
    rw [UInt32.toNat_add]
    omega
  have hdiv : (nBytes.toNat : Int).tdiv 1000 = (nBytes.toNat / 1000 : Nat) := rfl
  unfold getMinFee32
  rw [baseFee_eq, hdiv, fit64_of_range (by omega) (by omega), Option.bind_eq_bind, Option.bind_some,
    fit64_of_range (by omega) (by omega), Option.bind_eq_bind, Option.bind_some]
  dsimp only
  rw [if_neg (no_surcharge tx nBytes.toNat), hgen, hsum]
  by_cases hfull : nBlockSize.toNat + nBytes.toNat ≥ 500000
  · rw [if_pos ⟨hone, by omega⟩, if_pos hfull]
    exact congrArg some (if_pos hfull).symm
  · have hfee : feeOf nBlockSize.toNat nBytes.toNat =
        (((1 + nBytes.toNat / 1000) * 10000 * fullness (nBlockSize.toNat + nBytes.toNat) : Nat) : Int) :=
      if_neg hfull
    by_cases hhalf : nBlockSize.toNat + nBytes.toNat ≥ 500000 / 2
    · rw [if_pos ⟨hone, hhalf⟩, if_neg hfull]
      -- there is room in the block, so the divisor is not zero
      have hroom : (500000 - (nBlockSize + nBytes) : UInt32).toNat =
          500000 - (nBlockSize.toNat + nBytes.toNat) := by
        rw [UInt32.toNat_sub_of_le _ _ (UInt32.le_iff_toNat_le.mpr (by rw [hsum]; show _ ≤ 500000; omega)), hsum]
        rfl
      have hquotient : divide32 (UInt32.ofNat 500000) (UInt32.ofNat 500000 - (nBlockSize + nBytes)) =
          some (500000 / (500000 - (nBlockSize + nBytes))) := by
        refine if_neg fun hzero => ?_
        have := congrArg UInt32.toNat hzero
        rw [show (UInt32.ofNat 500000 - (nBlockSize + nBytes)).toNat = _ from hroom] at this
        have hnone : (0 : UInt32).toNat = 0 := rfl
        omega
      have hproduct : (1 + (nBytes.toNat / 1000 : Nat) : Int) * 10000 *
          ((500000 / (500000 - (nBlockSize + nBytes)) : UInt32).toNat : Int) =
            feeOf nBlockSize.toNat nBytes.toNat := by
        have hstep : fullness (nBlockSize.toNat + nBytes.toNat) =
            500000 / (500000 - (nBlockSize.toNat + nBytes.toNat)) := if_pos hhalf
        rw [hfee, hstep, UInt32.toNat_div, hroom]
        push_cast
        rfl
      rw [hquotient, Option.bind_some, hproduct, fit64_of_range (by omega) (by omega), Option.bind_some,
        if_pos hrange]
    · have hstep : fullness (nBlockSize.toNat + nBytes.toNat) = 1 := if_neg hhalf
      have hproduct : (1 + (nBytes.toNat / 1000 : Nat) : Int) * 10000 =
          feeOf nBlockSize.toNat nBytes.toNat := by
        rw [hfee, hstep]
        omega
      rw [if_neg (fun h => hhalf h.2), hproduct, if_pos hrange]

end CTransaction

/-- **`GetMinFee` is well behaved.**  For sizes up to `MAX_BLOCK_SIZE` it overflows nowhere and divides by
    no zero, it stays between the base fee and `MAX_MONEY`, and it does not fall when a transaction or the
    block gets larger. -/
theorem getMinFee_monotone (tx : CTransaction) (mode : CTransaction.GetMinFee_mode)
    {nBlockSize nBytes : UInt32} (hone : nBlockSize ≠ 1) (hsize : nBlockSize.toNat ≤ MAX_BLOCK_SIZE)
    (hbytes : nBytes.toNat ≤ MAX_BLOCK_SIZE) :
    ∃ nMinFee, tx.getMinFee32 nBlockSize mode nBytes = some nMinFee ∧
      tx.getMinFee nBlockSize.toNat mode nBytes.toNat = nMinFee ∧
      CTransaction.baseFee mode ≤ nMinFee ∧ nMinFee ≤ MAX_MONEY ∧
      (∀ nBytes', nBytes ≤ nBytes' → nBytes'.toNat ≤ MAX_BLOCK_SIZE →
        ∃ nMinFee', tx.getMinFee32 nBlockSize mode nBytes' = some nMinFee' ∧ nMinFee ≤ nMinFee') ∧
      (∀ nBlockSize', nBlockSize ≤ nBlockSize' → nBlockSize' ≠ 1 → nBlockSize'.toNat ≤ MAX_BLOCK_SIZE →
        ∃ nMinFee', tx.getMinFee32 nBlockSize' mode nBytes = some nMinFee' ∧ nMinFee ≤ nMinFee') := by
  have honeNat : nBlockSize.toNat ≠ 1 := fun h => hone (UInt32.toNat_inj.mp h)
  obtain ⟨hlow, hhigh⟩ := CTransaction.feeOf_bounds nBlockSize.toNat nBytes.toNat
  refine ⟨_, tx.getMinFee32_eq mode hone hsize hbytes, tx.getMinFee_eq mode _ honeNat, ?_, hhigh, ?_, ?_⟩
  · rw [CTransaction.baseFee_eq]
    exact hlow
  · intro nBytes' hle hbytes'
    exact ⟨_, tx.getMinFee32_eq mode hone hsize hbytes',
      CTransaction.feeOf_mono (Nat.le_refl _) (UInt32.le_iff_toNat_le.mp hle)⟩
  · intro nBlockSize' hle hone' hsize'
    exact ⟨_, tx.getMinFee32_eq mode hone' hsize' hbytes,
      CTransaction.feeOf_mono (UInt32.le_iff_toNat_le.mp hle) (Nat.le_refl _)⟩

/-- An ordinary transaction of 250 bytes in an almost empty block, and larger ones. -/
theorem getMinFee_monotone_small :
    ∃ nMinFee, (⟨1, 0, [], [], 0⟩ : CTransaction).getMinFee32 1000 .GMF_RELAY 250 = some nMinFee ∧
      (⟨1, 0, [], [], 0⟩ : CTransaction).getMinFee 1000 .GMF_RELAY 250 = nMinFee ∧
      CTransaction.baseFee .GMF_RELAY ≤ nMinFee ∧ nMinFee ≤ MAX_MONEY ∧
      (∀ nBytes', 250 ≤ nBytes' → nBytes'.toNat ≤ MAX_BLOCK_SIZE →
        ∃ nMinFee', (⟨1, 0, [], [], 0⟩ : CTransaction).getMinFee32 1000 .GMF_RELAY nBytes' = some nMinFee' ∧
          nMinFee ≤ nMinFee') ∧
      (∀ nBlockSize', 1000 ≤ nBlockSize' → nBlockSize' ≠ 1 → nBlockSize'.toNat ≤ MAX_BLOCK_SIZE →
        ∃ nMinFee', (⟨1, 0, [], [], 0⟩ : CTransaction).getMinFee32 nBlockSize' .GMF_RELAY 250 = some nMinFee' ∧
          nMinFee ≤ nMinFee') :=
  getMinFee_monotone _ _ (by decide) (by decide) (by decide)

end Silkcoin
