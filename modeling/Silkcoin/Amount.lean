/-
  Amounts: `int64_t` arithmetic, the money range and the two block rewards.

  An `int64_t` is an `Int`, and every addition or multiplication the source performs on one is
  followed by `int64`, the two's-complement wrap.  Where a range check makes the wrap the identity
  (`int64_of_range`) the proofs drop it; where no check does — the block-wide sums of values and
  fees — it stays, and what the code then compares is the wrapped sum.
-/
import Mathlib.Algebra.Order.Ring.Int
import Mathlib.Tactic.NormNum

namespace Silkcoin

/-! ## `int64_t` -/

/-- The value an `int64_t` holds after a computation whose exact result is `x`. -/
def int64 (x : Int) : Int := x.bmod (2 ^ 64)

theorem int64_def (x : Int) :
    int64 x = if x % 18446744073709551616 < 9223372036854775808 then x % 18446744073709551616
      else x % 18446744073709551616 - 18446744073709551616 := by
  unfold int64 Int.bmod
  norm_num

theorem int64_of_range {x : Int} (hlo : -9223372036854775808 ≤ x) (hhi : x < 9223372036854775808) :
    int64 x = x := by
  rw [int64_def]; split <;> omega

theorem int64_lower (x : Int) : -9223372036854775808 ≤ int64 x := by
  rw [int64_def]; split <;> omega

theorem int64_upper (x : Int) : int64 x < 9223372036854775808 := by
  rw [int64_def]; split <;> omega

/-- The wrap never raises a value that is not already below the range. -/
theorem int64_le {x : Int} (hlo : -9223372036854775808 ≤ x) : int64 x ≤ x := by
  rw [int64_def]; split <;> omega

/-- An intermediate wrap does not matter to the final one. -/
@[simp] theorem int64_add_left (x y : Int) : int64 (int64 x + y) = int64 (x + y) :=
  Int.bmod_add_bmod

@[simp] theorem int64_add_right (x y : Int) : int64 (x + int64 y) = int64 (x + y) :=
  Int.add_bmod_bmod

@[simp] theorem int64_sub_left (x y : Int) : int64 (int64 x - y) = int64 (x - y) :=
  Int.bmod_sub_bmod

@[simp] theorem int64_sub_right (x y : Int) : int64 (x - int64 y) = int64 (x - y) :=
  Int.sub_bmod_bmod

@[simp] theorem int64_int64 (x : Int) : int64 (int64 x) = int64 x :=
  int64_of_range (int64_lower x) (int64_upper x)

/-- Equal up to wrapping, and the same added to both. -/
theorem int64_add_congr {x y : Int} (h : int64 x = int64 y) (d : Int) :
    int64 (x + d) = int64 (y + d) := by
  rw [← int64_add_left x, h, int64_add_left]

/-- The exact result `x` fits: the computation does not overflow. -/
def FitsInt64 (x : Int) : Prop := -9223372036854775808 ≤ x ∧ x < 9223372036854775808

instance (x : Int) : Decidable (FitsInt64 x) := inferInstanceAs (Decidable (_ ∧ _))

theorem FitsInt64.int64_eq {x : Int} (h : FitsInt64 x) : int64 x = x := int64_of_range h.1 h.2

/-! ## Money -/

def COIN : Int := 100000000

def CENT : Int := 1000000

def MAX_MONEY : Int := 2000000000 * COIN

def MIN_TX_FEE : Int := 10000

def MIN_RELAY_TX_FEE : Int := MIN_TX_FEE

def COIN_YEAR_REWARD : Int := 2 * CENT

def moneyRange (nValue : Int) : Bool := decide (0 ≤ nValue ∧ nValue ≤ MAX_MONEY)

theorem moneyRange_iff {v : Int} : moneyRange v = true ↔ 0 ≤ v ∧ v ≤ 200000000000000000 := by
  have hmax : MAX_MONEY = 200000000000000000 := by decide
  rw [moneyRange, decide_eq_true_iff, hmax]

/-- A sum of two amounts in range does not overflow. -/
theorem int64_add_money {x y : Int} (hx : moneyRange x = true) (hy : moneyRange y = true) :
    int64 (x + y) = x + y := by
  rw [moneyRange_iff] at hx hy
  exact int64_of_range (by omega) (by omega)

/-! ## The miner's rewards -/

/-- The subsidy of a proof-of-work block, by the height the caller passes, plus the fees. -/
def getProofOfWorkReward (nFees : Int) (nHeight : Nat) : Int :=
  let nSubsidy :=
    if nHeight = 1 then 2000000 * COIN
    else if nHeight < 50000 then 5000 * COIN
    else 2500 * COIN
  int64 (nSubsidy + nFees)

/-- The coin-age part of the proof-of-stake reward. -/
def stakeSubsidy (nCoinAge : Int) : Int :=
  (int64 (int64 (nCoinAge * COIN_YEAR_REWARD) * 33)).tdiv (365 * 33 + 8)

/-- The subsidy of a proof-of-stake block, by the coin age spent (in coin-days), plus the fees. -/
def getProofOfStakeReward (nCoinAge nFees : Int) : Int :=
  int64 (stakeSubsidy nCoinAge + nFees)

/-- The coin-age subsidy lies far inside the `int64_t` range, whatever overflowed on the way. -/
theorem stakeSubsidy_range (nCoinAge : Int) :
    -9223372036854775808 ≤ stakeSubsidy nCoinAge ∧ stakeSubsidy nCoinAge < 9223372036854775808 := by
  have hlo := int64_lower (int64 (nCoinAge * COIN_YEAR_REWARD) * 33)
  have hhi := int64_upper (int64 (nCoinAge * COIN_YEAR_REWARD) * 33)
  have habs : (stakeSubsidy nCoinAge).natAbs =
      (int64 (int64 (nCoinAge * COIN_YEAR_REWARD) * 33)).natAbs / 12053 :=
    Int.natAbs_tdiv _ _
  omega

/-- Fees raise the reward by at most their exact total, even where the sum has wrapped. -/
theorem getProofOfStakeReward_le (nCoinAge : Int) {nFees : Int} (hf : 0 ≤ nFees) :
    getProofOfStakeReward nCoinAge (int64 nFees) ≤ getProofOfStakeReward nCoinAge 0 + nFees := by
  obtain ⟨hlo, hhi⟩ := stakeSubsidy_range nCoinAge
  unfold getProofOfStakeReward
  rw [int64_add_right, add_zero, int64_of_range hlo hhi]
  exact int64_le (by omega)

theorem getProofOfWorkReward_le {nFees : Int} (hf : 0 ≤ nFees) (nHeight : Nat) :
    getProofOfWorkReward (int64 nFees) nHeight ≤ getProofOfWorkReward 0 nHeight + nFees := by
  unfold getProofOfWorkReward
  simp only [int64_add_right, add_zero]
  have hs : ∀ s : Int, 0 ≤ s → s < 9223372036854775808 → int64 (s + nFees) ≤ int64 s + nFees := by
    intro s h0 h1
    rw [int64_of_range (x := s) (by omega) h1]
    exact int64_le (by omega)
  split
  · exact hs _ (by decide) (by decide)
  · split
    · exact hs _ (by decide) (by decide)
    · exact hs _ (by decide) (by decide)

end Silkcoin
