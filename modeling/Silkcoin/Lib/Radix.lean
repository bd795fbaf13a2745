/-
  NUMERALS with leading zeros, and their change of base.

  A list of digits, the most significant one first, is a number (`value`) and the zeros in front of it
  (`zeros`), and nothing is lost: the two give the list back (`padded_zeros_value`), and every pair of them
  is that of a list.  Changing the base keeps both (`rebase`), so it is undone by changing it back
  (`rebase_rebase`).
-/
import Mathlib.Data.Nat.Digits.Defs
import Mathlib.Data.Nat.Digits.Lemmas

namespace Radix

/-- The number of a list of digits. -/
def value (b : Nat) (ds : List Nat) : Nat := Nat.ofDigits b ds.reverse

/-- The zeros in front. -/
def zeros (ds : List Nat) : Nat := (ds.takeWhile fun d => decide (d = 0)).length

/-- The digits of a number, none for zero. -/
def numeral (b n : Nat) : List Nat := (Nat.digits b n).reverse

/-- The digits of a number with zeros in front. -/
def padded (b z n : Nat) : List Nat := List.replicate z 0 ++ numeral b n

variable {b : Nat}

theorem value_cons (d : Nat) (ds : List Nat) : value b (d :: ds) = value b ds + b ^ ds.length * d := by
  unfold value
  rw [List.reverse_cons, Nat.ofDigits_append, List.length_reverse, Nat.ofDigits_singleton]

theorem value_padded (z n : Nat) : value b (padded b z n) = n := by
  unfold value padded numeral
  rw [List.reverse_append, List.reverse_reverse, List.reverse_replicate, Nat.ofDigits_append_replicate_zero,
    Nat.ofDigits_digits]

/-- A numeral does not begin with a zero. -/
theorem zeros_numeral (n : Nat) : zeros (numeral b n) = 0 := by
  unfold zeros numeral
  rcases Nat.eq_zero_or_pos n with rfl | hpos
  · rw [Nat.digits_zero]
    rfl
  · have hne : n ≠ 0 := by omega
    have hds : Nat.digits b n ≠ [] := Nat.digits_ne_nil_iff_ne_zero.mpr hne
    have hlast := Nat.getLast_digit_ne_zero b hne
    rw [← List.dropLast_append_getLast hds, List.reverse_append, List.reverse_singleton,
      List.singleton_append, List.takeWhile_cons_of_neg (by simpa using hlast)]
    rfl

theorem zeros_padded (z n : Nat) : zeros (padded b z n) = z := by
  unfold padded
  induction z with
  | zero => exact zeros_numeral n
  | succ z ih =>
    have hstep : zeros (0 :: (List.replicate z 0 ++ numeral b n)) =
        zeros (List.replicate z 0 ++ numeral b n) + 1 := rfl
    rw [List.replicate_succ, List.cons_append, hstep, ih]

/-- A list of digits is its zeros and its number. -/
theorem padded_zeros_value (hb : 1 < b) : ∀ {ds : List Nat}, (∀ d ∈ ds, d < b) →
    padded b (zeros ds) (value b ds) = ds
  | [], _ => by
    have hzero : value b [] = 0 := rfl
    rw [hzero]
    unfold padded numeral
    rw [Nat.digits_zero]
    rfl
  | d :: ds, h => by
    rcases Nat.eq_zero_or_pos d with rfl | hpos
    · have hrest := padded_zeros_value hb fun d hd => h d (List.mem_cons_of_mem 0 hd)
      have hzeros : zeros (0 :: ds) = zeros ds + 1 := rfl
      have hvalue : value b (0 :: ds) = value b ds := Nat.ofDigits_reverse_zero_cons ds
      unfold padded at hrest ⊢
      rw [hzeros, hvalue, List.replicate_succ, List.cons_append, hrest]
    · -- the digit in front is not zero, so these are the digits of the number
      have hzeros : zeros (d :: ds) = 0 := by
        unfold zeros
        rw [List.takeWhile_cons_of_neg (by simpa using (by omega : d ≠ 0))]
        rfl
      have hdigits : Nat.digits b (value b (d :: ds)) = (d :: ds).reverse := by
        refine Nat.digits_ofDigits b hb _ (fun l hl => h l (List.mem_reverse.mp hl)) fun hne => ?_
        rw [List.getLast_reverse]
        exact (by omega : d ≠ 0)
      unfold padded numeral
      rw [hzeros, hdigits, List.reverse_reverse]
      rfl

/-! ## Changing the base -/

/-- The same number and the same zeros in another base. -/
def rebase (b c : Nat) (ds : List Nat) : List Nat := padded c (zeros ds) (value b ds)

theorem lt_of_mem_rebase {c : Nat} (hc : 1 < c) {ds : List Nat} {d : Nat} (h : d ∈ rebase b c ds) : d < c := by
  rcases List.mem_append.mp h with hz | hn
  · rw [List.eq_of_mem_replicate hz]
    omega
  · exact Nat.digits_lt_base hc (List.mem_reverse.mp hn)

theorem rebase_rebase (hb : 1 < b) (c : Nat) {ds : List Nat} (h : ∀ d ∈ ds, d < b) :
    rebase c b (rebase b c ds) = ds := by
  unfold rebase
  rw [zeros_padded, value_padded]
  exact padded_zeros_value hb h

end Radix
