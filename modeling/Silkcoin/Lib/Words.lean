/-
  NUMBERS IN WORDS of `w` bits, the least significant word first.

  A list of words is the number `value`; among lists of one length the number says which list it is
  (`value_inj`), and the list of the higher words decides a comparison (`value_concat_lt`).  Bit `n` of the
  number is a bit of word `n / w` (`testBit_value`), which is how shifts are read off.
-/
import Mathlib.Data.Nat.Bitwise
import Mathlib.Tactic.Ring

namespace Words

variable {w : Nat}

/-- The number. -/
def value : List (BitVec w) → Nat
  | [] => 0
  | x :: xs => x.toNat + 2 ^ w * value xs

/-- Word `m`, zero above the last. -/
def word (xs : List (BitVec w)) (m : Nat) : BitVec w := xs.getD m 0

theorem pow_words (n : Nat) : 2 ^ (w * (n + 1)) = 2 ^ w * 2 ^ (w * n) := by
  rw [Nat.mul_succ, Nat.add_comm, Nat.pow_add]

theorem value_lt (xs : List (BitVec w)) : value xs < 2 ^ (w * xs.length) := by
  induction xs with
  | nil => simp [value]
  | cons x xs ih =>
    have hx := x.isLt
    rw [value, List.length_cons, pow_words]
    calc x.toNat + 2 ^ w * value xs < 2 ^ w + 2 ^ w * value xs := by omega
      _ = 2 ^ w * (value xs + 1) := by ring
      _ ≤ 2 ^ w * 2 ^ (w * xs.length) := Nat.mul_le_mul_left _ ih

theorem value_append (xs ys : List (BitVec w)) :
    value (xs ++ ys) = value xs + 2 ^ (w * xs.length) * value ys := by
  induction xs with
  | nil => simp [value]
  | cons x xs ih =>
    rw [List.cons_append, value, value, ih, List.length_cons, pow_words]
    ring

theorem value_concat (xs : List (BitVec w)) (x : BitVec w) :
    value (xs ++ [x]) = value xs + 2 ^ (w * xs.length) * x.toNat := by
  rw [value_append]
  rfl

/-- Lists of ONE length with the same number are the same. -/
theorem value_inj : ∀ {xs ys : List (BitVec w)}, xs.length = ys.length → value xs = value ys → xs = ys
  | [], [], _, _ => rfl
  | [], _ :: _, hlen, _ => by cases hlen
  | _ :: _, [], hlen, _ => by cases hlen
  | x :: xs, y :: ys, hlen, hval => by
    have hx := x.isLt
    have hy := y.isLt
    rw [value, value] at hval
    have hlow : x.toNat = y.toNat := by
      have hmod := congrArg (· % 2 ^ w) hval
      simpa [Nat.add_mul_mod_self_left, Nat.mod_eq_of_lt hx, Nat.mod_eq_of_lt hy] using hmod
    have hhigh : value xs = value ys := by
      have hpos : 0 < 2 ^ w := Nat.two_pow_pos w
      rw [hlow] at hval
      exact Nat.eq_of_mul_eq_mul_left hpos (Nat.add_left_cancel hval)
    rw [BitVec.eq_of_toNat_eq hlow, value_inj (Nat.succ.inj hlen) hhigh]

/-- The complement of every word. -/
theorem value_not (xs : List (BitVec w)) :
    value (xs.map fun x => ~~~x) + value xs + 1 = 2 ^ (w * xs.length) := by
  induction xs with
  | nil => simp [value]
  | cons x xs ih =>
    have hx := x.isLt
    rw [List.map_cons, value, value, BitVec.toNat_not, List.length_cons, pow_words, ← ih]
    have hword : 2 ^ w - 1 - x.toNat + x.toNat + 1 = 2 ^ w := by omega
    calc 2 ^ w - 1 - x.toNat + 2 ^ w * value (xs.map fun x => ~~~x) + (x.toNat + 2 ^ w * value xs) + 1
        = (2 ^ w - 1 - x.toNat + x.toNat + 1)
            + 2 ^ w * (value (xs.map fun x => ~~~x) + value xs) := by ring
      _ = 2 ^ w * (value (xs.map fun x => ~~~x) + value xs + 1) := by rw [hword]; ring

/-- The HIGHEST words decide. -/
theorem value_concat_lt {xs ys : List (BitVec w)} (hlen : xs.length = ys.length) {x y : BitVec w} (h : x < y) :
    value (xs ++ [x]) < value (ys ++ [y]) := by
  have hxs := value_lt xs
  have hxy : x.toNat + 1 ≤ y.toNat := h
  rw [value_concat, value_concat, ← hlen]
  calc value xs + 2 ^ (w * xs.length) * x.toNat
      < 2 ^ (w * xs.length) + 2 ^ (w * xs.length) * x.toNat := Nat.add_lt_add_right hxs _
    _ = 2 ^ (w * xs.length) * (x.toNat + 1) := by ring
    _ ≤ 2 ^ (w * xs.length) * y.toNat := Nat.mul_le_mul_left _ hxy
    _ ≤ value ys + 2 ^ (w * xs.length) * y.toNat := Nat.le_add_left _ _

/-- With equal highest words the others do. -/
theorem value_concat_lt_iff {xs ys : List (BitVec w)} (hlen : xs.length = ys.length) (x : BitVec w) :
    value (xs ++ [x]) < value (ys ++ [x]) ↔ value xs < value ys := by
  rw [value_concat, value_concat, hlen]
  exact Nat.add_lt_add_iff_right

/-- Bit `n` is in word `n / w`. -/
theorem testBit_value (hw : 0 < w) : ∀ (xs : List (BitVec w)) (n : Nat),
    (value xs).testBit n = (word xs (n / w)).getLsbD (n % w)
  | [], n => by simp [value, word]
  | x :: xs, n => by
    rw [value, Nat.add_comm, Nat.testBit_two_pow_mul_add _ x.isLt]
    split
    · rename_i hlow
      rw [Nat.div_eq_of_lt hlow, Nat.mod_eq_of_lt hlow]
      rfl
    · rename_i hhigh
      have hle : w ≤ n := Nat.le_of_not_lt hhigh
      have hdiv : n / w = (n - w) / w + 1 := by
        rw [← Nat.add_div_right _ hw, Nat.sub_add_cancel hle]
      have hmod : n % w = (n - w) % w := Nat.mod_eq_sub_mod hle
      rw [testBit_value hw xs, hdiv, hmod]
      rfl

/-- A word above the last is zero, and so are its bits. -/
theorem word_of_length_le {xs : List (BitVec w)} {m : Nat} (h : xs.length ≤ m) : word xs m = 0 := by
  rw [word, List.getD_eq_getElem?_getD, List.getElem?_eq_none h, Option.getD_none]

theorem word_modify (xs : List (BitVec w)) (f : BitVec w → BitVec w) {j : Nat} (hj : j < xs.length) (m : Nat) :
    word (xs.modify j f) m = if j = m then f (word xs m) else word xs m := by
  simp only [word, List.getD_eq_getElem?_getD, List.getElem?_modify]
  by_cases hm : j = m
  · subst hm
    simp [List.getElem?_eq_getElem hj]
  · simp [hm]

end Words
