/-
  DECIMAL TEXTS: a number as the digits it is printed with, and the number that a text starts with.

  Digits are bytes.  `value` reads digits as far as there are any, and does not look at what follows;
  `value_decimal` says that it reads the digits a number was printed with.
-/
import Mathlib.Data.List.Basic
import Mathlib.Algebra.Group.Nat.Defs
import Mathlib.Tactic.Ring

namespace Decimal

/-- A digit, as a character. -/
def digit (d : Nat) : UInt8 := UInt8.ofNat (48 + d)

def isDigit (b : UInt8) : Bool := decide (48 ≤ b.toNat ∧ b.toNat ≤ 57)

/-- The digits of a number that has at most `k + 1`. -/
def digits : Nat → Nat → List UInt8
  | 0, n => [digit (n % 10)]
  | k + 1, n => if n < 10 then [digit n] else digits k (n / 10) ++ [digit (n % 10)]

def decimal (n : Nat) : List UInt8 := digits n n

/-- The number behind these digits and those before, which make `acc`. -/
def value (acc : Nat) : List UInt8 → Nat
  | [] => acc
  | b :: l => if isDigit b then value (10 * acc + (b.toNat - 48)) l else acc

theorem toNat_digit {d : Nat} (h : d < 10) : (digit d).toNat = 48 + d := by
  unfold digit
  rw [UInt8.toNat_ofNat']
  omega

theorem isDigit_digit {d : Nat} (h : d < 10) : isDigit (digit d) = true := by
  unfold isDigit
  rw [toNat_digit h]
  exact decide_eq_true (by omega)

theorem value_digit {d : Nat} (h : d < 10) (acc : Nat) (l : List UInt8) :
    value acc (digit d :: l) = value (10 * acc + d) l := by
  rw [value, if_pos (isDigit_digit h), toNat_digit h, Nat.add_sub_cancel_left]

/-- Digits that are read put a number behind the one so far. -/
theorem value_digits {k n : Nat} (h : n < 10 ^ (k + 1)) (l : List UInt8) :
    value 0 (digits k n ++ l) = value n l := by
  induction k generalizing n l with
  | zero =>
    have hn : n < 10 := h
    rw [digits, Nat.mod_eq_of_lt hn, List.singleton_append, value_digit hn]
    rw [Nat.mul_zero, Nat.zero_add]
  | succ k ih =>
    rw [digits]
    split
    · rename_i hn
      rw [List.singleton_append, value_digit hn, Nat.mul_zero, Nat.zero_add]
    · have hdiv : n / 10 < 10 ^ (k + 1) := by
        rw [Nat.pow_succ] at h
        omega
      rw [List.append_assoc, ih hdiv, List.singleton_append, value_digit (Nat.mod_lt n (by decide))]
      have hn : 10 * (n / 10) + n % 10 = n := by omega
      rw [hn]

theorem value_decimal (n : Nat) : value 0 (decimal n) = n := by
  have h := value_digits (Nat.lt_trans (Nat.lt_succ_self n) (Nat.lt_pow_self (by decide : 1 < 10))) []
  rw [List.append_nil] at h
  exact h

/-- It starts with a digit. -/
theorem decimal_eq_cons (n : Nat) : ∃ d < 10, ∃ l, decimal n = digit d :: l := by
  have hcons : ∀ k m, ∃ d < 10, ∃ l, digits k m = digit d :: l := by
    intro k
    induction k with
    | zero => exact fun m => ⟨m % 10, Nat.mod_lt m (by decide), [], rfl⟩
    | succ k ih =>
      intro m
      rw [digits]
      split
      · rename_i hm
        exact ⟨m, hm, [], rfl⟩
      · obtain ⟨d, hd, l, hl⟩ := ih (m / 10)
        exact ⟨d, hd, l ++ [digit (m % 10)], by rw [hl]; rfl⟩
  exact hcons n n

/-! ## Strings of digits -/

def AllDigits (l : List UInt8) : Prop := ∀ b ∈ l, isDigit b = true

theorem AllDigits.tail {b : UInt8} {l : List UInt8} (h : AllDigits (b :: l)) : AllDigits l :=
  fun c hc => h c (List.mem_cons_of_mem b hc)

theorem value_acc : ∀ {l : List UInt8} (acc : Nat), AllDigits l →
    value acc l = acc * 10 ^ l.length + value 0 l
  | [], acc, _ => by rw [value, value, List.length_nil, Nat.pow_zero, Nat.mul_one, Nat.add_zero]
  | b :: l, acc, h => by
    have hb := h b List.mem_cons_self
    rw [value, if_pos hb, value, if_pos hb, value_acc _ h.tail, value_acc (10 * 0 + (b.toNat - 48)) h.tail,
      List.length_cons]
    ring

/-- The first digit has the place that the number of digits after it gives it. -/
theorem value_cons {b : UInt8} {l : List UInt8} (h : AllDigits (b :: l)) :
    value 0 (b :: l) = (b.toNat - 48) * 10 ^ l.length + value 0 l := by
  rw [value, if_pos (h b List.mem_cons_self), value_acc _ h.tail, Nat.mul_zero, Nat.zero_add]

theorem value_append {m : List UInt8} (hm : AllDigits m) : ∀ {l : List UInt8}, AllDigits l →
    value 0 (l ++ m) = value 0 l * 10 ^ m.length + value 0 m
  | [], _ => by
    have hnil : value 0 [] = 0 := rfl
    rw [hnil, Nat.zero_mul, Nat.zero_add, List.nil_append]
  | b :: l, h => by
    have hall : AllDigits (b :: (l ++ m)) := by
      intro c hc
      rcases List.mem_append.mp (List.cons_append ▸ hc : c ∈ (b :: l) ++ m) with hc | hc
      · exact h c hc
      · exact hm c hc
    rw [List.cons_append, value_cons hall, value_append hm h.tail, value_cons h, List.length_append]
    ring

theorem value_lt : ∀ {l : List UInt8}, AllDigits l → value 0 l < 10 ^ l.length
  | [], _ => Nat.one_pos
  | b :: l, h => by
    have hb : 48 ≤ b.toNat ∧ b.toNat ≤ 57 := of_decide_eq_true (h b List.mem_cons_self)
    have hrest := value_lt h.tail
    have hdigit : (b.toNat - 48) * 10 ^ l.length ≤ 9 * 10 ^ l.length := Nat.mul_le_mul_right _ (by omega)
    rw [value_cons h, List.length_cons, Nat.pow_succ]
    omega

theorem allDigits_digits : ∀ k n, AllDigits (digits k n)
  | 0, n => by
    intro b hb
    rw [digits] at hb
    rw [List.mem_singleton.mp hb]
    exact isDigit_digit (Nat.mod_lt n (by decide))
  | k + 1, n => by
    intro b hb
    rw [digits] at hb
    split at hb
    · rename_i hn
      rw [List.mem_singleton.mp hb]
      exact isDigit_digit hn
    · rcases List.mem_append.mp hb with hb | hb
      · exact allDigits_digits k _ b hb
      · rw [List.mem_singleton.mp hb]
        exact isDigit_digit (Nat.mod_lt n (by decide))

theorem length_digits : ∀ {m k n : Nat}, n < 10 ^ (m + 1) → (digits k n).length ≤ m + 1
  | m, 0, n, _ => by
    rw [digits, List.length_singleton]
    omega
  | 0, k + 1, n, h => by
    rw [digits, if_pos (by omega), List.length_singleton]
  | m + 1, k + 1, n, h => by
    rw [digits]
    split
    · rw [List.length_singleton]
      omega
    · have hdiv : n / 10 < 10 ^ (m + 1) := by
        rw [Nat.pow_succ] at h
        omega
      have hrest := @length_digits m k (n / 10) hdiv
      rw [List.length_append, List.length_singleton]
      omega

theorem allDigits_decimal (n : Nat) : AllDigits (decimal n) := allDigits_digits n n

theorem length_decimal {m n : Nat} (h : n < 10 ^ (m + 1)) : (decimal n).length ≤ m + 1 := length_digits h

/-- As many digits as there are, up to a number of them. -/
theorem digits_and_rest : ∀ (k : Nat) (l : List UInt8), ∃ f r, l = f ++ r ∧ AllDigits f ∧ f.length ≤ k ∧
    (f.length = k ∨ ∀ b ∈ r.head?, isDigit b = false)
  | 0, l => ⟨[], l, rfl, by simp [AllDigits], Nat.le_refl 0, .inl rfl⟩
  | k + 1, [] => ⟨[], [], rfl, by simp [AllDigits], Nat.zero_le _, .inr (by simp)⟩
  | k + 1, b :: l => by
    cases hb : isDigit b with
    | false => exact ⟨[], b :: l, rfl, by simp [AllDigits], Nat.zero_le _, .inr (by simp [hb])⟩
    | true =>
      obtain ⟨f, r, rfl, hf, hlen, hend⟩ := digits_and_rest k l
      refine ⟨b :: f, r, rfl, ?_, Nat.succ_le_succ hlen, hend.imp (congrArg (· + 1)) id⟩
      intro c hc
      rcases List.mem_cons.mp hc with rfl | hc
      · exact hb
      · exact hf c hc

end Decimal
