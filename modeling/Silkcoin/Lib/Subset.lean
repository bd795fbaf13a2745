/-
  SUBSETS OF A LIST, AS FLAGS: one `Bool` for each element, `picked` the elements whose flag is set.

  A search over subsets sets and clears ONE flag at a time and keeps a running total.  What that does
  to the sum of the picked elements is here (`sum_picked_set`), and that a picked list is a sublist, so
  that whatever holds of the elements, of their being distinct and of their sum being bounded, holds of
  every subset met on the way.
-/
import Mathlib.Algebra.BigOperators.Group.List.Basic
import Mathlib.Algebra.Order.BigOperators.Group.List
import Mathlib.Data.List.Basic

namespace Subset

variable {α M : Type}

/-- The elements whose flag is set. -/
def picked : List Bool → List α → List α
  | [], _ => []
  | _, [] => []
  | true :: flags, x :: xs => x :: picked flags xs
  | false :: flags, _ :: xs => picked flags xs

@[simp] theorem picked_nil (xs : List α) : picked [] xs = [] := by
  cases xs <;> rfl

@[simp] theorem picked_nil_right (flags : List Bool) : picked flags ([] : List α) = [] := by
  rcases flags with _ | ⟨_ | _, _⟩ <;> rfl

@[simp] theorem picked_true (flags : List Bool) (x : α) (xs : List α) :
    picked (true :: flags) (x :: xs) = x :: picked flags xs := rfl

@[simp] theorem picked_false (flags : List Bool) (x : α) (xs : List α) :
    picked (false :: flags) (x :: xs) = picked flags xs := rfl

theorem picked_sublist (flags : List Bool) (xs : List α) : (picked flags xs).Sublist xs := by
  induction xs generalizing flags with
  | nil => simp
  | cons x xs ih =>
    rcases flags with _ | ⟨b, flags⟩
    · simp
    · cases b
      · exact (ih flags).cons x
      · exact (ih flags).cons_cons x

/-- All flags set. -/
theorem picked_all (xs : List α) : picked (List.replicate xs.length true) xs = xs := by
  induction xs with
  | nil => rfl
  | cons x xs ih => simp [List.replicate_succ, ih]

/-- No flag set. -/
theorem picked_none (n : Nat) (xs : List α) : picked (List.replicate n false) xs = [] := by
  induction xs generalizing n with
  | nil => simp
  | cons x xs ih =>
    cases n with
    | zero => rfl
    | succ n => simpa [List.replicate_succ] using ih n

section Sum

variable [AddCommMonoid M] (value : α → M)

/-- One more element. -/
theorem sum_picked_set {flags : List Bool} {xs : List α} {i : Nat} {x : α}
    (hflag : flags[i]? = some false) (hx : xs[i]? = some x) :
    ((picked (flags.set i true) xs).map value).sum = value x + ((picked flags xs).map value).sum := by
  induction xs generalizing flags i with
  | nil => simp at hx
  | cons y xs ih =>
    rcases flags with _ | ⟨b, flags⟩
    · simp at hflag
    · cases i with
      | zero =>
        simp only [List.getElem?_cons_zero, Option.some.injEq] at hflag hx
        subst hflag hx
        simp
      | succ i =>
        simp only [List.getElem?_cons_succ] at hflag hx
        have hrest := ih hflag hx
        cases b
        · simpa using hrest
        · simp only [List.set_cons_succ, picked_true, List.map_cons, List.sum_cons, hrest]
          exact add_left_comm _ _ _

/-- Set and cleared again: the flags are what they were. -/
theorem set_set_false {flags : List Bool} {i : Nat} (hflag : flags[i]? = some false) :
    (flags.set i true).set i false = flags := by
  rw [List.set_set]
  apply List.ext_getElem?
  intro j
  rw [List.getElem?_set]
  split
  · subst i
    obtain ⟨hlt, hget⟩ := List.getElem?_eq_some_iff.1 hflag
    simp [hlt, hget]
  · rfl

/-- A subset weighs no more than the whole. -/
theorem sum_picked_le [PartialOrder M] [AddLeftMono M] (flags : List Bool) {xs : List α}
    (hnonneg : ∀ x ∈ xs, 0 ≤ value x) : ((picked flags xs).map value).sum ≤ (xs.map value).sum := by
  apply ((picked_sublist flags xs).map value).sum_le_sum
  intro v hv
  obtain ⟨x, hx, rfl⟩ := List.mem_map.1 hv
  exact hnonneg x hx

end Sum

end Subset
