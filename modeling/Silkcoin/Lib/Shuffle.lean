/-
  A SHUFFLE OF THE FIRST FEW PLACES of a list: round `i` swaps place `i` with a place `pos i` that is not
  before it.

  What a round draws ends up in the place with the number of the round, and stays there, because later
  rounds only touch later places (`getElem?_shuffled`).  The place it was drawn FROM holds something else
  afterwards: what a later round puts there if that place is one of the first, and otherwise nothing that
  was drawn (`ne_of_late`).
-/
import Mathlib.Data.List.Nodup

namespace Shuffle

variable {α : Type}

/-- Two places of a list change their contents. -/
def swap (l : List α) (i p : Nat) : List α :=
  match l[p]?, l[i]? with
  | some y, some x => (l.set p x).set i y
  | _, _ => l

theorem swap_eq {l : List α} {i p : Nat} (hi : i < l.length) (hp : p < l.length) :
    swap l i p = (l.set p l[i]).set i l[p] := by
  unfold swap
  rw [List.getElem?_eq_getElem hp, List.getElem?_eq_getElem hi]

theorem swap_perm {l : List α} {i p : Nat} (hi : i < l.length) (hp : p < l.length) : (swap l i p).Perm l := by
  rw [swap_eq hi hp]
  exact List.set_set_perm hp hi

theorem getElem?_swap_left {l : List α} {i p : Nat} (hi : i < l.length) (hp : p < l.length) :
    (swap l i p)[i]? = l[p]? := by
  rw [swap_eq hi hp, List.getElem?_set_self (by rw [List.length_set]; exact hi), List.getElem?_eq_getElem hp]

theorem getElem?_swap_of_ne {l : List α} {i p j : Nat} (hi : i < l.length) (hp : p < l.length) (hji : j ≠ i)
    (hjp : j ≠ p) : (swap l i p)[j]? = l[j]? := by
  rw [swap_eq hi hp, List.getElem?_set_ne (Ne.symm hji), List.getElem?_set_ne (Ne.symm hjp)]

variable (pos : Nat → Nat) (l : List α)

/-- The list after so many rounds. -/
def shuffled : Nat → List α
  | 0 => l
  | k + 1 => swap (shuffled k) k (pos k)

/-- What a round draws. -/
def drawn (i : Nat) : Option α := (shuffled pos l i)[pos i]?

/-- The first `k` rounds draw from places there are, none before its own. -/
def Forward (k : Nat) : Prop := ∀ i < k, i ≤ pos i ∧ pos i < l.length

variable {pos l} {k : Nat}

theorem Forward.mono {m : Nat} (h : Forward pos l k) (hm : m ≤ k) : Forward pos l m :=
  fun i hi => h i (Nat.lt_of_lt_of_le hi hm)

theorem shuffled_perm (h : Forward pos l k) : (shuffled pos l k).Perm l := by
  induction k with
  | zero => exact List.Perm.refl l
  | succ k ih =>
    have hperm := ih (h.mono (Nat.le_succ k))
    have hlength := hperm.length_eq
    obtain ⟨hle, hlt⟩ := h k (Nat.lt_succ_self k)
    show (swap (shuffled pos l k) k (pos k)).Perm l
    exact (swap_perm (by omega) (by omega)).trans hperm

theorem length_shuffled (h : Forward pos l k) : (shuffled pos l k).length = l.length :=
  (shuffled_perm h).length_eq

/-- There is something to draw. -/
theorem exists_drawn (h : Forward pos l k) {i : Nat} (hi : i < k) : ∃ x, drawn pos l i = some x := by
  have hlength := length_shuffled (h.mono (Nat.le_of_lt hi))
  obtain ⟨-, hlt⟩ := h i hi
  unfold drawn
  rw [List.getElem?_eq_getElem (by omega)]
  exact ⟨_, rfl⟩

/-- **What a round draws** is in its place after all rounds. -/
theorem getElem?_shuffled (h : Forward pos l k) {i : Nat} (hi : i < k) :
    (shuffled pos l k)[i]? = drawn pos l i := by
  induction k with
  | zero => omega
  | succ k ih =>
    have hlength := length_shuffled (h.mono (Nat.le_succ k))
    obtain ⟨hle, hlt⟩ := h k (Nat.lt_succ_self k)
    show (swap (shuffled pos l k) k (pos k))[i]? = _
    rcases Nat.lt_or_eq_of_le (Nat.le_of_lt_succ hi) with hlast | rfl
    · rw [getElem?_swap_of_ne (by omega) (by omega) (by omega) (by omega)]
      exact ih (h.mono (Nat.le_succ k)) hlast
    · exact getElem?_swap_left (by omega) (by omega)

/-- Behind the first places is nothing that was drawn. -/
theorem ne_of_late (h : Forward pos l k) (hnodup : l.Nodup) {i p : Nat} (hi : i < k) (hp : k ≤ p) {x y : α}
    (hx : drawn pos l i = some x) (hy : (shuffled pos l k)[p]? = some y) : x ≠ y := by
  rintro rfl
  rw [← getElem?_shuffled h hi] at hx
  obtain ⟨hilt, hix⟩ := List.getElem?_eq_some_iff.mp hx
  obtain ⟨hplt, hpx⟩ := List.getElem?_eq_some_iff.mp hy
  have hnodup := (shuffled_perm h).nodup_iff.mpr hnodup
  have heq := (List.Nodup.getElem_inj_iff hnodup).mp (hix.trans hpx.symm)
  omega

end Shuffle
