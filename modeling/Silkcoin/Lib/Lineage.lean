/-
  Lineages: a node of a tree as the list of itself and its ancestors, the parent being the TAIL.

  An ancestor is a nonempty suffix.  Two nodes of one tree have a common ancestor above all others, their
  FORK: the longest suffix they share (`IsFork`).  It does not change when a node that is no ancestor of
  the other is replaced by its parent (`IsFork.cons_iff`), and that is all that a search for it needs.

  `Ranked`: a rank that goes up by one from parent to child.  In a tree with one root the rank of a node is
  its distance from the root (`Ranked.rank_head`), so of two nodes the one with the higher rank is no
  ancestor of the other.
-/
import Mathlib.Data.List.Infix

namespace Lineage

variable {α : Type*}

/-! ## The fork -/

/-- The longest lineage that two have in common. -/
def IsFork (fork a b : List α) : Prop :=
  fork <:+ a ∧ fork <:+ b ∧ ∀ c, c <:+ a → c <:+ b → c <:+ fork

namespace IsFork

variable {fork a b : List α} {x : α}

theorem symm (h : IsFork fork a b) : IsFork fork b a := ⟨h.2.1, h.1, fun c hb ha => h.2.2 c ha hb⟩

theorem unique {fork' : List α} (h : IsFork fork a b) (h' : IsFork fork' a b) : fork = fork' :=
  (h'.2.2 _ h.1 h.2.1).eq_of_length_le (h.2.2 _ h'.1 h'.2.1).length_le

theorem self (a : List α) : IsFork a a a := ⟨List.suffix_refl _, List.suffix_refl _, fun _ h _ => h⟩

/-- Below a node that is no ancestor of the other the fork is the same. -/
theorem cons_iff (hx : ¬ x :: a <:+ b) : IsFork fork (x :: a) b ↔ IsFork fork a b := by
  have hsuf : ∀ c, c <:+ b → (c <:+ x :: a ↔ c <:+ a) := by
    intro c hc
    rw [List.suffix_cons_iff]
    exact or_iff_right fun heq => hx (heq ▸ hc)
  constructor
  · intro h
    exact ⟨(hsuf fork h.2.1).mp h.1, h.2.1, fun c hca hcb => h.2.2 c ((hsuf c hcb).mpr hca) hcb⟩
  · intro h
    exact ⟨(hsuf fork h.2.1).mpr h.1, h.2.1, fun c hca hcb => h.2.2 c ((hsuf c hcb).mp hca) hcb⟩

/-- And so on down. -/
theorem dropWhile_iff {p : α → Bool} (hp : ∀ x c, p x = true → x :: c <:+ a → ¬ x :: c <:+ b) :
    IsFork fork (a.dropWhile p) b ↔ IsFork fork a b := by
  induction a with
  | nil => rfl
  | cons x a ih =>
    rw [List.dropWhile_cons]
    split
    · rename_i hx
      rw [cons_iff (hp x a hx (List.suffix_refl _))]
      exact ih fun y c hy hc => hp y c hy (hc.trans (List.suffix_cons _ _))
    · rfl

end IsFork

/-! ## Ranks -/

variable (rank : α → Nat)

/-- From a parent to its child the rank goes up by one. -/
def Ranked : List α → Prop
  | x :: y :: l => rank x = rank y + 1 ∧ Ranked (y :: l)
  | _ => True

variable {rank} {x z : α} {a b : List α}

theorem Ranked.tail (h : Ranked rank (x :: a)) : Ranked rank a := by
  cases a with
  | nil => trivial
  | cons y a => exact h.2

theorem Ranked.suffix (h : Ranked rank a) (hs : b <:+ a) : Ranked rank b := by
  induction a with
  | nil => rwa [List.suffix_nil.mp hs]
  | cons x a ih =>
    rcases List.suffix_cons_iff.mp hs with rfl | hs
    · exact h
    · exact ih h.tail hs

/-- The rank is the distance from the root. -/
theorem Ranked.rank_head (h : Ranked rank (x :: a)) (hz : (x :: a).getLast? = some z) :
    rank x = rank z + a.length := by
  induction a generalizing x with
  | nil =>
    cases hz
    rfl
  | cons y a ih =>
    rw [List.getLast?_cons_cons] at hz
    have hrest := ih h.2 hz
    have hstep : rank x = rank y + 1 := h.1
    rw [List.length_cons]
    omega

/-- Nodes down to a rank are left. -/
theorem Ranked.dropWhile_eq_drop (h : Ranked rank a) (hz : a.getLast? = some z) {n : Nat} (hn : rank z ≤ n) :
    a.dropWhile (fun y => decide (n < rank y)) = a.drop (a.length - (n - rank z + 1)) := by
  induction a with
  | nil => rw [List.dropWhile_nil, List.drop_nil]
  | cons x a ih =>
    have hx := h.rank_head hz
    rw [List.dropWhile_cons, List.length_cons]
    by_cases hlt : n < rank x
    · rw [if_pos (decide_eq_true hlt)]
      cases a with
      | nil =>
        rw [List.length_nil] at hx
        omega
      | cons y a =>
        rw [List.getLast?_cons_cons] at hz
        rw [ih h.2 hz, show (y :: a).length + 1 - (n - rank z + 1) =
          ((y :: a).length - (n - rank z + 1)) + 1 from by omega, List.drop_succ_cons]
    · rw [if_neg (by simpa using hlt), show a.length + 1 - (n - rank z + 1) = 0 from by omega, List.drop_zero]

/-- The node of one rank on a lineage. -/
theorem Ranked.head_dropWhile (h : Ranked rank a) (hz : a.getLast? = some z) {n : Nat} (hn : rank z ≤ n)
    (hle : n < rank z + a.length) :
    ∃ y c, a.dropWhile (fun y => decide (n < rank y)) = y :: c ∧ y :: c <:+ a ∧ rank y = n := by
  rw [h.dropWhile_eq_drop hz hn]
  have hsuf : a.drop (a.length - (n - rank z + 1)) <:+ a := List.drop_suffix _ _
  have hlen : (a.drop (a.length - (n - rank z + 1))).length = n - rank z + 1 := by
    rw [List.length_drop]
    omega
  generalize a.drop (a.length - (n - rank z + 1)) = b at hsuf hlen
  cases b with
  | nil => simp at hlen
  | cons y c =>
    refine ⟨y, c, rfl, hsuf, ?_⟩
    have hlast : (y :: c).getLast? = some z := by
      obtain ⟨pre, rfl⟩ := hsuf
      rw [← hz, List.getLast?_append_of_ne_nil _ (List.cons_ne_nil _ _)]
    have := (h.suffix hsuf).rank_head hlast
    rw [List.length_cons] at hlen
    omega

end Lineage
