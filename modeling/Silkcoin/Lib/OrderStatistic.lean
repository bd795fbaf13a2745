/-
  ORDER STATISTICS: what stands at a place of a list once it is sorted.

  The element at place `k` is at least `m` exactly if no more than `k` elements are below `m`
  (`le_getElem_iff`).  So one need not sort to compare: it is enough to COUNT, and counting does not care
  which elements were taken out of a list and which were put in (`le_kth_iff`).
-/
import Mathlib.Data.List.Sort

namespace OrderStatistic

variable {α : Type} [LinearOrder α]

/-- How many elements are below `m`. -/
def below (m : α) (l : List α) : Nat := l.countP fun a => decide (a < m)

theorem below_cons (m a : α) (l : List α) : below m (a :: l) = (if a < m then 1 else 0) + below m l := by
  unfold below
  rw [List.countP_cons]
  by_cases h : a < m
  · simp only [h, decide_true, if_true]
    omega
  · simp only [h, decide_false, if_false]
    exact (Nat.zero_add _).symm

theorem below_eq_zero {m : α} {l : List α} (h : ∀ a ∈ l, m ≤ a) : below m l = 0 :=
  List.countP_eq_zero.mpr fun a ha hlt => absurd (of_decide_eq_true hlt) (not_lt.mpr (h a ha))

theorem below_sublist {m : α} {l l' : List α} (h : l.Sublist l') : below m l ≤ below m l' := h.countP_le

/-- In a sorted list the elements below `m` are in front. -/
theorem le_getElem_iff {m : α} : ∀ {l : List α}, l.Pairwise (· ≤ ·) → ∀ {k : Nat} {a : α}, l[k]? = some a →
    (m ≤ a ↔ below m l ≤ k)
  | [], _, k, a, hk => by
    rw [List.getElem?_nil] at hk
    cases hk
  | b :: l, hsorted, k, a, hk => by
    obtain ⟨hb, hsorted⟩ := List.pairwise_cons.mp hsorted
    -- from an element on that is not below `m` there are none
    have hzero : ¬ b < m → below m (b :: l) = 0 := by
      intro hm
      refine below_eq_zero fun c hc => ?_
      rcases List.mem_cons.mp hc with rfl | hc
      · exact not_lt.mp hm
      · exact le_trans (not_lt.mp hm) (hb c hc)
    cases k with
    | zero =>
      obtain rfl : b = a := Option.some.inj hk
      by_cases hm : b < m
      · rw [below_cons, if_pos hm]
        constructor
        · intro h
          exact absurd hm (not_lt.mpr h)
        · intro h
          omega
      · rw [hzero hm]
        exact ⟨fun _ => Nat.le_refl 0, fun _ => not_lt.mp hm⟩
    | succ k =>
      rw [List.getElem?_cons_succ] at hk
      by_cases hm : b < m
      · rw [le_getElem_iff hsorted hk, below_cons, if_pos hm]
        omega
      · rw [hzero hm]
        have hba := hb a (List.mem_of_getElem? hk)
        exact ⟨fun _ => Nat.zero_le _, fun _ => le_trans (not_lt.mp hm) hba⟩

/-- The same of any list, sorted first. -/
theorem le_kth_iff {m a : α} {l : List α} {k : Nat} (hk : (l.insertionSort (· ≤ ·))[k]? = some a) :
    m ≤ a ↔ below m l ≤ k := by
  rw [le_getElem_iff (List.pairwise_insertionSort (· ≤ ·) l) hk]
  unfold below
  rw [(List.perm_insertionSort (· ≤ ·) l).countP_eq]

end OrderStatistic
