/-
  MATCHING IN ORDER.

  The items of one list are matched, in their order, with items of another one that fit them; what is left
  over in the second list is passed by.  As a relation this is `List.SublistForall₂`.  The GREEDY way is
  to give every item the first that fits.  It finds a matching if there is one (`greedy_iff`): an item
  that is taken early was not needed by an item before, and one later in the list can always be given up
  for it.

  From which end the lists are read makes no difference (`sublistForall₂_reverse`).
-/
import Mathlib.Data.List.Forall2
import Mathlib.Data.List.NodupEquivFin

namespace Matching

variable {α β : Type}

/-- Every item takes the first that fits it. -/
def greedy (fits : α → β → Bool) : List β → List α → Bool
  | _, [] => true
  | [], _ :: _ => false
  | b :: bs, a :: as => if fits a b then greedy fits bs as else greedy fits bs (a :: as)

variable {fits : α → β → Bool} {R : α → β → Prop}

/-- A matching of more items is one of fewer. -/
theorem sublistForall₂_tail {a : α} {as : List α} : ∀ {bs : List β},
    List.SublistForall₂ R (a :: as) bs → List.SublistForall₂ R as bs
  | _, .cons _ h => .cons_right h
  | _, .cons_right h => .cons_right (sublistForall₂_tail h)

/-- Where the first item fits the first item it may as well take it. -/
theorem sublistForall₂_cons_iff {a : α} {b : β} {as : List α} {bs : List β} (h : R a b) :
    List.SublistForall₂ R (a :: as) (b :: bs) ↔ List.SublistForall₂ R as bs := by
  constructor
  · intro hm
    cases hm with
    | cons _ hm => exact hm
    | cons_right hm => exact sublistForall₂_tail hm
  · exact .cons h

/-- And where it does not, the matching is one of the rest. -/
theorem sublistForall₂_cons_of_not {a : α} {b : β} {as : List α} {bs : List β} (h : ¬ R a b) :
    List.SublistForall₂ R (a :: as) (b :: bs) ↔ List.SublistForall₂ R (a :: as) bs := by
  constructor
  · intro hm
    cases hm with
    | cons hr _ => exact absurd hr h
    | cons_right hm => exact hm
  · exact .cons_right

theorem greedy_iff : ∀ {bs : List β} {as : List α},
    greedy fits bs as = true ↔ List.SublistForall₂ (fun a b => fits a b = true) as bs
  | bs, [] => by
    rw [greedy]
    exact ⟨fun _ => .nil, fun _ => rfl⟩
  | [], a :: as => by
    rw [greedy]
    constructor
    · intro h
      cases h
    · intro h
      cases h
  | b :: bs, a :: as => by
    rw [greedy]
    by_cases h : fits a b = true
    · rw [if_pos h, greedy_iff]
      exact (@sublistForall₂_cons_iff _ _ (fun a b => fits a b = true) _ _ _ _ h).symm
    · rw [if_neg h, greedy_iff]
      exact (@sublistForall₂_cons_of_not _ _ (fun a b => fits a b = true) _ _ _ _ h).symm

theorem length_le_of_greedy {bs : List β} {as : List α} (h : greedy fits bs as = true) :
    as.length ≤ bs.length := by
  obtain ⟨l, hl, hsub⟩ := List.sublistForall₂_iff.mp (greedy_iff.mp h)
  rw [hl.length_eq]
  exact hsub.length_le

/-- Every item that is matched fits one of the others. -/
theorem exists_of_mem {a : α} {as : List α} : ∀ {bs : List β}, List.SublistForall₂ R as bs → a ∈ as →
    ∃ b ∈ bs, R a b
  | _, .nil, hmem => absurd hmem List.not_mem_nil
  | b :: _, .cons hr h, hmem => by
    rcases List.mem_cons.mp hmem with rfl | hmem
    · exact ⟨b, List.mem_cons_self, hr⟩
    · obtain ⟨b', hb', hr'⟩ := exists_of_mem h hmem
      exact ⟨b', List.mem_cons_of_mem _ hb', hr'⟩
  | _, .cons_right h, hmem =>
    let ⟨b', hb', hr'⟩ := exists_of_mem h hmem
    ⟨b', List.mem_cons_of_mem _ hb', hr'⟩

theorem sublistForall₂_reverse {as : List α} {bs : List β} (h : List.SublistForall₂ R as bs) :
    List.SublistForall₂ R as.reverse bs.reverse := by
  obtain ⟨l, hl, hsub⟩ := List.sublistForall₂_iff.mp h
  exact List.sublistForall₂_iff.mpr ⟨l.reverse, List.rel_reverse hl, hsub.reverse⟩

theorem sublistForall₂_reverse_iff {as : List α} {bs : List β} :
    List.SublistForall₂ R as.reverse bs.reverse ↔ List.SublistForall₂ R as bs := by
  refine ⟨fun h => ?_, sublistForall₂_reverse⟩
  have h := sublistForall₂_reverse h
  rwa [List.reverse_reverse, List.reverse_reverse] at h

/-- A matching, as a map of places that keeps the order. -/
theorem sublistForall₂_iff_orderEmbedding {as : List α} {bs : List β} : List.SublistForall₂ R as bs ↔
    ∃ f : Fin as.length ↪o Fin bs.length, ∀ i, R (as.get i) (bs.get (f i)) := by
  rw [List.sublistForall₂_iff]
  constructor
  · rintro ⟨l, hl, hsub⟩
    obtain ⟨f, hf⟩ := List.sublist_iff_exists_fin_orderEmbedding_get_eq.mp hsub
    refine ⟨(Fin.castOrderIso hl.length_eq).toOrderEmbedding.trans f, fun i => ?_⟩
    show R (as.get i) (bs.get (f (Fin.cast hl.length_eq i)))
    rw [← hf]
    exact hl.get i.2 _
  · rintro ⟨f, hf⟩
    have hlength : (List.ofFn fun i => bs.get (f i)).length = as.length := List.length_ofFn
    refine ⟨List.ofFn fun i => bs.get (f i), List.forall₂_iff_get.mpr ⟨hlength.symm, ?_⟩, ?_⟩
    · intro i h₁ h₂
      rw [List.get_ofFn]
      exact hf ⟨i, h₁⟩
    · refine List.sublist_iff_exists_fin_orderEmbedding_get_eq.mpr
        ⟨(Fin.castOrderIso hlength).toOrderEmbedding.trans f, fun i => ?_⟩
      rw [List.get_ofFn]
      rfl

end Matching
