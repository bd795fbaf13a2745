/-
  ASSIGNING BY TRIAL.

  Items are tried, one after the other, on a list of places, and each takes the first place that it fits and
  that is still free.  In general this loses items: one that fits two places may take the place of another.
  Where every item fits at most ONE place, a place has the first of the items that fit it (`lookup_assign`),
  and which places are taken does not depend on the order of the items.

  The items come as an ordered set, which knows neither in which order nor how often they were put in
  (`sortedSet_congr`).
-/
import Mathlib.Data.List.Dedup
import Mathlib.Data.List.Sort
import Silkcoin.Lib.Store

namespace Assign

open BatchStore

/-! ## Ordered sets -/

section Sets

variable {α : Type} [DecidableEq α] (r : α → α → Prop) [DecidableRel r]

/-- The items of a list as an ordered set: every one once, in their order. -/
def sortedSet (l : List α) : List α := l.dedup.insertionSort r

@[simp] theorem mem_sortedSet {l : List α} {a : α} : a ∈ sortedSet r l ↔ a ∈ l := by
  unfold sortedSet
  rw [List.mem_insertionSort, List.mem_dedup]

theorem sortedSet_congr [Std.Total r] [IsTrans α r] [Std.Antisymm r] {l l' : List α}
    (h : ∀ a, a ∈ l ↔ a ∈ l') : sortedSet r l = sortedSet r l' := by
  have hperm : l.dedup.Perm l'.dedup :=
    (List.perm_ext_iff_of_nodup (List.nodup_dedup l) (List.nodup_dedup l')).mpr fun a => by
      rw [List.mem_dedup, List.mem_dedup, h]
  refine List.Perm.eq_of_pairwise (fun a b _ _ hab hba => Std.Antisymm.antisymm a b hab hba)
    (List.pairwise_insertionSort r _) (List.pairwise_insertionSort r _) ?_
  exact (List.perm_insertionSort r _).trans (hperm.trans (List.perm_insertionSort r _).symm)

end Sets

/-! ## Reading the places in their order -/

/-- What is at the places that have something, in their order. -/
theorem forall₂_filterMap {α β : Type} {get : β → Option α} {R : α → β → Prop} : ∀ {places : List β},
    (∀ b ∈ places, ∀ a, get b = some a → R a b) →
    List.Forall₂ R (places.filterMap get) (places.filter fun b => (get b).isSome)
  | [], _ => .nil
  | b :: places, h => by
    have hrest := forall₂_filterMap fun b' hb' => h b' (List.mem_cons_of_mem _ hb')
    cases hget : get b with
    | none =>
      rw [List.filterMap_cons_none hget, List.filter_cons_of_neg (by rw [hget]; exact Bool.false_ne_true)]
      exact hrest
    | some a =>
      rw [List.filterMap_cons_some hget, List.filter_cons_of_pos (by rw [hget]; rfl)]
      exact .cons (h b List.mem_cons_self a hget) hrest

/-! ## Places -/

variable {α β : Type} [DecidableEq β] (fits : α → β → Bool) (places : List β)

/-- An item takes the first place that it fits and that is free. -/
def place (taken : StdMap β α) (a : α) : StdMap β α :=
  match places.find? fun b => !(taken.lookup b).isSome && fits a b with
  | some b => taken.insert b a
  | none => taken

def assign (items : List α) : StdMap β α := items.foldl (place fits places) ∅

/-- Every item fits at most one place. -/
def Unique (items : List α) : Prop :=
  ∀ a ∈ items, ∀ b ∈ places, ∀ b' ∈ places, fits a b = true → fits a b' = true → b = b'

variable {fits places} {items : List α} {b : β}

/-- One item: the place it fits has it, if it had none. -/
theorem lookup_place {taken : StdMap β α} {a : α} (hunique : Unique fits places [a]) (hb : b ∈ places) :
    (place fits places taken a).lookup b = (taken.lookup b).or (if fits a b then some a else none) := by
  unfold place
  cases hfind : places.find? fun b => !(taken.lookup b).isSome && fits a b with
  | none =>
    dsimp only
    cases htaken : taken.lookup b with
    | some _ => rfl
    | none =>
      have hfree := List.find?_eq_none.mp hfind b hb
      rw [htaken] at hfree
      rw [if_neg (by simpa using hfree), Option.none_or]
  | some b' =>
    dsimp only
    have hb' := List.mem_of_find?_eq_some hfind
    have hfits := List.find?_some hfind
    rw [Bool.and_eq_true, Bool.not_eq_true'] at hfits
    rw [lookup_insert_eq_ite]
    by_cases heq : b' = b
    · subst heq
      have hfree : taken.lookup b' = none := by simpa using hfits.1
      rw [if_pos rfl, if_pos hfits.2, hfree, Option.none_or]
    · -- it fits another place, and so not this one
      rw [if_neg heq, if_neg fun h => heq (hunique a List.mem_cons_self b' hb' b hb hfits.2 h), Option.or_none]

/-- A place has the first item that fits it. -/
theorem lookup_assign (hunique : Unique fits places items) (hb : b ∈ places) :
    (assign fits places items).lookup b = items.find? fun a => fits a b := by
  unfold assign
  induction items using List.reverseRecOn with
  | nil => exact AList.lookup_empty b
  | append_singleton items a ih =>
    have hinit : Unique fits places items := fun a ha => hunique a (List.mem_append_left _ ha)
    have hlast : Unique fits places [a] := fun a ha => hunique a (List.mem_append_right _ ha)
    rw [List.foldl_append, List.foldl_cons, List.foldl_nil, lookup_place hlast hb, ih hinit, List.find?_append,
      List.find?_singleton]

end Assign
