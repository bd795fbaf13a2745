/-
  A list in any order, and the POSITION of every element of it.

  To take an element out of a list without moving the others, it is swapped with the last one and the last
  one is dropped; for that an element must know where it stands.  `Positioned` is the agreement of the list
  and the positions, both ways.  It is kept by putting an element at the end (`push`), by swapping two
  (`swap`), and by taking the last one off (`pop`).  An element has one position only, so the list has no
  element twice (`Positioned.nodup`).
-/
import Mathlib.Data.List.Nodup
import Mathlib.Logic.Function.Basic

variable {α : Type} [DecidableEq α]

/-- What has a position stands there, and what stands somewhere has this position. -/
def Positioned (v : List α) (pos : α → Option Int) : Prop :=
  ∀ a i, pos a = some i ↔ 0 ≤ i ∧ v[i.toNat]? = some a

namespace Positioned

variable {v : List α} {pos : α → Option Int} {a b : α}

omit [DecidableEq α] in
theorem pos_eq (h : Positioned v pos) {k : Nat} (hk : v[k]? = some a) : pos a = some (k : Int) :=
  (h a k).mpr ⟨Int.natCast_nonneg k, by rw [Int.toNat_natCast]; exact hk⟩

omit [DecidableEq α] in
theorem getElem?_of_pos (h : Positioned v pos) {i : Int} (hi : pos a = some i) :
    0 ≤ i ∧ v[i.toNat]? = some a := (h a i).mp hi

omit [DecidableEq α] in
theorem mem_iff (h : Positioned v pos) : a ∈ v ↔ ∃ i, pos a = some i := by
  constructor
  · intro ha
    obtain ⟨k, hk⟩ := List.mem_iff_getElem?.mp ha
    exact ⟨k, h.pos_eq hk⟩
  · rintro ⟨i, hi⟩
    exact List.mem_of_getElem? (h.getElem?_of_pos hi).2

omit [DecidableEq α] in
theorem nodup (h : Positioned v pos) : v.Nodup := by
  rw [List.nodup_iff_getElem?_ne_getElem?]
  intro i j hij hj heq
  have hjs : v[j]? = some v[j] := List.getElem?_eq_getElem hj
  have hi := h.pos_eq (heq.trans hjs)
  rw [h.pos_eq hjs] at hi
  have := Option.some.inj hi
  omega

omit [DecidableEq α] in
theorem nil : Positioned ([] : List α) (fun _ => none) := by
  intro a i
  constructor
  · intro h
    cases h
  · rintro ⟨-, h⟩
    cases h

/-- A new element, at the end. -/
theorem push (h : Positioned v pos) (ha : pos a = none) :
    Positioned (v ++ [a]) (Function.update pos a (some (v.length : Int))) := by
  have hav : a ∉ v := fun hmem => by
    obtain ⟨i, hi⟩ := h.mem_iff.mp hmem
    rw [ha] at hi
    cases hi
  intro b i
  by_cases hba : b = a
  · subst hba
    rw [Function.update_self, Option.some.injEq]
    constructor
    · rintro rfl
      exact ⟨Int.natCast_nonneg _, by rw [Int.toNat_natCast]; exact List.getElem?_concat_length⟩
    · rintro ⟨hi, hget⟩
      rcases Nat.lt_or_ge i.toNat v.length with hlt | hge
      · rw [List.getElem?_append_left hlt] at hget
        exact absurd (List.mem_of_getElem? hget) hav
      · have := (List.getElem?_eq_some_iff.mp hget).1
        rw [List.length_append, List.length_singleton] at this
        omega
  · rw [Function.update_of_ne hba, h b i]
    refine and_congr_right fun hi => ?_
    rcases Nat.lt_or_ge i.toNat v.length with hlt | hge
    · rw [List.getElem?_append_left hlt]
    · -- at the end stands the new one, and it is not `b`
      rw [List.getElem?_eq_none hge, List.getElem?_append_right hge]
      constructor
      · intro hnone
        cases hnone
      · intro hget
        have := List.mem_of_getElem? hget
        exact absurd (List.mem_singleton.mp this) hba

/-- The elements at two positions, swapped. -/
theorem swap (h : Positioned v pos) {i j : Nat} (hi : v[i]? = some a) (hj : v[j]? = some b) :
    Positioned ((v.set i b).set j a) (Function.update (Function.update pos a (some (j : Int))) b (some (i : Int))) := by
  have hilt := (List.getElem?_eq_some_iff.mp hi).1
  have hjlt := (List.getElem?_eq_some_iff.mp hj).1
  have hset : ∀ k : Nat, ((v.set i b).set j a)[k]? = if j = k then some a else if i = k then some b else v[k]? := by
    intro k
    rw [List.getElem?_set, List.length_set, List.getElem?_set]
    by_cases hjk : j = k
    · rw [if_pos hjk, if_pos hjk, if_pos (by omega)]
    · rw [if_neg hjk, if_neg hjk]
      by_cases hik : i = k
      · rw [if_pos hik, if_pos hik, if_pos (by omega)]
      · rw [if_neg hik, if_neg hik]
  have hab : a = b ↔ i = j := by
    constructor
    · rintro rfl
      have := (h.pos_eq hi).symm.trans (h.pos_eq hj)
      exact Int.ofNat.inj (Option.some.inj this)
    · rintro rfl
      exact Option.some.inj (hi.symm.trans hj)
  intro c k
  rw [hset]
  by_cases hcb : c = b
  · subst hcb
    rw [Function.update_self, Option.some.injEq]
    constructor
    · rintro rfl
      refine ⟨Int.natCast_nonneg _, ?_⟩
      rw [Int.toNat_natCast]
      by_cases hji : j = i
      · rw [if_pos hji, hab.mpr hji.symm]
      · rw [if_neg hji, if_pos rfl]
    · rintro ⟨hk, hget⟩
      by_cases hjk : j = k.toNat
      · rw [if_pos hjk] at hget
        have := hab.mp (Option.some.inj hget)
        omega
      · rw [if_neg hjk] at hget
        by_cases hik : i = k.toNat
        · omega
        · rw [if_neg hik] at hget
          have := (h.pos_eq hget).symm.trans (h.pos_eq hj)
          have := Option.some.inj this
          omega
  · rw [Function.update_of_ne hcb]
    by_cases hca : c = a
    · subst hca
      rw [Function.update_self, Option.some.injEq]
      constructor
      · rintro rfl
        exact ⟨Int.natCast_nonneg _, by rw [Int.toNat_natCast, if_pos rfl]⟩
      · rintro ⟨hk, hget⟩
        by_cases hjk : j = k.toNat
        · omega
        · rw [if_neg hjk] at hget
          by_cases hik : i = k.toNat
          · rw [if_pos hik] at hget
            exact absurd (Option.some.inj hget).symm hcb
          · rw [if_neg hik] at hget
            have := (h.pos_eq hget).symm.trans (h.pos_eq hi)
            have := Option.some.inj this
            omega
    · rw [Function.update_of_ne hca, h c k]
      refine and_congr_right fun hk => ?_
      by_cases hjk : j = k.toNat
      · rw [if_pos hjk, ← hjk, hj, Option.some.injEq, Option.some.injEq]
        exact ⟨fun he => absurd he.symm hcb, fun he => absurd he.symm hca⟩
      · rw [if_neg hjk]
        by_cases hik : i = k.toNat
        · rw [if_pos hik, ← hik, hi, Option.some.injEq, Option.some.injEq]
          exact ⟨fun he => absurd he.symm hca, fun he => absurd he.symm hcb⟩
        · rw [if_neg hik]

/-- The last element, taken off. -/
theorem pop (h : Positioned (v ++ [a]) pos) : Positioned v (Function.update pos a none) := by
  have hav : a ∉ v := by
    have := h.nodup
    rw [List.nodup_append] at this
    exact fun ha => this.2.2 a ha a (List.mem_singleton.mpr rfl) rfl
  intro b i
  by_cases hba : b = a
  · subst hba
    rw [Function.update_self]
    constructor
    · intro hnone
      cases hnone
    · rintro ⟨-, hget⟩
      exact absurd (List.mem_of_getElem? hget) hav
  · rw [Function.update_of_ne hba, h b i]
    refine and_congr_right fun hi => ?_
    rcases Nat.lt_or_ge i.toNat v.length with hlt | hge
    · rw [List.getElem?_append_left hlt]
    · rw [List.getElem?_eq_none hge, List.getElem?_append_right hge]
      constructor
      · intro hget
        have := List.mem_of_getElem? hget
        exact absurd (List.mem_singleton.mp this) hba
      · intro hnone
        cases hnone

end Positioned
