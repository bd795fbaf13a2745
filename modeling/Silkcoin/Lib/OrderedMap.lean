/-
  ORDERED MAPS AND THEIR ENTRIES: a map that is filled from the list of its entries is the map again, and
  what is put in under a new key and taken out again leaves it as it was.
-/
import Std.Data.ExtTreeMap
import Mathlib.Data.List.Basic

namespace OrderedMap

open Std

variable {K V : Type} [Ord K] [TransOrd K] [LawfulEqOrd K]

/-- The entries in turn; one whose key is there already is passed over. -/
def fill (items : List (K × V)) : ExtTreeMap K V :=
  items.foldl (fun m item => m.insertIfNew item.1 item.2) ∅

theorem getElem?_foldl_insertIfNew (items : List (K × V)) (m : ExtTreeMap K V) (k : K) (v : V)
    (hm : m[k]? = none) (hdistinct : items.Pairwise fun a b => ¬ compare a.1 b.1 = .eq) (hmem : (k, v) ∈ items) :
    (items.foldl (fun m item => m.insertIfNew item.1 item.2) m)[k]? = some v := by
  -- what is there is not written over
  have hkept : ∀ (items : List (K × V)) (m : ExtTreeMap K V), m[k]? = some v →
      (items.foldl (fun m item => m.insertIfNew item.1 item.2) m)[k]? = some v := by
    intro items
    induction items with
    | nil => exact fun m h => h
    | cons item items ih =>
      intro m h
      apply ih
      rw [ExtTreeMap.getElem?_insertIfNew, if_neg ?_, h]
      rintro ⟨heq, hnew⟩
      rw [LawfulEqOrd.eq_of_compare heq] at hnew
      exact hnew (ExtTreeMap.mem_iff_isSome_getElem?.mpr (by rw [h]; rfl))
  induction items generalizing m with
  | nil => cases hmem
  | cons item items ih =>
    obtain ⟨hhead, htail⟩ := List.pairwise_cons.mp hdistinct
    rcases List.mem_cons.mp hmem with rfl | hmem
    · have hnew : k ∉ m := by
        intro hthere
        have hsome := ExtTreeMap.mem_iff_isSome_getElem?.mp hthere
        rw [hm] at hsome
        cases hsome
      rw [List.foldl_cons]
      apply hkept items
      rw [ExtTreeMap.getElem?_insertIfNew, if_pos ⟨ReflOrd.compare_self, hnew⟩]
    · rw [List.foldl_cons]
      apply ih _ _ htail hmem
      rw [ExtTreeMap.getElem?_insertIfNew, if_neg (fun h => hhead (k, v) hmem h.1), hm]

theorem getElem?_foldl_of_notMem (items : List (K × V)) (m : ExtTreeMap K V) (k : K)
    (hk : ∀ v, (k, v) ∉ items) :
    (items.foldl (fun m item => m.insertIfNew item.1 item.2) m)[k]? = m[k]? := by
  induction items generalizing m with
  | nil => rfl
  | cons item items ih =>
    rw [List.foldl_cons, ih _ (fun v hv => hk v (List.mem_cons_of_mem _ hv)), ExtTreeMap.getElem?_insertIfNew,
      if_neg ?_]
    rintro ⟨heq, -⟩
    apply hk item.2
    rw [← LawfulEqOrd.eq_of_compare heq]
    exact List.mem_cons_self

/-- **A map is filled from its own entries.** -/
theorem fill_toList (m : ExtTreeMap K V) : fill m.toList = m := by
  apply ExtTreeMap.ext_getElem?
  intro k
  cases hk : m[k]? with
  | some v =>
    exact getElem?_foldl_insertIfNew _ _ _ _ ExtTreeMap.getElem?_empty ExtTreeMap.distinct_keys_toList
      (ExtTreeMap.mem_toList_iff_getElem?_eq_some.mpr hk)
  | none =>
    apply (getElem?_foldl_of_notMem _ _ _ ?_).trans ExtTreeMap.getElem?_empty
    intro v hv
    rw [ExtTreeMap.mem_toList_iff_getElem?_eq_some.mp hv] at hk
    cases hk

theorem getElem?_insert_eq (m : ExtTreeMap K V) (k a : K) (v : V) [DecidableEq K] :
    (m.insert k v)[a]? = if k = a then some v else m[a]? := by
  rw [ExtTreeMap.getElem?_insert]
  exact if_congr LawfulEqOrd.compare_eq_iff_eq rfl rfl

theorem getElem?_erase_eq (m : ExtTreeMap K V) (k a : K) [DecidableEq K] :
    (m.erase k)[a]? = if k = a then none else m[a]? := by
  rw [ExtTreeMap.getElem?_erase]
  exact if_congr LawfulEqOrd.compare_eq_iff_eq rfl rfl

/-- Taking out some keys, one after the other. -/
theorem getElem?_eraseAll (keys : List K) (m : ExtTreeMap K V) (a : K) [DecidableEq K] :
    (keys.foldl (fun m k => m.erase k) m)[a]? = if a ∈ keys then none else m[a]? := by
  induction keys generalizing m with
  | nil => rw [if_neg List.not_mem_nil, List.foldl_nil]
  | cons k keys ih =>
    rw [List.foldl_cons, ih, getElem?_erase_eq]
    by_cases hmem : a ∈ keys
    · rw [if_pos hmem, if_pos (List.mem_cons_of_mem k hmem)]
    · rw [if_neg hmem]
      refine if_congr ?_ rfl rfl
      rw [List.mem_cons]
      exact ⟨fun h => Or.inl h.symm, fun h => (h.resolve_right hmem).symm⟩

end OrderedMap
