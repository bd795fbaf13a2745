/-
  A map of objects and a MULTI-valued inverse index.

  Every object names a list of places, and several objects may name one place; the index holds for each
  place the set of the objects that name it.  `SetIndex` is the agreement of the two, both ways.  It is
  kept by entering an object (`SetIndex.insert`) and by taking one out (`SetIndex.erase`), also when an
  object names a place more than once.

  `NoResidue` says that no place is left in the index with nothing under it.  Taking an object out
  clears the places it was the last at; but a place that is only LOOKED at (`touch`, the `[]` of a
  `std::map`) is there from then on.
-/
import Silkcoin.Lib.Store
import Mathlib.Data.Finset.Basic

namespace BatchStore

variable {K O T : Type} [DecidableEq K] [DecidableEq O]

/-! ## The operations on the index -/

/-- What is under a place; nothing, if the place is not there. -/
def under (index : StdMap O (Finset K)) (o : O) : Finset K := (index.lookup o).getD ∅

/-- Make the place if it is not there. -/
def touch (index : StdMap O (Finset K)) (o : O) : StdMap O (Finset K) := index.insert o (under index o)

def addAt (k : K) (index : StdMap O (Finset K)) (o : O) : StdMap O (Finset K) :=
  index.insert o (insert k (under index o))

/-- The place goes with the last that was under it. -/
def dropAt (k : K) (index : StdMap O (Finset K)) (o : O) : StdMap O (Finset K) :=
  if (under index o).erase k = ∅ then index.erase o else index.insert o ((under index o).erase k)

/-- No place is left with nothing under it. -/
def NoResidue (index : StdMap O (Finset K)) : Prop := ∀ o s, index.lookup o = some s → s.Nonempty

variable {index : StdMap O (Finset K)}

omit [DecidableEq K] in
theorem under_touch (o o' : O) : under (touch index o) o' = under index o' := by
  unfold touch
  show ((index.insert o (under index o)).lookup o').getD ∅ = under index o'
  rw [lookup_insert_eq_ite]
  by_cases h : o = o'
  · rw [if_pos h, h]
    rfl
  · rw [if_neg h]
    rfl

theorem under_addAt (k : K) (o o' : O) :
    under (addAt k index o) o' = if o = o' then insert k (under index o') else under index o' := by
  show ((index.insert o (insert k (under index o))).lookup o').getD ∅ = _
  rw [lookup_insert_eq_ite]
  by_cases h : o = o'
  · rw [if_pos h, if_pos h, h]
    rfl
  · rw [if_neg h, if_neg h]
    rfl

theorem under_dropAt (k : K) (o o' : O) :
    under (dropAt k index o) o' = if o = o' then (under index o').erase k else under index o' := by
  unfold dropAt
  by_cases h : o = o'
  · subst h
    rw [if_pos rfl]
    split
    · rename_i hempty
      rw [hempty]
      show ((index.erase o).lookup o).getD ∅ = ∅
      rw [AList.lookup_erase]
      rfl
    · show ((index.insert o _).lookup o).getD ∅ = _
      rw [AList.lookup_insert]
      rfl
  · rw [if_neg h]
    split
    · show ((index.erase o).lookup o').getD ∅ = _
      rw [AList.lookup_erase_ne (fun he => h he.symm)]
      rfl
    · show ((index.insert o _).lookup o').getD ∅ = _
      rw [AList.lookup_insert_ne (fun he => h he.symm)]
      rfl

theorem mem_under_foldl_addAt (k k' : K) (o : O) (os : List O) :
    k' ∈ under (os.foldl (addAt k) index) o ↔ k' ∈ under index o ∨ k' = k ∧ o ∈ os := by
  induction os generalizing index with
  | nil => simp
  | cons o' os ih =>
    rw [List.foldl_cons, ih, under_addAt]
    by_cases h : o' = o
    · rw [if_pos h, Finset.mem_insert]
      constructor
      · rintro ((rfl | hmem) | ⟨rfl, -⟩)
        · exact Or.inr ⟨rfl, List.mem_cons.mpr (Or.inl h.symm)⟩
        · exact Or.inl hmem
        · exact Or.inr ⟨rfl, List.mem_cons.mpr (Or.inl h.symm)⟩
      · rintro (hmem | ⟨rfl, -⟩)
        · exact Or.inl (Or.inr hmem)
        · exact Or.inl (Or.inl rfl)
    · rw [if_neg h]
      constructor
      · rintro (hmem | ⟨rfl, hos⟩)
        · exact Or.inl hmem
        · exact Or.inr ⟨rfl, List.mem_cons_of_mem _ hos⟩
      · rintro (hmem | ⟨rfl, hos⟩)
        · exact Or.inl hmem
        · exact Or.inr ⟨rfl, (List.mem_cons.mp hos).resolve_left fun he => h he.symm⟩

theorem mem_under_foldl_dropAt (k k' : K) (o : O) (os : List O) :
    k' ∈ under (os.foldl (dropAt k) index) o ↔ k' ∈ under index o ∧ ¬ (k' = k ∧ o ∈ os) := by
  induction os generalizing index with
  | nil => simp
  | cons o' os ih =>
    rw [List.foldl_cons, ih, under_dropAt]
    by_cases h : o' = o
    · rw [if_pos h, Finset.mem_erase]
      constructor
      · rintro ⟨⟨hne, hmem⟩, -⟩
        exact ⟨hmem, fun hf => hne hf.1⟩
      · rintro ⟨hmem, hnot⟩
        have hne : k' ≠ k := fun he => hnot ⟨he, List.mem_cons.mpr (Or.inl h.symm)⟩
        exact ⟨⟨hne, hmem⟩, fun hf => hne hf.1⟩
    · rw [if_neg h]
      constructor
      · rintro ⟨hmem, hnot⟩
        exact ⟨hmem, fun hf => hnot ⟨hf.1, (List.mem_cons.mp hf.2).resolve_left fun he => h he.symm⟩⟩
      · rintro ⟨hmem, hnot⟩
        exact ⟨hmem, fun hf => hnot ⟨hf.1, List.mem_cons_of_mem _ hf.2⟩⟩

/-! ## Residue -/

theorem NoResidue.addAt (h : NoResidue index) (k : K) (o : O) : NoResidue (addAt k index o) := by
  intro o' s hs
  have hs : (index.insert o (Insert.insert k (under index o))).lookup o' = some s := hs
  rw [lookup_insert_eq_ite] at hs
  split at hs
  · cases hs
    exact Finset.insert_nonempty _ _
  · exact h o' s hs

theorem NoResidue.dropAt (h : NoResidue index) (k : K) (o : O) : NoResidue (dropAt k index o) := by
  intro o' s hs
  unfold BatchStore.dropAt at hs
  split at hs
  · by_cases heq : o' = o
    · rw [heq, AList.lookup_erase] at hs
      cases hs
    · rw [AList.lookup_erase_ne heq] at hs
      exact h o' s hs
  · rename_i hne
    rw [lookup_insert_eq_ite] at hs
    split at hs
    · cases hs
      exact Finset.nonempty_iff_ne_empty.mpr hne
    · exact h o' s hs

omit [DecidableEq K] in

omit [DecidableEq K] in
theorem NoResidue.foldl {step : StdMap O (Finset K) → O → StdMap O (Finset K)}
    (hstep : ∀ index o, NoResidue index → NoResidue (step index o)) (os : List O)
    (h : NoResidue index) : NoResidue (os.foldl step index) := by
  induction os generalizing index with
  | nil => exact h
  | cons o os ih => exact ih (hstep index o h)

/-! ## The agreement -/

/-- The index holds under a place exactly the objects that name it. -/
def SetIndex (places : T → List O) (objects : StdMap K T) (index : StdMap O (Finset K)) : Prop :=
  ∀ o k, k ∈ under index o ↔ ∃ t, objects.lookup k = some t ∧ o ∈ places t

variable {places : T → List O} {objects : StdMap K T}

theorem SetIndex.empty : SetIndex places (∅ : StdMap K T) ∅ := by
  intro o k
  constructor
  · intro h
    exact absurd h (Finset.notMem_empty k)
  · rintro ⟨t, ht, -⟩
    cases ht

/-- A new object is entered under all its places. -/
theorem SetIndex.insert (h : SetIndex places objects index) {k : K}
    (hnew : objects.lookup k = none) (t : T) :
    SetIndex places (objects.insert k t) ((places t).foldl (addAt k) index) := by
  intro o k'
  rw [mem_under_foldl_addAt, h o k', lookup_insert_eq_ite]
  by_cases heq : k = k'
  · subst heq
    rw [if_pos rfl, hnew]
    constructor
    · rintro (⟨t', ht', -⟩ | ⟨-, ho⟩)
      · cases ht'
      · exact ⟨t, rfl, ho⟩
    · rintro ⟨t', ht', ho⟩
      cases ht'
      exact Or.inr ⟨rfl, ho⟩
  · rw [if_neg heq]
    constructor
    · rintro (hold | ⟨he, -⟩)
      · exact hold
      · exact absurd he.symm heq
    · exact Or.inl

/-- An object is taken out from under all its places. -/
theorem SetIndex.erase (h : SetIndex places objects index) {k : K} {t : T}
    (ht : objects.lookup k = some t) :
    SetIndex places (objects.erase k) ((places t).foldl (dropAt k) index) := by
  intro o k'
  rw [mem_under_foldl_dropAt, h o k']
  by_cases heq : k' = k
  · subst heq
    rw [ht, AList.lookup_erase]
    constructor
    · rintro ⟨⟨t', ht', ho⟩, hnot⟩
      cases ht'
      exact absurd ⟨rfl, ho⟩ hnot
    · rintro ⟨t', ht', -⟩
      cases ht'
  · rw [AList.lookup_erase_ne heq]
    constructor
    · rintro ⟨hold, -⟩
      exact hold
    · intro hold
      exact ⟨hold, fun hf => heq hf.1⟩

end BatchStore
