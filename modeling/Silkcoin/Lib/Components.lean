/-
  CONNECTED COMPONENTS out of groups that come one at a time.

  Two members of one group are CHAINED, and so are those at the ends of a chain of groups that overlap.  A
  family of parts has the components of the groups (`Components`) if its parts do not overlap and a part
  holds two members exactly if they are chained.

  A new group takes over every part that it hits (`absorb`); with it the parts are the components of one
  group more (`Components.absorb`), and in the end they do not depend on the order the groups came in.
-/
import Mathlib.Data.Finset.Union
import Mathlib.Logic.Relation

namespace Grouping

variable {α : Type*} {gs gs' : Set (Finset α)} {a b c : α}

/-- In one group. -/
def Together (gs : Set (Finset α)) (a b : α) : Prop := ∃ g ∈ gs, a ∈ g ∧ b ∈ g

/-- In one group, or at the ends of a chain of them. -/
def Chained (gs : Set (Finset α)) : α → α → Prop := Relation.TransGen (Together gs)

theorem Together.symm (h : Together gs a b) : Together gs b a := by
  obtain ⟨g, hg, ha, hb⟩ := h
  exact ⟨g, hg, hb, ha⟩

theorem Chained.symm (h : Chained gs a b) : Chained gs b a := by
  induction h with
  | single h => exact .single h.symm
  | tail _ h ih => exact Relation.TransGen.head h.symm ih

theorem Chained.mono (hsub : gs ⊆ gs') (h : Chained gs a b) : Chained gs' a b := by
  have hstep : Together gs ≤ Together gs' := by
    rintro x y ⟨g, hg, hx, hy⟩
    exact ⟨g, hsub hg, hx, hy⟩
  exact Relation.TransGen.mono hstep a b h

/-- THE COMPONENTS: parts that do not overlap, and hold what is chained. -/
structure Components (gs : Set (Finset α)) (parts : Finset (Finset α)) : Prop where
  disjoint : ∀ S ∈ parts, ∀ T ∈ parts, ∀ a, a ∈ S → a ∈ T → S = T
  chained : ∀ a b, (∃ S ∈ parts, a ∈ S ∧ b ∈ S) ↔ Chained gs a b
  empty : ∅ ∈ parts ↔ ∅ ∈ gs

theorem components_empty : Components (∅ : Set (Finset α)) ∅ := by
  refine ⟨fun S hS => absurd hS (Finset.notMem_empty S), fun a b => ⟨?_, fun h => ?_⟩, by simp⟩
  · rintro ⟨S, hS, -⟩
    exact absurd hS (Finset.notMem_empty S)
  · induction h with
    | single h =>
      obtain ⟨g, hg, -⟩ := h
      exact absurd hg (Set.notMem_empty g)
    | tail _ h _ =>
      obtain ⟨g, hg, -⟩ := h
      exact absurd hg (Set.notMem_empty g)

variable [DecidableEq α] {parts : Finset (Finset α)} {g : Finset α}

/-- The parts a group hits. -/
def hitBy (g : Finset α) (parts : Finset (Finset α)) : Finset (Finset α) :=
  parts.filter fun S => ¬ Disjoint g S

theorem mem_hitBy {S : Finset α} : S ∈ hitBy g parts ↔ S ∈ parts ∧ ∃ a, a ∈ g ∧ a ∈ S := by
  rw [hitBy, Finset.mem_filter, Finset.not_disjoint_iff]

/-- A group with the parts it hits. -/
def union (g : Finset α) (parts : Finset (Finset α)) : Finset α := g ∪ (hitBy g parts).biUnion id

theorem mem_union : a ∈ union g parts ↔ a ∈ g ∨ ∃ S ∈ hitBy g parts, a ∈ S := by
  rw [union, Finset.mem_union, Finset.mem_biUnion]
  rfl

/-- The parts after a group came: what it hits is one part now. -/
def absorb (g : Finset α) (parts : Finset (Finset α)) : Finset (Finset α) :=
  insert (union g parts) (parts \ hitBy g parts)

theorem mem_absorb {S : Finset α} :
    S ∈ absorb g parts ↔ S = union g parts ∨ (S ∈ parts ∧ S ∉ hitBy g parts) := by
  rw [absorb, Finset.mem_insert, Finset.mem_sdiff]

/-- What was not hit shares nothing with the new part. -/
theorem notMem_union (h : Components gs parts) {S : Finset α} (hS : S ∈ parts) (hnot : S ∉ hitBy g parts)
    (ha : a ∈ S) : a ∉ union g parts := by
  intro hunion
  rcases mem_union.mp hunion with hg | ⟨T, hT, haT⟩
  · exact hnot (mem_hitBy.mpr ⟨hS, a, hg, ha⟩)
  · have hsame := h.disjoint S hS T (mem_hitBy.mp hT).1 a ha haT
    exact hnot (hsame ▸ hT)

/-- All of the new part is chained to the group. -/
theorem chained_of_mem_union (h : Components gs parts) (ha : a ∈ union g parts) :
    ∃ b ∈ g, Chained (insert g gs) a b := by
  rcases mem_union.mp ha with hg | ⟨S, hS, haS⟩
  · exact ⟨a, hg, .single ⟨g, Set.mem_insert g gs, hg, hg⟩⟩
  · obtain ⟨hparts, b, hbg, hbS⟩ := mem_hitBy.mp hS
    exact ⟨b, hbg, ((h.chained a b).mp ⟨S, hparts, haS, hbS⟩).mono (Set.subset_insert g gs)⟩

/-- A GROUP COMES, and the parts are the components with it. -/
theorem Components.absorb (h : Components gs parts) : Components (insert g gs) (absorb g parts) := by
  have hdisjoint : ∀ S ∈ Grouping.absorb g parts, ∀ T ∈ Grouping.absorb g parts, ∀ a, a ∈ S → a ∈ T → S = T := by
    intro S hS T hT a haS haT
    rcases mem_absorb.mp hS with rfl | ⟨hS, hSnot⟩ <;> rcases mem_absorb.mp hT with rfl | ⟨hT, hTnot⟩
    · rfl
    · exact absurd haS (notMem_union h hT hTnot haT)
    · exact absurd haT (notMem_union h hS hSnot haS)
    · exact h.disjoint S hS T hT a haS haT
  -- two members of one group are in one part
  have hstep : ∀ a b, Together (insert g gs) a b → ∃ S ∈ Grouping.absorb g parts, a ∈ S ∧ b ∈ S := by
    rintro a b ⟨f, hf, ha, hb⟩
    rcases Set.mem_insert_iff.mp hf with rfl | hf
    · exact ⟨_, mem_absorb.mpr (Or.inl rfl), mem_union.mpr (Or.inl ha), mem_union.mpr (Or.inl hb)⟩
    · obtain ⟨S, hS, haS, hbS⟩ := (h.chained a b).mpr (.single ⟨f, hf, ha, hb⟩)
      by_cases hhit : S ∈ hitBy g parts
      · exact ⟨_, mem_absorb.mpr (Or.inl rfl), mem_union.mpr (Or.inr ⟨S, hhit, haS⟩),
          mem_union.mpr (Or.inr ⟨S, hhit, hbS⟩)⟩
      · exact ⟨S, mem_absorb.mpr (Or.inr ⟨hS, hhit⟩), haS, hbS⟩
  refine ⟨hdisjoint, fun a b => ⟨?_, fun hchained => ?_⟩, ?_⟩
  · rintro ⟨S, hS, ha, hb⟩
    rcases mem_absorb.mp hS with rfl | ⟨hS, -⟩
    · obtain ⟨x, hx, hax⟩ := chained_of_mem_union h ha
      obtain ⟨y, hy, hby⟩ := chained_of_mem_union h hb
      have hxy : Chained (insert g gs) x y := .single ⟨g, Set.mem_insert g gs, hx, hy⟩
      exact (hax.trans hxy).trans hby.symm
    · exact ((h.chained a b).mp ⟨S, hS, ha, hb⟩).mono (Set.subset_insert g gs)
  · induction hchained with
    | single hab => exact hstep _ _ hab
    | tail _ hbc ih =>
      obtain ⟨S, hS, ha, hb⟩ := ih
      obtain ⟨T, hT, hb', hc⟩ := hstep _ _ hbc
      exact ⟨S, hS, ha, hdisjoint T hT S hS _ hb' hb ▸ hc⟩
  · rw [mem_absorb, Set.mem_insert_iff]
    constructor
    · rintro (hunion | ⟨hempty, -⟩)
      · left
        symm
        rw [Finset.eq_empty_iff_forall_notMem]
        intro a ha
        have hmem : a ∈ (∅ : Finset α) := hunion ▸ mem_union.mpr (Or.inl ha)
        exact Finset.notMem_empty a hmem
      · exact Or.inr (h.empty.mp hempty)
    · rintro (rfl | hempty)
      · left
        symm
        rw [Finset.eq_empty_iff_forall_notMem]
        intro a ha
        rcases mem_union.mp ha with hnone | ⟨S, hS, -⟩
        · exact Finset.notMem_empty a hnone
        · obtain ⟨-, b, hb, -⟩ := mem_hitBy.mp hS
          exact Finset.notMem_empty b hb
      · refine Or.inr ⟨h.empty.mpr hempty, fun hhit => ?_⟩
        obtain ⟨-, b, -, hb⟩ := mem_hitBy.mp hhit
        exact Finset.notMem_empty b hb

end Grouping
