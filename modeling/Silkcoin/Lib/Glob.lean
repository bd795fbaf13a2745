/-
  GLOB MASKS, as languages.

  A mask is a list of tokens: a letter that stands for itself, any one letter, or any text at all.  The
  language of the mask is the PRODUCT of theirs.  What there is to know is how a mask takes a text apart
  from the front, one token at a time; only `anyText` has two ways to do it (`mem_anyText`): it gives way,
  or it takes a letter and stays.
-/
import Mathlib.Computability.Language

namespace Glob

variable {α : Type}

inductive Token (α : Type) where
  | letter (a : α)
  | anyOne
  | anyText

/-- The texts a token stands for. -/
def Token.language : Token α → Language α
  | .letter a => {[a]}
  | .anyOne => {w | w.length = 1}
  | .anyText => Set.univ

/-- The texts a mask stands for. -/
def language (mask : List (Token α)) : Language α := (mask.map Token.language).prod

theorem language_cons (t : Token α) (mask : List (Token α)) :
    language (t :: mask) = t.language * language mask := by
  rw [language, List.map_cons, List.prod_cons]
  rfl

theorem mem_nil {w : List α} : w ∈ language ([] : List (Token α)) ↔ w = [] := Language.mem_one w

theorem mem_letter {a : α} {mask : List (Token α)} {w : List α} :
    w ∈ language (.letter a :: mask) ↔ ∃ w', w = a :: w' ∧ w' ∈ language mask := by
  rw [language_cons, Language.mem_mul]
  constructor
  · rintro ⟨v, hv, w', hw', rfl⟩
    obtain rfl : v = [a] := hv
    exact ⟨w', rfl, hw'⟩
  · rintro ⟨w', rfl, hw'⟩
    exact ⟨[a], rfl, w', hw', rfl⟩

theorem mem_anyOne {mask : List (Token α)} {w : List α} :
    w ∈ language (.anyOne :: mask) ↔ ∃ a w', w = a :: w' ∧ w' ∈ language mask := by
  rw [language_cons, Language.mem_mul]
  constructor
  · rintro ⟨v, hv, w', hw', rfl⟩
    obtain ⟨a, rfl⟩ := List.length_eq_one_iff.mp (show v.length = 1 from hv)
    exact ⟨a, w', rfl, hw'⟩
  · rintro ⟨a, w', rfl, hw'⟩
    exact ⟨[a], List.length_singleton, w', hw', rfl⟩

/-- Any text is none, or a letter and any text. -/
theorem mem_anyText {mask : List (Token α)} {w : List α} :
    w ∈ language (.anyText :: mask) ↔
      w ∈ language mask ∨ ∃ a w', w = a :: w' ∧ w' ∈ language (.anyText :: mask) := by
  simp only [language_cons, Language.mem_mul]
  constructor
  · rintro ⟨v, -, w', hw', rfl⟩
    cases v with
    | nil => exact Or.inl hw'
    | cons a v => exact Or.inr ⟨a, v ++ w', rfl, v, Set.mem_univ v, w', hw', rfl⟩
  · rintro (hw | ⟨a, -, rfl, v, -, w', hw', rfl⟩)
    · exact ⟨[], Set.mem_univ [], w, hw, rfl⟩
    · exact ⟨a :: v, Set.mem_univ _, w', hw', rfl⟩

end Glob
