/-
  MARKS IN FRONT OF ITEMS, and what lies between them.

  A list is QUIET if the mark begins nowhere in it.  A mark that no end of itself begins (`Borderless`)
  cannot begin in what is quiet and end in the next mark: it is found exactly where it was put
  (`search_quiet_append`).
-/
import Silkcoin.Lib.Incremental

namespace Incremental

variable {β : Type*} [DecidableEq β] {mark l l' : List β}

/-- The mark is not found. -/
def Quiet (mark l : List β) : Prop := search mark l = l.length

instance (mark l : List β) : Decidable (Quiet mark l) := inferInstanceAs (Decidable (_ = _))

theorem quiet_iff (hmark : mark ≠ []) : Quiet mark l ↔ ∀ i, ¬ mark <+: l.drop i := by
  constructor
  · intro hquiet i hprefix
    by_cases hi : i < l.length
    · exact not_prefix_of_lt_search (by rw [hquiet]; exact hi) hprefix
    · rw [List.drop_eq_nil_of_le (by omega)] at hprefix
      exact hmark (List.prefix_nil.mp hprefix)
  · intro hnone
    have hle : search mark l ≤ l.length := search_le_length
    rcases Nat.lt_or_eq_of_le hle with hlt | heq
    · exact absurd (prefix_drop_search hlt) (hnone _)
    · exact heq

/-- No end of the mark, but the whole of it, is a beginning of it. -/
def Borderless (mark : List β) : Prop := ∀ k < mark.length, 0 < k → ¬ mark.drop k <+: mark

instance (mark : List β) : Decidable (Borderless mark) :=
  inferInstanceAs (Decidable (∀ k < mark.length, 0 < k → ¬ mark.drop k <+: mark))

/-- THE MARK IS FOUND where it was put, behind what is quiet. -/
theorem search_quiet_append (hmark : mark ≠ []) (hborder : Borderless mark) (hquiet : Quiet mark l) :
    search mark (l ++ (mark ++ l')) = l.length := by
  have hpos := List.length_pos_iff.mpr hmark
  refine search_eq (by rw [List.length_append, List.length_append]; omega) ?_ fun j hj hprefix => ?_
  · rw [List.drop_left]
    exact List.prefix_append mark l'
  by_cases hfit : j + mark.length ≤ l.length
  · exact (quiet_iff hmark).mp hquiet j ((prefix_drop_append hfit).mp hprefix)
  · -- its end would begin the mark
    rw [List.drop_append_of_le_length hj.le] at hprefix
    obtain ⟨rest, hrest⟩ := hprefix
    have hlen : (l.drop j).length = l.length - j := List.length_drop
    refine hborder (l.length - j) (by omega) (by omega) ?_
    have htail := congrArg (List.drop (l.length - j)) hrest
    rw [List.drop_append_of_le_length (by omega), ← hlen, List.drop_left, hlen] at htail
    have hprefix' : mark.drop (l.length - j) <+: mark ++ l' := ⟨rest, htail⟩
    refine List.prefix_of_prefix_length_le hprefix' (List.prefix_append mark l') ?_
    rw [List.length_drop]
    omega

end Incremental
