/-
  How much a READER takes off the front of a stream.

  A reader never puts bytes back: `Takes k` says that it leaves at least `k` bytes fewer.  So a loop that
  reads as long as there is something to read comes to an end.
-/
import Silkcoin.Lib.Codec

namespace Codec

variable {α β : Type}

/-- At least `k` bytes are gone. -/
def Takes (k : Nat) (get : Reader α) : Prop :=
  ∀ s a s', get.run s = some (a, s') → s'.bytes.length + k ≤ s.bytes.length

theorem takes_pure (a : α) : Takes 0 (pure a : Reader α) := by
  intro s b s' h
  obtain ⟨-, rfl⟩ := run_pure_eq_some.mp h
  exact Nat.le_refl _

/-- What comes after puts nothing back. -/
theorem Takes.bind {k : Nat} {g : Reader α} {f : α → Reader β} (hg : Takes k g) (hf : ∀ a, Takes 0 (f a)) :
    Takes k (g >>= f) := by
  intro s b s' h
  obtain ⟨a, s₁, ha, hb⟩ := run_bind_eq_some.mp h
  have h₁ := hg s a s₁ ha
  have h₂ := hf a s₁ b s' hb
  omega

/-- The value is handed on changed. -/
theorem Takes.map {k : Nat} {g : Reader α} (hg : Takes k g) (f : α → β) : Takes k (do return f (← g)) :=
  hg.bind fun a => takes_pure (f a)

theorem Takes.mono {j k : Nat} {g : Reader α} (hg : Takes k g) (h : j ≤ k) : Takes j g := by
  intro s a s' hs
  have := hg s a s' hs
  omega

theorem takes_readBytes (n : Nat) : Takes n (readBytes n) := by
  intro s l s' h
  change (if s.bytes.length < n then none else some (s.bytes.take n, { s with bytes := s.bytes.drop n })) =
    some (l, s') at h
  split at h
  · cases h
  · obtain rfl := (Prod.mk.inj (Option.some.inj h)).2
    rw [List.length_drop]
    omega

theorem takes_readLE (k : Nat) : Takes k (readLE k) := (takes_readBytes k).map ofLE

theorem takes_readLEInt (k : Nat) : Takes k (readLEInt k) := (takes_readLE k).map fun n => (n : Int).bmod (256 ^ k)

theorem takes_readAll {get : Reader α} (h : Takes 0 get) (n : Nat) : Takes 0 (readAll get n) := by
  induction n with
  | zero => exact takes_pure []
  | succ n ih => exact h.bind fun a => ih.map (a :: ·)

theorem takes_readChunks {piece : Nat → Reader (List α)} (h : ∀ n, Takes 0 (piece n)) (chunk nSize i : Nat)
    (v : List α) : Takes 0 (readChunks piece chunk nSize i v) := by
  induction hk : nSize - i using Nat.strong_induction_on generalizing i v with
  | h k ih =>
    rw [readChunks.eq_def]
    split
    · rename_i hmore
      exact (h _).bind fun w => ih _ (by omega) _ _ rfl
    · exact takes_pure v

end Codec
