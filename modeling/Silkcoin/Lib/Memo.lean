/-
  ASKING AGAIN what is remembered by key.

  A pass over a list asks every entry a question.  The answer may depend on what is remembered under the
  entry's key, and replaces it.  If no question is answered differently once its own answer is remembered
  (`Settled`), and no key comes twice, then a second pass over the same list gives the same answers, and
  remembers the same (`pass_again`).
-/
import Mathlib.Logic.Function.Basic
import Mathlib.Data.List.Nodup

namespace Memo

variable {κ β γ α ε : Type*} [DecidableEq κ]

/-- A question: the answers of one entry, and what is remembered of it. -/
abbrev Question (β γ α ε : Type*) := β → γ → Except ε (List α × γ)

/-- One turn: the answers come behind those there are. -/
def turn (key : β → κ) (ask : Question β γ α ε) (acc : List α × (κ → γ)) (e : β) :
    Except ε (List α × (κ → γ)) :=
  (ask e (acc.2 (key e))).map fun r => (acc.1 ++ r.1, Function.update acc.2 (key e) r.2)

def pass (key : β → κ) (ask : Question β γ α ε) (l : List β) (acc : List α × (κ → γ)) :
    Except ε (List α × (κ → γ)) := l.foldlM (turn key ask) acc

/-- To remember its answer does not change a question's answer. -/
def Settled (ask : Question β γ α ε) : Prop :=
  ∀ e c answers c', ask e c = .ok (answers, c') → ask e c' = .ok (answers, c')

variable {key : β → κ} {ask : Question β γ α ε}

theorem turn_ok {acc acc' : List α × (κ → γ)} {e : β} (h : turn key ask acc e = .ok acc') :
    ∃ answers c, ask e (acc.2 (key e)) = .ok (answers, c) ∧
      acc' = (acc.1 ++ answers, Function.update acc.2 (key e) c) := by
  rcases hask : ask e (acc.2 (key e)) with err | ⟨answers, c⟩
  · rw [turn, hask] at h
    cases h
  · rw [turn, hask] at h
    cases h
    exact ⟨answers, c, rfl, rfl⟩

theorem pass_cons_ok {acc acc' : List α × (κ → γ)} {e : β} {l : List β}
    (h : pass key ask (e :: l) acc = .ok acc') :
    ∃ mid, turn key ask acc e = .ok mid ∧ pass key ask l mid = .ok acc' := by
  rw [pass, List.foldlM_cons] at h
  rcases hturn : turn key ask acc e with err | mid
  · rw [hturn] at h
    cases h
  · rw [hturn] at h
    exact ⟨mid, rfl, h⟩

/-- A key that does not come up is remembered as before. -/
theorem pass_other {l : List β} {acc acc' : List α × (κ → γ)} (h : pass key ask l acc = .ok acc') {k : κ}
    (hk : k ∉ l.map key) : acc'.2 k = acc.2 k := by
  induction l generalizing acc with
  | nil =>
    cases h
    rfl
  | cons e l ih =>
    obtain ⟨mid, hturn, hrest⟩ := pass_cons_ok h
    obtain ⟨answers, c, -, rfl⟩ := turn_ok hturn
    rw [ih hrest fun hmem => hk (List.mem_cons_of_mem _ hmem)]
    refine Function.update_of_ne (fun heq => hk ?_) _ _
    rw [heq]
    exact List.mem_cons_self

/-- THE ANSWERS are those of the entries, each asked with what is remembered at the start. -/
theorem mem_pass {l : List β} (hnodup : (l.map key).Nodup) {acc acc' : List α × (κ → γ)}
    (h : pass key ask l acc = .ok acc') {a : α} :
    a ∈ acc'.1 ↔ a ∈ acc.1 ∨ ∃ e ∈ l, ∃ answers c, ask e (acc.2 (key e)) = .ok (answers, c) ∧ a ∈ answers := by
  induction l generalizing acc with
  | nil =>
    cases h
    constructor
    · exact Or.inl
    · rintro (ha | ⟨e, he, -⟩)
      · exact ha
      · exact absurd he List.not_mem_nil
  | cons e l ih =>
    obtain ⟨hnew, hnodup⟩ := List.nodup_cons.mp hnodup
    obtain ⟨mid, hturn, hrest⟩ := pass_cons_ok h
    obtain ⟨answers, c, hans, rfl⟩ := turn_ok hturn
    have hother : ∀ e' ∈ l, Function.update acc.2 (key e) c (key e') = acc.2 (key e') := by
      intro e' he'
      refine Function.update_of_ne (fun heq => hnew ?_) _ _
      rw [← heq]
      exact List.mem_map_of_mem he'
    rw [ih hnodup hrest, List.mem_append]
    constructor
    · rintro ((ha | ha) | ⟨e', he', answers', c', hans', ha⟩)
      · exact Or.inl ha
      · exact Or.inr ⟨e, List.mem_cons_self, answers, c, hans, ha⟩
      · have hans' : ask e' (Function.update acc.2 (key e) c (key e')) = .ok (answers', c') := hans'
        rw [hother e' he'] at hans'
        exact Or.inr ⟨e', List.mem_cons_of_mem _ he', answers', c', hans', ha⟩
    · rintro (ha | ⟨e', he', answers', c', hans', ha⟩)
      · exact Or.inl (Or.inl ha)
      · rcases List.mem_cons.mp he' with rfl | he'
        · rw [hans] at hans'
          cases hans'
          exact Or.inl (Or.inr ha)
        · rw [← hother e' he'] at hans'
          exact Or.inr ⟨e', he', answers', c', hans', ha⟩

/-- No question of a pass that comes to its end fails. -/
theorem pass_asked {l : List β} (hnodup : (l.map key).Nodup) {acc acc' : List α × (κ → γ)}
    (h : pass key ask l acc = .ok acc') {e : β} (he : e ∈ l) :
    ∃ answers c, ask e (acc.2 (key e)) = .ok (answers, c) := by
  induction l generalizing acc with
  | nil => exact absurd he List.not_mem_nil
  | cons e₀ l ih =>
    obtain ⟨hnew, hnodup⟩ := List.nodup_cons.mp hnodup
    obtain ⟨mid, hturn, hrest⟩ := pass_cons_ok h
    obtain ⟨answers, c, hans, rfl⟩ := turn_ok hturn
    rcases List.mem_cons.mp he with rfl | he
    · exact ⟨answers, c, hans⟩
    · have hne : key e ≠ key e₀ := by
        intro heq
        rw [← heq] at hnew
        exact hnew (List.mem_map_of_mem he)
      obtain ⟨answers', c', hans'⟩ := ih hnodup hrest he
      have hans' : ask e (Function.update acc.2 (key e₀) c (key e)) = .ok (answers', c') := hans'
      rw [Function.update_of_ne hne] at hans'
      exact ⟨answers', c', hans'⟩

/-- If answers of different keys are related, and those of one question among each other, all are. -/
theorem pass_pairwise {R : α → α → Prop} {Own : κ → α → Prop}
    (hcross : ∀ k k' a b, k ≠ k' → Own k a → Own k' b → R a b) {l : List β} (hnodup : (l.map key).Nodup)
    {acc acc' : List α × (κ → γ)} (h : pass key ask l acc = .ok acc') (hacc : acc.1.Pairwise R)
    (hold : ∀ a ∈ acc.1, ∃ k ∉ l.map key, Own k a)
    (hask : ∀ e ∈ l, ∀ c answers c', ask e c = .ok (answers, c') →
      answers.Pairwise R ∧ ∀ a ∈ answers, Own (key e) a) : acc'.1.Pairwise R := by
  induction l generalizing acc with
  | nil =>
    cases h
    exact hacc
  | cons e l ih =>
    obtain ⟨hnew, hnodup⟩ := List.nodup_cons.mp hnodup
    obtain ⟨mid, hturn, hrest⟩ := pass_cons_ok h
    obtain ⟨answers, c, hans, rfl⟩ := turn_ok hturn
    obtain ⟨hpair, hown⟩ := hask e List.mem_cons_self _ _ _ hans
    refine ih hnodup hrest ?_ ?_ fun e' he' => hask e' (List.mem_cons_of_mem _ he')
    · refine List.pairwise_append.mpr ⟨hacc, hpair, fun a ha b hb => ?_⟩
      obtain ⟨k, hk, hka⟩ := hold a ha
      exact hcross k (key e) a b (fun heq => hk (heq ▸ List.mem_cons_self)) hka (hown b hb)
    · intro a ha
      rcases List.mem_append.mp ha with ha | ha
      · obtain ⟨k, hk, hka⟩ := hold a ha
        exact ⟨k, fun hmem => hk (List.mem_cons_of_mem _ hmem), hka⟩
      · exact ⟨key e, hnew, hown a ha⟩

/-- THE SECOND PASS is the first one. -/
theorem pass_again (hsettled : Settled ask) {l : List β} (hnodup : (l.map key).Nodup) {as as' : List α}
    {cache cache' : κ → γ} (h : pass key ask l (as, cache) = .ok (as', cache')) :
    pass key ask l (as, cache') = .ok (as', cache') := by
  -- any memory that agrees with what is remembered in the end will do
  have hall : ∀ (l : List β), (l.map key).Nodup → ∀ (as : List α) (cache mem : κ → γ),
      pass key ask l (as, cache) = .ok (as', cache') → (∀ e ∈ l, mem (key e) = cache' (key e)) →
      pass key ask l (as, mem) = .ok (as', mem) := by
    intro l
    induction l with
    | nil =>
      intro _ as cache mem h _
      cases h
      rfl
    | cons e l ih =>
      intro hnodup as cache mem h hmem
      obtain ⟨hnew, hnodup⟩ := List.nodup_cons.mp hnodup
      obtain ⟨mid, hturn, hrest⟩ := pass_cons_ok h
      obtain ⟨answers, c, hans, rfl⟩ := turn_ok hturn
      have hlast : cache' (key e) = c := by
        have hlast : cache' (key e) = Function.update cache (key e) c (key e) := pass_other hrest hnew
        rw [hlast, Function.update_self]
      have hsame : turn key ask (as, mem) e = .ok (as ++ answers, mem) := by
        have hask : ask e (mem (key e)) = .ok (answers, mem (key e)) := by
          rw [hmem e List.mem_cons_self, hlast]
          exact hsettled e _ answers c hans
        rw [turn, hask]
        show Except.ok (as ++ answers, Function.update mem (key e) (mem (key e))) = _
        rw [Function.update_eq_self]
      rw [pass, List.foldlM_cons, hsame]
      exact ih hnodup _ _ mem hrest fun e' he' => hmem e' (List.mem_cons_of_mem _ he')
  exact hall l hnodup as cache cache' h fun _ _ => rfl

end Memo
