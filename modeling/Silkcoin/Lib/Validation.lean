/-
  Validation routines as `Except` computations: a routine either returns a value or stops early.

  Imperative validation code is a sequence of tests, each of which may `return false`, and of loops
  over lists whose bodies may do the same.  The routine becomes `do`-notation over `Except`, a test
  becomes `require b e`, and a loop becomes `List.foldlM`.  This file holds the three rules every
  proof about such a routine then needs, so that no proof unfolds the monad again:

  * INVERSION — what a successful run did (`bind_ok`, `require_ok`, `orFail_ok`), and where a failed
    one stopped (`bind_error`, `foldlM_error`);
  * the LOOP RULE — an invariant over the processed prefix, established at entry and preserved by
    one iteration, holds when the loop returns (`foldlM_ok_induct`);
  * LOCKSTEP — two runs that agree test by test both succeed with related values or both stop
    (`Lockstep`), with its congruence rules for `bind`, `require`, `if` and loops.
-/
import Mathlib.Data.List.Basic
import Mathlib.Data.List.Forall2

namespace Validation

variable {ε ε' α β γ : Type}

/-- The test of a validation routine: go on if `b` holds, stop with `e` otherwise. -/
def require (b : Bool) (e : ε) : Except ε Unit :=
  if b then .ok () else .error e

/-- Run a callee and rewrite whatever it stopped with: `if (!callee(..)) return ..`. -/
def orFail (x : Except ε α) (f : ε → ε') : Except ε' α :=
  match x with
  | .ok a => .ok a
  | .error e => .error (f e)

/-! ## Inversion: what a successful run did -/

theorem bind_ok {x : Except ε α} {f : α → Except ε β} {r : β} :
    (x >>= f) = .ok r ↔ ∃ a, x = .ok a ∧ f a = .ok r := by
  cases x with
  | error e => exact ⟨fun h => (nomatch h), fun ⟨_, h, _⟩ => (nomatch h)⟩
  | ok a => exact ⟨fun h => ⟨a, rfl, h⟩, fun ⟨_, h, hf⟩ => by cases h; exact hf⟩

@[simp] theorem ok_bind (a : α) (f : α → Except ε β) : (Except.ok a >>= f) = f a := rfl

@[simp] theorem error_bind (e : ε) (f : α → Except ε β) :
    ((Except.error e : Except ε α) >>= f) = .error e := rfl

@[simp] theorem pure_ok {a r : α} : (pure a : Except ε α) = .ok r ↔ a = r :=
  ⟨fun h => by cases h; rfl, fun h => by rw [h]; rfl⟩

@[simp] theorem require_ok {b : Bool} {e : ε} {u : Unit} : require b e = .ok u ↔ b = true := by
  cases b <;> simp [require]

@[simp] theorem require_true (e : ε) : require true e = .ok () := rfl

@[simp] theorem require_false (e : ε) : require false e = .error e := rfl

@[simp] theorem orFail_ok {x : Except ε α} {f : ε → ε'} {a : α} :
    orFail x f = .ok a ↔ x = .ok a := by
  cases x <;> simp [orFail]

theorem require_bind_ok {b : Bool} {e : ε} {f : Unit → Except ε β} {r : β} :
    (require b e >>= f) = .ok r ↔ b = true ∧ f () = .ok r := by
  cases b <;> simp

/-! ## Inversion: where a failed run stopped -/

theorem bind_error {x : Except ε α} {f : α → Except ε β} {e : ε} :
    (x >>= f) = .error e ↔ x = .error e ∨ ∃ a, x = .ok a ∧ f a = .error e := by
  cases x with
  | error e' =>
    exact ⟨fun h => by cases h; exact Or.inl rfl, fun h => by
      rcases h with h | ⟨_, h, _⟩
      · cases h; rfl
      · cases h⟩
  | ok a =>
    exact ⟨fun h => Or.inr ⟨a, rfl, h⟩, fun h => by
      rcases h with h | ⟨_, h, hf⟩
      · cases h
      · cases h; exact hf⟩

@[simp] theorem require_error {b : Bool} {e e' : ε} :
    require b e = .error e' ↔ b = false ∧ e = e' := by
  cases b <;> simp [require]

theorem orFail_error {x : Except ε α} {f : ε → ε'} {e : ε'} :
    orFail x f = .error e ↔ ∃ e', x = .error e' ∧ f e' = e := by
  cases x with
  | error e' => simp [orFail]
  | ok a => simp [orFail]

/-- A loop that stops has gone through a prefix and stops at the next element. -/
theorem foldlM_error {f : β → α → Except ε β} {l : List α} {b : β} {e : ε}
    (h : l.foldlM f b = .error e) :
    ∃ pre a post s, l = pre ++ a :: post ∧ pre.foldlM f b = .ok s ∧ f s a = .error e := by
  induction l generalizing b with
  | nil => cases h
  | cons a l ih =>
    rw [List.foldlM_cons, bind_error] at h
    rcases h with h | ⟨s, hs, h⟩
    · exact ⟨[], a, l, b, rfl, rfl, h⟩
    · obtain ⟨pre, a', post, s', rfl, hpre, hstop⟩ := ih h
      refine ⟨a :: pre, a', post, s', rfl, ?_, hstop⟩
      rw [List.foldlM_cons, hs]
      exact hpre

/-- A computed success. -/
theorem exists_ok {x : Except ε α} (h : x.isOk = true) : ∃ a, x = .ok a := by
  cases x with
  | error e => cases h
  | ok a => exact ⟨a, rfl⟩

/-- A computed failure. -/
theorem not_exists_ok {x : Except ε α} (h : x.isOk = false) : ¬ ∃ a, x = .ok a := by
  rintro ⟨a, rfl⟩
  cases h

/-- The value of a computed success. -/
theorem eq_ok_getD {x : Except ε α} (h : x.isOk = true) (d : α) : x = .ok (x.toOption.getD d) := by
  cases x with
  | error e => cases h
  | ok a => rfl

theorem ok_of_toOption {x : Except ε α} {a : α} (h : x.toOption = some a) : x = .ok a := by
  cases x with
  | error e => cases h
  | ok a => exact congrArg Except.ok (Option.some.inj h)

/-! ## The loop rule -/

/-- What holds of the loop state after the processed prefix, for a loop over `l`: it holds at
    entry, and one iteration carries it over one more element. -/
theorem foldlM_ok_induct {f : β → α → Except ε β} {l : List α} {P : List α → β → Prop} {b r : β}
    (h0 : P [] b)
    (step : ∀ pre a post s s', l = pre ++ a :: post → P pre s → f s a = .ok s' →
      P (pre ++ [a]) s')
    (h : l.foldlM f b = .ok r) : P l r := by
  -- the processed prefix is generalised; the hypothesis on the step stays about the whole `l`
  have aux : ∀ (post pre : List α) (s : β), l = pre ++ post → P pre s →
      post.foldlM f s = .ok r → P l r := by
    intro post
    induction post with
    | nil =>
      intro pre s hl hP hr
      cases hr
      rw [hl, List.append_nil]
      exact hP
    | cons a post ih =>
      intro pre s hl hP hr
      rw [List.foldlM_cons, bind_ok] at hr
      obtain ⟨s', hs', hr⟩ := hr
      exact ih (pre ++ [a]) s' (by rw [hl, List.append_assoc]; rfl) (step pre a post s s' hl hP hs') hr
  exact aux l [] b rfl h0 h

/-- The loop rule for an invariant that does not mention the prefix. -/
theorem foldlM_ok_inv {f : β → α → Except ε β} {l : List α} {P : β → Prop} {b r : β} (h0 : P b)
    (step : ∀ a ∈ l, ∀ s s', P s → f s a = .ok s' → P s') (h : l.foldlM f b = .ok r) : P r := by
  refine foldlM_ok_induct (P := fun _ s => P s) h0 ?_ h
  intro pre a post s s' hl hP hs'
  exact step a (by rw [hl]; exact List.mem_append_right _ List.mem_cons_self) s s' hP hs'

/-- A run that returns, of a loop whose iterations return the same. -/
theorem foldlM_ok_mono {f f' : β → α → Except ε β} {l : List α} {b r : β}
    (step : ∀ a ∈ l, ∀ s s', f s a = .ok s' → f' s a = .ok s') (h : l.foldlM f b = .ok r) :
    l.foldlM f' b = .ok r := by
  induction l generalizing b with
  | nil => exact h
  | cons a l ih =>
    rw [List.foldlM_cons, bind_ok] at h ⊢
    obtain ⟨s', hs', hr⟩ := h
    exact ⟨s', step a List.mem_cons_self b s' hs', ih (fun a' ha' => step a' (List.mem_cons_of_mem a ha')) hr⟩

/-- The loop rule for a loop whose every iteration succeeds. -/
theorem foldlM_total {f : β → α → Except ε β} {l : List α} {P : List α → β → Prop} {b : β}
    (h0 : P [] b)
    (step : ∀ pre a post s, l = pre ++ a :: post → P pre s → ∃ s', f s a = .ok s' ∧ P (pre ++ [a]) s') :
    ∃ r, l.foldlM f b = .ok r ∧ P l r := by
  have aux : ∀ (post pre : List α) (s : β), l = pre ++ post → P pre s →
      ∃ r, post.foldlM f s = .ok r ∧ P l r := by
    intro post
    induction post with
    | nil =>
      intro pre s hl hP
      refine ⟨s, rfl, ?_⟩
      rw [hl, List.append_nil]
      exact hP
    | cons a post ih =>
      intro pre s hl hP
      obtain ⟨s', hs', hP'⟩ := step pre a post s hl hP
      obtain ⟨r, hr, hPr⟩ := ih (pre ++ [a]) s' (by rw [hl, List.append_assoc]; rfl) hP'
      exact ⟨r, by rw [List.foldlM_cons, hs', ok_bind, hr], hPr⟩
  exact aux l [] b rfl h0

/-! ## Lockstep: two runs of a routine that agree test by test -/

/-- Both runs stop, or both return, with values related by `R`. -/
def Lockstep (R : α → β → Prop) : Except ε α → Except ε' β → Prop
  | .ok a, .ok b => R a b
  | .error _, .error _ => True
  | _, _ => False

namespace Lockstep

variable {δ : Type} {R : α → β → Prop} {S : γ → δ → Prop}

theorem pure {a : α} {b : β} (h : R a b) :
    Lockstep R (.ok a : Except ε α) (.ok b : Except ε' β) := h

theorem fail (e : ε) (e' : ε') : Lockstep R (.error e : Except ε α) (.error e' : Except ε' β) :=
  trivial

/-- The first run returns exactly when the second does. -/
theorem isOk_iff {x : Except ε α} {y : Except ε' β} (h : Lockstep R x y) :
    (∃ a, x = .ok a) ↔ (∃ b, y = .ok b) := by
  cases x <;> cases y <;> simp_all [Lockstep]

theorem bind {x : Except ε α} {y : Except ε' β} {f : α → Except ε γ} {g : β → Except ε' δ}
    (h : Lockstep R x y) (hfg : ∀ a b, R a b → Lockstep S (f a) (g b)) :
    Lockstep S (x >>= f) (y >>= g) := by
  cases x with
  | error e =>
    cases y with
    | error e' => trivial
    | ok b => exact h.elim
  | ok a =>
    cases y with
    | error e' => exact h.elim
    | ok b => exact hfg a b h

/-- A test with the same outcome on both sides. -/
theorem require {b b' : Bool} {e : ε} {e' : ε'} {f : Unit → Except ε γ} {g : Unit → Except ε' δ}
    (hb : b = b') (hfg : b = true → Lockstep S (f ()) (g ())) :
    Lockstep S (Validation.require b e >>= f) (Validation.require b' e' >>= g) := by
  subst hb
  cases b with
  | false => trivial
  | true => exact hfg rfl

theorem orFail {ε₁ ε₂ : Type} {x : Except ε α} {y : Except ε' β} (e₁ : ε → ε₁) (e₂ : ε' → ε₂)
    (h : Lockstep R x y) : Lockstep R (Validation.orFail x e₁) (Validation.orFail y e₂) := by
  cases x <;> cases y <;> exact h

/-- Two loops over one list, with a relation that may speak of the processed prefix. -/
theorem foldlM_prefix {R : List γ → α → β → Prop} {f : α → γ → Except ε α} {g : β → γ → Except ε' β}
    {l : List γ}
    (step : ∀ pre x post a b, l = pre ++ x :: post → R pre a b →
      Lockstep (R (pre ++ [x])) (f a x) (g b x))
    {a : α} {b : β} (h0 : R [] a b) : Lockstep (R l) (l.foldlM f a) (l.foldlM g b) := by
  have aux : ∀ (post pre : List γ) (a : α) (b : β), l = pre ++ post → R pre a b →
      Lockstep (R l) (post.foldlM f a) (post.foldlM g b) := by
    intro post
    induction post with
    | nil =>
      intro pre a b hl hab
      rw [hl, List.append_nil]
      exact hab
    | cons x post ih =>
      intro pre a b hl hab
      rw [List.foldlM_cons, List.foldlM_cons]
      refine bind (step pre x post a b hl hab) ?_
      intro a' b' hab'
      exact ih (pre ++ [x]) a' b' (by rw [hl, List.append_assoc]; rfl) hab'
  exact aux l [] a b rfl h0

/-- Two runs that are the same computation. -/
theorem of_eq {R : α → α → Prop} {x y : Except ε α} (h : x = y) (hrefl : ∀ a, R a a) :
    Lockstep R x y := by
  subst h
  cases x with
  | error e => trivial
  | ok a => exact hrefl a

end Lockstep

/-! ## What a routine never stops with -/

/-- The routine does not stop with a `bad` failure. -/
def Never (bad : ε → Prop) (x : Except ε α) : Prop := ∀ e, x = .error e → ¬ bad e

variable {bad : ε → Prop}

theorem Never.ok (a : α) : Never bad (.ok a : Except ε α) := fun _ h => nomatch h

theorem Never.error {e : ε} (h : ¬ bad e) : Never bad (.error e : Except ε α) := by
  intro e' he
  cases he
  exact h

theorem Never.require {b : Bool} {e : ε} (h : ¬ bad e) : Never bad (require b e) := by
  cases b with
  | true => exact Never.ok ()
  | false => exact Never.error h

theorem Never.bind {x : Except ε α} {f : α → Except ε β} (hx : Never bad x)
    (hf : ∀ a, x = .ok a → Never bad (f a)) : Never bad (x >>= f) := by
  intro e he
  rcases bind_error.mp he with hx' | ⟨a, ha, hfa⟩
  · exact hx e hx'
  · exact hf a ha e hfa

theorem Never.orFail {bad : ε' → Prop} {x : Except ε α} {f : ε → ε'}
    (h : ∀ e, x = .error e → ¬ bad (f e)) : Never bad (orFail x f) := by
  intro e' he
  cases x with
  | ok a => cases he
  | error e =>
    cases he
    exact h e rfl

/-- A loop whose turns keep `I` and never fail badly while it holds. -/
theorem Never.foldlM {f : β → α → Except ε β} {I : β → Prop} {l : List α}
    (hstep : ∀ a ∈ l, ∀ s, I s → Never bad (f s a) ∧ ∀ s', f s a = .ok s' → I s') {s : β} (hs : I s) :
    Never bad (l.foldlM f s) := by
  induction l generalizing s with
  | nil => exact Never.ok s
  | cons a l ih =>
    obtain ⟨hnever, hkeep⟩ := hstep a List.mem_cons_self s hs
    rw [List.foldlM_cons]
    exact hnever.bind fun s' hs' =>
      ih (fun b hb => hstep b (List.mem_cons_of_mem _ hb)) (hkeep s' hs')

end Validation
