/-
  A WORKLIST: items are looked at one after the other, and what an item leads to is put behind.

  An item ends the search, or it passes and hands on more items; nothing is remembered, so an item is looked
  at as often as it is led to.  If what an item leads to is of LOWER RANK, the search still comes to an end:
  an item costs one step more than what it leads to (`Descends.cost_lt`).  It succeeds just when everything
  that is led to passes (`run_total`).
-/
import Mathlib.Algebra.Order.Ring.Nat
import Mathlib.Algebra.Order.BigOperators.Group.List

namespace Worklist

variable {α ε : Type}

/-- So many steps at most.  `none` ends the search. -/
def run (exhausted : ε) (step : α → Except ε (Option (List α))) : Nat → List α → Except ε Bool
  | _, [] => .ok true
  | 0, _ :: _ => .error exhausted
  | n + 1, a :: rest =>
    match step a with
    | .error e => .error e
    | .ok none => .ok false
    | .ok (some more) => run exhausted step n (rest ++ more)

/-- What is led to. -/
inductive Reached (step : α → Except ε (Option (List α))) (queue : List α) : α → Prop where
  | start {a : α} : a ∈ queue → Reached step queue a
  | next {a b : α} {more : List α} : Reached step queue a → step a = .ok (some more) → b ∈ more →
      Reached step queue b

variable {step : α → Except ε (Option (List α))} {rank : α → Nat} {I : α → Prop}

/-- The steps an item takes with everything it leads to, down to depth `r`. -/
def cost (step : α → Except ε (Option (List α))) : Nat → α → Nat
  | 0, _ => 1
  | r + 1, a =>
    match step a with
    | .ok (some more) => 1 + (more.map (cost step r)).sum
    | _ => 1

theorem cost_le_succ (r : Nat) (a : α) : cost step r a ≤ cost step (r + 1) a := by
  induction r generalizing a with
  | zero =>
    unfold cost
    split <;> omega
  | succ r ih =>
    rw [cost, cost]
    cases step a with
    | error e => exact Nat.le_refl 1
    | ok more =>
      cases more with
      | none => exact Nat.le_refl 1
      | some more => exact Nat.add_le_add_left (List.sum_le_sum fun b _ => ih b) 1

theorem cost_mono {r r' : Nat} (h : r ≤ r') (a : α) : cost step r a ≤ cost step r' a := by
  induction h with
  | refl => exact Nat.le_refl _
  | step _ ih => exact Nat.le_trans ih (cost_le_succ _ a)

/-- What an item leads to is of the same kind, and of lower rank. -/
def Descends (step : α → Except ε (Option (List α))) (I : α → Prop) (rank : α → Nat) : Prop :=
  ∀ a more, I a → step a = .ok (some more) → ∀ b ∈ more, I b ∧ rank b < rank a

/-- An item that passes takes one step more than those it leads to. -/
theorem Descends.cost_lt (h : Descends step I rank) {a : α} {more : List α} (ha : I a)
    (hstep : step a = .ok (some more)) :
    (more.map fun b => cost step (rank b) b).sum < cost step (rank a) a := by
  cases hr : rank a with
  | zero =>
    have hnil : more = [] := by
      refine List.eq_nil_iff_forall_not_mem.mpr fun b hb => ?_
      have hlt := (h a more ha hstep b hb).2
      omega
    rw [hnil, List.map_nil, List.sum_nil]
    exact Nat.one_pos
  | succ r =>
    rw [cost, hstep]
    have hle : (more.map fun b => cost step (rank b) b).sum ≤ (more.map (cost step r)).sum := by
      refine List.sum_le_sum fun b hb => cost_mono ?_ b
      have hlt := (h a more ha hstep b hb).2
      omega
    dsimp only
    omega

theorem Reached.mono {queue queue' : List α} (hsub : ∀ a ∈ queue', Reached step queue a) {a : α}
    (h : Reached step queue' a) : Reached step queue a := by
  induction h with
  | start hmem => exact hsub _ hmem
  | next _ hstep hb ih => exact .next ih hstep hb

theorem Reached.head_or {a : α} {rest more : List α} (hstep : step a = .ok (some more)) {b : α}
    (h : Reached step (a :: rest) b) : b = a ∨ Reached step (rest ++ more) b := by
  induction h with
  | start hmem =>
    rcases List.mem_cons.mp hmem with rfl | hmem
    · exact Or.inl rfl
    · exact Or.inr (.start (List.mem_append_left more hmem))
  | next _ hstep' hb ih =>
    rcases ih with rfl | ih
    · have hsame := Option.some.inj (Except.ok.inj (hstep.symm.trans hstep'))
      exact Or.inr (.start (List.mem_append_right rest (hsame ▸ hb)))
    · exact Or.inr (.next ih hstep' hb)

theorem not_reached_nil (a : α) : ¬Reached step [] a := by
  intro h
  induction h with
  | start hmem => cases hmem
  | next _ _ _ ih => exact ih

/-- **The search comes to an end, and succeeds just when everything that is led to passes**, if looking at an
    item is no error. -/
theorem run_total (exhausted : ε) (h : Descends step I rank) : ∀ (n : Nat) (queue : List α), (∀ a ∈ queue, I a) →
    (queue.map fun a => cost step (rank a) a).sum ≤ n → (∀ a, Reached step queue a → ∃ more, step a = .ok more) →
    ∃ b, (∀ m, n ≤ m → run exhausted step m queue = .ok b) ∧
      (b = true ↔ ∀ a, Reached step queue a → step a ≠ .ok none) := by
  intro n
  induction n with
  | zero =>
    intro queue hI hcost _
    cases queue with
    | nil => exact ⟨true, fun m _ => (by cases m <;> rfl), ⟨fun _ a ha => (not_reached_nil a ha).elim, fun _ => rfl⟩⟩
    | cons a rest =>
      rw [List.map_cons, List.sum_cons] at hcost
      have hpos : 1 ≤ cost step (rank a) a := by
        cases rank a with
        | zero => exact Nat.le_refl 1
        | succ r =>
          rw [cost]
          split <;> omega
      omega
  | succ n ih =>
    intro queue hI hcost hok
    cases queue with
    | nil => exact ⟨true, fun m _ => (by cases m <;> rfl), ⟨fun _ a ha => (not_reached_nil a ha).elim, fun _ => rfl⟩⟩
    | cons a rest =>
      obtain ⟨more, hstep⟩ := hok a (.start List.mem_cons_self)
      have hrun : ∀ m, n + 1 ≤ m → ∃ k, m = k + 1 ∧ n ≤ k := fun m hm => ⟨m - 1, by omega, by omega⟩
      cases more with
      | none =>
        refine ⟨false, fun m hm => ?_, ⟨fun hf => (by cases hf), fun hall => ?_⟩⟩
        · obtain ⟨k, rfl, -⟩ := hrun m hm
          rw [run, hstep]
        · exact absurd hstep (hall a (.start List.mem_cons_self))
      | some more =>
        have hdesc := h a more (hI a List.mem_cons_self) hstep
        have hsub : ∀ b ∈ rest ++ more, Reached step (a :: rest) b := by
          intro b hb
          rcases List.mem_append.mp hb with hb | hb
          · exact .start (List.mem_cons_of_mem a hb)
          · exact .next (.start List.mem_cons_self) hstep hb
        have hlt := h.cost_lt (hI a List.mem_cons_self) hstep
        rw [List.map_cons, List.sum_cons] at hcost
        obtain ⟨b, hrest, hiff⟩ := ih (rest ++ more)
          (fun b hb => (List.mem_append.mp hb).elim (fun hb => hI b (List.mem_cons_of_mem a hb)) fun hb =>
            (hdesc b hb).1)
          (by rw [List.map_append, List.sum_append]; omega)
          (fun b hb => hok b (hb.mono hsub))
        refine ⟨b, fun m hm => ?_, hiff.trans ⟨fun hall c hc => ?_, fun hall c hc => hall c (hc.mono hsub)⟩⟩
        · obtain ⟨k, rfl, hk⟩ := hrun m hm
          rw [run, hstep]
          exact hrest k hk
        · rcases hc.head_or hstep with rfl | hc
          · rw [hstep]
            intro hnone
            cases hnone
          · exact hall c hc

end Worklist
