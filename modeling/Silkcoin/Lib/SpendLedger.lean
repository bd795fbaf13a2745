/-
  The abstract spending ledger: what a transaction index is FOR.

  A ledger is the list of the transactions applied so far, newest first.  An entry has an
  identifier, a position, a list of output values and the list of outpoints it spends.  Nothing
  else is stored: which slot of which entry is spent, and by whom, is DERIVED from the list
  (`spender`, `slots`, `view`), so applying a transaction is `cons` and undoing it is `tail`.

  `Valid` is the discipline under which the list is a ledger of coins: identifiers are distinct,
  and an entry spends distinct outpoints that exist and are unspent at that moment.  From it:

  * `view_cons` / `view_uncons` — how the derived table moves when an entry is pushed or popped;
    an implementation that keeps the table simulates these two equations;
  * `Valid.spends_nodup` — no outpoint is spent twice, and `spender_eq_some` names the spender;
  * `supply_cons` — the unspent total moves by what the entry creates minus what it consumes.
-/
import Mathlib.Data.List.Nodup
import Mathlib.Data.List.Forall2
import Mathlib.Algebra.BigOperators.Group.List.Basic
import Mathlib.Tactic.Abel

namespace SpendLedger

variable {Id Pos V : Type} [DecidableEq Id]

/-- One transaction as the ledger sees it. -/
structure Entry (Id Pos V : Type) where
  id : Id
  pos : Pos
  outs : List V
  spends : List (Id × Nat)

/-- The applied transactions, newest first. -/
abbrev Ledger (Id Pos V : Type) := List (Entry Id Pos V)

/-- The entry with identifier `h`. -/
def find (l : Ledger Id Pos V) (h : Id) : Option (Entry Id Pos V) := l.find? fun e => e.id = h

/-- Where the outpoint `o` was spent, if it was. -/
def spender (l : Ledger Id Pos V) (o : Id × Nat) : Option Pos :=
  (l.find? fun e => o ∈ e.spends).map Entry.pos

/-- The positions of all that spend the outpoint `o`, one for each time it is spent. -/
def spenders (l : Ledger Id Pos V) (o : Id × Nat) : List Pos :=
  l.flatMap fun e => (e.spends.filter fun s => s = o).map fun _ => e.pos

/-- The spent slots of an entry, one an output. -/
def slots (l : Ledger Id Pos V) (e : Entry Id Pos V) : List (Option Pos) :=
  (List.range e.outs.length).map fun n => spender l (e.id, n)

/-- The table an index of the ledger holds: position and slots under each identifier. -/
def view (l : Ledger Id Pos V) (h : Id) : Option (Pos × List (Option Pos)) :=
  (find l h).map fun e => (e.pos, slots l e)

/-- A ledger of coins: distinct identifiers, every spent outpoint exists and was unspent. -/
inductive Valid : Ledger Id Pos V → Prop where
  | nil : Valid []
  | cons {l : Ledger Id Pos V} {e : Entry Id Pos V} (hl : Valid l)
      (hfresh : ∀ d ∈ l, d.id ≠ e.id) (hnd : e.spends.Nodup)
      (hsp : ∀ o ∈ e.spends,
        (∃ d ∈ l, d.id = o.1 ∧ o.2 < d.outs.length) ∧ spender l o = none) : Valid (e :: l)

/-- Record in the slots of identifier `h` that each outpoint of `os` is now held by `p`. -/
def mark (p : Option Pos) (os : List (Id × Nat)) (h : Id) (s : List (Option Pos)) :
    List (Option Pos) :=
  s.mapIdx fun n q => if (h, n) ∈ os then p else q

/-! ## Looking entries and spenders up -/

@[simp] theorem spender_nil (o : Id × Nat) : spender ([] : Ledger Id Pos V) o = none := rfl

theorem spender_cons (e : Entry Id Pos V) (l : Ledger Id Pos V) (o : Id × Nat) :
    spender (e :: l) o = if o ∈ e.spends then some e.pos else spender l o := by
  unfold spender
  rw [List.find?_cons]
  by_cases h : o ∈ e.spends <;> simp [h]

theorem find_cons (e : Entry Id Pos V) (l : Ledger Id Pos V) (h : Id) :
    find (e :: l) h = if e.id = h then some e else find l h := by
  unfold find
  rw [List.find?_cons]
  by_cases he : e.id = h <;> simp [he]

theorem find_eq_none {l : Ledger Id Pos V} {h : Id} : find l h = none ↔ ∀ d ∈ l, d.id ≠ h := by
  simp [find, List.find?_eq_none]

theorem find_some_mem {l : Ledger Id Pos V} {h : Id} {e : Entry Id Pos V} (hf : find l h = some e) :
    e ∈ l ∧ e.id = h := by
  refine ⟨List.mem_of_find?_eq_some hf, ?_⟩
  have := List.find?_some hf
  simpa using this

theorem spender_some_mem {l : Ledger Id Pos V} {o : Id × Nat} {p : Pos}
    (h : spender l o = some p) : ∃ e ∈ l, o ∈ e.spends ∧ e.pos = p := by
  obtain ⟨e, he, hp⟩ := Option.map_eq_some_iff.mp h
  have ho := List.find?_some he
  exact ⟨e, List.mem_of_find?_eq_some he, by simpa using ho, hp⟩

theorem spender_eq_none {l : Ledger Id Pos V} {o : Id × Nat} :
    spender l o = none ↔ ∀ e ∈ l, o ∉ e.spends := by
  simp [spender, List.find?_eq_none]

namespace Valid

variable {l : Ledger Id Pos V} {e : Entry Id Pos V}

theorem tail (h : Valid (e :: l)) : Valid l := by
  cases h with
  | cons hl _ _ _ => exact hl

theorem fresh (h : Valid (e :: l)) : ∀ d ∈ l, d.id ≠ e.id := by
  cases h with
  | cons _ hf _ _ => exact hf

theorem head_nodup (h : Valid (e :: l)) : e.spends.Nodup := by
  cases h with
  | cons _ _ hnd _ => exact hnd

theorem head_exists (h : Valid (e :: l)) {o : Id × Nat} (ho : o ∈ e.spends) :
    ∃ d ∈ l, d.id = o.1 ∧ o.2 < d.outs.length := by
  cases h with
  | cons _ _ _ hsp => exact (hsp o ho).1

theorem head_unspent (h : Valid (e :: l)) {o : Id × Nat} (ho : o ∈ e.spends) :
    spender l o = none := by
  cases h with
  | cons _ _ _ hsp => exact (hsp o ho).2

/-- Identifiers are distinct. -/
theorem ids_nodup (h : Valid l) : (l.map Entry.id).Nodup := by
  induction h with
  | nil => exact List.nodup_nil
  | @cons l e _ hf _ _ ih =>
    rw [List.map_cons, List.nodup_cons]
    refine ⟨fun hm => ?_, ih⟩
    obtain ⟨d, hd, hde⟩ := List.mem_map.mp hm
    exact hf d hd hde

theorem find_mem (h : Valid l) {e : Entry Id Pos V} (he : e ∈ l) : find l e.id = some e := by
  induction h with
  | nil => exact absurd he List.not_mem_nil
  | @cons l d hl hf _ _ ih =>
    rw [find_cons]
    rcases List.mem_cons.mp he with rfl | he
    · rw [if_pos rfl]
    · rw [if_neg (fun heq => hf e he heq.symm)]
      exact ih he

/-- What an entry spends is in the ledger below it. -/
theorem spends_exist (h : Valid l) : ∀ e ∈ l, ∀ o ∈ e.spends,
    ∃ d ∈ l, d.id = o.1 ∧ o.2 < d.outs.length := by
  induction h with
  | nil => intro e he; exact absurd he List.not_mem_nil
  | @cons l d hl hf hnd hsp ih =>
    intro e he o ho
    rcases List.mem_cons.mp he with rfl | he
    · obtain ⟨c, hc, hco⟩ := (hsp o ho).1
      exact ⟨c, List.mem_cons_of_mem _ hc, hco⟩
    · obtain ⟨c, hc, hco⟩ := ih e he o ho
      exact ⟨c, List.mem_cons_of_mem _ hc, hco⟩

/-- Nothing spends the outputs of an identifier the ledger does not have. -/
theorem spender_absent (h : Valid l) {i : Id} (hi : ∀ d ∈ l, d.id ≠ i) (n : Nat) :
    spender l (i, n) = none := by
  rw [spender_eq_none]
  intro e he ho
  obtain ⟨d, hd, hdi, _⟩ := h.spends_exist e he _ ho
  exact hi d hd hdi

/-- Nothing, the newest entry included, spends the outputs of the newest entry. -/
theorem spender_head (h : Valid (e :: l)) (n : Nat) : spender (e :: l) (e.id, n) = none := by
  rw [spender_cons, if_neg, h.tail.spender_absent h.fresh]
  intro ho
  obtain ⟨d, hd, hdi, _⟩ := h.head_exists ho
  exact h.fresh d hd hdi

/-- No outpoint is spent twice, by one entry or by two. -/
theorem spends_nodup (h : Valid l) : (l.flatMap Entry.spends).Nodup := by
  induction h with
  | nil => exact List.nodup_nil
  | @cons l e hl hf hnd hsp ih =>
    rw [List.flatMap_cons, List.nodup_append]
    refine ⟨hnd, ih, ?_⟩
    intro o ho o' ho' heq
    subst heq
    obtain ⟨d, hd, hod⟩ := List.mem_flatMap.mp ho'
    exact spender_eq_none.mp (hsp o ho).2 d hd hod

/-- Two entries that spend one outpoint are the same. -/
theorem spender_unique (h : Valid l) {e e' : Entry Id Pos V} {o : Id × Nat} (he : e ∈ l) (he' : e' ∈ l)
    (ho : o ∈ e.spends) (ho' : o ∈ e'.spends) : e = e' := by
  induction h with
  | nil => exact absurd he List.not_mem_nil
  | @cons l d hl hf hnd hsp ih =>
    rcases List.mem_cons.mp he with rfl | hin
    · rcases List.mem_cons.mp he' with rfl | hin'
      · rfl
      · exact absurd ho' (spender_eq_none.mp (hsp o ho).2 e' hin')
    · rcases List.mem_cons.mp he' with rfl | hin'
      · exact absurd ho (spender_eq_none.mp (hsp o ho').2 e hin)
      · exact ih hin hin'

/-- An outpoint is spent at most once, and then by its spender. -/
theorem spenders_eq (h : Valid l) (o : Id × Nat) : spenders l o = (spender l o).toList := by
  induction h with
  | nil => rfl
  | @cons l e hl hf hnd hsp ih =>
    have hcons : spenders (e :: l) o =
        ((e.spends.filter fun s => s = o).map fun _ => e.pos) ++ spenders l o := List.flatMap_cons
    rw [hcons, ih, spender_cons]
    by_cases ho : o ∈ e.spends
    · have hone : e.spends.filter (fun s => s = o) = [o] := by
        rw [List.filter_eq]
        rw [List.count_eq_one_of_mem hnd ho]; rfl
      rw [if_pos ho, hone, (hsp o ho).2]; rfl
    · have hnone : e.spends.filter (fun s => s = o) = [] := by
        rw [List.filter_eq_nil_iff]
        intro s hs
        have hne : s ≠ o := fun heq => ho (heq ▸ hs)
        simpa using hne
      rw [if_neg ho, hnone]; rfl

end Valid

/-! ## How the table moves when an entry is pushed or popped -/

theorem length_slots (l : Ledger Id Pos V) (e : Entry Id Pos V) :
    (slots l e).length = e.outs.length := by
  simp [slots]

theorem getElem?_slots (l : Ledger Id Pos V) (e : Entry Id Pos V) (n : Nat) :
    (slots l e)[n]? = if n < e.outs.length then some (spender l (e.id, n)) else none := by
  unfold slots
  rw [List.getElem?_map]
  by_cases h : n < e.outs.length
  · rw [if_pos h, List.getElem?_range h]; rfl
  · rw [if_neg h, List.getElem?_eq_none (by simpa using h)]; rfl

theorem getElem?_mark (p : Option Pos) (os : List (Id × Nat)) (h : Id) (s : List (Option Pos))
    (n : Nat) : (mark p os h s)[n]? = (s[n]?).map fun q => if (h, n) ∈ os then p else q := by
  rw [mark, List.getElem?_mapIdx]

theorem slots_cons (e d : Entry Id Pos V) (l : Ledger Id Pos V) :
    slots (e :: l) d = mark (some e.pos) e.spends d.id (slots l d) := by
  apply List.ext_getElem?
  intro n
  rw [getElem?_mark, getElem?_slots, getElem?_slots]
  by_cases hn : n < d.outs.length
  · rw [if_pos hn, if_pos hn, spender_cons]; rfl
  · rw [if_neg hn, if_neg hn]; rfl

theorem slots_self {e : Entry Id Pos V} {l : Ledger Id Pos V} (h : Valid (e :: l)) :
    slots (e :: l) e = List.replicate e.outs.length none := by
  apply List.ext_getElem?
  intro n
  rw [getElem?_slots, List.getElem?_replicate, h.spender_head]

/-- Popping undoes the marks: the slots the newest entry had taken become free again. -/
theorem slots_uncons {e : Entry Id Pos V} {l : Ledger Id Pos V} (h : Valid (e :: l))
    (d : Entry Id Pos V) : slots l d = mark none e.spends d.id (slots (e :: l) d) := by
  apply List.ext_getElem?
  intro n
  rw [getElem?_mark, getElem?_slots, getElem?_slots]
  by_cases hn : n < d.outs.length
  · rw [if_pos hn, if_pos hn, spender_cons]
    by_cases ho : (d.id, n) ∈ e.spends
    · simp [ho, h.head_unspent ho]
    · simp [ho]
  · rw [if_neg hn, if_neg hn]; rfl

/-- **Push.**  The new entry's slots are free; every other entry's slots are marked with the new
    position where the new entry spends them. -/
theorem view_cons {e : Entry Id Pos V} {l : Ledger Id Pos V} (h : Valid (e :: l)) (i : Id) :
    view (e :: l) i =
      if e.id = i then some (e.pos, List.replicate e.outs.length none)
      else (view l i).map fun r => (r.1, mark (some e.pos) e.spends i r.2) := by
  unfold view
  rw [find_cons]
  by_cases hi : e.id = i
  · rw [if_pos hi, if_pos hi, Option.map_some, slots_self h]
  · rw [if_neg hi, if_neg hi, Option.map_map]
    cases hf : find l i with
    | none => rfl
    | some d =>
      obtain ⟨_, rfl⟩ := find_some_mem hf
      simp [slots_cons]

/-- **Pop.**  The newest entry's row disappears and the slots it had taken are freed. -/
theorem view_uncons {e : Entry Id Pos V} {l : Ledger Id Pos V} (h : Valid (e :: l)) (i : Id) :
    view l i =
      if e.id = i then none
      else (view (e :: l) i).map fun r => (r.1, mark none e.spends i r.2) := by
  by_cases hi : e.id = i
  · subst hi
    rw [if_pos rfl, view, find_eq_none.mpr h.fresh]; rfl
  · rw [if_neg hi]
    unfold view
    rw [find_cons, if_neg hi, Option.map_map]
    cases hf : find l i with
    | none => rfl
    | some d =>
      obtain ⟨_, rfl⟩ := find_some_mem hf
      simp [← slots_uncons h]

/-! ## Two ledgers that differ in positions only -/

/-- Two options that are both empty, or hold related values. -/
abbrev OptRel {α β : Type} (R : α → β → Prop) : Option α → Option β → Prop := Option.Rel R

/-- The two cases of related options. -/
theorem OptRel.elim {α β : Type} {R : α → β → Prop} {x : Option α} {y : Option β} (h : OptRel R x y) :
    (x = none ∧ y = none) ∨ ∃ a b, x = some a ∧ y = some b ∧ R a b := by
  cases h with
  | none => exact Or.inl ⟨rfl, rfl⟩
  | some hab => exact Or.inr ⟨_, _, rfl, rfl, hab⟩

section Relabelled

variable {Pos' : Type} {R : Pos → Pos' → Prop}

/-- Entry by entry the same transaction, at related positions. -/
structure SameEntry (R : Pos → Pos' → Prop) (e : Entry Id Pos V) (e' : Entry Id Pos' V) : Prop where
  id_eq : e.id = e'.id
  outs_eq : e.outs = e'.outs
  spends_eq : e.spends = e'.spends
  pos_rel : R e.pos e'.pos

variable {l : Ledger Id Pos V} {l' : Ledger Id Pos' V}

theorem find_relabelled (h : List.Forall₂ (SameEntry R) l l') (i : Id) :
    OptRel (SameEntry R) (find l i) (find l' i) := by
  induction h with
  | nil => exact Option.Rel.none
  | @cons e e' l l' he _ ih =>
    rw [find_cons, find_cons, ← he.id_eq]
    by_cases hi : e.id = i
    · rw [if_pos hi, if_pos hi]; exact Option.Rel.some he
    · rw [if_neg hi, if_neg hi]; exact ih

theorem spender_relabelled (h : List.Forall₂ (SameEntry R) l l') (o : Id × Nat) :
    OptRel R (spender l o) (spender l' o) := by
  induction h with
  | nil => exact Option.Rel.none
  | @cons e e' l l' he _ ih =>
    rw [spender_cons, spender_cons, ← he.spends_eq]
    by_cases ho : o ∈ e.spends
    · rw [if_pos ho, if_pos ho]; exact Option.Rel.some he.pos_rel
    · rw [if_neg ho, if_neg ho]; exact ih

/-- The derived tables correspond row by row and slot by slot. -/
theorem view_relabelled (h : List.Forall₂ (SameEntry R) l l') (i : Id) :
    OptRel (fun r r' => R r.1 r'.1 ∧ List.Forall₂ (OptRel R) r.2 r'.2) (view l i) (view l' i) := by
  unfold view
  have hfind := find_relabelled h i
  generalize find l i = x at hfind ⊢
  generalize find l' i = y at hfind ⊢
  cases hfind with
  | none => exact Option.Rel.none
  | @some e e' he =>
    refine Option.Rel.some ⟨he.pos_rel, ?_⟩
    show List.Forall₂ (OptRel R) ((List.range e.outs.length).map fun n => spender l (e.id, n))
      ((List.range e'.outs.length).map fun n => spender l' (e'.id, n))
    rw [← he.outs_eq, ← he.id_eq, List.forall₂_map_left_iff, List.forall₂_map_right_iff]
    exact List.forall₂_same.mpr fun n _ => spender_relabelled h (e.id, n)

end Relabelled

/-! ## The unspent total -/

section Supply

set_option linter.unusedSectionVars false

variable [AddCommGroup V]

/-- The outputs of one entry that `P` does not name, summed; `k` is the number of the first. -/
def outsSum (P : Id × Nat → Prop) [DecidablePred P] (i : Id) : Nat → List V → V
  | _, [] => 0
  | k, v :: vs => (if P (i, k) then 0 else v) + outsSum P i (k + 1) vs

/-- All outputs of the ledger that `P` does not name, summed. -/
def sumExcept (P : Id × Nat → Prop) [DecidablePred P] (l : Ledger Id Pos V) : V :=
  (l.map fun e => outsSum P e.id 0 e.outs).sum

/-- The value of all unspent outputs. -/
def supply (l : Ledger Id Pos V) : V := sumExcept (fun o => ¬ spender l o = none) l

/-- The value of the output an outpoint names. -/
def valueAt (l : Ledger Id Pos V) (o : Id × Nat) : V :=
  match find l o.1 with
  | some d => d.outs.getD o.2 0
  | none => 0

theorem outsSum_congr {P Q : Id × Nat → Prop} [DecidablePred P] [DecidablePred Q] {i : Id}
    (h : ∀ n, P (i, n) ↔ Q (i, n)) : ∀ (k : Nat) (vs : List V),
    outsSum P i k vs = outsSum Q i k vs
  | _, [] => rfl
  | k, v :: vs => by
      rw [outsSum, outsSum, outsSum_congr h (k + 1) vs]
      by_cases hs : P (i, k)
      · rw [if_pos hs, if_pos ((h k).mp hs)]
      · rw [if_neg hs, if_neg (fun hs' => hs ((h k).mpr hs'))]

/-- Naming one more output of the entry, not named before, takes its value away. -/
theorem outsSum_remove {P Q : Id × Nat → Prop} [DecidablePred P] [DecidablePred Q] {i : Id}
    {j : Nat} (hsp : ¬ P (i, j)) (h : ∀ n, Q (i, n) ↔ P (i, n) ∨ n = j) :
    ∀ (k : Nat) (vs : List V), k ≤ j → j - k < vs.length →
      outsSum Q i k vs = outsSum P i k vs - vs.getD (j - k) 0
  | _, [], _, hlt => absurd hlt (Nat.not_lt_zero _)
  | k, v :: vs, hk, hlt => by
      rw [outsSum, outsSum]
      by_cases hjk : k = j
      · subst hjk
        have htail : outsSum Q i (k + 1) vs = outsSum P i (k + 1) vs := by
          -- past `j` the two predicates agree
          have aux : ∀ (m : Nat) (ws : List V), k < m →
              outsSum Q i m ws = outsSum P i m ws := by
            intro m ws
            induction ws generalizing m with
            | nil => intro _; rfl
            | cons w ws ih =>
              intro hm
              have hiff : Q (i, m) ↔ P (i, m) := by
                rw [h m]; exact ⟨fun hor => hor.resolve_right (by omega), Or.inl⟩
              rw [outsSum, outsSum, ih (m + 1) (by omega)]
              by_cases hs : P (i, m)
              · rw [if_pos hs, if_pos (hiff.mpr hs)]
              · rw [if_neg hs, if_neg (fun hs' => hs (hiff.mp hs'))]
          exact aux (k + 1) vs (Nat.lt_succ_self k)
        rw [htail, if_pos ((h k).mpr (Or.inr rfl)), if_neg hsp, Nat.sub_self, List.getD_cons_zero]
        abel
      · have hlt' : j - (k + 1) < vs.length := by
          rw [List.length_cons] at hlt; omega
        have hiff : Q (i, k) ↔ P (i, k) := by
          rw [h k]; exact ⟨fun hor => hor.resolve_right hjk, Or.inl⟩
        have hidx : j - k = (j - (k + 1)) + 1 := by omega
        rw [outsSum_remove hsp h (k + 1) vs (by omega) hlt', hidx, List.getD_cons_succ]
        by_cases hs : P (i, k)
        · rw [if_pos hs, if_pos (hiff.mpr hs)]; abel
        · rw [if_neg hs, if_neg (fun hs' => hs (hiff.mp hs'))]; abel

theorem sumExcept_congr {P Q : Id × Nat → Prop} [DecidablePred P] [DecidablePred Q]
    {l : Ledger Id Pos V} (h : ∀ e ∈ l, ∀ n, P (e.id, n) ↔ Q (e.id, n)) :
    sumExcept P l = sumExcept Q l := by
  unfold sumExcept
  rw [List.map_congr_left]
  intro e he
  exact outsSum_congr (h e he) 0 e.outs

/-- Naming one more existing outpoint takes exactly its value out of the sum. -/
theorem sumExcept_remove {P Q : Id × Nat → Prop} [DecidablePred P] [DecidablePred Q]
    {o : Id × Nat} (hsp : ¬ P o) (h : ∀ o', Q o' ↔ P o' ∨ o' = o) {l : Ledger Id Pos V}
    (hids : (l.map Entry.id).Nodup) {d : Entry Id Pos V} (hd : d ∈ l) (hdo : d.id = o.1)
    (hlt : o.2 < d.outs.length) : sumExcept Q l = sumExcept P l - d.outs.getD o.2 0 := by
  induction l with
  | nil => exact absurd hd List.not_mem_nil
  | cons e l ih =>
    rw [List.map_cons, List.nodup_cons] at hids
    unfold sumExcept at ih ⊢
    rw [List.map_cons, List.sum_cons, List.map_cons, List.sum_cons]
    rcases List.mem_cons.mp hd with rfl | hd'
    · -- the entry itself: one of its outputs changes, the entries below keep theirs
      have hbelow : sumExcept Q l = sumExcept P l := by
        refine sumExcept_congr ?_
        intro e' he' n
        rw [h]
        refine ⟨fun hor => hor.resolve_right ?_, Or.inl⟩
        intro heq
        have he'o : e'.id = d.id := by rw [hdo, ← heq]
        exact hids.1 (he'o ▸ List.mem_map_of_mem he')
      unfold sumExcept at hbelow
      have hself := outsSum_remove (P := P) (Q := Q) (i := d.id) (j := o.2)
        (by rw [hdo]; exact hsp)
        (fun n => by rw [h]; constructor <;> rintro (hs | hn)
                     · exact Or.inl hs
                     · exact Or.inr (by rw [← hn])
                     · exact Or.inl hs
                     · exact Or.inr (by rw [hn, hdo]))
        0 d.outs (Nat.zero_le _) (by simpa using hlt)
      rw [hbelow, hself, Nat.sub_zero]
      abel
    · -- an entry below: the head's outputs are named by both predicates alike
      have hne : e.id ≠ o.1 := by
        intro heq
        exact hids.1 (by rw [heq, ← hdo]; exact List.mem_map_of_mem hd')
      have hhead : outsSum Q e.id 0 e.outs = outsSum P e.id 0 e.outs := by
        refine outsSum_congr ?_ 0 e.outs
        intro n
        rw [h]
        exact ⟨fun hor => hor.resolve_right (fun heq => hne (by rw [← heq])), Or.inl⟩
      rw [hhead, ih hids.2 hd']
      abel

theorem outsSum_none {P : Id × Nat → Prop} [DecidablePred P] {i : Id} (h : ∀ n, ¬ P (i, n)) :
    ∀ (k : Nat) (vs : List V), outsSum P i k vs = vs.sum
  | _, [] => rfl
  | k, v :: vs => by rw [outsSum, if_neg (h k), outsSum_none h (k + 1) vs, List.sum_cons]

/-- Naming a whole list of distinct outpoints, none named before, takes all their values out. -/
theorem sumExcept_removeAll {P : Id × Nat → Prop} [DecidablePred P] {l : Ledger Id Pos V}
    (h : Valid l) : ∀ os : List (Id × Nat), os.Nodup → (∀ o ∈ os, ¬ P o) →
      (∀ o ∈ os, ∃ d ∈ l, d.id = o.1 ∧ o.2 < d.outs.length) →
      sumExcept (fun o => P o ∨ o ∈ os) l = sumExcept P l - (os.map (valueAt l)).sum
  | [], _, _, _ => by
      rw [List.map_nil, List.sum_nil, sub_zero]
      exact sumExcept_congr fun e _ n => by simp
  | o :: os, hnd, hns, hex => by
      rw [List.nodup_cons] at hnd
      obtain ⟨d, hd, hdo, hlt⟩ := hex o List.mem_cons_self
      have hval : valueAt l o = d.outs.getD o.2 0 := by
        unfold valueAt
        rw [← hdo, h.find_mem hd]
      have hrest := sumExcept_removeAll h os hnd.2
        (fun o' ho' => hns o' (List.mem_cons_of_mem _ ho'))
        (fun o' ho' => hex o' (List.mem_cons_of_mem _ ho'))
      have hhead := sumExcept_remove (P := fun o' => P o' ∨ o' ∈ os)
        (Q := fun o' => P o' ∨ o' ∈ o :: os) (o := o) (l := l)
        (fun hor => hor.elim (hns o List.mem_cons_self) hnd.1)
        (fun o' => by rw [List.mem_cons, or_comm (a := o' = o), or_assoc])
        h.ids_nodup hd hdo hlt
      rw [hhead, hrest, List.map_cons, List.sum_cons, hval]
      abel

/-- **The supply equation.**  Pushing an entry adds the outputs it creates and removes the values
    of the outpoints it spends. -/
theorem supply_cons {e : Entry Id Pos V} {l : Ledger Id Pos V} (h : Valid (e :: l)) :
    supply (e :: l) = supply l + e.outs.sum - (e.spends.map (valueAt l)).sum := by
  have hself : outsSum (fun o => ¬ spender (e :: l) o = none) e.id 0 e.outs = e.outs.sum :=
    outsSum_none (fun n => not_not.mpr (h.spender_head n)) 0 e.outs
  have hbelow : sumExcept (fun o => ¬ spender (e :: l) o = none) l =
      sumExcept (fun o => ¬ spender l o = none ∨ o ∈ e.spends) l := by
    refine sumExcept_congr fun d _ n => ?_
    rw [spender_cons]
    by_cases ho : (d.id, n) ∈ e.spends <;> simp [ho]
  have hall := sumExcept_removeAll (P := fun o => ¬ spender l o = none) h.tail e.spends
    h.head_nodup (fun o ho => not_not.mpr (h.head_unspent ho)) (fun o ho => h.head_exists ho)
  have hcons : supply (e :: l) = outsSum (fun o => ¬ spender (e :: l) o = none) e.id 0 e.outs
      + sumExcept (fun o => ¬ spender (e :: l) o = none) l := by
    unfold supply sumExcept
    rw [List.map_cons, List.sum_cons]
  rw [hcons, hself, hbelow, hall, supply]
  abel

end Supply
end SpendLedger
