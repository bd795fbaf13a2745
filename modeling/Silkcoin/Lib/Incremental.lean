/-
  READING A STREAM AS IT ARRIVES.

  A reader looks at the unread bytes and either takes one step (it uses some of them up, and possibly
  hands out an item) or WAITS.  When it waits it may throw bytes away that can begin nothing any more.
  Three laws make the reader independent of how the stream is cut:

  1. a step that can be taken can be taken with more bytes behind, with the same item (`stable`);
  2. what is thrown away while waiting makes no difference to any later step (`resume`);
  3. a step uses something up (`shrinks`), so reading comes to an end.

  Then what a consumer gets depends on the bytes alone (`foldl_receive_state`).  If moreover every item
  has an encoding that is read back at the front of any stream, a stream of encodings is delivered item
  by item (`Encodes.foldl_receive`), and nothing is left.
-/
import Mathlib.Data.List.Infix

namespace Incremental

variable {α β σ : Type*}

/-! ## Searching for a mark -/

section Search

variable [DecidableEq β] {mark l : List β} {i : Nat}

/-- Where the mark begins first; the length of the list if nowhere. -/
def search (mark : List β) : List β → Nat
  | [] => 0
  | b :: l => if mark.isPrefixOf (b :: l) then 0 else search mark l + 1

theorem search_le_length : search mark l ≤ l.length := by
  induction l with
  | nil => exact le_refl 0
  | cons b l ih =>
    show (if mark.isPrefixOf (b :: l) then 0 else search mark l + 1) ≤ l.length + 1
    split
    · omega
    · omega

theorem prefix_drop_search (h : search mark l < l.length) : mark <+: l.drop (search mark l) := by
  induction l with
  | nil => exact absurd h (Nat.not_lt_zero _)
  | cons b l ih =>
    change (if mark.isPrefixOf (b :: l) then 0 else search mark l + 1) < l.length + 1 at h
    show mark <+: (b :: l).drop (if mark.isPrefixOf (b :: l) then 0 else search mark l + 1)
    split at h
    · rename_i hmark
      rw [if_pos hmark]
      exact List.isPrefixOf_iff_prefix.mp hmark
    · rename_i hmark
      rw [if_neg hmark]
      exact ih (by omega)

/-- No mark begins before. -/
theorem not_prefix_of_lt_search (h : i < search mark l) : ¬ mark <+: l.drop i := by
  induction l generalizing i with
  | nil => exact absurd h (Nat.not_lt_zero _)
  | cons b l ih =>
    change i < (if mark.isPrefixOf (b :: l) then 0 else search mark l + 1) at h
    split at h
    · exact absurd h (Nat.not_lt_zero _)
    · rename_i hmark
      cases i with
      | zero => exact fun hp => hmark (List.isPrefixOf_iff_prefix.mpr hp)
      | succ i => exact ih (by omega)

/-- The first place with the mark, inside the list, is what is found. -/
theorem search_eq (hi : i < l.length) (hmark : mark <+: l.drop i)
    (hfirst : ∀ j < i, ¬ mark <+: l.drop j) : search mark l = i := by
  rcases lt_trichotomy (search mark l) i with hlt | heq | hgt
  · exact absurd (prefix_drop_search (by omega)) (hfirst _ hlt)
  · exact heq
  · exact absurd hmark (not_prefix_of_lt_search hgt)

omit [DecidableEq β] in
/-- Where the mark fits, it is there with more behind if and only if it is there without. -/
theorem prefix_drop_append {c : List β} (hi : i + mark.length ≤ l.length) :
    mark <+: (l ++ c).drop i ↔ mark <+: l.drop i := by
  rw [List.drop_append_of_le_length (by omega)]
  constructor
  · intro h
    refine List.prefix_of_prefix_length_le h (List.prefix_append _ _) ?_
    rw [List.length_drop]
    omega
  · exact fun h => h.trans (List.prefix_append _ _)

/-- What is found with the whole mark behind it is found with more behind. -/
theorem search_append {c : List β} (h : search mark l + mark.length ≤ l.length)
    (hin : search mark l < l.length) : search mark (l ++ c) = search mark l := by
  refine search_eq (by rw [List.length_append]; omega) ?_ fun j hj => ?_
  · exact (prefix_drop_append h).mpr (prefix_drop_search hin)
  · rw [prefix_drop_append (by omega)]
    exact not_prefix_of_lt_search hj

/-- Where too little is behind what is found, more bytes move it into the last `n` at the earliest. -/
theorem lt_search_append {n : Nat} {c : List β} (hn : mark.length ≤ n)
    (h : l.length < search mark l + n) : l.length < search mark (l ++ c) + n := by
  by_contra hlt
  have hfit : search mark (l ++ c) + mark.length ≤ l.length := by omega
  by_cases hin : search mark (l ++ c) < (l ++ c).length
  · have hmark := (prefix_drop_append hfit).mp (prefix_drop_search hin)
    exact not_prefix_of_lt_search (show search mark (l ++ c) < search mark l by omega) hmark
  · have hle : search mark l ≤ l.length := search_le_length
    rw [List.length_append] at hin
    omega

/-- Bytes before the mark can be dropped. -/
theorem search_drop (h : i ≤ search mark l) : search mark (l.drop i) + i = search mark l := by
  induction l generalizing i with
  | nil =>
    have : i = 0 := Nat.le_zero.mp h
    rw [this]; rfl
  | cons b l ih =>
    cases i with
    | zero => rfl
    | succ i =>
      change i + 1 ≤ (if mark.isPrefixOf (b :: l) then 0 else search mark l + 1) at h
      show search mark (l.drop i) + (i + 1) = if mark.isPrefixOf (b :: l) then 0 else search mark l + 1
      split at h
      · omega
      · rename_i hmark
        rw [if_neg hmark, ← ih (show i ≤ search mark l by omega)]
        omega

/-- A mark at the front is found there. -/
theorem search_of_prefix (hmark : mark <+: l) (hl : l ≠ []) : search mark l = 0 :=
  search_eq (List.length_pos_iff.mpr hl) (by rwa [List.drop_zero]) fun j hj => absurd hj (Nat.not_lt_zero j)

end Search

/-! ## The reader -/

/-- A reader of a stream of `β` that hands out items of `α`. -/
structure Reader (β α : Type*) where
  /-- What is handed out and what is left unread; `none` waits for more. -/
  step : List β → Option (Option α × List β)
  /-- What a waiting reader keeps. -/
  keep : List β → List β
  shrinks : ∀ {b x}, step b = some x → x.2.length < b.length
  stable : ∀ {b x} c, step b = some x → step (b ++ c) = some (x.1, x.2 ++ c)
  resume : ∀ {b} c, step b = none → step (keep b ++ c) = step (b ++ c)
  keeps : ∀ b, keep b <:+ b

section Consumer

variable (r : Reader β α) (handle : σ → α → σ) (halted : σ → Bool)

/-- Hand items to the consumer until the reader waits or the consumer has had enough. -/
def Reader.drain : Nat → σ → List β → σ × List β
  | 0, s, b => (s, b)
  | n + 1, s, b =>
    match r.step b with
    | none => (s, r.keep b)
    | some (none, rest) => drain n s rest
    | some (some a, rest) => if halted (handle s a) then (handle s a, rest) else drain n (handle s a) rest

/-- A chunk arrives.  A consumer that has had enough receives nothing. -/
def Reader.receive (x : σ × List β) (chunk : List β) : σ × List β :=
  if halted x.1 then x else r.drain handle halted ((x.2 ++ chunk).length + 1) x.1 (x.2 ++ chunk)

/-- The items one after the other, until the consumer has had enough. -/
def deliver : σ → List α → σ
  | s, [] => s
  | s, a :: items => if halted (handle s a) then handle s a else deliver (handle s a) items

variable {r handle halted} {s : σ} {b c : List β} {n m : Nat}

theorem Reader.drain_succ : r.drain handle halted (n + 1) s b =
    match r.step b with
    | none => (s, r.keep b)
    | some (none, rest) => r.drain handle halted n s rest
    | some (some a, rest) =>
      if halted (handle s a) then (handle s a, rest) else r.drain handle halted n (handle s a) rest := rfl

theorem Reader.receive_running (hs : halted s = false) : r.receive handle halted (s, b) c =
    r.drain handle halted ((b ++ c).length + 1) s (b ++ c) := by
  unfold Reader.receive
  rw [hs]; rfl

theorem Reader.receive_halted (hs : halted s = true) :
    r.receive handle halted (s, b) c = (s, b) := by
  unfold Reader.receive
  rw [hs]; rfl

/-! ## The cuts make no difference -/

/-- Nothing can be used up of nothing. -/
theorem Reader.step_nil (r : Reader β α) : r.step [] = none := by
  cases hstep : r.step [] with
  | none => rfl
  | some x => exact absurd (r.shrinks hstep) (Nat.not_lt_zero _)

theorem Reader.keep_nil (r : Reader β α) : r.keep [] = [] := List.suffix_nil.mp (r.keeps [])

/-- Fuel for every byte is enough. -/
theorem Reader.drain_fuel (hn : b.length < n) (hm : b.length < m) :
    r.drain handle halted n s b = r.drain handle halted m s b := by
  induction n generalizing m s b with
  | zero => exact absurd hn (Nat.not_lt_zero _)
  | succ n ih =>
    obtain ⟨m, rfl⟩ : ∃ k, m = k + 1 := ⟨m - 1, by omega⟩
    unfold Reader.drain
    cases hstep : r.step b with
    | none => rfl
    | some x =>
      obtain ⟨a, rest⟩ := x
      have hlt : rest.length < b.length := r.shrinks hstep
      cases a with
      | none => exact ih (by omega) (by omega)
      | some a =>
        show (if halted (handle s a) then _ else _) = if halted (handle s a) then _ else _
        split
        · rfl
        · exact ih (by omega) (by omega)

/-- Reading on after a pause gives what reading at once gives. -/
theorem Reader.drain_append (hs : halted s = false) (hn : b.length < n) (hm : (b ++ c).length < m) :
    (r.drain handle halted m s (b ++ c)).1 =
      (r.receive handle halted (r.drain handle halted n s b) c).1 := by
  induction n generalizing m s b with
  | zero => exact absurd hn (Nat.not_lt_zero _)
  | succ n ih =>
    obtain ⟨m, rfl⟩ : ∃ k, m = k + 1 := ⟨m - 1, by omega⟩
    rw [Reader.drain_succ, Reader.drain_succ]
    cases hstep : r.step b with
    | none =>
      -- both look at the same bytes, but for what was thrown away
      show _ = (r.receive handle halted (s, r.keep b) c).1
      rw [Reader.receive_running hs, Reader.drain_succ, r.resume c hstep]
      cases hstep' : r.step (b ++ c) with
      | none => rfl
      | some x =>
        obtain ⟨a, rest⟩ := x
        have h₁ : rest.length < (b ++ c).length := r.shrinks hstep'
        have h₂ : rest.length < (r.keep b ++ c).length := r.shrinks ((r.resume c hstep).trans hstep')
        cases a with
        | none => exact congrArg Prod.fst (Reader.drain_fuel (by omega) (by omega))
        | some a =>
          show (if halted (handle s a) then _ else _ : σ × List β).1 =
            (if halted (handle s a) then _ else _ : σ × List β).1
          split
          · rfl
          · exact congrArg Prod.fst (Reader.drain_fuel (by omega) (by omega))
    | some x =>
      obtain ⟨a, rest⟩ := x
      have hlt : rest.length < b.length := r.shrinks hstep
      have hlt' : (rest ++ c).length < m := by
        rw [List.length_append] at hm ⊢
        omega
      rw [r.stable c hstep]
      cases a with
      | none => exact ih hs (show rest.length < n by omega) hlt'
      | some a =>
        show (if halted (handle s a) then _ else _ : σ × List β).1 =
          (r.receive handle halted (if halted (handle s a) then _ else _) c).1
        cases hhalted : halted (handle s a) with
        | true =>
          rw [if_pos rfl, if_pos rfl, Reader.receive_halted hhalted]
        | false =>
          rw [if_neg Bool.false_ne_true, if_neg Bool.false_ne_true]
          exact ih hhalted (show rest.length < n by omega) hlt'

theorem Reader.foldl_receive_halted (chunks : List (List β)) (hs : halted s = true) :
    chunks.foldl (r.receive handle halted) (s, b) = (s, b) := by
  induction chunks with
  | nil => rfl
  | cons c chunks ih =>
    rw [List.foldl_cons, Reader.receive_halted hs]
    exact ih

/-- Some chunks, wherever the reader was. -/
theorem Reader.foldl_receive_ne_nil {chunks : List (List β)} (hne : chunks ≠ []) :
    (chunks.foldl (r.receive handle halted) (s, b)).1 =
      (r.receive handle halted (s, b) chunks.flatten).1 := by
  induction chunks generalizing s b with
  | nil => exact absurd rfl hne
  | cons c chunks ih =>
    cases hs : halted s with
    | true => rw [Reader.foldl_receive_halted _ hs, Reader.receive_halted hs]
    | false =>
      rw [List.foldl_cons, List.flatten_cons]
      by_cases hchunks : chunks = []
      · rw [hchunks, List.flatten_nil, List.append_nil]; rfl
      · rw [show r.receive handle halted (s, b) c = ((r.receive handle halted (s, b) c).1,
          (r.receive handle halted (s, b) c).2) from rfl, ih hchunks, Reader.receive_running hs, Reader.receive_running hs, ← List.append_assoc]
        exact (Reader.drain_append hs (Nat.lt_succ_self _) (Nat.lt_succ_self _)).symm

/-- **The cuts make no difference**: what the consumer gets depends on the bytes alone. -/
theorem Reader.foldl_receive_state (chunks : List (List β)) :
    (chunks.foldl (r.receive handle halted) (s, [])).1 =
      (r.receive handle halted (s, []) chunks.flatten).1 := by
  by_cases hne : chunks = []
  · subst hne
    cases hs : halted s with
    | true => rw [List.flatten_nil, Reader.receive_halted hs]; rfl
    | false =>
      rw [List.flatten_nil, Reader.receive_running hs, Reader.drain_succ, List.append_nil, r.step_nil]
      rfl
  · exact Reader.foldl_receive_ne_nil hne

/-! ## Encoded items -/

/-- Every good item has an encoding that is read back at the front of any stream, and of a part of it
    nothing is thrown away. -/
structure Reader.Encodes (r : Reader β α) (good : α → Prop) (encode : α → List β) : Prop where
  step : ∀ {a} c, good a → r.step (encode a ++ c) = some (some a, c)
  keep : ∀ {a b c}, good a → b ++ c = encode a → c ≠ [] → r.keep b = b

/-- An encoding is not empty. -/
theorem Reader.Encodes.ne_nil {good : α → Prop} {encode : α → List β} (he : r.Encodes good encode)
    {a : α} (ha : good a) : encode a ≠ [] := by
  intro hnil
  have hlt : ([] : List β).length < (encode a ++ []).length := r.shrinks (he.step [] ha)
  rw [hnil] at hlt
  exact lt_irrefl _ hlt

/-- The reader waits on a part of an encoding. -/
theorem Reader.Encodes.waits {good : α → Prop} {encode : α → List β} (he : r.Encodes good encode)
    {a : α} (ha : good a) (hb : b ++ c = encode a) (hc : c ≠ []) : r.step b = none := by
  cases hstep : r.step b with
  | none => rfl
  | some x =>
    have hall := r.stable c hstep
    rw [hb, ← List.append_nil (encode a), he.step [] ha] at hall
    have hnil : x.2 ++ c = [] := (congrArg Prod.snd (Option.some.inj hall)).symm
    exact absurd (List.append_eq_nil_iff.mp hnil).2 hc

/-- One pause in a stream of encodings: what is delivered so far, and what is still to come. -/
theorem Reader.Encodes.drain {good : α → Prop} {encode : α → List β} (he : r.Encodes good encode)
    {items : List α} (hs : halted s = false) (hgood : ∀ a ∈ items, good a)
    (hb : b ++ c = (items.map encode).flatten) (hn : b.length < n) :
    halted (r.drain handle halted n s b).1 = true ∧
        (r.drain handle halted n s b).1 = deliver handle halted s items ∨
      halted (r.drain handle halted n s b).1 = false ∧ ∃ todo, (∀ a ∈ todo, good a) ∧
        (r.drain handle halted n s b).2 ++ c = (todo.map encode).flatten ∧
        deliver handle halted s items = deliver handle halted (r.drain handle halted n s b).1 todo ∧
        (c = [] → todo = []) := by
  induction items generalizing n s b with
  | nil =>
    obtain ⟨rfl, rfl⟩ := List.append_eq_nil_iff.mp hb
    obtain ⟨n, rfl⟩ : ∃ k, n = k + 1 := ⟨n - 1, by omega⟩
    rw [Reader.drain_succ, r.step_nil]
    refine Or.inr ⟨hs, [], fun a ha => absurd ha List.not_mem_nil, ?_, rfl, fun _ => rfl⟩
    show r.keep [] ++ [] = []
    rw [List.append_nil, r.keep_nil]
  | cons a items ih =>
    obtain ⟨ha, hitems⟩ := List.forall_mem_cons.mp hgood
    obtain ⟨n, rfl⟩ : ∃ k, n = k + 1 := ⟨n - 1, by omega⟩
    -- either the encoding is all there, or the reader waits for the rest of it
    have hcut : (∃ b', b = encode a ++ b' ∧ b' ++ c = (items.map encode).flatten) ∨
        ∃ more, more ≠ [] ∧ b ++ more = encode a ∧ c ≠ [] := by
      rw [List.map_cons, List.flatten_cons] at hb
      rcases List.append_eq_append_iff.mp hb with ⟨more, hmore, hc⟩ | ⟨b', hb', hrest⟩
      · by_cases hnil : more = []
        · subst hnil
          rw [List.append_nil] at hmore
          exact Or.inl ⟨[], by rw [List.append_nil]; exact hmore.symm, hc⟩
        · exact Or.inr ⟨more, hnil, hmore.symm, fun h => hnil (List.append_eq_nil_iff.mp (hc ▸ h)).1⟩
      · exact Or.inl ⟨b', hb', hrest.symm⟩
    rcases hcut with ⟨b', rfl, hrest⟩ | ⟨more, hmore, hwhole, hc⟩
    · have hlt : b'.length < (encode a ++ b').length := r.shrinks (he.step b' ha)
      have hdrain : r.drain handle halted (n + 1) s (encode a ++ b') =
          if halted (handle s a) then (handle s a, b') else r.drain handle halted n (handle s a) b' := by
        rw [Reader.drain_succ, he.step b' ha]
      have hdeliver : deliver handle halted s (a :: items) =
          if halted (handle s a) then handle s a else deliver handle halted (handle s a) items := rfl
      rw [hdrain, hdeliver]
      cases hhalted : halted (handle s a) with
      | true => exact Or.inl ⟨hhalted, rfl⟩
      | false => exact ih hhalted hitems hrest (by omega)
    · rw [Reader.drain_succ, he.waits ha hwhole hmore]
      refine Or.inr ⟨hs, a :: items, hgood, ?_, rfl, fun h => absurd h hc⟩
      show r.keep b ++ c = _
      rw [he.keep ha hwhole hmore]
      exact hb

/-- The chunks that are still to come, with what is unread of the earlier ones in front. -/
theorem Reader.Encodes.foldl_receive_unread {good : α → Prop} {encode : α → List β} (he : r.Encodes good encode)
    {chunks : List (List β)} {items : List α} (hs : halted s = false) (hgood : ∀ a ∈ items, good a)
    (hb : b ++ chunks.flatten = (items.map encode).flatten) (hnil : chunks.flatten = [] → items = []) :
    (chunks.foldl (r.receive handle halted) (s, b)).1 = deliver handle halted s items ∧
      (halted (deliver handle halted s items) = false →
        (chunks.foldl (r.receive handle halted) (s, b)).2 = []) := by
  induction chunks generalizing s b items with
  | nil =>
    rw [hnil rfl] at hb ⊢
    exact ⟨rfl, fun _ => (List.append_eq_nil_iff.mp hb).1⟩
  | cons c chunks ih =>
    rw [List.flatten_cons, ← List.append_assoc] at hb
    rw [List.foldl_cons, Reader.receive_running hs]
    have hdrain : _ ∨ halted (r.drain handle halted ((b ++ c).length + 1) s (b ++ c)).1 = false ∧ _ :=
      he.drain hs hgood hb (Nat.lt_succ_self _)
    cases hx : r.drain handle halted ((b ++ c).length + 1) s (b ++ c) with
    | mk s' b' =>
      rw [hx] at hdrain
      rcases hdrain with ⟨hhalted, heq⟩ | ⟨hs', todo, htodo, hrest, heq, hend⟩
      · rw [Reader.foldl_receive_halted _ hhalted, ← heq]
        exact ⟨rfl, fun h => absurd (hhalted.symm.trans h) Bool.noConfusion⟩
      · rw [heq]
        exact ih hs' htodo hrest hend

/-- **Encoded items** are delivered one by one however the stream is cut, and if the consumer never has
    enough, nothing is left unread. -/
theorem Reader.Encodes.foldl_receive {good : α → Prop} {encode : α → List β} (he : r.Encodes good encode)
    {chunks : List (List β)} {items : List α} (hs : halted s = false) (hgood : ∀ a ∈ items, good a)
    (hb : chunks.flatten = (items.map encode).flatten) :
    (chunks.foldl (r.receive handle halted) (s, [])).1 = deliver handle halted s items ∧
      (halted (deliver handle halted s items) = false →
        (chunks.foldl (r.receive handle halted) (s, [])).2 = []) := by
  refine he.foldl_receive_unread hs hgood hb fun hnil => ?_
  cases items with
  | nil => rfl
  | cons a items =>
    rw [hnil, List.map_cons, List.flatten_cons] at hb
    exact absurd (List.append_eq_nil_iff.mp hb.symm).1 (he.ne_nil (hgood a List.mem_cons_self))

end Consumer

end Incremental
