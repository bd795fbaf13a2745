/-
  MRUSET: a set that keeps only the most recent elements.

  The `set` answers membership, the `queue` remembers the ORDER of insertion, oldest first.  An insertion into
  a full set throws the oldest element out; a limit of zero means none.

  The two stay in step (`Mruset.Synced`): the queue lists the set, each element once, and is no longer than
  the limit.  As long as there is ROOM, an insertion only adds (`Mruset.insert_room`).

  What the queue is after a call is said without the set: the LAST of what it was (`recent`), with the new
  element behind it (`insert_queue`, `max_size_queue`).  So whatever the calls, the queue is the end of the list
  of all successful insertions; and as long as the limit stays, it is the last `N` of them
  (`keeps_most_recent`).
-/
import Mathlib.Data.Finset.Dedup
import Mathlib.Data.Finset.Card
import Mathlib.Data.List.DropRight

namespace Silkcoin

/-! ## The operations -/

structure Mruset (α : Type) where
  set : Finset α
  queue : List α
  nMaxSize : Nat

namespace Mruset

variable {α : Type} [DecidableEq α]

def new (nMaxSizeIn : Nat) : Mruset α := ⟨∅, [], nMaxSizeIn⟩

def count (m : Mruset α) (k : α) : Bool := k ∈ m.set

theorem count_iff {m : Mruset α} {k : α} : m.count k = true ↔ k ∈ m.set := decide_eq_true_iff

/-- `set.erase(queue.front()); queue.pop_front()` -/
def popFront (m : Mruset α) : Mruset α :=
  match m.queue with
  | [] => m
  | x :: queue => { m with set := m.set.erase x, queue }

/-- The flag says whether `x` was not contained yet. -/
def insert (m : Mruset α) (x : α) : Mruset α × Bool :=
  if x ∈ m.set then (m, false)
  else
    let m := { m with set := Insert.insert x m.set }
    let m := if m.nMaxSize ≠ 0 ∧ m.queue.length = m.nMaxSize then m.popFront else m
    ({ m with queue := m.queue ++ [x] }, true)

/-- `while (queue.size() > s)` -/
def shrink (s : Nat) : List α → Finset α → List α × Finset α
  | [], set => ([], set)
  | x :: queue, set => if (x :: queue).length > s then shrink s queue (set.erase x) else (x :: queue, set)

def max_size (m : Mruset α) (s : Nat) : Mruset α :=
  let kept := if s ≠ 0 then shrink s m.queue m.set else (m.queue, m.set)
  ⟨kept.2, kept.1, s⟩

/-! ## Set and queue in step -/

/-- The queue lists the set, each element ONCE, within the limit. -/
structure Synced (m : Mruset α) : Prop where
  nodup : m.queue.Nodup
  mem_iff (x : α) : x ∈ m.queue ↔ x ∈ m.set
  size : m.nMaxSize ≠ 0 → m.queue.length ≤ m.nMaxSize

omit [DecidableEq α] in
theorem synced_new (nMaxSizeIn : Nat) : (new nMaxSizeIn : Mruset α).Synced :=
  ⟨List.nodup_nil, fun _ => by simp [new], fun _ => Nat.zero_le _⟩

theorem Synced.length_eq {m : Mruset α} (hm : m.Synced) : m.queue.length = m.set.card := by
  have heq : m.queue.toFinset = m.set := by
    ext x
    rw [List.mem_toFinset, hm.mem_iff]
  rw [← heq, List.toFinset_card_of_nodup hm.nodup]

/-- The limit, if there is one, is not reached. -/
def Room (m : Mruset α) : Prop := m.nMaxSize = 0 ∨ m.set.card < m.nMaxSize

theorem insert_of_mem {m : Mruset α} {x : α} (hx : x ∈ m.set) : m.insert x = (m, false) := by
  rw [insert, if_pos hx]

/-- With ROOM left, an insertion throws nothing out. -/
theorem insert_room {m : Mruset α} {x : α} (hm : m.Synced) (hroom : m.Room) (hx : x ∉ m.set) :
    m.insert x = (⟨Insert.insert x m.set, m.queue ++ [x], m.nMaxSize⟩, true) := by
  have hfull : ¬(m.nMaxSize ≠ 0 ∧ m.queue.length = m.nMaxSize) := by
    rintro ⟨hne, hlen⟩
    rw [hm.length_eq] at hlen
    rcases hroom with hzero | hlt
    · exact hne hzero
    · omega
  rw [insert, if_neg hx]
  dsimp only
  rw [if_neg hfull]

/-- With room left, the set gains `x` and nothing goes. -/
theorem mem_insert_room {m : Mruset α} {x : α} (hm : m.Synced) (hroom : m.Room) (y : α) :
    y ∈ (m.insert x).1.set ↔ y = x ∨ y ∈ m.set := by
  by_cases hx : x ∈ m.set
  · rw [insert_of_mem hx]
    constructor
    · exact Or.inr
    · rintro (rfl | hy)
      · exact hx
      · exact hy
  · rw [Mruset.insert_room hm hroom hx]
    exact Finset.mem_insert

theorem nMaxSize_insert (m : Mruset α) (x : α) : (m.insert x).1.nMaxSize = m.nMaxSize := by
  rw [insert]
  split
  · rfl
  · dsimp only
    split
    · cases hq : m.queue <;> simp [popFront]
    · rfl

/-! ## What is kept of a list -/

/-- The last `n`; zero stands for all. -/
def recent {α : Type} (n : Nat) (l : List α) : List α := if n = 0 then l else l.rtake n

omit [DecidableEq α] in
theorem recent_suffix (n : Nat) (l : List α) : recent n l <:+ l := by
  rw [recent]
  split
  · exact List.suffix_refl l
  · exact List.drop_suffix _ l

omit [DecidableEq α] in
theorem recent_of_length_le {n : Nat} {l : List α} (h : n ≠ 0 → l.length ≤ n) : recent n l = l := by
  rw [recent]
  split
  · rfl
  · rename_i hn
    have hle := h hn
    rw [List.rtake, Nat.sub_eq_zero_of_le hle, List.drop_zero]

omit [DecidableEq α] in
theorem length_recent_le {n : Nat} (hn : n ≠ 0) (l : List α) : (recent n l).length ≤ n := by
  rw [recent, if_neg hn, List.rtake, List.length_drop]
  omega

omit [DecidableEq α] in
/-- One more than fits: the first goes. -/
theorem recent_cons {n : Nat} {x : α} {l : List α} (h : l.length = n) (hn : n ≠ 0) : recent n (x :: l) = l := by
  have hone : (x :: l).length - n = 1 := by
    rw [List.length_cons]
    omega
  rw [recent, if_neg hn, List.rtake, hone]
  rfl

omit [DecidableEq α] in
/-- What was dropped before would be dropped now. -/
theorem recent_append (n : Nat) (l l' : List α) : recent n (recent n l ++ l') = recent n (l ++ l') := by
  by_cases hn : n = 0
  · simp only [recent, if_pos hn]
  · simp only [recent, if_neg hn, List.rtake_eq_reverse_take_reverse, List.reverse_append, List.reverse_reverse,
      List.take_append, List.take_take, List.length_reverse]
    rw [Nat.min_eq_left (Nat.sub_le n l'.length)]

/-! ## The queue after a call -/

/-- The front goes from both. -/
theorem mem_erase_front {x : α} {queue : List α} {set : Finset α} (hnodup : (x :: queue).Nodup)
    (h : ∀ y, y ∈ x :: queue ↔ y ∈ set) (y : α) : y ∈ queue ↔ y ∈ set.erase x := by
  obtain ⟨hx, -⟩ := List.nodup_cons.mp hnodup
  rw [Finset.mem_erase, ← h, List.mem_cons]
  constructor
  · intro hy
    exact ⟨fun heq => hx (heq ▸ hy), Or.inr hy⟩
  · rintro ⟨hne, rfl | hy⟩
    · exact absurd rfl hne
    · exact hy

/-- A new element, as long as the two are in step: queue and set end up with the same. -/
theorem Synced.insert_new {m : Mruset α} (hm : m.Synced) {x : α} (hx : x ∉ m.set) :
    (m.insert x).2 = true ∧ (m.insert x).1.queue = recent m.nMaxSize (m.queue ++ [x]) ∧
      ∀ y, y ∈ (m.insert x).1.queue ↔ y ∈ (m.insert x).1.set := by
  have hmem : ∀ y, y ∈ m.queue ++ [x] ↔ y ∈ Insert.insert x m.set := by
    intro y
    rw [List.mem_append, List.mem_singleton, Finset.mem_insert, hm.mem_iff, or_comm]
  by_cases hfull : m.nMaxSize ≠ 0 ∧ m.queue.length = m.nMaxSize
  · -- the front of the queue is thrown out
    have hnodup : (m.queue ++ [x]).Nodup := by
      rw [← List.concat_eq_append]
      exact hm.nodup.concat fun h => hx ((hm.mem_iff x).mp h)
    cases hq : m.queue with
    | nil =>
      rw [hq] at hfull
      exact absurd hfull.2.symm hfull.1
    | cons y queue =>
      rw [hq] at hmem hnodup hfull
      have hinsert : m.insert x = (⟨(Insert.insert x m.set).erase y, queue ++ [x], m.nMaxSize⟩, true) := by
        rw [insert, if_neg hx]
        dsimp only
        rw [hq, if_pos hfull, popFront]
      rw [hinsert]
      refine ⟨rfl, (recent_cons ?_ hfull.1).symm, ?_⟩
      · rw [← hfull.2, List.length_append]
        rfl
      · exact mem_erase_front hnodup hmem
  · have hinsert : m.insert x = (⟨Insert.insert x m.set, m.queue ++ [x], m.nMaxSize⟩, true) := by
      rw [insert, if_neg hx]
      dsimp only
      rw [if_neg hfull]
    rw [hinsert]
    refine ⟨rfl, (recent_of_length_le ?_).symm, hmem⟩
    intro hne
    have hle := hm.size hne
    have hother : m.queue.length ≠ m.nMaxSize := fun heq => hfull ⟨hne, heq⟩
    rw [List.length_append, List.length_singleton]
    omega

theorem insert_snd_iff (m : Mruset α) (x : α) : (m.insert x).2 = true ↔ x ∉ m.set := by
  rw [insert]
  by_cases hx : x ∈ m.set
  · rw [if_pos hx]
    exact ⟨fun h => absurd h Bool.false_ne_true, fun h => absurd hx h⟩
  · rw [if_neg hx]
    exact ⟨fun _ => hx, fun _ => rfl⟩

/-- The loop of `max_size` leaves the last `s`, and takes the others from the set. -/
theorem shrink_spec (s : Nat) (queue : List α) (set : Finset α) (hnodup : queue.Nodup)
    (h : ∀ y, y ∈ queue ↔ y ∈ set) : (shrink s queue set).1 = queue.rtake s ∧
      ∀ y, y ∈ (shrink s queue set).1 ↔ y ∈ (shrink s queue set).2 := by
  induction queue generalizing set with
  | nil => exact ⟨(List.rtake_nil s).symm, h⟩
  | cons x queue ih =>
    rw [shrink]
    by_cases hlong : (x :: queue).length > s
    · rw [if_pos hlong]
      obtain ⟨hqueue, hmem⟩ := ih (set.erase x) (List.nodup_cons.mp hnodup).2 (mem_erase_front hnodup h)
      refine ⟨?_, hmem⟩
      have hone : (x :: queue).length - s = queue.length - s + 1 := by
        rw [List.length_cons] at hlong ⊢
        omega
      rw [hqueue, List.rtake, List.rtake, hone, List.drop_succ_cons]
    · rw [if_neg hlong]
      refine ⟨?_, h⟩
      rw [List.rtake, Nat.sub_eq_zero_of_le (Nat.le_of_not_lt hlong), List.drop_zero]

theorem Synced.max_size_spec {m : Mruset α} (hm : m.Synced) (s : Nat) :
    (m.max_size s).queue = recent s m.queue ∧ ∀ y, y ∈ (m.max_size s).queue ↔ y ∈ (m.max_size s).set := by
  rw [Mruset.max_size, recent]
  by_cases hs : s = 0
  · rw [if_pos hs, if_neg fun hne => hne hs]
    exact ⟨rfl, hm.mem_iff⟩
  · rw [if_neg hs, if_pos hs]
    exact shrink_spec s m.queue m.set hm.nodup hm.mem_iff

omit [DecidableEq α] in
/-- What is left of a list is in step with its set. -/
theorem Synced.of_recent {m : Mruset α} {l : List α} (hqueue : m.queue = recent m.nMaxSize l) (hl : l.Nodup)
    (hmem : ∀ y, y ∈ m.queue ↔ y ∈ m.set) : m.Synced where
  nodup := by
    rw [hqueue]
    exact hl.sublist (recent_suffix m.nMaxSize l).sublist
  mem_iff := hmem
  size hne := by
    rw [hqueue]
    exact length_recent_le hne l

theorem Synced.insert {m : Mruset α} (hm : m.Synced) (x : α) : (m.insert x).1.Synced := by
  by_cases hx : x ∈ m.set
  · rw [insert_of_mem hx]
    exact hm
  · obtain ⟨-, hqueue, hmem⟩ := hm.insert_new hx
    rw [← nMaxSize_insert m x] at hqueue
    refine Synced.of_recent hqueue ?_ hmem
    rw [← List.concat_eq_append]
    exact hm.nodup.concat fun h => hx ((hm.mem_iff x).mp h)

theorem Synced.max_size {m : Mruset α} (hm : m.Synced) (s : Nat) : (m.max_size s).Synced := by
  obtain ⟨hqueue, hmem⟩ := hm.max_size_spec s
  exact Synced.of_recent hqueue hm.nodup hmem

/-! ## Runs -/

inductive Call (α : Type) where
  | insert (x : α)
  | max_size (s : Nat)

/-- A call, and the list of all that was inserted so far. -/
def Call.apply (st : Mruset α × List α) : Call α → Mruset α × List α
  | .insert x => ((st.1.insert x).1, if (st.1.insert x).2 then st.2 ++ [x] else st.2)
  | .max_size s => (st.1.max_size s, st.2)

/-- The limit stays what it is. -/
def Call.Keeps (n : Nat) : Call α → Prop
  | .insert _ => True
  | .max_size s => s = n

/-- All these calls, to an `mruset` that has just been made. -/
def run (nMaxSizeIn : Nat) (calls : List (Call α)) : Mruset α × List α :=
  calls.foldl Call.apply (new nMaxSizeIn, [])

/-- In step, and the queue is the end of what was inserted. -/
structure Recalls (st : Mruset α × List α) : Prop where
  synced : st.1.Synced
  suffix : st.1.queue <:+ st.2

/-- What a call does to the queue, and to the list: it may add, and then the last of it all is kept. -/
theorem Recalls.apply_spec {st : Mruset α × List α} (h : Recalls st) (call : Call α) : ∃ added,
    (call.apply st).2 = st.2 ++ added ∧
      (call.apply st).1.queue = recent (call.apply st).1.nMaxSize (st.1.queue ++ added) := by
  cases call with
  | insert x =>
    by_cases hx : x ∈ st.1.set
    · refine ⟨[], ?_, ?_⟩
      · rw [Call.apply, insert_of_mem hx, List.append_nil]
        rfl
      · rw [Call.apply, insert_of_mem hx, List.append_nil]
        exact (recent_of_length_le h.synced.size).symm
    · obtain ⟨hnew, hqueue, -⟩ := h.synced.insert_new hx
      refine ⟨[x], ?_, ?_⟩
      · rw [Call.apply, hnew]
        rfl
      · rw [Call.apply, hqueue, nMaxSize_insert]
  | max_size s =>
    refine ⟨[], (List.append_nil _).symm, ?_⟩
    rw [List.append_nil]
    exact (h.synced.max_size_spec s).1

theorem Recalls.apply {st : Mruset α × List α} (h : Recalls st) (call : Call α) : Recalls (call.apply st) := by
  obtain ⟨added, hlist, hqueue⟩ := h.apply_spec call
  constructor
  · cases call with
    | insert x => exact h.synced.insert x
    | max_size s => exact h.synced.max_size s
  · rw [hlist, hqueue]
    obtain ⟨front, hfront⟩ := h.suffix
    refine (recent_suffix _ _).trans ⟨front, ?_⟩
    rw [← List.append_assoc, hfront]

theorem Recalls.foldl {st : Mruset α × List α} (h : Recalls st) (calls : List (Call α)) :
    Recalls (calls.foldl Call.apply st) := by
  induction calls generalizing st with
  | nil => exact h
  | cons call calls ih => exact ih (h.apply call)

theorem recalls_run (nMaxSizeIn : Nat) (calls : List (Call α)) : Recalls (run nMaxSizeIn calls) :=
  Recalls.foldl ⟨synced_new nMaxSizeIn, List.suffix_refl []⟩ calls

theorem nMaxSize_apply {n : Nat} {st : Mruset α × List α} (hn : st.1.nMaxSize = n) {call : Call α}
    (hkeeps : call.Keeps n) : (call.apply st).1.nMaxSize = n := by
  cases call with
  | insert x => exact (nMaxSize_insert st.1 x).trans hn
  | max_size s => exact hkeeps

/-- As long as the limit stays, the last of what was there and of what is added since is kept. -/
theorem Recalls.foldl_keeps {n : Nat} {st : Mruset α × List α} (h : Recalls st) (hn : st.1.nMaxSize = n)
    (calls : List (Call α)) (hkeeps : ∀ call ∈ calls, call.Keeps n) : ∃ added,
      (calls.foldl Call.apply st).2 = st.2 ++ added ∧
        (calls.foldl Call.apply st).1.queue = recent n (st.1.queue ++ added) := by
  induction calls generalizing st with
  | nil =>
    refine ⟨[], (List.append_nil _).symm, ?_⟩
    rw [List.append_nil, ← hn]
    exact (recent_of_length_le h.synced.size).symm
  | cons call calls ih =>
    obtain ⟨hcall, hkeeps⟩ := List.forall_mem_cons.mp hkeeps
    have hn' := nMaxSize_apply hn hcall
    obtain ⟨x, hlist, hqueue⟩ := h.apply_spec call
    obtain ⟨added, hlist', hqueue'⟩ := ih (h.apply call) hn' hkeeps
    refine ⟨x ++ added, ?_, ?_⟩
    · rw [List.foldl_cons, hlist', hlist, List.append_assoc]
    · rw [List.foldl_cons, hqueue', hqueue, hn', recent_append, List.append_assoc]

/-- **The most recent distinct insertions**, whatever the calls: the queue lists the set once each and in the
    order of insertion, a limit is never exceeded, and only what is absent is inserted.  As long as a limit
    stays, the last `N` are kept. -/
theorem keeps_most_recent (nMaxSizeIn : Nat) (calls : List (Call α)) :
    ((run nMaxSizeIn calls).1.queue.Nodup ∧
      (∀ x, x ∈ (run nMaxSizeIn calls).1.queue ↔ x ∈ (run nMaxSizeIn calls).1.set) ∧
      (run nMaxSizeIn calls).1.queue <:+ (run nMaxSizeIn calls).2) ∧
    ((run nMaxSizeIn calls).1.nMaxSize ≠ 0 →
      (run nMaxSizeIn calls).1.set.card ≤ (run nMaxSizeIn calls).1.nMaxSize) ∧
    (∀ x, ((run nMaxSizeIn calls).1.insert x).2 = true ↔ x ∉ (run nMaxSizeIn calls).1.set) ∧
    ∀ N more, 0 < N → (run nMaxSizeIn calls).1.nMaxSize = N → (∀ call ∈ more, Call.Keeps N call) →
      ∃ added, (run nMaxSizeIn (calls ++ more)).2 = (run nMaxSizeIn calls).2 ++ added ∧
        (run nMaxSizeIn (calls ++ more)).1.queue = ((run nMaxSizeIn calls).1.queue ++ added).rtake N := by
  have h := recalls_run nMaxSizeIn calls
  refine ⟨⟨h.synced.nodup, h.synced.mem_iff, h.suffix⟩, ?_, insert_snd_iff _, ?_⟩
  · intro hne
    rw [← h.synced.length_eq]
    exact h.synced.size hne
  · intro N more hpos hlimit hkeeps
    obtain ⟨added, hlist, hqueue⟩ := h.foldl_keeps hlimit more hkeeps
    have hsplit : run nMaxSizeIn (calls ++ more) = more.foldl Call.apply (run nMaxSizeIn calls) :=
      List.foldl_append
    refine ⟨added, ?_, ?_⟩
    · rw [hsplit, hlist]
    · rw [hsplit, hqueue, recent, if_neg (Nat.pos_iff_ne_zero.mp hpos)]

/-- Three numbers without a limit, then a limit of two: one that is there is not inserted, one that was thrown
    out is inserted again. -/
theorem keeps_most_recent_two : ∃ added,
    (run 0 ([.insert 1, .insert 2, .insert 3, .max_size 2] ++ [.insert 3, .insert 1])).2 = [1, 2, 3] ++ added ∧
      (run 0 ([.insert 1, .insert 2, .insert 3, .max_size 2] ++ [.insert 3, .insert 1])).1.queue =
        ([2, 3] ++ added).rtake 2 := by
  refine (keeps_most_recent 0 [Call.insert 1, .insert 2, .insert 3, .max_size 2]).2.2.2 2 [.insert 3, .insert 1]
    (by decide) rfl ?_
  intro call hcall
  rcases List.mem_pair.mp hcall with rfl | rfl
  · trivial
  · trivial

end Mruset

end Silkcoin
