/-
  A key/value store with write batches.

  The store is an ordered-map `disk`; inside a transaction writes and deletes are not applied but
  queued, oldest first, as a list of operations (`some v` puts, `none` deletes).  Two ways of
  looking a key up must agree:

  * `scan` — run through the queued operations and keep the last one that names the key; this is
    what a reader inside the transaction does before it falls back to the disk;
  * `apply` — what the disk holds once the batch has been committed.

  `apply_lookup` says they do, for every batch and every key.  A client of the store therefore
  reasons about one function, the lookup, and never about the batch.
-/
import Mathlib.Data.List.AList
import Mathlib.Data.List.Induction

namespace BatchStore

variable {K V : Type} [DecidableEq K]

/-- A finite map with one entry a key (`std::map`, or the contents of a key/value database). -/
abbrev StdMap (K V : Type) := AList fun _ : K => V

/-- The operations a transaction has queued, oldest first. -/
abbrev Batch (K V : Type) := List (K × Option V)

/-- The last queued operation on `k`: `none` if there is none, `some none` for a delete. -/
def scan (ops : Batch K V) (k : K) : Option (Option V) :=
  ops.foldl (fun found op => if op.1 = k then some op.2 else found) none

/-- One operation applied to the disk. -/
def applyOp (disk : StdMap K V) (op : K × Option V) : StdMap K V :=
  match op.2 with
  | some v => disk.insert op.1 v
  | none => disk.erase op.1

/-- The whole batch applied to the disk, in the order it was queued. -/
def apply (disk : StdMap K V) (ops : Batch K V) : StdMap K V := ops.foldl applyOp disk

/-! ## The last operation on a key decides -/

theorem scan_append_one (ops : Batch K V) (op : K × Option V) (k : K) :
    scan (ops ++ [op]) k = if op.1 = k then some op.2 else scan ops k := by
  rw [scan, List.foldl_append]; rfl

theorem lookup_insert_eq_ite (m : StdMap K V) (k k' : K) (v : V) :
    (m.insert k v).lookup k' = if k = k' then some v else m.lookup k' := by
  by_cases h : k = k'
  · subst h; rw [if_pos rfl, AList.lookup_insert]
  · rw [if_neg h, AList.lookup_insert_ne (fun he => h he.symm)]

/-- What is left was there. -/
theorem lookup_of_erase {m : StdMap K V} {k k' : K} {v : V} (h : (m.erase k).lookup k' = some v) :
    m.lookup k' = some v := by
  by_cases heq : k' = k
  · rw [heq, AList.lookup_erase] at h
    cases h
  · rwa [AList.lookup_erase_ne heq] at h

theorem applyOp_lookup (disk : StdMap K V) (op : K × Option V) (k : K) :
    (applyOp disk op).lookup k = if op.1 = k then op.2 else disk.lookup k := by
  obtain ⟨k', ov⟩ := op
  cases ov with
  | some v => exact lookup_insert_eq_ite disk k' k v
  | none =>
    show (disk.erase k').lookup k = if k' = k then none else disk.lookup k
    by_cases h : k' = k
    · subst h; rw [if_pos rfl, AList.lookup_erase]
    · rw [if_neg h, AList.lookup_erase_ne (fun he => h he.symm)]

/-- Reading through the batch is reading the committed result. -/
theorem apply_lookup (disk : StdMap K V) (ops : Batch K V) (k : K) :
    (apply disk ops).lookup k = (scan ops k).getD (disk.lookup k) := by
  induction ops using List.reverseRecOn with
  | nil => rfl
  | append_singleton ops op ih =>
    have happ : apply disk (ops ++ [op]) = applyOp (apply disk ops) op := by
      rw [apply, List.foldl_append]; rfl
    rw [happ, applyOp_lookup, scan_append_one, ih]
    by_cases h : op.1 = k
    · rw [if_pos h, if_pos h]; rfl
    · rw [if_neg h, if_neg h]

/-- Erasing some keys, one after the other. -/
theorem foldl_erase_lookup (ks : List K) (m : StdMap K V) (k : K) :
    (ks.foldl (fun m k' => m.erase k') m).lookup k = if k ∈ ks then none else m.lookup k := by
  induction ks generalizing m with
  | nil => rfl
  | cons k' ks ih =>
    rw [List.foldl_cons, ih]
    by_cases hks : k ∈ ks
    · rw [if_pos hks, if_pos (List.mem_cons_of_mem _ hks)]
    · rw [if_neg hks]
      by_cases heq : k = k'
      · rw [heq, AList.lookup_erase, if_pos List.mem_cons_self]
      · rw [AList.lookup_erase_ne heq, if_neg (List.not_mem_cons_of_ne_of_not_mem heq hks)]

/-- How many entries have a property, after one was written over. -/
theorem countP_insert (p : (Sigma fun _ : K => V) → Bool) (m : StdMap K V) (k : K) (v : V) :
    (m.insert k v).entries.countP p + ((m.lookup k).elim 0 fun v₀ => (p ⟨k, v₀⟩).toNat) =
      m.entries.countP p + (p ⟨k, v⟩).toNat := by
  have hinsert : (m.insert k v).entries = ⟨k, v⟩ :: m.entries.kerase k := rfl
  have hcons : ∀ (e : Sigma fun _ : K => V) l, (e :: l).countP p = l.countP p + (p e).toNat := by
    intro e l
    rw [List.countP_cons]
    cases p e <;> rfl
  rw [hinsert, hcons]
  have herase : (m.entries.kerase k).countP p + ((m.lookup k).elim 0 fun v₀ => (p ⟨k, v₀⟩).toNat) =
      m.entries.countP p := by
    show _ + ((m.entries.dlookup k).elim 0 _) = _
    induction m.entries with
    | nil => rfl
    | cons e l ih =>
      obtain ⟨k', v'⟩ := e
      by_cases heq : k = k'
      · subst heq
        have hkerase : (⟨k, v'⟩ :: l : List (Sigma fun _ : K => V)).kerase k = l := List.kerase_cons_eq rfl
        rw [hkerase, List.dlookup_cons_eq, hcons]
        rfl
      · rw [List.kerase_cons_ne heq, List.dlookup_cons_ne _ _ heq, hcons, hcons, ← ih]
        omega
  omega
/-! ## Writing out a whole map -/

/-- Queue a put for every entry of `m`, one after the other. -/
def putAll {S : Type} (put : S → K → V → S) (s : S) (m : StdMap K V) : S :=
  m.entries.foldl (fun s e => put s e.1 e.2) s

/-- Distinct entries put one after the other, each under a function `f` of its value: the order does
    not matter, and they shadow what was there before. -/
theorem foldl_put_lookup {S W : Type} {put : S → K → V → S} {get : S → K → Option W} {f : V → W}
    (hput : ∀ s k v k', get (put s k v) k' = if k = k' then some (f v) else get s k')
    {l : List (Sigma fun _ : K => V)} (hnd : l.NodupKeys) (s : S) (k : K) :
    get (l.foldl (fun s e => put s e.1 e.2) s) k = ((l.dlookup k).map f).or (get s k) := by
  induction l generalizing s with
  | nil => rfl
  | cons e l ih =>
    obtain ⟨k', v⟩ := e
    rw [List.nodupKeys_cons] at hnd
    rw [List.foldl_cons, ih hnd.2, hput]
    by_cases h : k' = k
    · subst h
      have hnone : l.dlookup k' = none := List.dlookup_eq_none.mpr hnd.1
      rw [if_pos rfl, hnone, List.dlookup_cons_eq]; rfl
    · rw [if_neg h, List.dlookup_cons_ne l ⟨k', v⟩ (fun he => h he.symm)]

/-- After every entry of `m` has been put, the entries of `m` shadow what was there before. -/
theorem putAll_lookup {S : Type} {put : S → K → V → S} {get : S → K → Option V}
    (hput : ∀ s k v k', get (put s k v) k' = if k = k' then some v else get s k')
    (m : StdMap K V) (s : S) (k : K) :
    get (putAll put s m) k = (m.lookup k).or (get s k) := by
  have h := foldl_put_lookup (f := id) hput m.nodupKeys s k
  rw [Option.map_id] at h
  exact h

/-! ## A log of writes -/

/-- What a cell shows after a log of writes: the last value written to it, if there is one.  `write`
    is the value an operation writes to the cell, `I` what the operations keep. -/
theorem get_foldl_writes {S O X : Type} {step : S → O → S} {g : S → X} {write : O → Option X}
    {I : S → Prop} (hinv : ∀ s op, I s → I (step s op))
    (hget : ∀ s op, I s → g (step s op) = (write op).getD (g s)) :
    ∀ (ops : List O) (s : S), I s →
      g (ops.foldl step s) = ((ops.filterMap write).getLast?).getD (g s) := by
  intro ops
  induction ops with
  | nil => intro s _; rfl
  | cons op ops ih =>
    intro s hs
    rw [List.foldl_cons, ih _ (hinv s op hs), hget s op hs]
    cases hw : write op with
    | none => rw [List.filterMap_cons_none hw]; rfl
    | some x => rw [List.filterMap_cons_some hw, List.getLast?_cons]; rfl

end BatchStore
