/-
  A map of objects and the inverse index of what they claim.

  Every object claims a list of places; the index says for each claimed place which object claims it
  and where in its list.  `InverseIndex` is the agreement of the two maps, both ways.  It leaves no
  room for two objects with one place (`InverseIndex.unique`), and it is kept by
  entering an object whose places are free (`InverseIndex.insert`) and by taking one out together
  with its places (`InverseIndex.erase`).
-/
import Silkcoin.Lib.Store

namespace BatchStore

variable {K O T : Type} [DecidableEq O]

/-! ## The index -/

/-- Enter the places `os` of object `k`, in order. -/
def claimAll (k : K) (os : List O) (next : StdMap O (K × Nat)) : StdMap O (K × Nat) :=
  os.zipIdx.foldl (fun m p => m.insert p.1 (k, p.2)) next

/-- Free the places `os`. -/
def releaseAll (os : List O) (next : StdMap O (K × Nat)) : StdMap O (K × Nat) :=
  os.foldl (fun m o => m.erase o) next

theorem claimAll_append_one (k : K) (os : List O) (o : O) (next : StdMap O (K × Nat)) :
    claimAll k (os ++ [o]) next = (claimAll k os next).insert o (k, os.length) := by
  unfold claimAll
  rw [List.zipIdx_append, List.foldl_append]
  simp

theorem lookup_claimAll_of_not_mem {k : K} {os : List O} {o : O} (next : StdMap O (K × Nat))
    (h : o ∉ os) : (claimAll k os next).lookup o = next.lookup o := by
  induction os using List.reverseRecOn with
  | nil => rfl
  | append_singleton os o' ih =>
    rw [List.mem_append, not_or] at h
    have hne : o' ≠ o := fun heq => h.2 (List.mem_singleton.mpr heq.symm)
    rw [claimAll_append_one, lookup_insert_eq_ite, if_neg hne]
    exact ih h.1

theorem lookup_claimAll {k : K} {os : List O} {o : O} {i : Nat} (next : StdMap O (K × Nat))
    (hnd : os.Nodup) (h : os[i]? = some o) : (claimAll k os next).lookup o = some (k, i) := by
  induction os using List.reverseRecOn with
  | nil => cases h
  | append_singleton os o' ih =>
    rw [claimAll_append_one, lookup_insert_eq_ite]
    rw [List.getElem?_append] at h
    split at h
    · have hne : o' ≠ o := by
        rintro rfl
        have hnot := (List.nodup_append.mp hnd).2.2
        exact hnot _ (List.mem_of_getElem? h) _ (List.mem_singleton_self _) rfl
      rw [if_neg hne]
      exact ih (List.nodup_append.mp hnd).1 h
    · rename_i hlt
      rw [List.getElem?_singleton] at h
      split at h
      · rename_i hi
        cases h
        rw [if_pos rfl]
        have : os.length = i := by omega
        rw [this]
      · cases h

theorem lookup_releaseAll (os : List O) (next : StdMap O (K × Nat)) (o : O) :
    (releaseAll os next).lookup o = if o ∈ os then none else next.lookup o := by
  unfold releaseAll
  induction os generalizing next with
  | nil => rw [if_neg List.not_mem_nil]; rfl
  | cons o' os ih =>
    rw [List.foldl_cons, ih]
    by_cases hmem : o ∈ os
    · rw [if_pos hmem, if_pos (List.mem_cons_of_mem _ hmem)]
    · rw [if_neg hmem]
      by_cases heq : o = o'
      · subst heq
        rw [if_pos List.mem_cons_self, AList.lookup_erase]
      · rw [if_neg (List.not_mem_cons_of_ne_of_not_mem heq hmem), AList.lookup_erase_ne heq]

/-! ## The agreement -/

/-- The index is exactly the inverse of the claims. -/
structure InverseIndex [DecidableEq K] (claims : T → List O) (objs : StdMap K T)
    (next : StdMap O (K × Nat)) : Prop where
  /-- every claim has its entry -/
  entry : ∀ k t i o, objs.lookup k = some t → (claims t)[i]? = some o →
    next.lookup o = some (k, i)
  /-- every entry belongs to an object -/
  owner : ∀ o k i, next.lookup o = some (k, i) →
    ∃ t, objs.lookup k = some t ∧ (claims t)[i]? = some o

variable [DecidableEq K] {claims : T → List O} {objs : StdMap K T} {next : StdMap O (K × Nat)}

theorem InverseIndex.empty : InverseIndex claims (∅ : StdMap K T) ∅ :=
  ⟨(fun _ _ _ _ h => by cases h), (fun _ _ _ h => by cases h)⟩

theorem InverseIndex.entry_of_mem (h : InverseIndex claims objs next) {k : K} {t : T} {o : O}
    (hk : objs.lookup k = some t) (ho : o ∈ claims t) : ∃ i, next.lookup o = some (k, i) := by
  obtain ⟨i, hi⟩ := List.getElem?_of_mem ho
  exact ⟨i, h.entry k t i o hk hi⟩

/-- **One place, one object.** -/
theorem InverseIndex.unique (h : InverseIndex claims objs next) {k k' : K} {t t' : T} {o : O}
    (hk : objs.lookup k = some t) (ho : o ∈ claims t) (hk' : objs.lookup k' = some t')
    (ho' : o ∈ claims t') : k = k' := by
  obtain ⟨i, hi⟩ := h.entry_of_mem hk ho
  obtain ⟨i', hi'⟩ := h.entry_of_mem hk' ho'
  exact (Prod.mk.inj (Option.some.inj (hi.symm.trans hi'))).1

/-- A new object with free places. -/
theorem InverseIndex.insert (h : InverseIndex claims objs next) {k : K} {t : T}
    (hnew : objs.lookup k = none) (hnd : (claims t).Nodup)
    (hfree : ∀ o ∈ claims t, next.lookup o = none) :
    InverseIndex claims (objs.insert k t) (claimAll k (claims t) next) := by
  constructor
  · intro k' t' i o hk' hi
    rw [lookup_insert_eq_ite] at hk'
    split at hk'
    · rename_i heq
      cases hk'
      rw [lookup_claimAll next hnd hi, heq]
    · have hentry := h.entry k' t' i o hk' hi
      rw [lookup_claimAll_of_not_mem next fun hmem => by rw [hfree o hmem] at hentry; cases hentry]
      exact hentry
  · intro o k' i hi
    by_cases hmem : o ∈ claims t
    · obtain ⟨j, hj⟩ := List.getElem?_of_mem hmem
      rw [lookup_claimAll next hnd hj] at hi
      cases hi
      exact ⟨t, by rw [lookup_insert_eq_ite, if_pos rfl], hj⟩
    · rw [lookup_claimAll_of_not_mem next hmem] at hi
      obtain ⟨t', hk', hi'⟩ := h.owner o k' i hi
      have hne : k ≠ k' := by
        rintro rfl
        rw [hnew] at hk'
        cases hk'
      exact ⟨t', by rw [lookup_insert_eq_ite, if_neg hne]; exact hk', hi'⟩

/-- An object out, and places nobody else claims freed. -/
theorem InverseIndex.erase (h : InverseIndex claims objs next) {k : K} {os : List O}
    (hall : ∀ t, objs.lookup k = some t → ∀ o ∈ claims t, o ∈ os)
    (honly : ∀ k' t, objs.lookup k' = some t → ∀ o ∈ claims t, o ∈ os → k' = k) :
    InverseIndex claims (objs.erase k) (releaseAll os next) := by
  have hlookup : ∀ k', (objs.erase k).lookup k' = if k' = k then none else objs.lookup k' := by
    intro k'
    by_cases heq : k' = k
    · subst heq
      rw [if_pos rfl, AList.lookup_erase]
    · rw [if_neg heq, AList.lookup_erase_ne heq]
  constructor
  · intro k' t i o hk' hi
    rw [hlookup] at hk'
    split at hk'
    · cases hk'
    · rename_i hne
      have hmem : o ∉ os := fun hmem => hne (honly k' t hk' o (List.mem_of_getElem? hi) hmem)
      rw [lookup_releaseAll, if_neg hmem]
      exact h.entry k' t i o hk' hi
  · intro o k' i hi
    rw [lookup_releaseAll] at hi
    split at hi
    · cases hi
    · rename_i hmem
      obtain ⟨t, hk', ho⟩ := h.owner o k' i hi
      refine ⟨t, ?_, ho⟩
      rw [hlookup, if_neg]
      · exact hk'
      · rintro rfl
        exact hmem (hall t hk' o (List.mem_of_getElem? ho))

end BatchStore
