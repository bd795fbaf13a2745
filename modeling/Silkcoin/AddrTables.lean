/-
  The containers of the address manager fit together after every sequence of calls.

  `Linked` is what holds between two calls: numbers and addresses, numbers and places in `vRandom`, the
  reference counts and the new buckets, the tried entries and the buckets they fall into.  Inside `Add_`
  one entry is counted a reference AHEAD of its bucket, while `ShrinkNew` makes room in it (`ahead`); and
  that every new entry has a reference, at most four of them, is apart (`Held`), since a new one has none
  until it is in its first bucket.

  No assertion fails on the way: every call ends in a state (`run_linked`).
-/
import Silkcoin.AddrMan
import Mathlib.Data.List.Perm.Basic
import Mathlib.Algebra.BigOperators.Fin

namespace Silkcoin

open BatchStore Buckets Std

theorem getElem?_insert_int {β : Type} (m : ExtTreeMap Int β) (k a : Int) (v : β) :
    (m.insert k v)[a]? = if k = a then some v else m[a]? := by
  rw [ExtTreeMap.getElem?_insert]
  by_cases h : k = a
  · rw [if_pos h, if_pos (LawfulEqCmp.compare_eq_iff_eq.mpr h)]
  · rw [if_neg h, if_neg fun he => h (LawfulEqCmp.compare_eq_iff_eq.mp he)]

theorem getElem?_erase_int {β : Type} (m : ExtTreeMap Int β) (k a : Int) :
    (m.erase k)[a]? = if k = a then none else m[a]? := by
  rw [ExtTreeMap.getElem?_erase]
  by_cases h : k = a
  · rw [if_pos h, if_pos (LawfulEqCmp.compare_eq_iff_eq.mpr h)]
  · rw [if_neg h, if_neg fun he => h (LawfulEqCmp.compare_eq_iff_eq.mp he)]

theorem getRandInt_lt (nRand : Nat) {nMax : Nat} (h : 0 < nMax) : getRandInt nRand nMax < nMax := by
  rw [getRandInt, if_neg (by omega)]
  exact Nat.mod_lt _ h

/-- The times of an entry are times since 1970, and a tried one was connected to. -/
structure CAddrInfo.Dated (info : CAddrInfo) : Prop where
  nLastTry : 0 ≤ info.nLastTry
  nLastSuccess : 0 ≤ info.nLastSuccess
  tried : info.fInTried = true → info.nLastSuccess ≠ 0

/-- The entry without its place in `vRandom`. -/
def CAddrInfo.unplaced (info : CAddrInfo) : CAddrInfo := { info with nRandomPos := -1 }

theorem CAddrInfo.eq_of_unplaced {i i' : CAddrInfo} (h : i'.unplaced = i.unplaced) :
    i' = { i with nRandomPos := i'.nRandomPos } := by
  have h₁ : i' = { i'.unplaced with nRandomPos := i'.nRandomPos } := rfl
  rw [h] at h₁
  exact h₁

namespace CAddrMan

/-- `T` is that the times given are those of a clock. -/
structure Linked (Hash : List UInt8 → Uint256) (T : Prop) (ahead : Int → Int) (s : CAddrMan) : Prop where
  idCount : 0 ≤ s.nIdCount
  ids : ∀ (n : Int) (info : CAddrInfo), s.mapInfo[n]? = some info → 0 ≤ n ∧ n < s.nIdCount
  addr : ∀ a n, s.mapAddr.lookup a = some n ↔ ∃ info : CAddrInfo, s.mapInfo[n]? = some info ∧ info.toCNetAddr = a
  random : Positioned s.vRandom fun n : Int => (s.mapInfo[n]?).map (·.nRandomPos)
  refs : ∀ (n : Int) (info : CAddrInfo), s.mapInfo[n]? = some info → info.nRefCount = (copies s.vvNew n : Int) + ahead n
  untried : ∀ b n, n ∈ s.vvNew b → ∃ info : CAddrInfo, s.mapInfo[n]? = some info ∧ info.fInTried = false
  newSize : ∀ b, (s.vvNew b).size ≤ ADDRMAN_NEW_BUCKET_SIZE
  tried : ∀ b n, n ∈ s.vvTried b ↔ ∃ info : CAddrInfo, s.mapInfo[n]? = some info ∧ info.fInTried = true ∧
    getTriedBucket Hash s.nKey info.toCService = b
  triedNodup : ∀ b, (s.vvTried b).Nodup
  triedSize : ∀ b, (s.vvTried b).length ≤ ADDRMAN_TRIED_BUCKET_SIZE
  nTried : s.nTried = ((∑ b, (s.vvTried b).length : Nat) : Int)
  count : (s.vRandom.length : Int) = s.nTried + s.nNew
  dated : T → ∀ (n : Int) (info : CAddrInfo), s.mapInfo[n]? = some info → info.Dated

/-- Every new entry but `m` has a reference, and not too many. -/
def HeldBut (m : Int) (s : CAddrMan) : Prop :=
  ∀ (n : Int) (info : CAddrInfo), s.mapInfo[n]? = some info → info.fInTried = false → n ≠ m →
    1 ≤ info.nRefCount ∧ info.nRefCount ≤ ADDRMAN_NEW_BUCKETS_PER_ADDRESS

def Held (s : CAddrMan) : Prop :=
  ∀ (n : Int) (info : CAddrInfo), s.mapInfo[n]? = some info → info.fInTried = false →
    1 ≤ info.nRefCount ∧ info.nRefCount ≤ ADDRMAN_NEW_BUCKETS_PER_ADDRESS

/-- Nothing is ahead. -/
def level : Int → Int := fun _ => 0

/-- One entry is further ahead, by `d`. -/
def aheadBy (ahead : Int → Int) (m d : Int) : Int → Int := Function.update ahead m (ahead m + d)

theorem aheadBy_back (ahead : Int → Int) (m : Int) {d e : Int} (h : d + e = 0) :
    aheadBy (aheadBy ahead m d) m e = ahead := by
  funext n
  unfold aheadBy
  by_cases hn : n = m
  · subst hn
    rw [Function.update_self, Function.update_self]
    omega
  · rw [Function.update_of_ne hn, Function.update_of_ne hn]

variable {Hash : List UInt8 → Uint256} {T : Prop} {ahead : Int → Int} {s : CAddrMan}

@[simp] theorem getElem?_setInfo (n m : Int) (info : CAddrInfo) :
    (s.setInfo n info).mapInfo[m]? = if n = m then some info else s.mapInfo[m]? :=
  getElem?_insert_int _ _ _ _

theorem find_eq_some {addr : CNetAddr} {n : Int} {info : CAddrInfo} :
    s.find addr = some (n, info) ↔ s.mapAddr.lookup addr = some n ∧ s.mapInfo[n]? = some info := by
  unfold find
  constructor
  · intro h
    obtain ⟨n', hn', h⟩ := Option.bind_eq_some_iff.mp h
    obtain ⟨info', hinfo', h⟩ := Option.bind_eq_some_iff.mp h
    cases h
    exact ⟨hn', hinfo'⟩
  · rintro ⟨hn, hinfo⟩
    exact Option.bind_eq_some_iff.mpr ⟨n, hn, Option.bind_eq_some_iff.mpr ⟨info, hinfo, rfl⟩⟩

theorem mem_of_bucketFrom {nRnd : Nat} {n : Int} {b : NewBucket} (h : s.bucketFrom nRnd n = some b) : n ∈ s.vvNew b := by
  have hfound := List.find?_some h
  exact of_decide_eq_true hfound

theorem linked_empty (nKey : List UInt8) : Linked Hash T level (empty nKey) := by
  have hnone : ∀ n : Int, (empty nKey).mapInfo[n]? = none := fun n => ExtTreeMap.getElem?_empty
  have hno : ∀ {n : Int} {info : CAddrInfo}, (empty nKey).mapInfo[n]? = some info → False := by
    intro n info h
    rw [hnone] at h
    cases h
  constructor
  · exact Int.le_refl 0
  · exact fun n info h => (hno h).elim
  · intro a n
    constructor
    · intro h
      cases h
    · rintro ⟨info, h, -⟩
      exact (hno h).elim
  · have hpos : (fun n : Int => ((empty nKey).mapInfo[n]?).map (·.nRandomPos)) = fun _ => none := by
      funext n
      rw [hnone]
      rfl
    rw [hpos]
    exact Positioned.nil
  · exact fun n info h => (hno h).elim
  · intro b n h
    exact absurd h ExtTreeSet.not_mem_empty
  · intro b
    show (∅ : ExtTreeSet Int).size ≤ _
    rw [ExtTreeSet.size_empty]
    exact Nat.zero_le _
  · intro b n
    constructor
    · intro h
      exact absurd h List.not_mem_nil
    · rintro ⟨info, h, -⟩
      exact (hno h).elim
  · exact fun b => List.nodup_nil
  · exact fun b => Nat.zero_le _
  · show (0 : Int) = ((∑ b : TriedBucket, ([] : List Int).length : Nat) : Int)
    simp
  · rfl
  · exact fun _ n info h => (hno h).elim

/-- Only places have changed. -/
structure Moved (s s' : CAddrMan) : Prop where
  info : ∀ m : Int, (s'.mapInfo[m]?).map CAddrInfo.unplaced = (s.mapInfo[m]?).map CAddrInfo.unplaced
  nKey : s'.nKey = s.nKey
  nIdCount : s'.nIdCount = s.nIdCount
  mapAddr : s'.mapAddr = s.mapAddr
  nTried : s'.nTried = s.nTried
  vvTried : s'.vvTried = s.vvTried
  nNew : s'.nNew = s.nNew
  vvNew : s'.vvNew = s.vvNew

namespace Moved

theorem rfl (s : CAddrMan) : Moved s s := ⟨fun _ => Eq.refl _, Eq.refl _, Eq.refl _, Eq.refl _, Eq.refl _, Eq.refl _, Eq.refl _, Eq.refl _⟩

variable {s' : CAddrMan} {m : Int}

theorem back (h : Moved s s') {i' : CAddrInfo} (hi' : s'.mapInfo[m]? = some i') :
    ∃ i, s.mapInfo[m]? = some i ∧ i'.unplaced = i.unplaced := by
  have hm := h.info m
  rw [hi'] at hm
  obtain ⟨i, hi, heq⟩ := Option.map_eq_some_iff.mp hm.symm
  exact ⟨i, hi, heq.symm⟩

theorem forth (h : Moved s s') {i : CAddrInfo} (hi : s.mapInfo[m]? = some i) :
    ∃ i', s'.mapInfo[m]? = some i' ∧ i'.unplaced = i.unplaced := by
  have hm := h.info m
  rw [hi] at hm
  exact Option.map_eq_some_iff.mp hm

end Moved

namespace Linked

/-! ## Entries that are written over -/

/-- The address, the place and the table of the entry stay; its references may go ahead. -/
theorem setInfo (h : Linked Hash T ahead s) {n : Int} {info : CAddrInfo} (info' : CAddrInfo) (ahead' : Int → Int)
    (hn : s.mapInfo[n]? = some info) (hservice : info'.toCService = info.toCService)
    (hplace : info'.nRandomPos = info.nRandomPos) (hin : info'.fInTried = info.fInTried)
    (hrefs : info'.nRefCount = info.nRefCount + ahead' n - ahead n) (hother : ∀ m, n ≠ m → ahead' m = ahead m)
    (hdated : T → info'.Dated) : Linked Hash T ahead' (s.setInfo n info') := by
  have haddr : info'.toCNetAddr = info.toCNetAddr := congrArg CService.toCNetAddr hservice
  -- an entry with this address, and in this table, is there before and after
  have hex : ∀ (P : CService → Bool → Prop) (m : Int),
      (∃ i, (s.setInfo n info').mapInfo[m]? = some i ∧ P i.toCService i.fInTried) ↔
        ∃ i, s.mapInfo[m]? = some i ∧ P i.toCService i.fInTried := by
    intro P m
    rw [getElem?_setInfo]
    by_cases hnm : n = m
    · subst hnm
      rw [if_pos rfl, hn]
      constructor
      · rintro ⟨i, hi, hP⟩
        obtain rfl := Option.some.inj hi
        exact ⟨info, rfl, by rw [← hservice, ← hin]; exact hP⟩
      · rintro ⟨i, hi, hP⟩
        obtain rfl := Option.some.inj hi
        exact ⟨info', rfl, by rw [hservice, hin]; exact hP⟩
    · rw [if_neg hnm]
  constructor
  · exact h.idCount
  · intro m i hi
    rw [getElem?_setInfo] at hi
    split at hi
    · rename_i hnm
      subst hnm
      exact h.ids n info hn
    · exact h.ids m i hi
  · intro a m
    exact (h.addr a m).trans (hex (fun svc _ => svc.toCNetAddr = a) m).symm
  · have hsame : (fun m : Int => ((s.setInfo n info').mapInfo[m]?).map (·.nRandomPos)) =
        fun m : Int => (s.mapInfo[m]?).map (·.nRandomPos) := by
      funext m
      rw [getElem?_setInfo]
      by_cases hnm : n = m
      · subst hnm
        rw [if_pos rfl, hn]
        exact congrArg some hplace
      · rw [if_neg hnm]
    rw [hsame]
    exact h.random
  · intro m i hi
    rw [getElem?_setInfo] at hi
    split at hi
    · rename_i hnm
      subst hnm
      obtain rfl := Option.some.inj hi
      have := h.refs n info hn
      show info'.nRefCount = (copies s.vvNew n : Int) + ahead' n
      omega
    · rename_i hnm
      rw [hother m hnm]
      exact h.refs m i hi
  · intro b m hm
    exact (hex (fun _ fInTried => fInTried = false) m).mpr (h.untried b m hm)
  · exact h.newSize
  · intro b m
    exact (h.tried b m).trans
      (hex (fun svc fInTried => fInTried = true ∧ getTriedBucket Hash s.nKey svc = b) m).symm
  · exact h.triedNodup
  · exact h.triedSize
  · exact h.nTried
  · exact h.count
  · intro hT m i hi
    rw [getElem?_setInfo] at hi
    split at hi
    · obtain rfl := Option.some.inj hi
      exact hdated hT
    · exact h.dated hT m i hi

theorem moved (h : Linked Hash T ahead s) {s' : CAddrMan} (hm : Moved s s')
    (hrandom : Positioned s'.vRandom fun n : Int => (s'.mapInfo[n]?).map (·.nRandomPos))
    (hlength : s'.vRandom.length = s.vRandom.length) : Linked Hash T ahead s' := by
  -- what does not look at the place is there before and after
  have hex : ∀ (P : CAddrInfo → Prop) (m : Int), (∀ i, P i ↔ P i.unplaced) →
      ((∃ i, s'.mapInfo[m]? = some i ∧ P i) ↔ ∃ i, s.mapInfo[m]? = some i ∧ P i) := by
    intro P m hP
    constructor
    · rintro ⟨i', hi', hPi⟩
      obtain ⟨i, hi, heq⟩ := hm.back hi'
      exact ⟨i, hi, (hP i).mpr (heq ▸ (hP i').mp hPi)⟩
    · rintro ⟨i, hi, hPi⟩
      obtain ⟨i', hi', heq⟩ := hm.forth hi
      exact ⟨i', hi', (hP i').mpr (heq ▸ (hP i).mp hPi)⟩
  have hfield : ∀ {β : Type} (f : CAddrInfo → β) {i i' : CAddrInfo}, (∀ i, f i.unplaced = f i) →
      i'.unplaced = i.unplaced → f i' = f i := by
    intro β f i i' hf heq
    rw [← hf i', heq, hf i]
  constructor
  · rw [hm.nIdCount]
    exact h.idCount
  · intro n i' hi'
    obtain ⟨i, hi, -⟩ := hm.back hi'
    rw [hm.nIdCount]
    exact h.ids n i hi
  · intro a n
    rw [hm.mapAddr]
    exact (h.addr a n).trans (hex (fun i => i.toCNetAddr = a) n fun i => Iff.rfl).symm
  · exact hrandom
  · intro n i' hi'
    obtain ⟨i, hi, heq⟩ := hm.back hi'
    rw [hfield (·.nRefCount) (fun _ => rfl) heq, hm.vvNew]
    exact h.refs n i hi
  · intro b n hn
    rw [hm.vvNew] at hn
    exact (hex (fun i => i.fInTried = false) n fun i => Iff.rfl).mpr (h.untried b n hn)
  · rw [hm.vvNew]
    exact h.newSize
  · intro b n
    rw [hm.vvTried, hm.nKey]
    exact (h.tried b n).trans (hex (fun i => i.fInTried = true ∧
      getTriedBucket Hash s.nKey i.toCService = b) n fun i => Iff.rfl).symm
  · rw [hm.vvTried]
    exact h.triedNodup
  · rw [hm.vvTried]
    exact h.triedSize
  · rw [hm.nTried, hm.vvTried]
    exact h.nTried
  · rw [hlength, hm.nTried, hm.nNew]
    exact h.count
  · intro hT n i' hi'
    obtain ⟨i, hi, heq⟩ := hm.back hi'
    have hd := h.dated hT n i hi
    constructor
    · rw [hfield (·.nLastTry) (fun _ => rfl) heq]
      exact hd.nLastTry
    · rw [hfield (·.nLastSuccess) (fun _ => rfl) heq]
      exact hd.nLastSuccess
    · rw [hfield (·.fInTried) (fun _ => rfl) heq, hfield (·.nLastSuccess) (fun _ => rfl) heq]
      exact hd.tried

/-- The number at every place is that of an entry, which knows the place. -/
theorem at_place (h : Linked Hash T ahead s) {i : Nat} {n : Int} (hi : s.vRandom[i]? = some n) :
    ∃ info, s.mapInfo[n]? = some info ∧ info.nRandomPos = i :=
  Option.map_eq_some_iff.mp (h.random.pos_eq hi)

theorem place (h : Linked Hash T ahead s) {n : Int} {info : CAddrInfo} (hn : s.mapInfo[n]? = some info) :
    ∃ i : Nat, info.nRandomPos = i ∧ s.vRandom[i]? = some n := by
  have hpos : (fun n : Int => (s.mapInfo[n]?).map (·.nRandomPos)) n = some info.nRandomPos := by
    show (s.mapInfo[n]?).map (·.nRandomPos) = _
    rw [hn]
    rfl
  obtain ⟨hnonneg, hget⟩ := h.random.getElem?_of_pos hpos
  exact ⟨info.nRandomPos.toNat, (Int.toNat_of_nonneg hnonneg).symm, hget⟩

theorem swapRandom_spec (h : Linked Hash T ahead s) {i j : Nat} {a b : Int} (hi : s.vRandom[i]? = some a)
    (hj : s.vRandom[j]? = some b) :
    ∃ s', s.swapRandom i j = some s' ∧ Moved s s' ∧ s'.vRandom = (s.vRandom.set i b).set j a ∧
      Linked Hash T ahead s' := by
  unfold swapRandom
  by_cases hij : (i : Int) = j
  · rw [if_pos hij]
    obtain rfl := Int.ofNat.inj hij
    obtain rfl := Option.some.inj (hi.symm.trans hj)
    have hset : (s.vRandom.set i a).set i a = s.vRandom := by
      obtain ⟨hlt, rfl⟩ := List.getElem?_eq_some_iff.mp hi
      rw [List.set_set, List.set_getElem_self]
    exact ⟨s, rfl, Moved.rfl s, hset.symm, h⟩
  · obtain ⟨info1, hinfo1, -⟩ := h.at_place hi
    obtain ⟨info2, hinfo2, -⟩ := h.at_place hj
    rw [if_neg hij, if_pos ⟨Int.natCast_nonneg i, Int.natCast_nonneg j⟩, Int.toNat_natCast, Int.toNat_natCast, hi, hj]
    show ∃ s', (s.mapInfo[a]?).bind _ = some s' ∧ _
    rw [hinfo1]
    show ∃ s', (s.mapInfo[b]?).bind _ = some s' ∧ _
    rw [hinfo2]
    have hget : ∀ m : Int, ((s.mapInfo.insert a { info1 with nRandomPos := (j : Int) }).insert b
        { info2 with nRandomPos := (i : Int) })[m]? = if b = m then some { info2 with nRandomPos := (i : Int) }
        else if a = m then some { info1 with nRandomPos := (j : Int) } else s.mapInfo[m]? := by
      intro m
      rw [getElem?_insert_int, getElem?_insert_int]
    have hmoved : Moved s { s with
        mapInfo := (s.mapInfo.insert a { info1 with nRandomPos := (j : Int) }).insert b
          { info2 with nRandomPos := (i : Int) }
        vRandom := (s.vRandom.set i b).set j a } := by
      refine ⟨fun m => ?_, rfl, rfl, rfl, rfl, rfl, rfl, rfl⟩
      show Option.map _ (_[m]?) = _
      rw [hget]
      by_cases hb : b = m
      · rw [if_pos hb, ← hb, hinfo2]
        rfl
      · rw [if_neg hb]
        by_cases ha : a = m
        · rw [if_pos ha, ← ha, hinfo1]
          rfl
        · rw [if_neg ha]
    refine ⟨_, rfl, hmoved, rfl, h.moved hmoved ?_ ?_⟩
    · have hpos := h.random.swap hi hj
      have heq : (fun n : Int => (((s.mapInfo.insert a { info1 with nRandomPos := (j : Int) }).insert b
          { info2 with nRandomPos := (i : Int) })[n]?).map (·.nRandomPos)) =
          Function.update (Function.update (fun n : Int => (s.mapInfo[n]?).map (·.nRandomPos)) a (some (j : Int)))
            b (some (i : Int)) := by
        funext n
        rw [hget]
        by_cases hb : b = n
        · rw [if_pos hb, ← hb, Function.update_self]
          rfl
        · rw [if_neg hb, Function.update_of_ne fun he => hb he.symm]
          by_cases ha : a = n
          · rw [if_pos ha, ← ha, Function.update_self]
            rfl
          · rw [if_neg ha, Function.update_of_ne fun he => ha he.symm]
      show Positioned ((s.vRandom.set i b).set j a) _
      rw [heq]
      exact hpos
    · show ((s.vRandom.set i b).set j a).length = s.vRandom.length
      rw [List.length_set, List.length_set]

/-! ## Buckets of new entries -/

theorem insertNew (h : Linked Hash T ahead s) {b : NewBucket} {n : Int} {info : CAddrInfo}
    (hn : s.mapInfo[n]? = some info) (hin : info.fInTried = false) (hmem : n ∉ s.vvNew b)
    (hsize : (s.vvNew b).size < ADDRMAN_NEW_BUCKET_SIZE) :
    Linked Hash T (aheadBy ahead n (-1)) (s.insertNew b n) := by
  refine ⟨h.idCount, h.ids, h.addr, h.random, ?_, ?_, ?_, h.tried, h.triedNodup, h.triedSize, h.nTried, h.count, h.dated⟩
  · intro m i hi
    have hrefs := h.refs m i hi
    show i.nRefCount = (copies (Function.update s.vvNew b ((s.vvNew b).insert n)) m : Int) + aheadBy ahead n (-1) m
    by_cases hnm : n = m
    · subst hnm
      rw [copies_insert_self hmem, aheadBy, Function.update_self]
      omega
    · rw [copies_insert_ne hnm, aheadBy, Function.update_of_ne fun he => hnm he.symm]
      exact hrefs
  · intro c m hm
    rcases (mem_update_insert c).mp hm with ⟨-, rfl⟩ | hm
    · exact ⟨info, hn, hin⟩
    · exact h.untried c m hm
  · intro c
    show (Function.update s.vvNew b ((s.vvNew b).insert n) c).size ≤ _
    by_cases hc : c = b
    · subst hc
      rw [Function.update_self, ExtTreeSet.size_insert, if_neg fun he => hmem (ExtTreeSet.contains_iff_mem.mp he)]
      exact hsize
    · rw [Function.update_of_ne hc]
      exact h.newSize c

theorem eraseNew (h : Linked Hash T ahead s) {b : NewBucket} {n : Int} (hmem : n ∈ s.vvNew b) :
    Linked Hash T (aheadBy ahead n 1) (s.eraseNew b n) := by
  refine ⟨h.idCount, h.ids, h.addr, h.random, ?_, ?_, ?_, h.tried, h.triedNodup, h.triedSize, h.nTried, h.count, h.dated⟩
  · intro m i hi
    have hrefs := h.refs m i hi
    show i.nRefCount = (copies (Function.update s.vvNew b ((s.vvNew b).erase n)) m : Int) + aheadBy ahead n 1 m
    by_cases hnm : n = m
    · subst hnm
      have := copies_erase_self hmem
      rw [aheadBy, Function.update_self]
      omega
    · rw [copies_erase_ne hnm, aheadBy, Function.update_of_ne fun he => hnm he.symm]
      exact hrefs
  · intro c m hm
    exact h.untried c m ((mem_update_erase c).mp hm).2
  · intro c
    show (Function.update s.vvNew b ((s.vvNew b).erase n) c).size ≤ _
    by_cases hc : c = b
    · subst hc
      rw [Function.update_self]
      exact Nat.le_trans ExtTreeSet.size_erase_le (h.newSize c)
    · rw [Function.update_of_ne hc]
      exact h.newSize c

/-- An entry without references that stands last is deleted. -/
theorem deleteLast (h : Linked Hash T ahead s) {n : Int} {info : CAddrInfo} {w : List Int}
    (hn : s.mapInfo[n]? = some info) (hin : info.fInTried = false) (hnone : copies s.vvNew n = 0)
    (hlast : s.vRandom = w ++ [n]) : Linked Hash T ahead (s.deleteLast n info.toCNetAddr) := by
  have hget : ∀ m : Int, (s.mapInfo.erase n)[m]? = if n = m then none else s.mapInfo[m]? := getElem?_erase_int _ _
  have hstays : ∀ {m : Int} {i : CAddrInfo}, (s.mapInfo.erase n)[m]? = some i ↔ n ≠ m ∧ s.mapInfo[m]? = some i := by
    intro m i
    rw [hget]
    by_cases hnm : n = m
    · rw [if_pos hnm]
      exact ⟨fun he => (nomatch he), fun he => absurd hnm he.1⟩
    · rw [if_neg hnm]
      exact ⟨fun he => ⟨hnm, he⟩, fun he => he.2⟩
  have hdrop : s.vRandom.dropLast = w := by rw [hlast, List.dropLast_concat]
  constructor
  · exact h.idCount
  · intro m i hi
    exact h.ids m i (hstays.mp hi).2
  · intro a m
    show (s.mapAddr.erase info.toCNetAddr).lookup a = some m ↔ ∃ i, (s.mapInfo.erase n)[m]? = some i ∧ _
    by_cases ha : a = info.toCNetAddr
    · subst ha
      rw [AList.lookup_erase]
      constructor
      · intro he
        cases he
      · rintro ⟨i, hi, heq⟩
        -- the number of this address is the one that goes
        obtain ⟨hnm, hi⟩ := hstays.mp hi
        have h1 := (h.addr _ n).mpr ⟨info, hn, rfl⟩
        have h2 := (h.addr _ m).mpr ⟨i, hi, heq⟩
        exact absurd (Option.some.inj (h1.symm.trans h2)) hnm
    · rw [AList.lookup_erase_ne ha, h.addr a m]
      constructor
      · rintro ⟨i, hi, heq⟩
        refine ⟨i, hstays.mpr ⟨?_, hi⟩, heq⟩
        rintro rfl
        obtain rfl := Option.some.inj (hn.symm.trans hi)
        exact ha heq.symm
      · rintro ⟨i, hi, heq⟩
        exact ⟨i, (hstays.mp hi).2, heq⟩
  · show Positioned s.vRandom.dropLast fun m : Int => ((s.mapInfo.erase n)[m]?).map (·.nRandomPos)
    have heq : (fun m : Int => ((s.mapInfo.erase n)[m]?).map (·.nRandomPos)) =
        Function.update (fun m : Int => (s.mapInfo[m]?).map (·.nRandomPos)) n none := by
      funext m
      rw [hget]
      by_cases hnm : n = m
      · rw [if_pos hnm, ← hnm, Function.update_self]
        rfl
      · rw [if_neg hnm, Function.update_of_ne fun he => hnm he.symm]
    rw [heq, hdrop]
    exact (hlast ▸ h.random).pop
  · intro m i hi
    exact h.refs m i (hstays.mp hi).2
  · intro c m hm
    obtain ⟨i, hi, hi'⟩ := h.untried c m hm
    refine ⟨i, hstays.mpr ⟨?_, hi⟩, hi'⟩
    rintro rfl
    exact copies_eq_zero.mp hnone c hm
  · exact h.newSize
  · intro c m
    refine (h.tried c m).trans ?_
    constructor
    · rintro ⟨i, hi, htried, hc⟩
      refine ⟨i, hstays.mpr ⟨?_, hi⟩, htried, hc⟩
      rintro rfl
      obtain rfl := Option.some.inj (hn.symm.trans hi)
      rw [hin] at htried
      cases htried
    · rintro ⟨i, hi, htried, hc⟩
      exact ⟨i, (hstays.mp hi).2, htried, hc⟩
  · exact h.triedNodup
  · exact h.triedSize
  · exact h.nTried
  · have hcount := h.count
    show (s.vRandom.dropLast.length : Int) = s.nTried + (s.nNew - 1)
    rw [hlast, List.length_append, List.length_singleton] at hcount
    rw [hdrop]
    omega
  · intro hT m i hi
    exact h.dated hT m i (hstays.mp hi).2

/-! ## Making room -/

/-- `n` is out of the bucket `b`; nothing else has changed but places. -/
structure Shrunk (b : NewBucket) (n : Int) (s s' : CAddrMan) : Prop where
  vvNew : s'.vvNew = Function.update s.vvNew b ((s.vvNew b).erase n)
  nKey : s'.nKey = s.nKey
  info : ∀ m : Int, n ≠ m → (s'.mapInfo[m]?).map CAddrInfo.unplaced = (s.mapInfo[m]?).map CAddrInfo.unplaced

theorem dropReference_spec (h : Linked Hash T ahead s) (held : Held s) {b : NewBucket} {n : Int}
    (hmem : n ∈ s.vvNew b) (hlevel : ahead n = 0) :
    ∃ s', s.dropReference n = some s' ∧ Linked Hash T ahead (s'.eraseNew b n) ∧ Held (s'.eraseNew b n) ∧
      Shrunk b n s (s'.eraseNew b n) := by
  obtain ⟨info, hn, hin⟩ := h.untried b n hmem
  have hrefs := h.refs n info hn
  obtain ⟨hone, hfour⟩ := held n info hn hin
  -- the entry with one reference less, and out of the bucket
  have hless := h.setInfo { info with nRefCount := info.nRefCount - 1 } (aheadBy ahead n (-1))
    hn rfl rfl rfl (by rw [aheadBy, Function.update_self]; show info.nRefCount - 1 = _; omega)
    (fun m hnm => Function.update_of_ne (fun he => hnm he.symm) _ _)
    (fun hT => ⟨(h.dated hT n info hn).nLastTry, (h.dated hT n info hn).nLastSuccess, (h.dated hT n info hn).tried⟩)
  generalize hs₁ : s.setInfo n { info with nRefCount := info.nRefCount - 1 } = s₁ at hless
  have hs₁new : s₁.vvNew = s.vvNew := by rw [← hs₁]; rfl
  have hs₁n : s₁.mapInfo[n]? = some { info with nRefCount := info.nRefCount - 1 } := by
    rw [← hs₁, getElem?_setInfo, if_pos rfl]
  have hs₁other : ∀ m : Int, n ≠ m → s₁.mapInfo[m]? = s.mapInfo[m]? := by
    intro m hnm
    rw [← hs₁, getElem?_setInfo, if_neg hnm]
  have hs₁key : s₁.nKey = s.nKey := by rw [← hs₁]; rfl
  have hdrop : s.dropReference n = if info.nRefCount - 1 = 0 then
      (s₁.swapRandom info.nRandomPos ((s₁.vRandom.length : Int) - 1)).bind
        fun s => some (s.deleteLast n info.toCNetAddr) else some s₁ := by
    unfold dropReference
    rw [hn]
    show (if _ then _ else _) = _
    rw [hs₁]
    rfl
  rw [hdrop]
  have hback := aheadBy_back ahead n (show (-1 : Int) + 1 = 0 from rfl)
  by_cases hlastRef : info.nRefCount - 1 = 0
  · -- the last reference: swapped to the end, and deleted
    rw [if_pos hlastRef]
    obtain ⟨i, hplace, hi⟩ := hless.place hs₁n
    have hilt := (List.getElem?_eq_some_iff.mp hi).1
    obtain ⟨c, hc⟩ : ∃ c, s₁.vRandom[s₁.vRandom.length - 1]? = some c :=
      ⟨_, List.getElem?_eq_getElem (by omega)⟩
    obtain ⟨s₂, hswap, hmoved, hrandom, hlinked⟩ := hless.swapRandom_spec hi hc
    have hcast : ((s₁.vRandom.length : Int) - 1) = ((s₁.vRandom.length - 1 : Nat) : Int) := by omega
    have hplace : info.nRandomPos = (i : Int) := hplace
    rw [hplace, hcast, hswap]
    have hs₂mem : n ∈ s₂.vvNew b := by
      rw [hmoved.vvNew, hs₁new]
      exact hmem
    have herased := hlinked.eraseNew hs₂mem
    rw [hback] at herased
    obtain ⟨info₂, hn₂, hunplaced⟩ := hmoved.forth hs₁n
    have hfield : info₂.toCNetAddr = info.toCNetAddr ∧ info₂.fInTried = false ∧ info₂.nRefCount = 0 := by
      rw [CAddrInfo.eq_of_unplaced hunplaced]
      exact ⟨rfl, hin, hlastRef⟩
    have hzero : copies (s₂.eraseNew b n).vvNew n = 0 := by
      have := herased.refs n info₂ hn₂
      rw [hfield.2.2, hlevel] at this
      omega
    have hlast : (s₂.eraseNew b n).vRandom = s₂.vRandom.dropLast ++ [n] := by
      show s₂.vRandom = _
      have hne : s₂.vRandom ≠ [] := by
        intro hnil
        have hlen := congrArg List.length hrandom
        rw [hnil, List.length_set, List.length_set, List.length_nil] at hlen
        omega
      have hgetLast : s₂.vRandom.getLast hne = n := by
        rw [List.getLast_eq_getElem, List.getElem_of_eq hrandom]
        have hlen : s₂.vRandom.length = s₁.vRandom.length := by
          rw [hrandom, List.length_set, List.length_set]
        rw [List.getElem_set, if_pos (by omega)]
      conv_lhs => rw [← List.dropLast_append_getLast hne, hgetLast]
    have hdeleted := herased.deleteLast hn₂ hfield.2.1 hzero hlast
    rw [hfield.1] at hdeleted
    refine ⟨s₂.deleteLast n info.toCNetAddr, rfl, hdeleted, ?_, ?_⟩
    · intro m i hi htried
      replace hi : (s₂.mapInfo.erase n)[m]? = some i := hi
      rw [getElem?_erase_int] at hi
      split at hi
      · cases hi
      rename_i hnm
      obtain ⟨i₁, hi₁, heq⟩ := hmoved.back hi
      rw [hs₁other m hnm] at hi₁
      rw [CAddrInfo.eq_of_unplaced heq] at htried ⊢
      exact held m i₁ hi₁ htried
    · refine ⟨?_, ?_, fun m hnm => ?_⟩
      · show Function.update s₂.vvNew b ((s₂.vvNew b).erase n) = _
        rw [hmoved.vvNew, hs₁new]
      · exact hmoved.nKey.trans hs₁key
      · show Option.map _ ((s₂.mapInfo.erase n)[m]?) = _
        rw [getElem?_erase_int, if_neg hnm, hmoved.info m, hs₁other m hnm]
  · rw [if_neg hlastRef]
    have herased := hless.eraseNew (b := b) (n := n) (by rw [hs₁new]; exact hmem)
    rw [hback] at herased
    refine ⟨s₁, rfl, herased, ?_, ?_⟩
    · intro m i hi htried
      replace hi : s₁.mapInfo[m]? = some i := hi
      by_cases hnm : n = m
      · subst hnm
        obtain rfl := Option.some.inj (hs₁n.symm.trans hi)
        show 1 ≤ info.nRefCount - 1 ∧ info.nRefCount - 1 ≤ _
        omega
      · rw [hs₁other m hnm] at hi
        exact held m i hi htried
    · refine ⟨?_, hs₁key, fun m hnm => ?_⟩
      · show Function.update s₁.vvNew b ((s₁.vvNew b).erase n) = _
        rw [hs₁new]
      · show Option.map _ (s₁.mapInfo[m]?) = _
        rw [hs₁other m hnm]

theorem firstTerrible_spec (clock : Nat → Int) {l : List Int} (hl : ∀ n ∈ l, ∃ info, s.mapInfo[n]? = some info)
    (i : Nat) : ∃ o, s.firstTerrible clock i l = some o ∧ ∀ n, o = some n → n ∈ l := by
  induction l generalizing i with
  | nil => exact ⟨none, rfl, fun n hn => (nomatch hn)⟩
  | cons x l ih =>
    obtain ⟨info, hx⟩ := hl x List.mem_cons_self
    unfold firstTerrible
    rw [hx]
    show ∃ o, (if info.isTerrible (clock i) then some (some x) else s.firstTerrible clock (i + 1) l) = some o ∧ _
    split
    · exact ⟨some x, rfl, fun n hn => by rw [← Option.some.inj hn]; exact List.mem_cons_self⟩
    · obtain ⟨o, ho, hmem⟩ := ih (fun n hn => hl n (List.mem_cons_of_mem _ hn)) (i + 1)
      exact ⟨o, ho, fun n hn => List.mem_cons_of_mem _ (hmem n hn)⟩

/-- If one of the places is in the list, an entry of the list is found. -/
theorem oldestAmong_spec (picks : List Nat) {l : List Int}
    (hl : ∀ n ∈ l, 0 ≤ n ∧ ∃ info, s.mapInfo[n]? = some info) (nI : Nat) {nOldest : Int}
    (hold : nOldest = -1 ∨ ∃ info, s.mapInfo[nOldest]? = some info)
    (hpick : nOldest ≠ -1 ∨ ∃ k, k < l.length ∧ nI + k ∈ picks) :
    ∃ r, s.oldestAmong picks nI nOldest l = some r ∧ (r = nOldest ∧ nOldest ≠ -1 ∨ r ∈ l) := by
  induction l generalizing nI nOldest with
  | nil =>
    refine ⟨nOldest, rfl, Or.inl ⟨rfl, ?_⟩⟩
    rcases hpick with h | ⟨k, hk, -⟩
    · exact h
    · exact absurd hk (Nat.not_lt_zero k)
  | cons x l ih =>
    obtain ⟨hx0, info, hx⟩ := hl x List.mem_cons_self
    have hrest := fun n hn => hl n (List.mem_cons_of_mem x hn)
    have hxne : x ≠ -1 := by omega
    -- going on with an entry in hand, from this list or from before
    have hgo : ∀ r₀ : Int, (r₀ = nOldest ∧ nOldest ≠ -1 ∨ r₀ = x) → (∃ i, s.mapInfo[r₀]? = some i) →
        ∃ r, s.oldestAmong picks (nI + 1) r₀ l = some r ∧ (r = nOldest ∧ nOldest ≠ -1 ∨ r ∈ x :: l) := by
      intro r₀ hr₀ hentry
      have hne : r₀ ≠ -1 := by
        rcases hr₀ with ⟨rfl, h⟩ | rfl
        · exact h
        · exact hxne
      obtain ⟨r, hr, hcase⟩ := ih hrest (nI + 1) (Or.inr hentry) (Or.inl hne)
      refine ⟨r, hr, ?_⟩
      rcases hcase with ⟨rfl, -⟩ | hmem
      · exact hr₀.imp id fun he => by rw [he]; exact List.mem_cons_self
      · exact Or.inr (List.mem_cons_of_mem _ hmem)
    unfold oldestAmong
    by_cases hpicked : nI ∈ picks
    · rw [if_pos hpicked, hx]
      show ∃ r, (if nOldest = -1 then _ else _) = some r ∧ _
      by_cases hnone : nOldest = -1
      · rw [if_pos hnone]
        exact hgo x (Or.inr rfl) ⟨info, hx⟩
      · rw [if_neg hnone]
        obtain ⟨oldest, holdest⟩ := hold.resolve_left hnone
        rw [holdest]
        show ∃ r, s.oldestAmong picks (nI + 1) (if info.nTime < oldest.nTime then x else nOldest) l = some r ∧ _
        split
        · exact hgo x (Or.inr rfl) ⟨info, hx⟩
        · exact hgo nOldest (Or.inl ⟨rfl, hnone⟩) ⟨oldest, holdest⟩
    · rw [if_neg hpicked]
      have hnext : nOldest ≠ -1 ∨ ∃ k, k < l.length ∧ nI + 1 + k ∈ picks := by
        refine hpick.imp id ?_
        rintro ⟨k, hk, hmem⟩
        cases k with
        | zero => exact absurd hmem hpicked
        | succ k =>
          refine ⟨k, Nat.lt_of_succ_lt_succ hk, ?_⟩
          have heq : nI + 1 + k = nI + (k + 1) := by omega
          rw [heq]
          exact hmem
      obtain ⟨r, hr, hcase⟩ := ih hrest (nI + 1) hold hnext
      exact ⟨r, hr, hcase.imp id (List.mem_cons_of_mem _)⟩

theorem shrinkNew_spec (h : Linked Hash T ahead s) (held : Held s) (clock : Nat → Int) (rand : Nat → Nat)
    {b : NewBucket} (hlevel : ∀ n ∈ s.vvNew b, ahead n = 0) (hsize : 0 < (s.vvNew b).size) :
    ∃ s' r n, s.shrinkNew clock rand b = some (s', r) ∧ n ∈ s.vvNew b ∧ Linked Hash T ahead s' ∧ Held s' ∧
      Shrunk b n s s' := by
  have hentry : ∀ n ∈ (s.vvNew b).toList, 0 ≤ n ∧ ∃ info, s.mapInfo[n]? = some info := by
    intro n hn
    obtain ⟨info, hinfo, -⟩ := h.untried b n (ExtTreeSet.mem_toList.mp hn)
    exact ⟨(h.ids n info hinfo).1, info, hinfo⟩
  obtain ⟨o, ho, hmem⟩ := firstTerrible_spec clock (fun n hn => (hentry n hn).2) 0
  unfold shrinkNew
  rw [ho]
  cases o with
  | some n =>
    have hn := ExtTreeSet.mem_toList.mp (hmem n rfl)
    obtain ⟨s', hdrop, hlinked, hheld, hshrunk⟩ := h.dropReference_spec held hn (hlevel n hn)
    refine ⟨s'.eraseNew b n, 0, n, ?_, hn, hlinked, hheld, hshrunk⟩
    show (s.dropReference n).bind _ = _
    rw [hdrop]
    rfl
  | none =>
    generalize hpicks : [getRandInt (rand 0) (s.vvNew b).size, getRandInt (rand 1) (s.vvNew b).size,
      getRandInt (rand 2) (s.vvNew b).size, getRandInt (rand 3) (s.vvNew b).size] = picks
    have hpick : ∃ k, k < (s.vvNew b).toList.length ∧ 0 + k ∈ picks := by
      refine ⟨getRandInt (rand 0) (s.vvNew b).size, ?_, ?_⟩
      · rw [ExtTreeSet.length_toList]
        exact getRandInt_lt _ hsize
      · rw [Nat.zero_add, ← hpicks]
        exact List.mem_cons_self
    obtain ⟨n, hoth, hcase⟩ := oldestAmong_spec picks hentry 0 (Or.inl rfl) (Or.inr hpick)
    have hn := ExtTreeSet.mem_toList.mp (hcase.resolve_left fun he => he.2 rfl)
    obtain ⟨s', hdrop, hlinked, hheld, hshrunk⟩ := h.dropReference_spec held hn (hlevel n hn)
    refine ⟨s'.eraseNew b n, 1, n, ?_, hn, hlinked, hheld, hshrunk⟩
    show (s.oldestAmong [getRandInt (rand 0) (s.vvNew b).size, getRandInt (rand 1) (s.vvNew b).size,
      getRandInt (rand 2) (s.vvNew b).size, getRandInt (rand 3) (s.vvNew b).size] 0 (-1)
      (s.vvNew b).toList).bind _ = _
    rw [hpicks, hoth]
    show (s.dropReference n).bind _ = _
    rw [hdrop]
    rfl

/-! ## One more reference -/

/-- `Add_` ends with an entry in one more bucket, or where it was. -/
theorem enterNew_spec (h : Linked Hash T level s) {n : Int} {info : CAddrInfo} (hn : s.mapInfo[n]? = some info)
    (hin : info.fInTried = false) (hrefs : info.nRefCount < ADDRMAN_NEW_BUCKETS_PER_ADDRESS) (held : HeldBut n s)
    (clock : Nat → Int) (rand : Nat → Nat) (source : CNetAddr) :
    ∃ s', s.enterNew Hash clock rand n source = some s' ∧ Linked Hash T level s' ∧ Held s' := by
  have hcopies := h.refs n info hn
  have hlevel : ∀ m, level m = 0 := fun _ => rfl
  rw [hlevel] at hcopies
  unfold enterNew
  rw [hn]
  generalize hb : getNewBucket Hash s.nKey info.toCNetAddr source = b
  show ∃ s', (if n ∈ s.vvNew (getNewBucket Hash s.nKey info.toCNetAddr source) then _ else _) = some s' ∧ _
  rw [hb]
  by_cases hmem : n ∈ s.vvNew b
  · rw [if_pos hmem]
    refine ⟨s, rfl, h, fun m i hi htried => ?_⟩
    by_cases hmn : m = n
    · subst hmn
      obtain rfl := Option.some.inj (hn.symm.trans hi)
      have hpos : copies s.vvNew m ≠ 0 := fun hzero => copies_eq_zero.mp hzero b hmem
      omega
    · exact held m i hi htried hmn
  · rw [if_neg hmem]
    -- a reference ahead of the bucket
    have hahead := h.setInfo { info with nRefCount := info.nRefCount + 1 } (aheadBy level n 1)
      hn rfl rfl rfl (by rw [aheadBy, Function.update_self]; show info.nRefCount + 1 = _; omega)
      (fun m hnm => Function.update_of_ne (fun he => hnm he.symm) _ _)
      (fun hT => ⟨(h.dated hT n info hn).nLastTry, (h.dated hT n info hn).nLastSuccess, (h.dated hT n info hn).tried⟩)
    have hheld : Held (s.setInfo n { info with nRefCount := info.nRefCount + 1 }) := by
      intro m i hi htried
      rw [getElem?_setInfo] at hi
      split at hi
      · obtain rfl := Option.some.inj hi
        show 1 ≤ info.nRefCount + 1 ∧ info.nRefCount + 1 ≤ _
        omega
      · rename_i hnm
        exact held m i hi htried fun he => hnm he.symm
    have hback := aheadBy_back level n (show (1 : Int) + -1 = 0 from rfl)
    have hget : (s.setInfo n { info with nRefCount := info.nRefCount + 1 }).mapInfo[n]? =
        some { info with nRefCount := info.nRefCount + 1 } := by rw [getElem?_setInfo, if_pos rfl]
    generalize hs₁ : s.setInfo n { info with nRefCount := info.nRefCount + 1 } = s₁ at hahead hheld hget
    have hnew : s₁.vvNew = s.vvNew := by rw [← hs₁]; rfl
    show ∃ s', (if (s₁.vvNew b).size = ADDRMAN_NEW_BUCKET_SIZE then _ else _) = some s' ∧ _
    by_cases hfull : (s₁.vvNew b).size = ADDRMAN_NEW_BUCKET_SIZE
    · rw [if_pos hfull]
      have hzero : ∀ m ∈ s₁.vvNew b, aheadBy level n 1 m = 0 := by
        intro m hm
        rw [hnew] at hm
        exact Function.update_of_ne (fun he : m = n => hmem (he ▸ hm)) _ _
      obtain ⟨s₂, r, x, hshrink, hx, hlinked, hheld₂, hshrunk⟩ :=
        hahead.shrinkNew_spec hheld clock rand hzero (by rw [hfull]; decide)
      rw [hshrink]
      have hnx : x ≠ n := by
        rintro rfl
        rw [hnew] at hx
        exact hmem hx
      have hmap := hshrunk.info n hnx
      rw [hget] at hmap
      obtain ⟨i₂, hi₂, heq⟩ := Option.map_eq_some_iff.mp hmap
      have hin₂ : i₂.fInTried = false := by
        rw [CAddrInfo.eq_of_unplaced heq]
        exact hin
      have hmem₂ : n ∉ s₂.vvNew b := by
        rw [hshrunk.vvNew, mem_update_erase]
        rintro ⟨-, he⟩
        rw [hnew] at he
        exact hmem he
      have hsize : (s₂.vvNew b).size < ADDRMAN_NEW_BUCKET_SIZE := by
        rw [hshrunk.vvNew, Function.update_self, ExtTreeSet.size_erase, if_pos (ExtTreeSet.contains_iff_mem.mpr hx), hfull]
        decide
      have hdone := hlinked.insertNew hi₂ hin₂ hmem₂ hsize
      rw [hback] at hdone
      exact ⟨s₂.insertNew b n, rfl, hdone, hheld₂⟩
    · rw [if_neg hfull]
      have hsize := Nat.lt_of_le_of_ne (hahead.newSize b) hfull
      have hdone := hahead.insertNew hget hin (by rw [hnew]; exact hmem) hsize
      rw [hback] at hdone
      exact ⟨s₁.insertNew b n, rfl, hdone, hheld⟩

/-! ## The tried table -/

/-- The order in a tried bucket does not matter. -/
theorem setTried_perm (h : Linked Hash T ahead s) {b : TriedBucket} {v : List Int} (hv : v.Perm (s.vvTried b)) :
    Linked Hash T ahead (s.setTried b v) := by
  have hperm : ∀ c, (Function.update s.vvTried b v c).Perm (s.vvTried c) := by
    intro c
    by_cases hc : c = b
    · subst hc
      rw [Function.update_self]
      exact hv
    · rw [Function.update_of_ne hc]
  refine ⟨h.idCount, h.ids, h.addr, h.random, h.refs, h.untried, h.newSize, ?_, ?_, ?_, ?_, h.count, h.dated⟩
  · intro c n
    exact (hperm c).mem_iff.trans (h.tried c n)
  · intro c
    exact (hperm c).nodup_iff.mpr (h.triedNodup c)
  · intro c
    exact (hperm c).length_eq ▸ h.triedSize c
  · have hsum := sum_length_update s.vvTried b v
    have hlength := hv.length_eq
    show s.nTried = ((∑ c, (Function.update s.vvTried b v c).length : Nat) : Int)
    rw [h.nTried]
    omega

/-- An untried entry is taken out of all new buckets. -/
theorem eraseEverywhere (h : Linked Hash T level s) {n : Int} {info : CAddrInfo} (hn : s.mapInfo[n]? = some info) :
    Linked Hash T level { s.setInfo n { info with nRefCount := 0 } with vvNew := fun b => (s.vvNew b).erase n } := by
  have hmem : ∀ b m, m ∈ (s.vvNew b).erase n ↔ n ≠ m ∧ m ∈ s.vvNew b := by
    intro b m
    rw [ExtTreeSet.mem_erase]
    exact and_congr_left fun _ => not_congr LawfulEqCmp.compare_eq_iff_eq
  -- the entry as far ahead as it has buckets, and then out of them
  have hless := h.setInfo { info with nRefCount := 0 } (aheadBy level n (-(copies s.vvNew n : Int)))
    hn rfl rfl rfl
    (by
      have := h.refs n info hn
      have hlevel : level n = 0 := rfl
      rw [aheadBy, Function.update_self]
      show 0 = info.nRefCount + _ - _
      omega)
    (fun m hnm => Function.update_of_ne (fun he => hnm he.symm) _ _)
    (fun hT => ⟨(h.dated hT n info hn).nLastTry, (h.dated hT n info hn).nLastSuccess, (h.dated hT n info hn).tried⟩)
  refine ⟨hless.idCount, hless.ids, hless.addr, hless.random, ?_, ?_, ?_, hless.tried, hless.triedNodup, hless.triedSize,
    hless.nTried, hless.count, hless.dated⟩
  · intro m i hi
    have hrefs := hless.refs m i hi
    show i.nRefCount = (copies (fun b => (s.vvNew b).erase n) m : Int) + 0
    by_cases hnm : n = m
    · subst hnm
      have hzero : copies (fun b => (s.vvNew b).erase n) n = 0 :=
        copies_eq_zero.mpr fun b hb => ((hmem b n).mp hb).1 rfl
      replace hi : (s.setInfo n { info with nRefCount := 0 }).mapInfo[n]? = some i := hi
      rw [getElem?_setInfo, if_pos rfl] at hi
      rw [hzero, ← Option.some.inj hi]
      rfl
    · have hsame : copies (fun b => (s.vvNew b).erase n) m = copies s.vvNew m :=
        copies_congr fun b => (hmem b m).trans ⟨fun he => he.2, fun he => ⟨hnm, he⟩⟩
      rw [aheadBy, Function.update_of_ne fun he => hnm he.symm] at hrefs
      rw [hsame]
      exact hrefs
  · intro b m hm
    exact hless.untried b m ((hmem b m).mp hm).2
  · intro b
    exact Nat.le_trans ExtTreeSet.size_erase_le (h.newSize b)

/-- An entry in no new bucket goes from one table to the other: it is in the tried bucket it belongs to
    exactly if it is said to be tried. -/
theorem retable (h : Linked Hash T ahead s) {n : Int} {info info' : CAddrInfo} {v : TriedBucket → List Int} {x y : Int}
    {ahead' : Int → Int} (hn : s.mapInfo[n]? = some info) (hservice : info'.toCService = info.toCService)
    (hplace : info'.nRandomPos = info.nRandomPos) (hrefs : info'.nRefCount = info.nRefCount + ahead' n - ahead n)
    (hother : ∀ m, n ≠ m → ahead' m = ahead m) (hnone : copies s.vvNew n = 0)
    (hmem : ∀ c m, m ∈ v c ↔ (n = m ∧ info'.fInTried = true ∧ getTriedBucket Hash s.nKey info.toCService = c) ∨
      (n ≠ m ∧ m ∈ s.vvTried c))
    (hnodup : ∀ c, (v c).Nodup) (hsize : ∀ c, (v c).length ≤ ADDRMAN_TRIED_BUCKET_SIZE)
    (hx : x = ((∑ c, (v c).length : Nat) : Int)) (hxy : x + y = s.nTried + s.nNew) (hdated : T → info'.Dated) :
    Linked Hash T ahead' { s.setInfo n info' with vvTried := v, nTried := x, nNew := y } := by
  have hget : ∀ m : Int, (s.mapInfo.insert n info')[m]? = if n = m then some info' else s.mapInfo[m]? :=
    fun m => getElem?_insert_int _ _ m _
  have haddr : info'.toCNetAddr = info.toCNetAddr := congrArg CService.toCNetAddr hservice
  constructor
  · exact h.idCount
  · intro m i hi
    replace hi : (s.mapInfo.insert n info')[m]? = some i := hi
    rw [hget] at hi
    split at hi
    · rename_i hnm
      subst hnm
      exact h.ids n info hn
    · exact h.ids m i hi
  · intro a m
    refine (h.addr a m).trans ?_
    show _ ↔ ∃ i, (s.mapInfo.insert n info')[m]? = some i ∧ i.toCNetAddr = a
    rw [hget]
    by_cases hnm : n = m
    · subst hnm
      rw [if_pos rfl, hn]
      constructor
      · rintro ⟨i, hi, ha⟩
        obtain rfl := Option.some.inj hi
        exact ⟨info', rfl, haddr.trans ha⟩
      · rintro ⟨i, hi, ha⟩
        obtain rfl := Option.some.inj hi
        exact ⟨info, rfl, haddr.symm.trans ha⟩
    · rw [if_neg hnm]
  · have hsame : (fun m : Int => ((s.mapInfo.insert n info')[m]?).map (·.nRandomPos)) =
        fun m : Int => (s.mapInfo[m]?).map (·.nRandomPos) := by
      funext m
      rw [hget]
      by_cases hnm : n = m
      · subst hnm
        rw [if_pos rfl, hn]
        exact congrArg some hplace
      · rw [if_neg hnm]
    show Positioned s.vRandom fun m : Int => ((s.mapInfo.insert n info')[m]?).map (·.nRandomPos)
    rw [hsame]
    exact h.random
  · intro m i hi
    replace hi : (s.mapInfo.insert n info')[m]? = some i := hi
    rw [hget] at hi
    split at hi
    · rename_i hnm
      subst hnm
      obtain rfl := Option.some.inj hi
      have := h.refs n info hn
      show info'.nRefCount = (copies s.vvNew n : Int) + ahead' n
      omega
    · rename_i hnm
      rw [hother m hnm]
      exact h.refs m i hi
  · intro c m hm
    obtain ⟨i, hi, htried⟩ := h.untried c m hm
    refine ⟨i, ?_, htried⟩
    show (s.mapInfo.insert n info')[m]? = some i
    rw [hget, if_neg, hi]
    rintro rfl
    exact copies_eq_zero.mp hnone c hm
  · exact h.newSize
  · intro c m
    show m ∈ v c ↔ ∃ i, (s.mapInfo.insert n info')[m]? = some i ∧ i.fInTried = true ∧
        getTriedBucket Hash s.nKey i.toCService = c
    rw [hget, hmem]
    by_cases hnm : n = m
    · subst hnm
      rw [if_pos rfl]
      constructor
      · rintro (⟨-, htried, hc⟩ | ⟨hne, -⟩)
        · exact ⟨info', rfl, htried, hservice ▸ hc⟩
        · exact absurd rfl hne
      · rintro ⟨i, hi, htried, hc⟩
        obtain rfl := Option.some.inj hi
        exact Or.inl ⟨rfl, htried, hservice ▸ hc⟩
    · rw [if_neg hnm, ← h.tried c m]
      exact ⟨fun he => (he.resolve_left fun he => hnm he.1).2, fun he => Or.inr ⟨hnm, he⟩⟩
  · exact hnodup
  · exact hsize
  · exact hx
  · have hcount := h.count
    show (s.vRandom.length : Int) = x + y
    omega
  · intro hT m i hi
    replace hi : (s.mapInfo.insert n info')[m]? = some i := hi
    rw [hget] at hi
    split at hi
    · obtain rfl := Option.some.inj hi
      exact hdated hT
    · exact h.dated hT m i hi

/-- An untried entry in no bucket goes into its tried bucket. -/
theorem enterTried (h : Linked Hash T ahead s) {n : Int} {info : CAddrInfo} {b : TriedBucket} {v : List Int}
    (hn : s.mapInfo[n]? = some info) (hin : info.fInTried = false) (hnone : copies s.vvNew n = 0)
    (hb : getTriedBucket Hash s.nKey info.toCService = b) (hv : v.Perm (n :: s.vvTried b))
    (hsize : v.length ≤ ADDRMAN_TRIED_BUCKET_SIZE) (hdated : T → info.nLastSuccess ≠ 0) :
    Linked Hash T ahead { (s.setTried b v).setInfo n { info with fInTried := true } with
      nTried := s.nTried + 1, nNew := s.nNew - 1 } := by
  have hnot : ∀ c, n ∉ s.vvTried c := by
    intro c hc
    obtain ⟨i, hi, htried, -⟩ := (h.tried c n).mp hc
    obtain rfl := Option.some.inj (hn.symm.trans hi)
    rw [hin] at htried
    cases htried
  refine h.retable (v := Function.update s.vvTried b v) hn rfl rfl
    (show info.nRefCount = info.nRefCount + ahead n - ahead n by omega) (fun m _ => rfl) hnone ?_ ?_ ?_ ?_ ?_ ?_
  · intro c m
    rw [hb]
    by_cases hc : c = b
    · subst hc
      rw [Function.update_self, hv.mem_iff, List.mem_cons]
      by_cases hnm : n = m
      · subst hnm
        exact ⟨fun _ => Or.inl ⟨rfl, rfl, rfl⟩, fun _ => Or.inl rfl⟩
      · exact ⟨fun he => Or.inr ⟨hnm, he.resolve_left fun he => hnm he.symm⟩,
          fun he => Or.inr (he.resolve_left fun he => hnm he.1).2⟩
    · rw [Function.update_of_ne hc]
      constructor
      · exact fun he => Or.inr ⟨fun hnm => hnot c (hnm ▸ he), he⟩
      · exact fun he => (he.resolve_left fun he => hc he.2.2.symm).2
  · intro c
    by_cases hc : c = b
    · subst hc
      rw [Function.update_self, hv.nodup_iff, List.nodup_cons]
      exact ⟨hnot c, h.triedNodup c⟩
    · rw [Function.update_of_ne hc]
      exact h.triedNodup c
  · intro c
    by_cases hc : c = b
    · subst hc
      rw [Function.update_self]
      exact hsize
    · rw [Function.update_of_ne hc]
      exact h.triedSize c
  · have hsum := sum_length_update s.vvTried b v
    have hlength := hv.length_eq
    rw [List.length_cons] at hlength
    rw [h.nTried]
    omega
  · omega
  · exact fun hT => ⟨(h.dated hT n info hn).nLastTry, (h.dated hT n info hn).nLastSuccess, fun _ => hdated hT⟩

/-- A tried entry goes out of its bucket, with a reference ahead of the new one it is to come into. -/
theorem leaveTried (h : Linked Hash T level s) {n : Int} {info : CAddrInfo} {b : TriedBucket} {v : List Int}
    (hn : s.mapInfo[n]? = some info) (hv : (s.vvTried b).Perm (n :: v)) :
    Linked Hash T (aheadBy level n 1) { (s.setTried b v).setInfo n { info with fInTried := false, nRefCount := 1 } with
      nTried := s.nTried - 1, nNew := s.nNew + 1 } := by
  have hnodup := hv.nodup_iff.mp (h.triedNodup b)
  rw [List.nodup_cons] at hnodup
  have hin : ∀ c, n ∈ s.vvTried c → c = b := by
    intro c hc
    obtain ⟨i, hi, -, hic⟩ := (h.tried c n).mp hc
    obtain ⟨i', hi', -, hib⟩ := (h.tried b n).mp (hv.mem_iff.mpr List.mem_cons_self)
    obtain rfl := Option.some.inj (hi.symm.trans hi')
    exact hic.symm.trans hib
  have hnone : copies s.vvNew n = 0 := by
    refine copies_eq_zero.mpr fun c hc => ?_
    obtain ⟨i, hi, htried⟩ := h.untried c n hc
    obtain ⟨i', hi', htried', -⟩ := (h.tried b n).mp (hv.mem_iff.mpr List.mem_cons_self)
    obtain rfl := Option.some.inj (hi.symm.trans hi')
    rw [htried] at htried'
    cases htried'
  have hrefs : (1 : Int) = info.nRefCount + aheadBy level n 1 n - level n := by
    have := h.refs n info hn
    rw [hnone] at this
    have hlevel : level n = 0 := rfl
    rw [aheadBy, Function.update_self]
    omega
  refine h.retable (v := Function.update s.vvTried b v) hn rfl rfl hrefs
    (fun m hnm => Function.update_of_ne (fun he => hnm he.symm) _ _) hnone ?_ ?_ ?_ ?_ ?_ ?_
  · intro c m
    have hno : ¬ (n = m ∧ false = true ∧ getTriedBucket Hash s.nKey info.toCService = c) := fun he => nomatch he.2.1
    refine Iff.trans ?_ (or_iff_right hno).symm
    by_cases hc : c = b
    · subst hc
      rw [Function.update_self, hv.mem_iff, List.mem_cons]
      constructor
      · exact fun hm => ⟨fun hnm => hnodup.1 (hnm ▸ hm), Or.inr hm⟩
      · exact fun he => he.2.resolve_left fun heq => he.1 heq.symm
    · rw [Function.update_of_ne hc]
      constructor
      · exact fun hm => ⟨fun hnm => hc (hin c (hnm ▸ hm)), hm⟩
      · exact fun he => he.2
  · intro c
    by_cases hc : c = b
    · subst hc
      rw [Function.update_self]
      exact hnodup.2
    · rw [Function.update_of_ne hc]
      exact h.triedNodup c
  · intro c
    by_cases hc : c = b
    · subst hc
      have := h.triedSize c
      have hlength := hv.length_eq
      rw [List.length_cons] at hlength
      rw [Function.update_self]
      omega
    · rw [Function.update_of_ne hc]
      exact h.triedSize c
  · have hsum := sum_length_update s.vvTried b v
    have hlength := hv.length_eq
    rw [List.length_cons] at hlength
    rw [h.nTried]
    omega
  · omega
  · exact fun hT => ⟨(h.dated hT n info hn).nLastTry, (h.dated hT n info hn).nLastSuccess, fun he => nomatch he⟩

/-! ## Moving an entry over -/

/-- One round of `SelectTried`: two places of the bucket are swapped, and an entry of it is in hand. -/
theorem inspect_spec (rand : Nat → Nat) {l v : List Int} {nOldest nOldestPos : Int} {i : Nat} (hv : v.Perm l)
    (hentry : ∀ n ∈ l, 0 ≤ n ∧ ∃ info, s.mapInfo[n]? = some info) (hi : i < l.length)
    (hold : nOldest = -1 ∨ (0 ≤ nOldestPos ∧ nOldestPos < l.length ∧ ∃ info, s.mapInfo[nOldest]? = some info)) :
    ∃ v' r, s.inspect rand (v, nOldest, nOldestPos) i = some (v', r) ∧ v'.Perm l ∧ r.1 ≠ -1 ∧
      0 ≤ r.2 ∧ r.2 < l.length ∧ ∃ info, s.mapInfo[r.1]? = some info := by
  have hlength := hv.length_eq
  have hdraw : getRandInt (rand i) (v.length - i) < v.length - i := getRandInt_lt (rand i) (by omega)
  generalize hpos : getRandInt (rand i) (v.length - i) + i = nPos
  have hposlt : nPos < v.length := by omega
  have hilt : i < v.length := by omega
  obtain ⟨h0, info, hinfo⟩ := hentry v[nPos] (hv.mem_iff.mp (List.getElem_mem hposlt))
  have hswap : ((v.set nPos v[i]).set i v[nPos]).Perm l := (List.set_set_perm hposlt hilt).trans hv
  have hrun : s.inspect rand (v, nOldest, nOldestPos) i =
      (if nOldest = -1 then some ((v.set nPos v[i]).set i v[nPos], v[nPos], (nPos : Int))
      else (s.mapInfo[nOldest]?).bind fun oldest => if info.nLastSuccess < oldest.nLastSuccess then
        some ((v.set nPos v[i]).set i v[nPos], v[nPos], (nPos : Int))
        else some ((v.set nPos v[i]).set i v[nPos], nOldest, nOldestPos)) := by
    unfold inspect
    show (v[getRandInt (rand i) (v.length - i) + i]?).bind _ = _
    rw [hpos, List.getElem?_eq_getElem hposlt]
    show (v[i]?).bind _ = _
    rw [List.getElem?_eq_getElem hilt]
    show (s.mapInfo[v[nPos]]?).bind _ = _
    rw [hinfo]
    rfl
  rw [hrun]
  have hnew : v[nPos] ≠ -1 := by omega
  have hplaced : (0 : Int) ≤ (nPos : Int) ∧ (nPos : Int) < l.length := by omega
  by_cases hnone : nOldest = -1
  · rw [if_pos hnone]
    exact ⟨_, _, rfl, hswap, hnew, hplaced.1, hplaced.2, info, hinfo⟩
  · rw [if_neg hnone]
    obtain ⟨hold0, holdlt, oldest, holdest⟩ := hold.resolve_left hnone
    rw [holdest]
    show ∃ v' r, (if info.nLastSuccess < oldest.nLastSuccess then
      some ((v.set nPos v[i]).set i v[nPos], v[nPos], (nPos : Int))
      else some ((v.set nPos v[i]).set i v[nPos], nOldest, nOldestPos)) = some (v', r) ∧ _
    split
    · exact ⟨_, _, rfl, hswap, hnew, hplaced.1, hplaced.2, info, hinfo⟩
    · exact ⟨_, _, rfl, hswap, hnone, hold0, holdlt, oldest, holdest⟩

/-- A bucket that is not empty is shuffled, and a place in it is found. -/
theorem selectTried_spec (rand : Nat → Nat) {b : TriedBucket}
    (hentry : ∀ n ∈ s.vvTried b, 0 ≤ n ∧ ∃ info, s.mapInfo[n]? = some info) (hne : 0 < (s.vvTried b).length) :
    ∃ (v : List Int) (nPos : Nat), s.selectTried rand b = some (s.setTried b v, (nPos : Int)) ∧ v.Perm (s.vvTried b) ∧ nPos < v.length := by
  generalize hl : s.vvTried b = l at hentry hne
  -- after the rounds so far, and after at least one of them there is a place
  have hrounds : ∀ k, k ≤ l.length → ∃ v r, (List.range k).foldlM (s.inspect rand) (l, -1, -1) = some (v, r) ∧
      v.Perm l ∧ (r.1 = -1 ∨ (0 ≤ r.2 ∧ r.2 < l.length ∧ ∃ info, s.mapInfo[r.1]? = some info)) ∧
      (0 < k → r.1 ≠ -1) := by
    intro k
    induction k with
    | zero => exact fun _ => ⟨l, (-1, -1), rfl, List.Perm.refl l, Or.inl rfl, fun h => absurd h (Nat.lt_irrefl 0)⟩
    | succ k ih =>
      intro hk
      obtain ⟨v, ⟨nOldest, nOldestPos⟩, hrun, hperm, hold, -⟩ := ih (by omega)
      obtain ⟨v', r', hstep, hperm', hne', h0, hlt, hinfo⟩ :=
        inspect_spec rand hperm hentry (show k < l.length by omega) hold
      refine ⟨v', r', ?_, hperm', Or.inr ⟨h0, hlt, hinfo⟩, fun _ => hne'⟩
      rw [List.range_succ, List.foldlM_append, hrun]
      show (s.inspect rand (v, nOldest, nOldestPos) k).bind _ = _
      rw [hstep]
      rfl
  obtain ⟨v, r, hrun, hperm, hold, hne'⟩ := hrounds (min ADDRMAN_TRIED_ENTRIES_INSPECT_ON_EVICT l.length)
    (Nat.min_le_right _ _)
  have hpos : 0 < min ADDRMAN_TRIED_ENTRIES_INSPECT_ON_EVICT l.length := Nat.lt_min.mpr ⟨by decide, hne⟩
  obtain ⟨h0, hlt, -⟩ := hold.resolve_left (hne' hpos)
  refine ⟨v, r.2.toNat, ?_, hperm, ?_⟩
  · unfold selectTried
    rw [hl]
    show ((List.range (min ADDRMAN_TRIED_ENTRIES_INSPECT_ON_EVICT l.length)).foldlM (s.inspect rand) (l, -1, -1)).bind _ = _
    rw [hrun, Int.toNat_of_nonneg h0]
    rfl
  · rw [hperm.length_eq]
    omega

/-- An entry out of all buckets takes the place of one in its full bucket, and that one goes back to a new
    bucket.  The count of new entries is one less already. -/
theorem replaceTried_spec (h : Linked Hash T level s) (rand : Nat → Nat) {n : Int} {info : CAddrInfo}
    {b : TriedBucket} {o : NewBucket} (held : HeldBut n s) (hn : s.mapInfo[n]? = some info)
    (hin : info.fInTried = false) (hnone : copies s.vvNew n = 0)
    (hb : getTriedBucket Hash s.nKey info.toCService = b) (hfull : 0 < (s.vvTried b).length)
    (hroom : (s.vvNew o).size < ADDRMAN_NEW_BUCKET_SIZE) (hdated : T → info.nLastSuccess ≠ 0) :
    ∃ s', replaceTried Hash { s with nNew := s.nNew - 1 } rand n info b o = some s' ∧ Linked Hash T level s' ∧
      Held s' := by
  have hentry : ∀ m ∈ s.vvTried b, 0 ≤ m ∧ ∃ i, s.mapInfo[m]? = some i := by
    intro m hm
    obtain ⟨i, hi, -⟩ := (h.tried b m).mp hm
    exact ⟨(h.ids m i hi).1, i, hi⟩
  obtain ⟨v, nPos, hselect, hv, hpos⟩ := selectTried_spec (s := { s with nNew := s.nNew - 1 }) rand hentry hfull
  -- the entry that goes
  have hold : v[nPos] ∈ s.vvTried b := hv.mem_iff.mp (List.getElem_mem hpos)
  generalize hm : v[nPos] = m at hold
  obtain ⟨infoOld, hm', htriedOld, -⟩ := (h.tried b m).mp hold
  have hnm : n ≠ m := by
    rintro rfl
    obtain rfl := Option.some.inj (hn.symm.trans hm')
    rw [hin] at htriedOld
    cases htriedOld
  -- the new bucket it goes to has place
  generalize hu : getNewBucket Hash s.nKey infoOld.toCNetAddr infoOld.source = u
  generalize hc : (if (s.vvNew u).size < ADDRMAN_NEW_BUCKET_SIZE then u else o) = c
  have hcroom : (s.vvNew c).size < ADDRMAN_NEW_BUCKET_SIZE := by
    rw [← hc]
    split
    · assumption
    · exact hroom
  have hrun : replaceTried Hash { s with nNew := s.nNew - 1 } rand n info b o =
      some { ((((s.setTried b v).setInfo m { infoOld with fInTried := false, nRefCount := 1 }).insertNew c m).setTried b
        (v.set nPos n)).setInfo n { info with fInTried := true } with nNew := s.nNew - 1 + 1 } := by
    have hguard : (guard (0 ≤ (nPos : Int)) : Option Unit) = some () := if_pos (Int.natCast_nonneg nPos)
    have hbucket : Function.update s.vvTried b v b = v := Function.update_self ..
    unfold replaceTried
    rw [hselect, Option.bind_eq_bind, Option.bind_some]
    show (guard (0 ≤ (nPos : Int)) : Option Unit).bind _ = _
    rw [hguard]
    show ((Function.update s.vvTried b v b)[(nPos : Int).toNat]?).bind _ = _
    rw [hbucket, Int.toNat_natCast, List.getElem?_eq_getElem hpos, hm]
    show (s.mapInfo[m]?).bind _ = _
    rw [hm']
    have hevict : evict Hash (setTried { s with nNew := s.nNew - 1 } b v) m infoOld o =
        { ((s.setTried b v).setInfo m { infoOld with fInTried := false, nRefCount := 1 }).insertNew c m with
          nNew := s.nNew - 1 + 1 } := by
      rw [← hc, ← hu]
      rfl
    show some ((setTried (evict Hash (setTried { s with nNew := s.nNew - 1 } b v) m infoOld o) b
      (((evict Hash (setTried { s with nNew := s.nNew - 1 } b v) m infoOld o).vvTried b).set nPos n)).setInfo n
        { info with fInTried := true }) = _
    rw [hevict]
    show some (CAddrMan.setInfo (setTried _ b ((Function.update s.vvTried b v b).set nPos n)) n _) = _
    rw [hbucket]
    rfl
  refine ⟨_, hrun, ?_, ?_⟩
  · -- the one goes out of its bucket, into the new one, and the other into its place
    have hvm : ((s.setTried b v).vvTried b).Perm (m :: v.eraseIdx nPos) := by
      show (Function.update s.vvTried b v b).Perm _
      rw [Function.update_self, ← hm]
      exact (List.getElem_cons_eraseIdx_perm hpos).symm
    have hleft := (h.setTried_perm hv).leaveTried (n := m) hm' hvm
    have hplacedOld : (s.mapInfo.insert m { infoOld with fInTried := false, nRefCount := 1 })[m]? =
        some { infoOld with fInTried := false, nRefCount := 1 } := by
      rw [getElem?_insert_int, if_pos rfl]
    have hentered := hleft.insertNew (b := c) (n := m) hplacedOld rfl (by
        intro hmc
        obtain ⟨i, hi, htried⟩ := h.untried c m hmc
        obtain rfl := Option.some.inj (hm'.symm.trans hi)
        rw [htriedOld] at htried
        cases htried) hcroom
    rw [aheadBy_back level m (show (1 : Int) + -1 = 0 from rfl)] at hentered
    have hcopies : copies (Function.update s.vvNew c ((s.vvNew c).insert m)) n = 0 :=
      (copies_insert_ne (fun he => hnm he.symm)).trans hnone
    have hplaced : (v.set nPos n).Perm (n :: Function.update (Function.update s.vvTried b v) b (v.eraseIdx nPos) b) := by
      rw [Function.update_self]
      exact List.set_perm_cons_eraseIdx hpos n
    have hstays : (s.mapInfo.insert m { infoOld with fInTried := false, nRefCount := 1 })[n]? = some info := by
      rw [getElem?_insert_int, if_neg fun he => hnm he.symm, hn]
    have hdone := hentered.enterTried (n := n) (b := b) (v := v.set nPos n) hstays hin hcopies hb hplaced (by
        rw [List.length_set, hv.length_eq]
        exact h.triedSize b) hdated
    have hnTried : s.nTried - 1 + 1 = s.nTried := by omega
    have hnNew : s.nNew + 1 - 1 = s.nNew - 1 + 1 := by omega
    have hsame : Function.update (Function.update (Function.update s.vvTried b v) b (v.eraseIdx nPos)) b (v.set nPos n) =
        Function.update (Function.update s.vvTried b v) b (v.set nPos n) := by
      rw [Function.update_idem]
    convert hdone using 1
    show CAddrMan.mk _ _ _ _ _ _ _ _ _ = CAddrMan.mk _ _ _ _ _ (s.nTried - 1 + 1)
      (Function.update (Function.update (Function.update s.vvTried b v) b (v.eraseIdx nPos)) b (v.set nPos n))
      (s.nNew + 1 - 1) _
    rw [hnTried, hnNew, hsame]
    rfl
  · intro x i hi htried
    replace hi : ((s.mapInfo.insert m { infoOld with fInTried := false, nRefCount := 1 }).insert n
      { info with fInTried := true })[x]? = some i := hi
    rw [getElem?_insert_int, getElem?_insert_int] at hi
    split at hi
    · obtain rfl := Option.some.inj hi
      cases htried
    · rename_i hnx
      split at hi
      · obtain rfl := Option.some.inj hi
        show (1 : Int) ≤ 1 ∧ (1 : Int) ≤ ADDRMAN_NEW_BUCKETS_PER_ADDRESS
        decide
      · exact held x i hi htried fun he => hnx he.symm

/-- An untried entry that has a new bucket becomes a tried one. -/
theorem makeTried_spec (h : Linked Hash T level s) (held : Held s) (rand : Nat → Nat) {n : Int} {info : CAddrInfo}
    {o : NewBucket} (hn : s.mapInfo[n]? = some info) (hmem : n ∈ s.vvNew o) (hdated : T → info.nLastSuccess ≠ 0) :
    ∃ s', s.makeTried Hash rand n o = some s' ∧ Linked Hash T level s' ∧ Held s' := by
  have hin : info.fInTried = false := by
    obtain ⟨i, hi, hin⟩ := h.untried o n hmem
    obtain rfl := Option.some.inj (hn.symm.trans hi)
    exact hin
  have hzero : info.nRefCount - copies s.vvNew n = 0 := by
    have := h.refs n info hn
    have hlevel : level n = 0 := rfl
    omega
  have hheld : HeldBut n { s.setInfo n { info with nRefCount := 0 } with vvNew := fun b => (s.vvNew b).erase n } := by
    intro m i hi htried hmn
    replace hi : (s.setInfo n { info with nRefCount := 0 }).mapInfo[m]? = some i := hi
    rw [getElem?_setInfo, if_neg fun he => hmn he.symm] at hi
    exact held m i hi htried
  have herased := h.eraseEverywhere hn
  generalize hs₁ : ({ s.setInfo n { info with nRefCount := 0 } with vvNew := fun b => (s.vvNew b).erase n } : CAddrMan) =
    s₁ at herased hheld
  have hget : s₁.mapInfo[n]? = some { info with nRefCount := 0 } := by
    rw [← hs₁]
    show (s.mapInfo.insert n _)[n]? = _
    rw [getElem?_insert_int, if_pos rfl]
  have hgone : ∀ c, s₁.vvNew c = (s.vvNew c).erase n := by
    intro c
    rw [← hs₁]
  have hcopies : copies s₁.vvNew n = 0 := by
    refine copies_eq_zero.mpr fun c hc => ?_
    rw [hgone, ExtTreeSet.mem_erase] at hc
    exact hc.1 (LawfulEqCmp.compare_eq_iff_eq.mpr rfl)
  generalize hb : getTriedBucket Hash s.nKey info.toCService = b
  have hb₁ : getTriedBucket Hash s₁.nKey info.toCService = b := by
    rw [← hb, ← hs₁]
    rfl
  have hrun : s.makeTried Hash rand n o = (if (s₁.vvTried b).length < ADDRMAN_TRIED_BUCKET_SIZE then
      some { (s₁.setTried b (s₁.vvTried b ++ [n])).setInfo n { info with nRefCount := 0, fInTried := true } with
          nTried := s₁.nTried + 1, nNew := s₁.nNew - 1 }
      else replaceTried Hash { s₁ with nNew := s₁.nNew - 1 } rand n { info with nRefCount := 0 } b o) := by
    have hguard : (guard (n ∈ s.vvNew o) : Option Unit) = some () := if_pos hmem
    have hguard₀ : (guard (info.nRefCount - (copies s.vvNew n : Int) = 0) : Option Unit) = some () := if_pos hzero
    unfold makeTried
    rw [hguard, hn]
    show (guard (info.nRefCount - (copies s.vvNew n : Int) = 0) : Option Unit).bind _ = _
    rw [hguard₀, hzero, ← hs₁, ← hb]
    rfl
  rw [hrun]
  by_cases hsize : (s₁.vvTried b).length < ADDRMAN_TRIED_BUCKET_SIZE
  · rw [if_pos hsize]
    refine ⟨_, rfl, ?_, ?_⟩
    · refine herased.enterTried hget hin hcopies hb₁
        (List.perm_append_singleton n _) ?_ hdated
      rw [List.length_append, List.length_singleton]
      exact hsize
    · intro m i hi htried
      replace hi : (s₁.mapInfo.insert n { info with nRefCount := 0, fInTried := true })[m]? = some i := hi
      rw [getElem?_insert_int] at hi
      split at hi
      · obtain rfl := Option.some.inj hi
        cases htried
      · rename_i hnm
        exact hheld m i hi htried fun he => hnm he.symm
  · rw [if_neg hsize]
    have hfull : 0 < (s₁.vvTried b).length := Nat.lt_of_lt_of_le (by decide) (Nat.le_of_not_lt hsize)
    have hroom : (s₁.vvNew o).size < ADDRMAN_NEW_BUCKET_SIZE := by
      have hle := h.newSize o
      have hpos : 0 < (s.vvNew o).size := by
        rcases Nat.eq_zero_or_pos (s.vvNew o).size with h0 | hpos
        · rw [ExtTreeSet.eq_empty_iff_size_eq_zero.mpr h0] at hmem
          exact absurd hmem ExtTreeSet.not_mem_empty
        · exact hpos
      rw [hgone, ExtTreeSet.size_erase, if_pos (ExtTreeSet.contains_iff_mem.mpr hmem)]
      omega
    exact herased.replaceTried_spec rand hheld hget hin hcopies hb₁ hfull hroom hdated

/-! ## The calls -/

/-- An entry is written over in what neither its links nor its references look at. -/
theorem rewrite (h : Linked Hash T ahead s) (held : Held s) {n : Int} {info : CAddrInfo} (info' : CAddrInfo)
    (hn : s.mapInfo[n]? = some info) (hservice : info'.toCService = info.toCService)
    (hplace : info'.nRandomPos = info.nRandomPos) (hin : info'.fInTried = info.fInTried)
    (hrefs : info'.nRefCount = info.nRefCount) (hdated : T → info'.Dated) :
    Linked Hash T ahead (s.setInfo n info') ∧ Held (s.setInfo n info') := by
  refine ⟨h.setInfo info' ahead hn hservice hplace hin (by omega) (fun _ _ => rfl) hdated, fun m i hi htried => ?_⟩
  rw [getElem?_setInfo] at hi
  split at hi
  · obtain rfl := Option.some.inj hi
    rw [hin] at htried
    rw [hrefs]
    exact held n info hn htried
  · exact held m i hi htried

theorem good_spec (h : Linked Hash T level s) (held : Held s) (rand : Nat → Nat) (addr : CService) {nTime : Int}
    (htime : T → 0 < nTime) : ∃ s', s.good Hash rand addr nTime = some s' ∧ Linked Hash T level s' ∧ Held s' := by
  unfold good
  split
  · exact ⟨s, rfl, h, held⟩
  rename_i n info hfind
  have hn := (find_eq_some.mp hfind).2
  split
  · exact ⟨s, rfl, h, held⟩
  have hdated : T → ({ info with
      nLastSuccess := nTime, nLastTry := nTime, nTime := UInt32.ofInt nTime, nAttempts := 0 } : CAddrInfo).Dated := by
    intro hT
    have := htime hT
    exact ⟨Int.le_of_lt this, Int.le_of_lt this, fun _ => Int.ne_of_gt this⟩
  obtain ⟨h₁, held₁⟩ := h.rewrite held { info with
      nLastSuccess := nTime, nLastTry := nTime, nTime := UInt32.ofInt nTime, nAttempts := 0 } hn rfl rfl rfl rfl hdated
  show ∃ s', (if info.fInTried then _ else _) = some s' ∧ _
  split
  · exact ⟨_, rfl, h₁, held₁⟩
  split
  · exact ⟨_, rfl, h₁, held₁⟩
  · rename_i o ho
    refine h₁.makeTried_spec held₁ (fun k => rand (k + 1)) (by rw [getElem?_setInfo, if_pos rfl]) ?_ fun hT => ?_
    · exact mem_of_bucketFrom ho
    · exact Int.ne_of_gt (htime hT)

theorem attempt_spec (h : Linked Hash T level s) (held : Held s) (addr : CService) {nTime : Int} (htime : T → 0 ≤ nTime) :
    Linked Hash T level (s.attempt addr nTime) ∧ Held (s.attempt addr nTime) := by
  unfold attempt
  split
  · exact ⟨h, held⟩
  rename_i n info hfind
  have hn := (find_eq_some.mp hfind).2
  split
  · exact ⟨h, held⟩
  · exact h.rewrite held _ hn rfl rfl rfl rfl fun hT =>
      ⟨htime hT, (h.dated hT n info hn).nLastSuccess, (h.dated hT n info hn).tried⟩

theorem connected_spec (h : Linked Hash T level s) (held : Held s) (addr : CService) (nTime : Int) :
    Linked Hash T level (s.connected addr nTime) ∧ Held (s.connected addr nTime) := by
  unfold connected
  split
  · exact ⟨h, held⟩
  rename_i n info hfind
  have hn := (find_eq_some.mp hfind).2
  split
  · exact ⟨h, held⟩
  · exact h.rewrite held _ hn rfl rfl rfl rfl fun hT =>
      ⟨(h.dated hT n info hn).nLastTry, (h.dated hT n info hn).nLastSuccess, (h.dated hT n info hn).tried⟩

/-- An address without a number gets a new entry, in no bucket yet. -/
theorem create (h : Linked Hash T level s) {addr : CAddress} (source : CNetAddr)
    (hnone : s.mapAddr.lookup addr.toCNetAddr = none) :
    Linked Hash T level { s.create addr source with nNew := s.nNew + 1 } := by
  generalize hinfo : ({ CAddrInfo.ofAddress addr source with nRandomPos := s.vRandom.length } : CAddrInfo) = info
  have haddr : info.toCNetAddr = addr.toCNetAddr := by rw [← hinfo]; rfl
  have hfresh : s.mapInfo[s.nIdCount]? = none := by
    cases hget : s.mapInfo[s.nIdCount]? with
    | none => rfl
    | some i =>
      have := (h.ids _ i hget).2
      omega
  have hget : ∀ m : Int, ({ s.create addr source with nNew := s.nNew + 1 } : CAddrMan).mapInfo[m]? =
      if s.nIdCount = m then some info else s.mapInfo[m]? := by
    intro m
    rw [← hinfo]
    exact getElem?_insert_int _ _ m _
  have hstays : ∀ {m : Int} {i : CAddrInfo}, s.mapInfo[m]? = some i → s.nIdCount ≠ m := by
    rintro m i hi rfl
    rw [hfresh] at hi
    cases hi
  have hnowhere : ∀ b, s.nIdCount ∉ s.vvNew b := by
    intro b hb
    obtain ⟨i, hi, -⟩ := h.untried b _ hb
    exact hstays hi rfl
  constructor
  · have := h.idCount
    show 0 ≤ s.nIdCount + 1
    omega
  · intro m i hi
    show 0 ≤ m ∧ m < s.nIdCount + 1
    rw [hget] at hi
    split at hi
    · rename_i hm
      have := h.idCount
      omega
    · have := h.ids m i hi
      omega
  · intro a m
    show (s.mapAddr.insert addr.toCNetAddr s.nIdCount).lookup a = some m ↔ _
    rw [lookup_insert_eq_ite, hget]
    by_cases ha : addr.toCNetAddr = a
    · rw [if_pos ha, Option.some.injEq]
      constructor
      · rintro rfl
        exact ⟨info, if_pos rfl, haddr.trans ha⟩
      · rintro ⟨i, hi, hia⟩
        split at hi
        · assumption
        · -- the address had no number
          have := (h.addr a m).mpr ⟨i, hi, hia⟩
          rw [← ha, hnone] at this
          cases this
    · rw [if_neg ha, h.addr a m]
      constructor
      · rintro ⟨i, hi, hia⟩
        exact ⟨i, by rw [if_neg (hstays hi)]; exact hi, hia⟩
      · rintro ⟨i, hi, hia⟩
        split at hi
        · obtain rfl := Option.some.inj hi
          exact absurd (haddr.symm.trans hia) ha
        · exact ⟨i, hi, hia⟩
  · have hpush := h.random.push (a := s.nIdCount) (by
      show (s.mapInfo[s.nIdCount]?).map _ = none
      rw [hfresh]
      rfl)
    have heq : (fun m : Int => (({ s.create addr source with nNew := s.nNew + 1 } : CAddrMan).mapInfo[m]?).map
        (·.nRandomPos)) = Function.update (fun m : Int => (s.mapInfo[m]?).map (·.nRandomPos)) s.nIdCount
          (some (s.vRandom.length : Int)) := by
      funext m
      rw [hget]
      by_cases hm : s.nIdCount = m
      · rw [if_pos hm, ← hm, Function.update_self, ← hinfo]
        rfl
      · rw [if_neg hm, Function.update_of_ne fun he => hm he.symm]
    rw [heq]
    exact hpush
  · intro m i hi
    rw [hget] at hi
    split at hi
    · rename_i hm
      subst hm
      obtain rfl := Option.some.inj hi
      have hzero : copies s.vvNew s.nIdCount = 0 := copies_eq_zero.mpr hnowhere
      show info.nRefCount = (copies s.vvNew s.nIdCount : Int) + 0
      rw [hzero, ← hinfo]
      rfl
    · exact h.refs m i hi
  · intro b m hm
    obtain ⟨i, hi, htried⟩ := h.untried b m hm
    exact ⟨i, by rw [hget, if_neg (hstays hi)]; exact hi, htried⟩
  · exact h.newSize
  · intro b m
    refine (h.tried b m).trans ?_
    rw [hget]
    constructor
    · rintro ⟨i, hi, htried⟩
      exact ⟨i, by rw [if_neg (hstays hi)]; exact hi, htried⟩
    · rintro ⟨i, hi, htried, hb⟩
      split at hi
      · obtain rfl := Option.some.inj hi
        rw [← hinfo] at htried
        cases htried
      · exact ⟨i, hi, htried, hb⟩
  · exact h.triedNodup
  · exact h.triedSize
  · exact h.nTried
  · have hcount := h.count
    show ((s.vRandom ++ [s.nIdCount]).length : Int) = s.nTried + (s.nNew + 1)
    rw [List.length_append, List.length_singleton]
    omega
  · intro hT m i hi
    rw [hget] at hi
    split at hi
    · obtain rfl := Option.some.inj hi
      rw [← hinfo]
      exact ⟨Int.le_refl 0, Int.le_refl 0, fun he => nomatch he⟩
    · exact h.dated hT m i hi

theorem add_spec (h : Linked Hash T level s) (held : Held s) (clock : Nat → Int) (rand : Nat → Nat)
    (addr : CAddress) (source : CNetAddr) (nTimePenalty : Int) :
    ∃ s' r, s.add Hash clock rand addr source nTimePenalty = some (s', r) ∧ Linked Hash T level s' ∧ Held s' := by
  unfold add
  split
  · exact ⟨s, false, rfl, h, held⟩
  split
  · rename_i n info hfind
    have hn := (find_eq_some.mp hfind).2
    -- the entry is updated first
    obtain ⟨h₁, held₁⟩ := h.rewrite held (seenAgain info addr nTimePenalty (clock 0)) hn rfl rfl rfl rfl
      fun hT => ⟨(h.dated hT n info hn).nLastTry, (h.dated hT n info hn).nLastSuccess, (h.dated hT n info hn).tried⟩
    have hget : (s.setInfo n (seenAgain info addr nTimePenalty (clock 0))).mapInfo[n]? =
        some (seenAgain info addr nTimePenalty (clock 0)) := by rw [getElem?_setInfo, if_pos rfl]
    generalize seenAgain info addr nTimePenalty (clock 0) = info₁ at h₁ held₁ hget
    dsimp only
    generalize s.setInfo n info₁ = s₁ at h₁ held₁ hget ⊢
    split
    · exact ⟨s₁, false, rfl, h₁, held₁⟩
    split
    · exact ⟨s₁, false, rfl, h₁, held₁⟩
    rename_i htried
    have htried : info₁.fInTried = false := Bool.eq_false_iff.mpr htried
    split
    · exact ⟨s₁, false, rfl, h₁, held₁⟩
    rename_i hfour
    split
    · exact ⟨s₁, false, rfl, h₁, held₁⟩
    have hle := (held₁ n info₁ hget htried).2
    obtain ⟨s₂, hrun, h₂, held₂⟩ := h₁.enterNew_spec hget htried (by omega) (fun m i hi hin _ => held₁ m i hi hin)
      (fun k => clock (k + 1)) (fun k => rand (k + 1)) source
    refine ⟨s₂, false, ?_, h₂, held₂⟩
    show (s₁.enterNew Hash (fun k => clock (k + 1)) (fun k => rand (k + 1)) n source).bind _ = _
    rw [hrun]
    rfl
  · rename_i hfind
    have hnone : s.mapAddr.lookup addr.toCNetAddr = none := by
      cases hlookup : s.mapAddr.lookup addr.toCNetAddr with
      | none => rfl
      | some n =>
        obtain ⟨i, hi, -⟩ := (h.addr _ n).mp hlookup
        rw [find_eq_some.mpr ⟨hlookup, hi⟩] at hfind
        cases hfind
    have hcreated := h.create source hnone
    have hget : (s.create addr source).mapInfo[s.nIdCount]? =
        some { CAddrInfo.ofAddress addr source with nRandomPos := s.vRandom.length } := by
      show (s.mapInfo.insert s.nIdCount _)[s.nIdCount]? = _
      rw [getElem?_insert_int, if_pos rfl]
    generalize hinfo : ({ CAddrInfo.ofAddress addr source with nRandomPos := s.vRandom.length } : CAddrInfo) = info at hget
    have hfields : info.fInTried = false ∧ info.nRefCount = 0 := by rw [← hinfo]; exact ⟨rfl, rfl⟩
    generalize hinfo' : ({ info with
      nTime := UInt32.ofInt (max 0 (int64 (CAddrInfo.seen info.toCAddress - nTimePenalty))) } : CAddrInfo) = info'
    have hsame : info'.toCService = info.toCService ∧ info'.nRandomPos = info.nRandomPos ∧
        info'.fInTried = info.fInTried ∧ info'.nRefCount = info.nRefCount ∧ info'.nLastTry = info.nLastTry ∧
        info'.nLastSuccess = info.nLastSuccess := by
      rw [← hinfo']
      exact ⟨rfl, rfl, rfl, rfl, rfl, rfl⟩
    obtain ⟨hservice, hplace, hin, hrefs, htry, hsuccess⟩ := hsame
    have hupdated := hcreated.setInfo info' level hget hservice hplace hin (by omega) (fun _ _ => rfl) fun hT => by
      have hd := hcreated.dated hT _ info hget
      exact ⟨htry ▸ hd.nLastTry, hsuccess ▸ hd.nLastSuccess, by rw [hin, hsuccess]; exact hd.tried⟩
    have hheld : HeldBut s.nIdCount (({ s.create addr source with nNew := s.nNew + 1 } : CAddrMan).setInfo s.nIdCount info') := by
      intro m i hi htried hm
      rw [getElem?_setInfo, if_neg fun he => hm he.symm] at hi
      replace hi : (s.mapInfo.insert s.nIdCount _)[m]? = some i := hi
      rw [getElem?_insert_int, if_neg fun he => hm he.symm] at hi
      exact held m i hi htried
    obtain ⟨s₂, hrun, h₂, held₂⟩ := hupdated.enterNew_spec (n := s.nIdCount)
      (show _ = some info' by rw [getElem?_setInfo, if_pos rfl]) (hin.trans hfields.1) (by rw [hrefs, hfields.2]; decide) hheld clock rand source
    refine ⟨s₂, true, ?_, h₂, held₂⟩
    show ((s.create addr source).mapInfo[s.nIdCount]?).bind _ = _
    rw [hget]
    show (CAddrMan.enterNew Hash (({ s.create addr source with nNew := s.nNew + 1 } : CAddrMan).setInfo s.nIdCount
      { info with nTime := UInt32.ofInt (max 0 (int64 (CAddrInfo.seen info.toCAddress - nTimePenalty))) })
      clock rand s.nIdCount source).bind _ = _
    rw [hinfo', hrun]
    rfl

/-- No assertion fails in `Select`, which changes nothing. -/
theorem select_spec (h : Linked Hash T level s) (fTried : Bool) (rounds : List (Nat × Nat × Bool)) :
    ∃ r, s.select fTried rounds = some r := by
  have hfrom : ∀ bucket : Nat → List Int, (∀ b, ∀ n ∈ bucket b, ∃ info, s.mapInfo[n]? = some info) →
      ∃ r, s.selectFrom bucket rounds = some r := by
    intro bucket hbucket
    induction rounds with
    | nil => exact ⟨none, rfl⟩
    | cons round rounds ih =>
      obtain ⟨nBucket, nRand, fChance⟩ := round
      unfold selectFrom
      split
      · exact ih
      · rename_i hne
        have hlt := getRandInt_lt nRand (List.length_pos_iff.mpr hne)
        obtain ⟨info, hinfo⟩ := hbucket nBucket _ (List.getElem_mem hlt)
        rw [List.getElem?_eq_getElem hlt]
        show ∃ r, (s.mapInfo[_]?).bind _ = some r
        rw [hinfo]
        show ∃ r, (if fChance then some (some info.toCAddress) else s.selectFrom bucket rounds) = some r
        split
        · exact ⟨_, rfl⟩
        · exact ih
  unfold select
  split
  · exact ⟨_, rfl⟩
  split
  · refine hfrom _ fun b n hn => ?_
    obtain ⟨i, hi, -⟩ := (h.tried _ n).mp hn
    exact ⟨i, hi⟩
  · refine hfrom _ fun b n hn => ?_
    obtain ⟨i, hi, -⟩ := h.untried _ n (ExtTreeSet.mem_toList.mp hn)
    exact ⟨i, hi⟩

theorem getAddr_spec (h : Linked Hash T level s) (held : Held s) (rand : Nat → Nat) :
    ∃ s' r, s.getAddr rand = some (s', r) ∧ Linked Hash T level s' ∧ Held s' := by
  -- the rounds so far have only moved entries
  have hrounds : ∀ k, k ≤ s.vRandom.length → ∃ s' r, (List.range k).foldlM (getAddrAt rand) (s, []) = some (s', r) ∧
      Linked Hash T level s' ∧ Held s' ∧ s'.vRandom.length = s.vRandom.length := by
    intro k
    induction k with
    | zero => exact fun _ => ⟨s, [], rfl, h, held, rfl⟩
    | succ k ih =>
      intro hk
      obtain ⟨s₁, r, hrun, h₁, held₁, hlength⟩ := ih (by omega)
      have hdraw : getRandInt (rand k) (s₁.vRandom.length - k) < s₁.vRandom.length - k :=
        getRandInt_lt (rand k) (by omega)
      generalize hpos : getRandInt (rand k) (s₁.vRandom.length - k) + k = nPos
      obtain ⟨s₂, hswap, hmoved, hrandom, h₂⟩ := h₁.swapRandom_spec
        (List.getElem?_eq_getElem (show k < s₁.vRandom.length by omega))
        (List.getElem?_eq_getElem (show nPos < s₁.vRandom.length by omega))
      have hlength₂ : s₂.vRandom.length = s₁.vRandom.length := by rw [hrandom, List.length_set, List.length_set]
      obtain ⟨info, hinfo, -⟩ := h₂.at_place (List.getElem?_eq_getElem (show k < s₂.vRandom.length by omega))
      refine ⟨s₂, r ++ [info.toCAddress], ?_, h₂, ?_, hlength₂.trans hlength⟩
      · rw [List.range_succ, List.foldlM_append, hrun]
        show (getAddrAt rand (s₁, r) k).bind _ = _
        unfold getAddrAt
        show ((s₁.swapRandom k (getRandInt (rand k) (s₁.vRandom.length - k) + k : Nat)).bind _).bind _ = _
        rw [hpos, hswap]
        show ((s₂.vRandom[k]?).bind _).bind _ = _
        rw [List.getElem?_eq_getElem (show k < s₂.vRandom.length by omega)]
        show ((s₂.mapInfo[_]?).bind _).bind _ = _
        rw [hinfo]
        rfl
      · intro m i hi htried
        obtain ⟨i₁, hi₁, heq⟩ := hmoved.back hi
        rw [CAddrInfo.eq_of_unplaced heq] at htried ⊢
        exact held₁ m i₁ hi₁ htried
  have hle : min (ADDRMAN_GETADDR_MAX_PCT * s.vRandom.length / 100) ADDRMAN_GETADDR_MAX ≤ s.vRandom.length := by
    refine Nat.le_trans (Nat.min_le_left _ _) ?_
    unfold ADDRMAN_GETADDR_MAX_PCT
    omega
  obtain ⟨s', r, hrun, h', held', -⟩ := hrounds _ hle
  exact ⟨s', r, hrun, h', held'⟩

end Linked

/-- One call keeps the links, and no assertion fails in it. -/
theorem step_linked (h : Linked Hash T level s) (held : Held s) (call : AddrCall) (htimed : T → call.Timed) :
    ∃ s', s.step Hash call = some s' ∧ Linked Hash T level s' ∧ Held s' := by
  cases call with
  | add clock rand addr source nTimePenalty =>
    obtain ⟨s', r, hrun, h', held'⟩ := h.add_spec held clock rand addr source nTimePenalty
    exact ⟨s', by rw [step, hrun]; rfl, h', held'⟩
  | good rand addr nTime => exact h.good_spec held rand addr htimed
  | attempt addr nTime => exact ⟨_, rfl, h.attempt_spec held addr htimed⟩
  | connected addr nTime => exact ⟨_, rfl, h.connected_spec held addr nTime⟩
  | select fTried rounds =>
    obtain ⟨r, hr⟩ := h.select_spec fTried rounds
    exact ⟨s, by rw [step, hr]; rfl, h, held⟩
  | getAddr rand =>
    obtain ⟨s', r, hrun, h', held'⟩ := h.getAddr_spec held rand
    exact ⟨s', by rw [step, hrun]; rfl, h', held'⟩

/-- So does every sequence of calls. -/
theorem run_linked (h : Linked Hash T level s) (held : Held s) (calls : List AddrCall)
    (htimed : T → ∀ call ∈ calls, call.Timed) :
    ∃ s', s.run Hash calls = some s' ∧ Linked Hash T level s' ∧ Held s' := by
  induction calls generalizing s with
  | nil => exact ⟨s, rfl, h, held⟩
  | cons call calls ih =>
    obtain ⟨s₁, hstep, h₁, held₁⟩ := step_linked h held call fun hT => htimed hT call List.mem_cons_self
    obtain ⟨s₂, hrun, h₂, held₂⟩ := ih h₁ held₁ fun hT c hc => htimed hT c (List.mem_cons_of_mem _ hc)
    refine ⟨s₂, ?_, h₂, held₂⟩
    rw [run, List.foldlM_cons, hstep]
    exact hrun

end CAddrMan

end Silkcoin
