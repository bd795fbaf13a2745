/-
  The address tables WRITTEN AND READ BACK.

  Numbers are not kept: a file has the new entries in the order of their numbers, then the tried ones, and
  the buckets name an entry by its place in the file (`unkId`).  Which entry is which afterwards is told by
  the address, and that gives the renaming (`renumber`).

  Of tables that pass the check every new entry comes back, in the buckets it was in.  Two things are NOT in
  the file: when an entry was last tried, and the tried buckets.  A tried entry is put where its address
  belongs, and the check does not ask whether it was there before; what finds its bucket full is lost.

  That the tables pass the check again is what is known of files (`checked_of_sound`): the entries have
  different addresses, and a bucket is named for an entry as often as there are buckets it is in
  (`length_places`), once each.
-/
import Silkcoin.PeersFile

namespace Silkcoin

open BatchStore Buckets Codec Std

/-- What a file says of an entry; the rest is as the constructor sets it. -/
def CAddrInfo.onDisk (info : CAddrInfo) : CAddrInfo :=
  { info with nLastTry := 0, nRefCount := 0, fInTried := false, nRandomPos := -1 }

namespace CAddrMan

/-! ## Writing -/

/-- The new entries from number `nIds` on, and the numbers they have in the file.  An entry that is not
    written has the number of the next one. -/
def writeNew (nNew : Int) : List (Int × CAddrInfo) → Int → ExtTreeMap Int Int → List CAddrInfo × ExtTreeMap Int Int
  | [], _, mapUnkIds => ([], mapUnkIds)
  | (n, info) :: rest, nIds, mapUnkIds =>
    if nIds = nNew then ([], mapUnkIds)
    else if info.nRefCount ≠ 0 then
      let (vNew, mapUnkIds) := writeNew nNew rest (nIds + 1) (mapUnkIds.insert n nIds)
      (info :: vNew, mapUnkIds)
    else writeNew nNew rest nIds (mapUnkIds.insert n nIds)

def writeTried (nTried : Int) : List (Int × CAddrInfo) → Int → List CAddrInfo
  | [], _ => []
  | (_, info) :: rest, nIds =>
    if nIds = nTried then []
    else if info.fInTried then info :: writeTried nTried rest (nIds + 1)
    else writeTried nTried rest nIds

variable (s : CAddrMan)

/-- `mapUnkIds[n]` -/
def unkId (n : Int) : Int := ((writeNew s.nNew s.mapInfo.toList 0 ∅).2[n]?).getD 0

def serialize (nVersion : UInt32) : List UInt8 :=
  [0] ++ (writeByteVector s.nKey ++ (toLEInt 4 s.nNew ++ (toLEInt 4 s.nTried ++
    (toLEInt 4 ADDRMAN_NEW_BUCKET_COUNT ++
      ((writeNew s.nNew s.mapInfo.toList 0 ∅).1.flatMap (CAddrInfo.serialize nVersion) ++
        ((writeTried s.nTried s.mapInfo.toList 0).flatMap (CAddrInfo.serialize nVersion) ++
          (List.finRange ADDRMAN_NEW_BUCKET_COUNT).flatMap fun b =>
            PeersFile.putBucket ((s.vvNew b).toList.map s.unkId)))))))

/-- The file that is written. -/
def file : PeersFile where
  nKey := s.nKey
  vNew := (writeNew s.nNew s.mapInfo.toList 0 ∅).1.map CAddrInfo.onDisk
  vTried := (writeTried s.nTried s.mapInfo.toList 0).map CAddrInfo.onDisk
  vvNew := (List.finRange ADDRMAN_NEW_BUCKET_COUNT).map fun b => (s.vvNew b).toList.map s.unkId

def news : List (Int × CAddrInfo) := s.mapInfo.toList.filter fun e => !e.2.fInTried

def trieds : List (Int × CAddrInfo) := s.mapInfo.toList.filter fun e => e.2.fInTried

variable {s}

/-- If there are as many as `nNew` says, all are written, and numbered one after the other. -/
theorem writeNew_eq {nNew : Int} (l : List (Int × CAddrInfo)) (nIds : Int) (mapUnkIds : ExtTreeMap Int Int)
    (hl : (l.map Prod.fst).Nodup)
    (hcount : nNew = nIds + (l.filter fun e => decide (e.2.nRefCount ≠ 0)).length) :
    (writeNew nNew l nIds mapUnkIds).1 = (l.filter fun e => decide (e.2.nRefCount ≠ 0)).map Prod.snd ∧
    (∀ n : Int, n ∉ l.map Prod.fst → (writeNew nNew l nIds mapUnkIds).2[n]? = mapUnkIds[n]?) ∧
    ∀ (j : Nat) e, (l.filter fun e => decide (e.2.nRefCount ≠ 0))[j]? = some e →
      (writeNew nNew l nIds mapUnkIds).2[e.1]? = some (nIds + j) := by
  induction l generalizing nIds mapUnkIds with
  | nil => exact ⟨rfl, fun n _ => rfl, fun j e he => by cases he⟩
  | cons e l ih =>
    obtain ⟨m, info⟩ := e
    rw [List.map_cons, List.nodup_cons] at hl
    obtain ⟨hm, hl⟩ := hl
    have hother : ∀ {n : Int} {ids : ExtTreeMap Int Int}, n ∉ (m :: l.map Prod.fst) →
        (ids.insert m nIds)[n]? = ids[n]? := by
      intro n ids hn
      rw [getElem?_insert_int, if_neg]
      rintro rfl
      exact hn List.mem_cons_self
    rw [writeNew]
    by_cases hall : nIds = nNew
    · have hnil : ((m, info) :: l).filter (fun e => decide (e.2.nRefCount ≠ 0)) = [] :=
        List.length_eq_zero_iff.mp (by omega)
      rw [if_pos hall, hnil]
      exact ⟨rfl, fun n _ => rfl, fun j e he => by cases he⟩
    · rw [if_neg hall]
      by_cases hrefs : info.nRefCount ≠ 0
      · have hcons : ((m, info) :: l).filter (fun e => decide (e.2.nRefCount ≠ 0)) =
            (m, info) :: l.filter fun e => decide (e.2.nRefCount ≠ 0) :=
          List.filter_cons_of_pos (decide_eq_true hrefs)
        rw [hcons, List.length_cons] at hcount
        obtain ⟨hwritten, hrest, hnumbered⟩ := ih (nIds + 1) (mapUnkIds.insert m nIds) hl (by omega)
        rw [if_pos hrefs, hcons]
        dsimp only
        refine ⟨?_, fun n hn => ?_, fun j e he => ?_⟩
        · rw [hwritten, List.map_cons]
        · rw [hrest n fun hin => hn (List.mem_cons_of_mem _ hin), hother hn]
        · cases j with
          | zero =>
            cases he
            rw [hrest m hm, getElem?_insert_int, if_pos rfl]
            exact congrArg some (Int.add_zero nIds).symm
          | succ j =>
            rw [hnumbered j e he]
            exact congrArg some (by omega)
      · have hcons : ((m, info) :: l).filter (fun e => decide (e.2.nRefCount ≠ 0)) =
            l.filter fun e => decide (e.2.nRefCount ≠ 0) :=
          List.filter_cons_of_neg fun h => hrefs (of_decide_eq_true h)
        rw [hcons] at hcount
        obtain ⟨hwritten, hrest, hnumbered⟩ := ih nIds (mapUnkIds.insert m nIds) hl hcount
        rw [if_neg hrefs, hcons]
        refine ⟨hwritten, fun n hn => ?_, hnumbered⟩
        rw [hrest n fun hin => hn (List.mem_cons_of_mem _ hin), hother hn]

theorem writeTried_eq {nTried : Int} (l : List (Int × CAddrInfo)) (nIds : Int)
    (hcount : nTried = nIds + (l.filter fun e => e.2.fInTried).length) :
    writeTried nTried l nIds = (l.filter fun e => e.2.fInTried).map Prod.snd := by
  induction l generalizing nIds with
  | nil => rfl
  | cons e l ih =>
    obtain ⟨m, info⟩ := e
    rw [writeTried]
    by_cases hall : nIds = nTried
    · have hnil : ((m, info) :: l).filter (fun e => e.2.fInTried) = [] :=
        List.length_eq_zero_iff.mp (by omega)
      rw [if_pos hall, hnil]
      rfl
    · rw [if_neg hall]
      by_cases htried : info.fInTried = true
      · have hcons : ((m, info) :: l).filter (fun e => e.2.fInTried) = (m, info) :: l.filter fun e => e.2.fInTried :=
          List.filter_cons_of_pos htried
        rw [hcons, List.length_cons] at hcount
        rw [if_pos htried, hcons, ih (nIds + 1) (by omega), List.map_cons]
      · have hcons : ((m, info) :: l).filter (fun e => e.2.fInTried) = l.filter fun e => e.2.fInTried :=
          List.filter_cons_of_neg htried
        rw [hcons] at hcount
        rw [if_neg htried, hcons, ih nIds hcount]

/-! ## What is written of tables that pass the check -/

section Written

variable (h : s.Checked)

theorem mem_news {n : Int} {info : CAddrInfo} :
    (n, info) ∈ s.news ↔ s.mapInfo[n]? = some info ∧ info.fInTried = false := by
  unfold news
  rw [List.mem_filter, ExtTreeMap.mem_toList_iff_getElem?_eq_some, Bool.not_eq_true']

theorem mem_trieds {n : Int} {info : CAddrInfo} :
    (n, info) ∈ s.trieds ↔ s.mapInfo[n]? = some info ∧ info.fInTried = true := by
  unfold trieds
  rw [List.mem_filter, ExtTreeMap.mem_toList_iff_getElem?_eq_some]

include h

theorem Checked.news_eq : (s.mapInfo.toList.filter fun e => decide (e.2.nRefCount ≠ 0)) = s.news := by
  refine List.filter_congr fun e he => ?_
  have hok := h.entries e.1 e.2 (ExtTreeMap.mem_toList_iff_getElem?_eq_some.mp he)
  by_cases htried : e.2.fInTried = true
  · rw [htried, (hok.tried htried).2]
    rfl
  · have hfalse := Bool.eq_false_iff.mpr htried
    have hpos := (hok.untried hfalse).1
    rw [hfalse]
    exact decide_eq_true (by omega)

theorem Checked.length_news : (s.news.length : Int) = s.nNew := by
  rw [← h.nNew, List.countP_eq_length_filter]
  rfl

theorem Checked.length_trieds : (s.trieds.length : Int) = s.nTried := by
  rw [← h.nTried, List.countP_eq_length_filter]
  rfl

theorem Checked.writeNew_news : (writeNew s.nNew s.mapInfo.toList 0 ∅).1 = s.news.map Prod.snd ∧
    ∀ (j : Nat) e, s.news[j]? = some e → s.unkId e.1 = j := by
  have hcount : s.nNew = 0 + (s.mapInfo.toList.filter fun e => decide (e.2.nRefCount ≠ 0)).length := by
    rw [h.news_eq, h.length_news, Int.zero_add]
  obtain ⟨hwritten, -, hnumbered⟩ := writeNew_eq s.mapInfo.toList 0 ∅ (nodup_fst_toList s.mapInfo) hcount
  rw [h.news_eq] at hwritten hnumbered
  refine ⟨hwritten, fun j e he => ?_⟩
  unfold unkId
  rw [hnumbered j e he, Option.getD_some, Int.zero_add]

theorem Checked.file_vNew : s.file.vNew = s.news.map fun e => e.2.onDisk := by
  unfold file
  dsimp only
  rw [h.writeNew_news.1, List.map_map]
  rfl

theorem Checked.file_vTried : s.file.vTried = s.trieds.map fun e => e.2.onDisk := by
  have hcount : s.nTried = 0 + (s.mapInfo.toList.filter fun e => e.2.fInTried).length := by
    rw [Int.zero_add]
    exact h.length_trieds.symm
  unfold file
  dsimp only
  rw [writeTried_eq s.mapInfo.toList 0 hcount, List.map_map]
  rfl

theorem Checked.serialize_eq (nVersion : UInt32) : s.serialize nVersion = s.file.serialize nVersion := by
  have hnew : ((s.file.vNew.length : Nat) : Int) = s.nNew := by
    rw [h.file_vNew, List.length_map, h.length_news]
  have htried : ((s.file.vTried.length : Nat) : Int) = s.nTried := by
    rw [h.file_vTried, List.length_map, h.length_trieds]
  have hbuckets : s.file.vvNew.length = ADDRMAN_NEW_BUCKET_COUNT := by
    unfold file
    dsimp only
    rw [List.length_map, List.length_finRange]
  unfold serialize PeersFile.serialize
  rw [hnew, htried, hbuckets]
  unfold file
  dsimp only
  rw [List.flatMap_map, List.flatMap_map, List.flatMap_map]
  rfl

/-! ## The buckets in the file -/

theorem Checked.unkId_of_new {n : Int} {info : CAddrInfo} (hinfo : s.mapInfo[n]? = some info)
    (huntried : info.fInTried = false) : ∃ j : Nat, s.news[j]? = some (n, info) ∧ s.unkId n = j := by
  obtain ⟨j, hj⟩ := List.mem_iff_getElem?.mp (mem_news.mpr ⟨hinfo, huntried⟩)
  exact ⟨j, hj, h.writeNew_news.2 j _ hj⟩

/-- What is in a new bucket is a new entry. -/
theorem Checked.new_of_mem {b : NewBucket} {n : Int} (hn : n ∈ s.vvNew b) :
    ∃ info : CAddrInfo, s.mapInfo[n]? = some info ∧ info.fInTried = false := by
  have hrefs := h.refs n
  have hne : copies s.vvNew n ≠ 0 := fun hzero => copies_eq_zero.mp hzero b hn
  cases hinfo : s.mapInfo[n]? with
  | none =>
    rw [hinfo] at hrefs
    exact absurd (Int.ofNat_eq_zero.mp hrefs) hne
  | some info =>
    refine ⟨info, rfl, Bool.eq_false_iff.mpr fun htried => ?_⟩
    rw [hinfo] at hrefs
    have hrefs : (copies s.vvNew n : Int) = if info.fInTried then 0 else info.nRefCount := hrefs
    rw [htried, if_pos rfl] at hrefs
    exact hne (Int.ofNat_eq_zero.mp hrefs)

theorem Checked.copies_of_new {n : Int} {info : CAddrInfo} (hinfo : s.mapInfo[n]? = some info)
    (huntried : info.fInTried = false) : (copies s.vvNew n : Int) = info.nRefCount := by
  have hrefs := h.refs n
  rw [hinfo] at hrefs
  have hrefs : (copies s.vvNew n : Int) = if info.fInTried then 0 else info.nRefCount := hrefs
  rw [huntried] at hrefs
  exact hrefs

/-- No two new entries have one number in the file. -/
theorem Checked.unkId_inj {b b' : NewBucket} {n n' : Int} (hn : n ∈ s.vvNew b) (hn' : n' ∈ s.vvNew b')
    (heq : s.unkId n = s.unkId n') : n = n' := by
  obtain ⟨info, hinfo, huntried⟩ := h.new_of_mem hn
  obtain ⟨info', hinfo', huntried'⟩ := h.new_of_mem hn'
  obtain ⟨j, hj, hid⟩ := h.unkId_of_new hinfo huntried
  obtain ⟨j', hj', hid'⟩ := h.unkId_of_new hinfo' huntried'
  have hsame : j = j' := by omega
  rw [hsame, hj'] at hj
  exact (Prod.mk.inj (Option.some.inj hj)).1.symm

omit h in
/-- The buckets have their numbers. -/
theorem visitsFrom_map (g : NewBucket → List Int) (l : List NewBucket) (k : Nat)
    (hl : l.map Fin.val = List.range' k l.length) :
    PeersFile.visitsFrom k (l.map g) = l.flatMap fun b => (g b).map fun n => (b, n) := by
  induction l generalizing k with
  | nil => rfl
  | cons b l ih =>
    rw [List.map_cons, List.length_cons, List.range'_succ] at hl
    obtain ⟨hb, hl⟩ := List.cons.inj hl
    have hno : bucketNo k = some b := by
      subst hb
      exact dif_pos b.isLt
    rw [List.map_cons, PeersFile.visitsFrom, hno]
    dsimp only
    rw [ih (k + 1) hl, List.flatMap_cons]

omit h in
theorem visits_file : s.file.visits =
    (List.finRange ADDRMAN_NEW_BUCKET_COUNT).flatMap fun b => (s.vvNew b).toList.map fun n => (b, s.unkId n) := by
  have hrange : (List.finRange ADDRMAN_NEW_BUCKET_COUNT).map Fin.val =
      List.range' 0 (List.finRange ADDRMAN_NEW_BUCKET_COUNT).length := by
    rw [List.length_finRange, ← List.range_eq_range']
    exact List.map_coe_finRange_eq_range
  have hvisits := visitsFrom_map (fun b => (s.vvNew b).toList.map s.unkId) _ 0 hrange
  simp only [List.map_map] at hvisits
  exact hvisits

omit h in
theorem mem_visits {b : NewBucket} {m : Int} : (b, m) ∈ s.file.visits ↔ ∃ n ∈ s.vvNew b, s.unkId n = m := by
  rw [visits_file, List.mem_flatMap]
  constructor
  · rintro ⟨b', -, hmem⟩
    obtain ⟨n, hn, heq⟩ := List.mem_map.mp hmem
    cases heq
    exact ⟨n, ExtTreeSet.mem_toList.mp hn, rfl⟩
  · rintro ⟨n, hn, rfl⟩
    exact ⟨b, List.mem_finRange b, List.mem_map.mpr ⟨n, ExtTreeSet.mem_toList.mpr hn, rfl⟩⟩

theorem Checked.nodup_visits : s.file.visits.Nodup := by
  rw [visits_file]
  refine List.nodup_flatMap.mpr ⟨fun b _ => ?_, ?_⟩
  · have hnodup : (s.vvNew b).toList.Nodup :=
      ExtTreeSet.distinct_toList.imp fun hne heq => hne (LawfulEqCmp.compare_eq_iff_eq.mpr heq)
    refine hnodup.map_on fun n hn n' hn' heq => ?_
    exact h.unkId_inj (ExtTreeSet.mem_toList.mp hn) (ExtTreeSet.mem_toList.mp hn') (Prod.mk.inj heq).2
  · refine (List.nodup_finRange _).imp fun {b c} hbc v hb hc => hbc ?_
    obtain ⟨n, -, rfl⟩ := List.mem_map.mp hb
    obtain ⟨n', -, heq⟩ := List.mem_map.mp hc
    exact (Prod.mk.inj heq).1.symm

theorem Checked.nodup_places (m : Int) : (places s.file.visits m).Nodup := by
  unfold places
  refine (h.nodup_visits.filter _).map_on fun v hv v' hv' heq => Prod.ext heq ?_
  have hm : v.2 = m := of_decide_eq_true (List.mem_filter.mp hv).2
  have hm' : v'.2 = m := of_decide_eq_true (List.mem_filter.mp hv').2
  rw [hm, hm']

/-- A bucket names an entry if the entry is in it. -/
theorem Checked.mem_places {n : Int} {info : CAddrInfo} (hinfo : s.mapInfo[n]? = some info)
    (huntried : info.fInTried = false) (b : NewBucket) : b ∈ places s.file.visits (s.unkId n) ↔ n ∈ s.vvNew b := by
  constructor
  · intro hb
    obtain ⟨n', hn', heq⟩ := mem_visits.mp (mem_visits_of_places hb)
    obtain ⟨info', hinfo', huntried'⟩ := h.new_of_mem hn'
    obtain ⟨j, hj, hid⟩ := h.unkId_of_new hinfo huntried
    obtain ⟨j', hj', hid'⟩ := h.unkId_of_new hinfo' huntried'
    have hsame : j = j' := by omega
    rw [hsame, hj'] at hj
    rw [← (Prod.mk.inj (Option.some.inj hj)).1]
    exact hn'
  · intro hn
    refine List.mem_map.mpr ⟨(b, s.unkId n), List.mem_filter.mpr ⟨mem_visits.mpr ⟨n, hn, rfl⟩, ?_⟩, rfl⟩
    exact decide_eq_true rfl

theorem Checked.length_places {n : Int} {info : CAddrInfo} (hinfo : s.mapInfo[n]? = some info)
    (huntried : info.fInTried = false) : ((places s.file.visits (s.unkId n)).length : Int) = info.nRefCount := by
  have hset : (places s.file.visits (s.unkId n)).toFinset = Finset.univ.filter fun b => n ∈ s.vvNew b := by
    ext b
    rw [List.mem_toFinset, h.mem_places hinfo huntried, Finset.mem_filter, and_iff_right (Finset.mem_univ b)]
  rw [← h.copies_of_new hinfo huntried, ← List.toFinset_card_of_nodup (h.nodup_places _), hset]
  rfl

/-- All of them count. -/
theorem Checked.placed_eq {n : Int} {info : CAddrInfo} (hinfo : s.mapInfo[n]? = some info)
    (huntried : info.fInTried = false) : placed s.file.visits (s.unkId n) = places s.file.visits (s.unkId n) := by
  have hlength := h.length_places hinfo huntried
  have hfew : info.nRefCount ≤ 4 := ((h.entries n info hinfo).untried huntried).2
  exact List.take_of_length_le (show _ ≤ 4 by omega)

/-! ## The file is sound -/

/-- An address is that of one entry. -/
theorem Checked.eq_of_addr {n n' : Int} {info info' : CAddrInfo} (hinfo : s.mapInfo[n]? = some info)
    (hinfo' : s.mapInfo[n']? = some info') (haddr : info.toCNetAddr = info'.toCNetAddr) : n = n' := by
  have hn := (h.entries n info hinfo).mapAddr
  have hn' := (h.entries n' info' hinfo').mapAddr
  rw [← haddr] at hn'
  exact hn.symm.trans hn'

theorem Checked.addresses : ((s.news ++ s.trieds).map fun e => e.2.toCNetAddr).Nodup := by
  have hperm : (s.news ++ s.trieds).Perm s.mapInfo.toList := by
    refine List.perm_append_comm.trans ?_
    exact List.filter_append_perm (fun e : Int × CAddrInfo => e.2.fInTried) s.mapInfo.toList
  have hnodup : (s.news ++ s.trieds).Nodup := hperm.nodup_iff.mpr (nodup_fst_toList s.mapInfo).of_map
  refine hnodup.map_on fun e he e' he' haddr => ?_
  have hinfo := ExtTreeMap.mem_toList_iff_getElem?_eq_some.mp (hperm.mem_iff.mp he)
  have hinfo' := ExtTreeMap.mem_toList_iff_getElem?_eq_some.mp (hperm.mem_iff.mp he')
  have hsame := h.eq_of_addr hinfo hinfo' haddr
  rw [hsame, hinfo'] at hinfo
  exact Prod.ext hsame (Option.some.inj hinfo).symm

omit h in
theorem ours_file : s.file.Ours := by
  unfold PeersFile.Ours file
  dsimp only
  rw [List.length_map, List.length_finRange]

omit h in
/-- A new entry has no reference yet when it is read. -/
theorem counted_ours (info : CAddrInfo) : counted s.file.vvNew.length info = info := by
  rw [counted, if_neg]
  exact not_not_intro (by rw [ours_file])

theorem Checked.length_vNew : s.file.vNew.length = s.news.length := by
  rw [h.file_vNew, List.length_map]

theorem Checked.sound (Hash : List UInt8 → Uint256) : s.file.Sound Hash where
  addresses := by
    unfold PeersFile.entries
    rw [List.map_append, List.map_map, List.map_map]
    have hnew : s.file.vNew.map ((fun i : CAddrInfo => i.toCNetAddr) ∘ counted s.file.vvNew.length) =
        s.news.map fun e => e.2.toCNetAddr := by
      rw [h.file_vNew, List.map_map]
      refine List.map_congr_left fun e _ => ?_
      show (counted s.file.vvNew.length e.2.onDisk).toCNetAddr = _
      rw [counted_ours]
      rfl
    have htried : s.file.vTried.map ((fun i : CAddrInfo => i.toCNetAddr) ∘ CAddrMan.tried) =
        s.trieds.map fun e => e.2.toCNetAddr := by
      rw [h.file_vTried, List.map_map]
      rfl
    have haddresses := h.addresses
    rw [List.map_append, ← hnew, ← htried] at haddresses
    exact haddresses.sublist ((List.Sublist.refl _).append (PeersFile.kept_sublist.map _))
  newTimes i hi := by
    rw [h.file_vNew] at hi
    obtain ⟨e, he, rfl⟩ := List.mem_map.mp hi
    exact (h.entries e.1 e.2 (mem_news.mp he).1).nLastSuccess
  keptTimes i hi := by
    have hi := PeersFile.kept_sublist.subset hi
    rw [h.file_vTried] at hi
    obtain ⟨e, he, rfl⟩ := List.mem_map.mp hi
    obtain ⟨hinfo, htried⟩ := mem_trieds.mp he
    have hok := h.entries e.1 e.2 hinfo
    have hne := (hok.tried htried).1
    have hpos := hok.nLastSuccess
    show 0 < e.2.nLastSuccess
    omega
  numbers v hv := by
    obtain ⟨n, hn, heq⟩ := mem_visits.mp hv
    obtain ⟨info, hinfo, huntried⟩ := h.new_of_mem hn
    obtain ⟨j, hj, hid⟩ := h.unkId_of_new hinfo huntried
    have hlt := (List.getElem?_eq_some_iff.mp hj).1
    rw [PeersFile.nNumbers, if_pos ours_file, h.length_vNew]
    omega
  named _ k hk := by
    rw [h.length_vNew] at hk
    obtain ⟨⟨n, info⟩, hget⟩ : ∃ e, s.news[k]? = some e := ⟨_, List.getElem?_eq_getElem hk⟩
    obtain ⟨hinfo, huntried⟩ := mem_news.mp (List.mem_of_getElem? hget)
    have hid : s.unkId n = k := h.writeNew_news.2 k _ hget
    have hlength := h.length_places hinfo huntried
    have hpos := ((h.entries _ _ hinfo).untried huntried).1
    rw [← hid]
    refine ⟨fun hnil => ?_, ?_⟩
    · rw [hnil] at hlength
      have hlength : (0 : Int) = _ := hlength
      omega
    · exact (h.nodup_places _).sublist (List.take_sublist _ _)

/-- What the fields of the tables and of the entries can be: they are `int` and `int64_t`. -/
structure InRange (s : CAddrMan) : Prop where
  nKey : s.nKey.length ≤ MAX_SIZE.toNat
  nNew : FitsInt 4 s.nNew
  nTried : FitsInt 4 s.nTried
  nLastSuccess : ∀ (n : Int) (info : CAddrInfo), s.mapInfo[n]? = some info → FitsInt 8 info.nLastSuccess
  nAttempts : ∀ (n : Int) (info : CAddrInfo), s.mapInfo[n]? = some info → FitsInt 4 info.nAttempts

theorem Checked.fits (hs : s.InRange) : s.file.Fits where
  nKey := hs.nKey
  nNew := by
    rw [h.length_vNew, h.length_news]
    exact hs.nNew
  nTried := by
    rw [h.file_vTried, List.length_map, h.length_trieds]
    exact hs.nTried
  nUBuckets := by
    rw [show s.file.vvNew.length = ADDRMAN_NEW_BUCKET_COUNT from ours_file]
    decide
  vNew i hi := by
    rw [h.file_vNew] at hi
    obtain ⟨e, he, rfl⟩ := List.mem_map.mp hi
    have hinfo := (mem_news.mp he).1
    exact ⟨rfl, rfl, rfl, rfl, hs.nLastSuccess e.1 e.2 hinfo, hs.nAttempts e.1 e.2 hinfo⟩
  vTried i hi := by
    rw [h.file_vTried] at hi
    obtain ⟨e, he, rfl⟩ := List.mem_map.mp hi
    have hinfo := (mem_trieds.mp he).1
    exact ⟨rfl, rfl, rfl, rfl, hs.nLastSuccess e.1 e.2 hinfo, hs.nAttempts e.1 e.2 hinfo⟩
  vvNew vNew hv := by
    obtain ⟨b, -, rfl⟩ := List.mem_map.mp hv
    have hfew : (s.vvNew b).toList.length ≤ s.news.length := by
      have hnodup : (s.vvNew b).toList.Nodup :=
        ExtTreeSet.distinct_toList.imp fun hne heq => hne (LawfulEqCmp.compare_eq_iff_eq.mpr heq)
      have hsub : (s.vvNew b).toList ⊆ s.news.map Prod.fst := by
        intro n hn
        obtain ⟨info, hinfo⟩ := h.new_of_mem (ExtTreeSet.mem_toList.mp hn)
        exact List.mem_map.mpr ⟨(n, info), mem_news.mpr hinfo, rfl⟩
      have hle := (hnodup.subperm hsub).length_le
      rw [List.length_map] at hle
      exact hle
    have hnNew := hs.nNew
    rw [← h.length_news] at hnNew
    have hsmall : ∀ k : Int, 0 ≤ k → k ≤ s.news.length → FitsInt 4 k := by
      intro k h0 hk
      unfold FitsInt at hnNew ⊢
      omega
    refine ⟨?_, fun m hm => ?_⟩
    · rw [List.length_map]
      exact hsmall _ (Int.natCast_nonneg _) (Int.ofNat_le.mpr hfew)
    · obtain ⟨n, hn, rfl⟩ := List.mem_map.mp hm
      obtain ⟨info, hinfo, huntried⟩ := h.new_of_mem (ExtTreeSet.mem_toList.mp hn)
      obtain ⟨j, hj, hid⟩ := h.unkId_of_new hinfo huntried
      have hlt := (List.getElem?_eq_some_iff.mp hj).1
      exact hsmall _ (by omega) (by omega)

end Written

/-! ## Read back -/

/-- If no bucket is to get too many, none is lost. -/
theorem kept_of_room {Hash : List UInt8 → Uint256} {f : PeersFile}
    (hroom : ∀ b, (inBucket Hash f.nKey b f.vTried).length ≤ ADDRMAN_TRIED_BUCKET_SIZE) : f.kept Hash = f.vTried := by
  have hall : ∀ (l kept : List CAddrInfo),
      (∀ b, (inBucket Hash f.nKey b (kept ++ l)).length ≤ ADDRMAN_TRIED_BUCKET_SIZE) →
      l.foldl (keep Hash f.nKey) kept = kept ++ l := by
    intro l
    induction l with
    | nil => exact fun kept _ => (List.append_nil kept).symm
    | cons info l ih =>
      intro kept hroom
      have hfree : (inBucket Hash f.nKey (getTriedBucket Hash f.nKey info.toCService) kept).length <
          ADDRMAN_TRIED_BUCKET_SIZE := by
        have hlt := hroom (getTriedBucket Hash f.nKey info.toCService)
        have hcons : inBucket Hash f.nKey (getTriedBucket Hash f.nKey info.toCService) (info :: l) =
            info :: inBucket Hash f.nKey (getTriedBucket Hash f.nKey info.toCService) l :=
          List.filter_cons_of_pos (decide_eq_true rfl)
        rw [inBucket, List.filter_append, List.length_append, ← inBucket, ← inBucket, hcons, List.length_cons] at hlt
        omega
      have hkeep : keep Hash f.nKey kept info = kept ++ [info] := if_pos hfree
      rw [List.append_cons] at hroom
      rw [List.foldl_cons, hkeep, ih (kept ++ [info]) hroom, ← List.append_cons]
  exact hall f.vTried [] hroom

/-- The tried entries that belong into a bucket. -/
def ownTried (Hash : List UInt8 → Uint256) (s : CAddrMan) (b : TriedBucket) : List (Int × CAddrInfo) :=
  s.trieds.filter fun e => decide (getTriedBucket Hash s.nKey e.2.toCService = b)

/-- The tried entries are where they belong, as `MakeTried` puts them. -/
def InPlace (Hash : List UInt8 → Uint256) (s : CAddrMan) : Prop :=
  ∀ b n, n ∈ s.vvTried b → ∀ info : CAddrInfo, s.mapInfo[n]? = some info →
    getTriedBucket Hash s.nKey info.toCService = b

/-- Under other numbers `s'` has the entries of `s`, but for the time of the last try and the place in
    `vRandom`, and each in its new buckets; the tried ones are in the buckets they belong into, which are those
    they were in if they were in place.  An entry without a number is lost, and none is if no tried bucket is to
    get too many. -/
structure Renamed (Hash : List UInt8 → Uint256) (s s' : CAddrMan) (number : Int → Option Int) : Prop where
  nKey : s'.nKey = s.nKey
  nNew : s'.nNew = s.nNew
  injective : ∀ n n' m, number n = some m → number n' = some m → n = n'
  onto : ∀ (m : Int) (info' : CAddrInfo), s'.mapInfo[m]? = some info' →
    ∃ (n : Int) (info : CAddrInfo), s.mapInfo[n]? = some info ∧ number n = some m
  info : ∀ (n : Int) (info : CAddrInfo) (m : Int), s.mapInfo[n]? = some info → number n = some m →
    s'.mapInfo[m]? = some { info with nLastTry := 0, nRandomPos := m }
  new : ∀ (n : Int) (info : CAddrInfo), s.mapInfo[n]? = some info → info.fInTried = false → (number n).isSome = true
  vvNew : ∀ (n : Int) (info : CAddrInfo) (m : Int), s.mapInfo[n]? = some info → number n = some m →
    ∀ b, m ∈ s'.vvNew b ↔ n ∈ s.vvNew b
  vvTried : ∀ (n : Int) (info : CAddrInfo) (m : Int), s.mapInfo[n]? = some info → number n = some m →
    ∀ b, m ∈ s'.vvTried b ↔ info.fInTried = true ∧ getTriedBucket Hash s.nKey info.toCService = b
  unmoved : s.InPlace Hash → ∀ (n : Int) (info : CAddrInfo) (m : Int), s.mapInfo[n]? = some info → number n = some m →
    ∀ b, m ∈ s'.vvTried b ↔ n ∈ s.vvTried b
  kept : (∀ b, (ownTried Hash s b).length ≤ ADDRMAN_TRIED_BUCKET_SIZE) → s'.nTried = s.nTried ∧
    ∀ (n : Int) (info : CAddrInfo), s.mapInfo[n]? = some info → (number n).isSome = true

/-- The number that an address has afterwards. -/
def renumber (s s' : CAddrMan) (n : Int) : Option Int :=
  (s.mapInfo[n]?).bind fun info => s'.mapAddr.lookup info.toCNetAddr

theorem renumber_eq {s' : CAddrMan} {n : Int} {info : CAddrInfo} (hinfo : s.mapInfo[n]? = some info) :
    renumber s s' n = s'.mapAddr.lookup info.toCNetAddr := by
  unfold renumber
  rw [hinfo]
  rfl

section Reread

variable {Hash : List UInt8 → Uint256} {s' : CAddrMan} (h : s.Checked) (hfilled : s.file.Filled Hash s')

include h

/-- Every entry of the file is one that was written. -/
theorem Checked.written {k : Nat} {i : CAddrInfo} (hi : (s.file.entries Hash)[k]? = some i) :
    ∃ (n : Int) (info : CAddrInfo), s.mapInfo[n]? = some info ∧ i = { info.onDisk with fInTried := info.fInTried } ∧
      (info.fInTried = false → s.unkId n = k) ∧ (info.fInTried = true → s.file.vNew.length ≤ k) := by
  rcases PeersFile.entries_cases hi with ⟨-, info₀, hget, rfl⟩ | ⟨hle, info₀, hget, rfl⟩
  · rw [h.file_vNew, List.getElem?_map] at hget
    obtain ⟨⟨n, info⟩, hwritten, rfl⟩ := Option.map_eq_some_iff.mp hget
    obtain ⟨hinfo, huntried⟩ := mem_news.mp (List.mem_of_getElem? hwritten)
    refine ⟨n, info, hinfo, ?_, fun _ => h.writeNew_news.2 k _ hwritten, fun htried => ?_⟩
    · rw [huntried]
      rfl
    · rw [huntried] at htried
      cases htried
  · have hmem := PeersFile.mem_vTried_of_mem_kept (List.mem_of_getElem? hget)
    rw [h.file_vTried] at hmem
    obtain ⟨⟨n, info⟩, hwritten, rfl⟩ := List.mem_map.mp hmem
    obtain ⟨hinfo, htried⟩ := mem_trieds.mp hwritten
    refine ⟨n, info, hinfo, ?_, fun huntried => ?_, fun _ => hle⟩
    · rw [htried]
      rfl
    · rw [htried] at huntried
      cases huntried

theorem Checked.kept_eq (hroom : ∀ b, (ownTried Hash s b).length ≤ ADDRMAN_TRIED_BUCKET_SIZE) :
    s.file.kept Hash = s.file.vTried := by
  refine kept_of_room fun b => ?_
  have hlength : (inBucket Hash s.file.nKey b s.file.vTried).length = (ownTried Hash s b).length := by
    rw [h.file_vTried, inBucket, List.filter_map, List.length_map]
    rfl
  rw [hlength]
  exact hroom b

include hfilled

/-- WHAT BECOMES OF AN ENTRY whose address is found. -/
theorem Checked.reread {n m : Int} {info : CAddrInfo} (hinfo : s.mapInfo[n]? = some info)
    (hm : s'.mapAddr.lookup info.toCNetAddr = some m) :
    s'.mapInfo[m]? = some { info with nLastTry := 0, nRandomPos := m } ∧
      (info.fInTried = false → s.unkId n = m) ∧ (info.fInTried = true → placed s.file.visits m = []) := by
  obtain ⟨hpos, i, hi, haddr⟩ := hfilled.lookup _ m hm
  obtain ⟨n₀, info₀, hinfo₀, rfl, hnew, htried⟩ := h.written hi
  obtain rfl := h.eq_of_addr hinfo₀ hinfo haddr
  obtain rfl := Option.some.inj (hinfo₀.symm.trans hinfo)
  have hnew : info₀.fInTried = false → s.unkId n₀ = m := fun huntried => by
    rw [hnew huntried, Int.toNat_of_nonneg hpos]
  have htried : info₀.fInTried = true → placed s.file.visits m = [] := fun hin =>
    PeersFile.placed_of_tried (h.sound Hash) ours_file (by have hle := htried hin; omega)
  have hrefs : ((placed s.file.visits m).length : Int) = info₀.nRefCount := by
    by_cases hin : info₀.fInTried = true
    · rw [htried hin, ((h.entries _ _ hinfo).tried hin).2]
      rfl
    · have huntried := Bool.eq_false_iff.mpr hin
      rw [← hnew huntried, h.placed_eq hinfo huntried, h.length_places hinfo huntried]
  refine ⟨?_, hnew, htried⟩
  rw [hfilled.entry m _ hpos hi, PeersFile.refs, if_pos ours_file, hrefs]
  rfl

theorem Checked.mem_vvTried (hs : s.InRange) {n m : Int} {info : CAddrInfo} (hinfo : s.mapInfo[n]? = some info)
    (hm : s'.mapAddr.lookup info.toCNetAddr = some m) (b : TriedBucket) :
    m ∈ s'.vvTried b ↔ info.fInTried = true ∧ getTriedBucket Hash s.nKey info.toCService = b := by
  have hkey : s'.nKey = s.nKey := hfilled.nKey
  rw [PeersFile.mem_vvTried_of_sound (h.fits hs) hfilled (h.sound Hash), (h.reread hfilled hinfo hm).1, hkey]
  constructor
  · rintro ⟨info', heq, htried, hb⟩
    obtain rfl := Option.some.inj heq
    exact ⟨htried, hb⟩
  · rintro ⟨htried, hb⟩
    exact ⟨_, rfl, htried, hb⟩

theorem Checked.mem_vvNew {n m : Int} {info : CAddrInfo} (hinfo : s.mapInfo[n]? = some info)
    (hm : s'.mapAddr.lookup info.toCNetAddr = some m) (b : NewBucket) : m ∈ s'.vvNew b ↔ n ∈ s.vvNew b := by
  obtain ⟨-, huntried, htried⟩ := h.reread hfilled hinfo hm
  rw [hfilled.vvNew, if_pos ours_file]
  by_cases hin : info.fInTried = true
  · rw [htried hin]
    refine iff_of_false List.not_mem_nil fun hb => ?_
    obtain ⟨info', hinfo', hfalse⟩ := h.new_of_mem hb
    obtain rfl := Option.some.inj (hinfo.symm.trans hinfo')
    rw [hfalse] at hin
    cases hin
  · have hfalse := Bool.eq_false_iff.mpr hin
    rw [← huntried hfalse, h.placed_eq hinfo hfalse, h.mem_places hinfo hfalse]

omit h in
/-- An entry in the file is found by its address. -/
theorem isSome_renumber {n : Int} {info i : CAddrInfo} (hinfo : s.mapInfo[n]? = some info)
    (hi : i ∈ s.file.entries Hash) (haddr : i.toCNetAddr = info.toCNetAddr) : (renumber s s' n).isSome = true := by
  rw [renumber_eq hinfo, ← haddr]
  exact hfilled.known i hi

theorem Checked.isSome_renumber_new {n : Int} {info : CAddrInfo} (hinfo : s.mapInfo[n]? = some info)
    (huntried : info.fInTried = false) : (renumber s s' n).isSome = true := by
  have hwritten : info.onDisk ∈ s.file.vNew := by
    rw [h.file_vNew]
    exact List.mem_map.mpr ⟨(n, info), mem_news.mpr ⟨hinfo, huntried⟩, rfl⟩
  refine isSome_renumber hfilled hinfo (List.mem_append_left _ (List.mem_map_of_mem hwritten)) ?_
  rw [counted_ours]
  rfl

/-- WHAT WAS READ is what was written, under other numbers. -/
theorem Checked.renamed (hs : s.InRange) : Renamed Hash s s' (renumber s s') where
  nKey := hfilled.nKey
  nNew := by rw [hfilled.nNew, h.length_vNew, h.length_news]
  injective n n' m hn hn' := by
    obtain ⟨info, hinfo, hm⟩ := Option.bind_eq_some_iff.mp hn
    obtain ⟨info', hinfo', hm'⟩ := Option.bind_eq_some_iff.mp hn'
    have hsame := (h.reread hfilled hinfo hm).1
    rw [(h.reread hfilled hinfo' hm').1] at hsame
    have haddr := congrArg (fun i : CAddrInfo => i.toCNetAddr) (Option.some.inj hsame)
    exact (h.eq_of_addr hinfo' hinfo haddr).symm
  onto m info' hinfo' := by
    have hsound := h.sound Hash
    obtain ⟨hm, i, hi, -⟩ := PeersFile.info_of_sound hfilled hsound hinfo'
    obtain ⟨n, info, hinfo, heq, -, -⟩ := h.written hi
    have haddr : i.toCNetAddr = info.toCNetAddr := by
      rw [heq]
      rfl
    refine ⟨n, info, hinfo, ?_⟩
    rw [renumber_eq hinfo, ← haddr]
    exact (PeersFile.addr_of_sound hfilled hsound _ m).mpr ⟨_, hfilled.entry m i hm hi, rfl⟩
  info n info m hinfo hn := (h.reread hfilled hinfo ((renumber_eq hinfo).symm.trans hn)).1
  new n info hinfo huntried := h.isSome_renumber_new hfilled hinfo huntried
  vvNew n info m hinfo hn := h.mem_vvNew hfilled hinfo ((renumber_eq hinfo).symm.trans hn)
  vvTried n info m hinfo hn := h.mem_vvTried hfilled hs hinfo ((renumber_eq hinfo).symm.trans hn)
  unmoved hplace n info m hinfo hn b := by
    rw [h.mem_vvTried hfilled hs hinfo ((renumber_eq hinfo).symm.trans hn)]
    have hin : n ∈ s.triedNumbers ↔ ∃ b, n ∈ s.vvTried b := by
      unfold triedNumbers
      rw [List.mem_flatMap]
      exact exists_congr fun b => and_iff_right (List.mem_finRange b)
    constructor
    · rintro ⟨htried, rfl⟩
      obtain ⟨b, hb⟩ := hin.mp ((h.tried n).mpr ⟨info, hinfo, htried⟩)
      rw [hplace b n hb info hinfo]
      exact hb
    · intro hb
      obtain ⟨info', hinfo', htried⟩ := (h.tried n).mp (hin.mpr ⟨b, hb⟩)
      obtain rfl := Option.some.inj (hinfo.symm.trans hinfo')
      exact ⟨htried, hplace b n hb info hinfo⟩
  kept hroom := by
    have hkept := h.kept_eq hroom
    refine ⟨?_, fun n info hinfo => ?_⟩
    · rw [hfilled.nTried, hkept, h.file_vTried, List.length_map, h.length_trieds]
    · by_cases hin : info.fInTried = true
      · have hwritten : info.onDisk ∈ s.file.kept Hash := by
          rw [hkept, h.file_vTried]
          exact List.mem_map.mpr ⟨(n, info), mem_trieds.mpr ⟨hinfo, hin⟩, rfl⟩
        exact isSome_renumber hfilled hinfo (List.mem_append_right _ (List.mem_map_of_mem hwritten)) rfl
      · exact h.isSome_renumber_new hfilled hinfo (Bool.eq_false_iff.mpr hin)

end Reread

/-- The tables are read from their file. -/
theorem Checked.run_serialize {s : CAddrMan} (h : s.Checked) (hs : s.InRange) (Hash : List UInt8 → Uint256)
    (nVersion : UInt32) (rest : List UInt8) (c : Bool) :
    (unserialize Hash).run ⟨s.serialize nVersion ++ rest, c⟩ = some (some (s.file.loaded Hash), ⟨rest, c⟩) := by
  have hbuckets : s.file.vvNew.length ≤ ADDRMAN_NEW_BUCKET_COUNT := ours_file.le
  rw [h.serialize_eq]
  exact (run_unserialize Hash (h.fits hs) nVersion rest c).1 hbuckets

/-- WRITTEN AND READ BACK, tables that pass the check are the same up to their numbers, and pass it again. -/
theorem unserialize_serialize_tables (Hash : List UInt8 → Uint256) (s : CAddrMan) (hcheck : s.check = .ok ())
    (hs : s.InRange) (nVersion : UInt32) (rest : List UInt8) (c : Bool) :
    ∃ s' number, (unserialize Hash).run ⟨s.serialize nVersion ++ rest, c⟩ = some (some s', ⟨rest, c⟩) ∧
      s'.check = .ok () ∧ Renamed Hash s s' number := by
  have h := check_eq_ok.mp hcheck
  have hf := h.fits hs
  have hfilled := @PeersFile.loaded_filled Hash s.file hf
  refine ⟨_, _, h.run_serialize hs Hash nVersion rest c, check_eq_ok.mpr ?_, h.renamed hfilled hs⟩
  exact PeersFile.checked_of_sound hf hfilled (h.sound Hash)

/-! ## Two entries -/

/-- A new entry that was tried without success, and a tried one in bucket `b`. -/
def twoEntries (b : TriedBucket) : CAddrMan where
  nKey := []
  nIdCount := 4
  mapInfo := ((∅ : ExtTreeMap Int CAddrInfo).insert 0
      { PeersFile.host 1 with nLastTry := 1400000300, nAttempts := 1, nRefCount := 1, nRandomPos := 1 }).insert 3
      { PeersFile.host 2 with nLastSuccess := 1400000000, fInTried := true, nRandomPos := 0 }
  mapAddr := ((∅ : StdMap CNetAddr Int).insert (PeersFile.host 1).toCNetAddr 0).insert
    (PeersFile.host 2).toCNetAddr 3
  vRandom := [3, 0]
  nTried := 1
  vvTried := Function.update (fun _ => []) b [3]
  nNew := 1
  vvNew := Function.update (fun _ => ∅) ⟨5, by decide⟩ ((∅ : ExtTreeSet Int).insert 0)

set_option maxRecDepth 8000 in
theorem check_twoEntries {b : TriedBucket} (hb : b = ⟨0, by decide⟩ ∨ b = ⟨1, by decide⟩) :
    (twoEntries b).check = .ok () := by
  rcases hb with rfl | rfl
  · decide
  · decide

/-- Its entries. -/
theorem twoEntries_cases {b : TriedBucket} {n : Int} {info : CAddrInfo} (h : (twoEntries b).mapInfo[n]? = some info) :
    info.nLastTry = 1400000300 ∧ info.fInTried = false ∨ info.toCService = (PeersFile.host 2).toCService := by
  have h : (((∅ : ExtTreeMap Int CAddrInfo).insert 0 _).insert 3 _)[n]? = some info := h
  rw [getElem?_insert_int, getElem?_insert_int, ExtTreeMap.getElem?_empty] at h
  split at h
  · cases h
    exact Or.inr rfl
  · split at h
    · cases h
      exact Or.inl ⟨rfl, rfl⟩
    · cases h

theorem inRange_twoEntries (b : TriedBucket) : (twoEntries b).InRange := by
  have hall : ∀ (n : Int) (info : CAddrInfo), (twoEntries b).mapInfo[n]? = some info →
      FitsInt 8 info.nLastSuccess ∧ FitsInt 4 info.nAttempts := by
    intro n info h
    have h : (((∅ : ExtTreeMap Int CAddrInfo).insert 0 _).insert 3 _)[n]? = some info := h
    rw [getElem?_insert_int, getElem?_insert_int, ExtTreeMap.getElem?_empty] at h
    split at h
    · cases h
      exact ⟨by decide, by decide⟩
    · split at h
      · cases h
        exact ⟨by decide, by decide⟩
      · cases h
  have hone : FitsInt 4 1 := by decide
  exact ⟨Nat.zero_le _, hone, hone, fun n info h => (hall n info h).1, fun n info h => (hall n info h).2⟩

/-- When the new entry was last tried is lost; and the tried entry is in no bucket where it was, though there is
    room in each. -/
theorem twoEntries_differ :
    (∀ Hash nVersion, ∃ s', (twoEntries ⟨0, by decide⟩).check = .ok () ∧
      (unserialize Hash).run ⟨(twoEntries ⟨0, by decide⟩).serialize nVersion ++ [], true⟩ =
        some (some s', ⟨[], true⟩) ∧
      ((twoEntries ⟨0, by decide⟩).mapInfo[(0 : Int)]?).map (·.nLastTry) = some 1400000300 ∧
      ∀ (m : Int) (info' : CAddrInfo), s'.mapInfo[m]? = some info' → info'.nLastTry = 0) ∧
    ∀ Hash nVersion, ∃ b s', (twoEntries b).check = .ok () ∧
      (unserialize Hash).run ⟨(twoEntries b).serialize nVersion ++ [], true⟩ = some (some s', ⟨[], true⟩) ∧
      (∀ b', (ownTried Hash (twoEntries b) b').length ≤ ADDRMAN_TRIED_BUCKET_SIZE) ∧
      (twoEntries b).vvTried b = [3] ∧ s'.vvTried b = [] := by
  have hread : ∀ (Hash : List UInt8 → Uint256) (nVersion : UInt32) (b : TriedBucket), (twoEntries b).check = .ok () →
      (unserialize Hash).run ⟨(twoEntries b).serialize nVersion ++ [], true⟩ =
          some (some ((twoEntries b).file.loaded Hash), ⟨[], true⟩) ∧
        Renamed Hash (twoEntries b) ((twoEntries b).file.loaded Hash)
          (renumber (twoEntries b) ((twoEntries b).file.loaded Hash)) := by
    intro Hash nVersion b hcheck
    have h := check_eq_ok.mp hcheck
    have hs := inRange_twoEntries b
    exact ⟨h.run_serialize hs Hash nVersion [] true, h.renamed (PeersFile.loaded_filled (h.fits hs)) hs⟩
  constructor
  · intro Hash nVersion
    have hcheck := check_twoEntries (Or.inl rfl)
    obtain ⟨hrun, hrenamed⟩ := hread Hash nVersion _ hcheck
    refine ⟨_, hcheck, hrun, by decide, fun m info' hinfo' => ?_⟩
    obtain ⟨n, info, hinfo, hnumber⟩ := hrenamed.onto m info' hinfo'
    rw [hrenamed.info n info m hinfo hnumber] at hinfo'
    cases hinfo'
    rfl
  · intro Hash nVersion
    obtain ⟨b, hb, hother⟩ : ∃ b : TriedBucket, (b = ⟨0, by decide⟩ ∨ b = ⟨1, by decide⟩) ∧
        getTriedBucket Hash [] (PeersFile.host 2).toCService ≠ b := by
      by_cases hzero : getTriedBucket Hash [] (PeersFile.host 2).toCService = ⟨0, by decide⟩
      · refine ⟨⟨1, by decide⟩, Or.inr rfl, ?_⟩
        rw [hzero]
        decide
      · exact ⟨_, Or.inl rfl, hzero⟩
    have hcheck := check_twoEntries hb
    obtain ⟨hrun, hrenamed⟩ := hread Hash nVersion b hcheck
    have hin : (twoEntries b).vvTried b = [3] := by
      unfold twoEntries
      dsimp only
      rw [Function.update_self]
    refine ⟨b, _, hcheck, hrun, fun b' => ?_, hin, ?_⟩
    · have hone : ((twoEntries b).trieds.length : Int) = 1 := (check_eq_ok.mp hcheck).length_trieds
      have hle : (ownTried Hash (twoEntries b) b').length ≤ (twoEntries b).trieds.length := List.length_filter_le _ _
      exact hle.trans (by have hmany : ADDRMAN_TRIED_BUCKET_SIZE = 64 := rfl; omega)
    · refine List.eq_nil_iff_forall_not_mem.mpr fun m hm => ?_
      have h := check_eq_ok.mp hcheck
      have hf := h.fits (inRange_twoEntries b)
      have hfilled := @PeersFile.loaded_filled Hash _ hf
      obtain ⟨info', hinfo', -⟩ := (PeersFile.mem_vvTried_of_sound hf hfilled (h.sound Hash) b m).mp hm
      obtain ⟨n, info, hinfo, hnumber⟩ := hrenamed.onto m info' hinfo'
      obtain ⟨htried, hown⟩ := (hrenamed.vvTried n info m hinfo hnumber b).mp hm
      rcases twoEntries_cases hinfo with ⟨-, huntried⟩ | hservice
      · rw [huntried] at htried
        cases htried
      · rw [hservice] at hown
        exact hother hown

theorem unserialize_serialize_twoEntries : ∃ s' number,
    (unserialize fun _ => 0).run ⟨(twoEntries ⟨0, by decide⟩).serialize 60006 ++ [], true⟩ =
        some (some s', ⟨[], true⟩) ∧
      s'.check = .ok () ∧ Renamed (fun _ => 0) (twoEntries ⟨0, by decide⟩) s' number :=
  unserialize_serialize_tables (fun _ => 0) _ (check_twoEntries (Or.inl rfl)) (inRange_twoEntries _) 60006 [] true

end CAddrMan
end Silkcoin
