/-
  What the CONSISTENCY CHECK of the address manager says, and that every sequence of calls passes it.

  `Checked` is what `Check_` finds out: the two counts, every entry by itself (`EntryOk`), and the buckets
  of both tables against the entries.  `check_eq_ok`: it returns 0 exactly then.

  `check_of_run`: from the empty tables on every sequence of calls ends in a state within the limits of the
  tables, whatever the addresses, sources, choices and times.  `Check_` returns 0 there exactly if the times
  that the entries carry are ones it accepts, and they are if `Good` and `Attempt` were given times of a
  clock.  At the time 0 an address is marked good, and the check returns -1 (`good_at_zero`).
-/
import Silkcoin.AddrTables

namespace Silkcoin

open BatchStore Validation Buckets Std

namespace CAddrMan

variable (s : CAddrMan)

/-! ## What is checked -/

/-- An entry by itself. -/
structure EntryOk (n : Int) (info : CAddrInfo) : Prop where
  tried : info.fInTried = true → info.nLastSuccess ≠ 0 ∧ info.nRefCount = 0
  untried : info.fInTried = false → 1 ≤ info.nRefCount ∧ info.nRefCount ≤ ADDRMAN_NEW_BUCKETS_PER_ADDRESS
  mapAddr : (s.mapAddr.lookup info.toCNetAddr).getD 0 = n
  place : 0 ≤ info.nRandomPos ∧ info.nRandomPos < s.vRandom.length ∧ s.vRandom[info.nRandomPos.toNat]? = some n
  nLastTry : 0 ≤ info.nLastTry
  nLastSuccess : 0 ≤ info.nLastSuccess

/-- All numbers in the tried buckets, one bucket after the other. -/
def triedNumbers : List Int := (List.finRange ADDRMAN_TRIED_BUCKET_COUNT).flatMap s.vvTried

/-- The references an entry is to have, `none` for a number without one. -/
def references (info : Option CAddrInfo) : Int :=
  (info.map fun info => if info.fInTried then 0 else info.nRefCount).getD 0

structure Checked : Prop where
  count : (s.vRandom.length : Int) = s.nTried + s.nNew
  entries : ∀ (n : Int) (info : CAddrInfo), s.mapInfo[n]? = some info → s.EntryOk n info
  nTried : ((s.mapInfo.toList.countP fun e => e.2.fInTried : Nat) : Int) = s.nTried
  nNew : ((s.mapInfo.toList.countP fun e => !e.2.fInTried : Nat) : Int) = s.nNew
  triedOnce : s.triedNumbers.Nodup
  tried : ∀ n, n ∈ s.triedNumbers ↔ ∃ info, s.mapInfo[n]? = some info ∧ info.fInTried = true
  refs : ∀ n : Int, (copies s.vvNew n : Int) = references s.mapInfo[n]?

/-! ## The first loop -/

/-- What is noted of an entry that passes. -/
def noted (tables : ExtTreeSet Int × ExtTreeMap Int Int) (e : Int × CAddrInfo) : ExtTreeSet Int × ExtTreeMap Int Int :=
  if e.2.fInTried then (tables.1.insert e.1, tables.2) else (tables.1, tables.2.insert e.1 e.2.nRefCount)

variable {s}

theorem noteInfo_eq_ok {tables r : ExtTreeSet Int × ExtTreeMap Int Int} {n : Int} {info : CAddrInfo} :
    noteInfo tables n info = .ok r ↔ noted tables (n, info) = r ∧
      (info.fInTried = true → info.nLastSuccess ≠ 0 ∧ info.nRefCount = 0) ∧
      (info.fInTried = false → 1 ≤ info.nRefCount ∧ info.nRefCount ≤ ADDRMAN_NEW_BUCKETS_PER_ADDRESS) := by
  unfold noteInfo noted
  by_cases htried : info.fInTried = true
  · rw [if_pos htried, if_pos htried, require_bind_ok, require_bind_ok, pure_ok, decide_eq_true_eq, decide_eq_true_eq]
    constructor
    · rintro ⟨h1, h2, hr⟩
      exact ⟨hr, fun _ => ⟨h1, h2⟩, fun hf => by rw [htried] at hf; cases hf⟩
    · rintro ⟨hr, ht, -⟩
      exact ⟨(ht htried).1, (ht htried).2, hr⟩
  · rw [if_neg htried, if_neg htried, require_bind_ok, require_bind_ok, pure_ok, decide_eq_true_eq, decide_eq_true_eq]
    constructor
    · rintro ⟨h3, h4, hr⟩
      exact ⟨hr, fun ht => absurd ht htried, fun _ => by omega⟩
    · rintro ⟨hr, -, hu⟩
      have := hu (Bool.eq_false_iff.mpr htried)
      exact ⟨by omega, by omega, hr⟩

theorem checkInfo_eq_ok {tables r : ExtTreeSet Int × ExtTreeMap Int Int} {e : Int × CAddrInfo} :
    s.checkInfo tables e = .ok r ↔ noted tables e = r ∧ s.EntryOk e.1 e.2 := by
  unfold checkInfo
  rw [bind_ok]
  constructor
  · rintro ⟨t, hnote, hrest⟩
    rw [require_bind_ok, require_bind_ok, require_bind_ok, require_bind_ok, pure_ok] at hrest
    obtain ⟨h5, h14, h6, h8, rfl⟩ := hrest
    obtain ⟨hnoted, htried, huntried⟩ := noteInfo_eq_ok.mp hnote
    exact ⟨hnoted, htried, huntried, of_decide_eq_true h5, of_decide_eq_true h14, of_decide_eq_true h6,
      of_decide_eq_true h8⟩
  · rintro ⟨hnoted, hok⟩
    refine ⟨r, noteInfo_eq_ok.mpr ⟨hnoted, hok.tried, hok.untried⟩, ?_⟩
    rw [require_bind_ok, require_bind_ok, require_bind_ok, require_bind_ok, pure_ok]
    exact ⟨decide_eq_true hok.mapAddr, decide_eq_true hok.place, decide_eq_true hok.nLastTry,
      decide_eq_true hok.nLastSuccess, rfl⟩

/-- The loop passes if every entry does, and then it has noted them all. -/
theorem foldlM_checkInfo {tables r : ExtTreeSet Int × ExtTreeMap Int Int} {l : List (Int × CAddrInfo)} :
    l.foldlM s.checkInfo tables = .ok r ↔ l.foldl noted tables = r ∧ ∀ e ∈ l, s.EntryOk e.1 e.2 := by
  induction l generalizing tables with
  | nil =>
    rw [List.foldlM_nil, pure_ok]
    exact ⟨fun h => ⟨h, fun e he => absurd he List.not_mem_nil⟩, fun h => h.1⟩
  | cons e l ih =>
    rw [List.foldlM_cons, bind_ok, List.foldl_cons]
    constructor
    · rintro ⟨t, hstep, hrest⟩
      obtain ⟨rfl, hok⟩ := checkInfo_eq_ok.mp hstep
      obtain ⟨hr, hall⟩ := ih.mp hrest
      exact ⟨hr, List.forall_mem_cons.mpr ⟨hok, hall⟩⟩
    · rintro ⟨hr, hall⟩
      obtain ⟨hok, hrest⟩ := List.forall_mem_cons.mp hall
      exact ⟨_, checkInfo_eq_ok.mpr ⟨rfl, hok⟩, ih.mpr ⟨hr, hrest⟩⟩

/-- What has been noted of some entries with different numbers, none of which was noted before. -/
theorem foldl_noted {l : List (Int × CAddrInfo)} (hl : (l.map Prod.fst).Nodup)
    (tables : ExtTreeSet Int × ExtTreeMap Int Int) (hnew : ∀ e ∈ l, e.1 ∉ tables.1 ∧ e.1 ∉ tables.2) :
    (∀ n, n ∈ (l.foldl noted tables).1 ↔ n ∈ tables.1 ∨ ∃ info, (n, info) ∈ l ∧ info.fInTried = true) ∧
    (∀ (n c : Int), (l.foldl noted tables).2[n]? = some c ↔ tables.2[n]? = some c ∨
      ∃ info, (n, info) ∈ l ∧ info.fInTried = false ∧ info.nRefCount = c) ∧
    (l.foldl noted tables).1.size = tables.1.size + l.countP (fun e => e.2.fInTried) ∧
    (l.foldl noted tables).2.size = tables.2.size + l.countP (fun e => !e.2.fInTried) := by
  induction l generalizing tables with
  | nil => exact ⟨fun n => by simp, fun n c => by simp, rfl, rfl⟩
  | cons e l ih =>
    obtain ⟨m, info⟩ := e
    rw [List.map_cons, List.nodup_cons] at hl
    obtain ⟨hm1, hm2⟩ := hnew (m, info) List.mem_cons_self
    have hml : ∀ i, (m, i) ∉ l := fun i hi => hl.1 (List.mem_map.mpr ⟨_, hi, rfl⟩)
    have hmem : ∀ n, n ∈ tables.1.insert m ↔ m = n ∨ n ∈ tables.1 := by
      intro n
      rw [ExtTreeSet.mem_insert, LawfulEqCmp.compare_eq_iff_eq]
    have hnext : ∀ e ∈ l, e.1 ∉ (noted tables (m, info)).1 ∧ e.1 ∉ (noted tables (m, info)).2 := by
      intro e he
      obtain ⟨h1, h2⟩ := hnew e (List.mem_cons_of_mem _ he)
      have hne : m ≠ e.1 := fun heq => hml e.2 (by rw [heq]; exact he)
      unfold noted
      split
      · exact ⟨fun hc => ((hmem e.1).mp hc).elim hne h1, h2⟩
      · refine ⟨h1, fun hc => ?_⟩
        rw [ExtTreeMap.mem_insert, LawfulEqCmp.compare_eq_iff_eq] at hc
        exact hc.elim hne h2
    obtain ⟨ih1, ih2, ih3, ih4⟩ := ih hl.2 _ hnext
    have hcons : ∀ n i, (n, i) ∈ (m, info) :: l ↔ (n = m ∧ i = info) ∨ (n, i) ∈ l := by
      intro n i
      rw [List.mem_cons, Prod.mk.injEq]
    rw [List.foldl_cons, List.countP_cons, List.countP_cons]
    simp only [hcons]
    by_cases htried : info.fInTried = true
    · have hnoted : noted tables (m, info) = (tables.1.insert m, tables.2) := if_pos htried
      rw [hnoted] at ih1 ih2 ih3 ih4 ⊢
      refine ⟨fun n => ?_, fun n c => ?_, ?_, ?_⟩
      · rw [ih1, hmem]
        constructor
        · rintro ((rfl | h) | ⟨i, hi, ht⟩)
          · exact Or.inr ⟨info, Or.inl ⟨rfl, rfl⟩, htried⟩
          · exact Or.inl h
          · exact Or.inr ⟨i, Or.inr hi, ht⟩
        · rintro (h | ⟨i, ⟨rfl, -⟩ | hi, ht⟩)
          · exact Or.inl (Or.inr h)
          · exact Or.inl (Or.inl rfl)
          · exact Or.inr ⟨i, hi, ht⟩
      · rw [ih2]
        refine or_congr_right ⟨?_, ?_⟩
        · rintro ⟨i, hi, hf⟩
          exact ⟨i, Or.inr hi, hf⟩
        · rintro ⟨i, ⟨-, rfl⟩ | hi, hf⟩
          · rw [htried] at hf
            cases hf.1
          · exact ⟨i, hi, hf⟩
      · rw [ih3, ExtTreeSet.size_insert, if_neg fun hc => hm1 (ExtTreeSet.contains_iff_mem.mp hc), if_pos htried]
        omega
      · rw [ih4, htried]
        rfl
    · have hnoted : noted tables (m, info) = (tables.1, tables.2.insert m info.nRefCount) := if_neg htried
      have hfalse : info.fInTried = false := Bool.eq_false_iff.mpr htried
      rw [hnoted] at ih1 ih2 ih3 ih4 ⊢
      refine ⟨fun n => ?_, fun n c => ?_, ?_, ?_⟩
      · rw [ih1]
        refine or_congr_right ⟨?_, ?_⟩
        · rintro ⟨i, hi, ht⟩
          exact ⟨i, Or.inr hi, ht⟩
        · rintro ⟨i, ⟨-, rfl⟩ | hi, ht⟩
          · exact absurd ht htried
          · exact ⟨i, hi, ht⟩
      · rw [ih2, getElem?_insert_int]
        constructor
        · rintro (h | ⟨i, hi, hf⟩)
          · split at h
            · rename_i hmn
              exact Or.inr ⟨info, Or.inl ⟨hmn.symm, rfl⟩, hfalse, Option.some.inj h⟩
            · exact Or.inl h
          · exact Or.inr ⟨i, Or.inr hi, hf⟩
        · rintro (h | ⟨i, ⟨rfl, rfl⟩ | hi, hf⟩)
          · refine Or.inl ?_
            rw [if_neg, h]
            rintro rfl
            exact hm2 (ExtTreeMap.mem_iff_isSome_getElem?.mpr (by rw [h]; rfl))
          · exact Or.inl (by rw [if_pos rfl, hf.2])
          · exact Or.inr ⟨i, hi, hf⟩
      · rw [ih3, if_neg htried]
        rfl
      · rw [ih4, ExtTreeMap.size_insert, if_neg fun hc => hm2 (ExtTreeMap.contains_iff_mem.mp hc), hfalse]
        simp only [Bool.not_false, if_true]
        omega

theorem nodup_fst_toList {β : Type} (m : ExtTreeMap Int β) : (m.toList.map Prod.fst).Nodup := by
  rw [ExtTreeMap.map_fst_toList_eq_keys]
  exact ExtTreeMap.nodup_keys

/-- `Check_` returns 0 exactly if everything is as it is to be. -/
theorem check_eq_ok : s.check = .ok () ↔ s.Checked := by
  obtain ⟨h1, h2, h3, h4⟩ := foldl_noted (nodup_fst_toList s.mapInfo) (∅, ∅)
    fun e _ => ⟨ExtTreeSet.not_mem_empty, ExtTreeMap.not_mem_empty⟩
  generalize hfold : s.mapInfo.toList.foldl noted (∅, ∅) = r at h1 h2 h3 h4
  obtain ⟨setTried, mapNew⟩ := r
  have hsizes : setTried.size = s.mapInfo.toList.countP (fun e => e.2.fInTried) ∧
      mapNew.size = s.mapInfo.toList.countP (fun e => !e.2.fInTried) := by
    rw [ExtTreeSet.size_empty, Nat.zero_add] at h3
    rw [ExtTreeMap.size_empty, Nat.zero_add] at h4
    exact ⟨h3, h4⟩
  have htried : ∀ n, n ∈ setTried ↔ ∃ info, s.mapInfo[n]? = some info ∧ info.fInTried = true := by
    intro n
    refine (h1 n).trans ?_
    simp only [ExtTreeMap.mem_toList_iff_getElem?_eq_some]
    exact or_iff_right ExtTreeSet.not_mem_empty
  have hnew : ∀ n c : Int, mapNew[n]? = some c ↔
      ∃ info, s.mapInfo[n]? = some info ∧ info.fInTried = false ∧ info.nRefCount = c := by
    intro n c
    refine (h2 n c).trans ?_
    simp only [ExtTreeMap.mem_toList_iff_getElem?_eq_some]
    refine or_iff_right ?_
    rw [ExtTreeMap.getElem?_empty]
    exact fun he => nomatch he
  have hrefs : ∀ n : Int, (mapNew[n]?).getD 0 = references s.mapInfo[n]? := by
    intro n
    cases hget : mapNew[n]? with
    | some c =>
      obtain ⟨info, hinfo, hf, hc⟩ := (hnew n c).mp hget
      rw [hinfo]
      show c = if info.fInTried then 0 else info.nRefCount
      rw [hf, hc]
      rfl
    | none =>
      cases hinfo : s.mapInfo[n]? with
      | none => rfl
      | some info =>
        show (0 : Int) = if info.fInTried then 0 else info.nRefCount
        by_cases hf : info.fInTried = true
        · rw [if_pos hf]
        · have := (hnew n _).mpr ⟨info, hinfo, Bool.eq_false_iff.mpr hf, rfl⟩
          rw [hget] at this
          cases this
  have hentries : (∀ e ∈ s.mapInfo.toList, s.EntryOk e.1 e.2) ↔
      ∀ (n : Int) (info : CAddrInfo), s.mapInfo[n]? = some info → s.EntryOk n info := by
    constructor
    · exact fun h n info hn => h (n, info) (ExtTreeMap.mem_toList_iff_getElem?_eq_some.mpr hn)
    · exact fun h e he => h e.1 e.2 (ExtTreeMap.mem_toList_iff_getElem?_eq_some.mp he)
  have hpositive : (∀ (n : Int) (info : CAddrInfo), s.mapInfo[n]? = some info → s.EntryOk n info) →
      Positive mapNew := by
    intro h n c hc
    obtain ⟨info, hinfo, hf, rfl⟩ := (hnew n c).mp hc
    exact ((h n info hinfo).untried hf).1
  have hrun : s.check = .ok () ↔ (s.vRandom.length : Int) = s.nTried + s.nNew ∧
      (∀ e ∈ s.mapInfo.toList, s.EntryOk e.1 e.2) ∧ (setTried.size : Int) = s.nTried ∧
      (mapNew.size : Int) = s.nNew ∧ strikeOut (-11 : Int) setTried s.triedNumbers = .ok ∅ ∧
      countDown (-12 : Int) mapNew ((List.finRange ADDRMAN_NEW_BUCKET_COUNT).flatMap fun b => (s.vvNew b).toList) = .ok ∅ := by
    unfold check
    rw [require_bind_ok, decide_eq_true_eq, bind_ok]
    refine and_congr_right fun _ => ?_
    constructor
    · rintro ⟨tables, hloop, hrest⟩
      obtain ⟨hr, hall⟩ := foldlM_checkInfo.mp hloop
      obtain rfl := hfold.symm.trans hr
      obtain ⟨h9, hrest⟩ := require_bind_ok.mp hrest
      obtain ⟨h10, hrest⟩ := require_bind_ok.mp hrest
      obtain ⟨left, hstrike, hrest⟩ := bind_ok.mp hrest
      obtain ⟨left', hcount, hrest⟩ := bind_ok.mp hrest
      obtain ⟨h13, h15⟩ := require_bind_ok.mp hrest
      obtain rfl := ExtTreeSet.eq_empty_iff_size_eq_zero.mpr (of_decide_eq_true h13)
      obtain rfl := ExtTreeMap.eq_empty_iff_size_eq_zero.mpr (of_decide_eq_true (require_ok.mp h15))
      exact ⟨hall, of_decide_eq_true h9, of_decide_eq_true h10, hstrike, hcount⟩
    · rintro ⟨hall, h9, h10, hstrike, hcount⟩
      refine ⟨(setTried, mapNew), foldlM_checkInfo.mpr ⟨hfold, hall⟩, ?_⟩
      refine require_bind_ok.mpr ⟨decide_eq_true h9, require_bind_ok.mpr ⟨decide_eq_true h10, ?_⟩⟩
      refine bind_ok.mpr ⟨∅, hstrike, bind_ok.mpr ⟨∅, hcount, ?_⟩⟩
      exact require_bind_ok.mpr ⟨decide_eq_true ExtTreeSet.size_empty, require_ok.mpr (decide_eq_true ExtTreeMap.size_empty)⟩
  rw [hrun, hentries, strikeOut_eq_empty, hsizes.1, hsizes.2]
  constructor
  · rintro ⟨hcount, hok, h9, h10, ⟨hnd, hmem⟩, hcounted⟩
    rw [countDown_eq_empty (hpositive hok)] at hcounted
    refine ⟨hcount, hok, h9, h10, hnd, fun n => (hmem n).trans (htried n), fun n => ?_⟩
    rw [← count_flatMap_toList, hcounted, hrefs]
  · intro h
    refine ⟨h.count, h.entries, h.nTried, h.nNew, ⟨h.triedOnce, fun n => (h.tried n).trans (htried n).symm⟩, ?_⟩
    rw [countDown_eq_empty (hpositive h.entries)]
    intro n
    rw [count_flatMap_toList, h.refs, hrefs]

/-! ## When the tables fit together -/

section

variable {Hash : List UInt8 → Uint256} {T : Prop}

/-- What the check needs of tables that are linked; the buckets may be of any size. -/
structure Tied (Hash : List UInt8 → Uint256) (s : CAddrMan) : Prop where
  addr : ∀ a n, s.mapAddr.lookup a = some n ↔ ∃ info : CAddrInfo, s.mapInfo[n]? = some info ∧ info.toCNetAddr = a
  random : Positioned s.vRandom fun n : Int => (s.mapInfo[n]?).map (·.nRandomPos)
  refs : ∀ (n : Int) (info : CAddrInfo), s.mapInfo[n]? = some info → info.nRefCount = (copies s.vvNew n : Int)
  untried : ∀ b n, n ∈ s.vvNew b → ∃ info : CAddrInfo, s.mapInfo[n]? = some info ∧ info.fInTried = false
  tried : ∀ b n, n ∈ s.vvTried b ↔ ∃ info : CAddrInfo, s.mapInfo[n]? = some info ∧ info.fInTried = true ∧
    getTriedBucket Hash s.nKey info.toCService = b
  triedNodup : ∀ b, (s.vvTried b).Nodup
  nTried : s.nTried = ((∑ b, (s.vvTried b).length : Nat) : Int)
  count : (s.vRandom.length : Int) = s.nTried + s.nNew

theorem Linked.tied (h : Linked Hash T level s) : s.Tied Hash where
  addr := h.addr
  random := h.random
  refs n info hn := (h.refs n info hn).trans (Int.add_zero _)
  untried := h.untried
  tried := h.tried
  triedNodup := h.triedNodup
  nTried := h.nTried
  count := h.count

theorem Tied.mem_triedNumbers (h : s.Tied Hash) (n : Int) :
    n ∈ s.triedNumbers ↔ ∃ info, s.mapInfo[n]? = some info ∧ info.fInTried = true := by
  unfold triedNumbers
  rw [List.mem_flatMap]
  constructor
  · rintro ⟨b, -, hb⟩
    obtain ⟨info, hinfo, htried, -⟩ := (h.tried b n).mp hb
    exact ⟨info, hinfo, htried⟩
  · rintro ⟨info, hinfo, htried⟩
    exact ⟨_, List.mem_finRange _, (h.tried _ n).mpr ⟨info, hinfo, htried, rfl⟩⟩

theorem Tied.nodup_triedNumbers (h : s.Tied Hash) : s.triedNumbers.Nodup := by
  refine List.nodup_flatMap.mpr ⟨fun b _ => h.triedNodup b, ?_⟩
  refine (List.nodup_finRange _).imp fun {b c} hbc n hb hc => hbc ?_
  obtain ⟨i, hi, -, rfl⟩ := (h.tried b n).mp hb
  obtain ⟨i', hi', -, rfl⟩ := (h.tried c n).mp hc
  rw [Option.some.inj (hi.symm.trans hi')]

/-- As many entries are tried as the tried buckets hold numbers. -/
theorem Tied.countP_tried (h : s.Tied Hash) :
    ((s.mapInfo.toList.countP fun e => e.2.fInTried : Nat) : Int) = s.nTried := by
  have hperm : ((s.mapInfo.toList.filter fun e => e.2.fInTried).map Prod.fst).Perm s.triedNumbers := by
    refine (List.perm_ext_iff_of_nodup ?_ h.nodup_triedNumbers).mpr fun n => ?_
    · exact (nodup_fst_toList s.mapInfo).sublist (List.filter_sublist.map _)
    · rw [h.mem_triedNumbers, List.mem_map]
      constructor
      · rintro ⟨e, he, rfl⟩
        obtain ⟨he, ht⟩ := List.mem_filter.mp he
        exact ⟨e.2, ExtTreeMap.mem_toList_iff_getElem?_eq_some.mp he, ht⟩
      · rintro ⟨info, hinfo, ht⟩
        exact ⟨(n, info), List.mem_filter.mpr ⟨ExtTreeMap.mem_toList_iff_getElem?_eq_some.mpr hinfo, ht⟩, rfl⟩
  have hlength := hperm.length_eq
  rw [List.length_map, ← List.countP_eq_length_filter] at hlength
  rw [hlength, h.nTried, triedNumbers, List.length_flatMap, Fin.sum_univ_def]

theorem Tied.length_toList (h : s.Tied Hash) : s.mapInfo.toList.length = s.vRandom.length := by
  have hperm : (s.mapInfo.toList.map Prod.fst).Perm s.vRandom := by
    refine (List.perm_ext_iff_of_nodup (nodup_fst_toList _) h.random.nodup).mpr fun n => ?_
    rw [h.random.mem_iff, List.mem_map]
    constructor
    · rintro ⟨e, he, rfl⟩
      exact ⟨e.2.nRandomPos, by rw [ExtTreeMap.mem_toList_iff_getElem?_eq_some.mp he]; rfl⟩
    · rintro ⟨i, hi⟩
      obtain ⟨info, hinfo, -⟩ := Option.map_eq_some_iff.mp hi
      exact ⟨(n, info), ExtTreeMap.mem_toList_iff_getElem?_eq_some.mpr hinfo, rfl⟩
  have hlength := hperm.length_eq
  rw [List.length_map] at hlength
  exact hlength

theorem Tied.refs_of_tried (h : s.Tied Hash) {n : Int} {info : CAddrInfo} (hn : s.mapInfo[n]? = some info)
    (htried : info.fInTried = true) : copies s.vvNew n = 0 ∧ info.nRefCount = 0 := by
  have hnone : copies s.vvNew n = 0 := by
    refine copies_eq_zero.mpr fun b hb => ?_
    obtain ⟨i, hi, hin⟩ := h.untried b n hb
    obtain rfl := Option.some.inj (hn.symm.trans hi)
    rw [htried] at hin
    cases hin
  have hrefs := h.refs n info hn
  rw [hnone] at hrefs
  exact ⟨hnone, hrefs⟩

/-- Where the tables are linked, `Check_` passes exactly if it accepts the times. -/
theorem Tied.checked_iff (h : s.Tied Hash) (held : Held s) :
    s.Checked ↔ ∀ (n : Int) (info : CAddrInfo), s.mapInfo[n]? = some info → info.Dated := by
  constructor
  · intro hc n info hn
    have hok := hc.entries n info hn
    exact ⟨hok.nLastTry, hok.nLastSuccess, fun ht => (hok.tried ht).1⟩
  · intro hdated
    have hcountP := h.countP_tried
    have hlength := h.length_toList
    rw [List.length_eq_countP_add_countP (fun e => e.2.fInTried)] at hlength
    have hcount := h.count
    refine ⟨h.count, fun n info hn => ?_, hcountP, ?_, h.nodup_triedNumbers, h.mem_triedNumbers, fun n => ?_⟩
    · have hpos : (fun n : Int => (s.mapInfo[n]?).map (·.nRandomPos)) n = some info.nRandomPos := by
        show (s.mapInfo[n]?).map (·.nRandomPos) = _
        rw [hn]
        rfl
      obtain ⟨hplace, hi⟩ := h.random.getElem?_of_pos hpos
      have hlt := (List.getElem?_eq_some_iff.mp hi).1
      refine ⟨fun ht => ⟨(hdated n info hn).tried ht, (h.refs_of_tried hn ht).2⟩, held n info hn, ?_, ?_,
        (hdated n info hn).nLastTry, (hdated n info hn).nLastSuccess⟩
      · rw [(h.addr _ n).mpr ⟨info, hn, rfl⟩]
        rfl
      · exact ⟨hplace, by omega, hi⟩
    · have hnot : s.mapInfo.toList.countP (fun e => decide ¬ e.2.fInTried = true) =
          s.mapInfo.toList.countP (fun e => !e.2.fInTried) :=
        List.countP_congr fun e _ => by cases e.2.fInTried <;> rfl
      rw [hnot] at hlength
      omega
    · cases hn : s.mapInfo[n]? with
      | none =>
        have hnone : copies s.vvNew n = 0 := by
          refine copies_eq_zero.mpr fun b hb => ?_
          obtain ⟨i, hi, -⟩ := h.untried b n hb
          rw [hn] at hi
          cases hi
        rw [hnone]
        rfl
      | some info =>
        show _ = if info.fInTried then 0 else info.nRefCount
        by_cases ht : info.fInTried = true
        · rw [if_pos ht, (h.refs_of_tried hn ht).1]
          rfl
        · have hrefs := h.refs n info hn
          rw [if_neg ht, hrefs]

end

/-! ## Every sequence of calls passes it -/

/-- From the empty tables on every sequence of calls, with any addresses, sources, choices and times, ends
    in a state (no assertion fails) within the limits of the tables; `Check_` returns 0 there exactly if it
    accepts the times of the entries, and so it does if those given to `Good` and `Attempt` are times of a
    clock. -/
theorem check_of_run (Hash : List UInt8 → Uint256) (nKey : List UInt8) (calls : List AddrCall) :
    ∃ s, run Hash (empty nKey) calls = some s ∧
      (∀ b, (s.vvNew b).size ≤ ADDRMAN_NEW_BUCKET_SIZE) ∧
      (∀ b, (s.vvTried b).length ≤ ADDRMAN_TRIED_BUCKET_SIZE) ∧
      (∀ (n : Int) (info : CAddrInfo), s.mapInfo[n]? = some info →
        info.nRefCount ≤ ADDRMAN_NEW_BUCKETS_PER_ADDRESS) ∧
      (s.check = .ok () ↔ ∀ (n : Int) (info : CAddrInfo), s.mapInfo[n]? = some info → info.Dated) ∧
      ((∀ call ∈ calls, call.Timed) → s.check = .ok ()) := by
  have hheld : Held (empty nKey) := by
    intro n info hn
    have hnone : (empty nKey).mapInfo[n]? = none := ExtTreeMap.getElem?_empty
    rw [hnone] at hn
    cases hn
  obtain ⟨s, hrun, h, held⟩ := run_linked
    (show Linked Hash (∀ call ∈ calls, call.Timed) level (empty nKey) from linked_empty nKey) hheld calls fun h => h
  refine ⟨s, hrun, h.newSize, h.triedSize, fun n info hn => ?_, check_eq_ok.trans (h.tied.checked_iff held), fun hT => ?_⟩
  · by_cases ht : info.fInTried = true
    · rw [(h.tied.refs_of_tried hn ht).2]
      decide
    · exact (held n info hn (Bool.eq_false_iff.mpr ht)).2
  · exact check_eq_ok.mpr ((h.tied.checked_iff held).mpr (h.dated hT))

/-! ## A time that is not one -/

/-- 8.8.8.8, port 15714. -/
def someHost : CService := ⟨⟨⟨#[0, 0, 0, 0, 0, 0, 0, 0, 0, 0, 0xff, 0xff, 8, 8, 8, 8], rfl⟩⟩, 15714⟩

def someAddress : CAddress := ⟨someHost, NODE_NETWORK, 1400000000, 0⟩

/-- An address is added, and marked good at the time 0. -/
theorem good_at_zero : ¬ ∀ (Hash : List UInt8 → Uint256) (nKey : List UInt8) (calls : List AddrCall),
    ∃ s, run Hash (empty nKey) calls = some s ∧ s.check = .ok () := by
  intro h
  obtain ⟨s, hrun, hcheck⟩ := h (fun _ => 0) [] [.add (fun _ => 1400000600) (fun _ => 0) someAddress someHost.toCNetAddr 0,
    .good (fun _ => 0) someHost 0]
  have hfails : (run (fun _ => 0) (empty []) [.add (fun _ => 1400000600) (fun _ => 0) someAddress someHost.toCNetAddr 0,
      .good (fun _ => 0) someHost 0]).any (fun s => match s.check with | .ok _ => true | .error _ => false) = false := by
    decide
  rw [hrun] at hfails
  have hfails : (match s.check with | .ok _ => true | .error _ => false) = false := hfails
  rw [hcheck] at hfails
  cases hfails

end CAddrMan

end Silkcoin
