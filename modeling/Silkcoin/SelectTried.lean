/-
  `SelectTried`: which entry of a full tried bucket has to go.

  Up to four entries are drawn, each swapped to the front of the bucket, and the one that was connected to
  longest ago is to be returned, by its place.  The place that is REMEMBERED is the one the entry was drawn
  from; but after the swap the entry is in front, in the place with the number of the round, and where it
  was is the entry that stood there (`getElem?_shuffled`).

  So `MakeTried` evicts the oldest of the inspected entries exactly if its draw stays where it is, or hits a
  place among the first whose own draw is just as old (`selectTried_oldest_iff`).  Of a full bucket whose
  last entry is the oldest, and is drawn first, the entry that stood in front goes (`evicts_another`).
-/
import Silkcoin.AddrCheck
import Silkcoin.Lib.Shuffle

namespace Silkcoin

open BatchStore Validation Buckets Std Shuffle

namespace CAddrMan

variable (s : CAddrMan) (rand : Nat → Nat) (b : TriedBucket)

/-! ## What is inspected -/

/-- The place a round draws from. -/
def drawPos (i : Nat) : Nat := getRandInt (rand i) ((s.vvTried b).length - i) + i

def inspectRounds : Nat := min ADDRMAN_TRIED_ENTRIES_INSPECT_ON_EVICT (s.vvTried b).length

/-- The entry a round inspects. -/
def inspectedAt (i : Nat) : Option Int := drawn (s.drawPos rand b) (s.vvTried b) i

def lastSuccess (n : Int) : Int := ((s.mapInfo[n]?).map CAddrInfo.nLastSuccess).getD 0

/-- The first of the oldest among the entries of the first `k` rounds. -/
structure FirstOldest (k i : Nat) (n : Int) : Prop where
  lt : i < k
  at_eq : s.inspectedAt rand b i = some n
  least : ∀ j < k, ∀ m, s.inspectedAt rand b j = some m → s.lastSuccess n ≤ s.lastSuccess m
  first : ∀ j < i, ∀ m, s.inspectedAt rand b j = some m → s.lastSuccess n < s.lastSuccess m

/-- `MakeTried` finds an oldest of the inspected entries in the place it is given, and evicts it. -/
def EvictsOldest : Prop :=
  ∃ s' nPos n, s.selectTried rand b = some (s', nPos) ∧ 0 ≤ nPos ∧ (s'.vvTried b)[nPos.toNat]? = some n ∧
    (∃ i < s.inspectRounds b, s.inspectedAt rand b i = some n) ∧
    (∀ i < s.inspectRounds b, ∀ m, s.inspectedAt rand b i = some m → s.lastSuccess n ≤ s.lastSuccess m) ∧
    ∃ infoOld, s.mapInfo[n]? = some infoOld ∧ ∀ Hash nId info nOrigin,
      s.replaceTried Hash rand nId info b nOrigin =
        some (((s'.evict Hash n infoOld nOrigin).setTried b
          (((s'.evict Hash n infoOld nOrigin).vvTried b).set nPos.toNat nId)).setInfo nId
            { info with fInTried := true })

/-- The draw of the oldest hits its own place, or one of the first whose own draw is just as old. -/
def OldestStays : Prop :=
  ∀ i n, s.FirstOldest rand b (s.inspectRounds b) i n → s.drawPos rand b i < s.inspectRounds b ∧
    ∃ m, s.inspectedAt rand b (s.drawPos rand b i) = some m ∧ s.lastSuccess m = s.lastSuccess n

/-! ## The rounds -/

variable {s rand b}

theorem drawPos_forward : Forward (s.drawPos rand b) (s.vvTried b) (s.inspectRounds b) := by
  intro i hi
  have hle : s.inspectRounds b ≤ (s.vvTried b).length := Nat.min_le_right _ _
  have hlt : getRandInt (rand i) ((s.vvTried b).length - i) < (s.vvTried b).length - i :=
    getRandInt_lt (rand i) (by omega)
  unfold drawPos
  omega

/-- One round of the loop is one of the shuffle; the entry it draws is compared with the oldest so far. -/
theorem inspect_eq {k : Nat} {nOldest nOldestPos : Int} (hk : k < s.inspectRounds b) {n : Int} {info : CAddrInfo}
    (hn : s.inspectedAt rand b k = some n) (hinfo : s.mapInfo[n]? = some info) :
    s.inspect rand (shuffled (s.drawPos rand b) (s.vvTried b) k, nOldest, nOldestPos) k =
      if nOldest = -1 then
        some (shuffled (s.drawPos rand b) (s.vvTried b) (k + 1), n, (s.drawPos rand b k : Int))
      else (s.mapInfo[nOldest]?).bind fun oldest => if info.nLastSuccess < oldest.nLastSuccess then
        some (shuffled (s.drawPos rand b) (s.vvTried b) (k + 1), n, (s.drawPos rand b k : Int))
        else some (shuffled (s.drawPos rand b) (s.vvTried b) (k + 1), nOldest, nOldestPos) := by
  have hforward := (@drawPos_forward s rand b).mono (Nat.le_of_lt hk)
  have hlength := length_shuffled hforward
  obtain ⟨hle, hlt⟩ := @drawPos_forward s rand b k hk
  have hplace : k < (shuffled (s.drawPos rand b) (s.vvTried b) k).length := by omega
  have hnext : shuffled (s.drawPos rand b) (s.vvTried b) (k + 1) =
      ((shuffled (s.drawPos rand b) (s.vvTried b) k).set (s.drawPos rand b k)
        (shuffled (s.drawPos rand b) (s.vvTried b) k)[k]).set k n := by
    have hn := hn
    unfold inspectedAt drawn at hn
    obtain ⟨hplt, hpn⟩ := List.getElem?_eq_some_iff.mp hn
    show swap (shuffled (s.drawPos rand b) (s.vvTried b) k) k (s.drawPos rand b k) = _
    rw [swap_eq hplace hplt, hpn]
  unfold inspect
  dsimp only
  rw [hlength]
  have hdraw : (shuffled (s.drawPos rand b) (s.vvTried b) k)[
      getRandInt (rand k) ((s.vvTried b).length - k) + k]? = some n := hn
  rw [hdraw]
  show ((shuffled (s.drawPos rand b) (s.vvTried b) k)[k]?).bind _ = _
  rw [List.getElem?_eq_getElem hplace]
  show (s.mapInfo[n]?).bind _ = _
  rw [hinfo, hnext]
  rfl

/-- After the rounds the bucket is shuffled, and in hand is the first of the oldest and the place it was
    drawn from. -/
theorem inspect_rounds (hentry : ∀ n ∈ s.vvTried b, 0 ≤ n ∧ ∃ info, s.mapInfo[n]? = some info) (k : Nat)
    (hk : k + 1 ≤ s.inspectRounds b) :
    ∃ i n, s.FirstOldest rand b (k + 1) i n ∧
      (List.range (k + 1)).foldlM (s.inspect rand) (s.vvTried b, -1, -1) =
        some (shuffled (s.drawPos rand b) (s.vvTried b) (k + 1), n, (s.drawPos rand b i : Int)) := by
  -- what a round draws is an entry of the bucket
  have hdrawn : ∀ j < s.inspectRounds b, ∃ n info, s.inspectedAt rand b j = some n ∧ n ≠ -1 ∧
      s.mapInfo[n]? = some info := by
    intro j hj
    have hforward := @drawPos_forward s rand b
    obtain ⟨n, hn⟩ := exists_drawn hforward hj
    have hmem := List.mem_of_getElem? (show (shuffled _ _ j)[_]? = some n from hn)
    obtain ⟨h0, info, hinfo⟩ := hentry n ((shuffled_perm (hforward.mono (Nat.le_of_lt hj))).mem_iff.mp hmem)
    exact ⟨n, info, hn, by omega, hinfo⟩
  have hage : ∀ n info, s.mapInfo[n]? = some info → s.lastSuccess n = info.nLastSuccess := by
    intro n info hinfo
    unfold lastSuccess
    rw [hinfo]
    rfl
  induction k with
  | zero =>
    obtain ⟨n, info, hn, -, hinfo⟩ := hdrawn 0 hk
    refine ⟨0, n, ⟨Nat.zero_lt_one, hn, ?_, fun j hj => absurd hj (Nat.not_lt_zero j)⟩, ?_⟩
    · intro j hj m hm
      obtain rfl : j = 0 := by omega
      obtain rfl := Option.some.inj (hn.symm.trans hm)
      exact Int.le_refl _
    · have hstep := @inspect_eq s rand b 0 (-1) (-1) hk n info hn hinfo
      rw [if_pos rfl] at hstep
      show (s.inspect rand (s.vvTried b, -1, -1) 0).bind _ = _
      rw [show s.inspect rand (s.vvTried b, -1, -1) 0 = _ from hstep]
      rfl
  | succ k ih =>
    obtain ⟨i, n, hoff, hrun⟩ := ih (by omega)
    obtain ⟨m, info, hm, -, hinfo⟩ := hdrawn (k + 1) hk
    obtain ⟨n', oldest, hn', hne, holdest⟩ := hdrawn i (by have := hoff.lt; omega)
    obtain rfl := Option.some.inj (hoff.at_eq.symm.trans hn')
    have hstep := @inspect_eq s rand b (k + 1) n (s.drawPos rand b i) hk m info hm hinfo
    rw [if_neg hne, holdest, Option.bind_some, ← hage n oldest holdest, ← hage m info hinfo] at hstep
    have hnext : (List.range (k + 1 + 1)).foldlM (s.inspect rand) (s.vvTried b, -1, -1) =
        s.inspect rand (shuffled (s.drawPos rand b) (s.vvTried b) (k + 1), n, (s.drawPos rand b i : Int))
          (k + 1) := by
      rw [List.range_succ, List.foldlM_append, hrun]
      show (s.inspect rand _ (k + 1)).bind some = _
      cases s.inspect rand (shuffled (s.drawPos rand b) (s.vvTried b) (k + 1), n, (s.drawPos rand b i : Int)) (k + 1)
        <;> rfl
    rw [hnext, hstep]
    by_cases hless : s.lastSuccess m < s.lastSuccess n
    · -- the new one is older than all before
      refine ⟨k + 1, m, ⟨Nat.lt_succ_self _, hm, ?_, ?_⟩, ?_⟩
      · intro j hj m' hm'
        rcases Nat.lt_or_eq_of_le (Nat.le_of_lt_succ hj) with hlt | rfl
        · exact Int.le_trans (Int.le_of_lt hless) (hoff.least j hlt m' hm')
        · obtain rfl := Option.some.inj (hm.symm.trans hm')
          exact Int.le_refl _
      · exact fun j hj m' hm' => Int.lt_of_lt_of_le hless (hoff.least j hj m' hm')
      · rw [if_pos hless]
    · refine ⟨i, n, ⟨Nat.lt_succ_of_lt hoff.lt, hoff.at_eq, ?_, hoff.first⟩, ?_⟩
      · intro j hj m' hm'
        rcases Nat.lt_or_eq_of_le (Nat.le_of_lt_succ hj) with hlt | rfl
        · exact hoff.least j hlt m' hm'
        · obtain rfl := Option.some.inj (hm.symm.trans hm')
          exact Int.not_lt.mp hless
      · rw [if_neg hless]

/-- There is one first of the oldest only. -/
theorem FirstOldest.unique {k i j : Nat} {n m : Int} (h : s.FirstOldest rand b k i n)
    (h' : s.FirstOldest rand b k j m) : i = j := by
  rcases Nat.lt_trichotomy i j with hlt | heq | hlt
  · have := h'.first i hlt n h.at_eq
    have := h.least j h'.lt m h'.at_eq
    omega
  · exact heq
  · have := h.first j hlt m h'.at_eq
    have := h'.least i h.lt n h.at_eq
    omega

/-- **`SelectTried` returns the place of the oldest inspected entry**, and `MakeTried` evicts it, exactly if
    the draw of that entry stays where it is, or where it was is one just as old. -/
theorem selectTried_oldest_iff (s : CAddrMan) (rand : Nat → Nat) (b : TriedBucket)
    (hentry : ∀ n ∈ s.vvTried b, 0 ≤ n ∧ ∃ info, s.mapInfo[n]? = some info) (hnodup : (s.vvTried b).Nodup)
    (hne : 0 < (s.vvTried b).length) : s.EvictsOldest rand b ↔ s.OldestStays rand b := by
  have hforward := @drawPos_forward s rand b
  obtain ⟨k, hk⟩ : ∃ k, s.inspectRounds b = k + 1 :=
    Nat.exists_eq_succ_of_ne_zero (Nat.pos_iff_ne_zero.mp (Nat.lt_min.mpr ⟨by decide, hne⟩))
  obtain ⟨i, n, hoff, hrun⟩ := @inspect_rounds s rand b hentry k hk.ge
  rw [← hk] at hoff hrun
  have hlength := length_shuffled hforward
  obtain ⟨-, hplt⟩ := hforward i hoff.lt
  -- what is in the place that is returned
  obtain ⟨m, hm⟩ : ∃ m,
      (shuffled (s.drawPos rand b) (s.vvTried b) (s.inspectRounds b))[s.drawPos rand b i]? = some m :=
    ⟨_, List.getElem?_eq_getElem (by omega)⟩
  obtain ⟨-, infoOld, hinfoOld⟩ := hentry m ((shuffled_perm hforward).mem_iff.mp (List.mem_of_getElem? hm))
  have hselect : s.selectTried rand b = some (s.setTried b (shuffled (s.drawPos rand b) (s.vvTried b)
      (s.inspectRounds b)), (s.drawPos rand b i : Int)) := by
    unfold selectTried
    show ((List.range (s.inspectRounds b)).foldlM (s.inspect rand) (s.vvTried b, -1, -1)).bind _ = _
    rw [hrun]
    rfl
  have hbucket : ∀ v, (s.setTried b v).vvTried b = v := fun v => Function.update_self ..
  have hearly : s.drawPos rand b i < s.inspectRounds b →
      s.inspectedAt rand b (s.drawPos rand b i) = some m :=
    fun hlt => (getElem?_shuffled hforward hlt).symm.trans hm
  constructor
  · rintro ⟨s', nPos, n', hrun', -, hn', ⟨j, hj, hjn⟩, hleast, -⟩ i' m' hoff'
    rw [hselect] at hrun'
    cases hrun'
    rw [hbucket, Int.toNat_natCast, hm] at hn'
    cases hn'
    obtain rfl := hoff.unique hoff'
    obtain rfl := Option.some.inj (hoff.at_eq.symm.trans hoff'.at_eq)
    have hlt : s.drawPos rand b i < s.inspectRounds b := by
      by_contra hge
      exact ne_of_late hforward hnodup hj (Nat.not_lt.mp hge) hjn hm rfl
    refine ⟨hlt, m, hearly hlt, ?_⟩
    have := hleast i hoff.lt n hoff.at_eq
    have := hoff.least _ hlt m (hearly hlt)
    omega
  · intro hstays
    obtain ⟨hlt, m', hm', hage⟩ := hstays i n hoff
    obtain rfl := Option.some.inj ((hearly hlt).symm.trans hm')
    refine ⟨_, _, m, hselect, Int.natCast_nonneg _, ?_, ⟨_, hlt, hm'⟩, fun j hj m' hm' => ?_, infoOld, hinfoOld,
      ?_⟩
    · rw [hbucket, Int.toNat_natCast]
      exact hm
    · rw [hage]
      exact hoff.least j hj m' hm'
    · intro Hash nId info nOrigin
      have hguard : (guard (0 ≤ (s.drawPos rand b i : Int)) : Option Unit) = some () :=
        if_pos (Int.natCast_nonneg _)
      unfold replaceTried
      rw [hselect, Option.bind_eq_bind, Option.bind_some]
      show (guard (0 ≤ (s.drawPos rand b i : Int)) : Option Unit).bind _ = _
      rw [hguard]
      show (((s.setTried b _).vvTried b)[(s.drawPos rand b i : Int).toNat]?).bind _ = _
      rw [hbucket, Int.toNat_natCast, hm]
      show (s.mapInfo[m]?).bind _ = _
      rw [hinfoOld]
      rfl

/-! ## A bucket whose oldest entry stays -/

/-- Of the entries of a full bucket the last has not been connected to for longest. -/
def agedEntry (n : Nat) : CAddrInfo where
  ip := Vector.replicate 16 n.toUInt8
  port := 8333
  nServices := 1
  nTime := 1000000
  nLastTry := 0
  source := ⟨Vector.replicate 16 0⟩
  nLastSuccess := if n = 63 then 5000 else 9000
  nAttempts := 0
  nRefCount := 0
  fInTried := true
  nRandomPos := n

def agedTable : CAddrMan :=
  { empty [] with
    nIdCount := 64
    mapInfo := (List.range 64).foldl (fun mapInfo n => mapInfo.insert (Int.ofNat n) (agedEntry n)) ∅
    vRandom := (List.range 64).map Int.ofNat
    nTried := 64
    vvTried := fun b => if b.val = 0 then (List.range 64).map Int.ofNat else [] }

def firstBucket : TriedBucket := ⟨0, by decide⟩

/-- The first draw is the last place, and the others are their own. -/
def lastFirst (i : Nat) : Nat := if i = 0 then 63 else 0

theorem agedTable_entry :
    ∀ n ∈ agedTable.vvTried firstBucket, 0 ≤ n ∧ ∃ info, agedTable.mapInfo[n]? = some info := by
  have hentry : ∀ n ∈ agedTable.vvTried firstBucket, 0 ≤ n ∧ (agedTable.mapInfo[n]?).isSome := by
    decide
  intro n hn
  obtain ⟨hpos, hsome⟩ := hentry n hn
  exact ⟨hpos, Option.isSome_iff_exists.mp hsome⟩

theorem agedTable_nodup : (agedTable.vvTried firstBucket).Nodup := by decide

theorem selectTried_oldest_aged :
    agedTable.EvictsOldest lastFirst firstBucket ↔ agedTable.OldestStays lastFirst firstBucket :=
  selectTried_oldest_iff agedTable lastFirst firstBucket agedTable_entry agedTable_nodup (by decide)

/-- The place that comes back is the last one, and there the FIRST entry stands now; the oldest is in front. -/
theorem evicts_another : ¬ ∀ (s : CAddrMan) (rand : Nat → Nat) (b : TriedBucket),
    (∀ n ∈ s.vvTried b, 0 ≤ n ∧ ∃ info, s.mapInfo[n]? = some info) → (s.vvTried b).Nodup →
      0 < (s.vvTried b).length → s.EvictsOldest rand b := by
  intro hclaim
  obtain ⟨s', nPos, n, hrun, -, hn, -, hleast, -⟩ := hclaim agedTable lastFirst firstBucket agedTable_entry
    agedTable_nodup (by decide)
  have hgoes : (agedTable.selectTried lastFirst firstBucket).bind
      (fun r => (r.1.vvTried firstBucket)[r.2.toNat]?) = some 0 := by
    decide
  rw [hrun] at hgoes
  obtain rfl := Option.some.inj (hn.symm.trans hgoes)
  have hold : agedTable.inspectedAt lastFirst firstBucket 0 = some 63 := by decide
  have hyounger : agedTable.lastSuccess 63 < agedTable.lastSuccess 0 := by decide
  have := hleast 0 (by decide) 63 hold
  omega

end CAddrMan

end Silkcoin
