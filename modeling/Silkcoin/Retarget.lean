/-
  The required target: what `GetNextTargetRequired` can come to.

  Both versions move the target of the last block of a kind by how long that block took, and both cut
  the result off at the limit.  The second version also takes a negative spacing for the normal one
  and a target that is not positive for the limit; the FIRST one, which rules below height 10000 and
  between 50000 and 60000, does not.  A block may be up to ten minutes older than its predecessor, so
  there a target can become negative, and then no block of that kind is acceptable any more.

  `getNextTargetRequired_iff` is the exact extent.
-/
import Silkcoin.Accept
import Silkcoin.Chain
import Silkcoin.Compact

namespace Silkcoin

open Validation

/-! ## The rules a chain obeys -/

namespace BlockPtr

/-- Every block is later than the median of the past, and at most the drift older than its
    predecessor. -/
def TimesOk : BlockPtr → Prop
  | pindex :: prev :: rest =>
    ¬ (pindex.getBlockTime ≤ getMedianTimePast (prev :: rest) ∨
      futureDrift pindex.getBlockTime < prev.getBlockTime) ∧ TimesOk (prev :: rest)
  | _ => True

/-- Every block has the target required of it. -/
def TargetsOk (g : Globals) : BlockPtr → Prop
  | pindex :: prev :: rest =>
    pindex.nBits = getNextTargetRequired g (prev :: rest) pindex.isProofOfStake ∧
      TargetsOk g (prev :: rest)
  | _ => True

instance decidableTimesOk : (ptr : BlockPtr) → Decidable (TimesOk ptr)
  | [] => .isTrue trivial
  | [_] => .isTrue trivial
  | _ :: prev :: rest =>
    have := decidableTimesOk (prev :: rest)
    inferInstanceAs (Decidable (_ ∧ TimesOk (prev :: rest)))

instance decidableTargetsOk (g : Globals) : (ptr : BlockPtr) → Decidable (TargetsOk g ptr)
  | [] => .isTrue trivial
  | [_] => .isTrue trivial
  | _ :: prev :: rest =>
    have := decidableTargetsOk g (prev :: rest)
    inferInstanceAs (Decidable (_ ∧ TargetsOk g (prev :: rest)))

/-- The last block of a kind and the one of that kind before it, neither of them genesis. -/
def lastTwo (fProofOfStake : Bool) (pindexLast : BlockPtr) : Option (CBlockIndex × CBlockIndex) :=
  match getLastBlockIndex fProofOfStake pindexLast with
  | [] => none
  | [_] => none
  | pindexPrev :: pprev =>
    match getLastBlockIndex fProofOfStake pprev with
    | [] => none
    | [_] => none
    | pindexPrevPrev :: _ => some (pindexPrev, pindexPrevPrev)

end BlockPtr

/-- The limit of a kind. -/
def targetLimit (g : Globals) (fProofOfStake : Bool) : Int :=
  if fProofOfStake then bnProofOfStakeLimit else g.bnProofOfWorkLimit

/-- Is the first version in force after `pindexLast`? -/
def usesV1 (pindexLast : BlockPtr) : Prop :=
  (pindexLast.head?.map CBlockIndex.nHeight).getD 0 < 10000 ∨
    ((pindexLast.head?.map CBlockIndex.nHeight).getD 0 > 50000 ∧
      (pindexLast.head?.map CBlockIndex.nHeight).getD 0 < 60000)

/-- The seconds the last block of a kind took. -/
def spacing (pair : CBlockIndex × CBlockIndex) : Int := pair.1.getBlockTime - pair.2.getBlockTime

section Versions

variable (g : Globals) (pindexLast : BlockPtr) (fProofOfStake : Bool)

theorem getNextTargetRequiredV1_eq : getNextTargetRequiredV1 g pindexLast fProofOfStake =
    match BlockPtr.lastTwo fProofOfStake pindexLast with
    | none => getCompact (targetLimit g fProofOfStake)
    | some pair =>
      let bnNew := movedTarget pair.1.nBits (spacing pair)
      getCompact (if bnNew > targetLimit g fProofOfStake then targetLimit g fProofOfStake
        else bnNew) := by
  unfold getNextTargetRequiredV1 BlockPtr.lastTwo
  rcases BlockPtr.getLastBlockIndex fProofOfStake pindexLast with _ | ⟨p, _ | ⟨q, pprev⟩⟩
  · rfl
  · rfl
  · dsimp only
    rcases BlockPtr.getLastBlockIndex fProofOfStake (q :: pprev) with _ | ⟨r, _ | ⟨s, rest⟩⟩ <;> rfl

theorem getNextTargetRequiredV2_eq : getNextTargetRequiredV2 g pindexLast fProofOfStake =
    match BlockPtr.lastTwo fProofOfStake pindexLast with
    | none => getCompact (targetLimit g fProofOfStake)
    | some pair =>
      let bnNew := movedTarget pair.1.nBits (if spacing pair < 0 then nTargetSpacing else spacing pair)
      getCompact (if bnNew ≤ 0 ∨ bnNew > targetLimit g fProofOfStake
        then targetLimit g fProofOfStake else bnNew) := by
  unfold getNextTargetRequiredV2 BlockPtr.lastTwo
  rcases BlockPtr.getLastBlockIndex fProofOfStake pindexLast with _ | ⟨p, _ | ⟨q, pprev⟩⟩
  · rfl
  · rfl
  · dsimp only
    rcases BlockPtr.getLastBlockIndex fProofOfStake (q :: pprev) with _ | ⟨r, _ | ⟨s, rest⟩⟩ <;> rfl

end Versions

/-! ## The range of the result -/

theorem targetLimit_bounds (g : Globals) (fProofOfStake : Bool) :
    0 < targetLimit g fProofOfStake ∧ targetLimit g fProofOfStake < (2 ^ 240 : Nat) := by
  unfold targetLimit Globals.bnProofOfWorkLimit bnProofOfStakeLimit
  cases fProofOfStake <;> cases g.fTestNet <;> decide

/-- A target within the limit stays so in its compact form. -/
theorem compact_inRange {limit x : Int} (hlimit : limit < (2 ^ 240 : Nat)) (hpos : 0 < x)
    (hle : x ≤ limit) : 0 < setCompact (getCompact x) ∧ setCompact (getCompact x) ≤ limit := by
  obtain ⟨n, rfl⟩ := Int.eq_ofNat_of_zero_le (Int.le_of_lt hpos)
  have hsize : mpiSize n < 256 := by
    have hmax : mpiSize (2 ^ 240) = 31 := by decide
    have := mpiSize_mono (show n ≤ 2 ^ 240 by omega)
    omega
  rw [setCompact_getCompact hsize]
  have := compactFloor_pos (n := n) (by omega)
  have := compactFloor_le n
  omega

/-- When the moved target is positive. -/
theorem movedTarget_pos_iff (nBits : UInt32) (a : Int) :
    0 < movedTarget nBits a ↔ 1020 ≤ setCompact nBits * (900 + 2 * a) := by
  have heq : movedTarget nBits a = (setCompact nBits * (900 + 2 * a)).tdiv 1020 := by
    have hfactor : (nTargetTimespan / nTargetSpacing - 1) * nTargetSpacing + a + a = 900 + 2 * a := by
      unfold nTargetTimespan nTargetSpacing
      omega
    show (setCompact nBits * ((nTargetTimespan / nTargetSpacing - 1) * nTargetSpacing + a + a)).tdiv
      1020 = _
    rw [hfactor]
  rw [heq]
  generalize setCompact nBits * (900 + 2 * a) = x
  constructor
  · intro h
    by_contra hlt
    rcases Int.lt_or_le x 0 with hneg | hnn
    · have hneg' := Int.tdiv_nonneg (a := -x) (b := 1020) (by omega) (by decide)
      rw [Int.neg_tdiv] at hneg'
      omega
    · rw [Int.tdiv_eq_ediv_of_nonneg hnn] at h
      omega
  · intro h
    rw [Int.tdiv_eq_ediv_of_nonneg (by omega)]
    omega

/-- The first version is not in force, or there are no two blocks of the kind, or the last one took
    long enough for its target to stay positive. -/
def TargetStaysPositive (pindexLast : BlockPtr) (fProofOfStake : Bool) : Prop :=
  usesV1 pindexLast → ∀ pair ∈ BlockPtr.lastTwo fProofOfStake pindexLast,
    1020 ≤ setCompact pair.1.nBits * (900 + 2 * spacing pair)

/-- **The range of the required target.** -/
theorem getNextTargetRequired_iff (g : Globals) (pindexLast : BlockPtr) (fProofOfStake : Bool) :
    (0 < setCompact (getNextTargetRequired g pindexLast fProofOfStake) ∧
      setCompact (getNextTargetRequired g pindexLast fProofOfStake) ≤ targetLimit g fProofOfStake) ↔
      TargetStaysPositive pindexLast fProofOfStake := by
  obtain ⟨hpos, hmax⟩ := targetLimit_bounds g fProofOfStake
  have hlimit := compact_inRange hmax hpos (Int.le_refl _)
  unfold TargetStaysPositive
  by_cases hV1 : usesV1 pindexLast
  · have heq : getNextTargetRequired g pindexLast fProofOfStake =
        getNextTargetRequiredV1 g pindexLast fProofOfStake := if_pos hV1
    rw [heq, getNextTargetRequiredV1_eq]
    cases BlockPtr.lastTwo fProofOfStake pindexLast with
    | none => exact iff_of_true hlimit fun _ _ h => by cases h
    | some pair =>
      have hmoved := movedTarget_pos_iff pair.1.nBits (spacing pair)
      dsimp only
      simp only [hV1, forall_const, Option.mem_some_iff, forall_eq']
      rw [← hmoved]
      by_cases hbig : movedTarget pair.1.nBits (spacing pair) > targetLimit g fProofOfStake
      · rw [if_pos hbig]
        exact iff_of_true hlimit (by omega)
      · rw [if_neg hbig]
        by_cases hmovedPos : 0 < movedTarget pair.1.nBits (spacing pair)
        · exact iff_of_true (compact_inRange hmax hmovedPos (by omega)) hmovedPos
        · refine iff_of_false (fun h => ?_) hmovedPos
          have := setCompact_getCompact_nonpos (Int.not_lt.mp hmovedPos)
          omega
  · have heq : getNextTargetRequired g pindexLast fProofOfStake =
        getNextTargetRequiredV2 g pindexLast fProofOfStake := if_neg hV1
    rw [heq, getNextTargetRequiredV2_eq]
    refine iff_of_true ?_ fun h => absurd h hV1
    cases BlockPtr.lastTwo fProofOfStake pindexLast with
    | none => exact hlimit
    | some pair =>
      dsimp only
      generalize movedTarget pair.1.nBits _ = bnNew
      by_cases hout : bnNew ≤ 0 ∨ bnNew > targetLimit g fProofOfStake
      · rw [if_pos hout]
        exact hlimit
      · rw [if_neg hout]
        rw [not_or, Int.not_le, not_lt] at hout
        exact compact_inRange hmax hout.1 hout.2

/-! ## A chain that runs out of targets -/

namespace Stuck

open Sample

/-- An entry on top of `rest`, mined `nSeconds` after genesis with the target required of it. -/
def on (nSeconds : UInt32) (rest : BlockPtr) : BlockPtr :=
  { genesis with
    nHeight := (rest.head?.map CBlockIndex.nHeight).getD 0 + 1
    nFlags := 0
    nTime := genesis.nTime + nSeconds
    nBits := getNextTargetRequired (nodeB rest) rest false } :: rest

/-- Two blocks a second apart, one after a long pause, and one ten minutes older than that. -/
def chain : BlockPtr := on 9400 (on 10000 (on 2 (on 1 [genesis])))

/-- The target required after it is negative. -/
theorem getNextTargetRequired_negative : BlockPtr.TimesOk chain ∧
    BlockPtr.TargetsOk (nodeB chain) chain ∧
    setCompact (getNextTargetRequired (nodeB chain) chain false) < 0 := by decide

end Stuck
end Silkcoin
