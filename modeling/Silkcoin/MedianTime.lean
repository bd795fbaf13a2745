/-
  The MEDIAN TIME never goes back.

  A block may be earlier than its predecessor, but it has to be later than the median of the eleven blocks
  before it.  From one block to the next the window takes in one time that is above the median, and loses
  its oldest, or grows.  So no more times are below the old median than before, and the place where the
  new one is read is not lower.
-/
import Silkcoin.Retarget
import Silkcoin.Lib.OrderStatistic

namespace Silkcoin

open Validation OrderStatistic

namespace BlockPtr

/-- The times of the last eleven blocks. -/
def pastTimes (pindex : BlockPtr) : List Int := (pindex.take 11).map CBlockIndex.getBlockTime

theorem length_pastTimes (pindex : BlockPtr) : (pastTimes pindex).length = min 11 pindex.length := by
  rw [pastTimes, List.length_map, List.length_take]

/-- The median is one of the times, at the middle place or, of an even number, above it. -/
theorem getElem?_median (pindex : CBlockIndex) (rest : BlockPtr) :
    ((pastTimes (pindex :: rest)).insertionSort (· ≤ ·))[(pastTimes (pindex :: rest)).length / 2]? =
      some (getMedianTimePast (pindex :: rest)) := by
  have hlength : ((pastTimes (pindex :: rest)).insertionSort (· ≤ ·)).length =
      (pastTimes (pindex :: rest)).length := List.length_insertionSort _ _
  have hpos : 0 < (pastTimes (pindex :: rest)).length := by
    rw [length_pastTimes, List.length_cons]
    omega
  have hlt : (pastTimes (pindex :: rest)).length / 2 <
      ((pastTimes (pindex :: rest)).insertionSort (· ≤ ·)).length := by omega
  show _ = some (((pastTimes (pindex :: rest)).insertionSort (· ≤ ·)).getD
    (((pastTimes (pindex :: rest)).insertionSort (· ≤ ·)).length / 2) 0)
  rw [hlength, List.getD_eq_getElem?_getD, List.getElem?_eq_getElem hlt]
  rfl

/-- One block more, later than the median before it. -/
theorem getMedianTimePast_step {pindex prev : CBlockIndex} {rest : BlockPtr}
    (hlate : getMedianTimePast (prev :: rest) ≤ pindex.getBlockTime) :
    getMedianTimePast (prev :: rest) ≤ getMedianTimePast (pindex :: prev :: rest) := by
  have hbefore := (le_kth_iff (getElem?_median prev rest)).mp le_rfl
  refine (le_kth_iff (getElem?_median pindex (prev :: rest))).mpr ?_
  -- the new time is not below, and of the others there are no more than before
  have hwindow : pastTimes (pindex :: prev :: rest) =
      pindex.getBlockTime :: ((prev :: rest).take 10).map CBlockIndex.getBlockTime := rfl
  have hfewer : below (getMedianTimePast (prev :: rest))
      (((prev :: rest).take 10).map CBlockIndex.getBlockTime) ≤
        below (getMedianTimePast (prev :: rest)) (pastTimes (prev :: rest)) := by
    refine below_sublist (List.Sublist.map _ ?_)
    exact (List.take_prefix_take_left (by decide)).sublist
  have hgrows : (pastTimes (prev :: rest)).length ≤ (pastTimes (pindex :: prev :: rest)).length := by
    rw [length_pastTimes, length_pastTimes, List.length_cons (a := pindex)]
    omega
  rw [hwindow, below_cons, if_neg (not_lt.mpr hlate), Nat.zero_add, ← hwindow]
  exact Nat.le_trans hfewer (Nat.le_trans hbefore (Nat.div_le_div_right hgrows))

theorem TimesOk.tail {pindex : CBlockIndex} {rest : BlockPtr} (h : TimesOk (pindex :: rest)) :
    TimesOk rest := by
  cases rest with
  | nil => trivial
  | cons prev rest => exact h.2

theorem TimesOk.of_append : ∀ {pre ptr : BlockPtr}, TimesOk (pre ++ ptr) → TimesOk ptr
  | [], _, h => h
  | _ :: _, _, h => of_append h.tail

end BlockPtr

/-- A block that `AcceptBlock` takes keeps the rule, whatever entry is made of it. -/
theorem CBlock.acceptChecks_times {P : Primitives} {g : Globals} {tree : BlockTree} {b : CBlock}
    {prev : CBlockIndex} {rest : BlockPtr} (h : acceptChecks P g tree b = .ok (prev :: rest))
    {pindex : CBlockIndex} (htime : pindex.nTime = b.nTime) (hrest : BlockPtr.TimesOk (prev :: rest)) :
    BlockPtr.TimesOk (pindex :: prev :: rest) := by
  have hsame : pindex.getBlockTime = b.getBlockTime := by
    unfold CBlockIndex.getBlockTime CBlockHeader.getBlockTime
    rw [htime]
  obtain ⟨-, _, _, heq, -, hplace⟩ := acceptChecks_ok h
  cases heq
  unfold checkPlace at hplace
  simp only [bind_ok, require_ok, exists_const, decide_eq_true_eq] at hplace
  obtain ⟨-, -, -, htimes, -⟩ := hplace
  rw [← hsame] at htimes
  exact ⟨htimes, hrest⟩

/-- **The median time never goes back**: on a chain where every block passed the checks of the time, at
    each block and for a window of any size. -/
theorem getMedianTimePast_mono {ptr : BlockPtr} (h : ptr.TimesOk) {pre : BlockPtr}
    {pindex prev : CBlockIndex} {rest : BlockPtr} (hptr : ptr = pre ++ pindex :: prev :: rest) :
    BlockPtr.getMedianTimePast (prev :: rest) ≤ BlockPtr.getMedianTimePast (pindex :: prev :: rest) := by
  rw [hptr] at h
  have hstep := h.of_append.1
  rw [not_or, not_le] at hstep
  exact BlockPtr.getMedianTimePast_step (Int.le_of_lt hstep.1)

/-- Where the last block is ten minutes older than the one before it. -/
theorem getMedianTimePast_mono_chain :
    BlockPtr.getMedianTimePast Stuck.chain.tail ≤ BlockPtr.getMedianTimePast Stuck.chain :=
  @getMedianTimePast_mono Stuck.chain (by decide) [] _ _ _ rfl

end Silkcoin
