/-
  `LoadExternalBlockFile`: blocks out of a file that was not written by us.

  The file is searched for the MESSAGE START, 65536 bytes at a time.  What follows it is the size of a block
  and the block; a size out of its limits is passed over.  Behind a block that is accepted the search goes
  on behind its frame, and behind one that is refused it goes on behind the message start.  What cannot be
  read ends the import.

  1. The pieces that are read do not matter: what is found is the first message start (`findStart_found`,
     `findStart_quiet`), as long as the position fits into an `unsigned int` (`Addressable`).
  2. So the frames of a file that is laid out (`Layout`) are taken one after the other.  The layout says
     what is garbage: the bytes without a message start behind a frame, and, if the block is refused, the
     rest of the frame too.

  `fRequestShutdown` is not set.  `ProcessBlock` may be any function of the node and the block.
-/
import Silkcoin.DiskFiles
import Silkcoin.Lib.Marks

namespace Silkcoin

open Codec Incremental

/-- How `ProcessBlock` ends. -/
inductive Judged where
  | accepted
  | refused
  | thrown
deriving DecidableEq, Repr

/-- `ProcessBlock(NULL, &block)` -/
abbrev Processor (σ : Type) := σ → CBlock → Judged × σ

/-! ## The search -/

def memchr (l : List UInt8) (c : UInt8) (n : Nat) : Option Nat := (l.take n).findIdx? fun b => b == c

/-- One reading: the end, a message start and the position behind it, or where to read next. -/
inductive Find where
  | ended
  | found (nPos : UInt32)
  | on (nPos : UInt32)
deriving DecidableEq

section Search

variable (fTestNet : Bool) (data : List UInt8)

/-- The bytes from a position on. -/
def behind (nPos : UInt32) : List UInt8 := data.drop nPos.toNat

def findStep (nPos : UInt32) : Find :=
  let pchData := (behind data nPos).take 65536
  let nRead := pchData.length
  if nRead ≤ 8 then .ended
  else
    match memchr pchData ((pchMessageStart fTestNet).headD 0) (nRead + 1 - 4) with
    | some nFind =>
      if (pchData.drop nFind).take 4 = pchMessageStart fTestNet then .found (nPos + (UInt32.ofNat nFind + 4))
      else .on (nPos + (UInt32.ofNat nFind + 1))
    | none => .on (nPos + (65536 - 4 + 1))

/-- The `do` loop; `none` is a position of -1, and no answer is out of fuel. -/
def findStart : Nat → UInt32 → Option (Option UInt32)
  | 0, _ => none
  | fuel + 1, nPos =>
    match findStep fTestNet data nPos with
    | .ended => some none
    | .found nPos => some (some nPos)
    | .on nPos => findStart fuel nPos

end Search

/-! ## The import -/

/-- A size that is read on. -/
def InLimits (nSize : UInt32) : Prop := nSize > 0 ∧ nSize.toNat ≤ MAX_BLOCK_SIZE

instance (nSize : UInt32) : Decidable (InLimits nSize) := inferInstanceAs (Decidable (_ ∧ _))

/-- What stands at a message start: something that cannot be read, a size that is passed over, or a
    block. -/
inductive FrameRead where
  | failed
  | passed
  | block (nSize : UInt32) (b : CBlock)

/-- The blocks that were offered to `ProcessBlock`, `nLoaded`, and the node. -/
structure Imported (σ : Type) where
  offered : List CBlock
  nLoaded : Int
  node : σ
deriving DecidableEq

/-- What the function returns. -/
def Imported.returned {σ : Type} (r : Imported σ) : Bool := decide (r.nLoaded > 0)

/-- One more was offered before. -/
def Imported.before {σ : Type} (b : CBlock) (n : Int) (r : Imported σ) : Imported σ :=
  ⟨b :: r.offered, n + r.nLoaded, r.node⟩

section Import

variable {σ : Type} (Z : ObjectSizes) (fTestNet : Bool) (process : Processor σ) (data : List UInt8)

def readFrame (nPos : UInt32) : FrameRead :=
  match readUInt32.run ⟨behind data nPos, true⟩ with
  | none => .failed
  | some (nSize, s) =>
    if InLimits nSize then
      match (CBlock.unserialize Z SER_DISK).run s with
      | none => .failed
      | some (b, _) => .block nSize b
    else .passed

/-- The `while` loop. -/
def importLoop : Nat → σ → UInt32 → Option (Imported σ)
  | 0, _, _ => none
  | fuel + 1, node, nPos =>
    if nPos = 0xffffffff then some ⟨[], 0, node⟩
    else
      match findStart fTestNet data (data.length + 1) nPos with
      | none => none
      | some none => some ⟨[], 0, node⟩
      | some (some nPos) =>
        match readFrame Z data nPos with
        | .failed => some ⟨[], 0, node⟩
        | .passed => importLoop fuel node nPos
        | .block nSize b =>
          match process node b with
          | (.accepted, node) => (importLoop fuel node (nPos + (4 + nSize))).map (Imported.before b 1)
          | (.refused, node) => (importLoop fuel node nPos).map (Imported.before b 0)
          | (.thrown, node) => some ⟨[b], 0, node⟩

def loadExternalBlockFile (fuel : Nat) (node : σ) : Option (Imported σ) :=
  importLoop Z fTestNet process data fuel node 0

end Import

/-! ## The search finds the first message start -/

/-- Far enough below four gigabytes that no position wraps. -/
def Addressable (data : List UInt8) : Prop := data.length + 2 ^ 21 ≤ 2 ^ 32

section Search

variable {fTestNet : Bool} {data : List UInt8} {nPos : UInt32}

theorem length_messageStart : (pchMessageStart fTestNet).length = 4 := by cases fTestNet <;> rfl

theorem messageStart_ne_nil : pchMessageStart fTestNet ≠ [] := by cases fTestNet <;> decide

theorem messageStart_borderless : Borderless (pchMessageStart fTestNet) := by cases fTestNet <;> decide

/-- Where the message start begins, there is its first byte. -/
theorem first_of_prefix {l : List UInt8} {i : Nat} (h : pchMessageStart fTestNet <+: l.drop i) :
    l[i]? = some ((pchMessageStart fTestNet).headD 0) := by
  obtain ⟨rest, hrest⟩ := h
  have hhead : l[i]? = (l.drop i)[0]? := by rw [List.getElem?_drop, Nat.add_zero]
  rw [hhead, ← hrest]
  cases fTestNet <;> rfl

theorem memchr_some {l : List UInt8} {c : UInt8} {n k : Nat} (h : memchr l c n = some k) :
    k < n ∧ k < l.length ∧ ∀ j < k, l[j]? ≠ some c := by
  obtain ⟨hlt, -, hbefore⟩ := List.findIdx?_eq_some_iff_getElem.mp h
  rw [List.length_take] at hlt
  refine ⟨by omega, by omega, fun j hj heq => ?_⟩
  have hnot := hbefore j hj
  rw [List.getElem_take] at hnot
  rw [List.getElem?_eq_getElem (by omega), Option.some.injEq] at heq
  exact hnot (beq_iff_eq.mpr heq)

theorem memchr_none {l : List UInt8} {c : UInt8} {n : Nat} (h : memchr l c n = none) :
    ∀ j < n, l[j]? ≠ some c := by
  intro j hj heq
  have hnot := List.findIdx?_eq_none_iff.mp h c (by
    refine List.mem_of_getElem? (i := j) ?_
    rw [List.getElem?_take, if_pos hj]
    exact heq)
  exact absurd (beq_self_eq_true c) (by rw [hnot]; decide)

/-- What one reading says about the bytes from its position on. -/
def StepOk (fTestNet : Bool) (data : List UInt8) (nPos : UInt32) : Find → Prop
  | .ended => (behind data nPos).length ≤ 8
  | .found p => search (pchMessageStart fTestNet) (behind data nPos) + 4 ≤ (behind data nPos).length ∧
      p.toNat = nPos.toNat + search (pchMessageStart fTestNet) (behind data nPos) + 4
  | .on p => nPos.toNat < p.toNat ∧ p.toNat ≤ data.length + 65536 ∧
      (p.toNat ≤ nPos.toNat + search (pchMessageStart fTestNet) (behind data nPos) ∨
        (Quiet (pchMessageStart fTestNet) (behind data nPos) ∧ data.length ≤ p.toNat + 8))

/-- ONE READING. -/
theorem findStep_ok (hshort : Addressable data) : StepOk fTestNet data nPos (findStep fTestNet data nPos) := by
  have hlen : (behind data nPos).length = data.length - nPos.toNat := List.length_drop
  have hmark := @length_messageStart fTestNet
  have hshort : data.length + 2097152 ≤ 4294967296 := hshort
  have hadd : ∀ d : Nat, nPos.toNat + d < 4294967296 → (nPos + UInt32.ofNat d).toNat = nPos.toNat + d := by
    intro d hd
    rw [UInt32.toNat_add, UInt32.toNat_ofNat', Nat.mod_eq_of_lt (show d < 2 ^ 32 by omega)]
    exact Nat.mod_eq_of_lt hd
  unfold findStep
  generalize hl : behind data nPos = l at hlen
  dsimp only
  have hread : (l.take 65536).length = min 65536 l.length := List.length_take
  split
  · show (behind data nPos).length ≤ 8
    rw [hl]
    omega
  rename_i hmore
  -- no message start begins before the first byte like its own
  have hnone : ∀ k, k ≤ (l.take 65536).length → (∀ j < k, (l.take 65536)[j]? ≠
      some ((pchMessageStart fTestNet).headD 0)) → ∀ j < k, ¬ pchMessageStart fTestNet <+: l.drop j := by
    intro k hk hbefore j hj hprefix
    refine hbefore j hj ?_
    rw [List.getElem?_take, if_pos (by omega)]
    exact first_of_prefix hprefix
  split
  · rename_i nFind hfind
    obtain ⟨hbound, hin, hbefore⟩ := memchr_some hfind
    have hearlier := hnone nFind hin.le hbefore
    have hle : nFind ≤ search (pchMessageStart fTestNet) l := by
      by_contra hlt
      have hlt : search (pchMessageStart fTestNet) l < nFind := by omega
      exact hearlier _ hlt (prefix_drop_search (by omega))
    have hchunk : ((l.take 65536).drop nFind).take 4 = (l.drop nFind).take 4 := by
      rw [List.drop_take, List.take_take, min_eq_left (by omega)]
    rw [hchunk]
    have hiff : (l.drop nFind).take 4 = pchMessageStart fTestNet ↔ pchMessageStart fTestNet <+: l.drop nFind := by
      rw [List.prefix_iff_eq_take, hmark]
      exact eq_comm
    split
    · rename_i hhere
      have hsearch : search (pchMessageStart fTestNet) l = nFind :=
        search_eq (by omega) (hiff.mp hhere) hearlier
      show search _ (behind data nPos) + 4 ≤ (behind data nPos).length ∧ _
      rw [hl, hsearch]
      refine ⟨by omega, ?_⟩
      have hpos := hadd (nFind + 4) (by omega)
      rw [UInt32.ofNat_add] at hpos
      exact hpos
    · rename_i hnot
      have hpos := hadd (nFind + 1) (by omega)
      rw [UInt32.ofNat_add] at hpos
      have hpos : (nPos + (UInt32.ofNat nFind + 1)).toNat = nPos.toNat + (nFind + 1) := hpos
      show nPos.toNat < _ ∧ _ ≤ _ ∧ (_ ≤ nPos.toNat + search _ (behind data nPos) ∨ _)
      rw [hpos, hl]
      refine ⟨by omega, by omega, Or.inl ?_⟩
      have hne : search (pchMessageStart fTestNet) l ≠ nFind := by
        intro heq
        have hthere := @prefix_drop_search _ _ (pchMessageStart fTestNet) l (by omega)
        rw [heq] at hthere
        exact hnot (hiff.mpr hthere)
      omega
  · rename_i hfind
    have hearlier := hnone ((l.take 65536).length + 1 - 4) (by omega) (memchr_none hfind)
    have hpos : (nPos + (65536 - 4 + 1)).toNat = nPos.toNat + 65533 := hadd 65533 (by omega)
    show nPos.toNat < _ ∧ _ ≤ _ ∧ (_ ≤ nPos.toNat + search _ (behind data nPos) ∨
      (Quiet _ (behind data nPos) ∧ _))
    rw [hpos, hl]
    refine ⟨by omega, by omega, ?_⟩
    by_cases hfull : 65536 ≤ l.length
    · -- a whole piece: the last three bytes are read again
      left
      by_contra hlt
      refine hearlier (search (pchMessageStart fTestNet) l) (by omega) (prefix_drop_search (by omega))
    · right
      refine ⟨(quiet_iff messageStart_ne_nil).mpr fun i hprefix => ?_, by omega⟩
      have hfits := hprefix.length_le
      rw [List.length_drop, hmark] at hfits
      exact hearlier i (by omega) hprefix

/-- A MESSAGE START IS FOUND, unless the file ends behind the next four bytes. -/
theorem findStart_found (hshort : Addressable data) : ∀ (fuel : Nat) (nPos : UInt32),
    search (pchMessageStart fTestNet) (behind data nPos) + 4 ≤ (behind data nPos).length →
    search (pchMessageStart fTestNet) (behind data nPos) < fuel →
    (∃ p : UInt32, findStart fTestNet data fuel nPos = some (some p) ∧
      p.toNat = nPos.toNat + search (pchMessageStart fTestNet) (behind data nPos) + 4) ∨
    (findStart fTestNet data fuel nPos = some none ∧
      (behind data nPos).length ≤ search (pchMessageStart fTestNet) (behind data nPos) + 8) := by
  intro fuel
  induction fuel with
  | zero => exact fun nPos _ h => absurd h (Nat.not_lt_zero _)
  | succ fuel ih =>
    intro nPos hroom hfuel
    have hlen : (behind data nPos).length = data.length - nPos.toNat := List.length_drop
    have hok := @findStep_ok fTestNet data nPos hshort
    rw [findStart]
    rcases hstep : findStep fTestNet data nPos with _ | p | p
    · rw [hstep] at hok
      have hok : (behind data nPos).length ≤ 8 := hok
      exact Or.inr ⟨rfl, by omega⟩
    · rw [hstep] at hok
      exact Or.inl ⟨p, rfl, hok.2⟩
    · rw [hstep] at hok
      obtain ⟨hlt, -, hle | ⟨hquiet, -⟩⟩ := hok
      · -- the same message start, from further on
        have hdrop : behind data p = (behind data nPos).drop (p.toNat - nPos.toNat) := by
          unfold behind
          rw [List.drop_drop, Nat.add_sub_cancel' hlt.le]
        have hsame := @search_drop _ _ (pchMessageStart fTestNet) (behind data nPos) (p.toNat - nPos.toNat)
          (by omega)
        rw [← hdrop] at hsame
        have hlen' : (behind data p).length = data.length - p.toNat := List.length_drop
        rcases ih p (by omega) (by omega) with ⟨q, hq, hqpos⟩ | ⟨hend, hfew⟩
        · exact Or.inl ⟨q, hq, by omega⟩
        · exact Or.inr ⟨hend, by omega⟩
      · have hquiet : search (pchMessageStart fTestNet) (behind data nPos) = (behind data nPos).length := hquiet
        omega

/-- WITHOUT A MESSAGE START the search comes to the end. -/
theorem findStart_quiet (hshort : Addressable data) : ∀ (fuel : Nat) (nPos : UInt32),
    Quiet (pchMessageStart fTestNet) (behind data nPos) → (behind data nPos).length < fuel →
    findStart fTestNet data fuel nPos = some none := by
  intro fuel
  induction fuel with
  | zero => exact fun nPos _ h => absurd h (Nat.not_lt_zero _)
  | succ fuel ih =>
    intro nPos hquiet hfuel
    have hlen : (behind data nPos).length = data.length - nPos.toNat := List.length_drop
    have hok := @findStep_ok fTestNet data nPos hshort
    rw [findStart]
    rcases hstep : findStep fTestNet data nPos with _ | p | p
    · rfl
    · rw [hstep] at hok
      have hroom := hok.1
      have hquiet : search (pchMessageStart fTestNet) (behind data nPos) = (behind data nPos).length := hquiet
      omega
    · rw [hstep] at hok
      obtain ⟨hlt, -, -⟩ := hok
      have hdrop : behind data p = (behind data nPos).drop (p.toNat - nPos.toNat) := by
        unfold behind
        rw [List.drop_drop, Nat.add_sub_cancel' hlt.le]
      have hrest : Quiet (pchMessageStart fTestNet) (behind data p) := by
        rw [quiet_iff messageStart_ne_nil] at hquiet ⊢
        intro i
        rw [hdrop, List.drop_drop]
        exact hquiet _
      by_cases hmore : nPos.toNat < data.length
      · refine ih p hrest ?_
        have hlen' : (behind data p).length = data.length - p.toNat := List.length_drop
        omega
      · -- behind the end of the file nothing is read
        have hnil : findStep fTestNet data nPos = .ended := by
          unfold findStep behind
          rw [List.drop_eq_nil_of_le (by omega)]
          rfl
        rw [hnil] at hstep
        cases hstep

end Search

/-! ## Files that are laid out -/

/-- What stands at a message start that is not damaged: a block, or a size that no block has. -/
inductive Piece where
  | frame (b : CBlock)
  | sized (nSize : UInt32)

namespace Piece

/-- What follows the message start. -/
def body : Piece → List UInt8
  | .frame b => toLE 4 (b.nSerSize SER_DISK).toNat ++ b.serialize SER_DISK
  | .sized nSize => toLE 4 nSize.toNat

def bytes (fTestNet : Bool) (p : Piece) : List UInt8 := pchMessageStart fTestNet ++ p.body

def WellFormed : Piece → Prop
  | .frame b => b.Fits SER_DISK ∧ (b.serialize SER_DISK).length ≤ MAX_BLOCK_SIZE
  | .sized nSize => ¬ InLimits nSize

end Piece

/-- The pieces of a file, each with the bytes behind it. -/
def layout (fTestNet : Bool) (ps : List (Piece × List UInt8)) : List UInt8 :=
  ps.flatMap fun p => p.1.bytes fTestNet ++ p.2

/-- The blocks of a file, in file order. -/
def blocks (ps : List (Piece × List UInt8)) : List CBlock :=
  ps.filterMap fun p => match p.1 with
    | .frame b => some b
    | .sized _ => none

section Laid

variable {σ : Type} {Z : ObjectSizes} {fTestNet : Bool} {process : Processor σ} {tail : List UInt8}

/-- A frame that is damaged: its size is in the limits, but what follows cannot be read as a block. -/
def Damaged (Z : ObjectSizes) (fTestNet : Bool) (tail : List UInt8) : Prop :=
  ∃ nSize payload, tail = pchMessageStart fTestNet ++ (toLE 4 nSize.toNat ++ payload) ∧ InLimits nSize ∧
    (CBlock.unserialize Z SER_DISK).run ⟨payload, true⟩ = none

variable (Z fTestNet process tail)

/-- THE LAYOUT of what is still to be searched: quiet bytes, the pieces, and what the import ends at.  What
    is behind the message start of a block that is refused is searched too. -/
inductive Laid : σ → List UInt8 → List (Piece × List UInt8) → Prop
  | ended {node g} : Quiet (pchMessageStart fTestNet) g → (tail = [] ∨ Damaged Z fTestNet tail) →
      Laid node g []
  | accepted {node g b g' ps node'} : Quiet (pchMessageStart fTestNet) g → (Piece.frame b).WellFormed →
      process node b = (.accepted, node') → Laid node' g' ps → Laid node g ((.frame b, g') :: ps)
  | refused {node g b g' ps node'} : Quiet (pchMessageStart fTestNet) g → (Piece.frame b).WellFormed →
      process node b = (.refused, node') → Laid node' ((Piece.frame b).body ++ g') ps →
      Laid node g ((.frame b, g') :: ps)
  | thrown {node g b g' node'} : Quiet (pchMessageStart fTestNet) g → (Piece.frame b).WellFormed →
      process node b = (.thrown, node') → Laid node g [(.frame b, g')]
  | passed {node g nSize g' ps} : Quiet (pchMessageStart fTestNet) g → (Piece.sized nSize).WellFormed →
      Laid node ((Piece.sized nSize).body ++ g') ps → Laid node g ((.sized nSize, g') :: ps)

variable {Z fTestNet process tail}

theorem body_size {b : CBlock} (h : (Piece.frame b).WellFormed) :
    (b.nSerSize SER_DISK).toNat = (b.serialize SER_DISK).length ∧ 80 ≤ (b.serialize SER_DISK).length ∧
      (b.serialize SER_DISK).length ≤ 1000000 := by
  have hle : (b.serialize SER_DISK).length ≤ 1000000 := h.2
  have hw : withTransactions SER_DISK = true := rfl
  refine ⟨?_, ?_, hle⟩
  · rw [CBlock.nSerSize_eq hw, ← CBlock.length_serialize hw, UInt32.toNat_ofNat', Nat.mod_eq_of_lt (by omega)]
  · rw [CBlock.serialize_eq_header, List.length_append, CBlock.length_header]
    omega

/-- A well-formed frame is read back. -/
theorem readFrame_frame {data : List UInt8} {nPos : UInt32} {b : CBlock} {rest : List UInt8}
    (h : (Piece.frame b).WellFormed) (hpos : behind data nPos = (Piece.frame b).body ++ rest) :
    readFrame Z data nPos = .block (b.nSerSize SER_DISK) b := by
  obtain ⟨hsize, hmin, hmax⟩ := body_size h
  have hlimits : InLimits (b.nSerSize SER_DISK) := by
    refine ⟨UInt32.lt_iff_toNat_lt.mpr ?_, ?_⟩
    · rw [hsize]
      show 0 < _
      omega
    · rw [hsize]
      exact h.2
  have hread : readUInt32.run ⟨behind data nPos, true⟩ =
      some (b.nSerSize SER_DISK, ⟨b.serialize SER_DISK ++ rest, true⟩) := by
    rw [hpos]
    show readUInt32.run ⟨(toLE 4 _ ++ b.serialize SER_DISK) ++ rest, true⟩ = _
    rw [List.append_assoc]
    exact readUInt32_lawful.get_put _ trivial _ _
  have hblock := (CBlock.unserialize_lawful Z SER_DISK).get_put b h.1 rest true
  rw [readFrame, hread]
  dsimp only
  rw [if_pos hlimits, hblock]

theorem readFrame_sized {data : List UInt8} {nPos nSize : UInt32} {rest : List UInt8}
    (h : ¬ InLimits nSize) (hpos : behind data nPos = toLE 4 nSize.toNat ++ rest) :
    readFrame Z data nPos = .passed := by
  have hread : readUInt32.run ⟨behind data nPos, true⟩ = some (nSize, ⟨rest, true⟩) := by
    rw [hpos]
    exact readUInt32_lawful.get_put _ trivial _ _
  rw [readFrame, hread]
  dsimp only
  rw [if_neg h]

theorem readFrame_damaged {data : List UInt8} {nPos nSize : UInt32} {payload : List UInt8}
    (h : InLimits nSize) (hnone : (CBlock.unserialize Z SER_DISK).run ⟨payload, true⟩ = none)
    (hpos : behind data nPos = toLE 4 nSize.toNat ++ payload) : readFrame Z data nPos = .failed := by
  have hread : readUInt32.run ⟨behind data nPos, true⟩ = some (nSize, ⟨payload, true⟩) := by
    rw [hpos]
    exact readUInt32_lawful.get_put _ trivial _ _
  rw [readFrame, hread]
  dsimp only
  rw [if_pos h, hnone]

/-- The next message start is found, or the file ends behind it. -/
theorem find_mark {data : List UInt8} (hshort : Addressable data) {nPos : UInt32} {g r : List UInt8}
    (hpos : nPos.toNat ≤ data.length) (hquiet : Quiet (pchMessageStart fTestNet) g)
    (h : behind data nPos = g ++ (pchMessageStart fTestNet ++ r)) :
    (∃ p : UInt32, findStart fTestNet data (data.length + 1) nPos = some (some p) ∧
      p.toNat ≤ data.length ∧ behind data p = r) ∨
    (findStart fTestNet data (data.length + 1) nPos = some none ∧ r.length ≤ 4) := by
  have hsearch : search (pchMessageStart fTestNet) (behind data nPos) = g.length := by
    rw [h]
    exact search_quiet_append messageStart_ne_nil messageStart_borderless hquiet
  have hlen : (behind data nPos).length = data.length - nPos.toNat := List.length_drop
  have hparts : (behind data nPos).length = g.length + (4 + r.length) := by
    rw [h, List.length_append, List.length_append, length_messageStart]
  rcases @findStart_found fTestNet data hshort (data.length + 1) nPos (by omega) (by omega) with
    ⟨p, hfind, hp⟩ | ⟨hend, hfew⟩
  · refine Or.inl ⟨p, hfind, by omega, ?_⟩
    have hfront : (g ++ pchMessageStart fTestNet).length = p.toNat - nPos.toNat := by
      rw [List.length_append, length_messageStart]
      omega
    have hdrop : behind data p = (behind data nPos).drop (p.toNat - nPos.toNat) := by
      unfold behind
      rw [List.drop_drop, Nat.add_sub_cancel' (by omega)]
    rw [hdrop, h, ← List.append_assoc, ← hfront, List.drop_left]
  · exact Or.inr ⟨hend, by omega⟩

/-- Behind a frame there is its garbage. -/
theorem behind_frame {data : List UInt8} {p : UInt32} {b : CBlock} {rest : List UInt8} (hshort : Addressable data)
    (hb : (Piece.frame b).WellFormed) (hp : p.toNat ≤ data.length)
    (h : behind data p = (Piece.frame b).body ++ rest) :
    (p + (4 + b.nSerSize SER_DISK)).toNat ≤ data.length ∧ behind data (p + (4 + b.nSerSize SER_DISK)) = rest := by
  obtain ⟨hsize, -, hmax⟩ := body_size hb
  have hshort : data.length + 2097152 ≤ 4294967296 := hshort
  have hbody : (Piece.frame b).body.length = 4 + (b.nSerSize SER_DISK).toNat := by
    rw [Piece.body, List.length_append, length_toLE, hsize]
  have hpos : (p + (4 + b.nSerSize SER_DISK)).toNat = p.toNat + (4 + (b.nSerSize SER_DISK).toNat) := by
    have hfour : (4 + b.nSerSize SER_DISK).toNat = 4 + (b.nSerSize SER_DISK).toNat := by
      rw [UInt32.toNat_add]
      exact Nat.mod_eq_of_lt (show 4 + (b.nSerSize SER_DISK).toNat < 4294967296 by omega)
    rw [UInt32.toNat_add, hfour]
    exact Nat.mod_eq_of_lt (show _ < 4294967296 by omega)
  have hlen : (behind data p).length = data.length - p.toNat := List.length_drop
  rw [h, List.length_append] at hlen
  refine ⟨by omega, ?_⟩
  have hdrop : behind data (p + (4 + b.nSerSize SER_DISK)) =
      (behind data p).drop (4 + (b.nSerSize SER_DISK).toNat) := by
    unfold behind
    rw [List.drop_drop, hpos]
  rw [hdrop, h, ← hbody, List.drop_left]

theorem layout_cons_append (p : Piece × List UInt8) (ps : List (Piece × List UInt8)) :
    layout fTestNet (p :: ps) ++ tail =
      pchMessageStart fTestNet ++ (p.1.body ++ (p.2 ++ (layout fTestNet ps ++ tail))) := by
  rw [layout, List.flatMap_cons, Piece.bytes]
  simp only [List.append_assoc]
  rfl

/-- A well-formed frame is found and read. -/
theorem find_frame {data : List UInt8} (hshort : Addressable data) {nPos : UInt32} {g g' : List UInt8} {b : CBlock}
    {ps : List (Piece × List UInt8)} (hb : (Piece.frame b).WellFormed) (hpos : nPos.toNat ≤ data.length)
    (hquiet : Quiet (pchMessageStart fTestNet) g)
    (h : behind data nPos = g ++ (layout fTestNet ((.frame b, g') :: ps) ++ tail)) :
    ∃ p : UInt32, findStart fTestNet data (data.length + 1) nPos = some (some p) ∧ p.toNat ≤ data.length ∧
      behind data p = (Piece.frame b).body ++ (g' ++ (layout fTestNet ps ++ tail)) := by
  rw [layout_cons_append] at h
  rcases find_mark hshort hpos hquiet h with hfind | ⟨-, hfew⟩
  · exact hfind
  · obtain ⟨-, hmin, -⟩ := body_size hb
    rw [List.length_append, Piece.body, List.length_append] at hfew
    omega

/-- A FILE THAT IS LAID OUT: its blocks are offered, in file order, each once, and no others. -/
theorem importLoop_laid {data : List UInt8} (hshort : Addressable data) {node : σ} {g : List UInt8}
    {ps : List (Piece × List UInt8)} (h : Laid Z fTestNet process tail node g ps) :
    ∀ (fuel : Nat) (nPos : UInt32), nPos.toNat ≤ data.length →
      behind data nPos = g ++ (layout fTestNet ps ++ tail) → ps.length + 2 ≤ fuel →
      ∃ r, importLoop Z fTestNet process data fuel node nPos = some r ∧ r.offered = blocks ps := by
  have hgood : ∀ nPos : UInt32, nPos.toNat ≤ data.length → nPos ≠ 0xffffffff := by
    have hshort : data.length + 2097152 ≤ 4294967296 := hshort
    rintro nPos hpos rfl
    have hpos : 4294967295 ≤ data.length := hpos
    omega
  induction h with
  | @ended node g hquiet htail =>
    intro fuel nPos hpos hdata hfuel
    obtain ⟨fuel, rfl⟩ := Nat.exists_eq_add_of_le' (show 1 ≤ fuel by omega)
    rw [importLoop, if_neg (hgood nPos hpos)]
    rcases htail with rfl | ⟨nSize, payload, rfl, hlimits, hnone⟩
    · have hbehind : behind data nPos = g := by
        rw [hdata]
        show g ++ ([] ++ []) = g
        rw [List.append_nil, List.append_nil]
      have hlen : (behind data nPos).length = data.length - nPos.toNat := List.length_drop
      have hend := @findStart_quiet fTestNet data hshort (data.length + 1) nPos (by rw [hbehind]; exact hquiet)
        (by omega)
      rw [hend]
      exact ⟨_, rfl, rfl⟩
    · rcases find_mark hshort hpos hquiet hdata with ⟨p, hfind, -, hp⟩ | ⟨hend, -⟩
      · rw [hfind]
        dsimp only
        rw [readFrame_damaged hlimits hnone hp]
        exact ⟨_, rfl, rfl⟩
      · rw [hend]
        exact ⟨_, rfl, rfl⟩
  | @accepted node g b g' ps node' hquiet hb hprocess _ ih =>
    intro fuel nPos hpos hdata hfuel
    obtain ⟨fuel, rfl⟩ := Nat.exists_eq_add_of_le' (show 1 ≤ fuel by omega)
    obtain ⟨p, hfind, hp, hbehind⟩ := find_frame hshort hb hpos hquiet hdata
    -- the search goes on behind the frame
    obtain ⟨hnext, hrest⟩ := behind_frame hshort hb hp hbehind
    obtain ⟨r, hr, hoffered⟩ := ih fuel _ hnext hrest (by rw [List.length_cons] at hfuel; omega)
    refine ⟨r.before b 1, ?_, ?_⟩
    · rw [importLoop, if_neg (hgood nPos hpos), hfind]
      dsimp only
      rw [readFrame_frame hb hbehind]
      dsimp only
      rw [hprocess]
      dsimp only
      rw [hr]
      rfl
    · show b :: r.offered = b :: blocks ps
      rw [hoffered]
  | @refused node g b g' ps node' hquiet hb hprocess _ ih =>
    intro fuel nPos hpos hdata hfuel
    obtain ⟨fuel, rfl⟩ := Nat.exists_eq_add_of_le' (show 1 ≤ fuel by omega)
    obtain ⟨p, hfind, hp, hbehind⟩ := find_frame hshort hb hpos hquiet hdata
    -- the search goes on behind the message start
    obtain ⟨r, hr, hoffered⟩ := ih fuel p hp (by rw [hbehind, List.append_assoc])
      (by rw [List.length_cons] at hfuel; omega)
    refine ⟨r.before b 0, ?_, ?_⟩
    · rw [importLoop, if_neg (hgood nPos hpos), hfind]
      dsimp only
      rw [readFrame_frame hb hbehind]
      dsimp only
      rw [hprocess]
      dsimp only
      rw [hr]
      rfl
    · show b :: r.offered = b :: blocks ps
      rw [hoffered]
  | @thrown node g b g' node' hquiet hb hprocess =>
    intro fuel nPos hpos hdata hfuel
    obtain ⟨fuel, rfl⟩ := Nat.exists_eq_add_of_le' (show 1 ≤ fuel by omega)
    obtain ⟨p, hfind, -, hbehind⟩ := find_frame hshort hb hpos hquiet hdata
    refine ⟨⟨[b], 0, node'⟩, ?_, rfl⟩
    rw [importLoop, if_neg (hgood nPos hpos), hfind]
    dsimp only
    rw [readFrame_frame hb hbehind]
    dsimp only
    rw [hprocess]
  | @passed node g nSize g' ps hquiet hn _ ih =>
    intro fuel nPos hpos hdata hfuel
    obtain ⟨fuel, rfl⟩ := Nat.exists_eq_add_of_le' (show 1 ≤ fuel by omega)
    rw [layout_cons_append] at hdata
    have hparts : (Piece.sized nSize).body.length = 4 := length_toLE 4 nSize.toNat
    rw [importLoop, if_neg (hgood nPos hpos)]
    rcases find_mark hshort hpos hquiet hdata with ⟨p, hfind, hp, hbehind⟩ | ⟨hend, hfew⟩
    · obtain ⟨r, hr, hoffered⟩ := ih fuel p hp (by rw [hbehind, List.append_assoc])
        (by rw [List.length_cons] at hfuel; omega)
      refine ⟨r, ?_, hoffered⟩
      rw [hfind]
      dsimp only
      rw [readFrame_sized hn hbehind]
      exact hr
    · -- the size was the end of the file
      rw [hend]
      refine ⟨_, rfl, ?_⟩
      rcases ps with _ | ⟨q, ps⟩
      · rfl
      · rw [layout_cons_append] at hfew
        simp only [List.length_append, hparts, @length_messageStart fTestNet] at hfew
        omega

/-- THE IMPORT of a file that is laid out offers its blocks, in file order, each once, and no others. -/
theorem loadExternalBlockFile_laid (node : σ) (g : List UInt8) (ps : List (Piece × List UInt8))
    (hshort : Addressable (g ++ (layout fTestNet ps ++ tail))) (h : Laid Z fTestNet process tail node g ps)
    (fuel : Nat) (hfuel : ps.length + 2 ≤ fuel) :
    ∃ r, loadExternalBlockFile Z fTestNet process (g ++ (layout fTestNet ps ++ tail)) fuel node = some r ∧
      r.offered = blocks ps :=
  importLoop_laid hshort h fuel 0 (Nat.zero_le _) rfl hfuel

end Laid

namespace Importing

open Encoding

def always (how : Judged) : Processor Unit := fun _ _ => (how, ())

/-- The header of zeros is read, but no count begins with so large a number. -/
def damagedPayload : List UInt8 := List.replicate 80 0 ++ List.replicate 9 0xff

def damagedFrame : List UInt8 := pchMessageStart true ++ (toLE 4 89 ++ damagedPayload)

def shortFrame : List UInt8 := (Piece.frame shortBlock).bytes true

/-- A block that carries what looks like a damaged frame. -/
def carrier : CBlock := { shortBlock with vchBlockSig := damagedFrame }

theorem shortBlock_wellFormed : (Piece.frame shortBlock).WellFormed := ⟨shortBlock_fits, by decide +kernel⟩

theorem carrier_wellFormed : (Piece.frame carrier).WellFormed := by
  obtain ⟨hversion, hvtx, -, hheader⟩ := shortBlock_fits
  exact ⟨⟨hversion, hvtx, by decide, fun h => nomatch h⟩, by decide +kernel⟩

theorem damaged_tail : Damaged objectSizes true (damagedFrame ++ shortFrame) :=
  ⟨89, damagedPayload ++ shortFrame, rfl, by decide, by decide +kernel⟩

/-- A damaged frame ends the import, also as a part of a refused block, and so does an exception. -/
theorem damage_ends_import :
    (Piece.frame shortBlock).WellFormed ∧ (Piece.frame carrier).WellFormed ∧
    (CBlock.unserialize objectSizes SER_DISK).run ⟨damagedPayload, true⟩ = none ∧
    loadExternalBlockFile objectSizes true (always .accepted) (damagedFrame ++ shortFrame) 9 () =
      some ⟨[], 0, ()⟩ ∧
    loadExternalBlockFile objectSizes true (always .refused)
      ((Piece.frame carrier).bytes true ++ shortFrame) 9 () = some ⟨[carrier], 0, ()⟩ ∧
    loadExternalBlockFile objectSizes true (always .thrown) (shortFrame ++ shortFrame) 9 () =
      some ⟨[shortBlock], 0, ()⟩ :=
  ⟨shortBlock_wellFormed, carrier_wellFormed, by decide +kernel, by decide +kernel, by decide +kernel,
    by decide +kernel⟩

def pieces : List (Piece × List UInt8) := [(.sized 0, [1, 2]), (.frame shortBlock, [7])]

theorem laid_pieces :
    Laid objectSizes true (always .accepted) (damagedFrame ++ shortFrame) () [0xff] pieces :=
  .passed (by decide) (fun h => absurd h.1 (by decide)) <|
    .accepted (by decide) shortBlock_wellFormed rfl <| .ended (by decide) (Or.inr damaged_tail)

theorem short_pieces : Addressable ([0xff] ++ (layout true pieces ++ (damagedFrame ++ shortFrame))) := by
  show ([0xff] ++ (layout true pieces ++ (damagedFrame ++ shortFrame))).length + 2 ^ 21 ≤ 2 ^ 32
  decide +kernel

theorem pieces_imported :
    ∃ r, loadExternalBlockFile objectSizes true (always .accepted)
      ([0xff] ++ (layout true pieces ++ (damagedFrame ++ shortFrame))) 4 () = some r ∧
      r.offered = [shortBlock] :=
  loadExternalBlockFile_laid () [0xff] pieces short_pieces laid_pieces 4 (by decide)

end Importing

end Silkcoin
