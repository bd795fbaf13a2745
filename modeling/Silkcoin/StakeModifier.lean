/-
  How a new stake modifier is drawn, bit by bit.

  The candidates are the blocks of the selection interval, in the order of their times and hashes.  A round
  looks at those that no earlier round has taken.  The first of them is taken in any case; the loop then goes
  on while the times are within the round's share of the interval, and takes what has the least selection
  hash.  So of the candidates up to the stop the LEAST is selected, and where there is none, the EARLIEST of
  all (`Selects`, `selectBlockFromCandidates_selects`).

  There are never more rounds than candidates, so each round finds one that is left (`exists_fresh`): on a
  chain whose genesis generated a modifier nothing fails (`computeNextStakeModifier_draws`).  The map of all
  blocks is only asked for blocks of the chain.
-/
import Silkcoin.AddBlock
import Silkcoin.MainChain
import Mathlib.Data.List.Sort
import Mathlib.Data.List.Nodup

namespace Silkcoin

open Validation BatchStore

/-! ## Candidates -/

/-- What a candidate is sorted by. -/
def CBlockIndex.candidate (pindex : CBlockIndex) : Int × Uint256 := (pindex.getBlockTime, pindex.hashBlock)

/-- Every block of the chain is found under its hash. -/
def Indexed (mapBlockIndex : StdMap Uint256 BlockPtr) (chain : BlockPtr) : Prop :=
  ∀ p rest, p :: rest <:+ chain → mapBlockIndex.lookup p.hashBlock = some (p :: rest)

/-- The blocks of the selection interval, sorted. -/
def selectionBlocks (nSelectionIntervalStart : Int) (pindexPrev : BlockPtr) : List CBlockIndex :=
  (pindexPrev.takeWhile fun pindex => decide (pindex.getBlockTime ≥ nSelectionIntervalStart)).reverse.insertionSort
    fun a b => candidateLe a.candidate b.candidate

theorem stakeModifierCandidates_eq (nSelectionIntervalStart : Int) (pindexPrev : BlockPtr) :
    stakeModifierCandidates nSelectionIntervalStart pindexPrev =
      (selectionBlocks nSelectionIntervalStart pindexPrev).map CBlockIndex.candidate := by
  unfold stakeModifierCandidates selectionBlocks
  rw [← List.map_reverse]
  exact (List.map_insertionSort _ _ CBlockIndex.candidate _ fun a _ b _ => Iff.rfl).symm

theorem candidateLe_refl (a : Int × Uint256) : candidateLe a a := Or.inr ⟨rfl, BitVec.le_refl _⟩

theorem candidateLe.time_le {a b : Int × Uint256} (h : candidateLe a b) : a.1 ≤ b.1 := by
  rcases h with h | h
  · exact Int.le_of_lt h
  · exact Int.le_of_eq h.1

instance : Std.Total fun a b : CBlockIndex => candidateLe a.candidate b.candidate where
  total a b := by
    unfold candidateLe
    rcases Int.lt_trichotomy a.candidate.1 b.candidate.1 with h | h | h
    · exact Or.inl (Or.inl h)
    · rcases BitVec.le_total a.candidate.2 b.candidate.2 with h' | h'
      · exact Or.inl (Or.inr ⟨h, h'⟩)
      · exact Or.inr (Or.inr ⟨h.symm, h'⟩)
    · exact Or.inr (Or.inl h)

instance : IsTrans CBlockIndex fun a b => candidateLe a.candidate b.candidate where
  trans a b c hab hbc := by
    unfold candidateLe at *
    rcases hab with hab | ⟨hab, hab'⟩ <;> rcases hbc with hbc | ⟨hbc, hbc'⟩
    · exact Or.inl (by omega)
    · exact Or.inl (by omega)
    · exact Or.inl (by omega)
    · exact Or.inr ⟨hab.trans hbc, BitVec.le_trans hab' hbc'⟩

theorem selectionBlocks_sorted (nSelectionIntervalStart : Int) (pindexPrev : BlockPtr) :
    (selectionBlocks nSelectionIntervalStart pindexPrev).Pairwise
      fun a b => candidateLe a.candidate b.candidate := List.pairwise_insertionSort _ _

theorem mem_selectionBlocks {nSelectionIntervalStart : Int} {pindexPrev : BlockPtr} {c : CBlockIndex}
    (h : c ∈ selectionBlocks nSelectionIntervalStart pindexPrev) : c ∈ pindexPrev := by
  have hmem := (List.perm_insertionSort _ _).mem_iff.mp h
  exact (List.takeWhile_prefix _).mem (List.mem_reverse.mp hmem)

variable {H : KernelHashes} {mapBlockIndex : StdMap Uint256 BlockPtr} {chain : BlockPtr}

theorem Indexed.lookup_mem (h : Indexed mapBlockIndex chain) {c : CBlockIndex} (hc : c ∈ chain) :
    ∃ rest, mapBlockIndex.lookup c.hashBlock = some (c :: rest) := by
  obtain ⟨pre, rest, rfl⟩ := List.append_of_mem hc
  exact ⟨rest, h c rest ⟨pre, rfl⟩⟩

/-- The chains of a block tree are. -/
theorem NodeState.Rooted.indexed {s : NodeState} (hr : NodeState.Rooted s) (hin : NodeState.InTree s chain) :
    Indexed s.tree.mapBlockIndex chain :=
  fun _ _ hsuf => hr.lookup (hr.suffix hin hsuf (List.cons_ne_nil _ _))

/-- A block is on the chain once. -/
theorem Indexed.nodup (h : Indexed mapBlockIndex chain) : (chain.map CBlockIndex.hashBlock).Nodup := by
  induction chain with
  | nil => exact List.nodup_nil
  | cons p chain ih =>
    rw [List.map_cons, List.nodup_cons]
    refine ⟨fun hmem => ?_, ih fun q rest hq => h q rest (hq.trans (List.suffix_cons _ _))⟩
    obtain ⟨q, hq, heq⟩ := List.mem_map.mp hmem
    obtain ⟨pre, rest, rfl⟩ := List.append_of_mem hq
    have hlow := h q rest ⟨p :: pre, rfl⟩
    rw [heq, h p _ (List.suffix_refl _)] at hlow
    have := congrArg List.length (Option.some.inj hlow)
    simp only [List.length_cons, List.length_append] at this
    omega

theorem Indexed.selectionBlocks_nodup (h : Indexed mapBlockIndex chain) (nSelectionIntervalStart : Int) :
    ((selectionBlocks nSelectionIntervalStart chain).map CBlockIndex.hashBlock).Nodup := by
  have hsub : ((chain.takeWhile fun pindex =>
      decide (pindex.getBlockTime ≥ nSelectionIntervalStart)).map CBlockIndex.hashBlock).Nodup :=
    h.nodup.sublist ((List.takeWhile_prefix _).sublist.map _)
  refine (((List.perm_insertionSort _ _).trans (List.reverse_perm _)).map CBlockIndex.hashBlock).nodup_iff.mpr hsub

/-! ## One round -/

/-- What a round selects: of the candidates up to the stop that are left the one with the least selection
    hash (the first of several), and where there is none, the first of all that are left. -/
structure Selects (H : KernelHashes) (nStakeModifierPrev : BitVec 64) (candidates : List CBlockIndex)
    (taken : List Uint256) (nSelectionIntervalStop : Int) (b : CBlockIndex) : Prop where
  candidate : b ∈ candidates
  fresh : b.hashBlock ∉ taken
  least : ∀ c ∈ candidates, c.hashBlock ∉ taken → c.getBlockTime ≤ nSelectionIntervalStop →
    b.getBlockTime ≤ nSelectionIntervalStop ∧
      selectionHash H nStakeModifierPrev b ≤ selectionHash H nStakeModifierPrev c ∧
      (selectionHash H nStakeModifierPrev b = selectionHash H nStakeModifierPrev c →
        candidateLe b.candidate c.candidate)
  earliest : (∀ c ∈ candidates, c.hashBlock ∉ taken → nSelectionIntervalStop < c.getBlockTime) →
    ∀ c ∈ candidates, c.hashBlock ∉ taken → candidateLe b.candidate c.candidate

variable {nStakeModifier : BitVec 64} {taken : List Uint256} {nStop : Int}

/-- One step of the loop, at a block that is found. -/
theorem selectBlockFromCandidates_cons {best : Option (Uint256 × CBlockIndex)} {c : CBlockIndex}
    {rest : BlockPtr} (hc : mapBlockIndex.lookup c.hashBlock = some (c :: rest)) (items : List (Int × Uint256)) :
    selectBlockFromCandidates H mapBlockIndex taken nStop nStakeModifier best (c.candidate :: items) =
      if best.isSome ∧ c.getBlockTime > nStop then .ok best
      else if c.hashBlock ∈ taken then
        selectBlockFromCandidates H mapBlockIndex taken nStop nStakeModifier best items
      else
        selectBlockFromCandidates H mapBlockIndex taken nStop nStakeModifier
          (some (match best with
            | none => (selectionHash H nStakeModifier c, c)
            | some (hashBest, pindexBest) =>
              if selectionHash H nStakeModifier c < hashBest then (selectionHash H nStakeModifier c, c)
              else (hashBest, pindexBest))) items := by
  rw [selectBlockFromCandidates]
  dsimp only [CBlockIndex.candidate]
  generalize mapBlockIndex.lookup c.hashBlock = found at hc ⊢
  subst hc
  rfl

/-- Behind the first candidate: the least up to the stop, and the first of several. -/
theorem selectBlockFromCandidates_some {cs : List CBlockIndex}
    (hindexed : ∀ c ∈ cs, ∃ rest, mapBlockIndex.lookup c.hashBlock = some (c :: rest))
    (hsorted : cs.Pairwise fun a b => candidateLe a.candidate b.candidate) (b : CBlockIndex) :
    ∃ b', selectBlockFromCandidates H mapBlockIndex taken nStop nStakeModifier
        (some (selectionHash H nStakeModifier b, b)) (cs.map CBlockIndex.candidate) =
          .ok (some (selectionHash H nStakeModifier b', b')) ∧
      (b' = b ∨ b' ∈ cs ∧ b'.hashBlock ∉ taken ∧ b'.getBlockTime ≤ nStop ∧
        selectionHash H nStakeModifier b' < selectionHash H nStakeModifier b) ∧
      ∀ c ∈ cs, c.hashBlock ∉ taken → c.getBlockTime ≤ nStop →
        selectionHash H nStakeModifier b' ≤ selectionHash H nStakeModifier c ∧
        (selectionHash H nStakeModifier b' = selectionHash H nStakeModifier c →
          b' = b ∨ candidateLe b'.candidate c.candidate) := by
  induction cs generalizing b with
  | nil => exact ⟨b, rfl, Or.inl rfl, fun c hc => absurd hc (List.not_mem_nil)⟩
  | cons c cs ih =>
    obtain ⟨hfirst, hsorted⟩ := List.pairwise_cons.mp hsorted
    obtain ⟨⟨rest, hc⟩, hindexed⟩ := List.forall_mem_cons.mp hindexed
    replace ih := ih hindexed hsorted
    rw [List.map_cons, selectBlockFromCandidates_cons hc]
    by_cases hlate : c.getBlockTime > nStop
    · -- the candidates behind are later still
      rw [if_pos ⟨rfl, hlate⟩]
      refine ⟨b, rfl, Or.inl rfl, fun x hx _ hle => ?_⟩
      have hcx : c.getBlockTime ≤ x.getBlockTime := by
        rcases List.mem_cons.mp hx with rfl | hx
        · exact Int.le_refl _
        · exact (hfirst x hx).time_le
      omega
    · rw [if_neg (fun h => hlate h.2)]
      by_cases htaken : c.hashBlock ∈ taken
      · rw [if_pos htaken]
        obtain ⟨b', heq, hcase, hall⟩ := ih b
        refine ⟨b', heq, hcase.imp_right fun h => ⟨List.mem_cons_of_mem _ h.1, h.2⟩, fun x hx hfresh hle => ?_⟩
        rcases List.mem_cons.mp hx with rfl | hx
        · exact absurd htaken hfresh
        · exact hall x hx hfresh hle
      · rw [if_neg htaken]
        dsimp only
        by_cases hless : selectionHash H nStakeModifier c < selectionHash H nStakeModifier b
        · rw [if_pos hless]
          obtain ⟨b', heq, hcase, hall⟩ := ih c
          refine ⟨b', heq, Or.inr ?_, fun x hx hfresh hle => ?_⟩
          · rcases hcase with rfl | ⟨hmem, hfresh, hle, hlt⟩
            · exact ⟨List.mem_cons_self, htaken, by omega, hless⟩
            · exact ⟨List.mem_cons_of_mem _ hmem, hfresh, hle, BitVec.lt_trans hlt hless⟩
          · rcases List.mem_cons.mp hx with rfl | hx
            · rcases hcase with rfl | ⟨-, -, -, hlt⟩
              · exact ⟨BitVec.le_refl _, fun _ => Or.inr (candidateLe_refl _)⟩
              · exact ⟨BitVec.le_of_lt hlt, fun heq' => absurd (heq' ▸ hlt) (BitVec.lt_irrefl _)⟩
            · obtain ⟨hle', htie⟩ := hall x hx hfresh hle
              have hcx := hfirst x hx
              refine ⟨hle', fun heq' => Or.inr ?_⟩
              rcases htie heq' with rfl | hle''
              · exact hcx
              · exact hle''
        · rw [if_neg hless]
          obtain ⟨b', heq, hcase, hall⟩ := ih b
          refine ⟨b', heq, hcase.imp_right fun h => ⟨List.mem_cons_of_mem _ h.1, h.2⟩, fun x hx hfresh hle => ?_⟩
          rcases List.mem_cons.mp hx with rfl | hx
          · have hbx := BitVec.not_lt.mp hless
            rcases hcase with rfl | ⟨-, -, -, hlt⟩
            · exact ⟨hbx, fun _ => Or.inl rfl⟩
            · refine ⟨BitVec.le_trans (BitVec.le_of_lt hlt) hbx, fun heq' => ?_⟩
              rw [heq'] at hlt
              exact absurd hlt hless
          · exact hall x hx hfresh hle

/-- **One round**, where a candidate is left. -/
theorem selectBlockFromCandidates_selects {cs : List CBlockIndex}
    (hindexed : ∀ c ∈ cs, ∃ rest, mapBlockIndex.lookup c.hashBlock = some (c :: rest))
    (hsorted : cs.Pairwise fun a b => candidateLe a.candidate b.candidate)
    (hfresh : ∃ c ∈ cs, c.hashBlock ∉ taken) :
    ∃ b, selectBlockFromCandidates H mapBlockIndex taken nStop nStakeModifier none
        (cs.map CBlockIndex.candidate) = .ok (some (selectionHash H nStakeModifier b, b)) ∧
      Selects H nStakeModifier cs taken nStop b := by
  induction cs with
  | nil => exact absurd hfresh (by simp)
  | cons c cs ih =>
    obtain ⟨hfirst, hsorted'⟩ := List.pairwise_cons.mp hsorted
    obtain ⟨⟨rest, hc⟩, hindexed'⟩ := List.forall_mem_cons.mp hindexed
    rw [List.map_cons, selectBlockFromCandidates_cons hc, if_neg (fun h => by cases h.1)]
    by_cases htaken : c.hashBlock ∈ taken
    · rw [if_pos htaken]
      have hleft : ∃ x ∈ cs, x.hashBlock ∉ taken := by
        obtain ⟨x, hx, hfresh⟩ := hfresh
        rcases List.mem_cons.mp hx with rfl | hx
        · exact absurd htaken hfresh
        · exact ⟨x, hx, hfresh⟩
      obtain ⟨b, heq, hsel⟩ := ih hindexed' hsorted' hleft
      have hmem : ∀ x ∈ c :: cs, x.hashBlock ∉ taken → x ∈ cs := by
        intro x hx hfresh
        exact (List.mem_cons.mp hx).resolve_left fun h => hfresh (h ▸ htaken)
      exact ⟨b, heq, List.mem_cons_of_mem _ hsel.candidate, hsel.fresh,
        fun x hx hfresh hle => hsel.least x (hmem x hx hfresh) hfresh hle,
        fun hnone x hx hfresh => hsel.earliest (fun y hy => hnone y (List.mem_cons_of_mem _ hy)) x
          (hmem x hx hfresh) hfresh⟩
    · rw [if_neg htaken]
      obtain ⟨b, heq, hcase, hall⟩ := @selectBlockFromCandidates_some H mapBlockIndex nStakeModifier
        taken nStop cs hindexed' hsorted' c
      refine ⟨b, heq, ?_, ?_, fun x hx hfresh hle => ?_, fun hnone x hx hfresh => ?_⟩
      · rcases hcase with rfl | h
        · exact List.mem_cons_self
        · exact List.mem_cons_of_mem _ h.1
      · rcases hcase with rfl | h
        · exact htaken
        · exact h.2.1
      · have hcx : candidateLe c.candidate x.candidate := by
          rcases List.mem_cons.mp hx with rfl | hx
          · exact candidateLe_refl _
          · exact hfirst x hx
        have htime := hcx.time_le
        refine ⟨?_, ?_⟩
        · rcases hcase with rfl | h
          · exact Int.le_trans htime hle
          · exact h.2.2.1
        · rcases List.mem_cons.mp hx with rfl | hx
          · rcases hcase with rfl | ⟨-, -, -, hlt⟩
            · exact ⟨BitVec.le_refl _, fun _ => candidateLe_refl _⟩
            · exact ⟨BitVec.le_of_lt hlt, fun heq' => absurd (heq' ▸ hlt) (BitVec.lt_irrefl _)⟩
          · obtain ⟨hle', htie⟩ := hall x hx hfresh hle
            refine ⟨hle', fun heq' => ?_⟩
            rcases htie heq' with rfl | hle''
            · exact hcx
            · exact hle''
      · -- nothing is left up to the stop, so the loop took the first and ended
        rcases hcase with rfl | ⟨hmem, hfresh', hle, -⟩
        · rcases List.mem_cons.mp hx with rfl | hx
          · exact candidateLe_refl _
          · exact hfirst x hx
        · have := hnone b (List.mem_cons_of_mem _ hmem) hfresh'
          omega

/-- Fewer taken than there are candidates: one is left. -/
theorem exists_fresh {cs : List CBlockIndex} (hnd : (cs.map CBlockIndex.hashBlock).Nodup)
    (hlt : taken.length < cs.length) : ∃ c ∈ cs, c.hashBlock ∉ taken := by
  by_contra hall
  have hsub : cs.map CBlockIndex.hashBlock ⊆ taken := by
    intro hash hmem
    obtain ⟨c, hc, rfl⟩ := List.mem_map.mp hmem
    by_contra hfresh
    exact hall ⟨c, hc, hfresh⟩
  have := (hnd.subperm hsub).length_le
  rw [List.length_map] at this
  omega

/-- The loop asks the map for the candidates only. -/
theorem selectBlockFromCandidates_congr {map' : StdMap Uint256 BlockPtr} {cs : List CBlockIndex}
    (h : ∀ c ∈ cs, ∃ rest, mapBlockIndex.lookup c.hashBlock = some (c :: rest))
    (h' : ∀ c ∈ cs, ∃ rest, map'.lookup c.hashBlock = some (c :: rest)) (best : Option (Uint256 × CBlockIndex)) :
    selectBlockFromCandidates H map' taken nStop nStakeModifier best (cs.map CBlockIndex.candidate) =
      selectBlockFromCandidates H mapBlockIndex taken nStop nStakeModifier best
        (cs.map CBlockIndex.candidate) := by
  induction cs generalizing best with
  | nil => rfl
  | cons c cs ih =>
    obtain ⟨⟨rest, hc⟩, h⟩ := List.forall_mem_cons.mp h
    obtain ⟨⟨rest', hc'⟩, h'⟩ := List.forall_mem_cons.mp h'
    rw [List.map_cons, selectBlockFromCandidates_cons hc, selectBlockFromCandidates_cons hc', ih h h', ih h h']

/-! ## The rounds -/

/-- Where the share of the interval ends that `n` rounds have. -/
def roundStop (nSelectionIntervalStart : Int) (n : Nat) : Int :=
  nSelectionIntervalStart + ((List.range n).map getStakeModifierSelectionIntervalSection).sum

/-- What the rounds so far have drawn: `selected`, in their order. -/
structure Drawn (H : KernelHashes) (nStakeModifierPrev : BitVec 64) (candidates : List CBlockIndex)
    (nSelectionIntervalStart : Int) (s : ModifierRound) (selected : List CBlockIndex) : Prop where
  stop : s.nSelectionIntervalStop = roundStop nSelectionIntervalStart selected.length
  taken : s.mapSelectedBlocks = (selected.map CBlockIndex.hashBlock).reverse
  nodup : (selected.map CBlockIndex.hashBlock).Nodup
  selects : ∀ r (h : r < selected.length), Selects H nStakeModifierPrev candidates
    ((selected.take r).map CBlockIndex.hashBlock) (roundStop nSelectionIntervalStart (r + 1)) selected[r]
  bits : ∀ r, s.nStakeModifierNew.getLsbD r =
    ((selected[r]?).map fun b => decide (b.getStakeEntropyBit = 1)).getD false

theorem getStakeEntropyBit_cases (pindex : CBlockIndex) :
    pindex.getStakeEntropyBit = 0 ∨ pindex.getStakeEntropyBit = 1 := by
  have hle : pindex.getStakeEntropyBit.toNat ≤ 1 := by
    unfold CBlockIndex.getStakeEntropyBit
    rw [UInt32.toNat_shiftRight, UInt32.toNat_and]
    have hand : pindex.nFlags.toNat &&& CBlockIndex.BLOCK_STAKE_ENTROPY.toNat ≤ 2 := Nat.and_le_right
    show (pindex.nFlags.toNat &&& CBlockIndex.BLOCK_STAKE_ENTROPY.toNat) >>> 1 ≤ 1
    rw [Nat.shiftRight_one]
    omega
  rcases Nat.le_one_iff_eq_zero_or_eq_one.mp hle with h | h
  · exact Or.inl (UInt32.toNat_inj.mp h)
  · exact Or.inr (UInt32.toNat_inj.mp h)

/-- One bit, at its place. -/
theorem getLsbD_entropyBit (pindex : CBlockIndex) {n : Nat} (hn : n < 64) (r : Nat) :
    (BitVec.ofNat 64 pindex.getStakeEntropyBit.toNat <<< n).getLsbD r =
      (decide (r = n) && decide (pindex.getStakeEntropyBit = 1)) := by
  rw [BitVec.getLsbD_shiftLeft, BitVec.getLsbD_ofNat]
  rcases getStakeEntropyBit_cases pindex with h | h
  · rw [h]
    simp
  · rw [h]
    rcases Nat.lt_trichotomy r n with hlt | rfl | hlt
    · simp only [hlt, decide_true, Bool.not_true, Bool.and_false, Bool.false_and]
      rw [decide_eq_false (by omega), Bool.false_and]
    · simp [hn]
    · have hbit : Nat.testBit (1 : UInt32).toNat (r - n) = false := by
        rw [Bool.eq_false_iff]
        show ¬ Nat.testBit 1 (r - n) = true
        rw [Nat.testBit_one_eq_true_iff_self_eq_zero]
        omega
      rw [hbit, decide_eq_false (show ¬ r = n by omega)]
      simp

/-- STEP LEMMA: one round more, one block more. -/
theorem Drawn.round {cs : List CBlockIndex} {start : Int} {s : ModifierRound} {selected : List CBlockIndex}
    (h : Drawn H nStakeModifier cs start s selected)
    (hindexed : ∀ c ∈ cs, ∃ rest, mapBlockIndex.lookup c.hashBlock = some (c :: rest))
    (hsorted : cs.Pairwise fun a b => candidateLe a.candidate b.candidate)
    (hnd : (cs.map CBlockIndex.hashBlock).Nodup) (hlt : selected.length < cs.length)
    (hround : selected.length < 64) :
    ∃ b s', selectRound H mapBlockIndex (cs.map CBlockIndex.candidate) nStakeModifier s selected.length = .ok s' ∧
      Drawn H nStakeModifier cs start s' (selected ++ [b]) := by
  have hstop : s.nSelectionIntervalStop + getStakeModifierSelectionIntervalSection selected.length =
      roundStop start (selected.length + 1) := by
    rw [h.stop]
    unfold roundStop
    rw [List.range_succ, List.map_append, List.sum_append, List.map_singleton, List.sum_singleton]
    omega
  have hleft : ∃ c ∈ cs, c.hashBlock ∉ s.mapSelectedBlocks := by
    refine exists_fresh hnd ?_
    rw [h.taken, List.length_reverse, List.length_map]
    exact hlt
  obtain ⟨b, heq, hsel⟩ := @selectBlockFromCandidates_selects H mapBlockIndex nStakeModifier
    s.mapSelectedBlocks (roundStop start (selected.length + 1)) cs hindexed hsorted hleft
  have hmem : ∀ hash, hash ∈ s.mapSelectedBlocks ↔ hash ∈ selected.map CBlockIndex.hashBlock := by
    intro hash
    rw [h.taken, List.mem_reverse]
  refine ⟨b, ⟨s.nStakeModifierNew ||| BitVec.ofNat 64 b.getStakeEntropyBit.toNat <<< selected.length,
    roundStop start (selected.length + 1), b.hashBlock :: s.mapSelectedBlocks⟩, ?_, ?_⟩
  · unfold selectRound
    dsimp only
    rw [hstop, heq]
    rfl
  · refine ⟨?_, ?_, ?_, ?_, ?_⟩
    · rw [List.length_append, List.length_singleton]
    · show b.hashBlock :: s.mapSelectedBlocks = _
      rw [h.taken, List.map_append, List.reverse_append]
      rfl
    · rw [List.map_append, List.map_singleton, List.nodup_append]
      refine ⟨h.nodup, List.nodup_singleton _, fun x hx y hy => ?_⟩
      rw [List.mem_singleton] at hy
      subst hy
      rintro rfl
      exact hsel.fresh ((hmem _).mpr hx)
    · intro r hr
      rw [List.length_append, List.length_singleton] at hr
      rcases Nat.lt_or_ge r selected.length with hold | hnew
      · rw [List.getElem_append_left hold, List.take_append_of_le_length (Nat.le_of_lt hold)]
        exact h.selects r hold
      · obtain rfl : r = selected.length := by omega
        rw [List.getElem_append_right (Nat.le_refl _), List.take_left]
        simp only [Nat.sub_self, List.getElem_singleton]
        exact ⟨hsel.candidate, fun hb => hsel.fresh ((hmem _).mpr hb),
          fun c hc hfresh => hsel.least c hc fun hc' => hfresh ((hmem _).mp hc'),
          fun hnone c hc hfresh => hsel.earliest (fun x hx hx' => hnone x hx fun hx'' => hx' ((hmem _).mpr hx'')) c hc
            fun hc' => hfresh ((hmem _).mp hc')⟩
    · intro r
      show (s.nStakeModifierNew ||| BitVec.ofNat 64 b.getStakeEntropyBit.toNat <<< selected.length).getLsbD r = _
      rw [BitVec.getLsbD_or, getLsbD_entropyBit b hround, h.bits]
      rcases Nat.lt_trichotomy r selected.length with hold | rfl | hnew
      · rw [List.getElem?_append_left hold, decide_eq_false (by omega), Bool.false_and, Bool.or_false]
      · rw [List.getElem?_concat_length, List.getElem?_eq_none (Nat.le_refl _), decide_eq_true rfl, Bool.true_and]
        rfl
      · rw [List.getElem?_eq_none (by omega), List.getElem?_eq_none (by simp; omega), decide_eq_false (by omega)]
        rfl

/-- RUN LEMMA: as many rounds as are asked for, up to the number of candidates. -/
theorem exists_drawn {cs : List CBlockIndex} {start : Int}
    (hindexed : ∀ c ∈ cs, ∃ rest, mapBlockIndex.lookup c.hashBlock = some (c :: rest))
    (hsorted : cs.Pairwise fun a b => candidateLe a.candidate b.candidate)
    (hnd : (cs.map CBlockIndex.hashBlock).Nodup) {n : Nat} (hn : n ≤ min 64 cs.length) :
    ∃ s selected, (List.range n).foldlM
        (selectRound H mapBlockIndex (cs.map CBlockIndex.candidate) nStakeModifier) ⟨0, start, []⟩ = .ok s ∧
      selected.length = n ∧ Drawn H nStakeModifier cs start s selected := by
  induction n with
  | zero =>
    refine ⟨_, [], rfl, rfl, ?_, rfl, List.nodup_nil, fun r hr => absurd hr (Nat.not_lt_zero r), fun r => ?_⟩
    · show start = start + 0
      omega
    · exact BitVec.getLsbD_zero
  | succ n ih =>
    obtain ⟨s, selected, hrun, rfl, hdrawn⟩ := ih (by omega)
    obtain ⟨b, s', hstep, hdrawn'⟩ := hdrawn.round hindexed hsorted hnd (by omega) (by omega)
    refine ⟨s', selected ++ [b], ?_, by rw [List.length_append, List.length_singleton], hdrawn'⟩
    have hlast : [selected.length].foldlM (selectRound H mapBlockIndex (cs.map CBlockIndex.candidate)
        nStakeModifier) s = .ok s' := by
      rw [List.foldlM_cons, hstep]
      rfl
    rw [List.range_succ, List.foldlM_append, hrun]
    exact hlast

/-! ## `ComputeNextStakeModifier` -/

theorem exists_lastStakeModifier (hne : chain ≠ [])
    (hroot : ∀ genesis ∈ chain.getLast?, genesis.generatedStakeModifier = true) :
    ∃ m t, getLastStakeModifier chain = .ok (m, t) := by
  induction chain with
  | nil => exact absurd rfl hne
  | cons p rest ih =>
    cases rest with
    | nil => exact ⟨_, _, if_pos (hroot p rfl)⟩
    | cons q rest =>
      rw [getLastStakeModifier]
      by_cases hp : p.generatedStakeModifier = true
      · exact ⟨_, _, if_pos hp⟩
      · rw [if_neg hp]
        exact ih (List.cons_ne_nil _ _) hroot

/-- Where the selection interval starts for the block after `prev`. -/
def selectionIntervalStart (prev : CBlockIndex) : Int :=
  prev.getBlockTime.tdiv nModifierInterval * nModifierInterval - getStakeModifierSelectionInterval

theorem computeNextStakeModifier_cons {prev : CBlockIndex} {rest : BlockPtr} {m : BitVec 64} {t : Int}
    (hlast : getLastStakeModifier (prev :: rest) = .ok (m, t)) :
    computeNextStakeModifier H mapBlockIndex (prev :: rest) =
      if t.tdiv nModifierInterval ≥ prev.getBlockTime.tdiv nModifierInterval then .ok (m, false)
      else
        (List.range (min 64 (selectionBlocks (selectionIntervalStart prev) (prev :: rest)).length)).foldlM
          (selectRound H mapBlockIndex ((selectionBlocks (selectionIntervalStart prev) (prev :: rest)).map
            CBlockIndex.candidate) m) ⟨0, selectionIntervalStart prev, []⟩ >>= fun s =>
              .ok (s.nStakeModifierNew, true) := by
  unfold computeNextStakeModifier
  dsimp only
  rw [hlast, stakeModifierCandidates_eq, List.length_map]
  rfl

/-- **A NEW MODIFIER.**  On a chain whose genesis generated one, `ComputeNextStakeModifier` does not fail, and
    any map that has the blocks of the chain gives the same answer.  A modifier of an earlier interval is
    replaced: round by round the selected blocks are different candidates, each the one that `Selects` says,
    and the bits are their entropy bits. -/
theorem computeNextStakeModifier_draws (hindexed : Indexed mapBlockIndex chain)
    (hroot : ∀ genesis ∈ chain.getLast?, genesis.generatedStakeModifier = true) :
    (chain = [] → computeNextStakeModifier H mapBlockIndex chain = .ok (0, true)) ∧
    (∀ map', Indexed map' chain →
      computeNextStakeModifier H map' chain = computeNextStakeModifier H mapBlockIndex chain) ∧
    ∀ prev rest, chain = prev :: rest → ∃ m t, getLastStakeModifier chain = .ok (m, t) ∧
      (prev.getBlockTime.tdiv nModifierInterval ≤ t.tdiv nModifierInterval →
        computeNextStakeModifier H mapBlockIndex chain = .ok (m, false)) ∧
      (t.tdiv nModifierInterval < prev.getBlockTime.tdiv nModifierInterval →
        ∃ (selected : List CBlockIndex) (new : BitVec 64), computeNextStakeModifier H mapBlockIndex chain = .ok (new, true) ∧
          selected.length = min 64 (selectionBlocks (selectionIntervalStart prev) chain).length ∧
          (selected.map CBlockIndex.hashBlock).Nodup ∧
          (∀ r (h : r < selected.length), Selects H m (selectionBlocks (selectionIntervalStart prev) chain)
            ((selected.take r).map CBlockIndex.hashBlock) (roundStop (selectionIntervalStart prev) (r + 1))
            selected[r]) ∧
          ∀ r, new.getLsbD r = ((selected[r]?).map fun b => decide (b.getStakeEntropyBit = 1)).getD false) := by
  have hsel : ∀ start, ∀ c ∈ selectionBlocks start chain, c ∈ chain := fun start c hc => mem_selectionBlocks hc
  refine ⟨?_, ?_, ?_⟩
  · rintro rfl
    rfl
  · intro map' hindexed'
    have hround : ∀ start m, selectRound H map' ((selectionBlocks start chain).map CBlockIndex.candidate) m =
        selectRound H mapBlockIndex ((selectionBlocks start chain).map CBlockIndex.candidate) m := by
      intro start m
      funext s nRound
      unfold selectRound
      dsimp only
      rw [selectBlockFromCandidates_congr (fun c hc => hindexed.lookup_mem (hsel start c hc))
        (fun c hc => hindexed'.lookup_mem (hsel start c hc))]
    cases chain with
    | nil => rfl
    | cons prev rest =>
      obtain ⟨m, t, hlast⟩ := exists_lastStakeModifier (List.cons_ne_nil _ _) hroot
      rw [computeNextStakeModifier_cons hlast, computeNextStakeModifier_cons hlast, hround]
  · rintro prev rest rfl
    obtain ⟨m, t, hlast⟩ := exists_lastStakeModifier (List.cons_ne_nil _ _) hroot
    refine ⟨m, t, hlast, ?_, ?_⟩
    · intro hold
      rw [computeNextStakeModifier_cons hlast, if_pos hold]
    · intro hnew
      obtain ⟨s, selected, hrun, hlen, hdrawn⟩ := @exists_drawn H mapBlockIndex m
        (selectionBlocks (selectionIntervalStart prev) (prev :: rest)) (selectionIntervalStart prev)
        (fun c hc => hindexed.lookup_mem (hsel (selectionIntervalStart prev) c hc))
        (selectionBlocks_sorted _ _) (hindexed.selectionBlocks_nodup _) _ (Nat.le_refl _)
      refine ⟨selected, s.nStakeModifierNew, ?_, hlen, hdrawn.nodup, hdrawn.selects, hdrawn.bits⟩
      rw [computeNextStakeModifier_cons hlast, if_neg (by omega), hrun]
      rfl

namespace Switching

open Sample

/-- The proof hash itself as the selection hash. -/
def firstHashes : KernelHashes where
  selection hashProof _ := hashProof
  proof _ _ _ _ _ _ := 0
  checksum _ _ _ _ := 0

/-- `B3` is in another interval than genesis. -/
theorem computeNextStakeModifier_draws_B3 : ∃ (selected : List CBlockIndex) (new : BitVec 64),
    computeNextStakeModifier firstHashes tree.mapBlockIndex ptrB3 = .ok (new, true) ∧ selected.length = 4 ∧
      (selected.map CBlockIndex.hashBlock).Nodup := by
  have hindexed : Indexed tree.mapBlockIndex ptrB3 := treeOk.rooted.indexed ⟨hashB3, by decide⟩
  have hroot : ∀ g ∈ ptrB3.getLast?, g.generatedStakeModifier = true := by decide
  obtain ⟨-, -, hdraws⟩ := computeNextStakeModifier_draws (H := firstHashes) hindexed hroot
  obtain ⟨m, t, hlast, -, hnew⟩ := hdraws indexB3 ptrB3.tail rfl
  have hgenesis : getLastStakeModifier ptrB3 = .ok (0, 1398947338) := by decide
  rw [hgenesis] at hlast
  cases hlast
  obtain ⟨selected, new, hok, hlen, hnd, -⟩ := hnew (by decide)
  refine ⟨selected, new, hok, hlen.trans ?_, hnd⟩
  have hall : (selectionBlocks (selectionIntervalStart indexB3) ptrB3).length = 4 := by decide
  rw [hall]
  rfl

end Switching
end Silkcoin
