/-
  MATURITY: from what depth on the output of a coinbase or a coinstake may be spent.

  `ConnectInputs` does not know the height a transaction was created at.  It walks back from the block, no
  more than `nCoinbaseMaturity` blocks, and looks if it comes by the disk position in the index entry.  On
  a chain whose blocks lie at different places that is exact (`immature_iff`).

  A null pointer for the block takes this test out of `ConnectInputs`, and nothing else.  So what maturity
  is to a transaction can be said as a difference: with the block it is accepted exactly if it is accepted
  without one and everything it spends is ripe (`connectInputs_mature_iff`).
-/
import Silkcoin.PoolConflicts

namespace Silkcoin

open Validation BatchStore SpendLedger

/-! ## The place of a block -/

def CBlockIndex.place (pindex : CBlockIndex) : UInt32 × UInt32 := (pindex.nFile, pindex.nBlockPos)

namespace BlockPtr

/-- Heights go down along `pprev`, and no two blocks lie at one place. -/
structure OwnPlaces (ptr : BlockPtr) : Prop where
  heights : ptr.Pairwise fun p q => q.nHeight < p.nHeight
  distinct : (ptr.map CBlockIndex.place).Nodup

/-- The block at `pos` is one of the chain, at this height. -/
def CreatedAt (ptr : BlockPtr) (pos : CDiskTxPos) (nHeight : Nat) : Prop :=
  ∃ pindex ∈ ptr, pindex.place = (pos.nFile, pos.nBlockPos) ∧ pindex.nHeight = nHeight

/-- A chain has one block at a place. -/
theorem CreatedAt.unique {ptr : BlockPtr} (hptr : OwnPlaces ptr) {pos : CDiskTxPos} {nHeight : Nat}
    (h : CreatedAt ptr pos nHeight) {pindex : CBlockIndex} (hmem : pindex ∈ ptr)
    (hplace : pindex.place = (pos.nFile, pos.nBlockPos)) : pindex.nHeight = nHeight := by
  obtain ⟨pindex', hmem', hplace', rfl⟩ := h
  rw [List.inj_on_of_nodup_map hptr.distinct hmem hmem' (hplace.trans hplace'.symm)]

end BlockPtr

/-- What `ConnectBlock` writes into the index entries of a block leads back to the block. -/
theorem createdAt_of_index {P : Primitives} {chain : Chain} {txdb : CTxDB} (hi : IndexOf P chain txdb)
    (base : BlockPtr) {hash : Uint256} {txindex : CTxIndex} (h : txdb.readTxIndex hash = some txindex) :
    ∃ c ∈ chain, (∃ tx ∈ c.block.vtx, P.getHash tx = hash) ∧
      (Chain.ptr base chain).CreatedAt txindex.pos c.pindex.nHeight := by
  obtain ⟨d, hd, hid, -, hpos, -⟩ := hi.refines.find_some h
  obtain ⟨r, hr, rfl⟩ := List.mem_map.mp hd
  obtain ⟨c, hc, hr⟩ := List.mem_flatMap.mp hr
  obtain ⟨p, hp, rfl⟩ := List.mem_map.mp (List.mem_reverse.mp hr)
  have hpos : txindex.pos = CBlock.txPosition c.pindex c.block p.1 := hpos
  refine ⟨c, hc, ⟨p.2, mem_splits_snd hp, hid⟩, c.pindex, ?_, ?_, rfl⟩
  · exact List.mem_append_left base (List.mem_map_of_mem hc)
  · rw [hpos]
    rfl

/-! ## The walk back -/

section

variable {P : Primitives} {g : Globals} {top : CBlockIndex} {below : BlockPtr}

/-- Heights go down, so the walk comes by every block that is not too deep. -/
theorem mem_walk (hptr : BlockPtr.OwnPlaces (top :: below)) {pindex : CBlockIndex} :
    pindex ∈ ((top :: below).takeWhile fun p => decide ((top.nHeight : Int) - p.nHeight < g.nCoinbaseMaturity)) ↔
      pindex ∈ top :: below ∧ (top.nHeight : Int) - pindex.nHeight < g.nCoinbaseMaturity := by
  have hwalk : ∀ l : BlockPtr, l.Pairwise (fun p q => q.nHeight < p.nHeight) →
      (pindex ∈ (l.takeWhile fun p => decide ((top.nHeight : Int) - p.nHeight < g.nCoinbaseMaturity)) ↔
        pindex ∈ l ∧ (top.nHeight : Int) - pindex.nHeight < g.nCoinbaseMaturity) := by
    intro l
    induction l with
    | nil => exact fun _ => ⟨fun h => absurd h List.not_mem_nil, fun h => absurd h.1 List.not_mem_nil⟩
    | cons p l ih =>
      intro hl
      obtain ⟨hp, hl⟩ := List.pairwise_cons.mp hl
      rw [List.takeWhile_cons]
      by_cases hnear : (top.nHeight : Int) - p.nHeight < g.nCoinbaseMaturity
      · rw [decide_eq_true hnear, if_pos rfl, List.mem_cons, List.mem_cons, ih hl]
        constructor
        · rintro (rfl | ⟨hmem, hlt⟩)
          · exact ⟨Or.inl rfl, hnear⟩
          · exact ⟨Or.inr hmem, hlt⟩
        · rintro ⟨rfl | hmem, hlt⟩
          · exact Or.inl rfl
          · exact Or.inr ⟨hmem, hlt⟩
      · -- here the walk ends, and what is left is deeper
        rw [decide_eq_false hnear, if_neg Bool.false_ne_true]
        refine ⟨fun h => absurd h List.not_mem_nil, ?_⟩
        rintro ⟨hmem, hlt⟩
        rcases List.mem_cons.mp hmem with rfl | hmem
        · exact absurd hlt hnear
        · have hdeep := hp pindex hmem
          omega
  exact hwalk _ hptr.heights

/-- The test finds an output exactly if its block is less than the maturity below the top. -/
theorem immature_iff (hptr : BlockPtr.OwnPlaces (top :: below)) {pos : CDiskTxPos} {nHeight : Nat}
    (hcreated : BlockPtr.CreatedAt (top :: below) pos nHeight) :
    CTransaction.immature g (top :: below) pos = true ↔ (top.nHeight : Int) - nHeight < g.nCoinbaseMaturity := by
  unfold CTransaction.immature
  dsimp only
  rw [List.any_eq_true]
  constructor
  · rintro ⟨pindex, hmem, hplace⟩
    obtain ⟨hmem, hlt⟩ := (mem_walk hptr).mp hmem
    obtain ⟨hpos, hfile⟩ := of_decide_eq_true hplace
    rwa [← hcreated.unique hptr hmem (Prod.ext hfile hpos)]
  · intro hlt
    obtain ⟨pindex, hmem, hplace, rfl⟩ := hcreated
    refine ⟨pindex, (mem_walk hptr).mpr ⟨hmem, hlt⟩, decide_eq_true ?_⟩
    exact ⟨congrArg Prod.snd hplace, congrArg Prod.fst hplace⟩

end

/-! ## `ConnectInputs` without the test -/

namespace CTransaction

variable {P : Primitives} {g : Globals} {tx : CTransaction} {inputs : MapPrevTx} {ptr : BlockPtr}

/-- The input spends an output of a coinbase or a coinstake, which has this index entry. -/
def SpendsReward (tx : CTransaction) (inputs : MapPrevTx) (txin : CTxIn) (txindex : CTxIndex) : Prop :=
  tx.isCoinBase = false ∧ txin ∈ tx.vin ∧ ∃ txPrev,
    inputs.lookup txin.prevout.hash = some (txindex, txPrev) ∧ (txPrev.isCoinBase ∨ txPrev.isCoinStake)

theorem checkInput_iff {nValueIn r : Int} {txin : CTxIn} :
    checkInput g tx inputs ptr nValueIn txin = .ok r ↔ checkInput g tx inputs [] nValueIn txin = .ok r ∧
      ∀ txindex txPrev, inputs.lookup txin.prevout.hash = some (txindex, txPrev) →
        (txPrev.isCoinBase ∨ txPrev.isCoinStake) → immature g ptr txindex.pos = false := by
  unfold checkInput
  cases hlookup : inputs.lookup txin.prevout.hash with
  | none =>
    dsimp only
    constructor
    · intro h
      cases h
    · rintro ⟨h, -⟩
      cases h
  | some entry =>
    obtain ⟨txindex, txPrev⟩ := entry
    dsimp only
    split
    · have hnone : immature g [] txindex.pos = false := rfl
      simp only [require_bind_ok, decide_eq_true_eq, hnone, Bool.false_eq_true, and_false, not_false_eq_true,
        true_and, Option.some.injEq, Prod.mk.injEq]
      constructor
      · rintro ⟨hripe, hrest⟩
        refine ⟨hrest, ?_⟩
        rintro _ _ ⟨rfl, rfl⟩ hreward
        rw [← Bool.not_eq_true]
        exact fun himmature => hripe ⟨hreward, himmature⟩
      · rintro ⟨hrest, hripe⟩
        refine ⟨?_, hrest⟩
        rintro ⟨hreward, himmature⟩
        rw [hripe _ _ ⟨rfl, rfl⟩ hreward] at himmature
        cases himmature
    · constructor
      · intro h
        cases h
      · rintro ⟨h, -⟩
        cases h

/-- The loop over the inputs. -/
theorem foldlM_checkInput_iff {r : Int} : ∀ {vin : List CTxIn} {nValueIn : Int},
    vin.foldlM (checkInput g tx inputs ptr) nValueIn = .ok r ↔
      vin.foldlM (checkInput g tx inputs []) nValueIn = .ok r ∧
        ∀ txin ∈ vin, ∀ txindex txPrev, inputs.lookup txin.prevout.hash = some (txindex, txPrev) →
          (txPrev.isCoinBase ∨ txPrev.isCoinStake) → immature g ptr txindex.pos = false
  | [], nValueIn => by
    rw [List.foldlM_nil, List.foldlM_nil]
    exact ⟨fun h => ⟨h, fun txin htxin => absurd htxin List.not_mem_nil⟩, fun h => h.1⟩
  | txin :: vin, nValueIn => by
    rw [List.foldlM_cons, List.foldlM_cons, List.forall_mem_cons]
    constructor
    · intro h
      obtain ⟨n, hstep, hrest⟩ := bind_ok.mp h
      obtain ⟨hstep, hripe⟩ := checkInput_iff.mp hstep
      obtain ⟨hrest, hripes⟩ := foldlM_checkInput_iff.mp hrest
      exact ⟨bind_ok.mpr ⟨n, hstep, hrest⟩, hripe, hripes⟩
    · rintro ⟨h, hripe, hripes⟩
      obtain ⟨n, hstep, hrest⟩ := bind_ok.mp h
      exact bind_ok.mpr ⟨n, checkInput_iff.mpr ⟨hstep, hripe⟩, foldlM_checkInput_iff.mpr ⟨hrest, hripes⟩⟩

theorem connectInputs_iff {pool r : QueuedChanges} {posThisTx : CDiskTxPos} {fBlock fMiner : Bool} :
    tx.connectInputs P g inputs pool posThisTx ptr fBlock fMiner = .ok r ↔
      tx.connectInputs P g inputs pool posThisTx [] fBlock fMiner = .ok r ∧
        ∀ txin txindex, SpendsReward tx inputs txin txindex → immature g ptr txindex.pos = false := by
  unfold connectInputs SpendsReward
  by_cases hcb : tx.isCoinBase = true
  · rw [if_pos hcb, if_pos hcb]
    refine ⟨fun h => ⟨h, ?_⟩, fun h => h.1⟩
    rintro txin txindex ⟨hf, -⟩
    rw [hcb] at hf
    cases hf
  · rw [if_neg hcb, if_neg hcb]
    constructor
    · intro h
      obtain ⟨n, hloop, hrest⟩ := bind_ok.mp h
      obtain ⟨hloop, hripe⟩ := foldlM_checkInput_iff.mp hloop
      refine ⟨bind_ok.mpr ⟨n, hloop, hrest⟩, ?_⟩
      rintro txin txindex ⟨-, htxin, txPrev, hlookup, hreward⟩
      exact hripe txin htxin txindex txPrev hlookup hreward
    · rintro ⟨h, hripe⟩
      obtain ⟨n, hloop, hrest⟩ := bind_ok.mp h
      refine bind_ok.mpr ⟨n, foldlM_checkInput_iff.mpr ⟨hloop, ?_⟩, hrest⟩
      intro txin htxin txindex txPrev hlookup hreward
      exact hripe txin txindex ⟨Bool.eq_false_of_not_eq_true hcb, htxin, txPrev, hlookup, hreward⟩

end CTransaction

/-- **Maturity is enforced exactly.**  Let each reward that is spent be created at some height of the chain
    under `top`.  Then `ConnectInputs` refuses what it would accept without the block just where one of
    them is less than `nCoinbaseMaturity` below the top; and with the tip for the block so does the memory
    pool. -/
theorem connectInputs_mature_iff {P : Primitives} {g : Globals} {top : CBlockIndex} {below : BlockPtr}
    (hptr : BlockPtr.OwnPlaces (top :: below)) {tx : CTransaction} {inputs : MapPrevTx}
    {nHeightOf : CTxIn → Nat} (hcreated : ∀ txin txindex, tx.SpendsReward inputs txin txindex →
      BlockPtr.CreatedAt (top :: below) txindex.pos (nHeightOf txin)) :
    (∀ pool posThisTx fBlock fMiner r,
      tx.connectInputs P g inputs pool posThisTx (top :: below) fBlock fMiner = .ok r ↔
        tx.connectInputs P g inputs pool posThisTx [] fBlock fMiner = .ok r ∧
        ∀ txin txindex, tx.SpendsReward inputs txin txindex →
          (top.nHeight : Int) - nHeightOf txin ≥ g.nCoinbaseMaturity) ∧
    (∀ relay txdb, g.pindexBest = top :: below → tx.fetchInputs g txdb ∅ false false = .ok inputs →
      (CTxMemPool.checkInputs P relay g txdb tx = .ok () ↔
        CTxMemPool.checkInputs P relay { g with pindexBest := [] } txdb tx = .ok () ∧
        ∀ txin txindex, tx.SpendsReward inputs txin txindex →
          (top.nHeight : Int) - nHeightOf txin ≥ g.nCoinbaseMaturity)) := by
  have hripe : (∀ txin txindex, tx.SpendsReward inputs txin txindex →
      CTransaction.immature g (top :: below) txindex.pos = false) ↔
      ∀ txin txindex, tx.SpendsReward inputs txin txindex →
        (top.nHeight : Int) - nHeightOf txin ≥ g.nCoinbaseMaturity := by
    refine forall_congr' fun txin => forall_congr' fun txindex => imp_congr_right fun hspends => ?_
    rw [← Bool.not_eq_true, immature_iff hptr (hcreated txin txindex hspends), not_lt]
  refine ⟨fun pool posThisTx fBlock fMiner r => ?_, fun relay txdb hbest hfetch => ?_⟩
  · rw [CTransaction.connectInputs_iff, hripe]
  · have hfetch' : tx.fetchInputs { g with pindexBest := [] } txdb ∅ false false = .ok inputs := hfetch
    -- nothing else in the check looks at the block
    have hcalls : ∀ r : QueuedChanges,
        tx.connectInputs P g inputs ∅ CDiskTxPos.memoryPool g.pindexBest false false = .ok r ↔
          tx.connectInputs P { g with pindexBest := [] } inputs ∅ CDiskTxPos.memoryPool [] false false = .ok r ∧
          ∀ txin txindex, tx.SpendsReward inputs txin txindex →
            (top.nHeight : Int) - nHeightOf txin ≥ g.nCoinbaseMaturity := by
      intro r
      rw [hbest, CTransaction.connectInputs_iff, hripe]
      exact Iff.rfl
    unfold CTxMemPool.checkInputs
    simp only [hfetch, hfetch', bind_ok, orFail_ok, pure_ok, Except.ok.injEq, exists_eq_left', hcalls]
    constructor
    · rintro ⟨u, hstandard, nIn, hIn, nOut, hOut, v, hfee, w, hlimiter, r, ⟨hconnect, hmature⟩, -⟩
      exact ⟨⟨u, hstandard, nIn, hIn, nOut, hOut, v, hfee, w, hlimiter, r, hconnect, trivial⟩, hmature⟩
    · rintro ⟨⟨u, hstandard, nIn, hIn, nOut, hOut, v, hfee, w, hlimiter, r, hconnect, -⟩, hmature⟩
      exact ⟨u, hstandard, nIn, hIn, nOut, hOut, v, hfee, w, hlimiter, r, ⟨hconnect, hmature⟩, trivial⟩

/-! ## At the edge -/

namespace Ripening

/-- The coinbase of the first block, as it is fetched. -/
def firstReward : MapPrevTx := AList.insert hashCoinBaseK1
  (CTxIndex.new ⟨1, 300, 381⟩ 1, ((chainK11.getLast?).bind fun c => c.block.vtx.head?).getD tx) ∅

theorem ownPlaces_ptrK11 : BlockPtr.OwnPlaces ptrK11 := ⟨by decide, by decide⟩

/-- With the tip ten blocks above the coinbase, it can be spent. -/
theorem connectInputs_mature_iff_K11 : BlockPtr.OwnPlaces ptrK11 ∧ (∀ pool posThisTx fBlock fMiner r,
    tx.connectInputs primitives tipK11.globals firstReward pool posThisTx ptrK11 fBlock fMiner = .ok r ↔
      tx.connectInputs primitives tipK11.globals firstReward pool posThisTx [] fBlock fMiner = .ok r ∧
      ∀ txin txindex, tx.SpendsReward firstReward txin txindex →
        (11 : Int) - 1 ≥ tipK11.globals.nCoinbaseMaturity) := by
  have hcreated : ∀ txin txindex, tx.SpendsReward firstReward txin txindex →
      BlockPtr.CreatedAt ptrK11 txindex.pos ((fun _ => 1) txin) := by
    rintro txin txindex ⟨-, htxin, txPrev, hlookup, -⟩
    obtain rfl := List.mem_singleton.mp htxin
    have hlookup : ((∅ : MapPrevTx).insert hashCoinBaseK1 _).lookup hashCoinBaseK1 =
        some (txindex, txPrev) := hlookup
    rw [AList.lookup_insert] at hlookup
    obtain ⟨rfl, -⟩ := Prod.mk.inj (Option.some.inj hlookup)
    have hblock : ∃ pindex ∈ ptrK11, pindex.place = (1, 300) ∧ pindex.nHeight = 1 := by decide
    exact hblock
  exact ⟨ownPlaces_ptrK11, (connectInputs_mature_iff ownPlaces_ptrK11 hcreated).1⟩

end Ripening
end Silkcoin
