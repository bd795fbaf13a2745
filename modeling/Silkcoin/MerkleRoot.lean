/-
  The merkle root of a block commits to its transactions.

  `BuildMerkleTree` pairs the last node of an odd level with itself, so two lists of transactions can
  have one root: repeat the transactions at the end.  `CheckBlock` refuses a block with a transaction
  twice, and that is enough: among the blocks it accepts, the root determines the list of txids
  (`txids_eq_of_checkBlock`).
-/
import Silkcoin.Lib.MerkleTree
import Silkcoin.PoolConflicts

namespace Silkcoin

open Validation

namespace CBlock

variable (P : Primitives)

/-- The pairs of hashes that `BuildMerkleTree` hashes. -/
def merklePairs (b : CBlock) : List (Uint256 × Uint256) :=
  MerkleTree.hashedPairs P.hashPair b.vtx.length (b.vtx.map P.getHash)

theorem merkleLevel_eq : ∀ l : List Uint256, merkleLevel P l = MerkleTree.levelUp P.hashPair l
  | [] => rfl
  | [_] => rfl
  | h₁ :: h₂ :: l => congrArg (P.hashPair h₁ h₂ :: ·) (merkleLevel_eq l)

theorem merkleRoot_eq : ∀ (fuel : Nat) (l : List Uint256),
    merkleRoot P fuel l = MerkleTree.root P.hashPair 0 fuel l
  | fuel, [] => by cases fuel <;> rfl
  | fuel, [_] => by cases fuel <;> rfl
  | 0, _ :: _ :: _ => rfl
  | fuel + 1, h₁ :: h₂ :: l => by
    show merkleRoot P fuel (merkleLevel P (h₁ :: h₂ :: l)) = _
    rw [merkleLevel_eq, merkleRoot_eq fuel]
    rfl

variable {P} {b₁ b₂ : CBlock}

/-- Without a transaction twice, the root determines the txids. -/
theorem txids_eq_of_root_eq
    (hinj : Set.InjOn (fun p : Uint256 × Uint256 => P.hashPair p.1 p.2)
      { p | p ∈ merklePairs P b₁ ∨ p ∈ merklePairs P b₂ })
    (hleaf : ∀ p, (p ∈ merklePairs P b₁ ∨ p ∈ merklePairs P b₂) → ∀ tx, (tx ∈ b₁.vtx ∨ tx ∈ b₂.vtx) →
      P.hashPair p.1 p.2 ≠ P.getHash tx)
    (hne₁ : b₁.vtx ≠ []) (hne₂ : b₂.vtx ≠ []) (hnd₁ : (b₁.vtx.map P.getHash).Nodup)
    (hnd₂ : (b₂.vtx.map P.getHash).Nodup) (hroot : b₁.buildMerkleTree P = b₂.buildMerkleTree P) :
    b₁.vtx.map P.getHash = b₂.vtx.map P.getHash := by
  have hL : ∀ p ∈ { p | p ∈ merklePairs P b₁ ∨ p ∈ merklePairs P b₂ },
      P.hashPair p.1 p.2 ∉ { h | h ∈ b₁.vtx.map P.getHash ∨ h ∈ b₂.vtx.map P.getHash } := by
    rintro p hp (hh | hh)
    · obtain ⟨tx, htx, heq⟩ := List.mem_map.mp hh
      exact hleaf p hp tx (Or.inl htx) heq.symm
    · obtain ⟨tx, htx, heq⟩ := List.mem_map.mp hh
      exact hleaf p hp tx (Or.inr htx) heq.symm
  unfold buildMerkleTree at hroot
  rw [merkleRoot_eq, merkleRoot_eq] at hroot
  exact MerkleTree.eq_of_root_eq hinj hL (fun h => hne₁ (List.map_eq_nil_iff.mp h))
    (fun h => hne₂ (List.map_eq_nil_iff.mp h)) (by rw [List.length_map]; omega)
    (by rw [List.length_map]; omega) (fun p hp => Or.inl hp) (fun p hp => Or.inr hp)
    (fun h hh => MerkleTree.AtHeight.leaf (Or.inl hh)) (fun h hh => MerkleTree.AtHeight.leaf (Or.inr hh))
    hnd₁ hnd₂ hroot

theorem BlockChecked.vtx_ne_nil {b : CBlock} (h : b.BlockChecked P) : b.vtx ≠ [] := by
  obtain ⟨coinBase, rest, hvtx, -, -⟩ := h.coinbase
  rw [hvtx]
  exact List.cons_ne_nil _ _

/-- A block checked with its root has the root of its transactions. -/
theorem checkBlock_root {g : Globals} {b : CBlock} {fCheckPOW fCheckSig : Bool} {u : Unit}
    (h : checkBlock P g b fCheckPOW true fCheckSig = .ok u) :
    b.hashMerkleRoot = b.buildMerkleTree P := by
  unfold checkBlock at h
  simp only [bind_ok, require_ok, exists_const] at h
  obtain ⟨-, _, -, -, h⟩ := h
  cases hvtx : b.vtx with
  | nil => rw [hvtx] at h; cases h
  | cons coinBase rest =>
    rw [hvtx] at h
    simp only [bind_ok, require_ok, exists_const] at h
    obtain ⟨-, -, -, _, -, _, -, -, -, hroot⟩ := h
    simpa using hroot

/-- **THE ROOT IS NOT MALLEABLE.**  Two blocks that pass `CheckBlock`, whichever of its optional checks
    are made, and whose trees have one root, have the same txids in the same order; so have two that
    pass it with the root checked under one header. -/
theorem txids_eq_of_checkBlock {g₁ g₂ : Globals} {fPOW₁ fRoot₁ fSig₁ fPOW₂ fRoot₂ fSig₂ : Bool}
    (hinj : Set.InjOn (fun p : Uint256 × Uint256 => P.hashPair p.1 p.2)
      { p | p ∈ merklePairs P b₁ ∨ p ∈ merklePairs P b₂ })
    (hleaf : ∀ p, (p ∈ merklePairs P b₁ ∨ p ∈ merklePairs P b₂) → ∀ tx, (tx ∈ b₁.vtx ∨ tx ∈ b₂.vtx) →
      P.hashPair p.1 p.2 ≠ P.getHash tx)
    (h₁ : checkBlock P g₁ b₁ fPOW₁ fRoot₁ fSig₁ = .ok ())
    (h₂ : checkBlock P g₂ b₂ fPOW₂ fRoot₂ fSig₂ = .ok ()) :
    (b₁.buildMerkleTree P = b₂.buildMerkleTree P → b₁.vtx.map P.getHash = b₂.vtx.map P.getHash) ∧
    (fRoot₁ = true → fRoot₂ = true → b₁.toCBlockHeader = b₂.toCBlockHeader →
      b₁.vtx.map P.getHash = b₂.vtx.map P.getHash) := by
  have hc₁ := b₁.checkBlock_ok P g₁ h₁
  have hc₂ := b₂.checkBlock_ok P g₂ h₂
  have hmain : b₁.buildMerkleTree P = b₂.buildMerkleTree P →
      b₁.vtx.map P.getHash = b₂.vtx.map P.getHash :=
    txids_eq_of_root_eq hinj hleaf hc₁.vtx_ne_nil hc₂.vtx_ne_nil hc₁.distinct hc₂.distinct
  refine ⟨hmain, ?_⟩
  rintro rfl rfl hheader
  have hfield : b₁.hashMerkleRoot = b₂.hashMerkleRoot := congrArg CBlockHeader.hashMerkleRoot hheader
  apply hmain
  rw [← checkBlock_root h₁, ← checkBlock_root h₂]
  exact hfield

end CBlock

/-! ## Two blocks under one root -/

namespace Ripening

/-- The twelfth block before its nonce was found. -/
def unminedK12 : CBlock := { blockK12 with nNonce := 0 }

/-- Both trees hash one pair. -/
theorem merklePairs_K12 {p : Uint256 × Uint256}
    (hp : p ∈ CBlock.merklePairs primitives blockK12 ∨ p ∈ CBlock.merklePairs primitives unminedK12) :
    p = (primitives.getHash coinBaseK12, primitives.getHash rival) := by
  rcases hp with hp | hp <;> exact List.mem_singleton.mp hp

/-- Both are checked without their work, one of them without its root. -/
theorem txids_unminedK12 :
    blockK12.vtx.map primitives.getHash = unminedK12.vtx.map primitives.getHash := by
  have h₁ : CBlock.checkBlock primitives withTx.globals blockK12 false true true = .ok () := by
    decide
  have h₂ : CBlock.checkBlock primitives withTx.globals unminedK12 false false true = .ok () := by
    decide
  refine (CBlock.txids_eq_of_checkBlock ?_ ?_ h₁ h₂).1 rfl
  · intro p hp q hq _
    rw [merklePairs_K12 hp, merklePairs_K12 hq]
  · intro p hp tx htx
    rw [merklePairs_K12 hp]
    have hall : ∀ tx ∈ blockK12.vtx, primitives.hashPair (primitives.getHash coinBaseK12)
        (primitives.getHash rival) ≠ primitives.getHash tx := by decide
    rcases htx with htx | htx <;> exact hall tx htx

end Ripening
end Silkcoin
