/-
  `CBlock::AcceptBlock`, up to the point where the block is written to disk.

  These are the checks that need the block's place in the tree: the windows in which proof-of-work
  is allowed, the required target, the time of the previous blocks, finality, the hardened and the
  synchronized checkpoint, and last the rule the transaction index depends on — the coinbase script
  starts with the serialized height (`acceptChecks_height`, `startsWithHeight_injective`).
-/
import Silkcoin.Block
import Mathlib.Data.List.Sort

namespace Silkcoin

open Validation BatchStore

/-! ## Entries of the tree -/

namespace CBlockIndex

variable (pindex : CBlockIndex)

def isProofOfStake : Bool := decide (pindex.nFlags &&& BLOCK_PROOF_OF_STAKE ≠ 0)

def getBlockTime : Int := pindex.nTime.toNat

end CBlockIndex

namespace BlockPtr

/-- The median time of the last eleven blocks. -/
def getMedianTimePast (pindex : BlockPtr) : Int :=
  let times := ((pindex.take 11).map CBlockIndex.getBlockTime).insertionSort (· ≤ ·)
  times.getD (times.length / 2) 0

/-- The last block of the given kind up to `pindex`; genesis if there is none. -/
def getLastBlockIndex (fProofOfStake : Bool) : BlockPtr → BlockPtr
  | [] => []
  | [pindex] => [pindex]
  | pindex :: prev :: rest =>
    if pindex.isProofOfStake ≠ fProofOfStake then getLastBlockIndex fProofOfStake (prev :: rest)
    else pindex :: prev :: rest

end BlockPtr

/-! ## The required target -/

def nTargetTimespan : Int := 16 * 60

def nTargetSpacing : Int := 1 * 60

/-- The last target moved toward the spacing, by how long the last block of this kind took. -/
def movedTarget (nBits : UInt32) (nActualSpacing : Int) : Int :=
  let nInterval := nTargetTimespan / nTargetSpacing
  (setCompact nBits * ((nInterval - 1) * nTargetSpacing + nActualSpacing + nActualSpacing)).tdiv
    ((nInterval + 1) * nTargetSpacing)

def getNextTargetRequiredV1 (g : Globals) (pindexLast : BlockPtr) (fProofOfStake : Bool) : UInt32 :=
  let bnTargetLimit := if fProofOfStake then bnProofOfStakeLimit else g.bnProofOfWorkLimit
  match BlockPtr.getLastBlockIndex fProofOfStake pindexLast with
  | [] => getCompact bnTargetLimit
  | [_] => getCompact bnTargetLimit
  | pindexPrev :: pprev =>
    match BlockPtr.getLastBlockIndex fProofOfStake pprev with
    | [] => getCompact bnTargetLimit
    | [_] => getCompact bnTargetLimit
    | pindexPrevPrev :: _ =>
      let nActualSpacing := pindexPrev.getBlockTime - pindexPrevPrev.getBlockTime
      let bnNew := movedTarget pindexPrev.nBits nActualSpacing
      getCompact (if bnNew > bnTargetLimit then bnTargetLimit else bnNew)

/-- As the first version, except that a negative spacing counts as the target spacing and a target
    that is not positive becomes the limit. -/
def getNextTargetRequiredV2 (g : Globals) (pindexLast : BlockPtr) (fProofOfStake : Bool) : UInt32 :=
  let bnTargetLimit := if fProofOfStake then bnProofOfStakeLimit else g.bnProofOfWorkLimit
  match BlockPtr.getLastBlockIndex fProofOfStake pindexLast with
  | [] => getCompact bnTargetLimit
  | [_] => getCompact bnTargetLimit
  | pindexPrev :: pprev =>
    match BlockPtr.getLastBlockIndex fProofOfStake pprev with
    | [] => getCompact bnTargetLimit
    | [_] => getCompact bnTargetLimit
    | pindexPrevPrev :: _ =>
      let nActualSpacing := pindexPrev.getBlockTime - pindexPrevPrev.getBlockTime
      let nActualSpacing := if nActualSpacing < 0 then nTargetSpacing else nActualSpacing
      let bnNew := movedTarget pindexPrev.nBits nActualSpacing
      getCompact (if bnNew ≤ 0 ∨ bnNew > bnTargetLimit then bnTargetLimit else bnNew)

def getNextTargetRequired (g : Globals) (pindexLast : BlockPtr) (fProofOfStake : Bool) : UInt32 :=
  let nHeight := (pindexLast.head?.map CBlockIndex.nHeight).getD 0
  if nHeight < 10000 ∨ (nHeight > 50000 ∧ nHeight < 60000) then
    getNextTargetRequiredV1 g pindexLast fProofOfStake
  else getNextTargetRequiredV2 g pindexLast fProofOfStake

/-! ## The synchronized checkpoint -/

inductive CPMode where
  | STRICT
  | ADVISORY
  | PERMISSIVE
deriving DecidableEq, Repr

/-- The block tree and the synchronized checkpoint. -/
structure BlockTree where
  mapBlockIndex : StdMap Uint256 BlockPtr
  hashSyncCheckpoint : Uint256
  checkpointsMode : CPMode

/-- Trace back to the height of the checkpoint. -/
def traceBack (nHeight : Nat) (pindex : BlockPtr) : BlockPtr :=
  pindex.dropWhile fun p => decide (p.nHeight > nHeight)

/-- Does a block after `pindexPrev` satisfy the synchronized checkpoint? -/
def checkSync (g : Globals) (tree : BlockTree) (hashBlock : Uint256) (pindexPrev : BlockPtr) :
    Check Bool :=
  if g.fTestNet then .ok true
  else
    match tree.mapBlockIndex.lookup tree.hashSyncCheckpoint with
    | none | some [] => .error (.throw "assert(mapBlockIndex.count(hashSyncCheckpoint))")
    | some (pindexSync :: _) =>
      let nHeight := (pindexPrev.head?.map CBlockIndex.nHeight).getD 0 + 1
      if nHeight > pindexSync.nHeight then
        match traceBack pindexSync.nHeight pindexPrev with
        | [] => .ok false
        | pindex :: _ => .ok (decide (¬ (pindex.nHeight < pindexSync.nHeight ∨
            pindex.hashBlock ≠ tree.hashSyncCheckpoint)))
      else if nHeight = pindexSync.nHeight then .ok (decide (hashBlock = tree.hashSyncCheckpoint))
      else .ok (tree.mapBlockIndex.lookup hashBlock).isSome

/-! ## The checks of `AcceptBlock` -/

def MID_POW_BLOCK : Nat := 10000

def MID2_POW_BLOCK : Nat := 50000

def LAST_POW_BLOCK : Nat := 60000

namespace CBlock

variable (P : Primitives) (g : Globals) (tree : BlockTree) (b : CBlock)

/-- The script of the first input starts with the serialized height. -/
def startsWithHeight (tx : CTransaction) (nHeight : Nat) : Bool :=
  match tx.vin with
  | [] => false
  | txin :: _ => (pushInt64 nHeight).isPrefixOf txin.scriptSig

/-- The coinbase script starts with the serialized height. -/
def heightInCoinbase (nHeight : Nat) : Bool :=
  match b.vtx with
  | [] => false
  | coinBase :: _ => startsWithHeight coinBase nHeight

/-- The checks on the place after `pindexPrev`, a block of the tree with entries `rest` behind it. -/
def checkPlace (pindexPrev : CBlockIndex) (rest : BlockPtr) : Check Unit := do
  let hash := b.getHash P
  let nHeight := pindexPrev.nHeight + 1
  require (¬ (b.isProofOfWork ∧ nHeight > MID_POW_BLOCK ∧ nHeight < MID2_POW_BLOCK))
    (.reject 100 "AcceptBlock() : reject proof-of-work at height")
  require (¬ (b.isProofOfWork ∧ nHeight > LAST_POW_BLOCK))
    (.reject 100 "AcceptBlock() : reject proof-of-work at height")
  require (b.nBits = getNextTargetRequired g (pindexPrev :: rest) b.isProofOfStake)
    (.reject 100 "AcceptBlock() : incorrect proof-of-work or proof-of-stake")
  require (¬ (b.getBlockTime ≤ BlockPtr.getMedianTimePast (pindexPrev :: rest) ∨
      futureDrift b.getBlockTime < pindexPrev.getBlockTime))
    (.reject 0 "AcceptBlock() : block's timestamp is too early")
  require (b.vtx.all fun tx => tx.isFinal g.nBestHeight g.nAdjustedTime nHeight b.getBlockTime)
    (.reject 10 "AcceptBlock() : contains a non-final transaction")
  require (checkHardened g.fTestNet nHeight hash)
    (.reject 100 "AcceptBlock() : rejected by hardened checkpoint lock-in")
  let cpSatisfies ← checkSync g tree hash (pindexPrev :: rest)
  require (¬ (tree.checkpointsMode = .STRICT ∧ cpSatisfies = false))
    (.reject 0 "AcceptBlock() : rejected by synchronized checkpoint")
  require (heightInCoinbase b nHeight)
    (.reject 100 "AcceptBlock() : block height mismatch in coinbase")

/-- Returns the pointer to the previous block. -/
def acceptChecks : Check BlockPtr := do
  require (tree.mapBlockIndex.lookup (b.getHash P)).isNone
    (.reject 0 "AcceptBlock() : block already in mapBlockIndex")
  match tree.mapBlockIndex.lookup b.hashPrevBlock with
  | none | some [] => .error (.reject 10 "AcceptBlock() : prev block not found")
  | some (pindexPrev :: rest) => do
    checkPlace P g tree b pindexPrev rest
    return pindexPrev :: rest

variable {P g tree b}

theorem checkPlace_height {pindexPrev : CBlockIndex} {rest : BlockPtr} {u : Unit}
    (h : checkPlace P g tree b pindexPrev rest = .ok u) :
    heightInCoinbase b (pindexPrev.nHeight + 1) = true := by
  unfold checkPlace at h
  simp only [bind_ok, require_ok, exists_const] at h
  obtain ⟨-, -, -, -, -, -, _, -, -, hheight⟩ := h
  exact hheight

/-- A block that passes is new, its parent is known, and it passes on that one. -/
theorem acceptChecks_ok {ptr : BlockPtr} (h : acceptChecks P g tree b = .ok ptr) :
    (tree.mapBlockIndex.lookup (b.getHash P)).isNone ∧ ∃ pindexPrev rest, ptr = pindexPrev :: rest ∧
      tree.mapBlockIndex.lookup b.hashPrevBlock = some (pindexPrev :: rest) ∧
        checkPlace P g tree b pindexPrev rest = .ok () := by
  unfold acceptChecks at h
  simp only [bind_ok, require_ok, exists_const] at h
  obtain ⟨hnew, h⟩ := h
  split at h
  · cases h
  · cases h
  · rename_i hprev
    simp only [bind_ok, pure_ok] at h
    obtain ⟨u, hplace, rfl⟩ := h
    exact ⟨hnew, _, _, rfl, hprev, hplace⟩

/-- What an accepted block is worth to the transaction index: its coinbase starts with its height. -/
theorem acceptChecks_height {pindexPrev : CBlockIndex} {rest : BlockPtr}
    (h : acceptChecks P g tree b = .ok (pindexPrev :: rest)) :
    heightInCoinbase b (pindexPrev.nHeight + 1) = true := by
  obtain ⟨-, _, _, heq, -, hplace⟩ := acceptChecks_ok h
  cases heq
  exact checkPlace_height hplace

/-- Every coinbase of a checked block starts with the height the block was accepted at. -/
theorem startsWithHeight_of_mem {n : Nat} (hchecked : b.BlockChecked P)
    (hn : heightInCoinbase b n = true) {tx : CTransaction} (htx : tx ∈ b.vtx)
    (hcb : tx.isCoinBase = true) : startsWithHeight tx n = true := by
  obtain ⟨coinBase, rest, hvtx, -, hrest⟩ := hchecked.coinbase
  unfold heightInCoinbase at hn
  rw [hvtx] at htx hn
  rcases List.mem_cons.mp htx with rfl | htx
  · exact hn
  · rw [hrest tx htx] at hcb
    cases hcb

/-- Two heights in the front of one coinbase script of legal size are the same height. -/
theorem startsWithHeight_injective {tx : CTransaction} {m n : Nat} (htx : tx.TxChecked)
    (hcb : tx.isCoinBase = true) (hm : startsWithHeight tx m = true)
    (hn : startsWithHeight tx n = true) : m = n := by
  have hsize := htx.script hcb
  unfold startsWithHeight at hm hn
  unfold CTransaction.coinBaseScriptSize at hsize
  cases hvin : tx.vin with
  | nil => simp only [hvin] at hm; cases hm
  | cons txin vin =>
    simp only [hvin, List.isPrefixOf_iff_prefix] at hm hn hsize
    exact pushInt64_prefix_injective hsize.2 hm hn

end CBlock
end Silkcoin
