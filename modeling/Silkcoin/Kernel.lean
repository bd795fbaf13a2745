/-
  The stake kernel: modifiers, and the proof a coinstake has to give.

  A STAKE MODIFIER is a 64-bit number a block carries.  Most blocks copy their parent's; the first
  block of a new ten-minute interval draws a new one, bit by bit, from the entropy bits of up to 64
  blocks below it (`computeNextStakeModifier`).  All of this looks DOWN the chain of the new block.

  The kernel looks UP.  A coinstake is checked with the modifier that was in force a selection interval
  AFTER the block of the coin it stakes, and `getKernelStakeModifier` finds that block by following
  `pnext` — the links of the best chain of the moment (`laterModifier`).

  The three hashes are the code's `Hash` over a stream of these fields; they are taken as given.
-/
import Silkcoin.Node

namespace Silkcoin

open Validation BatchStore

/-- `Hash` over the fields the kernel code streams into it. -/
structure KernelHashes where
  /-- a proof hash and the modifier before -/
  selection : Uint256 → BitVec 64 → Uint256
  /-- modifier, time of the block, offset and time of the transaction, output, time of the coinstake -/
  proof : BitVec 64 → UInt32 → UInt32 → UInt32 → UInt32 → UInt32 → Uint256
  /-- checksum of the previous entry (none at genesis), flags, proof hash and modifier -/
  checksum : Option UInt32 → UInt32 → Uint256 → BitVec 64 → Uint256

/-! ## Flags -/

namespace CBlockIndex

variable (pindex : CBlockIndex)

def getStakeEntropyBit : UInt32 := (pindex.nFlags &&& BLOCK_STAKE_ENTROPY) >>> 1

def setStakeEntropyBit (nEntropyBit : UInt32) : Option CBlockIndex :=
  if nEntropyBit > 1 then none
  else some { pindex with
    nFlags := pindex.nFlags ||| (if nEntropyBit ≠ 0 then BLOCK_STAKE_ENTROPY else 0) }

def generatedStakeModifier : Bool := decide (pindex.nFlags &&& BLOCK_STAKE_MODIFIER ≠ 0)

def setStakeModifier (nModifier : BitVec 64) (fGeneratedStakeModifier : Bool) : CBlockIndex :=
  { pindex with
    nStakeModifier := nModifier
    nFlags := if fGeneratedStakeModifier then pindex.nFlags ||| BLOCK_STAKE_MODIFIER
      else pindex.nFlags }

end CBlockIndex

/-- The last bit of the block hash. -/
def CBlock.getStakeEntropyBit (P : Primitives) (b : CBlock) : UInt32 :=
  UInt32.ofNat ((b.getHash P).toNat % 2)

/-! ## The selection interval -/

def nModifierInterval : Nat := 10 * 60

def MODIFIER_INTERVAL_RATIO : Nat := 3

/-- The modifier in force at `pindex`, and when it was made. -/
def getLastStakeModifier : BlockPtr → Check (BitVec 64 × Int)
  | [] => .error (.reject 0 "GetLastStakeModifier: null pindex")
  | [pindex] =>
    if pindex.generatedStakeModifier then .ok (pindex.nStakeModifier, pindex.getBlockTime)
    else .error (.reject 0 "GetLastStakeModifier: no generation at genesis block")
  | pindex :: prev :: rest =>
    if pindex.generatedStakeModifier then .ok (pindex.nStakeModifier, pindex.getBlockTime)
    else getLastStakeModifier (prev :: rest)

/-- One of the 64 sections, in seconds: the later the longer. -/
def getStakeModifierSelectionIntervalSection (nSection : Nat) : Int :=
  (nModifierInterval * 63 / (63 + (63 - nSection) * ( MODIFIER_INTERVAL_RATIO - 1)) : Nat)

def getStakeModifierSelectionInterval : Int :=
  ((List.range 64).map getStakeModifierSelectionIntervalSection).sum

/-! ## `ComputeNextStakeModifier` -/

section Modifier

variable (H : KernelHashes) (mapBlockIndex : StdMap Uint256 BlockPtr)

/-- The hash a candidate is ranked by.  Divided by 2^32 a proof-of-stake block comes first. -/
def selectionHash (nStakeModifierPrev : BitVec 64) (pindex : CBlockIndex) : Uint256 :=
  if pindex.isProofOfStake then H.selection pindex.hashProofOfStake nStakeModifierPrev >>> 32
  else H.selection pindex.hashBlock nStakeModifierPrev

/-- The candidates in the order of their times; the best so far is carried along. -/
def selectBlockFromCandidates (mapSelectedBlocks : List Uint256) (nSelectionIntervalStop : Int)
    (nStakeModifierPrev : BitVec 64) :
    Option (Uint256 × CBlockIndex) → List (Int × Uint256) → Check (Option (Uint256 × CBlockIndex))
  | best, [] => .ok best
  | best, item :: rest =>
    match mapBlockIndex.lookup item.2 with
    | none | some [] => .error (.reject 0
        "SelectBlockFromCandidates: failed to find block index for candidate block")
    | some (pindex :: _) =>
      if best.isSome ∧ pindex.getBlockTime > nSelectionIntervalStop then .ok best
      else if pindex.hashBlock ∈ mapSelectedBlocks then
        selectBlockFromCandidates mapSelectedBlocks nSelectionIntervalStop nStakeModifierPrev best rest
      else
        let hashSelection := selectionHash H nStakeModifierPrev pindex
        let best := match best with
          | none => (hashSelection, pindex)
          | some (hashBest, pindexBest) =>
            if hashSelection < hashBest then (hashSelection, pindex) else (hashBest, pindexBest)
        selectBlockFromCandidates mapSelectedBlocks nSelectionIntervalStop nStakeModifierPrev
          (some best) rest

/-- The local variables of the loop over the rounds. -/
structure ModifierRound where
  nStakeModifierNew : BitVec 64
  nSelectionIntervalStop : Int
  mapSelectedBlocks : List Uint256

/-- One round: one section more, one block, one bit. -/
def selectRound (vSortedByTimestamp : List (Int × Uint256)) (nStakeModifier : BitVec 64)
    (s : ModifierRound) (nRound : Nat) : Check ModifierRound := do
  let nSelectionIntervalStop :=
    s.nSelectionIntervalStop + getStakeModifierSelectionIntervalSection nRound
  let selected ← selectBlockFromCandidates H mapBlockIndex s.mapSelectedBlocks nSelectionIntervalStop
    nStakeModifier none vSortedByTimestamp
  match selected with
  | none => .error (.reject 0 "ComputeNextStakeModifier: unable to select block at round")
  | some (_, pindex) => return {
      nStakeModifierNew := s.nStakeModifierNew |||
        BitVec.ofNat 64 pindex.getStakeEntropyBit.toNat <<< nRound
      nSelectionIntervalStop := nSelectionIntervalStop
      mapSelectedBlocks := pindex.hashBlock :: s.mapSelectedBlocks }

/-- `operator<` on pairs of a time and a hash, or equal. -/
def candidateLe (a b : Int × Uint256) : Prop := a.1 < b.1 ∨ a.1 = b.1 ∧ a.2 ≤ b.2

instance : DecidableRel candidateLe := fun a b =>
  inferInstanceAs (Decidable (a.1 < b.1 ∨ a.1 = b.1 ∧ a.2 ≤ b.2))

/-- The blocks from `pindexPrev` down to the start of the selection interval, sorted. -/
def stakeModifierCandidates (nSelectionIntervalStart : Int) (pindexPrev : BlockPtr) :
    List (Int × Uint256) :=
  ((pindexPrev.takeWhile fun pindex => decide (pindex.getBlockTime ≥ nSelectionIntervalStart)).map
    fun pindex => (pindex.getBlockTime, pindex.hashBlock)).reverse.insertionSort candidateLe

/-- The modifier of the block after `pindexPrev`, and whether it is a new one. -/
def computeNextStakeModifier (pindexPrev : BlockPtr) : Check (BitVec 64 × Bool) :=
  match pindexPrev with
  | [] => .ok (0, true)
  | prev :: rest => do
    let (nStakeModifier, nModifierTime) ← orFail (getLastStakeModifier (prev :: rest))
      (Failure.instead (.reject 0 "ComputeNextStakeModifier: unable to get last modifier"))
    if nModifierTime.tdiv nModifierInterval ≥ prev.getBlockTime.tdiv nModifierInterval then
      return (nStakeModifier, false)
    else do
      let nSelectionIntervalStart := prev.getBlockTime.tdiv nModifierInterval * nModifierInterval -
        getStakeModifierSelectionInterval
      let vSortedByTimestamp := stakeModifierCandidates nSelectionIntervalStart (prev :: rest)
      let s ← (List.range (min 64 vSortedByTimestamp.length)).foldlM
        (selectRound H mapBlockIndex vSortedByTimestamp nStakeModifier)
        ⟨0, nSelectionIntervalStart, []⟩
      return (s.nStakeModifierNew, true)

end Modifier

/-! ## Checksums -/

def genesisHash (fTestNet : Bool) : Uint256 :=
  if fTestNet then hashGenesisBlockTestNet else hashGenesisBlock

/-- The top 32 bits of the hash; only genesis has no previous entry. -/
def getStakeModifierChecksum (H : KernelHashes) (fTestNet : Bool) (pindex : CBlockIndex)
    (pprev : BlockPtr) : Check UInt32 := do
  require (decide (pprev ≠ []) || decide (pindex.hashBlock = genesisHash fTestNet))
    (.throw "assert(pindex->pprev || pindex->GetBlockHash() == hashGenesisBlock)")
  let hashChecksum := H.checksum (pprev.head?.map CBlockIndex.nStakeModifierChecksum) pindex.nFlags
    pindex.hashProofOfStake pindex.nStakeModifier
  return UInt32.ofNat (hashChecksum >>> (256 - 32)).toNat

/-- The hard checkpoints of both networks: 0xbfa1d8e4fd11f4e7, cut to an `unsigned int`. -/
def mapStakeModifierCheckpoints : List (Nat × UInt32) := [(0, 0xfd11f4e7)]

def checkStakeModifierCheckpoints (nHeight : Nat) (nStakeModifierChecksum : UInt32) : Bool :=
  match mapStakeModifierCheckpoints.lookup nHeight with
  | none => true
  | some checkpoint => decide (nStakeModifierChecksum = checkpoint)

/-! ## The kernel -/

def nStakeMaxAge : Int := 2 ^ 32 - 1

/-- The weight of a coin: its age past the minimum. -/
def getWeight (g : Globals) (nIntervalBeginning nIntervalEnd : Int) : Int :=
  min (nIntervalEnd - nIntervalBeginning - g.nStakeMinAge) nStakeMaxAge

section Stake

variable (P : Primitives) (H : KernelHashes) (g : Globals) (mapBlockIndex : StdMap Uint256 BlockPtr)
  (mem : Uint256 → BlockMem)

/-- Up the links until a modifier was made at `nStop` or later; no walk is longer than the tree, and
    `fuel` is its size.  At the end of the links the node is behind (or on another branch). -/
def laterModifier (nStop : Int) : Nat → CBlockIndex → Int → Check CBlockIndex
  | 0, _, _ => .error (.throw "GetKernelStakeModifier() : the links do not end")
  | fuel + 1, pindex, nStakeModifierTime =>
    if nStakeModifierTime < nStop then
      match (mem pindex.hashBlock).pnext with
      | none =>
        if pindex.getBlockTime + g.nStakeMinAge - getStakeModifierSelectionInterval >
            g.nAdjustedTime then
          .error (.reject 0 "GetKernelStakeModifier() : reached best block")
        else .error .quiet
      | some next =>
        match mapBlockIndex.lookup next with
        | none | some [] => .error (.throw "null pointer")
        | some (pindex :: _) =>
          laterModifier nStop fuel pindex
            (if pindex.generatedStakeModifier then pindex.getBlockTime else nStakeModifierTime)
    else .ok pindex

/-- The block whose modifier a coin of `hashBlockFrom` is staked with. -/
def kernelModifierBlock (hashBlockFrom : Uint256) : Check CBlockIndex :=
  match mapBlockIndex.lookup hashBlockFrom with
  | none | some [] => .error (.reject 0 "GetKernelStakeModifier() : block not indexed")
  | some (pindexFrom :: _) =>
    laterModifier g mapBlockIndex mem (pindexFrom.getBlockTime + getStakeModifierSelectionInterval)
      (mapBlockIndex.entries.length + 1) pindexFrom pindexFrom.getBlockTime

def getKernelStakeModifier (hashBlockFrom : Uint256) : Check (BitVec 64) := do
  let pindex ← kernelModifierBlock g mapBlockIndex mem hashBlockFrom
  return pindex.nStakeModifier

/-- The tests on the times of a stake. -/
def checkKernelTimes (blockFrom : CBlockHeader) (txPrev : CTransaction) (nTimeTx : UInt32) :
    Check Unit := do
  require (¬ nTimeTx < txPrev.nTime) (.reject 0 "CheckStakeKernelHash() : nTime violation")
  require (¬ blockFrom.nTime + UInt32.ofNat g.nStakeMinAge.toNat > nTimeTx)
    (.reject 0 "CheckStakeKernelHash() : min age violation")

/-- The coin-days of the staked output. -/
def coinDayWeight (txPrev : CTransaction) (prevout : COutPoint) (nTimeTx : UInt32) : Int :=
  let nValueIn := ((txPrev.vout[prevout.n.toNat]?).map CTxOut.nValue).getD 0
  ((nValueIn * getWeight g txPrev.nTime.toNat nTimeTx.toNat).tdiv COIN).tdiv (24 * 60 * 60)

/-- The proof hash under a modifier, if it meets the target. -/
def checkKernelTarget (nBits : UInt32) (nStakeModifier : BitVec 64) (blockFrom : CBlockHeader)
    (nTxPrevOffset : UInt32) (txPrev : CTransaction) (prevout : COutPoint) (nTimeTx : UInt32) :
    Check Uint256 := do
  let hashProofOfStake := H.proof nStakeModifier blockFrom.nTime nTxPrevOffset txPrev.nTime prevout.n
    nTimeTx
  require (¬ (hashProofOfStake.toNat : Int) > coinDayWeight g txPrev prevout nTimeTx * setCompact nBits)
    .quiet
  return hashProofOfStake

/-- Returns the proof hash. -/
def checkStakeKernelHash (nBits : UInt32) (blockFrom : CBlockHeader) (nTxPrevOffset : UInt32)
    (txPrev : CTransaction) (prevout : COutPoint) (nTimeTx : UInt32) : Check Uint256 := do
  checkKernelTimes g blockFrom txPrev nTimeTx
  let nStakeModifier ← getKernelStakeModifier g mapBlockIndex mem (P.blockHash blockFrom)
  checkKernelTarget H g nBits nStakeModifier blockFrom nTxPrevOffset txPrev prevout nTimeTx

/-- The kernel of a coinstake: the transaction of its first input, where that is on disk, and the
    header of its block. -/
def readKernel (txdb : CTxDB) (tx : CTransaction) :
    Check (CTransaction × COutPoint × CTxIndex × CBlockHeader) :=
  match tx.vin with
  | [] => .error (.throw "vin[0]")
  | txin :: _ =>
    match txdb.readPrevTx g.files txin.prevout with
    | none => .error (.reject 1 "CheckProofOfStake() : INFO: read txPrev failed")
    | some (txPrev, txindex) => do
      require (P.verifySignature txPrev tx 0)
        (.reject 100 "CheckProofOfStake() : VerifySignature failed on coinstake")
      match g.files.readHeader txindex.pos.nFile txindex.pos.nBlockPos with
      | none => .error .quiet
      | some block => return (txPrev, txin.prevout, txindex, block)

/-- Returns the proof hash. -/
def checkProofOfStake (txdb : CTxDB) (tx : CTransaction) (nBits : UInt32) : Check Uint256 := do
  require tx.isCoinStake (.reject 0 "CheckProofOfStake() : called on non-coinstake")
  let (txPrev, prevout, txindex, block) ← readKernel P g txdb tx
  orFail (checkStakeKernelHash P H g mapBlockIndex mem nBits block
      (txindex.pos.nTxPos - txindex.pos.nBlockPos) txPrev prevout tx.nTime)
    (Failure.instead (.reject 1 "CheckProofOfStake() : INFO: check kernel failed on coinstake"))

end Stake
end Silkcoin
