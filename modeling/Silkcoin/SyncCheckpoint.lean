/-
  Synchronized checkpoints: a block the holder of the master key vouches for.

  A checkpoint message names a block.  If the block is known, the checkpoint moves to it — provided it
  is a DESCENDANT of the current one (`validateSyncCheckpoint`), and after the best chain has been
  switched to it if need be (`bringToMainChain`).  If the block is not known the message waits, and is
  looked at again after every accepted block (`acceptPendingSyncCheckpoint`).

  What the checkpoint is for is `checkSync` (in `Accept`): in STRICT mode a block that is not above the
  checkpoint is refused — except on the test network, where that test always passes.

  Left out are the messages these routines send: the relay of a checkpoint, and the requests for the
  blocks that lead to it.
-/
import Silkcoin.AddBlock
import Silkcoin.Messages

namespace Silkcoin

open Validation BatchStore

/-- The signature of the master key. -/
structure CheckpointKey where
  /-- is `vchSig` the master key's signature of the hash of `vchMsg`? -/
  verify : List UInt8 → List UInt8 → Bool
  /-- with `strMasterPrivKey`: the signature of the hash of `vchMsg`, if it can be made -/
  sign : Option (List UInt8 → Option (List UInt8))

/-! ## The message -/

/-- A `uint256` in memory: 32 bytes, the least first. -/
def bytesOfHash (hash : Uint256) : List UInt8 :=
  (List.range 32).map fun i => UInt8.ofNat (hash.toNat / 256 ^ i)

def hashOfBytes (bytes : List UInt8) : Uint256 :=
  BitVec.ofNat 256 (bytes.foldr (fun b n => b.toNat + 256 * n) 0)

namespace CSyncCheckpoint

/-- The fields of `CUnsignedSyncCheckpoint`, one after the other. -/
def unsignedBytes (hashCheckpoint : Uint256) : List UInt8 := bytesOf 1 ++ bytesOfHash hashCheckpoint

/-- The message with the fields its signed bytes say; a message that is too short throws. -/
def checkSignature (K : CheckpointKey) (msg : CSyncCheckpoint) : Check CSyncCheckpoint := do
  require (K.verify msg.vchMsg msg.vchSig)
    (.reject 0 "CSyncCheckpoint::CheckSignature() : verify signature failed")
  require (4 + 32 ≤ msg.vchMsg.length) (.throw "CDataStream::read() : end of data")
  return { msg with
    nVersion := numberOf (msg.vchMsg.take 4)
    hashCheckpoint := hashOfBytes ((msg.vchMsg.drop 4).take 32) }

end CSyncCheckpoint

namespace Node

variable (P : Primitives) (K : CheckpointKey) (n : Node)

/-! ## Validation -/

/-- Is the block a strict descendant of the current checkpoint?  A block that is not above it has to be
    below it, or it is kept as the invalid one. -/
def validateSyncCheckpoint (hashCheckpoint : Uint256) : Except Halted Node :=
  let conflicting (msg : String) : Except Halted Node :=
    .error ⟨.reject 0 msg, { n with hashInvalidCheckpoint := hashCheckpoint }⟩
  match n.tree.mapBlockIndex.lookup n.tree.hashSyncCheckpoint with
  | none | some [] => .error ⟨.reject 0
      "ValidateSyncCheckpoint: block index missing for current sync-checkpoint", n⟩
  | some (pindexSyncCheckpoint :: below) =>
    match n.tree.mapBlockIndex.lookup hashCheckpoint with
    | none | some [] => .error ⟨.reject 0
        "ValidateSyncCheckpoint: block index missing for received sync-checkpoint", n⟩
    | some (pindexCheckpointRecv :: rest) =>
      if pindexCheckpointRecv.nHeight ≤ pindexSyncCheckpoint.nHeight then
        match traceBack pindexCheckpointRecv.nHeight (pindexSyncCheckpoint :: below) with
        | [] => .error ⟨.reject 0
            "ValidateSyncCheckpoint: pprev null - block index structure failure", n⟩
        | pindex :: _ =>
          if pindex.hashBlock ≠ hashCheckpoint then
            conflicting "ValidateSyncCheckpoint: new sync-checkpoint is conflicting"
          else .error ⟨.quiet, n⟩
      else
        match traceBack pindexSyncCheckpoint.nHeight (pindexCheckpointRecv :: rest) with
        | [] => .error ⟨.reject 0
            "ValidateSyncCheckpoint: pprev2 null - block index structure failure", n⟩
        | pindex :: _ =>
          if pindex.hashBlock ≠ n.tree.hashSyncCheckpoint then
            conflicting "ValidateSyncCheckpoint: new sync-checkpoint is not a descendant"
          else .ok n

/-! ## Moving the checkpoint -/

/-- `IsInMainChain`: the block has a successor, or is the tip. -/
def isInMainChain (pindex : BlockPtr) : Bool :=
  match pindex with
  | [] => false
  | p :: _ => (n.mem p.hashBlock).pnext.isSome || decide (pindex = n.pindexBest)

/-- The tip moves to the checkpoint if that is not in the main chain.  `caller` is the routine that
    does it. -/
def bringToMainChain (caller : String) (hashCheckpoint : Uint256) (pindexCheckpoint : BlockPtr) :
    Except Halted Node :=
  if n.isInMainChain pindexCheckpoint then .ok n
  else
    match pindexCheckpoint.head?.bind (readFromDisk P n.toNodeState.globals) with
    | none => .error ⟨.reject 0 (caller ++ ": ReadFromDisk failed for sync checkpoint"), n⟩
    | some block =>
      orFail (n.withTxDB (n.toNodeState.setBestChain P pindexCheckpoint block)) fun e =>
        match e.why with
        | .throw what => ⟨.throw what, e.node⟩
        | .reject _ _ => ⟨.reject 0 (caller ++ ": SetBestChain failed for sync checkpoint"),
            { e.node with hashInvalidCheckpoint := hashCheckpoint }⟩

/-- The new checkpoint, on disk and then in memory. -/
def writeSyncCheckpoint (hashCheckpoint : Uint256) : Except Halted Node :=
  n.withTxDB do
    let s ← n.toNodeState.txnBegin
    let s ← NodeState.txnCommit
      { s with txdb := s.txdb.write .hashSyncCheckpoint (.hash hashCheckpoint) }
      (.reject 0 "WriteSyncCheckpoint(): failed to commit to db sync checkpoint")
    return { s with tree := { s.tree with hashSyncCheckpoint := hashCheckpoint } }

/-- Nothing is pending any more. -/
def clearPending : Node :=
  { n with hashPendingCheckpoint := 0, checkpointMessagePending := CSyncCheckpoint.null }

/-- The switch to a checkpoint that is valid, and the checkpoint itself. -/
def moveSyncCheckpoint (caller : String) (hashCheckpoint : Uint256) (pindexCheckpoint : BlockPtr) :
    Except Halted Node := do
  let n ← n.bringToMainChain P caller hashCheckpoint pindexCheckpoint
  orFalse (n.writeSyncCheckpoint hashCheckpoint) (caller ++ ": failed to write sync checkpoint")

def acceptPendingSyncCheckpoint : Except Halted Node :=
  if n.hashPendingCheckpoint ≠ 0 then
    match n.tree.mapBlockIndex.lookup n.hashPendingCheckpoint with
    | none => .error ⟨.quiet, n⟩
    | some pindexCheckpoint =>
      match n.validateSyncCheckpoint n.hashPendingCheckpoint with
      | .error e => .error ⟨Failure.quiet.instead e.why, e.node.clearPending⟩
      | .ok n => do
        let n ← n.moveSyncCheckpoint P "AcceptPendingSyncCheckpoint" n.hashPendingCheckpoint
          pindexCheckpoint
        return { n with checkpointMessage := n.checkpointMessagePending }.clearPending
  else .error ⟨.quiet, n⟩

/-- `ProcessSyncCheckpoint`.  A message about a block that is not known waits. -/
def processSyncCheckpoint (msg : CSyncCheckpoint) : Except Halted Node := do
  let msg ← orFail (msg.checkSignature K) fun why => ⟨Failure.quiet.instead why, n⟩
  match n.tree.mapBlockIndex.lookup msg.hashCheckpoint with
  | none => .error ⟨.quiet, { n with
      hashPendingCheckpoint := msg.hashCheckpoint
      checkpointMessagePending := msg }⟩
  | some pindexCheckpoint => do
    let n ← orFail (n.validateSyncCheckpoint msg.hashCheckpoint) fun e =>
      ⟨Failure.quiet.instead e.why, e.node⟩
    let n ← n.moveSyncCheckpoint P "ProcessSyncCheckpoint" msg.hashCheckpoint pindexCheckpoint
    return { n with checkpointMessage := msg }.clearPending

/-! ## Sending one -/

def CHECKPOINT_MAX_SPAN : Int := 60 * 60 * 4

/-- The highest block of the chain that is old enough and deep enough; genesis if there is none. -/
def selectBack (best : CBlockIndex) : BlockPtr → Uint256
  | pindex :: prev :: rest =>
    if pindex.getBlockTime + CHECKPOINT_MAX_SPAN > best.getBlockTime ∨
        pindex.nHeight + 8 > best.nHeight then selectBack best (prev :: rest)
    else pindex.hashBlock
  | [pindex] => pindex.hashBlock
  | [] => 0

def autoSelectSyncCheckpoint : Except Halted Uint256 :=
  match n.pindexBest with
  | [] => .error ⟨.throw "null pointer", n⟩
  | best :: rest => .ok (selectBack best (best :: rest))

/-- The message is signed, and then processed as if it had come in. -/
def sendSyncCheckpoint (hashCheckpoint : Uint256) : Except Halted Node :=
  let vchMsg := CSyncCheckpoint.unsignedBytes hashCheckpoint
  match K.sign with
  | none => .error ⟨.reject 0 "SendSyncCheckpoint: Checkpoint master key unavailable.", n⟩
  | some sign =>
    match sign vchMsg with
    | none => .error ⟨.reject 0
        "SendSyncCheckpoint: Unable to sign checkpoint, check private key?", n⟩
    | some vchSig => n.processSyncCheckpoint P K ⟨1, hashCheckpoint, vchMsg, vchSig⟩

end Node
end Silkcoin
