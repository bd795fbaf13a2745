/-
  `ProcessBlock`: a block comes in.

  A block the node has is turned away, and so is one whose stake was used before — unless an orphan is
  waiting for it, or the pending checkpoint is.  Then the checks that need no place in the tree, the
  proof of stake among them, and the minimum-work filter.

  A block whose parent is not known is an ORPHAN.  Three containers keep the orphans: the blocks under
  their own hash, the blocks under the hash of their parent, and the stakes.  `addOrphan` enters a block
  in all three.  A block whose parent is known goes to `acceptBlock`, and then the orphans that waited
  for it go there too, and those that waited for them (`connectOrphans`): accepted or not, a block that
  had its turn is an orphan no more.

  Left out are the requests sent to the peer.
-/
import Silkcoin.SyncCheckpoint
import Silkcoin.MinWork

namespace Silkcoin

open Validation BatchStore

namespace Node

/-- A call whose result is not looked at; an exception passes. -/
def ignoring (x : Except Halted Node) : Except Halted Node :=
  match x with
  | .ok n => .ok n
  | .error ⟨.reject _ _, n⟩ => .ok n
  | .error ⟨.throw what, n⟩ => .error ⟨.throw what, n⟩

variable (P : Primitives) (H : KernelHashes) (K : CheckpointKey) (n : Node)

/-- A test that changes nothing. -/
def test {α : Type} (x : Check α) : Except Halted α := orFail x fun why => ⟨why, n⟩

/-! ## `AcceptBlock` -/

def acceptBlock (b : CBlock) : Except Halted Node := do
  let _ ← n.test (b.acceptChecks P n.globals n.tree)
  let (n, nFile, nBlockPos) ← n.writeToDisk b
  let n ← orFalse (n.addToBlockIndex P H nFile nBlockPos b) "AcceptBlock() : AddToBlockIndex failed"
  ignoring (n.acceptPendingSyncCheckpoint P)

/-! ## Blocks that are wanted -/

/-- Down the orphans to the block that is missing.  No walk is longer than there are orphans, and `fuel`
    is their number. -/
def wantedByOrphan : Nat → CBlock → Check Uint256
  | 0, _ => .error (.throw "WantedByOrphan() : the orphans do not end")
  | fuel + 1, pblockOrphan =>
    match n.mapOrphanBlocks.lookup pblockOrphan.hashPrevBlock with
    | none => .ok pblockOrphan.hashPrevBlock
    | some pblockPrev => wantedByOrphan fuel pblockPrev

def wantedByPendingSyncCheckpoint (hashBlock : Uint256) : Check Bool :=
  if n.hashPendingCheckpoint = 0 then .ok false
  else if hashBlock = n.hashPendingCheckpoint then .ok true
  else
    match n.mapOrphanBlocks.lookup n.hashPendingCheckpoint with
    | none => .ok false
    | some pblockOrphan => do
      let hash ← n.wantedByOrphan (n.mapOrphanBlocks.entries.length + 1) pblockOrphan
      return decide (hashBlock = hash)

/-- The orphans that wait for a block, oldest first. -/
def orphansOf (hashPrev : Uint256) : List CBlock :=
  (n.mapOrphanBlocksByPrev.filter fun e => decide (e.1 = hashPrev)).map Prod.snd

/-- A stake is used once (`seen`), unless an orphan child or the pending checkpoint wants the block. -/
def duplicateStake (seen : List (COutPoint × UInt32)) (b : CBlock) : Check Bool :=
  if b.isProofOfStake ∧ b.getProofOfStake ∈ seen ∧ n.orphansOf (b.getHash P) = [] then do
    let wanted ← n.wantedByPendingSyncCheckpoint (b.getHash P)
    return !wanted
  else .ok false

/-! ## The checks of `ProcessBlock` -/

/-- Is the block new, its stake too, and does it pass `CheckBlock`? -/
def preliminaryChecks (b : CBlock) : Check Unit := do
  require (n.tree.mapBlockIndex.lookup (b.getHash P)).isNone
    (.reject 0 "ProcessBlock() : already have block")
  require (n.mapOrphanBlocks.lookup (b.getHash P)).isNone
    (.reject 0 "ProcessBlock() : already have block (orphan)")
  let duplicate ← n.duplicateStake P n.setStakeSeen b
  require (!duplicate) (.reject 0 "ProcessBlock() : duplicate proof-of-stake")
  orFail (b.checkBlock P n.globals true true true) (Failure.retext "ProcessBlock() : CheckBlock FAILED")

/-- The proof of stake; its hash is kept for the entry of the block. -/
def proveStake (b : CBlock) : Except Halted Node :=
  if b.isProofOfStake then
    match b.vtx[1]? with
    | none => .error ⟨.throw "vtx[1]", n⟩
    | some tx => do
      let hashProofOfStake ← n.test (orFail
        (checkProofOfStake P H n.globals n.tree.mapBlockIndex n.mem n.txdb tx b.nBits)
        (Failure.instead .quiet))
      if (n.mapProofOfStake.lookup (b.getHash P)).isNone then
        return { n with mapProofOfStake := n.mapProofOfStake.insert (b.getHash P) hashProofOfStake }
      else return n
  else .ok n

/-- The minimum-work filter, for a block that is not on top of the tip and is not wanted.  It punishes
    the peer, where there is one. -/
def checkEnoughProof (fFrom : Bool) (b : CBlock) : Check Unit :=
  let pcheckpoint := (n.tree.mapBlockIndex.lookup n.tree.hashSyncCheckpoint).getD []
  if pcheckpoint ≠ [] ∧ b.hashPrevBlock ≠ n.hashBestChain then do
    let wanted ← n.wantedByPendingSyncCheckpoint (b.getHash P)
    require (wanted || !tooLittleProof n.globals pcheckpoint b.isProofOfStake b.nBits b.nTime)
      (.reject (if fFrom then 100 else 0)
        "ProcessBlock() : block with too little proof-of-stake or proof-of-work")
  else .ok ()

/-! ## Orphans -/

/-- A block in all three books. -/
def enterOrphan (b : CBlock) : Node :=
  { n with
    setStakeSeenOrphan := if b.isProofOfStake then b.getProofOfStake :: n.setStakeSeenOrphan
      else n.setStakeSeenOrphan
    mapOrphanBlocks := n.mapOrphanBlocks.insert (b.getHash P) b
    mapOrphanBlocksByPrev := n.mapOrphanBlocksByPrev ++ [(b.hashPrevBlock, b)] }

/-- A block whose parent is not known is kept for later. -/
def addOrphan (b : CBlock) : Except Halted Node := do
  let duplicate ← n.test (n.duplicateStake P n.setStakeSeenOrphan b)
  n.test (require (!duplicate) (.reject 0 "ProcessBlock() : duplicate proof-of-stake for orphan block"))
  return n.enterOrphan P b

/-- An orphan out of the map of orphans, and its stake out of the set. -/
def forgetOrphan (b : CBlock) : Node :=
  { n with
    mapOrphanBlocks := n.mapOrphanBlocks.erase (b.getHash P)
    setStakeSeenOrphan := n.setStakeSeenOrphan.filter fun stake => decide (stake ≠ b.getProofOfStake) }

/-- The turn of one orphan.  If it is accepted, the orphans that wait for it are next. -/
def connectOrphan (r : Node × List Uint256) (pblockOrphan : CBlock) :
    Except Halted (Node × List Uint256) :=
  match r.1.acceptBlock P H pblockOrphan with
  | .ok n => .ok (n.forgetOrphan P pblockOrphan, r.2 ++ [pblockOrphan.getHash P])
  | .error ⟨.reject _ _, n⟩ => .ok (n.forgetOrphan P pblockOrphan, r.2)
  | .error ⟨.throw what, n⟩ => .error ⟨.throw what, n⟩

/-- Nothing waits for this block any more. -/
def forgetWaiting (hashPrev : Uint256) : Node :=
  { n with mapOrphanBlocksByPrev :=
    n.mapOrphanBlocksByPrev.filter fun e => decide (e.1 ≠ hashPrev) }

/-- The work queue.  Every turn takes one hash off it and puts some orphans of that one on, which are
    orphans no more: `fuel` is the number of hashes and orphans. -/
def connectOrphans : Nat → Node → List Uint256 → Except Halted Node
  | _, n, [] => .ok n
  | 0, n, _ :: _ => .error ⟨.throw "ProcessBlock() : the work queue does not end", n⟩
  | fuel + 1, n, hashPrev :: vWorkQueue => do
    let r ← (n.orphansOf hashPrev).foldlM (connectOrphan P H) (n, vWorkQueue)
    connectOrphans fuel (r.1.forgetWaiting hashPrev) r.2

/-! ## `ProcessBlock` -/

/-- The block goes into the tree, and then the orphans that waited for it. -/
def connectWithOrphans (b : CBlock) : Except Halted Node := do
  let n ← orFalse (n.acceptBlock P H b) "ProcessBlock() : AcceptBlock FAILED"
  n.connectOrphans P H (n.mapOrphanBlocksByPrev.length + 1) [b.getHash P]

/-- The holder of the master key sends a new checkpoint; whether it could is not looked at. -/
def sendNewCheckpoint (fFrom : Bool) : Except Halted Node :=
  if fFrom ∧ K.sign.isSome then do
    let hashCheckpoint ← n.autoSelectSyncCheckpoint
    ignoring (n.sendSyncCheckpoint P K hashCheckpoint)
  else .ok n

/-- `fFrom`: does the block come from a peer? -/
def processBlock (fFrom : Bool) (b : CBlock) : Except Halted Node := do
  n.test (n.preliminaryChecks P b)
  let n ← n.proveStake P H b
  n.test (n.checkEnoughProof P fFrom b)
  if (n.tree.mapBlockIndex.lookup b.hashPrevBlock).isNone then n.addOrphan P b
  else do
    let n ← n.connectWithOrphans P H b
    n.sendNewCheckpoint P K fFrom

end Node
end Silkcoin
