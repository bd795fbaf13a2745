/-
  A new block on disk and in the tree.

  `Node` is the state of the whole node: the chain state of `NodeState`, the stake proofs, the orphans,
  and what the checkpoint messages leave behind.  A call that returns `false` hands back the state it
  leaves (`Halted`), as a call that returns `true` does; behind an exception there is no next state.

  `writeToDisk` APPENDS.  Where a block file ends is up to the file system: `appends` lists the places
  for the next blocks, and a place that is not past all that was written is no place to append at.

  `addToBlockIndex` makes the entry (`newBlockIndex`: everything a block's entry owes to the blocks
  below it), puts it in the tree, writes its record in a transaction of its own, and then moves the tip
  if the new chain has MORE trust than the best one.
-/
import Silkcoin.Kernel
import Silkcoin.Value

namespace Silkcoin

open Validation BatchStore

/-! ## The state of the node -/

/-- A checkpoint message: what it says, and the bytes it was signed as. -/
structure CSyncCheckpoint where
  nVersion : UInt32
  hashCheckpoint : Uint256
  vchMsg : List UInt8
  vchSig : List UInt8
deriving DecidableEq, Repr

namespace CSyncCheckpoint

/-- `SetNull`. -/
def null : CSyncCheckpoint := ⟨1, 0, [], []⟩

end CSyncCheckpoint

structure Node extends NodeState where
  /-- the proof hash of every proof-of-stake block that was checked -/
  mapProofOfStake : StdMap Uint256 Uint256
  setStakeSeen : List (COutPoint × UInt32)
  mapOrphanBlocks : StdMap Uint256 CBlock
  /-- a multimap: the orphans under the hash of their parent, oldest first -/
  mapOrphanBlocksByPrev : List (Uint256 × CBlock)
  setStakeSeenOrphan : List (COutPoint × UInt32)
  hashPendingCheckpoint : Uint256
  checkpointMessage : CSyncCheckpoint
  checkpointMessagePending : CSyncCheckpoint
  hashInvalidCheckpoint : Uint256
  /-- file and offset of the next blocks; `none`: the disk is full, or the file does not open -/
  appends : List (Option (UInt32 × UInt32))

/-- A call that did not return `true`, and the node it left behind. -/
structure Halted where
  why : Failure
  node : Node

/-! ## What a call leaves behind -/

/-- A call that returns `true` returns an `A`; one that returns `false` leaves a node with `Q`.  Of an
    exception nothing is said. -/
def Leaves {α : Type} (A : α → Prop) (Q : Node → Prop) : Except Halted α → Prop
  | .ok a => A a
  | .error ⟨.reject _ _, n⟩ => Q n
  | .error ⟨.throw _, _⟩ => True

namespace Leaves

variable {α β : Type} {A : α → Prop} {B : β → Prop} {Q Q' : Node → Prop}

theorem ok {a : α} (h : A a) : Leaves A Q (.ok a) := h

theorem error {e : Halted} (h : Q e.node) : Leaves A Q (.error e) := by
  obtain ⟨why, n⟩ := e
  cases why with
  | reject nDoS msg => exact h
  | throw what => trivial

theorem bind {x : Except Halted α} {f : α → Except Halted β} (hx : Leaves A Q x)
    (hf : ∀ a, x = .ok a → A a → Leaves B Q (f a)) : Leaves B Q (x >>= f) := by
  cases x with
  | ok a => exact hf a rfl hx
  | error e =>
    obtain ⟨why, n⟩ := e
    cases why with
    | reject nDoS msg => exact hx
    | throw what => trivial

theorem mono {A' : α → Prop} {x : Except Halted α} (hx : Leaves A Q x) (hA : ∀ a, A a → A' a)
    (hQ : ∀ n, Q n → Q' n) : Leaves A' Q' x := by
  cases x with
  | ok a => exact hA a hx
  | error e =>
    obtain ⟨why, n⟩ := e
    cases why with
    | reject nDoS msg => exact hQ n hx
    | throw what => trivial

/-- The loop rule: what holds after the processed prefix. -/
theorem foldlM {f : β → α → Except Halted β} {l : List α} {I : List α → β → Prop} {b : β}
    (h0 : I [] b)
    (step : ∀ pre a s, I pre s → Leaves (I (pre ++ [a])) Q (f s a)) : Leaves (I l) Q (l.foldlM f b) := by
  have aux : ∀ (post pre : List α) (s : β), I pre s → Leaves (I (pre ++ post)) Q (post.foldlM f s) := by
    intro post
    induction post with
    | nil =>
      intro pre s hs
      rw [List.append_nil]
      exact hs
    | cons a post ih =>
      intro pre s hs
      rw [List.foldlM_cons]
      refine (step pre a s hs).bind fun s' _ hs' => ?_
      have := ih (pre ++ [a]) s' hs'
      rwa [List.append_assoc] at this
  exact aux l [] b h0

/-- The caller's words for a failure; an exception stays one. -/
theorem orFail {x : Except Halted α} {f : Halted → Halted} (hx : Leaves A Q x)
    (hf : ∀ e, (f e).node = e.node) (hthrow : ∀ what n, (f ⟨.throw what, n⟩).why = .throw what) :
    Leaves A Q (Validation.orFail x f) := by
  cases x with
  | ok a => exact hx
  | error e =>
    obtain ⟨why, n⟩ := e
    cases why with
    | reject nDoS msg =>
      have hn : Q (f ⟨.reject nDoS msg, n⟩).node := by
        rw [hf]
        exact hx
      exact error hn
    | throw what =>
      show Leaves A Q (.error (f ⟨.throw what, n⟩))
      have hwhy := hthrow what n
      generalize f ⟨.throw what, n⟩ = e at hwhy
      obtain ⟨why, n'⟩ := e
      dsimp only at hwhy
      rw [hwhy]
      trivial

end Leaves

/-! ## The block files -/

/-- The largest size of anything that is serialized. -/
def nMaxSerializeSize : Nat := 0x02000000

namespace BlockFiles

variable (files : BlockFiles)

/-- The block is at the end of its file: behind the message start and the size, not too far out, and
    nothing was written there before. -/
def endsAt (nFile nBlockPos : UInt32) (b : CBlock) : Bool :=
  openable nFile && decide (8 ≤ nBlockPos.toNat) &&
    decide (nBlockPos.toNat < 0x7F000000 - nMaxSerializeSize + 8) &&
    (files.block nFile nBlockPos).isNone && (files.header nFile nBlockPos).isNone &&
    (splits b.vtx).all fun p =>
      (files.tx nFile (CBlock.txOffset (CBlockIndex.ofBlock nFile nBlockPos b) b p.1)).isNone

/-- The files with the block written. -/
def append (nFile nBlockPos : UInt32) (b : CBlock) : BlockFiles where
  tx f pos :=
    let written := (splits b.vtx).find? fun p =>
      decide (f = nFile ∧ pos = CBlock.txOffset (CBlockIndex.ofBlock nFile nBlockPos b) b p.1)
    match written with
    | some p => some p.2
    | none => files.tx f pos
  block f pos := if f = nFile ∧ pos = nBlockPos then some b else files.block f pos
  header f pos := if f = nFile ∧ pos = nBlockPos then some b.toCBlockHeader else files.header f pos

end BlockFiles

/-! ## A new entry -/

/-- The entry of a block: what its constructor takes from the block, and what follows from the entries
    below it. -/
def newBlockIndex (P : Primitives) (H : KernelHashes) (fTestNet : Bool)
    (mapBlockIndex : StdMap Uint256 BlockPtr) (mapProofOfStake : StdMap Uint256 Uint256)
    (nFile nBlockPos : UInt32) (b : CBlock) : Check BlockPtr := do
  let pprev := (mapBlockIndex.lookup b.hashPrevBlock).getD []
  let pindexNew : CBlockIndex := { CBlockIndex.ofBlock nFile nBlockPos b with
    hashBlock := b.getHash P
    nHeight := ((pprev.head?.map CBlockIndex.nHeight).map Nat.succ).getD 0
    nChainTrust := NodeState.chainTrust pprev + getBlockTrust b.nBits }
  match pindexNew.setStakeEntropyBit (b.getStakeEntropyBit P) with
  | none => .error (.reject 0 "AddToBlockIndex() : SetStakeEntropyBit() failed")
  | some pindexNew => do
    let hashProofOfStake ←
      if pindexNew.isProofOfStake then
        match mapProofOfStake.lookup pindexNew.hashBlock with
        | none => .error (.reject 0 "AddToBlockIndex() : hashProofOfStake not found in map")
        | some hashProofOfStake => .ok hashProofOfStake
      else .ok 0
    let (nStakeModifier, fGeneratedStakeModifier) ←
      orFail (computeNextStakeModifier H mapBlockIndex pprev)
        (Failure.instead (.reject 0 "AddToBlockIndex() : ComputeNextStakeModifier() failed"))
    let pindexNew := { pindexNew with hashProofOfStake := hashProofOfStake }.setStakeModifier
      nStakeModifier fGeneratedStakeModifier
    let nStakeModifierChecksum ← getStakeModifierChecksum H fTestNet pindexNew pprev
    require (checkStakeModifierCheckpoints pindexNew.nHeight nStakeModifierChecksum)
      (.reject 0 "AddToBlockIndex() : Rejected by stake modifier checkpoint")
    return { pindexNew with nStakeModifierChecksum := nStakeModifierChecksum } :: pprev

/-! ## `AddToBlockIndex` -/

namespace Node

variable (P : Primitives) (H : KernelHashes) (n : Node)

/-- A routine on the chain state.  It has a `CTxDB` of its own, and an open batch dies with that. -/
def withTxDB (x : Except Stopped NodeState) : Except Halted Node :=
  match x with
  | .ok s => .ok { n with toNodeState := s.txnAbort }
  | .error e => .error ⟨e.why, { n with toNodeState := e.state.txnAbort }⟩

/-- The caller turns a returned `false` into its own. -/
def orFalse (x : Except Halted Node) (msg : String) : Except Halted Node :=
  orFail x fun e => ⟨e.why.retext msg, e.node⟩

/-- Where the block is on disk. -/
def writeToDisk (b : CBlock) : Except Halted (Node × UInt32 × UInt32) :=
  let n' := { n with appends := n.appends.tail }
  match n.appends.head?.join with
  | none => .error ⟨.reject 0 "AcceptBlock() : WriteToDisk failed", n'⟩
  | some (nFile, nBlockPos) =>
    if n.files.endsAt nFile nBlockPos b then
      .ok ({ n' with files := n.files.append nFile nBlockPos b }, nFile, nBlockPos)
    else .error ⟨.reject 0 "AcceptBlock() : WriteToDisk failed", n'⟩

/-- A new entry in the tree; its stake is taken. -/
def insertBlockIndex (pindexNew : CBlockIndex) (pprev : BlockPtr) : Node :=
  { n with
    tree := { n.tree with
      mapBlockIndex := n.tree.mapBlockIndex.insert pindexNew.hashBlock (pindexNew :: pprev) }
    mem := Function.update n.mem pindexNew.hashBlock BlockMem.new
    setStakeSeen := if pindexNew.isProofOfStake then
        (pindexNew.prevoutStake, pindexNew.nStakeTime) :: n.setStakeSeen
      else n.setStakeSeen }

/-- The record of a new entry, in a transaction of its own. -/
def writeNewIndex (s : NodeState) (pindexNew : CBlockIndex) (pprev : BlockPtr) :
    Except Stopped NodeState := do
  let s ← s.txnBegin
  NodeState.txnCommit { s with
    txdb := s.txdb.writeBlockIndex P
      (CDiskBlockIndex.ofIndex pindexNew pprev (s.mem pindexNew.hashBlock)) } .quiet

def addToBlockIndex (nFile nBlockPos : UInt32) (b : CBlock) : Except Halted Node := do
  orFail (require (n.tree.mapBlockIndex.lookup (b.getHash P)).isNone
    (.reject 0 "AddToBlockIndex() : already exists")) fun why => ⟨why, n⟩
  let pindexNew ← orFail (newBlockIndex P H n.fTestNet n.tree.mapBlockIndex n.mapProofOfStake nFile
    nBlockPos b) fun why => ⟨why, n⟩
  match pindexNew with
  | [] => .error ⟨.throw "null pointer", n⟩
  | pindexNew :: pprev => do
    let n := n.insertBlockIndex pindexNew pprev
    let n ← n.withTxDB (writeNewIndex P n.toNodeState pindexNew pprev)
    if pindexNew.nChainTrust > n.nBestChainTrust then
      n.withTxDB (n.toNodeState.setBestChain P (pindexNew :: pprev) b)
    else return n

end Node
end Silkcoin
