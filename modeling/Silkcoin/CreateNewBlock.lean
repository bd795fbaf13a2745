/-
  `CreateNewBlock`: a block template from the memory pool.

  First a pass over the pool (`collectTx`).  A transaction whose inputs are all on disk goes to the
  priority queue; one that spends another transaction of the pool is a `COrphan` and waits, and
  `mapDependers` says who waits for whom.

  Then the queue (`takeFromQueue`): the transaction on top is taken off, and SKIPPED if it does not fit,
  pays too little, or does not connect.  A transaction is tried on a copy of `mapTestPool`, the index
  with all that was taken so far; only if it connects does the copy stay, and what waited for it alone
  goes to the queue (`releaseDepender`).

  Which of the transactions in the queue is on top is a matter of priorities, which are `double`s, and of
  the heap, which chooses among equals.  Both are left open: `Doubles` is the arithmetic, and `Heap` may
  hand out the queue in any order.
-/
import Silkcoin.Mempool

namespace Silkcoin

open Validation BatchStore

/-! ## Priorities -/

/-- The arithmetic of `double`. -/
structure Doubles (D : Type) where
  ofInt : Int → D
  add : D → D → D
  mul : D → D → D
  div : D → D → D
  lt : D → D → Bool
  eq : D → D → Bool

structure TxPriority (D : Type) where
  dPriority : D
  dFeePerKb : D
  tx : CTransaction

/-- `TxPriorityCompare`: is `a` less than `b`? -/
def txPriorityCompare {D : Type} (F : Doubles D) (byFee : Bool) (a b : TxPriority D) : Bool :=
  if byFee then
    if F.eq a.dFeePerKb b.dFeePerKb then F.lt a.dPriority b.dPriority
    else F.lt a.dFeePerKb b.dFeePerKb
  else
    if F.eq a.dPriority b.dPriority then F.lt a.dFeePerKb b.dFeePerKb
    else F.lt a.dPriority b.dPriority

/-- `make_heap`, `push_heap` and `pop_heap`: one element comes off, under the order of the moment, and
    the others stay. -/
structure Heap (D : Type) where
  pop : (TxPriority D → TxPriority D → Bool) → List (TxPriority D) →
    Option (TxPriority D × List (TxPriority D))
  pop_perm : ∀ {less l top rest}, pop less l = some (top, rest) → (top :: rest).Perm l
  pop_none : ∀ {less l}, pop less l = none → l = []

/-- The settings of the miner. -/
structure MinerArgs where
  blockmaxsize : UInt32
  blockprioritysize : UInt32
  blockminsize : UInt32
  mintxfee : Int

namespace MinerArgs

variable (args : MinerArgs)

/-- Limited to between 1K and `MAX_BLOCK_SIZE - 1K`. -/
def nBlockMaxSize : Nat := max 1000 (min (MAX_BLOCK_SIZE - 1000) args.blockmaxsize.toNat)

def nBlockPrioritySize : Nat := min args.nBlockMaxSize args.blockprioritysize.toNat

def nBlockMinSize : Nat := min args.nBlockMaxSize args.blockminsize.toNat

end MinerArgs

/-- Never set in this program. -/
def COINBASE_FLAGS : CScript := []

/-- `SetDestination` of a key. -/
def payToKeyHash (keyID : BitVec 160) : CScript :=
  [0x76, 0xa9, 0x14] ++ (List.range 20).map (fun i => UInt8.ofNat (keyID.toNat / 256 ^ i)) ++ [0x88, 0xac]

/-- A transaction that waits for others in the pool. -/
structure COrphan (D : Type) where
  tx : CTransaction
  setDependsOn : List Uint256
  dPriority : D
  dFeePerKb : D

/-- How deep the block of an index entry is in the best chain. -/
def CTxIndex.getDepthInMainChain (P : Primitives) (s : NodeState) (txindex : CTxIndex) : Int :=
  match s.files.readHeader txindex.pos.nFile txindex.pos.nBlockPos with
  | none => 0
  | some block =>
    match s.tree.mapBlockIndex.lookup (P.blockHash block) with
    | none | some [] => 0
    | some (pindex :: pprev) =>
      if (s.mem pindex.hashBlock).pnext.isSome ∨ pindex :: pprev = s.pindexBest then
        1 + s.nBestHeight - pindex.nHeight
      else 0

namespace NodeState

variable {D : Type} (P : Primitives) (F : Doubles D) (heap : Heap D) (args : MinerArgs) (s : NodeState)

/-! ## The pass over the pool -/

/-- The queue, and the transactions that wait, by hash. -/
structure Collected (D : Type) where
  vecPriority : List (TxPriority D)
  vOrphan : StdMap Uint256 (COrphan D)
  mapDependers : StdMap Uint256 (List Uint256)

/-- The local variables of the loop over the inputs of a transaction; `setDependsOn` is that of
    `porphan`, if there is one. -/
structure InputScan (D : Type) where
  setDependsOn : Option (List Uint256)
  mapDependers : StdMap Uint256 (List Uint256)
  dPriority : D
  nTotalIn : Int
  fMissingInputs : Bool

/-- One input of the transaction `hash`.  A missing input ends the loop and takes `porphan` out of the
    list; what was noted in `mapDependers` stays. -/
def scanInput (hash : Uint256) (r : InputScan D) (txin : CTxIn) : Check (InputScan D) :=
  if r.fMissingInputs then .ok r
  else
    match s.txdb.readPrevTx s.files txin.prevout with
    | some (txPrev, txindex) =>
      let nValueIn := ((txPrev.vout[txin.prevout.n.toNat]?).map CTxOut.nValue).getD 0
      .ok { r with
        nTotalIn := int64 (r.nTotalIn + nValueIn)
        dPriority := F.add r.dPriority
          (F.mul (F.ofInt nValueIn) (F.ofInt (txindex.getDepthInMainChain P s))) }
    | none =>
      match s.mempool.mapTx.lookup txin.prevout.hash with
      | none => .ok { r with fMissingInputs := true, setDependsOn := none }
      | some txPrev =>
        match txPrev.vout[txin.prevout.n.toNat]? with
        | none => .error (.throw "vout[txin.prevout.n]")
        | some txout => .ok { r with
            mapDependers := r.mapDependers.insert txin.prevout.hash
              ((r.mapDependers.lookup txin.prevout.hash).getD [] ++ [hash])
            setDependsOn := some ((r.setDependsOn.getD []).insert txin.prevout.hash)
            nTotalIn := int64 (r.nTotalIn + txout.nValue) }

/-- One transaction of the pool: to the queue, or to those that wait. -/
def collectTx (c : Collected D) (entry : Sigma fun _ : Uint256 => CTransaction) :
    Check (Collected D) :=
  let hash := entry.1
  let tx := entry.2
  if tx.isCoinBase ∨ tx.isCoinStake ∨ tx.isFinal s.nBestHeight s.nAdjustedTime 0 0 = false then .ok c
  else do
    let r ← tx.vin.foldlM (scanInput P F s hash) ⟨none, c.mapDependers, F.ofInt 0, 0, false⟩
    if r.fMissingInputs then return { c with mapDependers := r.mapDependers }
    else do
      let nTxSize : Int := tx.getSerializeSize
      let dPriority := F.div r.dPriority (F.ofInt nTxSize)
      let nValueOut ← tx.getValueOut
      let dFeePerKb := F.div (F.ofInt (int64 (r.nTotalIn - nValueOut)))
        (F.div (F.ofInt nTxSize) (F.ofInt 1000))
      match r.setDependsOn with
      | some setDependsOn => return { c with
          mapDependers := r.mapDependers
          vOrphan := c.vOrphan.insert hash ⟨tx, setDependsOn, dPriority, dFeePerKb⟩ }
      | none => return { c with
          mapDependers := r.mapDependers
          vecPriority := c.vecPriority ++ [⟨dPriority, dFeePerKb, tx⟩] }

def collect : Check (Collected D) :=
  s.mempool.mapTx.entries.foldlM (collectTx P F s) ⟨[], ∅, ∅⟩

/-! ## From the queue into the block -/

/-- The local variables of the loop over the queue; `vtx` are the transactions after the coinbase. -/
structure Assembly (D : Type) where
  vtx : List CTransaction
  mapTestPool : QueuedChanges
  nBlockSize : Nat
  nBlockSigOps : Nat
  nFees : Int
  fSortedByFee : Bool
  vecPriority : List (TxPriority D)
  vOrphan : StdMap Uint256 (COrphan D)

/-- `if (!call(..)) continue;`: `none` is the `continue`. -/
def orSkip {α : Type} (x : Check α) : Check (Option α) :=
  match x with
  | .ok a => .ok (some a)
  | .error (.reject _ _) => .ok none
  | .error (.throw what) => .error (.throw what)

/-- What a transaction adds to the block: the index with it, its signature operations and its fees. -/
structure Contribution where
  mapTestPool : QueuedChanges
  nTxSigOps : Nat
  nTxFees : Int

/-- The transaction on a copy of the test pool. -/
def tryTx (pindexPrev : BlockPtr) (mapTestPool : QueuedChanges) (nBlockSigOps : Nat) (nMinFee : Int)
    (tx : CTransaction) : Check (Option Contribution) := do
  match ← orSkip (orFail (tx.fetchInputs s.globals s.txdb mapTestPool false true) Prod.fst) with
  | none => return none
  | some mapInputs => do
    let nValueIn ← tx.getValueIn mapInputs
    let nValueOut ← tx.getValueOut
    let nTxFees := int64 (nValueIn - nValueOut)
    if nTxFees < nMinFee then return none
    else do
      let nP2SH ← tx.getP2SHSigOpCount mapInputs
      let nTxSigOps := tx.getLegacySigOpCount + nP2SH
      if nBlockSigOps + nTxSigOps ≥ MAX_BLOCK_SIGOPS then return none
      else do
        match ← orSkip (tx.connectInputs P s.globals mapInputs mapTestPool CDiskTxPos.memoryPool
            pindexPrev false true) with
        | none => return none
        | some mapTestPool => return some {
            mapTestPool := mapTestPool.insert (P.getHash tx)
              (CTxIndex.new CDiskTxPos.memoryPool tx.vout.length)
            nTxSigOps := nTxSigOps
            nTxFees := nTxFees }

/-- A transaction that waited for `hash`: if it waited for nothing else it goes to the queue. -/
def releaseDepender (hash : Uint256) (a : Assembly D) (depender : Uint256) : Check (Assembly D) :=
  match a.vOrphan.lookup depender with
  | none => .error (.throw "COrphan* of an orphan that was taken out")
  | some porphan =>
    if porphan.setDependsOn = [] then .ok a
    else
      let setDependsOn := porphan.setDependsOn.filter fun h => decide (h ≠ hash)
      .ok { a with
        vOrphan := a.vOrphan.insert depender { porphan with setDependsOn := setDependsOn }
        vecPriority := if setDependsOn = [] then
            a.vecPriority ++ [⟨porphan.dPriority, porphan.dFeePerKb, porphan.tx⟩]
          else a.vecPriority }

/-- Does the transaction fit, is its time right, and is it worth its place? -/
def fits (fProofOfStake : Bool) (nCoinBaseTime : UInt32) (a : Assembly D) (top : TxPriority D) : Bool :=
  let nTxSize := top.tx.getSerializeSize
  decide (a.nBlockSize + nTxSize < args.nBlockMaxSize) &&
    decide (a.nBlockSigOps + top.tx.getLegacySigOpCount < MAX_BLOCK_SIGOPS) &&
    !(decide ((top.tx.nTime.toNat : Int) > s.nAdjustedTime) ||
      (fProofOfStake && decide (top.tx.nTime > nCoinBaseTime))) &&
    !(a.fSortedByFee && F.lt top.dFeePerKb (F.ofInt args.mintxfee) &&
      decide (a.nBlockSize + nTxSize ≥ args.nBlockMinSize))

/-- Past the priority size, or out of high-priority transactions, the queue is sorted by fee. -/
def sortByFee (a : Assembly D) (top : TxPriority D) : Bool :=
  a.fSortedByFee ||
    decide (a.nBlockSize + top.tx.getSerializeSize ≥ args.nBlockPrioritySize) ||
    F.lt top.dPriority (F.ofInt ((COIN * 144).tdiv 250))

/-- The transaction on top of the queue, which is off it already. -/
def takeTx (mapDependers : StdMap Uint256 (List Uint256)) (pindexPrev : BlockPtr) (fProofOfStake : Bool)
    (nCoinBaseTime : UInt32) (a : Assembly D) (top : TxPriority D) : Check (Assembly D) :=
  if fits F args s fProofOfStake nCoinBaseTime a top then do
    let nMinFee := top.tx.getMinFee a.nBlockSize .GMF_BLOCK 0
    let a := { a with fSortedByFee := sortByFee F args a top }
    match ← tryTx P s pindexPrev a.mapTestPool a.nBlockSigOps nMinFee top.tx with
    | none => return a
    | some c =>
      let hash := P.getHash top.tx
      ((mapDependers.lookup hash).getD []).foldlM (releaseDepender hash) { a with
        vtx := a.vtx ++ [top.tx]
        mapTestPool := c.mapTestPool
        nBlockSize := a.nBlockSize + top.tx.getSerializeSize
        nBlockSigOps := a.nBlockSigOps + c.nTxSigOps
        nFees := int64 (a.nFees + c.nTxFees) }
  else .ok a

/-- The loop.  Every transaction is in the queue once, and `fuel` is the number of those in it and of
    those that wait. -/
def takeFromQueue (mapDependers : StdMap Uint256 (List Uint256)) (pindexPrev : BlockPtr)
    (fProofOfStake : Bool) (nCoinBaseTime : UInt32) : Nat → Assembly D → Check (Assembly D)
  | fuel, a =>
    match heap.pop (txPriorityCompare F a.fSortedByFee) a.vecPriority with
    | none => .ok a
    | some (top, rest) =>
      match fuel with
      | 0 => .error (.throw "CreateNewBlock() : the queue does not end")
      | fuel + 1 => do
        let a ← takeTx P F args s mapDependers pindexPrev fProofOfStake nCoinBaseTime
          { a with vecPriority := rest } top
        takeFromQueue mapDependers pindexPrev fProofOfStake nCoinBaseTime fuel a

/-! ## The template -/

/-- The coinbase: in a proof-of-stake block the height and an empty output, otherwise an output to the
    reserved key. -/
def newCoinBase (nHeight : Nat) (fProofOfStake : Bool) (keyID : BitVec 160) (nValue : Int) :
    CTransaction where
  nVersion := 1
  nTime := unsigned s.nAdjustedTime
  vin := [⟨COutPoint.null, if fProofOfStake then pushInt64 nHeight ++ COINBASE_FLAGS else [],
    0xffffffff⟩]
  vout := [if fProofOfStake then ⟨0, []⟩ else ⟨nValue, payToKeyHash keyID⟩]
  nLockTime := 0

def getMaxTransactionTime (vtx : List CTransaction) : Int :=
  vtx.foldl (fun t tx => max t tx.nTime.toNat) 0

/-- The time of the new block: not before the transactions in it. -/
def newBlockTime (pindexPrev : CBlockIndex) (below : BlockPtr) (fProofOfStake : Bool)
    (vtx : List CTransaction) : UInt32 :=
  let nTime := unsigned (max (BlockPtr.getMedianTimePast (pindexPrev :: below) + 1)
    (getMaxTransactionTime vtx))
  let nTime := unsigned (max nTime.toNat (pindexPrev.getBlockTime - 10 * 60))
  if fProofOfStake then nTime else unsigned (max nTime.toNat s.nAdjustedTime)

/-- Returns the template and the fees in it.  `keyID` is the key the wallet has reserved. -/
def createNewBlock (fProofOfStake : Bool) (keyID : BitVec 160) : Check (CBlock × Int) :=
  match s.pindexBest with
  | [] => .error (.throw "null pointer")
  | pindexPrev :: below => do
    let coinBase := newCoinBase s (pindexPrev.nHeight + 1) fProofOfStake keyID 0
    require (!fProofOfStake || decide (coinBase.coinBaseScriptSize ≤ 100))
      (.throw "assert(txNew.vin[0].scriptSig.size() <= 100)")
    let c ← collect P F s
    let a ← takeFromQueue P F heap args s c.mapDependers (pindexPrev :: below) fProofOfStake
      coinBase.nTime s.mempool.mapTx.entries.length {
        vtx := []
        mapTestPool := ∅
        nBlockSize := 1000
        nBlockSigOps := 100
        nFees := 0
        fSortedByFee := decide (args.nBlockPrioritySize = 0)
        vecPriority := c.vecPriority
        vOrphan := c.vOrphan }
    let coinBase := newCoinBase s (pindexPrev.nHeight + 1) fProofOfStake keyID
      (getProofOfWorkReward a.nFees pindexPrev.nHeight)
    return ({
      nVersion := 6
      hashPrevBlock := pindexPrev.hashBlock
      hashMerkleRoot := 0
      nTime := newBlockTime s pindexPrev below fProofOfStake (coinBase :: a.vtx)
      nBits := getNextTargetRequired s.globals (pindexPrev :: below) fProofOfStake
      nNonce := 0
      vtx := coinBase :: a.vtx
      vchBlockSig := [] }, a.nFees)

end NodeState
end Silkcoin
