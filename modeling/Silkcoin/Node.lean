/-
  The node as a state machine: the memory pool, and the switch of the best chain.

  A routine takes a `NodeState` and returns the next one, or it stops with what it has changed so far
  (`Stopped`).  That matters here: `SetBestChain` may fail half way, and its cleanup undoes some of
  what was done and not the rest.  A routine that `return false`s is handled by its caller
  (`onFalse`); an exception is not.

  `setBestChain` has three branches: the genesis block, a block on top of the tip, and anything else.
  The last reorganises to the FIRST block of the new branch that has more trust than the tip, in one
  database transaction, and then connects the blocks above it one by one (`connectFurther`), each in a
  transaction of its own.  A failure there ends the loop and nothing more: "errors now are not fatal".

  A `TxnCommit` may fail; `commits` says which ones do.
-/
import Silkcoin.ConnectBlock
import Silkcoin.Wallet

namespace Silkcoin

open Validation BatchStore

/-! ## The memory pool -/

/-- The transactions by hash, and for every outpoint they spend the transaction (by hash) and input. -/
structure CTxMemPool where
  mapTx : StdMap Uint256 CTransaction
  mapNextTx : StdMap COutPoint (Uint256 × Nat)

namespace CTxMemPool

variable (P : Primitives) (fTestNet : Bool) (pool : CTxMemPool)

def addUnchecked (hash : Uint256) (tx : CTransaction) : CTxMemPool where
  mapTx := pool.mapTx.insert hash tx
  mapNextTx := tx.vin.zipIdx.foldl (fun m p => m.insert p.1.prevout (hash, p.2)) pool.mapNextTx

/-- `remove`; with `fRecursive` first what spends the outputs, then the transaction itself.  No chain
    of spenders is longer than the pool, and `fuel` is its size. -/
def remove (fRecursive : Bool) : Nat → CTxMemPool → CTransaction → CTxMemPool
  | 0, pool, _ => pool
  | fuel + 1, pool, tx =>
    let hash := P.getHash tx
    if (pool.mapTx.lookup hash).isSome then
      let pool := if fRecursive then
          (List.range tx.vout.length).foldl (fun pool n =>
            match pool.mapNextTx.lookup ⟨hash, UInt32.ofNat n⟩ with
            | none => pool
            | some (next, _) =>
              match pool.mapTx.lookup next with
              | none => pool
              | some txNext => remove fRecursive fuel pool txNext) pool
        else pool
      { mapTx := pool.mapTx.erase hash
        mapNextTx := tx.vin.foldl (fun m txin => m.erase txin.prevout) pool.mapNextTx }
    else pool

def removeTx (tx : CTransaction) : CTxMemPool := pool.remove P false 1 tx

/-- Remove what spends the inputs of `tx`, and what depends on it. -/
def removeConflicts (tx : CTransaction) : CTxMemPool :=
  tx.vin.foldl (fun pool txin =>
    match pool.mapNextTx.lookup txin.prevout with
    | none => pool
    | some (conflict, _) =>
      match pool.mapTx.lookup conflict with
      | none => pool
      | some txConflict =>
        if txConflict ≠ tx then pool.remove P true pool.mapTx.entries.length txConflict else pool) pool

/-- `accept` without a look at the inputs, as `Reorganize` calls it. -/
def accept (tx : CTransaction) : Check CTxMemPool := do
  orFail tx.checkTransaction
    (Failure.instead (.reject 0 "CTxMemPool::accept() : CheckTransaction failed"))
  require (!tx.isCoinBase) (.reject 100 "CTxMemPool::accept() : coinbase as individual tx")
  require (!tx.isCoinStake) (.reject 100 "CTxMemPool::accept() : coinstake as individual tx")
  require (¬ tx.nLockTime.toNat > 2147483647)
    (.reject 0 "CTxMemPool::accept() : not accepting nLockTime beyond 2038 yet")
  require (fTestNet || P.isStandard tx)
    (.reject 0 "CTxMemPool::accept() : nonstandard transaction type")
  require (pool.mapTx.lookup (P.getHash tx)).isNone .quiet
  require (tx.vin.all fun txin => (pool.mapNextTx.lookup txin.prevout).isNone) .quiet
  return pool.addUnchecked (P.getHash tx) tx

/-- A transaction that is not accepted is dropped. -/
def acceptOrDrop (tx : CTransaction) : CTxMemPool :=
  match pool.accept P fTestNet tx with
  | .ok pool => pool
  | .error _ => pool

end CTxMemPool

/-! ## The state -/

/-- The global variables a chain switch reads or writes. -/
structure NodeState where
  fTestNet : Bool
  nAdjustedTime : Int
  files : BlockFiles
  tree : BlockTree
  mem : Uint256 → BlockMem
  txdb : CTxDB
  pindexGenesisBlock : BlockPtr
  hashBestChain : Uint256
  pindexBest : BlockPtr
  nBestHeight : Int
  nBestChainTrust : Uint256
  nBestInvalidTrust : Uint256
  mempool : CTxMemPool
  wallets : List CWallet
  /-- does the store take the next commits? -/
  commits : List Bool

/-- A routine that stopped early, and the state it left behind. -/
structure Stopped where
  why : Failure
  state : NodeState

/-- The caller handles a returned `false`; an exception passes. -/
def onFalse {α : Type} (x : Except Stopped α) (handle : NodeState → Stopped) : Except Stopped α :=
  match x with
  | .ok a => .ok a
  | .error ⟨.reject _ _, s⟩ => .error (handle s)
  | .error ⟨.throw what, s⟩ => .error ⟨.throw what, s⟩

/-- What a dereferenced null pointer comes to. -/
def nullPointer (s : NodeState) : Stopped := ⟨.throw "null pointer", s⟩

namespace NodeState

variable (P : Primitives) (s : NodeState)

def globals : Globals where
  fTestNet := s.fTestNet
  nAdjustedTime := s.nAdjustedTime
  pindexBest := s.pindexBest
  nBestHeight := s.nBestHeight
  mempool := fun hash => s.mempool.mapTx.lookup hash
  files := s.files

/-! ## The database transaction -/

def txnBegin : Except Stopped NodeState :=
  if s.txdb.activeBatch.isSome then .error ⟨.throw "assert(!activeBatch)", s⟩
  else .ok { s with txdb := s.txdb.txnBegin }

def txnAbort : NodeState := { s with txdb := s.txdb.txnAbort }

def txnCommit (e : Failure) : Except Stopped NodeState :=
  let ok := s.commits.headD true
  let s := { s with txdb := s.txdb.txnCommit ok, commits := s.commits.tail }
  if ok then .ok s else .error ⟨e, s⟩

/-! ## Blocks, with the wallets told -/

def syncWithWallets (n : Notice) : Except Stopped NodeState :=
  let r := syncAll (fun w => w.sync P s.tree.mapBlockIndex s.nAdjustedTime n) s.wallets
  match r.2 with
  | .ok () => .ok { s with wallets := r.1 }
  | .error e => .error ⟨e, { s with wallets := r.1 }⟩

def connectBlock (pindex : CBlockIndex) (pprev : BlockPtr) (b : CBlock) : Except Stopped NodeState := do
  let r ← orFail (CBlock.connectBlock P s.globals s.mem s.txdb pindex pprev b false) fun e => ⟨e, s⟩
  b.connectedNotices.foldlM (syncWithWallets P) { s with txdb := r.txdb, mem := r.mem }

def disconnectBlock (pprev : BlockPtr) (b : CBlock) : Except Stopped NodeState := do
  let txdb ← orFail (CBlock.disconnectBlock P s.mem s.txdb pprev b) fun e => ⟨e, s⟩
  b.disconnectedNotices.foldlM (syncWithWallets P) { s with txdb := txdb }

/-! ## The links to the next block -/

/-- `pindex->pprev->pnext = next`, where there is a `pprev`. -/
def setNext (next : Option Uint256) (pprev : BlockPtr) : NodeState :=
  match pprev with
  | [] => s
  | prev :: _ =>
    { s with mem := Function.update s.mem prev.hashBlock { s.mem prev.hashBlock with pnext := next } }

/-- The block before is linked to this one. -/
def link (s : NodeState) (ptr : BlockPtr) : NodeState :=
  s.setNext (ptr.head?.map CBlockIndex.hashBlock) ptr.tail

def unlink (s : NodeState) (ptr : BlockPtr) : NodeState := s.setNext none ptr.tail

/-! ## `InvalidChainFound` -/

def chainTrust (ptr : BlockPtr) : Uint256 := (ptr.head?.map CBlockIndex.nChainTrust).getD 0

/-- The record is written past any open transaction. -/
def invalidChainFound (pindexNew : BlockPtr) : NodeState :=
  if chainTrust pindexNew > s.nBestInvalidTrust then
    { s with
      nBestInvalidTrust := chainTrust pindexNew
      txdb := { s.txdb with
        disk := s.txdb.disk.insert .bnBestInvalidTrust (.trust (chainTrust pindexNew).toNat) } }
  else s

/-! ## `Reorganize` -/

/-- The first block down both branches. -/
def findFork : BlockPtr → BlockPtr → Check BlockPtr
  | [], _ => .error (.reject 0 "Reorganize() : pfork->pprev is null")
  | pfork :: pprev, plonger =>
    if pfork :: pprev = plonger then .ok plonger
    else
      match plonger.dropWhile fun p => decide (p.nHeight > pfork.nHeight) with
      | [] => .error (.reject 0 "Reorganize() : plonger->pprev is null")
      | longer :: rest =>
        if pfork :: pprev = longer :: rest then .ok (longer :: rest) else findFork pprev (longer :: rest)

/-- The blocks from `pindex` down to `pfork`, without it. -/
def pathTo (pfork : BlockPtr) : BlockPtr → List BlockPtr
  | [] => []
  | p :: rest => if p :: rest = pfork then [] else (p :: rest) :: pathTo pfork rest

/-- One block off the tip; its transactions wait to go back to the memory pool. -/
def disconnectTip (r : NodeState × List CTransaction) (ptr : BlockPtr) :
    Except Stopped (NodeState × List CTransaction) :=
  match ptr with
  | [] => .error (nullPointer r.1)
  | pindex :: pprev =>
    match readFromDisk P r.1.globals pindex with
    | none => .error ⟨.reject 0 "Reorganize() : ReadFromDisk for disconnect failed", r.1⟩
    | some block => do
      let s ← onFalse (r.1.disconnectBlock P pprev block) fun s =>
        ⟨.reject 0 "Reorganize() : DisconnectBlock failed", s⟩
      return (s, r.2 ++ block.vtx.filter fun tx => !(tx.isCoinBase || tx.isCoinStake))

/-- One block on top; its transactions are to leave the memory pool. -/
def connectTip (r : NodeState × List CTransaction) (ptr : BlockPtr) :
    Except Stopped (NodeState × List CTransaction) :=
  match ptr with
  | [] => .error (nullPointer r.1)
  | pindex :: pprev =>
    match readFromDisk P r.1.globals pindex with
    | none => .error ⟨.reject 0 "Reorganize() : ReadFromDisk for connect failed", r.1⟩
    | some block => do
      let s ← onFalse (r.1.connectBlock P pindex pprev block) fun s =>
        ⟨.reject 0 "Reorganize() : ConnectBlock failed", s⟩
      return (s, r.2 ++ block.vtx)

/-- The memory pool after the switch. -/
def updatePool (vResurrect vDelete : List CTransaction) : NodeState :=
  let pool := vResurrect.foldl (fun pool tx => pool.acceptOrDrop P s.fTestNet tx) s.mempool
  { s with mempool := vDelete.foldl (fun pool tx => (pool.removeTx P tx).removeConflicts P tx) pool }

/-- The branch of the tip off, the branch of `pindexNew` on, and the commit. -/
def replaceBranch (vDisconnect vConnect : List BlockPtr) (hashNew : Uint256) :
    Except Stopped NodeState := do
  let r ← vDisconnect.foldlM (disconnectTip P) (s, [])
  let r' ← vConnect.foldlM (connectTip P) (r.1, [])
  let s ← txnCommit { r'.1 with txdb := r'.1.txdb.writeHashBestChain hashNew }
    (.reject 0 "Reorganize() : TxnCommit failed")
  return (vConnect.foldl link (vDisconnect.foldl unlink s)).updatePool P r.2 r'.2

def reorganize (pindexNew : BlockPtr) : Except Stopped NodeState := do
  let pfork ← orFail (findFork s.pindexBest pindexNew) fun e => ⟨e, s⟩
  s.replaceBranch P (pathTo pfork s.pindexBest) (pathTo pfork pindexNew).reverse
    ((pindexNew.head?.map CBlockIndex.hashBlock).getD 0)

/-! ## `SetBestChain` -/

/-- `SetBestChainInner`: the block on top of what the database holds. -/
def setBestChainInner (pindexNew : BlockPtr) (b : CBlock) : Except Stopped NodeState :=
  match pindexNew with
  | pindex :: prev :: rest => do
    let s ← onFalse (s.connectBlock P pindex (prev :: rest) b) fun s =>
      ⟨.quiet, s.txnAbort.invalidChainFound pindexNew⟩
    let s ← txnCommit { s with txdb := s.txdb.writeHashBestChain (b.getHash P) }
      (.reject 0 "SetBestChain() : TxnCommit failed")
    let s := s.link pindexNew
    return { s with mempool := b.vtx.foldl (fun pool tx => pool.removeTx P tx) s.mempool }
  | _ => .error (nullPointer s)

/-- The first block of the branch with more trust than the tip, and the blocks above it, topmost
    first. -/
def intermediate (nBestTrust : Uint256) : BlockPtr → BlockPtr × List BlockPtr
  | pindex :: prev :: rest =>
    if prev.nChainTrust > nBestTrust then
      let r := intermediate nBestTrust (prev :: rest)
      (r.1, (pindex :: prev :: rest) :: r.2)
    else (pindex :: prev :: rest, [])
  | pindexNew => (pindexNew, [])

/-- One postponed block, read back from disk. -/
def connectPostponed (ptr : BlockPtr) : Except Stopped NodeState :=
  match ptr.head?.bind (readFromDisk P s.globals) with
  | none => .error ⟨.reject 0 "SetBestChain() : ReadFromDisk failed", s⟩
  | some block => do
    let s ← s.txnBegin
    s.setBestChainInner P ptr block

/-- The postponed blocks, lowest first.  A block that cannot be read or connected ends the loop. -/
def connectFurther (s : NodeState) : List BlockPtr → Except Stopped NodeState
  | [] => .ok s
  | ptr :: rest =>
    match s.connectPostponed P ptr with
    | .ok s => connectFurther s rest
    | .error ⟨.reject _ _, s⟩ => .ok s
    | .error ⟨.throw what, s⟩ => .error ⟨.throw what, s⟩

/-- The branch of `SetBestChain` for a block that is not on top of the tip. -/
def switchBranch (pindexNew : BlockPtr) : Except Stopped NodeState :=
  match s.pindexBest with
  | [] => .error (nullPointer s)
  | best :: _ => do
    let r := intermediate best.nChainTrust pindexNew
    let s ← onFalse (s.reorganize P r.1) fun s =>
      ⟨.reject 0 "SetBestChain() : Reorganize failed", s.txnAbort.invalidChainFound pindexNew⟩
    connectFurther P s r.2.reverse

/-- The new tip. -/
def publish (pindexNew : BlockPtr) (hash : Uint256) : NodeState :=
  { s with
    hashBestChain := hash
    pindexBest := pindexNew
    nBestHeight := ((pindexNew.head?.map CBlockIndex.nHeight).getD 0 : Nat)
    nBestChainTrust := chainTrust pindexNew }

/-- `SetBestChain` up to the point where it publishes the new tip. -/
def moveChain (pindexNew : BlockPtr) (b : CBlock) : Except Stopped NodeState := do
  let s ← s.txnBegin
  if s.pindexGenesisBlock = [] ∧
      b.getHash P = (if s.fTestNet then hashGenesisBlockTestNet else hashGenesisBlock) then do
    let s ← txnCommit { s with txdb := s.txdb.writeHashBestChain (b.getHash P) }
      (.reject 0 "SetBestChain() : TxnCommit failed")
    return { s with pindexGenesisBlock := pindexNew }
  else if b.hashPrevBlock = s.hashBestChain then
    onFalse (s.setBestChainInner P pindexNew b) fun s =>
      ⟨.reject 0 "SetBestChain() : SetBestChainInner failed", s⟩
  else s.switchBranch P pindexNew

def setBestChain (pindexNew : BlockPtr) (b : CBlock) : Except Stopped NodeState := do
  let s ← s.moveChain P pindexNew b
  return s.publish pindexNew (b.getHash P)

end NodeState
end Silkcoin
