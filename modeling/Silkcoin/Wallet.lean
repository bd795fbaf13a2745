/-
  The wallets, as far as block validation reaches into them.

  `SyncWithWallets` tells every registered wallet about each transaction of a block: `connected`
  after a successful `ConnectBlock`, `disconnected` after a successful `DisconnectBlock`.  A wallet
  that is told of a connected transaction records it if it is concerned, notes the block it is in,
  and flips the spent flags of its own outputs; of the disconnected ones it only looks at its own
  coinstakes, whose inputs become unspent again (`DisableTransaction`).

  The keys of a wallet are a predicate on scripts (`isMine`).  Left out are the cached balances, the
  rotation of the default key, the messages to the user interface and the log, and `wallet.dat`:
  what is written there is what stands here.

  What a sequence of notices does to a wallet as a whole is the subject of `WalletNotices`.
-/
import Silkcoin.Accept

namespace Silkcoin

open Validation BatchStore

/-- The value an `unsigned int` has after a conversion. -/
def unsigned (x : Int) : UInt32 := UInt32.ofNat (x % 2 ^ 32).toNat

/-! ## The merkle branch -/

namespace CBlock

/-- The siblings on the way up from leaf `nIndex`; `fuel` bounds the number of levels. -/
def merkleBranch (P : Primitives) : Nat → List Uint256 → Nat → List Uint256
  | 0, _, _ => []
  | fuel + 1, level, nIndex =>
    if level.length ≤ 1 then []
    else level.getD (min (nIndex ^^^ 1) (level.length - 1)) 0 ::
      merkleBranch P fuel (merkleLevel P level) (nIndex / 2)

def getMerkleBranch (P : Primitives) (b : CBlock) (nIndex : Nat) : List Uint256 :=
  merkleBranch P b.vtx.length (b.vtx.map P.getHash) nIndex

end CBlock

/-! ## Wallet transactions -/

/-- A transaction in the wallet; `nIndex` is -1 as long as it is in no block. -/
@[ext] structure CWalletTx where
  tx : CTransaction
  hashBlock : Uint256
  vMerkleBranch : List Uint256
  nIndex : Int
  nTimeReceived : UInt32
  nTimeSmart : UInt32
  fFromMe : Bool
  vfSpent : List Bool
  nOrderPos : Int
deriving DecidableEq, Repr

namespace CWalletTx

/-- `CWalletTx(pwallet, tx)`. -/
def ofTx (tx : CTransaction) : CWalletTx where
  tx := tx
  hashBlock := 0
  vMerkleBranch := []
  nIndex := -1
  nTimeReceived := 0
  nTimeSmart := 0
  fFromMe := false
  vfSpent := []
  nOrderPos := -1

variable (wtx : CWalletTx)

/-- Flags that are not there yet count as unspent. -/
def isSpent (nOut : Nat) : Bool := wtx.vfSpent.getD nOut false

/-- `vfSpent.resize(vout.size())`. -/
def resized : List Bool :=
  wtx.vfSpent.take wtx.tx.vout.length ++
    List.replicate (wtx.tx.vout.length - wtx.vfSpent.length) false

/-- `MarkSpent` and `MarkUnspent`, for an output the transaction has. -/
def mark (fSpent : Bool) (nOut : Nat) : CWalletTx :=
  { wtx with vfSpent := wtx.resized.set nOut fSpent }

def markSpent (nOut : Nat) : CWalletTx := wtx.mark true nOut

def markUnspent (nOut : Nat) : CWalletTx := wtx.mark false nOut

/-- The block is known: its hash, the index of the transaction in it and the merkle branch. -/
def setMerkleBranch (P : Primitives) (b : CBlock) : CWalletTx :=
  let nIndex := b.vtx.findIdx fun tx => decide (tx = wtx.tx)
  if nIndex = b.vtx.length then
    { wtx with hashBlock := b.getHash P, vMerkleBranch := [], nIndex := -1 }
  else
    { wtx with hashBlock := b.getHash P, vMerkleBranch := b.getMerkleBranch P nIndex, nIndex := nIndex }

/-- `UpdateSpent`: flags are only ever set. -/
def updateSpent (vfNewSpent : List Bool) : CWalletTx :=
  { wtx with vfSpent := wtx.vfSpent.mapIdx fun i fSpent => fSpent || vfNewSpent.getD i false }

/-- What a record takes over from another record of the same transaction. -/
def merge (wtxIn : CWalletTx) : CWalletTx :=
  let wtx := if wtxIn.hashBlock ≠ 0 then { wtx with hashBlock := wtxIn.hashBlock } else wtx
  let wtx := if wtxIn.nIndex ≠ -1 then
    { wtx with vMerkleBranch := wtxIn.vMerkleBranch, nIndex := wtxIn.nIndex } else wtx
  let wtx := if wtxIn.fFromMe then { wtx with fFromMe := wtxIn.fFromMe } else wtx
  wtx.updateSpent wtxIn.vfSpent

def getTxTime : Int := if wtx.nTimeSmart ≠ 0 then wtx.nTimeSmart.toNat else wtx.nTimeReceived.toNat

end CWalletTx

/-! ## The wallet -/

/-- An entry of the account book: its place in the order, and its time. -/
structure CAccountingEntry where
  nOrderPos : Int
  nTime : Int
deriving DecidableEq, Repr

structure CWallet where
  /-- `IsMine(keystore, scriptPubKey)` -/
  isMine : CScript → Bool
  /-- the node's setting -/
  nMinimumInputValue : Int
  mapWallet : StdMap Uint256 CWalletTx
  nOrderPosNext : Int
  acentries : List CAccountingEntry

namespace CWallet

variable (P : Primitives) (mapBlockIndex : StdMap Uint256 BlockPtr) (nAdjustedTime : Int)
  (w : CWallet)

def isMineOut (txout : CTxOut) : Bool := w.isMine txout.scriptPubKey

def isMineTx (tx : CTransaction) : Bool :=
  tx.vout.any fun txout => w.isMineOut txout && decide (txout.nValue ≥ w.nMinimumInputValue)

/-- The wallet's own output behind an input. -/
def ownOutput (prevout : COutPoint) : Option CTxOut :=
  match w.mapWallet.lookup prevout.hash with
  | none => none
  | some prev => (prev.tx.vout[prevout.n.toNat]?).filter w.isMineOut

def getDebitIn (txin : CTxIn) : Int := ((w.ownOutput txin.prevout).map CTxOut.nValue).getD 0

/-- One turn of the loop of `GetDebit`. -/
def addDebit (nDebit : Int) (txin : CTxIn) : Check Int := do
  let nDebit := int64 (nDebit + w.getDebitIn txin)
  require (moneyRange nDebit) (.throw "CWallet::GetDebit() : value out of range")
  return nDebit

def getDebit (tx : CTransaction) : Check Int := tx.vin.foldlM w.addDebit 0

def isFromMe (tx : CTransaction) : Check Bool := do
  let nDebit ← w.getDebit tx
  return decide (nDebit > 0)

/-! ## Spent flags -/

/-- A flag of the wallet's own output behind an input. -/
def markInput (fSpent : Bool) (w : CWallet) (txin : CTxIn) : CWallet :=
  match w.mapWallet.lookup txin.prevout.hash with
  | none => w
  | some prev =>
    if (w.ownOutput txin.prevout).isSome then
      { w with mapWallet :=
          w.mapWallet.insert txin.prevout.hash (prev.mark fSpent txin.prevout.n.toNat) }
    else w

/-- One turn of the first loop of `WalletUpdateSpent`: an output known to be spent is left alone. -/
def spendInput (w : CWallet) (txin : CTxIn) : CWallet :=
  match w.mapWallet.lookup txin.prevout.hash with
  | none => w
  | some prev => if prev.isSpent txin.prevout.n.toNat then w else markInput true w txin

/-- The record `hash`, changed by `f`. -/
def modify (hash : Uint256) (f : CWalletTx → CWalletTx) : CWallet :=
  match w.mapWallet.lookup hash with
  | none => w
  | some wtx => { w with mapWallet := w.mapWallet.insert hash (f wtx) }

/-- The outputs of a transaction that are the wallet's own, by number. -/
def ownOutputs (tx : CTransaction) : List Nat :=
  (List.range tx.vout.length).filter fun n => (tx.vout[n]?).any w.isMineOut

/-- The outputs the inputs spend are spent; in a block, the transaction's own outputs are not. -/
def walletUpdateSpent (tx : CTransaction) (fBlock : Bool) : CWallet :=
  let w := tx.vin.foldl spendInput w
  if fBlock then
    w.modify (P.getHash tx) fun wtx => (w.ownOutputs tx).foldl CWalletTx.markUnspent wtx
  else w

/-! ## Recording a transaction -/

/-- The times of everything in the wallet but `hash`, the last in the wallet's order first. -/
def orderedTimes (hash : Uint256) : List Int :=
  let byHash := w.mapWallet.entries.insertionSort fun e e' => e.1 ≤ e'.1
  let txs := (byHash.filter fun e => decide (e.1 ≠ hash)).map fun e => (e.2.nOrderPos, e.2.getTxTime)
  let entries := w.acentries.map fun e => (e.nOrderPos, e.nTime)
  (((txs ++ entries).insertionSort fun a b => a.1 ≤ b.1).map Prod.snd).reverse

/-- The time shown for a new transaction: that of its block, but not before what is already in the
    wallet and not after now. -/
def smartTime (hash : Uint256) (nTimeReceived blocktime : UInt32) : UInt32 :=
  let latestTolerated : Int := (nTimeReceived + 300).toNat
  match (w.orderedTimes hash).find? fun nSmartTime => decide (nSmartTime ≤ latestTolerated) with
  | none => min blocktime nTimeReceived
  | some nSmartTime =>
    let latestNow := if nSmartTime > nTimeReceived.toNat then unsigned nSmartTime else nTimeReceived
    max (unsigned nSmartTime) (min blocktime latestNow)

/-- A record that was not there. -/
def insertNew (hash : Uint256) (wtxIn : CWalletTx) : CWallet :=
  let nTimeReceived := unsigned nAdjustedTime
  let nTimeSmart := match mapBlockIndex.lookup wtxIn.hashBlock with
    | some (pindex :: _) =>
      if wtxIn.hashBlock ≠ 0 then w.smartTime hash nTimeReceived pindex.nTime else nTimeReceived
    | _ => nTimeReceived
  { w with
    mapWallet := w.mapWallet.insert hash { wtxIn with
      nTimeReceived := nTimeReceived
      nOrderPos := w.nOrderPosNext
      nTimeSmart := nTimeSmart }
    nOrderPosNext := int64 (w.nOrderPosNext + 1) }

def addToWallet (wtxIn : CWalletTx) : CWallet :=
  let hash := P.getHash wtxIn.tx
  match w.mapWallet.lookup hash with
  | none =>
    (w.insertNew mapBlockIndex nAdjustedTime hash wtxIn).walletUpdateSpent P wtxIn.tx
      (decide (wtxIn.hashBlock ≠ 0))
  | some wtx =>
    (w.modify hash fun wtx => wtx.merge wtxIn).walletUpdateSpent P wtx.tx
      (decide (wtxIn.hashBlock ≠ 0))

def addToWalletIfInvolvingMe (tx : CTransaction) (pblock : Option CBlock) (fUpdate : Bool) :
    Check CWallet := do
  let fExisted := (w.mapWallet.lookup (P.getHash tx)).isSome
  if fExisted && !fUpdate then return w
  else
    let fInvolvingMe ← if fExisted || w.isMineTx tx then .ok true else w.isFromMe tx
    if fInvolvingMe then
      let wtx := CWalletTx.ofTx tx
      return w.addToWallet P mapBlockIndex nAdjustedTime
        ((pblock.map fun b => wtx.setMerkleBranch P b).getD wtx)
    else return w.walletUpdateSpent P tx false

/-- A disconnected coinstake of the wallet's own: its inputs are unspent again. -/
def disableTransaction (tx : CTransaction) : Check CWallet := do
  if tx.isCoinStake then
    let fFromMe ← w.isFromMe tx
    return if fFromMe then tx.vin.foldl (markInput false) w else w
  else return w

end CWallet

/-! ## Notifying the wallets -/

/-- What `SyncWithWallets` is called for: a transaction of a block, connected or disconnected. -/
inductive Notice where
  | connected (b : CBlock) (tx : CTransaction)
  | disconnected (tx : CTransaction)

/-- The notices of a block just connected. -/
def CBlock.connectedNotices (b : CBlock) : List Notice := b.vtx.map (.connected b)

/-- The notices of a block just disconnected. -/
def CBlock.disconnectedNotices (b : CBlock) : List Notice := b.vtx.map .disconnected

/-- What one wallet does on a notice. -/
def CWallet.sync (P : Primitives) (mapBlockIndex : StdMap Uint256 BlockPtr) (nAdjustedTime : Int)
    (w : CWallet) : Notice → Check CWallet
  | .connected b tx => w.addToWalletIfInvolvingMe P mapBlockIndex nAdjustedTime tx (some b) true
  | .disconnected tx =>
    if tx.isCoinStake then do
      let fFromMe ← w.isFromMe tx
      if fFromMe then w.disableTransaction tx else return w
    else return w

/-- A wallet does not refuse a notice; the one thing that can stop it is an exception. -/
theorem CWallet.sync_error {P : Primitives} {mapBlockIndex : StdMap Uint256 BlockPtr}
    {nAdjustedTime : Int} {w : CWallet} {n : Notice} {e : Failure}
    (h : w.sync P mapBlockIndex nAdjustedTime n = .error e) : ∃ what, e = .throw what := by
  have hfrom : ∀ {tx e}, w.isFromMe tx = .error e → ∃ what, e = .throw what := by
    intro tx e he
    unfold isFromMe at he
    rcases bind_error.mp he with he | ⟨_, -, he⟩
    · obtain ⟨-, txin, -, nDebit, -, -, hstep⟩ := foldlM_error he
      unfold addDebit at hstep
      rcases bind_error.mp hstep with hstep | ⟨_, -, hstep⟩
      · exact ⟨_, (require_error.mp hstep).2.symm⟩
      · cases hstep
    · cases he
  cases n with
  | connected b tx =>
    simp only [sync, addToWalletIfInvolvingMe] at h
    split at h
    · cases h
    · split at h
      · cases h
      · rcases bind_error.mp h with h | ⟨fInvolvingMe, -, h⟩
        · exact hfrom h
        · split at h <;> cases h
  | disconnected tx =>
    simp only [sync, disableTransaction] at h
    split at h
    · rcases bind_error.mp h with h | ⟨fFromMe, -, h⟩
      · exact hfrom h
      · split at h
        · rcases bind_error.mp h with h | ⟨_, -, h⟩
          · exact hfrom h
          · cases h
        · cases h
    · cases h

/-- One wallet after the other; behind an exception the rest is not told. -/
def syncAll (f : CWallet → Check CWallet) : List CWallet → List CWallet × Check Unit
  | [] => ([], .ok ())
  | w :: rest =>
    match f w with
    | .error e => (w :: rest, .error e)
    | .ok w' => (w' :: (syncAll f rest).1, (syncAll f rest).2)

end Silkcoin
