/-
  `CBlock::ConnectBlock` and `CBlock::DisconnectBlock`.

  `connectBlock` runs the transactions of a block one after the other over a `ConnectState`: the
  offset of the next transaction, the queued index changes, and the running totals.  The totals are
  `int64_t`s and nothing bounds them, so each assignment wraps.

  `connectTx_ok` says once and for all what connecting one transaction did (`TxConnected`): how the
  index moved, that every outpoint it spends existed and was unspent, and how each total moved.  All
  results about blocks are inductions over the transactions with this one step.

  Two things to note in the source.  The coin age of a coinstake is read from the database, not from
  the queued changes.  The proof-of-work reward is computed for the height of the node's current
  best block, `pindexBest`, not for the height of the block being connected.
-/
import Silkcoin.Inputs

namespace Silkcoin

open Validation BatchStore

/-! ## Coin age -/

namespace CTransaction

variable (g : Globals) (tx : CTransaction)

/-- One turn of the loop of `GetCoinAge`: inputs not in the index, and young ones, do not count. -/
def addCoinAge (txdb : CTxDB) (bnCentSecond : Int) (txin : CTxIn) : Check Int :=
  match txdb.readPrevTx g.files txin.prevout with
  | none => .ok bnCentSecond
  | some (txPrev, txindex) => do
    require (¬ tx.nTime < txPrev.nTime) .quiet
    match g.files.readHeader txindex.pos.nFile txindex.pos.nBlockPos with
    | none => .error .quiet
    | some header =>
      if header.getBlockTime + g.nStakeMinAge > tx.nTime.toNat then return bnCentSecond
      else
        let nValueIn := ((txPrev.vout[txin.prevout.n.toNat]?).map CTxOut.nValue).getD 0
        return bnCentSecond + (nValueIn * (tx.nTime - txPrev.nTime).toNat).tdiv CENT

/-- Total coin age spent, in coin-days. -/
def getCoinAge (txdb : CTxDB) : Check Nat :=
  if tx.isCoinBase then .ok 0
  else do
    let bnCentSecond ← tx.vin.foldlM (addCoinAge g tx txdb) 0
    return getuint64 (((bnCentSecond * CENT).tdiv COIN).tdiv (24 * 60 * 60))

end CTransaction

/-! ## Connecting -/

/-- The local variables of `ConnectBlock`. -/
structure ConnectState where
  nTxPos : UInt32
  mapQueuedChanges : QueuedChanges
  nFees : Int
  nValueIn : Int
  nValueOut : Int
  nStakeReward : Int
  nSigOps : Nat

/-- What `ConnectBlock` leaves behind: the database, and the in-memory index with the block's own
    entry filled in. -/
structure Connected where
  txdb : CTxDB
  mem : Uint256 → BlockMem

namespace CBlock

variable (P : Primitives) (g : Globals) (mem : Uint256 → BlockMem) (txdb : CTxDB)
  (pindex : CBlockIndex) (pprev : BlockPtr) (b : CBlock)

/-- The inputs of a transaction that is not a coinbase. -/
def connectTxInputs (posThisTx : CDiskTxPos) (s : ConnectState) (tx : CTransaction) :
    Check ConnectState := do
  let mapInputs ← orFail (tx.fetchInputs g txdb s.mapQueuedChanges true false)
    fun e => Failure.quiet.instead e.1
  let nP2SH ← tx.getP2SHSigOpCount mapInputs
  require (¬ s.nSigOps + nP2SH > MAX_BLOCK_SIGOPS) (.reject 100 "ConnectBlock() : too many sigops")
  let nTxValueIn ← tx.getValueIn mapInputs
  let nTxValueOut ← tx.getValueOut
  let mapQueuedChanges ← orFail
    (tx.connectInputs P g mapInputs s.mapQueuedChanges posThisTx (pindex :: pprev) true false)
    Failure.quiet.instead
  return { s with
    mapQueuedChanges := mapQueuedChanges
    nSigOps := s.nSigOps + nP2SH
    nValueIn := int64 (s.nValueIn + nTxValueIn)
    nValueOut := int64 (s.nValueOut + nTxValueOut)
    nFees := if tx.isCoinStake then s.nFees else int64 (s.nFees + int64 (nTxValueIn - nTxValueOut))
    nStakeReward := if tx.isCoinStake then int64 (nTxValueOut - nTxValueIn) else s.nStakeReward }

/-- The branch on `IsCoinBase`: a coinbase only adds its outputs. -/
def connectTxValues (posThisTx : CDiskTxPos) (s : ConnectState) (tx : CTransaction) :
    Check ConnectState :=
  if tx.isCoinBase then do
    let nTxValueOut ← tx.getValueOut
    return { s with nValueOut := int64 (s.nValueOut + nTxValueOut) }
  else connectTxInputs P g txdb pindex pprev posThisTx s tx

/-- Does the index have an entry of this hash with an unspent output? -/
def overwritesUnspent (hashTx : Uint256) : Bool :=
  match txdb.readTxIndex hashTx with
  | none => false
  | some txindexOld => txindexOld.vSpent.any CDiskTxPos.isNull

/-- One turn of the loop over the transactions. -/
def connectTx (fJustCheck : Bool) (s : ConnectState) (tx : CTransaction) : Check ConnectState := do
  let hashTx := P.getHash tx
  require (!overwritesUnspent txdb hashTx) .quiet
  let nSigOps := s.nSigOps + tx.getLegacySigOpCount
  require (¬ nSigOps > MAX_BLOCK_SIGOPS) (.reject 100 "ConnectBlock() : too many sigops")
  let posThisTx : CDiskTxPos := ⟨pindex.nFile, pindex.nBlockPos, s.nTxPos⟩
  let s : ConnectState := { s with
    nSigOps := nSigOps
    nTxPos := if fJustCheck then s.nTxPos else s.nTxPos + UInt32.ofNat tx.getSerializeSize }
  let s ← connectTxValues P g txdb pindex pprev posThisTx s tx
  return { s with
    mapQueuedChanges := s.mapQueuedChanges.insert hashTx (CTxIndex.new posThisTx tx.vout.length) }

/-- The offset of the first transaction: past the header and the transaction count. -/
def firstTxPos : UInt32 :=
  pindex.nBlockPos + UInt32.ofNat (80 + getSizeOfCompactSize b.vtx.length)

/-- Where the loop starts.  A block that is only checked has the memory pool for a position. -/
def connectStart (fJustCheck : Bool) : ConnectState where
  nTxPos := if fJustCheck then 1 else firstTxPos pindex b
  mapQueuedChanges := ∅
  nFees := 0
  nValueIn := 0
  nValueOut := 0
  nStakeReward := 0
  nSigOps := 0

/-- The coinbase of a proof-of-work block, or the coinstake of a proof-of-stake block, must not pay
    more than the reward. -/
def checkReward (s : ConnectState) : Check Unit :=
  match b.vtx with
  | [] => .ok ()
  | coinBase :: rest =>
    if b.isProofOfWork then do
      let nReward := getProofOfWorkReward s.nFees ((g.pindexBest.head?.map CBlockIndex.nHeight).getD 0)
      let nValueOut ← coinBase.getValueOut
      require (¬ nValueOut > nReward) (.reject 50 "ConnectBlock() : coinbase reward exceeded")
    else
      match rest with
      | [] => .ok ()
      | coinStake :: _ => do
        let nCoinAge ← orFail (coinStake.getCoinAge g txdb) (Failure.instead
          (.reject 0 "ConnectBlock() : unable to get coin age for coinstake"))
        require (¬ s.nStakeReward > getProofOfStakeReward (int64 nCoinAge) s.nFees)
          (.reject 100 "ConnectBlock() : coinstake pays too much")

/-- The money supply recorded for the previous block. -/
def prevMoneySupply : Int := ((pprev.head?.map CBlockIndex.hashBlock).map
  fun h => (mem h).nMoneySupply).getD 0

/-- The in-memory entry of the block with its mint and money supply. -/
def recordSupply (s : ConnectState) : Uint256 → BlockMem :=
  Function.update mem pindex.hashBlock { mem pindex.hashBlock with
    nMint := int64 (s.nValueOut - s.nValueIn + s.nFees)
    nMoneySupply := int64 (prevMoneySupply mem pprev + s.nValueOut - s.nValueIn) }

theorem recordSupply_moneySupply (s : ConnectState) :
    (recordSupply mem pindex pprev s pindex.hashBlock).nMoneySupply =
      int64 (prevMoneySupply mem pprev + s.nValueOut - s.nValueIn) := by
  rw [recordSupply, Function.update_self]

/-- The stored entry of the previous block, with a new successor. -/
def relinkPrev (mem : Uint256 → BlockMem) (hashNext : Uint256) (txdb : CTxDB) : CTxDB :=
  match pprev with
  | [] => txdb
  | prev :: rest => txdb.writeBlockIndex P
      { CDiskBlockIndex.ofIndex prev rest (mem prev.hashBlock) with hashNext := hashNext }

def connectBlock (fJustCheck : Bool) : Check Connected := do
  b.checkBlock P g (!fJustCheck) (!fJustCheck) false
  let s ← b.vtx.foldlM (connectTx P g txdb pindex pprev fJustCheck) (connectStart pindex b fJustCheck)
  checkReward g txdb b s
  let mem := recordSupply mem pindex pprev s
  let txdb := txdb.writeBlockIndex P
    (CDiskBlockIndex.ofIndex pindex pprev (mem pindex.hashBlock))
  return if fJustCheck then ⟨txdb, mem⟩ else
    ⟨relinkPrev P pprev mem pindex.hashBlock (putAll CTxDB.updateTxIndex txdb s.mapQueuedChanges), mem⟩

/-! ## Disconnecting -/

def disconnectBlock : Check CTxDB := do
  let txdb ← b.vtx.reverse.foldlM (fun txdb tx => tx.disconnectInputs P txdb) txdb
  return relinkPrev P pprev mem 0 txdb

/-! ## Where the transactions of a block are -/

/-- The offset of the transaction that comes after `pre`. -/
def txOffset (pre : List CTransaction) : UInt32 :=
  pre.foldl (fun nTxPos tx => nTxPos + UInt32.ofNat tx.getSerializeSize) (firstTxPos pindex b)

/-- The position of the transaction that comes after `pre`. -/
def txPosition (pre : List CTransaction) : CDiskTxPos :=
  ⟨pindex.nFile, pindex.nBlockPos, txOffset pindex b pre⟩

/-- The block is in the block files, where its index entry says.  `WriteToDisk` and
    `ReadFromDisk` see to this before `ConnectBlock` is called. -/
def Stored (files : BlockFiles) : Prop :=
  ∀ pre tx post, b.vtx = pre ++ tx :: post →
    files.readTx (txPosition pindex b pre) = some tx ∧
      txPosition pindex b pre ≠ CDiskTxPos.memoryPool

theorem txOffset_append_one (pre : List CTransaction) (tx : CTransaction) :
    txOffset pindex b (pre ++ [tx]) = txOffset pindex b pre + UInt32.ofNat tx.getSerializeSize := by
  rw [txOffset, List.foldl_append]; rfl

/-- A stored transaction does not have the null position. -/
theorem Stored.not_isNull {pindex : CBlockIndex} {b : CBlock} {files : BlockFiles}
    (h : Stored pindex b files) {pre : List CTransaction} {tx : CTransaction}
    {post : List CTransaction} (hvtx : b.vtx = pre ++ tx :: post) :
    (txPosition pindex b pre).isNull = false := by
  have hread := (h pre tx post hvtx).1
  unfold BlockFiles.readTx BlockFiles.openable at hread
  unfold CDiskTxPos.isNull
  by_contra hnull
  simp only [Bool.not_eq_false, decide_eq_true_eq] at hnull
  rw [if_neg (by simp [hnull])] at hread
  cases hread

/-- What a queued entry of a stored transaction leads to. -/
theorem Stored.prevTxOf {g : Globals} {pindex : CBlockIndex} {b : CBlock}
    (h : Stored pindex b g.files) {pre : List CTransaction} {tx : CTransaction}
    {post : List CTransaction} (hvtx : b.vtx = pre ++ tx :: post) (hash : Uint256)
    {txindex : CTxIndex} (hpos : txindex.pos = txPosition pindex b pre) :
    CTransaction.prevTxOf g hash txindex = .ok tx := by
  obtain ⟨hread, hne⟩ := h pre tx post hvtx
  unfold CTransaction.prevTxOf
  rw [hpos, if_neg hne, hread]

/-! ## What connecting one transaction did -/

/-- The value of an output, as a block that has queued `mapQueuedChanges` reads it. -/
def viewValue (mapQueuedChanges : QueuedChanges) (o : COutPoint) : Int :=
  match indexView txdb mapQueuedChanges o.hash with
  | none => 0
  | some txindex =>
    match CTransaction.prevTxOf g o.hash txindex with
    | .error _ => 0
    | .ok txPrev => ((txPrev.vout[o.n.toNat]?).map CTxOut.nValue).getD 0

/-- What the inputs of a transaction are worth; a coinbase has none. -/
def txValueIn (mapQueuedChanges : QueuedChanges) (tx : CTransaction) : Int :=
  if tx.isCoinBase then 0 else (tx.prevouts.map (viewValue g txdb mapQueuedChanges)).sum

/-- The outpoints a transaction spends, as keys of the index. -/
def spentKeys (tx : CTransaction) : List (Uint256 × Nat) :=
  if tx.isCoinBase then [] else tx.prevouts.map COutPoint.key

/-- One transaction connected: the index, the inputs, the totals. -/
structure TxConnected (s s' : ConnectState) (tx : CTransaction) : Prop where
  nTxPos_eq : s'.nTxPos = s.nTxPos + UInt32.ofNat tx.getSerializeSize
  view_eq : ∀ h, indexView txdb s'.mapQueuedChanges h =
    if P.getHash tx = h then
      some (CTxIndex.new ⟨pindex.nFile, pindex.nBlockPos, s.nTxPos⟩ tx.vout.length)
    else (indexView txdb s.mapQueuedChanges h).map
      (markSpent ⟨pindex.nFile, pindex.nBlockPos, s.nTxPos⟩ (spentKeys tx) h)
  unspent : tx.isCoinBase = false → ∀ o ∈ tx.prevouts, ∃ txindex txPrev q,
    indexView txdb s.mapQueuedChanges o.hash = some txindex ∧
      CTransaction.prevTxOf g o.hash txindex = .ok txPrev ∧ o.n.toNat < txPrev.vout.length ∧
        txindex.vSpent[o.n.toNat]? = some q ∧ q.isNull = true
  nValueIn_eq : s'.nValueIn = if tx.isCoinBase then s.nValueIn
    else int64 (s.nValueIn + txValueIn g txdb s.mapQueuedChanges tx)
  nValueOut_eq : s'.nValueOut = int64 (s.nValueOut + tx.valueOut)
  nFees_eq : s'.nFees = if tx.isCoinBase ∨ tx.isCoinStake then s.nFees
    else int64 (s.nFees + (txValueIn g txdb s.mapQueuedChanges tx - tx.valueOut))
  nStakeReward_eq : s'.nStakeReward = if tx.isCoinStake then
    int64 (tx.valueOut - txValueIn g txdb s.mapQueuedChanges tx) else s.nStakeReward
  valueOut_range : moneyRange tx.valueOut = true
  valueIn_range : moneyRange (txValueIn g txdb s.mapQueuedChanges tx) = true
  fee : tx.isCoinBase = false → tx.isCoinStake = false →
    tx.valueOut + 10000 ≤ txValueIn g txdb s.mapQueuedChanges tx

section Connect

variable {P g txdb pindex pprev}

/-- What an input was fetched with is what the view shows. -/
theorem inputValue_eq_viewValue {queued : QueuedChanges} {inputs : MapPrevTx} {txin : CTxIn}
    (hf : CTransaction.Fetched g txdb queued inputs)
    (hin : ∃ txindex txPrev, inputs.lookup txin.prevout.hash = some (txindex, txPrev)) :
    CTransaction.inputValue inputs txin = viewValue g txdb queued txin.prevout := by
  obtain ⟨ti, tp, hlook⟩ := hin
  obtain ⟨hview, hprev⟩ := hf _ _ _ hlook
  unfold CTransaction.inputValue viewValue
  rw [hlook, hview]
  simp only [hprev]

theorem connectTx_ok {s s' : ConnectState} {tx : CTransaction} (htx : tx.TxChecked)
    (h : connectTx P g txdb pindex pprev false s tx = .ok s') :
    TxConnected P g txdb pindex s s' tx := by
  unfold connectTx at h
  simp only [bind_ok, require_ok, exists_const, pure_ok] at h
  obtain ⟨-, -, s₁, hrun, rfl⟩ := h
  -- the entry of the transaction itself goes on top of whatever its inputs have queued
  have hview : ∀ h, indexView txdb (s₁.mapQueuedChanges.insert (P.getHash tx)
      (CTxIndex.new ⟨pindex.nFile, pindex.nBlockPos, s.nTxPos⟩ tx.vout.length)) h =
      if P.getHash tx = h then
        some (CTxIndex.new ⟨pindex.nFile, pindex.nBlockPos, s.nTxPos⟩ tx.vout.length)
      else indexView txdb s₁.mapQueuedChanges h := by
    intro h
    unfold indexView
    rw [lookup_insert_eq_ite]
    by_cases heq : P.getHash tx = h
    · rw [if_pos heq, if_pos heq]; rfl
    · rw [if_neg heq, if_neg heq]
  unfold connectTxValues at hrun
  by_cases hcb : tx.isCoinBase = true
  · rw [if_pos hcb] at hrun
    simp only [bind_ok, pure_ok] at hrun
    obtain ⟨v, hout, rfl⟩ := hrun
    obtain ⟨rfl, hrange, -⟩ := tx.getValueOut_ok hout
    have hcs := tx.not_isCoinStake_of_isCoinBase hcb
    refine ⟨rfl, fun h => ?_, fun h => absurd hcb (by simp [h]), by rw [if_pos hcb], rfl,
      by simp [hcb], by simp [hcs], hrange, ?_, fun h => absurd hcb (by simp [h])⟩
    · rw [hview, spentKeys, if_pos hcb]
      show (if _ then _ else indexView txdb s.mapQueuedChanges h) = _
      cases indexView txdb s.mapQueuedChanges h <;> simp [markSpent_nil]
    · rw [txValueIn, if_pos hcb]; decide
  · rw [if_neg hcb] at hrun
    have hcb' : tx.isCoinBase = false := by simpa using hcb
    unfold connectTxInputs at hrun
    simp only [bind_ok, orFail_ok, require_ok, exists_const, pure_ok] at hrun
    obtain ⟨inputs, hfetch, _, -, -, vin, hvin, vout, hvout, queued, hconnect, rfl⟩ := hrun
    obtain ⟨hf, hin⟩ := tx.fetchInputs_ok rfl hcb' hfetch
    obtain ⟨hmark, hunspent, hrange, -, hfee⟩ :=
      CTransaction.connectInputs_ok rfl hcb' htx.distinct hf hconnect
    obtain ⟨rfl, horange, -⟩ := tx.getValueOut_ok hvout
    have hvalue : (tx.vin.map (CTransaction.inputValue inputs)).sum =
        txValueIn g txdb s.mapQueuedChanges tx := by
      unfold txValueIn CTransaction.prevouts
      rw [if_neg hcb, List.map_map]
      refine congrArg List.sum (List.map_congr_left fun txin htxin => ?_)
      obtain ⟨ti, tp, hl, -, -⟩ := hin txin htxin
      exact inputValue_eq_viewValue hf ⟨ti, tp, hl⟩
    rw [hvalue] at hrange hfee
    have hvin' : vin = txValueIn g txdb s.mapQueuedChanges tx := by
      rw [tx.getValueIn_ok hcb' hvin, hvalue]
      rw [moneyRange_iff] at hrange
      exact int64_of_range (by omega) (by omega)
    subst hvin'
    refine ⟨rfl, fun h => ?_, fun _ o ho => ?_, by rw [if_neg hcb], rfl, ?_, ?_, horange, hrange,
      fun _ hcs => hfee hcs⟩
    · rw [hview, spentKeys, if_neg hcb, ← hmark]
    · obtain ⟨txin, htxin, rfl⟩ := List.mem_map.mp ho
      obtain ⟨ti, tp, q, hl, hq, hnull⟩ := hunspent _ ho
      obtain ⟨ti', tp', hl', hn, -⟩ := hin txin htxin
      rw [hl] at hl'
      cases hl'
      exact ⟨ti, tp, q, (hf _ _ _ hl).1, (hf _ _ _ hl).2, hn, hq, hnull⟩
    · show (if _ then _ else int64 _) = _
      rw [int64_add_right]
      simp [hcb]
    · rfl

/-- What a successful `ConnectBlock` went through. -/
theorem connectBlock_ok {mem : Uint256 → BlockMem} {b : CBlock} {r : Connected}
    (h : connectBlock P g mem txdb pindex pprev b false = .ok r) :
    b.BlockChecked P ∧ ∃ s,
      b.vtx.foldlM (connectTx P g txdb pindex pprev false) (connectStart pindex b false) = .ok s ∧
      checkReward g txdb b s = .ok () ∧ r.mem = recordSupply mem pindex pprev s ∧
      r.txdb = relinkPrev P pprev r.mem pindex.hashBlock
        (putAll CTxDB.updateTxIndex (txdb.writeBlockIndex P
          (CDiskBlockIndex.ofIndex pindex pprev (r.mem pindex.hashBlock))) s.mapQueuedChanges) := by
  unfold connectBlock at h
  simp only [bind_ok, pure_ok] at h
  obtain ⟨_, hcheck, s, hrun, _, hreward, rfl⟩ := h
  exact ⟨b.checkBlock_ok P g hcheck, s, hrun, hreward, rfl, rfl⟩

end Connect

end CBlock
end Silkcoin
