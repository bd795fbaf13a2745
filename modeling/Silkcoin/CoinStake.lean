/-
  `CreateCoinStake`: the transaction a staker puts second into its block.

  The wallet's coins that are deep enough are chosen (`selectCoinsSimple`) and tried one after the
  other, each with the last sixty seconds: the first that meets the target is the KERNEL
  (`searchCoins`).  It goes back to the key it was paid to, in two halves if it is young; otherwise
  small coins of the same key are swept up with it (`addInputs`).  What the outputs get more than the
  inputs are worth is the reward, computed from the coin age and the fees of the block.

  The key, too, comes from the kernel, and `CBlock::SignBlock` signs with it.

  `GetBalance` is a number here: it only decides how much may be staked.  The set of coins is ordered
  by addresses in memory, which is `setOrder`.  The signatures and the hash they are made of are taken
  as given (`Signatures`).
-/
import Silkcoin.CreateNewBlock
import Silkcoin.Kernel
import Silkcoin.KeyStore
import Silkcoin.SigOps

namespace Silkcoin

open Validation BatchStore

/-- The elliptic-curve signatures, and `SignatureHash` with `SIGHASH_ALL`. -/
structure Signatures where
  sign : CKey → Uint256 → Option (List UInt8)
  verify : CKey → Uint256 → List UInt8 → Bool
  signatureHash : CScript → CTransaction → Nat → Uint256

def SIGHASH_ALL : UInt8 := 1

/-! ## `Solver` -/

/-- The kinds of output that can be staked. -/
inductive txnouttype where
  | TX_PUBKEY
  | TX_PUBKEYHASH
deriving DecidableEq, Repr

/-- `OP_PUBKEY OP_CHECKSIG` -/
def solvePubKey (script : CScript) : Option (List UInt8) := do
  let pubKey ← getOp script
  guard (33 ≤ pubKey.data.length ∧ pubKey.data.length ≤ 120)
  let checkSig ← getOp pubKey.rest
  guard (checkSig.opcode = OP_CHECKSIG ∧ checkSig.rest = [])
  return pubKey.data

/-- `OP_DUP OP_HASH160 OP_PUBKEYHASH OP_EQUALVERIFY OP_CHECKSIG` -/
def solvePubKeyHash (script : CScript) : Option (List UInt8) := do
  let dup ← getOp script
  guard (dup.opcode = OP_DUP)
  let hash160 ← getOp dup.rest
  guard (hash160.opcode = OP_HASH160)
  let pubKeyHash ← getOp hash160.rest
  guard (pubKeyHash.data.length = 20)
  let equalVerify ← getOp pubKeyHash.rest
  guard (equalVerify.opcode = OP_EQUALVERIFY)
  let checkSig ← getOp equalVerify.rest
  guard (checkSig.opcode = OP_CHECKSIG ∧ checkSig.rest = [])
  return pubKeyHash.data

/-- `Solver`, as far as its two first templates; what matches neither cannot be staked. -/
def solver (scriptPubKey : CScript) : Option (txnouttype × List UInt8) :=
  match solvePubKey scriptPubKey with
  | some vch => some (.TX_PUBKEY, vch)
  | none => (solvePubKeyHash scriptPubKey).map fun vch => (.TX_PUBKEYHASH, vch)

/-- `uint160(vch)` -/
def uint160 (vch : List UInt8) : Uint160 := BitVec.ofNat 160 (vchValue vch)

/-! ## `SignSignature` -/

section Sign

variable (P : Primitives) (C : KeyPrimitives) (E : Signatures) (store : CCryptoKeyStore)

def sign1 (address : Uint160) (hash : Uint256) : Option CScript := do
  let key ← store.getKey C address CKey.reset
  let vchSig ← E.sign key hash
  return pushData (vchSig ++ [SIGHASH_ALL])

def signScript (scriptPubKey : CScript) (hash : Uint256) : Option CScript :=
  match solver scriptPubKey with
  | none => none
  | some (.TX_PUBKEY, vch) => sign1 C E store (C.hash160 vch) hash
  | some (.TX_PUBKEYHASH, vch) => do
    let scriptSig ← sign1 C E store (uint160 vch) hash
    return scriptSig ++ pushData ((store.getPubKey C (uint160 vch)).getD [])

/-- Input `nIn` of `txTo`, signed for the output of `txFrom` it spends. -/
def signSignature (txFrom txTo : CTransaction) (nIn : Nat) : Option CTransaction := do
  let txin ← txTo.vin[nIn]?
  let txout ← txFrom.vout[txin.prevout.n.toNat]?
  let scriptSig ← signScript C E store txout.scriptPubKey
    (E.signatureHash txout.scriptPubKey txTo nIn)
  let txTo := { txTo with vin := txTo.vin.set nIn { txin with scriptSig := scriptSig } }
  guard (P.verifySignature txFrom txTo nIn)
  return txTo

end Sign

/-! ## The coins of the wallet -/

/-- `CheckMerkleBranch` -/
def checkMerkleBranch (P : Primitives) : Uint256 → List Uint256 → Nat → Uint256
  | hash, [], _ => hash
  | hash, otherside :: rest, nIndex =>
    checkMerkleBranch P (if nIndex % 2 = 1 then P.hashPair otherside hash else P.hashPair hash otherside)
      rest (nIndex / 2)

/-- A wallet transaction and the number of one of its outputs. -/
abbrev StakeCoin := CTransaction × UInt32

namespace StakeCoin

variable (P : Primitives) (coin : StakeCoin)

def prevout : COutPoint := ⟨P.getHash coin.1, coin.2⟩

def txout : CTxOut := (coin.1.vout[coin.2.toNat]?).getD ⟨0, []⟩

def nValue : Int := coin.txout.nValue

end StakeCoin

namespace NodeState

variable (P : Primitives) (s : NodeState)

/-- How deep a wallet transaction is in the best chain; -1 if it is not even in the pool. -/
def walletDepth (wtx : CWalletTx) : Int :=
  let nResult : Int :=
    if wtx.hashBlock = 0 ∨ wtx.nIndex = -1 then 0
    else
      match s.tree.mapBlockIndex.lookup wtx.hashBlock with
      | none | some [] => 0
      | some (pindex :: pprev) =>
        if ¬ ((s.mem pindex.hashBlock).pnext.isSome ∨ pindex :: pprev = s.pindexBest) then 0
        else if checkMerkleBranch P (P.getHash wtx.tx) wtx.vMerkleBranch wtx.nIndex.toNat ≠
          pindex.hashMerkleRoot then 0
        else ((s.pindexBest.head?.map CBlockIndex.nHeight).getD 0 : Nat) - pindex.nHeight + 1
  if nResult = 0 ∧ (s.mempool.mapTx.lookup (P.getHash wtx.tx)).isNone then -1 else nResult

/-- The wallet's own unspent outputs that are deep enough. -/
def availableCoinsMinConf (w : CWallet) (nConf : Int) : List StakeCoin :=
  (w.mapWallet.entries.insertionSort fun e e' => e.1 ≤ e'.1).flatMap fun e =>
    if e.2.tx.isFinal s.nBestHeight s.nAdjustedTime 0 0 = false ∨ s.walletDepth P e.2 < nConf then []
    else ((List.range e.2.tx.vout.length).filter fun i => !e.2.isSpent i &&
        (e.2.tx.vout[i]?).any fun txout => w.isMineOut txout && decide (txout.nValue ≥ w.nMinimumInputValue)
      ).map fun i => (e.2.tx, UInt32.ofNat i)

/-- The loop of `SelectCoinsSimple`: coins until the target is reached, or one that reaches it. -/
def selectCoins (nTargetValue : Int) (nSpendTime : UInt32) :
    List StakeCoin → List StakeCoin → Int → List StakeCoin
  | [], setCoins, _ => setCoins
  | coin :: rest, setCoins, nValueRet =>
    if nValueRet ≥ nTargetValue then setCoins
    else if coin.1.nTime > nSpendTime then selectCoins nTargetValue nSpendTime rest setCoins nValueRet
    else if coin.nValue ≥ nTargetValue then setCoins.insert coin
    else if coin.nValue < int64 (nTargetValue + CENT) then
      selectCoins nTargetValue nSpendTime rest (setCoins.insert coin) (int64 (nValueRet + coin.nValue))
    else selectCoins nTargetValue nSpendTime rest setCoins nValueRet

/-- The iteration order of the set. -/
structure SetOrder where
  order : List StakeCoin → List StakeCoin
  order_perm : ∀ l, (order l).Perm l

def selectCoinsSimple (setOrder : SetOrder) (w : CWallet) (nTargetValue : Int) (nSpendTime : UInt32)
    (nMinConf : Int) : List StakeCoin :=
  setOrder.order (selectCoins nTargetValue nSpendTime (s.availableCoinsMinConf P w nMinConf) [] 0)

/-! ## The kernel -/

variable (C : KeyPrimitives) (H : KernelHashes)

/-- The script a staked output pays to, and its key; the caller's key may be changed even if there is
    no such script. -/
def kernelScript (store : CCryptoKeyStore) (scriptPubKeyKernel : CScript) (key : CKey) :
    CKey × Option CScript :=
  match solver scriptPubKeyKernel with
  | none => (key, none)
  | some (.TX_PUBKEYHASH, vch) =>
    match store.getKey C (uint160 vch) key with
    | none => (key, none)
    | some key => (key, some (pushData key.vchPubKey ++ [OP_CHECKSIG]))
  | some (.TX_PUBKEY, vch) =>
    match store.getKey C (C.hash160 vch) key with
    | none => (key, none)
    | some key => (key, if key.vchPubKey ≠ vch then none else some scriptPubKeyKernel)

/-- The seconds before `nTime`: at the first that meets the target the search is over, whether the
    output can be staked or not. -/
def searchTimes (store : CCryptoKeyStore) (nBits : UInt32) (block : CBlockHeader) (txindex : CTxIndex)
    (coin : StakeCoin) (nTime : UInt32) : List Nat → CKey → Check (CKey × Option (UInt32 × CScript))
  | [], key => .ok (key, none)
  | n :: rest, key => do
    let nTimeTx := nTime - UInt32.ofNat n
    match ← orSkip (checkStakeKernelHash P H s.globals s.tree.mapBlockIndex s.mem nBits block
        (txindex.pos.nTxPos - txindex.pos.nBlockPos) coin.1 (coin.prevout P) nTimeTx) with
    | none => searchTimes store nBits block txindex coin nTime rest key
    | some _ =>
      let r := kernelScript C store coin.txout.scriptPubKey key
      return (r.1, r.2.map fun script => (nTimeTx, script))

/-- The coin that is staked, the time it meets the target at, the script it pays to, and whether it is
    young enough to be split. -/
structure StakeKernel where
  coin : StakeCoin
  nTime : UInt32
  scriptPubKeyOut : CScript
  fSplit : Bool

def nMaxStakeSearchInterval : Nat := 60

def nStakeSplitAge : Int := 1 * 24 * 60 * 60

def nStakeCombineThreshold : Int := 1000 * COIN

/-- The coins in the order of the set. -/
def searchCoins (store : CCryptoKeyStore) (nBits : UInt32) (nSearchInterval : Int) (nTime : UInt32) :
    List StakeCoin → CKey → Check (CKey × Option StakeKernel)
  | [], key => .ok (key, none)
  | coin :: rest, key =>
    match s.txdb.readTxIndex (P.getHash coin.1) with
    | none => searchCoins store nBits nSearchInterval nTime rest key
    | some txindex =>
      match s.files.readHeader txindex.pos.nFile txindex.pos.nBlockPos with
      | none => searchCoins store nBits nSearchInterval nTime rest key
      | some block =>
        if block.getBlockTime + s.globals.nStakeMinAge >
            (nTime - UInt32.ofNat nMaxStakeSearchInterval).toNat then
          searchCoins store nBits nSearchInterval nTime rest key
        else do
          let r ← searchTimes P s C H store nBits block txindex coin nTime
            (List.range (min nSearchInterval.toNat nMaxStakeSearchInterval)) key
          match r.2 with
          | none => searchCoins store nBits nSearchInterval nTime rest r.1
          | some (nTimeTx, script) => return (r.1, some {
              coin := coin
              nTime := nTimeTx
              scriptPubKeyOut := script
              fSplit := decide (getWeight s.globals block.getBlockTime nTimeTx.toNat < nStakeSplitAge) })

/-! ## The coinstake -/

/-- The loop that adds inputs, over the same set; `inputs` are the coins in it so far. -/
def addInputs (kernel : StakeKernel) (nStakeable : Int) :
    List StakeCoin → List StakeCoin → Int → List StakeCoin × Int
  | [], inputs, nCredit => (inputs, nCredit)
  | coin :: rest, inputs, nCredit =>
    if kernel.fSplit = false ∧ (coin.txout.scriptPubKey = kernel.coin.txout.scriptPubKey ∨
        coin.txout.scriptPubKey = kernel.scriptPubKeyOut) ∧ P.getHash coin.1 ≠ P.getHash kernel.coin.1 then
      if inputs.length ≥ 100 then (inputs, nCredit)
      else if nCredit ≥ nStakeCombineThreshold then (inputs, nCredit)
      else if int64 (nCredit + coin.nValue) > nStakeable then (inputs, nCredit)
      else if coin.nValue ≥ nStakeCombineThreshold then addInputs kernel nStakeable rest inputs nCredit
      else if getWeight s.globals coin.1.nTime.toNat kernel.nTime.toNat < s.globals.nStakeMinAge then
        addInputs kernel nStakeable rest inputs nCredit
      else addInputs kernel nStakeable rest (inputs ++ [coin]) (int64 (nCredit + coin.nValue))
    else addInputs kernel nStakeable rest inputs nCredit

/-- The outputs after the empty one. -/
def stakeOutputs (kernel : StakeKernel) (nCredit : Int) : List CTxOut :=
  if kernel.fSplit then
    let nHalf := (nCredit.tdiv 2).tdiv CENT * CENT
    [⟨nHalf, kernel.scriptPubKeyOut⟩, ⟨int64 (nCredit - nHalf), kernel.scriptPubKeyOut⟩]
  else [⟨nCredit, kernel.scriptPubKeyOut⟩]

/-- The transaction before it is signed. -/
def unsignedCoinStake (kernel : StakeKernel) (inputs : List StakeCoin) (vout : List CTxOut) :
    CTransaction where
  nVersion := 1
  nTime := kernel.nTime
  vin := inputs.map fun coin => ⟨coin.prevout P, [], 0xffffffff⟩
  vout := ⟨0, []⟩ :: vout
  nLockTime := 0

/-- The wallet of a staker: its transactions, its keys, what it owns and what it keeps back. -/
structure StakeWallet where
  wallet : CWallet
  keys : CCryptoKeyStore
  nBalance : Int
  nReserveBalance : Int
  setOrder : SetOrder

variable (E : Signatures) (W : StakeWallet)

/-- Signed, if it is small enough. -/
def finishCoinStake (tx : CTransaction) (inputs : List StakeCoin) : Option CTransaction := do
  let tx ← inputs.zipIdx.foldlM (fun tx input => signSignature P C E W.keys input.1.1 tx input.2) tx
  guard (tx.getSerializeSize < MAX_BLOCK_SIZE_GEN / 5)
  return tx

/-- Returns the coinstake and the key of its kernel. -/
def createCoinStake (nBits : UInt32) (nSearchInterval nFees : Int) :
    Check (Option (CTransaction × CKey)) :=
  let nTime := unsigned s.nAdjustedTime
  let nStakeable := int64 (W.nBalance - W.nReserveBalance)
  if W.nBalance ≤ W.nReserveBalance then .ok none
  else do
    let setCoins := s.selectCoinsSimple P W.setOrder W.wallet nStakeable nTime
      (s.globals.nCoinbaseMaturity + 10)
    let r ← searchCoins P s C H W.keys nBits nSearchInterval nTime setCoins CKey.reset
    match r.2 with
    | none => return none
    | some kernel =>
      if kernel.coin.nValue = 0 ∨ kernel.coin.nValue > nStakeable then return none
      else do
        let (inputs, nCredit) := addInputs P s kernel nStakeable setCoins [kernel.coin] kernel.coin.nValue
        match ← orSkip ((unsignedCoinStake P kernel inputs (stakeOutputs kernel nCredit)).getCoinAge
            s.globals s.txdb) with
        | none => return none
        | some nCoinAge =>
          let nReward := getProofOfStakeReward (int64 nCoinAge) nFees
          if nReward ≤ 0 then return none
          else return (finishCoinStake P C E W (unsignedCoinStake P kernel inputs
            (stakeOutputs kernel (int64 (nCredit + nReward)))) inputs).map fun tx => (tx, r.1)

end NodeState

/-! ## Scripts that are pushed -/

/-- A signature has at most 72 bytes, is not empty, and verifies under the public key of the key that
    made it. -/
structure Signatures.Works (E : Signatures) (C : KeyPrimitives) : Prop where
  length : ∀ key hash vchSig, E.sign key hash = some vchSig → 0 < vchSig.length ∧ vchSig.length ≤ 72
  verifies : ∀ key hash vchSig, E.sign key hash = some vchSig →
    E.verify (CKey.reset.setPubKey C key.vchPubKey) hash vchSig = true

theorem getOp_pushData {b : List UInt8} (hb : b.length < 76) (rest : CScript) :
    getOp (pushData b ++ rest) = some ⟨UInt8.ofNat b.length, b, rest⟩ := by
  have hnat : (UInt8.ofNat b.length).toNat = b.length :=
    UInt8.toNat_ofNat_of_lt' (Nat.lt_trans hb (by decide))
  have hlt : UInt8.ofNat b.length < OP_PUSHDATA1 := by
    rw [UInt8.lt_iff_toNat_lt, hnat]
    exact hb
  have hle : UInt8.ofNat b.length ≤ OP_PUSHDATA4 := by
    rw [UInt8.le_iff_toNat_le, hnat]
    exact Nat.le_trans (Nat.le_of_lt hb) (by decide)
  unfold pushData
  rw [if_pos (show b.length < OP_PUSHDATA1.toNat from hb), List.cons_append]
  unfold getOp
  dsimp only
  rw [if_pos hle, if_pos hlt]
  unfold takeOperand
  rw [hnat, if_neg (by rw [List.length_append]; omega), List.take_left' rfl, List.drop_left' rfl]

/-- An opcode that pushes data is no signature operation. -/
theorem sigOpsOf_push {opcode : UInt8} (h : opcode ≤ OP_PUSHDATA4) (lastOpcode : UInt8) :
    sigOpsOf false lastOpcode opcode = 0 := by
  have hle : opcode.toNat ≤ 78 := UInt8.le_iff_toNat_le.mp h
  have hne : ∀ c : UInt8, 78 < c.toNat → opcode ≠ c := by
    rintro c hc rfl
    omega
  unfold sigOpsOf
  rw [if_neg (not_or.mpr ⟨hne _ (by decide), hne _ (by decide)⟩),
    if_neg (not_or.mpr ⟨hne _ (by decide), hne _ (by decide)⟩)]

theorem sigOpsFrom_pushData {b : List UInt8} (hb : b.length < 76) (fuel : Nat) (rest : CScript)
    (lastOpcode : UInt8) : sigOpsFrom false (fuel + 1) (pushData b ++ rest) lastOpcode =
      sigOpsFrom false fuel rest (UInt8.ofNat b.length) := by
  have hle : UInt8.ofNat b.length ≤ OP_PUSHDATA4 := by
    rw [UInt8.le_iff_toNat_le, UInt8.toNat_ofNat_of_lt' (Nat.lt_trans hb (by decide))]
    exact Nat.le_trans (Nat.le_of_lt hb) (by decide)
  rw [sigOpsFrom, getOp_pushData hb]
  dsimp only
  rw [sigOpsOf_push hle, Nat.zero_add]

theorem sigOpsFrom_nil (fAccurate : Bool) (fuel : Nat) (lastOpcode : UInt8) :
    sigOpsFrom fAccurate fuel [] lastOpcode = 0 := by
  cases fuel <;> rfl

theorem getSigOpCount_push {b : List UInt8} (hb : b.length < 76) : getSigOpCount false (pushData b) = 0 := by
  have hlen : (pushData b).length = b.length + 1 := by
    unfold pushData
    rw [if_pos (show b.length < OP_PUSHDATA1.toNat from hb), List.length_cons]
  unfold getSigOpCount
  rw [hlen, ← List.append_nil (pushData b), sigOpsFrom_pushData hb, sigOpsFrom_nil]

theorem getSigOpCount_push_push {a b : List UInt8} (ha : a.length < 76) (hb : b.length < 76) :
    getSigOpCount false (pushData a ++ pushData b) = 0 := by
  have hlen : ∀ {b : List UInt8}, b.length < 76 → (pushData b).length = b.length + 1 := by
    intro b hb
    unfold pushData
    rw [if_pos (show b.length < OP_PUSHDATA1.toNat from hb), List.length_cons]
  unfold getSigOpCount
  rw [List.length_append, hlen ha, hlen hb, show a.length + 1 + (b.length + 1) =
    (a.length + b.length + 1) + 1 by omega, sigOpsFrom_pushData ha, ← List.append_nil (pushData b),
    sigOpsFrom_pushData hb, sigOpsFrom_nil]

/-! ## Outputs to a public key -/

theorem solvePubKey_iff {script : CScript} {vch : List UInt8} : solvePubKey script = some vch ↔
    ∃ op checkSig, getOp script = some op ∧ op.data = vch ∧ 33 ≤ vch.length ∧ vch.length ≤ 120 ∧
      getOp op.rest = some checkSig ∧ checkSig.opcode = OP_CHECKSIG ∧ checkSig.rest = [] := by
  unfold solvePubKey
  constructor
  · intro h
    cases hop : getOp script with
    | none =>
      rw [hop] at h
      cases h
    | some op =>
      rw [hop] at h
      by_cases hlen : 33 ≤ op.data.length ∧ op.data.length ≤ 120
      · cases hcheck : getOp op.rest with
        | none => simp [hlen, hcheck] at h
        | some checkSig =>
          by_cases hend : checkSig.opcode = OP_CHECKSIG ∧ checkSig.rest = []
          · simp [hlen, hcheck, hend] at h
            subst h
            exact ⟨op, checkSig, rfl, rfl, hlen.1, hlen.2, hcheck, hend⟩
          · simp [guard, hlen, hcheck, hend] at h
      · simp [guard, hlen] at h
  · rintro ⟨op, checkSig, hop, rfl, h33, h120, hcheck, hcode, hrest⟩
    simp [hop, h33, h120, hcheck, hcode, hrest]

theorem solver_pubKey {script : CScript} {vch : List UInt8} :
    solver script = some (.TX_PUBKEY, vch) ↔ solvePubKey script = some vch := by
  unfold solver
  cases hsolve : solvePubKey script with
  | some vch' => simp
  | none => simp

/-- It pays to the key it says. -/
theorem solver_payToPubKey {vch : List UInt8} (h33 : 33 ≤ vch.length) (h : vch.length < 76) :
    solver (pushData vch ++ [OP_CHECKSIG]) = some (.TX_PUBKEY, vch) := by
  rw [solver_pubKey, solvePubKey_iff]
  exact ⟨_, ⟨OP_CHECKSIG, [], []⟩, getOp_pushData h _, rfl, h33, by omega, rfl, rfl, rfl⟩

theorem getSigOpCount_pubKey {script : CScript} {vch : List UInt8}
    (h : solver script = some (.TX_PUBKEY, vch)) : getSigOpCount false script = 1 := by
  obtain ⟨op, checkSig, hop, rfl, h33, -, hcheck, hcode, hrest⟩ := solvePubKey_iff.mp (solver_pubKey.mp h)
  have hpush : op.opcode ≤ OP_PUSHDATA4 := by
    by_contra hnot
    rw [getOp_data hop hnot] at h33
    cases h33
  have hlen := getOp_shrinks hop
  have hlen' := getOp_shrinks hcheck
  obtain ⟨fuel, hfuel⟩ := Nat.exists_eq_add_of_le' (show 2 ≤ script.length by omega)
  unfold getSigOpCount
  rw [hfuel, sigOpsFrom, hop]
  dsimp only
  rw [sigOpsOf_push hpush, sigOpsFrom, hcheck]
  dsimp only
  rw [hrest, sigOpsFrom_nil, hcode]
  rfl

end Silkcoin
