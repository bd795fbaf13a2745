/-
  Blocks and the in-memory block tree.

  A `CBlock` is a header and its transactions.  A `CBlockIndex` is the in-memory entry of a block;
  a pointer to one is the list of the entries from it down to genesis (`BlockPtr`): `[]` is NULL,
  the tail is `pprev`.  The fields that change after an entry was made (`pnext`, `nMint`,
  `nMoneySupply`) are kept apart, in `BlockMem`.

  `Primitives` is the code this development takes as given: the two hashes, the hash of a pair of
  hashes, the script interpreter behind `VerifySignature`, and the block signature check.

  `checkBlock` is `CBlock::CheckBlock`.  Its inversion is `BlockChecked`: one coinbase, at the front;
  and in a proof-of-stake block one coinstake, in second place.  There is no such line for
  proof-of-work blocks — `isProofOfStake` looks at the second transaction only.
-/
import Silkcoin.Transaction
import Mathlib.Data.Set.Function

namespace Silkcoin

open Validation

/-! ## The data -/

structure CBlockHeader where
  nVersion : Int
  hashPrevBlock : Uint256
  hashMerkleRoot : Uint256
  nTime : UInt32
  nBits : UInt32
  nNonce : UInt32
deriving DecidableEq, Repr

structure CBlock extends CBlockHeader where
  vtx : List CTransaction
  vchBlockSig : List UInt8
deriving DecidableEq, Repr

/-- What validation calls and this development does not model. -/
structure Primitives where
  /-- `SerializeHash` of a transaction -/
  getHash : CTransaction → Uint256
  /-- `scrypt_blockhash` of a header -/
  blockHash : CBlockHeader → Uint256
  /-- `Hash` of two hashes, one after the other -/
  hashPair : Uint256 → Uint256 → Uint256
  /-- `VerifySignature(txFrom, txTo, nIn, 0)` -/
  verifySignature : CTransaction → CTransaction → Nat → Bool
  /-- `CBlock::CheckBlockSignature` -/
  checkBlockSignature : CBlock → Bool
  /-- `CTransaction::IsStandard` -/
  isStandard : CTransaction → Bool

namespace Primitives

/-- The hashes of a few transactions, headers and pairs, given as tables, and a script check that
    holds of the scripts anyone can spend. -/
def ofTables (txs : List (CTransaction × Uint256)) (headers : List (CBlockHeader × Uint256))
    (pairs : List ((Uint256 × Uint256) × Uint256)) : Primitives where
  getHash tx := (txs.lookup tx).getD 0
  blockHash header := (headers.lookup header).getD 0
  hashPair h₁ h₂ := (pairs.lookup (h₁, h₂)).getD 0
  verifySignature _ _ _ := true
  checkBlockSignature _ := true
  isStandard _ := true

/-- Hashes that differ in the table belong to different transactions. -/
theorem ofTables_injOn {txs : List (CTransaction × Uint256)}
    {headers : List (CBlockHeader × Uint256)} {pairs : List ((Uint256 × Uint256) × Uint256)}
    (h : ∀ r ∈ txs, (ofTables txs headers pairs).getHash r.1 = r.2)
    (hnd : (txs.map Prod.snd).Nodup) :
    Set.InjOn (ofTables txs headers pairs).getHash { tx | tx ∈ txs.map Prod.fst } := by
  intro tx htx tx' htx' heq
  obtain ⟨r, hr, rfl⟩ := List.mem_map.mp htx
  obtain ⟨r', hr', rfl⟩ := List.mem_map.mp htx'
  rw [h r hr, h r' hr'] at heq
  rw [List.inj_on_of_nodup_map hnd hr hr' heq]

end Primitives

/-- The in-memory entry of a block: the part that is fixed when the entry is made. -/
structure CBlockIndex where
  hashBlock : Uint256
  nFile : UInt32
  nBlockPos : UInt32
  nChainTrust : Uint256
  nHeight : Nat
  nFlags : UInt32
  nStakeModifier : BitVec 64
  nStakeModifierChecksum : UInt32
  prevoutStake : COutPoint
  nStakeTime : UInt32
  hashProofOfStake : Uint256
  nVersion : Int
  hashMerkleRoot : Uint256
  nTime : UInt32
  nBits : UInt32
  nNonce : UInt32
deriving DecidableEq, Repr

namespace CBlockIndex

def BLOCK_PROOF_OF_STAKE : UInt32 := 1

def BLOCK_STAKE_ENTROPY : UInt32 := 2

def BLOCK_STAKE_MODIFIER : UInt32 := 4

end CBlockIndex

/-- A `CBlockIndex*`: the entry it points to and, behind it, what `pprev` leads to. -/
abbrev BlockPtr := List CBlockIndex

/-- The part of an in-memory entry that later code writes to. -/
structure BlockMem where
  pnext : Option Uint256
  nMint : Int
  nMoneySupply : Int
deriving DecidableEq, Repr

/-- A fresh entry: no successor, nothing minted, no supply recorded. -/
def BlockMem.new : BlockMem := ⟨none, 0, 0⟩

/-- The block files, as their readers see them. -/
structure BlockFiles where
  /-- a transaction, by file and offset -/
  tx : UInt32 → UInt32 → Option CTransaction
  /-- a block, by file and offset -/
  block : UInt32 → UInt32 → Option CBlock
  /-- the header of a block, by file and offset -/
  header : UInt32 → UInt32 → Option CBlockHeader

/-- The global variables validation reads. -/
structure Globals where
  fTestNet : Bool
  nAdjustedTime : Int
  pindexBest : BlockPtr
  nBestHeight : Int
  mempool : Uint256 → Option CTransaction
  files : BlockFiles

/-! ## Network parameters -/

namespace Globals

variable (g : Globals)

def bnProofOfWorkLimit : Int := if g.fTestNet then (2 ^ 240 - 1 : Nat) else (2 ^ 236 - 1 : Nat)

def nStakeMinAge : Int := if g.fTestNet then 60 * 60 else 12 * 60 * 60

def nCoinbaseMaturity : Int := if g.fTestNet then 10 else 350

end Globals

def bnProofOfStakeLimit : Int := (2 ^ 236 - 1 : Nat)

def hashGenesisBlock : Uint256 := 0x00000b5f90b3a8b418030fc1f985ea496c014d56b35a49fe97760c71a5653eb2

def hashGenesisBlockTestNet : Uint256 :=
  0x00000b5f90b3a8b418030fc1f985ea496c014d56b35a49fe97760c71a5653eb2

/-- The hardened checkpoints: height and hash. -/
def mapCheckpoints (fTestNet : Bool) : List (Nat × Uint256) :=
  if fTestNet then [(0, hashGenesisBlockTestNet)]
  else
    [(0, hashGenesisBlock),
     (15000, 0x64ca62d3cb03f0b8a9eb9bb7e3d6bf4259fd7997b16209e48907752bfcd72cb4),
     (30000, 0xc06cef8c3e432637ea135b584a584974f084c04d1fe5c5a8006e205cb7e4907c)]

/-- The height of the last hardened checkpoint. -/
def getTotalBlocksEstimate (fTestNet : Bool) : Nat :=
  ((mapCheckpoints fTestNet).getLast?.map Prod.fst).getD 0

def checkHardened (fTestNet : Bool) (nHeight : Nat) (hash : Uint256) : Bool :=
  match (mapCheckpoints fTestNet).lookup nHeight with
  | none => true
  | some checkpoint => decide (hash = checkpoint)

def futureDrift (nTime : Int) : Int := nTime + 10 * 60

/-! ## Reading the block files -/

namespace BlockFiles

variable (files : BlockFiles)

/-- `OpenBlockFile` refuses these file numbers. -/
def openable (nFile : UInt32) : Bool := decide (¬ (nFile < 1 ∨ nFile = 0xffffffff))

/-- `CTransaction::ReadFromDisk(pos)`: the block offset is not looked at. -/
def readTx (pos : CDiskTxPos) : Option CTransaction :=
  if openable pos.nFile then files.tx pos.nFile pos.nTxPos else none

def readHeader (nFile nBlockPos : UInt32) : Option CBlockHeader :=
  if openable nFile then files.header nFile nBlockPos else none

end BlockFiles

/-! ## The block -/

namespace CBlockHeader

variable (hd : CBlockHeader)

def getBlockTime : Int := hd.nTime.toNat

end CBlockHeader

namespace CBlock

variable (b : CBlock)

def getHash (P : Primitives) : Uint256 := P.blockHash b.toCBlockHeader

/-- A block is proof-of-stake if its second transaction is a coinstake. -/
def isProofOfStake : Bool :=
  match b.vtx with
  | _ :: tx :: _ => tx.isCoinStake
  | _ => false

def isProofOfWork : Bool := !b.isProofOfStake

/-- The stake of a proof-of-stake block: its kernel outpoint and the coinstake's time. -/
def getProofOfStake : COutPoint × UInt32 :=
  match b.vtx with
  | _ :: tx :: _ =>
    if tx.isCoinStake then
      match tx.vin with
      | txin :: _ => (txin.prevout, tx.nTime)
      | [] => (COutPoint.null, 0)
    else (COutPoint.null, 0)
  | _ => (COutPoint.null, 0)

def getSerializeSize : Nat :=
  80 + (getSizeOfCompactSize b.vtx.length + (b.vtx.map CTransaction.getSerializeSize).sum)
    + bytesSize b.vchBlockSig

/-! ## The merkle root -/

/-- One level of the tree up: an odd last node is paired with itself. -/
def merkleLevel (P : Primitives) : List Uint256 → List Uint256
  | [] => []
  | [h] => [P.hashPair h h]
  | h₁ :: h₂ :: hs => P.hashPair h₁ h₂ :: merkleLevel P hs

/-- Level by level up to the root; `fuel` bounds the number of levels. -/
def merkleRoot (P : Primitives) : Nat → List Uint256 → Uint256
  | _, [] => 0
  | _, [h] => h
  | 0, h :: _ => h
  | fuel + 1, h₁ :: h₂ :: hs => merkleRoot P fuel (merkleLevel P (h₁ :: h₂ :: hs))

def buildMerkleTree (P : Primitives) : Uint256 :=
  merkleRoot P b.vtx.length (b.vtx.map P.getHash)

end CBlock

/-- The constructor of an entry from a block and its place on disk; `AddToBlockIndex` fills in the
    hash and what depends on the previous entries. -/
def CBlockIndex.ofBlock (nFile nBlockPos : UInt32) (b : CBlock) : CBlockIndex where
  hashBlock := 0
  nFile := nFile
  nBlockPos := nBlockPos
  nChainTrust := 0
  nHeight := 0
  nFlags := if b.isProofOfStake then CBlockIndex.BLOCK_PROOF_OF_STAKE else 0
  nStakeModifier := 0
  nStakeModifierChecksum := 0
  prevoutStake := b.getProofOfStake.1
  nStakeTime := b.getProofOfStake.2
  hashProofOfStake := 0
  nVersion := b.nVersion
  hashMerkleRoot := b.hashMerkleRoot
  nTime := b.nTime
  nBits := b.nBits
  nNonce := b.nNonce

/-! ## Proof of work and trust -/

def checkProofOfWork (g : Globals) (hash : Uint256) (nBits : UInt32) : Check Unit := do
  let bnTarget := setCompact nBits
  require (¬ (bnTarget ≤ 0 ∨ bnTarget > g.bnProofOfWorkLimit))
    (.reject 0 "CheckProofOfWork() : nBits below minimum work")
  require (¬ hash > getuint256 bnTarget) (.reject 0 "CheckProofOfWork() : hash doesn't match nBits")

/-- The trust a block adds to its chain. -/
def getBlockTrust (nBits : UInt32) : Uint256 :=
  let bnTarget := setCompact nBits
  if bnTarget ≤ 0 then 0 else getuint256 ((2 ^ 256 : Nat) / (bnTarget + 1))

/-- `CBlock::ReadFromDisk(nFile, nBlockPos)`, transactions included. -/
def BlockFiles.readBlock (P : Primitives) (g : Globals) (nFile nBlockPos : UInt32) : Option CBlock :=
  if BlockFiles.openable nFile then
    match g.files.block nFile nBlockPos with
    | none => none
    | some b =>
      if b.isProofOfWork ∧ checkProofOfWork g (b.getHash P) b.nBits ≠ .ok () then none else some b
  else none

/-- `CBlock::ReadFromDisk(pindex)`. -/
def readFromDisk (P : Primitives) (g : Globals) (pindex : CBlockIndex) : Option CBlock :=
  match BlockFiles.readBlock P g pindex.nFile pindex.nBlockPos with
  | none => none
  | some b => if b.getHash P ≠ pindex.hashBlock then none else some b

/-! ## `CheckBlock` -/

def checkCoinStakeTimestamp (nTimeBlock nTimeTx : Int) : Bool := decide (nTimeBlock = nTimeTx)

namespace CBlock

variable (P : Primitives) (g : Globals) (b : CBlock)

/-- The part of `CheckBlock` for proof-of-stake blocks. -/
def checkStakeShape (coinBase : CTransaction) (rest : List CTransaction) (fCheckSig : Bool) :
    Check Unit :=
  if b.isProofOfStake then do
    require (decide (coinBase.vout.length = 1) && coinBase.vout.all CTxOut.isEmpty)
      (.reject 100 "CheckBlock() : coinbase output not empty for proof-of-stake block")
    match rest with
    | [] => .error (.reject 100 "CheckBlock() : second tx is not coinstake")
    | coinStake :: others => do
      require coinStake.isCoinStake (.reject 100 "CheckBlock() : second tx is not coinstake")
      require (others.all fun tx => !tx.isCoinStake)
        (.reject 100 "CheckBlock() : more than one coinstake")
      require (checkCoinStakeTimestamp b.getBlockTime coinStake.nTime.toNat)
        (.reject 50 "CheckBlock() : coinstake timestamp violation")
      require (¬ (fCheckSig ∧ P.checkBlockSignature b = false))
        (.reject 100 "CheckBlock() : bad proof-of-stake block signature")
  else .ok ()

/-- The checks of one transaction inside `CheckBlock`. -/
def checkBlockTx (_ : Unit) (tx : CTransaction) : Check Unit := do
  orFail tx.checkTransaction (Failure.retext "CheckBlock() : CheckTransaction failed")
  require (¬ b.getBlockTime < tx.nTime.toNat)
    (.reject 50 "CheckBlock() : block timestamp earlier than transaction timestamp")

/-- Proof of work matches the claimed amount. -/
def checkClaimedWork (fCheckPOW : Bool) : Check Unit :=
  if fCheckPOW ∧ b.isProofOfWork then
    orFail (checkProofOfWork g (b.getHash P) b.nBits)
      (Failure.instead (.reject 50 "CheckBlock() : proof of work failed"))
  else .ok ()

def checkBlock (fCheckPOW fCheckMerkleRoot fCheckSig : Bool) : Check Unit := do
  require (¬ (b.vtx = [] ∨ b.vtx.length > MAX_BLOCK_SIZE ∨ b.getSerializeSize > MAX_BLOCK_SIZE))
    (.reject 100 "CheckBlock() : size limits failed")
  checkClaimedWork P g b fCheckPOW
  require (¬ b.getBlockTime > futureDrift g.nAdjustedTime)
    (.reject 0 "CheckBlock() : block timestamp too far in the future")
  match b.vtx with
  | [] => .error (.reject 100 "CheckBlock() : first tx is not coinbase")
  | coinBase :: rest => do
    require coinBase.isCoinBase (.reject 100 "CheckBlock() : first tx is not coinbase")
    require (rest.all fun tx => !tx.isCoinBase) (.reject 100 "CheckBlock() : more than one coinbase")
    require (¬ b.getBlockTime > futureDrift coinBase.nTime.toNat)
      (.reject 50 "CheckBlock() : coinbase timestamp is too early")
    checkStakeShape P b coinBase rest fCheckSig
    b.vtx.foldlM b.checkBlockTx ()
    require (b.vtx.map P.getHash).Nodup (.reject 100 "CheckBlock() : duplicate transaction")
    require (¬ (b.vtx.map CTransaction.getLegacySigOpCount).sum > MAX_BLOCK_SIGOPS)
      (.reject 100 "CheckBlock() : out-of-bounds SigOpCount")
    require (¬ (fCheckMerkleRoot ∧ b.hashMerkleRoot ≠ b.buildMerkleTree P))
      (.reject 100 "CheckBlock() : hashMerkleRoot mismatch")

/-! ## What a passed check guarantees -/

/-- The shape of a block that passed `CheckBlock`. -/
structure BlockChecked : Prop where
  coinbase : ∃ coinBase rest, b.vtx = coinBase :: rest ∧ coinBase.isCoinBase = true ∧
    ∀ tx ∈ rest, tx.isCoinBase = false
  coinstake : b.isProofOfStake = true → ∃ coinBase coinStake others,
    b.vtx = coinBase :: coinStake :: others ∧ coinStake.isCoinStake = true ∧
      (∀ txout ∈ coinBase.vout, txout.isEmpty = true) ∧ ∀ tx ∈ others, tx.isCoinStake = false
  txs : ∀ tx ∈ b.vtx, tx.TxChecked
  times : ∀ tx ∈ b.vtx, (tx.nTime.toNat : Int) ≤ b.getBlockTime
  distinct : (b.vtx.map P.getHash).Nodup

theorem checkBlockTxs_ok {u : Unit} (h : b.vtx.foldlM b.checkBlockTx () = .ok u) :
    ∀ tx ∈ b.vtx, tx.checkTransaction = .ok () ∧ (tx.nTime.toNat : Int) ≤ b.getBlockTime := by
  refine foldlM_ok_induct (P := fun pre _ => ∀ tx ∈ pre, tx.checkTransaction = .ok () ∧
    (tx.nTime.toNat : Int) ≤ b.getBlockTime) (fun _ h => absurd h List.not_mem_nil) ?_ h
  intro pre tx post s s' _ hall hstep
  unfold checkBlockTx at hstep
  simp only [bind_ok, orFail_ok, require_ok, decide_eq_true_eq, not_lt] at hstep
  obtain ⟨u, hcheck, htime⟩ := hstep
  intro t ht
  rcases List.mem_append.mp ht with ht | ht
  · exact hall t ht
  · rw [List.mem_singleton.mp ht]
    exact ⟨hcheck, htime⟩

theorem checkStakeShape_ok {coinBase : CTransaction} {rest : List CTransaction} {fCheckSig : Bool}
    {u : Unit} (hpos : b.isProofOfStake = true)
    (h : checkStakeShape P b coinBase rest fCheckSig = .ok u) :
    (∀ txout ∈ coinBase.vout, txout.isEmpty = true) ∧ ∃ coinStake others,
      rest = coinStake :: others ∧ coinStake.isCoinStake = true ∧
        ∀ tx ∈ others, tx.isCoinStake = false := by
  unfold checkStakeShape at h
  rw [if_pos hpos, require_bind_ok, Bool.and_eq_true, List.all_eq_true] at h
  obtain ⟨⟨-, hempty⟩, h⟩ := h
  refine ⟨hempty, ?_⟩
  cases rest with
  | nil => cases h
  | cons coinStake others =>
    simp only [require_bind_ok, List.all_eq_true] at h
    obtain ⟨hcs, hothers, -⟩ := h
    exact ⟨coinStake, others, rfl, hcs, fun tx htx => by simpa using hothers tx htx⟩

theorem checkBlock_ok {fCheckPOW fCheckMerkleRoot fCheckSig : Bool} {u : Unit}
    (h : checkBlock P g b fCheckPOW fCheckMerkleRoot fCheckSig = .ok u) : b.BlockChecked P := by
  unfold checkBlock at h
  simp only [bind_ok, require_ok, exists_const, decide_eq_true_eq] at h
  obtain ⟨-, _, -, -, h⟩ := h
  cases hvtx : b.vtx with
  | nil => rw [hvtx] at h; cases h
  | cons coinBase rest =>
    rw [hvtx] at h
    simp only [bind_ok, require_ok, exists_const, decide_eq_true_eq] at h
    obtain ⟨hcb, hrest, -, _, hstake, _, htxs, hdistinct, -⟩ := h
    rw [← hvtx] at htxs hdistinct
    refine ⟨⟨coinBase, rest, hvtx, hcb, ?_⟩, ?_,
      fun tx htx => tx.checkTransaction_ok (b.checkBlockTxs_ok htxs tx htx).1,
      fun tx htx => (b.checkBlockTxs_ok htxs tx htx).2, hdistinct⟩
    · intro tx htx
      simpa using List.all_eq_true.mp hrest tx htx
    · intro hpos
      obtain ⟨hempty, coinStake, others, rfl, hcs, hothers⟩ :=
        checkStakeShape_ok P b hpos hstake
      exact ⟨coinBase, coinStake, others, hvtx, hcs, hempty, hothers⟩

/-- Every transaction of the block passed on its own. -/
theorem checkBlock_txs {fCheckPOW fCheckMerkleRoot fCheckSig : Bool} {u : Unit}
    (h : checkBlock P g b fCheckPOW fCheckMerkleRoot fCheckSig = .ok u) :
    ∀ tx ∈ b.vtx, tx.checkTransaction = .ok () := by
  unfold checkBlock at h
  simp only [bind_ok, require_ok, exists_const, decide_eq_true_eq] at h
  obtain ⟨-, _, -, -, h⟩ := h
  cases hvtx : b.vtx with
  | nil => rw [hvtx] at h; cases h
  | cons coinBase rest =>
    rw [hvtx] at h
    simp only [bind_ok, require_ok, exists_const, decide_eq_true_eq] at h
    obtain ⟨-, -, -, _, -, _, htxs, -⟩ := h
    rw [← hvtx] at htxs ⊢
    exact fun tx htx => (b.checkBlockTxs_ok htxs tx htx).1

end CBlock
end Silkcoin
