/-
  `CDiskBlockIndex` on disk: the record of a block index entry, written and read back.

  The layout depends on the record.  What belongs to the stake is written if the flags say so, and a reader
  that does not find it sets it to null; the flags are read before.  At the end stands the hash the OBJECT
  keeps, which is no field of the entry: it is zero in a new object, and `GetBlockHash` leaves there what it
  computed.  A node with a fast index takes it from there without looking at the header, if the block is a
  day old.

  So what is read back is what was written, without the stake of an entry that has none
  (`diskIndex_roundtrip`); and because the hash that was kept is that of the header, the two ways of
  `GetBlockHash` agree on it.
-/
import Silkcoin.Serialize
import Silkcoin.Accept
import Silkcoin.TxDb

namespace Silkcoin

open Codec

def readUInt64 : Reader (BitVec 64) := do return BitVec.ofNat 64 (← readLE 8)

theorem readUInt64_lawful : Lawful (fun _ => True) (fun n : BitVec 64 => toLE 8 n.toNat) readUInt64 :=
  (readLE_lawful 8).iso (BitVec.ofNat 64) BitVec.toNat
    (fun n _ => ⟨n.isLt, BitVec.eq_of_toNat_eq (Nat.mod_eq_of_lt n.isLt)⟩)
    (fun _ hn => ⟨trivial, Nat.mod_eq_of_lt hn⟩)

/-- The header of the block of an entry. -/
def CBlockIndex.getBlockHeader (pindex : CBlockIndex) (pprev : BlockPtr) : CBlockHeader where
  nVersion := pindex.nVersion
  hashPrevBlock := (pprev.head?.map CBlockIndex.hashBlock).getD 0
  hashMerkleRoot := pindex.hashMerkleRoot
  nTime := pindex.nTime
  nBits := pindex.nBits
  nNonce := pindex.nNonce

/-- The record as the object it is: with the hash it keeps. -/
structure CDiskBlockObject extends CDiskBlockIndex where
  blockHash : Uint256
deriving DecidableEq, Repr

namespace CDiskBlockObject

/-- What the constructor makes of an entry. -/
def ofIndex (pindex : CBlockIndex) (pprev : BlockPtr) (mem : BlockMem) : CDiskBlockObject where
  toCDiskBlockIndex := CDiskBlockIndex.ofIndex pindex pprev mem
  blockHash := 0

/-- `GetBlockHash`: the hash, and the object that keeps it. -/
def getBlockHash (P : Primitives) (fUseFastIndex : Bool) (adjustedTime : Int) (r : CDiskBlockObject) :
    Uint256 × CDiskBlockObject :=
  if fUseFastIndex ∧ (r.nTime.toNat : Int) < adjustedTime - 24 * 60 * 60 ∧ r.blockHash ≠ 0 then (r.blockHash, r)
  else
    let block : CBlockHeader := ⟨r.nVersion, r.hashPrev, r.hashMerkleRoot, r.nTime, r.nBits, r.nNonce⟩
    (P.blockHash block, { r with blockHash := P.blockHash block })

variable (r : CDiskBlockObject)

def isProofOfStake : Bool := decide (r.nFlags &&& CBlockIndex.BLOCK_PROOF_OF_STAKE ≠ 0)

/-! ## Writing and reading -/

/-- What is written of the stake. -/
def serializeStake : List UInt8 :=
  if r.isProofOfStake then
    r.prevoutStake.serialize ++ (toLE 4 r.nStakeTime.toNat ++ toLE 32 r.hashProofOfStake.toNat)
  else []

/-- `IMPLEMENT_SERIALIZE`, for a stream of some version. -/
def serialize (nType : Nat) (nVersion : Int) : List UInt8 :=
  (if nType &&& SER_GETHASH = 0 then toLEInt 4 nVersion else []) ++
  (toLE 32 r.hashNext.toNat ++
  (toLE 4 r.nFile.toNat ++
  (toLE 4 r.nBlockPos.toNat ++
  (toLEInt 4 r.nHeight ++
  (toLEInt 8 r.nMint ++
  (toLEInt 8 r.nMoneySupply ++
  (toLE 4 r.nFlags.toNat ++
  (toLE 8 r.nStakeModifier.toNat ++
  (r.serializeStake ++
  (toLEInt 4 r.nVersion ++
  (toLE 32 r.hashPrev.toNat ++
  (toLE 32 r.hashMerkleRoot.toNat ++
  (toLE 4 r.nTime.toNat ++
  (toLE 4 r.nBits.toNat ++
  (toLE 4 r.nNonce.toNat ++
  toLE 32 r.blockHash.toNat)))))))))))))))

/-- The stake, if the flags that were read say so; otherwise it is set to null. -/
def unserializeStake (nFlags : UInt32) : Reader (COutPoint × UInt32 × Uint256) :=
  if nFlags &&& CBlockIndex.BLOCK_PROOF_OF_STAKE ≠ 0 then do
    let prevoutStake ← COutPoint.unserialize
    let nStakeTime ← readUInt32
    let hashProofOfStake ← readUint256
    return (prevoutStake, nStakeTime, hashProofOfStake)
  else return (COutPoint.null, 0, 0)

/-- The fields behind the version.  A height that was written is not negative. -/
def unserializeFields : Reader CDiskBlockObject := do
  let hashNext ← readUint256
  let nFile ← readUInt32
  let nBlockPos ← readUInt32
  let nHeight ← readLEInt 4
  let nMint ← readLEInt 8
  let nMoneySupply ← readLEInt 8
  let nFlags ← readUInt32
  let nStakeModifier ← readUInt64
  let (prevoutStake, nStakeTime, hashProofOfStake) ← unserializeStake nFlags
  let nVersion ← readLEInt 4
  let hashPrev ← readUint256
  let hashMerkleRoot ← readUint256
  let nTime ← readUInt32
  let nBits ← readUInt32
  let nNonce ← readUInt32
  let blockHash ← readUint256
  return ⟨⟨hashNext, nFile, nBlockPos, nHeight.toNat, nMint, nMoneySupply, nFlags, nStakeModifier, prevoutStake,
    nStakeTime, hashProofOfStake, nVersion, hashPrev, hashMerkleRoot, nTime, nBits, nNonce⟩, blockHash⟩

/-- The version in front is only read over. -/
def unserialize (nType : Nat) : Reader CDiskBlockObject :=
  if nType &&& SER_GETHASH = 0 then do
    let _ ← readLEInt 4
    unserializeFields
  else unserializeFields

/-- Its numbers are of the types they have. -/
structure Fits : Prop where
  nHeight : r.nHeight < 2 ^ 31
  nMint : FitsInt 8 r.nMint
  nMoneySupply : FitsInt 8 r.nMoneySupply
  nVersion : FitsInt 4 r.nVersion

/-- What is left of the record on disk: a block that has no stake has none there. -/
def onDisk : CDiskBlockObject :=
  if r.isProofOfStake then r
  else { r with prevoutStake := COutPoint.null, nStakeTime := 0, hashProofOfStake := 0 }

variable {r}

theorem onDisk_stake :
    (r.onDisk.prevoutStake, r.onDisk.nStakeTime, r.onDisk.hashProofOfStake) =
      if r.isProofOfStake then (r.prevoutStake, r.nStakeTime, r.hashProofOfStake) else (COutPoint.null, 0, 0) := by
  unfold onDisk
  split <;> rfl

theorem run_unserializeStake {β : Type} (k : COutPoint × UInt32 × Uint256 → Reader β) (rest : List UInt8)
    (c : Bool) :
    (unserializeStake r.nFlags >>= k).run ⟨r.serializeStake ++ rest, c⟩ =
      (k (r.onDisk.prevoutStake, r.onDisk.nStakeTime, r.onDisk.hashProofOfStake)).run ⟨rest, c⟩ := by
  rw [onDisk_stake, run_bind]
  unfold serializeStake unserializeStake isProofOfStake
  by_cases hstake : r.nFlags &&& CBlockIndex.BLOCK_PROOF_OF_STAKE ≠ 0
  · rw [decide_eq_true hstake, if_pos rfl, if_pos hstake, if_pos rfl, List.append_assoc, List.append_assoc,
      COutPoint.unserialize_lawful.run_bind_put trivial, readUInt32_lawful.run_bind_put trivial,
      readUint256_lawful.run_bind_put trivial]
    rfl
  · rw [decide_eq_false hstake, if_neg Bool.false_ne_true, if_neg hstake, if_neg Bool.false_ne_true]
    rfl

theorem run_unserializeFields (h : r.Fits) (rest : List UInt8) (c : Bool) :
    unserializeFields.run ⟨r.serialize SER_GETHASH 0 ++ rest, c⟩ = some (r.onDisk, ⟨rest, c⟩) := by
  have hheight : FitsInt 4 (r.nHeight : Int) := by
    have := h.nHeight
    unfold FitsInt
    omega
  have honDisk : r.onDisk = ⟨⟨r.hashNext, r.nFile, r.nBlockPos, (r.nHeight : Int).toNat, r.nMint, r.nMoneySupply,
      r.nFlags, r.nStakeModifier, r.onDisk.prevoutStake, r.onDisk.nStakeTime, r.onDisk.hashProofOfStake, r.nVersion,
      r.hashPrev, r.hashMerkleRoot, r.nTime, r.nBits, r.nNonce⟩, r.blockHash⟩ := by
    unfold onDisk
    split <;> rfl
  unfold serialize unserializeFields
  rw [if_neg (by decide), List.nil_append]
  -- field by field, in the order they were written
  simp only [List.append_assoc]
  rw [readUint256_lawful.run_bind_put trivial, readUInt32_lawful.run_bind_put trivial,
    readUInt32_lawful.run_bind_put trivial, (readLEInt_lawful 4).run_bind_put hheight,
    (readLEInt_lawful 8).run_bind_put h.nMint, (readLEInt_lawful 8).run_bind_put h.nMoneySupply,
    readUInt32_lawful.run_bind_put trivial, readUInt64_lawful.run_bind_put trivial, run_unserializeStake]
  dsimp only
  rw [(readLEInt_lawful 4).run_bind_put h.nVersion, readUint256_lawful.run_bind_put trivial,
    readUint256_lawful.run_bind_put trivial, readUInt32_lawful.run_bind_put trivial,
    readUInt32_lawful.run_bind_put trivial, readUInt32_lawful.run_bind_put trivial,
    readUint256_lawful.run_bind_put trivial, honDisk]
  rfl

/-- What is written is read, whatever the version and whatever follows. -/
theorem run_unserialize (h : r.Fits) {nVersion : Int} (hversion : FitsInt 4 nVersion) (nType : Nat)
    (rest : List UInt8) (c : Bool) :
    (unserialize nType).run ⟨r.serialize nType nVersion ++ rest, c⟩ = some (r.onDisk, ⟨rest, c⟩) := by
  have hfields := run_unserializeFields h rest c
  unfold serialize at hfields
  rw [if_neg (by decide), List.nil_append] at hfields
  unfold serialize unserialize
  by_cases htype : nType &&& SER_GETHASH = 0
  · rw [if_pos htype, if_pos htype, List.append_assoc, (readLEInt_lawful 4).run_bind_put hversion]
    exact hfields
  · rw [if_neg htype, if_neg htype, List.nil_append]
    exact hfields

/-! ## The hash -/

/-- A record of an entry: made of it, with no hash so far or the one of its header. -/
structure Describes (P : Primitives) (pindex : CBlockIndex) (pprev : BlockPtr) (mem : BlockMem)
    (r : CDiskBlockObject) : Prop where
  fields : r.toCDiskBlockIndex = CDiskBlockIndex.ofIndex pindex pprev mem
  hash : r.blockHash = 0 ∨ r.blockHash = P.blockHash (pindex.getBlockHeader pprev)

variable {P : Primitives} {pindex : CBlockIndex} {pprev : BlockPtr} {mem : BlockMem}

theorem ofIndex_describes : Describes P pindex pprev mem (ofIndex pindex pprev mem) := ⟨rfl, Or.inl rfl⟩

/-- A header and a kept hash are enough for `GetBlockHash` to be right. -/
theorem getBlockHash_eq {header : CBlockHeader}
    (hheader : header = ⟨r.nVersion, r.hashPrev, r.hashMerkleRoot, r.nTime, r.nBits, r.nNonce⟩)
    (hhash : r.blockHash = 0 ∨ r.blockHash = P.blockHash header) (fUseFastIndex : Bool) (adjustedTime : Int) :
    (r.getBlockHash P fUseFastIndex adjustedTime).1 = P.blockHash header := by
  unfold getBlockHash
  split
  · rename_i hfast
    rcases hhash with hzero | heq
    · exact absurd hzero hfast.2.2
    · exact heq
  · rw [hheader]

theorem Describes.header (h : Describes P pindex pprev mem r) :
    pindex.getBlockHeader pprev = ⟨r.nVersion, r.hashPrev, r.hashMerkleRoot, r.nTime, r.nBits, r.nNonce⟩ := by
  rw [h.fields]
  rfl

/-- Asking for the hash leaves a record of the entry. -/
theorem Describes.getBlockHash (h : Describes P pindex pprev mem r) (fUseFastIndex : Bool) (adjustedTime : Int) :
    Describes P pindex pprev mem (r.getBlockHash P fUseFastIndex adjustedTime).2 := by
  unfold CDiskBlockObject.getBlockHash
  split
  · exact h
  · refine ⟨h.fields, Or.inr ?_⟩
    rw [h.header]

/-- **The record is read back as it was**, a proof-of-work record with a null stake, and gives the hash of
    the header of its block. -/
theorem diskIndex_roundtrip (P : Primitives) (pindex : CBlockIndex) (pprev : BlockPtr) (mem : BlockMem)
    (r : CDiskBlockObject) (hr : Describes P pindex pprev mem r) (hfits : r.Fits) (nType : Nat) (nVersion : Int)
    (hversion : FitsInt 4 nVersion) (rest : List UInt8) (c : Bool) :
    ∃ r', (unserialize nType).run ⟨r.serialize nType nVersion ++ rest, c⟩ = some (r', ⟨rest, c⟩) ∧
      (pindex.isProofOfStake = true → r' = r) ∧
      (pindex.isProofOfStake = false →
        r' = { r with prevoutStake := COutPoint.null, nStakeTime := 0, hashProofOfStake := 0 }) ∧
      ∀ fUseFastIndex adjustedTime, (r'.getBlockHash P fUseFastIndex adjustedTime).1 =
        P.blockHash (pindex.getBlockHeader pprev) := by
  have hflags : r.isProofOfStake = pindex.isProofOfStake := by
    unfold isProofOfStake
    rw [hr.fields]
    rfl
  refine ⟨r.onDisk, run_unserialize hfits hversion nType rest c, fun hstake => ?_, fun hwork => ?_, ?_⟩
  · unfold onDisk
    rw [hflags, hstake, if_pos rfl]
  · unfold onDisk
    rw [hflags, hwork, if_neg Bool.false_ne_true]
  · apply getBlockHash_eq
    · rw [hr.header]
      unfold onDisk
      split <;> rfl
    · have hkept : r.onDisk.blockHash = r.blockHash := by
        unfold onDisk
        split <;> rfl
      rw [hkept]
      exact hr.hash

/-- A minted block with a successor, and the record that `WriteBlockIndex` has asked for its hash. -/
def stakedIndex : CBlockIndex where
  hashBlock := 77
  nFile := 1
  nBlockPos := 2000
  nChainTrust := 5
  nHeight := 12
  nFlags := 5
  nStakeModifier := 3
  nStakeModifierChecksum := 0
  prevoutStake := ⟨9, 1⟩
  nStakeTime := 1407023400
  hashProofOfStake := 4
  nVersion := 6
  hashMerkleRoot := 8
  nTime := 1407023400
  nBits := 0x1e0fffff
  nNonce := 0

def stakedRecord : CDiskBlockObject :=
  ((ofIndex stakedIndex [] ⟨some 78, 10, 1000⟩).getBlockHash (Primitives.ofTables [] [] []) true 1407100000).2

theorem stakedRecord_roundtrip :
    ∃ r', (unserialize SER_DISK).run ⟨stakedRecord.serialize SER_DISK 60014 ++ [1, 2], true⟩ =
        some (r', ⟨[1, 2], true⟩) ∧
      (stakedIndex.isProofOfStake = true → r' = stakedRecord) ∧
      (stakedIndex.isProofOfStake = false →
        r' = { stakedRecord with prevoutStake := COutPoint.null, nStakeTime := 0, hashProofOfStake := 0 }) ∧
      ∀ fUseFastIndex adjustedTime, (r'.getBlockHash (Primitives.ofTables [] [] []) fUseFastIndex adjustedTime).1 =
        (Primitives.ofTables [] [] []).blockHash (stakedIndex.getBlockHeader []) :=
  diskIndex_roundtrip (Primitives.ofTables [] [] []) stakedIndex [] ⟨some 78, 10, 1000⟩ stakedRecord
    (ofIndex_describes.getBlockHash true 1407100000) ⟨by decide, by decide, by decide, by decide⟩ SER_DISK 60014
    (by decide) [1, 2] true

end CDiskBlockObject

end Silkcoin
