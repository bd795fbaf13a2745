/-
  `CTxDB`: the transaction database.

  One key/value store holds the transaction index, the block index and a few single records.  Between
  `TxnBegin` and `TxnCommit` writes go to a batch and reads look through it (`Lib/Store`).

  What the rest of the development uses is the READ side: `readTxIndex` as a function of the hash,
  and how each operation moves it (`readTxIndex_updateTxIndex`, `readTxIndex_eraseTxIndex`, and the
  operations that leave it alone).
-/
import Silkcoin.Block

namespace Silkcoin

open BatchStore

/-- The keys of the database. -/
inductive DbKey where
  | tx (hash : Uint256)
  | blockindex (hash : Uint256)
  | hashBestChain
  | bnBestInvalidTrust
  | hashSyncCheckpoint
deriving DecidableEq, Repr

/-- A block index entry as it is stored: pointers have become hashes. -/
structure CDiskBlockIndex where
  hashNext : Uint256
  nFile : UInt32
  nBlockPos : UInt32
  nHeight : Nat
  nMint : Int
  nMoneySupply : Int
  nFlags : UInt32
  nStakeModifier : BitVec 64
  prevoutStake : COutPoint
  nStakeTime : UInt32
  hashProofOfStake : Uint256
  nVersion : Int
  hashPrev : Uint256
  hashMerkleRoot : Uint256
  nTime : UInt32
  nBits : UInt32
  nNonce : UInt32
deriving DecidableEq, Repr

namespace CDiskBlockIndex

/-- The stored form of an in-memory entry and the entries behind it. -/
def ofIndex (pindex : CBlockIndex) (pprev : BlockPtr) (mem : BlockMem) : CDiskBlockIndex where
  hashNext := mem.pnext.getD 0
  nFile := pindex.nFile
  nBlockPos := pindex.nBlockPos
  nHeight := pindex.nHeight
  nMint := mem.nMint
  nMoneySupply := mem.nMoneySupply
  nFlags := pindex.nFlags
  nStakeModifier := pindex.nStakeModifier
  prevoutStake := pindex.prevoutStake
  nStakeTime := pindex.nStakeTime
  hashProofOfStake := pindex.hashProofOfStake
  nVersion := pindex.nVersion
  hashPrev := (pprev.head?.map CBlockIndex.hashBlock).getD 0
  hashMerkleRoot := pindex.hashMerkleRoot
  nTime := pindex.nTime
  nBits := pindex.nBits
  nNonce := pindex.nNonce

/-- The key of the entry: the hash of the header it stores. -/
def getBlockHash (P : Primitives) (d : CDiskBlockIndex) : Uint256 :=
  P.blockHash ⟨d.nVersion, d.hashPrev, d.hashMerkleRoot, d.nTime, d.nBits, d.nNonce⟩

end CDiskBlockIndex

/-- The values of the database. -/
inductive DbValue where
  | txIndex (txindex : CTxIndex)
  | blockIndex (blockindex : CDiskBlockIndex)
  | hash (hash : Uint256)
  | trust (bn : Int)
deriving DecidableEq, Repr

/-- The database: what is on disk, and the batch of the open transaction if there is one. -/
structure CTxDB where
  disk : StdMap DbKey DbValue
  activeBatch : Option (Batch DbKey DbValue)

namespace CTxDB

variable (db : CTxDB)

/-! ## Reading and writing -/

/-- Queued changes are looked at first; a queued delete hides what is on disk. -/
def read (key : DbKey) : Option DbValue :=
  match db.activeBatch with
  | some batch => (scan batch key).getD (db.disk.lookup key)
  | none => db.disk.lookup key

def write (key : DbKey) (value : DbValue) : CTxDB :=
  match db.activeBatch with
  | some batch => { db with activeBatch := some (batch ++ [(key, some value)]) }
  | none => { db with disk := db.disk.insert key value }

def erase (key : DbKey) : CTxDB :=
  match db.activeBatch with
  | some batch => { db with activeBatch := some (batch ++ [(key, none)]) }
  | none => { db with disk := db.disk.erase key }

/-- Only called without an active batch. -/
def txnBegin : CTxDB := { db with activeBatch := some [] }

/-- The batch is gone whether or not the store takes it. -/
def txnCommit (ok : Bool) : CTxDB where
  disk := if ok then apply db.disk (db.activeBatch.getD []) else db.disk
  activeBatch := none

def txnAbort : CTxDB := { db with activeBatch := none }

/-! ## The records -/

def readTxIndex (hash : Uint256) : Option CTxIndex :=
  match db.read (.tx hash) with
  | some (.txIndex txindex) => some txindex
  | _ => none

def updateTxIndex (hash : Uint256) (txindex : CTxIndex) : CTxDB :=
  db.write (.tx hash) (.txIndex txindex)

def eraseTxIndex (P : Primitives) (tx : CTransaction) : CTxDB := db.erase (.tx (P.getHash tx))

def writeBlockIndex (P : Primitives) (blockindex : CDiskBlockIndex) : CTxDB :=
  db.write (.blockindex (blockindex.getBlockHash P)) (.blockIndex blockindex)

def readHashBestChain : Option Uint256 :=
  match db.read .hashBestChain with
  | some (.hash hash) => some hash
  | _ => none

def writeHashBestChain (hash : Uint256) : CTxDB := db.write .hashBestChain (.hash hash)

def writeBestInvalidTrust (bn : Int) : CTxDB := db.write .bnBestInvalidTrust (.trust bn)

/-- `CTransaction::ReadFromDisk(txdb, prevout, txindex)`: by index entry, output number checked. -/
def readPrevTx (files : BlockFiles) (prevout : COutPoint) : Option (CTransaction × CTxIndex) :=
  match db.readTxIndex prevout.hash with
  | none => none
  | some txindex =>
    match files.readTx txindex.pos with
    | none => none
    | some tx => if prevout.n.toNat ≥ tx.vout.length then none else some (tx, txindex)

/-! ## How the operations move the reads -/

theorem read_write (key key' : DbKey) (value : DbValue) :
    (db.write key value).read key' = if key = key' then some value else db.read key' := by
  obtain ⟨disk, batch⟩ := db
  cases batch with
  | none => exact lookup_insert_eq_ite disk key key' value
  | some batch =>
    show (scan (batch ++ [(key, some value)]) key').getD _ = _
    rw [scan_append_one]
    by_cases h : key = key'
    · rw [if_pos h, if_pos h]; rfl
    · rw [if_neg h, if_neg h]; rfl

theorem read_erase (key key' : DbKey) :
    (db.erase key).read key' = if key = key' then none else db.read key' := by
  obtain ⟨disk, batch⟩ := db
  cases batch with
  | none => exact applyOp_lookup disk (key, none) key'
  | some batch =>
    show (scan (batch ++ [(key, none)]) key').getD _ = _
    rw [scan_append_one]
    by_cases h : key = key'
    · rw [if_pos h, if_pos h]; rfl
    · rw [if_neg h, if_neg h]; rfl

/-- Opening a transaction hides nothing. -/
theorem read_txnBegin (h : db.activeBatch = none) (key : DbKey) :
    db.txnBegin.read key = db.read key := by
  unfold read txnBegin
  rw [h]; rfl

/-- A committed transaction is read the way it was read through its batch. -/
theorem read_txnCommit (key : DbKey) : (db.txnCommit true).read key = db.read key := by
  obtain ⟨disk, batch⟩ := db
  show (apply disk (batch.getD [])).lookup key = _
  rw [apply_lookup]
  cases batch <;> rfl

/-- Outside a transaction the disk is read. -/
theorem read_closed (h : db.activeBatch = none) (key : DbKey) : db.read key = db.disk.lookup key := by
  unfold read
  rw [h]

theorem readTxIndex_updateTxIndex (h h' : Uint256) (txindex : CTxIndex) :
    (db.updateTxIndex h txindex).readTxIndex h' =
      if h = h' then some txindex else db.readTxIndex h' := by
  unfold readTxIndex updateTxIndex
  rw [read_write]
  by_cases hh : h = h'
  · rw [if_pos hh, if_pos (congrArg DbKey.tx hh)]
  · rw [if_neg hh, if_neg (fun he => hh (DbKey.tx.inj he))]

theorem readTxIndex_eraseTxIndex (P : Primitives) (tx : CTransaction) (h : Uint256) :
    (db.eraseTxIndex P tx).readTxIndex h = if P.getHash tx = h then none else db.readTxIndex h := by
  unfold readTxIndex eraseTxIndex
  rw [read_erase]
  by_cases hh : P.getHash tx = h
  · rw [if_pos hh, if_pos (congrArg DbKey.tx hh)]
  · rw [if_neg hh, if_neg (fun he => hh (DbKey.tx.inj he))]

/-- A write under a key that is not a transaction's leaves the index alone. -/
theorem readTxIndex_write {key : DbKey} (hkey : ∀ h, key ≠ .tx h) (value : DbValue) (h : Uint256) :
    (db.write key value).readTxIndex h = db.readTxIndex h := by
  unfold readTxIndex
  rw [read_write, if_neg (hkey h)]

@[simp] theorem readTxIndex_writeBlockIndex (P : Primitives) (d : CDiskBlockIndex) (h : Uint256) :
    (db.writeBlockIndex P d).readTxIndex h = db.readTxIndex h :=
  db.readTxIndex_write (fun _ hk => by cases hk) _ h

@[simp] theorem readTxIndex_writeHashBestChain (hash h : Uint256) :
    (db.writeHashBestChain hash).readTxIndex h = db.readTxIndex h :=
  db.readTxIndex_write (fun _ hk => by cases hk) _ h

@[simp] theorem readTxIndex_writeBestInvalidTrust (bn : Int) (h : Uint256) :
    (db.writeBestInvalidTrust bn).readTxIndex h = db.readTxIndex h :=
  db.readTxIndex_write (fun _ hk => by cases hk) _ h

@[simp] theorem readTxIndex_txnCommit (h : Uint256) :
    (db.txnCommit true).readTxIndex h = db.readTxIndex h := by
  unfold readTxIndex
  rw [read_txnCommit]

theorem readTxIndex_txnBegin (hb : db.activeBatch = none) (h : Uint256) :
    db.txnBegin.readTxIndex h = db.readTxIndex h := by
  unfold readTxIndex
  rw [db.read_txnBegin hb]

@[simp] theorem readHashBestChain_writeHashBestChain (hash : Uint256) :
    (db.writeHashBestChain hash).readHashBestChain = some hash := by
  unfold readHashBestChain writeHashBestChain
  rw [read_write, if_pos rfl]

@[simp] theorem readHashBestChain_txnCommit :
    (db.txnCommit true).readHashBestChain = db.readHashBestChain := by
  unfold readHashBestChain
  rw [read_txnCommit]

/-- Writing a whole map of queued index changes. -/
theorem readTxIndex_putAll (m : StdMap Uint256 CTxIndex) (h : Uint256) :
    (putAll updateTxIndex db m).readTxIndex h = (m.lookup h).or (db.readTxIndex h) :=
  putAll_lookup (fun db h txindex h' => db.readTxIndex_updateTxIndex h h' txindex)
    m db h

/-! ## Inside a transaction -/

/-- A transaction is open and nothing of it has reached the disk. -/
structure Pending (disk : StdMap DbKey DbValue) (db : CTxDB) : Prop where
  disk_eq : db.disk = disk
  isOpen : db.activeBatch.isSome = true

variable {db} {disk : StdMap DbKey DbValue}

theorem pending_txnBegin : Pending db.disk db.txnBegin := ⟨rfl, rfl⟩

theorem Pending.write (h : Pending disk db) (key : DbKey) (value : DbValue) :
    Pending disk (db.write key value) := by
  obtain ⟨batch, hbatch⟩ := Option.isSome_iff_exists.mp h.isOpen
  unfold CTxDB.write
  rw [hbatch]
  exact ⟨h.disk_eq, rfl⟩

theorem Pending.erase (h : Pending disk db) (key : DbKey) : Pending disk (db.erase key) := by
  obtain ⟨batch, hbatch⟩ := Option.isSome_iff_exists.mp h.isOpen
  unfold CTxDB.erase
  rw [hbatch]
  exact ⟨h.disk_eq, rfl⟩

theorem Pending.putAll (h : Pending disk db) (m : StdMap Uint256 CTxIndex) :
    Pending disk (BatchStore.putAll updateTxIndex db m) := by
  unfold BatchStore.putAll
  generalize m.entries = entries
  induction entries generalizing db with
  | nil => exact h
  | cons e entries ih => exact ih (h.write _ _)

end CTxDB
end Silkcoin
