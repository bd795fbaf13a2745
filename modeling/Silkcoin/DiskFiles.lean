/-
  The block files as BYTES: what `WriteToDisk` appends, and what `ReadFromDisk` finds there.

  A block goes to the end of the current block file: the message start, the size, and the block as
  `Serialize` writes it.  `WriteToDisk` reports where the block starts.  Where its TRANSACTIONS start is
  not asked of the file: `ConnectBlock` calculates it, from the sizes of the header, of the count and of
  the transactions before.  `txPosition_bytes` is that the two agree, whatever has been written behind the
  block in the meantime: a block file only grows (`Step.grows`), also where a write broke off.

  The rest of the development reads the block files through `BlockFiles`, a map from places to what can be
  read there.  `Shows` says that the bytes bear such a map out, and `writeToDisk_shows` that they go on
  doing so when a block is written.
-/
import Silkcoin.Serialize
import Silkcoin.AddBlock
import Silkcoin.TxIndex
import Mathlib.Logic.Relation

namespace Silkcoin

open Codec Validation

/-! ## The files -/

/-- The block files, by number, and the one that is written to.  A file that is not there is empty. -/
structure DiskFiles where
  bytes : UInt32 → List UInt8
  nCurrentBlockFile : UInt32

namespace DiskFiles

variable (d : DiskFiles)

/-- `fwrite` on a file that was opened to append. -/
def write (nFile : UInt32) (l : List UInt8) : DiskFiles :=
  { d with bytes := Function.update d.bytes nFile (d.bytes nFile ++ l) }

/-- The first file that still has room, from the current one on. -/
def appendBlockFile (d : DiskFiles) : DiskFiles × Option UInt32 :=
  if BlockFiles.openable d.nCurrentBlockFile then
    if (d.bytes d.nCurrentBlockFile).length < 0x7F000000 - MAX_SIZE.toNat then
      (d, some d.nCurrentBlockFile)
    else appendBlockFile { d with nCurrentBlockFile := d.nCurrentBlockFile + 1 }
  else (d, none)
termination_by 2 ^ 32 - d.nCurrentBlockFile.toNat
decreasing_by
  rename_i hopen _
  have hlast : ¬ (d.nCurrentBlockFile < 1 ∨ d.nCurrentBlockFile = 0xffffffff) :=
    of_decide_eq_true hopen
  have hlt := d.nCurrentBlockFile.toNat_lt
  have hne : d.nCurrentBlockFile.toNat ≠ 4294967295 := fun h =>
    hlast (Or.inr (UInt32.toNat_inj.mp h))
  show 2 ^ 32 - (d.nCurrentBlockFile + 1).toNat < 2 ^ 32 - d.nCurrentBlockFile.toNat
  rw [UInt32.toNat_add, show (1 : UInt32).toNat = 1 from rfl]
  omega

end DiskFiles

/-- `CBlock::WriteToDisk`: the file and the offset the block was written at. -/
def CBlock.writeToDisk (fTestNet : Bool) (b : CBlock) (d : DiskFiles) :
    DiskFiles × Option (UInt32 × UInt32) :=
  match d.appendBlockFile with
  | (d, none) => (d, none)
  | (d, some nFile) =>
    -- the index header
    let nSize := b.nSerSize SER_DISK
    let d := d.write nFile (pchMessageStart fTestNet ++ toLE 4 nSize.toNat)
    let nBlockPos := UInt32.ofNat (d.bytes nFile).length
    (d.write nFile (b.serialize SER_DISK), some (nFile, nBlockPos))

/-- `filein >> x`, behind `fseek`. -/
def DiskFiles.readAt {α : Type} (d : DiskFiles) (nFile nPos : UInt32) (get : Reader α) : Option α :=
  if BlockFiles.openable nFile then
    (get.run ⟨(d.bytes nFile).drop nPos.toNat, true⟩).map Prod.fst
  else none

/-- `CTransaction::ReadFromDisk`. -/
def CTransaction.readFromDisk (Z : ObjectSizes) (d : DiskFiles) (pos : CDiskTxPos) : Option CTransaction :=
  d.readAt pos.nFile pos.nTxPos (CTransaction.unserialize Z)

/-- `CBlock::ReadFromDisk`, before the header is checked. -/
def CBlock.readFromDisk (Z : ObjectSizes) (d : DiskFiles) (nFile nBlockPos : UInt32) : Option CBlock :=
  d.readAt nFile nBlockPos (CBlock.unserialize Z SER_DISK)

/-- `CBlock::ReadFromDisk` without the transactions. -/
def CBlock.readHeaderFromDisk (Z : ObjectSizes) (d : DiskFiles) (nFile nBlockPos : UInt32) :
    Option CBlock :=
  d.readAt nFile nBlockPos (CBlock.unserialize Z (SER_DISK ||| SER_BLOCKHEADERONLY))

/-! ## Files only grow -/

namespace DiskFiles

/-- What can happen to the block files. -/
inductive Step (fTestNet : Bool) : DiskFiles → DiskFiles → Prop
  | written (d : DiskFiles) (b : CBlock) : Step fTestNet d (b.writeToDisk fTestNet d).1
  /-- a write that broke off: some of its bytes are there -/
  | brokeOff (d : DiskFiles) (nFile : UInt32) (l : List UInt8) : Step fTestNet d (d.write nFile l)
  /-- the next run starts at the first file again -/
  | restarted (d : DiskFiles) : Step fTestNet d { d with nCurrentBlockFile := 1 }

/-- Any number of steps. -/
def Run (fTestNet : Bool) : DiskFiles → DiskFiles → Prop := Relation.ReflTransGen (Step fTestNet)

theorem grows_write (d : DiskFiles) (nFile : UInt32) (l : List UInt8) (f : UInt32) :
    d.bytes f <+: (d.write nFile l).bytes f := by
  show _ <+: Function.update d.bytes nFile (d.bytes nFile ++ l) f
  by_cases hf : f = nFile
  · rw [hf, Function.update_self]
    exact List.prefix_append _ _
  · rw [Function.update_of_ne hf]

/-- A file with room is found without a change to the files. -/
theorem appendBlockFile_spec (d : DiskFiles) : (d.appendBlockFile).1.bytes = d.bytes ∧
    ∀ nFile, (d.appendBlockFile).2 = some nFile → BlockFiles.openable nFile = true ∧
      (d.bytes nFile).length < 0x7F000000 - MAX_SIZE.toNat := by
  induction d using appendBlockFile.induct with
  | case1 d hopen hroom =>
    rw [appendBlockFile, if_pos hopen, if_pos hroom]
    refine ⟨rfl, fun nFile h => ?_⟩
    obtain rfl := Option.some.inj h
    exact ⟨hopen, hroom⟩
  | case2 d hopen hfull ih =>
    rw [appendBlockFile, if_pos hopen, if_neg hfull]
    exact ih
  | case3 d hopen =>
    rw [appendBlockFile, if_neg hopen]
    exact ⟨rfl, fun nFile h => nomatch h⟩

/-- What a call that returns `true` has written, and where. -/
theorem writeToDisk_spec {fTestNet : Bool} {b : CBlock} {d d' : DiskFiles} {nFile nBlockPos : UInt32}
    (h : b.writeToDisk fTestNet d = (d', some (nFile, nBlockPos))) :
    BlockFiles.openable nFile = true ∧
    nBlockPos.toNat = (d.bytes nFile).length + 8 ∧
    nBlockPos.toNat < 0x7F000000 - MAX_SIZE.toNat + 8 ∧
    (∀ f, f ≠ nFile → d'.bytes f = d.bytes f) ∧
    d'.bytes nFile = d.bytes nFile ++ (pchMessageStart fTestNet ++
      toLE 4 (b.nSerSize SER_DISK).toNat) ++ b.serialize SER_DISK := by
  obtain ⟨hbytes, hroom⟩ := d.appendBlockFile_spec
  unfold CBlock.writeToDisk at h
  generalize d.appendBlockFile = r at hbytes hroom h
  obtain ⟨d₀, _ | f⟩ := r
  · cases h
  · obtain ⟨hopen, hlen⟩ := hroom f rfl
    have hlen : (d.bytes f).length < 2130706432 - 33554432 := hlen
    obtain ⟨rfl, hret⟩ := Prod.mk.inj h
    obtain ⟨rfl, rfl⟩ := Prod.mk.inj (Option.some.inj hret)
    have hfront : (d₀.write f (pchMessageStart fTestNet ++ toLE 4 (b.nSerSize SER_DISK).toNat)).bytes f =
        d.bytes f ++ (pchMessageStart fTestNet ++ toLE 4 (b.nSerSize SER_DISK).toNat) := by
      show Function.update d₀.bytes f _ f = _
      rw [Function.update_self, hbytes]
    have hpos : (d.bytes f ++ (pchMessageStart fTestNet ++
        toLE 4 (b.nSerSize SER_DISK).toNat)).length = (d.bytes f).length + 8 := by
      have hstart : (pchMessageStart fTestNet).length = 4 := by cases fTestNet <;> rfl
      rw [List.length_append, List.length_append, hstart, length_toLE]
    have hnat : (UInt32.ofNat ((d.bytes f).length + 8)).toNat = (d.bytes f).length + 8 :=
      UInt32.toNat_ofNat_of_lt' (by show _ < 2 ^ 32; omega)
    refine ⟨hopen, ?_, ?_, ?_, ?_⟩
    · rw [hfront, hpos, hnat]
    · show _ < 2130706432 - 33554432 + 8
      rw [hfront, hpos, hnat]
      omega
    · intro f' hf'
      show Function.update (Function.update d₀.bytes f _) f _ f' = _
      rw [Function.update_of_ne hf', Function.update_of_ne hf', hbytes]
    · show Function.update (DiskFiles.write d₀ f _).bytes f _ f = _
      rw [Function.update_self, hfront]

theorem grows_writeToDisk (fTestNet : Bool) (b : CBlock) (d : DiskFiles) (f : UInt32) :
    d.bytes f <+: (b.writeToDisk fTestNet d).1.bytes f := by
  obtain ⟨hbytes, -⟩ := d.appendBlockFile_spec
  unfold CBlock.writeToDisk
  generalize d.appendBlockFile = r at hbytes
  obtain ⟨d₀, _ | nFile⟩ := r
  · rw [show d.bytes = d₀.bytes from hbytes.symm]
  · rw [show d.bytes = d₀.bytes from hbytes.symm]
    exact (grows_write d₀ nFile _ f).trans (grows_write _ nFile _ f)

theorem Step.grows {fTestNet : Bool} {d d' : DiskFiles} (h : Step fTestNet d d') (f : UInt32) :
    d.bytes f <+: d'.bytes f := by
  cases h with
  | written b => exact grows_writeToDisk fTestNet b d f
  | brokeOff nFile l => exact grows_write d nFile l f
  | restarted => exact List.prefix_refl _

theorem Run.grows {fTestNet : Bool} {d d' : DiskFiles} (h : Run fTestNet d d') (f : UInt32) :
    d.bytes f <+: d'.bytes f := by
  induction h with
  | refl => exact List.prefix_refl _
  | tail _ hstep ih => exact ih.trans (hstep.grows f)

/-- What starts at an offset is read there. -/
theorem readAt_of_prefix {α : Type} {Fits : α → Prop} {put : α → List UInt8} {get : Reader α}
    (hget : Lawful Fits put get) {d : DiskFiles} {nFile nPos : UInt32}
    (hopen : BlockFiles.openable nFile = true) {a : α} (ha : Fits a) {front : List UInt8}
    (hpos : nPos.toNat = front.length) (h : front ++ put a <+: d.bytes nFile) :
    d.readAt nFile nPos get = some a := by
  obtain ⟨rest, hrest⟩ := h
  rw [readAt, if_pos hopen, ← hrest, List.append_assoc, hpos, List.drop_left, hget.get_put a ha]
  rfl

end DiskFiles

/-! ## Inside a block -/

namespace CBlock

variable (b : CBlock)

/-- Everything in front of the transaction that comes after `pre`: the header, the count, and `pre`. -/
def bytesBefore (pre : List CTransaction) : List UInt8 :=
  b.serialize (SER_DISK ||| SER_BLOCKHEADERONLY) ++ writeCompactSize b.vtx.length ++
    putAll CTransaction.serialize pre

theorem length_header : (b.serialize (SER_DISK ||| SER_BLOCKHEADERONLY)).length = 80 := by
  unfold serialize toLEInt
  rw [if_neg (by decide)]
  simp only [List.length_append, length_toLE, List.length_nil]

theorem length_bytesBefore (pre : List CTransaction) : (b.bytesBefore pre).length =
    80 + getSizeOfCompactSize b.vtx.length + (pre.map CTransaction.getSerializeSize).sum := by
  have hsum : (pre.map fun tx => tx.serialize.length) = pre.map CTransaction.getSerializeSize :=
    List.map_congr_left fun tx _ => tx.length_serialize
  rw [bytesBefore, List.length_append, List.length_append, length_header, length_writeCompactSize,
    putAll, List.length_flatMap, hsum]

theorem serialize_eq_header : b.serialize SER_DISK = b.serialize (SER_DISK ||| SER_BLOCKHEADERONLY) ++
    (writeVector CTransaction.serialize b.vtx ++ writeByteVector b.vchBlockSig) := by
  unfold serialize
  rw [if_neg (c := withTransactions (SER_DISK ||| SER_BLOCKHEADERONLY) = true) (by decide),
    if_pos (c := withTransactions SER_DISK = true) (by decide)]
  simp only [List.append_assoc, List.append_nil]

/-- The header alone is the front of the block. -/
theorem header_prefix :
    serialize (SER_DISK ||| SER_BLOCKHEADERONLY) ⟨b.toCBlockHeader, [], []⟩ <+: b.serialize SER_DISK := by
  have hw : ¬ withTransactions (SER_DISK ||| SER_BLOCKHEADERONLY) = true := by decide
  have heq : serialize (SER_DISK ||| SER_BLOCKHEADERONLY) ⟨b.toCBlockHeader, [], []⟩ =
      b.serialize (SER_DISK ||| SER_BLOCKHEADERONLY) := by
    unfold serialize
    rw [if_neg hw, if_neg hw]
  rw [heq, serialize_eq_header]
  exact List.prefix_append _ _

/-- A block is written transaction by transaction. -/
theorem serialize_split {pre post : List CTransaction} {tx : CTransaction}
    (hvtx : b.vtx = pre ++ tx :: post) : b.bytesBefore pre ++ tx.serialize <+: b.serialize SER_DISK := by
  refine ⟨putAll CTransaction.serialize post ++ writeByteVector b.vchBlockSig, ?_⟩
  have hall : putAll CTransaction.serialize b.vtx = putAll CTransaction.serialize pre ++
      (tx.serialize ++ putAll CTransaction.serialize post) := by
    rw [putAll, hvtx, List.flatMap_append, List.flatMap_cons]
    rfl
  rw [serialize_eq_header, bytesBefore, writeVector, hall]
  simp only [List.append_assoc]

/-- What `ConnectBlock` adds up, as long as it does not run over. -/
theorem txOffset_toNat {pindex : CBlockIndex} {pre post : List CTransaction} {tx : CTransaction}
    (hvtx : b.vtx = pre ++ tx :: post)
    (hroom : pindex.nBlockPos.toNat + b.getSerializeSize < 2 ^ 32) :
    (txOffset pindex b pre).toNat = pindex.nBlockPos.toNat + (b.bytesBefore pre).length := by
  have hofNat : ∀ l : List CTransaction, txOffset pindex b l =
      UInt32.ofNat (pindex.nBlockPos.toNat + (80 + getSizeOfCompactSize b.vtx.length +
        (l.map CTransaction.getSerializeSize).sum)) := by
    intro l
    induction l using List.reverseRecOn with
    | nil =>
      rw [UInt32.ofNat_add, UInt32.ofNat_toNat]
      rfl
    | append_singleton l t ih =>
      rw [txOffset_append_one, ih, ← UInt32.ofNat_add, List.map_append, List.sum_append]
      congr 1
      simp only [List.map_cons, List.map_nil, List.sum_cons, List.sum_nil]
      omega
  have hsum : (pre.map CTransaction.getSerializeSize).sum ≤
      (b.vtx.map CTransaction.getSerializeSize).sum := by
    rw [hvtx, List.map_append, List.sum_append]
    omega
  rw [getSerializeSize] at hroom
  rw [hofNat, b.length_bytesBefore]
  exact UInt32.toNat_ofNat_of_lt' (by show _ < 2 ^ 32; omega)

end CBlock

/-! ## What connecting records -/

section Connect

variable {P : Primitives} {g : Globals} {mem : Uint256 → BlockMem} {txdb : CTxDB}
  {pindex : CBlockIndex} {pprev : BlockPtr} {b : CBlock} {r : Connected}

/-- A connected block passed the size limit, and its outputs the range of money. -/
theorem checkBlock_size {fCheckPOW fCheckMerkleRoot fCheckSig : Bool} {u : Unit}
    (h : b.checkBlock P g fCheckPOW fCheckMerkleRoot fCheckSig = .ok u) :
    b.getSerializeSize ≤ MAX_BLOCK_SIZE := by
  unfold CBlock.checkBlock at h
  simp only [bind_ok, require_ok, exists_const, decide_eq_true_eq] at h
  obtain ⟨hsize, -⟩ := h
  omega

theorem connectBlock_size (h : CBlock.connectBlock P g mem txdb pindex pprev b false = .ok r) :
    b.getSerializeSize ≤ MAX_BLOCK_SIZE := by
  unfold CBlock.connectBlock at h
  simp only [bind_ok] at h
  obtain ⟨_, hcheck, -⟩ := h
  exact checkBlock_size hcheck

theorem fitsInt_of_moneyRange {nValue : Int} (h : moneyRange nValue = true) : FitsInt 8 nValue := by
  unfold moneyRange MAX_MONEY COIN at h
  have h := of_decide_eq_true h
  constructor <;> norm_num <;> omega

/-- The position every transaction is recorded with is the one `ConnectBlock` has calculated; the
    transactions behind it only mark its outputs. -/
theorem connectBlock_positions (h : CBlock.connectBlock P g mem txdb pindex pprev b false = .ok r) :
    ∀ p ∈ splits b.vtx, ∃ txindex, r.txdb.readTxIndex (P.getHash p.2) = some txindex ∧
      txindex.pos = CBlock.txPosition pindex b p.1 := by
  obtain ⟨hchecked, s, hrun, -, -, htxdb⟩ := CBlock.connectBlock_ok h
  have hloop : s.nTxPos = CBlock.txOffset pindex b b.vtx ∧ ∀ p ∈ splits b.vtx, ∃ txindex,
      indexView txdb s.mapQueuedChanges (P.getHash p.2) = some txindex ∧
        txindex.pos = CBlock.txPosition pindex b p.1 := by
    refine foldlM_ok_induct (P := fun pre (s : ConnectState) => s.nTxPos = CBlock.txOffset pindex b pre ∧
      ∀ p ∈ splits pre, ∃ txindex, indexView txdb s.mapQueuedChanges (P.getHash p.2) = some txindex ∧
        txindex.pos = CBlock.txPosition pindex b p.1) ⟨rfl, fun p hp => absurd hp List.not_mem_nil⟩ ?_ hrun
    rintro pre tx post s s' hvtx ⟨hpos, hall⟩ hstep
    have hmem : tx ∈ b.vtx := by rw [hvtx]; exact List.mem_append_right _ List.mem_cons_self
    have hone := CBlock.connectTx_ok (hchecked.txs tx hmem) hstep
    refine ⟨by rw [hone.nTxPos_eq, hpos, CBlock.txOffset_append_one], fun p hp => ?_⟩
    rw [hone.view_eq]
    by_cases heq : P.getHash tx = P.getHash p.2
    · rw [if_pos heq]
      rw [splits_append_one] at hp
      rcases List.mem_append.mp hp with hp | hp
      · -- the hashes of a block are distinct
        obtain ⟨post', hpre⟩ := mem_splitsFrom (l := pre) rfl hp
        have hin : p.2 ∈ pre := by rw [hpre]; exact List.mem_append_right _ List.mem_cons_self
        have hdistinct := hchecked.distinct
        rw [hvtx, List.map_append, List.nodup_append] at hdistinct
        exact absurd heq.symm (hdistinct.2.2 _ (List.mem_map_of_mem hin) _ List.mem_cons_self)
      · obtain rfl := List.mem_singleton.mp hp
        exact ⟨_, rfl, by rw [hpos]; rfl⟩
    · rw [if_neg heq]
      rw [splits_append_one] at hp
      rcases List.mem_append.mp hp with hp | hp
      · obtain ⟨txindex, hview, hat⟩ := hall p hp
        rw [hview]
        exact ⟨_, rfl, hat⟩
      · obtain rfl := List.mem_singleton.mp hp
        exact absurd rfl heq
  intro p hp
  obtain ⟨txindex, hview, hat⟩ := hloop.2 p hp
  refine ⟨txindex, ?_, hat⟩
  rw [htxdb, readTxIndex_relinkPrev, CTxDB.readTxIndex_putAll, CTxDB.readTxIndex_writeBlockIndex]
  exact hview

end Connect

/-! ## The positions are exact -/

/-- Every transaction of a block that was written and connected is recorded with the offset at which its
    bytes start, and is read there, whatever was written since. -/
theorem readFromDisk_connected (Z : ObjectSizes) {fTestNet : Bool} {b : CBlock} {d d₁ d₂ : DiskFiles}
    {nFile nBlockPos : UInt32}
    (hwrite : b.writeToDisk fTestNet d = (d₁, some (nFile, nBlockPos)))
    (hsince : DiskFiles.Run fTestNet d₁ d₂)
    {P : Primitives} {g : Globals} {mem : Uint256 → BlockMem} {txdb : CTxDB} {pindex : CBlockIndex}
    {pprev : BlockPtr} {r : Connected} (hplace : pindex.nFile = nFile ∧ pindex.nBlockPos = nBlockPos)
    (hconnect : CBlock.connectBlock P g mem txdb pindex pprev b false = .ok r)
    (hversions : ∀ tx ∈ b.vtx, FitsInt 4 tx.nVersion) :
    ∀ pre tx post, b.vtx = pre ++ tx :: post → ∃ txindex nTxPos front,
      r.txdb.readTxIndex (P.getHash tx) = some txindex ∧ txindex.pos = ⟨nFile, nBlockPos, nTxPos⟩ ∧
        nTxPos.toNat = front.length ∧ front ++ tx.serialize <+: d₂.bytes nFile ∧
          CTransaction.readFromDisk Z d₂ txindex.pos = some tx := by
  intro pre tx post hvtx
  obtain ⟨hopen, hpos, hroom, -, hbytes⟩ := DiskFiles.writeToDisk_spec hwrite
  obtain ⟨rfl, rfl⟩ := hplace
  have hmax : MAX_SIZE.toNat = 33554432 := rfl
  have hsize := connectBlock_size hconnect
  have hsize : b.getSerializeSize ≤ 1000000 := hsize
  have hmem : tx ∈ b.vtx := by rw [hvtx]; exact List.mem_append_right _ List.mem_cons_self
  -- the transaction is not too long to be read
  have hfits : tx.Fits := by
    have htx := size_le_of_mem CTransaction.getSerializeSize hmem
    have hchecked := (CBlock.connectBlock_ok hconnect).1.txs tx hmem
    rw [CBlock.getSerializeSize] at hsize
    exact CTransaction.fits_of_size (by omega) (hversions tx hmem)
      fun txout htxout => fitsInt_of_moneyRange (hchecked.values txout htxout)
  -- its bytes stand in the file
  have hprefix : (d.bytes pindex.nFile ++ (pchMessageStart fTestNet ++
      toLE 4 (b.nSerSize SER_DISK).toNat) ++ b.bytesBefore pre) ++ tx.serialize <+:
        d₂.bytes pindex.nFile := by
    refine List.IsPrefix.trans ?_ (hsince.grows pindex.nFile)
    rw [hbytes, List.append_assoc _ (b.bytesBefore pre)]
    exact (List.prefix_append_right_inj _).mpr (b.serialize_split hvtx)
  -- and the offset that was calculated is in front of them
  have hoffset : (CBlock.txOffset pindex b pre).toNat = (d.bytes pindex.nFile ++ (pchMessageStart fTestNet ++
      toLE 4 (b.nSerSize SER_DISK).toNat) ++ b.bytesBefore pre).length := by
    have hstart : (pchMessageStart fTestNet).length = 4 := by cases fTestNet <;> rfl
    rw [b.txOffset_toNat hvtx (by omega), hpos]
    simp only [List.length_append, hstart, length_toLE]
  obtain ⟨txindex, hread, hat⟩ := connectBlock_positions hconnect _ (mem_splits hvtx)
  refine ⟨txindex, CBlock.txOffset pindex b pre, _, hread, hat, hoffset, hprefix, ?_⟩
  rw [hat]
  exact DiskFiles.readAt_of_prefix (CTransaction.unserialize_lawful Z) hopen hfits hoffset hprefix

/-- The block `Mint.block` behind 4992 bytes of the first file. -/
def Mint.diskFiles : DiskFiles where
  bytes := Function.update (fun _ => []) 1 (List.replicate 4992 0)
  nCurrentBlockFile := 1

theorem Mint.readFromDisk_minting : ∃ d₁ r txindex,
    Mint.block.writeToDisk false Mint.diskFiles = (d₁, some (1, 5000)) ∧
    CBlock.connectBlock Mint.primitives Mint.globals (fun _ => BlockMem.new) Mint.txdb Mint.pindex
      [Mint.prev] Mint.block false = .ok r ∧
    r.txdb.readTxIndex (Mint.primitives.getHash Mint.minting) = some txindex ∧
    CTransaction.readFromDisk Encoding.objectSizes d₁ txindex.pos = some Mint.minting := by
  obtain ⟨r, hr⟩ := Mint.connects
  have hlen : (Mint.diskFiles.bytes 1).length = 4992 := List.length_replicate
  have happend : Mint.diskFiles.appendBlockFile = (Mint.diskFiles, some 1) := by
    have hopen : BlockFiles.openable Mint.diskFiles.nCurrentBlockFile = true := by decide
    have hroom : (Mint.diskFiles.bytes Mint.diskFiles.nCurrentBlockFile).length <
        0x7F000000 - MAX_SIZE.toNat := hlen.trans_lt (by decide)
    rw [DiskFiles.appendBlockFile, if_pos hopen, if_pos hroom]
    rfl
  obtain ⟨d₁, nBlockPos, hwrite⟩ : ∃ d₁ nBlockPos,
      Mint.block.writeToDisk false Mint.diskFiles = (d₁, some (1, nBlockPos)) := by
    unfold CBlock.writeToDisk
    rw [happend]
    exact ⟨_, _, rfl⟩
  have hpos : nBlockPos = 5000 := by
    have h := (DiskFiles.writeToDisk_spec hwrite).2.1
    rw [hlen] at h
    exact UInt32.toNat_inj.mp h
  rw [hpos] at hwrite
  obtain ⟨txindex, nTxPos, front, hindex, -, -, -, hread⟩ := readFromDisk_connected Encoding.objectSizes
    hwrite Relation.ReflTransGen.refl ⟨rfl, rfl⟩ hr (by decide) [Mint.coinBase, Mint.payment] Mint.minting [] rfl
  exact ⟨d₁, r, txindex, hwrite, hr, hindex, hread⟩

/-! ## The map the readers go by -/

namespace DiskFiles

/-- `a` is written in the file, from that offset on. -/
def Holds {α : Type} (d : DiskFiles) (Fits : α → Prop) (put : α → List UInt8) (nFile nPos : UInt32)
    (a : α) : Prop :=
  Fits a ∧ ∃ front, nPos.toNat = front.length ∧ front ++ put a <+: d.bytes nFile

/-- The bytes bear out everything the map says can be read. -/
structure Shows (d : DiskFiles) (files : BlockFiles) : Prop where
  tx : ∀ nFile nPos tx, files.tx nFile nPos = some tx →
    d.Holds CTransaction.Fits CTransaction.serialize nFile nPos tx
  block : ∀ nFile nPos b, files.block nFile nPos = some b →
    d.Holds (CBlock.Fits SER_DISK) (CBlock.serialize SER_DISK) nFile nPos b
  header : ∀ nFile nPos h, files.header nFile nPos = some h →
    d.Holds (CBlock.Fits (SER_DISK ||| SER_BLOCKHEADERONLY))
      (CBlock.serialize (SER_DISK ||| SER_BLOCKHEADERONLY)) nFile nPos ⟨h, [], []⟩

section

variable {α : Type} {Fits : α → Prop} {put : α → List UInt8} {d d' : DiskFiles}
  {nFile nPos : UInt32} {a : α}

theorem Holds.grows (h : d.Holds Fits put nFile nPos a) (hgrows : ∀ f, d.bytes f <+: d'.bytes f) :
    d'.Holds Fits put nFile nPos a := by
  obtain ⟨ha, front, hpos, hprefix⟩ := h
  exact ⟨ha, front, hpos, hprefix.trans (hgrows nFile)⟩

theorem Holds.readAt (h : d.Holds Fits put nFile nPos a) {get : Reader α} (hget : Lawful Fits put get)
    (hopen : BlockFiles.openable nFile = true) : d.readAt nFile nPos get = some a := by
  obtain ⟨ha, front, hpos, hprefix⟩ := h
  exact readAt_of_prefix hget hopen ha hpos hprefix

/-- Nothing is held past the end of the file. -/
theorem Holds.lt_length (h : d.Holds Fits put nFile nPos a) (hput : 0 < (put a).length) :
    nPos.toNat < (d.bytes nFile).length := by
  obtain ⟨-, front, hpos, hprefix⟩ := h
  have hle := hprefix.length_le
  rw [List.length_append] at hle
  omega

theorem Shows.grows {files : BlockFiles} (h : d.Shows files) (hgrows : ∀ f, d.bytes f <+: d'.bytes f) :
    d'.Shows files where
  tx f p tx htx := (h.tx f p tx htx).grows hgrows
  block f p b hb := (h.block f p b hb).grows hgrows
  header f p hd hhd := (h.header f p hd hhd).grows hgrows

/-- What the map says is what `ReadFromDisk` returns. -/
theorem Shows.readTx {files : BlockFiles} (h : d.Shows files) (Z : ObjectSizes) {pos : CDiskTxPos}
    {tx : CTransaction} (hread : files.readTx pos = some tx) :
    CTransaction.readFromDisk Z d pos = some tx := by
  unfold BlockFiles.readTx at hread
  split at hread
  · rename_i hopen
    exact (h.tx _ _ _ hread).readAt (CTransaction.unserialize_lawful Z) hopen
  · cases hread

theorem Shows.readBlock {files : BlockFiles} (h : d.Shows files) (Z : ObjectSizes) {b : CBlock}
    (hopen : BlockFiles.openable nFile = true) (hread : files.block nFile nPos = some b) :
    CBlock.readFromDisk Z d nFile nPos = some b :=
  (h.block _ _ _ hread).readAt (CBlock.unserialize_lawful Z SER_DISK) hopen

theorem Shows.readHeader {files : BlockFiles} (h : d.Shows files) (Z : ObjectSizes) {hd : CBlockHeader}
    (hread : files.readHeader nFile nPos = some hd) :
    CBlock.readHeaderFromDisk Z d nFile nPos = some ⟨hd, [], []⟩ := by
  unfold BlockFiles.readHeader at hread
  split at hread
  · rename_i hopen
    exact (h.header _ _ _ hread).readAt (CBlock.unserialize_lawful Z _) hopen
  · cases hread

end

end DiskFiles

section Write

variable {fTestNet : Bool} {b : CBlock} {d d₁ : DiskFiles} {files : BlockFiles}
  {nFile nBlockPos : UInt32}

/-- Where a block was written, it and everything in it is held. -/
theorem writeToDisk_holds (hwrite : b.writeToDisk fTestNet d = (d₁, some (nFile, nBlockPos)))
    (hfits : b.Fits SER_DISK) (hsize : b.getSerializeSize ≤ MAX_SIZE.toNat) :
    d₁.Holds (CBlock.Fits SER_DISK) (CBlock.serialize SER_DISK) nFile nBlockPos b ∧
    d₁.Holds (CBlock.Fits (SER_DISK ||| SER_BLOCKHEADERONLY))
      (CBlock.serialize (SER_DISK ||| SER_BLOCKHEADERONLY)) nFile nBlockPos ⟨b.toCBlockHeader, [], []⟩ ∧
    ∀ p ∈ splits b.vtx, d₁.Holds CTransaction.Fits CTransaction.serialize nFile
      (CBlock.txOffset (CBlockIndex.ofBlock nFile nBlockPos b) b p.1) p.2 := by
  obtain ⟨-, hpos, hroom, -, hbytes⟩ := DiskFiles.writeToDisk_spec hwrite
  have hmax : MAX_SIZE.toNat = 33554432 := rfl
  have hstart : (pchMessageStart fTestNet).length = 4 := by cases fTestNet <;> rfl
  have hfront : nBlockPos.toNat = (d.bytes nFile ++ (pchMessageStart fTestNet ++
      toLE 4 (b.nSerSize SER_DISK).toNat)).length := by
    rw [hpos]
    simp only [List.length_append, hstart, length_toLE]
  refine ⟨⟨hfits, _, hfront, hbytes ▸ List.prefix_refl _⟩, ⟨⟨hfits.nVersion, ?_, ?_, fun _ => ⟨rfl, rfl⟩⟩,
    _, hfront, ?_⟩, fun p hp => ?_⟩
  · exact ⟨Nat.zero_le _, fun _ h => absurd h List.not_mem_nil⟩
  · exact Nat.zero_le _
  · rw [hbytes]
    exact (List.prefix_append_right_inj _).mpr b.header_prefix
  · obtain ⟨post, hvtx⟩ := mem_splitsFrom rfl hp
    refine ⟨hfits.vtx.2 p.2 (CBlock.mem_of_mem_splitsFrom hp).1, d.bytes nFile ++
      (pchMessageStart fTestNet ++ toLE 4 (b.nSerSize SER_DISK).toNat) ++ b.bytesBefore p.1, ?_, ?_⟩
    · rw [b.txOffset_toNat hvtx (by show nBlockPos.toNat + _ < _; omega), List.length_append, ← hfront]
      rfl
    · rw [hbytes, List.append_assoc _ (b.bytesBefore p.1)]
      exact (List.prefix_append_right_inj _).mpr (b.serialize_split hvtx)

/-- The places of a new block are past everything the map has. -/
theorem writeToDisk_endsAt (hshows : d.Shows files)
    (hwrite : b.writeToDisk fTestNet d = (d₁, some (nFile, nBlockPos)))
    (hsize : b.getSerializeSize ≤ MAX_SIZE.toNat) : files.endsAt nFile nBlockPos b = true := by
  obtain ⟨hopen, hpos, hroom, -⟩ := DiskFiles.writeToDisk_spec hwrite
  have hmax : MAX_SIZE.toNat = 33554432 := rfl
  have hmax' : nMaxSerializeSize = 33554432 := rfl
  have hblock : files.block nFile nBlockPos = none := by
    cases h : files.block nFile nBlockPos with
    | none => rfl
    | some b' =>
      have := (hshows.block _ _ _ h).lt_length (by
        rw [CBlock.length_serialize (by decide), CBlock.getSerializeSize]; omega)
      omega
  have hheader : files.header nFile nBlockPos = none := by
    cases h : files.header nFile nBlockPos with
    | none => rfl
    | some hd =>
      have := (hshows.header _ _ _ h).lt_length (by rw [CBlock.length_header]; omega)
      omega
  have htxs : ∀ p ∈ splits b.vtx,
      files.tx nFile (CBlock.txOffset (CBlockIndex.ofBlock nFile nBlockPos b) b p.1) = none := by
    intro p hp
    obtain ⟨post, hvtx⟩ := mem_splitsFrom rfl hp
    have hoffset : (CBlock.txOffset (CBlockIndex.ofBlock nFile nBlockPos b) b p.1).toNat =
        nBlockPos.toNat + _ := b.txOffset_toNat hvtx (by show nBlockPos.toNat + _ < _; omega)
    cases h : files.tx nFile (CBlock.txOffset (CBlockIndex.ofBlock nFile nBlockPos b) b p.1) with
    | none => rfl
    | some tx =>
      have := (hshows.tx _ _ _ h).lt_length (by
        rw [CTransaction.length_serialize]; exact tx.one_le_getSerializeSize)
      omega
  unfold BlockFiles.endsAt
  simp only [hopen, hblock, hheader, Option.isNone_none, Bool.and_true, Bool.true_and, Bool.and_eq_true,
    decide_eq_true_eq, List.all_eq_true]
  refine ⟨⟨by omega, by omega⟩, fun p hp => ?_⟩
  rw [htxs p hp]
  rfl

theorem writeToDisk_shows (hshows : d.Shows files)
    (hwrite : b.writeToDisk fTestNet d = (d₁, some (nFile, nBlockPos)))
    (hfits : b.Fits SER_DISK) (hsize : b.getSerializeSize ≤ MAX_SIZE.toNat) :
    d₁.Shows (files.append nFile nBlockPos b) := by
  obtain ⟨hblock, hheader, htxs⟩ := writeToDisk_holds hwrite hfits hsize
  have hgrows : ∀ f, d.bytes f <+: d₁.bytes f := by
    have h := DiskFiles.grows_writeToDisk fTestNet b d
    rwa [hwrite] at h
  have hbefore : d₁.Shows files := hshows.grows hgrows
  constructor
  · intro f p tx htx
    unfold BlockFiles.append at htx
    dsimp only at htx
    split at htx
    · rename_i q hq
      have hat := List.find?_some hq
      obtain ⟨hf, hp⟩ := of_decide_eq_true hat
      obtain rfl := Option.some.inj htx
      rw [hf, hp]
      exact htxs q (List.mem_of_find?_eq_some hq)
    · exact hbefore.tx f p tx htx
  · intro f p b' hb'
    unfold BlockFiles.append at hb'
    dsimp only at hb'
    split at hb'
    · rename_i h
      obtain ⟨rfl, rfl⟩ := h
      obtain rfl := Option.some.inj hb'
      exact hblock
    · exact hbefore.block f p b' hb'
  · intro f p hd hhd
    unfold BlockFiles.append at hhd
    dsimp only at hhd
    split at hhd
    · rename_i h
      obtain ⟨rfl, rfl⟩ := h
      obtain rfl := Option.some.inj hhd
      exact hheader
    · exact hbefore.header f p hd hhd

/-- What `WriteToDisk` does to the node: where the bytes go, the map takes the block, and goes on being
    borne out; and the block is stored there as every validation of it asks. -/
theorem Node.writeToDisk_shows {n : Node} (hshows : d.Shows n.files)
    (hwrite : b.writeToDisk fTestNet d = (d₁, some (nFile, nBlockPos)))
    (hfits : b.Fits SER_DISK) (hsize : b.getSerializeSize ≤ MAX_SIZE.toNat)
    (happends : n.appends.head?.join = some (nFile, nBlockPos)) :
    ∃ n', n.writeToDisk b = .ok (n', nFile, nBlockPos) ∧ d₁.Shows n'.files ∧
      CBlock.Stored (CBlockIndex.ofBlock nFile nBlockPos b) b n'.files := by
  refine ⟨{ n with appends := n.appends.tail, files := n.files.append nFile nBlockPos b }, ?_,
    Silkcoin.writeToDisk_shows hshows hwrite hfits hsize, ?_⟩
  · unfold Node.writeToDisk
    rw [happends]
    dsimp only
    rw [if_pos (writeToDisk_endsAt hshows hwrite hsize)]
  · intro pre tx post hvtx
    obtain ⟨hopen, hpos, -⟩ := DiskFiles.writeToDisk_spec hwrite
    obtain ⟨-, -, htxs⟩ := writeToDisk_holds hwrite hfits hsize
    have hreads := fun p hp => (htxs p hp).readAt
      (CTransaction.unserialize_lawful Encoding.objectSizes) hopen
    constructor
    · -- two transactions at one offset would be read from the same bytes
      show (if BlockFiles.openable nFile then (n.files.append nFile nBlockPos b).tx nFile _ else none) = _
      rw [if_pos hopen]
      unfold BlockFiles.append
      dsimp only
      split
      · rename_i q hq
        have hat := List.find?_some hq
        obtain ⟨-, hsame⟩ := of_decide_eq_true hat
        have hone := hreads q (List.mem_of_find?_eq_some hq)
        have hother := hreads _ (mem_splits hvtx)
        have hsame : CBlock.txOffset (CBlockIndex.ofBlock nFile nBlockPos b) b pre = _ := hsame
        dsimp only at hother
        rw [hsame, hone] at hother
        exact hother
      · rename_i hnone
        have hno := List.find?_eq_none.mp hnone _ (mem_splits hvtx)
        exact absurd (decide_eq_true ⟨rfl, rfl⟩) hno
    · intro hmem
      have hat := congrArg CDiskTxPos.nBlockPos hmem
      have hat : nBlockPos = 1 := hat
      rw [hat] at hpos
      have : (1 : UInt32).toNat = 1 := rfl
      omega

end Write

end Silkcoin
