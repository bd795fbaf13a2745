/-
  The transaction index refines a ledger.

  `Lib/SpendLedger` is the ABSTRACT side: the list of the connected transactions, with everything an
  index holds derived from it.  The database is the CONCRETE side.  `Refines` says the two agree:
  reading an entry is encoding the derived row, a null position standing for "unspent".

  * `connectTx_refines` — connecting a transaction is PUSHING its entry;
  * `disconnectInputs_refines` — disconnecting it is POPPING it;
  * `connectBlock_refines`, `disconnectBlock_refines` — a block, by induction over its transactions.

  Between the transactions of one block the concrete side is the database seen through the queued
  changes, so the simulation does not notice where a block ends.
-/
import Silkcoin.Value
import Silkcoin.Accept
import Silkcoin.Lib.SpendLedger

namespace Silkcoin

open Validation BatchStore SpendLedger

/-- The abstract side: one entry a connected transaction, newest first. -/
abbrev TxLedger := Ledger Uint256 CDiskTxPos Int

abbrev TxEntry := Entry Uint256 CDiskTxPos Int

/-- The entry of a transaction connected at `pos`. -/
def txEntry (P : Primitives) (tx : CTransaction) (pos : CDiskTxPos) : TxEntry where
  id := P.getHash tx
  pos := pos
  outs := tx.vout.map CTxOut.nValue
  spends := CBlock.spentKeys tx

/-- The record of a derived row: unspent slots hold the null position. -/
def encode (row : CDiskTxPos × List (Option CDiskTxPos)) : CTxIndex :=
  ⟨row.1, row.2.map fun q => q.getD CDiskTxPos.null⟩

/-- Reading the index is encoding what the ledger implies. -/
def Refines (index : Uint256 → Option CTxIndex) (l : TxLedger) : Prop :=
  ∀ h, index h = (view l h).map encode

/-- No connected transaction is at the null position. -/
def Placed (l : TxLedger) : Prop := ∀ e ∈ l, e.pos.isNull = false

/-! ## Encoding -/

theorem encode_replicate (pos : CDiskTxPos) (n : Nat) :
    encode (pos, List.replicate n none) = CTxIndex.new pos n := by
  simp [encode, CTxIndex.new]

/-- Marking slots commutes with encoding. -/
theorem encode_mark (q : Option CDiskTxPos) (os : List (Uint256 × Nat)) (h : Uint256)
    (row : CDiskTxPos × List (Option CDiskTxPos)) :
    encode (row.1, mark q os h row.2) = markSpent (q.getD CDiskTxPos.null) os h (encode row) := by
  have hslots : (mark q os h row.2).map (fun q => q.getD CDiskTxPos.null) =
      (markSpent (q.getD CDiskTxPos.null) os h (encode row)).vSpent := by
    apply List.ext_getElem?
    intro n
    rw [List.getElem?_map, getElem?_mark, getElem?_markSpent]
    show _ = ((row.2.map _)[n]?).map _
    rw [List.getElem?_map]
    cases row.2[n]? with
    | none => rfl
    | some s => by_cases hm : (h, n) ∈ os <;> simp [hm]
  show CTxIndex.mk _ _ = CTxIndex.mk _ _
  rw [hslots]; rfl

theorem Refines.congr {index index' : Uint256 → Option CTxIndex} {l : TxLedger}
    (h : Refines index l) (heq : ∀ h, index' h = index h) : Refines index' l :=
  fun hash => by rw [heq, h]

/-- A row the index shows is an entry of the ledger. -/
theorem Refines.find_some {index : Uint256 → Option CTxIndex} {l : TxLedger} (hr : Refines index l)
    {h : Uint256} {txindex : CTxIndex} (hti : index h = some txindex) :
    ∃ d ∈ l, d.id = h ∧ find l h = some d ∧ txindex.pos = d.pos ∧
      txindex.vSpent = (slots l d).map fun q => q.getD CDiskTxPos.null := by
  rw [hr h] at hti
  obtain ⟨row, hrow, rfl⟩ := Option.map_eq_some_iff.mp hti
  obtain ⟨d, hd, rfl⟩ := Option.map_eq_some_iff.mp hrow
  obtain ⟨hmem, hid⟩ := find_some_mem hd
  exact ⟨d, hmem, hid, hd, rfl, rfl⟩

/-- Where no spender is at the null position, a null slot is an unspent output. -/
theorem Refines.unspent_of_isNull {index : Uint256 → Option CTxIndex} {l : TxLedger}
    (hr : Refines index l) (hp : Placed l) {h : Uint256} {n : Nat} {txindex : CTxIndex}
    {q : CDiskTxPos} (hti : index h = some txindex) (hq : txindex.vSpent[n]? = some q)
    (hnull : q.isNull = true) :
    (∃ d ∈ l, d.id = h ∧ n < d.outs.length) ∧ spender l (h, n) = none := by
  obtain ⟨d, hd, hid, -, -, hslots⟩ := hr.find_some hti
  rw [hslots, List.getElem?_map, getElem?_slots, hid] at hq
  by_cases hn : n < d.outs.length
  · refine ⟨⟨d, hd, hid, hn⟩, ?_⟩
    rw [if_pos hn] at hq
    cases hsp : spender l (h, n) with
    | none => rfl
    | some p =>
      rw [hsp] at hq
      cases hq
      obtain ⟨e, he, -, hep⟩ := spender_some_mem hsp
      have hplaced : p.isNull = false := hep ▸ hp e he
      have : p.isNull = true := hnull
      rw [hplaced] at this
      cases this
  · rw [if_neg hn] at hq
    cases hq

/-! ## One transaction -/

section Tx

variable {P : Primitives} {g : Globals} {txdb : CTxDB} {pindex : CBlockIndex} {tx : CTransaction}

theorem spentKeys_nodup (htx : tx.TxChecked) : (CBlock.spentKeys tx).Nodup := by
  unfold CBlock.spentKeys
  by_cases hcb : tx.isCoinBase = true
  · rw [if_pos hcb]; exact List.nodup_nil
  · rw [if_neg hcb]
    exact htx.distinct.map fun _ _ => COutPoint.key_injective

/-- What a connected transaction spends was there and was unspent. -/
theorem TxConnected.spends {s s' : ConnectState} {l : TxLedger}
    (hr : Refines (indexView txdb s.mapQueuedChanges) l) (hp : Placed l)
    (h : CBlock.TxConnected P g txdb pindex s s' tx) :
    ∀ o ∈ CBlock.spentKeys tx,
      (∃ d ∈ l, d.id = o.1 ∧ o.2 < d.outs.length) ∧ spender l o = none := by
  intro o ho
  unfold CBlock.spentKeys at ho
  by_cases hcb : tx.isCoinBase = true
  · rw [if_pos hcb] at ho; cases ho
  · rw [if_neg hcb] at ho
    obtain ⟨prevout, hmem, rfl⟩ := List.mem_map.mp ho
    obtain ⟨ti, tp, q, hti, -, -, hq, hnull⟩ := h.unspent (by simpa using hcb) prevout hmem
    exact hr.unspent_of_isNull hp hti hq hnull

/-- An index that gained the entry of `tx`, and in which the slots of what it spends are marked. -/
theorem Refines.push {index index' : Uint256 → Option CTxIndex} {pos : CDiskTxPos} {l : TxLedger}
    (hr : Refines index l) (hvalid : Valid (txEntry P tx pos :: l))
    (hindex : ∀ h, index' h = if P.getHash tx = h then some (CTxIndex.new pos tx.vout.length)
      else (index h).map (markSpent pos (CBlock.spentKeys tx) h)) :
    Refines index' (txEntry P tx pos :: l) := by
  intro hash
  rw [hindex, view_cons hvalid, hr hash]
  show (if P.getHash tx = hash then _ else _) = Option.map encode (if P.getHash tx = hash then _ else _)
  by_cases heq : P.getHash tx = hash
  · rw [if_pos heq, if_pos heq, Option.map_some, encode_replicate]
    simp [txEntry]
  · rw [if_neg heq, if_neg heq, Option.map_map, Option.map_map]
    refine congrArg (fun f => Option.map f (view l hash)) (funext fun row => ?_)
    exact (encode_mark (some _) _ hash row).symm

/-- **Push.**  A transaction whose hash is new to the ledger, once connected, is on top of it. -/
theorem connectTx_refines {s s' : ConnectState} {l : TxLedger} (htx : tx.TxChecked)
    (hr : Refines (indexView txdb s.mapQueuedChanges) l) (hv : Valid l) (hp : Placed l)
    (h : CBlock.TxConnected P g txdb pindex s s' tx)
    (hfresh : ∀ d ∈ l, d.id ≠ P.getHash tx) :
    Valid (txEntry P tx ⟨pindex.nFile, pindex.nBlockPos, s.nTxPos⟩ :: l) ∧
      Refines (indexView txdb s'.mapQueuedChanges)
        (txEntry P tx ⟨pindex.nFile, pindex.nBlockPos, s.nTxPos⟩ :: l) := by
  have hvalid : Valid (txEntry P tx ⟨pindex.nFile, pindex.nBlockPos, s.nTxPos⟩ :: l) :=
    Valid.cons hv hfresh (spentKeys_nodup htx) (TxConnected.spends hr hp h)
  exact ⟨hvalid, hr.push hvalid h.view_eq⟩

/-- **Pop.**  Disconnecting the newest transaction of the ledger succeeds and takes it off. -/
theorem disconnectInputs_refines {pos : CDiskTxPos} {l : TxLedger}
    (hr : Refines txdb.readTxIndex (txEntry P tx pos :: l)) (hv : Valid (txEntry P tx pos :: l)) :
    ∃ txdb', tx.disconnectInputs P txdb = .ok txdb' ∧ Refines txdb'.readTxIndex l := by
  have hex : tx.isCoinBase = false → ∀ o ∈ tx.prevouts, ∃ txindex,
      txdb.readTxIndex o.hash = some txindex ∧ o.n.toNat < txindex.vSpent.length := by
    intro hcb o ho
    have hkey : o.key ∈ (txEntry P tx pos).spends := by
      show o.key ∈ CBlock.spentKeys tx
      rw [CBlock.spentKeys, if_neg (by simp [hcb])]
      exact List.mem_map_of_mem ho
    obtain ⟨d, hd, hid, hn⟩ := hv.head_exists hkey
    have hfind := hv.find_mem (List.mem_cons_of_mem _ hd)
    rw [hid] at hfind
    refine ⟨_, by rw [hr o.hash, view, show o.hash = o.key.1 from rfl, hfind]; rfl, ?_⟩
    show o.key.2 < ((slots _ d).map _).length
    rw [List.length_map, length_slots]
    exact hn
  obtain ⟨txdb', hrun, hread⟩ := tx.disconnectInputs_eq P hex
  refine ⟨txdb', hrun, fun hash => ?_⟩
  rw [hread, view_uncons hv hash, hr hash]
  show (if P.getHash tx = hash then _ else _) = Option.map encode (if P.getHash tx = hash then _ else _)
  by_cases heq : P.getHash tx = hash
  · rw [if_pos heq, if_pos heq]; rfl
  · rw [if_neg heq, if_neg heq, Option.map_map, Option.map_map]
    refine congrArg (fun f => Option.map f _) (funext fun row => ?_)
    exact (encode_mark none _ hash row).symm

end Tx

/-! ## One block -/

/-- The entries of the transactions `vtx` of a block, newest first. -/
def blockEntries (P : Primitives) (pindex : CBlockIndex) (b : CBlock) (vtx : List CTransaction) :
    TxLedger :=
  ((splits vtx).map fun p => txEntry P p.2 (CBlock.txPosition pindex b p.1)).reverse

theorem blockEntries_append_one (P : Primitives) (pindex : CBlockIndex) (b : CBlock)
    (pre : List CTransaction) (tx : CTransaction) : blockEntries P pindex b (pre ++ [tx]) =
      txEntry P tx (CBlock.txPosition pindex b pre) :: blockEntries P pindex b pre := by
  unfold blockEntries
  rw [splits_append_one, List.map_append, List.reverse_append]
  rfl

theorem mem_blockEntries {P : Primitives} {pindex : CBlockIndex} {b : CBlock}
    {vtx : List CTransaction} {e : TxEntry} : e ∈ blockEntries P pindex b vtx ↔
      ∃ p ∈ splits vtx, e = txEntry P p.2 (CBlock.txPosition pindex b p.1) := by
  unfold blockEntries
  rw [List.mem_reverse, List.mem_map]
  exact ⟨fun ⟨p, hp, he⟩ => ⟨p, hp, he.symm⟩, fun ⟨p, hp, he⟩ => ⟨p, hp, he.symm⟩⟩

section Block

variable {P : Primitives} {g : Globals} {mem : Uint256 → BlockMem} {txdb : CTxDB}
  {pindex : CBlockIndex} {pprev : BlockPtr} {b : CBlock} {l : TxLedger}

/-- The state of the loop against the ledger: the transactions done so far are pushed. -/
structure Pushed (P : Primitives) (txdb : CTxDB) (pindex : CBlockIndex) (b : CBlock) (l : TxLedger)
    (pre : List CTransaction) (s : ConnectState) : Prop where
  refines : Refines (indexView txdb s.mapQueuedChanges) (blockEntries P pindex b pre ++ l)
  valid : Valid (blockEntries P pindex b pre ++ l)
  placed : Placed (blockEntries P pindex b pre ++ l)
  nTxPos_eq : s.nTxPos = CBlock.txOffset pindex b pre

/-- The hash of every transaction of the block is new when its turn comes. -/
def FreshBlock (P : Primitives) (txdb : CTxDB) (pindex : CBlockIndex) (b : CBlock) (l : TxLedger) :
    Prop :=
  ∀ pre tx post s, b.vtx = pre ++ tx :: post → Pushed P txdb pindex b l pre s →
    (∀ o ∈ CBlock.spentKeys tx, spender (blockEntries P pindex b pre ++ l) o = none) →
    ∀ d ∈ blockEntries P pindex b pre ++ l, d.id ≠ P.getHash tx

theorem pushed_run {s : ConnectState} (hchecked : b.BlockChecked P)
    (hstored : CBlock.Stored pindex b g.files) (hr : Refines txdb.readTxIndex l) (hv : Valid l)
    (hp : Placed l) (hfresh : FreshBlock P txdb pindex b l)
    (hrun : b.vtx.foldlM (CBlock.connectTx P g txdb pindex pprev false)
      (CBlock.connectStart pindex b false) = .ok s) : Pushed P txdb pindex b l b.vtx s := by
  refine foldlM_ok_induct (P := Pushed P txdb pindex b l) ⟨hr.congr fun _ => rfl, hv, hp, rfl⟩ ?_
    hrun
  intro pre tx post s s' hvtx hs hstep
  have hmem : tx ∈ b.vtx := by rw [hvtx]; exact List.mem_append_right _ List.mem_cons_self
  have htx := hchecked.txs tx hmem
  have h := CBlock.connectTx_ok htx hstep
  have hnew := hfresh pre tx post s hvtx hs
    fun o ho => (TxConnected.spends hs.refines hs.placed h o ho).2
  obtain ⟨hvalid, hrefines⟩ := connectTx_refines htx hs.refines hs.valid hs.placed h hnew
  have hpos : (⟨pindex.nFile, pindex.nBlockPos, s.nTxPos⟩ : CDiskTxPos) =
      CBlock.txPosition pindex b pre := by rw [hs.nTxPos_eq]; rfl
  rw [hpos] at hvalid hrefines
  refine ⟨?_, ?_, ?_, ?_⟩
  · rw [blockEntries_append_one]; exact hrefines
  · rw [blockEntries_append_one]; exact hvalid
  · rw [blockEntries_append_one]
    intro e he
    rcases List.mem_cons.mp he with rfl | he
    · exact hstored.not_isNull hvtx
    · exact hs.placed e he
  · rw [h.nTxPos_eq, hs.nTxPos_eq, CBlock.txOffset_append_one]

@[simp] theorem readTxIndex_relinkPrev (mem : Uint256 → BlockMem) (hashNext h : Uint256)
    (txdb : CTxDB) : (CBlock.relinkPrev P pprev mem hashNext txdb).readTxIndex h =
      txdb.readTxIndex h := by
  unfold CBlock.relinkPrev
  split
  · rfl
  · rw [CTxDB.readTxIndex_writeBlockIndex]

/-- Connecting a block pushes its transactions, in order. -/
theorem connectBlock_refines {r : Connected} (hstored : CBlock.Stored pindex b g.files)
    (hr : Refines txdb.readTxIndex l) (hv : Valid l) (hp : Placed l)
    (hfresh : FreshBlock P txdb pindex b l)
    (h : CBlock.connectBlock P g mem txdb pindex pprev b false = .ok r) :
    Refines r.txdb.readTxIndex (blockEntries P pindex b b.vtx ++ l) ∧
      Valid (blockEntries P pindex b b.vtx ++ l) ∧ Placed (blockEntries P pindex b b.vtx ++ l) := by
  obtain ⟨hchecked, s, hrun, -, -, htxdb⟩ := CBlock.connectBlock_ok h
  have hs := pushed_run hchecked hstored hr hv hp hfresh hrun
  refine ⟨hs.refines.congr fun hash => ?_, hs.valid, hs.placed⟩
  rw [htxdb, readTxIndex_relinkPrev, CTxDB.readTxIndex_putAll, CTxDB.readTxIndex_writeBlockIndex]
  rfl

/-- Disconnecting a block pops its transactions, in reverse order, and cannot fail. -/
theorem disconnectBlock_refines (mem : Uint256 → BlockMem) (pprev : BlockPtr)
    (hr : Refines txdb.readTxIndex (blockEntries P pindex b b.vtx ++ l))
    (hv : Valid (blockEntries P pindex b b.vtx ++ l)) :
    ∃ txdb', CBlock.disconnectBlock P mem txdb pprev b = .ok txdb' ∧
      Refines txdb'.readTxIndex l := by
  -- over the transactions still connected
  have hloop : ∀ (vtx : List CTransaction) (db : CTxDB),
      Refines db.readTxIndex (blockEntries P pindex b vtx ++ l) →
      Valid (blockEntries P pindex b vtx ++ l) →
      ∃ db', vtx.reverse.foldlM (fun txdb tx => tx.disconnectInputs P txdb) db = .ok db' ∧
        Refines db'.readTxIndex l := by
    intro vtx
    induction vtx using List.reverseRecOn with
    | nil => intro db hr _; exact ⟨db, rfl, hr⟩
    | append_singleton vtx tx ih =>
      intro db hr hv
      rw [blockEntries_append_one] at hr hv
      obtain ⟨db₁, hstep, hr₁⟩ := disconnectInputs_refines hr hv
      obtain ⟨db', hrest, hr'⟩ := ih db₁ hr₁ hv.tail
      refine ⟨db', ?_, hr'⟩
      rw [List.reverse_append, List.reverse_singleton, List.singleton_append, List.foldlM_cons, hstep]
      exact hrest
  obtain ⟨db', hrun, hr'⟩ := hloop b.vtx txdb hr hv
  refine ⟨CBlock.relinkPrev P pprev mem 0 db', ?_, hr'.congr fun hash => ?_⟩
  · unfold CBlock.disconnectBlock
    rw [hrun]; rfl
  · rw [readTxIndex_relinkPrev]

end Block

end Silkcoin
