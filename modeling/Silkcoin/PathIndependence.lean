/-
  Does the validity of a block depend on how a node came to it?

  Two nodes, or one node at two times, have the ancestors of a block connected.  They may have them at
  different places on disk, arrived at in different orders, and with different current best blocks.
  `ConnectBlock` is run for the block in both.

  The two runs go through the block in LOCKSTEP (`Lib/Validation`): index entries at corresponding
  positions lead to the same transaction, to the same header and to the same answer about maturity
  (`SamePlace`), and `connectTxs_lockstep` carries that through the transactions.  What is left is the
  one thing `ConnectBlock` reads of the rest of the node: the height of `pindexBest`, which
  `GetProofOfWorkReward` takes for the height of the block.
-/
import Silkcoin.Chain

namespace Silkcoin

open Validation BatchStore SpendLedger

/-! ## The same chain in two nodes -/

/-- The same block at the same height; where it is on disk may differ. -/
structure SameBlock (c d : ChainBlock) : Prop where
  block_eq : c.block = d.block
  nHeight_eq : c.pindex.nHeight = d.pindex.nHeight

/-- The blocks of the chain are on disk: transactions and header where the entries say, and no two
    blocks at one place. -/
structure ChainOnDisk (files : BlockFiles) (base : BlockPtr) (chain : Chain) : Prop where
  stored : ChainStored files chain
  header : ∀ c ∈ chain,
    files.readHeader c.pindex.nFile c.pindex.nBlockPos = some c.block.toCBlockHeader
  places : ((Chain.ptr base chain).map fun p => (p.nFile, p.nBlockPos)).Nodup

/-- Is the entry that of the block which `pos` points into? -/
def atPlace (pos : CDiskTxPos) (p : CBlockIndex) : Prop :=
  p.nBlockPos = pos.nBlockPos ∧ p.nFile = pos.nFile

instance (pos : CDiskTxPos) : DecidablePred (atPlace pos) := fun _ => inferInstanceAs (Decidable (_ ∧ _))

/-- Two positions no run of `ConnectBlock` can tell apart. -/
structure SamePlace (g₁ g₂ : Globals) (ptr₁ ptr₂ : BlockPtr) (q₁ q₂ : CDiskTxPos) : Prop where
  placed : q₁.isNull = false ∧ q₂.isNull = false
  onDisk : q₁ ≠ CDiskTxPos.memoryPool ∧ q₂ ≠ CDiskTxPos.memoryPool
  tx : ∃ tx, g₁.files.readTx q₁ = some tx ∧ g₂.files.readTx q₂ = some tx
  header : g₁.files.readHeader q₁.nFile q₁.nBlockPos = g₂.files.readHeader q₂.nFile q₂.nBlockPos
  immature : CTransaction.immature g₁ ptr₁ q₁ = CTransaction.immature g₂ ptr₂ q₂

section Places

variable {g₁ g₂ : Globals} {q₁ q₂ : CDiskTxPos}

/-- Entries at one height, both at the place in question or neither. -/
def SameDepth (q₁ q₂ : CDiskTxPos) (p₁ p₂ : CBlockIndex) : Prop :=
  p₁.nHeight = p₂.nHeight ∧ (atPlace q₁ p₁ ↔ atPlace q₂ p₂)

theorem immature_cons (g : Globals) (top : CBlockIndex) (rest : BlockPtr) (q : CDiskTxPos) :
    CTransaction.immature g (top :: rest) q = ((top :: rest).takeWhile fun p =>
      decide ((top.nHeight : Int) - p.nHeight < g.nCoinbaseMaturity)).any
        fun p => decide (atPlace q p) := rfl

/-- Scanning two chains of equal heights for entries that are found at the same depths. -/
theorem immature_congr {ptr₁ ptr₂ : BlockPtr} (hT : g₁.fTestNet = g₂.fTestNet)
    (h : List.Forall₂ (SameDepth q₁ q₂) ptr₁ ptr₂) :
    CTransaction.immature g₁ ptr₁ q₁ = CTransaction.immature g₂ ptr₂ q₂ := by
  have hmat : g₁.nCoinbaseMaturity = g₂.nCoinbaseMaturity := by
    unfold Globals.nCoinbaseMaturity
    rw [hT]
  -- the height of the top is fixed, the scan goes down
  have aux : ∀ (H : Nat) {l₁ l₂ : BlockPtr}, List.Forall₂ (SameDepth q₁ q₂) l₁ l₂ →
      (l₁.takeWhile fun p => decide ((H : Int) - p.nHeight < g₁.nCoinbaseMaturity)).any
          (fun p => decide (atPlace q₁ p)) =
        (l₂.takeWhile fun p => decide ((H : Int) - p.nHeight < g₂.nCoinbaseMaturity)).any
          (fun p => decide (atPlace q₂ p)) := by
    intro H l₁ l₂ hl
    rw [hmat]
    induction hl with
    | nil => rfl
    | @cons p₁ p₂ l₁ l₂ hp _ ih =>
      rw [List.takeWhile_cons, List.takeWhile_cons, hp.1]
      by_cases hd : (H : Int) - p₂.nHeight < g₂.nCoinbaseMaturity
      · rw [if_pos (decide_eq_true hd), if_pos (decide_eq_true hd), List.any_cons, List.any_cons, ih,
          decide_eq_decide.mpr hp.2]
      · rw [if_neg (by simpa using hd), if_neg (by simpa using hd)]
        rfl
  cases h with
  | nil => rfl
  | @cons p₁ p₂ l₁ l₂ hp hl =>
    have haux := aux p₁.nHeight (List.Forall₂.cons hp hl)
    rw [immature_cons, immature_cons, haux, hp.1]

variable {base₁ base₂ : BlockPtr}

/-- In a chain on disk only the block itself is where its transactions are. -/
theorem ChainOnDisk.not_atPlace {files : BlockFiles} {base : BlockPtr} {pre post : Chain}
    {c : ChainBlock} (h : ChainOnDisk files base (pre ++ c :: post)) (l : List CTransaction) :
    (∀ d ∈ pre, ¬ atPlace (CBlock.txPosition c.pindex c.block l) d.pindex) ∧
      (∀ d ∈ post, ¬ atPlace (CBlock.txPosition c.pindex c.block l) d.pindex) ∧
      ∀ p ∈ base, ¬ atPlace (CBlock.txPosition c.pindex c.block l) p := by
  have hnd := h.places
  unfold Chain.ptr at hnd
  simp only [List.map_append, List.map_cons, List.append_assoc, List.cons_append] at hnd
  rw [List.nodup_append, List.nodup_cons] at hnd
  obtain ⟨-, ⟨hbelow, -⟩, habove⟩ := hnd
  have hkey : ∀ p : CBlockIndex, atPlace (CBlock.txPosition c.pindex c.block l) p →
      (p.nFile, p.nBlockPos) = (c.pindex.nFile, c.pindex.nBlockPos) :=
    fun p hp => Prod.ext hp.2 hp.1
  refine ⟨fun d hd hat => ?_, fun d hd hat => ?_, fun p hp hat => ?_⟩
  · exact habove _ (List.mem_map_of_mem (List.mem_map_of_mem hd)) _ List.mem_cons_self (hkey _ hat)
  · refine hbelow (List.mem_append_left _ ?_)
    rw [← hkey _ hat]
    exact List.mem_map_of_mem (List.mem_map_of_mem hd)
  · refine hbelow (List.mem_append_right _ ?_)
    rw [← hkey _ hat]
    exact List.mem_map_of_mem hp

/-- Blocks of the chain that are not at the place in question. -/
theorem sameDepth_chain {views : List (ChainBlock × ChainBlock)}
    (hsame : ∀ v ∈ views, SameBlock v.1 v.2) (h₁ : ∀ v ∈ views, ¬ atPlace q₁ v.1.pindex)
    (h₂ : ∀ v ∈ views, ¬ atPlace q₂ v.2.pindex) :
    List.Forall₂ (SameDepth q₁ q₂) (views.map fun v => v.1.pindex) (views.map fun v => v.2.pindex) := by
  rw [List.forall₂_map_left_iff, List.forall₂_map_right_iff, List.forall₂_same]
  exact fun v hv => ⟨(hsame v hv).nHeight_eq, iff_of_false (h₁ v hv) (h₂ v hv)⟩

theorem sameDepth_base (hbase : List.Forall₂ (fun p₁ p₂ => p₁.nHeight = p₂.nHeight) base₁ base₂)
    (h₁ : ∀ p ∈ base₁, ¬ atPlace q₁ p) (h₂ : ∀ p ∈ base₂, ¬ atPlace q₂ p) :
    List.Forall₂ (SameDepth q₁ q₂) base₁ base₂ := by
  induction hbase with
  | nil => exact List.Forall₂.nil
  | cons hp _ ih =>
    refine List.Forall₂.cons ⟨hp, iff_of_false (h₁ _ List.mem_cons_self) (h₂ _ List.mem_cons_self)⟩ ?_
    exact ih (fun p hp => h₁ p (List.mem_cons_of_mem _ hp)) fun p hp => h₂ p (List.mem_cons_of_mem _ hp)

/-- **Corresponding positions.**  A transaction of a block of the chain is at positions that cannot be
    told apart. -/
theorem samePlace {views : List (ChainBlock × ChainBlock)} (hT : g₁.fTestNet = g₂.fTestNet)
    (hd₁ : ChainOnDisk g₁.files base₁ (views.map Prod.fst))
    (hd₂ : ChainOnDisk g₂.files base₂ (views.map Prod.snd))
    (hsame : ∀ v ∈ views, SameBlock v.1 v.2)
    (hbase : List.Forall₂ (fun p₁ p₂ => p₁.nHeight = p₂.nHeight) base₁ base₂)
    {v : ChainBlock × ChainBlock} (hv : v ∈ views) {pre : List CTransaction} {tx : CTransaction}
    {post : List CTransaction} (hvtx : v.1.block.vtx = pre ++ tx :: post) :
    SamePlace g₁ g₂ (Chain.ptr base₁ (views.map Prod.fst)) (Chain.ptr base₂ (views.map Prod.snd))
      (CBlock.txPosition v.1.pindex v.1.block pre) (CBlock.txPosition v.2.pindex v.2.block pre) := by
  have hblock := (hsame v hv).block_eq
  have hvtx₂ : v.2.block.vtx = pre ++ tx :: post := by rw [← hblock, hvtx]
  have hmem₁ : v.1 ∈ views.map Prod.fst := List.mem_map_of_mem hv
  have hmem₂ : v.2 ∈ views.map Prod.snd := List.mem_map_of_mem hv
  obtain ⟨hread₁, hpool₁⟩ := hd₁.stored v.1 hmem₁ pre tx post hvtx
  obtain ⟨hread₂, hpool₂⟩ := hd₂.stored v.2 hmem₂ pre tx post hvtx₂
  refine ⟨⟨(hd₁.stored v.1 hmem₁).not_isNull hvtx, (hd₂.stored v.2 hmem₂).not_isNull hvtx₂⟩,
    ⟨hpool₁, hpool₂⟩, ⟨tx, hread₁, hread₂⟩, ?_, ?_⟩
  · have h₁ := hd₁.header v.1 hmem₁
    have h₂ := hd₂.header v.2 hmem₂
    rw [← hblock] at h₂
    exact h₁.trans h₂.symm
  · -- the block is at the same depth in both chains, and nothing else is at its place
    obtain ⟨above, below, rfl⟩ := List.append_of_mem hv
    rw [List.map_append, List.map_cons] at hd₁ hd₂
    obtain ⟨habove₁, hbelow₁, hbase₁⟩ := hd₁.not_atPlace pre
    obtain ⟨habove₂, hbelow₂, hbase₂⟩ := hd₂.not_atPlace pre
    refine immature_congr hT ?_
    unfold Chain.ptr
    simp only [List.map_append, List.map_cons, List.append_assoc, List.cons_append, List.map_map]
    refine List.rel_append (sameDepth_chain ?_ ?_ ?_) (List.Forall₂.cons ?_
      (List.rel_append (sameDepth_chain ?_ ?_ ?_) (sameDepth_base hbase hbase₁ hbase₂)))
    · exact fun w hw => hsame w (List.mem_append_left _ hw)
    · exact fun w hw => habove₁ _ (List.mem_map_of_mem hw)
    · exact fun w hw => habove₂ _ (List.mem_map_of_mem hw)
    · exact ⟨(hsame v hv).nHeight_eq, iff_of_true ⟨rfl, rfl⟩ ⟨rfl, rfl⟩⟩
    · exact fun w hw => hsame w (List.mem_append_right _ (List.mem_cons_of_mem _ hw))
    · exact fun w hw => hbelow₁ _ (List.mem_map_of_mem hw)
    · exact fun w hw => hbelow₂ _ (List.mem_map_of_mem hw)

end Places

/-! ## The same index in two nodes -/

/-- Index entries at corresponding positions, with the same slots free. -/
structure SameIndexEntry (R : CDiskTxPos → CDiskTxPos → Prop) (ti₁ ti₂ : CTxIndex) : Prop where
  pos_rel : R ti₁.pos ti₂.pos
  spent_eq : ti₁.vSpent.map CDiskTxPos.isNull = ti₂.vSpent.map CDiskTxPos.isNull

theorem SameIndexEntry.length_eq {R : CDiskTxPos → CDiskTxPos → Prop} {ti₁ ti₂ : CTxIndex}
    (h : SameIndexEntry R ti₁ ti₂) : ti₁.vSpent.length = ti₂.vSpent.length := by
  have := congrArg List.length h.spent_eq
  rwa [List.length_map, List.length_map] at this

theorem SameIndexEntry.slot {R : CDiskTxPos → CDiskTxPos → Prop} {ti₁ ti₂ : CTxIndex}
    (h : SameIndexEntry R ti₁ ti₂) (n : Nat) :
    (ti₁.vSpent[n]?).map CDiskTxPos.isNull = (ti₂.vSpent[n]?).map CDiskTxPos.isNull := by
  have := congrArg (fun l => l[n]?) h.spent_eq
  simpa using this

/-- Taking the same slot on both sides. -/
theorem SameIndexEntry.setSpent {R : CDiskTxPos → CDiskTxPos → Prop} {ti₁ ti₂ : CTxIndex}
    {q₁ q₂ : CDiskTxPos} (h : SameIndexEntry R ti₁ ti₂) (n : Nat) (hq : q₁.isNull = q₂.isNull) :
    SameIndexEntry R (ti₁.setSpent n q₁) (ti₂.setSpent n q₂) := by
  refine ⟨h.pos_rel, ?_⟩
  show (ti₁.vSpent.set n q₁).map _ = (ti₂.vSpent.set n q₂).map _
  rw [List.map_set, List.map_set, h.spent_eq, hq]

theorem spent_eq_of_slots {R : CDiskTxPos → CDiskTxPos → Prop} {s₁ s₂ : List (Option CDiskTxPos)}
    (hR : ∀ q₁ q₂, R q₁ q₂ → q₁.isNull = false ∧ q₂.isNull = false)
    (h : List.Forall₂ (OptRel R) s₁ s₂) :
    (s₁.map fun q => q.getD CDiskTxPos.null).map CDiskTxPos.isNull =
      (s₂.map fun q => q.getD CDiskTxPos.null).map CDiskTxPos.isNull := by
  induction h with
  | nil => rfl
  | @cons q₁ q₂ _ _ hq _ ih =>
    rw [List.map_cons, List.map_cons, List.map_cons, List.map_cons, ih]
    rcases OptRel.elim hq with ⟨rfl, rfl⟩ | ⟨p₁, p₂, rfl, rfl, hp⟩
    · rfl
    · obtain ⟨hp₁, hp₂⟩ := hR p₁ p₂ hp
      rw [Option.getD_some, Option.getD_some, hp₁, hp₂]

/-- Indexes of ledgers that differ in positions only. -/
theorem Refines.same {R : CDiskTxPos → CDiskTxPos → Prop} {i₁ i₂ : Uint256 → Option CTxIndex}
    {l₁ l₂ : TxLedger} (hR : ∀ q₁ q₂, R q₁ q₂ → q₁.isNull = false ∧ q₂.isNull = false)
    (h₁ : Refines i₁ l₁) (h₂ : Refines i₂ l₂) (hl : List.Forall₂ (SameEntry R) l₁ l₂) (h : Uint256) :
    OptRel (SameIndexEntry R) (i₁ h) (i₂ h) := by
  rw [h₁ h, h₂ h]
  rcases OptRel.elim (view_relabelled hl h) with ⟨hx, hy⟩ | ⟨r₁, r₂, hx, hy, hpos, hslots⟩
  · rw [hx, hy]; exact Option.Rel.none
  · rw [hx, hy]
    exact Option.Rel.some ⟨hpos, spent_eq_of_slots hR hslots⟩

/-- The ledgers of one chain, as two nodes have it. -/
theorem ledgerOf_same (P : Primitives) {R : CDiskTxPos → CDiskTxPos → Prop}
    {views : List (ChainBlock × ChainBlock)} (hsame : ∀ v ∈ views, SameBlock v.1 v.2)
    (hR : ∀ v ∈ views, ∀ p ∈ splits v.1.block.vtx, R (CBlock.txPosition v.1.pindex v.1.block p.1)
      (CBlock.txPosition v.2.pindex v.2.block p.1)) :
    List.Forall₂ (SameEntry R) (ledgerOf P (views.map Prod.fst)) (ledgerOf P (views.map Prod.snd)) := by
  induction views with
  | nil => exact List.Forall₂.nil
  | cons v views ih =>
    rw [List.map_cons, List.map_cons, ledgerOf_cons, ledgerOf_cons]
    refine List.rel_append ?_ (ih (fun w hw => hsame w (List.mem_cons_of_mem _ hw))
      fun w hw => hR w (List.mem_cons_of_mem _ hw))
    unfold blockEntries
    rw [List.forall₂_reverse_iff, ← (hsame v List.mem_cons_self).block_eq,
      List.forall₂_map_left_iff, List.forall₂_map_right_iff, List.forall₂_same]
    intro p hp
    refine ⟨rfl, rfl, rfl, ?_⟩
    have := hR v List.mem_cons_self p hp
    rwa [← (hsame v List.mem_cons_self).block_eq] at this

/-! ## Fetching and connecting inputs -/

section Inputs

variable {P : Primitives} {g₁ g₂ : Globals} {ptr₁ ptr₂ : BlockPtr} {txdb₁ txdb₂ : CTxDB}
  {pool₁ pool₂ : QueuedChanges} {inputs₁ inputs₂ : MapPrevTx} {tx : CTransaction}

/-- The index as two blocks being connected see it. -/
def SameView (g₁ g₂ : Globals) (ptr₁ ptr₂ : BlockPtr) (txdb₁ txdb₂ : CTxDB)
    (pool₁ pool₂ : QueuedChanges) : Prop :=
  ∀ h, OptRel (SameIndexEntry (SamePlace g₁ g₂ ptr₁ ptr₂))
    (indexView txdb₁ pool₁ h) (indexView txdb₂ pool₂ h)

/-- The same transactions fetched, with corresponding entries. -/
def SameInputs (g₁ g₂ : Globals) (ptr₁ ptr₂ : BlockPtr) (inputs₁ inputs₂ : MapPrevTx) : Prop :=
  ∀ h, OptRel (fun x y => SameIndexEntry (SamePlace g₁ g₂ ptr₁ ptr₂) x.1 y.1 ∧ x.2 = y.2)
    (inputs₁.lookup h) (inputs₂.lookup h)

theorem prevTxOf_same {ti₁ ti₂ : CTxIndex} (h : SamePlace g₁ g₂ ptr₁ ptr₂ ti₁.pos ti₂.pos)
    (hash : Uint256) : ∃ tx, CTransaction.prevTxOf g₁ hash ti₁ = .ok tx ∧
      CTransaction.prevTxOf g₂ hash ti₂ = .ok tx := by
  obtain ⟨tx, h₁, h₂⟩ := h.tx
  refine ⟨tx, ?_, ?_⟩
  · unfold CTransaction.prevTxOf
    rw [if_neg h.onDisk.1, h₁]
  · unfold CTransaction.prevTxOf
    rw [if_neg h.onDisk.2, h₂]

theorem fetchInput_lockstep (hview : SameView g₁ g₂ ptr₁ ptr₂ txdb₁ txdb₂ pool₁ pool₂)
    (hin : SameInputs g₁ g₂ ptr₁ ptr₂ inputs₁ inputs₂) (txin : CTxIn) :
    Lockstep (SameInputs g₁ g₂ ptr₁ ptr₂)
      (CTransaction.fetchInput g₁ txdb₁ pool₁ true false inputs₁ txin)
      (CTransaction.fetchInput g₂ txdb₂ pool₂ true false inputs₂ txin) := by
  unfold CTransaction.fetchInput
  simp only [Bool.true_or, if_true]
  rcases OptRel.elim (hin txin.prevout.hash) with ⟨hx, hy⟩ | ⟨x, y, hx, hy, -⟩
  · rw [hx, hy]
    rcases OptRel.elim (hview txin.prevout.hash) with ⟨hu, hv⟩ | ⟨ti₁, ti₂, hu, hv, hti⟩
    · rw [hu, hv]
      exact Lockstep.fail _ _
    · rw [hu, hv]
      obtain ⟨txPrev, hp₁, hp₂⟩ := prevTxOf_same hti.pos_rel txin.prevout.hash
      simp only [hp₁, hp₂, ok_bind]
      refine Lockstep.pure ?_
      intro h
      rw [lookup_insert_eq_ite, lookup_insert_eq_ite]
      by_cases heq : txin.prevout.hash = h
      · rw [if_pos heq, if_pos heq]
        exact Option.Rel.some ⟨hti, rfl⟩
      · rw [if_neg heq, if_neg heq]
        exact hin h
  · rw [hx, hy]
    exact Lockstep.pure hin

theorem prevoutInRange_same (hin : SameInputs g₁ g₂ ptr₁ ptr₂ inputs₁ inputs₂) (txin : CTxIn) :
    CTransaction.prevoutInRange inputs₁ txin = CTransaction.prevoutInRange inputs₂ txin := by
  unfold CTransaction.prevoutInRange
  rcases OptRel.elim (hin txin.prevout.hash) with ⟨hx, hy⟩ | ⟨⟨ti₁, t₁⟩, ⟨ti₂, t₂⟩, hx, hy, hti, htx⟩
  · rw [hx, hy]
  · rw [hx, hy]
    have htx : t₁ = t₂ := htx
    have hlen : ti₁.vSpent.length = ti₂.vSpent.length := hti.length_eq
    simp only [htx, hlen]

theorem fetchInputs_lockstep (hview : SameView g₁ g₂ ptr₁ ptr₂ txdb₁ txdb₂ pool₁ pool₂) :
    Lockstep (SameInputs g₁ g₂ ptr₁ ptr₂) (tx.fetchInputs g₁ txdb₁ pool₁ true false)
      (tx.fetchInputs g₂ txdb₂ pool₂ true false) := by
  have hempty : SameInputs g₁ g₂ ptr₁ ptr₂ ∅ ∅ := fun h => Option.Rel.none
  unfold CTransaction.fetchInputs
  by_cases hcb : tx.isCoinBase = true
  · rw [if_pos hcb, if_pos hcb]
    exact Lockstep.pure hempty
  · rw [if_neg hcb, if_neg hcb]
    refine Lockstep.bind (Lockstep.orFail _ _ (Lockstep.foldlM_prefix
      (R := fun _ => SameInputs g₁ g₂ ptr₁ ptr₂) ?_ hempty)) ?_
    · intro _ txin _ i₁ i₂ _ hi
      exact fetchInput_lockstep hview hi txin
    · intro i₁ i₂ hi
      refine Lockstep.require ?_ fun _ => Lockstep.pure hi
      exact congrArg tx.vin.all (funext (prevoutInRange_same hi))

theorem getOutputFor_same (hin : SameInputs g₁ g₂ ptr₁ ptr₂ inputs₁ inputs₂) (txin : CTxIn) :
    CTransaction.getOutputFor txin inputs₁ = CTransaction.getOutputFor txin inputs₂ := by
  unfold CTransaction.getOutputFor
  rcases OptRel.elim (hin txin.prevout.hash) with ⟨hx, hy⟩ | ⟨⟨ti₁, t₁⟩, ⟨ti₂, t₂⟩, hx, hy, -, htx⟩
  · rw [hx, hy]
  · rw [hx, hy]
    have htx : t₁ = t₂ := htx
    simp only [htx]

theorem getValueIn_same (hin : SameInputs g₁ g₂ ptr₁ ptr₂ inputs₁ inputs₂) :
    tx.getValueIn inputs₁ = tx.getValueIn inputs₂ := by
  have hstep : CTransaction.addValueIn inputs₁ = CTransaction.addValueIn inputs₂ := by
    funext n txin
    unfold CTransaction.addValueIn
    rw [getOutputFor_same hin]
  unfold CTransaction.getValueIn
  rw [hstep]

theorem getP2SHSigOpCount_same (hin : SameInputs g₁ g₂ ptr₁ ptr₂ inputs₁ inputs₂) :
    tx.getP2SHSigOpCount inputs₁ = tx.getP2SHSigOpCount inputs₂ := by
  have hstep : CTransaction.addP2SHSigOps inputs₁ = CTransaction.addP2SHSigOps inputs₂ := by
    funext n txin
    unfold CTransaction.addP2SHSigOps
    rw [getOutputFor_same hin]
  unfold CTransaction.getP2SHSigOpCount
  rw [hstep]

/-- Maturity, times and amounts: the first loop is the same computation. -/
theorem checkInput_same (hin : SameInputs g₁ g₂ ptr₁ ptr₂ inputs₁ inputs₂) :
    CTransaction.checkInput g₁ tx inputs₁ ptr₁ = CTransaction.checkInput g₂ tx inputs₂ ptr₂ := by
  funext n txin
  unfold CTransaction.checkInput
  rcases OptRel.elim (hin txin.prevout.hash) with ⟨hx, hy⟩ | ⟨⟨ti₁, t₁⟩, ⟨ti₂, t₂⟩, hx, hy, hti, htx⟩
  · rw [hx, hy]
  · rw [hx, hy]
    have htx : t₁ = t₂ := htx
    have hti : SameIndexEntry (SamePlace g₁ g₂ ptr₁ ptr₂) ti₁ ti₂ := hti
    subst htx
    have hslot := hti.slot txin.prevout.n.toNat
    simp only [hti.pos_rel.immature]
    cases h₁ : ti₁.vSpent[txin.prevout.n.toNat]? with
    | none =>
      cases h₂ : ti₂.vSpent[txin.prevout.n.toNat]? with
      | none => rfl
      | some _ => rw [h₁, h₂] at hslot; cases hslot
    | some _ =>
      cases h₂ : ti₂.vSpent[txin.prevout.n.toNat]? with
      | none => rw [h₁, h₂] at hslot; cases hslot
      | some _ => cases t₁.vout[txin.prevout.n.toNat]? <;> rfl

/-- What the second loop carries. -/
def SameSpending (g₁ g₂ : Globals) (ptr₁ ptr₂ : BlockPtr) (txdb₁ txdb₂ : CTxDB)
    (s₁ s₂ : MapPrevTx × QueuedChanges) : Prop :=
  SameInputs g₁ g₂ ptr₁ ptr₂ s₁.1 s₂.1 ∧ SameView g₁ g₂ ptr₁ ptr₂ txdb₁ txdb₂ s₁.2 s₂.2

/-- Writing corresponding entries under one hash. -/
theorem SameView.insert (hview : SameView g₁ g₂ ptr₁ ptr₂ txdb₁ txdb₂ pool₁ pool₂) {hash : Uint256}
    {ti₁ ti₂ : CTxIndex} (hti : SameIndexEntry (SamePlace g₁ g₂ ptr₁ ptr₂) ti₁ ti₂) :
    SameView g₁ g₂ ptr₁ ptr₂ txdb₁ txdb₂ (pool₁.insert hash ti₁) (pool₂.insert hash ti₂) := by
  intro h
  unfold indexView
  rw [lookup_insert_eq_ite, lookup_insert_eq_ite]
  by_cases heq : hash = h
  · rw [if_pos heq, if_pos heq]
    exact Option.Rel.some hti
  · rw [if_neg heq, if_neg heq]
    exact hview h

/-- Both nodes check signatures. -/
structure SignaturesChecked (g : Globals) : Prop where
  past : (getTotalBlocksEstimate g.fTestNet : Int) ≤ g.nBestHeight

theorem checkSignature_same (h₁ : SignaturesChecked g₁) (h₂ : SignaturesChecked g₂)
    (txPrev : CTransaction) (nIn : Nat) : CTransaction.checkSignature P g₁ tx true txPrev nIn =
      CTransaction.checkSignature P g₂ tx true txPrev nIn := by
  unfold CTransaction.checkSignature
  rw [if_neg (fun h => absurd h.2 (not_lt.mpr h₁.past)),
    if_neg (fun h => absurd h.2 (not_lt.mpr h₂.past))]

theorem spendInput_lockstep {q₁ q₂ : CDiskTxPos} {s₁ s₂ : MapPrevTx × QueuedChanges}
    (h₁ : SignaturesChecked g₁) (h₂ : SignaturesChecked g₂)
    (hq : SamePlace g₁ g₂ ptr₁ ptr₂ q₁ q₂) (hs : SameSpending g₁ g₂ ptr₁ ptr₂ txdb₁ txdb₂ s₁ s₂)
    (input : CTxIn × Nat) : Lockstep (SameSpending g₁ g₂ ptr₁ ptr₂ txdb₁ txdb₂)
      (CTransaction.spendInput P g₁ tx q₁ true false s₁ input)
      (CTransaction.spendInput P g₂ tx q₂ true false s₂ input) := by
  obtain ⟨i₁, pool₁⟩ := s₁
  obtain ⟨i₂, pool₂⟩ := s₂
  obtain ⟨hin, hview⟩ := hs
  have hin : SameInputs g₁ g₂ ptr₁ ptr₂ i₁ i₂ := hin
  have hview : SameView g₁ g₂ ptr₁ ptr₂ txdb₁ txdb₂ pool₁ pool₂ := hview
  unfold CTransaction.spendInput
  simp only [Bool.true_or, if_true]
  rcases OptRel.elim (hin input.1.prevout.hash) with ⟨hx, hy⟩ |
    ⟨⟨ti₁, t₁⟩, ⟨ti₂, t₂⟩, hx, hy, hti, htx⟩
  · rw [hx, hy]
    exact Lockstep.fail _ _
  · rw [hx, hy]
    have htx : t₁ = t₂ := htx
    have hti : SameIndexEntry (SamePlace g₁ g₂ ptr₁ ptr₂) ti₁ ti₂ := hti
    subst htx
    have hslot := hti.slot input.1.prevout.n.toNat
    dsimp only
    cases hs₁ : ti₁.vSpent[input.1.prevout.n.toNat]? with
    | none =>
      cases hs₂ : ti₂.vSpent[input.1.prevout.n.toNat]? with
      | none => exact Lockstep.fail _ _
      | some _ => rw [hs₁, hs₂] at hslot; cases hslot
    | some spent₁ =>
      cases hs₂ : ti₂.vSpent[input.1.prevout.n.toNat]? with
      | none => rw [hs₁, hs₂] at hslot; cases hslot
      | some spent₂ =>
        rw [hs₁, hs₂] at hslot
        dsimp only
        refine Lockstep.require (Option.some.inj hslot) fun _ => ?_
        rw [checkSignature_same h₁ h₂]
        refine Lockstep.bind (Lockstep.of_eq (R := fun _ _ => True) rfl fun _ => trivial) ?_
        intro _ _ _
        have hset := hti.setSpent input.1.prevout.n.toNat (hq.placed.1.trans hq.placed.2.symm)
        refine Lockstep.pure ⟨?_, hview.insert hset⟩
        intro h
        rw [lookup_insert_eq_ite, lookup_insert_eq_ite]
        by_cases heq : input.1.prevout.hash = h
        · rw [if_pos heq, if_pos heq]
          exact Option.Rel.some ⟨hset, rfl⟩
        · rw [if_neg heq, if_neg heq]
          exact hin h

theorem connectInputs_lockstep {q₁ q₂ : CDiskTxPos}
    (h₁ : SignaturesChecked g₁) (h₂ : SignaturesChecked g₂)
    (hq : SamePlace g₁ g₂ ptr₁ ptr₂ q₁ q₂) (hin : SameInputs g₁ g₂ ptr₁ ptr₂ inputs₁ inputs₂)
    (hview : SameView g₁ g₂ ptr₁ ptr₂ txdb₁ txdb₂ pool₁ pool₂) :
    Lockstep (SameView g₁ g₂ ptr₁ ptr₂ txdb₁ txdb₂)
      (tx.connectInputs P g₁ inputs₁ pool₁ q₁ ptr₁ true false)
      (tx.connectInputs P g₂ inputs₂ pool₂ q₂ ptr₂ true false) := by
  unfold CTransaction.connectInputs
  by_cases hcb : tx.isCoinBase = true
  · rw [if_pos hcb, if_pos hcb]
    exact Lockstep.pure hview
  · rw [if_neg hcb, if_neg hcb, checkInput_same hin]
    refine Lockstep.bind (Lockstep.of_eq (R := fun v w => v = w) rfl fun _ => rfl) ?_
    rintro v _ rfl
    refine Lockstep.bind (Lockstep.foldlM_prefix
      (R := fun _ => SameSpending g₁ g₂ ptr₁ ptr₂ txdb₁ txdb₂) ?_ ⟨hin, hview⟩) ?_
    · intro _ input _ s₁ s₂ _ hs
      exact spendInput_lockstep h₁ h₂ hq hs input
    · intro s₁ s₂ hs
      refine Lockstep.bind (Lockstep.of_eq (R := fun _ _ => True) rfl fun _ => trivial) ?_
      intro _ _ _
      exact Lockstep.pure hs.2

end Inputs

/-! ## Connecting a block in two nodes -/

/-- A node that is about to connect a block: its state, and the connected chain it holds the index of. -/
structure Arrival where
  g : Globals
  mem : Uint256 → BlockMem
  txdb : CTxDB
  base : BlockPtr
  chain : Chain
  pindex : CBlockIndex

namespace Arrival

variable (P : Primitives) (a a₁ a₂ : Arrival) (b : CBlock)

/-- The chain with the block on top. -/
def views : Chain := ⟨a.pindex, b⟩ :: a.chain

def pprev : BlockPtr := Chain.ptr a.base a.chain

/-- The block and its ancestors, as the maturity rule scans them. -/
def ptr : BlockPtr := a.pindex :: a.pprev

/-- `ConnectBlock` accepts the block. -/
def Accepts : Prop :=
  ∃ r, CBlock.connectBlock P a.g a.mem a.txdb a.pindex a.pprev b false = .ok r

/-- The height `GetProofOfWorkReward` goes by. -/
def bestHeight : Nat := (a.g.pindexBest.head?.map CBlockIndex.nHeight).getD 0

/-- The ancestors are connected, they and the block are on disk, and signatures are checked. -/
structure Ready : Prop where
  index : IndexOf P a.chain a.txdb
  onDisk : ChainOnDisk a.g.files a.base (a.views b)
  signatures : SignaturesChecked a.g

/-- The same ancestors on the same network at the same adjusted time. -/
structure SameAncestors : Prop where
  fTestNet : a₁.g.fTestNet = a₂.g.fTestNet
  nAdjustedTime : a₁.g.nAdjustedTime = a₂.g.nAdjustedTime
  nHeight : a₁.pindex.nHeight = a₂.pindex.nHeight
  chain : List.Forall₂ SameBlock a₁.chain a₂.chain
  base : List.Forall₂ (fun p₁ p₂ => p₁.nHeight = p₂.nHeight) a₁.base a₂.base

/-- Positions of corresponding transactions. -/
abbrev Place : CDiskTxPos → CDiskTxPos → Prop := SamePlace a₁.g a₂.g a₁.ptr a₂.ptr

/-- The two runs after the transactions `pre`. -/
structure SameRun (pre : List CTransaction) (s₁ s₂ : ConnectState) : Prop where
  nTxPos_eq₁ : s₁.nTxPos = CBlock.txOffset a₁.pindex b pre
  nTxPos_eq₂ : s₂.nTxPos = CBlock.txOffset a₂.pindex b pre
  view : SameView a₁.g a₂.g a₁.ptr a₂.ptr a₁.txdb a₂.txdb s₁.mapQueuedChanges s₂.mapQueuedChanges
  nFees_eq : s₁.nFees = s₂.nFees
  nValueIn_eq : s₁.nValueIn = s₂.nValueIn
  nValueOut_eq : s₁.nValueOut = s₂.nValueOut
  nStakeReward_eq : s₁.nStakeReward = s₂.nStakeReward
  nSigOps_eq : s₁.nSigOps = s₂.nSigOps

variable {P a a₁ a₂ b}

/-- Two lists related element by element are one list of pairs. -/
theorem exists_views {α : Type} {R : α → α → Prop} {l₁ l₂ : List α} (h : List.Forall₂ R l₁ l₂) :
    ∃ l : List (α × α), l.map Prod.fst = l₁ ∧ l.map Prod.snd = l₂ ∧ ∀ v ∈ l, R v.1 v.2 := by
  induction h with
  | nil => exact ⟨[], rfl, rfl, fun v hv => absurd hv List.not_mem_nil⟩
  | @cons x y l₁ l₂ hxy _ ih =>
    obtain ⟨l, rfl, rfl, hall⟩ := ih
    exact ⟨(x, y) :: l, rfl, rfl, List.forall_mem_cons.mpr ⟨hxy, hall⟩⟩

/-- What two arrivals at the block share: its own positions, and the index below it. -/
theorem same_start (h₁ : a₁.Ready P b) (h₂ : a₂.Ready P b) (hsame : SameAncestors a₁ a₂) :
    (∀ p ∈ splits b.vtx, Place a₁ a₂ (CBlock.txPosition a₁.pindex b p.1)
      (CBlock.txPosition a₂.pindex b p.1)) ∧
    SameView a₁.g a₂.g a₁.ptr a₂.ptr a₁.txdb a₂.txdb ∅ ∅ := by
  obtain ⟨l, hl₁, hl₂, hl⟩ := exists_views hsame.chain
  have htop : ∀ v ∈ ((⟨a₁.pindex, b⟩, ⟨a₂.pindex, b⟩) :: l : List (ChainBlock × ChainBlock)),
      SameBlock v.1 v.2 := List.forall_mem_cons.mpr ⟨⟨rfl, hsame.nHeight⟩, hl⟩
  have hd₁ := h₁.onDisk
  have hd₂ := h₂.onDisk
  unfold views at hd₁ hd₂
  rw [← hl₁] at hd₁
  rw [← hl₂] at hd₂
  have hptr₁ : a₁.ptr = Chain.ptr a₁.base (⟨a₁.pindex, b⟩ :: l.map Prod.fst) := by rw [hl₁]; rfl
  have hptr₂ : a₂.ptr = Chain.ptr a₂.base (⟨a₂.pindex, b⟩ :: l.map Prod.snd) := by rw [hl₂]; rfl
  have hplace : ∀ v ∈ ((⟨a₁.pindex, b⟩, ⟨a₂.pindex, b⟩) :: l : List (ChainBlock × ChainBlock)),
      ∀ p ∈ splits v.1.block.vtx, Place a₁ a₂ (CBlock.txPosition v.1.pindex v.1.block p.1)
        (CBlock.txPosition v.2.pindex v.2.block p.1) := by
    intro v hv p hp
    obtain ⟨post, hvtx⟩ := mem_splitsFrom (l := v.1.block.vtx) rfl hp
    have := samePlace hsame.fTestNet hd₁ hd₂ htop hsame.base hv hvtx
    unfold Place
    rw [hptr₁, hptr₂]
    exact this
  refine ⟨hplace _ List.mem_cons_self, ?_⟩
  have hledgers := ledgerOf_same P hl fun v hv => hplace v (List.mem_cons_of_mem _ hv)
  rw [hl₁, hl₂] at hledgers
  intro h
  exact h₁.index.refines.same (fun _ _ hq => hq.placed) h₂.index.refines hledgers h

theorem overwritesUnspent_same (hview : SameView a₁.g a₂.g a₁.ptr a₂.ptr a₁.txdb a₂.txdb ∅ ∅)
    (hash : Uint256) :
    CBlock.overwritesUnspent a₁.txdb hash = CBlock.overwritesUnspent a₂.txdb hash := by
  have hh : OptRel (SameIndexEntry (Place a₁ a₂)) (a₁.txdb.readTxIndex hash)
      (a₂.txdb.readTxIndex hash) := hview hash
  unfold CBlock.overwritesUnspent
  rcases OptRel.elim hh with ⟨hx, hy⟩ | ⟨ti₁, ti₂, hx, hy, hti⟩
  · rw [hx, hy]
  · rw [hx, hy]
    have hany : ∀ l : List CDiskTxPos, l.any CDiskTxPos.isNull = (l.map CDiskTxPos.isNull).any id :=
      fun l => by rw [List.any_map]; rfl
    show ti₁.vSpent.any _ = ti₂.vSpent.any _
    rw [hany, hany, hti.spent_eq]

theorem connectTxInputs_lockstep {s₁ s₂ : ConnectState} {pre : List CTransaction} {tx : CTransaction}
    {q₁ q₂ : CDiskTxPos} (h₁ : a₁.Ready P b) (h₂ : a₂.Ready P b) (hq : Place a₁ a₂ q₁ q₂)
    (hs : SameRun a₁ a₂ b pre s₁ s₂) : Lockstep (SameRun a₁ a₂ b pre)
      (CBlock.connectTxInputs P a₁.g a₁.txdb a₁.pindex a₁.pprev q₁ s₁ tx)
      (CBlock.connectTxInputs P a₂.g a₂.txdb a₂.pindex a₂.pprev q₂ s₂ tx) := by
  unfold CBlock.connectTxInputs
  refine Lockstep.bind (Lockstep.orFail _ _ (fetchInputs_lockstep hs.view)) fun i₁ i₂ hin => ?_
  rw [getP2SHSigOpCount_same hin, getValueIn_same hin]
  refine Lockstep.bind (Lockstep.of_eq (R := fun v w => v = w) rfl fun _ => rfl) ?_
  rintro nP2SH _ rfl
  refine Lockstep.require (by rw [hs.nSigOps_eq]) fun _ => ?_
  refine Lockstep.bind (Lockstep.of_eq (R := fun v w => v = w) rfl fun _ => rfl) ?_
  rintro nTxValueIn _ rfl
  refine Lockstep.bind (Lockstep.of_eq (R := fun v w => v = w) rfl fun _ => rfl) ?_
  rintro nTxValueOut _ rfl
  refine Lockstep.bind (Lockstep.orFail _ _
    (connectInputs_lockstep h₁.signatures h₂.signatures hq hin hs.view)) fun pool₁ pool₂ hview => ?_
  refine Lockstep.pure ⟨hs.nTxPos_eq₁, hs.nTxPos_eq₂, hview, ?_, ?_, ?_, ?_, ?_⟩
  · show (if _ then s₁.nFees else int64 (s₁.nFees + _)) = if _ then s₂.nFees else int64 (s₂.nFees + _)
    rw [hs.nFees_eq]
  · show int64 (s₁.nValueIn + _) = int64 (s₂.nValueIn + _)
    rw [hs.nValueIn_eq]
  · show int64 (s₁.nValueOut + _) = int64 (s₂.nValueOut + _)
    rw [hs.nValueOut_eq]
  · show (if _ then _ else s₁.nStakeReward) = if _ then _ else s₂.nStakeReward
    rw [hs.nStakeReward_eq]
  · show s₁.nSigOps + _ = s₂.nSigOps + _
    rw [hs.nSigOps_eq]

theorem connectTxValues_lockstep {s₁ s₂ : ConnectState} {pre : List CTransaction} {tx : CTransaction}
    {q₁ q₂ : CDiskTxPos} (h₁ : a₁.Ready P b) (h₂ : a₂.Ready P b) (hq : Place a₁ a₂ q₁ q₂)
    (hs : SameRun a₁ a₂ b pre s₁ s₂) : Lockstep (SameRun a₁ a₂ b pre)
      (CBlock.connectTxValues P a₁.g a₁.txdb a₁.pindex a₁.pprev q₁ s₁ tx)
      (CBlock.connectTxValues P a₂.g a₂.txdb a₂.pindex a₂.pprev q₂ s₂ tx) := by
  unfold CBlock.connectTxValues
  by_cases hcb : tx.isCoinBase = true
  · rw [if_pos hcb, if_pos hcb]
    refine Lockstep.bind (Lockstep.of_eq (R := fun v w => v = w) rfl fun _ => rfl) ?_
    rintro nTxValueOut _ rfl
    refine Lockstep.pure ⟨hs.nTxPos_eq₁, hs.nTxPos_eq₂, hs.view, hs.nFees_eq, hs.nValueIn_eq, ?_,
      hs.nStakeReward_eq, hs.nSigOps_eq⟩
    show int64 (s₁.nValueOut + _) = int64 (s₂.nValueOut + _)
    rw [hs.nValueOut_eq]
  · rw [if_neg hcb, if_neg hcb]
    exact connectTxInputs_lockstep h₁ h₂ hq hs

/-- One transaction, in both nodes. -/
theorem connectTx_lockstep {s₁ s₂ : ConnectState} {pre : List CTransaction} {tx : CTransaction}
    (h₁ : a₁.Ready P b) (h₂ : a₂.Ready P b)
    (hview : SameView a₁.g a₂.g a₁.ptr a₂.ptr a₁.txdb a₂.txdb ∅ ∅)
    (hq : Place a₁ a₂ (CBlock.txPosition a₁.pindex b pre) (CBlock.txPosition a₂.pindex b pre))
    (hs : SameRun a₁ a₂ b pre s₁ s₂) : Lockstep (SameRun a₁ a₂ b (pre ++ [tx]))
      (CBlock.connectTx P a₁.g a₁.txdb a₁.pindex a₁.pprev false s₁ tx)
      (CBlock.connectTx P a₂.g a₂.txdb a₂.pindex a₂.pprev false s₂ tx) := by
  have hpos₁ : (⟨a₁.pindex.nFile, a₁.pindex.nBlockPos, s₁.nTxPos⟩ : CDiskTxPos) =
      CBlock.txPosition a₁.pindex b pre := by rw [hs.nTxPos_eq₁]; rfl
  have hpos₂ : (⟨a₂.pindex.nFile, a₂.pindex.nBlockPos, s₂.nTxPos⟩ : CDiskTxPos) =
      CBlock.txPosition a₂.pindex b pre := by rw [hs.nTxPos_eq₂]; rfl
  unfold CBlock.connectTx
  refine Lockstep.require (by rw [overwritesUnspent_same hview]) fun _ => ?_
  refine Lockstep.require (by rw [hs.nSigOps_eq]) fun _ => ?_
  simp only [Bool.false_eq_true, if_false]
  rw [hpos₁, hpos₂]
  refine Lockstep.bind (connectTxValues_lockstep h₁ h₂ hq
    (show SameRun a₁ a₂ b (pre ++ [tx]) _ _ from ?_)) fun t₁ t₂ ht => ?_
  · refine ⟨?_, ?_, hs.view, hs.nFees_eq, hs.nValueIn_eq, hs.nValueOut_eq, hs.nStakeReward_eq, ?_⟩
    · rw [CBlock.txOffset_append_one, ← hs.nTxPos_eq₁]
    · rw [CBlock.txOffset_append_one, ← hs.nTxPos_eq₂]
    · show s₁.nSigOps + _ = s₂.nSigOps + _
      rw [hs.nSigOps_eq]
  · exact Lockstep.pure ⟨ht.nTxPos_eq₁, ht.nTxPos_eq₂, ht.view.insert ⟨hq, rfl⟩, ht.nFees_eq,
      ht.nValueIn_eq, ht.nValueOut_eq, ht.nStakeReward_eq, ht.nSigOps_eq⟩

/-- **The transactions of a block, in both nodes.** -/
theorem connectTxs_lockstep (h₁ : a₁.Ready P b) (h₂ : a₂.Ready P b) (hsame : SameAncestors a₁ a₂) :
    Lockstep (SameRun a₁ a₂ b b.vtx)
      (b.vtx.foldlM (CBlock.connectTx P a₁.g a₁.txdb a₁.pindex a₁.pprev false)
        (CBlock.connectStart a₁.pindex b false))
      (b.vtx.foldlM (CBlock.connectTx P a₂.g a₂.txdb a₂.pindex a₂.pprev false)
        (CBlock.connectStart a₂.pindex b false)) := by
  obtain ⟨hplace, hview⟩ := same_start h₁ h₂ hsame
  refine Lockstep.foldlM_prefix ?_ ⟨rfl, rfl, hview, rfl, rfl, rfl, rfl, rfl⟩
  intro pre tx post s₁ s₂ hvtx hs
  exact connectTx_lockstep h₁ h₂ hview (hplace _ (mem_splits hvtx)) hs

/-! ## The checks around the loop -/

theorem checkBlock_same (hsame : SameAncestors a₁ a₂) :
    CBlock.checkBlock P a₁.g b true true false = CBlock.checkBlock P a₂.g b true true false := by
  have hlimit : a₁.g.bnProofOfWorkLimit = a₂.g.bnProofOfWorkLimit := by
    unfold Globals.bnProofOfWorkLimit
    rw [hsame.fTestNet]
  unfold CBlock.checkBlock CBlock.checkClaimedWork checkProofOfWork
  rw [hlimit, hsame.nAdjustedTime]

/-- Coin age is read from the database alone. -/
theorem getCoinAge_same (hT : a₁.g.fTestNet = a₂.g.fTestNet)
    (hview : SameView a₁.g a₂.g a₁.ptr a₂.ptr a₁.txdb a₂.txdb ∅ ∅) (tx : CTransaction) :
    tx.getCoinAge a₁.g a₁.txdb = tx.getCoinAge a₂.g a₂.txdb := by
  have hage : a₁.g.nStakeMinAge = a₂.g.nStakeMinAge := by
    unfold Globals.nStakeMinAge
    rw [hT]
  have hstep : tx.addCoinAge a₁.g a₁.txdb = tx.addCoinAge a₂.g a₂.txdb := by
    funext n txin
    have hh : OptRel (SameIndexEntry (Place a₁ a₂)) (a₁.txdb.readTxIndex txin.prevout.hash)
      (a₂.txdb.readTxIndex txin.prevout.hash) := hview txin.prevout.hash
    unfold CTransaction.addCoinAge CTxDB.readPrevTx
    rcases OptRel.elim hh with ⟨hx, hy⟩ | ⟨ti₁, ti₂, hx, hy, hti⟩
    · rw [hx, hy]
    · obtain ⟨txPrev, hr₁, hr₂⟩ := hti.pos_rel.tx
      have hheader := hti.pos_rel.header
      rw [hx, hy]
      simp only [hr₁, hr₂]
      by_cases hn : txin.prevout.n.toNat ≥ txPrev.vout.length
      · simp only [if_pos hn]
      · simp only [if_neg hn, hheader, hage]
  unfold CTransaction.getCoinAge
  rw [hstep]

theorem checkReward_stake {s₁ s₂ : ConnectState} {pre : List CTransaction}
    (hT : a₁.g.fTestNet = a₂.g.fTestNet)
    (hview : SameView a₁.g a₂.g a₁.ptr a₂.ptr a₁.txdb a₂.txdb ∅ ∅)
    (hs : SameRun a₁ a₂ b pre s₁ s₂) (hwork : b.isProofOfWork = false) :
    CBlock.checkReward a₁.g a₁.txdb b s₁ = CBlock.checkReward a₂.g a₂.txdb b s₂ := by
  unfold CBlock.checkReward
  simp only [hwork, Bool.false_eq_true, if_false, getCoinAge_same hT hview, hs.nStakeReward_eq,
    hs.nFees_eq]

/-- Every check of `ConnectBlock` before the one of the reward: those of `CheckBlock`, and those of the
    transactions. -/
def PassesTxChecks (P : Primitives) (a : Arrival) (b : CBlock) : Prop :=
  CBlock.checkBlock P a.g b true true false = .ok () ∧
    ∃ s, b.vtx.foldlM (CBlock.connectTx P a.g a.txdb a.pindex a.pprev false)
      (CBlock.connectStart a.pindex b false) = .ok s

/-- The coinbase pays at most the proof-of-work reward for a best block of height `nHeight`. -/
def CoinBaseWithin (b : CBlock) (nFees : Int) (nHeight : Nat) : Prop :=
  ∀ coinBase ∈ b.vtx.head?, coinBase.valueOut ≤ getProofOfWorkReward nFees nHeight

/-- The fees of the block, as its ancestors' index gives them. -/
def fees (P : Primitives) (a : Arrival) (b : CBlock) : Int := CBlock.feesOf P a.g a.txdb b.vtx

theorem accepts_iff_reward : a.Accepts P b ↔ CBlock.checkBlock P a.g b true true false = .ok () ∧
    ∃ s, b.vtx.foldlM (CBlock.connectTx P a.g a.txdb a.pindex a.pprev false)
      (CBlock.connectStart a.pindex b false) = .ok s ∧
        CBlock.checkReward a.g a.txdb b s = .ok () := by
  constructor
  · rintro ⟨r, hr⟩
    unfold CBlock.connectBlock at hr
    simp only [bind_ok, pure_ok] at hr
    obtain ⟨_, hcheck, s, hrun, _, hreward, -⟩ := hr
    exact ⟨hcheck, s, hrun, hreward⟩
  · rintro ⟨hcheck, s, hrun, hreward⟩
    unfold Accepts CBlock.connectBlock
    simp only [Bool.not_false, hcheck, hrun, hreward, ok_bind]
    exact ⟨_, rfl⟩

theorem passesTxChecks_same (h₁ : a₁.Ready P b) (h₂ : a₂.Ready P b) (hsame : SameAncestors a₁ a₂) :
    PassesTxChecks P a₁ b ↔ PassesTxChecks P a₂ b := by
  unfold PassesTxChecks
  rw [checkBlock_same hsame, (connectTxs_lockstep h₁ h₂ hsame).isOk_iff]

/-- A proof-of-work block is accepted if it passes the other checks and its coinbase is within the
    reward for the node's best height. -/
theorem accepts_work (h : a.Ready P b) (hwork : b.isProofOfWork = true) :
    a.Accepts P b ↔
      PassesTxChecks P a b ∧ CoinBaseWithin b (int64 (fees P a b)) a.bestHeight := by
  have hreward : CBlock.checkBlock P a.g b true true false = .ok () → ∀ s,
      b.vtx.foldlM (CBlock.connectTx P a.g a.txdb a.pindex a.pprev false)
        (CBlock.connectStart a.pindex b false) = .ok s →
      (CBlock.checkReward a.g a.txdb b s = .ok () ↔
        CoinBaseWithin b (int64 (fees P a b)) a.bestHeight) := by
    intro hcheck s hrun
    have hchecked := b.checkBlock_ok P a.g hcheck
    have hfees := (CBlock.tally_run (h.onDisk.stored _ List.mem_cons_self) hchecked hrun).nFees_eq
    obtain ⟨coinBase, rest, hvtx, -, -⟩ := hchecked.coinbase
    have hout := (hchecked.txs coinBase (by rw [hvtx]; exact List.mem_cons_self)).getValueOut_eq
    unfold CBlock.checkReward CoinBaseWithin fees
    rw [hvtx] at hfees ⊢
    simp only [if_pos hwork, hout, ok_bind, require_ok, decide_eq_true_eq, not_lt, List.head?_cons,
      Option.mem_some_iff, forall_eq', hfees]
    exact Iff.rfl
  rw [accepts_iff_reward]
  constructor
  · rintro ⟨hcheck, s, hrun, hok⟩
    exact ⟨⟨hcheck, s, hrun⟩, (hreward hcheck s hrun).mp hok⟩
  · rintro ⟨⟨hcheck, s, hrun⟩, hwithin⟩
    exact ⟨hcheck, s, hrun, (hreward hcheck s hrun).mpr hwithin⟩

/-- A proof-of-stake block is judged alike. -/
theorem accepts_stake (h₁ : a₁.Ready P b) (h₂ : a₂.Ready P b) (hsame : SameAncestors a₁ a₂)
    (hstake : b.isProofOfWork = false) : a₁.Accepts P b ↔ a₂.Accepts P b := by
  rw [accepts_iff_reward, accepts_iff_reward, checkBlock_same hsame]
  have hview := (same_start h₁ h₂ hsame).2
  have hrun := Lockstep.bind (connectTxs_lockstep h₁ h₂ hsame)
    (S := fun _ _ => True) (f := CBlock.checkReward a₁.g a₁.txdb b)
    (g := CBlock.checkReward a₂.g a₂.txdb b) fun s₁ s₂ hs =>
      Lockstep.of_eq (checkReward_stake hsame.fTestNet hview hs hstake) fun _ => trivial
  have hiff := hrun.isOk_iff
  simp only [bind_ok] at hiff
  refine and_congr_right fun _ => ?_
  constructor
  · rintro ⟨s, hs, hok⟩
    obtain ⟨u, t, ht, hu⟩ := hiff.mp ⟨(), s, hs, hok⟩
    exact ⟨t, ht, hu⟩
  · rintro ⟨s, hs, hok⟩
    obtain ⟨u, t, ht, hu⟩ := hiff.mpr ⟨(), s, hs, hok⟩
    exact ⟨t, ht, hu⟩

/-- Fees do not depend on the node: both sums were collected in lockstep. -/
theorem fees_same (h₁ : a₁.Ready P b) (h₂ : a₂.Ready P b) (hsame : SameAncestors a₁ a₂)
    (hpass : PassesTxChecks P a₁ b) : int64 (fees P a₁ b) = int64 (fees P a₂ b) := by
  obtain ⟨hcheck, s₁, hrun₁⟩ := hpass
  have hchecked := b.checkBlock_ok P a₁.g hcheck
  have hlock := connectTxs_lockstep h₁ h₂ hsame
  obtain ⟨s₂, hrun₂⟩ := hlock.isOk_iff.mp ⟨s₁, hrun₁⟩
  rw [hrun₁, hrun₂] at hlock
  have hs : SameRun a₁ a₂ b b.vtx s₁ s₂ := hlock
  unfold fees
  rw [← (CBlock.tally_run (h₁.onDisk.stored _ List.mem_cons_self) hchecked hrun₁).nFees_eq,
    ← (CBlock.tally_run (h₂.onDisk.stored _ List.mem_cons_self) hchecked hrun₂).nFees_eq, hs.nFees_eq]

/-- **When two nodes agree on a block.**  Exactly when it is proof-of-stake, fails another check, or
    has a coinbase that both best heights allow or both forbid. -/
theorem accepts_iff_accepts (h₁ : a₁.Ready P b) (h₂ : a₂.Ready P b) (hsame : SameAncestors a₁ a₂) :
    (a₁.Accepts P b ↔ a₂.Accepts P b) ↔
      (b.isProofOfStake = true ∨ ¬ PassesTxChecks P a₁ b ∨
        (CoinBaseWithin b (int64 (fees P a₁ b)) a₁.bestHeight ↔
          CoinBaseWithin b (int64 (fees P a₁ b)) a₂.bestHeight)) := by
  by_cases hwork : b.isProofOfWork = true
  · have hstake : b.isProofOfStake = false := by simpa [CBlock.isProofOfWork] using hwork
    rw [accepts_work h₁ hwork, accepts_work h₂ hwork, ← passesTxChecks_same h₁ h₂ hsame, hstake]
    by_cases hpass : PassesTxChecks P a₁ b
    · rw [← fees_same h₁ h₂ hsame hpass]
      simp [hpass]
    · simp [hpass]
  · have hstake : b.isProofOfStake = true := by simpa [CBlock.isProofOfWork] using hwork
    exact iff_of_true (accepts_stake h₁ h₂ hsame (by simpa using hwork)) (Or.inl hstake)

end Arrival

/-! ## A block at the second step of the reward -/

namespace Step

open Sample

def coinBase : CTransaction := coinBaseTx 1402000000 [0x03, 0x50, 0xc3, 0x00] (5000 * COIN)

/-- A block of height 50000 whose coinbase pays the reward of the heights below. -/
def block : CBlock :=
  workBlock 0x3333 0x5b0aba6c6e01728c77b82f875703e66ab0fee7547bbfa0a1f7f7234456730d28 633713 coinBase

def hashBlock : Uint256 := 0x00000fc6b1427ef39b0ed256c6aba08c8b730c51c386d47216b6affcb09175cc

def primitives : Primitives :=
  Primitives.ofTables [(coinBase, block.hashMerkleRoot)] [(block.toCBlockHeader, hashBlock)] []

/-- The block before it. -/
def prev : CBlockIndex :=
  { CBlockIndex.ofBlock 1 4000 { block with nTime := 1401999940 } with
    hashBlock := 0x3333, nHeight := 49999 }

/-- Another block after `prev`. -/
def sibling : CBlockIndex :=
  { CBlockIndex.ofBlock 1 6000 block with hashBlock := 0x4444, nHeight := 50000 }

def pindex : CBlockIndex := entryOn prev 5000 hashBlock block

/-- A node at `prev` with the tip `pindexBest`. -/
def arrival (pindexBest : BlockPtr) : Arrival where
  g :=
    { fTestNet := false
      nAdjustedTime := 1402000000
      pindexBest := pindexBest
      nBestHeight := ((pindexBest.head?.map CBlockIndex.nHeight).getD 0 : Nat)
      mempool := fun _ => none
      files := filesOf [⟨pindex, block⟩] }
  mem := freshMem
  txdb := emptyDb
  base := [prev]
  chain := []
  pindex := pindex

/-- The block extends the tip. -/
def extending : Arrival := arrival [prev]

/-- The block is connected while its sibling is still `pindexBest`, as in a reorganisation. -/
def switching : Arrival := arrival [sibling, prev]

theorem ready {pindexBest : BlockPtr}
    (hbest : (30000 : Int) ≤ ((pindexBest.head?.map CBlockIndex.nHeight).getD 0 : Nat)) :
    (arrival pindexBest).Ready primitives block := by
  have hstored : CBlock.Stored pindex block (filesOf [⟨pindex, block⟩]) :=
    CBlock.stored_of_splits (by decide)
  have hheader : (filesOf [⟨pindex, block⟩]).readHeader pindex.nFile pindex.nBlockPos =
      some block.toCBlockHeader := by decide
  have hplaces : (([pindex, prev] : BlockPtr).map fun p => (p.nFile, p.nBlockPos)).Nodup := by
    decide
  exact ⟨⟨fun _ => rfl, Valid.nil, fun _ he => absurd he List.not_mem_nil⟩,
    ⟨List.forall_mem_singleton.mpr hstored, List.forall_mem_singleton.mpr hheader, hplaces⟩, ⟨hbest⟩⟩

theorem sameAncestors : Arrival.SameAncestors extending switching :=
  ⟨rfl, rfl, rfl, List.Forall₂.nil, List.Forall₂.cons rfl List.Forall₂.nil⟩

theorem accepts_iff_accepts_block :
    (extending.Accepts primitives block ↔ switching.Accepts primitives block) ↔
      (block.isProofOfStake = true ∨ ¬ Arrival.PassesTxChecks primitives extending block ∨
        (Arrival.CoinBaseWithin block (int64 (Arrival.fees primitives extending block)) 49999 ↔
          Arrival.CoinBaseWithin block (int64 (Arrival.fees primitives extending block)) 50000)) :=
  Arrival.accepts_iff_accepts (ready (by decide)) (ready (by decide)) sameAncestors

/-- Accepted as the next block of the tip, refused while its sibling is the tip. -/
theorem block_depends_on_path : extending.Ready primitives block ∧ switching.Ready primitives block ∧
    Arrival.SameAncestors extending switching ∧ extending.Accepts primitives block ∧
      ¬ switching.Accepts primitives block :=
  ⟨ready (by decide), ready (by decide), sameAncestors, exists_ok (by decide),
    not_exists_ok (by decide)⟩

end Step
end Silkcoin
