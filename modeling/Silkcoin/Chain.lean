/-
  Runs over the transaction index: the connected chain and its ledger.

  A `ChainRun` is any sequence of the index operations `SetBestChain` and `Reorganize` issue, from an
  empty index: connect a block on top of the tip, disconnect the tip, or do something that no reader
  of the index can see (open, commit or fill a batch with other records).  A block may be connected
  if it once passed the checks of `AcceptBlock` for its place and is in the block files; nothing is
  assumed about the rest of the node's state at any step.

  `ChainRun.index` is the invariant: the index refines the ledger of the connected blocks, which is
  valid.  It needs one assumption, that the transactions at hand have different hashes.  That no hash
  comes back later on the chain is DERIVED (`freshBlock`): a coinbase carries its height, and any
  other transaction would have to spend again what it has already spent.
-/
import Silkcoin.TxIndex

namespace Silkcoin

open Validation SpendLedger

/-- A connected block and its entry in the tree. -/
structure ChainBlock where
  pindex : CBlockIndex
  block : CBlock

/-- The connected blocks above genesis, newest first. -/
abbrev Chain := List ChainBlock

/-- The pointer to the tip: the entries of the chain over those below it. -/
def Chain.ptr (base : BlockPtr) (chain : Chain) : BlockPtr := chain.map ChainBlock.pindex ++ base

/-- The connected transactions with their positions, newest first. -/
def connectedTxs (chain : Chain) : List (CTransaction × CDiskTxPos) :=
  chain.flatMap fun c =>
    ((splits c.block.vtx).map fun p => (p.2, CBlock.txPosition c.pindex c.block p.1)).reverse

/-- The ledger of the connected transactions. -/
def ledgerOf (P : Primitives) (chain : Chain) : TxLedger :=
  (connectedTxs chain).map fun r => txEntry P r.1 r.2

/-- Every block of the chain is in the block files. -/
def ChainStored (files : BlockFiles) (chain : Chain) : Prop :=
  ∀ c ∈ chain, CBlock.Stored c.pindex c.block files

/-- The index operations of a node, from an empty index.  `S` are the transactions at hand. -/
inductive ChainRun (P : Primitives) (S : Set CTransaction) (base : BlockPtr) :
    Chain → CTxDB → (Uint256 → BlockMem) → Prop where
  | start {txdb : CTxDB} {mem : Uint256 → BlockMem} (hempty : ∀ h, txdb.readTxIndex h = none) :
      ChainRun P S base [] txdb mem
  | connect {chain : Chain} {txdb : CTxDB} {mem : Uint256 → BlockMem} {g gAccept : Globals}
      {tree : BlockTree} {pindex prev : CBlockIndex} {rest : BlockPtr} {b : CBlock} {r : Connected}
      (hrun : ChainRun P S base chain txdb mem) (hS : ∀ tx ∈ b.vtx, tx ∈ S)
      (hprev : Chain.ptr base chain = prev :: rest)
      (haccept : CBlock.acceptChecks P gAccept tree b = .ok (prev :: rest))
      (hheight : pindex.nHeight = prev.nHeight + 1)
      (hstored : ChainStored g.files (⟨pindex, b⟩ :: chain))
      (hconnect : CBlock.connectBlock P g mem txdb pindex (prev :: rest) b false = .ok r) :
      ChainRun P S base (⟨pindex, b⟩ :: chain) r.txdb r.mem
  | disconnect {c : ChainBlock} {chain : Chain} {txdb txdb' : CTxDB} {mem : Uint256 → BlockMem}
      (hrun : ChainRun P S base (c :: chain) txdb mem)
      (hdisconnect : CBlock.disconnectBlock P mem txdb (Chain.ptr base chain) c.block = .ok txdb') :
      ChainRun P S base chain txdb' mem
  | silent {chain : Chain} {txdb txdb' : CTxDB} {mem mem' : Uint256 → BlockMem}
      (hrun : ChainRun P S base chain txdb mem)
      (hread : ∀ h, txdb'.readTxIndex h = txdb.readTxIndex h) :
      ChainRun P S base chain txdb' mem'

/-! ## The chain and its ledger -/

theorem ledgerOf_cons (P : Primitives) (c : ChainBlock) (chain : Chain) :
    ledgerOf P (c :: chain) = blockEntries P c.pindex c.block c.block.vtx ++ ledgerOf P chain := by
  unfold ledgerOf connectedTxs blockEntries
  rw [List.flatMap_cons, List.map_append, List.map_reverse, List.map_map]
  rfl

theorem mem_splits_snd {l : List CTransaction} {p : List CTransaction × CTransaction}
    (hp : p ∈ splits l) : p.2 ∈ l := (CBlock.mem_of_mem_splitsFrom hp).1

theorem mem_ledgerOf {P : Primitives} {chain : Chain} {e : TxEntry} (he : e ∈ ledgerOf P chain) :
    ∃ c ∈ chain, ∃ tx ∈ c.block.vtx, ∃ pos, e = txEntry P tx pos := by
  obtain ⟨r, hr, rfl⟩ := List.mem_map.mp he
  obtain ⟨c, hc, hr⟩ := List.mem_flatMap.mp hr
  rw [List.mem_reverse, List.mem_map] at hr
  obtain ⟨p, hp, rfl⟩ := hr
  exact ⟨c, hc, p.2, mem_splits_snd hp, _, rfl⟩

/-- What is known of every connected block. -/
structure ChainOk (P : Primitives) (S : Set CTransaction) (chain : Chain) : Prop where
  heights : chain.Pairwise fun c d => d.pindex.nHeight < c.pindex.nHeight
  checked : ∀ c ∈ chain, c.block.BlockChecked P
  height : ∀ c ∈ chain, CBlock.heightInCoinbase c.block c.pindex.nHeight = true
  known : ∀ c ∈ chain, ∀ tx ∈ c.block.vtx, tx ∈ S

theorem ChainOk.tail {P : Primitives} {S : Set CTransaction} {c : ChainBlock} {chain : Chain}
    (h : ChainOk P S (c :: chain)) : ChainOk P S chain where
  heights := (List.pairwise_cons.mp h.heights).2
  checked d hd := h.checked d (List.mem_cons_of_mem _ hd)
  height d hd := h.height d (List.mem_cons_of_mem _ hd)
  known d hd := h.known d (List.mem_cons_of_mem _ hd)

section

variable {P : Primitives} {S : Set CTransaction} {chain : Chain}

/-! ## No hash comes back -/

/-- **Freshness.**  A transaction of the next block that spends only unspent outputs has a hash the
    connected chain does not have. -/
theorem freshBlock (hinj : Set.InjOn P.getHash S) (hok : ChainOk P S chain) {txdb : CTxDB}
    {pindex : CBlockIndex} {b : CBlock} (hchecked : b.BlockChecked P) (hS : ∀ tx ∈ b.vtx, tx ∈ S)
    (hheight : CBlock.heightInCoinbase b pindex.nHeight = true)
    (habove : ∀ c ∈ chain, c.pindex.nHeight < pindex.nHeight) :
    FreshBlock P txdb pindex b (ledgerOf P chain) := by
  intro pre tx post s hvtx hs hunspent d hd heq
  have htx : tx ∈ b.vtx := by rw [hvtx]; exact List.mem_append_right _ List.mem_cons_self
  rcases List.mem_append.mp hd with hd | hd
  · -- earlier in the same block: the block has no duplicate hashes
    obtain ⟨p, hp, rfl⟩ := mem_blockEntries.mp hd
    have hnd := hchecked.distinct
    rw [hvtx, List.map_append, List.nodup_append] at hnd
    exact hnd.2.2 _ (List.mem_map_of_mem (mem_splits_snd hp)) _
      (List.mem_map_of_mem List.mem_cons_self) heq
  · -- on the chain: it would be the same transaction
    obtain ⟨c, hc, tx', htx', pos, rfl⟩ := mem_ledgerOf hd
    have hsame : tx' = tx := hinj (hok.known c hc tx' htx') (hS tx htx) heq
    subst hsame
    by_cases hcb : tx'.isCoinBase = true
    · have h1 := CBlock.startsWithHeight_of_mem (hok.checked c hc) (hok.height c hc) htx' hcb
      have h2 := CBlock.startsWithHeight_of_mem hchecked hheight htx hcb
      have := CBlock.startsWithHeight_injective (hchecked.txs tx' htx) hcb h1 h2
      have := habove c hc
      omega
    · -- what it spends it has spent already
      obtain ⟨txin, vin, hvin⟩ := List.exists_cons_of_ne_nil (hchecked.txs tx' htx).vin_ne
      have hmem : txin.prevout.key ∈ CBlock.spentKeys tx' := by
        rw [CBlock.spentKeys, if_neg hcb, CTransaction.prevouts, hvin]
        exact List.mem_cons_self
      have hspends : txin.prevout.key ∈ (txEntry P tx' pos).spends := hmem
      exact spender_eq_none.mp (hunspent _ hmem) _ (List.mem_append_right _ hd) hspends

/-! ## The invariant -/

/-- The database holds the transaction index of a chain, one without duplicate hashes. -/
structure IndexOf (P : Primitives) (chain : Chain) (txdb : CTxDB) : Prop where
  refines : Refines txdb.readTxIndex (ledgerOf P chain)
  valid : Valid (ledgerOf P chain)
  placed : Placed (ledgerOf P chain)

/-- The state of the index in a run. -/
structure ChainIndex (P : Primitives) (S : Set CTransaction) (chain : Chain) (txdb : CTxDB) : Prop
    extends IndexOf P chain txdb where
  ok : ChainOk P S chain

theorem placed_of_append {l l' : TxLedger} (h : Placed (l ++ l')) : Placed l' :=
  fun e he => h e (List.mem_append_right _ he)

theorem valid_of_append {l : TxLedger} : ∀ {l' : TxLedger}, Valid (l' ++ l) → Valid l
  | [], h => h
  | _ :: _, h => valid_of_append h.tail

/-- One block more. -/
theorem IndexOf.connect {txdb : CTxDB} {g : Globals} {mem : Uint256 → BlockMem}
    {pindex : CBlockIndex} {pprev : BlockPtr} {b : CBlock} {r : Connected}
    (hi : IndexOf P chain txdb) (hfresh : FreshBlock P txdb pindex b (ledgerOf P chain))
    (hstored : CBlock.Stored pindex b g.files)
    (h : CBlock.connectBlock P g mem txdb pindex pprev b false = .ok r) :
    IndexOf P (⟨pindex, b⟩ :: chain) r.txdb := by
  obtain ⟨hr, hv, hp⟩ := connectBlock_refines hstored hi.refines hi.valid hi.placed hfresh h
  rw [← ledgerOf_cons P ⟨pindex, b⟩ chain] at hr hv hp
  exact ⟨hr, hv, hp⟩

/-- The tip off; this cannot fail. -/
theorem IndexOf.disconnect {c : ChainBlock} {txdb : CTxDB} (hi : IndexOf P (c :: chain) txdb)
    (mem : Uint256 → BlockMem) (pprev : BlockPtr) :
    ∃ txdb', CBlock.disconnectBlock P mem txdb pprev c.block = .ok txdb' ∧
      IndexOf P chain txdb' := by
  obtain ⟨hr, hv, hp⟩ := hi
  rw [ledgerOf_cons] at hr hv hp
  obtain ⟨txdb', hrun, hr'⟩ := disconnectBlock_refines mem pprev hr hv
  exact ⟨txdb', hrun, hr', valid_of_append hv, placed_of_append hp⟩

theorem ChainIndex.connect (hinj : Set.InjOn P.getHash S) {txdb : CTxDB} {g : Globals}
    {mem : Uint256 → BlockMem} {pindex : CBlockIndex} {pprev : BlockPtr} {b : CBlock} {r : Connected}
    (hi : ChainIndex P S chain txdb) (hS : ∀ tx ∈ b.vtx, tx ∈ S)
    (hheight : CBlock.heightInCoinbase b pindex.nHeight = true)
    (habove : ∀ c ∈ chain, c.pindex.nHeight < pindex.nHeight)
    (hstored : CBlock.Stored pindex b g.files)
    (h : CBlock.connectBlock P g mem txdb pindex pprev b false = .ok r) :
    ChainIndex P S (⟨pindex, b⟩ :: chain) r.txdb := by
  have hchecked := (CBlock.connectBlock_ok h).1
  have hfresh : FreshBlock P txdb pindex b (ledgerOf P chain) :=
    freshBlock hinj hi.ok hchecked hS hheight habove
  refine ⟨hi.toIndexOf.connect hfresh hstored h,
    List.pairwise_cons.mpr ⟨habove, hi.ok.heights⟩, ?_, ?_, ?_⟩
  · exact List.forall_mem_cons.mpr ⟨hchecked, hi.ok.checked⟩
  · exact List.forall_mem_cons.mpr ⟨hheight, hi.ok.height⟩
  · exact List.forall_mem_cons.mpr ⟨hS, hi.ok.known⟩

/-- All blocks of the chain are below a block on top of it. -/
theorem above_chain {base rest : BlockPtr} {prev : CBlockIndex} (hok : ChainOk P S chain)
    (hprev : Chain.ptr base chain = prev :: rest) :
    ∀ c ∈ chain, c.pindex.nHeight < prev.nHeight + 1 := by
  intro c hc
  cases chain with
  | nil => cases hc
  | cons top chain =>
    have htop : top.pindex = prev := by
      unfold Chain.ptr at hprev
      exact (List.cons.inj hprev).1
    rcases List.mem_cons.mp hc with rfl | hc
    · rw [htop]; exact Nat.lt_succ_self _
    · have := (List.pairwise_cons.mp hok.heights).1 c hc
      rw [htop] at this
      omega

/-- **The run invariant.** -/
theorem ChainRun.index {base : BlockPtr} {txdb : CTxDB} {mem : Uint256 → BlockMem}
    (hinj : Set.InjOn P.getHash S) (hrun : ChainRun P S base chain txdb mem) :
    ChainIndex P S chain txdb := by
  induction hrun with
  | start hempty =>
    refine ⟨⟨fun h => hempty h, Valid.nil, fun e he => absurd he List.not_mem_nil⟩,
      List.Pairwise.nil, ?_, ?_, ?_⟩ <;> exact fun c hc => absurd hc List.not_mem_nil
  | connect hrun hS hprev haccept hheight hstored hconnect ih =>
    have hcb := CBlock.acceptChecks_height haccept
    rw [← hheight] at hcb
    refine ih.connect hinj hS hcb ?_ (hstored _ List.mem_cons_self) hconnect
    rw [hheight]
    exact above_chain ih.ok hprev
  | disconnect hrun hdisconnect ih =>
    obtain ⟨txdb₁, hrun₁, hi⟩ := ih.toIndexOf.disconnect _ _
    rw [hdisconnect] at hrun₁
    cases hrun₁
    exact ⟨hi, ih.ok.tail⟩
  | silent hrun hread ih =>
    exact ⟨⟨ih.refines.congr hread, ih.valid, ih.placed⟩, ih.ok⟩

/-! ## What the index holds -/

/-- The positions of the inputs of connected transactions that spend output `o.2` of the transaction
    with hash `o.1`, one for each input. -/
def spendersOf (chain : Chain) (o : Uint256 × Nat) : List CDiskTxPos :=
  (connectedTxs chain).flatMap fun r =>
    ((CBlock.spentKeys r.1).filter fun s => s = o).map fun _ => r.2

theorem spendersOf_eq (P : Primitives) (chain : Chain) (o : Uint256 × Nat) :
    spendersOf chain o = spenders (ledgerOf P chain) o := by
  unfold spendersOf spenders ledgerOf
  rw [List.flatMap_map]
  rfl

/-- The index as a UTXO ledger of the connected chain. -/
structure IsLedger (P : Primitives) (chain : Chain) (txdb : CTxDB) : Prop where
  /-- an entry exists exactly for the connected transactions -/
  entry_iff : ∀ h, (txdb.readTxIndex h).isSome = true ↔
    ∃ r ∈ connectedTxs chain, P.getHash r.1 = h
  /-- the entry is at the transaction's position, with one slot an output -/
  entry_eq : ∀ r ∈ connectedTxs chain, ∃ txindex, txdb.readTxIndex (P.getHash r.1) = some txindex ∧
    txindex.pos = r.2 ∧ txindex.vSpent.length = r.1.vout.length
  /-- a slot is taken exactly if one input spends the output, and then it holds its position -/
  slot_iff : ∀ h txindex n q, txdb.readTxIndex h = some txindex → txindex.vSpent[n]? = some q →
    (q.isNull = false ↔ ∃ pos, spendersOf chain (h, n) = [pos]) ∧
      ∀ pos, spendersOf chain (h, n) = [pos] → q = pos
  /-- no outpoint is spent twice -/
  once : ∀ o, (spendersOf chain o).length ≤ 1

theorem IndexOf.isLedger {txdb : CTxDB} (hi : IndexOf P chain txdb) : IsLedger P chain txdb := by
  have hspenders : ∀ o, spendersOf chain o = (spender (ledgerOf P chain) o).toList :=
    fun o => by rw [spendersOf_eq P, hi.valid.spenders_eq]
  have hfind : ∀ r ∈ connectedTxs chain,
      find (ledgerOf P chain) (P.getHash r.1) = some (txEntry P r.1 r.2) := fun r hr => by
    have hmem : txEntry P r.1 r.2 ∈ ledgerOf P chain :=
      List.mem_map_of_mem hr
    exact hi.valid.find_mem hmem
  refine ⟨fun h => ?_, fun r hr => ?_, ?_, fun o => ?_⟩
  · constructor
    · intro hsome
      obtain ⟨ti, hti⟩ := Option.isSome_iff_exists.mp hsome
      obtain ⟨d, hd, hid, -⟩ := hi.refines.find_some hti
      obtain ⟨r, hr, rfl⟩ := List.mem_map.mp hd
      exact ⟨r, hr, hid⟩
    · rintro ⟨r, hr, rfl⟩
      rw [hi.refines, view, hfind r hr]; rfl
  · refine ⟨_, by rw [hi.refines, view, hfind r hr]; rfl, rfl, ?_⟩
    show ((slots _ _).map _).length = _
    rw [List.length_map, length_slots]
    exact List.length_map ..
  · intro h ti n q hti hq
    obtain ⟨d, hd, hid, -, -, hslots⟩ := hi.refines.find_some hti
    rw [hslots, List.getElem?_map, getElem?_slots, hid] at hq
    rw [hspenders]
    split at hq
    · cases hsp : spender (ledgerOf P chain) (h, n) with
      | none =>
        rw [hsp] at hq
        cases hq
        refine ⟨⟨fun hne => absurd hne (by decide), ?_⟩, fun pos hpos => by cases hpos⟩
        rintro ⟨pos, hpos⟩
        cases hpos
      | some p =>
        rw [hsp] at hq
        cases hq
        obtain ⟨e, he, -, hep⟩ := spender_some_mem hsp
        have hplaced : p.isNull = false := hep ▸ hi.placed e he
        exact ⟨⟨fun _ => ⟨p, rfl⟩, fun _ => hplaced⟩, fun pos hpos => (List.cons.inj hpos).1⟩
    · cases hq
  · rw [hspenders]
    cases spender (ledgerOf P chain) o <;> simp

/-- **The transaction index refines a UTXO ledger**, in every state of every run. -/
theorem txIndex_isLedger {base : BlockPtr} {txdb : CTxDB} {mem : Uint256 → BlockMem}
    (hinj : Set.InjOn P.getHash S) (hrun : ChainRun P S base chain txdb mem) :
    IsLedger P chain txdb :=
  (hrun.index hinj).toIndexOf.isLedger

/-! ## Unique hashes -/

/-- The hashes of the connected transactions, block by block. -/
def txidsOf (P : Primitives) (chain : Chain) : List Uint256 :=
  chain.flatMap fun c => c.block.vtx.map P.getHash

theorem splits_map_snd (l : List CTransaction) : (splits l).map Prod.snd = l := by
  induction l using List.reverseRecOn with
  | nil => rfl
  | append_singleton l x ih => rw [splits_append_one, List.map_append, ih]; rfl

theorem ledger_ids_perm (P : Primitives) (chain : Chain) :
    ((ledgerOf P chain).map Entry.id).Perm (txidsOf P chain) := by
  induction chain with
  | nil => exact List.Perm.nil
  | cons c chain ih =>
    have hblock : ((blockEntries P c.pindex c.block c.block.vtx).map Entry.id).Perm
        (c.block.vtx.map P.getHash) := by
      unfold blockEntries
      rw [List.map_reverse, List.map_map]
      refine (List.reverse_perm _).trans (List.Perm.of_eq ?_)
      calc (splits c.block.vtx).map (Entry.id ∘ fun p =>
              txEntry P p.2 (CBlock.txPosition c.pindex c.block p.1))
          = ((splits c.block.vtx).map Prod.snd).map P.getHash := by rw [List.map_map]; rfl
        _ = c.block.vtx.map P.getHash := by rw [splits_map_snd]
    rw [ledgerOf_cons, List.map_append]
    exact hblock.append ih

/-- **Unique transaction hashes on a chain**, and coinbases at different heights differ as
    transactions, whatever the hash. -/
theorem txids_nodup {base : BlockPtr} {txdb : CTxDB} {mem : Uint256 → BlockMem}
    (hinj : Set.InjOn P.getHash S) (hrun : ChainRun P S base chain txdb mem) :
    (txidsOf P chain).Nodup ∧
    ∀ c ∈ chain, ∀ d ∈ chain, c.pindex.nHeight ≠ d.pindex.nHeight →
      ∀ tx ∈ c.block.vtx, ∀ tx' ∈ d.block.vtx, tx.isCoinBase = true → tx'.isCoinBase = true →
        tx ≠ tx' := by
  have hi := hrun.index hinj
  refine ⟨(ledger_ids_perm P chain).nodup_iff.mp hi.valid.ids_nodup, ?_⟩
  intro c hc d hd hne tx htx tx' htx' hcb hcb' heq
  subst heq
  have h1 := CBlock.startsWithHeight_of_mem (hi.ok.checked c hc) (hi.ok.height c hc) htx hcb
  have h2 := CBlock.startsWithHeight_of_mem (hi.ok.checked d hd) (hi.ok.height d hd) htx' hcb'
  exact hne (CBlock.startsWithHeight_injective ((hi.ok.checked c hc).txs tx htx) hcb h1 h2)

/-! ## Disconnecting undoes connecting -/

end

/-! ## A chain of two blocks -/

/-- The block files that hold exactly the blocks of a chain. -/
def filesOf (chain : Chain) : BlockFiles where
  tx nFile nTxPos := ((connectedTxs chain).find? fun r =>
    decide (r.2.nFile = nFile ∧ r.2.nTxPos = nTxPos)).map Prod.fst
  block nFile nBlockPos := (chain.find? fun c =>
    decide (c.pindex.nFile = nFile ∧ c.pindex.nBlockPos = nBlockPos)).map ChainBlock.block
  header nFile nBlockPos := (chain.find? fun c =>
    decide (c.pindex.nFile = nFile ∧ c.pindex.nBlockPos = nBlockPos)).map
      fun c => c.block.toCBlockHeader

namespace Sample

def coinBaseTx (nTime : UInt32) (scriptSig : CScript) (nValue : Int) : CTransaction where
  nVersion := 1
  nTime := nTime
  vin := [⟨COutPoint.null, scriptSig, 0xffffffff⟩]
  vout := [⟨nValue, [0x51]⟩]
  nLockTime := 0

/-- A proof-of-work block with a coinbase only: the merkle root is the hash of the coinbase. -/
def workBlock (hashPrevBlock hashMerkleRoot : Uint256) (nNonce : UInt32) (coinBase : CTransaction) :
    CBlock where
  nVersion := 6
  hashPrevBlock := hashPrevBlock
  hashMerkleRoot := hashMerkleRoot
  nTime := coinBase.nTime
  nBits := 0x1e0fffff
  nNonce := nNonce
  vtx := [coinBase]
  vchBlockSig := []

/-- The genesis block of the source. -/
def genesis : CBlockIndex where
  hashBlock := hashGenesisBlock
  nFile := 1
  nBlockPos := 8
  nChainTrust := getBlockTrust 0x1e0fffff
  nHeight := 0
  nFlags := CBlockIndex.BLOCK_STAKE_MODIFIER
  nStakeModifier := 0
  nStakeModifierChecksum := 0xfd11f4e7
  prevoutStake := COutPoint.null
  nStakeTime := 0
  hashProofOfStake := 0
  nVersion := 1
  hashMerkleRoot := 0xe5232ed85d488f6134428cab09fcfc2e66797ab6f7686ef686c5b98dfa1cca48
  nTime := 1398947338
  nBits := 0x1e0fffff
  nNonce := 1663708

def coinBaseB1 : CTransaction := coinBaseTx 1398947398 [0x51, 0x42] (5000 * COIN)

def coinBaseB2 : CTransaction := coinBaseTx 1398947458 [0x52, 0x42] (5000 * COIN)

def blockB1 : CBlock :=
  workBlock hashGenesisBlock 0xc2a530778ff4663d888b7e6af71e8a1d14f72dbca9045c296f93969ad702f7d1
    1132627 coinBaseB1

def hashB1 : Uint256 := 0x0000083a53e9c0edd9f7222e8c2a91304736a27b9ad7c52886e00aad7e577f6d

def blockB2 : CBlock :=
  workBlock hashB1 0x9538d0720496c59067649e1c035aa2f631f57ed0876326ca7c60a77c1c91fa7f 1062955
    coinBaseB2

def hashB2 : Uint256 := 0x00000690b4e8827a38b5b6ec5680e98d314036a6ab05a8bb9a1c1e60cb426ffa

/-- The entry of a block mined on top of `prev`. -/
def entryOn (prev : CBlockIndex) (nBlockPos : UInt32) (hashBlock : Uint256) (b : CBlock) :
    CBlockIndex :=
  { CBlockIndex.ofBlock 1 nBlockPos b with
    hashBlock := hashBlock
    nHeight := prev.nHeight + 1
    nChainTrust := prev.nChainTrust + getBlockTrust b.nBits }

def indexB1 : CBlockIndex := entryOn genesis 300 hashB1 blockB1

def indexB2 : CBlockIndex := entryOn indexB1 500 hashB2 blockB2

def chainB : Chain := [⟨indexB2, blockB2⟩, ⟨indexB1, blockB1⟩]

def txsB : List (CTransaction × Uint256) :=
  [(coinBaseB1, blockB1.hashMerkleRoot), (coinBaseB2, blockB2.hashMerkleRoot)]

/-- The hashes of these two blocks and of their coinbases. -/
def primitivesB : Primitives := Primitives.ofTables txsB
  [(blockB1.toCBlockHeader, hashB1), (blockB2.toCBlockHeader, hashB2)] []

/-- A node with the tip `pindexBest` and the two blocks on disk. -/
def nodeB (pindexBest : BlockPtr) : Globals where
  fTestNet := false
  nAdjustedTime := 1398950000
  pindexBest := pindexBest
  nBestHeight := ((pindexBest.head?.map CBlockIndex.nHeight).getD 0 : Nat)
  mempool _ := none
  files := filesOf chainB

/-- The tree up to the tip `pindexBest`. -/
def treeUpTo (pindexBest : BlockPtr) : BlockTree where
  mapBlockIndex := pindexBest.tails.foldr (fun ptr m => m.insert
    ((ptr.head?.map CBlockIndex.hashBlock).getD 0) ptr) ∅
  hashSyncCheckpoint := hashGenesisBlock
  checkpointsMode := .STRICT

def emptyDb : CTxDB := ⟨∅, none⟩

def freshMem : Uint256 → BlockMem := fun _ => BlockMem.new

/-- The database of a node that has genesis only. -/
theorem readTxIndex_genesisDb (hash : Uint256) :
    (emptyDb.writeHashBestChain hashGenesisBlock).readTxIndex hash = none := by
  rw [CTxDB.readTxIndex_writeHashBestChain]
  rfl

/-- The first block connected. -/
def connectedB1 : Connected :=
  ((CBlock.connectBlock primitivesB (nodeB [genesis]) freshMem emptyDb indexB1 [genesis] blockB1
    false).toOption).getD ⟨emptyDb, freshMem⟩

/-- The second block connected on top of it. -/
def connectedB2 : Connected :=
  ((CBlock.connectBlock primitivesB (nodeB [indexB1, genesis]) connectedB1.mem connectedB1.txdb indexB2
    [indexB1, genesis] blockB2 false).toOption).getD ⟨emptyDb, freshMem⟩

/-- The tables are sound, the blocks are on disk where they should be, accepted and connected. -/
theorem runs : (∀ r ∈ txsB, primitivesB.getHash r.1 = r.2) ∧ (txsB.map Prod.snd).Nodup ∧
    (∀ c ∈ chainB, ∀ p ∈ splits c.block.vtx,
      (filesOf chainB).readTx (CBlock.txPosition c.pindex c.block p.1) = some p.2 ∧
        CBlock.txPosition c.pindex c.block p.1 ≠ CDiskTxPos.memoryPool) ∧
    (∀ c ∈ chainB, ∀ tx ∈ c.block.vtx, tx ∈ txsB.map Prod.fst) ∧
    (CBlock.acceptChecks primitivesB (nodeB [genesis]) (treeUpTo [genesis]) blockB1).toOption =
      some [genesis] ∧
    (CBlock.acceptChecks primitivesB (nodeB [indexB1, genesis]) (treeUpTo [indexB1, genesis])
      blockB2).toOption = some [indexB1, genesis] ∧
    (CBlock.connectBlock primitivesB (nodeB [genesis]) freshMem emptyDb indexB1 [genesis] blockB1
      false).isOk = true ∧
    (CBlock.connectBlock primitivesB (nodeB [indexB1, genesis]) connectedB1.mem connectedB1.txdb indexB2
      [indexB1, genesis] blockB2 false).isOk = true := by
  decide

theorem storedB (pindexBest : BlockPtr) : ChainStored (nodeB pindexBest).files chainB :=
  let ⟨_, _, hall, _⟩ := runs
  fun c hc => CBlock.stored_of_splits (hall c hc)

theorem injOnB : Set.InjOn primitivesB.getHash { tx | tx ∈ txsB.map Prod.fst } :=
  let ⟨hhash, hnd, _⟩ := runs
  Primitives.ofTables_injOn hhash hnd

theorem connectB1 : CBlock.connectBlock primitivesB (nodeB [genesis]) freshMem emptyDb indexB1
    [genesis] blockB1 false = .ok connectedB1 :=
  let ⟨_, _, _, _, _, _, hconnect, _⟩ := runs
  eq_ok_getD hconnect _

theorem runB1 : ChainRun primitivesB { tx | tx ∈ txsB.map Prod.fst } [genesis]
    [⟨indexB1, blockB1⟩] connectedB1.txdb connectedB1.mem := by
  obtain ⟨-, -, -, hknown, haccept, -⟩ := runs
  refine ChainRun.connect (ChainRun.start fun _ => rfl)
    (hknown _ (List.mem_cons_of_mem _ List.mem_cons_self)) rfl (ok_of_toOption haccept) rfl ?_ connectB1
  exact fun c hc => storedB [genesis] c (List.mem_cons_of_mem _ hc)

theorem runB2 : ChainRun primitivesB { tx | tx ∈ txsB.map Prod.fst } [genesis] chainB
    connectedB2.txdb connectedB2.mem := by
  obtain ⟨-, -, -, hknown, -, haccept, -, hconnect⟩ := runs
  exact ChainRun.connect runB1 (hknown _ List.mem_cons_self) rfl (ok_of_toOption haccept) rfl
    (storedB _) (eq_ok_getD hconnect _)

theorem txIndex_isLedger_chainB : IsLedger primitivesB chainB connectedB2.txdb :=
  txIndex_isLedger injOnB runB2

theorem txids_nodup_chainB : (txidsOf primitivesB chainB).Nodup :=
  (txids_nodup injOnB runB2).1

end Sample
end Silkcoin
