/-
  What `SetBestChain` publishes, and what the database is on.

  `TipAgrees` is the agreement: the best-chain record names the published tip, the transaction index
  is the one of the blocks from genesis to the tip, and each of these is linked to the next.  A block
  on top of the tip keeps it, and so does `Reorganize`.  A postponed block that is not connected does
  NOT: the loop breaks without an error, and the new tip is published all the same.

  `setBestChain_tipAgrees_iff`: after a successful `SetBestChain` the tip agrees if and ONLY if every
  postponed block was connected (`PostponedConnect`).
-/
import Silkcoin.Switch

namespace Silkcoin

open Validation

namespace NodeState

variable {P : Primitives} {S : Set CTransaction} {s s' : NodeState}

/-! ## The agreement -/

/-- The published tip is the one the database is on. -/
structure TipAgrees (P : Primitives) (S : Set CTransaction) (s : NodeState) : Prop where
  /-- the record on disk names the tip -/
  stored : s.txdb.readHashBestChain = some s.hashBestChain
  tip : s.pindexBest.head?.map CBlockIndex.hashBlock = some s.hashBestChain
  height : s.nBestHeight = ((s.pindexBest.head?.map CBlockIndex.nHeight).getD 0 : Nat)
  /-- every block above genesis is connected in the transaction index, and no other -/
  connected : ∃ chain, s.pindexBest = Chain.ptr s.pindexGenesisBlock chain ∧ Built P S s chain ∧
    (Set.InjOn P.getHash S → IsLedger P chain s.txdb)
  linked : Linked s.mem s.pindexBest

/-- `SetBestChain` postpones the blocks above the first one with more trust than the tip. -/
def postponed (s : NodeState) (pindexNew : BlockPtr) : List BlockPtr :=
  (intermediate (chainTrust s.pindexBest) pindexNew).2.reverse

/-- Either the block is on top of the tip, or after the reorganisation every postponed block is read
    and connected. -/
def PostponedConnect (P : Primitives) (s : NodeState) (pindexNew : BlockPtr) (b : CBlock) : Prop :=
  b.hashPrevBlock = s.hashBestChain ∨
    ∀ s₀ s₁, s.txnBegin = .ok s₀ →
      s₀.reorganize P (intermediate (chainTrust s.pindexBest) pindexNew).1 = .ok s₁ →
      ∃ s₂, (s.postponed pindexNew).foldlM (connectPostponed P) s₁ = .ok s₂

/-- The tip that is published agrees exactly if it is the chain's. -/
theorem OnChain.tipAgrees_publish_iff {chain : Chain} (hc : OnChain P S s chain) {pindex : CBlockIndex}
    {rest pre : BlockPtr} {hash : Uint256} (hhash : hash = pindex.hashBlock)
    (hnd : ((pindex :: rest).map CBlockIndex.hashBlock).Nodup)
    (hptr : pindex :: rest = pre ++ Chain.ptr s.pindexGenesisBlock chain) :
    TipAgrees P S (s.publish (pindex :: rest) hash) ↔ pre = [] := by
  subst hhash
  constructor
  · intro h
    have hstored : s.txdb.readHashBestChain = some pindex.hashBlock := h.stored
    rw [hc.best] at hstored
    cases pre with
    | nil => rfl
    | cons p pre =>
      rw [List.cons_append] at hptr
      obtain ⟨rfl, hrest⟩ := List.cons.inj hptr
      obtain ⟨q, hq, heq⟩ := Option.map_eq_some_iff.mp hstored
      refine absurd ?_ (List.nodup_cons.mp hnd).1
      rw [← heq, hrest, List.map_append]
      exact List.mem_append_right _ (List.mem_map_of_mem (List.mem_of_mem_head? hq))
  · rintro rfl
    have hptr : pindex :: rest = Chain.ptr s.pindexGenesisBlock chain := hptr
    have hsame : SameTree s (s.publish (pindex :: rest) pindex.hashBlock) := ⟨rfl, rfl, rfl, rfl⟩
    refine ⟨?_, rfl, rfl, ⟨chain, hptr, hc.toBuilt.silent hsame fun _ => rfl, fun hinj =>
      (hc.run.index hinj).toIndexOf.isLedger⟩, ?_⟩
    · show s.txdb.readHashBestChain = some pindex.hashBlock
      rw [hc.best, ← hptr]; rfl
    · show Linked s.mem (pindex :: rest)
      rw [hptr]
      exact hc.linked

/-! ## The branches of `SetBestChain` -/

/-- A block whose header names the tip is on top of it. -/
theorem on_tip (ht : TreeOk P S s) (hbest : InTree s s.pindexBest)
    (htip : s.pindexBest.head?.map CBlockIndex.hashBlock = some s.hashBestChain)
    {pindex prev : CBlockIndex} {rest : BlockPtr} {b : CBlock}
    (hnew : InTree s (pindex :: prev :: rest)) (hread : readFromDisk P s.globals pindex = some b)
    (hprev : b.hashPrevBlock = s.hashBestChain) : prev :: rest = s.pindexBest := by
  have ha := ht.accepted pindex prev rest b hnew hread
  obtain ⟨top, htop, heq⟩ := Option.map_eq_some_iff.mp htip
  obtain ⟨below, hbelow⟩ := List.head?_eq_some_iff.mp htop
  rw [hbelow] at hbest ⊢
  refine InTree.unique ht (ht.parent _ _ _ hnew) hbest ?_
  rw [← ha.hashPrev, hprev, heq]

/-- **The reorganisation**, where it succeeds: the database ends on the new branch, on its last block
    exactly if the postponed ones were connected. -/
theorem switchBranch_ok {t : NodeState} (ht : TreeOk P S s) {chain : Chain} (hc : OnChain P S s chain)
    (hbegin : s.txnBegin = .ok t) (hbest : s.pindexBest = Chain.ptr s.pindexGenesisBlock chain)
    (hin : InTree s s.pindexBest) {pindexNew : BlockPtr} (hne : pindexNew ≠ [])
    (hnew : InTree s pindexNew) (h : t.switchBranch P pindexNew = .ok s') :
    ∃ s₁ chain' pre, t.reorganize P (intermediate (chainTrust s.pindexBest) pindexNew).1 = .ok s₁ ∧
      TipChanges P S (s, chain) (s', chain') ∧
      pindexNew = pre ++ Chain.ptr s.pindexGenesisBlock chain' ∧
      (pre = [] ↔ ∃ s₂, (s.postponed pindexNew).foldlM (connectPostponed P) s₁ = .ok s₂) := by
  have hsame := (InTxn.begin hbegin).same
  obtain ⟨hb, hl⟩ := hc.begin hbegin
  have htbest : t.pindexBest = s.pindexBest := by rw [(txnBegin_ok hbegin).2]
  unfold switchBranch at h
  split at h
  · cases h
  · rename_i best below hbelow
    rw [htbest] at hbelow
    have htrust : chainTrust s.pindexBest = best.nChainTrust := by rw [hbelow]; rfl
    unfold postponed
    rw [htrust]
    simp only [bind_ok, onFalse_ok] at h
    obtain ⟨s₁, hreorg, h⟩ := h
    obtain ⟨pre₀, hsplit, hpath, hne₀⟩ := intermediate_eq best.nChainTrust pindexNew
    have hmid : InTree s (intermediate best.nChainTrust pindexNew).1 :=
      hnew.suffix ht ⟨pre₀, hsplit.symm⟩ (hne₀ hne)
    obtain ⟨D, N, C, -, hN, hc₁, hsame₁, -⟩ := reorganize_ok (ht.of_same hsame) hb hl
      (by rw [htbest, hsame.pindexGenesisBlock]; exact hbest) (by rw [htbest]; exact hsame.inTree.mpr hin)
      (hsame.inTree.mpr hmid) hreorg
    rw [hsame.pindexGenesisBlock] at hN
    have hchange : TipChange P S none (s, chain) (s₁, N ++ C) :=
      .reorganize hbegin hbest hin hmid hreorg hc₁ hN
    have hsame₁ := hsame.trans hsame₁
    obtain ⟨hascends, hlast⟩ := ascends_pathTo pre₀ (intermediate best.nChainTrust pindexNew).1
    rw [← hsplit, ← hpath] at hascends hlast
    have hptr : Chain.ptr s₁.pindexGenesisBlock (N ++ C) =
        (intermediate best.nChainTrust pindexNew).1 := by rw [hsame₁.pindexGenesisBlock, hN]
    have hmem : ∀ ptr ∈ (intermediate best.nChainTrust pindexNew).2.reverse, InTree s₁ ptr := by
      intro ptr hmem
      obtain ⟨hsuf, hptr⟩ := mem_intermediate (List.mem_reverse.mp hmem)
      exact hsame₁.inTree.mpr (hnew.suffix ht hsuf hptr)
    obtain ⟨chain', hchanges, hcase⟩ := connectFurther_ok (ht.of_same hsame₁) hc₁
      (hptr ▸ hascends) hmem h
    rw [hptr, hlast, hsame₁.pindexGenesisBlock] at hcase
    rcases hcase with ⟨hall, heq⟩ | ⟨hnot, pre, hpre, heq⟩
    · exact ⟨s₁, chain', [], hreorg, .head ⟨_, hchange⟩ hchanges, heq, iff_of_true rfl hall⟩
    · exact ⟨s₁, chain', pre, hreorg, .head ⟨_, hchange⟩ hchanges, heq, iff_of_false hpre hnot⟩

/-- The database of a tip that agrees is on its chain, between two transactions. -/
theorem onChain_of_agrees (hagrees : TipAgrees P S s) {chain : Chain}
    (hchain : s.pindexBest = Chain.ptr s.pindexGenesisBlock chain) (hb : Built P S s chain)
    (hclosed : s.txdb.activeBatch = none) : OnChain P S s chain := by
  refine ⟨hb, ?_, hclosed, ?_⟩
  · rw [hagrees.stored, ← hchain, hagrees.tip]
  · rw [← hchain]
    exact hagrees.linked

/-- **A successful `SetBestChain`**: changes from the tip's chain to one that the new tip is on top of,
    at the top of exactly if every postponed block was connected. -/
theorem setBestChain_ok (ht : TreeOk P S s) (hagrees : TipAgrees P S s) {chain : Chain}
    (hchain : s.pindexBest = Chain.ptr s.pindexGenesisBlock chain) (hb : Built P S s chain)
    (hbest : InTree s s.pindexBest) {pindex : CBlockIndex} {rest : BlockPtr} {b : CBlock}
    (hnew : InTree s (pindex :: rest)) (hread : readFromDisk P s.globals pindex = some b)
    (h : s.setBestChain P (pindex :: rest) b = .ok s') :
    OnChain P S s chain ∧ ∃ s₁ chain' pre, s' = s₁.publish (pindex :: rest) pindex.hashBlock ∧
      TipChanges P S (s, chain) (s₁, chain') ∧
      pindex :: rest = pre ++ Chain.ptr s.pindexGenesisBlock chain' ∧
      (pre = [] ↔ PostponedConnect P s (pindex :: rest) b) := by
  unfold setBestChain at h
  simp only [bind_ok, pure_ok] at h
  obtain ⟨s₁, hmove, rfl⟩ := h
  rw [getHash_of_read hread]
  unfold moveChain at hmove
  rw [bind_ok] at hmove
  obtain ⟨s₀, hbegin, hmove⟩ := hmove
  obtain ⟨hclosed, hs₀⟩ := txnBegin_ok hbegin
  have hc := onChain_of_agrees hagrees hchain hb hclosed
  refine ⟨hc, ?_⟩
  obtain ⟨genesis, hgenesis, -⟩ := ht.root
  rw [if_neg (fun hg => by rw [hs₀] at hg; rw [hgenesis] at hg; cases hg.1)] at hmove
  split at hmove
  · -- on top of the tip
    rename_i hprev
    rw [onFalse_ok] at hmove
    have hprev : b.hashPrevBlock = s.hashBestChain := by rw [hprev, hs₀]
    cases rest with
    | nil => cases hmove
    | cons prev rest =>
      have hon := on_tip ht hbest hagrees.tip hnew hread hprev
      rw [hchain] at hon
      rw [hon] at hmove hnew ⊢
      exact ⟨s₁, ⟨pindex, b⟩ :: chain, [], rfl, .single ⟨_, .extend hbegin hnew hread hmove⟩, rfl,
        iff_of_true rfl (Or.inl hprev)⟩
  · -- a reorganisation
    rename_i hprev
    obtain ⟨s₂, chain', pre, hreorg, hchanges, hptr, hiff⟩ := switchBranch_ok ht hc hbegin hchain hbest
      (List.cons_ne_nil _ _) hnew hmove
    refine ⟨s₁, chain', pre, rfl, hchanges, hptr, ?_⟩
    rw [hiff]
    subst hs₀
    constructor
    · intro hall
      refine Or.inr fun t₀ t₁ ht₀ ht₁ => ?_
      rw [hbegin] at ht₀
      cases ht₀
      have : t₁ = s₂ := Except.ok.inj (ht₁.symm.trans hreorg)
      subst this
      exact hall
    · rintro (hpn | hall)
      · exact absurd hpn hprev
      · exact hall _ s₂ hbegin hreorg

/-- **Tip agreement.**  A successful `SetBestChain` from a tip that agrees leaves a tip that agrees if
    and only if every postponed block was connected. -/
theorem setBestChain_tipAgrees_iff (ht : TreeOk P S s) (hagrees : TipAgrees P S s)
    (hbest : InTree s s.pindexBest) {pindex : CBlockIndex} {rest : BlockPtr} {b : CBlock}
    (hnew : InTree s (pindex :: rest)) (hread : readFromDisk P s.globals pindex = some b)
    (h : s.setBestChain P (pindex :: rest) b = .ok s') :
    TipAgrees P S s' ↔ PostponedConnect P s (pindex :: rest) b := by
  obtain ⟨chain, hchain, hb, -⟩ := hagrees.connected
  obtain ⟨hc₀, s₁, chain', pre, rfl, hchanges, hptr, hiff⟩ := setBestChain_ok ht hagrees hchain hb hbest
    hnew hread h
  obtain ⟨hc, hsame, -⟩ := hchanges.onChain ht hc₀
  rw [← hsame.pindexGenesisBlock] at hptr
  rw [hc.tipAgrees_publish_iff rfl (InTree.nodup ht hnew) hptr, hiff]

end NodeState

/-! ## A postponed block that fails -/

namespace Switching

open Sample

def coinBaseA1 : CTransaction := coinBaseTx 1398947398 [0x51, 0x41] (5000 * COIN)

def coinBaseB3 : CTransaction := coinBaseTx 1398947518 [0x53, 0x42] (2000001 * COIN)

def blockA1 : CBlock :=
  workBlock hashGenesisBlock 0x0bb0c2605f7dbc7f3f014ed6c7adcd06e3a93668c34f72b23512360149f3af1b 108248
    coinBaseA1

def hashA1 : Uint256 := 0x00000668362c677736384fb338b045a6a1d893bfd090dfdfd672f1702c4458b8

/-- A block that pays itself one coin too much. -/
def blockB3 : CBlock :=
  workBlock hashB2 0x6450bc2637a42df4859e1587b5fd6023b40e6ddf6a67adf22451a91b63d21e5f 507054 coinBaseB3

def hashB3 : Uint256 := 0x000006825b30390e1f937df66cf0f2e60421a502a315d4848a813a859b72bd66

def indexA1 : CBlockIndex := entryOn genesis 700 hashA1 blockA1

def indexB3 : CBlockIndex := entryOn indexB2 900 hashB3 blockB3

def ptrA1 : BlockPtr := [indexA1, genesis]

def ptrB3 : BlockPtr := [indexB3, indexB2, indexB1, genesis]

/-- The blocks on disk: the tip `A1`, and the branch `B1`, `B2`, `B3`. -/
def blocks : Chain :=
  [⟨indexB3, blockB3⟩, ⟨indexB2, blockB2⟩, ⟨indexB1, blockB1⟩, ⟨indexA1, blockA1⟩]

def txs : List (CTransaction × Uint256) :=
  [(coinBaseA1, blockA1.hashMerkleRoot), (coinBaseB1, blockB1.hashMerkleRoot),
    (coinBaseB2, blockB2.hashMerkleRoot), (coinBaseB3, blockB3.hashMerkleRoot)]

def primitives : Primitives := Primitives.ofTables txs
  [(blockA1.toCBlockHeader, hashA1), (blockB1.toCBlockHeader, hashB1),
    (blockB2.toCBlockHeader, hashB2), (blockB3.toCBlockHeader, hashB3)] []

def globals (pindexBest : BlockPtr) : Globals :=
  { nodeB pindexBest with files := filesOf blocks }

/-- The index with `A1` connected. -/
def connectedA1 : Connected :=
  ((CBlock.connectBlock primitives (globals [genesis]) freshMem emptyDb indexA1 [genesis] blockA1
    false).toOption).getD ⟨emptyDb, freshMem⟩

/-- The tree with both branches. -/
def tree : BlockTree where
  mapBlockIndex := (ptrB3.tails.dropLast ++ [ptrA1]).foldr (fun ptr m => m.insert
    ((ptr.head?.map CBlockIndex.hashBlock).getD 0) ptr) ∅
  hashSyncCheckpoint := hashGenesisBlock
  checkpointsMode := .STRICT

/-- The node with the tip `A1`. -/
def node : NodeState where
  fTestNet := false
  nAdjustedTime := 1398950000
  files := filesOf blocks
  tree := tree
  mem := Function.update connectedA1.mem genesis.hashBlock
    { connectedA1.mem genesis.hashBlock with pnext := some hashA1 }
  txdb := connectedA1.txdb.writeHashBestChain hashA1
  pindexGenesisBlock := [genesis]
  hashBestChain := hashA1
  pindexBest := ptrA1
  nBestHeight := 1
  nBestChainTrust := indexA1.nChainTrust
  nBestInvalidTrust := 0
  mempool := ⟨∅, ∅⟩
  wallets := []
  commits := []

def S : Set CTransaction := { tx | tx ∈ txs.map Prod.fst }

/-- The tables are sound, and what is on disk is what was put there. -/
theorem tables : Set.InjOn primitives.getHash S ∧ ChainStored node.files blocks ∧
    NodeState.TreeOk primitives S node :=
  NodeState.TreeOk.of_tables (fun ptr => (globals ptr, treeUpTo ptr)) rfl (by decide)

/-- `A1` is accepted and connected on genesis, read back and published. -/
theorem runA1 : (CBlock.connectBlock primitives (globals [genesis]) freshMem emptyDb indexA1 [genesis]
      blockA1 false).isOk = true ∧
    (CBlock.acceptChecks primitives (globals [genesis]) (treeUpTo [genesis]) blockA1).toOption =
      some [genesis] ∧
    (∀ tx ∈ blockA1.vtx, tx ∈ txs.map Prod.fst) ∧
    readFromDisk primitives node.globals indexA1 = some blockA1 ∧
    node.txdb.readHashBestChain = some node.hashBestChain ∧
    (node.mem genesis.hashBlock).pnext = some indexA1.hashBlock := by
  decide

theorem treeOk : NodeState.TreeOk primitives S node :=
  let ⟨_, _, h⟩ := tables
  h

theorem connectA1 : CBlock.connectBlock primitives (globals [genesis]) freshMem emptyDb indexA1
    [genesis] blockA1 false = .ok connectedA1 :=
  let ⟨h, _⟩ := runA1
  eq_ok_getD h _

theorem tipAgrees : NodeState.TipAgrees primitives S node := by
  obtain ⟨-, hall, -⟩ := tables
  obtain ⟨-, haccept, hknown, hread, hbest, hlinked⟩ := runA1
  have hmem : ⟨indexA1, blockA1⟩ ∈ blocks := .tail _ (.tail _ (.tail _ (.head _)))
  have hstored : ChainStored (filesOf blocks) [⟨indexA1, blockA1⟩] :=
    List.forall_mem_singleton.mpr (hall _ hmem)
  have hrun : ChainRun primitives S [genesis] [⟨indexA1, blockA1⟩] connectedA1.txdb connectedA1.mem :=
    ChainRun.connect (ChainRun.start fun _ => rfl) hknown rfl (ok_of_toOption haccept) rfl hstored
      connectA1
  have hsilent : ∀ h, node.txdb.readTxIndex h = connectedA1.txdb.readTxIndex h := by
    intro h
    show (connectedA1.txdb.writeHashBestChain hashA1).readTxIndex h = _
    simp
  have hbuilt : NodeState.Built primitives S node [⟨indexA1, blockA1⟩] :=
    ⟨ChainRun.silent hrun hsilent, List.forall_mem_singleton.mpr hread, hstored⟩
  exact ⟨hbest, rfl, rfl, ⟨_, rfl, hbuilt, fun hinj => (hbuilt.run.index hinj).toIndexOf.isLedger⟩,
    hlinked, trivial⟩

/-- The node after `SetBestChain` to the block at `ptr`. -/
def after (ptr : BlockPtr) (b : CBlock) : NodeState :=
  ((node.setBestChain primitives ptr b).toOption).getD node

theorem after_ok {ptr : BlockPtr} {b : CBlock} (h : (node.setBestChain primitives ptr b).isOk = true) :
    node.setBestChain primitives ptr b = .ok (after ptr b) := eq_ok_getD h _

/-- `SetBestChain` succeeds, publishes `B3` and leaves the database on `B2`. -/
theorem setBestChain_blockB3 : NodeState.TreeOk primitives S node ∧
    NodeState.TipAgrees primitives S node ∧ node.InTree node.pindexBest ∧ node.InTree ptrB3 ∧
    readFromDisk primitives node.globals indexB3 = some blockB3 ∧
    node.setBestChain primitives ptrB3 blockB3 = .ok (after ptrB3 blockB3) ∧
    (after ptrB3 blockB3).hashBestChain = hashB3 ∧
    (after ptrB3 blockB3).txdb.readHashBestChain = some hashB2 ∧
    ¬ NodeState.TipAgrees primitives S (after ptrB3 blockB3) := by
  have hpublished : (after ptrB3 blockB3).hashBestChain = hashB3 := by decide
  have hstored : (after ptrB3 blockB3).txdb.readHashBestChain = some hashB2 := by decide
  refine ⟨treeOk, tipAgrees, ⟨hashA1, by decide⟩, ⟨hashB3, by decide⟩,
    by decide, after_ok (by decide), hpublished, hstored, fun h => ?_⟩
  have := h.stored
  rw [hstored, hpublished] at this
  exact absurd this (by decide)

/-- The switch to `B2` postpones nothing. -/
theorem setBestChain_tipAgrees_iff_blockB2 :
    NodeState.TipAgrees primitives S (after ptrB3.tail blockB2) ↔
      NodeState.PostponedConnect primitives node ptrB3.tail blockB2 :=
  NodeState.setBestChain_tipAgrees_iff treeOk tipAgrees ⟨hashA1, by decide⟩
    ⟨hashB2, by decide⟩ (by decide) (after_ok (by decide))

end Switching
end Silkcoin
