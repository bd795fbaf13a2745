/-
  The synchronized checkpoint MOVES FORWARD along the main chain.

  Three routes lead to it.  A message names a block (`processSyncCheckpoint`); it named one that was not known, and
  now that one comes in (`acceptPendingSyncCheckpoint`): `validateSyncCheckpoint` lets nothing pass but a STRICT
  DESCENDANT of the current checkpoint, and the tip is moved to it before the checkpoint is, unless it is on the
  main chain.  The third are the blocks themselves: in STRICT mode `checkSync` takes a new block only if it is
  above the checkpoint, so a chain that leaves the checkpoint out does not grow.

  `ChainOk` is what all three need of the node.  The NEXT block of a block has to be the next one on the way to
  the tip (`LinksOn`).  This is less than `NextLinks` and survives a switch whose postponed blocks were not
  connected: then the links end below the tip that is published.

  On the TEST NETWORK `checkSync` is always passed, and the tip leaves the checkpoint (`Sidelined.checkpoint_left`).
-/
import Silkcoin.FindBlock
import Silkcoin.OrphanBlocks

namespace Silkcoin

open Validation BatchStore

/-- All of them are above the first. -/
theorem Ascends.suffix {f : BlockPtr} {l : List BlockPtr} (h : Ascends f l) : f <:+ l.getLastD f := by
  induction l generalizing f with
  | nil => exact List.suffix_refl f
  | cons next l ih =>
    obtain ⟨htail, -, hrest⟩ := h
    rw [List.getLastD_cons, ← htail]
    exact (List.tail_suffix next).trans (ih hrest)

namespace NodeState

variable {P : Primitives} {s s' : NodeState}

/-! ## Links below the tip -/

theorem exists_of_nextOn {ptr : BlockPtr} {hash next : Uint256} (h : nextOn ptr hash = some next) :
    ∃ p q rest, p :: q :: rest <:+ ptr ∧ q.hashBlock = hash ∧ p.hashBlock = next := by
  induction ptr with
  | nil => cases h
  | cons p ptr ih =>
    cases ptr with
    | nil => cases h
    | cons q rest =>
      rw [nextOn] at h
      split at h
      · rename_i heq
        exact ⟨p, q, rest, List.suffix_refl _, heq, Option.some.inj h⟩
      · obtain ⟨p', q', rest', hsuf, hq, hp⟩ := ih h
        exact ⟨p', q', rest', hsuf.trans (List.suffix_cons _ _), hq, hp⟩

theorem nextOn_of_suffix {tip rest : BlockPtr} {p q : CBlockIndex} (hnd : (tip.map CBlockIndex.hashBlock).Nodup)
    (hsuf : p :: q :: rest <:+ tip) : nextOn tip q.hashBlock = some p.hashBlock := by
  obtain ⟨pre, rfl⟩ := hsuf
  exact nextOn_append hnd

/-- A block that has a next one has the next one on the way to the tip. -/
def LinksOn (mem : Uint256 → BlockMem) (tip : BlockPtr) : Prop :=
  ∀ hash next, (mem hash).pnext = some next → nextOn tip hash = some next

theorem LinksOn.congr {mem mem' : Uint256 → BlockMem} {tip : BlockPtr} (h : LinksOn mem tip)
    (hmem : ∀ hash, (mem' hash).pnext = (mem hash).pnext) : LinksOn mem' tip := by
  intro hash next hnext
  rw [hmem] at hnext
  exact h hash next hnext

theorem LinksOn.mono {mem : Uint256 → BlockMem} {tip tip' : BlockPtr} (h : LinksOn mem tip) (hsuf : tip <:+ tip')
    (hnd : (tip'.map CBlockIndex.hashBlock).Nodup) : LinksOn mem tip' := by
  intro hash next hnext
  obtain ⟨p, q, rest, hon, rfl, rfl⟩ := exists_of_nextOn (h hash next hnext)
  exact nextOn_of_suffix hnd (hon.trans hsuf)

/-- One block of the old branch less. -/
theorem LinksOn.unlink {p : CBlockIndex} {rest : BlockPtr} (h : LinksOn s.mem (p :: rest)) :
    LinksOn (s.unlink (p :: rest)).mem rest := by
  cases rest with
  | nil => exact h
  | cons q rest =>
    intro hash next hnext
    have hnext : (Function.update s.mem q.hashBlock _ hash).pnext = some next := hnext
    by_cases heq : hash = q.hashBlock
    · rw [heq, Function.update_self] at hnext
      cases hnext
    · rw [Function.update_of_ne heq] at hnext
      have hon := h hash next hnext
      rwa [nextOn, if_neg (Ne.symm heq)] at hon

/-- One block of the new branch more. -/
theorem LinksOn.link {p : CBlockIndex} {rest : BlockPtr} (h : LinksOn s.mem rest) :
    LinksOn (s.link (p :: rest)).mem (p :: rest) := by
  cases rest with
  | nil => exact h
  | cons q rest =>
    intro hash next hnext
    have hnext : (Function.update s.mem q.hashBlock _ hash).pnext = some next := hnext
    by_cases heq : hash = q.hashBlock
    · rw [heq, Function.update_self] at hnext
      rw [heq, nextOn, if_pos rfl]
      exact hnext
    · rw [Function.update_of_ne heq] at hnext
      rw [nextOn, if_neg (Ne.symm heq)]
      exact h hash next hnext

theorem LinksOn.unlinks {pre f : BlockPtr} (h : LinksOn s.mem (pre ++ f)) :
    LinksOn ((pathTo f (pre ++ f)).foldl NodeState.unlink s).mem f := by
  induction pre generalizing s with
  | nil =>
    rw [List.nil_append, pathTo_self]
    exact h
  | cons p pre ih =>
    rw [List.cons_append] at h ⊢
    rw [pathTo_cons_append, List.foldl_cons]
    exact ih h.unlink

theorem LinksOn.links {pre f : BlockPtr} (h : LinksOn s.mem f) :
    LinksOn ((pathTo f (pre ++ f)).reverse.foldl NodeState.link s).mem (pre ++ f) := by
  induction pre with
  | nil =>
    rw [List.nil_append, pathTo_self]
    exact h
  | cons p pre ih =>
    rw [List.cons_append, pathTo_cons_append, List.reverse_cons, List.foldl_append]
    exact ih.link

/-! ## The switch -/

theorem reorganize_linksOn (h : LinksOn s.mem s.pindexBest) {new : BlockPtr}
    (hok : s.reorganize P new = .ok s') : LinksOn s'.mem new ∧ SameTree s s' := by
  unfold reorganize at hok
  simp only [bind_ok, orFail_ok] at hok
  obtain ⟨fork, hfind, hreplace⟩ := hok
  obtain ⟨⟨D, hD⟩, ⟨C, hC⟩, -⟩ := findFork_suffix hfind
  obtain ⟨t, hnext, -, hmem, hsame⟩ := replaceBranch_links hreplace
  refine ⟨?_, hsame⟩
  have ht : LinksOn t.mem s.pindexBest := h.congr hnext
  rw [← hD] at ht
  rw [hmem, ← hD, ← hC]
  exact ht.unlinks.links

theorem setBestChainInner_linksOn {p : CBlockIndex} {rest : BlockPtr} {b : CBlock} (h : LinksOn s.mem rest)
    (hok : s.setBestChainInner P (p :: rest) b = .ok s') : LinksOn s'.mem (p :: rest) ∧ SameTree s s' := by
  cases rest with
  | nil => cases hok
  | cons q rest =>
    simp only [setBestChainInner, bind_ok, onFalse_ok, pure_ok] at hok
    obtain ⟨s₁, hconnect, s₂, hcommit, rfl⟩ := hok
    obtain ⟨r, wallets, hr, rfl⟩ := connectBlock_ok hconnect
    have hs₂ := txnCommit_ok hcommit
    have hl₂ : LinksOn s₂.mem (q :: rest) := by
      refine h.congr fun hash => ?_
      rw [hs₂]
      exact connectBlock_pnext hr hash
    have hsame := setNext_ok (s := s₂) (some p.hashBlock) (q :: rest)
    refine ⟨hl₂.link, ?_⟩
    subst hs₂
    exact ⟨hsame.fTestNet, hsame.files, hsame.tree, hsame.pindexGenesisBlock⟩

/-- A postponed block that is not connected changes neither links nor tree. -/
theorem connectPostponed_false_links {ptr : BlockPtr} {nDoS : Nat} {msg : String}
    (h : s.connectPostponed P ptr = .error ⟨.reject nDoS msg, s'⟩) :
    (∀ hash, (s'.mem hash).pnext = (s.mem hash).pnext) ∧ SameTree s s' := by
  by_cases hclosed : s.txdb.activeBatch = none
  · obtain ⟨hu, hsame, -⟩ := connectPostponed_false hclosed h
    exact ⟨hu.links, hsame⟩
  · unfold connectPostponed at h
    split at h
    · cases h
      exact ⟨fun _ => rfl, SameTree.refl s⟩
    · -- with a batch open there is no second one
      have hthrow : s.txnBegin = .error ⟨.throw "assert(!activeBatch)", s⟩ :=
        if_pos (Option.isSome_iff_ne_none.mpr hclosed)
      rw [hthrow] at h
      cases h

/-- However far the postponed blocks are connected. -/
theorem connectFurther_linksOn {pre f : BlockPtr} (hnd : ((pre ++ f).map CBlockIndex.hashBlock).Nodup)
    (h : LinksOn s.mem f) (hok : connectFurther P s (pathTo f (pre ++ f)).reverse = .ok s') :
    LinksOn s'.mem (pre ++ f) ∧ SameTree s s' := by
  have hloop : ∀ (l : List BlockPtr) {f : BlockPtr} {s : NodeState}, Ascends f l → LinksOn s.mem f →
      connectFurther P s l = .ok s' → (∃ ptr, LinksOn s'.mem ptr ∧ ptr <:+ l.getLastD f) ∧ SameTree s s' := by
    intro l
    induction l with
    | nil =>
      intro f s _ hl hok
      cases hok
      exact ⟨⟨f, hl, List.suffix_refl f⟩, SameTree.refl _⟩
    | cons ptr l ih =>
      intro f s hasc hl hok
      obtain ⟨htail, hne, hasc⟩ := hasc
      have hup := hasc.suffix
      rw [List.getLastD_cons]
      unfold connectFurther at hok
      split at hok
      · rename_i s₁ hstep
        unfold connectPostponed at hstep
        split at hstep
        · cases hstep
        · rw [bind_ok] at hstep
          obtain ⟨t, hbegin, hinner⟩ := hstep
          obtain ⟨p, rest, rfl⟩ := List.exists_cons_of_ne_nil hne
          have hin := InTxn.begin hbegin
          have hrest : rest = f := htail
          obtain ⟨hl₁, hsame₁⟩ := setBestChainInner_linksOn (hrest ▸ hl.congr hin.links) hinner
          obtain ⟨hptr, hsame₂⟩ := ih hasc hl₁ hok
          exact ⟨hptr, (hin.same.trans hsame₁).trans hsame₂⟩
      · rename_i nDoS msg s₁ hstep
        cases hok
        obtain ⟨hlinks, hsame⟩ := connectPostponed_false_links hstep
        refine ⟨⟨f, hl.congr hlinks, ?_⟩, hsame⟩
        rw [← htail]
        exact (List.tail_suffix ptr).trans hup
      · cases hok
  obtain ⟨hasc, hlast⟩ := ascends_pathTo pre f
  obtain ⟨⟨ptr, hl, hsuf⟩, hsame⟩ := hloop _ hasc h hok
  rw [hlast] at hsuf
  exact ⟨hl.mono hsuf hnd, hsame⟩

/-- **`SetBestChain` succeeds**: the tip is the block it was called for, and every link is below it — whether or
    not the postponed blocks were connected. -/
theorem setBestChain_linksOn (hr : Rooted s) (hbest : InTree s s.pindexBest)
    (htip : s.pindexBest.head?.map CBlockIndex.hashBlock = some s.hashBestChain)
    (hl : LinksOn s.mem s.pindexBest) {pindex : CBlockIndex} {rest : BlockPtr} {b : CBlock}
    (hnew : InTree s (pindex :: rest)) (hprev : ∀ prev ∈ rest.head?, b.hashPrevBlock = prev.hashBlock)
    (hok : s.setBestChain P (pindex :: rest) b = .ok s') :
    SameTree s s' ∧ s'.pindexBest = pindex :: rest ∧ s'.hashBestChain = b.getHash P ∧
      LinksOn s'.mem (pindex :: rest) := by
  unfold setBestChain at hok
  simp only [bind_ok, pure_ok] at hok
  obtain ⟨s₁, hmove, rfl⟩ := hok
  suffices hlinks : LinksOn s₁.mem (pindex :: rest) ∧ SameTree s s₁ from
    ⟨⟨hlinks.2.fTestNet, hlinks.2.files, hlinks.2.tree, hlinks.2.pindexGenesisBlock⟩, rfl, rfl, hlinks.1⟩
  unfold moveChain at hmove
  rw [bind_ok] at hmove
  obtain ⟨s₀, hbegin, hmove⟩ := hmove
  have hsame₀ := (InTxn.begin hbegin).same
  obtain ⟨-, hs₀⟩ := txnBegin_ok hbegin
  have hl₀ : LinksOn s₀.mem s.pindexBest := hl.congr (InTxn.begin hbegin).links
  obtain ⟨genesis, hgenesis, -⟩ := hr.root
  rw [if_neg (fun hg => by rw [hs₀] at hg; rw [hgenesis] at hg; cases hg.1)] at hmove
  split at hmove
  · -- on top of the tip
    rename_i hon
    rw [onFalse_ok] at hmove
    have hon : b.hashPrevBlock = s.hashBestChain := by rw [hon, hs₀]
    cases rest with
    | nil => cases hmove
    | cons prev rest =>
      obtain ⟨top, htop, heq⟩ := Option.map_eq_some_iff.mp htip
      obtain ⟨below, hbelow⟩ := List.head?_eq_some_iff.mp htop
      have hparent : prev :: rest = s.pindexBest := by
        rw [hbelow] at hbest ⊢
        refine hr.unique (hr.parent _ _ _ hnew) hbest ?_
        rw [← hprev prev rfl, hon, heq]
      rw [← hparent] at hl₀
      obtain ⟨hl₁, hsame⟩ := setBestChainInner_linksOn hl₀ hmove
      exact ⟨hl₁, hsame₀.trans hsame⟩
  · -- to another branch
    have hbest₀ : s₀.pindexBest = s.pindexBest := by rw [hs₀]
    unfold switchBranch at hmove
    split at hmove
    · cases hmove
    · rename_i top below _
      simp only [bind_ok, onFalse_ok] at hmove
      obtain ⟨s₂, hreorg, hfurther⟩ := hmove
      obtain ⟨pre, hsplit, hpath, -⟩ := intermediate_eq top.nChainTrust (pindex :: rest)
      rw [hpath] at hfurther
      generalize (intermediate top.nChainTrust (pindex :: rest)).1 = mid at hsplit hreorg hfurther
      obtain ⟨hl₂, hsame₂⟩ := reorganize_linksOn (hbest₀ ▸ hl₀) hreorg
      have hnd := hr.nodup hnew
      rw [hsplit] at hfurther hnd ⊢
      obtain ⟨hl₃, hsame₃⟩ := connectFurther_linksOn hnd hl₂ hfurther
      exact ⟨hl₃, (hsame₀.trans hsame₂).trans hsame₃⟩

end NodeState

namespace Node

open NodeState

variable (P : Primitives) (H : KernelHashes) (K : CheckpointKey) (n : Node)

/-! ## The node, the checkpoint and the tip -/

/-- The block of the checkpoint. -/
def syncBlock : Option BlockPtr := n.tree.mapBlockIndex.lookup n.tree.hashSyncCheckpoint

/-- Tree, tip and links are the same. -/
structure SameChain (n n' : Node) : Prop extends SameTree n.toNodeState n'.toNodeState where
  pindexBest : n'.pindexBest = n.pindexBest
  hashBestChain : n'.hashBestChain = n.hashBestChain
  links : ∀ hash, (n'.mem hash).pnext = (n.mem hash).pnext

/-- The tip is a block of the tree, every link is on the way to it, and every block but the root is on disk, with its
    parent's hash in it. -/
structure ChainOk (n : Node) : Prop where
  rooted : Rooted n.toNodeState
  inTree : InTree n.toNodeState n.pindexBest
  tip : n.pindexBest.head?.map CBlockIndex.hashBlock = some n.hashBestChain
  links : LinksOn n.mem n.pindexBest
  stored : ∀ p q rest, InTree n.toNodeState (p :: q :: rest) →
    ∃ b, n.files.block p.nFile p.nBlockPos = some b ∧ b.hashPrevBlock = q.hashBlock

/-- Where the checkpoint is enforced. -/
def Enforced : Prop := n.fTestNet = false ∧ n.tree.checkpointsMode = .STRICT

/-- The checkpoint is a block of the tree, and where it is enforced the tip is on it. -/
structure CheckpointOk (n : Node) : Prop extends ChainOk n where
  known : n.syncBlock.isSome = true
  below : n.Enforced → ∀ ptr, n.syncBlock = some ptr → ptr <:+ n.pindexBest

/-- The checkpoint has not left its chain. -/
def Ahead (n n' : Node) : Prop := ∀ old, n.syncBlock = some old → ∃ new, n'.syncBlock = some new ∧ old <:+ new

/-- The checkpoint has moved to a strict descendant. -/
def Advances (n n' : Node) : Prop :=
  ∃ old new, n.syncBlock = some old ∧ n'.syncBlock = some new ∧ old <:+ new ∧ old ≠ new

/-- The blocks of tree and files stay; what is new in the tree is one of `S`, and is in a file. -/
structure Grows (P : Primitives) (S : Set CBlock) (n n' : Node) : Prop where
  kept : ∀ ptr, InTree n.toNodeState ptr → InTree n'.toNodeState ptr
  files : ∀ nFile nBlockPos b, n.files.block nFile nBlockPos = some b → n'.files.block nFile nBlockPos = some b
  new : ∀ p rest, InTree n'.toNodeState (p :: rest) → InTree n.toNodeState (p :: rest) ∨
    ∃ b ∈ S, b.getHash P = p.hashBlock ∧ n'.files.block p.nFile p.nBlockPos = some b

/-- What a step does to the tree and to the checkpoint. -/
structure Onward (P : Primitives) (S : Set CBlock) (n n' : Node) : Prop extends Grows P S n n' where
  ahead : Ahead n n'

variable {P H K n} {n' n'' : Node} {S : Set CBlock}

namespace SameChain

theorem refl (n : Node) : SameChain n n := ⟨SameTree.refl _, rfl, rfl, fun _ => rfl⟩

/-- Only the books have changed. -/
theorem of_books (h : n'.toNodeState = n.toNodeState) : SameChain n n' := by
  refine ⟨⟨?_, ?_, ?_, ?_⟩, ?_, ?_, fun hash => ?_⟩
  all_goals rw [h]

theorem trans (h : SameChain n n') (h' : SameChain n' n'') : SameChain n n'' :=
  ⟨h.toSameTree.trans h'.toSameTree, h'.pindexBest.trans h.pindexBest, h'.hashBestChain.trans h.hashBestChain,
    fun hash => (h'.links hash).trans (h.links hash)⟩

end SameChain

theorem ChainOk.of_same (h : ChainOk n) (hsame : SameChain n n') : ChainOk n' where
  rooted := h.rooted.of_same hsame.toSameTree
  inTree := by
    rw [hsame.pindexBest]
    exact hsame.inTree.mpr h.inTree
  tip := by
    rw [hsame.pindexBest, hsame.hashBestChain]
    exact h.tip
  links := by
    rw [hsame.pindexBest]
    exact h.links.congr hsame.links
  stored p q rest hin := by
    rw [hsame.files]
    exact h.stored p q rest (hsame.inTree.mp hin)

/-- The checkpoint is the same, and enforced only if it was. -/
structure SameCheckpoint (n n' : Node) : Prop where
  syncBlock : n'.syncBlock = n.syncBlock
  enforced : n'.Enforced → n.Enforced

namespace SameCheckpoint

theorem trans (h : SameCheckpoint n n') (h' : SameCheckpoint n' n'') : SameCheckpoint n n'' :=
  ⟨h'.syncBlock.trans h.syncBlock, fun henf => h.enforced (h'.enforced henf)⟩

theorem of_tree (h : SameTree n.toNodeState n'.toNodeState) : SameCheckpoint n n' where
  syncBlock := by
    unfold Node.syncBlock
    rw [h.tree]
  enforced henf := by
    refine ⟨?_, ?_⟩
    · rw [← h.fTestNet]
      exact henf.1
    · rw [← h.tree]
      exact henf.2

theorem ahead (h : SameCheckpoint n n') : Ahead n n' :=
  fun old hold => ⟨old, h.syncBlock.trans hold, List.suffix_refl old⟩

/-- Behind a step that leaves the checkpoint alone, the tip has to be on it. -/
theorem checkpointOk (h : SameCheckpoint n n') (hn : CheckpointOk n) (hchain : ChainOk n')
    (hbelow : n.Enforced → ∀ old, n.syncBlock = some old → old <:+ n'.pindexBest) : CheckpointOk n' where
  toChainOk := hchain
  known := by
    rw [h.syncBlock]
    exact hn.known
  below henf old hold := hbelow (h.enforced henf) old (h.syncBlock.symm.trans hold)

end SameCheckpoint

theorem SameChain.sameCheckpoint (h : SameChain n n') : SameCheckpoint n n' := .of_tree h.toSameTree

theorem CheckpointOk.of_same (h : CheckpointOk n) (hsame : SameChain n n') : CheckpointOk n' := by
  refine hsame.sameCheckpoint.checkpointOk h (h.toChainOk.of_same hsame) fun henf old hold => ?_
  rw [hsame.pindexBest]
  exact h.below henf old hold

theorem Ahead.refl (n : Node) : Ahead n n := fun old h => ⟨old, h, List.suffix_refl old⟩

theorem Ahead.trans (h : Ahead n n') (h' : Ahead n' n'') : Ahead n n'' := by
  intro old hold
  obtain ⟨mid, hmid, hsuf⟩ := h old hold
  obtain ⟨new, hnew, hsuf'⟩ := h' mid hmid
  exact ⟨new, hnew, hsuf.trans hsuf'⟩

theorem SameChain.ahead (h : SameChain n n') : Ahead n n' := h.sameCheckpoint.ahead

theorem Grows.of_index (hindex : n'.tree.mapBlockIndex = n.tree.mapBlockIndex) (hfiles : n'.files = n.files) :
    Grows P S n n' := by
  have hin : ∀ ptr, InTree n'.toNodeState ptr ↔ InTree n.toNodeState ptr := fun ptr => by
    unfold InTree
    rw [hindex]
  refine ⟨fun ptr => (hin ptr).mpr, fun nFile nBlockPos b hb => ?_, fun p rest hp => Or.inl ((hin _).mp hp)⟩
  rw [hfiles]
  exact hb

theorem Grows.of_tree (h : SameTree n.toNodeState n'.toNodeState) : Grows P S n n' :=
  .of_index (by rw [h.tree]) h.files

theorem Grows.trans (h : Grows P S n n') (h' : Grows P S n' n'') : Grows P S n n'' where
  kept ptr hptr := h'.kept ptr (h.kept ptr hptr)
  files nFile nBlockPos b hb := h'.files nFile nBlockPos b (h.files nFile nBlockPos b hb)
  new p rest hp := by
    rcases h'.new p rest hp with hp | hnew
    · rcases h.new p rest hp with hp | ⟨b, hb, hhash, hfile⟩
      · exact Or.inl hp
      · exact Or.inr ⟨b, hb, hhash, h'.files _ _ b hfile⟩
    · exact Or.inr hnew

theorem SameChain.onward (h : SameChain n n') : Onward P S n n' := ⟨.of_tree h.toSameTree, h.ahead⟩

theorem Advances.ahead (h : Advances n n') : Ahead n n' := by
  obtain ⟨old, new, hold, hnew, hsuf, -⟩ := h
  intro ptr hptr
  obtain rfl := Option.some.inj (hptr.symm.trans hold)
  exact ⟨new, hnew, hsuf⟩

/-- The block of the checkpoint, and its hash. -/
theorem CheckpointOk.exists_sync (h : CheckpointOk n) : ∃ p below, n.syncBlock = some (p :: below) ∧
    p.hashBlock = n.tree.hashSyncCheckpoint ∧ InTree n.toNodeState (p :: below) := by
  obtain ⟨ptr, hptr⟩ := Option.isSome_iff_exists.mp h.known
  have hkey := h.rooted.keyed _ _ hptr
  cases ptr with
  | nil => cases hkey
  | cons p below => exact ⟨p, below, hptr, Option.some.inj hkey, _, hptr⟩

/-- Tracing back finds the checkpoint only below a block that is on it. -/
theorem CheckpointOk.suffix_of_traceBack (h : CheckpointOk n) {p q : CBlockIndex} {below rest ptr : BlockPtr}
    {nHeight : Nat} (hsync : n.syncBlock = some (p :: below)) (hin : InTree n.toNodeState ptr)
    (htrace : traceBack nHeight ptr = q :: rest) (hhash : q.hashBlock = n.tree.hashSyncCheckpoint) :
    p :: below <:+ ptr := by
  have hsuf : q :: rest <:+ ptr := by
    rw [← htrace]
    exact List.dropWhile_suffix _
  have hq := h.rooted.lookup (h.rooted.suffix hin hsuf (List.cons_ne_nil _ _))
  rw [hhash] at hq
  have heq : p :: below = q :: rest := Option.some.inj (hsync.symm.trans hq)
  rw [heq]
  exact hsuf

/-! ## A routine on the chain state -/

theorem withTxDB_sameChain {x : Except Stopped NodeState}
    (hok : ∀ s, x = .ok s → SameChain n { n with toNodeState := s.txnAbort })
    (herror : ∀ e, x = .error e → SameChain n { n with toNodeState := e.state.txnAbort }) :
    Leaves (SameChain n) (SameChain n) (n.withTxDB x) := by
  cases x with
  | ok s => exact hok s rfl
  | error e => exact Leaves.error (herror e rfl)

/-- The record of a block. -/
theorem writeNewIndex_sameChain (pindexNew : CBlockIndex) (pprev : BlockPtr) :
    Leaves (SameChain n) (SameChain n) (n.withTxDB (writeNewIndex P n.toNodeState pindexNew pprev)) := by
  unfold writeNewIndex txnBegin txnCommit
  refine withTxDB_sameChain (fun s hs => ?_) fun e he => ?_
  · split at hs
    · cases hs
    · dsimp only [bind, Except.bind] at hs
      split at hs
      · cases hs
        exact ⟨⟨rfl, rfl, rfl, rfl⟩, rfl, rfl, fun _ => rfl⟩
      · cases hs
  · split at he
    · cases he
      exact ⟨⟨rfl, rfl, rfl, rfl⟩, rfl, rfl, fun _ => rfl⟩
    · dsimp only [bind, Except.bind] at he
      split at he
      · cases he
      · cases he
        exact ⟨⟨rfl, rfl, rfl, rfl⟩, rfl, rfl, fun _ => rfl⟩

/-- The tip moves to a block of the tree, or nothing changes. -/
theorem ChainOk.setBestChain (h : ChainOk n) {pindex : CBlockIndex} {rest : BlockPtr} {b : CBlock}
    (hnew : InTree n.toNodeState (pindex :: rest)) (hhash : b.getHash P = pindex.hashBlock)
    (hprev : ∀ prev ∈ rest.head?, b.hashPrevBlock = prev.hashBlock) :
    Leaves (fun n' => ChainOk n' ∧ SameTree n.toNodeState n'.toNodeState ∧ n'.pindexBest = pindex :: rest)
      (SameChain n) (n.withTxDB (n.toNodeState.setBestChain P (pindex :: rest) b)) := by
  generalize hx : n.toNodeState.setBestChain P (pindex :: rest) b = x
  cases x with
  | ok s =>
    obtain ⟨hsame, hbest, htip, hlinks⟩ := setBestChain_linksOn h.rooted h.inTree h.tip h.links hnew hprev hx
    have hsame' : SameTree n.toNodeState s.txnAbort :=
      ⟨hsame.fTestNet, hsame.files, hsame.tree, hsame.pindexGenesisBlock⟩
    refine ⟨⟨h.rooted.of_same hsame', ?_, ?_, ?_, fun p q l hin => ?_⟩, hsame', hbest⟩
    · show InTree s.txnAbort s.pindexBest
      rw [hbest]
      exact hsame'.inTree.mpr hnew
    · show s.pindexBest.head?.map CBlockIndex.hashBlock = some s.hashBestChain
      rw [hbest, htip, hhash]
      rfl
    · show LinksOn s.mem s.pindexBest
      rw [hbest]
      exact hlinks
    · show ∃ b, s.files.block p.nFile p.nBlockPos = some b ∧ _
      rw [hsame.files]
      exact h.stored p q l (hsame'.inTree.mp hin)
  | error e =>
    obtain ⟨why, s⟩ := e
    cases why with
    | throw what => trivial
    | reject nDoS msg =>
      obtain ⟨hu, hinformed⟩ := setBestChain_false hx
      have hsame := hinformed.same
      exact Leaves.error ⟨⟨hsame.fTestNet, hsame.files, hsame.tree, hsame.pindexGenesisBlock⟩, hu.pindexBest,
        hu.hashBestChain, hu.links⟩

/-! ## A checkpoint that is received -/

/-- What `validateSyncCheckpoint` lets pass is above the current checkpoint. -/
theorem CheckpointOk.validateSyncCheckpoint (h : CheckpointOk n) (hashCheckpoint : Uint256) :
    Leaves (fun n' => n' = n ∧ ∃ old new, n.syncBlock = some old ∧
        n.tree.mapBlockIndex.lookup hashCheckpoint = some new ∧ old <:+ new ∧ old ≠ new)
      (SameChain n) (n.validateSyncCheckpoint hashCheckpoint) := by
  obtain ⟨p, below, hsync, hhash, -⟩ := h.exists_sync
  have hlookup : n.tree.mapBlockIndex.lookup n.tree.hashSyncCheckpoint = some (p :: below) := hsync
  unfold Node.validateSyncCheckpoint
  rw [hlookup]
  dsimp only
  split
  · exact Leaves.error (SameChain.refl n)
  · exact Leaves.error (SameChain.refl n)
  · rename_i recv rest hrecv
    split
    · -- not above the checkpoint: nothing moves
      split
      · exact Leaves.error (SameChain.refl n)
      · split
        · exact Leaves.error (.of_books rfl)
        · exact Leaves.error (SameChain.refl n)
    · rename_i hheight
      split
      · exact Leaves.error (SameChain.refl n)
      · rename_i q l htrace
        split
        · exact Leaves.error (.of_books rfl)
        · rename_i hq
          refine ⟨rfl, p :: below, recv :: rest, hsync, hrecv, ?_, fun heq => ?_⟩
          · exact h.suffix_of_traceBack hsync ⟨_, hrecv⟩ htrace (not_not.mp hq)
          · rw [(List.cons.inj heq).1] at hheight
            exact hheight le_rfl

/-- A block of the main chain is on the way to the tip. -/
theorem ChainOk.suffix_of_isInMainChain (h : ChainOk n) {ptr : BlockPtr} (hin : InTree n.toNodeState ptr)
    (hmain : n.isInMainChain ptr = true) : ptr <:+ n.pindexBest := by
  unfold Node.isInMainChain at hmain
  split at hmain
  · cases hmain
  · rename_i p rest
    rcases (Bool.or_eq_true _ _).mp hmain with hnext | heq
    · obtain ⟨next, hnext⟩ := Option.isSome_iff_exists.mp hnext
      obtain ⟨above, q, post, hon, hhash, -⟩ := exists_of_nextOn (h.links _ _ hnext)
      have hsuf : q :: post <:+ n.pindexBest := (List.suffix_cons above _).trans hon
      have hqin := h.rooted.suffix h.inTree hsuf (List.cons_ne_nil _ _)
      rw [← h.rooted.unique hqin hin hhash]
      exact hsuf
    · rw [of_decide_eq_true heq]

/-- Of a block that is read back from disk, the parent is known. -/
theorem ChainOk.hashPrevBlock_of_read (h : ChainOk n) {p : CBlockIndex} {rest : BlockPtr} {b : CBlock}
    (hin : InTree n.toNodeState (p :: rest)) (hread : readFromDisk P n.toNodeState.globals p = some b) :
    ∀ prev ∈ rest.head?, b.hashPrevBlock = prev.hashBlock := by
  intro prev hprev
  obtain ⟨below, rfl⟩ := List.head?_eq_some_iff.mp hprev
  obtain ⟨b', hfile, hb'⟩ := h.stored p prev below hin
  have hfile : n.toNodeState.globals.files.block p.nFile p.nBlockPos = some b' := hfile
  unfold readFromDisk BlockFiles.readBlock at hread
  rw [hfile] at hread
  split at hread
  · cases hread
  · rename_i c hc
    split at hread
    · cases hread
    · obtain rfl := Option.some.inj hread
      split at hc
      · dsimp only at hc
        split at hc
        · cases hc
        · obtain rfl := Option.some.inj hc
          exact hb'
      · cases hc

/-- The tip is brought onto the checkpoint. -/
theorem ChainOk.bringToMainChain (h : ChainOk n) (caller : String) {hashCheckpoint : Uint256} {ptr : BlockPtr}
    (hptr : n.tree.mapBlockIndex.lookup hashCheckpoint = some ptr) :
    Leaves (fun n' => ChainOk n' ∧ SameTree n.toNodeState n'.toNodeState ∧ ptr <:+ n'.pindexBest ∧
        (n'.pindexBest = n.pindexBest ∨ n'.pindexBest = ptr))
      (SameChain n) (n.bringToMainChain P caller hashCheckpoint ptr) := by
  unfold Node.bringToMainChain
  split
  · rename_i hmain
    exact ⟨h, SameTree.refl _, h.suffix_of_isInMainChain ⟨_, hptr⟩ hmain, Or.inl rfl⟩
  · split
    · exact Leaves.error (SameChain.refl n)
    · rename_i b hread
      obtain ⟨p, hp, hread⟩ := Option.bind_eq_some_iff.mp hread
      obtain ⟨rest, rfl⟩ := List.head?_eq_some_iff.mp hp
      have hin : InTree n.toNodeState (p :: rest) := ⟨_, hptr⟩
      have hset := h.setBestChain hin (getHash_of_read hread) (h.hashPrevBlock_of_read hin hread)
      generalize n.withTxDB (n.toNodeState.setBestChain P (p :: rest) b) = x at hset
      cases x with
      | ok n' =>
        obtain ⟨hok, hsame, hbest⟩ := hset
        exact ⟨hok, hsame, by rw [hbest], Or.inr hbest⟩
      | error e =>
        obtain ⟨why, n'⟩ := e
        cases why with
        | reject nDoS msg =>
          have hsame : SameChain n n' := hset
          exact Leaves.error ⟨⟨hsame.fTestNet, hsame.files, hsame.tree, hsame.pindexGenesisBlock⟩,
            hsame.pindexBest, hsame.hashBestChain, hsame.links⟩
        | throw what => trivial

/-- The node with another checkpoint. -/
def withSync (n : Node) (hashCheckpoint : Uint256) : Node :=
  { n with tree := { n.tree with hashSyncCheckpoint := hashCheckpoint } }

theorem writeSyncCheckpoint_sameChain (hashCheckpoint : Uint256) :
    Leaves (SameChain (n.withSync hashCheckpoint)) (SameChain n) (n.writeSyncCheckpoint hashCheckpoint) := by
  unfold writeSyncCheckpoint txnBegin txnCommit
  by_cases hclosed : n.txdb.activeBatch.isSome = true
  · rw [if_pos hclosed]
    trivial
  · rw [if_neg hclosed]
    dsimp only [bind, Except.bind]
    cases n.commits.headD true with
    | true => exact ⟨⟨rfl, rfl, rfl, rfl⟩, rfl, rfl, fun _ => rfl⟩
    | false => exact Leaves.error ⟨⟨rfl, rfl, rfl, rfl⟩, rfl, rfl, fun _ => rfl⟩

/-- The checkpoint moves, and the tip is on it. -/
theorem CheckpointOk.moveSyncCheckpoint (h : CheckpointOk n) (caller : String) {hashCheckpoint : Uint256}
    {old ptr : BlockPtr} (hold : n.syncBlock = some old)
    (hptr : n.tree.mapBlockIndex.lookup hashCheckpoint = some ptr) (hsuf : old <:+ ptr) :
    Leaves (fun n' => CheckpointOk n' ∧ Grows P S n n' ∧ n'.syncBlock = some ptr)
      (fun n' => CheckpointOk n' ∧ Onward P S n n') (n.moveSyncCheckpoint P caller hashCheckpoint ptr) := by
  unfold Node.moveSyncCheckpoint
  refine Leaves.bind (A := fun n' => ChainOk n' ∧ SameTree n.toNodeState n'.toNodeState ∧
    ptr <:+ n'.pindexBest ∧ (n'.pindexBest = n.pindexBest ∨ n'.pindexBest = ptr)) ?_ ?_
  · exact (h.toChainOk.bringToMainChain caller hptr).mono (fun _ hn' => hn')
      fun n' hsame => ⟨h.of_same hsame, hsame.onward⟩
  · rintro n₁ - ⟨hok, hsame, hon, hbest⟩
    refine Leaves.orFail ?_ (fun _ => rfl) fun _ _ => rfl
    refine (writeSyncCheckpoint_sameChain hashCheckpoint).mono (fun n' hn' => ?_) fun n' hn' => ?_
    · -- both in memory and on disk
      have hsync : n'.syncBlock = some ptr := by
        rw [hn'.sameCheckpoint.syncBlock, ← hptr, ← hsame.tree]
        rfl
      have hchain : ChainOk (n₁.withSync hashCheckpoint) :=
        ⟨⟨hok.rooted.keyed, hok.rooted.parent, hok.rooted.root, hok.rooted.height⟩, hok.inTree, hok.tip, hok.links,
          hok.stored⟩
      have hgrows : Grows P S n n' := by
        refine .of_index ?_ (hn'.files.trans hsame.files)
        rw [hn'.tree, ← hsame.tree]
        rfl
      refine ⟨⟨hchain.of_same hn', by rw [hsync]; rfl, fun _ ptr' hptr' => ?_⟩, hgrows, hsync⟩
      rw [hsync] at hptr'
      obtain rfl := Option.some.inj hptr'
      rw [hn'.pindexBest]
      exact hon
    · -- the tip has moved and the checkpoint has not
      have hcheckpoint := (SameCheckpoint.of_tree hsame).trans hn'.sameCheckpoint
      refine ⟨hcheckpoint.checkpointOk h (hok.of_same hn') fun henf o ho => ?_,
        .of_tree (hsame.trans hn'.toSameTree), hcheckpoint.ahead⟩
      rw [hn'.pindexBest]
      rcases hbest with hbest | hbest
      · rw [hbest]
        exact h.below henf o ho
      · obtain rfl := Option.some.inj (ho.symm.trans hold)
        rw [hbest]
        exact hsuf

/-- **The pending checkpoint**: it moves the checkpoint to a strict descendant, or not at all. -/
theorem CheckpointOk.acceptPendingSyncCheckpoint (h : CheckpointOk n) :
    Leaves (fun n' => CheckpointOk n' ∧ Grows P S n n' ∧ Advances n n')
      (fun n' => CheckpointOk n' ∧ Onward P S n n') (n.acceptPendingSyncCheckpoint P) := by
  unfold Node.acceptPendingSyncCheckpoint
  split
  · split
    · exact Leaves.error ⟨h, (SameChain.refl n).onward⟩
    · rename_i ptr hptr
      have hvalid := h.validateSyncCheckpoint n.hashPendingCheckpoint
      split
      · rename_i e he
        rw [he] at hvalid
        obtain ⟨why, n'⟩ := e
        cases why with
        | reject nDoS msg =>
          have hsame : SameChain n n' := hvalid
          have hclear : SameChain n n'.clearPending := hsame.trans (.of_books rfl)
          exact Leaves.error ⟨h.of_same hclear, hclear.onward⟩
        | throw what => trivial
      · rename_i n' hn'
        rw [hn'] at hvalid
        obtain ⟨rfl, old, new, hold, hnew, hsuf, hne⟩ := hvalid
        obtain rfl := Option.some.inj (hptr.symm.trans hnew)
        refine Leaves.bind (h.moveSyncCheckpoint _ hold hptr hsuf) ?_
        rintro n'' - ⟨hok, hgrows, hsync⟩
        exact ⟨hok.of_same (.of_books rfl), hgrows.trans (.of_index rfl rfl), old, ptr, hold, hsync, hsuf, hne⟩
  · exact Leaves.error ⟨h, (SameChain.refl n).onward⟩

/-- **A checkpoint message**, likewise. -/
theorem CheckpointOk.processSyncCheckpoint (h : CheckpointOk n) (msg : CSyncCheckpoint) :
    Leaves (fun n' => CheckpointOk n' ∧ Grows P S n n' ∧ Advances n n')
      (fun n' => CheckpointOk n' ∧ Onward P S n n') (n.processSyncCheckpoint P K msg) := by
  unfold Node.processSyncCheckpoint
  refine Leaves.bind (A := fun _ => True) ?_ ?_
  · generalize msg.checkSignature K = x
    cases x with
    | ok msg => trivial
    | error why => exact Leaves.error ⟨h, (SameChain.refl n).onward⟩
  · rintro msg - -
    split
    · have hsame : SameChain n { n with
          hashPendingCheckpoint := msg.hashCheckpoint
          checkpointMessagePending := msg } := .of_books rfl
      exact Leaves.error ⟨h.of_same hsame, hsame.onward⟩
    · rename_i ptr hptr
      have hvalid := (h.validateSyncCheckpoint msg.hashCheckpoint).mono (fun _ hn => hn)
        fun n' hsame => (⟨h.of_same hsame, hsame.onward⟩ : CheckpointOk n' ∧ Onward P S n n')
      refine Leaves.bind (hvalid.orFail (fun _ => rfl) fun _ _ => rfl) ?_
      rintro n' - ⟨rfl, old, new, hold, hnew, hsuf, hne⟩
      obtain rfl := Option.some.inj (hptr.symm.trans hnew)
      refine Leaves.bind (h.moveSyncCheckpoint _ hold hptr hsuf) ?_
      rintro n'' - ⟨hok, hgrows, hsync⟩
      exact ⟨hok.of_same (.of_books rfl), hgrows.trans (.of_index rfl rfl), old, ptr, hold, hsync, hsuf, hne⟩

/-! ## A block that is accepted -/

/-- In STRICT mode no block is accepted that is not above the checkpoint. -/
theorem CheckpointOk.suffix_of_acceptChecks (h : CheckpointOk n) (henf : n.Enforced) {b : CBlock}
    {old ptr : BlockPtr} (hold : n.syncBlock = some old) (hchecks : b.acceptChecks P n.globals n.tree = .ok ptr) :
    old <:+ ptr := by
  obtain ⟨p, below, hsync, hhash, -⟩ := h.exists_sync
  obtain rfl := Option.some.inj (hsync.symm.trans hold)
  have hlookup : n.tree.mapBlockIndex.lookup n.tree.hashSyncCheckpoint = some (p :: below) := hsync
  obtain ⟨hnew, pindexPrev, rest, rfl, hprev, hplace⟩ := CBlock.acceptChecks_ok hchecks
  unfold CBlock.checkPlace at hplace
  simp only [bind_ok, require_ok, exists_const] at hplace
  obtain ⟨-, -, -, -, -, -, cpSatisfies, hsat, hstrict, -⟩ := hplace
  have hyes : cpSatisfies = true := by
    by_contra hno
    have hno := Bool.eq_false_of_not_eq_true hno
    exact (of_decide_eq_true hstrict) ⟨henf.2, hno⟩
  subst hyes
  have htest : n.globals.fTestNet = false := henf.1
  unfold checkSync at hsat
  rw [htest, if_neg Bool.false_ne_true, hlookup] at hsat
  dsimp only at hsat
  split at hsat
  · -- above the height of the checkpoint
    split at hsat
    · cases hsat
    · rename_i q l htrace
      have hq := not_or.mp (of_decide_eq_true (Except.ok.inj hsat))
      exact h.suffix_of_traceBack hsync ⟨_, hprev⟩ htrace (not_not.mp hq.2)
  · -- no higher, and then it would be known already
    exfalso
    have hnone := Option.isNone_iff_eq_none.mp hnew
    split at hsat
    · have heq := of_decide_eq_true (Except.ok.inj hsat)
      rw [heq, hlookup] at hnone
      cases hnone
    · have hsome := Except.ok.inj hsat
      rw [hnone] at hsome
      cases hsome

/-- The entry of a new block. -/
theorem newBlockIndex_ok {fTestNet : Bool} {mapBlockIndex : StdMap Uint256 BlockPtr}
    {mapProofOfStake : StdMap Uint256 Uint256} {nFile nBlockPos : UInt32} {b : CBlock} {ptr : BlockPtr}
    (h : newBlockIndex P H fTestNet mapBlockIndex mapProofOfStake nFile nBlockPos b = .ok ptr) :
    ∃ pindexNew, ptr = pindexNew :: (mapBlockIndex.lookup b.hashPrevBlock).getD [] ∧
      pindexNew.hashBlock = b.getHash P ∧ pindexNew.nFile = nFile ∧ pindexNew.nBlockPos = nBlockPos ∧
      pindexNew.nHeight =
        (((((mapBlockIndex.lookup b.hashPrevBlock).getD []).head?.map CBlockIndex.nHeight).map Nat.succ).getD 0) := by
  unfold newBlockIndex at h
  dsimp only at h
  split at h
  · cases h
  · rename_i pindexNew hbit
    have hentry : ∃ nFlags, pindexNew = { CBlockIndex.ofBlock nFile nBlockPos b with
        hashBlock := b.getHash P
        nHeight :=
          ((((mapBlockIndex.lookup b.hashPrevBlock).getD []).head?.map CBlockIndex.nHeight).map Nat.succ).getD 0
        nChainTrust := NodeState.chainTrust ((mapBlockIndex.lookup b.hashPrevBlock).getD []) +
          getBlockTrust b.nBits
        nFlags := nFlags } := by
      unfold CBlockIndex.setStakeEntropyBit at hbit
      split at hbit
      · cases hbit
      · exact ⟨_, (Option.some.inj hbit).symm⟩
    obtain ⟨nFlags, rfl⟩ := hentry
    split at h
    · split at h
      · cases h
      · simp only [bind_ok, pure_ok] at h
        obtain ⟨hashProofOfStake, -, ⟨nStakeModifier, fGenerated⟩, -, nChecksum, -, u, -, rfl⟩ := h
        exact ⟨_, rfl, rfl, rfl, rfl, rfl⟩
    · simp only [bind_ok, pure_ok] at h
      obtain ⟨hashProofOfStake, -, ⟨nStakeModifier, fGenerated⟩, -, nChecksum, -, u, -, rfl⟩ := h
      exact ⟨_, rfl, rfl, rfl, rfl, rfl⟩

/-- `AcceptBlock` up to the checkpoint that is pending. -/
def addBlock (P : Primitives) (H : KernelHashes) (n : Node) (b : CBlock) : Except Halted Node := do
  let _ ← n.test (b.acceptChecks P n.globals n.tree)
  let (n, nFile, nBlockPos) ← n.writeToDisk b
  orFalse (n.addToBlockIndex P H nFile nBlockPos b) "AcceptBlock() : AddToBlockIndex failed"

theorem acceptBlock_eq (b : CBlock) : n.acceptBlock P H b =
    n.addBlock P H b >>= fun n => ignoring (n.acceptPendingSyncCheckpoint P) := by
  unfold acceptBlock addBlock
  cases n.test (b.acceptChecks P n.globals n.tree) with
  | error e => rfl
  | ok ptr =>
    cases n.writeToDisk b with
    | error e => rfl
    | ok r => rfl

/-- The block is on disk, where nothing was. -/
theorem writeToDisk_ok {b : CBlock} {n₁ : Node} {nFile nBlockPos : UInt32}
    (h : n.writeToDisk b = .ok (n₁, nFile, nBlockPos)) : n.files.block nFile nBlockPos = none ∧
      n₁ = { n with appends := n.appends.tail, files := n.files.append nFile nBlockPos b } := by
  unfold writeToDisk at h
  dsimp only at h
  split at h
  · cases h
  · split at h
    · rename_i hends
      cases h
      unfold BlockFiles.endsAt at hends
      simp only [Bool.and_eq_true, Option.isNone_iff_eq_none] at hends
      exact ⟨hends.1.1.2, rfl⟩
    · cases h

theorem writeToDisk_error {b : CBlock} {e : Halted} (h : n.writeToDisk b = .error e) : SameChain n e.node := by
  unfold writeToDisk at h
  dsimp only at h
  split at h
  · cases h
    exact .of_books rfl
  · split at h
    · cases h
    · cases h
      exact .of_books rfl

/-- A block that is written leaves what is on disk. -/
theorem append_block_of_some {files : BlockFiles} {nFile nBlockPos f pos : UInt32} {b b' : CBlock}
    (hnone : files.block nFile nBlockPos = none) (h : files.block f pos = some b') :
    (files.append nFile nBlockPos b).block f pos = some b' := by
  show (if f = nFile ∧ pos = nBlockPos then some b else files.block f pos) = some b'
  rw [if_neg, h]
  rintro ⟨rfl, rfl⟩
  rw [hnone] at h
  cases h

/-- An entry for a block that was written. -/
theorem ChainOk.insert (h : ChainOk n) {pindexNew prev : CBlockIndex} {rest : BlockPtr} {b : CBlock} {n₁ : Node}
    (hwrite : n.writeToDisk b = .ok (n₁, pindexNew.nFile, pindexNew.nBlockPos))
    (hfresh : n.tree.mapBlockIndex.lookup pindexNew.hashBlock = none)
    (hprev : InTree n.toNodeState (prev :: rest)) (hhash : b.hashPrevBlock = prev.hashBlock)
    (hheight : pindexNew.nHeight = prev.nHeight + 1) : ChainOk (n₁.insertBlockIndex pindexNew (prev :: rest)) := by
  obtain ⟨hnone, rfl⟩ := writeToDisk_ok hwrite
  have hin : ∀ {ptr : BlockPtr}, InTree (n.toNodeState.insertEntry pindexNew (prev :: rest)) ptr ↔
      ptr = pindexNew :: prev :: rest ∨ InTree n.toNodeState ptr := inTree_insertEntry hfresh
  have hr := h.rooted.insert hfresh hprev hheight
  refine ⟨⟨hr.keyed, hr.parent, hr.root, hr.height⟩, hin.mpr (Or.inr h.inTree), h.tip, ?_, ?_⟩
  · intro hash next hnext
    have hnext : (Function.update n.mem pindexNew.hashBlock BlockMem.new hash).pnext = some next := hnext
    by_cases heq : hash = pindexNew.hashBlock
    · rw [heq, Function.update_self] at hnext
      cases hnext
    · rw [Function.update_of_ne heq] at hnext
      exact h.links hash next hnext
  · intro p q l hp
    show ∃ b', (n.files.append pindexNew.nFile pindexNew.nBlockPos b).block p.nFile p.nBlockPos = some b' ∧ _
    rcases hin.mp hp with heq | hp
    · cases heq
      exact ⟨b, if_pos ⟨rfl, rfl⟩, hhash⟩
    · obtain ⟨b', hfile, hb'⟩ := h.stored p q l hp
      exact ⟨b', append_block_of_some hnone hfile, hb'⟩

/-- The new entry is not that of the checkpoint. -/
theorem CheckpointOk.insert (h : CheckpointOk n) {pindexNew prev : CBlockIndex} {rest : BlockPtr} {b : CBlock}
    {n₁ : Node} (hwrite : n.writeToDisk b = .ok (n₁, pindexNew.nFile, pindexNew.nBlockPos))
    (hfresh : n.tree.mapBlockIndex.lookup pindexNew.hashBlock = none)
    (hprev : InTree n.toNodeState (prev :: rest)) (hhash : b.hashPrevBlock = prev.hashBlock)
    (hheight : pindexNew.nHeight = prev.nHeight + 1) (hnew : b.getHash P = pindexNew.hashBlock) :
    CheckpointOk (n₁.insertBlockIndex pindexNew (prev :: rest)) ∧
      SameCheckpoint n (n₁.insertBlockIndex pindexNew (prev :: rest)) ∧
      Grows P {b} n (n₁.insertBlockIndex pindexNew (prev :: rest)) := by
  have hchain := h.toChainOk.insert hwrite hfresh hprev hhash hheight
  obtain ⟨hnone, rfl⟩ := writeToDisk_ok hwrite
  have hsame : SameCheckpoint n (insertBlockIndex { n with
      appends := n.appends.tail
      files := n.files.append pindexNew.nFile pindexNew.nBlockPos b } pindexNew (prev :: rest)) := by
    refine ⟨?_, id⟩
    obtain ⟨p, below, hsync, -⟩ := h.exists_sync
    have hlookup : n.tree.mapBlockIndex.lookup n.tree.hashSyncCheckpoint = some (p :: below) := hsync
    show (n.tree.mapBlockIndex.insert pindexNew.hashBlock (pindexNew :: prev :: rest)).lookup
      n.tree.hashSyncCheckpoint = _
    rw [lookup_insert_eq_ite, if_neg]
    · rfl
    · intro heq
      rw [heq, hlookup] at hfresh
      cases hfresh
  have hin : ∀ {ptr : BlockPtr}, InTree (n.toNodeState.insertEntry pindexNew (prev :: rest)) ptr ↔
      ptr = pindexNew :: prev :: rest ∨ InTree n.toNodeState ptr := inTree_insertEntry hfresh
  refine ⟨hsame.checkpointOk h hchain h.below, hsame, fun ptr hptr => hin.mpr (Or.inr hptr),
    fun _ _ _ hfile => append_block_of_some hnone hfile, fun p l hp => ?_⟩
  rcases hin.mp hp with heq | hp
  · cases heq
    exact Or.inr ⟨b, rfl, hnew, if_pos ⟨rfl, rfl⟩⟩
  · exact Or.inl hp

/-- The new block, which is above the checkpoint where that is enforced. -/
theorem CheckpointOk.addToBlockIndex (h : CheckpointOk n) {b : CBlock} {prev : CBlockIndex} {rest : BlockPtr}
    {n₁ : Node} {nFile nBlockPos : UInt32} (hwrite : n.writeToDisk b = .ok (n₁, nFile, nBlockPos))
    (hprev : n.tree.mapBlockIndex.lookup b.hashPrevBlock = some (prev :: rest))
    (habove : n.Enforced → ∀ old, n.syncBlock = some old → old <:+ prev :: rest) :
    Leaves (fun n' => CheckpointOk n' ∧ Onward P {b} n n') (fun n' => CheckpointOk n' ∧ Onward P {b} n n')
      (n₁.addToBlockIndex P H nFile nBlockPos b) := by
  have hhash : b.hashPrevBlock = prev.hashBlock := (Option.some.inj (h.rooted.keyed _ _ hprev)).symm
  obtain ⟨hnone, hn₁⟩ := writeToDisk_ok hwrite
  -- the block is in its file, whatever follows
  have hwritten : CheckpointOk n₁ ∧ Onward P {b} n n₁ := by
    subst hn₁
    refine ⟨⟨⟨⟨h.rooted.keyed, h.rooted.parent, h.rooted.root, h.rooted.height⟩, h.inTree, h.tip, h.links, ?_⟩,
      h.known, h.below⟩, ⟨fun _ hptr => hptr, fun _ _ _ hfile => append_block_of_some hnone hfile,
      fun _ _ hp => Or.inl hp⟩, Ahead.refl n⟩
    intro p q l hp
    obtain ⟨b', hfile, hb'⟩ := h.stored p q l hp
    exact ⟨b', append_block_of_some hnone hfile, hb'⟩
  have htree : n₁.tree = n.tree := by rw [hn₁]
  unfold Node.addToBlockIndex
  refine Leaves.bind (A := fun _ => True) ?_ ?_
  · cases hlookup : n₁.tree.mapBlockIndex.lookup (b.getHash P) with
    | none => trivial
    | some ptr => exact Leaves.error hwritten
  rintro u hfresh -
  have hfresh := orFail_ok.mp hfresh
  rw [require_ok, Option.isNone_iff_eq_none] at hfresh
  refine Leaves.bind (A := fun _ => True) ?_ ?_
  · generalize newBlockIndex P H n₁.fTestNet n₁.tree.mapBlockIndex n₁.mapProofOfStake nFile nBlockPos b = x
    cases x with
    | ok ptr => trivial
    | error why => exact Leaves.error hwritten
  rintro entry hentry -
  obtain ⟨pindexNew, rfl, hnew, rfl, rfl, hheight⟩ := newBlockIndex_ok (orFail_ok.mp hentry)
  rw [htree] at hfresh hheight ⊢
  rw [hprev, Option.getD_some] at hheight ⊢
  dsimp only
  rw [← hnew] at hfresh
  obtain ⟨hinserted, hsame, hgrows⟩ := h.insert hwrite hfresh ⟨_, hprev⟩ hhash hheight hnew.symm
  have hin : InTree (n₁.insertBlockIndex pindexNew (prev :: rest)).toNodeState (pindexNew :: prev :: rest) :=
    (inTree_insertEntry (htree.symm ▸ hfresh)).mpr (Or.inl rfl)
  generalize n₁.insertBlockIndex pindexNew (prev :: rest) = n₂ at hinserted hsame hgrows hin
  refine Leaves.bind ((writeNewIndex_sameChain pindexNew (prev :: rest)).mono (fun _ hn => hn) fun n' hn' =>
    ⟨hinserted.of_same hn', hgrows.trans (.of_tree hn'.toSameTree), (hsame.trans hn'.sameCheckpoint).ahead⟩) ?_
  rintro n₃ - hsame₃
  have hgrows₃ := hgrows.trans (.of_tree hsame₃.toSameTree)
  have hok₃ := hinserted.of_same hsame₃
  have hsame₃' := hsame.trans hsame₃.sameCheckpoint
  split
  · -- it has more trust than the tip
    refine (hok₃.toChainOk.setBestChain (hsame₃.inTree.mpr hin) hnew.symm fun q hq => ?_).mono
      (fun n₄ hn₄ => ?_) fun n₄ hn₄ => ?_
    · cases hq
      exact hhash
    · obtain ⟨hchain, htree₄, hbest⟩ := hn₄
      have hsame₄ := hsame₃'.trans (.of_tree htree₄)
      refine ⟨hsame₄.checkpointOk h hchain fun henf old hold => ?_, hgrows₃.trans (.of_tree htree₄), hsame₄.ahead⟩
      rw [hbest]
      exact (habove henf old hold).trans (List.suffix_cons _ _)
    · exact ⟨hok₃.of_same hn₄, hgrows₃.trans (.of_tree hn₄.toSameTree), (hsame₃'.trans hn₄.sameCheckpoint).ahead⟩
  · exact ⟨hok₃, hgrows₃, hsame₃'.ahead⟩

/-- **A block that comes in** leaves the checkpoint where it is, and the tip on it. -/
theorem CheckpointOk.addBlock (h : CheckpointOk n) (b : CBlock) :
    Leaves (fun n' => CheckpointOk n' ∧ Onward P {b} n n') (fun n' => CheckpointOk n' ∧ Onward P {b} n n')
      (n.addBlock P H b) := by
  have hfail : ∀ n', SameChain n n' → CheckpointOk n' ∧ Onward P {b} n n' :=
    fun n' hsame => ⟨h.of_same hsame, hsame.onward⟩
  unfold Node.addBlock
  refine Leaves.bind (A := fun _ => True) ?_ ?_
  · generalize b.acceptChecks P n.globals n.tree = x
    cases x with
    | ok ptr => trivial
    | error why => exact Leaves.error (hfail n (SameChain.refl n))
  rintro ptr hchecks -
  have hchecks : b.acceptChecks P n.globals n.tree = .ok ptr := orFail_ok.mp hchecks
  obtain ⟨-, prev, rest, rfl, hprev, -⟩ := CBlock.acceptChecks_ok hchecks
  cases hwrite : n.writeToDisk b with
  | error e => exact Leaves.error (hfail e.node (writeToDisk_error hwrite))
  | ok r =>
    obtain ⟨n₁, nFile, nBlockPos⟩ := r
    refine Leaves.orFail ?_ (fun _ => rfl) fun _ _ => rfl
    exact h.addToBlockIndex hwrite hprev fun henf old hold => h.suffix_of_acceptChecks henf hold hchecks

/-! ## Runs -/

/-- What can happen to the checkpoint and the chain: a block is accepted, a pending checkpoint is looked at, a
    message comes in — each with success or without — and whatever leaves tree, tip and links alone. -/
inductive CheckpointStep (P : Primitives) (H : KernelHashes) (K : CheckpointKey) : Node → Node → Prop where
  | added {n n' : Node} (b : CBlock) : Returned (n.addBlock P H b) n' → CheckpointStep P H K n n'
  | pending {n n' : Node} : Returned (n.acceptPendingSyncCheckpoint P) n' → CheckpointStep P H K n n'
  | message {n n' : Node} (msg : CSyncCheckpoint) : Returned (n.processSyncCheckpoint P K msg) n' →
      CheckpointStep P H K n n'
  | other {n n' : Node} : SameChain n n' → CheckpointStep P H K n n'

abbrev CheckpointSteps (P : Primitives) (H : KernelHashes) (K : CheckpointKey) : Node → Node → Prop :=
  Relation.ReflTransGen (CheckpointStep P H K)

/-- Nothing but genesis has been vouched for. -/
structure CheckpointAtGenesis (n : Node) : Prop extends ChainOk n where
  genesis : ∃ genesis, n.pindexGenesisBlock = [genesis] ∧ n.tree.hashSyncCheckpoint = genesis.hashBlock

/-- Genesis is below every block. -/
theorem CheckpointAtGenesis.checkpointOk (h : CheckpointAtGenesis n) : CheckpointOk n := by
  obtain ⟨genesis, hgenesis, hhash⟩ := h.genesis
  obtain ⟨genesis', hgenesis', hroot⟩ := h.rooted.root
  rw [hgenesis] at hgenesis'
  obtain rfl := (List.cons.inj hgenesis').1
  obtain ⟨pre, hpre⟩ := hroot _ h.inTree
  have hsuf : [genesis] <:+ n.pindexBest := ⟨pre, hpre.symm⟩
  have hsync : n.syncBlock = some [genesis] := by
    unfold Node.syncBlock
    rw [hhash]
    exact h.rooted.lookup (h.rooted.suffix h.inTree hsuf (List.cons_ne_nil _ _))
  refine ⟨h.toChainOk, by rw [hsync]; rfl, fun _ ptr hptr => ?_⟩
  obtain rfl := Option.some.inj (hptr.symm.trans hsync)
  exact hsuf

/-- STEP LEMMA. -/
theorem CheckpointStep.checkpointOk (hstep : CheckpointStep P H K n n') (h : CheckpointOk n) :
    CheckpointOk n' ∧ Ahead n n' := by
  cases hstep with
  | added b hret =>
    obtain ⟨hok, honward⟩ := Leaves.of_returned (h.addBlock b) hret
    exact ⟨hok, honward.ahead⟩
  | pending hret =>
    have hcall := h.acceptPendingSyncCheckpoint (P := P) (S := ∅)
    have hok := hcall.mono (fun _ hn => And.intro hn.1 hn.2.2.ahead) fun _ hn => And.intro hn.1 hn.2.ahead
    exact Leaves.of_returned hok hret
  | message msg hret =>
    have hcall := h.processSyncCheckpoint (P := P) (K := K) (S := ∅) msg
    have hok := hcall.mono (fun _ hn => And.intro hn.1 hn.2.2.ahead) fun _ hn => And.intro hn.1 hn.2.ahead
    exact Leaves.of_returned hok hret
  | other hsame => exact ⟨h.of_same hsame, hsame.ahead⟩

theorem CheckpointSteps.checkpointOk (hrun : CheckpointSteps P H K n n') (h : CheckpointOk n) :
    CheckpointOk n' ∧ Ahead n n' := by
  induction hrun with
  | refl => exact ⟨h, Ahead.refl n⟩
  | tail _ hstep ih =>
    obtain ⟨hok, hahead⟩ := hstep.checkpointOk ih.1
    exact ⟨hok, ih.2.trans hahead⟩

/-! ## What `ProcessBlock` keeps -/

/-- The proof of stake of a block passes with these links; its kernel is read as the node reads it. -/
def StakeProven (P : Primitives) (H : KernelHashes) (n : Node) (mapBlockIndex : StdMap Uint256 BlockPtr)
    (mem : Uint256 → BlockMem) (b : CBlock) : Prop :=
  ∃ tx hashProofOfStake, b.vtx[1]? = some tx ∧
    checkProofOfStake P H n.globals mapBlockIndex mem n.txdb tx b.nBits = .ok hashProofOfStake

/-- If the block is proof-of-stake, its proof passes now. -/
def Vouched (P : Primitives) (H : KernelHashes) (n : Node) (b : CBlock) : Prop :=
  b.isProofOfStake = true → StakeProven P H n n.tree.mapBlockIndex n.mem b

/-- `ProcessBlock` keeps `I` if the calls it makes do.  `V` is the blocks that may be accepted, and all orphans are
    among them. -/
structure BlockRule (P : Primitives) (H : KernelHashes) (K : CheckpointKey) (V : CBlock → Prop)
    (I : Node → Prop) : Prop where
  waiting : ∀ n, I n → ∀ e ∈ n.mapOrphanBlocksByPrev, V e.2
  accept : ∀ n b, I n → V b → Leaves I I (n.acceptBlock P H b)
  message : ∀ n msg, I n → Leaves I I (n.processSyncCheckpoint P K msg)
  enter : ∀ n b, I n → V b → I (n.enterOrphan P b)
  same : ∀ n n', I n → SameChain n n' → n'.mapOrphanBlocksByPrev ⊆ n.mapOrphanBlocksByPrev → I n'

namespace BlockRule

variable {V : CBlock → Prop} {I : Node → Prop}

/-- A test that changes nothing. -/
theorem test {α : Type} {x : Check α} {f : α → Except Halted Node} (hn : I n)
    (hf : ∀ a, x = .ok a → Leaves I I (f a)) : Leaves I I (n.test x >>= f) := by
  cases x with
  | ok a => exact hf a rfl
  | error why => exact Leaves.error hn

theorem connectOrphan (hI : BlockRule P H K V I) {r : Node × List Uint256} {b : CBlock} (hr : I r.1) (hb : V b) :
    Leaves (fun r' => I r'.1) I (connectOrphan P H r b) := by
  have haccept := hI.accept r.1 b hr hb
  have hforget : ∀ m : Node, I m → I (m.forgetOrphan P b) :=
    fun m hm => hI.same m _ hm (.of_books rfl) (List.Subset.refl _)
  unfold Node.connectOrphan
  split
  · rename_i n' hn'
    rw [hn'] at haccept
    exact hforget n' haccept
  · rename_i nDoS msg n' hn'
    rw [hn'] at haccept
    exact hforget n' haccept
  · trivial

theorem connectOrphans (hI : BlockRule P H K V I) (fuel : Nat) (vWorkQueue : List Uint256) (hn : I n) :
    Leaves I I (connectOrphans P H fuel n vWorkQueue) := by
  induction fuel generalizing n vWorkQueue with
  | zero =>
    cases vWorkQueue with
    | nil => exact hn
    | cons hashPrev vWorkQueue => trivial
  | succ fuel ih =>
    cases vWorkQueue with
    | nil => exact hn
    | cons hashPrev vWorkQueue =>
      unfold Node.connectOrphans
      have hwaiting : ∀ b ∈ n.orphansOf hashPrev, V b := by
        intro b hb
        obtain ⟨e, he, rfl⟩ := List.mem_map.mp hb
        exact hI.waiting n hn e (List.mem_filter.mp he).1
      generalize n.orphansOf hashPrev = orphans at hwaiting
      have hturns : ∀ (l : List CBlock) (r : Node × List Uint256), (∀ b ∈ l, V b) → I r.1 →
          Leaves (fun r' => I r'.1) I (l.foldlM (Node.connectOrphan P H) r) := by
        intro l
        induction l with
        | nil => exact fun r _ hr => hr
        | cons b l ihl =>
          intro r hl hr
          rw [List.foldlM_cons]
          rw [List.forall_mem_cons] at hl
          exact (hI.connectOrphan hr hl.1).bind fun r' _ hr' => ihl r' hl.2 hr'
      refine (hturns orphans (n, vWorkQueue) hwaiting hn).bind fun r _ hr => ih r.2 ?_
      exact hI.same r.1 _ hr (.of_books rfl) fun e he => (List.mem_filter.mp he).1

theorem sendNewCheckpoint (hI : BlockRule P H K V I) (fFrom : Bool) (hn : I n) :
    Leaves I I (n.sendNewCheckpoint P K fFrom) := by
  unfold Node.sendNewCheckpoint
  split
  · unfold autoSelectSyncCheckpoint
    split
    · trivial
    · refine Leaves.ignoring ?_
      unfold sendSyncCheckpoint
      dsimp only
      split
      · exact Leaves.error hn
      · split
        · exact Leaves.error hn
        · exact hI.message n _ hn
  · exact hn

/-- The proof of stake passes, and its hash is kept. -/
theorem proveStake (hI : BlockRule P H K V I) (b : CBlock) (hn : I n) :
    Leaves (fun n' => I n' ∧ SameChain n n' ∧ n.Vouched P H b) I (n.proveStake P H b) := by
  unfold Node.proveStake
  split
  · split
    · trivial
    · rename_i tx htx
      cases hcheck : checkProofOfStake P H n.globals n.tree.mapBlockIndex n.mem n.txdb tx b.nBits with
      | error why => exact Leaves.error hn
      | ok hash =>
        have hproven : n.Vouched P H b := fun _ => ⟨tx, hash, htx, hcheck⟩
        simp only [orFail, Node.test, bind, Except.bind]
        split
        · exact ⟨hI.same n _ hn (.of_books rfl) (List.Subset.refl _), .of_books rfl, hproven⟩
        · exact ⟨hn, SameChain.refl n, hproven⟩
  · rename_i hwork
    exact ⟨hn, SameChain.refl n, fun hpos => absurd hpos hwork⟩

/-- **The rule for a block that comes in**, with all the orphans that get their turn. -/
theorem processBlock (hI : BlockRule P H K V I) (fFrom : Bool) {b : CBlock} (hb : n.Vouched P H b → V b)
    (hn : I n) : Leaves I I (n.processBlock P H K fFrom b) := by
  unfold Node.processBlock
  refine test hn fun _ _ => ?_
  refine (hI.proveStake b hn).bind fun n₁ _ hn₁ => ?_
  obtain ⟨hn₁, -, hvouched⟩ := hn₁
  refine test hn₁ fun _ _ => ?_
  split
  · unfold addOrphan
    exact test hn₁ fun duplicate _ => test hn₁ fun _ _ => hI.enter n₁ b hn₁ (hb hvouched)
  · unfold connectWithOrphans
    refine Leaves.bind (A := I) ?_ fun n₂ _ hn₂ => hI.sendNewCheckpoint fFrom hn₂
    have haccept : Leaves I I (orFalse (n₁.acceptBlock P H b) "ProcessBlock() : AcceptBlock FAILED") :=
      Leaves.orFail (hI.accept n₁ b hn₁ (hb hvouched)) (fun _ => rfl) fun _ _ => rfl
    exact haccept.bind fun n₂ _ hn₂ => hI.connectOrphans _ _ hn₂

end BlockRule

theorem acceptBlock_steps {n₀ : Node} (b : CBlock) (hn : CheckpointSteps P H K n₀ n) :
    Leaves (CheckpointSteps P H K n₀) (CheckpointSteps P H K n₀) (n.acceptBlock P H b) := by
  have hcall : ∀ {m : Node} {x : Except Halted Node}, CheckpointSteps P H K n₀ m →
      (∀ n', Returned x n' → CheckpointStep P H K m n') →
      Leaves (CheckpointSteps P H K n₀) (CheckpointSteps P H K n₀) x := fun hm hx =>
    Leaves.returned fun n' hret => hm.tail (hx n' hret)
  rw [acceptBlock_eq]
  refine (hcall hn fun n' hret => .added b hret).bind fun n' _ hn' => ?_
  exact Leaves.ignoring (hcall hn' fun n'' hret => .pending hret)

/-- **A block that comes in** does nothing else to the chain than the steps of a run. -/
theorem processBlock_runs (fFrom : Bool) (b : CBlock) : Leaves (CheckpointSteps P H K n) (CheckpointSteps P H K n)
    (n.processBlock P H K fFrom b) := by
  have hrule : BlockRule P H K (fun _ => True) (CheckpointSteps P H K n) :=
    { waiting := fun _ _ _ _ => trivial
      accept := fun _ b hn _ => acceptBlock_steps b hn
      message := fun _ msg hn => Leaves.returned fun _ hret => hn.tail (.message msg hret)
      enter := fun _ _ hn _ => hn.tail (.other (.of_books rfl))
      same := fun _ _ hn hsame _ => hn.tail (.other hsame) }
  exact hrule.processBlock fFrom (fun _ => trivial) Relation.ReflTransGen.refl

/-! ## The checkpoint -/

/-- **SYNCHRONIZED CHECKPOINTS ONLY MOVE FORWARD**, in every run from one at genesis.  Every call that succeeds
    moves the checkpoint to a strict descendant and no step takes it back; and in STRICT mode, outside the test
    network, the tip is always on it. -/
theorem syncCheckpoint_forward {start : Node} (hstart : CheckpointAtGenesis start)
    (hrun : CheckpointSteps P H K start n) :
    (∀ msg n', n.processSyncCheckpoint P K msg = .ok n' → Advances n n') ∧
      (∀ n', n.acceptPendingSyncCheckpoint P = .ok n' → Advances n n') ∧
      (∀ n', CheckpointSteps P H K n n' → Ahead n n') ∧
      (∀ fFrom b n', Returned (n.processBlock P H K fFrom b) n' → CheckpointSteps P H K start n') ∧
      (n.Enforced → ∃ ptr, n.syncBlock = some ptr ∧ ptr <:+ n.pindexBest) := by
  obtain ⟨hok, -⟩ := hrun.checkpointOk hstart.checkpointOk
  refine ⟨fun msg n' hn' => ?_, fun n' hn' => ?_, fun n' hn' => (hn'.checkpointOk hok).2,
    fun fFrom b n' hret => ?_, fun henf => ?_⟩
  · have hcall := hok.processSyncCheckpoint (P := P) (K := K) (S := ∅) msg
    rw [hn'] at hcall
    exact hcall.2.2
  · have hcall := hok.acceptPendingSyncCheckpoint (P := P) (S := ∅)
    rw [hn'] at hcall
    exact hcall.2.2
  · exact hrun.trans (Leaves.of_returned (processBlock_runs fFrom b) hret)
  · obtain ⟨p, below, hsync, -⟩ := hok.exists_sync
    exact ⟨_, hsync, hok.below henf _ hsync⟩

end Node

/-! ## The test network -/

namespace Sidelined

open Sample Node

/-- A block on genesis, and two of another branch. -/
def blockK1 : CBlock :=
  Ripening.testBlock hashGenesisBlock 0xa32bc83eb7428be6e86178a68dde98fb2254b7b55a0d1a0e0032d020d13dee5f 58961
    (coinBaseTx 1398947398 [0x51, 0x4b] (5000 * COIN)) []

def hashK1 : Uint256 := 0x00009b26815257d42e658730a29df8f3460be207fc383f93ed57d51649abdd6c

def blockV1 : CBlock :=
  Ripening.testBlock hashGenesisBlock 0xc40bb6503c00dd98d16b06159b20cdc3e551bd8862bd871f4433ab76bb35ccee 107410
    (coinBaseTx 1398947398 [0x51, 0x56] (5000 * COIN)) []

def hashV1 : Uint256 := 0x0000ab8d6dbd28b6319f53f37df5e3680c5cf4d14b9a7e6a6ac2ce4918d5924d

def blockV2 : CBlock :=
  Ripening.testBlock hashV1 0xd3be701d5c7750b8ef379dcc4ca3a5a560567836d2a32599c6d3da88e3d20948 31100
    (coinBaseTx 1398947458 [0x52, 0x56] (5000 * COIN)) []

def hashV2 : Uint256 := 0x0000a820148bc6f20f53c1a7713801fe6e2d7bb286065887a8143ddde3b87aaa

/-- These, and a block on genesis that the main network takes. -/
def blocks : List (CBlock × Uint256) :=
  [(blockK1, hashK1), (blockV1, hashV1), (blockV2, hashV2), (Switching.blockA1, Switching.hashA1)]

def primitives : Primitives := Primitives.ofTables
  (blocks.flatMap fun r => r.1.vtx.map fun tx => (tx, r.1.hashMerkleRoot))
  (blocks.map fun r => (r.1.toCBlockHeader, r.2)) []

def checksums : List ((UInt32 × UInt32 × Uint256 × BitVec 64) × Uint256) :=
  [((0xfd11f4e7, 0, 0, 0), 0x2dcbe35851e93e78fe5a79291fc6c2746c62fd87a1d67d0ecff2b495258382e4),
    ((0xfd11f4e7, 2, 0, 0), 0xd322d8c6740ef564b815879fdefa244c47ac92101de1b4871b11178cf5563b0a),
    ((0xd322d8c6, 0, 0, 0), 0xdcf48ed55373360256c37f5f536f5cac0ff67708121d0dcdb4d0dbd4ee5a6fff)]

def kernelHashes : KernelHashes := { Staking.kernelHashes with
  checksum := fun prev nFlags hashProofOfStake nStakeModifier =>
    (checksums.lookup (prev.getD 0, nFlags, hashProofOfStake, nStakeModifier)).getD 0 }

/-- Without a peer no checkpoint is sent. -/
theorem processBlock_own (P : Primitives) (H : KernelHashes) (K K' : CheckpointKey) (n : Node) (b : CBlock) :
    n.processBlock P H K false b = n.processBlock P H K' false b := rfl

/-- A block that the node made itself. -/
def feed (n : Node) (b : CBlock) : Node :=
  ((n.processBlock primitives kernelHashes Staking.checkpointKey false b).toOption).getD n

theorem feed_steps (K : CheckpointKey) {n : Node} {b : CBlock}
    (h : (n.processBlock primitives kernelHashes Staking.checkpointKey false b).isOk = true) :
    CheckpointSteps primitives kernelHashes K n (feed n b) := by
  refine Leaves.of_returned (processBlock_runs false b) (Or.inl ?_)
  rw [processBlock_own primitives kernelHashes K Staking.checkpointKey]
  exact eq_ok_getD h n

theorem lookup_start {fTestNet : Bool} {hash : Uint256} {ptr : BlockPtr}
    (h : { Staking.start with fTestNet := fTestNet }.tree.mapBlockIndex.lookup hash = some ptr) :
    hashGenesisBlock = hash ∧ ptr = [genesis] := by
  have h : (AList.insert hashGenesisBlock [genesis] ∅ : StdMap Uint256 BlockPtr).lookup hash = some ptr := h
  rw [lookup_insert_eq_ite] at h
  split at h
  · exact ⟨‹_›, (Option.some.inj h).symm⟩
  · cases h

theorem inTree_start {fTestNet : Bool} {ptr : BlockPtr}
    (h : NodeState.InTree { Staking.start with fTestNet := fTestNet }.toNodeState ptr) : ptr = [genesis] := by
  obtain ⟨hash, hptr⟩ := h
  exact (lookup_start hptr).2

theorem checkpointAtGenesis (fTestNet : Bool) : CheckpointAtGenesis { Staking.start with fTestNet := fTestNet } := by
  refine ⟨⟨⟨?_, ?_, ⟨genesis, rfl, ?_⟩, ?_⟩, ⟨hashGenesisBlock, rfl⟩, rfl, ?_, ?_⟩, genesis, rfl, rfl⟩
  · intro hash ptr hptr
    obtain ⟨rfl, rfl⟩ := lookup_start hptr
    rfl
  · intro p q rest hin
    cases inTree_start hin
  · intro ptr hin
    exact ⟨[], inTree_start hin⟩
  · intro p q rest hin
    cases inTree_start hin
  · intro hash next hnext
    cases hnext
  · intro p q rest hin
    cases inTree_start hin

/-- `K1` is the tip. -/
def atK1 : Node := feed Staking.start blockK1

def ptrK1 : BlockPtr := (atK1.tree.mapBlockIndex.lookup hashK1).getD []

/-- `K1` is the checkpoint. -/
def moved : Node := ((atK1.moveSyncCheckpoint primitives "ProcessSyncCheckpoint" hashK1 ptrK1).toOption).getD atK1

/-- `V2` is the tip. -/
def atV2 : Node := feed (feed moved.clearPending blockV1) blockV2

theorem processSyncCheckpoint_eq {P : Primitives} {K : CheckpointKey} {n n' : Node} {msg msg' : CSyncCheckpoint}
    {ptr : BlockPtr} (hsigned : msg.checkSignature K = .ok msg')
    (hlookup : n.tree.mapBlockIndex.lookup msg'.hashCheckpoint = some ptr)
    (hvalid : n.validateSyncCheckpoint msg'.hashCheckpoint = .ok n)
    (hmove : n.moveSyncCheckpoint P "ProcessSyncCheckpoint" msg'.hashCheckpoint ptr = .ok n') :
    n.processSyncCheckpoint P K msg = .ok (clearPending { n' with checkpointMessage := msg' }) := by
  unfold Node.processSyncCheckpoint
  simp only [hsigned, orFail, bind, Except.bind, hlookup, hvalid, hmove, pure, Except.pure]

theorem vouched {K : CheckpointKey} {vchSig : List UInt8}
    (hverify : K.verify (CSyncCheckpoint.unsignedBytes hashK1) vchSig = true) :
    CheckpointSteps primitives kernelHashes K Staking.start moved.clearPending := by
  have hK1 : CheckpointSteps primitives kernelHashes K Staking.start atK1 := feed_steps K (by decide)
  have hok := (hK1.checkpointOk (checkpointAtGenesis true).checkpointOk).1
  obtain ⟨n, hn⟩ : ∃ n, atK1.validateSyncCheckpoint hashK1 = .ok n := exists_ok (by decide)
  have hvalid := hok.validateSyncCheckpoint hashK1
  rw [hn] at hvalid
  obtain ⟨rfl, -⟩ := hvalid
  have hmove : atK1.moveSyncCheckpoint primitives "ProcessSyncCheckpoint" hashK1 ptrK1 = .ok moved :=
    eq_ok_getD (by decide) _
  have hlookup : atK1.tree.mapBlockIndex.lookup hashK1 = some ptrK1 := by decide
  have hcall : atK1.processSyncCheckpoint primitives K
      ⟨1, hashK1, CSyncCheckpoint.unsignedBytes hashK1, vchSig⟩ = .ok (clearPending { moved with
        checkpointMessage := ⟨1, hashK1, CSyncCheckpoint.unsignedBytes hashK1, vchSig⟩ }) := by
    have hsigned : CSyncCheckpoint.checkSignature K ⟨1, hashK1, CSyncCheckpoint.unsignedBytes hashK1, vchSig⟩ =
        .ok ⟨1, hashK1, CSyncCheckpoint.unsignedBytes hashK1, vchSig⟩ := by
      unfold CSyncCheckpoint.checkSignature
      rw [hverify]
      rfl
    exact processSyncCheckpoint_eq hsigned hlookup hn hmove
  exact (hK1.tail (.message _ (Or.inl hcall))).tail (.other (.of_books rfl))

/-- On the test network `V2` becomes the tip, though `K1` is the checkpoint and is enforced: whatever the master
    key is, if it has signed `K1`. -/
theorem checkpoint_left : CheckpointAtGenesis Staking.start ∧ ∀ (K : CheckpointKey) (vchSig : List UInt8),
    K.verify (CSyncCheckpoint.unsignedBytes hashK1) vchSig = true →
    ∃ n ptr, CheckpointSteps primitives kernelHashes K Staking.start n ∧ n.tree.checkpointsMode = .STRICT ∧
      n.tree.hashSyncCheckpoint = hashK1 ∧ n.hashBestChain = hashV2 ∧ n.syncBlock = some ptr ∧
      ¬ ptr <:+ n.pindexBest := by
  refine ⟨checkpointAtGenesis true, fun K vchSig hverify => ?_⟩
  have hV1 := (vouched hverify).trans (feed_steps K (b := blockV1) (by decide))
  have hV2 : CheckpointSteps primitives kernelHashes K Staking.start atV2 := hV1.trans (feed_steps K (by decide))
  have hleft : (atV2.syncBlock.map fun ptr => decide (ptr <:+ atV2.pindexBest)) = some false := by decide
  obtain ⟨ptr, hptr, hnot⟩ := Option.map_eq_some_iff.mp hleft
  exact ⟨atV2, ptr, hV2, by decide, by decide, by decide, hptr, of_decide_eq_false hnot⟩

/-- On the main network, with a block on genesis. -/
theorem syncCheckpoint_forward_A1 : ∃ n ptr, n.hashBestChain = Switching.hashA1 ∧ n.Enforced ∧
    n.syncBlock = some ptr ∧ ptr <:+ n.pindexBest ∧
    ∀ msg n', n.processSyncCheckpoint primitives Staking.checkpointKey msg = .ok n' → Advances n n' := by
  have hrun : CheckpointSteps primitives kernelHashes Staking.checkpointKey { Staking.start with fTestNet := false }
      (feed { Staking.start with fTestNet := false } Switching.blockA1) := feed_steps _ (by decide)
  obtain ⟨hmessage, -, -, -, hon⟩ := syncCheckpoint_forward (checkpointAtGenesis false) hrun
  have henf : Enforced (feed { Staking.start with fTestNet := false } Switching.blockA1) := ⟨by decide, by decide⟩
  obtain ⟨ptr, hptr, hsuf⟩ := hon henf
  exact ⟨_, ptr, by decide, henf, hptr, hsuf, hmessage⟩

end Sidelined
end Silkcoin
