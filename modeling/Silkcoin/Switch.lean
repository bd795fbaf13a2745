/-
  Switching the best chain, routine by routine: what each leaves in the database and in the links.

  `TreeOk` is what the node knows of its block tree: a pointer is found under the hash of its entry,
  its predecessors are in the tree, all of them come down to genesis, and a block read from disk is
  one that `AcceptBlock` once accepted in its place.

  `Built` says that the transaction index is the result of connecting a given chain of blocks,
  `OnChain` that the database is closed on that chain: its best-chain record names the last block and
  every block is linked to the next.  One connected block keeps `Built` (`Built.connect`), one
  disconnected block does (`Built.disconnect`), and the two loops of `Reorganize` and the loop over
  the postponed blocks are inductions with these two steps.

  A routine that FAILS inside its database transaction leaves nothing there (`InTxn`, `Untouched`).
-/
import Silkcoin.Node
import Silkcoin.Chain
import Mathlib.Logic.Relation

namespace Silkcoin

open Validation BatchStore SpendLedger

/-! ## Pointers into the tree -/

/-- Every block's predecessor is linked to it. -/
def Linked (mem : Uint256 → BlockMem) : BlockPtr → Prop
  | pindex :: prev :: rest =>
    (mem prev.hashBlock).pnext = some pindex.hashBlock ∧ Linked mem (prev :: rest)
  | _ => True

theorem Linked.congr {mem m : Uint256 → BlockMem} {ptr : BlockPtr} (h : Linked mem ptr)
    (heq : ∀ q ∈ ptr.tail, (m q.hashBlock).pnext = (mem q.hashBlock).pnext) : Linked m ptr := by
  induction ptr with
  | nil => trivial
  | cons p rest ih =>
    cases rest with
    | nil => trivial
    | cons q rest =>
      refine ⟨?_, ih h.2 fun x hx => heq x (List.mem_cons_of_mem _ hx)⟩
      rw [heq q List.mem_cons_self]
      exact h.1

theorem Linked.suffix {mem : Uint256 → BlockMem} {pre f : BlockPtr} (h : Linked mem (pre ++ f)) :
    Linked mem f := by
  induction pre with
  | nil => exact h
  | cons p pre ih =>
    cases hq : pre ++ f with
    | nil =>
      rw [(List.append_eq_nil_iff.mp hq).2]
      trivial
    | cons q l =>
      rw [List.cons_append, hq] at h
      rw [hq] at ih
      exact ih h.2

/-- The transactions of a branch that go back to the memory pool, block by block from the tip. -/
def Chain.resurrected (D : Chain) : List CTransaction :=
  D.flatMap fun c => c.block.vtx.filter fun tx => !(tx.isCoinBase || tx.isCoinStake)

/-- The transactions of a branch, oldest first. -/
def Chain.txs (chain : Chain) : List CTransaction := chain.reverse.flatMap fun c => c.block.vtx

theorem Chain.txs_append_one (N : Chain) (c : ChainBlock) :
    Chain.txs (N ++ [c]) = c.block.vtx ++ N.txs := by
  unfold Chain.txs
  rw [List.reverse_append, List.reverse_singleton, List.singleton_append, List.flatMap_cons]

theorem Chain.ptr_append (base : BlockPtr) (D C : Chain) :
    Chain.ptr base (D ++ C) = D.map ChainBlock.pindex ++ Chain.ptr base C := by
  unfold Chain.ptr
  rw [List.map_append, List.append_assoc]

/-- Pointers that go up from `ptr`, one block at a time. -/
def Ascends : BlockPtr → List BlockPtr → Prop
  | _, [] => True
  | ptr, next :: rest => next.tail = ptr ∧ next ≠ [] ∧ Ascends next rest

theorem ascends_append_one {f : BlockPtr} {l : List BlockPtr} {ptr : BlockPtr} :
    Ascends f (l ++ [ptr]) ↔ Ascends f l ∧ ptr.tail = l.getLastD f ∧ ptr ≠ [] := by
  induction l generalizing f with
  | nil =>
    show (ptr.tail = f ∧ ptr ≠ [] ∧ True) ↔ True ∧ _
    rw [and_true, true_and]; rfl
  | cons next l ih =>
    show (next.tail = f ∧ next ≠ [] ∧ Ascends next (l ++ [ptr])) ↔
      (next.tail = f ∧ next ≠ [] ∧ Ascends next l) ∧ _
    rw [ih, List.getLastD_cons]
    tauto

namespace NodeState

theorem findFork_suffix {best new pfork : BlockPtr} (h : findFork best new = .ok pfork) :
    pfork <:+ best ∧ pfork <:+ new ∧ pfork ≠ [] := by
  induction best generalizing new with
  | nil => cases h
  | cons top pprev ih =>
    unfold findFork at h
    split at h
    · rename_i heq
      cases h
      exact ⟨heq ▸ List.suffix_refl _, List.suffix_refl _, heq ▸ List.cons_ne_nil _ _⟩
    · have hdrop : new.dropWhile (fun p => decide (p.nHeight > top.nHeight)) <:+ new :=
        List.dropWhile_suffix _
      split at h
      · cases h
      · rename_i longer rest heq
        rw [heq] at hdrop
        split at h
        · rename_i heq'
          cases h
          exact ⟨heq' ▸ List.suffix_refl _, hdrop, List.cons_ne_nil _ _⟩
        · obtain ⟨hbest, hnew, hne⟩ := ih h
          exact ⟨hbest.trans (List.suffix_cons _ _), hnew.trans hdrop, hne⟩

theorem pathTo_self (f : BlockPtr) : pathTo f f = [] := by
  cases f with
  | nil => rfl
  | cons p rest => exact if_pos rfl

theorem pathTo_cons_append (p : CBlockIndex) (pre f : BlockPtr) :
    pathTo f (p :: (pre ++ f)) = (p :: (pre ++ f)) :: pathTo f (pre ++ f) := by
  have hne : ¬ p :: (pre ++ f) = f := fun h => by
    have := congrArg List.length h
    simp only [List.length_cons, List.length_append] at this
    omega
  exact if_neg hne

theorem ascends_pathTo (pre f : BlockPtr) : Ascends f (pathTo f (pre ++ f)).reverse ∧
    (pathTo f (pre ++ f)).reverse.getLastD f = pre ++ f := by
  induction pre with
  | nil =>
    rw [List.nil_append, pathTo_self]
    exact ⟨trivial, rfl⟩
  | cons p pre ih =>
    rw [List.cons_append, pathTo_cons_append, List.reverse_cons, ascends_append_one]
    refine ⟨⟨ih.1, ih.2.symm, List.cons_ne_nil _ _⟩, ?_⟩
    rw [List.getLastD_concat]

theorem mem_pathTo {pre f ptr : BlockPtr} (h : ptr ∈ pathTo f (pre ++ f)) :
    ∃ p a, ptr = p :: (a ++ f) ∧ ptr <:+ pre ++ f := by
  induction pre with
  | nil =>
    rw [List.nil_append, pathTo_self] at h
    cases h
  | cons p pre ih =>
    rw [List.cons_append, pathTo_cons_append] at h
    rcases List.mem_cons.mp h with rfl | h
    · exact ⟨p, pre, rfl, List.suffix_refl _⟩
    · obtain ⟨q, a, heq, hsuf⟩ := ih h
      exact ⟨q, a, heq, hsuf.trans (List.suffix_cons _ _)⟩

/-- The postponed blocks are those above the intermediate one. -/
theorem intermediate_eq (nBestTrust : Uint256) (ptr : BlockPtr) :
    ∃ pre, ptr = pre ++ (intermediate nBestTrust ptr).1 ∧
      (intermediate nBestTrust ptr).2 = pathTo (intermediate nBestTrust ptr).1 ptr ∧
      (ptr ≠ [] → (intermediate nBestTrust ptr).1 ≠ []) := by
  induction ptr with
  | nil => exact ⟨[], rfl, rfl, fun h => absurd rfl h⟩
  | cons pindex rest ih =>
    cases rest with
    | nil => exact ⟨[], rfl, (pathTo_self _).symm, fun h => h⟩
    | cons prev rest =>
      unfold intermediate
      by_cases htrust : prev.nChainTrust > nBestTrust
      · rw [if_pos htrust]
        obtain ⟨pre, hpre, hpath, hne⟩ := ih
        refine ⟨pindex :: pre, ?_, ?_, fun _ => hne (List.cons_ne_nil _ _)⟩
        · exact congrArg (pindex :: ·) hpre
        · have hcons := pathTo_cons_append pindex pre (intermediate nBestTrust (prev :: rest)).1
          rw [← hpre] at hcons
          exact (congrArg (_ :: ·) hpath).trans hcons.symm
      · rw [if_neg htrust]
        exact ⟨[], rfl, (pathTo_self _).symm, fun h => h⟩

theorem mem_intermediate {nBestTrust : Uint256} {new ptr : BlockPtr}
    (h : ptr ∈ (intermediate nBestTrust new).2) : ptr <:+ new ∧ ptr ≠ [] := by
  obtain ⟨pre, hsplit, hpath, -⟩ := intermediate_eq nBestTrust new
  rw [hpath] at h
  generalize (intermediate nBestTrust new).1 = mid at hsplit h
  subst hsplit
  obtain ⟨p, a, rfl, hsuf⟩ := mem_pathTo h
  exact ⟨hsuf, List.cons_ne_nil _ _⟩

/-! ## The block tree -/

/-- A block of the tree: `AcceptBlock` let it in after `prev`, and it is where its entry says. -/
structure AcceptedBlock (P : Primitives) (S : Set CTransaction) (files : BlockFiles)
    (pindex prev : CBlockIndex) (rest : BlockPtr) (b : CBlock) : Prop where
  accepted : ∃ g tree, CBlock.acceptChecks P g tree b = .ok (prev :: rest)
  hashPrev : b.hashPrevBlock = prev.hashBlock
  stored : CBlock.Stored pindex b files
  known : ∀ tx ∈ b.vtx, tx ∈ S

/-- A pointer of the tree. -/
def InTree (s : NodeState) (ptr : BlockPtr) : Prop :=
  ∃ h, s.tree.mapBlockIndex.lookup h = some ptr

/-- The shape of the block tree: one pointer for each hash, one root, and heights that go up by one. -/
structure Rooted (s : NodeState) : Prop where
  keyed : ∀ h ptr, s.tree.mapBlockIndex.lookup h = some ptr →
    ptr.head?.map CBlockIndex.hashBlock = some h
  parent : ∀ p prev rest, InTree s (p :: prev :: rest) → InTree s (prev :: rest)
  root : ∃ genesis, s.pindexGenesisBlock = [genesis] ∧
    ∀ ptr, InTree s ptr → ∃ pre, ptr = pre ++ [genesis]
  height : ∀ p prev rest, InTree s (p :: prev :: rest) → p.nHeight = prev.nHeight + 1

/-- The block tree, and the blocks on disk.  `S` are the transactions at hand. -/
structure TreeOk (P : Primitives) (S : Set CTransaction) (s : NodeState) : Prop where
  keyed : ∀ h ptr, s.tree.mapBlockIndex.lookup h = some ptr →
    ptr.head?.map CBlockIndex.hashBlock = some h
  parent : ∀ p prev rest, InTree s (p :: prev :: rest) → InTree s (prev :: rest)
  root : ∃ genesis, s.pindexGenesisBlock = [genesis] ∧
    ∀ ptr, InTree s ptr → ∃ pre, ptr = pre ++ [genesis]
  height : ∀ p prev rest, InTree s (p :: prev :: rest) → p.nHeight = prev.nHeight + 1
  accepted : ∀ p prev rest b, InTree s (p :: prev :: rest) → readFromDisk P s.globals p = some b →
    AcceptedBlock P S s.files p prev rest b

/-- The tests of one entry of a finite tree.  `blocks` are the blocks on disk, `acceptedAt` what they
    were accepted with. -/
def entryChecks (P : Primitives) (s : NodeState) (genesis : CBlockIndex) (blocks : Chain)
    (acceptedAt : BlockPtr → Globals × BlockTree) : BlockPtr → Bool
  | p :: prev :: rest =>
    decide ((p :: prev :: rest).getLast? = some genesis) &&
    decide (s.tree.mapBlockIndex.lookup prev.hashBlock = some (prev :: rest)) &&
    decide (p.nHeight = prev.nHeight + 1) &&
    (readFromDisk P s.globals p).all fun b =>
      decide (b.hashPrevBlock = prev.hashBlock) &&
      decide ((CBlock.acceptChecks P (acceptedAt (prev :: rest)).1 (acceptedAt (prev :: rest)).2
        b).toOption = some (prev :: rest)) &&
      blocks.any fun c => decide (c.pindex = p) && decide (c.block = b)
  | ptr => decide (ptr = [genesis])

section Tree

variable {P : Primitives} {S : Set CTransaction} {s s' : NodeState}

/-- A finite tree is tested entry by entry. -/
theorem TreeOk.of_entries {genesis : CBlockIndex} {blocks : Chain}
    {acceptedAt : BlockPtr → Globals × BlockTree} (hgenesis : s.pindexGenesisBlock = [genesis])
    (hstored : ChainStored s.files blocks) (hknown : ∀ c ∈ blocks, ∀ tx ∈ c.block.vtx, tx ∈ S)
    (hkeyed : ∀ e ∈ s.tree.mapBlockIndex.entries, e.2.head?.map CBlockIndex.hashBlock = some e.1)
    (hentries : ∀ e ∈ s.tree.mapBlockIndex.entries,
      entryChecks P s genesis blocks acceptedAt e.2 = true) : TreeOk P S s := by
  have hcheck : ∀ {ptr : BlockPtr}, InTree s ptr →
      entryChecks P s genesis blocks acceptedAt ptr = true := by
    rintro ptr ⟨h, hptr⟩
    exact hentries ⟨h, ptr⟩ (AList.mem_lookup_iff.mp hptr)
  have hcons : ∀ {p prev : CBlockIndex} {rest : BlockPtr}, InTree s (p :: prev :: rest) →
      (p :: prev :: rest).getLast? = some genesis ∧
      s.tree.mapBlockIndex.lookup prev.hashBlock = some (prev :: rest) ∧
      p.nHeight = prev.nHeight + 1 ∧ ∀ b, readFromDisk P s.globals p = some b →
        b.hashPrevBlock = prev.hashBlock ∧ (CBlock.acceptChecks P (acceptedAt (prev :: rest)).1
          (acceptedAt (prev :: rest)).2 b).toOption = some (prev :: rest) ∧ ⟨p, b⟩ ∈ blocks := by
    intro p prev rest h
    have hall := hcheck h
    unfold entryChecks at hall
    simp only [Bool.and_eq_true, decide_eq_true_eq] at hall
    obtain ⟨⟨⟨hlast, hprev⟩, hheight⟩, hblock⟩ := hall
    refine ⟨hlast, hprev, hheight, fun b hb => ?_⟩
    rw [hb, Option.all_some] at hblock
    simp only [Bool.and_eq_true, decide_eq_true_eq, List.any_eq_true] at hblock
    obtain ⟨⟨hhash, haccept⟩, c, hc, rfl, rfl⟩ := hblock
    exact ⟨hhash, haccept, hc⟩
  refine ⟨fun h ptr hptr => hkeyed ⟨h, ptr⟩ (AList.mem_lookup_iff.mp hptr),
    fun p prev rest h => ⟨_, (hcons h).2.1⟩, ⟨genesis, hgenesis, fun ptr h => ?_⟩,
    fun p prev rest h => (hcons h).2.2.1, fun p prev rest b h hb => ?_⟩
  · match ptr, h with
    | p :: prev :: rest, h =>
      exact ⟨_, (List.dropLast_append_getLast? genesis (hcons h).1).symm⟩
    | [], h =>
      have hall := hcheck h
      unfold entryChecks at hall
      simp at hall
    | [p], h =>
      have hall := hcheck h
      unfold entryChecks at hall
      rw [decide_eq_true_eq] at hall
      exact ⟨[], hall⟩
  · obtain ⟨hhash, haccept, hc⟩ := (hcons h).2.2.2 b hb
    exact ⟨⟨_, _, ok_of_toOption haccept⟩, hhash, hstored _ hc, hknown _ hc⟩

/-- A node laid out in tables is tested once for all of it. -/
theorem TreeOk.of_tables {txs : List (CTransaction × Uint256)} {headers : List (CBlockHeader × Uint256)}
    {pairs : List ((Uint256 × Uint256) × Uint256)} {genesis : CBlockIndex} {blocks : Chain}
    (acceptedAt : BlockPtr → Globals × BlockTree) (hgenesis : s.pindexGenesisBlock = [genesis])
    (h : (∀ r ∈ txs, (Primitives.ofTables txs headers pairs).getHash r.1 = r.2) ∧
      (txs.map Prod.snd).Nodup ∧
      (∀ c ∈ blocks, ∀ p ∈ splits c.block.vtx,
        s.files.readTx (CBlock.txPosition c.pindex c.block p.1) = some p.2 ∧
          CBlock.txPosition c.pindex c.block p.1 ≠ CDiskTxPos.memoryPool) ∧
      (∀ c ∈ blocks, ∀ tx ∈ c.block.vtx, tx ∈ txs.map Prod.fst) ∧
      (∀ e ∈ s.tree.mapBlockIndex.entries, e.2.head?.map CBlockIndex.hashBlock = some e.1) ∧
      ∀ e ∈ s.tree.mapBlockIndex.entries,
        entryChecks (Primitives.ofTables txs headers pairs) s genesis blocks acceptedAt e.2 = true) :
    Set.InjOn (Primitives.ofTables txs headers pairs).getHash { tx | tx ∈ txs.map Prod.fst } ∧
      ChainStored s.files blocks ∧
      TreeOk (Primitives.ofTables txs headers pairs) { tx | tx ∈ txs.map Prod.fst } s := by
  obtain ⟨hhash, hnd, hsplits, hknown, hkeyed, hentries⟩ := h
  have hstored : ChainStored s.files blocks := fun c hc => CBlock.stored_of_splits (hsplits c hc)
  exact ⟨Primitives.ofTables_injOn hhash hnd, hstored,
    TreeOk.of_entries hgenesis hstored hknown hkeyed hentries⟩

theorem TreeOk.rooted (ht : TreeOk P S s) : Rooted s := ⟨ht.keyed, ht.parent, ht.root, ht.height⟩

theorem Rooted.suffix (hr : Rooted s) {ptr suf : BlockPtr} (h : InTree s ptr)
    (hsuf : suf <:+ ptr) (hne : suf ≠ []) : InTree s suf := by
  obtain ⟨pre, rfl⟩ := hsuf
  induction pre with
  | nil => exact h
  | cons p pre ih =>
    obtain ⟨q, l, hq⟩ := List.exists_cons_of_ne_nil (l := pre ++ suf)
      (fun hnil => hne (List.append_eq_nil_iff.mp hnil).2)
    rw [List.cons_append, hq] at h
    have := hr.parent p q l h
    rw [← hq] at this
    exact ih this

/-- One pointer for each hash. -/
theorem Rooted.unique (hr : Rooted s) {p q : CBlockIndex} {l m : BlockPtr}
    (hp : InTree s (p :: l)) (hq : InTree s (q :: m)) (h : p.hashBlock = q.hashBlock) :
    p :: l = q :: m := by
  obtain ⟨hash, hp⟩ := hp
  obtain ⟨hash', hq⟩ := hq
  have h₁ : p.hashBlock = hash := Option.some.inj (hr.keyed _ _ hp)
  have h₂ : q.hashBlock = hash' := Option.some.inj (hr.keyed _ _ hq)
  rw [← h₁, h, h₂, hq] at hp
  exact (Option.some.inj hp).symm

theorem Rooted.nodup (hr : Rooted s) {ptr : BlockPtr} (h : InTree s ptr) :
    (ptr.map CBlockIndex.hashBlock).Nodup := by
  induction ptr with
  | nil => exact List.nodup_nil
  | cons p rest ih =>
    rw [List.map_cons, List.nodup_cons]
    constructor
    · intro hmem
      obtain ⟨q, hq, heq⟩ := List.mem_map.mp hmem
      obtain ⟨pre, post, hsplit⟩ := List.append_of_mem hq
      have hsuf : q :: post <:+ p :: rest := by
        rw [hsplit]
        exact ⟨p :: pre, rfl⟩
      have := hr.unique (hr.suffix h hsuf (List.cons_ne_nil _ _)) h heq
      have := congrArg List.length this
      rw [hsplit] at this
      simp only [List.length_cons, List.length_append] at this
      omega
    · cases rest with
      | nil => exact List.nodup_nil
      | cons q rest => exact ih (hr.parent p q rest h)

theorem InTree.suffix (ht : TreeOk P S s) {ptr suf : BlockPtr} (h : InTree s ptr)
    (hsuf : suf <:+ ptr) (hne : suf ≠ []) : InTree s suf := ht.rooted.suffix h hsuf hne

theorem InTree.unique (ht : TreeOk P S s) {p q : CBlockIndex} {l m : BlockPtr}
    (hp : InTree s (p :: l)) (hq : InTree s (q :: m)) (h : p.hashBlock = q.hashBlock) :
    p :: l = q :: m := ht.rooted.unique hp hq h

theorem InTree.nodup (ht : TreeOk P S s) {ptr : BlockPtr} (h : InTree s ptr) :
    (ptr.map CBlockIndex.hashBlock).Nodup := ht.rooted.nodup h

/-- The parts of the state that a chain switch leaves alone. -/
structure SameTree (s s' : NodeState) : Prop where
  fTestNet : s'.fTestNet = s.fTestNet
  files : s'.files = s.files
  tree : s'.tree = s.tree
  pindexGenesisBlock : s'.pindexGenesisBlock = s.pindexGenesisBlock

theorem SameTree.refl (s : NodeState) : SameTree s s := ⟨rfl, rfl, rfl, rfl⟩

theorem SameTree.trans {s₁ s₂ s₃ : NodeState} (h : SameTree s₁ s₂) (h' : SameTree s₂ s₃) :
    SameTree s₁ s₃ :=
  ⟨h'.fTestNet.trans h.fTestNet, h'.files.trans h.files, h'.tree.trans h.tree,
    h'.pindexGenesisBlock.trans h.pindexGenesisBlock⟩

theorem SameTree.readFromDisk (h : SameTree s s') (P : Primitives) :
    readFromDisk P s'.globals = readFromDisk P s.globals := by
  funext pindex
  have hwork : checkProofOfWork s'.globals = checkProofOfWork s.globals := by
    funext hash nBits
    unfold checkProofOfWork Globals.bnProofOfWorkLimit
    rw [show s'.globals.fTestNet = s.globals.fTestNet from h.fTestNet]
  unfold Silkcoin.readFromDisk BlockFiles.readBlock
  rw [hwork, show s'.globals.files = s.globals.files from h.files]

theorem SameTree.inTree (h : SameTree s s') {ptr : BlockPtr} : InTree s' ptr ↔ InTree s ptr := by
  unfold InTree
  rw [h.tree]

theorem TreeOk.of_same (ht : TreeOk P S s) (h : SameTree s s') : TreeOk P S s' := by
  have hin : ∀ ptr, InTree s' ptr ↔ InTree s ptr := fun _ => h.inTree
  refine ⟨?_, ?_, ?_, ?_, ?_⟩
  · rw [h.tree]; exact ht.keyed
  · simp only [hin]; exact ht.parent
  · simp only [hin, h.pindexGenesisBlock]; exact ht.root
  · simp only [hin]; exact ht.height
  · simp only [hin, h.readFromDisk, h.files]; exact ht.accepted

end Tree

/-! ## What the routines leave behind -/

section Steps

variable {P : Primitives} {S : Set CTransaction} {s s' : NodeState}

@[simp] theorem onFalse_ok {α : Type} {x : Except Stopped α} {handle : NodeState → Stopped} {a : α} :
    onFalse x handle = .ok a ↔ x = .ok a := by
  unfold onFalse
  split <;> simp

theorem syncWithWallets_ok {n : Notice} (h : s.syncWithWallets P n = .ok s') :
    ∃ wallets, s' = { s with wallets := wallets } := by
  unfold syncWithWallets at h
  dsimp only at h
  split at h
  · cases h
    exact ⟨_, rfl⟩
  · cases h

/-- Telling the wallets changes the wallets. -/
theorem syncNotices_wallets {ns : List Notice} (h : ns.foldlM (syncWithWallets P) s = .ok s') :
    ∃ wallets, s' = { s with wallets := wallets } := by
  refine foldlM_ok_inv (P := fun t => ∃ wallets, t = { s with wallets := wallets }) ⟨s.wallets, rfl⟩
    ?_ h
  rintro n - t t' ⟨wallets, rfl⟩ hstep
  obtain ⟨wallets', rfl⟩ := syncWithWallets_ok hstep
  exact ⟨wallets', rfl⟩

theorem connectBlock_ok {pindex : CBlockIndex} {pprev : BlockPtr} {b : CBlock}
    (h : s.connectBlock P pindex pprev b = .ok s') : ∃ r wallets,
      CBlock.connectBlock P s.globals s.mem s.txdb pindex pprev b false = .ok r ∧
        s' = { s with txdb := r.txdb, mem := r.mem, wallets := wallets } := by
  unfold connectBlock at h
  simp only [bind_ok, orFail_ok] at h
  obtain ⟨r, hr, h⟩ := h
  obtain ⟨wallets, rfl⟩ := syncNotices_wallets h
  exact ⟨r, wallets, hr, rfl⟩

theorem disconnectBlock_ok {pprev : BlockPtr} {b : CBlock}
    (h : s.disconnectBlock P pprev b = .ok s') : ∃ txdb wallets,
      CBlock.disconnectBlock P s.mem s.txdb pprev b = .ok txdb ∧
        s' = { s with txdb := txdb, wallets := wallets } := by
  unfold disconnectBlock at h
  simp only [bind_ok, orFail_ok] at h
  obtain ⟨txdb, hr, h⟩ := h
  obtain ⟨wallets, rfl⟩ := syncNotices_wallets h
  exact ⟨txdb, wallets, hr, rfl⟩

theorem txnBegin_ok (h : s.txnBegin = .ok s') :
    s.txdb.activeBatch = none ∧ s' = { s with txdb := s.txdb.txnBegin } := by
  unfold txnBegin at h
  split at h
  · cases h
  · rename_i hb
    cases h
    exact ⟨by simpa using hb, rfl⟩

theorem txnCommit_ok {e : Failure} (h : s.txnCommit e = .ok s') :
    s' = { s with txdb := s.txdb.txnCommit true, commits := s.commits.tail } := by
  unfold txnCommit at h
  dsimp only at h
  split at h
  · rename_i hok
    cases h
    rw [hok]
  · cases h

theorem txnCommit_mem {e : Failure} {stop : Stopped} (h : s.txnCommit e = .error stop) :
    stop.state.mem = s.mem := by
  unfold txnCommit at h
  dsimp only at h
  split at h
  · cases h
  · cases h
    rfl

theorem syncWithWallets_error {n : Notice} {e : Stopped} (h : s.syncWithWallets P n = .error e) :
    ∃ what, e.why = .throw what := by
  have hall : ∀ (f : CWallet → Check CWallet) (ws : List CWallet) e,
      (∀ w e, f w = .error e → ∃ what, e = .throw what) → (syncAll f ws).2 = .error e →
      ∃ what, e = .throw what := by
    intro f ws e hf he
    induction ws with
    | nil => cases he
    | cons w ws ih =>
      unfold syncAll at he
      split at he
      · rename_i hw
        cases he
        exact hf w _ hw
      · exact ih he
  unfold syncWithWallets at h
  dsimp only at h
  split at h
  · cases h
  · rename_i hstop
    cases h
    exact hall _ _ _ (fun w e he => CWallet.sync_error he) hstop

theorem syncNotices_error {ns : List Notice} {e : Stopped}
    (h : ns.foldlM (syncWithWallets P) s = .error e) : ∃ what, e.why = .throw what := by
  obtain ⟨-, n, -, s', -, -, hstop⟩ := foldlM_error h
  exact syncWithWallets_error hstop

/-- A block that is refused leaves the state as it was. -/
theorem connectBlock_false {pindex : CBlockIndex} {pprev : BlockPtr} {b : CBlock} {nDoS : Nat}
    {msg : String} (h : s.connectBlock P pindex pprev b = .error ⟨.reject nDoS msg, s'⟩) :
    s' = s ∧ ¬ ∃ r, CBlock.connectBlock P s.globals s.mem s.txdb pindex pprev b false = .ok r := by
  unfold connectBlock at h
  rcases bind_error.mp h with h | ⟨r, -, h⟩
  · obtain ⟨e, hfail, he⟩ := orFail_error.mp h
    cases he
    refine ⟨rfl, ?_⟩
    rintro ⟨r, hr⟩
    rw [hr] at hfail
    cases hfail
  · obtain ⟨what, hwhat⟩ := syncNotices_error h
    cases hwhat

theorem disconnectBlock_false {pprev : BlockPtr} {b : CBlock} {nDoS : Nat} {msg : String}
    (h : s.disconnectBlock P pprev b = .error ⟨.reject nDoS msg, s'⟩) : s' = s := by
  unfold disconnectBlock at h
  rcases bind_error.mp h with h | ⟨r, -, h⟩
  · obtain ⟨e, hfail, he⟩ := orFail_error.mp h
    cases he
    rfl
  · obtain ⟨what, hwhat⟩ := syncNotices_error h
    cases hwhat

theorem onFalse_false {α : Type} {x : Except Stopped α} {handle : NodeState → Stopped} {e : Stopped}
    (h : onFalse x handle = .error e) : (∃ nDoS msg s, x = .error ⟨.reject nDoS msg, s⟩ ∧
      handle s = e) ∨ ∃ what, e.why = .throw what := by
  unfold onFalse at h
  split at h
  · cases h
  · cases h
    exact Or.inl ⟨_, _, _, rfl, rfl⟩
  · cases h
    exact Or.inr ⟨_, rfl⟩

/-- Connecting a block writes to its entry only. -/
theorem connectBlock_mem {g : Globals} {mem : Uint256 → BlockMem} {txdb : CTxDB}
    {pindex : CBlockIndex} {pprev : BlockPtr} {b : CBlock} {r : Connected}
    (h : CBlock.connectBlock P g mem txdb pindex pprev b false = .ok r) {hash : Uint256}
    (hne : hash ≠ pindex.hashBlock) : r.mem hash = mem hash := by
  obtain ⟨-, st, -, -, hmem, -⟩ := CBlock.connectBlock_ok h
  rw [hmem]
  exact Function.update_of_ne hne _ _

/-- And not to the links. -/
theorem connectBlock_pnext {g : Globals} {mem : Uint256 → BlockMem} {txdb : CTxDB}
    {pindex : CBlockIndex} {pprev : BlockPtr} {b : CBlock} {r : Connected}
    (h : CBlock.connectBlock P g mem txdb pindex pprev b false = .ok r) (hash : Uint256) :
    (r.mem hash).pnext = (mem hash).pnext := by
  obtain ⟨-, st, -, -, hmem, -⟩ := CBlock.connectBlock_ok h
  rw [hmem]
  unfold CBlock.recordSupply
  by_cases heq : hash = pindex.hashBlock
  · subst heq
    rw [Function.update_self]
  · rw [Function.update_of_ne heq]

theorem relinkPrev_pending {disk : StdMap DbKey DbValue} {pprev : BlockPtr}
    {mem : Uint256 → BlockMem} {hash : Uint256} {txdb : CTxDB} (h : CTxDB.Pending disk txdb) :
    CTxDB.Pending disk (CBlock.relinkPrev P pprev mem hash txdb) := by
  unfold CBlock.relinkPrev
  split
  · exact h
  · exact h.write _ _

theorem connectBlock_pending {disk : StdMap DbKey DbValue} {g : Globals} {mem : Uint256 → BlockMem}
    {txdb : CTxDB} {pindex : CBlockIndex} {pprev : BlockPtr} {b : CBlock} {r : Connected}
    (hp : CTxDB.Pending disk txdb)
    (h : CBlock.connectBlock P g mem txdb pindex pprev b false = .ok r) :
    CTxDB.Pending disk r.txdb := by
  obtain ⟨-, st, -, -, -, htxdb⟩ := CBlock.connectBlock_ok h
  rw [htxdb]
  exact relinkPrev_pending ((hp.write _ _).putAll _)

theorem disconnectBlock_pending {disk : StdMap DbKey DbValue} {mem : Uint256 → BlockMem}
    {txdb txdb' : CTxDB} {pprev : BlockPtr} {b : CBlock} (hp : CTxDB.Pending disk txdb)
    (h : CBlock.disconnectBlock P mem txdb pprev b = .ok txdb') : CTxDB.Pending disk txdb' := by
  have hinput : ∀ (txin : CTxIn) db db', CTxDB.Pending disk db →
      CTransaction.disconnectInput db txin = .ok db' → CTxDB.Pending disk db' := by
    intro txin db db' hdb hstep
    unfold CTransaction.disconnectInput at hstep
    split at hstep
    · cases hstep
    · simp only [require_bind_ok, pure_ok] at hstep
      rw [← hstep.2]
      exact hdb.write _ _
  unfold CBlock.disconnectBlock at h
  simp only [bind_ok, pure_ok] at h
  obtain ⟨db, hrun, rfl⟩ := h
  refine relinkPrev_pending (foldlM_ok_inv (P := CTxDB.Pending disk) hp ?_ hrun)
  intro tx _ db db' hdb hstep
  unfold CTransaction.disconnectInputs at hstep
  split at hstep
  · cases hstep
    exact hdb.erase _
  · obtain ⟨db₁, hinputs, hrest⟩ := bind_ok.mp hstep
    cases hrest
    exact (foldlM_ok_inv (P := CTxDB.Pending disk) hdb (fun txin _ => hinput txin) hinputs).erase _

/-! ## Inside a database transaction, and after one that failed -/

/-- The state inside a transaction begun in `s`: nothing has reached the disk, and of the rest only
    the wallets and the supplies recorded in the entries may have changed. -/
structure InTxn (s t : NodeState) : Prop where
  pending : CTxDB.Pending s.txdb.disk t.txdb
  frame : t = { s with txdb := t.txdb, mem := t.mem, wallets := t.wallets }
  links : ∀ hash, (t.mem hash).pnext = (s.mem hash).pnext

/-- The database but for the record of the best invalid trust, the tip, the links and the memory pool
    are as they were. -/
structure Untouched (s s' : NodeState) : Prop where
  disk : ∀ key, key ≠ .bnBestInvalidTrust → s'.txdb.disk.lookup key = s.txdb.disk.lookup key
  closed : s'.txdb.activeBatch = none
  pindexGenesisBlock : s'.pindexGenesisBlock = s.pindexGenesisBlock
  hashBestChain : s'.hashBestChain = s.hashBestChain
  pindexBest : s'.pindexBest = s.pindexBest
  nBestHeight : s'.nBestHeight = s.nBestHeight
  nBestChainTrust : s'.nBestChainTrust = s.nBestChainTrust
  links : ∀ hash, (s'.mem hash).pnext = (s.mem hash).pnext
  mempool : s'.mempool = s.mempool

theorem InTxn.begin (h : s.txnBegin = .ok s') : InTxn s s' := by
  obtain ⟨-, rfl⟩ := txnBegin_ok h
  exact ⟨CTxDB.pending_txnBegin, rfl, fun _ => rfl⟩

theorem InTxn.same {t : NodeState} (h : InTxn s t) : SameTree s t := by
  rw [h.frame]
  exact ⟨rfl, rfl, rfl, rfl⟩

theorem InTxn.connectBlock {t t' : NodeState} (h : InTxn s t) {pindex : CBlockIndex}
    {pprev : BlockPtr} {b : CBlock} (hstep : t.connectBlock P pindex pprev b = .ok t') :
    InTxn s t' := by
  obtain ⟨r, wallets, hr, rfl⟩ := connectBlock_ok hstep
  refine ⟨connectBlock_pending h.pending hr, ?_, fun hash => (connectBlock_pnext hr hash).trans
    (h.links hash)⟩
  rw [h.frame]

theorem InTxn.disconnectBlock {t t' : NodeState} (h : InTxn s t) {pprev : BlockPtr} {b : CBlock}
    (hstep : t.disconnectBlock P pprev b = .ok t') : InTxn s t' := by
  obtain ⟨txdb, wallets, hr, rfl⟩ := disconnectBlock_ok hstep
  refine ⟨disconnectBlock_pending h.pending hr, ?_, h.links⟩
  rw [h.frame]

/-- The transaction is given up. -/
theorem InTxn.abort {t : NodeState} (h : InTxn s t) (pindexNew : BlockPtr) :
    Untouched s (t.txnAbort.invalidChainFound pindexNew) ∧
      SameTree s (t.txnAbort.invalidChainFound pindexNew) ∧
      (t.txnAbort.invalidChainFound pindexNew).wallets = t.wallets := by
  have hdisk := h.pending.disk_eq
  have hlinks := h.links
  rw [h.frame] at hdisk hlinks ⊢
  unfold invalidChainFound txnAbort
  split
  · refine ⟨⟨fun key hkey => ?_, rfl, rfl, rfl, rfl, rfl, rfl, hlinks, rfl⟩, ⟨rfl, rfl, rfl, rfl⟩, rfl⟩
    show (t.txdb.txnAbort.disk.insert _ _).lookup key = _
    rw [lookup_insert_eq_ite, if_neg (fun heq => hkey heq.symm)]
    exact congrArg (fun m => m.lookup key) hdisk
  · exact ⟨⟨fun key _ => congrArg (fun m => m.lookup key) hdisk, rfl, rfl, rfl, rfl, rfl, rfl, hlinks,
      rfl⟩, ⟨rfl, rfl, rfl, rfl⟩, rfl⟩

/-- The store does not take it. -/
theorem InTxn.commit_false {t : NodeState} (h : InTxn s t) {hash : Uint256} {e : Failure}
    {stop : Stopped} (hstop : txnCommit { t with txdb := t.txdb.writeHashBestChain hash } e =
      .error stop) :
    Untouched s stop.state ∧ SameTree s stop.state ∧ stop.state.wallets = t.wallets := by
  have hdisk := (h.pending.write .hashBestChain (.hash hash)).disk_eq
  have hlinks := h.links
  unfold txnCommit at hstop
  dsimp only at hstop
  split at hstop
  · cases hstop
  · rename_i hno
    cases hstop
    have hcommit : (t.txdb.writeHashBestChain hash).txnCommit (t.commits.headD true) =
        ⟨s.txdb.disk, none⟩ := by
      unfold CTxDB.txnCommit
      rw [if_neg hno, show (t.txdb.writeHashBestChain hash).disk = s.txdb.disk from hdisk]
    rw [hcommit]
    rw [h.frame] at hlinks ⊢
    exact ⟨⟨fun _ _ => rfl, rfl, rfl, rfl, rfl, rfl, rfl, hlinks, rfl⟩, ⟨rfl, rfl, rfl, rfl⟩, rfl⟩

/-! ## The connected chain -/

/-- The transaction index is the result of connecting the blocks of `chain`, which are on disk. -/
structure Built (P : Primitives) (S : Set CTransaction) (s : NodeState) (chain : Chain) : Prop where
  run : ChainRun P S s.pindexGenesisBlock chain s.txdb s.mem
  read : ∀ c ∈ chain, readFromDisk P s.globals c.pindex = some c.block
  stored : ChainStored s.files chain

/-- Before anything is connected the index is empty. -/
theorem Built.start (h : ∀ hash, s.txdb.readTxIndex hash = none) : Built P S s [] :=
  ⟨ChainRun.start h, fun _ hc => absurd hc List.not_mem_nil, fun _ hc => absurd hc List.not_mem_nil⟩

/-- What the wallets, the memory pool, the links and an open transaction hold is not in the index. -/
theorem Built.silent {chain : Chain} (hb : Built P S s chain) (hsame : SameTree s s')
    (hread : ∀ h, s'.txdb.readTxIndex h = s.txdb.readTxIndex h) : Built P S s' chain := by
  refine ⟨?_, ?_, ?_⟩
  · rw [hsame.pindexGenesisBlock]
    exact ChainRun.silent hb.run hread
  · rw [hsame.readFromDisk]; exact hb.read
  · rw [hsame.files]; exact hb.stored

/-- **One block on top.** -/
theorem Built.connect (ht : TreeOk P S s) {chain : Chain} (hb : Built P S s chain)
    {pindex : CBlockIndex} {b : CBlock}
    (hnew : InTree s (pindex :: Chain.ptr s.pindexGenesisBlock chain))
    (hread : readFromDisk P s.globals pindex = some b)
    (h : s.connectBlock P pindex (Chain.ptr s.pindexGenesisBlock chain) b = .ok s') :
    Built P S s' (⟨pindex, b⟩ :: chain) ∧ SameTree s s' ∧
      ∀ hash, (s'.mem hash).pnext = (s.mem hash).pnext := by
  obtain ⟨r, wallets, hr, rfl⟩ := connectBlock_ok h
  have hsame : SameTree s { s with txdb := r.txdb, mem := r.mem, wallets := wallets } :=
    ⟨rfl, rfl, rfl, rfl⟩
  obtain ⟨genesis, hgenesis, -⟩ := ht.root
  have hne : Chain.ptr s.pindexGenesisBlock chain ≠ [] := by
    unfold Chain.ptr
    rw [hgenesis]
    simp
  obtain ⟨prev, rest, hprev⟩ := List.exists_cons_of_ne_nil hne
  rw [hprev] at hnew
  have ha := ht.accepted pindex prev rest b hnew hread
  obtain ⟨gAccept, tree, haccept⟩ := ha.accepted
  have hstored : ChainStored s.files (⟨pindex, b⟩ :: chain) :=
    List.forall_mem_cons.mpr ⟨ha.stored, hb.stored⟩
  refine ⟨⟨?_, ?_, hstored⟩, hsame, connectBlock_pnext hr⟩
  · rw [hprev] at hr
    exact ChainRun.connect (g := s.globals) hb.run ha.known hprev haccept
      (ht.height pindex prev rest hnew) hstored hr
  · rw [hsame.readFromDisk]
    exact List.forall_mem_cons.mpr ⟨hread, hb.read⟩

/-- **The tip off.** -/
theorem Built.disconnect {c : ChainBlock} {chain : Chain} (hb : Built P S s (c :: chain))
    (h : s.disconnectBlock P (Chain.ptr s.pindexGenesisBlock chain) c.block = .ok s') :
    Built P S s' chain ∧ SameTree s s' ∧ s'.mem = s.mem := by
  obtain ⟨txdb, wallets, hr, rfl⟩ := disconnectBlock_ok h
  have hsame : SameTree s { s with txdb := txdb, wallets := wallets } := ⟨rfl, rfl, rfl, rfl⟩
  refine ⟨⟨ChainRun.disconnect hb.run hr, ?_, ?_⟩, hsame, rfl⟩
  · rw [hsame.readFromDisk]
    exact fun d hd => hb.read d (List.mem_cons_of_mem _ hd)
  · exact fun d hd => hb.stored d (List.mem_cons_of_mem _ hd)

/-! ## Moves -/

/-- One step of a switch: what it does to the state, and to the chain of connected blocks. -/
inductive Move (P : Primitives) : NodeState × Chain → NodeState × Chain → Prop where
  | connect {s s' : NodeState} {chain : Chain} {pindex : CBlockIndex} {b : CBlock}
      (hnew : InTree s (pindex :: Chain.ptr s.pindexGenesisBlock chain))
      (hread : readFromDisk P s.globals pindex = some b)
      (h : s.connectBlock P pindex (Chain.ptr s.pindexGenesisBlock chain) b = .ok s') :
      Move P (s, chain) (s', ⟨pindex, b⟩ :: chain)
  | disconnect {s s' : NodeState} {c : ChainBlock} {chain : Chain}
      (h : s.disconnectBlock P (Chain.ptr s.pindexGenesisBlock chain) c.block = .ok s') :
      Move P (s, c :: chain) (s', chain)
  | txnBegin {s s' : NodeState} {chain : Chain} (h : s.txnBegin = .ok s') :
      Move P (s, chain) (s', chain)
  | commit {s s' : NodeState} {chain : Chain} {hash : Uint256} {e : Failure}
      (h : txnCommit { s with txdb := s.txdb.writeHashBestChain hash } e = .ok s') :
      Move P (s, chain) (s', chain)
  | setNext {s : NodeState} {chain : Chain} (next : Option Uint256) (pprev : BlockPtr) :
      Move P (s, chain) (s.setNext next pprev, chain)
  | pool {s : NodeState} {chain : Chain} (mempool : CTxMemPool) :
      Move P (s, chain) ({ s with mempool := mempool }, chain)
  /-- a postponed block that did not connect, undone -/
  | undone {s s' : NodeState} {chain : Chain} (hclosed : s.txdb.activeBatch = none)
      (hu : Untouched s s') (hsame : SameTree s s')
      (hmem : ∀ p ∈ Chain.ptr s.pindexGenesisBlock chain,
        s'.mem p.hashBlock = s.mem p.hashBlock) :
      Move P (s, chain) (s', chain)

abbrev Moves (P : Primitives) := Relation.ReflTransGen (Move P)

/-- The links of one branch cut, those of another made. -/
theorem moves_links (vDisconnect vConnect : List BlockPtr) (s : NodeState) (chain : Chain) :
    Moves P (s, chain) (vConnect.foldl link (vDisconnect.foldl unlink s), chain) := by
  have hloop : ∀ {f : NodeState → BlockPtr → NodeState} (l : List BlockPtr) (s : NodeState),
      (∀ s ptr, Move P (s, chain) (f s ptr, chain)) → Moves P (s, chain) (l.foldl f s, chain) := by
    intro f l s hf
    induction l generalizing s with
    | nil => exact .refl
    | cons ptr l ih => exact .head (hf s ptr) (ih _)
  exact (hloop vDisconnect s fun s ptr => .setNext none ptr.tail).trans
    (hloop vConnect _ fun s ptr => .setNext (ptr.head?.map CBlockIndex.hashBlock) ptr.tail)

/-! ## The loops of `Reorganize` -/

/-- The branch of the tip off, newest block first. -/
theorem disconnectTips_ok {D C : Chain} {acc : List CTransaction} {r : NodeState × List CTransaction}
    (hb : Built P S s (D ++ C))
    (h : (pathTo (Chain.ptr s.pindexGenesisBlock C)
      (Chain.ptr s.pindexGenesisBlock (D ++ C))).foldlM (disconnectTip P) (s, acc) = .ok r) :
    Built P S r.1 C ∧ SameTree s r.1 ∧ r.1.mem = s.mem ∧ Moves P (s, D ++ C) (r.1, C) ∧
      r.2 = acc ++ D.resurrected ∧ r.1.mempool = s.mempool := by
  induction D generalizing s acc with
  | nil =>
    rw [List.nil_append, pathTo_self] at h
    cases h
    exact ⟨hb, SameTree.refl s, rfl, .refl, (List.append_nil acc).symm, rfl⟩
  | cons c D ih =>
    rw [Chain.ptr_append, List.map_cons, List.cons_append, pathTo_cons_append, ← Chain.ptr_append,
      List.foldlM_cons, bind_ok] at h
    obtain ⟨r₁, hstep, hrest⟩ := h
    unfold disconnectTip at hstep
    dsimp only at hstep
    rw [hb.read c List.mem_cons_self] at hstep
    simp only [bind_ok, onFalse_ok, pure_ok] at hstep
    obtain ⟨s₁, hs₁, rfl⟩ := hstep
    obtain ⟨hb₁, hsame₁, hmem₁⟩ := hb.disconnect hs₁
    rw [← hsame₁.pindexGenesisBlock] at hrest
    obtain ⟨hb', hsame', hmem', hmoves, htxs, hpool⟩ := ih hb₁ hrest
    refine ⟨hb', hsame₁.trans hsame', hmem'.trans hmem₁, .head (.disconnect hs₁) hmoves, ?_, ?_⟩
    · rw [htxs, List.append_assoc]
      rfl
    · obtain ⟨_, _, -, rfl⟩ := disconnectBlock_ok hs₁
      exact hpool

/-- Blocks on top, lowest first. -/
theorem connectTips_ok (ht : TreeOk P S s) {C : Chain} {l : List BlockPtr} {acc : List CTransaction}
    {r : NodeState × List CTransaction} (hb : Built P S s C)
    (hl : Ascends (Chain.ptr s.pindexGenesisBlock C) l) (hin : ∀ ptr ∈ l, InTree s ptr)
    (h : l.foldlM (connectTip P) (s, acc) = .ok r) :
    ∃ N, Chain.ptr s.pindexGenesisBlock (N ++ C) = l.getLastD (Chain.ptr s.pindexGenesisBlock C) ∧
      Built P S r.1 (N ++ C) ∧ SameTree s r.1 ∧
      (∀ hash, (r.1.mem hash).pnext = (s.mem hash).pnext) ∧ Moves P (s, C) (r.1, N ++ C) ∧
      r.2 = acc ++ N.txs ∧ r.1.mempool = s.mempool := by
  induction l generalizing s C acc with
  | nil =>
    cases h
    exact ⟨[], rfl, hb, SameTree.refl s, fun _ => rfl, .refl, (List.append_nil acc).symm, rfl⟩
  | cons ptr l ih =>
    obtain ⟨htail, hne, hrest⟩ := hl
    rw [List.foldlM_cons, bind_ok] at h
    obtain ⟨r₁, hstep, h⟩ := h
    obtain ⟨pindex, pprev, rfl⟩ := List.exists_cons_of_ne_nil hne
    have hpprev : pprev = Chain.ptr s.pindexGenesisBlock C := htail
    subst hpprev
    unfold connectTip at hstep
    dsimp only at hstep
    cases hread : readFromDisk P s.globals pindex with
    | none =>
      rw [hread] at hstep
      cases hstep
    | some b =>
      rw [hread] at hstep
      simp only [bind_ok, onFalse_ok, pure_ok] at hstep
      obtain ⟨s₁, hs₁, rfl⟩ := hstep
      obtain ⟨hb₁, hsame₁, hnext₁⟩ := hb.connect ht (hin _ List.mem_cons_self) hread hs₁
      have hptr : Chain.ptr s₁.pindexGenesisBlock (⟨pindex, b⟩ :: C) =
          pindex :: Chain.ptr s.pindexGenesisBlock C := by
        rw [hsame₁.pindexGenesisBlock]; rfl
      rw [← hptr] at hrest
      obtain ⟨N, hlast, hb', hsame', hnext', hmoves, htxs, hpool⟩ := ih (ht.of_same hsame₁) hb₁ hrest
        (fun q hq => hsame₁.inTree.mpr (hin q (List.mem_cons_of_mem _ hq))) h
      refine ⟨N ++ [⟨pindex, b⟩], ?_, ?_, hsame₁.trans hsame', fun hash =>
        (hnext' hash).trans (hnext₁ hash), ?_, ?_, ?_⟩
      · rw [List.append_assoc, List.singleton_append, List.getLastD_cons, ← hptr, ← hlast,
          hsame₁.pindexGenesisBlock]
      · rw [List.append_assoc]
        exact hb'
      · rw [List.append_assoc]
        exact .head (.connect (hin _ List.mem_cons_self) hread hs₁) hmoves
      · rw [htxs, Chain.txs_append_one, List.append_assoc]
      · obtain ⟨_, _, -, rfl⟩ := connectBlock_ok hs₁
        exact hpool

/-! ## The links -/

theorem setNext_pnext (next : Option Uint256) (pprev : BlockPtr) (hash : Uint256)
    (hne : ∀ prev ∈ pprev.head?, prev.hashBlock ≠ hash) :
    ((s.setNext next pprev).mem hash).pnext = (s.mem hash).pnext := by
  unfold setNext
  cases pprev with
  | nil => rfl
  | cons prev rest =>
    show (Function.update s.mem prev.hashBlock _ hash).pnext = _
    rw [Function.update_of_ne (fun heq => hne prev rfl heq.symm)]

theorem setNext_same (next : Option Uint256) (pprev : BlockPtr) : SameTree s (s.setNext next pprev) ∧
    (s.setNext next pprev).txdb = s.txdb := by
  unfold setNext
  split <;> exact ⟨⟨rfl, rfl, rfl, rfl⟩, rfl⟩

/-- The links are none of the memory pool's business. -/
theorem links_mempool (vDisconnect vConnect : List BlockPtr) (s : NodeState) :
    (vConnect.foldl link (vDisconnect.foldl unlink s)).mempool = s.mempool := by
  have hstep : ∀ (next : Option Uint256) (pprev : BlockPtr) (t : NodeState),
      (t.setNext next pprev).mempool = t.mempool := by
    intro next pprev t
    unfold setNext
    split <;> rfl
  have hlink : (vConnect.foldl link (vDisconnect.foldl unlink s)).mempool =
      (vDisconnect.foldl unlink s).mempool :=
    List.foldlRecOn (motive := fun t => t.mempool = (vDisconnect.foldl unlink s).mempool) vConnect _
      rfl fun t ht ptr _ => (hstep _ _ t).trans ht
  exact hlink.trans (List.foldlRecOn (motive := fun t => t.mempool = s.mempool) vDisconnect _
    rfl fun t ht ptr _ => (hstep _ _ t).trans ht)

/-- Linking the block on top. -/
theorem link_linked {pindex prev : CBlockIndex} {rest : BlockPtr}
    (hnd : ((pindex :: prev :: rest).map CBlockIndex.hashBlock).Nodup)
    (h : Linked s.mem (prev :: rest)) :
    Linked (s.link (pindex :: prev :: rest)).mem (pindex :: prev :: rest) := by
  rw [List.map_cons, List.map_cons, List.nodup_cons, List.nodup_cons] at hnd
  refine ⟨?_, h.congr fun q hq => setNext_pnext _ _ _ fun x hx => ?_⟩
  · show (Function.update s.mem prev.hashBlock _ prev.hashBlock).pnext = _
    rw [Function.update_self]; rfl
  · rw [← Option.mem_some_iff.mp hx]
    intro heq
    exact hnd.2.1 (heq ▸ List.mem_map_of_mem hq)

theorem links_linked (ht : TreeOk P S s) {f : BlockPtr} {l : List BlockPtr} (hl : Ascends f l)
    (hne : f ≠ []) (hin : ∀ ptr ∈ l, InTree s ptr) (h : Linked s.mem f) :
    Linked (l.foldl link s).mem (l.getLastD f) ∧ SameTree s (l.foldl link s) ∧
      (l.foldl link s).txdb = s.txdb := by
  induction l generalizing s f with
  | nil => exact ⟨h, SameTree.refl s, rfl⟩
  | cons ptr l ih =>
    obtain ⟨htail, hptr, hrest⟩ := hl
    obtain ⟨pindex, pprev, rfl⟩ := List.exists_cons_of_ne_nil hptr
    have hpprev : pprev = f := htail
    subst hpprev
    obtain ⟨prev, rest, rfl⟩ := List.exists_cons_of_ne_nil hne
    have hnd := InTree.nodup ht (hin _ List.mem_cons_self)
    obtain ⟨hsame, htxdb⟩ := setNext_same (s := s) (some pindex.hashBlock) (prev :: rest)
    have hsame : SameTree s (s.link (pindex :: prev :: rest)) := hsame
    obtain ⟨hlinked, hsame', htxdb'⟩ := ih (ht.of_same hsame) hrest (List.cons_ne_nil _ _)
      (fun q hq => hsame.inTree.mpr (hin q (List.mem_cons_of_mem _ hq))) (link_linked hnd h)
    rw [List.foldl_cons, List.getLastD_cons]
    exact ⟨hlinked, hsame.trans hsame', htxdb'.trans htxdb⟩

/-- Unlinking the branch of the tip leaves the links below the fork. -/
theorem unlinks_linked {f : BlockPtr} {l : List BlockPtr}
    (hl : ∀ ptr ∈ l, ∀ prev ∈ ptr.tail.head?, ∀ q ∈ f.tail, prev.hashBlock ≠ q.hashBlock)
    (h : Linked s.mem f) : Linked (l.foldl unlink s).mem f ∧ SameTree s (l.foldl unlink s) ∧
      (l.foldl unlink s).txdb = s.txdb := by
  induction l generalizing s with
  | nil => exact ⟨h, SameTree.refl s, rfl⟩
  | cons ptr l ih =>
    obtain ⟨hsame, htxdb⟩ := setNext_same (s := s) none ptr.tail
    have hsame : SameTree s (s.unlink ptr) := hsame
    obtain ⟨hlinked, hsame', htxdb'⟩ := ih (fun q hq => hl q (List.mem_cons_of_mem _ hq))
      (h.congr (m := (s.unlink ptr).mem) fun q hq => setNext_pnext _ _ _ fun prev hprev =>
        hl ptr List.mem_cons_self prev hprev q hq)
    exact ⟨hlinked, hsame.trans hsame', htxdb'.trans htxdb⟩

/-! ## Commits -/

/-- The database is closed on the chain: it names its last block, and the blocks are linked. -/
structure OnChain (P : Primitives) (S : Set CTransaction) (s : NodeState) (chain : Chain) : Prop
    extends Built P S s chain where
  best : s.txdb.readHashBestChain =
    (Chain.ptr s.pindexGenesisBlock chain).head?.map CBlockIndex.hashBlock
  closed : s.txdb.activeBatch = none
  linked : Linked s.mem (Chain.ptr s.pindexGenesisBlock chain)

theorem Built.commit {chain : Chain} {hash : Uint256} {e : Failure} (hb : Built P S s chain)
    (h : txnCommit { s with txdb := s.txdb.writeHashBestChain hash } e = .ok s') :
    Built P S s' chain ∧ s'.txdb.readHashBestChain = some hash ∧ s'.txdb.activeBatch = none ∧
      SameTree s s' ∧ s'.mem = s.mem := by
  have hs' := txnCommit_ok h
  subst hs'
  exact ⟨hb.silent ⟨rfl, rfl, rfl, rfl⟩ (fun h => by simp), by simp, rfl, ⟨rfl, rfl, rfl, rfl⟩, rfl⟩

/-- What the links and the memory pool become does not matter to a closed chain, as long as its
    blocks are linked. -/
theorem OnChain.of_built {chain : Chain} {hash : Uint256} (hb : Built P S s chain)
    (hbest : s.txdb.readHashBestChain = some hash)
    (hhash : (Chain.ptr s.pindexGenesisBlock chain).head?.map CBlockIndex.hashBlock = some hash)
    (hclosed : s.txdb.activeBatch = none) (hsame : SameTree s s') (htxdb : s'.txdb = s.txdb)
    (hlinked : Linked s'.mem (Chain.ptr s.pindexGenesisBlock chain)) : OnChain P S s' chain := by
  refine ⟨hb.silent hsame (fun h => by rw [htxdb]), ?_, by rw [htxdb]; exact hclosed, ?_⟩
  · rw [htxdb, hbest, hsame.pindexGenesisBlock, hhash]
  · rw [hsame.pindexGenesisBlock]; exact hlinked

/-- A block read from disk is the one its entry is about. -/
theorem getHash_of_read {g : Globals} {pindex : CBlockIndex} {b : CBlock}
    (h : readFromDisk P g pindex = some b) : b.getHash P = pindex.hashBlock := by
  unfold Silkcoin.readFromDisk at h
  split at h
  · cases h
  · split at h
    · cases h
    · rename_i heq
      cases h
      exact not_not.mp heq

/-- **`SetBestChainInner`**, where it succeeds. -/
theorem setBestChainInner_ok (ht : TreeOk P S s) {chain : Chain} (hb : Built P S s chain)
    (hl : Linked s.mem (Chain.ptr s.pindexGenesisBlock chain)) {pindex : CBlockIndex} {b : CBlock}
    (hnew : InTree s (pindex :: Chain.ptr s.pindexGenesisBlock chain))
    (hread : readFromDisk P s.globals pindex = some b)
    (h : s.setBestChainInner P (pindex :: Chain.ptr s.pindexGenesisBlock chain) b = .ok s') :
    OnChain P S s' (⟨pindex, b⟩ :: chain) ∧ SameTree s s' ∧
      Moves P (s, chain) (s', ⟨pindex, b⟩ :: chain) ∧
      s'.mempool = b.vtx.foldl (fun pool tx => pool.removeTx P tx) s.mempool := by
  have hhash := getHash_of_read hread
  cases hptr : Chain.ptr s.pindexGenesisBlock chain with
  | nil =>
    rw [hptr] at h
    cases h
  | cons prev rest =>
    rw [hptr] at h hl
    simp only [setBestChainInner, bind_ok, onFalse_ok, pure_ok] at h
    obtain ⟨s₁, hconnect, s₂, hcommit, rfl⟩ := h
    rw [← hptr] at hconnect
    obtain ⟨hb₁, hsame₁, hnext₁⟩ := hb.connect ht hnew hread hconnect
    obtain ⟨hb₂, hbest₂, hclosed₂, hsame₂, hmem₂⟩ := hb₁.commit hcommit
    have hsame := hsame₁.trans hsame₂
    have hchain : Chain.ptr s₂.pindexGenesisBlock (⟨pindex, b⟩ :: chain) = pindex :: prev :: rest := by
      rw [hsame.pindexGenesisBlock, ← hptr]; rfl
    have hlinked : Linked s₂.mem (prev :: rest) :=
      hl.congr fun q _ => by rw [hmem₂, hnext₁]
    have hnd := InTree.nodup ht hnew
    rw [hptr] at hnd
    obtain ⟨hlink, htxdb⟩ := setNext_same (s := s₂) (some pindex.hashBlock) (prev :: rest)
    have hlink' : SameTree s₂ { s₂.link (pindex :: prev :: rest) with
        mempool := b.vtx.foldl (fun pool tx => pool.removeTx P tx) s₂.mempool } :=
      ⟨hlink.fTestNet, hlink.files, hlink.tree, hlink.pindexGenesisBlock⟩
    have hmoves : Moves P (s, chain) (s₂.link (pindex :: prev :: rest), ⟨pindex, b⟩ :: chain) :=
      .head (.connect hnew hread hconnect) (.head (.commit hcommit) (.single (.setNext _ _)))
    refine ⟨OnChain.of_built hb₂ hbest₂ ?_ hclosed₂ hlink' htxdb ?_, hsame.trans hlink',
      hmoves.tail (.pool _), ?_⟩
    · rw [hchain, hhash]; rfl
    · rw [hchain]
      exact link_linked hnd hlinked
    · obtain ⟨_, _, -, rfl⟩ := connectBlock_ok hconnect
      obtain rfl := txnCommit_ok hcommit
      rfl

/-- A fork of the tip's branch is a block of the chain, or genesis. -/
theorem suffix_ptr {genesis : CBlockIndex} {chain : Chain} {f : BlockPtr}
    (h : f <:+ Chain.ptr [genesis] chain) (hne : f ≠ []) :
    ∃ D C, chain = D ++ C ∧ f = Chain.ptr [genesis] C := by
  induction chain with
  | nil =>
    rcases List.suffix_cons_iff.mp h with rfl | h
    · exact ⟨[], [], rfl, rfl⟩
    · exact absurd (List.suffix_nil.mp h) hne
  | cons c chain ih =>
    rcases List.suffix_cons_iff.mp h with rfl | h
    · exact ⟨[], c :: chain, rfl, rfl⟩
    · obtain ⟨D, C, rfl, hf⟩ := ih h
      exact ⟨c :: D, C, rfl, hf⟩

/-- **`Reorganize`**, where it succeeds: the tip's branch down to a fork is replaced. -/
theorem reorganize_ok (ht : TreeOk P S s) {chain : Chain} (hb : Built P S s chain)
    (hl : Linked s.mem (Chain.ptr s.pindexGenesisBlock chain))
    (hbest : s.pindexBest = Chain.ptr s.pindexGenesisBlock chain) (hin : InTree s s.pindexBest)
    {new : BlockPtr} (hnew : InTree s new) (h : s.reorganize P new = .ok s') :
    ∃ D N C, chain = D ++ C ∧ Chain.ptr s.pindexGenesisBlock (N ++ C) = new ∧
      OnChain P S s' (N ++ C) ∧ SameTree s s' ∧ Moves P (s, chain) (s', N ++ C) ∧
      s'.mempool = (s.updatePool P D.resurrected N.txs).mempool ∧
      findFork s.pindexBest new = .ok (Chain.ptr s.pindexGenesisBlock C) := by
  unfold reorganize at h
  simp only [bind_ok, orFail_ok] at h
  obtain ⟨pfork, hfork, h⟩ := h
  obtain ⟨hsuf, ⟨pre, hpre⟩, hne⟩ := findFork_suffix hfork
  obtain ⟨genesis, hgenesis, -⟩ := ht.root
  rw [hbest, hgenesis] at hsuf
  obtain ⟨D, C, rfl, hf⟩ := suffix_ptr hsuf hne
  rw [← hgenesis] at hf
  subst hf
  rw [hbest, ← hpre] at h
  rw [← hpre] at hnew
  unfold replaceBranch at h
  simp only [bind_ok, pure_ok] at h
  obtain ⟨r, hdisconnect, r', hconnect, s₃, hcommit, rfl⟩ := h
  obtain ⟨hb₁, hsame₁, hmem₁, hoff, htxs₁, hpool₁⟩ := disconnectTips_ok hb hdisconnect
  obtain ⟨hascends, hlast⟩ := ascends_pathTo pre (Chain.ptr s.pindexGenesisBlock C)
  have hmemIn : ∀ ptr ∈ (pathTo (Chain.ptr s.pindexGenesisBlock C)
      (pre ++ Chain.ptr s.pindexGenesisBlock C)).reverse, InTree s ptr := by
    intro ptr hptr
    obtain ⟨p, a, rfl, hsuf⟩ := mem_pathTo (List.mem_reverse.mp hptr)
    exact hnew.suffix ht hsuf (List.cons_ne_nil _ _)
  obtain ⟨N, hN, hb₂, hsame₂, hnext₂, hon, htxs₂, hpool₂⟩ := connectTips_ok (s := r.1)
    (ht.of_same hsame₁) hb₁
    (by rw [hsame₁.pindexGenesisBlock]; exact hascends)
    (fun ptr hptr => hsame₁.inTree.mpr (hmemIn ptr hptr)) hconnect
  rw [hsame₁.pindexGenesisBlock, hlast] at hN
  obtain ⟨hb₃, hbest₃, hclosed₃, hsame₃, hmem₃⟩ := hb₂.commit hcommit
  have hsame := (hsame₁.trans hsame₂).trans hsame₃
  have ht₃ := ht.of_same hsame
  -- the links of the old branch go, those below the fork stay
  rw [Chain.ptr_append] at hl
  have hl₃ : Linked s₃.mem (Chain.ptr s.pindexGenesisBlock C) :=
    hl.suffix.congr fun q _ => by rw [hmem₃, hnext₂, hmem₁]
  have hunlink : ∀ ptr ∈ pathTo (Chain.ptr s.pindexGenesisBlock C)
      (Chain.ptr s.pindexGenesisBlock (D ++ C)), ∀ prev ∈ ptr.tail.head?,
      ∀ q ∈ (Chain.ptr s.pindexGenesisBlock C).tail, prev.hashBlock ≠ q.hashBlock := by
    intro ptr hptr prev hprev q hq
    rw [Chain.ptr_append] at hptr
    obtain ⟨p, a, rfl, hsuf⟩ := mem_pathTo hptr
    rw [hbest, Chain.ptr_append] at hin
    have hnd := InTree.nodup ht (hin.suffix ht hsuf (List.cons_ne_nil _ _))
    obtain ⟨top, below, htop⟩ := List.exists_cons_of_ne_nil hne
    rw [htop] at hq hnd hprev
    have hnd' := (List.nodup_cons.mp hnd).2
    cases a with
    | nil =>
      cases hprev
      exact fun heq => (List.nodup_cons.mp hnd').1 (heq ▸ List.mem_map_of_mem hq)
    | cons x a =>
      cases hprev
      refine fun heq => (List.nodup_cons.mp hnd').1 (heq ▸ List.mem_map_of_mem ?_)
      exact List.mem_append_right _ (List.mem_cons_of_mem _ hq)
  obtain ⟨hl₄, hsame₄, htxdb₄⟩ := unlinks_linked hunlink hl₃
  -- and the new branch is linked
  obtain ⟨hl₅, hsame₅, htxdb₅⟩ := links_linked (ht₃.of_same hsame₄) hascends hne
    (fun ptr hptr => (hsame.trans hsame₄).inTree.mpr (hmemIn ptr hptr)) hl₄
  rw [hlast] at hl₅
  have hsame₆ := hsame₄.trans hsame₅
  have hmoves : Moves P (s, D ++ C) (s₃, N ++ C) := (hoff.trans hon).tail (.commit hcommit)
  refine ⟨D, N, C, rfl, hN.trans hpre, ?_, hsame.trans ⟨hsame₆.fTestNet, hsame₆.files, hsame₆.tree,
    hsame₆.pindexGenesisBlock⟩, (hmoves.trans (moves_links _ _ _ _)).tail (.pool _), ?_, ?_⟩
  rotate_left
  · have hpool₃ : s₃.mempool = s.mempool := by
      obtain rfl := txnCommit_ok hcommit
      exact hpool₂.trans hpool₁
    have htest := (hsame.trans hsame₆).fTestNet
    unfold updatePool
    dsimp only
    rw [htxs₁, htxs₂, List.nil_append, List.nil_append, htest, links_mempool, hpool₃]
  · exact hfork
  refine OnChain.of_built hb₃ hbest₃ ?_ hclosed₃ ⟨hsame₆.fTestNet, hsame₆.files, hsame₆.tree,
    hsame₆.pindexGenesisBlock⟩ (htxdb₅.trans htxdb₄) ?_
  · rw [hsame.pindexGenesisBlock, hN]
    obtain ⟨top, below, htop⟩ := List.exists_cons_of_ne_nil (l := pre ++ Chain.ptr
      s.pindexGenesisBlock C) (fun hnil => hne (List.append_eq_nil_iff.mp hnil).2)
    rw [htop]; rfl
  · rw [hsame.pindexGenesisBlock, hN]
    exact hl₅

/-! ## The postponed blocks -/

theorem Untouched.refl (h : s.txdb.activeBatch = none) : Untouched s s :=
  ⟨fun _ _ => rfl, h, rfl, rfl, rfl, rfl, rfl, fun _ => rfl, rfl⟩

/-- Of the records only the best invalid trust is read differently. -/
theorem Untouched.read (h : Untouched s s') (hclosed : s.txdb.activeBatch = none) {key : DbKey}
    (hkey : key ≠ .bnBestInvalidTrust) : s'.txdb.read key = s.txdb.read key := by
  rw [CTxDB.read_closed _ h.closed, CTxDB.read_closed _ hclosed, h.disk key hkey]

theorem OnChain.untouched {chain : Chain} (hc : OnChain P S s chain) (h : Untouched s s')
    (hsame : SameTree s s') : OnChain P S s' chain := by
  refine ⟨hc.toBuilt.silent hsame fun hash => ?_, ?_, h.closed, ?_⟩
  · unfold CTxDB.readTxIndex
    rw [h.read hc.closed (fun hk => by cases hk)]
  · unfold CTxDB.readHashBestChain
    rw [h.read hc.closed (fun hk => by cases hk), hsame.pindexGenesisBlock]
    exact hc.best
  · rw [hsame.pindexGenesisBlock]
    exact hc.linked.congr fun q _ => h.links _

/-- **`SetBestChainInner`**, where it fails: the transaction it was called in is undone. -/
theorem setBestChainInner_false {t : NodeState} (hbegin : s.txnBegin = .ok t) {ptr : BlockPtr}
    {b : CBlock} {nDoS : Nat} {msg : String}
    (h : t.setBestChainInner P ptr b = .error ⟨.reject nDoS msg, s'⟩) :
    Untouched s s' ∧ SameTree s s' ∧
      ∀ pindex ∈ ptr.head?, ∀ hash ≠ pindex.hashBlock, s'.mem hash = s.mem hash := by
  have hin := InTxn.begin hbegin
  have hmem : t.mem = s.mem := by
    rw [(txnBegin_ok hbegin).2]
  unfold setBestChainInner at h
  split at h
  · rename_i pindex prev rest
    rcases bind_error.mp h with h | ⟨s₁, hconnect, h⟩
    · rcases onFalse_false h with ⟨n, m, s₁, hfalse, he⟩ | ⟨what, he⟩
      · obtain ⟨rfl, -⟩ := connectBlock_false hfalse
        cases he
        obtain ⟨hu, hsame, -⟩ := hin.abort (pindex :: prev :: rest)
        refine ⟨hu, hsame, fun _ _ hash _ => ?_⟩
        rw [← hmem]
        unfold invalidChainFound
        split <;> rfl
      · cases he
    · rw [onFalse_ok] at hconnect
      rcases bind_error.mp h with h | ⟨s₂, -, h⟩
      · obtain ⟨hu, hsame, -⟩ := (hin.connectBlock hconnect).commit_false h
        refine ⟨hu, hsame, fun p hp hash hne => ?_⟩
        cases hp
        obtain ⟨r, wallets, hr, rfl⟩ := connectBlock_ok hconnect
        rw [← hmem, txnCommit_mem h]
        exact connectBlock_mem hr hne
      · cases h
  · cases h

theorem connectPostponed_false (hclosed : s.txdb.activeBatch = none) {ptr : BlockPtr} {nDoS : Nat}
    {msg : String} (h : s.connectPostponed P ptr = .error ⟨.reject nDoS msg, s'⟩) :
    Untouched s s' ∧ SameTree s s' ∧
      ∀ pindex ∈ ptr.head?, ∀ hash ≠ pindex.hashBlock, s'.mem hash = s.mem hash := by
  unfold connectPostponed at h
  split at h
  · cases h
    exact ⟨Untouched.refl hclosed, SameTree.refl _, fun _ _ _ _ => rfl⟩
  · rcases bind_error.mp h with h | ⟨t, hbegin, h⟩
    · unfold txnBegin at h
      rw [hclosed] at h
      cases h
    · exact setBestChainInner_false hbegin h

/-! ## Changes of the tip -/

/-- One change of the best chain, in a database transaction of its own: a block that extends the
    chain (which it is marked with), or a reorganisation.  A postponed block that does not connect
    leaves the chain as it is. -/
inductive TipChange (P : Primitives) (S : Set CTransaction) :
    Option CBlock → NodeState × Chain → NodeState × Chain → Prop where
  | extend {s t s' : NodeState} {chain : Chain} {pindex : CBlockIndex} {b : CBlock}
      (hbegin : s.txnBegin = .ok t)
      (hnew : InTree s (pindex :: Chain.ptr s.pindexGenesisBlock chain))
      (hread : readFromDisk P s.globals pindex = some b)
      (h : t.setBestChainInner P (pindex :: Chain.ptr s.pindexGenesisBlock chain) b = .ok s') :
      TipChange P S (some b) (s, chain) (s', ⟨pindex, b⟩ :: chain)
  | reorganize {s t s' : NodeState} {chain chain' : Chain} {new : BlockPtr}
      (hbegin : s.txnBegin = .ok t) (hbest : s.pindexBest = Chain.ptr s.pindexGenesisBlock chain)
      (hin : InTree s s.pindexBest) (hnew : InTree s new) (h : t.reorganize P new = .ok s')
      (hc : OnChain P S s' chain') (hptr : Chain.ptr s.pindexGenesisBlock chain' = new) :
      TipChange P S none (s, chain) (s', chain')
  | undone {s s' : NodeState} {chain : Chain} (hu : Untouched s s') (hsame : SameTree s s')
      (hmem : ∀ p ∈ Chain.ptr s.pindexGenesisBlock chain,
        s'.mem p.hashBlock = s.mem p.hashBlock) :
      TipChange P S none (s, chain) (s', chain)

/-- Any number of changes. -/
abbrev TipChanges (P : Primitives) (S : Set CTransaction) :=
  Relation.ReflTransGen fun x y => ∃ extension, TipChange P S extension x y

/-- Two chains of blocks read from disk under one pointer are one. -/
theorem chain_eq_of_read {g : Globals} {base : BlockPtr} {chain chain' : Chain}
    (hread : ∀ c ∈ chain, readFromDisk P g c.pindex = some c.block)
    (hread' : ∀ c ∈ chain', readFromDisk P g c.pindex = some c.block)
    (hptr : Chain.ptr base chain = Chain.ptr base chain') : chain = chain' := by
  have hmap : chain.map ChainBlock.pindex = chain'.map ChainBlock.pindex :=
    List.append_cancel_right hptr
  clear hptr
  induction chain generalizing chain' with
  | nil => exact (List.map_eq_nil_iff.mp hmap.symm).symm
  | cons c chain ih =>
    cases chain' with
    | nil => cases hmap
    | cons c' chain' =>
      obtain ⟨hpindex, hrest⟩ := List.cons.inj hmap
      have hblock := (hread c List.mem_cons_self).symm.trans
        (hpindex ▸ hread' c' List.mem_cons_self)
      rw [ih (fun d hd => hread d (List.mem_cons_of_mem _ hd))
        (fun d hd => hread' d (List.mem_cons_of_mem _ hd)) hrest]
      obtain ⟨pindex, b⟩ := c
      obtain ⟨pindex', b'⟩ := c'
      cases hpindex
      cases hblock
      rfl

theorem Built.unique {chain chain' : Chain} (hb : Built P S s chain) (hb' : Built P S s chain')
    (hptr : Chain.ptr s.pindexGenesisBlock chain = Chain.ptr s.pindexGenesisBlock chain') :
    chain = chain' := chain_eq_of_read hb.read hb'.read hptr

theorem OnChain.begin {chain : Chain} (hc : OnChain P S s chain) (hbegin : s.txnBegin = .ok s') :
    Built P S s' chain ∧ Linked s'.mem (Chain.ptr s'.pindexGenesisBlock chain) := by
  have hsame := (InTxn.begin hbegin).same
  obtain ⟨hclosed, rfl⟩ := txnBegin_ok hbegin
  exact ⟨hc.toBuilt.silent hsame (CTxDB.readTxIndex_txnBegin _ hclosed), hc.linked⟩

/-- What a reorganisation replaced. -/
theorem reorganize_change {t : NodeState} {chain chain' : Chain} {new : BlockPtr} (ht : TreeOk P S s)
    (hc : OnChain P S s chain) (hbegin : s.txnBegin = .ok t)
    (hbest : s.pindexBest = Chain.ptr s.pindexGenesisBlock chain) (hin : InTree s s.pindexBest)
    (hnew : InTree s new) (h : t.reorganize P new = .ok s') (hc' : OnChain P S s' chain')
    (hptr : Chain.ptr s.pindexGenesisBlock chain' = new) :
    ∃ D N C, chain = D ++ C ∧ chain' = N ++ C ∧ SameTree s s' ∧
      Moves P (s, D ++ C) (s', N ++ C) ∧
      s'.mempool = (s.updatePool P D.resurrected N.txs).mempool ∧
      findFork s.pindexBest new = .ok (Chain.ptr s.pindexGenesisBlock C) := by
  have hsame := (InTxn.begin hbegin).same
  have hmove : Move P (s, chain) (t, chain) := .txnBegin hbegin
  obtain ⟨hb, hl⟩ := hc.begin hbegin
  obtain ⟨-, rfl⟩ := txnBegin_ok hbegin
  obtain ⟨D, N, C, rfl, hN, hcN, hsame', hmoves, hpool, hfork⟩ := reorganize_ok (ht.of_same hsame) hb
    hl hbest (hsame.inTree.mpr hin) (hsame.inTree.mpr hnew) h
  have hunique : chain' = N ++ C := hc'.toBuilt.unique hcN.toBuilt (by
    rw [hsame'.pindexGenesisBlock]
    exact hptr.trans hN.symm)
  exact ⟨D, N, C, rfl, hunique, hsame.trans hsame', .head hmove hmoves, hpool, hfork⟩

/-- STEP LEMMA: the database is closed on the new chain. -/
theorem TipChange.onChain {chain chain' : Chain} {extension : Option CBlock} (ht : TreeOk P S s)
    (hc : OnChain P S s chain) (h : TipChange P S extension (s, chain) (s', chain')) :
    OnChain P S s' chain' ∧ SameTree s s' ∧ Moves P (s, chain) (s', chain') := by
  cases h with
  | @extend _ t _ _ _ _ hbegin hnew hread h =>
    have hsame := (InTxn.begin hbegin).same
    have hmove : Move P (s, chain) (t, chain) := .txnBegin hbegin
    obtain ⟨hb, hl⟩ := hc.begin hbegin
    obtain ⟨-, rfl⟩ := txnBegin_ok hbegin
    obtain ⟨hc', hsame', hmoves, -⟩ := setBestChainInner_ok (ht.of_same hsame) hb hl
      (hsame.inTree.mpr hnew) (hsame.readFromDisk P ▸ hread) h
    exact ⟨hc', hsame.trans hsame', .head hmove hmoves⟩
  | reorganize hbegin hbest hin hnew h hc' hptr =>
    obtain ⟨D, N, C, rfl, rfl, hsame, hmoves, -⟩ := reorganize_change ht hc hbegin hbest hin hnew h hc'
      hptr
    exact ⟨hc', hsame, hmoves⟩
  | undone hu hsame hmem =>
    exact ⟨hc.untouched hu hsame, hsame, .single (.undone hc.closed hu hsame hmem)⟩

/-- RUN LEMMA. -/
theorem TipChanges.onChain {chain chain' : Chain} (ht : TreeOk P S s) (hc : OnChain P S s chain)
    (h : TipChanges P S (s, chain) (s', chain')) :
    OnChain P S s' chain' ∧ SameTree s s' ∧ Moves P (s, chain) (s', chain') := by
  have hall : ∀ x y, TipChanges P S x y → TreeOk P S x.1 → OnChain P S x.1 x.2 →
      OnChain P S y.1 y.2 ∧ SameTree x.1 y.1 ∧ Moves P x y := by
    intro x y hxy htx hx
    induction hxy with
    | refl => exact ⟨hx, SameTree.refl _, .refl⟩
    | tail _ hstep ih =>
      obtain ⟨extension, hstep⟩ := hstep
      obtain ⟨hc₁, hsame₁, hmoves₁⟩ := hstep.onChain (htx.of_same ih.2.1) ih.1
      exact ⟨hc₁, ih.2.1.trans hsame₁, ih.2.2.trans hmoves₁⟩
  exact hall _ _ h ht hc

/-! ## The postponed blocks, one by one -/

theorem connectPostponed_ok {chain : Chain} {ptr : BlockPtr}
    (htail : ptr.tail = Chain.ptr s.pindexGenesisBlock chain) (hin : InTree s ptr)
    (h : s.connectPostponed P ptr = .ok s') :
    ∃ c, Chain.ptr s.pindexGenesisBlock (c :: chain) = ptr ∧
      TipChange P S (some c.block) (s, chain) (s', c :: chain) := by
  unfold connectPostponed at h
  cases ptr with
  | nil => cases h
  | cons pindex pprev =>
    have hpprev : pprev = Chain.ptr s.pindexGenesisBlock chain := htail
    subst hpprev
    cases hread : readFromDisk P s.globals pindex with
    | none =>
      rw [List.head?_cons, Option.bind_some, hread] at h
      cases h
    | some b =>
      rw [List.head?_cons, Option.bind_some, hread, bind_ok] at h
      obtain ⟨t, hbegin, h⟩ := h
      exact ⟨⟨pindex, b⟩, rfl, .extend hbegin hin hread h⟩

theorem ascends_getLastD {f : BlockPtr} {l : List BlockPtr} (h : Ascends f l) (hne : l ≠ []) :
    ∃ pre, pre ≠ [] ∧ l.getLastD f = pre ++ f := by
  induction l generalizing f with
  | nil => exact absurd rfl hne
  | cons next l ih =>
    obtain ⟨htail, hnext, hrest⟩ := h
    obtain ⟨p, rest, rfl⟩ := List.exists_cons_of_ne_nil hnext
    have hrest' : rest = f := htail
    subst hrest'
    rw [List.getLastD_cons]
    cases l with
    | nil => exact ⟨[p], List.cons_ne_nil _ _, rfl⟩
    | cons q l =>
      obtain ⟨pre, -, hpre⟩ := ih hrest (List.cons_ne_nil _ _)
      refine ⟨pre ++ [p], by simp, ?_⟩
      rw [hpre, List.append_assoc]; rfl

/-- **The loop over the postponed blocks.**  It ends on the last of them exactly if it has connected
    every one; otherwise the database stays below the last. -/
theorem connectFurther_ok (ht : TreeOk P S s) {chain : Chain} (hc : OnChain P S s chain)
    {l : List BlockPtr} (hl : Ascends (Chain.ptr s.pindexGenesisBlock chain) l)
    (hin : ∀ ptr ∈ l, InTree s ptr) (h : connectFurther P s l = .ok s') :
    ∃ chain', TipChanges P S (s, chain) (s', chain') ∧
      ((∃ s₂, l.foldlM (connectPostponed P) s = .ok s₂) ∧
          l.getLastD (Chain.ptr s.pindexGenesisBlock chain) =
            Chain.ptr s.pindexGenesisBlock chain' ∨
        (¬ ∃ s₂, l.foldlM (connectPostponed P) s = .ok s₂) ∧
          ∃ pre, pre ≠ [] ∧ l.getLastD (Chain.ptr s.pindexGenesisBlock chain) =
            pre ++ Chain.ptr s.pindexGenesisBlock chain') := by
  induction l generalizing s chain with
  | nil =>
    cases h
    exact ⟨chain, .refl, Or.inl ⟨⟨_, rfl⟩, rfl⟩⟩
  | cons ptr l ih =>
    have hl' := hl
    obtain ⟨htail, hne, hrest⟩ := hl
    unfold connectFurther at h
    cases hstep : s.connectPostponed P ptr with
    | ok s₁ =>
      rw [hstep] at h
      obtain ⟨c, hptr, hchange⟩ := connectPostponed_ok (S := S) htail (hin _ List.mem_cons_self) hstep
      obtain ⟨hc₁, hsame₁, -⟩ := hchange.onChain ht hc
      rw [← hptr, ← hsame₁.pindexGenesisBlock] at hrest
      obtain ⟨chain', hchanges, hcase⟩ := ih (ht.of_same hsame₁) hc₁ hrest
        (fun q hq => hsame₁.inTree.mpr (hin q (List.mem_cons_of_mem _ hq))) h
      rw [hsame₁.pindexGenesisBlock, hptr] at hcase
      rw [List.foldlM_cons, hstep, List.getLastD_cons]
      exact ⟨chain', .head ⟨_, hchange⟩ hchanges, hcase⟩
    | error e =>
      obtain ⟨why, s₁⟩ := e
      rw [hstep] at h
      cases why with
      | throw what => cases h
      | reject nDoS msg =>
        cases h
        obtain ⟨hu, hsame, hmem⟩ := connectPostponed_false hc.closed hstep
        have hundone : TipChange P S none (s, chain) (s', chain) := by
          refine .undone hu hsame fun p hp => ?_
          have hptr := hin ptr List.mem_cons_self
          cases ptr with
          | nil => exact absurd rfl hne
          | cons pindex pprev =>
            have hpprev : pprev = Chain.ptr s.pindexGenesisBlock chain := htail
            refine hmem pindex rfl _ fun heq => ?_
            refine (List.nodup_cons.mp (InTree.nodup ht hptr)).1 (heq ▸ ?_)
            exact List.mem_map_of_mem (hpprev ▸ hp)
        refine ⟨chain, .single ⟨none, hundone⟩, Or.inr ⟨?_,
          ascends_getLastD hl' (List.cons_ne_nil _ _)⟩⟩
        rw [List.foldlM_cons, hstep]
        rintro ⟨s₂, hs₂⟩
        cases hs₂

end Steps

end NodeState
end Silkcoin
