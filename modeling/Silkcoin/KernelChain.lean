/-
  A stake is proven on the BEST CHAIN OF THE MOMENT.

  `getKernelStakeModifier` looks up from the block of the staked coin for the first block that generated a modifier
  a selection interval later.  It goes up along `pnext`, so the block it finds is on the best chain, and that need
  not be the chain of the block that stakes: the proof is checked when the block comes in, before its parent is
  even known, and never again.

  With the links of another chain (`linksAlong`) the same code finds the block of that chain.  The two agree as soon
  as SOME block on both generated a modifier late enough (`kernelModifierBlock_along`): then the first one on either
  is below it, where the chains are the same.  So if this was so at every call, every stake on the best chain is
  proven on the chain below it (`stakes_proven`); and in `OtherBranch` it was not, and one is not.
-/
import Silkcoin.CheckpointChain

namespace Silkcoin

open Validation BatchStore

namespace NodeState

/-! ## The walk along the links -/

/-- The links of a chain, as if its tip were the best block. -/
def linksAlong (chain : BlockPtr) (hash : Uint256) : BlockMem := { BlockMem.new with pnext := nextOn chain hash }

/-- The top of the chain generated a modifier, a selection interval after a block of this hash below it. -/
def GeneratesFor (hashFrom : Uint256) : BlockPtr → Prop
  | [] => False
  | pindex :: below => pindex.generatedStakeModifier = true ∧ ∃ pindexFrom ∈ below,
      pindexFrom.hashBlock = hashFrom ∧
        pindexFrom.getBlockTime + getStakeModifierSelectionInterval ≤ pindex.getBlockTime

variable {g : Globals} {s s' : NodeState}

/-- The block above one that is not the top. -/
theorem exists_above {p q : CBlockIndex} {l below : BlockPtr} (h : p :: l <:+ below) :
    ∃ a, a :: p :: l <:+ q :: below ∧ (a = q ∨ a :: p :: l <:+ below) := by
  obtain ⟨pre, rfl⟩ := h
  rcases List.eq_nil_or_concat pre with rfl | ⟨pre, a, rfl⟩
  · exact ⟨q, List.suffix_refl _, Or.inl rfl⟩
  · have hsuf : a :: p :: l <:+ (pre ++ [a]) ++ p :: l := by
      rw [List.append_assoc]
      exact List.suffix_append _ _
    rw [List.concat_eq_append]
    exact ⟨a, hsuf.trans (List.suffix_cons _ _), Or.inr hsuf⟩

/-- What the walk finds is above the block it began at, on the chain the links belong to. -/
theorem laterModifier_found (hr : Rooted s) (hbest : InTree s s.pindexBest) (hl : LinksOn s.mem s.pindexBest)
    {nStop nStakeModifierTime : Int} {fuel : Nat} {p r : CBlockIndex} {l : BlockPtr} (hin : InTree s (p :: l))
    (htime : nStakeModifierTime < nStop)
    (h : laterModifier g s.tree.mapBlockIndex s.mem nStop fuel p nStakeModifierTime = .ok r) :
    ∃ q below, q :: below <:+ s.pindexBest ∧ q.generatedStakeModifier = true ∧ nStop ≤ q.getBlockTime ∧
      p :: l <:+ below := by
  induction fuel generalizing p l nStakeModifierTime with
  | zero => cases h
  | succ fuel ih =>
    unfold laterModifier at h
    rw [if_pos htime] at h
    split at h
    · split at h
      · cases h
      · cases h
    · rename_i next hnext
      obtain ⟨a, b, below, hsuf, hb, rfl⟩ := exists_of_nextOn (hl _ _ hnext)
      have ha := hr.suffix hbest hsuf (List.cons_ne_nil _ _)
      obtain ⟨rfl, rfl⟩ := List.cons.inj (hr.unique (hr.parent _ _ _ ha) hin hb)
      rw [hr.lookup ha] at h
      dsimp only at h
      by_cases hnew : (if a.generatedStakeModifier then a.getBlockTime else nStakeModifierTime) < nStop
      · obtain ⟨q, above, hq, hgen, hstop, hon⟩ := ih ha hnew h
        exact ⟨q, above, hq, hgen, hstop, (List.suffix_cons _ _).trans hon⟩
      · -- here it ends
        refine ⟨a, b :: below, hsuf, ?_, ?_, List.suffix_refl _⟩
        · by_contra hgen
          rw [if_neg hgen] at hnew
          exact hnew htime
        · split at hnew
          · exact not_lt.mp hnew
          · exact absurd htime hnew

/-- Two walks agree below a block at which both have to end. -/
theorem laterModifier_eq {m m' : StdMap Uint256 BlockPtr} {mem mem' : Uint256 → BlockMem} {nStop : Int}
    {q : CBlockIndex} {below : BlockPtr} (hgen : q.generatedStakeModifier = true) (hstop : nStop ≤ q.getBlockTime)
    (hnext : ∀ p l next, p :: l <:+ below → (mem p.hashBlock).pnext = some next →
      (mem' p.hashBlock).pnext = some next ∧ ∃ a, m.lookup next = some (a :: p :: l) ∧
        m'.lookup next = some (a :: p :: l) ∧ (a = q ∨ a :: p :: l <:+ below))
    {fuel fuel' : Nat} (hfuel : fuel ≤ fuel') {p r : CBlockIndex} {nStakeModifierTime : Int}
    (hp : nStakeModifierTime < nStop → ∃ l, p :: l <:+ below)
    (h : laterModifier g m mem nStop fuel p nStakeModifierTime = .ok r) :
    laterModifier g m' mem' nStop fuel' p nStakeModifierTime = .ok r := by
  induction fuel generalizing fuel' p nStakeModifierTime with
  | zero => cases h
  | succ fuel ih =>
    obtain ⟨k, rfl⟩ : ∃ k, fuel' = k + 1 := ⟨fuel' - 1, by omega⟩
    unfold laterModifier at h ⊢
    by_cases htime : nStakeModifierTime < nStop
    · obtain ⟨l, hl⟩ := hp htime
      rw [if_pos htime] at h ⊢
      split at h
      · split at h
        · cases h
        · cases h
      · rename_i next heq
        obtain ⟨hnext', a, ha, ha', hon⟩ := hnext p l next hl heq
        rw [ha] at h
        rw [hnext']
        dsimp only at h ⊢
        rw [ha']
        refine ih (by omega) (fun hless => ?_) h
        rcases hon with rfl | hon
        · -- at the common block it ends
          rw [if_pos hgen] at hless
          exact absurd hless (not_lt.mpr hstop)
        · exact ⟨_, hon⟩
    · rw [if_neg htime] at h ⊢
      exact h

/-- A tree with more blocks has more entries. -/
theorem entries_length_le {m m' : StdMap Uint256 BlockPtr}
    (h : ∀ hash ptr, m.lookup hash = some ptr → m'.lookup hash = some ptr) :
    m.entries.length ≤ m'.entries.length := by
  have hsub : m.keys ⊆ m'.keys := by
    intro hash hmem
    obtain ⟨ptr, hptr⟩ := Option.isSome_iff_exists.mp (AList.lookup_isSome.mpr (AList.mem_keys.mp hmem))
    exact AList.mem_keys.mpr (AList.lookup_isSome.mp (by rw [h hash ptr hptr]; rfl))
  have hle := (m.keys_nodup.subperm hsub).length_le
  unfold AList.keys List.keys at hle
  rwa [List.length_map, List.length_map] at hle

/-! ## The block that generated the modifier -/

/-- The block that the kernel looks for, where it finds one. -/
theorem kernelModifierBlock_found (hr : Rooted s) (hbest : InTree s s.pindexBest) (hl : LinksOn s.mem s.pindexBest)
    {hashFrom : Uint256} {r : CBlockIndex}
    (h : kernelModifierBlock g s.tree.mapBlockIndex s.mem hashFrom = .ok r) :
    ∃ ptr, ptr <:+ s.pindexBest ∧ GeneratesFor hashFrom ptr := by
  unfold kernelModifierBlock at h
  split at h
  · cases h
  · cases h
  · rename_i pindexFrom l hfrom
    have hinterval : 0 < getStakeModifierSelectionInterval := by decide
    obtain ⟨q, below, hsuf, hgen, hstop, hon⟩ :=
      laterModifier_found hr hbest hl ⟨_, hfrom⟩ (lt_add_of_pos_right _ hinterval) h
    refine ⟨q :: below, hsuf, hgen, pindexFrom, hon.subset List.mem_cons_self, ?_, hstop⟩
    exact Option.some.inj (hr.keyed _ _ hfrom)

/-- **Some block on both chains generated a modifier late enough**: then the kernel finds the same block along
    either, the one now and the other when the tree has grown. -/
theorem kernelModifierBlock_along (hr : Rooted s) (hbest : InTree s s.pindexBest) (hl : LinksOn s.mem s.pindexBest)
    (hr' : Rooted s') (hkept : ∀ ptr, InTree s ptr → InTree s' ptr) {chain ptr : BlockPtr} (hchain : InTree s' chain)
    (hon : ptr <:+ s.pindexBest) (hon' : ptr <:+ chain) {hashFrom : Uint256} (hgen : GeneratesFor hashFrom ptr)
    {r : CBlockIndex} (h : kernelModifierBlock g s.tree.mapBlockIndex s.mem hashFrom = .ok r) :
    kernelModifierBlock g s'.tree.mapBlockIndex (linksAlong chain) hashFrom = .ok r := by
  have hlookup : ∀ hash ptr, s.tree.mapBlockIndex.lookup hash = some ptr →
      s'.tree.mapBlockIndex.lookup hash = some ptr := by
    intro hash ptr hptr
    obtain ⟨hash', hptr'⟩ := hkept ptr ⟨hash, hptr⟩
    have hkey := (hr.keyed _ _ hptr).symm.trans (hr'.keyed _ _ hptr')
    rw [Option.some.inj hkey]
    exact hptr'
  cases ptr with
  | nil => exact hgen.elim
  | cons q below =>
    obtain ⟨hgen, pindexFrom, hmem, rfl, hstop⟩ := hgen
    obtain ⟨pre, l, hsplit⟩ := List.append_of_mem hmem
    have hfrom : pindexFrom :: l <:+ below := ⟨pre, hsplit.symm⟩
    have hin : InTree s (pindexFrom :: l) :=
      hr.suffix hbest (hfrom.trans ((List.suffix_cons q below).trans hon)) (List.cons_ne_nil _ _)
    unfold kernelModifierBlock at h ⊢
    rw [hr.lookup hin] at h
    rw [hlookup _ _ (hr.lookup hin)]
    dsimp only at h ⊢
    refine laterModifier_eq hgen hstop (fun p l next hp hnext => ?_)
      (Nat.succ_le_succ (entries_length_le hlookup)) (fun _ => ⟨l, hfrom⟩) h
    obtain ⟨a, habove, ha⟩ := exists_above (q := q) hp
    have hnext' := hl _ _ hnext
    rw [nextOn_of_suffix (hr.nodup hbest) (habove.trans hon)] at hnext'
    obtain rfl := Option.some.inj hnext'
    have hlink := hr.lookup (hr.suffix hbest (habove.trans hon) (List.cons_ne_nil _ _))
    exact ⟨nextOn_of_suffix (hr'.nodup hchain) (habove.trans hon'), a, hlink, hlookup _ _ hlink, ha⟩

end NodeState

namespace Node

open NodeState

variable (P : Primitives) (H : KernelHashes) (K : CheckpointKey) (n : Node)

/-! ## The stake of a block -/

/-- The block of the staked coin, which is read from disk. -/
def stakedBlock (b : CBlock) : Option Uint256 :=
  b.vtx[1]?.bind fun tx => (readKernel P n.globals n.txdb tx).toOption.map fun kernel => P.blockHash kernel.2.2.2

/-- If the best chain has a block that generated a modifier late enough for the staked coin, `chain` has one in
    common with it. -/
def SharesModifier (b : CBlock) (chain : BlockPtr) : Prop :=
  ∀ hashFrom, n.stakedBlock P b = some hashFrom → (∃ ptr, ptr <:+ n.pindexBest ∧ GeneratesFor hashFrom ptr) →
    ∃ ptr, ptr <:+ n.pindexBest ∧ ptr <:+ chain ∧ GeneratesFor hashFrom ptr

variable {P H K n} {n' : Node}

/-- **A proof that passed on the best chain passes on the chain of the block**, if that shares the modifier. -/
theorem StakeProven.along {b : CBlock} (h : StakeProven P H n n.tree.mapBlockIndex n.mem b) (hok : ChainOk n)
    (hr' : Rooted n'.toNodeState) (hkept : ∀ ptr, InTree n.toNodeState ptr → InTree n'.toNodeState ptr)
    {chain : BlockPtr} (hchain : InTree n'.toNodeState chain) (hshared : n.SharesModifier P b chain) :
    StakeProven P H n n'.tree.mapBlockIndex (linksAlong chain) b := by
  obtain ⟨tx, hash, htx, hcheck⟩ := h
  refine ⟨tx, hash, htx, ?_⟩
  unfold checkProofOfStake at hcheck ⊢
  simp only [bind_ok, require_ok, exists_const, orFail_ok] at hcheck ⊢
  obtain ⟨hstake, ⟨txPrev, prevout, txindex, header⟩, hkernel, hcheck⟩ := hcheck
  refine ⟨hstake, ⟨txPrev, prevout, txindex, header⟩, hkernel, ?_⟩
  unfold checkStakeKernelHash getKernelStakeModifier at hcheck ⊢
  simp only [bind_ok, pure_ok] at hcheck ⊢
  obtain ⟨u, htimes, modifier, ⟨r, hfound, hmodifier⟩, htarget⟩ := hcheck
  have hblock : n.stakedBlock P b = some (P.blockHash header) := by
    unfold stakedBlock
    rw [htx, Option.bind_some, hkernel]
    rfl
  have hlater := kernelModifierBlock_found hok.rooted hok.inTree hok.links hfound
  obtain ⟨ptr, hon, hon', hgen⟩ := hshared _ hblock hlater
  have hsame := kernelModifierBlock_along hok.rooted hok.inTree hok.links hr' hkept hchain hon hon' hgen hfound
  exact ⟨u, htimes, modifier, ⟨r, hsame, hmodifier⟩, htarget⟩

/-! ## What the node keeps -/

/-- Every block of the tree but the root is in a file, and it is one of `V`, and so is every orphan; and the blocks
    of `T` are in the tree. -/
structure StakeBooks (P : Primitives) (V : CBlock → Prop) (T : BlockPtr → Prop) (n : Node) : Prop
    extends CheckpointOk n where
  accepted : ∀ p q rest, InTree n.toNodeState (p :: q :: rest) →
    ∃ b, n.files.block p.nFile p.nBlockPos = some b ∧ b.getHash P = p.hashBlock ∧ V b
  waiting : ∀ e ∈ n.mapOrphanBlocksByPrev, V e.2
  kept : ∀ ptr, T ptr → InTree n.toNodeState ptr

variable {V V' : CBlock → Prop} {T T' : BlockPtr → Prop}

namespace StakeBooks

theorem mono (h : StakeBooks P V T n) (hV : ∀ b, V b → V' b) (hT : ∀ ptr, T' ptr → InTree n.toNodeState ptr) :
    StakeBooks P V' T' n where
  toCheckpointOk := h.toCheckpointOk
  accepted p q rest hin := by
    obtain ⟨b, hfile, hhash, hb⟩ := h.accepted p q rest hin
    exact ⟨b, hfile, hhash, hV b hb⟩
  waiting e he := hV e.2 (h.waiting e he)
  kept := hT

/-- Some blocks of `V` more. -/
theorem grows {S : Set CBlock} (h : StakeBooks P V T n) (hok : CheckpointOk n') (hgrows : Grows P S n n')
    (hS : ∀ b ∈ S, V b) (hwaiting : ∀ e ∈ n'.mapOrphanBlocksByPrev, V e.2) : StakeBooks P V T n' where
  toCheckpointOk := hok
  accepted p q rest hin := by
    rcases hgrows.new p (q :: rest) hin with hold | ⟨b, hb, hhash, hfile⟩
    · obtain ⟨b, hfile, hhash, hb⟩ := h.accepted p q rest hold
      exact ⟨b, hgrows.files _ _ b hfile, hhash, hb⟩
    · exact ⟨b, hfile, hhash, hS b hb⟩
  waiting := hwaiting
  kept ptr hptr := hgrows.kept ptr (h.kept ptr hptr)

theorem same (h : StakeBooks P V T n) (hsame : SameChain n n')
    (hwaiting : ∀ e ∈ n'.mapOrphanBlocksByPrev, V e.2) : StakeBooks P V T n' :=
  h.grows (h.toCheckpointOk.of_same hsame) (.of_tree (P := P) (S := ∅) hsame.toSameTree)
    (fun _ hb => absurd hb (Set.notMem_empty _)) hwaiting

/-- A call that does not touch the orphans. -/
theorem leaves {S : Set CBlock} (h : StakeBooks P V T n) (hS : ∀ b ∈ S, V b) {x : Except Halted Node}
    (hx : Leaves (fun n' => CheckpointOk n' ∧ Grows P S n n') (fun n' => CheckpointOk n' ∧ Grows P S n n') x)
    (horphans : KeepsOrphans n x) : Leaves (StakeBooks P V T) (StakeBooks P V T) x := by
  have hstep : ∀ n', CheckpointOk n' ∧ Grows P S n n' → SameOrphans n n' → StakeBooks P V T n' := by
    rintro n' ⟨hok, hgrows⟩ hsame
    refine h.grows hok hgrows hS ?_
    rw [hsame.byPrev]
    exact h.waiting
  exact (Leaves.and hx horphans).mono (fun n' hn' => hstep n' hn'.1 hn'.2) fun n' hn' => hstep n' hn'.1 hn'.2

theorem acceptBlock (h : StakeBooks P V T n) {b : CBlock} (hb : V b) :
    Leaves (StakeBooks P V T) (StakeBooks P V T) (n.acceptBlock P H b) := by
  have hgrown : ∀ m, CheckpointOk m ∧ Onward P {b} n m → CheckpointOk m ∧ Grows P {b} n m :=
    fun m hm => ⟨hm.1, hm.2.toGrows⟩
  refine h.leaves (S := {b}) (fun b' hb' => by rw [Set.mem_singleton_iff.mp hb']; exact hb) ?_
    (acceptBlock_sameOrphans P H n b)
  rw [acceptBlock_eq]
  refine ((h.toCheckpointOk.addBlock b).mono hgrown hgrown).bind fun m _ hm => Leaves.ignoring ?_
  obtain ⟨hok, hgrows⟩ := hm
  exact hok.acceptPendingSyncCheckpoint.mono (fun _ hm' => ⟨hm'.1, hgrows.trans hm'.2.1⟩)
    fun _ hm' => ⟨hm'.1, hgrows.trans hm'.2.toGrows⟩

theorem processSyncCheckpoint (h : StakeBooks P V T n) (msg : CSyncCheckpoint) :
    Leaves (StakeBooks P V T) (StakeBooks P V T) (n.processSyncCheckpoint P K msg) := by
  refine h.leaves (S := ∅) (fun _ hb => absurd hb (Set.notMem_empty _)) ?_
    (processSyncCheckpoint_sameOrphans P K n msg)
  exact (h.toCheckpointOk.processSyncCheckpoint msg).mono (fun _ hm => ⟨hm.1, hm.2.1⟩)
    fun _ hm => ⟨hm.1, hm.2.toGrows⟩

/-- STEP LEMMA: a block that comes in, if it may be accepted with the proof it has given. -/
theorem processBlock (h : StakeBooks P V T n) (fFrom : Bool) {b : CBlock} (hb : n.Vouched P H b → V b) :
    Leaves (StakeBooks P V T) (StakeBooks P V T) (n.processBlock P H K fFrom b) := by
  have hrule : BlockRule P H K V (StakeBooks P V T) :=
    { waiting := fun _ hn => hn.waiting
      accept := fun _ _ hn hb => hn.acceptBlock hb
      message := fun _ msg hn => hn.processSyncCheckpoint msg
      enter := by
        intro n b hn hb
        refine hn.same (.of_books rfl) fun e he => ?_
        rcases List.mem_append.mp he with he | he
        · exact hn.waiting e he
        · rw [List.mem_singleton.mp he]
          exact hb
      same := fun n n' hn hsame hsub => hn.same hsame fun e he => hn.waiting e (hsub he) }
  exact hrule.processBlock fFrom hb h

end StakeBooks

/-! ## Runs -/

/-- A node that has only the genesis block. -/
structure OnlyGenesis (n : Node) : Prop extends CheckpointAtGenesis n where
  alone : ∀ ptr, InTree n.toNodeState ptr → ptr.tail = []
  noOrphans : n.mapOrphanBlocksByPrev = []

/-- Blocks and checkpoint messages that come in, in any order, at a node that had only genesis; each call of
    `ProcessBlock` with the node it found.  Between them the node may change as it likes, except for its chain and
    its orphans. -/
inductive StakeRun (P : Primitives) (H : KernelHashes) (K : CheckpointKey) : List (Node × CBlock) → Node → Prop
  | start {n : Node} : OnlyGenesis n → StakeRun P H K [] n
  | process {calls : List (Node × CBlock)} {n n' : Node} (fFrom : Bool) (b : CBlock) : StakeRun P H K calls n →
      Returned (n.processBlock P H K fFrom b) n' → StakeRun P H K (calls ++ [(n, b)]) n'
  | message {calls : List (Node × CBlock)} {n n' : Node} (msg : CSyncCheckpoint) : StakeRun P H K calls n →
      Returned (n.processSyncCheckpoint P K msg) n' → StakeRun P H K calls n'
  | other {calls : List (Node × CBlock)} {n n' : Node} : StakeRun P H K calls n → SameChain n n' →
      SameOrphans n n' → StakeRun P H K calls n'

/-- At one of the calls the block was vouched for. -/
def VouchedAt (P : Primitives) (H : KernelHashes) (calls : List (Node × CBlock)) (b : CBlock) : Prop :=
  ∃ n, (n, b) ∈ calls ∧ n.Vouched P H b

/-- The blocks that were in the tree at one of the calls. -/
def SeenAt (calls : List (Node × CBlock)) (ptr : BlockPtr) : Prop := ∃ c ∈ calls, InTree c.1.toNodeState ptr

variable {calls : List (Node × CBlock)}

/-- RUN LEMMA. -/
theorem StakeRun.stakeBooks (hrun : StakeRun P H K calls n) :
    StakeBooks P (VouchedAt P H calls) (SeenAt calls) n ∧ ∀ c ∈ calls, CheckpointOk c.1 := by
  induction hrun with
  | start h =>
    refine ⟨⟨h.toCheckpointAtGenesis.checkpointOk, fun p q rest hin => ?_, fun e he => ?_, ?_⟩,
      fun _ hc => absurd hc List.not_mem_nil⟩
    · cases h.alone _ hin
    · rw [h.noOrphans] at he
      exact absurd he List.not_mem_nil
    · rintro ptr ⟨c, hc, -⟩
      exact absurd hc List.not_mem_nil
  | @process calls n n' fFrom b _ hret ih =>
    obtain ⟨hbooks, hcalls⟩ := ih
    refine ⟨?_, fun c hc => ?_⟩
    · have hnow : StakeBooks P (VouchedAt P H (calls ++ [(n, b)])) (SeenAt (calls ++ [(n, b)])) n := by
        refine hbooks.mono ?_ ?_
        · rintro b' ⟨m, hm, hvouched⟩
          exact ⟨m, List.mem_append_left _ hm, hvouched⟩
        · rintro ptr ⟨c, hc, hptr⟩
          rcases List.mem_append.mp hc with hc | hc
          · exact hbooks.kept ptr ⟨c, hc, hptr⟩
          · rw [List.mem_singleton.mp hc] at hptr
            exact hptr
      refine Leaves.of_returned (hnow.processBlock fFrom fun hvouched => ?_) hret
      exact ⟨n, List.mem_append_right _ (List.mem_singleton.mpr rfl), hvouched⟩
    · rcases List.mem_append.mp hc with hc | hc
      · exact hcalls c hc
      · rw [List.mem_singleton.mp hc]
        exact hbooks.toCheckpointOk
  | message msg _ hret ih => exact ⟨Leaves.of_returned (ih.1.processSyncCheckpoint msg) hret, ih.2⟩
  | other _ hsame horphans ih =>
    refine ⟨ih.1.same hsame ?_, ih.2⟩
    rw [horphans.byPrev]
    exact ih.1.waiting

/-! ## The stakes of the best chain -/

/-- Every proof-of-stake block on the best chain came in with a proof that passes with the links of the chain below
    it. -/
def StakesProven (P : Primitives) (H : KernelHashes) (calls : List (Node × CBlock)) (n : Node) : Prop :=
  ∀ p q rest, p :: q :: rest <:+ n.pindexBest →
    ∃ b, n.files.block p.nFile p.nBlockPos = some b ∧ b.getHash P = p.hashBlock ∧
      (b.isProofOfStake = true → ∃ n₀, (n₀, b) ∈ calls ∧
        StakeProven P H n₀ n.tree.mapBlockIndex (linksAlong (q :: rest)) b)

/-- At every call with a proof-of-stake block of the best chain, the best chain of that moment and the chain below
    the block had a block in common that generated a modifier late enough, or the former had none. -/
def ModifiersShared (P : Primitives) (calls : List (Node × CBlock)) (n : Node) : Prop :=
  ∀ n₀ b, (n₀, b) ∈ calls → b.isProofOfStake = true → ∀ p rest, p :: rest <:+ n.pindexBest →
    p.hashBlock = b.getHash P → n₀.SharesModifier P b rest

/-- **STAKES ARE PROVEN ON THEIR OWN CHAIN**, in every run at whose calls the modifiers were shared. -/
theorem stakes_proven (hrun : StakeRun P H K calls n) (hshared : ModifiersShared P calls n) :
    StakesProven P H calls n := by
  obtain ⟨hbooks, hcalls⟩ := hrun.stakeBooks
  intro p q rest hsuf
  have hr := hbooks.rooted
  have hin := hr.suffix hbooks.inTree hsuf (List.cons_ne_nil _ _)
  obtain ⟨b, hfile, hhash, n₀, hcall, hvouched⟩ := hbooks.accepted p q rest hin
  refine ⟨b, hfile, hhash, fun hpos => ⟨n₀, hcall, ?_⟩⟩
  refine (hvouched hpos).along (hcalls _ hcall).toChainOk hr (fun ptr hptr => ?_) (hr.parent _ _ _ hin) ?_
  · exact hbooks.kept ptr ⟨_, hcall, hptr⟩
  · exact hshared n₀ b hcall hpos p (q :: rest) hsuf hhash.symm

theorem StakeRun.feed {fFrom : Bool} {blocks : List CBlock} (h : StakeRun P H K calls n)
    (hfeed : blocks.foldlM (processBlock P H K · fFrom) n = .ok n') :
    ∃ more, StakeRun P H K (calls ++ more) n' ∧ ∀ c ∈ more, c.2 ∈ blocks := by
  induction blocks generalizing calls n with
  | nil =>
    cases hfeed
    exact ⟨[], by rwa [List.append_nil], fun _ hc => absurd hc List.not_mem_nil⟩
  | cons b blocks ih =>
    rw [List.foldlM_cons, bind_ok] at hfeed
    obtain ⟨n₁, hn₁, hfeed⟩ := hfeed
    obtain ⟨more, hrun, hmore⟩ := ih (h.process fFrom b (Or.inl hn₁)) hfeed
    rw [List.append_assoc] at hrun
    refine ⟨_, hrun, fun c hc => ?_⟩
    rcases List.mem_cons.mp hc with rfl | hc
    · exact List.mem_cons_self
    · exact List.mem_cons_of_mem _ (hmore c hc)

end Node

/-! ## Another branch -/

namespace OtherBranch

open Sample Node Staking

theorem onlyGenesis : OnlyGenesis start where
  toCheckpointAtGenesis := Sidelined.checkpointAtGenesis true
  alone ptr hin := by
    have hin : NodeState.InTree { start with fTestNet := true }.toNodeState ptr := hin
    rw [Sidelined.inTree_start hin]
    rfl
  noOrphans := rfl

/-- On the branch of `X13`, where the modifier is 1, `S14` comes in; then `Y13`, on which it waited and where the
    modifier is 0.  It is the tip, and its proof does not pass with the links of that branch. -/
theorem stake_otherBranch : ∃ calls n, StakeRun primitives kernelHashes checkpointKey calls n ∧
    n.hashBestChain = hashS14 ∧ blockS14.isProofOfStake = true ∧
    ¬ StakesProven primitives kernelHashes calls n := by
  have hfed : ((feed start firstBlocks).toOption.bind fun n₁ =>
      (n₁.processBlock primitives kernelHashes checkpointKey true blockS14).toOption.bind fun n₂ =>
      (n₂.processBlock primitives kernelHashes checkpointKey true blockY13).toOption.map fun n₃ =>
        (n₃.hashBestChain, decide (2 ≤ n₃.pindexBest.length),
          n₃.pindexBest.head?.bind fun p => n₃.files.block p.nFile p.nBlockPos,
          blockS14.vtx[1]?.map fun tx => (checkProofOfStake primitives kernelHashes n₁.globals
            n₃.tree.mapBlockIndex (NodeState.linksAlong n₃.pindexBest.tail) n₁.txdb tx blockS14.nBits).isOk)) =
      some (hashS14, true, some blockS14, some false) := by decide +kernel
  obtain ⟨n₁, hn₁, hfed⟩ := Option.bind_eq_some_iff.mp hfed
  obtain ⟨n₂, hn₂, hfed⟩ := Option.bind_eq_some_iff.mp hfed
  obtain ⟨n₃, hn₃, heq⟩ := Option.map_eq_some_iff.mp hfed
  obtain ⟨htip, heq⟩ := Prod.mk.inj heq
  obtain ⟨hlong, heq⟩ := Prod.mk.inj heq
  obtain ⟨hfile, hfails⟩ := Prod.mk.inj heq
  obtain ⟨more, hrun, hmore⟩ := (StakeRun.start onlyGenesis).feed (ok_of_toOption hn₁)
  have hrun₂ := hrun.process true blockS14 (Or.inl (ok_of_toOption hn₂))
  have hrun₃ := hrun₂.process true blockY13 (Or.inl (ok_of_toOption hn₃))
  refine ⟨_, n₃, hrun₃, htip, by decide, fun hproven => ?_⟩
  obtain ⟨p, q, rest, hbest⟩ : ∃ p q rest, n₃.pindexBest = p :: q :: rest := by
    have hlong := of_decide_eq_true hlong
    generalize n₃.pindexBest = ptr at hlong
    cases ptr with
    | nil => exact absurd hlong (by decide)
    | cons p ptr =>
      cases ptr with
      | nil => exact absurd hlong (by decide : ¬ 2 ≤ 1)
      | cons q rest => exact ⟨p, q, rest, rfl⟩
  obtain ⟨b, hb, -, hstake⟩ := hproven p q rest (by rw [hbest])
  rw [hbest, List.head?_cons, Option.bind_some, hb] at hfile
  obtain rfl := Option.some.inj hfile
  obtain ⟨n₀, hcall, tx, hash, htx, hcheck⟩ := hstake (by decide)
  -- the only call with `S14`
  have hn₀ : n₀ = n₁ := by
    rcases List.mem_append.mp hcall with hcall | hcall
    · rcases List.mem_append.mp hcall with hcall | hcall
      · have hnot : blockS14 ∉ firstBlocks := by decide
        exact absurd (hmore _ hcall) hnot
      · exact (Prod.mk.inj (List.mem_singleton.mp hcall)).1
    · have hne : blockS14 ≠ blockY13 := by decide
      exact absurd (Prod.mk.inj (List.mem_singleton.mp hcall)).2 hne
  subst hn₀
  rw [htx, Option.map_some, hbest, List.tail_cons, hcheck] at hfails
  cases hfails

/-- A block on `X13`, which stakes the first coinbase too. -/
def blockT14 : CBlock :=
  stakeBlock hashX13
    0x5797658e23ef1f90aed7a535ad8c786baa7ea855d4bf97f54fa9b8cfbf25cbfb 1399206742 [0x5e, 0x54] 1
    [
      0x30, 0x44, 0x02, 0x20, 0x2a, 0x07, 0xda, 0x47, 0xe2, 0xcf, 0xaf, 0x17, 0x48, 0x6a, 0x4c,
      0xcb, 0xef, 0xfa, 0x80, 0xc8, 0x8f, 0x87, 0xd3, 0xc8, 0xbd, 0xa5, 0xb8, 0xd1, 0x5c, 0xaa,
      0x1f, 0x45, 0x02, 0x7d, 0xab, 0x72, 0x02, 0x20, 0x27, 0xba, 0xcd, 0x88, 0x13, 0x64, 0x3d,
      0x13, 0x23, 0xd7, 0xad, 0x5e, 0x5e, 0xba, 0xdc, 0xa4, 0x91, 0x30, 0x58, 0x13, 0x89, 0x75,
      0x73, 0x94, 0x6c, 0x6b, 0xfc, 0x33, 0xbe, 0xa0, 0x13, 0x49]

def hashT14 : Uint256 := 0x75b5db05c72b291c95c9bbc0403ce0257d60cbb2db78eab475747b5295d14980

/-- Its coinbase and its coinstake. -/
def hashesT14 : Uint256 × Uint256 :=
  (0x6ccb6f1e1237b3f12f27a2726ad61993d3b424329ea0c118516a9ceb16a3ef0c,
    0x23b9aef904870bf02610a29e2bfe72a73649bcd9cd9e97d8d90df4d6d3b69248)

def ownPrimitives : Primitives := Primitives.ofTables
  (Ripening.txs ++ (works.flatMap fun r => r.1.vtx.map fun tx => (tx, r.1.hashMerkleRoot)) ++
    blockT14.vtx.zip [hashesT14.1, hashesT14.2])
  ((Ripening.chainK11.map fun c => (c.block.toCBlockHeader, c.pindex.hashBlock)) ++
    (works ++ [(blockT14, hashT14)]).map fun r => (r.1.toCBlockHeader, r.2))
  [(hashesT14, blockT14.hashMerkleRoot)]

def ownKernelHashes : KernelHashes := { kernelHashes with
  checksum := fun prev nFlags hashProofOfStake nStakeModifier =>
    ((((0x7658d1f2, 1, 0x020913220cb676cc158f8b8a1fdc15f3a7a6c2b6a95075e38c9b50a77eb6fad1, 1),
        0x5c7a004d73cb9ca574af64c1b592a4191905ddf5666ed0d7091c3b230e7e0620) :: checksums).lookup
      (prev.getD 0, nFlags, hashProofOfStake, nStakeModifier)).getD 0 }

/-- `T14` comes in while its parent is the tip. -/
theorem stakes_proven_T14 : ∃ calls n, StakeRun ownPrimitives ownKernelHashes checkpointKey calls n ∧
    n.hashBestChain = hashT14 ∧ blockT14.isProofOfStake = true ∧
    StakesProven ownPrimitives ownKernelHashes calls n := by
  have hfed : ((firstBlocks.foldlM (processBlock ownPrimitives ownKernelHashes checkpointKey · true)
      start).toOption.bind fun n₁ =>
      (n₁.processBlock ownPrimitives ownKernelHashes checkpointKey true blockT14).toOption.map fun n₂ =>
        (n₂.hashBestChain, decide (n₂.pindexBest.tail = n₁.pindexBest),
          n₁.pindexBest.all fun p => decide (p.hashBlock ≠ hashT14))) = some (hashT14, true, true) := by
    decide +kernel
  obtain ⟨n₁, hn₁, hfed⟩ := Option.bind_eq_some_iff.mp hfed
  obtain ⟨n₂, hn₂, heq⟩ := Option.map_eq_some_iff.mp hfed
  obtain ⟨htip, heq⟩ := Prod.mk.inj heq
  obtain ⟨htail, hnot⟩ := Prod.mk.inj heq
  obtain ⟨more, hrun, hmore⟩ := (StakeRun.start onlyGenesis).feed (ok_of_toOption hn₁)
  have hrun₂ := hrun.process true blockT14 (Or.inl (ok_of_toOption hn₂))
  refine ⟨_, n₂, hrun₂, htip, by decide, stakes_proven hrun₂ ?_⟩
  intro n₀ b hcall hpos p rest hsuf hhash hashFrom _ hlater
  rcases List.mem_append.mp hcall with hcall | hcall
  · have hwork : ∀ b ∈ firstBlocks, b.isProofOfStake = false := by decide
    have hwork := hwork b (hmore _ hcall)
    rw [hpos] at hwork
    cases hwork
  · obtain ⟨rfl, rfl⟩ := Prod.mk.inj (List.mem_singleton.mp hcall)
    -- `T14` is on top of the best chain of that call
    have hrest : rest = n₀.pindexBest := by
      rw [← of_decide_eq_true htail] at hnot ⊢
      cases hbest : n₂.pindexBest with
      | nil =>
        rw [hbest] at hsuf
        exact absurd (List.suffix_nil.mp hsuf) (List.cons_ne_nil _ _)
      | cons top below =>
        rw [hbest] at hsuf hnot
        rcases List.suffix_cons_iff.mp hsuf with heq | hbelow
        · exact (List.cons.inj heq).2
        · have hp := List.all_eq_true.mp hnot p (hbelow.subset List.mem_cons_self)
          have hT14 : blockT14.getHash ownPrimitives = hashT14 := by decide
          exact absurd (hhash.trans hT14) (of_decide_eq_true hp)
    obtain ⟨ptr, hptr, hgen⟩ := hlater
    exact ⟨ptr, hptr, by rwa [hrest], hgen⟩

end OtherBranch
end Silkcoin
