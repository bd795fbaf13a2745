/-
  `FindBlockByHeight`, with the block it remembers from the last call.

  The walk starts from genesis, from the tip or from the remembered block, whichever is nearest, first down
  along `pprev` and then up along `pnext`.  The start must be on the MAIN CHAIN: from a block of another
  branch the walk down would stay there, and the walk up would come to a null pointer.

  What protects it is that `SetBestChain` forgets the block whenever it moves the tip.  `TipLinked` is the
  state between two calls, `HeightSteps` the histories: entries come into the tree, the tip is extended or
  moved to another branch, a switch fails and leaves the links as they were, heights are asked for.  In every
  one of them the remembered block is an ancestor of the tip (`HeightStep.remembers`), and so the answer is
  right (`findBlockByHeight_run`).
-/
import Silkcoin.MainChain
import Silkcoin.FailedSwitch
import Silkcoin.AddBlock

namespace Silkcoin

open Validation Lineage BatchStore

namespace NodeState

variable (P : Primitives) (s : NodeState)

/-! ## The call -/

/-- Where the walk starts; `last` is `pblockindexFBBHLast`. -/
def findStart (last : BlockPtr) (nHeight : Int) : BlockPtr :=
  let pblockindex := if nHeight < s.nBestHeight.tdiv 2 then s.pindexGenesisBlock else s.pindexBest
  match last, pblockindex with
  | l :: _, p :: _ => if |nHeight - p.nHeight| > |nHeight - l.nHeight| then last else pblockindex
  | _, _ => pblockindex

/-- Up along `pnext`; `none` is a null pointer that is looked into, or no more fuel. -/
def climbTo (nHeight : Int) : Nat → BlockPtr → Option BlockPtr
  | _, [] => none
  | fuel, pindex :: pprev =>
    if (pindex.nHeight : Int) < nHeight then
      match fuel with
      | 0 => none
      | fuel + 1 => (s.next (pindex :: pprev)).bind (climbTo nHeight fuel)
    else some (pindex :: pprev)

/-- What `FindBlockByHeight` returns, and remembers. -/
def findBlockByHeight (fuel : Nat) (last : BlockPtr) (nHeight : Int) : Option BlockPtr :=
  s.climbTo nHeight fuel ((s.findStart last nHeight).dropWhile fun p => decide ((p.nHeight : Int) > nHeight))

/-! ## Between two calls -/

/-- The tip is in the tree, the node's records are about it, and the links lead to it. -/
structure TipLinked (s : NodeState) : Prop where
  rooted : Rooted s
  zero : ∀ genesis ∈ s.pindexGenesisBlock, genesis.nHeight = 0
  inTree : InTree s s.pindexBest
  tip : s.pindexBest.head?.map CBlockIndex.hashBlock = some s.hashBestChain
  height : s.nBestHeight = ((s.pindexBest.head?.map CBlockIndex.nHeight).getD 0 : Nat)
  links : NextLinks s.mem s.pindexBest

/-- A new entry, as `AddToBlockIndex` makes it. -/
def insertEntry (pindexNew : CBlockIndex) (pprev : BlockPtr) : NodeState :=
  { s with
    tree := { s.tree with
      mapBlockIndex := s.tree.mapBlockIndex.insert pindexNew.hashBlock (pindexNew :: pprev) }
    mem := Function.update s.mem pindexNew.hashBlock BlockMem.new }

/-- One step of a history, of the node and of the block that `FindBlockByHeight` remembers. -/
inductive HeightStep : NodeState × BlockPtr → NodeState × BlockPtr → Prop where
  /-- a block is accepted on top of one of the tree -/
  | insert {s : NodeState} {last : BlockPtr} {pindexNew prev : CBlockIndex} {rest : BlockPtr}
      (hfresh : s.tree.mapBlockIndex.lookup pindexNew.hashBlock = none) (hprev : InTree s (prev :: rest))
      (hheight : pindexNew.nHeight = prev.nHeight + 1) :
      HeightStep (s, last) (s.insertEntry pindexNew (prev :: rest), last)
  /-- `SetBestChain` to a block of the tree, with all blocks connected; the remembered block is forgotten -/
  | completed {s s' : NodeState} {last : BlockPtr} {pindex : CBlockIndex} {rest : BlockPtr} {b : CBlock}
      (hnew : InTree s (pindex :: rest)) (hhash : b.getHash P = pindex.hashBlock)
      (hprev : ∀ prev ∈ rest.head?, b.hashPrevBlock = prev.hashBlock)
      (hall : PostponedConnect P s (pindex :: rest) b)
      (h : s.setBestChain P (pindex :: rest) b = .ok s') : HeightStep (s, last) (s', [])
  /-- `SetBestChain` returns `false` -/
  | failed {s s' : NodeState} {last pindexNew : BlockPtr} {b : CBlock} {nDoS : Nat} {msg : String}
      (h : s.setBestChain P pindexNew b = .error ⟨.reject nDoS msg, s'⟩) : HeightStep (s, last) (s', last)
  | find {s : NodeState} {last ptr : BlockPtr} {nHeight : Int} {fuel : Nat} (h0 : 0 ≤ nHeight)
      (hle : nHeight ≤ s.nBestHeight) (h : s.findBlockByHeight fuel last nHeight = some ptr) :
      HeightStep (s, last) (s, ptr)
  /-- anything that leaves the blocks, the links and the tip alone -/
  | other {s s' : NodeState} {last : BlockPtr} (hsame : SameTree s s') (hmem : s'.mem = s.mem)
      (hbest : s'.pindexBest = s.pindexBest) (hhash : s'.hashBestChain = s.hashBestChain)
      (hheight : s'.nBestHeight = s.nBestHeight) : HeightStep (s, last) (s', last)

abbrev HeightSteps := Relation.ReflTransGen (HeightStep P)

variable {P s} {s' : NodeState}

/-! ## The walk -/

theorem TipLinked.getLast? (h : TipLinked s) {ptr : BlockPtr} (hin : InTree s ptr) :
    ∃ genesis, s.pindexGenesisBlock = [genesis] ∧ ptr.getLast? = some genesis ∧ genesis.nHeight = 0 := by
  obtain ⟨genesis, hgenesis, hroot⟩ := h.rooted.root
  obtain ⟨pre, rfl⟩ := hroot _ hin
  exact ⟨genesis, hgenesis, List.getLast?_concat, h.zero genesis (hgenesis ▸ List.mem_singleton_self _)⟩

theorem TipLinked.ne_nil (h : TipLinked s) : s.pindexBest ≠ [] := by
  intro hnil
  have := h.tip
  rw [hnil] at this
  cases this

/-- The height of a block of the tree is the number of blocks below it. -/
theorem TipLinked.height_eq (h : TipLinked s) {p : CBlockIndex} {rest : BlockPtr} (hin : InTree s (p :: rest)) :
    p.nHeight = rest.length := by
  obtain ⟨genesis, -, hlast, hzero⟩ := h.getLast? hin
  have := (h.rooted.ranked hin).rank_head hlast
  omega

theorem TipLinked.nBestHeight_eq (h : TipLinked s) : s.nBestHeight = (s.pindexBest.length : Int) - 1 := by
  obtain ⟨p, rest, hp⟩ := List.exists_cons_of_ne_nil h.ne_nil
  have hheight := h.height_eq (hp ▸ h.inTree)
  rw [h.height, hp, List.head?_cons, Option.map_some, Option.getD_some, hheight, List.length_cons]
  omega

theorem climbTo_here {nHeight : Int} {fuel : Nat} {p : CBlockIndex} {rest : BlockPtr} (h : nHeight ≤ p.nHeight) :
    s.climbTo nHeight fuel (p :: rest) = some (p :: rest) := by
  unfold climbTo
  exact if_neg (by omega)

theorem climbTo_up {nHeight : Int} {fuel : Nat} {p : CBlockIndex} {rest : BlockPtr} (h : p.nHeight < nHeight) :
    s.climbTo nHeight (fuel + 1) (p :: rest) = (s.next (p :: rest)).bind (s.climbTo nHeight fuel) :=
  (climbTo.eq_def ..).trans (if_pos h)

/-- More fuel does not change an answer. -/
theorem climbTo_mono {nHeight : Int} {fuel fuel' : Nat} {ptr r : BlockPtr}
    (h : s.climbTo nHeight fuel ptr = some r) (hle : fuel ≤ fuel') : s.climbTo nHeight fuel' ptr = some r := by
  induction fuel generalizing fuel' ptr with
  | zero =>
    cases ptr with
    | nil => simp [climbTo.eq_def] at h
    | cons p rest =>
      by_cases hp : (p.nHeight : Int) < nHeight
      · rw [climbTo.eq_def] at h
        simp [hp] at h
      · rw [climbTo_here (by omega)] at h ⊢
        exact h
  | succ fuel ih =>
    obtain ⟨fuel', rfl⟩ : ∃ k, fuel' = k + 1 := ⟨fuel' - 1, by omega⟩
    cases ptr with
    | nil => simp [climbTo.eq_def] at h
    | cons p rest =>
      by_cases hp : (p.nHeight : Int) < nHeight
      · rw [climbTo_up hp] at h ⊢
        obtain ⟨next, hnext, hclimb⟩ := Option.bind_eq_some_iff.mp h
        rw [hnext, Option.bind_some]
        exact ih hclimb (by omega)
      · rw [climbTo_here (by omega)] at h ⊢
        exact h

/-- Up the main chain, from a block that is not above the height. -/
theorem climbTo_eq (h : TipLinked s) {pre : BlockPtr} {p : CBlockIndex} {rest : BlockPtr}
    (hp : s.pindexBest = pre ++ p :: rest) {nHeight : Nat} (hge : p.nHeight ≤ nHeight)
    (hle : nHeight ≤ p.nHeight + pre.length) {fuel : Nat} (hfuel : nHeight - p.nHeight ≤ fuel) :
    ∃ q below, s.climbTo nHeight fuel (p :: rest) = some (q :: below) ∧ q :: below <:+ s.pindexBest ∧
      q.nHeight = nHeight := by
  induction pre using List.reverseRecOn generalizing p rest fuel with
  | nil =>
    rw [List.length_nil] at hle
    exact ⟨p, rest, climbTo_here (by omega), ⟨[], hp.symm⟩, by omega⟩
  | append_singleton pre x ih =>
    rw [List.length_append, List.length_singleton] at hle
    rcases Nat.eq_or_lt_of_le hge with heq | hlt
    · exact ⟨p, rest, climbTo_here (by omega), ⟨_, hp.symm⟩, heq⟩
    · obtain ⟨fuel, rfl⟩ : ∃ k, fuel = k + 1 := ⟨fuel - 1, by omega⟩
      rw [List.append_assoc, List.singleton_append] at hp
      have hin := h.inTree
      have hlinks := h.links p.hashBlock
      rw [hp] at hin hlinks
      have hx : InTree s (x :: p :: rest) := h.rooted.suffix hin ⟨pre, rfl⟩ (List.cons_ne_nil _ _)
      have hnext : s.next (p :: rest) = some (x :: p :: rest) := by
        show ((s.mem p.hashBlock).pnext.bind _) = _
        rw [hlinks, nextOn_append (h.rooted.nodup hin), Option.bind_some]
        exact h.rooted.lookup hx
      have hstep := h.rooted.height x p rest hx
      rw [climbTo_up (by omega), hnext, Option.bind_some]
      exact ih hp (by omega) (by omega) (by omega)

/-- The walk from any block of the main chain. -/
theorem findBlockByHeight_eq (h : TipLinked s) {last : BlockPtr} (hlast : last <:+ s.pindexBest)
    {nHeight : Int} (h0 : 0 ≤ nHeight) (hle : nHeight ≤ s.nBestHeight) {fuel : Nat}
    (hfuel : nHeight ≤ fuel) :
    ∃ q below, s.findBlockByHeight fuel last nHeight = some (q :: below) ∧ q :: below <:+ s.pindexBest ∧
      q.nHeight = nHeight := by
  lift nHeight to Nat using h0
  obtain ⟨genesis, hgenesis, hroot, hzero⟩ := h.getLast? h.inTree
  have hstart : s.findStart last nHeight <:+ s.pindexBest ∧ s.findStart last nHeight ≠ [] := by
    have hbase : (if (nHeight : Int) < s.nBestHeight.tdiv 2 then s.pindexGenesisBlock else s.pindexBest)
        <:+ s.pindexBest ∧
        (if (nHeight : Int) < s.nBestHeight.tdiv 2 then s.pindexGenesisBlock else s.pindexBest) ≠ [] := by
      split
      · rw [hgenesis]
        obtain ⟨pre, hpre⟩ := List.getLast?_eq_some_iff.mp hroot
        exact ⟨⟨pre, hpre.symm⟩, List.cons_ne_nil _ _⟩
      · exact ⟨List.suffix_refl _, h.ne_nil⟩
    unfold findStart
    dsimp only
    split
    · rename_i hp
      split
      · exact ⟨hlast, List.cons_ne_nil _ _⟩
      · exact hp ▸ hbase
    · exact hbase
  obtain ⟨hsuf, hne⟩ := hstart
  unfold findBlockByHeight
  have hstartIn := h.rooted.suffix h.inTree hsuf hne
  have hstartRoot : (s.findStart last nHeight).getLast? = some genesis := by
    obtain ⟨genesis', hgenesis', hlast', -⟩ := h.getLast? hstartIn
    rw [hgenesis] at hgenesis'
    cases hgenesis'
    exact hlast'
  generalize s.findStart last nHeight = start at hsuf hne hstartIn hstartRoot ⊢
  have hranked := h.rooted.ranked hstartIn
  have hcast : (fun p : CBlockIndex => decide ((p.nHeight : Int) > nHeight)) =
      fun p => decide (nHeight < p.nHeight) := by
    funext p
    exact decide_eq_decide.mpr (by omega)
  rw [hcast]
  have hbest := h.nBestHeight_eq
  by_cases habove : nHeight < start.length
  · -- at or above the height: down to it, and no way up
    obtain ⟨q, below, hdrop, hqsuf, hq⟩ := hranked.head_dropWhile hstartRoot (n := nHeight)
      (by omega) (by omega)
    rw [hdrop]
    exact ⟨q, below, climbTo_here (by omega), hqsuf.trans hsuf, by rw [hq]⟩
  · -- below it: no way down, and up to it
    obtain ⟨p, rest, rfl⟩ := List.exists_cons_of_ne_nil hne
    have hp := h.height_eq hstartIn
    obtain ⟨pre, hpre⟩ := hsuf
    rw [List.length_cons] at habove
    rw [List.dropWhile_cons_of_neg (by simp only [decide_eq_true_eq]; omega)]
    have hlen := congrArg List.length hpre
    rw [List.length_append, List.length_cons] at hlen
    obtain ⟨q, below, hclimb, hqsuf, hq⟩ := climbTo_eq h hpre.symm (show p.nHeight ≤ nHeight by omega)
      (by omega) (show nHeight - p.nHeight ≤ fuel by omega)
    exact ⟨q, below, hclimb, hqsuf, by rw [hq]⟩

/-! ## The steps -/

theorem nextOn_of_fresh (hr : Rooted s) {hash : Uint256} (hfresh : s.tree.mapBlockIndex.lookup hash = none)
    (hin : InTree s s.pindexBest) : nextOn s.pindexBest hash = none := by
  refine nextOn_of_notMem fun hmem => ?_
  obtain ⟨q, hq, rfl⟩ := List.mem_map.mp hmem
  obtain ⟨pre, post, hsplit⟩ := List.append_of_mem (List.mem_of_mem_tail hq)
  have := hr.lookup (hr.suffix hin ⟨pre, hsplit.symm⟩ (List.cons_ne_nil q post))
  rw [hfresh] at this
  cases this

theorem lookup_insertEntry (s : NodeState) (pindexNew : CBlockIndex) (pprev : BlockPtr) (hash : Uint256) :
    (s.insertEntry pindexNew pprev).tree.mapBlockIndex.lookup hash =
      if pindexNew.hashBlock = hash then some (pindexNew :: pprev) else s.tree.mapBlockIndex.lookup hash :=
  lookup_insert_eq_ite _ _ _ _

theorem inTree_insertEntry {pindexNew : CBlockIndex} {pprev : BlockPtr}
    (hfresh : s.tree.mapBlockIndex.lookup pindexNew.hashBlock = none) {ptr : BlockPtr} :
    InTree (s.insertEntry pindexNew pprev) ptr ↔ ptr = pindexNew :: pprev ∨ InTree s ptr := by
  constructor
  · rintro ⟨hash, hptr⟩
    rw [lookup_insertEntry] at hptr
    split at hptr
    · exact Or.inl (Option.some.inj hptr).symm
    · exact Or.inr ⟨hash, hptr⟩
  · rintro (rfl | ⟨hash, hptr⟩)
    · exact ⟨pindexNew.hashBlock, by rw [lookup_insertEntry, if_pos rfl]⟩
    · refine ⟨hash, ?_⟩
      rw [lookup_insertEntry, if_neg, hptr]
      rintro rfl
      rw [hfresh] at hptr
      cases hptr

/-- The tree with one entry more. -/
theorem Rooted.insert (hr : Rooted s) {pindexNew prev : CBlockIndex} {rest : BlockPtr}
    (hfresh : s.tree.mapBlockIndex.lookup pindexNew.hashBlock = none) (hprev : InTree s (prev :: rest))
    (hheight : pindexNew.nHeight = prev.nHeight + 1) : Rooted (s.insertEntry pindexNew (prev :: rest)) := by
  obtain ⟨genesis, hgenesis, hroot⟩ := hr.root
  refine ⟨?_, ?_, ⟨genesis, hgenesis, ?_⟩, ?_⟩
  · intro hash ptr hptr
    rw [lookup_insertEntry] at hptr
    split at hptr
    · rename_i heq
      cases hptr
      exact congrArg some heq
    · exact hr.keyed hash ptr hptr
  · intro p q l hptr
    rw [inTree_insertEntry hfresh] at hptr ⊢
    rcases hptr with heq | hptr
    · cases heq
      exact Or.inr hprev
    · exact Or.inr (hr.parent p q l hptr)
  · intro ptr hptr
    rcases (inTree_insertEntry hfresh).mp hptr with rfl | hptr
    · obtain ⟨pre, hpre⟩ := hroot _ hprev
      exact ⟨pindexNew :: pre, by rw [hpre]; rfl⟩
    · exact hroot _ hptr
  · intro p q l hptr
    rcases (inTree_insertEntry hfresh).mp hptr with heq | hptr
    · cases heq
      exact hheight
    · exact hr.height p q l hptr

/-- A new entry makes no difference to the old ones. -/
theorem TipLinked.insert (h : TipLinked s) {pindexNew prev : CBlockIndex} {rest : BlockPtr}
    (hfresh : s.tree.mapBlockIndex.lookup pindexNew.hashBlock = none) (hprev : InTree s (prev :: rest))
    (hheight : pindexNew.nHeight = prev.nHeight + 1) : TipLinked (s.insertEntry pindexNew (prev :: rest)) := by
  refine ⟨h.rooted.insert hfresh hprev hheight, h.zero, (inTree_insertEntry hfresh).mpr (Or.inr h.inTree), h.tip,
    h.height, ?_⟩
  intro hash
  show (Function.update s.mem pindexNew.hashBlock BlockMem.new hash).pnext = nextOn s.pindexBest hash
  by_cases heq : hash = pindexNew.hashBlock
  · rw [heq, Function.update_self, nextOn_of_fresh h.rooted hfresh h.inTree]
    rfl
  · rw [Function.update_of_ne heq]
    exact h.links hash

/-- The block on top: the links behind it are those of the new tip. -/
theorem setBestChainInner_links {p q : CBlockIndex} {rest : BlockPtr} {b : CBlock}
    (hl : NextLinks s.mem (q :: rest)) (h : s.setBestChainInner P (p :: q :: rest) b = .ok s') :
    NextLinks s'.mem (p :: q :: rest) ∧ SameTree s s' := by
  simp only [setBestChainInner, bind_ok, onFalse_ok, pure_ok] at h
  obtain ⟨s₁, hconnect, s₂, hcommit, rfl⟩ := h
  obtain ⟨r, wallets, hr, rfl⟩ := connectBlock_ok hconnect
  have hs₂ := txnCommit_ok hcommit
  have hl₂ : NextLinks s₂.mem (q :: rest) := by
    intro hash
    rw [hs₂]
    exact (connectBlock_pnext hr hash).trans (hl hash)
  have hsame := setNext_ok (s := s₂) (some p.hashBlock) (q :: rest)
  refine ⟨hl₂.link, ?_⟩
  subst hs₂
  exact ⟨hsame.fTestNet, hsame.files, hsame.tree, hsame.pindexGenesisBlock⟩

/-- The postponed blocks, if all of them are connected. -/
theorem connectFurther_links {pre f : BlockPtr} (hf : f ≠ []) (hl : NextLinks s.mem f)
    (hall : ∃ t, (pathTo f (pre ++ f)).reverse.foldlM (connectPostponed P) s = .ok t)
    (h : connectFurther P s (pathTo f (pre ++ f)).reverse = .ok s') :
    NextLinks s'.mem (pre ++ f) ∧ SameTree s s' := by
  have hrun : ∀ (l : List BlockPtr) {s t s' : NodeState}, l.foldlM (connectPostponed P) s = .ok t →
      connectFurther P s l = .ok s' → s' = t := by
    intro l
    induction l with
    | nil =>
      intro s t s' hfold hfurther
      cases hfold
      cases hfurther
      rfl
    | cons ptr l ih =>
      intro s t s' hfold hfurther
      rw [List.foldlM_cons, bind_ok] at hfold
      obtain ⟨s₁, hstep, hfold⟩ := hfold
      rw [connectFurther, hstep] at hfurther
      exact ih hfold hfurther
  obtain ⟨t, hall⟩ := hall
  obtain rfl := hrun _ hall h
  clear h
  induction pre generalizing s' with
  | nil =>
    rw [List.nil_append, pathTo_self] at hall
    cases hall
    exact ⟨hl, SameTree.refl _⟩
  | cons p pre ih =>
    rw [List.cons_append] at hall ⊢
    rw [pathTo_cons_append, List.reverse_cons, List.foldlM_append, bind_ok] at hall
    obtain ⟨s₁, hall, hlast⟩ := hall
    obtain ⟨hl₁, hsame₁⟩ := ih hall
    obtain ⟨q, rest, hq⟩ := List.exists_cons_of_ne_nil (l := pre ++ f)
      (fun hnil => hf (List.append_eq_nil_iff.mp hnil).2)
    rw [hq] at hl₁ hlast ⊢
    rw [List.foldlM_cons, bind_ok] at hlast
    obtain ⟨s₂, hstep, hend⟩ := hlast
    cases hend
    unfold connectPostponed at hstep
    split at hstep
    · cases hstep
    · rw [bind_ok] at hstep
      obtain ⟨t, hbegin, hinner⟩ := hstep
      have hsame := (InTxn.begin hbegin).same
      obtain ⟨-, ht⟩ := txnBegin_ok hbegin
      obtain ⟨hl₂, hsame₂⟩ := setBestChainInner_links (s := t) (by rw [ht]; exact hl₁) hinner
      exact ⟨hl₂, (hsame₁.trans hsame).trans hsame₂⟩

/-- **A completed `SetBestChain`** leaves the links of its new tip. -/
theorem TipLinked.setBestChain (h : TipLinked s) {pindex : CBlockIndex} {rest : BlockPtr} {b : CBlock}
    (hnew : InTree s (pindex :: rest)) (hhash : b.getHash P = pindex.hashBlock)
    (hprev : ∀ prev ∈ rest.head?, b.hashPrevBlock = prev.hashBlock)
    (hall : PostponedConnect P s (pindex :: rest) b) (hok : s.setBestChain P (pindex :: rest) b = .ok s') :
    TipLinked s' := by
  unfold NodeState.setBestChain at hok
  simp only [bind_ok, pure_ok] at hok
  obtain ⟨s₁, hmove, rfl⟩ := hok
  suffices hlinks : NextLinks s₁.mem (pindex :: rest) ∧ SameTree s s₁ by
    obtain ⟨hl, hsame⟩ := hlinks
    have hsame' : SameTree s (s₁.publish (pindex :: rest) (b.getHash P)) :=
      ⟨hsame.fTestNet, hsame.files, hsame.tree, hsame.pindexGenesisBlock⟩
    refine ⟨h.rooted.of_same hsame', ?_, hsame'.inTree.mpr hnew, congrArg some hhash.symm, rfl, hl⟩
    rw [hsame'.pindexGenesisBlock]
    exact h.zero
  unfold moveChain at hmove
  rw [bind_ok] at hmove
  obtain ⟨s₀, hbegin, hmove⟩ := hmove
  have hsame₀ := (InTxn.begin hbegin).same
  obtain ⟨hclosed, hs₀⟩ := txnBegin_ok hbegin
  obtain ⟨genesis, hgenesis, -⟩ := h.rooted.root
  have hl₀ : NextLinks s₀.mem s.pindexBest := by
    rw [hs₀]
    exact h.links
  rw [if_neg (fun hg => by rw [hs₀] at hg; rw [hgenesis] at hg; cases hg.1)] at hmove
  split at hmove
  · -- on top of the tip
    rename_i htip
    rw [onFalse_ok] at hmove
    have htip : b.hashPrevBlock = s.hashBestChain := by rw [htip, hs₀]
    cases rest with
    | nil => cases hmove
    | cons prev rest =>
      obtain ⟨top, below, htop⟩ := List.exists_cons_of_ne_nil h.ne_nil
      have hheads : prev.hashBlock = top.hashBlock := by
        have := h.tip
        rw [htop] at this
        rw [← hprev prev rfl, htip, ← Option.some.inj this]
      have hon : prev :: rest = s.pindexBest := by
        rw [htop]
        exact h.rooted.unique (h.rooted.parent _ _ _ hnew) (htop ▸ h.inTree) hheads
      rw [← hon] at hl₀
      obtain ⟨hl, hsame⟩ := setBestChainInner_links hl₀ hmove
      exact ⟨hl, hsame₀.trans hsame⟩
  · -- to another branch
    rename_i htip
    have hbest : s₀.pindexBest = s.pindexBest := by rw [hs₀]
    unfold switchBranch at hmove
    split at hmove
    · cases hmove
    · rename_i top below htop
      have htrust : chainTrust s.pindexBest = top.nChainTrust := by
        rw [← hbest, htop]
        rfl
      simp only [bind_ok, onFalse_ok] at hmove
      obtain ⟨s₂, hreorg, hfurther⟩ := hmove
      have hdone : ∃ t, (intermediate top.nChainTrust (pindex :: rest)).2.reverse.foldlM (connectPostponed P) s₂ =
          .ok t := by
        rcases hall with htip' | hall
        · exact absurd (by rw [htip', hs₀]) htip
        · have := hall s₀ s₂ hbegin
          unfold postponed at this
          rw [htrust] at this
          exact this hreorg
      obtain ⟨pre, hsplit, hpath, hne⟩ := intermediate_eq top.nChainTrust (pindex :: rest)
      replace hne := hne (List.cons_ne_nil _ _)
      rw [hpath] at hdone hfurther
      generalize (intermediate top.nChainTrust (pindex :: rest)).1 = mid at hsplit hne hreorg hdone hfurther
      have hmid : InTree s mid := h.rooted.suffix hnew ⟨pre, hsplit.symm⟩ hne
      obtain ⟨D, C, fork, -, -, -, -, -, -, -, hswitch⟩ := reorganize_switches (P := P)
        (h.rooted.of_same hsame₀) (hbest ▸ hsame₀.inTree.mpr h.inTree) (hbest ▸ hl₀)
        (hsame₀.inTree.mpr hmid)
      have hl₂ := (hswitch s₂ hreorg).1
      have hsame₂ : SameTree s₀ s₂ := by
        unfold reorganize at hreorg
        simp only [bind_ok, orFail_ok] at hreorg
        obtain ⟨pfork, -, hreplace⟩ := hreorg
        obtain ⟨-, -, -, -, hsame⟩ := replaceBranch_links hreplace
        exact hsame
      rw [hsplit] at hdone hfurther ⊢
      obtain ⟨hl, hsame⟩ := connectFurther_links hne hl₂ hdone hfurther
      exact ⟨hl, (hsame₀.trans hsame₂).trans hsame⟩

/-- STEP LEMMA: the links keep leading to the tip, and the remembered block stays one of its ancestors. -/
theorem HeightStep.remembers {x y : NodeState × BlockPtr} (hstep : HeightStep P x y) (h : TipLinked x.1)
    (hlast : x.2 <:+ x.1.pindexBest) : TipLinked y.1 ∧ y.2 <:+ y.1.pindexBest := by
  cases hstep with
  | insert hfresh hprev hheight => exact ⟨h.insert hfresh hprev hheight, hlast⟩
  | completed hnew hhash hprev hall hok =>
    exact ⟨h.setBestChain hnew hhash hprev hall hok, List.nil_suffix⟩
  | failed hfalse =>
    obtain ⟨hu, hinformed⟩ := setBestChain_false hfalse
    have hsame := hinformed.same
    refine ⟨⟨h.rooted.of_same hsame, ?_, ?_, ?_, ?_, ?_⟩, by rw [hu.pindexBest]; exact hlast⟩
    · rw [hsame.pindexGenesisBlock]
      exact h.zero
    · rw [hu.pindexBest]
      exact hsame.inTree.mpr h.inTree
    · rw [hu.pindexBest, hu.hashBestChain]
      exact h.tip
    · rw [hu.pindexBest, hu.nBestHeight]
      exact h.height
    · rw [hu.pindexBest]
      exact fun hash => (hu.links hash).trans (h.links hash)
  | @find s last ptr nHeight fuel h0 hle hfound =>
    obtain ⟨q, below, hfind, hsuf, -⟩ := findBlockByHeight_eq h hlast h0 hle
      (show nHeight ≤ ((max fuel nHeight.toNat : Nat) : Int) by omega)
    have := (climbTo_mono hfound (Nat.le_max_left fuel nHeight.toNat)).symm.trans hfind
    cases this
    exact ⟨h, hsuf⟩
  | other hsame hmem hbest hhash hheight =>
    refine ⟨⟨h.rooted.of_same hsame, ?_, ?_, ?_, ?_, ?_⟩, by rw [hbest]; exact hlast⟩
    · rw [hsame.pindexGenesisBlock]
      exact h.zero
    · rw [hbest]
      exact hsame.inTree.mpr h.inTree
    · rw [hbest, hhash]
      exact h.tip
    · rw [hbest, hheight]
      exact h.height
    · rw [hbest, hmem]
      exact h.links

/-- **`FindBlockByHeight` IS RIGHT WITH ITS CACHE.**  Behind every history that starts with nothing
    remembered, it returns the block of the main chain at each height up to the tip's, and the walk up takes
    no more steps than the height. -/
theorem findBlockByHeight_run {x y : NodeState × BlockPtr} (hstart : TipLinked x.1) (hlast : x.2 = [])
    (hrun : HeightSteps P x y) {nHeight : Int} (h0 : 0 ≤ nHeight) (hle : nHeight ≤ y.1.nBestHeight) {fuel : Nat}
    (hfuel : nHeight ≤ fuel) :
    ∃ q below, y.1.findBlockByHeight fuel y.2 nHeight = some (q :: below) ∧ q :: below <:+ y.1.pindexBest ∧
      q.nHeight = nHeight := by
  have hall : TipLinked y.1 ∧ y.2 <:+ y.1.pindexBest := by
    clear h0 hle hfuel
    induction hrun with
    | refl => exact ⟨hstart, hlast ▸ List.nil_suffix⟩
    | tail _ hstep ih => exact hstep.remembers ih.1 ih.2
  exact findBlockByHeight_eq hall.1 hall.2 h0 hle hfuel

end NodeState

namespace Switching

open Sample NodeState

theorem tipLinked : TipLinked node where
  rooted := treeOk.rooted
  zero := by
    show ∀ g ∈ [genesis], g.nHeight = 0
    decide
  inTree := ⟨hashA1, by decide⟩
  tip := rfl
  height := rfl
  links := nextLinks

/-- `A1` is remembered, then the tip moves to `B2`, and then the block of the same height is asked for. -/
theorem findBlockByHeight_run_B1 : ∃ q below,
    (after ptrB3.tail blockB2).findBlockByHeight 1 [] 1 = some (q :: below) ∧
      q :: below <:+ (after ptrB3.tail blockB2).pindexBest ∧ (q.nHeight : Int) = 1 := by
  have hfind : HeightStep primitives (node, []) (node, ptrA1) :=
    .find (show (0 : Int) ≤ 1 by decide) (show (1 : Int) ≤ 1 by decide)
      (show node.findBlockByHeight 1 [] 1 = some ptrA1 by decide)
  have hpostponed : node.postponed [indexB2, indexB1, genesis] = [] := by decide
  have hswitch : HeightStep primitives (node, ptrA1) (after ptrB3.tail blockB2, []) := by
    refine .completed ⟨hashB2, by decide⟩ (by decide) (by decide)
      (Or.inr fun s₀ s₁ _ _ => ⟨s₁, ?_⟩) (after_ok (by decide))
    rw [hpostponed]
    rfl
  exact findBlockByHeight_run (P := primitives) tipLinked rfl (.tail (.single hfind) hswitch) (by decide)
    (by decide) (by decide)

end Switching
end Silkcoin
