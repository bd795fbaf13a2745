/-
  The main chain in memory, and what `Reorganize` makes of it.

  A block of the main chain knows the NEXT one (`pnext`), all others know none.  `NextLinks` says that of a
  whole tree: what every block knows is what the tip's lineage says (`nextOn`).  `Reorganize` walks down from
  both tips to their fork, which is the lowest common ancestor (`findFork_eq`), takes the links of one path
  away and sets those of the other; both walks keep the agreement block by block (`NextLinks.unlink`,
  `NextLinks.link`), so afterwards the links are those of the new tip (`reorganize_switches`).

  Where the links agree with a tip, following them from genesis leads through its ancestors (`follow_eq`).
-/
import Silkcoin.TipAgreement
import Silkcoin.Lib.Lineage

namespace Silkcoin

open Validation Lineage

namespace NodeState

/-! ## Following the links -/

/-- The hash that the block has for its next one, if the main chain is the lineage of `ptr`. -/
def nextOn : BlockPtr → Uint256 → Option Uint256
  | pindex :: prev :: rest, hash =>
    if prev.hashBlock = hash then some pindex.hashBlock else nextOn (prev :: rest) hash
  | _, _ => none

/-- The links of the whole tree are those of the tip's lineage. -/
def NextLinks (mem : Uint256 → BlockMem) (tip : BlockPtr) : Prop :=
  ∀ hash, (mem hash).pnext = nextOn tip hash

/-- The block behind `pnext`. -/
def next (s : NodeState) (ptr : BlockPtr) : Option BlockPtr :=
  ptr.head?.bind fun p => (s.mem p.hashBlock).pnext.bind s.tree.mapBlockIndex.lookup

/-- The blocks met on the way up along `pnext`, at most `fuel` of them. -/
def follow (s : NodeState) : Nat → BlockPtr → List BlockPtr
  | 0, _ => []
  | fuel + 1, ptr =>
    ptr :: match s.next ptr with
      | none => []
      | some ptr => follow s fuel ptr

variable {P : Primitives} {s s' : NodeState}

theorem nextOn_of_notMem {ptr : BlockPtr} {hash : Uint256} (h : hash ∉ ptr.tail.map CBlockIndex.hashBlock) :
    nextOn ptr hash = none := by
  induction ptr with
  | nil => rfl
  | cons p rest ih =>
    cases rest with
    | nil => rfl
    | cons q rest =>
      rw [List.tail_cons, List.map_cons, List.mem_cons, not_or] at h
      rw [nextOn, if_neg (fun heq => h.1 heq.symm)]
      exact ih h.2

theorem nextOn_append {pre rest : BlockPtr} {p q : CBlockIndex}
    (hnd : ((pre ++ p :: q :: rest).map CBlockIndex.hashBlock).Nodup) :
    nextOn (pre ++ p :: q :: rest) q.hashBlock = some p.hashBlock := by
  induction pre with
  | nil => exact if_pos rfl
  | cons x pre ih =>
    rw [List.cons_append, List.map_cons, List.nodup_cons] at hnd
    have hq : ∀ y ∈ (pre ++ p :: q :: rest).head?, y.hashBlock ≠ q.hashBlock := by
      intro y hy
      cases pre with
      | nil =>
        cases hy
        have := (List.nodup_cons.mp hnd.2).1
        exact fun heq => this (heq ▸ List.mem_cons_self)
      | cons z pre =>
        cases hy
        rw [List.cons_append, List.map_cons, List.nodup_cons] at hnd
        exact fun heq => hnd.2.1 (heq ▸ List.mem_map_of_mem (by simp))
    rw [List.cons_append]
    cases hy : pre ++ p :: q :: rest with
    | nil => simp at hy
    | cons y below =>
      rw [nextOn, if_neg (hq y (by rw [hy]; rfl)), ← hy]
      exact ih hnd.2

theorem Rooted.lookup (hr : Rooted s) {p : CBlockIndex} {rest : BlockPtr} (h : InTree s (p :: rest)) :
    s.tree.mapBlockIndex.lookup p.hashBlock = some (p :: rest) := by
  obtain ⟨hash, hlookup⟩ := h
  have : p.hashBlock = hash := Option.some.inj (hr.keyed _ _ hlookup)
  rw [this, hlookup]

theorem pathTo_append_one (pre : BlockPtr) (p : CBlockIndex) (f : BlockPtr) :
    pathTo f (pre ++ p :: f) = pathTo (p :: f) (pre ++ p :: f) ++ [p :: f] := by
  induction pre with
  | nil =>
    rw [List.nil_append, pathTo_self]
    exact (pathTo_cons_append p [] f).trans (by rw [List.nil_append, pathTo_self, List.nil_append])
  | cons x pre ih =>
    have hf := pathTo_cons_append x (pre ++ [p]) f
    rw [List.append_assoc, List.singleton_append] at hf
    rw [List.cons_append, hf, pathTo_cons_append, ih, List.cons_append]

/-- The way down to an ancestor, block by block. -/
theorem pathTo_append (pre f : BlockPtr) :
    pathTo f (pre ++ f) = (List.range pre.length).map fun i => (pre ++ f).drop i := by
  induction pre with
  | nil => rw [List.nil_append, pathTo_self]; rfl
  | cons p pre ih =>
    rw [List.cons_append, pathTo_cons_append, ih, List.length_cons, List.range_succ_eq_map, List.map_cons,
      List.map_map]
    rfl

/-- **The links lead up to the tip**, from any of its ancestors, and no further. -/
theorem follow_eq (hr : Rooted s) {pre f : BlockPtr} (hf : f ≠ []) (htip : InTree s (pre ++ f))
    (hl : NextLinks s.mem (pre ++ f)) {fuel : Nat} (hfuel : pre.length < fuel) :
    s.follow fuel f = f :: (pathTo f (pre ++ f)).reverse := by
  induction pre using List.reverseRecOn generalizing f fuel with
  | nil =>
    obtain ⟨fuel, rfl⟩ : ∃ k, fuel = k + 1 := ⟨fuel - 1, by simp at hfuel; omega⟩
    obtain ⟨q, rest, rfl⟩ := List.exists_cons_of_ne_nil hf
    rw [List.nil_append] at htip hl ⊢
    have hnext : s.next (q :: rest) = none := by
      show ((s.mem q.hashBlock).pnext.bind _) = none
      rw [hl, nextOn_of_notMem (List.nodup_cons.mp (hr.nodup htip)).1, Option.bind_none]
    rw [follow, hnext, pathTo_self]
    rfl
  | append_singleton pre p ih =>
    obtain ⟨fuel, rfl⟩ : ∃ k, fuel = k + 1 := ⟨fuel - 1, by omega⟩
    obtain ⟨q, rest, rfl⟩ := List.exists_cons_of_ne_nil hf
    rw [List.length_append, List.length_singleton] at hfuel
    rw [List.append_assoc, List.singleton_append] at htip hl ⊢
    have hnext : s.next (q :: rest) = some (p :: q :: rest) := by
      show ((s.mem q.hashBlock).pnext.bind _) = _
      rw [hl, nextOn_append (hr.nodup htip), Option.bind_some]
      exact hr.lookup (hr.suffix htip ⟨pre, rfl⟩ (List.cons_ne_nil _ _))
    rw [follow, hnext, pathTo_append_one, List.reverse_append]
    show _ :: s.follow fuel (p :: q :: rest) = _
    rw [ih (List.cons_ne_nil _ _) htip hl (by omega)]
    rfl

/-! ## The fork -/

/-- Both loops together end at the lowest common ancestor. -/
theorem findFork_eq {genesis : CBlockIndex} {fork best new : BlockPtr} (hfork : IsFork fork best new)
    (hne : fork ≠ []) (hbest : Ranked CBlockIndex.nHeight best) (hnew : Ranked CBlockIndex.nHeight new)
    (hbroot : ∀ x ∈ best.getLast?, x = genesis) (hnroot : ∀ x ∈ new.getLast?, x = genesis) :
    findFork best new = .ok fork := by
  have hlast : ∀ {x : CBlockIndex} {a : BlockPtr}, (∀ y ∈ (x :: a).getLast?, y = genesis) →
      (x :: a).getLast? = some genesis := by
    intro x a h
    rw [List.getLast?_eq_some_getLast (List.cons_ne_nil _ _)] at h ⊢
    exact congrArg some (h _ rfl)
  have hsuf : ∀ {a b : BlockPtr}, a <:+ b → a ≠ [] → (∀ y ∈ b.getLast?, y = genesis) →
      ∀ y ∈ a.getLast?, y = genesis := by
    rintro a b ⟨pre, rfl⟩ ha h
    rwa [List.getLast?_append_of_ne_nil _ ha] at h
  induction best generalizing new with
  | nil => exact absurd (List.suffix_nil.mp hfork.1) hne
  | cons top pprev ih =>
    have htop := hbest.rank_head (hlast hbroot)
    unfold findFork
    by_cases heq : top :: pprev = new
    · subst heq
      rw [if_pos rfl, hfork.unique (IsFork.self _)]
    · rw [if_neg heq]
      -- a block above the height of `pfork` is none of its ancestors
      have hdrop : IsFork fork (new.dropWhile fun p => decide (p.nHeight > top.nHeight)) (top :: pprev) := by
        refine (IsFork.dropWhile_iff fun x c hx hxc hxb => ?_).mpr hfork.symm
        have hx' := (hnew.suffix hxc).rank_head (hlast (hsuf hxc (List.cons_ne_nil _ _) hnroot))
        have hle := hxb.length_le
        simp only [gt_iff_lt, decide_eq_true_eq, List.length_cons] at hx hle
        omega
      have hdsuf : (new.dropWhile fun p => decide (p.nHeight > top.nHeight)) <:+ new := List.dropWhile_suffix _
      have hhead := List.head?_dropWhile_not (fun p : CBlockIndex => decide (p.nHeight > top.nHeight)) new
      generalize new.dropWhile (fun p => decide (p.nHeight > top.nHeight)) = longer at hdrop hdsuf hhead
      cases longer with
      | nil => exact absurd (List.suffix_nil.mp hdrop.1) hne
      | cons longer rest =>
        have hlroot := hsuf hdsuf (List.cons_ne_nil _ _) hnroot
        have hlranked := hnew.suffix hdsuf
        show (if top :: pprev = longer :: rest then _ else _) = _
        by_cases heq' : top :: pprev = longer :: rest
        · rw [heq'] at hdrop
          rw [if_pos heq', hdrop.unique (IsFork.self _)]
        · rw [if_neg heq']
          -- neither is the other, and `plonger` is not the higher one
          have hnot : ¬ top :: pprev <:+ longer :: rest := by
            intro hsub
            have hlonger := hlranked.rank_head (hlast hlroot)
            simp only [List.head?_cons, gt_iff_lt, decide_eq_false_iff_not] at hhead
            refine heq' (hsub.eq_of_length_le ?_)
            simp only [List.length_cons]
            omega
          have hpprev := (IsFork.cons_iff hnot).mp hdrop.symm
          refine ih hpprev hbest.tail hlranked ?_ hlroot
          exact hsuf (List.suffix_cons _ _) (fun hnil => hne (List.suffix_nil.mp (hnil ▸ hpprev.1))) hbroot

/-! ## Changing the links -/

theorem setNext_ok (next : Option Uint256) (pprev : BlockPtr) : SameTree s (s.setNext next pprev) :=
  (setNext_same next pprev).1

/-- One block of the old branch less. -/
theorem NextLinks.unlink {p q : CBlockIndex} {rest : BlockPtr}
    (hnd : ((q :: rest).map CBlockIndex.hashBlock).Nodup) (h : NextLinks s.mem (p :: q :: rest)) :
    NextLinks (s.unlink (p :: q :: rest)).mem (q :: rest) := by
  intro hash
  show (Function.update s.mem q.hashBlock _ hash).pnext = _
  by_cases heq : hash = q.hashBlock
  · subst heq
    rw [Function.update_self, nextOn_of_notMem (List.nodup_cons.mp hnd).1]
  · rw [Function.update_of_ne heq, h, nextOn, if_neg (fun heq' => heq heq'.symm)]

/-- One block of the new branch more. -/
theorem NextLinks.link {p q : CBlockIndex} {rest : BlockPtr} (h : NextLinks s.mem (q :: rest)) :
    NextLinks (s.link (p :: q :: rest)).mem (p :: q :: rest) := by
  intro hash
  show (Function.update s.mem q.hashBlock _ hash).pnext = _
  by_cases heq : hash = q.hashBlock
  · subst heq
    rw [Function.update_self, nextOn, if_pos rfl]
    rfl
  · rw [Function.update_of_ne heq, h, nextOn, if_neg (fun heq' => heq heq'.symm)]

theorem NextLinks.unlinks {pre f : BlockPtr} (hf : f ≠ []) (hnd : ((pre ++ f).map CBlockIndex.hashBlock).Nodup)
    (h : NextLinks s.mem (pre ++ f)) : NextLinks ((pathTo f (pre ++ f)).foldl NodeState.unlink s).mem f := by
  induction pre generalizing s with
  | nil =>
    rw [List.nil_append, pathTo_self]
    exact h
  | cons p pre ih =>
    rw [List.cons_append] at h hnd ⊢
    rw [pathTo_cons_append, List.foldl_cons]
    obtain ⟨q, rest, hq⟩ := List.exists_cons_of_ne_nil (l := pre ++ f)
      (fun hnil => hf (List.append_eq_nil_iff.mp hnil).2)
    rw [List.map_cons, List.nodup_cons] at hnd
    refine ih hnd.2 ?_
    rw [hq] at h hnd ⊢
    exact h.unlink hnd.2

theorem NextLinks.links {pre f : BlockPtr} (hf : f ≠ []) (h : NextLinks s.mem f) :
    NextLinks ((pathTo f (pre ++ f)).reverse.foldl NodeState.link s).mem (pre ++ f) := by
  induction pre with
  | nil =>
    rw [List.nil_append, pathTo_self]
    exact h
  | cons p pre ih =>
    rw [List.cons_append, pathTo_cons_append, List.reverse_cons, List.foldl_append]
    obtain ⟨q, rest, hq⟩ := List.exists_cons_of_ne_nil (l := pre ++ f)
      (fun hnil => hf (List.append_eq_nil_iff.mp hnil).2)
    rw [hq] at ih ⊢
    exact ih.link

theorem links_same (step : NodeState → BlockPtr → NodeState) (hstep : ∀ t ptr, SameTree t (step t ptr))
    (l : List BlockPtr) (s : NodeState) : SameTree s (l.foldl step s) := by
  induction l generalizing s with
  | nil => exact SameTree.refl s
  | cons ptr l ih => exact (hstep s ptr).trans (ih _)

/-! ## `Reorganize` -/

/-- A block off the tip leaves the links alone. -/
theorem disconnectTip_links {r r' : NodeState × List CTransaction} {ptr : BlockPtr}
    (h : disconnectTip P r ptr = .ok r') :
    (∀ hash, (r'.1.mem hash).pnext = (r.1.mem hash).pnext) ∧ SameTree r.1 r'.1 := by
  unfold disconnectTip at h
  split at h
  · cases h
  · split at h
    · cases h
    · simp only [bind_ok, onFalse_ok, pure_ok] at h
      obtain ⟨t, hstep, rfl⟩ := h
      obtain ⟨txdb, wallets, -, rfl⟩ := disconnectBlock_ok hstep
      exact ⟨fun _ => rfl, rfl, rfl, rfl, rfl⟩

/-- And so does a block on top. -/
theorem connectTip_links {r r' : NodeState × List CTransaction} {ptr : BlockPtr}
    (h : connectTip P r ptr = .ok r') :
    (∀ hash, (r'.1.mem hash).pnext = (r.1.mem hash).pnext) ∧ SameTree r.1 r'.1 := by
  unfold connectTip at h
  split at h
  · cases h
  · split at h
    · cases h
    · simp only [bind_ok, onFalse_ok, pure_ok] at h
      obtain ⟨t, hstep, rfl⟩ := h
      obtain ⟨c, wallets, hc, rfl⟩ := connectBlock_ok hstep
      exact ⟨connectBlock_pnext hc, rfl, rfl, rfl, rfl⟩

/-- The blocks are moved in the database first, and the links only behind the commit. -/
theorem replaceBranch_links {vDisconnect vConnect : List BlockPtr} {hash : Uint256}
    (h : s.replaceBranch P vDisconnect vConnect hash = .ok s') :
    ∃ t, (∀ hash, (t.mem hash).pnext = (s.mem hash).pnext) ∧ SameTree s t ∧
      s'.mem = (vConnect.foldl link (vDisconnect.foldl unlink t)).mem ∧ SameTree s s' := by
  unfold replaceBranch at h
  simp only [bind_ok, pure_ok] at h
  obtain ⟨r, hdisconnect, r', hconnect, t, hcommit, rfl⟩ := h
  have htips : ∀ {step : NodeState × List CTransaction → BlockPtr → Except Stopped (NodeState × List CTransaction)},
      (∀ r r' ptr, step r ptr = .ok r' →
        (∀ hash, (r'.1.mem hash).pnext = (r.1.mem hash).pnext) ∧ SameTree r.1 r'.1) →
      ∀ {l : List BlockPtr} {r r' : NodeState × List CTransaction}, l.foldlM step r = .ok r' →
        (∀ hash, (r'.1.mem hash).pnext = (r.1.mem hash).pnext) ∧ SameTree r.1 r'.1 := by
    intro step hstep l r r' hrun
    refine foldlM_ok_inv (P := fun r' => (∀ hash, (r'.1.mem hash).pnext = (r.1.mem hash).pnext) ∧
      SameTree r.1 r'.1) ⟨fun _ => rfl, SameTree.refl _⟩ ?_ hrun
    intro ptr _ r₁ r₂ h₁ hrun₂
    obtain ⟨hnext, hsame⟩ := hstep _ _ _ hrun₂
    exact ⟨fun hash => (hnext hash).trans (h₁.1 hash), h₁.2.trans hsame⟩
  obtain ⟨hoff, hsame₁⟩ := htips (fun _ _ _ h => disconnectTip_links h) hdisconnect
  obtain ⟨hon, hsame₂⟩ := htips (fun _ _ _ h => connectTip_links h) hconnect
  have ht := txnCommit_ok hcommit
  have hmem : t.mem = r'.1.mem := by rw [ht]
  have hsame₃ : SameTree r'.1 t := by
    rw [ht]
    exact ⟨rfl, rfl, rfl, rfl⟩
  have hsame := (hsame₁.trans hsame₂).trans hsame₃
  have hlinks := (links_same unlink (fun t ptr => setNext_ok _ _) vDisconnect t).trans
    (links_same link (fun t ptr => setNext_ok _ _) vConnect _)
  refine ⟨t, fun hash => ?_, hsame, rfl, hsame.trans ⟨hlinks.fTestNet, hlinks.files, hlinks.tree,
    hlinks.pindexGenesisBlock⟩⟩
  rw [hmem]
  exact (hon hash).trans (hoff hash)

theorem Rooted.of_same (hr : Rooted s) (h : SameTree s s') : Rooted s' := by
  have hin : ∀ ptr, InTree s' ptr ↔ InTree s ptr := fun _ => h.inTree
  refine ⟨?_, ?_, ?_, ?_⟩
  · rw [h.tree]
    exact hr.keyed
  · simp only [hin]
    exact hr.parent
  · simp only [hin, h.pindexGenesisBlock]
    exact hr.root
  · simp only [hin]
    exact hr.height

theorem Rooted.ranked (hr : Rooted s) {ptr : BlockPtr} (h : InTree s ptr) : Ranked CBlockIndex.nHeight ptr := by
  induction ptr with
  | nil => trivial
  | cons p rest ih =>
    cases rest with
    | nil => trivial
    | cons q rest => exact ⟨hr.height p q rest h, ih (hr.parent p q rest h)⟩

/-- Two blocks of the tree have a fork, at genesis if nowhere above it. -/
theorem Rooted.exists_fork (hr : Rooted s) {best new : BlockPtr} (hbest : InTree s best) (hnew : InTree s new) :
    ∃ fork, IsFork fork best new ∧ fork ≠ [] := by
  obtain ⟨genesis, -, hroot⟩ := hr.root
  obtain ⟨D, rfl⟩ := hroot _ hbest
  obtain ⟨C, rfl⟩ := hroot _ hnew
  induction D with
  | nil =>
    refine ⟨[genesis], ⟨List.suffix_refl _, List.suffix_append _ _, fun c hc _ => hc⟩, List.cons_ne_nil _ _⟩
  | cons p D ih =>
    by_cases hp : p :: (D ++ [genesis]) <:+ C ++ [genesis]
    · exact ⟨_, ⟨List.suffix_refl _, hp, fun c hc _ => hc⟩, List.cons_ne_nil _ _⟩
    · obtain ⟨fork, hfork, hne⟩ := ih (hr.suffix hbest (List.suffix_cons _ _) (by simp))
      exact ⟨fork, (IsFork.cons_iff hp).mpr hfork, hne⟩

/-- **`Reorganize` SWITCHES EXACTLY THE RIGHT BLOCKS.**  Both loops end at the lowest common ancestor of the
    tips; what is disconnected is the way from the old tip down to it, and what is connected the way from it
    up to the new tip.  Behind a switch the links are those of the new tip: from genesis they lead through
    all its ancestors, to none of the blocks that were disconnected, and end at the tip. -/
theorem reorganize_switches (hr : Rooted s) (hbest : InTree s s.pindexBest)
    (hlinks : NextLinks s.mem s.pindexBest) {new : BlockPtr} (hnew : InTree s new) :
    ∃ D C fork, s.pindexBest = D ++ fork ∧ new = C ++ fork ∧ IsFork fork s.pindexBest new ∧ fork ≠ [] ∧
      findFork s.pindexBest new = .ok fork ∧
      pathTo fork s.pindexBest = (List.range D.length).map (fun i => s.pindexBest.drop i) ∧
      (pathTo fork new).reverse = ((List.range C.length).map fun i => new.drop i).reverse ∧
      ∀ s', s.reorganize P new = .ok s' → NextLinks s'.mem new ∧
        (∀ fuel, new.length ≤ fuel → s'.follow fuel s.pindexGenesisBlock = (pathTo [] new).reverse) ∧
        ∀ ptr ∈ pathTo fork s.pindexBest, ptr ∉ pathTo [] new := by
  obtain ⟨fork, hfork, hne⟩ := hr.exists_fork hbest hnew
  obtain ⟨genesis, hgenesis, hroot⟩ := hr.root
  have hlast : ∀ {ptr : BlockPtr}, InTree s ptr → ∀ x ∈ ptr.getLast?, x = genesis := by
    intro ptr hptr x hx
    obtain ⟨pre, rfl⟩ := hroot _ hptr
    rw [List.getLast?_concat] at hx
    exact (Option.some.inj hx).symm
  have hfind := findFork_eq hfork hne (hr.ranked hbest) (hr.ranked hnew) (hlast hbest) (hlast hnew)
  obtain ⟨D, hD⟩ := hfork.1
  obtain ⟨C, hC⟩ := hfork.2.1
  refine ⟨D, C, fork, hD.symm, hC.symm, hfork, hne, hfind, ?_, ?_, ?_⟩
  · rw [← hD]
    exact pathTo_append D fork
  · rw [← hC]
    exact congrArg List.reverse (pathTo_append C fork)
  · intro s' h
    unfold reorganize at h
    rw [hfind] at h
    obtain ⟨t, hnext, hsame, hmem, hsame'⟩ := replaceBranch_links h
    have hmid : NextLinks t.mem s.pindexBest := fun hash => (hnext hash).trans (hlinks hash)
    have hnd := hr.nodup hbest
    rw [← hD] at hmid hnd
    have hafter : NextLinks s'.mem new := by
      rw [hmem, ← hC, ← hD]
      exact NextLinks.links hne (hmid.unlinks hne hnd)
    refine ⟨hafter, ?_, ?_⟩
    · intro fuel hfuel
      obtain ⟨pre, rfl⟩ := hroot _ hnew
      rw [List.length_append, List.length_singleton] at hfuel
      rw [hgenesis, follow_eq (hr.of_same hsame') (List.cons_ne_nil _ _) (hsame'.inTree.mpr hnew) hafter
        (by omega), pathTo_append_one, List.reverse_append]
      rfl
    · intro ptr hptr hmem
      -- it would be a common ancestor above the fork
      rw [← hD] at hptr
      obtain ⟨p, a, rfl, hsuf⟩ := mem_pathTo hptr
      rw [← List.append_nil new] at hmem
      obtain ⟨-, -, -, hsuf'⟩ := mem_pathTo hmem
      rw [List.append_nil] at hsuf'
      rw [hD] at hsuf
      have hle := (hfork.2.2 _ hsuf hsuf').length_le
      simp only [List.length_cons, List.length_append] at hle
      omega

end NodeState

namespace Switching

open Sample

theorem nextLinks : NodeState.NextLinks node.mem node.pindexBest := by
  intro hash
  show (Function.update connectedA1.mem genesis.hashBlock _ hash).pnext =
    if genesis.hashBlock = hash then some indexA1.hashBlock else none
  by_cases heq : hash = genesis.hashBlock
  · subst heq
    rw [Function.update_self, if_pos rfl]
    rfl
  · rw [Function.update_of_ne heq, if_neg (fun heq' => heq heq'.symm), NodeState.connectBlock_pnext connectA1]
    rfl

/-- From `A1` to `B2`. -/
theorem reorganize_switches_ptrB2 : ∃ s', node.reorganize primitives ptrB3.tail = .ok s' ∧
    NodeState.NextLinks s'.mem ptrB3.tail ∧ s'.follow 3 [genesis] = [[genesis], [indexB1, genesis], ptrB3.tail] := by
  have hok : (node.reorganize primitives ptrB3.tail).isOk = true := by decide
  have htree := treeOk
  obtain ⟨D, C, fork, -, -, -, -, -, -, -, hswitch⟩ := NodeState.reorganize_switches (P := primitives)
    htree.rooted ⟨hashA1, by decide⟩ nextLinks
    (show NodeState.InTree node ptrB3.tail from ⟨hashB2, by decide⟩)
  obtain ⟨hlinks, hfollow, -⟩ := hswitch _ (eq_ok_getD hok node)
  exact ⟨_, eq_ok_getD hok node, hlinks, hfollow 3 (by decide)⟩

end Switching
end Silkcoin
