/-
  Block locators: where the chain of another node forks off.

  `Set` takes the hashes of a block and of ten blocks below it, one by one, and then steps back twice as far
  each time; the hash of genesis comes last.  The entry with number `i` is `stepsBack i` blocks below the
  first (`set_eq`).  The other node returns the first entry on ITS main chain, so at least one that is not
  above the fork, and the steps are such that this one is not far below it: no further than the fork is below
  the first block, less eleven (`exists_stepsBack`, `getBlockIndex_fork`).

  Heights are `int`s, so `nStep` does not overflow as long as there is a block to step back from.
-/
import Silkcoin.FindBlock
import Mathlib.Data.Nat.Log
import Mathlib.Data.List.GetD

namespace Silkcoin

open Validation Lineage

/-! ## Locators -/

structure CBlockLocator where
  vHave : List Uint256
deriving DecidableEq, Repr

namespace CBlockLocator

theorem double_pos {n : Nat} (hn : 0 < n) : 0 < n * 2 := by omega

/-- The loop of `Set`. -/
def setFrom (fTestNet : Bool) (vHave : List Uint256) (nStep : Nat) (hn : 0 < nStep) : BlockPtr → List Uint256
  | [] => vHave ++ [genesisHash fTestNet]
  | pindex :: pprev =>
    let vHave := vHave ++ [pindex.hashBlock]
    if vHave.length > 10 then setFrom fTestNet vHave (nStep * 2) (double_pos hn) ((pindex :: pprev).drop nStep)
    else setFrom fTestNet vHave nStep hn ((pindex :: pprev).drop nStep)
termination_by pindex => pindex.length
decreasing_by all_goals (simp only [List.length_drop, List.length_cons]; omega)

def set (fTestNet : Bool) (pindex : BlockPtr) : CBlockLocator := ⟨setFrom fTestNet [] 1 (by decide) pindex⟩

end CBlockLocator

namespace NodeState

variable (s : NodeState)

/-- `IsInMainChain`: it has a next block, or is the tip. -/
def isInMainChain (ptr : BlockPtr) : Bool :=
  (ptr.head?.bind fun p => (s.mem p.hashBlock).pnext).isSome || decide (ptr = s.pindexBest)

/-- An entry of a locator that the node has in its main chain. -/
def haveInMainChain (hash : Uint256) : Option BlockPtr :=
  (s.tree.mapBlockIndex.lookup hash).filter s.isInMainChain

/-- `GetBlockIndex`, on the node that gets the locator. -/
def getBlockIndex (locator : CBlockLocator) : BlockPtr :=
  (locator.vHave.findSome? s.haveInMainChain).getD s.pindexGenesisBlock

end NodeState

/-! ## The steps -/

/-- How far below the first block the entry with number `i` is. -/
def stepsBack (i : Nat) : Nat := if i ≤ 10 then i else 9 + 2 ^ (i - 10)

theorem stepsBack_of_le {i : Nat} (h : 10 ≤ i) : stepsBack i = 9 + 2 ^ (i - 10) := by
  unfold stepsBack
  split
  · obtain rfl : i = 10 := by omega
    rfl
  · rfl

theorem stepsBack_lt_succ (i : Nat) : stepsBack i < stepsBack (i + 1) := by
  rcases Nat.lt_or_ge i 10 with h | h
  · unfold stepsBack
    rw [if_pos (by omega), if_pos (by omega)]
    omega
  · rw [stepsBack_of_le h, stepsBack_of_le (by omega), show i + 1 - 10 = (i - 10) + 1 from by omega, Nat.pow_succ]
    have := Nat.pow_pos (n := i - 10) (show 0 < 2 by decide)
    omega

theorem stepsBack_strictMono : StrictMono stepsBack := strictMono_nat_of_lt_succ stepsBack_lt_succ

/-- The steps double behind the eleventh entry. -/
theorem stepsBack_step (i : Nat) : stepsBack (i + 2) - stepsBack (i + 1) =
    if i + 1 > 10 then (stepsBack (i + 1) - stepsBack i) * 2 else stepsBack (i + 1) - stepsBack i := by
  rcases Nat.lt_or_ge i 10 with h | h
  · rw [if_neg (by omega)]
    rcases Nat.lt_or_ge i 9 with h' | h'
    · unfold stepsBack
      rw [if_pos (by omega), if_pos (by omega), if_pos (by omega)]
      omega
    · obtain rfl : i = 9 := by omega
      rfl
  · rw [if_pos (by omega), stepsBack_of_le (by omega), stepsBack_of_le (by omega), stepsBack_of_le h,
      show i + 2 - 10 = (i - 10) + 2 from by omega, show i + 1 - 10 = (i - 10) + 1 from by omega, Nat.pow_succ,
      Nat.pow_succ]
    omega

/-- **The entry after a fork** is not far behind it. -/
theorem exists_stepsBack (d : Nat) : ∃ i, d ≤ stepsBack i ∧ stepsBack i - d ≤ d - 11 := by
  rcases Nat.lt_or_ge d 11 with h | h
  · refine ⟨d, ?_⟩
    unfold stepsBack
    rw [if_pos (by omega)]
    omega
  · have hle := Nat.le_pow_clog (b := 2) (by decide) (d - 9)
    have hlt := Nat.pow_pred_clog_lt_self (b := 2) (by decide) (show 1 < d - 9 by omega)
    have hpos : 0 < Nat.clog 2 (d - 9) := Nat.clog_pos (by decide) (by omega)
    refine ⟨10 + Nat.clog 2 (d - 9), ?_⟩
    rw [stepsBack_of_le (by omega), Nat.add_sub_cancel_left]
    have htwo : 2 ^ Nat.clog 2 (d - 9) = 2 ^ (Nat.clog 2 (d - 9)).pred * 2 := by
      rw [← Nat.pow_succ, Nat.succ_pred_eq_of_pos hpos]
    omega

/-- The entry with number `i`. -/
def locatorEntry (ptr : BlockPtr) (i : Nat) : Uint256 := (ptr.map CBlockIndex.hashBlock).getD (stepsBack i) 0

theorem CBlockLocator.setFrom_eq (fTestNet : Bool) (ptr : BlockPtr) (vHave : List Uint256) {nStep : Nat}
    (hn : 0 < nStep) (hstep : nStep = stepsBack (vHave.length + 1) - stepsBack vHave.length) :
    ∃ k, (∀ i, vHave.length ≤ i → (i < vHave.length + k ↔ stepsBack i < ptr.length)) ∧
      setFrom fTestNet vHave nStep hn (ptr.drop (stepsBack vHave.length)) =
        vHave ++ (List.range' vHave.length k).map (locatorEntry ptr) ++ [genesisHash fTestNet] := by
  induction hlen : (ptr.drop (stepsBack vHave.length)).length using Nat.strong_induction_on
    generalizing vHave nStep with
  | _ len ih =>
    have hmono := stepsBack_lt_succ vHave.length
    cases hptr : ptr.drop (stepsBack vHave.length) with
    | nil =>
      have hshort : ptr.length ≤ stepsBack vHave.length := List.drop_eq_nil_iff.mp hptr
      refine ⟨0, fun i hi => ?_, ?_⟩
      · have := stepsBack_strictMono.monotone hi
        omega
      · rw [setFrom, List.range'_zero, List.map_nil, List.append_nil]
    | cons p rest =>
      have hlong : stepsBack vHave.length < ptr.length := by
        have := congrArg List.length hptr
        rw [List.length_drop, List.length_cons] at this
        omega
      have hentry : locatorEntry ptr vHave.length = p.hashBlock := by
        unfold locatorEntry
        rw [List.getD_eq_getElem?_getD, List.getElem?_map, ← List.head?_drop, hptr]
        rfl
      have hdrop : (p :: rest).drop nStep = ptr.drop (stepsBack (vHave ++ [p.hashBlock]).length) := by
        rw [← hptr, List.drop_drop, List.length_append, List.length_singleton]
        congr 1
        omega
      have hnext := stepsBack_step vHave.length
      -- one entry more, and the next step as long as the table says
      have hmore : ∀ {nStep' : Nat} (hn' : 0 < nStep'),
          nStep' = stepsBack (vHave.length + 2) - stepsBack (vHave.length + 1) →
          ∃ k, (∀ i, vHave.length ≤ i → (i < vHave.length + k ↔ stepsBack i < ptr.length)) ∧
            setFrom fTestNet (vHave ++ [p.hashBlock]) nStep' hn' ((p :: rest).drop nStep) =
              vHave ++ (List.range' vHave.length k).map (locatorEntry ptr) ++ [genesisHash fTestNet] := by
        intro nStep' hn' hstep'
        have hlt : (ptr.drop (stepsBack (vHave ++ [p.hashBlock]).length)).length < len := by
          rw [← hlen, List.length_append, List.length_singleton, List.length_drop, List.length_drop]
          omega
        obtain ⟨k, hk, heq⟩ := ih _ hlt (vHave ++ [p.hashBlock]) hn'
          (by rw [List.length_append, List.length_singleton]; exact hstep') rfl
        rw [List.length_append, List.length_singleton] at hk
        refine ⟨k + 1, fun i hi => ?_, ?_⟩
        · rcases Nat.eq_or_lt_of_le hi with rfl | hi
          · exact iff_of_true (by omega) hlong
          · rw [← hk i hi]
            omega
        · rw [hdrop, heq, List.length_append, List.length_singleton, List.range'_succ, List.map_cons, hentry]
          simp only [List.append_assoc, List.singleton_append]
      rw [setFrom, List.length_append, List.length_singleton]
      split
      · rename_i hbig
        rw [if_pos hbig] at hnext
        exact hmore _ (by omega)
      · rename_i hbig
        rw [if_neg hbig] at hnext
        exact hmore _ (by omega)

/-- What a locator is: the hashes the steps lead to, as long as there is a block, and genesis. -/
theorem CBlockLocator.set_eq (fTestNet : Bool) (ptr : BlockPtr) :
    ∃ k, (∀ i, i < k ↔ stepsBack i < ptr.length) ∧
      (set fTestNet ptr).vHave = (List.range k).map (locatorEntry ptr) ++ [genesisHash fTestNet] := by
  obtain ⟨k, hk, heq⟩ := setFrom_eq fTestNet ptr [] (by decide) (show 1 = stepsBack 1 - stepsBack 0 from rfl)
  refine ⟨k, fun i => ?_, ?_⟩
  · have := hk i (Nat.zero_le i)
    rwa [List.length_nil, Nat.zero_add] at this
  · have hset : (set fTestNet ptr).vHave = _ := heq
    rw [hset, List.nil_append, List.length_nil, List.range_eq_range']

/-- The first success of a search by number. -/
theorem findSome?_range {β : Type} {f : Nat → Option β} {k : Nat} {b : β}
    (h : (List.range k).findSome? f = some b) : ∃ i < k, f i = some b ∧ ∀ j < i, f j = none := by
  induction k with
  | zero => cases h
  | succ k ih =>
    rw [List.range_succ, List.findSome?_append, Option.or_eq_some_iff] at h
    rcases h with h | ⟨hnone, h⟩
    · obtain ⟨i, hi, hfound, hbefore⟩ := ih h
      exact ⟨i, by omega, hfound, hbefore⟩
    · rw [List.findSome?_singleton] at h
      exact ⟨k, Nat.lt_succ_self k, h, fun j hj => List.findSome?_eq_none_iff.mp hnone j (List.mem_range.mpr hj)⟩

/-! ## The other node -/

namespace NodeState

variable {s : NodeState}

/-- A block has a next one, or is the tip, exactly if it is on the tip's lineage. -/
theorem TipLinked.isInMainChain_iff (h : TipLinked s) {ptr : BlockPtr} (hin : InTree s ptr) (hne : ptr ≠ []) :
    s.isInMainChain ptr = true ↔ ptr <:+ s.pindexBest := by
  obtain ⟨p, rest, rfl⟩ := List.exists_cons_of_ne_nil hne
  unfold isInMainChain
  rw [List.head?_cons, Option.bind_some, h.links, Bool.or_eq_true, decide_eq_true_eq]
  constructor
  · rintro (hnext | heq)
    · by_contra hoff
      rw [nextOn_of_notMem] at hnext
      · cases hnext
      · intro hmem
        obtain ⟨q, hq, heq⟩ := List.mem_map.mp hmem
        obtain ⟨pre, post, hsplit⟩ := List.append_of_mem (List.mem_of_mem_tail hq)
        have hsuf : q :: post <:+ s.pindexBest := ⟨pre, hsplit.symm⟩
        have hqin := h.rooted.suffix h.inTree hsuf (List.cons_ne_nil _ _)
        exact hoff (h.rooted.unique hqin hin heq ▸ hsuf)
    · rw [heq]
  · rintro ⟨pre, hpre⟩
    rcases List.eq_nil_or_concat pre with rfl | ⟨pre, x, rfl⟩
    · exact Or.inr hpre
    · rw [List.concat_eq_append, List.append_assoc, List.singleton_append] at hpre
      have hnd := h.rooted.nodup h.inTree
      rw [← hpre] at hnd ⊢
      rw [nextOn_append hnd]
      exact Or.inl rfl

theorem TipLinked.haveInMainChain_eq_some (h : TipLinked s) {hash : Uint256} {ptr : BlockPtr} :
    s.haveInMainChain hash = some ptr ↔
      ptr <:+ s.pindexBest ∧ ptr.head?.map CBlockIndex.hashBlock = some hash := by
  unfold haveInMainChain
  rw [Option.filter_eq_some_iff]
  constructor
  · rintro ⟨hlookup, hmain⟩
    have hkey := h.rooted.keyed hash ptr hlookup
    refine ⟨(h.isInMainChain_iff ⟨hash, hlookup⟩ ?_).mp hmain, hkey⟩
    rintro rfl
    cases hkey
  · rintro ⟨hsuf, hkey⟩
    cases ptr with
    | nil => cases hkey
    | cons p rest =>
      have hin := h.rooted.suffix h.inTree hsuf (List.cons_ne_nil _ _)
      cases Option.some.inj hkey
      exact ⟨h.rooted.lookup hin, (h.isInMainChain_iff hin (List.cons_ne_nil _ _)).mpr hsuf⟩

/-- **LOCATORS FIND THE FORK.**  Two chains share their blocks up to `fork`.  The block that the other node
    returns for a locator of the first is on its main chain, and an ancestor of the first block, no further
    below the fork than this is below the first block, less eleven.  Where a hash has one line of ancestors, the
    two blocks also agree in what is below them. -/
theorem getBlockIndex_fork {sender : NodeState} (hsender : Rooted sender)
    (hzero : ∀ genesis ∈ sender.pindexGenesisBlock, genesis.nHeight = 0) {pindex : CBlockIndex}
    {pprev : BlockPtr} (hin : InTree sender (pindex :: pprev)) (h : TipLinked s)
    (hgenesis : s.pindexGenesisBlock.head?.map CBlockIndex.hashBlock =
      some (genesisHash sender.fTestNet))
    {A B shared shared' : BlockPtr} {fork : CBlockIndex} (hfork : pindex :: pprev = A ++ fork :: shared)
    (hbest : s.pindexBest = B ++ shared')
    (hshared : (fork :: shared).map CBlockIndex.hashBlock = shared'.map CBlockIndex.hashBlock) :
    ∃ a rest q below, a :: rest <:+ pindex :: pprev ∧
      s.getBlockIndex (CBlockLocator.set sender.fTestNet (pindex :: pprev)) = q :: below ∧
      q :: below <:+ s.pindexBest ∧ a.hashBlock = q.hashBlock ∧
      fork.nHeight - a.nHeight ≤ (pindex.nHeight - fork.nHeight) - 11 ∧
      ((∀ x l y m, x :: l <:+ pindex :: pprev → y :: m <:+ s.pindexBest → x.hashBlock = y.hashBlock →
          l.map CBlockIndex.hashBlock = m.map CBlockIndex.hashBlock) →
        (a :: rest).map CBlockIndex.hashBlock = (q :: below).map CBlockIndex.hashBlock ∧
          q.nHeight = a.nHeight) := by
  obtain ⟨genesis, hroot, hlineage⟩ := hsender.root
  have hlast : ∀ {ptr : BlockPtr}, InTree sender ptr → ptr.getLast? = some genesis := by
    intro ptr hptr
    obtain ⟨pre, rfl⟩ := hlineage _ hptr
    exact List.getLast?_concat
  have hheight : ∀ {x : CBlockIndex} {l : BlockPtr}, x :: l <:+ pindex :: pprev → x.nHeight = l.length := by
    intro x l hsuf
    have hx := hsender.suffix hin hsuf (List.cons_ne_nil _ _)
    have hrank := (hsender.ranked hx).rank_head (hlast hx)
    have := hzero genesis (hroot ▸ List.mem_singleton_self _)
    omega
  have hfsuf : fork :: shared <:+ pindex :: pprev := ⟨A, hfork.symm⟩
  have hlen : (pindex :: pprev).length = A.length + shared.length + 1 := by
    rw [hfork, List.length_append, List.length_cons]
    omega
  have hpheight := hheight (List.suffix_refl (pindex :: pprev))
  have hfheight := hheight hfsuf
  rw [List.length_cons] at hlen
  -- the agreement behind a found entry
  have hagree : ∀ {a q : CBlockIndex} {rest below : BlockPtr}, a :: rest <:+ pindex :: pprev →
      q :: below <:+ s.pindexBest → a.hashBlock = q.hashBlock →
      (∀ x l y m, x :: l <:+ pindex :: pprev → y :: m <:+ s.pindexBest → x.hashBlock = y.hashBlock →
        l.map CBlockIndex.hashBlock = m.map CBlockIndex.hashBlock) →
      (a :: rest).map CBlockIndex.hashBlock = (q :: below).map CBlockIndex.hashBlock ∧
        q.nHeight = a.nHeight := by
    intro a q rest below ha hq heq hone
    have hbelow := hone a rest q below ha hq heq
    refine ⟨by rw [List.map_cons, List.map_cons, heq, hbelow], ?_⟩
    have hqheight := h.height_eq (h.rooted.suffix h.inTree hq (List.cons_ne_nil _ _))
    have hlength := congrArg List.length hbelow
    rw [List.length_map, List.length_map] at hlength
    rw [hqheight, hheight ha, hlength]
  obtain ⟨k, hk, hset⟩ := CBlockLocator.set_eq sender.fTestNet (pindex :: pprev)
  obtain ⟨j, hj, hbound⟩ := exists_stepsBack A.length
  rw [List.length_cons] at hk
  -- the entries not above the fork are on the other main chain
  have hbelow : ∀ i < k, A.length ≤ stepsBack i → s.haveInMainChain (locatorEntry (pindex :: pprev) i) ≠ none := by
    intro i hi hle
    have hshort := (hk i).mp hi
    have hdrop : stepsBack i - A.length < (fork :: shared).length := by
      rw [List.length_cons]
      omega
    have hdrop' : stepsBack i - A.length < shared'.length := by
      have := congrArg List.length hshared
      rw [List.length_map, List.length_map] at this
      omega
    have hentry : locatorEntry (pindex :: pprev) i = (shared'[stepsBack i - A.length]).hashBlock := by
      have hget : ((fork :: shared).map CBlockIndex.hashBlock)[stepsBack i - A.length]? =
          some (shared'[stepsBack i - A.length]).hashBlock := by
        rw [hshared, List.getElem?_map, List.getElem?_eq_getElem hdrop']
        rfl
      unfold locatorEntry
      rw [hfork, List.map_append, List.getD_append_right _ _ _ _ (by rw [List.length_map]; exact hle),
        List.length_map, List.getD_eq_getElem?_getD, hget]
      rfl
    have hfound : s.haveInMainChain (locatorEntry (pindex :: pprev) i) =
        some (shared'.drop (stepsBack i - A.length)) := by
      refine h.haveInMainChain_eq_some.mpr ⟨(List.drop_suffix _ _).trans ⟨B, hbest.symm⟩, ?_⟩
      rw [hentry, List.head?_drop, List.getElem?_eq_getElem hdrop']
      rfl
    rw [hfound]
    exact Option.some_ne_none _
  unfold getBlockIndex
  rw [hset, List.findSome?_append, List.findSome?_map]
  cases hfind : (List.range k).findSome? (s.haveInMainChain ∘ locatorEntry (pindex :: pprev)) with
  | some found =>
    obtain ⟨i, hik, hfound, hnone⟩ := findSome?_range hfind
    have hshort := (hk i).mp hik
    obtain ⟨hsuf, hkey⟩ := h.haveInMainChain_eq_some.mp hfound
    obtain ⟨q, below, rfl⟩ := List.exists_cons_of_ne_nil (l := found) (by rintro rfl; cases hkey)
    obtain ⟨a, rest, hdrop⟩ := List.exists_cons_of_ne_nil (l := (pindex :: pprev).drop (stepsBack i)) (by
      rw [ne_eq, List.drop_eq_nil_iff, List.length_cons]
      omega)
    have ha : a :: rest <:+ pindex :: pprev := hdrop ▸ List.drop_suffix _ _
    have heq : a.hashBlock = q.hashBlock := by
      have hentry : locatorEntry (pindex :: pprev) i = a.hashBlock := by
        unfold locatorEntry
        rw [List.getD_eq_getElem?_getD, List.getElem?_map, ← List.head?_drop, hdrop]
        rfl
      rw [← hentry]
      exact (Option.some.inj hkey).symm
    refine ⟨a, rest, q, below, ha, rfl, hsuf, heq, ?_, hagree ha hsuf heq⟩
    -- the entry that is found is not behind the first one below the fork
    have hij : i ≤ j := by
      by_contra hlt
      exact hbelow j (by omega) hj (hnone j (by omega))
    have hle := stepsBack_strictMono.monotone hij
    have haheight := hheight ha
    have hlength := congrArg List.length hdrop
    rw [List.length_drop, List.length_cons, List.length_cons] at hlength
    omega
  | none =>
    have hall := List.findSome?_eq_none_iff.mp hfind
    obtain ⟨genesis', hgenesis', hlast', -⟩ := h.getLast? h.inTree
    rw [hgenesis', List.head?_cons, Option.map_some] at hgenesis
    obtain ⟨pre, hpre⟩ := List.getLast?_eq_some_iff.mp hlast'
    have hsuf : [genesis'] <:+ s.pindexBest := ⟨pre, hpre.symm⟩
    have hfound : s.haveInMainChain (genesisHash sender.fTestNet) = some [genesis'] :=
      h.haveInMainChain_eq_some.mpr ⟨hsuf, hgenesis⟩
    have ha : [genesis] <:+ pindex :: pprev := by
      obtain ⟨pre', hpre'⟩ := hlineage _ hin
      exact ⟨pre', hpre'.symm⟩
    have heq : genesis.hashBlock = genesis'.hashBlock := by
      have hl := congrArg List.getLast? hshared
      have hlastF : (fork :: shared).getLast? = some genesis :=
        hlast (hsender.suffix hin hfsuf (List.cons_ne_nil _ _))
      have hlastF' : shared'.getLast? = some genesis' := by
        have hne : shared' ≠ [] := by
          rintro rfl
          cases hshared
        rw [← hlast', hbest, List.getLast?_append_of_ne_nil _ hne]
      rw [List.getLast?_map, List.getLast?_map, hlastF, hlastF'] at hl
      exact Option.some.inj hl
    refine ⟨genesis, [], genesis', [], ha, ?_, hsuf, heq, ?_, hagree ha hsuf heq⟩
    · rw [Option.none_or, List.findSome?_cons, hfound]
      rfl
    · have hjk : k ≤ j := by
        by_contra hlt
        exact hbelow j (by omega) hj (hall j (List.mem_range.mpr (by omega)))
      have hlong : ¬ stepsBack j < pprev.length + 1 := fun hshort => absurd ((hk j).mpr hshort) (by omega)
      have haheight := hheight ha
      omega

end NodeState
namespace Switching

open Sample NodeState

/-- A locator of `B3`, on the node with the tip `A1`. -/
theorem getBlockIndex_fork_B3 : ∃ a rest q below, a :: rest <:+ ptrB3 ∧
    node.getBlockIndex (CBlockLocator.set false ptrB3) = q :: below ∧ q :: below <:+ ptrA1 ∧
    a.hashBlock = q.hashBlock ∧ genesis.nHeight - a.nHeight ≤ (indexB3.nHeight - genesis.nHeight) - 11 := by
  obtain ⟨a, rest, q, below, ha, hfound, hq, heq, hbound, -⟩ := getBlockIndex_fork treeOk.rooted tipLinked.zero
    (show node.InTree (indexB3 :: ptrB3.tail) from ⟨hashB3, by decide⟩) tipLinked rfl
    (show indexB3 :: ptrB3.tail = ptrB3.take 3 ++ genesis :: [] from rfl)
    (show node.pindexBest = [indexA1] ++ [genesis] from rfl) rfl
  exact ⟨a, rest, q, below, ha, hfound, hq, heq, hbound⟩

end Switching
end Silkcoin
