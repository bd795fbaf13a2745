/-
  The merkle TREE in memory, and the branches taken from it.

  `BuildMerkleTree` lays the levels one behind the other into `vMerkleTree`, the txids first, and
  `GetMerkleBranch` walks over them with an offset: the node beside `i` of a level is at `i ^ 1`, or `i`
  itself at an odd end.  `CheckMerkleBranch` only has the branch and the bits of the index.  The three agree
  with the tree level by level (`buildTree_root`, `branchFrom_eq`), so every branch verifies; and no other
  hash verifies with the same index and branch (`merkleBranch_verifies`).
-/
import Silkcoin.MerkleRoot
import Silkcoin.CoinStake

namespace Silkcoin

namespace CBlock

variable (P : Primitives)

/-! ## The tree -/

/-- One round of the outer loop: the level of `nSize` nodes at `j` is hashed in pairs. -/
def pushLevel (vMerkleTree : List Uint256) (j nSize : Nat) : List Uint256 :=
  (List.range ((nSize + 1) / 2)).foldl (fun v k =>
    let i := 2 * k
    let i2 := min (i + 1) (nSize - 1)
    v ++ [P.hashPair (v.getD (j + i) 0) (v.getD (j + i2) 0)]) vMerkleTree

def pushLevels (vMerkleTree : List Uint256) (j nSize : Nat) : List Uint256 :=
  if _h : 1 < nSize then pushLevels (pushLevel P vMerkleTree j nSize) (j + nSize) ((nSize + 1) / 2) else vMerkleTree
termination_by nSize
decreasing_by omega

/-- `BuildMerkleTree`: the tree it leaves in `vMerkleTree`, and the root it returns. -/
def buildTree (b : CBlock) : List Uint256 × Uint256 :=
  let vMerkleTree := pushLevels P (b.vtx.map P.getHash) 0 b.vtx.length
  (vMerkleTree, vMerkleTree.getLast?.getD 0)

def branchFrom (vMerkleTree : List Uint256) (j nSize nIndex : Nat) : List Uint256 :=
  if _h : 1 < nSize then
    vMerkleTree.getD (j + min (nIndex ^^^ 1) (nSize - 1)) 0 ::
      branchFrom vMerkleTree (j + nSize) ((nSize + 1) / 2) (nIndex >>> 1)
  else []
termination_by nSize
decreasing_by omega

/-- `GetMerkleBranch`, with `vMerkleTree` as it is there; an empty one is built first. -/
def getMerkleBranchIn (b : CBlock) (vMerkleTree : List Uint256) (nIndex : Nat) : List Uint256 :=
  branchFrom (if vMerkleTree = [] then (b.buildTree P).1 else vMerkleTree) 0 b.vtx.length nIndex

/-- The index is an `int`, and shifting a negative one rounds down; -1 stands for no index. -/
def climbBranch (hash : Uint256) (nIndex : Int) : List Uint256 → Uint256
  | [] => hash
  | otherside :: vMerkleBranch =>
    climbBranch (if nIndex % 2 = 1 then P.hashPair otherside hash else P.hashPair hash otherside) (nIndex / 2)
      vMerkleBranch

def checkMerkleBranch (hash : Uint256) (vMerkleBranch : List Uint256) (nIndex : Int) : Uint256 :=
  if nIndex = -1 then 0 else climbBranch P hash nIndex vMerkleBranch

/-- The pairs of hashes that `CheckMerkleBranch` hashes. -/
def branchPairs (hash : Uint256) (nIndex : Int) : List Uint256 → List (Uint256 × Uint256)
  | [] => []
  | otherside :: vMerkleBranch =>
    (if nIndex % 2 = 1 then (otherside, hash) else (hash, otherside)) ::
      branchPairs (if nIndex % 2 = 1 then P.hashPair otherside hash else P.hashPair hash otherside) (nIndex / 2)
        vMerkleBranch

/-! ## Level by level -/

/-- All levels from one on, each behind the one under it. -/
def levelsFrom : Nat → List Uint256 → List Uint256
  | fuel + 1, h₁ :: h₂ :: l => (h₁ :: h₂ :: l) ++ levelsFrom fuel (MerkleTree.levelUp P.hashPair (h₁ :: h₂ :: l))
  | _, l => l

theorem getElem?_pairsOf : ∀ (l : List Uint256) (k : Nat), k < (l.length + 1) / 2 →
    (MerkleTree.pairsOf l)[k]? = some (l.getD (2 * k) 0, l.getD (min (2 * k + 1) (l.length - 1)) 0)
  | [], k, h => by simp at h
  | [h₁], k, h => by
    obtain rfl : k = 0 := by simp at h; omega
    rfl
  | h₁ :: h₂ :: l, 0, _ => by
    have hmin : min (2 * 0 + 1) ((h₁ :: h₂ :: l).length - 1) = 1 := by
      simp only [List.length_cons]
      omega
    rw [hmin]
    rfl
  | h₁ :: h₂ :: l, k + 1, h => by
    simp only [List.length_cons] at h
    have ih := getElem?_pairsOf l k (by omega)
    have hmin : min (2 * (k + 1) + 1) ((h₁ :: h₂ :: l).length - 1) = min (2 * k + 1) (l.length - 1) + 2 := by
      simp only [List.length_cons]
      omega
    have htwo : 2 * (k + 1) = 2 * k + 2 := by omega
    rw [hmin, htwo]
    exact ih

/-- The inner loop puts the level above behind the tree. -/
theorem pushLevel_eq (pre l : List Uint256) :
    pushLevel P (pre ++ l) pre.length l.length = pre ++ l ++ MerkleTree.levelUp P.hashPair l := by
  have hrounds : ∀ k, k ≤ (l.length + 1) / 2 →
      (List.range k).foldl (fun v k =>
        let i := 2 * k
        let i2 := min (i + 1) (l.length - 1)
        v ++ [P.hashPair (v.getD (pre.length + i) 0) (v.getD (pre.length + i2) 0)]) (pre ++ l) =
        pre ++ l ++ (MerkleTree.levelUp P.hashPair l).take k := by
    intro k
    induction k with
    | zero =>
      intro _
      rw [List.take_zero, List.append_nil]
      rfl
    | succ k ih =>
      intro hk
      -- the nodes hashed are those of the level, not of what is behind it
      have hget : ∀ i, i < l.length →
          (pre ++ l ++ (MerkleTree.levelUp P.hashPair l).take k).getD (pre.length + i) 0 = l.getD i 0 := by
        intro i hi
        rw [List.append_assoc, List.getD_append_right _ _ _ _ (Nat.le_add_right _ _), Nat.add_sub_cancel_left,
          List.getD_append _ _ _ _ hi]
      have hpair : (MerkleTree.levelUp P.hashPair l)[k]? =
          some (P.hashPair (l.getD (2 * k) 0) (l.getD (min (2 * k + 1) (l.length - 1)) 0)) := by
        rw [MerkleTree.levelUp, List.getElem?_map, getElem?_pairsOf l k (by omega)]
        rfl
      rw [List.range_succ, List.foldl_append, ih (by omega)]
      show pre ++ l ++ (MerkleTree.levelUp P.hashPair l).take k ++ [P.hashPair _ _] = _
      rw [hget _ (by omega), hget _ (by omega), List.take_add_one, hpair, List.append_assoc (pre ++ l)]
      rfl
  have hall := hrounds _ (Nat.le_refl _)
  rw [List.take_of_length_le (by rw [MerkleTree.length_levelUp])] at hall
  exact hall

theorem pushLevels_eq : ∀ (fuel : Nat) (pre l : List Uint256), l.length ≤ fuel + 1 →
    pushLevels P (pre ++ l) pre.length l.length = pre ++ levelsFrom P fuel l
  | fuel, pre, [], _ => by
    rw [pushLevels, dif_neg (by decide)]
    cases fuel <;> rfl
  | fuel, pre, [h], _ => by
    rw [pushLevels, dif_neg (by simp)]
    cases fuel <;> rfl
  | 0, _, _ :: _ :: _, hlen => by
    simp only [List.length_cons] at hlen
    omega
  | fuel + 1, pre, h₁ :: h₂ :: l, hlen => by
    have hup := MerkleTree.length_levelUp P.hashPair (h₁ :: h₂ :: l)
    have ih := pushLevels_eq fuel (pre ++ (h₁ :: h₂ :: l)) (MerkleTree.levelUp P.hashPair (h₁ :: h₂ :: l)) (by
      simp only [List.length_cons] at hlen hup
      omega)
    rw [List.length_append, hup] at ih
    rw [pushLevels, dif_pos (by simp), pushLevel_eq, ih, List.append_assoc]
    rfl

theorem getLast?_levelsFrom : ∀ (fuel : Nat) (l : List Uint256), l.length ≤ fuel + 1 →
    (levelsFrom P fuel l).getLast?.getD 0 = MerkleTree.root P.hashPair 0 fuel l
  | fuel, [], _ => by cases fuel <;> rfl
  | fuel, [h], _ => by cases fuel <;> rfl
  | 0, _ :: _ :: _, hlen => by
    simp only [List.length_cons] at hlen
    omega
  | fuel + 1, h₁ :: h₂ :: l, hlen => by
    have hup := MerkleTree.length_levelUp P.hashPair (h₁ :: h₂ :: l)
    have ih := getLast?_levelsFrom fuel (MerkleTree.levelUp P.hashPair (h₁ :: h₂ :: l)) (by
      simp only [List.length_cons] at hlen hup
      omega)
    have hne : levelsFrom P fuel (MerkleTree.levelUp P.hashPair (h₁ :: h₂ :: l)) ≠ [] := by
      have hne := MerkleTree.levelUp_ne_nil P.hashPair (List.cons_ne_nil h₁ (h₂ :: l))
      generalize MerkleTree.levelUp P.hashPair (h₁ :: h₂ :: l) = up at hne
      match fuel, up, hne with
      | _, [], hne => exact absurd rfl hne
      | 0, _ :: _, _ => exact List.cons_ne_nil _ _
      | _ + 1, [_], _ => exact List.cons_ne_nil _ _
      | _ + 1, _ :: _ :: _, _ => exact List.cons_ne_nil _ _
    show ((h₁ :: h₂ :: l) ++ levelsFrom P fuel _).getLast?.getD 0 = _
    rw [List.getLast?_append_of_ne_nil _ hne]
    exact ih

/-- The root returned is that of the tree level by level. -/
theorem buildTree_root (b : CBlock) : (b.buildTree P).2 = b.buildMerkleTree P := by
  have hlen : (b.vtx.map P.getHash).length = b.vtx.length := List.length_map ..
  have hpush := pushLevels_eq P b.vtx.length [] (b.vtx.map P.getHash) (by rw [hlen]; omega)
  rw [List.nil_append, List.nil_append, List.length_nil, hlen] at hpush
  unfold buildTree buildMerkleTree
  rw [merkleRoot_eq]
  show (pushLevels P (b.vtx.map P.getHash) 0 b.vtx.length).getLast?.getD 0 = _
  rw [hpush, getLast?_levelsFrom P _ _ (by rw [hlen]; omega)]

/-- The walk over the tree finds the other halves. -/
theorem branchFrom_eq : ∀ (fuel : Nat) (pre l : List Uint256) (i : Nat), l.length ≤ fuel + 1 → i < l.length →
    branchFrom (pre ++ levelsFrom P fuel l) pre.length l.length i = MerkleTree.branch P.hashPair 0 fuel l i
  | _, _, [], i, _, hi => absurd hi (Nat.not_lt_zero i)
  | fuel, pre, [h], i, _, _ => by
    rw [branchFrom, dif_neg (by simp)]
    cases fuel <;> rfl
  | 0, _, _ :: _ :: _, _, hlen, _ => by
    simp only [List.length_cons] at hlen
    omega
  | fuel + 1, pre, h₁ :: h₂ :: l, i, hlen, hi => by
    have hup := MerkleTree.length_levelUp P.hashPair (h₁ :: h₂ :: l)
    simp only [List.length_cons] at hlen hi hup
    have ih := branchFrom_eq fuel (pre ++ (h₁ :: h₂ :: l)) (MerkleTree.levelUp P.hashPair (h₁ :: h₂ :: l)) (i / 2)
      (by omega) (by omega)
    rw [List.length_append, hup, List.append_assoc] at ih
    rw [branchFrom, dif_pos (by simp)]
    have hnode : (pre ++ levelsFrom P (fuel + 1) (h₁ :: h₂ :: l)).getD
        (pre.length + min (i ^^^ 1) ((h₁ :: h₂ :: l).length - 1)) 0 =
        (h₁ :: h₂ :: l).getD (min (i ^^^ 1) (l.length + 1)) 0 := by
      show (pre ++ ((h₁ :: h₂ :: l) ++ _)).getD _ 0 = _
      rw [List.getD_append_right _ _ _ _ (Nat.le_add_right _ _), Nat.add_sub_cancel_left,
        List.getD_append _ _ _ _ (by simp only [List.length_cons]; omega)]
      rfl
    rw [hnode, Nat.shiftRight_one]
    exact congrArg (_ :: ·) ih

/-! ## Verifying -/

theorem climbBranch_eq (hash : Uint256) (i : Nat) (rest : List Uint256) :
    climbBranch P hash i rest = MerkleTree.climb P.hashPair hash i rest := by
  induction rest generalizing hash i with
  | nil => rfl
  | cons otherside rest ih =>
    have hodd : ((i : Int) % 2 = 1) ↔ i % 2 = 1 := by omega
    have hhalf : (i : Int) / 2 = ((i / 2 : Nat) : Int) := by omega
    unfold climbBranch MerkleTree.climb
    rw [hhalf, ih]
    simp only [hodd]

/-- The wallet's branches are the ones the tree gives. -/
theorem merkleBranch_eq_branch : ∀ (fuel : Nat) (l : List Uint256) (i : Nat),
    merkleBranch P fuel l i = MerkleTree.branch P.hashPair 0 fuel l i
  | 0, l, _ => by rcases l with - | ⟨h₁, - | ⟨h₂, l⟩⟩ <;> rfl
  | _ + 1, [], _ => rfl
  | _ + 1, [_], _ => rfl
  | fuel + 1, h₁ :: h₂ :: l, i => by
    show (if l.length + 1 + 1 ≤ 1 then _ else _) = _
    rw [if_neg (by omega), merkleLevel_eq, merkleBranch_eq_branch fuel]
    rfl

theorem checkMerkleBranch_eq_climb (hash : Uint256) (rest : List Uint256) (i : Nat) :
    Silkcoin.checkMerkleBranch P hash rest i = MerkleTree.climb P.hashPair hash i rest := by
  induction rest generalizing hash i with
  | nil => rfl
  | cons otherside rest ih => exact ih _ _

/-- So what the wallet keeps with a transaction of a block proves it in the block. -/
theorem checkMerkleBranch_wallet (b : CBlock) {i : Nat} (hi : i < b.vtx.length) :
    Silkcoin.checkMerkleBranch P (P.getHash b.vtx[i]) (b.getMerkleBranch P i) i = b.buildMerkleTree P := by
  have hlen : (b.vtx.map P.getHash).length = b.vtx.length := List.length_map ..
  have hleaf : (b.vtx.map P.getHash).getD i 0 = P.getHash b.vtx[i] := by
    rw [List.getD_eq_getElem _ _ (by rw [hlen]; exact hi), List.getElem_map]
  rw [checkMerkleBranch_eq_climb, getMerkleBranch, merkleBranch_eq_branch, ← hleaf, buildMerkleTree, merkleRoot_eq]
  exact MerkleTree.climb_branch P.hashPair 0 b.vtx.length (b.vtx.map P.getHash) i (by rw [hlen]; exact hi)
    (by rw [hlen]; omega)

/-- Of two hashes that come to one root, the pairs on the way are the same. -/
theorem eq_of_climbBranch_eq {S : Set (Uint256 × Uint256)} (hinj : S.InjOn fun p => P.hashPair p.1 p.2)
    {rest : List Uint256} {h₁ h₂ : Uint256} {nIndex : Int} (hS₁ : ∀ p ∈ branchPairs P h₁ nIndex rest, p ∈ S)
    (hS₂ : ∀ p ∈ branchPairs P h₂ nIndex rest, p ∈ S)
    (h : climbBranch P h₁ nIndex rest = climbBranch P h₂ nIndex rest) : h₁ = h₂ := by
  induction rest generalizing h₁ h₂ nIndex with
  | nil => exact h
  | cons otherside rest ih =>
    obtain ⟨hp₁, hrest₁⟩ := List.forall_mem_cons.mp hS₁
    obtain ⟨hp₂, hrest₂⟩ := List.forall_mem_cons.mp hS₂
    have hup := ih hrest₁ hrest₂ h
    by_cases hodd : nIndex % 2 = 1
    · rw [if_pos hodd] at hp₁ hp₂
      rw [if_pos hodd, if_pos hodd] at hup
      exact (Prod.mk.inj (hinj hp₁ hp₂ hup)).2
    · rw [if_neg hodd] at hp₁ hp₂
      rw [if_neg hodd, if_neg hodd] at hup
      exact (Prod.mk.inj (hinj hp₁ hp₂ hup)).1

/-- **MERKLE BRANCHES VERIFY.**  The branch of a transaction, taken from the tree that was built or is
    built now, leads its txid to the root; and two hashes that one index and branch lead to one root are the
    same, if the hash tells the pairs apart that it is given on the way. -/
theorem merkleBranch_verifies (b : CBlock) {i : Nat} (hi : i < b.vtx.length) :
    (∀ vMerkleTree, (vMerkleTree = [] ∨ vMerkleTree = (b.buildTree P).1) →
      checkMerkleBranch P (P.getHash b.vtx[i]) (b.getMerkleBranchIn P vMerkleTree i) i = (b.buildTree P).2) ∧
    ∀ (nIndex : Int) (vMerkleBranch : List Uint256) (root h₁ h₂ : Uint256), nIndex ≠ -1 →
      Set.InjOn (fun p : Uint256 × Uint256 => P.hashPair p.1 p.2)
        { p | p ∈ branchPairs P h₁ nIndex vMerkleBranch ∨ p ∈ branchPairs P h₂ nIndex vMerkleBranch } →
      checkMerkleBranch P h₁ vMerkleBranch nIndex = root → checkMerkleBranch P h₂ vMerkleBranch nIndex = root →
      h₁ = h₂ := by
  constructor
  · intro vMerkleTree hv
    have hlen : (b.vtx.map P.getHash).length = b.vtx.length := List.length_map ..
    have hpush := pushLevels_eq P b.vtx.length [] (b.vtx.map P.getHash) (by rw [hlen]; omega)
    have hbranch := branchFrom_eq P b.vtx.length [] (b.vtx.map P.getHash) i (by rw [hlen]; omega) (by rw [hlen]; exact hi)
    rw [List.nil_append, List.nil_append, List.length_nil, hlen] at hpush
    rw [List.nil_append, List.length_nil, hlen] at hbranch
    have htree : (if vMerkleTree = [] then (b.buildTree P).1 else vMerkleTree) = levelsFrom P b.vtx.length (b.vtx.map P.getHash) := by
      rcases hv with rfl | rfl
      · rw [if_pos rfl]
        exact hpush
      · rw [ite_self]
        exact hpush
    have hleaf : (b.vtx.map P.getHash).getD i 0 = P.getHash b.vtx[i] := by
      rw [List.getD_eq_getElem _ _ (by rw [hlen]; exact hi), List.getElem_map]
    rw [buildTree_root, buildMerkleTree, merkleRoot_eq, checkMerkleBranch, if_neg (by omega), climbBranch_eq,
      getMerkleBranchIn, htree, hbranch, ← hleaf]
    exact MerkleTree.climb_branch P.hashPair 0 b.vtx.length (b.vtx.map P.getHash) i (by rw [hlen]; exact hi)
      (by rw [hlen]; omega)
  · intro nIndex vMerkleBranch root h₁ h₂ hindex hinj hroot₁ hroot₂
    rw [checkMerkleBranch, if_neg hindex] at hroot₁ hroot₂
    exact eq_of_climbBranch_eq P hinj (fun p hp => Or.inl hp) (fun p hp => Or.inr hp) (hroot₁.trans hroot₂.symm)

end CBlock

/-- The second transaction of the twelfth block. -/
theorem Ripening.merkleBranch_rival :
    CBlock.checkMerkleBranch primitives (primitives.getHash rival) (blockK12.getMerkleBranchIn primitives [] 1) 1 =
      (blockK12.buildTree primitives).2 :=
  (CBlock.merkleBranch_verifies primitives blockK12 (show 1 < blockK12.vtx.length by decide)).1 [] (Or.inl rfl)

end Silkcoin
