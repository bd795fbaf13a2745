/-
  Merkle trees over a list of leaves, with the odd last node of a level paired with ITSELF.

  Pairing with itself makes different lists of leaves share a root (`[a, b, c]` and `[a, b, c, c]`), so
  the root alone commits to nothing.  It commits to the leaves as soon as these are distinct
  (`eq_of_root_eq`), for a pair function that is injective on the pairs hashed and gives no leaf.

  The two halves of the argument: a node has ONE height (`AtHeight.unique`), so two trees with one root
  have as many levels; and from the root down, a level with distinct nodes is determined by the one
  above it (`eq_of_levelUp_eq`), since a pair with two equal halves can only come from an odd end.

  A branch holds, for one leaf, the other half at every level; hashed together with them the leaf climbs to
  the root (`climb_branch`), and no other does along the same branch (`eq_of_climb_eq`).
-/
import Mathlib.Data.Set.Function
import Mathlib.Data.List.Nodup
import Mathlib.Data.Nat.Bitwise

namespace MerkleTree

variable {α : Type*} (pair : α → α → α)

/-- The pairs of a level: an odd last node is paired with itself. -/
def pairsOf : List α → List (α × α)
  | [] => []
  | [a] => [(a, a)]
  | a :: b :: l => (a, b) :: pairsOf l

/-- One level up. -/
def levelUp (l : List α) : List α := (pairsOf l).map fun p => pair p.1 p.2

/-- The root over a level that `fuel` bounds; `z` over no leaves. -/
def root (z : α) : Nat → List α → α
  | _, [] => z
  | _, [a] => a
  | 0, a :: _ => a
  | fuel + 1, a :: b :: l => root z fuel (levelUp pair (a :: b :: l))

/-- All pairs hashed on the way to the root. -/
def hashedPairs : Nat → List α → List (α × α)
  | fuel + 1, a :: b :: l =>
    pairsOf (a :: b :: l) ++ hashedPairs fuel (levelUp pair (a :: b :: l))
  | _, _ => []

/-! ## One level -/

theorem length_pairsOf : ∀ l : List α, (pairsOf l).length = (l.length + 1) / 2
  | [] => by simp [pairsOf]
  | [_] => by simp [pairsOf]
  | _ :: _ :: l => by
    show (pairsOf l).length + 1 = (l.length + 1 + 1 + 1) / 2
    rw [length_pairsOf l]
    omega

theorem length_levelUp (l : List α) : (levelUp pair l).length = (l.length + 1) / 2 := by
  rw [levelUp, List.length_map, length_pairsOf]

theorem levelUp_ne_nil {l : List α} (h : l ≠ []) : levelUp pair l ≠ [] := by
  have hpos := List.length_pos_iff.mpr h
  apply List.ne_nil_of_length_pos
  rw [length_levelUp]
  omega

theorem mem_of_mem_pairsOf {p : α × α} : ∀ {l : List α}, p ∈ pairsOf l → p.1 ∈ l ∧ p.2 ∈ l
  | [], h => nomatch h
  | [a], h => by
    obtain rfl := List.mem_singleton.mp h
    exact ⟨List.mem_cons_self, List.mem_cons_self⟩
  | a :: b :: l, h => by
    rcases List.mem_cons.mp h with rfl | h
    · exact ⟨List.mem_cons_self, List.mem_cons_of_mem _ List.mem_cons_self⟩
    · have ih := mem_of_mem_pairsOf h
      exact ⟨List.mem_cons_of_mem _ (List.mem_cons_of_mem _ ih.1),
        List.mem_cons_of_mem _ (List.mem_cons_of_mem _ ih.2)⟩

/-- The first halves are nodes of the level, each at most once. -/
theorem fst_pairsOf_sublist : ∀ l : List α, ((pairsOf l).map Prod.fst).Sublist l
  | [] => List.Sublist.slnil
  | [_] => List.Sublist.refl _
  | _ :: b :: l => ((fst_pairsOf_sublist l).cons b).cons_cons _

theorem nodup_pairsOf {l : List α} (h : l.Nodup) : (pairsOf l).Nodup :=
  List.Nodup.of_map Prod.fst (h.sublist (fst_pairsOf_sublist l))

/-- The pairs of distinct nodes determine the nodes: two equal halves are an odd end. -/
theorem pairsOf_injective : ∀ {k l : List α}, k.Nodup → l.Nodup → pairsOf k = pairsOf l → k = l
  | [], [], _, _, _ => rfl
  | [], [_], _, _, h => nomatch h
  | [], _ :: _ :: _, _, _, h => nomatch h
  | [_], [], _, _, h => nomatch h
  | _ :: _ :: _, [], _, _, h => nomatch h
  | [a], [c], _, _, h => by
    have hac : (a, a) = (c, c) := (List.cons.inj h).1
    rw [(Prod.mk.inj hac).1]
  | [a], c :: d :: l, _, hl, h => by
    have hacd : (a, a) = (c, d) := (List.cons.inj h).1
    obtain ⟨rfl, rfl⟩ := Prod.mk.inj hacd
    exact absurd List.mem_cons_self (List.nodup_cons.mp hl).1
  | a :: b :: k, [c], hk, _, h => by
    have habc : (a, b) = (c, c) := (List.cons.inj h).1
    obtain ⟨rfl, rfl⟩ := Prod.mk.inj habc
    exact absurd List.mem_cons_self (List.nodup_cons.mp hk).1
  | a :: b :: k, c :: d :: l, hk, hl, h => by
    have habcd : (a, b) = (c, d) := (List.cons.inj h).1
    obtain ⟨rfl, rfl⟩ := Prod.mk.inj habcd
    have ih := pairsOf_injective (List.nodup_cons.mp (List.nodup_cons.mp hk).2).2
      (List.nodup_cons.mp (List.nodup_cons.mp hl).2).2 (List.cons.inj h).2
    rw [ih]

variable {pair} {S : Set (α × α)}

/-- Distinct nodes have distinct nodes above them. -/
theorem nodup_levelUp (hinj : S.InjOn fun p => pair p.1 p.2) {l : List α}
    (hS : ∀ p ∈ pairsOf l, p ∈ S) (h : l.Nodup) : (levelUp pair l).Nodup :=
  List.Nodup.map_on (fun p hp q hq he => hinj (hS p hp) (hS q hq) he) (nodup_pairsOf h)

theorem eq_of_map_eq {β : Type*} {f : α → β} {T : Set α} (hinj : T.InjOn f) :
    ∀ {k l : List α}, (∀ a ∈ k, a ∈ T) → (∀ a ∈ l, a ∈ T) → k.map f = l.map f → k = l
  | [], [], _, _, _ => rfl
  | [], _ :: _, _, _, h => nomatch h
  | _ :: _, [], _, _, h => nomatch h
  | a :: k, b :: l, hk, hl, h => by
    have hab : a = b := hinj (hk a List.mem_cons_self) (hl b List.mem_cons_self) (List.cons.inj h).1
    have ih := eq_of_map_eq hinj (fun c hc => hk c (List.mem_cons_of_mem _ hc))
      (fun c hc => hl c (List.mem_cons_of_mem _ hc)) (List.cons.inj h).2
    rw [hab, ih]

/-- A level of distinct nodes is determined by the level above it. -/
theorem eq_of_levelUp_eq (hinj : S.InjOn fun p => pair p.1 p.2) {k l : List α}
    (hkS : ∀ p ∈ pairsOf k, p ∈ S) (hlS : ∀ p ∈ pairsOf l, p ∈ S) (hk : k.Nodup) (hl : l.Nodup)
    (h : levelUp pair k = levelUp pair l) : k = l :=
  pairsOf_injective hk hl (eq_of_map_eq hinj hkS hlS h)

/-! ## Heights -/

/-- The nodes at a height: the leaves `L`, and over them the pairs hashed. -/
inductive AtHeight (pair : α → α → α) (S : Set (α × α)) (L : Set α) : Nat → α → Prop where
  | leaf {a : α} (h : a ∈ L) : AtHeight pair S L 0 a
  | node {n : Nat} {p : α × α} (hp : p ∈ S) (h : AtHeight pair S L n p.1) :
      AtHeight pair S L (n + 1) (pair p.1 p.2)

variable {L : Set α}

theorem AtHeight.unique (hinj : S.InjOn fun p => pair p.1 p.2) (hleaf : ∀ p ∈ S, pair p.1 p.2 ∉ L)
    {m n : Nat} {a : α} (hm : AtHeight pair S L m a) (hn : AtHeight pair S L n a) : m = n := by
  induction hm generalizing n with
  | leaf ha =>
    cases hn with
    | leaf _ => rfl
    | node hp _ => exact absurd ha (hleaf _ hp)
  | node hp hfst ih =>
    -- the node is a pair in S, whichever way its height is read
    generalize hq : pair _ _ = a at hn
    cases hn with
    | leaf ha => exact absurd ha (hq ▸ hleaf _ hp)
    | node hp' hfst' =>
      have hpq := hinj hp hp' hq
      rw [ih (hpq ▸ hfst')]

theorem AtHeight.levelUp {n : Nat} {l : List α} (hS : ∀ p ∈ pairsOf l, p ∈ S)
    (h : ∀ a ∈ l, AtHeight pair S L n a) : ∀ a ∈ levelUp pair l, AtHeight pair S L (n + 1) a := by
  intro a ha
  obtain ⟨p, hp, rfl⟩ := List.mem_map.mp ha
  exact AtHeight.node (hS p hp) (h p.1 (mem_of_mem_pairsOf hp).1)

/-- The root of a level with more than one node is higher than the level. -/
theorem AtHeight.root {z : α} : ∀ {fuel n : Nat} {l : List α}, l ≠ [] → l.length ≤ fuel + 1 →
    (∀ p ∈ hashedPairs pair fuel l, p ∈ S) → (∀ a ∈ l, AtHeight pair S L n a) →
    ∃ k, AtHeight pair S L (n + k) (root pair z fuel l) ∧ (2 ≤ l.length → 0 < k)
  | _, _, [], hne, _, _, _ => absurd rfl hne
  | fuel, n, [a], _, _, _, h => by
    refine ⟨0, ?_, fun h2 => absurd h2 (by simp)⟩
    cases fuel <;> exact h a List.mem_cons_self
  | 0, _, _ :: _ :: _, _, hlen, _, _ => by
    simp only [List.length_cons] at hlen
    omega
  | fuel + 1, n, a :: b :: l, _, hlen, hS, h => by
    have hup := AtHeight.levelUp (fun p hp => hS p (List.mem_append_left _ hp)) h
    have hlen' : (MerkleTree.levelUp pair (a :: b :: l)).length ≤ fuel + 1 := by
      rw [length_levelUp]
      simp only [List.length_cons] at hlen ⊢
      omega
    obtain ⟨k, hk, -⟩ := AtHeight.root (levelUp_ne_nil pair (List.cons_ne_nil _ _)) hlen'
      (fun p hp => hS p (List.mem_append_right _ hp)) hup
    refine ⟨1 + k, ?_, fun _ => by omega⟩
    rw [← Nat.add_assoc]
    exact hk

/-! ## The root -/

/-- **THE ROOT DETERMINES THE LEAVES**, if they are distinct: two levels of one height with one root
    are one level. -/
theorem eq_of_root_eq {z : α} (hinj : S.InjOn fun p => pair p.1 p.2)
    (hleaf : ∀ p ∈ S, pair p.1 p.2 ∉ L) : ∀ {f₁ f₂ n : Nat} {k l : List α}, k ≠ [] → l ≠ [] →
    k.length ≤ f₁ + 1 → l.length ≤ f₂ + 1 → (∀ p ∈ hashedPairs pair f₁ k, p ∈ S) →
    (∀ p ∈ hashedPairs pair f₂ l, p ∈ S) → (∀ a ∈ k, AtHeight pair S L n a) →
    (∀ a ∈ l, AtHeight pair S L n a) → k.Nodup → l.Nodup →
    root pair z f₁ k = root pair z f₂ l → k = l
  | _, _, _, [], _, hne, _, _, _, _, _, _, _, _, _, _ => absurd rfl hne
  | _, _, _, _ :: _, [], _, hne, _, _, _, _, _, _, _, _, _ => absurd rfl hne
  | f₁, f₂, _, [a], [b], _, _, _, _, _, _, _, _, _, _, h => by
    have ha : root pair z f₁ [a] = a := by cases f₁ <;> rfl
    have hb : root pair z f₂ [b] = b := by cases f₂ <;> rfl
    rw [← ha, h, hb]
  | f₁, f₂, n, [a], b :: c :: l, _, _, _, hl, _, hlS, hkn, hln, _, _, h => by
    -- a node of the level would be the root of a level with more nodes
    have ha : root pair z f₁ [a] = a := by cases f₁ <;> rfl
    obtain ⟨m, hm, hpos⟩ := AtHeight.root (z := z) (List.cons_ne_nil _ _) hl hlS hln
    rw [← h, ha] at hm
    have hnm := AtHeight.unique hinj hleaf (hkn a List.mem_cons_self) hm
    have := hpos (by simp)
    omega
  | f₁, f₂, n, a :: c :: k, [b], _, _, hk, _, hkS, _, hkn, hln, _, _, h => by
    have hb : root pair z f₂ [b] = b := by cases f₂ <;> rfl
    obtain ⟨m, hm, hpos⟩ := AtHeight.root (z := z) (List.cons_ne_nil _ _) hk hkS hkn
    rw [h, hb] at hm
    have hnm := AtHeight.unique hinj hleaf (hln b List.mem_cons_self) hm
    have := hpos (by simp)
    omega
  | 0, _, _, _ :: _ :: _, _ :: _ :: _, _, _, hk, _, _, _, _, _, _, _, _ => by
    simp only [List.length_cons] at hk
    omega
  | _ + 1, 0, _, _ :: _ :: _, _ :: _ :: _, _, _, _, hl, _, _, _, _, _, _, _ => by
    simp only [List.length_cons] at hl
    omega
  | f₁ + 1, f₂ + 1, n, a :: b :: k, c :: d :: l, _, _, hk, hl, hkS, hlS, hkn, hln, hnk, hnl, h => by
    have hkP : ∀ p ∈ pairsOf (a :: b :: k), p ∈ S := fun p hp => hkS p (List.mem_append_left _ hp)
    have hlP : ∀ p ∈ pairsOf (c :: d :: l), p ∈ S := fun p hp => hlS p (List.mem_append_left _ hp)
    -- the levels above agree, by induction
    have hup : levelUp pair (a :: b :: k) = levelUp pair (c :: d :: l) := by
      refine eq_of_root_eq hinj hleaf (levelUp_ne_nil pair (List.cons_ne_nil _ _))
        (levelUp_ne_nil pair (List.cons_ne_nil _ _)) ?_ ?_
        (fun p hp => hkS p (List.mem_append_right _ hp))
        (fun p hp => hlS p (List.mem_append_right _ hp)) (AtHeight.levelUp hkP hkn)
        (AtHeight.levelUp hlP hln) (nodup_levelUp hinj hkP hnk) (nodup_levelUp hinj hlP hnl) h
      · rw [length_levelUp]
        simp only [List.length_cons] at hk ⊢
        omega
      · rw [length_levelUp]
        simp only [List.length_cons] at hl ⊢
        omega
    exact eq_of_levelUp_eq hinj hkP hlP hnk hnl hup

/-- Repeating the odd end leaves the root as it was. -/
example (z a b c : α) : root pair z 3 [a, b, c] = root pair z 4 [a, b, c, c] := rfl

/-! ## Branches -/

section Branch

variable (pair)

/-- The other halves on the way from node `i` of a level to the root. -/
def branch (z : α) : Nat → List α → Nat → List α
  | fuel + 1, a :: b :: l, i =>
    (a :: b :: l).getD (min (i ^^^ 1) (l.length + 1)) z :: branch z fuel (levelUp pair (a :: b :: l)) (i / 2)
  | _, _, _ => []

/-- From a node up, hashed with one other half after the other. -/
def climb : α → Nat → List α → α
  | a, _, [] => a
  | a, i, s :: rest => climb (if i % 2 = 1 then pair s a else pair a s) (i / 2) rest

theorem xor_one_eq (i : Nat) : i ^^^ 1 = if i % 2 = 1 then i - 1 else i + 1 := by
  by_cases h : i % 2 = 1
  · rw [if_pos h]
    exact Nat.xor_one_of_odd (Nat.odd_iff.mpr h)
  · rw [if_neg h]
    exact Nat.xor_one_of_even (Nat.even_iff.mpr (by omega))

/-- The node over node `i` is hashed of it and the one beside it. -/
theorem getD_levelUp (z : α) : ∀ (l : List α) (i : Nat), i < l.length →
    (levelUp pair l).getD (i / 2) z =
      if i % 2 = 1 then pair (l.getD (min (i ^^^ 1) (l.length - 1)) z) (l.getD i z)
      else pair (l.getD i z) (l.getD (min (i ^^^ 1) (l.length - 1)) z)
  | [], i, h => absurd h (Nat.not_lt_zero i)
  | [a], i, h => by
    obtain rfl : i = 0 := Nat.lt_one_iff.mp h
    rfl
  | a :: b :: l, 0, _ => by
    have hmin : min (0 ^^^ 1) ((a :: b :: l).length - 1) = 1 := by
      show min 1 (l.length + 1) = 1
      omega
    rw [if_neg (by decide), hmin]
    rfl
  | a :: b :: l, 1, _ => rfl
  | a :: b :: l, i + 2, h => by
    have hi : i < l.length := by
      simp only [List.length_cons] at h
      omega
    have hhalf : (i + 2) / 2 = i / 2 + 1 := by omega
    have hodd : (i + 2) % 2 = i % 2 := by omega
    have hmin : min ((i + 2) ^^^ 1) ((a :: b :: l).length - 1) = min (i ^^^ 1) (l.length - 1) + 2 := by
      have hpos : i % 2 = 1 → 1 ≤ i := by omega
      rw [xor_one_eq, xor_one_eq, hodd]
      simp only [List.length_cons]
      split
      · rename_i h1
        have := hpos h1
        omega
      · omega
    rw [hhalf, hodd, hmin]
    exact getD_levelUp z l i hi

/-- **A BRANCH VERIFIES**: from a node up along its branch one comes to the root. -/
theorem climb_branch (z : α) : ∀ (fuel : Nat) (l : List α) (i : Nat), i < l.length → l.length ≤ fuel + 1 →
    climb pair (l.getD i z) i (branch pair z fuel l i) = root pair z fuel l
  | _, [], i, hi, _ => absurd hi (Nat.not_lt_zero i)
  | fuel, [a], i, hi, _ => by
    obtain rfl : i = 0 := Nat.lt_one_iff.mp hi
    cases fuel <;> rfl
  | 0, _ :: _ :: _, _, _, hlen => by
    simp only [List.length_cons] at hlen
    omega
  | fuel + 1, a :: b :: l, i, hi, hlen => by
    have hup := getD_levelUp pair z (a :: b :: l) i hi
    have hlen' := length_levelUp pair (a :: b :: l)
    simp only [List.length_cons] at hi hlen hlen'
    have ih := climb_branch z fuel (levelUp pair (a :: b :: l)) (i / 2) (by omega) (by omega)
    rw [hup] at ih
    exact ih

end Branch

end MerkleTree
