/-
  A family of BUCKETS: the same element may lie in several of them.

  `copies` is the number of buckets an element lies in; a reference count beside the element is to say the
  same.  Two checks of such books are here as loops that fail at the first surprise and have to end with
  nothing left: `strikeOut` takes each element off a set, so that all lists together hold every element
  exactly once; `countDown` takes one off the number an element is expected with, so that it was seen so
  many times.  `strikeOut_eq_empty` and `countDown_eq_empty` say what it means that they end so.
-/
import Silkcoin.Lib.Validation
import Mathlib.Data.Finset.Card
import Mathlib.Data.Fintype.Basic
import Mathlib.Algebra.BigOperators.Group.Finset.Piecewise
import Mathlib.Algebra.BigOperators.Fin

open Std Validation

namespace Buckets

variable {ι α : Type} {cmp : α → α → Ordering} [TransCmp cmp] [LawfulEqCmp cmp]

/-! ## How many buckets hold an element -/

section Copies

variable [Fintype ι] {B : ι → ExtTreeSet α cmp} {b : ι} {a a' : α}

/-- The number of buckets that hold `a`. -/
def copies (B : ι → ExtTreeSet α cmp) (a : α) : Nat := (Finset.univ.filter fun b => a ∈ B b).card

omit [LawfulEqCmp cmp] in
theorem copies_congr {B' : ι → ExtTreeSet α cmp} (h : ∀ b, a' ∈ B' b ↔ a ∈ B b) : copies B' a' = copies B a := by
  unfold copies
  congr 1
  ext b
  rw [Finset.mem_filter, Finset.mem_filter, h b]

omit [LawfulEqCmp cmp] in
theorem copies_eq_zero : copies B a = 0 ↔ ∀ b, a ∉ B b := by
  unfold copies
  rw [Finset.card_eq_zero, Finset.filter_eq_empty_iff]
  exact ⟨fun h b => h (Finset.mem_univ b), fun h b _ => h b⟩

section Update

variable [DecidableEq ι]

omit [Fintype ι] in
theorem mem_update_insert (c : ι) : a' ∈ Function.update B b ((B b).insert a) c ↔ (b = c ∧ a = a') ∨ a' ∈ B c := by
  by_cases hbc : c = b
  · subst hbc
    rw [Function.update_self, ExtTreeSet.mem_insert, LawfulEqCmp.compare_eq_iff_eq]
    simp
  · rw [Function.update_of_ne hbc]
    constructor
    · exact Or.inr
    · rintro (⟨rfl, -⟩ | h)
      · exact absurd rfl hbc
      · exact h

omit [Fintype ι] in
theorem mem_update_erase (c : ι) : a' ∈ Function.update B b ((B b).erase a) c ↔ ¬ (b = c ∧ a = a') ∧ a' ∈ B c := by
  by_cases hbc : c = b
  · subst hbc
    rw [Function.update_self, ExtTreeSet.mem_erase]
    have hne : cmp a a' ≠ .eq ↔ a ≠ a' := not_congr LawfulEqCmp.compare_eq_iff_eq
    rw [hne]
    simp
  · rw [Function.update_of_ne hbc]
    constructor
    · intro h
      exact ⟨fun he => hbc he.1.symm, h⟩
    · exact fun h => h.2

theorem copies_insert_self (h : a ∉ B b) : copies (Function.update B b ((B b).insert a)) a = copies B a + 1 := by
  have hfilter : (Finset.univ.filter fun c => a ∈ Function.update B b ((B b).insert a) c) =
      insert b (Finset.univ.filter fun c => a ∈ B c) := by
    ext c
    rw [Finset.mem_filter, mem_update_insert, Finset.mem_insert, Finset.mem_filter]
    constructor
    · rintro ⟨-, ⟨rfl, -⟩ | hc⟩
      · exact Or.inl rfl
      · exact Or.inr ⟨Finset.mem_univ c, hc⟩
    · rintro (rfl | ⟨-, hc⟩)
      · exact ⟨Finset.mem_univ _, Or.inl ⟨rfl, rfl⟩⟩
      · exact ⟨Finset.mem_univ c, Or.inr hc⟩
  unfold copies
  rw [hfilter, Finset.card_insert_of_notMem]
  rw [Finset.mem_filter]
  exact fun hb => h hb.2

theorem copies_insert_ne (h : a ≠ a') : copies (Function.update B b ((B b).insert a)) a' = copies B a' := by
  refine copies_congr fun c => ?_
  rw [mem_update_insert]
  exact ⟨fun hc => hc.resolve_left fun he => h he.2, Or.inr⟩

theorem copies_erase_self (h : a ∈ B b) : copies (Function.update B b ((B b).erase a)) a + 1 = copies B a := by
  have hfilter : (Finset.univ.filter fun c => a ∈ Function.update B b ((B b).erase a) c) =
      (Finset.univ.filter fun c => a ∈ B c).erase b := by
    ext c
    rw [Finset.mem_filter, mem_update_erase, Finset.mem_erase, Finset.mem_filter]
    constructor
    · rintro ⟨-, hne, hc⟩
      exact ⟨fun he => hne ⟨he.symm, rfl⟩, Finset.mem_univ c, hc⟩
    · rintro ⟨hne, -, hc⟩
      exact ⟨Finset.mem_univ c, fun he => hne he.1.symm, hc⟩
  unfold copies
  rw [hfilter]
  exact Finset.card_erase_add_one (Finset.mem_filter.mpr ⟨Finset.mem_univ b, h⟩)

theorem copies_erase_ne (h : a ≠ a') : copies (Function.update B b ((B b).erase a)) a' = copies B a' := by
  refine copies_congr fun c => ?_
  rw [mem_update_erase]
  exact ⟨fun hc => hc.2, fun hc => ⟨fun he => h he.2, hc⟩⟩

end Update

end Copies

/-- Counted through all buckets, one after the other. -/
theorem count_flatMap_toList [DecidableEq α] {k : Nat} (B : Fin k → ExtTreeSet α cmp) (a : α) :
    ((List.finRange k).flatMap fun b => (B b).toList).count a = copies B a := by
  have hone : ∀ b, (B b).toList.count a = if a ∈ B b then 1 else 0 := by
    intro b
    have hnodup : (B b).toList.Nodup :=
      ExtTreeSet.distinct_toList.imp fun h he => h (LawfulEqCmp.compare_eq_iff_eq.mpr he)
    by_cases ha : a ∈ B b
    · rw [if_pos ha]
      exact List.count_eq_one_of_mem hnodup (ExtTreeSet.mem_toList.mpr ha)
    · rw [if_neg ha]
      exact List.count_eq_zero_of_not_mem fun hm => ha (ExtTreeSet.mem_toList.mp hm)
  have hcomp : (List.count a ∘ fun b => (B b).toList) = fun b => if a ∈ B b then 1 else 0 := funext hone
  unfold copies
  rw [List.count_flatMap, hcomp, Finset.card_filter, Fin.sum_univ_def]

/-- The lists of a family, counted together, after one was written over. -/
theorem sum_length_update [Fintype ι] [DecidableEq ι] (v : ι → List α) (b : ι) (l : List α) :
    (∑ c, (Function.update v b l c).length) + (v b).length = (∑ c, (v c).length) + l.length := by
  have hlength : (fun c => (Function.update v b l c).length) = Function.update (fun c => (v c).length) b l.length := by
    funext c
    by_cases hc : c = b
    · subst hc
      rw [Function.update_self, Function.update_self]
    · rw [Function.update_of_ne hc, Function.update_of_ne hc]
  rw [hlength, Finset.sum_update_of_mem (Finset.mem_univ b),
    ← Finset.add_sum_erase Finset.univ (fun c => (v c).length) (Finset.mem_univ b), Finset.erase_eq]
  omega

/-! ## Every element once -/

variable {ε : Type}

/-- An element that is not expected, or not any more, is a failure. -/
def strike (e : ε) (s : ExtTreeSet α cmp) (a : α) : Except ε (ExtTreeSet α cmp) := do
  require (decide (a ∈ s)) e
  return s.erase a

def strikeOut (e : ε) (s : ExtTreeSet α cmp) (l : List α) : Except ε (ExtTreeSet α cmp) := l.foldlM (strike e) s

theorem strikeOut_eq_ok {e : ε} {s r : ExtTreeSet α cmp} {l : List α} :
    strikeOut e s l = .ok r ↔ l.Nodup ∧ (∀ a ∈ l, a ∈ s) ∧ ∀ a, a ∈ r ↔ a ∈ s ∧ a ∉ l := by
  induction l generalizing s with
  | nil =>
    show (Except.ok s : Except ε _) = .ok r ↔ _
    rw [Except.ok.injEq]
    constructor
    · rintro rfl
      exact ⟨List.nodup_nil, fun a ha => absurd ha List.not_mem_nil, fun a => by simp⟩
    · rintro ⟨-, -, h⟩
      refine ExtTreeSet.ext_mem fun a => ?_
      rw [h a]
      simp
  | cons x l ih =>
    have hstep : strikeOut e s (x :: l) = (require (decide (x ∈ s)) e >>= fun _ => strikeOut e (s.erase x) l) := by
      show (List.foldlM (strike e) s (x :: l)) = _
      rw [List.foldlM_cons]
      unfold strike
      cases decide (x ∈ s) <;> rfl
    have herase : ∀ a, a ∈ s.erase x ↔ x ≠ a ∧ a ∈ s := by
      intro a
      rw [ExtTreeSet.mem_erase]
      exact and_congr_left fun _ => not_congr LawfulEqCmp.compare_eq_iff_eq
    rw [hstep, require_bind_ok, ih, decide_eq_true_eq, List.nodup_cons]
    constructor
    · rintro ⟨hx, hnd, hall, hr⟩
      refine ⟨⟨fun hxl => ((herase x).mp (hall x hxl)).1 rfl, hnd⟩, ?_, ?_⟩
      · intro a ha
        rcases List.mem_cons.mp ha with rfl | ha
        · exact hx
        · exact ((herase a).mp (hall a ha)).2
      · intro a
        rw [hr a, herase a, List.mem_cons, not_or]
        exact ⟨fun h => ⟨h.1.2, fun he => h.1.1 he.symm, h.2⟩, fun h => ⟨⟨fun he => h.2.1 he.symm, h.1⟩, h.2.2⟩⟩
    · rintro ⟨⟨hxl, hnd⟩, hall, hr⟩
      refine ⟨hall x List.mem_cons_self, hnd, ?_, ?_⟩
      · intro a ha
        exact (herase a).mpr ⟨fun he => hxl (he ▸ ha), hall a (List.mem_cons_of_mem _ ha)⟩
      · intro a
        rw [hr a, herase a, List.mem_cons, not_or]
        exact ⟨fun h => ⟨⟨fun he => h.2.1 he.symm, h.1⟩, h.2.2⟩, fun h => ⟨h.1.2, fun he => h.1.1 he.symm, h.2⟩⟩

/-- Nothing is left, and nothing was a surprise, if the list is the set. -/
theorem strikeOut_eq_empty {e : ε} {s : ExtTreeSet α cmp} {l : List α} :
    strikeOut e s l = .ok ∅ ↔ l.Nodup ∧ ∀ a, a ∈ l ↔ a ∈ s := by
  rw [strikeOut_eq_ok]
  constructor
  · rintro ⟨hnd, hall, hr⟩
    refine ⟨hnd, fun a => ⟨hall a, fun ha => ?_⟩⟩
    by_contra hal
    exact ExtTreeSet.not_mem_empty ((hr a).mpr ⟨ha, hal⟩)
  · rintro ⟨hnd, hiff⟩
    refine ⟨hnd, fun a ha => (hiff a).mp ha, fun a => ⟨fun h => absurd h ExtTreeSet.not_mem_empty, fun h => ?_⟩⟩
    exact absurd ((hiff a).mpr h.1) h.2

/-! ## Every element so many times -/

/-- An element that was seen so often already is a failure. -/
def takeOne (e : ε) (m : ExtTreeMap α Int cmp) (a : α) : Except ε (ExtTreeMap α Int cmp) :=
  match m[a]? with
  | none => .error e
  | some c => .ok (if c - 1 = 0 then m.erase a else m.insert a (c - 1))

def countDown (e : ε) (m : ExtTreeMap α Int cmp) (l : List α) : Except ε (ExtTreeMap α Int cmp) :=
  l.foldlM (takeOne e) m

/-- Expected is what is expected at least once. -/
def Positive (m : ExtTreeMap α Int cmp) : Prop := ∀ (a : α) (c : Int), m[a]? = some c → 0 < c

theorem getElem?_takeOne {e : ε} {m m' : ExtTreeMap α Int cmp} {a : α} (h : takeOne e m a = .ok m')
    (hpos : Positive m) : 0 < (m[a]?).getD 0 ∧ (m'[a]?).getD 0 = (m[a]?).getD 0 - 1 ∧
      (∀ a', a ≠ a' → m'[a']? = m[a']?) ∧ Positive m' := by
  unfold takeOne at h
  split at h
  · cases h
  rename_i c hc
  have hcpos := hpos a c hc
  rw [hc]
  obtain rfl := Except.ok.inj h
  have hself : cmp a a = .eq := ReflCmp.compare_self
  have hne : ∀ a', a ≠ a' → cmp a a' ≠ .eq := fun a' ha' he => ha' (LawfulEqCmp.compare_eq_iff_eq.mp he)
  by_cases hone : c - 1 = 0
  · rw [if_pos hone]
    have hother : ∀ a', a ≠ a' → (m.erase a)[a']? = m[a']? := fun a' ha' => by
      rw [ExtTreeMap.getElem?_erase, if_neg (hne a' ha')]
    refine ⟨hcpos, ?_, hother, ?_⟩
    · rw [ExtTreeMap.getElem?_erase, if_pos hself]
      show (0 : Int) = c - 1
      omega
    · intro a' c' hc'
      rw [ExtTreeMap.getElem?_erase] at hc'
      split at hc'
      · cases hc'
      · exact hpos a' c' hc'
  · rw [if_neg hone]
    have hother : ∀ a', a ≠ a' → (m.insert a (c - 1))[a']? = m[a']? := fun a' ha' => by
      rw [ExtTreeMap.getElem?_insert, if_neg (hne a' ha')]
    refine ⟨hcpos, ?_, hother, ?_⟩
    · rw [ExtTreeMap.getElem?_insert, if_pos hself]
      rfl
    · intro a' c' hc'
      rw [ExtTreeMap.getElem?_insert] at hc'
      split at hc'
      · obtain rfl := Option.some.inj hc'
        omega
      · exact hpos a' c' hc'

omit [LawfulEqCmp cmp] in
theorem takeOne_isOk {e : ε} {m : ExtTreeMap α Int cmp} {a : α} (h : 0 < (m[a]?).getD 0) :
    ∃ m', takeOne e m a = .ok m' := by
  unfold takeOne
  cases hm : m[a]? with
  | none =>
    rw [hm] at h
    exact absurd h (by decide)
  | some c => exact ⟨_, rfl⟩

/-- Nothing is left, and nothing was a surprise, if everything was seen as often as expected. -/
theorem countDown_eq_empty [DecidableEq α] {e : ε} {m : ExtTreeMap α Int cmp} {l : List α} (hpos : Positive m) :
    countDown e m l = .ok ∅ ↔ ∀ a, (l.count a : Int) = (m[a]?).getD 0 := by
  induction l generalizing m with
  | nil =>
    show (Except.ok m : Except ε _) = .ok ∅ ↔ _
    rw [Except.ok.injEq]
    constructor
    · rintro rfl a
      rw [ExtTreeMap.getElem?_empty]
      rfl
    · intro h
      refine ExtTreeMap.ext_getElem? fun a => ?_
      rw [ExtTreeMap.getElem?_empty]
      cases hm : m[a]? with
      | none => rfl
      | some c =>
        have hzero := h a
        have := hpos a c hm
        rw [hm, List.count_nil] at hzero
        have hzero : (0 : Int) = c := hzero
        omega
  | cons x l ih =>
    show (List.foldlM (takeOne e) m (x :: l)) = .ok ∅ ↔ _
    rw [List.foldlM_cons, bind_ok]
    have hcons : ∀ a, ((x :: l).count a : Int) = l.count a + if x = a then 1 else 0 := by
      intro a
      rw [List.count_cons]
      by_cases hxa : x = a
      · rw [if_pos hxa, if_pos (beq_iff_eq.mpr hxa)]
        omega
      · rw [if_neg hxa, if_neg (fun hb => hxa (beq_iff_eq.mp hb))]
        omega
    constructor
    · rintro ⟨m', hstep, hrest⟩ a
      obtain ⟨-, hself, hother, hpos'⟩ := getElem?_takeOne hstep hpos
      have hcount := (ih hpos').mp hrest a
      rw [hcons, hcount]
      by_cases hxa : x = a
      · subst hxa
        rw [if_pos rfl, hself]
        omega
      · rw [if_neg hxa, hother a hxa]
        omega
    · intro h
      have hx := h x
      rw [hcons, if_pos rfl] at hx
      obtain ⟨m', hstep⟩ := takeOne_isOk (e := e) (m := m) (a := x) (by omega)
      obtain ⟨-, hself, hother, hpos'⟩ := getElem?_takeOne hstep hpos
      refine ⟨m', hstep, (ih hpos').mpr fun a => ?_⟩
      have ha := h a
      rw [hcons] at ha
      by_cases hxa : x = a
      · subst hxa
        rw [if_pos rfl] at ha
        rw [hself]
        omega
      · rw [if_neg hxa] at ha
        rw [hother a hxa]
        omega

end Buckets
