/-
  `WildcardMatch`: is a text one of those a mask stands for?

  The two pointers walk over memory that ends with the terminators; to read behind them is an error, and
  there is no result then.  A `*` is tried without a character first, and then with one more.  What comes
  out is membership in the LANGUAGE of the mask (`wildcardMatch_language`), and no pointer gets past a
  terminator: whenever the loop steps over a character it has seen that it is not the last.
-/
import Silkcoin.Lib.CString
import Silkcoin.Lib.Glob

namespace Silkcoin

open CString Glob

/-- `psz` and `mask` are what can be read from the two pointers on. -/
def wildcardMatch (psz mask : List UInt8) : Option Bool :=
  match mask with
  | [] => none
  | m :: mask' =>
    if m = 0 then psz.head?.map fun c => decide (c = 0)
    else if m = 42 then
      -- '*': the second call is made only if the first one finds nothing
      (wildcardMatch psz mask').bind fun fFound =>
        if fFound then some true
        else
          match psz with
          | [] => none
          | c :: psz' => if c = 0 then some false else wildcardMatch psz' (m :: mask')
    else
      match psz with
      | [] => none
      | c :: psz' =>
        -- '?' takes any character, all others take themselves
        if (if m = 63 then decide (c = 0) else decide (c ≠ m)) then some false
        else wildcardMatch psz' mask'
termination_by psz.length + mask.length

/-- What a character of a mask stands for. -/
def maskToken (m : UInt8) : Token UInt8 :=
  if m = 42 then .anyText else if m = 63 then .anyOne else .letter m

/-! ## One character of the mask -/

theorem wildcardMatch_end (psz : List UInt8) :
    wildcardMatch psz [0] = psz.head?.map fun c => decide (c = 0) := by
  rw [wildcardMatch.eq_def]
  exact if_pos rfl

theorem wildcardMatch_star (c : UInt8) (psz mask : List UInt8) :
    wildcardMatch (c :: psz) (42 :: mask) = (wildcardMatch (c :: psz) mask).bind fun fFound =>
      if fFound then some true else if c = 0 then some false else wildcardMatch psz (42 :: mask) := by
  rw [wildcardMatch.eq_def]
  dsimp only
  rw [if_neg (by decide), if_pos rfl]

theorem wildcardMatch_one {m : UInt8} (h0 : m ≠ 0) (hstar : m ≠ 42) (c : UInt8) (psz mask : List UInt8) :
    wildcardMatch (c :: psz) (m :: mask) =
      if (if m = 63 then decide (c = 0) else decide (c ≠ m)) then some false
      else wildcardMatch psz mask := by
  rw [wildcardMatch.eq_def]
  dsimp only
  rw [if_neg h0, if_neg hstar]

/-! ## The language -/

/-- The result is there, and says if the text is in the language of the mask. -/
def Decides (r : Option Bool) (p : Prop) : Prop := ∃ fMatch, r = some fMatch ∧ (fMatch = true ↔ p)

theorem Decides.congr {r : Option Bool} {p q : Prop} (h : Decides r p) (hpq : p ↔ q) : Decides r q := by
  obtain ⟨fMatch, hr, hp⟩ := h
  exact ⟨fMatch, hr, hp.trans hpq⟩

theorem decides_false {p : Prop} (h : ¬ p) : Decides (some false) p :=
  ⟨false, rfl, fun hf => absurd hf Bool.false_ne_true, fun hp => absurd hp h⟩

/-- A mask that starts with a star, on every text: the rest of the mask is tried at each place. -/
theorem decides_star {mask : List UInt8} {tokens : List (Token UInt8)}
    (hmask : ∀ s : List UInt8, (∀ c ∈ s, c ≠ 0) →
      Decides (wildcardMatch (s ++ [0]) mask) (s ∈ language tokens)) :
    ∀ s : List UInt8, (∀ c ∈ s, c ≠ 0) →
      Decides (wildcardMatch (s ++ [0]) (42 :: mask)) (s ∈ language (.anyText :: tokens))
  | [], hs => by
    obtain ⟨fFound, hrun, hfound⟩ := hmask [] hs
    have hrun : wildcardMatch [0] mask = some fFound := hrun
    refine ⟨fFound, ?_, ?_⟩
    · rw [List.nil_append, wildcardMatch_star, hrun]
      cases fFound with
      | true => rfl
      | false => rfl
    · rw [hfound, mem_anyText]
      constructor
      · exact Or.inl
      · rintro (h | ⟨a, w, h, -⟩)
        · exact h
        · cases h
  | c :: s, hs => by
    obtain ⟨fFound, hrun, hfound⟩ := hmask (c :: s) hs
    obtain ⟨hc, hs⟩ := List.forall_mem_cons.mp hs
    obtain ⟨fLater, hlater, hiff⟩ := decides_star hmask s hs
    rw [List.cons_append] at hrun ⊢
    rw [wildcardMatch_star, hrun]
    cases fFound with
    | true => exact ⟨true, rfl, fun _ => mem_anyText.mpr (Or.inl (hfound.mp rfl)), fun _ => rfl⟩
    | false =>
      refine ⟨fLater, ?_, ?_⟩
      · rw [Option.bind_some, if_neg Bool.false_ne_true, if_neg hc]
        exact hlater
      · rw [hiff]
        constructor
        · intro h
          exact mem_anyText.mpr (Or.inr ⟨c, s, rfl, h⟩)
        · intro h
          rcases mem_anyText.mp h with h | ⟨a, w, heq, h⟩
          · exact absurd (hfound.mpr h) Bool.false_ne_true
          · cases heq
            exact h

/-- A character that is no star takes one character off the text, if it can. -/
theorem decides_one {m : UInt8} (h0 : m ≠ 0) (hstar : m ≠ 42) {mask : List UInt8}
    {tokens : List (Token UInt8)}
    (hmask : ∀ s : List UInt8, (∀ c ∈ s, c ≠ 0) →
      Decides (wildcardMatch (s ++ [0]) mask) (s ∈ language tokens)) {s : List UInt8}
    (hs : ∀ c ∈ s, c ≠ 0) :
    Decides (wildcardMatch (s ++ [0]) (m :: mask)) (s ∈ language (maskToken m :: tokens)) := by
  unfold maskToken
  rw [if_neg hstar]
  cases s with
  | nil =>
    rw [List.nil_append, wildcardMatch_one h0 hstar]
    split
    · rw [decide_eq_true rfl, if_pos rfl]
      refine decides_false fun h => ?_
      obtain ⟨a, w, heq, -⟩ := mem_anyOne.mp h
      cases heq
    · rw [decide_eq_true h0.symm, if_pos rfl]
      refine decides_false fun h => ?_
      obtain ⟨w, heq, -⟩ := mem_letter.mp h
      cases heq
  | cons c s =>
    obtain ⟨hc, hs⟩ := List.forall_mem_cons.mp hs
    rw [List.cons_append, wildcardMatch_one h0 hstar]
    split
    · rw [decide_eq_false hc, if_neg Bool.false_ne_true]
      refine (hmask s hs).congr (Iff.trans ?_ mem_anyOne.symm)
      constructor
      · exact fun h => ⟨c, s, rfl, h⟩
      · rintro ⟨a, w, heq, h⟩
        cases heq
        exact h
    · by_cases hcm : c = m
      · rw [decide_eq_false (fun h => h hcm), if_neg Bool.false_ne_true]
        refine (hmask s hs).congr (Iff.trans ?_ mem_letter.symm)
        constructor
        · exact fun h => ⟨s, by rw [hcm], h⟩
        · rintro ⟨w, heq, h⟩
          cases heq
          exact h
      · rw [decide_eq_true hcm, if_pos rfl]
        refine decides_false fun h => ?_
        obtain ⟨w, heq, -⟩ := mem_letter.mp h
        cases heq
        exact hcm rfl

/-- By induction on the mask, for all texts at once. -/
theorem wildcardMatch_decides : ∀ mask : List UInt8, (∀ m ∈ mask, m ≠ 0) →
    ∀ s : List UInt8, (∀ c ∈ s, c ≠ 0) →
      Decides (wildcardMatch (s ++ [0]) (mask ++ [0])) (s ∈ language (mask.map maskToken))
  | [], _, s, hs => by
    rw [List.nil_append, wildcardMatch_end, List.map_nil, mem_nil]
    cases s with
    | nil => exact ⟨true, rfl, fun _ => rfl, fun _ => rfl⟩
    | cons c s =>
      have hc := hs c List.mem_cons_self
      refine ⟨false, congrArg some (decide_eq_false hc), fun h => absurd h Bool.false_ne_true, ?_⟩
      intro h
      cases h
  | m :: mask, hmask, s, hs => by
    obtain ⟨h0, hmask⟩ := List.forall_mem_cons.mp hmask
    have ih := wildcardMatch_decides mask hmask
    rw [List.cons_append, List.map_cons]
    by_cases hstar : m = 42
    · subst hstar
      exact decides_star ih s hs
    · exact decides_one h0 hstar ih hs

/-- **`WildcardMatch` is glob matching.**  For all texts and masks it ends, reads nothing behind the two
    terminators, and returns true exactly for the texts in the language of the mask. -/
theorem wildcardMatch_language (str mask : List UInt8) :
    ∃ fMatch, wildcardMatch (terminated str) (terminated mask) = some fMatch ∧
      (fMatch = true ↔ cStr str ∈ language ((cStr mask).map maskToken)) :=
  wildcardMatch_decides (cStr mask) (fun _ => ne_zero_of_mem) (cStr str) fun _ => ne_zero_of_mem

end Silkcoin
