/-
  `FormatMoney` and `ParseMoney`: amounts as decimal texts.

  The parser is two scans.  One collects the digits before the point, the other adds up those after it, each
  with the multiplier of its place; then only white space may follow.  What it accepts is a grammar
  (`MoneyText`): white space, at most ten digits, possibly a point and at most eight digits, white space.
  The amount is the number of these digits (`amount`), and no step on the way leaves the range of an
  `int64_t` (`parsePsz_spec`, `parsePsz_of_text`).

  The grammar does not ask for a digit.  Nothing at all, or a single point, is an amount of ZERO; and like
  every reader of a C string it does not see what stands behind a zero.  All other texts are accepted just
  when they are decimal numbers (`parseMoney_exact_iff`).
-/
import Silkcoin.Amount
import Silkcoin.MapValue
import Silkcoin.Lib.CString

namespace Silkcoin

open Validation Decimal CString

/-! ## Printing -/

/-- `%08d`, with eight for `width`. -/
def zeroPadded (width n : Nat) : List UInt8 :=
  List.replicate (width - (decimal n).length) 48 ++ decimal n

/-- Trims zeros at the end, from a string that is read from its end.  The character two before stands for
    the place: it is the point when two digits are left. -/
def trimZeros : List UInt8 → List UInt8
  | c :: d :: e :: str => if c = 48 ∧ isDigit e = true then trimZeros (d :: e :: str) else c :: d :: e :: str
  | str => str

def formatMoney (n : Int) (fPlus : Bool) : List UInt8 :=
  let n_abs := (if n > 0 then n else -n).toNat
  let quotient := n_abs / COIN.toNat
  let remainder := n_abs % COIN.toNat
  let str := (trimZeros (decimal quotient ++ 46 :: zeroPadded 8 remainder).reverse).reverse
  if n < 0 then 45 :: str else if fPlus ∧ n > 0 then 43 :: str else str

/-! ## Reading -/

/-- Why there is no amount: the text is refused, or a signed number overflows. -/
inductive MoneyError
  | refused
  | overflow
deriving DecidableEq, Repr

def checked (x : Int) : Except MoneyError Int := if FitsInt64 x then .ok x else .error .overflow

/-- The digits after the point: the units they are, and the rest of the string. -/
def scanUnits (nUnits nMult : Int) : List UInt8 → Except MoneyError (Int × List UInt8)
  | [] => .ok (nUnits, [])
  | c :: p =>
    if isDigit c = true ∧ nMult > 0 then
      checked (nMult * (c.toNat - 48 : Int)) >>= fun nProduct =>
        checked (nUnits + nProduct) >>= fun nUnits => scanUnits nUnits (nMult.tdiv 10) p
    else .ok (nUnits, c :: p)

/-- The digits before the point, the units after it, and the rest of the string. -/
def scanWhole (strWhole : List UInt8) : List UInt8 → Except MoneyError (List UInt8 × Int × List UInt8)
  | [] => .ok (strWhole, 0, [])
  | c :: p =>
    if c = 46 then scanUnits 0 (CENT * 10) p >>= fun r => .ok (strWhole, r.1, r.2)
    else if isSpace c then .ok (strWhole, 0, c :: p)
    else if isDigit c = false then .error .refused
    else scanWhole (strWhole ++ [c]) p

/-- What is left to do after the scans. -/
def finishMoney (strWhole : List UInt8) (nUnits : Int) (p : List UInt8) : Except MoneyError Int :=
  if ∃ c ∈ p, isSpace c = false then .error .refused
  else if strWhole.length > 10 then .error .refused
  else if nUnits < 0 ∨ nUnits > COIN then .error .refused
  else checked (atoi64 strWhole * COIN) >>= fun nWhole => checked (nWhole + nUnits)

/-- `ParseMoney` of a C string, without its terminator. -/
def parsePsz (pszIn : List UInt8) : Except MoneyError Int :=
  scanWhole [] (pszIn.dropWhile isSpace) >>= fun r => finishMoney r.1 r.2.1 r.2.2

/-- `ParseMoney` of a `std::string`. -/
def parseMoney (str : List UInt8) : Except MoneyError Int := parsePsz (cStr str)

/-! ## The grammar -/

/-- The number with these digits before and after the point, in units of `COIN`. -/
def amount (whole frac : List UInt8) : Int :=
  ((value 0 whole * 100000000 + value 0 frac * 10 ^ (8 - frac.length) : Nat) : Int)

/-- Digits, possibly a point and digits, with white space around. -/
def MoneyText (s whole frac : List UInt8) : Prop :=
  ∃ lead num trail, s = lead ++ (num ++ trail) ∧ (∀ c ∈ lead, isSpace c = true) ∧
    (∀ c ∈ trail, isSpace c = true) ∧ AllDigits whole ∧ AllDigits frac ∧
    (num = whole ∧ frac = [] ∨ num = whole ++ 46 :: frac)

/-- A decimal number has a digit. -/
def IsDecimal (s whole frac : List UInt8) : Prop := MoneyText s whole frac ∧ (whole ≠ [] ∨ frac ≠ [])

/-! ## The scans -/

theorem not_isSpace_of_isDigit {c : UInt8} (h : isDigit c = true) : isSpace c = false := by
  have hc : 48 ≤ c.toNat ∧ c.toNat ≤ 57 := of_decide_eq_true h
  refine decide_eq_false ?_
  rintro (rfl | hctl)
  · exact absurd hc (by decide)
  · omega

theorem not_isDigit_of_isSpace {c : UInt8} (h : isSpace c = true) : isDigit c = false := by
  cases hd : isDigit c with
  | false => rfl
  | true => exact absurd (h.symm.trans (not_isSpace_of_isDigit hd)) Bool.noConfusion

theorem checked_of_range {x : Int} (hlo : 0 ≤ x) (hhi : x < 1000000000000000000) : checked x = .ok x := by
  have hfits : FitsInt64 x := by
    unfold FitsInt64
    omega
  exact if_pos hfits

/-- The units are the number of the digits, shifted to the place of the first. -/
theorem scanUnits_eq : ∀ {k : Nat} {f : List UInt8} (r : List UInt8) {u : Nat}, AllDigits f → f.length ≤ k →
    (f.length = k ∨ ∀ b ∈ r.head?, isDigit b = false) → k ≤ 8 → u + 10 ^ k ≤ 100000000 →
    scanUnits u ((10 ^ k / 10 : Nat) : Int) (f ++ r) =
      .ok (((u + value 0 f * 10 ^ (k - f.length) : Nat) : Int), r)
  | k, [], r, u, _, _, hend, _, _ => by
    have hzero : u + value 0 [] * 10 ^ (k - ([] : List UInt8).length) = u := by
      have hnil : value 0 [] = 0 := rfl
      rw [hnil, Nat.zero_mul, Nat.add_zero]
    rw [hzero, List.nil_append]
    cases r with
    | nil => rw [scanUnits]
    | cons c p =>
      -- either the places are used up, or the next character is no digit
      have hstop : ¬ (isDigit c = true ∧ ((10 ^ k / 10 : Nat) : Int) > 0) := by
        rintro ⟨hdigit, hmult⟩
        rcases hend with hk | hc
        · have hk : k = 0 := hk.symm
          subst hk
          exact absurd hmult (by decide)
        · exact absurd (hdigit.symm.trans (hc c rfl)) Bool.noConfusion
      rw [scanUnits, if_neg hstop]
  | 0, c :: f, r, u, _, hlen, _, _, _ => absurd hlen (by simp)
  | k + 1, c :: f, r, u, hf, hlen, hend, hk, hroom => by
    have hc : 48 ≤ c.toNat ∧ c.toNat ≤ 57 := of_decide_eq_true (hf c List.mem_cons_self)
    have hpow : 10 ^ (k + 1) / 10 = 10 ^ k := by omega
    have hpos : 0 < 10 ^ k := Nat.pow_pos (by decide)
    have hplace : 10 ^ k ≤ 100000000 := by omega
    have hproduct : ((10 ^ k : Nat) : Int) * (c.toNat - 48 : Int) = (((c.toNat - 48) * 10 ^ k : Nat) : Int) := by
      have hsub : (c.toNat - 48 : Int) = ((c.toNat - 48 : Nat) : Int) := by omega
      rw [hsub, ← Int.natCast_mul, Nat.mul_comm]
    have hdigit : (c.toNat - 48) * 10 ^ k ≤ 9 * 10 ^ k := Nat.mul_le_mul_right _ (by omega)
    have hsum : (u : Int) + (((c.toNat - 48) * 10 ^ k : Nat) : Int) =
        ((u + (c.toNat - 48) * 10 ^ k : Nat) : Int) := (Int.natCast_add _ _).symm
    have hdiv : ((10 ^ k : Nat) : Int).tdiv 10 = ((10 ^ k / 10 : Nat) : Int) := rfl
    have hrest := @scanUnits_eq k f r (u + (c.toNat - 48) * 10 ^ k) hf.tail (Nat.le_of_succ_le_succ hlen)
      (hend.imp Nat.succ.inj id) (by omega) (by omega)
    rw [List.cons_append, scanUnits, hpow, if_pos ⟨hf c List.mem_cons_self, by omega⟩, hproduct,
      checked_of_range (by omega) (by omega), ok_bind, hsum, checked_of_range (by omega) (by omega), ok_bind,
      hdiv, hrest, value_cons hf, List.length_cons]
    have hshift : 10 ^ f.length * 10 ^ (k - f.length) = 10 ^ k := by
      rw [← Nat.pow_add, Nat.add_sub_cancel' (Nat.le_of_succ_le_succ hlen)]
    have hplaces : k + 1 - (f.length + 1) = k - f.length := by omega
    rw [hplaces, Nat.add_mul, Nat.mul_assoc, hshift, Nat.add_assoc]

theorem scanWhole_append : ∀ {whole : List UInt8} (strWhole r : List UInt8), AllDigits whole →
    scanWhole strWhole (whole ++ r) = scanWhole (strWhole ++ whole) r
  | [], strWhole, r, _ => by rw [List.nil_append, List.append_nil]
  | c :: whole, strWhole, r, h => by
    have hc := h c List.mem_cons_self
    have hpoint : c ≠ 46 := by
      rintro rfl
      exact absurd hc (by decide)
    rw [List.cons_append, scanWhole, if_neg hpoint, if_neg (by simp [not_isSpace_of_isDigit hc]),
      if_neg (by simp [hc]), scanWhole_append _ _ h.tail, List.append_assoc]
    rfl

theorem value_lt_ten {l : List UInt8} (h : AllDigits l) (hlen : l.length ≤ 10) : value 0 l < 10000000000 :=
  Nat.lt_of_lt_of_le (value_lt h) (Nat.pow_le_pow_right (by decide) hlen : 10 ^ l.length ≤ 10 ^ 10)

theorem atoi64_of_digits {l : List UInt8} (h : AllDigits l) (hlen : l.length ≤ 10) :
    atoi64 l = (value 0 l : Nat) := by
  have hvalue := value_lt_ten h hlen
  cases l with
  | nil => rfl
  | cons c l =>
    have hc := h c List.mem_cons_self
    have hminus : ¬ (c :: l).head? = some 45 := by
      rw [List.head?_cons]
      rintro ⟨⟩
      exact absurd hc (by decide)
    have hplus : ¬ (c :: l).head? = some 43 := by
      rw [List.head?_cons]
      rintro ⟨⟩
      exact absurd hc (by decide)
    unfold atoi64
    rw [List.dropWhile_cons_of_neg (by simp [not_isSpace_of_isDigit hc])]
    dsimp only
    rw [if_neg hminus, if_neg hplus]
    omega

/-- After the scans nothing can overflow any more. -/
theorem finishMoney_ok {whole : List UInt8} (h : AllDigits whole) {u : Nat} (hu : u < 100000000)
    {p : List UInt8} (hspace : ∀ c ∈ p, isSpace c = true) (hlen : whole.length ≤ 10) :
    finishMoney whole u p = .ok ((value 0 whole * 100000000 + u : Nat) : Int) := by
  have hcoin : COIN = 100000000 := rfl
  have hnone : ¬ ∃ c ∈ p, isSpace c = false := by
    rintro ⟨c, hc, hno⟩
    exact absurd ((hspace c hc).symm.trans hno) Bool.noConfusion
  have hvalue := value_lt_ten h hlen
  have hunits : ¬ ((u : Int) < 0 ∨ (u : Int) > 100000000) := by omega
  have hwhole : checked ((value 0 whole : Nat) * 100000000 : Int) = .ok ((value 0 whole : Nat) * 100000000) :=
    checked_of_range (by omega) (by omega)
  have hsum : ((value 0 whole : Nat) * 100000000 + u : Int) = ((value 0 whole * 100000000 + u : Nat) : Int) := by
    rw [Int.natCast_add, Int.natCast_mul]
    rfl
  unfold finishMoney
  rw [if_neg hnone, if_neg (by omega), hcoin, if_neg hunits, atoi64_of_digits h hlen, hwhole, ok_bind, hsum]
  exact checked_of_range (by omega) (by omega)

theorem finishMoney_refused {whole : List UInt8} {u : Int} {p : List UInt8}
    (hno : ¬((∀ c ∈ p, isSpace c = true) ∧ whole.length ≤ 10)) : finishMoney whole u p = .error .refused := by
  unfold finishMoney
  by_cases hspace : ∀ c ∈ p, isSpace c = true
  · have hlen : whole.length > 10 := by
      have := not_and.mp hno hspace
      omega
    rw [if_pos hlen, ite_self]
  · obtain ⟨c, hnot⟩ := not_forall.mp hspace
    obtain ⟨hc, hnot⟩ := Classical.not_imp.mp hnot
    exact if_pos ⟨c, hc, Bool.eq_false_of_not_eq_true hnot⟩

/-! ## What is accepted -/

theorem scanWhole_point {whole frac : List UInt8} (r : List UInt8) (hfrac : AllDigits frac)
    (hlen : frac.length ≤ 8) (hend : frac.length = 8 ∨ ∀ b ∈ r.head?, isDigit b = false) :
    scanWhole whole (46 :: (frac ++ r)) =
      .ok (whole, ((value 0 frac * 10 ^ (8 - frac.length) : Nat) : Int), r) := by
  have hunits := @scanUnits_eq 8 frac r 0 hfrac hlen hend (Nat.le_refl 8) (by decide)
  have hmult : (CENT * 10 : Int) = ((10 ^ 8 / 10 : Nat) : Int) := by decide
  rw [Nat.zero_add] at hunits
  rw [scanWhole, if_pos rfl, hmult]
  exact congrArg (· >>= _) hunits

/-- Where the digits before the point end. -/
theorem scanWhole_end (whole : List UInt8) {r : List UInt8} (h : ∀ c ∈ r, isSpace c = true) :
    scanWhole whole r = .ok (whole, 0, r) := by
  cases r with
  | nil => rw [scanWhole]
  | cons c p =>
    have hc := h c List.mem_cons_self
    have hpoint : c ≠ 46 := by
      rintro rfl
      exact absurd hc (by decide)
    rw [scanWhole, if_neg hpoint, if_pos hc]

theorem units_lt {frac : List UInt8} (h : AllDigits frac) (hlen : frac.length ≤ 8) :
    value 0 frac * 10 ^ (8 - frac.length) < 100000000 := by
  have hvalue := value_lt h
  calc value 0 frac * 10 ^ (8 - frac.length) < 10 ^ frac.length * 10 ^ (8 - frac.length) :=
        Nat.mul_lt_mul_of_pos_right hvalue (Nat.pow_pos (by decide))
    _ = 10 ^ 8 := by rw [← Nat.pow_add, Nat.add_sub_cancel' hlen]

theorem head?_not_isDigit {r : List UInt8} (h : ∀ c ∈ r, isSpace c = true) : ∀ b ∈ r.head?, isDigit b = false :=
  fun b hb => not_isDigit_of_isSpace (h b (List.mem_of_mem_head? hb))

/-- A text of the grammar is read as its amount. -/
theorem parsePsz_of_text {s whole frac : List UInt8} (h : MoneyText s whole frac) (hwhole : whole.length ≤ 10)
    (hfrac : frac.length ≤ 8) : parsePsz s = .ok (amount whole frac) := by
  obtain ⟨lead, num, trail, rfl, hlead, htrail, hw, hf, hnum⟩ := h
  have hend := head?_not_isDigit htrail
  -- the white space in front goes, and nothing else
  have hskip : num ≠ [] → (lead ++ (num ++ trail)).dropWhile isSpace = num ++ trail := by
    intro hne
    rw [List.dropWhile_append_of_pos hlead]
    have hfirst : ∀ c ∈ num.head?, isSpace c = false := by
      intro c hc
      rcases hnum with ⟨rfl, -⟩ | rfl
      · exact not_isSpace_of_isDigit (hw c (List.mem_of_mem_head? hc))
      · cases whole with
        | nil =>
          obtain rfl : 46 = c := Option.some.inj hc
          decide
        | cons d whole =>
          obtain rfl : d = c := Option.some.inj hc
          exact not_isSpace_of_isDigit (hw d List.mem_cons_self)
    cases num with
    | nil => exact absurd rfl hne
    | cons c num => exact List.dropWhile_cons_of_neg (by simp [hfirst c rfl])
  unfold parsePsz
  rcases hnum with ⟨rfl, rfl⟩ | rfl
  · have hamount : amount num [] = ((value 0 num * 100000000 + 0 : Nat) : Int) := by
      unfold amount
      have hnil : value 0 [] = 0 := rfl
      rw [hnil, Nat.zero_mul]
    by_cases hne : num = []
    · subst hne
      have hall : ∀ c ∈ lead ++ ([] ++ trail), isSpace c = true := by
        intro c hc
        rcases List.mem_append.mp hc with hc | hc
        · exact hlead c hc
        · exact htrail c hc
      rw [List.dropWhile_eq_nil_iff.mpr hall, scanWhole_end [] (r := []) (by simp), ok_bind, hamount]
      exact finishMoney_ok hw (by decide) (by simp) hwhole
    · rw [hskip hne, scanWhole_append [] trail hw, List.nil_append, scanWhole_end num htrail, ok_bind, hamount]
      exact finishMoney_ok hw (by decide) htrail hwhole
  · rw [hskip (by simp), List.append_assoc, List.cons_append, scanWhole_append [] _ hw, List.nil_append,
      scanWhole_point trail hf hfrac (.inr hend), ok_bind]
    exact finishMoney_ok hw (units_lt hf hfrac) htrail hwhole

/-- And nothing else is accepted: everything else is refused, and nothing overflows. -/
theorem parsePsz_spec (s : List UInt8) : parsePsz s = .error .refused ∨
    ∃ whole frac, MoneyText s whole frac ∧ whole.length ≤ 10 ∧ frac.length ≤ 8 := by
  have hsplit : s = s.takeWhile isSpace ++ s.dropWhile isSpace := List.takeWhile_append_dropWhile.symm
  have hlead : ∀ c ∈ s.takeWhile isSpace, isSpace c = true := fun c hc => List.mem_takeWhile_imp hc
  unfold parsePsz
  generalize s.takeWhile isSpace = lead at hsplit hlead
  generalize s.dropWhile isSpace = p at hsplit
  obtain ⟨whole, r, rfl, hw, hlen, hend⟩ := digits_and_rest p.length p
  rw [scanWhole_append [] r hw, List.nil_append]
  -- what `finishMoney` accepts is a text
  have hfinish : ∀ {frac rest : List UInt8}, AllDigits frac → frac.length ≤ 8 →
      (r = rest ∧ frac = [] ∨ r = 46 :: (frac ++ rest)) →
      finishMoney whole ((value 0 frac * 10 ^ (8 - frac.length) : Nat) : Int) rest = .error .refused ∨
        ∃ whole frac, MoneyText s whole frac ∧ whole.length ≤ 10 ∧ frac.length ≤ 8 := by
    intro frac rest hf hfrac hr
    by_cases hok : (∀ c ∈ rest, isSpace c = true) ∧ whole.length ≤ 10
    · refine .inr ⟨whole, frac, ?_, hok.2, hfrac⟩
      rcases hr with ⟨rfl, rfl⟩ | rfl
      · exact ⟨lead, whole, r, hsplit, hlead, hok.1, hw, hf, .inl ⟨rfl, rfl⟩⟩
      · refine ⟨lead, whole ++ 46 :: frac, rest, ?_, hlead, hok.1, hw, hf, .inr rfl⟩
        rw [hsplit, List.append_assoc, List.cons_append]
    · exact .inl (finishMoney_refused hok)
  have hnone : (((value 0 [] * 10 ^ (8 - ([] : List UInt8).length) : Nat)) : Int) = 0 := by decide
  cases r with
  | nil =>
    have := @hfinish [] [] (by simp [AllDigits]) (by decide) (.inl ⟨rfl, rfl⟩)
    rw [hnone] at this
    exact this
  | cons c r =>
    rw [scanWhole]
    by_cases hpoint : c = 46
    · obtain ⟨frac, rest, rfl, hf, hfrac, hstop⟩ := digits_and_rest 8 r
      have hscan := @scanWhole_point whole frac rest hf hfrac hstop
      rw [scanWhole, if_pos rfl] at hscan
      rw [if_pos hpoint, hscan, ok_bind]
      exact hfinish hf hfrac (.inr (by rw [hpoint]))
    · rw [if_neg hpoint]
      by_cases hspace : isSpace c = true
      · rw [if_pos hspace, ok_bind]
        have := @hfinish [] (c :: r) (by simp [AllDigits]) (by decide) (.inl ⟨rfl, rfl⟩)
        rw [hnone] at this
        exact this
      · have hdigit : isDigit c = false := by
          rcases hend with hall | hc
          · rw [List.length_append, List.length_cons] at hall
            omega
          · exact hc c rfl
        rw [if_neg hspace, if_pos hdigit]
        exact .inl rfl

theorem parsePsz_iff (s : List UInt8) (v : Int) : parsePsz s = .ok v ↔
    ∃ whole frac, MoneyText s whole frac ∧ whole.length ≤ 10 ∧ frac.length ≤ 8 ∧ v = amount whole frac := by
  constructor
  · intro h
    rcases parsePsz_spec s with hno | ⟨whole, frac, htext, hwhole, hfrac⟩
    · rw [hno] at h
      cases h
    · rw [parsePsz_of_text htext hwhole hfrac] at h
      exact ⟨whole, frac, htext, hwhole, hfrac, (Except.ok.inj h).symm⟩
  · rintro ⟨whole, frac, htext, hwhole, hfrac, rfl⟩
    exact parsePsz_of_text htext hwhole hfrac

theorem parsePsz_ne_overflow (s : List UInt8) : parsePsz s ≠ .error .overflow := by
  intro h
  rcases parsePsz_spec s with hno | ⟨whole, frac, htext, hwhole, hfrac⟩
  · rw [hno] at h
    cases h
  · rw [parsePsz_of_text htext hwhole hfrac] at h
    cases h

/-! ## Texts and strings -/

theorem ne_zero_of_isDigit {c : UInt8} (h : isDigit c = true) : c ≠ 0 := by
  rintro rfl
  exact absurd h (by decide)

/-- A text has no terminator in it. -/
theorem MoneyText.ne_zero {s whole frac : List UInt8} (h : MoneyText s whole frac) : ∀ c ∈ s, c ≠ 0 := by
  obtain ⟨lead, num, trail, rfl, hlead, htrail, hw, hf, hnum⟩ := h
  have hspace : ∀ c, isSpace c = true → c ≠ 0 := by
    rintro c hc rfl
    exact absurd hc (by decide)
  intro c hc
  rcases List.mem_append.mp hc with hc | hc
  · exact hspace c (hlead c hc)
  · rcases List.mem_append.mp hc with hc | hc
    · rcases hnum with ⟨rfl, -⟩ | rfl
      · exact ne_zero_of_isDigit (hw c hc)
      · rcases List.mem_append.mp hc with hc | hc
        · exact ne_zero_of_isDigit (hw c hc)
        · rcases List.mem_cons.mp hc with rfl | hc
          · decide
          · exact ne_zero_of_isDigit (hf c hc)
    · exact hspace c (htrail c hc)

theorem MoneyText.cStr_eq {s whole frac : List UInt8} (h : MoneyText s whole frac) : cStr s = s :=
  cStr_eq_self h.ne_zero

/-- A text with a digit is none without one. -/
theorem IsDecimal.not_blank {s whole frac : List UInt8} (h : IsDecimal s whole frac) : ¬ MoneyText s [] [] := by
  rintro ⟨lead', num', trail', hs, hlead', htrail', -, -, hnum'⟩
  obtain ⟨⟨lead, num, trail, rfl, -, -, hw, hf, hnum⟩, hsome⟩ := h
  have hblank : ∀ c ∈ lead ++ (num ++ trail), isDigit c = false := by
    intro c hc
    rw [hs] at hc
    rcases List.mem_append.mp hc with hc | hc
    · exact not_isDigit_of_isSpace (hlead' c hc)
    · rcases List.mem_append.mp hc with hc | hc
      · rcases hnum' with ⟨rfl, -⟩ | rfl
        · cases hc
        · rw [List.nil_append, List.mem_singleton] at hc
          rw [hc]
          decide
      · exact not_isDigit_of_isSpace (htrail' c hc)
  have hdigit : ∃ c ∈ num, isDigit c = true := by
    rcases hsome with hne | hne
    · obtain ⟨c, hc⟩ := List.exists_mem_of_ne_nil whole hne
      rcases hnum with ⟨rfl, -⟩ | rfl
      · exact ⟨c, hc, hw c hc⟩
      · exact ⟨c, List.mem_append_left _ hc, hw c hc⟩
    · obtain ⟨c, hc⟩ := List.exists_mem_of_ne_nil frac hne
      rcases hnum with ⟨-, rfl⟩ | rfl
      · exact absurd rfl hne
      · exact ⟨c, List.mem_append_right _ (List.mem_cons_of_mem 46 hc), hf c hc⟩
  obtain ⟨c, hc, hd⟩ := hdigit
  have hno := hblank c (List.mem_append_right _ (List.mem_append_left _ hc))
  exact absurd (hd.symm.trans hno) Bool.noConfusion

/-! ## Printing and reading -/

theorem allDigits_append {l m : List UInt8} (hl : AllDigits l) (hm : AllDigits m) : AllDigits (l ++ m) := by
  intro c hc
  rcases List.mem_append.mp hc with hc | hc
  · exact hl c hc
  · exact hm c hc

theorem allDigits_zeros (k : Nat) : AllDigits (List.replicate k 48) := by
  intro c hc
  rw [List.eq_of_mem_replicate hc]
  decide

theorem value_zeros : ∀ k, value 0 (List.replicate k 48) = 0
  | 0 => rfl
  | k + 1 => by
    rw [List.replicate_succ, value_cons (allDigits_zeros (k + 1)), value_zeros k]
    exact Nat.zero_mul _

theorem zeroPadded_spec {n : Nat} (h : n < 10 ^ 8) :
    AllDigits (zeroPadded 8 n) ∧ (zeroPadded 8 n).length = 8 ∧ value 0 (zeroPadded 8 n) = n := by
  have hlen : (decimal n).length ≤ 8 := length_decimal h
  unfold zeroPadded
  refine ⟨allDigits_append (allDigits_zeros _) (allDigits_decimal n), ?_, ?_⟩
  · rw [List.length_append, List.length_replicate]
    omega
  · rw [value_append (allDigits_decimal n) (allDigits_zeros _), value_zeros, value_decimal, Nat.zero_mul,
      Nat.zero_add]

/-- Trimming takes zeros off the end, but not the digit after the point. -/
theorem trimZeros_spec : ∀ {g : List UInt8} (t : List UInt8), AllDigits g → 2 ≤ g.length →
    ∃ k g', g = List.replicate k 48 ++ g' ∧ g' ≠ [] ∧ trimZeros (g ++ 46 :: t) = g' ++ 46 :: t
  | [], _, _, hlen => absurd hlen (by decide)
  | [_], _, _, hlen => absurd hlen (by simp)
  | [c, d], t, _, _ => by
    refine ⟨0, [c, d], rfl, List.cons_ne_nil _ _, ?_⟩
    have hstop : ¬ (c = 48 ∧ isDigit 46 = true) := fun h => absurd h.2 (by decide)
    exact if_neg hstop
  | c :: d :: e :: g, t, hg, _ => by
    by_cases hc : c = 48
    · obtain ⟨k, g', hsplit, hne, htrim⟩ := @trimZeros_spec (d :: e :: g) t hg.tail (by simp)
      refine ⟨k + 1, g', ?_, hne, ?_⟩
      · rw [hsplit, hc, List.replicate_succ, List.cons_append]
      · exact (if_pos ⟨hc, hg e (by simp)⟩).trans htrim
    · exact ⟨0, c :: d :: e :: g, rfl, List.cons_ne_nil _ _, if_neg (fun h => hc h.1)⟩

/-- What is printed is the quotient, the point and the remainder without zeros at its end. -/
theorem formatMoney_text {n : Int} (hlo : 0 ≤ n) (hhi : n < 1000000000000000000) :
    ∃ whole frac, MoneyText (formatMoney n false) whole frac ∧ whole.length ≤ 10 ∧ frac.length ≤ 8 ∧
      amount whole frac = n := by
  have hcoin : COIN.toNat = 100000000 := rfl
  have habs : (if n > 0 then n else -n).toNat = n.toNat := by
    split
    · rfl
    · omega
  obtain ⟨hdigits, hlen, hvalue⟩ := @zeroPadded_spec (n.toNat % 100000000) (Nat.mod_lt _ (by decide))
  have hquotient : n.toNat / 100000000 < 10 ^ (9 + 1) := by omega
  have hreversed : AllDigits (zeroPadded 8 (n.toNat % 100000000)).reverse :=
    fun c hc => hdigits c (List.mem_reverse.mp hc)
  obtain ⟨k, g, hsplit, -, htrim⟩ :=
    trimZeros_spec (decimal (n.toNat / 100000000)).reverse hreversed (by rw [List.length_reverse, hlen]; decide)
  have hfrac : zeroPadded 8 (n.toNat % 100000000) = g.reverse ++ List.replicate k 48 := by
    rw [← List.reverse_reverse (zeroPadded 8 _), hsplit, List.reverse_append, List.reverse_replicate]
  have htext : formatMoney n false = decimal (n.toNat / 100000000) ++ 46 :: g.reverse := by
    unfold formatMoney
    dsimp only
    rw [habs, hcoin, if_neg (by omega), if_neg (fun h => Bool.noConfusion h.1), List.reverse_append,
      List.reverse_cons, List.append_assoc, List.singleton_append, htrim, List.reverse_append,
      List.reverse_cons, List.reverse_reverse, List.append_assoc, List.singleton_append]
  rw [hfrac] at hdigits hlen hvalue
  have hg : AllDigits g.reverse := fun c hc => hdigits c (List.mem_append_left _ hc)
  rw [List.length_append, List.length_replicate] at hlen
  rw [value_append (allDigits_zeros k) hg, value_zeros, List.length_replicate, Nat.add_zero] at hvalue
  refine ⟨decimal (n.toNat / 100000000), g.reverse, ?_, length_decimal hquotient, by omega, ?_⟩
  · refine ⟨[], decimal (n.toNat / 100000000) ++ 46 :: g.reverse, [], ?_, by simp, by simp,
      allDigits_decimal _, hg, .inr rfl⟩
    rw [htext, List.nil_append, List.append_nil]
  · have hplaces : 8 - g.reverse.length = k := by omega
    unfold amount
    rw [value_decimal, hplaces, hvalue]
    omega

/-- **Money strings are exact.**  What is printed is read again; nothing overflows; and a string is read as
    the decimal number it is, and refused if it is none, unless it has no digit and is read as zero, or a
    zero in it hides what makes it no number. -/
theorem parseMoney_exact_iff (n : Int) (s : List UInt8) :
    (0 ≤ n → n < 10 ^ 18 → parseMoney (formatMoney n false) = .ok n) ∧
    parseMoney s ≠ .error .overflow ∧
    ((∀ v, parseMoney s = .ok v ↔ ∃ whole frac, IsDecimal s whole frac ∧ whole.length ≤ 10 ∧
        frac.length ≤ 8 ∧ v = amount whole frac) ↔
      ¬ MoneyText (cStr s) [] [] ∧
        (0 ∈ s → ¬ ∃ whole frac, MoneyText (cStr s) whole frac ∧ whole.length ≤ 10 ∧ frac.length ≤ 8)) := by
  refine ⟨?_, parsePsz_ne_overflow (cStr s), ?_⟩
  · intro hlo hhi
    obtain ⟨whole, frac, htext, hwhole, hfrac, hn⟩ := formatMoney_text hlo (by omega)
    unfold parseMoney
    rw [htext.cStr_eq, parsePsz_of_text htext hwhole hfrac, hn]
  · constructor
    · intro hexact
      refine ⟨?_, ?_⟩
      · intro hblank
        obtain ⟨whole, frac, hdecimal, -, -, -⟩ :=
          (hexact _).mp (parsePsz_of_text hblank (by decide) (by decide))
        rw [hdecimal.1.cStr_eq] at hblank
        exact hdecimal.not_blank hblank
      · rintro hzero ⟨whole, frac, htext, hwhole, hfrac⟩
        obtain ⟨whole', frac', hdecimal, -, -, -⟩ := (hexact _).mp (parsePsz_of_text htext hwhole hfrac)
        exact hdecimal.1.ne_zero 0 hzero rfl
    · rintro ⟨hdigit, hzero⟩ v
      unfold parseMoney
      rw [parsePsz_iff]
      constructor
      · rintro ⟨whole, frac, htext, hwhole, hfrac, hv⟩
        have hclean : cStr s = s := by
          refine cStr_eq_self ?_
          rintro c hc rfl
          exact hzero hc ⟨whole, frac, htext, hwhole, hfrac⟩
        have hsome : whole ≠ [] ∨ frac ≠ [] := by
          by_contra hnone
          push Not at hnone
          rw [hnone.1, hnone.2] at htext
          exact hdigit htext
        rw [hclean] at htext
        exact ⟨whole, frac, ⟨htext, hsome⟩, hwhole, hfrac, hv⟩
      · rintro ⟨whole, frac, ⟨htext, -⟩, hwhole, hfrac, hv⟩
        rw [htext.cStr_eq]
        exact ⟨whole, frac, htext, hwhole, hfrac, hv⟩

/-- The empty string is an amount of zero and no decimal number. -/
theorem parseMoney_empty :
    ¬ ∀ s v, parseMoney s = .ok v ↔ ∃ whole frac, IsDecimal s whole frac ∧ whole.length ≤ 10 ∧
      frac.length ≤ 8 ∧ v = amount whole frac := by
  intro hexact
  have hzero : parseMoney [] = .ok 0 := by decide
  obtain ⟨whole, frac, hdecimal, -, -, -⟩ := (hexact [] 0).mp hzero
  refine hdecimal.not_blank ⟨[], [], [], rfl, by simp, by simp, by simp [AllDigits], by simp [AllDigits], ?_⟩
  exact .inl ⟨rfl, rfl⟩

end Silkcoin
