/-
  `IsCanonicalSignature` of script.cpp: STRICT DER, and a hash type behind it.

  The function reads lengths from the very bytes it checks and uses them as indices.  `InBounds` is the
  function with every access made to the vector as it is, so that an index out of range would be seen; none
  is, for any bytes (`InBounds.isCanonicalSignature_eq`).

  What it accepts is the grammar in its comment (`IsSignature`), with two bounds that the grammar does not
  have.  The whole must not be longer than 73 bytes, and `S` not longer than 32: a larger `S` is a number
  above 2^255, whose negative modulo the order would do.
-/
import Silkcoin.Interpreter
import Mathlib.Data.List.GetD

namespace Silkcoin

/-! ## The accesses -/

namespace InBounds

/-- The four tests of one integer, of `len` bytes from `start` on.  The second byte is looked at only if
    there is one. -/
def isCanonicalInteger (vchSig : Valtype) (start len : Nat) : Option Bool := do
  let type ← vchSig[start - 2]?
  if type ≠ 0x02 then return false
  if len = 0 then return false
  let first ← vchSig[start]?
  if first &&& 0x80 ≠ 0 then return false
  if len > 1 ∧ first = 0x00 then do
    let second ← vchSig[start + 1]?
    return decide (second &&& 0x80 ≠ 0)
  else return true

/-- The lengths are read, and then both integers. -/
def isCanonicalBody (vchSig : Valtype) : Option Bool := do
  let nLenR ← vchSig[3]?
  if 5 + nLenR.toNat ≥ vchSig.length then return false
  let nLenS ← vchSig[5 + nLenR.toNat]?
  if nLenR.toNat + nLenS.toNat + 7 ≠ vchSig.length then return false
  let fR ← isCanonicalInteger vchSig 4 nLenR.toNat
  if fR = false then return false
  let fS ← isCanonicalInteger vchSig (6 + nLenR.toNat) nLenS.toNat
  return fS && decide (nLenS.toNat ≤ 32)

def isCanonicalSignature (vchSig : Valtype) : Option Bool := do
  if vchSig.length < 9 then return false
  if vchSig.length > 73 then return false
  let back ← vchSig[vchSig.length - 1]?
  let nHashType := back &&& 0x7f
  if nHashType < 1 ∨ nHashType > 3 then return false
  let type ← vchSig[0]?
  if type ≠ 0x30 then return false
  let total ← vchSig[1]?
  if total.toNat ≠ vchSig.length - 3 then return false
  isCanonicalBody vchSig
theorem getElem?_eq_getD {vchSig : Valtype} {i : Nat} (h : i < vchSig.length) :
    vchSig[i]? = some (vchSig.getD i 0) := by
  rw [List.getD_eq_getElem?_getD, List.getElem?_eq_getElem h]
  rfl

theorem isCanonicalInteger_eq {vchSig : Valtype} {start len : Nat} (h : start + len < vchSig.length) :
    isCanonicalInteger vchSig start len = some (Silkcoin.isCanonicalInteger vchSig start len) := by
  unfold isCanonicalInteger Silkcoin.isCanonicalInteger
  rw [getElem?_eq_getD (show start - 2 < vchSig.length by omega),
    getElem?_eq_getD (show start < vchSig.length by omega)]
  -- the second byte, where it is looked at
  by_cases hmany : len > 1
  · rw [getElem?_eq_getD (show start + 1 < vchSig.length by omega)]
    generalize vchSig.getD (start - 2) 0 = type
    generalize vchSig.getD start 0 = first
    generalize vchSig.getD (start + 1) 0 = second
    by_cases htype : type = 0x02 <;> by_cases hsign : first &&& 0x80 = 0 <;>
      by_cases hzero : first = 0x00 <;> simp [htype, hsign, hzero, hmany, show len ≠ 0 by omega]
  · generalize vchSig.getD (start - 2) 0 = type
    generalize vchSig.getD start 0 = first
    by_cases htype : type = 0x02 <;> by_cases hlen : len = 0 <;>
      by_cases hsign : first &&& 0x80 = 0 <;> simp [htype, hlen, hsign, hmany]

/-- No access is out of range, for any bytes; so this is the function of the interpreter. -/
theorem isCanonicalSignature_eq (vchSig : Valtype) :
    isCanonicalSignature vchSig = some (Silkcoin.isCanonicalSignature vchSig) := by
  unfold isCanonicalSignature Silkcoin.isCanonicalSignature
  by_cases hshort : vchSig.length < 9
  · rw [if_pos hshort, if_pos (Or.inl hshort)]
    rfl
  by_cases hlong : vchSig.length > 73
  · rw [if_neg hshort, if_pos hlong, if_pos (Or.inr hlong)]
    rfl
  rw [if_neg hshort, if_neg hlong, if_neg (not_or.mpr ⟨hshort, hlong⟩),
    getElem?_eq_getD (show vchSig.length - 1 < vchSig.length by omega),
    getElem?_eq_getD (show 0 < vchSig.length by omega), getElem?_eq_getD (show 1 < vchSig.length by omega)]
  simp only [Option.bind_eq_bind, Option.bind_some]
  by_cases hhash : vchSig.getD (vchSig.length - 1) 0 &&& 0x7f < 1 ∨
      vchSig.getD (vchSig.length - 1) 0 &&& 0x7f > 3
  · rw [if_pos hhash, if_pos hhash]
    rfl
  rw [if_neg hhash, if_neg hhash]
  by_cases htype : vchSig.getD 0 0 ≠ 0x30
  · rw [if_pos htype, if_pos htype]
    rfl
  rw [if_neg htype, if_neg htype]
  by_cases htotal : (vchSig.getD 1 0).toNat ≠ vchSig.length - 3
  · rw [if_pos htotal, if_pos htotal]
    rfl
  rw [if_neg htotal, if_neg htotal]
  unfold isCanonicalBody
  rw [getElem?_eq_getD (show 3 < vchSig.length by omega)]
  simp only [Option.bind_eq_bind, Option.bind_some]
  by_cases hplace : 5 + (vchSig.getD 3 0).toNat ≥ vchSig.length
  · rw [if_pos hplace, if_pos hplace]
    rfl
  -- only now is the length of `S` known to be there
  rw [if_neg hplace, if_neg hplace, getElem?_eq_getD (Nat.lt_of_not_le hplace), Option.bind_some]
  by_cases hsum : (vchSig.getD 3 0).toNat + (vchSig.getD (5 + (vchSig.getD 3 0).toNat) 0).toNat + 7 ≠
      vchSig.length
  · rw [if_pos hsum, if_pos hsum]
    rfl
  rw [if_neg hsum, if_neg hsum, isCanonicalInteger_eq (by omega), isCanonicalInteger_eq (by omega),
    Option.bind_some, Option.bind_some]
  generalize Silkcoin.isCanonicalInteger vchSig 4 _ = fR
  generalize Silkcoin.isCanonicalInteger vchSig _ _ = fS
  cases fR <;> cases fS <;> rfl

end InBounds

/-! ## The grammar -/

/-- The bytes of an integer: some, not negative, and no zero in front that is not needed. -/
structure IsInteger (body : List UInt8) : Prop where
  nonempty : body ≠ []
  nonneg : ∀ b rest, body = b :: rest → b &&& 0x80 = 0
  minimal : ∀ b rest, body = 0x00 :: b :: rest → b &&& 0x80 ≠ 0

/-- `<30> <total len> <02> <len R> <R> <02> <len S> <S> <hashtype>` -/
structure IsSignature (vchSig : Valtype) (R S : List UInt8) (nHashType : UInt8) : Prop where
  layout : ∃ total nLenR nLenS : UInt8,
    vchSig = 0x30 :: total :: 0x02 :: nLenR :: (R ++ 0x02 :: nLenS :: (S ++ [nHashType])) ∧
      total.toNat = R.length + S.length + 4 ∧ nLenR.toNat = R.length ∧ nLenS.toNat = S.length
  r : IsInteger R
  s : IsInteger S
  /-- without `SIGHASH_ANYONECANPAY` it is `SIGHASH_ALL`, `SIGHASH_NONE` or `SIGHASH_SINGLE` -/
  hashType : 1 ≤ nHashType &&& 0x7f ∧ nHashType &&& 0x7f ≤ 3

/-- One integer where it stands. -/
theorem isCanonicalInteger_iff (pre : List UInt8) (type len : UInt8) (body post : List UInt8) :
    isCanonicalInteger (pre ++ type :: len :: (body ++ post)) (pre.length + 2) body.length = true ↔
      type = 0x02 ∧ IsInteger body := by
  have hat : ∀ i, (pre ++ type :: len :: (body ++ post)).getD (pre.length + 2 + i) 0 =
      (body ++ post).getD i 0 := by
    intro i
    rw [List.getD_append_right _ _ _ _ (by omega),
      show pre.length + 2 + i - pre.length = i + 1 + 1 by omega]
    rfl
  have htype : (pre ++ type :: len :: (body ++ post)).getD (pre.length + 2 - 2) 0 = type := by
    rw [List.getD_append_right _ _ _ _ (by omega), show pre.length + 2 - 2 - pre.length = 0 by omega]
    rfl
  have h0 := hat 0
  have h1 := hat 1
  unfold isCanonicalInteger
  rw [decide_eq_true_eq, htype, h1, show pre.length + 2 = pre.length + 2 + 0 from rfl, h0]
  refine and_congr_right fun _ => ?_
  cases body with
  | nil => exact iff_of_false (fun h => h.1 rfl) fun h => h.nonempty rfl
  | cons b rest =>
    constructor
    · rintro ⟨-, hsign, hpad⟩
      refine ⟨List.cons_ne_nil b rest, fun b' rest' heq => ?_, fun c rest' heq => ?_⟩
      · cases heq
        exact hsign
      · cases heq
        exact fun hc => hpad ⟨by simp, rfl, hc⟩
    · intro h
      refine ⟨Nat.succ_ne_zero _, h.nonneg b rest rfl, fun hpad => ?_⟩
      obtain ⟨hlen, hzero, hsecond⟩ := hpad
      cases rest with
      | nil => exact absurd hlen (by simp)
      | cons c rest =>
        obtain rfl : b = 0x00 := hzero
        exact h.minimal c rest rfl hsecond

/-- What is accepted has lengths that fit. -/
theorem lengths_of_canonical {vchSig : Valtype} (h : isCanonicalSignature vchSig = true) :
    5 + (vchSig.getD 3 0).toNat < vchSig.length ∧
      (vchSig.getD 3 0).toNat + (vchSig.getD (5 + (vchSig.getD 3 0).toNat) 0).toNat + 7 =
        vchSig.length := by
  unfold isCanonicalSignature at h
  dsimp only at h
  simp only [Bool.if_false_left, Bool.and_eq_true, Bool.not_eq_true', decide_eq_false_iff_not] at h
  obtain ⟨-, -, -, -, hplace, hsum, -⟩ := h
  exact ⟨Nat.lt_of_not_le hplace, not_not.mp hsum⟩

/-- Bytes with lengths that fit are laid out like a signature. -/
theorem exists_layout {vchSig : Valtype} {nLenR nLenS : Nat} (hplace : 5 + nLenR < vchSig.length)
    (hsum : nLenR + nLenS + 7 = vchSig.length) :
    ∃ type total typeR lenR R typeS lenS S nHashType,
      vchSig = type :: total :: typeR :: lenR :: (R ++ typeS :: lenS :: (S ++ [nHashType])) ∧
        R.length = nLenR ∧ S.length = nLenS := by
  obtain _ | ⟨type, _ | ⟨total, _ | ⟨typeR, _ | ⟨lenR, rest⟩⟩⟩⟩ := vchSig
  · simp only [List.length_nil] at hsum
    omega
  · simp only [List.length_cons, List.length_nil] at hsum
    omega
  · simp only [List.length_cons, List.length_nil] at hsum
    omega
  · simp only [List.length_cons, List.length_nil] at hsum
    omega
  have hrest : rest.length = nLenR + nLenS + 3 := by
    simp only [List.length_cons] at hsum
    omega
  -- `R` is taken first, then two bytes, then `S`
  have hlen : (rest.drop nLenR).length = nLenS + 3 := by
    rw [List.length_drop]
    omega
  obtain ⟨typeS, lenS, back, hdrop⟩ : ∃ typeS lenS back, rest.drop nLenR = typeS :: lenS :: back := by
    obtain ⟨typeS, tail, htail⟩ := List.exists_cons_of_length_pos (l := rest.drop nLenR) (by omega)
    rw [htail, List.length_cons] at hlen
    obtain ⟨lenS, back, rfl⟩ := List.exists_cons_of_length_pos (l := tail) (by omega)
    exact ⟨typeS, lenS, back, htail⟩
  have hback : back.length = nLenS + 1 := by
    rw [hdrop] at hlen
    simp only [List.length_cons] at hlen
    omega
  have hne : back ≠ [] := List.ne_nil_of_length_pos (by omega)
  refine ⟨type, total, typeR, lenR, rest.take nLenR, typeS, lenS, back.dropLast, back.getLast hne, ?_, ?_, ?_⟩
  · rw [List.dropLast_append_getLast, ← hdrop, List.take_append_drop]
  · rw [List.length_take]
    omega
  · rw [List.length_dropLast]
    omega

/-- The length of `S`, where the length of `R` says it is. -/
theorem getD_lenS {type total typeR lenR : UInt8} {R : List UInt8} {typeS lenS : UInt8} {rest : List UInt8} :
    (type :: total :: typeR :: lenR :: (R ++ typeS :: lenS :: rest)).getD (5 + R.length) 0 = lenS := by
  rw [show 5 + R.length = R.length + 1 + 1 + 1 + 1 + 1 by omega]
  simp only [List.getD_cons_succ]
  rw [List.getD_append_right _ _ _ _ (by omega), show R.length + 1 - R.length = 1 by omega]
  rfl

/-- Bytes that are laid out like a signature are accepted if the marks are right, the lengths fit, both
    integers are right, and nothing is too long. -/
theorem isCanonicalSignature_layout (type total typeR lenR : UInt8) (R : List UInt8) (typeS lenS : UInt8)
    (S : List UInt8) (nHashType : UInt8) (hR : lenR.toNat = R.length) (hS : lenS.toNat = S.length) :
    isCanonicalSignature (type :: total :: typeR :: lenR :: (R ++ typeS :: lenS :: (S ++ [nHashType]))) = true ↔
      (R.length + S.length + 7 ≤ 73 ∧ S.length ≤ 32) ∧
      (type = 0x30 ∧ total.toNat = R.length + S.length + 4) ∧
      (1 ≤ nHashType &&& 0x7f ∧ nHashType &&& 0x7f ≤ 3) ∧
      (typeR = 0x02 ∧ IsInteger R) ∧ typeS = 0x02 ∧ IsInteger S := by
  have hintR := isCanonicalInteger_iff [type, total] typeR lenR R (typeS :: lenS :: (S ++ [nHashType]))
  have hintS := isCanonicalInteger_iff (type :: total :: typeR :: lenR :: R) typeS lenS S [nHashType]
  rw [show (type :: total :: typeR :: lenR :: R).length + 2 = 6 + R.length by
    simp only [List.length_cons]
    omega] at hintS
  simp only [List.cons_append, List.nil_append] at hintR hintS
  generalize hv : type :: total :: typeR :: lenR :: (R ++ typeS :: lenS :: (S ++ [nHashType])) = vchSig
    at hintR hintS
  have hlen : vchSig.length = R.length + S.length + 7 := by
    rw [← hv]
    simp only [List.length_cons, List.length_append, List.length_nil]
    omega
  have hback : vchSig.getD (vchSig.length - 1) 0 = nHashType := by
    have hsplit : vchSig = (type :: total :: typeR :: lenR :: R ++ typeS :: lenS :: S) ++ [nHashType] := by
      rw [← hv]
      simp
    rw [hsplit, List.length_append, List.length_singleton, Nat.add_sub_cancel,
      List.getD_append_right _ _ _ _ (Nat.le_refl _), Nat.sub_self]
    rfl
  have hlenS : vchSig.getD (5 + R.length) 0 = lenS := by
    rw [← hv]
    exact getD_lenS
  have h0 : vchSig.getD 0 0 = type := by rw [← hv]; rfl
  have h1 : vchSig.getD 1 0 = total := by rw [← hv]; rfl
  have h3 : vchSig.getD 3 0 = lenR := by rw [← hv]; rfl
  unfold isCanonicalSignature
  dsimp only
  rw [hback, h0, h1, h3, hR, hlenS, hS, hlen]
  simp only [Bool.if_false_left, Bool.and_eq_true, Bool.not_eq_true', decide_eq_false_iff_not,
    decide_eq_true_eq, hintS]
  have hintR : isCanonicalInteger vchSig 4 R.length = true ↔ typeR = 0x02 ∧ IsInteger R := hintR
  rw [hintR]
  constructor
  · rintro ⟨hbounds, hhash, htype, htotal, -, -, ⟨hr, hs⟩, hfew⟩
    obtain ⟨hlow, hhigh⟩ := not_or.mp hhash
    exact ⟨⟨by omega, hfew⟩, ⟨not_not.mp htype, by omega⟩,
      ⟨UInt8.not_lt.mp hlow, UInt8.not_lt.mp hhigh⟩, hr, hs⟩
  · rintro ⟨⟨hlong, hfew⟩, ⟨htype, htotal⟩, ⟨hlow, hhigh⟩, hr, hs⟩
    have hrpos := List.length_pos_of_ne_nil hr.2.nonempty
    have hspos := List.length_pos_of_ne_nil hs.2.nonempty
    exact ⟨by omega, not_or.mpr ⟨UInt8.not_lt.mpr hlow, UInt8.not_lt.mpr hhigh⟩, not_not.mpr htype,
      by omega, by omega, by omega, ⟨hr, hs⟩, hfew⟩

/-- **STRICT DER.**  For any bytes no access is out of range, and what is accepted is one signature in the
    layout of the comment, of 73 bytes at most and with 32 bytes of `S` at most. -/
theorem isCanonicalSignature_iff (vchSig : Valtype) :
    ∃ fCanonical, InBounds.isCanonicalSignature vchSig = some fCanonical ∧
      (fCanonical = true ↔ ∃ R S nHashType, IsSignature vchSig R S nHashType ∧ vchSig.length ≤ 73 ∧
        S.length ≤ 32) := by
  refine ⟨_, InBounds.isCanonicalSignature_eq vchSig, ?_⟩
  constructor
  · intro h
    obtain ⟨hplace, hsum⟩ := lengths_of_canonical h
    obtain ⟨type, total, typeR, lenR, R, typeS, lenS, S, nHashType, hlayout, hR, hS⟩ :=
      exists_layout hplace hsum
    subst hlayout
    have hlenR : lenR.toNat = R.length := hR.symm
    have hlenS : lenS.toNat = S.length := by
      rw [← hR, getD_lenS] at hS
      exact hS.symm
    obtain ⟨⟨hlong, hfew⟩, ⟨rfl, htotal⟩, hhash, ⟨rfl, hr⟩, rfl, hs⟩ :=
      (isCanonicalSignature_layout type total typeR lenR R typeS lenS S nHashType hlenR hlenS).mp h
    refine ⟨R, S, nHashType, ⟨⟨total, lenR, lenS, rfl, htotal, hlenR, hlenS⟩, hr, hs, hhash⟩, ?_, hfew⟩
    simp only [List.length_cons, List.length_append, List.length_nil]
    omega
  · rintro ⟨R, S, nHashType, ⟨⟨total, nLenR, nLenS, rfl, htotal, hR, hS⟩, hr, hs, hhash⟩, hlong, hfew⟩
    rw [isCanonicalSignature_layout _ _ _ _ _ _ _ _ _ hR hS]
    simp only [List.length_cons, List.length_append, List.length_nil] at hlong
    exact ⟨⟨by omega, hfew⟩, ⟨rfl, htotal⟩, hhash, ⟨rfl, hr⟩, rfl, hs⟩

/-- One byte of `R`, and 33 bytes of `S`, as the grammar asks of a number above 2^255. -/
def highS : Valtype := [0x30, 0x26, 0x02, 0x01, 0x01, 0x02, 0x21, 0x00] ++ List.replicate 32 0x80 ++ [0x01]

/-- It is one signature in the layout, and is not accepted. -/
theorem isCanonicalSignature_highS : IsSignature highS [1] (0x00 :: List.replicate 32 0x80) 0x01 ∧
    InBounds.isCanonicalSignature highS = some false := by
  refine ⟨⟨⟨0x26, 0x01, 0x21, rfl, by decide, by decide, by decide⟩, ⟨by decide, ?_, ?_⟩,
    ⟨by decide, ?_, ?_⟩, by decide⟩, by decide⟩
  · rintro b rest ⟨⟩
    decide
  · rintro b rest ⟨⟩
  · rintro b rest ⟨⟩
    decide
  · rintro b rest heq
    obtain ⟨-, rfl, -⟩ : (0x00 : UInt8) = 0x00 ∧ 0x80 = b ∧ List.replicate 31 0x80 = rest := by
      simpa [List.replicate_succ] using heq
    decide

end Silkcoin
