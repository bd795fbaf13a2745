/-
  `EncodeBase58` and `DecodeBase58`: bytes as numerals in base 58.

  Bytes are a numeral in base 256, a text is one in base 58, and both routines CHANGE THE BASE through a
  `CBigNum`: the number goes into the bignum with a sign byte so that it is not negative, and comes out with
  one if its top bit is set, which is trimmed off; the zeros in front, which a number does not have, are
  counted apart.  What is left is `Radix.rebase` one way (`encodeBase58_eq`) and the other (`decodePsz_map`).

  The decoder reads a C string.  A `std::string` is cut at its first zero and accepted for what is before
  it, so a text with something behind a zero is not the encoding of what it decodes to.
-/
import Silkcoin.Compact
import Silkcoin.Interpreter
import Silkcoin.MapValue
import Silkcoin.Lib.CString
import Silkcoin.Lib.Radix

namespace Silkcoin

open Radix CString

def pszBase58 : List UInt8 := ascii "123456789ABCDEFGHJKLMNPQRSTUVWXYZabcdefghijkmnopqrstuvwxyz"

/-- `pszBase58[c]` -/
def base58Letter (c : Nat) : UInt8 := pszBase58.getD c 0

/-! ## Encoding -/

/-- The division loop of `EncodeBase58`: the least significant digit comes first. -/
def encodeDigits (bn : Int) : List UInt8 :=
  if bn > 0 then base58Letter (bn.tmod 58).natAbs :: encodeDigits (bn.tdiv 58) else []
termination_by bn.toNat
decreasing_by
  rw [Int.tdiv_eq_ediv_of_nonneg (by omega)]
  omega

def encodeBase58 (vch : List UInt8) : List UInt8 :=
  -- an extra zero at the end makes sure that the bignum is a positive number
  let vchTmp := vch.reverse ++ [0]
  let bn := setvch vchTmp
  let str := encodeDigits bn
  let nLeadingZeros := (vch.takeWhile fun c => decide (c = 0)).length
  (str ++ List.replicate nLeadingZeros (base58Letter 0)).reverse

/-! ## Decoding -/

/-- The loop over the characters.  It ends at the terminator, or at white space up to the terminator. -/
def decodeDigits (bn : Int) : List UInt8 → Option Int
  | [] => some bn
  | c :: p =>
    match pszBase58.idxOf? c with
    | some p1 => decodeDigits (bn * 58 + p1) p
    | none => if (c :: p).dropWhile isSpace = [] then some bn else none

/-- Trims off the sign byte, if there is one. -/
def trimSign (vchTmp : List UInt8) : List UInt8 :=
  if vchTmp.length ≥ 2 ∧ vchTmp.reverse.getD 0 0 = 0 ∧ vchTmp.reverse.getD 1 0 ≥ 0x80 then vchTmp.dropLast
  else vchTmp

/-- `DecodeBase58` of a C string, without its terminator.  It returns the bytes, or fails and returns
    none. -/
def decodePsz (psz : List UInt8) : Option (List UInt8) :=
  let psz := psz.dropWhile isSpace
  match decodeDigits 0 psz with
  | none => none
  | some bn =>
    let vchTmp := trimSign (getvch bn)
    let nLeadingZeros := (psz.takeWhile fun c => decide (c = base58Letter 0)).length
    some (List.replicate nLeadingZeros 0 ++ vchTmp.reverse)

/-- `DecodeBase58` of a `std::string`. -/
def decodeBase58 (str : List UInt8) : Option (List UInt8) := decodePsz (cStr str)

/-! ## The alphabet -/

/-- 58 letters, all different, and none of them white space or the terminator. -/
theorem pszBase58_spec : pszBase58.length = 58 ∧ ∀ d < 58, pszBase58.idxOf? (base58Letter d) = some d ∧
    isSpace (base58Letter d) = false ∧ base58Letter d ≠ 0 := by decide

theorem idxOf?_base58Letter {d : Nat} (h : d < 58) : pszBase58.idxOf? (base58Letter d) = some d :=
  (pszBase58_spec.2 d h).1

theorem base58Letter_of_idxOf? {c : UInt8} {d : Nat} (h : pszBase58.idxOf? c = some d) :
    d < 58 ∧ base58Letter d = c := by
  obtain ⟨hlt, hget, -⟩ := List.idxOf?_eq_some_iff.mp h
  refine ⟨Nat.lt_of_lt_of_eq hlt pszBase58_spec.1, ?_⟩
  unfold base58Letter
  rw [List.getD_eq_getElem?_getD, List.getElem?_eq_getElem hlt]
  exact hget

theorem base58Letter_inj {c d : Nat} (hc : c < 58) (hd : d < 58) (h : base58Letter c = base58Letter d) :
    c = d := by
  have hidx := idxOf?_base58Letter hc
  rw [h, idxOf?_base58Letter hd] at hidx
  exact (Option.some.inj hidx).symm

theorem not_isSpace_base58Letter {d : Nat} (h : d < 58) : isSpace (base58Letter d) = false :=
  (pszBase58_spec.2 d h).2.1

theorem base58Letter_ne_zero {d : Nat} (h : d < 58) : base58Letter d ≠ 0 :=
  (pszBase58_spec.2 d h).2.2

/-! ## What the encoder computes -/

theorem encodeDigits_eq (n : Nat) : encodeDigits n = (Nat.digits 58 n).map base58Letter := by
  induction n using Nat.strongRecOn with
  | ind n ih =>
    rw [encodeDigits.eq_def]
    rcases Nat.eq_zero_or_pos n with rfl | hpos
    · rw [if_neg (by omega), Nat.digits_zero]
      rfl
    · have hquotient : (n : Int).tdiv 58 = (n / 58 : Nat) := rfl
      have hremainder : ((n : Int).tmod 58).natAbs = n % 58 := rfl
      rw [if_pos (by omega), hquotient, hremainder, ih (n / 58) (by omega),
        Nat.digits_def' (by omega) hpos, List.map_cons]

theorem zeros_map_toNat (vch : List UInt8) :
    zeros (vch.map UInt8.toNat) = (vch.takeWhile fun c => decide (c = 0)).length := by
  unfold zeros
  rw [List.takeWhile_map, List.length_map]
  have hsame : ((fun d => decide (d = 0)) ∘ UInt8.toNat) = fun c : UInt8 => decide (c = 0) := by
    funext c
    exact decide_eq_decide.mpr (UInt8.toNat_inj (b := 0))
  rw [hsame]

/-- The extra zero makes the bignum the number of the bytes. -/
theorem setvch_reverse_zero (vch : List UInt8) :
    setvch (vch.reverse ++ [0]) = (value 256 (vch.map UInt8.toNat) : Nat) := by
  unfold setvch
  rw [List.reverse_append, List.reverse_reverse, List.reverse_singleton, List.singleton_append]
  have hmpi : mpi2bn (0 :: vch) = (bytesToNat (0 :: vch) : Nat) := rfl
  have hbytes : bytesToNat (0 :: vch) = value 256 (0 :: vch.map UInt8.toNat) := by
    unfold bytesToNat value
    rw [List.map_reverse]
    rfl
  rw [hmpi, hbytes, value_cons, Nat.mul_zero, Nat.add_zero]

theorem encodeBase58_eq (vch : List UInt8) :
    encodeBase58 vch = (rebase 256 58 (vch.map UInt8.toNat)).map base58Letter := by
  unfold encodeBase58 rebase padded numeral
  dsimp only
  rw [setvch_reverse_zero, encodeDigits_eq, ← zeros_map_toNat, List.reverse_append, List.reverse_replicate,
    List.map_append, List.map_replicate, List.map_reverse]

/-! ## What the decoder computes -/

/-- The digits are read from the left. -/
theorem decodeDigits_map : ∀ (n : Nat) {ds : List Nat}, (∀ d ∈ ds, d < 58) →
    decodeDigits n (ds.map base58Letter) = some ((n * 58 ^ ds.length + value 58 ds : Nat) : Int)
  | n, [], _ => by
    have hzero : value 58 [] = 0 := rfl
    rw [hzero, List.length_nil, Nat.pow_zero, Nat.mul_one]
    rfl
  | n, d :: ds, h => by
    have hstep := decodeDigits_map (n * 58 + d) fun d' hd => h d' (List.mem_cons_of_mem d hd)
    rw [List.map_cons, decodeDigits, idxOf?_base58Letter (h d List.mem_cons_self)]
    have hnext : (n : Int) * 58 + (d : Nat) = (n * 58 + d : Nat) := by omega
    dsimp only
    rw [hnext, hstep, value_cons, List.length_cons]
    congr 2
    ring

/-- What is accepted without white space consists of letters of the alphabet. -/
theorem letters_of_decodeDigits : ∀ {bn bn' : Int} {psz : List UInt8}, (∀ c ∈ psz, isSpace c = false) →
    decodeDigits bn psz = some bn' → ∃ ds : List Nat, (∀ d ∈ ds, d < 58) ∧ psz = ds.map base58Letter
  | _, _, [], _, _ => ⟨[], by simp, rfl⟩
  | bn, bn', c :: p, hspace, h => by
    rw [decodeDigits] at h
    cases hidx : pszBase58.idxOf? c with
    | none =>
      rw [hidx] at h
      dsimp only at h
      rw [List.dropWhile_cons_of_neg (by simp [hspace c List.mem_cons_self]),
        if_neg (List.cons_ne_nil c p)] at h
      cases h
    | some p1 =>
      rw [hidx] at h
      obtain ⟨hlt, rfl⟩ := base58Letter_of_idxOf? hidx
      obtain ⟨ds, hds, rfl⟩ :=
        letters_of_decodeDigits (fun c' hc => hspace c' (List.mem_cons_of_mem _ hc)) h
      refine ⟨p1 :: ds, ?_, rfl⟩
      intro d hd
      rcases List.mem_cons.mp hd with rfl | hd
      · exact hlt
      · exact hds d hd

/-- Trimmed, the bytes of the bignum are the digits of its number. -/
theorem trimSign_getvch (n : Nat) : trimSign (getvch n) = (Nat.digits 256 n).map UInt8.ofNat := by
  have hnn : ¬ ((n : Int) < 0) := by omega
  have hbytes : natToBytes n = (numeral 256 n).map UInt8.ofNat := rfl
  have hreverse : (natToBytes n).reverse = (Nat.digits 256 n).map UInt8.ofNat := by
    unfold natToBytes
    rw [← List.map_reverse, List.reverse_reverse]
  unfold getvch bn2mpi
  rw [Int.natAbs_natCast]
  cases hb : natToBytes n with
  | nil =>
    rw [hb] at hreverse
    rw [← hreverse]
    rfl
  | cons b bs =>
    rw [hb] at hreverse
    dsimp only
    rw [if_neg hnn, if_neg hnn]
    -- the first byte is not zero: a number does not begin with one
    have hfirst : b ≠ 0 := by
      intro hzero
      have hnone := @zeros_numeral 256 n
      have hmap : (natToBytes n).map UInt8.toNat = numeral 256 n := by
        rw [hbytes]
        exact map_toNat_ofNat fun d hd => Nat.digits_lt_base (by omega) (List.mem_reverse.mp hd)
      rw [← hmap, hb, hzero, zeros_map_toNat] at hnone
      cases hnone
    by_cases htop : b &&& 0x80 = 0
    · rw [if_pos htop]
      unfold trimSign
      rw [List.reverse_reverse, if_neg (fun h => hfirst h.2.1), hreverse]
    · rw [if_neg htop]
      have hhigh : b ≥ 0x80 := UInt8.not_lt.mp fun hlt => htop ((and_80_eq_zero_iff b).mpr hlt)
      unfold trimSign
      rw [List.reverse_reverse, if_pos ⟨by simp, rfl, hhigh⟩, List.reverse_cons, List.dropLast_concat, hreverse]

theorem zeros_eq_ones : ∀ {ds : List Nat}, (∀ d ∈ ds, d < 58) →
    ((ds.map base58Letter).takeWhile fun c => decide (c = base58Letter 0)).length = zeros ds
  | [], _ => rfl
  | d :: ds, h => by
    have hrest := zeros_eq_ones fun d' hd => h d' (List.mem_cons_of_mem d hd)
    unfold zeros at hrest ⊢
    rw [List.map_cons]
    by_cases hd : d = 0
    · rw [List.takeWhile_cons_of_pos (by simp [hd]), List.takeWhile_cons_of_pos (by simp [hd]),
        List.length_cons, List.length_cons, hrest]
    · have hletter : base58Letter d ≠ base58Letter 0 := fun heq =>
        hd (base58Letter_inj (h d List.mem_cons_self) (by omega) heq)
      rw [List.takeWhile_cons_of_neg (by simpa using hletter), List.takeWhile_cons_of_neg (by simpa using hd)]
      rfl

theorem dropWhile_isSpace {psz : List UInt8} (h : ∀ c ∈ psz, isSpace c = false) :
    psz.dropWhile isSpace = psz := by
  cases psz with
  | nil => rfl
  | cons c p => exact List.dropWhile_cons_of_neg (by simp [h c List.mem_cons_self])

theorem decodePsz_map {ds : List Nat} (h : ∀ d ∈ ds, d < 58) :
    decodePsz (ds.map base58Letter) = some ((rebase 58 256 ds).map UInt8.ofNat) := by
  have hspace : ∀ c ∈ ds.map base58Letter, isSpace c = false := by
    intro c hc
    obtain ⟨d, hd, rfl⟩ := List.mem_map.mp hc
    exact not_isSpace_base58Letter (h d hd)
  have hdigits := decodeDigits_map 0 h
  rw [Nat.zero_mul, Nat.zero_add] at hdigits
  unfold decodePsz
  dsimp only
  rw [dropWhile_isSpace hspace, show (0 : Int) = (0 : Nat) from rfl, hdigits]
  dsimp only
  unfold rebase padded numeral
  rw [trimSign_getvch, zeros_eq_ones h, List.map_append, List.map_replicate, List.map_reverse]
  rfl

/-! ## Both directions -/

theorem decodePsz_encodeBase58 (x : List UInt8) : decodePsz (encodeBase58 x) = some x := by
  rw [encodeBase58_eq, decodePsz_map (fun d hd => lt_of_mem_rebase (by omega) hd),
    rebase_rebase (by omega) 58 lt_of_mem_map_toNat, map_ofNat_toNat]

theorem cStr_encodeBase58 (x : List UInt8) : cStr (encodeBase58 x) = encodeBase58 x := by
  refine cStr_eq_self fun c hc => ?_
  rw [encodeBase58_eq] at hc
  obtain ⟨d, hd, rfl⟩ := List.mem_map.mp hc
  exact base58Letter_ne_zero (lt_of_mem_rebase (by omega) hd)

theorem encodeBase58_of_decodePsz {psz x : List UInt8} (hspace : ∀ c ∈ psz, isSpace c = false)
    (h : decodePsz psz = some x) : encodeBase58 x = psz := by
  have hdecode : ∃ bn, decodeDigits 0 psz = some bn := by
    unfold decodePsz at h
    dsimp only at h
    rw [dropWhile_isSpace hspace] at h
    cases hd : decodeDigits 0 psz with
    | none =>
      rw [hd] at h
      cases h
    | some bn => exact ⟨bn, rfl⟩
  obtain ⟨bn, hbn⟩ := hdecode
  obtain ⟨ds, hds, rfl⟩ := letters_of_decodeDigits hspace hbn
  rw [decodePsz_map hds] at h
  obtain rfl := Option.some.inj h
  rw [encodeBase58_eq, map_toNat_ofNat (fun d hd => lt_of_mem_rebase (by omega) hd),
    rebase_rebase (by omega) 256 hds]

/-- **Base58 is a bijection on its image.**  Decoding undoes encoding, and a text without white space that
    is accepted is the encoding of what it decodes to, as far as a C string goes. -/
theorem base58_bijection :
    (∀ x, decodeBase58 (encodeBase58 x) = some x) ∧
    (∀ s x, (∀ c ∈ s, isSpace c = false) → decodeBase58 s = some x → encodeBase58 x = cStr s) ∧
    (∀ psz x, (∀ c ∈ psz, c ≠ 0 ∧ isSpace c = false) → decodePsz psz = some x → encodeBase58 x = psz) := by
  refine ⟨?_, ?_, ?_⟩
  · intro x
    unfold decodeBase58
    rw [cStr_encodeBase58]
    exact decodePsz_encodeBase58 x
  · intro s x hspace h
    exact encodeBase58_of_decodePsz (fun c hc => hspace c (List.takeWhile_subset _ hc)) h
  · intro psz x hpsz h
    exact encodeBase58_of_decodePsz (fun c hc => (hpsz c hc).2) h

/-- Two bytes with a zero in front and the top bit set, and the text "2". -/
theorem base58_bijection_two :
    decodeBase58 (encodeBase58 [0, 128]) = some [0, 128] ∧ encodeBase58 [1] = cStr [50] :=
  ⟨base58_bijection.1 [0, 128], base58_bijection.2.1 [50] [1] (List.forall_mem_singleton.mpr rfl) (by decide)⟩

/-- The text "2" and a zero behind it decode to one byte, which is encoded as "2". -/
theorem decodeBase58_embedded_zero :
    ¬ ∀ s x, (∀ c ∈ s, isSpace c = false) → decodeBase58 s = some x → encodeBase58 x = s := by
  intro h
  have hbad := h [50, 0] [1] (List.forall_mem_cons.mpr ⟨rfl, List.forall_mem_singleton.mpr rfl⟩) (by decide)
  have hgood := h [50] [1] (List.forall_mem_singleton.mpr rfl) (by decide)
  rw [hgood] at hbad
  cases hbad

end Silkcoin
