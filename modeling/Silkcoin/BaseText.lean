/-
  Bytes as TEXT, five or six bits to a letter: what `EncodeBase64`, `EncodeBase32` and their decoders share.

  All four are the same loop around a `switch`: a character or a byte comes in, whatever is full goes out,
  and `mode` and `left` say how many bits are left over and which.  A text is right (`IsText`) if its
  letters are the bits of bytes filled up with zeros, and if as many `=` follow as are missing to a whole
  group.  An encoder that writes such texts and a decoder that accepts them are inverse to each other, up to
  the case of the letters (`decode_encode`, `encode_of_isText`).

  What the decoders here do not do is look at the END of the string.  They accept a right text with anything
  behind it that does not begin with a letter (`DecodesBy`), and of such a string the encoding of the
  result is only the beginning (`strict_iff`).
-/
import Silkcoin.Bignum
import Silkcoin.Lib.Regroup

namespace Silkcoin

open Regroup

/-! ## The loops -/

/-- How many bits are left over, as the number of the `case`, and these bits. -/
structure LeftOver where
  mode : Nat
  left : Nat
deriving DecidableEq, Repr

/-- The letters of an alphabet are its characters `letter d`; `table` reads them, and is -1 elsewhere. -/
structure Alphabet where
  letter : Nat → UInt8
  table : UInt8 → Int

abbrev Switch := LeftOver → Nat → List Nat × LeftOver

def encodeText (alphabet : Alphabet) (step : Switch) (nPadding : Nat → Nat) (vch : List UInt8) : List UInt8 :=
  let r := run step ⟨0, 0⟩ (vch.map UInt8.toNat)
  let strRet := r.1.map alphabet.letter
  if r.2.mode ≠ 0 then strRet ++ alphabet.letter r.2.left :: List.replicate (nPadding r.2.mode) 61 else strRet

/-- The loop of a decoder.  It stops at the first character that is no letter; the terminator is none. -/
def decodeLoop (alphabet : Alphabet) (step : Switch) : LeftOver → List UInt8 →
    (List Nat × LeftOver) × List UInt8
  | st, [] => (([], st), [])
  | st, c :: p =>
    if alphabet.table c = -1 then (([], st), c :: p)
    else
      let r := step st (alphabet.table c).toNat
      let rest := decodeLoop alphabet step r.2 p
      ((r.1 ++ rest.1.1, rest.1.2), rest.2)

/-- `p[0] == '=' && .. && p[n - 1] == '=' && table[p[n]] == -1` -/
def requirePadding (alphabet : Alphabet) : Nat → List UInt8 → Bool
  | 0, p => decide (alphabet.table (p.headD 0) = -1)
  | n + 1, p => decide (p.headD 0 = 61) && requirePadding alphabet n p.tail

/-- A decoder: the bytes, and whether the string was invalid. -/
def decodeText (alphabet : Alphabet) (step : Switch) (invalid : LeftOver → List UInt8 → Bool)
    (p : List UInt8) : List UInt8 × Bool :=
  let r := decodeLoop alphabet step ⟨0, 0⟩ p
  (r.1.1.map UInt8.ofNat, invalid r.1.2 r.2)

/-! ## What a text is -/

namespace Alphabet

variable (alphabet : Alphabet)

def digit (c : UInt8) : Nat := (alphabet.table c).toNat

/-- The alphabet has `2 ^ w` letters, and `fold` is the letter that is written for one that is read. -/
structure Sound (w : Nat) (fold : UInt8 → UInt8) : Prop where
  table_letter : ∀ d < 2 ^ w, alphabet.table (alphabet.letter d) = d
  digit_lt : ∀ c, alphabet.table c ≠ -1 → alphabet.digit c < 2 ^ w
  letter_digit : ∀ c, alphabet.table c ≠ -1 → alphabet.letter (alphabet.digit c) = fold c
  table_pad : alphabet.table 61 = -1
  table_zero : alphabet.table 0 = -1
  fold_pad : fold 61 = 61

/-- `cs` are the letters of the bytes `x`, and `p` characters are missing to a whole group. -/
def Fills (w group : Nat) (cs : List UInt8) (p : Nat) (x : List UInt8) : Prop :=
  (∀ c ∈ cs, alphabet.table c ≠ -1) ∧ Covers w 8 (cs.map alphabet.digit) (x.map UInt8.toNat) ∧
    p < group ∧ group ∣ cs.length + p

/-- `e` is a text of bytes. -/
def IsText (w group : Nat) (e : List UInt8) : Prop :=
  ∃ cs p x, alphabet.Fills w group cs p x ∧ e = cs ++ List.replicate p 61

/-- The encoder writes texts. -/
def EncodesBy (w group : Nat) (encode : List UInt8 → List UInt8) : Prop :=
  ∀ x, ∃ ds p, encode x = ds.map alphabet.letter ++ List.replicate p 61 ∧ (∀ d ∈ ds, d < 2 ^ w) ∧
    Covers w 8 ds (x.map UInt8.toNat) ∧ p < group ∧ group ∣ ds.length + p

/-- The decoder accepts a text, whatever comes behind it, if it does not begin with a letter. -/
def DecodesBy (w group : Nat) (decode : List UInt8 → List UInt8 × Bool) : Prop :=
  ∀ s x, decode s = (x, false) ↔
    ∃ cs p t, s = cs ++ List.replicate p 61 ++ t ∧ alphabet.Fills w group cs p x ∧
      alphabet.table (t.headD 0) = -1

/-! ## Encoder and decoder together -/

section

variable {alphabet} {w group : Nat} {fold : UInt8 → UInt8} {encode : List UInt8 → List UInt8}
  {decode : List UInt8 → List UInt8 × Bool}

theorem Sound.digit_letter (ha : alphabet.Sound w fold) {d : Nat} (h : d < 2 ^ w) :
    alphabet.digit (alphabet.letter d) = d := by
  unfold digit
  rw [ha.table_letter d h]
  rfl

theorem Sound.table_letter_ne (ha : alphabet.Sound w fold) {d : Nat} (h : d < 2 ^ w) :
    alphabet.table (alphabet.letter d) ≠ -1 := by
  rw [ha.table_letter d h]
  omega

theorem Sound.map_digit (ha : alphabet.Sound w fold) : ∀ {ds : List Nat}, (∀ d ∈ ds, d < 2 ^ w) →
    (ds.map alphabet.letter).map alphabet.digit = ds
  | [], _ => rfl
  | d :: ds, h => by
    rw [List.map_cons, List.map_cons, ha.digit_letter (h d List.mem_cons_self),
      ha.map_digit fun d' hd => h d' (List.mem_cons_of_mem d hd)]

theorem Sound.map_letter (ha : alphabet.Sound w fold) {cs : List UInt8}
    (h : ∀ c ∈ cs, alphabet.table c ≠ -1) : (cs.map alphabet.digit).map alphabet.letter = cs.map fold := by
  rw [List.map_map]
  exact List.map_congr_left fun c hc => ha.letter_digit c (h c hc)

theorem Sound.lt_of_mem_digits (ha : alphabet.Sound w fold) {cs : List UInt8}
    (h : ∀ c ∈ cs, alphabet.table c ≠ -1) : ∀ d ∈ cs.map alphabet.digit, d < 2 ^ w := by
  intro d hd
  obtain ⟨c, hc, rfl⟩ := List.mem_map.mp hd
  exact ha.digit_lt c (h c hc)

theorem decode_encode (ha : alphabet.Sound w fold) (hencode : alphabet.EncodesBy w group encode)
    (hdecode : alphabet.DecodesBy w group decode) (x : List UInt8) : decode (encode x) = (x, false) := by
  obtain ⟨ds, p, htext, hds, hcovers, hp, hgroup⟩ := hencode x
  refine (hdecode _ x).mpr ⟨ds.map alphabet.letter, p, [], ?_, ⟨?_, ?_, hp, ?_⟩, ha.table_zero⟩
  · rw [htext, List.append_nil]
  · intro c hc
    obtain ⟨d, hd, rfl⟩ := List.mem_map.mp hc
    exact ha.table_letter_ne (hds d hd)
  · rw [ha.map_digit hds]
    exact hcovers
  · rw [List.length_map]
    exact hgroup

/-- There is one way to fill a group. -/
theorem padding_unique {l p p' : Nat} (hp : p < group) (hp' : p' < group) (h : group ∣ l + p)
    (h' : group ∣ l + p') : p = p' := by
  rcases Nat.le_total p p' with hle | hle
  · have hdiff := Nat.dvd_sub h' h
    have hzero := Nat.eq_zero_of_dvd_of_lt hdiff (by omega)
    omega
  · have hdiff := Nat.dvd_sub h h'
    have hzero := Nat.eq_zero_of_dvd_of_lt hdiff (by omega)
    omega

/-- The encoder writes the only text of the bytes. -/
theorem encode_of_fills (ha : alphabet.Sound w fold) (hencode : alphabet.EncodesBy w group encode)
    {cs x : List UInt8} {p : Nat} (h : alphabet.Fills w group cs p x) :
    encode x = (cs ++ List.replicate p 61).map fold := by
  obtain ⟨hcs, hcovers, hp, hgroup⟩ := h
  obtain ⟨ds, p', htext, hds, hcovers', hp', hgroup'⟩ := hencode x
  obtain rfl : ds = cs.map alphabet.digit :=
    Covers.left_unique hds (ha.lt_of_mem_digits hcs) hcovers' hcovers
  rw [List.length_map] at hgroup'
  obtain rfl : p' = p := padding_unique hp' hp hgroup' hgroup
  rw [htext, ha.map_letter hcs, List.map_append, List.map_replicate, ha.fold_pad]

/-- A string is the encoding of what it decodes to unless it is a text with something behind it. -/
theorem strict_iff (ha : alphabet.Sound w fold) (hencode : alphabet.EncodesBy w group encode)
    (hdecode : alphabet.DecodesBy w group decode) (s : List UInt8) :
    ((decode s).2 = false → encode (decode s).1 = s.map fold) ↔
      ¬ ∃ e c t, s = e ++ c :: t ∧ alphabet.IsText w group e ∧ alphabet.table c = -1 := by
  constructor
  · rintro h ⟨e, c, t, hs, ⟨cs, p, x, hfills, he⟩, hc⟩
    have haccept : decode s = (x, false) :=
      (hdecode s x).mpr ⟨cs, p, c :: t, by rw [hs, he], hfills, hc⟩
    have hwhole := h (congrArg Prod.snd haccept)
    rw [haccept, encode_of_fills ha hencode hfills, ← he, hs] at hwhole
    have hlen := congrArg List.length hwhole
    rw [List.length_map, List.length_map, List.length_append, List.length_cons] at hlen
    omega
  · intro hno hvalid
    have haccept : decode s = ((decode s).1, false) := Prod.ext rfl hvalid
    obtain ⟨cs, p, t, hs, hfills, hend⟩ := (hdecode s _).mp haccept
    cases t with
    | nil =>
      rw [List.append_nil] at hs
      rw [encode_of_fills ha hencode hfills, hs]
    | cons c t => exact absurd ⟨_, c, t, hs, ⟨cs, p, _, hfills, rfl⟩, hend⟩ hno

end

/-! ## The encoders -/

variable {alphabet} {w group : Nat} {fold : UInt8 → UInt8}

/-- What an encoder has left over, shifted to the place it has in the next letter. -/
def Shifted (w modes : Nat) (pendingOf : Nat → Nat) (st : LeftOver) (pend : List Bool) : Prop :=
  st.mode < modes ∧ ∃ l < 2 ^ pendingOf st.mode, pend = bits (pendingOf st.mode) l ∧
    (st.mode ≠ 0 → st.left = l <<< (w - pendingOf st.mode))

theorem encodesBy_of_regroups {modes : Nat} {pendingOf nPadding : Nat → Nat} {step : Switch}
    (hstep : Regroups 8 w (Shifted w modes pendingOf) step) (hmodes : 0 < modes) (hpos : 0 < group)
    (hnone : pendingOf 0 = 0) (hsome : ∀ m < modes, m ≠ 0 → 0 < pendingOf m ∧ pendingOf m < w)
    (hwhole : ∀ l t, l * w = t * 8 → group ∣ l)
    (hpadded : ∀ m < modes, m ≠ 0 → ∀ l t, l * w = t * 8 + (w - pendingOf m) →
      nPadding m < group ∧ group ∣ l + nPadding m) (hw : 0 < w) :
    alphabet.EncodesBy w group (encodeText alphabet step nPadding) := by
  intro x
  have hstart : Shifted w modes pendingOf ⟨0, 0⟩ [] := by
    refine ⟨hmodes, 0, Nat.two_pow_pos _, ?_, fun h => absurd rfl h⟩
    rw [hnone]
    rfl
  obtain ⟨pend, hpend, hbits, hlt⟩ := hstep.run hstart lt_of_mem_map_toNat
  rw [List.nil_append] at hbits
  unfold encodeText
  generalize run step ⟨0, 0⟩ (x.map UInt8.toNat) = r at hpend hbits hlt
  obtain ⟨ds, mode, left⟩ := r
  obtain ⟨hmode, l, hl, rfl, hleft⟩ := hpend
  dsimp only at hmode hl hleft hbits hlt ⊢
  by_cases hzero : mode = 0
  · -- nothing is left over
    rw [if_neg (fun h => h hzero)]
    rw [hzero, hnone] at hbits
    have hcovers : Covers w 8 ds (x.map UInt8.toNat) :=
      ⟨0, hw, by rw [hbits, bits, List.append_nil, List.replicate_zero, List.append_nil]⟩
    have hlen := congrArg List.length hbits
    rw [List.length_append, length_stream, length_stream, length_bits] at hlen
    exact ⟨ds, 0, (List.append_nil _).symm, hlt, hcovers, hpos, hwhole _ _ hlen.symm⟩
  · -- one more letter has the bits that are left over, and zeros
    obtain ⟨-, hfew⟩ := hsome mode hmode hzero
    have hletter : left = l <<< (w - pendingOf mode) := hleft hzero
    have hlast : bits w left = bits (pendingOf mode) l ++ List.replicate (w - pendingOf mode) false := by
      rw [hletter, ← bits_shiftLeft, Nat.add_sub_cancel' hfew.le]
    have hstream : stream w (ds ++ [left]) =
        stream 8 (x.map UInt8.toNat) ++ List.replicate (w - pendingOf mode) false := by
      rw [stream_append, stream_singleton, hlast, ← List.append_assoc, ← hbits]
    have hlen := congrArg List.length hstream
    rw [List.length_append, length_stream, length_stream, List.length_replicate] at hlen
    obtain ⟨hp, hdvd⟩ := hpadded mode hmode hzero _ _ hlen
    rw [if_pos hzero]
    refine ⟨ds ++ [left], nPadding mode, ?_, ?_, ⟨w - pendingOf mode, ?_, hstream⟩, hp, hdvd⟩
    · rw [List.map_append, List.append_assoc]
      rfl
    · intro d hd
      rcases List.mem_append.mp hd with hd | hd
      · exact hlt d hd
      · have hroom : pendingOf mode + (w - pendingOf mode) = w := Nat.add_sub_cancel' hfew.le
        rw [List.mem_singleton.mp hd, hletter, Nat.shiftLeft_eq]
        calc l * 2 ^ (w - pendingOf mode) < 2 ^ pendingOf mode * 2 ^ (w - pendingOf mode) :=
              Nat.mul_lt_mul_of_pos_right hl (Nat.two_pow_pos _)
          _ = 2 ^ w := by rw [← Nat.pow_add, hroom]
    · have := (hsome mode hmode hzero).1
      omega

/-! ## The decoders -/

/-- The loop reads the letters in front and leaves the rest. -/
theorem decodeLoop_append {step : Switch} {rest : List UInt8} (hrest : alphabet.table (rest.headD 0) = -1) :
    ∀ {cs : List UInt8} (st : LeftOver), (∀ c ∈ cs, alphabet.table c ≠ -1) →
      decodeLoop alphabet step st (cs ++ rest) = (run step st (cs.map alphabet.digit), rest)
  | [], st, _ => by
    cases rest with
    | nil => rfl
    | cons c p =>
      have hc : alphabet.table c = -1 := hrest
      rw [List.nil_append, decodeLoop, if_pos hc]
      rfl
  | c :: cs, st, h => by
    have hnext := @decodeLoop_append step rest hrest cs (step st (alphabet.digit c)).2
      fun c' hc => h c' (List.mem_cons_of_mem c hc)
    rw [List.cons_append, decodeLoop, if_neg (h c List.mem_cons_self)]
    unfold digit at hnext
    dsimp only
    rw [hnext]
    rfl

theorem letters_and_rest : ∀ s : List UInt8, alphabet.table 0 = -1 →
    ∃ cs rest, s = cs ++ rest ∧ (∀ c ∈ cs, alphabet.table c ≠ -1) ∧ alphabet.table (rest.headD 0) = -1
  | [], hzero => ⟨[], [], rfl, by simp, hzero⟩
  | c :: s, hzero => by
    by_cases hc : alphabet.table c = -1
    · exact ⟨[], c :: s, rfl, by simp, hc⟩
    · obtain ⟨cs, rest, hs, hcs, hrest⟩ := letters_and_rest s hzero
      refine ⟨c :: cs, rest, by rw [hs, List.cons_append], ?_, hrest⟩
      intro c' hc'
      rcases List.mem_cons.mp hc' with rfl | hc'
      · exact hc
      · exact hcs c' hc'

theorem requirePadding_iff : ∀ {n : Nat} {p : List UInt8}, requirePadding alphabet n p = true ↔
    ∃ t, p = List.replicate n 61 ++ t ∧ alphabet.table (t.headD 0) = -1
  | 0, p => by
    rw [requirePadding, decide_eq_true_iff]
    constructor
    · intro h
      exact ⟨p, rfl, h⟩
    · rintro ⟨t, rfl, h⟩
      exact h
  | n + 1, p => by
    rw [requirePadding, Bool.and_eq_true, decide_eq_true_iff, requirePadding_iff]
    constructor
    · rintro ⟨hhead, t, htail, h⟩
      cases p with
      | nil => exact absurd hhead (by decide)
      | cons c p =>
        refine ⟨t, ?_, h⟩
        rw [List.replicate_succ, List.cons_append]
        exact congrArg₂ List.cons hhead htail
    · rintro ⟨t, rfl, h⟩
      exact ⟨rfl, t, rfl, h⟩

/-- What a decoder has left over. -/
def Unshifted (modes : Nat) (pendingOf : Nat → Nat) (st : LeftOver) (pend : List Bool) : Prop :=
  st.mode < modes ∧ pend = bits (pendingOf st.mode) st.left ∧
    (st.mode ≠ 0 → st.left < 2 ^ pendingOf st.mode)

theorem decodesBy_of_regroups {modes : Nat} {pendingOf nPadding : Nat → Nat} {step : Switch}
    {invalid : LeftOver → List UInt8 → Bool} (ha : alphabet.Sound w fold)
    (hstep : Regroups w 8 (Unshifted modes pendingOf) step) (hmodes : 0 < modes)
    (hnone : pendingOf 0 = 0) (hsome : ∀ m < modes, pendingOf m < 8) (hw : w ≤ 8)
    (hinvalid : ∀ st p, st.mode < modes → alphabet.table (p.headD 0) = -1 →
      (invalid st p = false ↔ pendingOf st.mode < w ∧ (st.mode ≠ 0 → st.left = 0) ∧
        requirePadding alphabet (nPadding st.mode) p = true))
    (hpadded : ∀ m < modes, pendingOf m < w → ∀ l t, l * w = t * 8 + pendingOf m →
      nPadding m < group ∧ group ∣ l + nPadding m) :
    alphabet.DecodesBy w group (decodeText alphabet step invalid) := by
  intro s x
  have hstart : Unshifted modes pendingOf ⟨0, 0⟩ [] := by
    refine ⟨hmodes, ?_, fun h => absurd rfl h⟩
    rw [hnone]
    rfl
  -- no bits left over but zeros
  have hzeros : ∀ st : LeftOver, st.mode ≠ 0 → st.left < 2 ^ pendingOf st.mode →
      bits (pendingOf st.mode) st.left = List.replicate (pendingOf st.mode) false → st.left = 0 := by
    intro st _ hlt heq
    exact bits_inj hlt (Nat.two_pow_pos _) (heq.trans (bits_zero _).symm)
  constructor
  · intro h
    obtain ⟨cs, rest, rfl, hcs, hrest⟩ := @letters_and_rest alphabet s ha.table_zero
    obtain ⟨pend, hpend, hbits, hlt⟩ := hstep.run hstart (ha.lt_of_mem_digits hcs)
    unfold decodeText at h
    rw [decodeLoop_append hrest ⟨0, 0⟩ hcs] at h
    generalize run step ⟨0, 0⟩ (cs.map alphabet.digit) = r at h hpend hbits hlt
    obtain ⟨hout, hflag⟩ := Prod.ext_iff.mp h
    dsimp only at hout hflag
    obtain ⟨hmode, rfl, hleft⟩ := hpend
    obtain ⟨hfew, hzero, hpad⟩ := (hinvalid r.2 rest hmode hrest).mp hflag
    obtain ⟨t, rfl, ht⟩ := requirePadding_iff.mp hpad
    have hrestBits : bits (pendingOf r.2.mode) r.2.left = List.replicate (pendingOf r.2.mode) false := by
      by_cases hm : r.2.mode = 0
      · rw [hm, hnone]
        rfl
      · rw [hzero hm, bits_zero]
    rw [List.nil_append, hrestBits, ← map_toNat_ofNat hlt, hout] at hbits
    have hlen := congrArg List.length hbits
    rw [List.length_append, length_stream, length_stream, List.length_replicate, List.length_map] at hlen
    obtain ⟨hp, hdvd⟩ := hpadded _ hmode hfew _ _ hlen
    exact ⟨cs, _, t, (List.append_assoc _ _ _).symm, ⟨hcs, ⟨_, hfew, hbits⟩, hp, hdvd⟩, ht⟩
  · rintro ⟨cs, p, t, rfl, ⟨hcs, ⟨k, hk, hcovers⟩, hp, hdvd⟩, ht⟩
    have hrest : alphabet.table ((List.replicate p 61 ++ t).headD 0) = -1 := by
      cases p with
      | zero => exact ht
      | succ p => exact ha.table_pad
    obtain ⟨pend, hpend, hbits, hlt⟩ := hstep.run hstart (ha.lt_of_mem_digits hcs)
    unfold decodeText
    rw [List.append_assoc, decodeLoop_append hrest ⟨0, 0⟩ hcs]
    generalize run step ⟨0, 0⟩ (cs.map alphabet.digit) = r at hpend hbits hlt
    obtain ⟨hmode, rfl, hleft⟩ := hpend
    rw [List.nil_append, hcovers] at hbits
    -- both are as many whole bytes as there are in the letters
    have hlen := congrArg List.length hbits
    rw [List.length_append, List.length_append, length_stream, length_stream, length_bits,
      List.length_replicate] at hlen
    have hpendLt := hsome _ hmode
    have hsame : (x.map UInt8.toNat).length = r.1.length := by omega
    obtain ⟨hstreams, htails⟩ := List.append_inj hbits (by rw [length_stream, length_stream, hsame])
    have hbytes : x.map UInt8.toNat = r.1 := stream_inj (lt_of_mem_map_toNat) hlt hsame hstreams
    have hcount : k = pendingOf r.2.mode := by omega
    have hout : r.1.map UInt8.ofNat = x := by
      rw [← hbytes, map_ofNat_toNat]
    have hflag : invalid r.2 (List.replicate p 61 ++ t) = false := by
      have hcoverLen := congrArg List.length hcovers
      rw [List.length_append, length_stream, length_stream, List.length_replicate, List.length_map,
        hcount] at hcoverLen
      obtain ⟨hp', hdvd'⟩ := hpadded _ hmode (by omega) _ _ hcoverLen
      obtain rfl : p = nPadding r.2.mode := padding_unique hp hp' hdvd hdvd'
      refine (hinvalid r.2 _ hmode hrest).mpr ⟨by omega, fun hm => ?_, requirePadding_iff.mpr ⟨t, rfl, ht⟩⟩
      exact hzeros r.2 hm (hleft hm) (by rw [← htails, hcount])
    exact Prod.ext hout hflag

end Alphabet

end Silkcoin
