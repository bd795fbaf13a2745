/-
  `EncodeBase64`, `EncodeBase32` and their decoders, each as the `switch` it has.

  What a `case` does is one equation on bits: those that were left over and those that come in are those
  that go out and those that are left over then (`encode64Step_regroups`, and so on).  The rest is the theory
  of texts: encoding and decoding are inverse to each other on texts, for base 32 up to the case of the
  letters.

  A string that is a text and more is decoded as if there were nothing more, and reported VALID, unless
  the character after the text is a letter again.  This is all that goes wrong (`baseDecode_strict_iff`).
-/
import Silkcoin.BaseText
import Silkcoin.MapValue

namespace Silkcoin

open Regroup Alphabet

/-! ## Base 64 -/

def pbase64 : List UInt8 := ascii "ABCDEFGHIJKLMNOPQRSTUVWXYZabcdefghijklmnopqrstuvwxyz0123456789+/"

def decode64_table : List Int :=
  [ ([-1, -1, -1, -1, -1, -1, -1, -1, -1, -1, -1, -1, -1, -1, -1, -1, -1, -1, -1, -1] : List Int),
    ([-1, -1, -1, -1, -1, -1, -1, -1, -1, -1, -1, -1, -1, -1, -1, -1, -1, -1, -1, -1] : List Int),
    ([-1, -1, -1, 62, -1, -1, -1, 63, 52, 53, 54, 55, 56, 57, 58, 59, 60, 61, -1, -1] : List Int),
    ([-1, -1, -1, -1, -1, 0, 1, 2, 3, 4, 5, 6, 7, 8, 9, 10, 11, 12, 13, 14] : List Int),
    ([15, 16, 17, 18, 19, 20, 21, 22, 23, 24, 25, -1, -1, -1, -1, -1, -1, 26, 27, 28] : List Int),
    ([29, 30, 31, 32, 33, 34, 35, 36, 37, 38, 39, 40, 41, 42, 43, 44, 45, 46, 47, 48] : List Int),
    ([49, 50, 51, -1, -1, -1, -1, -1, -1, -1, -1, -1, -1, -1, -1, -1, -1, -1, -1, -1] : List Int),
    ([-1, -1, -1, -1, -1, -1, -1, -1, -1, -1, -1, -1, -1, -1, -1, -1, -1, -1, -1, -1] : List Int),
    ([-1, -1, -1, -1, -1, -1, -1, -1, -1, -1, -1, -1, -1, -1, -1, -1, -1, -1, -1, -1] : List Int),
    ([-1, -1, -1, -1, -1, -1, -1, -1, -1, -1, -1, -1, -1, -1, -1, -1, -1, -1, -1, -1] : List Int),
    ([-1, -1, -1, -1, -1, -1, -1, -1, -1, -1, -1, -1, -1, -1, -1, -1, -1, -1, -1, -1] : List Int),
    ([-1, -1, -1, -1, -1, -1, -1, -1, -1, -1, -1, -1, -1, -1, -1, -1, -1, -1, -1, -1] : List Int),
    ([-1, -1, -1, -1, -1, -1, -1, -1, -1, -1, -1, -1, -1, -1, -1, -1] : List Int) ].flatten

def alphabet64 : Alphabet where
  letter d := pbase64.getD d 0
  table c := decode64_table.getD c.toNat (-1)

def encode64Step : Switch
  | ⟨0, _⟩, enc => ([enc >>> 2], ⟨1, (enc &&& 3) <<< 4⟩)
  | ⟨1, left⟩, enc => ([left ||| enc >>> 4], ⟨2, (enc &&& 15) <<< 2⟩)
  | ⟨2, left⟩, enc => ([left ||| enc >>> 6, enc &&& 63], ⟨0, left⟩)
  | st, _ => ([], st)

def encodeBase64 : List UInt8 → List UInt8 :=
  encodeText alphabet64 encode64Step fun mode => if mode = 1 then 2 else 1

def decode64Step : Switch
  | ⟨0, _⟩, dec => ([], ⟨1, dec⟩)
  | ⟨1, left⟩, dec => ([left <<< 2 ||| dec >>> 4], ⟨2, dec &&& 15⟩)
  | ⟨2, left⟩, dec => ([left <<< 4 ||| dec >>> 2], ⟨3, dec &&& 3⟩)
  | ⟨3, left⟩, dec => ([left <<< 6 ||| dec], ⟨0, left⟩)
  | st, _ => ([], st)

def decode64Invalid (st : LeftOver) (p : List UInt8) : Bool :=
  match st.mode with
  | 1 => true
  | 2 => decide (st.left ≠ 0) || !requirePadding alphabet64 2 p
  | 3 => decide (st.left ≠ 0) || !requirePadding alphabet64 1 p
  -- `4n` characters: nothing is looked at
  | _ => false

/-- `DecodeBase64` of a C string, without its terminator: the bytes and `*pfInvalid`. -/
def decodeBase64 : List UInt8 → List UInt8 × Bool := decodeText alphabet64 decode64Step decode64Invalid

/-! ## Base 32 -/

def pbase32 : List UInt8 := ascii "abcdefghijklmnopqrstuvwxyz234567"

def decode32_table : List Int :=
  [ ([-1, -1, -1, -1, -1, -1, -1, -1, -1, -1, -1, -1, -1, -1, -1, -1, -1, -1, -1, -1] : List Int),
    ([-1, -1, -1, -1, -1, -1, -1, -1, -1, -1, -1, -1, -1, -1, -1, -1, -1, -1, -1, -1] : List Int),
    ([-1, -1, -1, -1, -1, -1, -1, -1, -1, -1, 26, 27, 28, 29, 30, 31, -1, -1, -1, -1] : List Int),
    ([-1, -1, -1, -1, -1, 0, 1, 2, 3, 4, 5, 6, 7, 8, 9, 10, 11, 12, 13, 14] : List Int),
    ([15, 16, 17, 18, 19, 20, 21, 22, 23, 24, 25, -1, -1, -1, -1, -1, -1, 0, 1, 2] : List Int),
    ([3, 4, 5, 6, 7, 8, 9, 10, 11, 12, 13, 14, 15, 16, 17, 18, 19, 20, 21, 22] : List Int),
    ([23, 24, 25, -1, -1, -1, -1, -1, -1, -1, -1, -1, -1, -1, -1, -1, -1, -1, -1, -1] : List Int),
    ([-1, -1, -1, -1, -1, -1, -1, -1, -1, -1, -1, -1, -1, -1, -1, -1, -1, -1, -1, -1] : List Int),
    ([-1, -1, -1, -1, -1, -1, -1, -1, -1, -1, -1, -1, -1, -1, -1, -1, -1, -1, -1, -1] : List Int),
    ([-1, -1, -1, -1, -1, -1, -1, -1, -1, -1, -1, -1, -1, -1, -1, -1, -1, -1, -1, -1] : List Int),
    ([-1, -1, -1, -1, -1, -1, -1, -1, -1, -1, -1, -1, -1, -1, -1, -1, -1, -1, -1, -1] : List Int),
    ([-1, -1, -1, -1, -1, -1, -1, -1, -1, -1, -1, -1, -1, -1, -1, -1, -1, -1, -1, -1] : List Int),
    ([-1, -1, -1, -1, -1, -1, -1, -1, -1, -1, -1, -1, -1, -1, -1, -1] : List Int) ].flatten

def alphabet32 : Alphabet where
  letter d := pbase32.getD d 0
  table c := decode32_table.getD c.toNat (-1)

def encode32Step : Switch
  | ⟨0, _⟩, enc => ([enc >>> 3], ⟨1, (enc &&& 7) <<< 2⟩)
  | ⟨1, left⟩, enc => ([left ||| enc >>> 6, (enc >>> 1) &&& 31], ⟨2, (enc &&& 1) <<< 4⟩)
  | ⟨2, left⟩, enc => ([left ||| enc >>> 4], ⟨3, (enc &&& 15) <<< 1⟩)
  | ⟨3, left⟩, enc => ([left ||| enc >>> 7, (enc >>> 2) &&& 31], ⟨4, (enc &&& 3) <<< 3⟩)
  | ⟨4, left⟩, enc => ([left ||| enc >>> 5, enc &&& 31], ⟨0, left⟩)
  | st, _ => ([], st)

/-- `nPadding` -/
def padding32 (mode : Nat) : Nat := [0, 6, 4, 3, 1].getD mode 0

def encodeBase32 : List UInt8 → List UInt8 := encodeText alphabet32 encode32Step padding32

def decode32Step : Switch
  | ⟨0, _⟩, dec => ([], ⟨1, dec⟩)
  | ⟨1, left⟩, dec => ([left <<< 3 ||| dec >>> 2], ⟨2, dec &&& 3⟩)
  | ⟨2, left⟩, dec => ([], ⟨3, left <<< 5 ||| dec⟩)
  | ⟨3, left⟩, dec => ([left <<< 1 ||| dec >>> 4], ⟨4, dec &&& 15⟩)
  | ⟨4, left⟩, dec => ([left <<< 4 ||| dec >>> 1], ⟨5, dec &&& 1⟩)
  | ⟨5, left⟩, dec => ([], ⟨6, left <<< 5 ||| dec⟩)
  | ⟨6, left⟩, dec => ([left <<< 2 ||| dec >>> 3], ⟨7, dec &&& 7⟩)
  | ⟨7, left⟩, dec => ([left <<< 5 ||| dec], ⟨0, left⟩)
  | st, _ => ([], st)

def decode32Invalid (st : LeftOver) (p : List UInt8) : Bool :=
  match st.mode with
  | 1 | 3 | 6 => true
  | 2 => decide (st.left ≠ 0) || !requirePadding alphabet32 6 p
  | 4 => decide (st.left ≠ 0) || !requirePadding alphabet32 4 p
  | 5 => decide (st.left ≠ 0) || !requirePadding alphabet32 3 p
  | 7 => decide (st.left ≠ 0) || !requirePadding alphabet32 1 p
  -- `8n` characters: nothing is looked at
  | _ => false

/-- `DecodeBase32` of a C string, without its terminator: the bytes and `*pfInvalid`. -/
def decodeBase32 : List UInt8 → List UInt8 × Bool := decodeText alphabet32 decode32Step decode32Invalid

/-- The lower case of a letter. -/
def toLower (c : UInt8) : UInt8 := if 65 ≤ c.toNat ∧ c.toNat ≤ 90 then c + 32 else c

/-! ## The alphabets -/

/-- The alphabet of base 64, as the ranges it consists of. -/
def letter64 (d : Nat) : Nat :=
  if d < 26 then d + 65 else if d < 52 then d + 71 else if d < 62 then d - 4 else if d = 62 then 43 else 47

def value64 (c : Nat) : Int :=
  if 65 ≤ c ∧ c ≤ 90 then c - 65 else if 97 ≤ c ∧ c ≤ 122 then c - 71
  else if 48 ≤ c ∧ c ≤ 57 then c + 4 else if c = 43 then 62 else if c = 47 then 63 else -1

theorem pbase64_eq : pbase64 = (List.range 64).map fun d => UInt8.ofNat (letter64 d) := by rfl

set_option maxRecDepth 4096 in
theorem decode64_table_eq : decode64_table = (List.range 256).map value64 := by rfl

/-- And that of base 32, which is read in both cases. -/
def letter32 (d : Nat) : Nat := if d < 26 then d + 97 else d + 24

def value32 (c : Nat) : Int :=
  if 65 ≤ c ∧ c ≤ 90 then c - 65 else if 97 ≤ c ∧ c ≤ 122 then c - 97
  else if 50 ≤ c ∧ c ≤ 55 then c - 24 else -1

theorem pbase32_eq : pbase32 = (List.range 32).map fun d => UInt8.ofNat (letter32 d) := by rfl

set_option maxRecDepth 4096 in
theorem decode32_table_eq : decode32_table = (List.range 256).map value32 := by rfl

theorem getD_map_range {α : Type} (f : Nat → α) {n i : Nat} (h : i < n) (d : α) :
    ((List.range n).map f).getD i d = f i := by
  rw [List.getD_eq_getElem?_getD, List.getElem?_map, List.getElem?_range h]
  rfl

theorem alphabet64_letter {d : Nat} (h : d < 64) : alphabet64.letter d = UInt8.ofNat (letter64 d) := by
  have hget : alphabet64.letter d = pbase64.getD d 0 := rfl
  rw [hget, pbase64_eq, getD_map_range _ h]

theorem alphabet64_table (c : UInt8) : alphabet64.table c = value64 c.toNat := by
  have hget : alphabet64.table c = decode64_table.getD c.toNat (-1) := rfl
  rw [hget, decode64_table_eq, getD_map_range _ c.toNat_lt]

theorem alphabet32_letter {d : Nat} (h : d < 32) : alphabet32.letter d = UInt8.ofNat (letter32 d) := by
  have hget : alphabet32.letter d = pbase32.getD d 0 := rfl
  rw [hget, pbase32_eq, getD_map_range _ h]

theorem alphabet32_table (c : UInt8) : alphabet32.table c = value32 c.toNat := by
  have hget : alphabet32.table c = decode32_table.getD c.toNat (-1) := rfl
  rw [hget, decode32_table_eq, getD_map_range _ c.toNat_lt]

theorem letter64_lt : ∀ d < 64, letter64 d < 256 := by
  intro d hd
  grind [letter64]

theorem value64_letter64 : ∀ d < 64, value64 (letter64 d) = d := by
  intro d hd
  grind [value64, letter64]

theorem letter64_value64 : ∀ c < 256, value64 c ≠ -1 →
    (value64 c).toNat < 64 ∧ letter64 (value64 c).toNat = c := by
  intro c hc h
  unfold value64 at *
  split at h
  · grind [letter64]
  · split at h
    · grind [letter64]
    · grind [letter64]

theorem letter32_lt : ∀ d < 32, letter32 d < 256 := by
  intro d hd
  grind [letter32]

theorem value32_letter32 : ∀ d < 32, value32 (letter32 d) = d := by
  intro d hd
  grind [value32, letter32]

theorem letter32_value32 : ∀ c < 256, value32 c ≠ -1 →
    (value32 c).toNat < 32 ∧ letter32 (value32 c).toNat = if 65 ≤ c ∧ c ≤ 90 then c + 32 else c := by
  intro c hc h
  grind [value32, letter32]

theorem alphabet64_sound : alphabet64.Sound 6 id where
  table_letter d h := by
    rw [alphabet64_letter h, alphabet64_table, UInt8.toNat_ofNat_of_lt' (letter64_lt d h), value64_letter64 d h]
  digit_lt c h := by
    rw [alphabet64_table] at h
    unfold digit
    rw [alphabet64_table]
    exact (letter64_value64 c.toNat c.toNat_lt h).1
  letter_digit c h := by
    rw [alphabet64_table] at h
    obtain ⟨hlt, hletter⟩ := letter64_value64 c.toNat c.toNat_lt h
    unfold digit
    rw [alphabet64_table, alphabet64_letter hlt, hletter, UInt8.ofNat_toNat]
    rfl
  table_pad := alphabet64_table 61
  table_zero := alphabet64_table 0
  fold_pad := rfl

theorem alphabet32_sound : alphabet32.Sound 5 toLower where
  table_letter d h := by
    rw [alphabet32_letter h, alphabet32_table, UInt8.toNat_ofNat_of_lt' (letter32_lt d h), value32_letter32 d h]
  digit_lt c h := by
    rw [alphabet32_table] at h
    unfold digit
    rw [alphabet32_table]
    exact (letter32_value32 c.toNat c.toNat_lt h).1
  letter_digit c h := by
    rw [alphabet32_table] at h
    obtain ⟨hlt, hletter⟩ := letter32_value32 c.toNat c.toNat_lt h
    unfold digit
    rw [alphabet32_table, alphabet32_letter hlt, hletter]
    unfold toLower
    split_ifs
    · rw [UInt8.ofNat_add, UInt8.ofNat_toNat]
      rfl
    · rw [UInt8.ofNat_toNat]
  table_pad := alphabet32_table 61
  table_zero := alphabet32_table 0
  fold_pad := by decide

/-! ## The cases -/

theorem encode64Step_regroups : Regroups 8 6 (Shifted 6 3 fun mode => 2 * mode) encode64Step := by
  rintro ⟨mode, left⟩ pend d ⟨hmode, l, hl, rfl, hleft⟩ hd
  have hcases : mode = 0 ∨ mode = 1 ∨ mode = 2 := by
    dsimp only at hmode
    omega
  rcases hcases with rfl | rfl | rfl
  · exact ⟨_, ⟨(by decide : 1 < 3), d &&& 3, mask_lt 2 d, rfl, fun _ => rfl⟩,
      emit_first (m := 2) (b := 6) rfl l hd⟩
  · obtain rfl : left = l <<< 4 := hleft Nat.one_ne_zero
    exact ⟨_, ⟨(by decide : 2 < 3), d &&& 15, mask_lt 4 d, rfl, fun _ => rfl⟩,
      emit_one (n := 2) (m := 4) (b := 6) rfl (by decide) hl hd⟩
  · obtain rfl : left = l <<< 2 := hleft (Nat.succ_ne_zero 1)
    exact ⟨_, ⟨(by decide : 0 < 3), 0, Nat.one_pos, rfl, fun h => absurd rfl h⟩,
      emit_two (n := 4) (m := 0) (b := 6) rfl (by decide) hl hd⟩

/-- The bits a decoder of base 64 has left over: 0, 6, 4, 2. -/
def pending64 (mode : Nat) : Nat := if mode = 0 then 0 else 8 - 2 * mode

theorem decode64Step_regroups : Regroups 6 8 (Unshifted 4 pending64) decode64Step := by
  rintro ⟨mode, left⟩ pend d ⟨hmode, rfl, hleft⟩ hd
  have hcases : mode = 0 ∨ mode = 1 ∨ mode = 2 ∨ mode = 3 := by
    dsimp only at hmode
    omega
  rcases hcases with rfl | rfl | rfl | rfl
  · exact ⟨_, ⟨(by decide : 1 < 4), rfl, fun _ => hd⟩, emit_first_none _ _ d⟩
  · exact ⟨_, ⟨(by decide : 2 < 4), rfl, fun _ => mask_lt 4 d⟩,
      emit_one (n := 6) (m := 4) (b := 8) rfl (by decide) (hleft Nat.one_ne_zero) hd⟩
  · exact ⟨_, ⟨(by decide : 3 < 4), rfl, fun _ => mask_lt 2 d⟩,
      emit_one (n := 4) (m := 2) (b := 8) rfl (by decide) (hleft (Nat.succ_ne_zero 1)) hd⟩
  · exact ⟨_, ⟨(by decide : 0 < 4), rfl, fun h => absurd rfl h⟩,
      emit_one (n := 2) (m := 0) (b := 8) rfl (by decide) (hleft (Nat.succ_ne_zero 2)) hd⟩

/-- The bits the encoder of base 32 has left over. -/
def shifted32 (mode : Nat) : Nat := [0, 3, 1, 4, 2].getD mode 0

theorem encode32Step_regroups : Regroups 8 5 (Shifted 5 5 shifted32) encode32Step := by
  rintro ⟨mode, left⟩ pend d ⟨hmode, l, hl, rfl, hleft⟩ hd
  have hcases : mode = 0 ∨ mode = 1 ∨ mode = 2 ∨ mode = 3 ∨ mode = 4 := by
    dsimp only at hmode
    omega
  rcases hcases with rfl | rfl | rfl | rfl | rfl
  · exact ⟨_, ⟨(by decide : 1 < 5), d &&& 7, mask_lt 3 d, rfl, fun _ => rfl⟩,
      emit_first (m := 3) (b := 5) rfl l hd⟩
  · obtain rfl : left = l <<< 2 := hleft Nat.one_ne_zero
    exact ⟨_, ⟨(by decide : 2 < 5), d &&& 1, mask_lt 1 d, rfl, fun _ => rfl⟩,
      emit_two (n := 3) (m := 1) (b := 5) rfl (by decide) hl hd⟩
  · obtain rfl : left = l <<< 4 := hleft (Nat.succ_ne_zero 1)
    exact ⟨_, ⟨(by decide : 3 < 5), d &&& 15, mask_lt 4 d, rfl, fun _ => rfl⟩,
      emit_one (n := 1) (m := 4) (b := 5) rfl (by decide) hl hd⟩
  · obtain rfl : left = l <<< 1 := hleft (Nat.succ_ne_zero 2)
    exact ⟨_, ⟨(by decide : 4 < 5), d &&& 3, mask_lt 2 d, rfl, fun _ => rfl⟩,
      emit_two (n := 4) (m := 2) (b := 5) rfl (by decide) hl hd⟩
  · obtain rfl : left = l <<< 3 := hleft (Nat.succ_ne_zero 3)
    exact ⟨_, ⟨(by decide : 0 < 5), 0, Nat.one_pos, rfl, fun h => absurd rfl h⟩,
      emit_two (n := 2) (m := 0) (b := 5) rfl (by decide) hl hd⟩

/-- And those the decoder has left over. -/
def pending32 (mode : Nat) : Nat := [0, 5, 2, 7, 4, 1, 6, 3].getD mode 0

theorem decode32Step_regroups : Regroups 5 8 (Unshifted 8 pending32) decode32Step := by
  rintro ⟨mode, left⟩ pend d ⟨hmode, rfl, hleft⟩ hd
  have hcases : mode = 0 ∨ mode = 1 ∨ mode = 2 ∨ mode = 3 ∨ mode = 4 ∨ mode = 5 ∨ mode = 6 ∨ mode = 7 := by
    dsimp only at hmode
    omega
  rcases hcases with rfl | rfl | rfl | rfl | rfl | rfl | rfl | rfl
  · exact ⟨_, ⟨(by decide : 1 < 8), rfl, fun _ => hd⟩, emit_first_none _ _ d⟩
  · exact ⟨_, ⟨(by decide : 2 < 8), rfl, fun _ => mask_lt 2 d⟩,
      emit_one (n := 5) (m := 2) (b := 8) rfl (by decide) (hleft Nat.one_ne_zero) hd⟩
  · exact ⟨_, ⟨(by decide : 3 < 8), rfl, fun _ => keep_lt (n := 2) (hleft (Nat.succ_ne_zero 1)) hd⟩,
      emit_none (n := 2) 8 rfl left hd⟩
  · exact ⟨_, ⟨(by decide : 4 < 8), rfl, fun _ => mask_lt 4 d⟩,
      emit_one (n := 7) (m := 4) (b := 8) rfl (by decide) (hleft (Nat.succ_ne_zero 2)) hd⟩
  · exact ⟨_, ⟨(by decide : 5 < 8), rfl, fun _ => mask_lt 1 d⟩,
      emit_one (n := 4) (m := 1) (b := 8) rfl (by decide) (hleft (Nat.succ_ne_zero 3)) hd⟩
  · exact ⟨_, ⟨(by decide : 6 < 8), rfl, fun _ => keep_lt (n := 1) (hleft (Nat.succ_ne_zero 4)) hd⟩,
      emit_none (n := 1) 8 rfl left hd⟩
  · exact ⟨_, ⟨(by decide : 7 < 8), rfl, fun _ => mask_lt 3 d⟩,
      emit_one (n := 6) (m := 3) (b := 8) rfl (by decide) (hleft (Nat.succ_ne_zero 5)) hd⟩
  · exact ⟨_, ⟨(by decide : 0 < 8), rfl, fun h => absurd rfl h⟩,
      emit_one (n := 3) (m := 0) (b := 8) rfl (by decide) (hleft (Nat.succ_ne_zero 6)) hd⟩

/-! ## Encoding and decoding -/

theorem encodeBase64_texts : alphabet64.EncodesBy 6 4 encodeBase64 := by
  refine encodesBy_of_regroups encode64Step_regroups (by decide) (by decide) rfl ?_ ?_ ?_ (by decide)
  · intro m hm hne
    exact ⟨by omega, by omega⟩
  · intro l t h
    omega
  · intro m hm hne l t h
    have hcases : m = 1 ∨ m = 2 := by omega
    rcases hcases with rfl | rfl
    · exact ⟨by decide, show 4 ∣ l + 2 by omega⟩
    · exact ⟨by decide, show 4 ∣ l + 1 by omega⟩

theorem encodeBase32_texts : alphabet32.EncodesBy 5 8 encodeBase32 := by
  refine encodesBy_of_regroups encode32Step_regroups (by decide) (by decide) rfl (by decide) ?_ ?_ (by decide)
  · intro l t h
    omega
  · intro m hm hne l t h
    have hcases : m = 1 ∨ m = 2 ∨ m = 3 ∨ m = 4 := by omega
    rcases hcases with rfl | rfl | rfl | rfl
    · have hlen : l * 5 = t * 8 + 2 := h
      exact ⟨by decide, show 8 ∣ l + 6 by omega⟩
    · have hlen : l * 5 = t * 8 + 4 := h
      exact ⟨by decide, show 8 ∣ l + 4 by omega⟩
    · have hlen : l * 5 = t * 8 + 1 := h
      exact ⟨by decide, show 8 ∣ l + 3 by omega⟩
    · have hlen : l * 5 = t * 8 + 3 := h
      exact ⟨by decide, show 8 ∣ l + 1 by omega⟩

/-- A `case` that looks at what is left over and at the padding. -/
theorem checked_iff {mode n w left : Nat} {padding : Bool} (hmode : mode ≠ 0) (hfew : n < w) :
    (decide (left ≠ 0) || !padding) = false ↔ n < w ∧ (mode ≠ 0 → left = 0) ∧ padding = true := by
  rw [Bool.or_eq_false_iff, decide_eq_false_iff_not, not_not, Bool.not_eq_false']
  exact ⟨fun h => ⟨hfew, fun _ => h.1, h.2⟩, fun h => ⟨h.2.1 hmode, h.2.2⟩⟩

/-- One that is impossible. -/
theorem impossible_iff {n w : Nat} {P : Prop} (hmany : ¬ n < w) : true = false ↔ n < w ∧ P :=
  ⟨fun h => absurd h Bool.noConfusion, fun h => absurd h.1 hmany⟩

/-- And `case 0`, which looks at nothing. -/
theorem unchecked_iff {n w left : Nat} {padding : Bool} (hfew : n < w) (hpadding : padding = true) :
    false = false ↔ n < w ∧ (0 ≠ 0 → left = 0) ∧ padding = true :=
  ⟨fun _ => ⟨hfew, fun h => absurd rfl h, hpadding⟩, fun _ => rfl⟩

/-- How many `=` the decoders ask for. -/
def padding64 (mode : Nat) : Nat := [0, 0, 2, 1].getD mode 0

def requirePadding32 (mode : Nat) : Nat := [0, 0, 6, 0, 4, 3, 0, 1].getD mode 0

theorem decode64Invalid_iff (st : LeftOver) (p : List UInt8) (hmode : st.mode < 4)
    (hp : alphabet64.table (p.headD 0) = -1) :
    decode64Invalid st p = false ↔ pending64 st.mode < 6 ∧ (st.mode ≠ 0 → st.left = 0) ∧
      requirePadding alphabet64 (padding64 st.mode) p = true := by
  obtain ⟨mode, left⟩ := st
  have hcases : mode = 0 ∨ mode = 1 ∨ mode = 2 ∨ mode = 3 := by
    dsimp only at hmode
    omega
  rcases hcases with rfl | rfl | rfl | rfl
  · exact unchecked_iff (by decide : 0 < 6) (decide_eq_true hp)
  · exact impossible_iff (by decide : ¬ 6 < 6)
  · exact checked_iff (Nat.succ_ne_zero 1) (by decide : 4 < 6)
  · exact checked_iff (Nat.succ_ne_zero 2) (by decide : 2 < 6)

theorem decode32Invalid_iff (st : LeftOver) (p : List UInt8) (hmode : st.mode < 8)
    (hp : alphabet32.table (p.headD 0) = -1) :
    decode32Invalid st p = false ↔ pending32 st.mode < 5 ∧ (st.mode ≠ 0 → st.left = 0) ∧
      requirePadding alphabet32 (requirePadding32 st.mode) p = true := by
  obtain ⟨mode, left⟩ := st
  have hcases : mode = 0 ∨ mode = 1 ∨ mode = 2 ∨ mode = 3 ∨ mode = 4 ∨ mode = 5 ∨ mode = 6 ∨ mode = 7 := by
    dsimp only at hmode
    omega
  rcases hcases with rfl | rfl | rfl | rfl | rfl | rfl | rfl | rfl
  · exact unchecked_iff (by decide : 0 < 5) (decide_eq_true hp)
  · exact impossible_iff (by decide : ¬ 5 < 5)
  · exact checked_iff (Nat.succ_ne_zero 1) (by decide : 2 < 5)
  · exact impossible_iff (by decide : ¬ 7 < 5)
  · exact checked_iff (Nat.succ_ne_zero 3) (by decide : 4 < 5)
  · exact checked_iff (Nat.succ_ne_zero 4) (by decide : 1 < 5)
  · exact impossible_iff (by decide : ¬ 6 < 5)
  · exact checked_iff (Nat.succ_ne_zero 6) (by decide : 3 < 5)

theorem decodeBase64_texts : alphabet64.DecodesBy 6 4 decodeBase64 := by
  refine decodesBy_of_regroups alphabet64_sound decode64Step_regroups (by decide) rfl (by decide) (by decide)
    decode64Invalid_iff ?_
  intro m hm hfew l t h
  have hcases : m = 0 ∨ m = 1 ∨ m = 2 ∨ m = 3 := by omega
  rcases hcases with rfl | rfl | rfl | rfl
  · have hlen : l * 6 = t * 8 + 0 := h
    exact ⟨by decide, show 4 ∣ l + 0 by omega⟩
  · exact absurd hfew (by decide)
  · have hlen : l * 6 = t * 8 + 4 := h
    exact ⟨by decide, show 4 ∣ l + 2 by omega⟩
  · have hlen : l * 6 = t * 8 + 2 := h
    exact ⟨by decide, show 4 ∣ l + 1 by omega⟩

theorem decodeBase32_texts : alphabet32.DecodesBy 5 8 decodeBase32 := by
  refine decodesBy_of_regroups alphabet32_sound decode32Step_regroups (by decide) rfl (by decide) (by decide)
    decode32Invalid_iff ?_
  intro m hm hfew l t h
  have hcases : m = 0 ∨ m = 1 ∨ m = 2 ∨ m = 3 ∨ m = 4 ∨ m = 5 ∨ m = 6 ∨ m = 7 := by omega
  rcases hcases with rfl | rfl | rfl | rfl | rfl | rfl | rfl | rfl
  · have hlen : l * 5 = t * 8 + 0 := h
    exact ⟨by decide, show 8 ∣ l + 0 by omega⟩
  · exact absurd hfew (by decide)
  · have hlen : l * 5 = t * 8 + 2 := h
    exact ⟨by decide, show 8 ∣ l + 6 by omega⟩
  · exact absurd hfew (by decide)
  · have hlen : l * 5 = t * 8 + 4 := h
    exact ⟨by decide, show 8 ∣ l + 4 by omega⟩
  · have hlen : l * 5 = t * 8 + 1 := h
    exact ⟨by decide, show 8 ∣ l + 3 by omega⟩
  · exact absurd hfew (by decide)
  · have hlen : l * 5 = t * 8 + 3 := h
    exact ⟨by decide, show 8 ∣ l + 1 by omega⟩

/-- **What the decoders validate.**  Decoding undoes encoding.  A string that is reported valid is the
    encoding of the result, up to the case of base 32, unless it is a text and more, the more beginning
    with a character that is no letter. -/
theorem baseDecode_strict_iff (x s : List UInt8) :
    decodeBase64 (encodeBase64 x) = (x, false) ∧
    decodeBase32 (encodeBase32 x) = (x, false) ∧
    (((decodeBase64 s).2 = false → encodeBase64 (decodeBase64 s).1 = s) ↔
      ¬ ∃ e c t, s = e ++ c :: t ∧ alphabet64.IsText 6 4 e ∧ alphabet64.table c = -1) ∧
    (((decodeBase32 s).2 = false → encodeBase32 (decodeBase32 s).1 = s.map toLower) ↔
      ¬ ∃ e c t, s = e ++ c :: t ∧ alphabet32.IsText 5 8 e ∧ alphabet32.table c = -1) := by
  refine ⟨?_, ?_, ?_, ?_⟩
  · exact decode_encode alphabet64_sound encodeBase64_texts decodeBase64_texts x
  · exact decode_encode alphabet32_sound encodeBase32_texts decodeBase32_texts x
  · have h := strict_iff alphabet64_sound encodeBase64_texts decodeBase64_texts s
    rwa [List.map_id] at h
  · exact strict_iff alphabet32_sound encodeBase32_texts decodeBase32_texts s

/-- "AAAA!" is valid, and the encoding of three zero bytes is "AAAA". -/
theorem decodeBase64_garbage :
    ¬ ∀ s, (decodeBase64 s).2 = false → encodeBase64 (decodeBase64 s).1 = s := by
  intro h
  obtain ⟨hvalid, hshort⟩ : decodeBase64 [65, 65, 65, 65, 33] = ([0, 0, 0], false) ∧
      encodeBase64 [0, 0, 0] = [65, 65, 65, 65] := by decide
  have hbad := h [65, 65, 65, 65, 33] (congrArg Prod.snd hvalid)
  rw [hvalid, hshort] at hbad
  cases hbad

end Silkcoin
