/-
  Compact targets as numbers: the compact form rounds toward zero.

  `getCompact` keeps the size of the MPI body and its first three bytes, `setCompact` fills up with
  zeros.  So a round trip through the compact form cuts a number down to a multiple of 256 ^ (size - 3)
  (`setCompact_getCompact`), and everything the retargeting rules need follows from four facts about
  `compactFloor`: it is positive, at most the number, idempotent and MONOTONE.  The last one is not
  obvious, as the unit grows with the size.
-/
import Silkcoin.Bignum
import Mathlib.Tactic.Ring

namespace Silkcoin

/-! ## The bits of a compact target -/

theorem shiftLeft_or (a b i : Nat) (h : b < 2 ^ i) : a * 2 ^ i ||| b = a * 2 ^ i + b := by
  rw [← Nat.shiftLeft_eq, ← Nat.shiftLeft_add_eq_or_of_lt h]

/-- The four bytes of a compact target. -/
theorem toNat_compact (nSize : Nat) (b₀ b₁ b₂ : UInt8) :
    ((UInt32.ofNat nSize <<< 24) ||| (b₀.toUInt32 <<< 16) ||| (b₁.toUInt32 <<< 8) |||
      b₂.toUInt32).toNat =
      nSize % 256 * 2 ^ 24 + b₀.toNat * 2 ^ 16 + b₁.toNat * 2 ^ 8 + b₂.toNat := by
  have h₀ := b₀.toNat_lt
  have h₁ := b₁.toNat_lt
  have h₂ := b₂.toNat_lt
  simp only [UInt32.toNat_or, UInt32.toNat_shiftLeft, UInt8.toNat_toUInt32, UInt32.toNat_ofNat']
  show (nSize % 2 ^ 32) <<< 24 % 2 ^ 32 ||| b₀.toNat <<< 16 % 2 ^ 32 ||| b₁.toNat <<< 8 % 2 ^ 32 |||
    b₂.toNat = _
  simp only [Nat.shiftLeft_eq]
  have hsize : nSize % 2 ^ 32 * 2 ^ 24 % 2 ^ 32 = nSize % 256 * 2 ^ 24 := by omega
  rw [hsize, Nat.mod_eq_of_lt (a := b₀.toNat * 2 ^ 16) (by omega),
    Nat.mod_eq_of_lt (a := b₁.toNat * 2 ^ 8) (by omega), shiftLeft_or _ _ 24 (by omega)]
  have h16 : ∀ a b : Nat, a * 2 ^ 24 + b * 2 ^ 16 = (a * 2 ^ 8 + b) * 2 ^ 16 := by
    intro a b
    ring
  have h8 : ∀ a b c : Nat, (a * 2 ^ 8 + b) * 2 ^ 16 + c * 2 ^ 8 =
      (a * 2 ^ 16 + b * 2 ^ 8 + c) * 2 ^ 8 := by
    intro a b c
    ring
  rw [h16, shiftLeft_or _ _ 16 (by omega), h8, shiftLeft_or _ _ 8 (by omega)]

theorem toNat_byte (n : UInt32) (i : UInt32) (hi : i.toNat < 32) :
    (((n >>> i) &&& 0xff).toUInt8).toNat = n.toNat / 2 ^ i.toNat % 256 := by
  simp only [UInt32.toNat_toUInt8, UInt32.toNat_and, UInt32.toNat_shiftRight]
  show (n.toNat >>> (i.toNat % 32) &&& 2 ^ 8 - 1) % 2 ^ 8 = _
  rw [Nat.and_two_pow_sub_one_eq_mod, Nat.mod_mod, Nat.mod_eq_of_lt hi, Nat.shiftRight_eq_div_pow]

/-- Decoding a compact target that was put together from a size and three bytes. -/
theorem setCompact_compact (nSize : Nat) (b₀ b₁ b₂ : UInt8) :
    setCompact ((UInt32.ofNat nSize <<< 24) ||| (b₀.toUInt32 <<< 16) ||| (b₁.toUInt32 <<< 8) |||
      b₂.toUInt32) =
      mpi2bn (([b₀, b₁, b₂] ++ List.replicate (nSize % 256 - 3) 0).take (nSize % 256)) := by
  have h₀ := b₀.toNat_lt
  have h₁ := b₁.toNat_lt
  have h₂ := b₂.toNat_lt
  have hn := toNat_compact nSize b₀ b₁ b₂
  generalize (UInt32.ofNat nSize <<< 24) ||| (b₀.toUInt32 <<< 16) ||| (b₁.toUInt32 <<< 8) |||
    b₂.toUInt32 = nCompact at hn
  have hsize : (nCompact >>> 24).toNat = nSize % 256 := by
    rw [UInt32.toNat_shiftRight]
    show nCompact.toNat >>> 24 = _
    rw [Nat.shiftRight_eq_div_pow, hn]
    omega
  have hb₀ : ((nCompact >>> 16) &&& 0xff).toUInt8 = b₀ := by
    apply UInt8.toNat_inj.mp
    rw [toNat_byte _ _ (by decide), hn]
    show _ / 2 ^ 16 % 256 = _
    omega
  have hb₁ : ((nCompact >>> 8) &&& 0xff).toUInt8 = b₁ := by
    apply UInt8.toNat_inj.mp
    rw [toNat_byte _ _ (by decide), hn]
    show _ / 2 ^ 8 % 256 = _
    omega
  have hb₂ : (nCompact &&& 0xff).toUInt8 = b₂ := by
    apply UInt8.toNat_inj.mp
    have := toNat_byte nCompact 0 (by decide)
    rw [UInt32.shiftRight_zero] at this
    rw [this, hn]
    show _ / 2 ^ 0 % 256 = _
    omega
  unfold setCompact
  dsimp only
  rw [hsize, hb₀, hb₁, hb₂]

/-! ## Big-endian bytes -/

theorem bytesToNat_cons (b : UInt8) (bs : List UInt8) :
    bytesToNat (b :: bs) = b.toNat * 256 ^ bs.length + bytesToNat bs := by
  unfold bytesToNat
  rw [List.reverse_cons, List.map_append, Nat.ofDigits_append]
  simp [Nat.mul_comm, Nat.add_comm]

theorem bytesToNat_lt (bs : List UInt8) : bytesToNat bs < 256 ^ bs.length := by
  induction bs with
  | nil => decide
  | cons b bs ih =>
    rw [bytesToNat_cons, List.length_cons, Nat.pow_succ]
    have hb : b.toNat ≤ 255 := Nat.le_of_lt_succ b.toNat_lt
    have := Nat.mul_le_mul_right (256 ^ bs.length) hb
    omega

theorem bytesToNat_replicate (n : Nat) : bytesToNat (List.replicate n 0) = 0 := by
  induction n with
  | zero => rfl
  | succ n ih => rw [List.replicate_succ, bytesToNat_cons, ih]; simp

/-- The MPI body of a natural number has its value. -/
theorem bytesToNat_bn2mpi (n : Nat) : bytesToNat (bn2mpi n) = n := vchValue_getvch n

/-- What the sign bit does to every byte. -/
theorem signBit_nat : ∀ n < 256, (n &&& 128 = 0 ↔ n < 128) ∧ (n ||| 128) &&& 128 ≠ 0 ∧
    (n < 128 → (n ||| 128) &&& 127 = n) := by
  decide +kernel

theorem and_80_eq_zero_iff (b : UInt8) : b &&& 0x80 = 0 ↔ b.toNat < 128 := by
  rw [← (signBit_nat _ b.toNat_lt).1, ← UInt8.toNat_inj, UInt8.toNat_and]
  rfl

/-- How many bytes the MPI body takes. -/
def mpiSize (n : Nat) : Nat := (bn2mpi n).length

/-- The MPI body of a positive number is as short as its sign bit allows. -/
theorem bn2mpi_shape {n : Nat} (h : 0 < n) :
    ∃ b bs, bn2mpi n = b :: bs ∧ b.toNat < 128 ∧ 256 ^ bs.length ≤ 2 * n := by
  have hnn : ¬ ((n : Int) < 0) := by omega
  have hval := vchValue_natToBytes n
  unfold bn2mpi
  rw [Int.natAbs_natCast]
  cases hb : natToBytes n with
  | nil =>
    rw [hb] at hval
    rw [← hval] at h
    exact absurd h (by decide)
  | cons b bs =>
    rw [hb] at hval
    have hn : bytesToNat (b :: bs) = n := hval
    rw [bytesToNat_cons] at hn
    -- the first byte is not zero
    have hne : b.toNat ≠ 0 := by
      have hdigits : (Nat.digits 256 n) ≠ [] := Nat.digits_ne_nil_iff_ne_zero.mpr (by omega)
      have hlast := Nat.getLast_digit_ne_zero 256 (m := n) (by omega)
      have hlt := Nat.digits_lt_base (b := 256) (by decide) (List.getLast_mem hdigits)
      have hhead := congrArg List.head? hb
      unfold natToBytes at hhead
      rw [List.head?_map, List.head?_reverse, List.getLast?_eq_some_getLast hdigits] at hhead
      cases hhead
      rwa [UInt8.toNat_ofNat_of_lt' hlt]
    simp only [if_neg hnn]
    split
    · rename_i htop
      refine ⟨b, bs, rfl, (and_80_eq_zero_iff b).mp htop, ?_⟩
      have := Nat.mul_le_mul_right (256 ^ bs.length) (show 1 ≤ b.toNat by omega)
      omega
    · rename_i htop
      refine ⟨0, b :: bs, rfl, by decide, ?_⟩
      rw [and_80_eq_zero_iff] at htop
      have := Nat.mul_le_mul_right (256 ^ bs.length) (show 128 ≤ b.toNat by omega)
      rw [List.length_cons, Nat.pow_succ]
      omega

theorem mpiSize_bounds {n : Nat} (h : 0 < n) :
    0 < mpiSize n ∧ 256 ^ (mpiSize n - 1) ≤ 2 * n ∧ 2 * n < 256 ^ mpiSize n := by
  obtain ⟨b, bs, hb, hlt, hmin⟩ := bn2mpi_shape h
  have hn := bytesToNat_bn2mpi n
  rw [hb, bytesToNat_cons] at hn
  have hrest := bytesToNat_lt bs
  unfold mpiSize
  rw [hb, List.length_cons, Nat.add_sub_cancel, Nat.pow_succ]
  have := Nat.mul_le_mul_right (256 ^ bs.length) (show b.toNat ≤ 127 by omega)
  exact ⟨by omega, hmin, by omega⟩

theorem mpiSize_mono {m n : Nat} (h : m ≤ n) : mpiSize m ≤ mpiSize n := by
  rcases Nat.eq_zero_or_pos m with rfl | hm
  · exact Nat.zero_le _
  · obtain ⟨-, hlow, -⟩ := mpiSize_bounds hm
    obtain ⟨-, -, hhigh⟩ := mpiSize_bounds (Nat.lt_of_lt_of_le hm h)
    have hpow : 256 ^ (mpiSize m - 1) < 256 ^ mpiSize n := by omega
    have := (Nat.pow_lt_pow_iff_right (a := 256) (by decide)).mp hpow
    omega

/-! ## Rounding -/

/-- The unit of the last byte the compact form keeps. -/
def compactUnit (n : Nat) : Nat := 256 ^ (mpiSize n - 3)

/-- The number cut down to its first three bytes. -/
def compactFloor (n : Nat) : Nat := n / compactUnit n * compactUnit n

theorem compactUnit_pos (n : Nat) : 0 < compactUnit n := Nat.pow_pos (by decide)

theorem compactFloor_of_small {n : Nat} (h : mpiSize n ≤ 3) : compactFloor n = n := by
  unfold compactFloor compactUnit
  rw [Nat.sub_eq_zero_of_le h, Nat.pow_zero, Nat.div_one, Nat.mul_one]

theorem mpi2bn_of_nonneg {b : UInt8} (bs : List UInt8) (h : b.toNat < 128) :
    mpi2bn (b :: bs) = (bytesToNat (b :: bs) : Nat) := if_pos ((and_80_eq_zero_iff b).mpr h)

/-- **The compact form rounds toward zero.** -/
theorem setCompact_getCompact {n : Nat} (h : mpiSize n < 256) :
    setCompact (getCompact n) = (compactFloor n : Nat) := by
  rcases Nat.eq_zero_or_pos n with rfl | hn
  · rfl
  · obtain ⟨b, bs, hb, hlt, -⟩ := bn2mpi_shape hn
    have hval := bytesToNat_bn2mpi n
    have hsize : mpiSize n = bs.length + 1 := by
      unfold mpiSize
      rw [hb]; rfl
    unfold getCompact
    dsimp only
    rw [setCompact_compact, hb, List.length_cons, ← hsize, Nat.mod_eq_of_lt h, hsize]
    rw [hb] at hval
    match bs, hsize, hval with
    | [], hsize, hval =>
      rw [compactFloor_of_small (by rw [hsize]; simp), ← hval]
      exact mpi2bn_of_nonneg [] hlt
    | [c], hsize, hval =>
      rw [compactFloor_of_small (by rw [hsize]; simp), ← hval]
      exact mpi2bn_of_nonneg [c] hlt
    | c :: d :: rest, hsize, hval =>
      -- the three bytes are kept and the rest becomes zeros
      have hlead : (([(b :: c :: d :: rest).getD 0 0, (b :: c :: d :: rest).getD 1 0,
          (b :: c :: d :: rest).getD 2 0] ++
          List.replicate ((c :: d :: rest).length + 1 - 3) 0).take ((c :: d :: rest).length + 1)) =
          b :: c :: d :: List.replicate rest.length 0 := by
        rw [List.take_of_length_le (by simp)]
        rfl
      have hunit : compactUnit n = 256 ^ rest.length := by
        unfold compactUnit
        rw [hsize]; rfl
      rw [hlead, mpi2bn_of_nonneg _ hlt]
      unfold compactFloor
      rw [hunit]
      have hrest := bytesToNat_lt rest
      simp only [bytesToNat_cons, List.length_cons, List.length_replicate, bytesToNat_replicate,
        Nat.pow_succ] at hval ⊢
      generalize hu : 256 ^ rest.length = u at hval hrest ⊢
      have hn' : n = (b.toNat * 65536 + c.toNat * 256 + d.toNat) * u + bytesToNat rest := by
        rw [← hval]
        ring
      have hdiv : n / u = b.toNat * 65536 + c.toNat * 256 + d.toNat := by
        rw [hn', Nat.add_comm, Nat.add_mul_div_right _ _ (by omega), Nat.div_eq_of_lt hrest,
          Nat.zero_add]
      rw [hdiv]
      congr 1
      ring

theorem compactFloor_le (n : Nat) : compactFloor n ≤ n := Nat.div_mul_le_self n _

/-- A power of 256 below the number, three bytes or more. -/
theorem pow_le_compactFloor {n : Nat} (h : 0 < n) : 256 ^ (mpiSize n - 1) ≤ 2 * compactFloor n := by
  obtain ⟨hpos, hlow, -⟩ := mpiSize_bounds h
  rcases Nat.lt_or_ge (mpiSize n) 4 with hsmall | hlarge
  · -- nothing is cut off
    have hunit : compactUnit n = 1 := by
      unfold compactUnit
      rw [show mpiSize n - 3 = 0 from by omega]; rfl
    unfold compactFloor
    rw [hunit, Nat.div_one, Nat.mul_one]
    exact hlow
  · have hpow : 256 ^ (mpiSize n - 1) = 65536 * compactUnit n := by
      unfold compactUnit
      rw [show mpiSize n - 1 = 2 + (mpiSize n - 3) from by omega, Nat.pow_add]
    have hle : 32768 * compactUnit n ≤ n := by omega
    have := Nat.mul_le_mul_right (compactUnit n)
      ((Nat.le_div_iff_mul_le (compactUnit_pos n)).mpr hle)
    unfold compactFloor
    omega

theorem compactFloor_pos {n : Nat} (h : 0 < n) : 0 < compactFloor n := by
  have := pow_le_compactFloor h
  have : 0 < 256 ^ (mpiSize n - 1) := Nat.pow_pos (by decide)
  omega

/-- Rounding does not change the size. -/
theorem mpiSize_compactFloor (n : Nat) : mpiSize (compactFloor n) = mpiSize n := by
  rcases Nat.eq_zero_or_pos n with rfl | h
  · rfl
  · refine Nat.le_antisymm (mpiSize_mono (compactFloor_le n)) ?_
    obtain ⟨-, -, hhigh⟩ := mpiSize_bounds (compactFloor_pos h)
    have hlow := pow_le_compactFloor h
    have hpow : 256 ^ (mpiSize n - 1) < 256 ^ mpiSize (compactFloor n) := by omega
    have := (Nat.pow_lt_pow_iff_right (a := 256) (by decide)).mp hpow
    omega

theorem compactFloor_idem (n : Nat) : compactFloor (compactFloor n) = compactFloor n := by
  have hunit : compactUnit (compactFloor n) = compactUnit n := by
    unfold compactUnit
    rw [mpiSize_compactFloor]
  rw [compactFloor, hunit]
  unfold compactFloor
  rw [Nat.mul_div_cancel _ (compactUnit_pos n)]

/-- **Rounding is monotone**: a longer number stays above a shorter one. -/
theorem compactFloor_mono {m n : Nat} (h : m ≤ n) : compactFloor m ≤ compactFloor n := by
  rcases Nat.eq_zero_or_pos m with rfl | hm
  · exact Nat.le_trans (compactFloor_le 0) (Nat.zero_le _)
  · rcases Nat.lt_or_eq_of_le (mpiSize_mono h) with hlt | heq
    · obtain ⟨-, -, hhigh⟩ := mpiSize_bounds hm
      have hlow := pow_le_compactFloor (Nat.lt_of_lt_of_le hm h)
      have hpow := Nat.pow_le_pow_right (n := 256) (by decide) (show mpiSize m ≤ mpiSize n - 1 by omega)
      have := compactFloor_le m
      omega
    · have hunit : compactUnit m = compactUnit n := by
        unfold compactUnit
        rw [heq]
      unfold compactFloor
      rw [hunit]
      exact Nat.mul_le_mul_right _ (Nat.div_le_div_right h)

theorem mpi2bn_of_sign {b : UInt8} (bs : List UInt8) (h : b &&& 0x80 ≠ 0) : mpi2bn (b :: bs) ≤ 0 := by
  have : mpi2bn (b :: bs) = - (bytesToNat ((b &&& 0x7f) :: bs) : Int) := if_neg h
  omega

theorem or_80_and_80 (b : UInt8) : (b ||| 0x80) &&& 0x80 ≠ 0 := by
  rw [ne_eq, ← UInt8.toNat_inj, UInt8.toNat_and, UInt8.toNat_or]
  exact (signBit_nat _ b.toNat_lt).2.1

/-- What is not positive stays so. -/
theorem setCompact_getCompact_nonpos {x : Int} (h : x ≤ 0) : setCompact (getCompact x) ≤ 0 := by
  have hsign : ∀ b bs, bn2mpi x = b :: bs → b &&& 0x80 ≠ 0 := by
    intro b bs hb
    unfold bn2mpi at hb
    split at hb
    · cases hb
    · rename_i c cs hc
      have hneg : x < 0 := by
        rcases Int.lt_or_eq_of_le h with hneg | rfl
        · exact hneg
        · cases hc
      simp only [if_pos hneg] at hb
      split at hb
      · cases hb
        exact or_80_and_80 c
      · cases hb
        decide
  unfold getCompact
  dsimp only
  rw [setCompact_compact]
  cases hb : bn2mpi x with
  | nil => decide
  | cons b bs =>
    cases hn : (b :: bs).length % 256 with
    | zero => exact Int.le_refl 0
    | succ k => exact mpi2bn_of_sign _ (hsign b bs hb)

/-! ## The round trip -/

theorem bytesToNat_inj_of_length : ∀ {bs cs : List UInt8}, bs.length = cs.length →
    bytesToNat bs = bytesToNat cs → bs = cs
  | [], [], _, _ => rfl
  | b :: bs, c :: cs, hlen, h => by
    have hlen' : bs.length = cs.length := Nat.succ.inj hlen
    have hbs := bytesToNat_lt bs
    have hcs := bytesToNat_lt cs
    rw [bytesToNat_cons, bytesToNat_cons, ← hlen'] at h
    rw [← hlen'] at hcs
    have hpos : 0 < 256 ^ bs.length := Nat.pow_pos (by decide)
    have hhead : b.toNat = c.toNat := by
      have hdiv := congrArg (· / 256 ^ bs.length) h
      simp only [Nat.mul_comm _ (256 ^ bs.length), Nat.mul_add_div hpos, Nat.div_eq_of_lt hbs, Nat.div_eq_of_lt hcs,
        Nat.add_zero] at hdiv
      exact hdiv
    rw [hhead] at h
    rw [UInt8.toNat_inj.mp hhead, bytesToNat_inj_of_length hlen' (by omega)]

/-- The three bytes kept are those of the rounded number. -/
theorem bn2mpi_compactFloor {n : Nat} {b c d : UInt8} {rest : List UInt8} (h : bn2mpi n = b :: c :: d :: rest) :
    bn2mpi (compactFloor n) = b :: c :: d :: List.replicate rest.length 0 := by
  have hval := bytesToNat_bn2mpi n
  have hsize : mpiSize n = rest.length + 3 := by
    unfold mpiSize
    rw [h]
    rfl
  have hunit : compactUnit n = 256 ^ rest.length := by
    unfold compactUnit
    rw [hsize]
    rfl
  refine bytesToNat_inj_of_length ?_ ?_
  · show mpiSize (compactFloor n) = _
    rw [mpiSize_compactFloor, hsize]
    simp
  · rw [bytesToNat_bn2mpi, compactFloor, hunit]
    have hrest := bytesToNat_lt rest
    rw [h] at hval
    simp only [bytesToNat_cons, List.length_cons, List.length_replicate, bytesToNat_replicate, Nat.pow_succ] at hval ⊢
    generalize 256 ^ rest.length = u at hval hrest ⊢
    have hn : n = (b.toNat * 65536 + c.toNat * 256 + d.toNat) * u + bytesToNat rest := by
      rw [← hval]
      ring
    rw [hn, Nat.add_comm, Nat.add_mul_div_right _ _ (by omega), Nat.div_eq_of_lt hrest, Nat.zero_add]
    ring

theorem getCompact_compactFloor (n : Nat) : getCompact (compactFloor n) = getCompact n := by
  rcases Nat.lt_or_ge (mpiSize n) 4 with hsmall | hlarge
  · rw [compactFloor_of_small (by omega)]
  · unfold mpiSize at hlarge
    match h : bn2mpi n, hlarge with
    | b :: c :: d :: rest, _ =>
      unfold getCompact
      rw [bn2mpi_compactFloor h, h]
      simp only [List.length_cons, List.length_replicate]
      rfl

/-- A negative number has the digits of its magnitude, and the sign bit over the first. -/
theorem bn2mpi_neg {n : Nat} {b : UInt8} {bs : List UInt8} (h : 0 < n) (hb : bn2mpi n = b :: bs) :
    bn2mpi (-(n : Int)) = (b ||| 0x80) :: bs := by
  have hneg : -(n : Int) < 0 := by omega
  have hnn : ¬ ((n : Int) < 0) := by omega
  unfold bn2mpi at hb ⊢
  rw [Int.natAbs_neg, Int.natAbs_natCast] at *
  cases hdigits : natToBytes n with
  | nil => 
    rw [hdigits] at hb
    cases hb
  | cons c cs =>
    rw [hdigits] at hb
    simp only [if_neg hnn, if_pos hneg] at hb ⊢
    split at hb
    · cases hb
      rw [if_pos ‹_›]
    · cases hb
      rw [if_neg ‹_›]
      rfl

theorem or_80_and_7f {b : UInt8} (h : b.toNat < 128) : (b ||| 0x80) &&& 0x7f = b := by
  rw [← UInt8.toNat_inj, UInt8.toNat_and, UInt8.toNat_or]
  exact (signBit_nat _ b.toNat_lt).2.2 h

/-- The sign bit over the first byte turns the number it stands for around, and nothing else. -/
theorem setCompact_getCompact_neg {n : Nat} (h : 0 < n) (hsize : mpiSize n < 256) :
    setCompact (getCompact (-(n : Int))) = -(compactFloor n : Int) := by
  obtain ⟨b, bs, hb, hlt, -⟩ := bn2mpi_shape h
  have hfloor := setCompact_getCompact hsize
  have hlen : (b :: bs).length % 256 = bs.length + 1 := by
    unfold mpiSize at hsize
    rw [hb] at hsize
    exact Nat.mod_eq_of_lt hsize
  have hpos : (b &&& 0x80) = 0 := (and_80_eq_zero_iff b).mpr hlt
  unfold getCompact at hfloor ⊢
  rw [bn2mpi_neg h hb]
  rw [hb] at hfloor
  dsimp only at hfloor ⊢
  rw [setCompact_compact, hlen] at hfloor
  rw [setCompact_compact, List.length_cons, ← List.length_cons (a := b), hlen]
  show mpi2bn ((b ||| 0x80) :: _) = _
  replace hfloor : mpi2bn (b :: _) = _ := hfloor
  rw [mpi2bn, if_pos hpos] at hfloor
  rw [mpi2bn, if_neg (or_80_and_80 b), or_80_and_7f hlt, ← hfloor]
  rfl

theorem getCompact_neg_compactFloor {n : Nat} (hn : 0 < n) :
    getCompact (-(compactFloor n : Int)) = getCompact (-(n : Int)) := by
  rcases Nat.lt_or_ge (mpiSize n) 4 with hsmall | hlarge
  · rw [compactFloor_of_small (by omega)]
  · unfold mpiSize at hlarge
    match h : bn2mpi n, hlarge with
    | b :: c :: d :: rest, _ =>
      unfold getCompact
      rw [bn2mpi_neg (compactFloor_pos hn) (bn2mpi_compactFloor h), bn2mpi_neg hn h]
      simp only [List.length_cons, List.length_replicate]
      rfl

theorem getCompact_setCompact_getCompact {x : Int} (h : mpiSize x.natAbs < 256) :
    getCompact (setCompact (getCompact x)) = getCompact x := by
  rcases Int.lt_or_le 0 (-x) with hneg | hnn
  · obtain ⟨n, rfl⟩ : ∃ n : Nat, x = -(n : Int) := ⟨x.natAbs, by omega⟩
    rw [Int.natAbs_neg, Int.natAbs_natCast] at h
    have hn : 0 < n := by omega
    rw [setCompact_getCompact_neg hn h, getCompact_neg_compactFloor hn]
  · obtain ⟨n, rfl⟩ : ∃ n : Nat, x = n := ⟨x.natAbs, by omega⟩
    rw [Int.natAbs_natCast] at h
    rw [setCompact_getCompact h, getCompact_compactFloor]

theorem mpiSize_lt_of_lt {n : Nat} (h : n < 2 ^ 2032) : mpiSize n < 256 := by
  rcases Nat.eq_zero_or_pos n with rfl | hn
  · decide
  · obtain ⟨-, hlow, -⟩ := mpiSize_bounds hn
    have hpow : 256 ^ (mpiSize n - 1) < 256 ^ 255 :=
      Nat.lt_of_le_of_lt hlow (Nat.lt_of_lt_of_le (Nat.mul_lt_mul_of_pos_left h (by decide)) (by decide +kernel))
    have := (Nat.pow_lt_pow_iff_right (a := 256) (by decide)).mp hpow
    omega

theorem sub_compactFloor_le (n : Nat) : 2 ^ 15 * (n - compactFloor n) ≤ n := by
  rcases Nat.lt_or_ge (mpiSize n) 4 with hsmall | hlarge
  · rw [compactFloor_of_small (by omega)]
    omega
  · have hn : 0 < n := by
      rcases Nat.eq_zero_or_pos n with rfl | hn
      · exact absurd hlarge (by decide)
      · exact hn
    obtain ⟨-, hlow, -⟩ := mpiSize_bounds hn
    have hpow : 256 ^ (mpiSize n - 1) = 65536 * compactUnit n := by
      unfold compactUnit
      rw [show mpiSize n - 1 = 2 + (mpiSize n - 3) from by omega, Nat.pow_add]
    have hrest : n - compactFloor n < compactUnit n := by
      have := Nat.div_add_mod n (compactUnit n)
      have := Nat.mod_lt n (compactUnit_pos n)
      unfold compactFloor
      rw [Nat.mul_comm]
      omega
    omega

/-- **THE ROUND TRIP THROUGH A COMPACT TARGET** takes no sign and little else: the first 15 bits at least
    stay, the order stays, and a second trip changes nothing. -/
theorem setCompact_getCompact_round :
    (∀ x : Int, 0 ≤ x → x < 2 ^ 2032 →
      setCompact (getCompact x) ≤ x ∧ 2 ^ 15 * (x - setCompact (getCompact x)) ≤ x ∧
      0 ≤ setCompact (getCompact x) ∧ (0 < x → 0 < setCompact (getCompact x)) ∧
      setCompact (getCompact (setCompact (getCompact x))) = setCompact (getCompact x)) ∧
    (∀ x y : Int, 0 ≤ x → x ≤ y → y < 2 ^ 2032 → setCompact (getCompact x) ≤ setCompact (getCompact y)) ∧
    ∀ c ∈ getCompact '' { x : Int | |x| < 2 ^ 2032 }, getCompact (setCompact c) = c := by
  have hsize : ∀ x : Int, |x| < 2 ^ 2032 → mpiSize x.natAbs < 256 := by
    intro x hx
    rw [Int.abs_eq_natAbs] at hx
    exact mpiSize_lt_of_lt (by exact_mod_cast hx)
  have hfloor : ∀ n : Nat, (n : Int) < 2 ^ 2032 → setCompact (getCompact n) = (compactFloor n : Int) :=
    fun n hn => setCompact_getCompact (hsize n (by rwa [Nat.abs_cast]))
  refine ⟨?_, ?_, ?_⟩
  · intro x h0 hx
    lift x to Nat using h0
    have hle := compactFloor_le x
    have herr := sub_compactFloor_le x
    have hidem : ((compactFloor x : Nat) : Int) < 2 ^ 2032 := Int.lt_of_le_of_lt (by exact_mod_cast hle) hx
    rw [hfloor x hx, hfloor _ hidem, compactFloor_idem]
    refine ⟨by omega, by omega, by omega, ?_, rfl⟩
    intro hpos
    exact_mod_cast compactFloor_pos (by exact_mod_cast hpos)
  · intro x y h0 hxy hy
    lift x to Nat using h0
    lift y to Nat using (by omega)
    rw [hfloor x (Int.lt_of_le_of_lt hxy hy), hfloor y hy]
    exact_mod_cast compactFloor_mono (by exact_mod_cast hxy)
  · rintro c ⟨x, hx, rfl⟩
    exact getCompact_setCompact_getCompact (hsize x hx)

end Silkcoin
