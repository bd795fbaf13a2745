/-
  CBIGNUM and the machine types: conversions through the MPI form.

  `setint64`, `setuint64` and `setuint256` write that form by hand: a size of four bytes, then the magnitude
  from its first byte that is not zero, with one more byte in front where the top bit is taken by the
  magnitude.  All three run ONE loop over bytes (`mpiBytes`), and what it writes is what the library would
  write (`mpiBytes_eq`).  `getuint64` and `getuint256` clear the sign and copy from the last byte on.

  The form determines the integer (`mpi2bn_bn2mpi`) and no other form of it is shorter
  (`length_bn2mpi_le`).
-/
import Silkcoin.Compact
import Silkcoin.Lib.Codec

namespace Silkcoin

open Codec

namespace CBigNum

/-! ## The MPI form with its size -/

/-- `pch[0] = (nSize >> 24) & 0xff` and so on. -/
def sizeBytes (nSize : BitVec 32) : List UInt8 :=
  [⟨(nSize >>> 24).setWidth 8⟩, ⟨(nSize >>> 16).setWidth 8⟩, ⟨(nSize >>> 8).setWidth 8⟩, ⟨nSize.setWidth 8⟩]

/-- An MPI with this body; the size is an `unsigned int`. -/
def withSize (body : List UInt8) : List UInt8 := sizeBytes (BitVec.ofNat 32 body.length) ++ body

/-- `BN_mpi2bn` refuses a size that is not that of the body. -/
def bnMpi2bn (d : List UInt8) : Option Int :=
  if d.length < 4 then none
  else if bytesToNat (d.take 4) + 4 ≠ d.length then none
  else some (mpi2bn (d.drop 4))

/-- `BN_bn2mpi` -/
def bnBn2mpi (x : Int) : List UInt8 := withSize (bn2mpi x)

/-! ## Into a bignum -/

/-- The loop that skips leading zeros and puts the sign into the first byte. -/
def mpiBytes (fNegative : Bool) : Bool → List UInt8 → List UInt8
  | _, [] => []
  | fLeadingZeroes, c :: rest =>
    if fLeadingZeroes then
      if c = 0 then mpiBytes fNegative true rest
      else if c &&& 0x80 ≠ 0 then (if fNegative then 0x80 else 0) :: c :: mpiBytes fNegative false rest
      else (if fNegative then c ||| 0x80 else c) :: mpiBytes fNegative false rest
    else c :: mpiBytes fNegative false rest

/-- `c = (n >> 56) & 0xff; n <<= 8`, so many times. -/
def shiftOut : Nat → BitVec 64 → List UInt8
  | 0, _ => []
  | i + 1, n => ⟨(n >>> 56).setWidth 8⟩ :: shiftOut i (n <<< 8)

def setint64 (sn : BitVec 64) : Option Int :=
  let fNegative := sn.slt 0
  -- the minimum has no positive counterpart: one is added before and after
  let n := if fNegative then -(sn + 1) + 1 else sn
  bnMpi2bn (withSize (mpiBytes fNegative true (shiftOut 8 n)))

def setuint64 (n : BitVec 64) : Option Int := bnMpi2bn (withSize (mpiBytes false true (shiftOut 8 n)))

/-- The bytes of `n` in memory are read from the end. -/
def setuint256 (n : Uint256) : Option Int := bnMpi2bn (withSize (mpiBytes false true (toLE 32 n.toNat).reverse))

/-- The vector is turned around, behind its size. -/
def setvch (vch : List UInt8) : Option Int := bnMpi2bn (sizeBytes (BitVec.ofNat 32 vch.length) ++ vch.reverse)

/-! ## Out of a bignum -/

/-- The body is copied from its end to the `size` bytes of an integer in memory, without the sign. -/
def lowBytes (size : Nat) (x : Int) : List UInt8 :=
  let vch := bnBn2mpi x
  if vch.length < 4 then []
  else
    let vch := if vch.length > 4 then vch.modify 4 (· &&& 0x7f) else vch
    (vch.drop 4).reverse.take size

def getuint64 (x : Int) : BitVec 64 := BitVec.ofNat 64 (ofLE (lowBytes 8 x))

def getuint256 (x : Int) : Uint256 := BitVec.ofNat 256 (ofLE (lowBytes 32 x))

def getvch (x : Int) : List UInt8 :=
  let vch := bnBn2mpi x
  if vch.length ≤ 4 then [] else (vch.drop 4).reverse

/-! ## Sizes -/

theorem toNat_byteAt (nSize : BitVec 32) (k : Nat) :
    (⟨(nSize >>> k).setWidth 8⟩ : UInt8).toNat = nSize.toNat / 2 ^ k % 256 := by
  show ((nSize >>> k).setWidth 8).toNat = _
  rw [BitVec.toNat_setWidth, BitVec.toNat_ushiftRight, Nat.shiftRight_eq_div_pow]

theorem bytesToNat_sizeBytes (nSize : BitVec 32) : bytesToNat (sizeBytes nSize) = nSize.toNat := by
  have hlt := nSize.isLt
  have hlow : (⟨nSize.setWidth 8⟩ : UInt8).toNat = nSize.toNat % 256 := by
    show (nSize.setWidth 8).toNat = _
    rw [BitVec.toNat_setWidth]
  unfold sizeBytes
  rw [bytesToNat_cons, bytesToNat_cons, bytesToNat_cons, bytesToNat_cons, toNat_byteAt, toNat_byteAt,
    toNat_byteAt, hlow]
  have hnil : bytesToNat [] = 0 := rfl
  rw [hnil]
  simp only [List.length_cons, List.length_nil]
  omega

/-- A body whose size fits in the four bytes is read. -/
theorem bnMpi2bn_withSize {body : List UInt8} (h : body.length < 2 ^ 32) :
    bnMpi2bn (withSize body) = some (mpi2bn body) := by
  have hfour (n : BitVec 32) : (sizeBytes n).length = 4 := rfl
  have hlen : (withSize body).length = body.length + 4 := by
    rw [withSize, List.length_append, hfour, Nat.add_comm]
  have hsize : bytesToNat ((withSize body).take 4) = body.length := by
    rw [withSize, List.take_left' (hfour _), bytesToNat_sizeBytes, BitVec.toNat_ofNat, Nat.mod_eq_of_lt h]
  have hdrop : (withSize body).drop 4 = body := List.drop_left' (hfour _)
  unfold bnMpi2bn
  rw [if_neg (by omega), if_neg (by omega), hdrop]

theorem drop_bnBn2mpi (x : Int) : (bnBn2mpi x).drop 4 = bn2mpi x := rfl

theorem length_bnBn2mpi (x : Int) : (bnBn2mpi x).length = (bn2mpi x).length + 4 := by
  rw [bnBn2mpi, withSize, List.length_append, Nat.add_comm]
  rfl

/-! ## The form of an integer -/

/-- The form has the integer's value. -/
theorem mpi2bn_bn2mpi (x : Int) : mpi2bn (bn2mpi x) = x := by
  rcases Int.lt_trichotomy x 0 with hneg | rfl | hpos
  · obtain ⟨n, rfl⟩ : ∃ n : Nat, x = -(n : Int) := ⟨x.natAbs, by omega⟩
    have hn : 0 < n := by omega
    obtain ⟨b, bs, hb, hlt, -⟩ := bn2mpi_shape hn
    have hval := bytesToNat_bn2mpi n
    rw [bn2mpi_neg hn hb, mpi2bn, if_neg (or_80_and_80 b), or_80_and_7f hlt, ← hb, hval]
  · rfl
  · obtain ⟨n, rfl⟩ : ∃ n : Nat, x = n := ⟨x.toNat, by omega⟩
    obtain ⟨b, bs, hb, hlt, -⟩ := bn2mpi_shape (n := n) (by omega)
    have hval := bytesToNat_bn2mpi n
    rw [hb] at hval ⊢
    rw [mpi2bn, if_pos ((and_80_eq_zero_iff b).mpr hlt), hval]

/-- The sign takes no byte. -/
theorem length_bn2mpi (x : Int) : (bn2mpi x).length = mpiSize x.natAbs := by
  rcases lt_or_ge x 0 with hneg | hnn
  · obtain ⟨n, rfl⟩ : ∃ n : Nat, x = -(n : Int) := ⟨x.natAbs, by omega⟩
    have hn : 0 < n := by omega
    obtain ⟨b, bs, hb, -, -⟩ := bn2mpi_shape hn
    rw [bn2mpi_neg hn hb, Int.natAbs_neg, Int.natAbs_natCast, mpiSize, hb]
    rfl
  · obtain ⟨n, rfl⟩ : ∃ n : Nat, x = n := ⟨x.toNat, by omega⟩
    rfl

/-- A body holds a magnitude of one bit less than its bytes have. -/
theorem natAbs_mpi2bn_lt (b : UInt8) (bs : List UInt8) : 2 * (mpi2bn (b :: bs)).natAbs < 256 ^ (bs.length + 1) := by
  have hrest := bytesToNat_lt bs
  have hhalf (c : UInt8) (hc : c.toNat < 128) : 2 * bytesToNat (c :: bs) < 256 ^ (bs.length + 1) := by
    have hmul := Nat.mul_le_mul_right (256 ^ bs.length) (show c.toNat ≤ 127 by omega)
    rw [bytesToNat_cons, Nat.pow_succ]
    omega
  rw [mpi2bn]
  split
  · rename_i htop
    exact hhalf b ((and_80_eq_zero_iff b).mp htop)
  · rw [Int.natAbs_neg]
    apply hhalf
    rw [UInt8.toNat_and]
    exact Nat.lt_of_le_of_lt Nat.and_le_right (by decide)

/-- No form of an integer is SHORTER. -/
theorem length_bn2mpi_le (body : List UInt8) : (bn2mpi (mpi2bn body)).length ≤ body.length := by
  cases body with
  | nil => exact Nat.le_refl 0
  | cons b bs =>
    have hlt := natAbs_mpi2bn_lt b bs
    rw [length_bn2mpi, List.length_cons]
    rcases Nat.eq_zero_or_pos (mpi2bn (b :: bs)).natAbs with hzero | hpos
    · rw [hzero]
      exact Nat.zero_le _
    · obtain ⟨-, hmin, -⟩ := mpiSize_bounds hpos
      have hpow := (Nat.pow_lt_pow_iff_right (a := 256) (by decide)).mp (Nat.lt_of_le_of_lt hmin hlt)
      omega

/-! ## The loop over bytes -/

theorem mpiBytes_false (fNegative : Bool) (rest : List UInt8) : mpiBytes fNegative false rest = rest := by
  induction rest with
  | nil => rfl
  | cons c rest ih => rw [mpiBytes, if_neg Bool.false_ne_true, ih]

/-- Without its leading zeros, a number is its digits. -/
theorem natToBytes_bytesToNat {c : UInt8} (rest : List UInt8) (hc : c ≠ 0) :
    natToBytes (bytesToNat (c :: rest)) = c :: rest := by
  have hne : c.toNat ≠ 0 := fun h => hc (UInt8.toNat_inj.mp h)
  unfold natToBytes bytesToNat
  rw [Nat.digits_ofDigits 256 (by decide) _ lt_of_mem_map_toNat]
  · rw [← List.map_reverse, List.reverse_reverse, map_ofNat_toNat]
  · intro h
    simpa [List.reverse_cons] using hne

theorem bytesToNat_zero_cons (rest : List UInt8) : bytesToNat (0 :: rest) = bytesToNat rest := by
  rw [bytesToNat_cons, UInt8.toNat_zero, Nat.zero_mul, Nat.zero_add]

/-- What the loop writes is the form of the number, with the sign asked for. -/
theorem mpiBytes_eq (fNegative : Bool) (bytes : List UInt8) : mpiBytes fNegative true bytes =
    bn2mpi (if fNegative then -(bytesToNat bytes : Int) else bytesToNat bytes) := by
  induction bytes with
  | nil => cases fNegative <;> rfl
  | cons c rest ih =>
    rw [mpiBytes, if_pos rfl]
    by_cases hc : c = 0
    · rw [if_pos hc, ih, hc, bytesToNat_zero_cons]
    · have hdigits := natToBytes_bytesToNat rest hc
      have hpos : 0 < bytesToNat (c :: rest) := by
        rcases Nat.eq_zero_or_pos (bytesToNat (c :: rest)) with hzero | hpos
        · rw [hzero] at hdigits
          cases hdigits
        · exact hpos
      rw [if_neg hc, mpiBytes_false]
      unfold bn2mpi
      cases fNegative with
      | false =>
        have hnn : ¬((bytesToNat (c :: rest) : Int) < 0) := by omega
        simp [hdigits, hnn]
      | true =>
        simp [hdigits, hpos]

theorem length_shiftOut (i : Nat) (n : BitVec 64) : (shiftOut i n).length = i := by
  induction i generalizing n with
  | zero => rfl
  | succ i ih => rw [shiftOut, List.length_cons, ih]

/-- So many of the highest bytes, the highest first. -/
theorem bytesToNat_shiftOut {i : Nat} (hi : i ≤ 8) (n : BitVec 64) :
    bytesToNat (shiftOut i n) = n.toNat / 2 ^ (64 - 8 * i) := by
  induction i generalizing n with
  | zero =>
    rw [Nat.div_eq_of_lt n.isLt]
    rfl
  | succ i ih =>
    have hlt := n.isLt
    have htop : (⟨(n >>> 56).setWidth 8⟩ : UInt8).toNat = n.toNat / 2 ^ 56 := by
      show ((n >>> 56).setWidth 8).toNat = _
      rw [BitVec.toNat_setWidth, BitVec.toNat_ushiftRight, Nat.shiftRight_eq_div_pow]
      omega
    have hpow : 2 ^ 56 = 2 ^ (64 - 8 * (i + 1)) * 256 ^ i := by
      rw [show 256 = 2 ^ 8 from rfl, ← Nat.pow_mul, ← Nat.pow_add]
      congr 1
      omega
    have hpow' : 2 ^ (64 - 8 * i) = 256 * 2 ^ (64 - 8 * (i + 1)) := by
      rw [show 256 = 2 ^ 8 from rfl, ← Nat.pow_add]
      congr 1
      omega
    have hrest : (n <<< 8).toNat = 256 * (n.toNat % 2 ^ 56) := by
      rw [BitVec.toNat_shiftLeft, Nat.shiftLeft_eq]
      omega
    have hsplit : n.toNat = n.toNat % 2 ^ 56 + 2 ^ (64 - 8 * (i + 1)) * (256 ^ i * (n.toNat / 2 ^ 56)) := by
      rw [← Nat.mul_assoc, ← hpow]
      omega
    rw [shiftOut, bytesToNat_cons, htop, length_shiftOut, ih (by omega), hrest, hpow',
      Nat.mul_div_mul_left _ _ (by decide)]
    conv_rhs => rw [hsplit, Nat.add_mul_div_left _ _ (Nat.two_pow_pos _)]
    ring

/-- The bytes of a number in memory, backwards. -/
theorem bytesToNat_reverse (bytes : List UInt8) : bytesToNat bytes.reverse = ofLE bytes := by
  unfold bytesToNat
  rw [List.reverse_reverse]
  induction bytes with
  | nil => rfl
  | cons b bytes ih => rw [List.map_cons, Nat.ofDigits_cons, ih, ofLE]

/-- The loop over at most 32 bytes and what `BN_mpi2bn` makes of it. -/
theorem bnMpi2bn_mpiBytes (fNegative : Bool) {bytes : List UInt8} (h : bytes.length ≤ 32) :
    bnMpi2bn (withSize (mpiBytes fNegative true bytes)) =
      some (if fNegative then -(bytesToNat bytes : Int) else bytesToNat bytes) := by
  have hlen (bytes : List UInt8) : (mpiBytes fNegative true bytes).length ≤ bytes.length + 1 := by
    induction bytes with
    | nil => exact Nat.zero_le _
    | cons c rest ih =>
      rw [mpiBytes, if_pos rfl, mpiBytes_false, List.length_cons]
      split
      · omega
      · split <;> simp
  have hshort := hlen bytes
  rw [bnMpi2bn_withSize (by omega), mpiBytes_eq, mpi2bn_bn2mpi]

/-! ## The conversions -/

theorem setint64_eq (sn : BitVec 64) : setint64 sn = some sn.toInt := by
  unfold setint64
  dsimp only
  rw [bnMpi2bn_mpiBytes _ (by rw [length_shiftOut]; decide), bytesToNat_shiftOut (Nat.le_refl 8)]
  have hlt := sn.isLt
  have hint := BitVec.toInt_eq_toNat_cond sn
  by_cases hneg : sn.slt 0 = true
  · have hsub : -(sn + 1) + 1 = -sn := by rw [BitVec.neg_add, BitVec.sub_add_cancel]
    have hbelow : sn.toInt < 0 := by simpa [BitVec.slt] using hneg
    have habs : (-sn).toNat = 2 ^ 64 - sn.toNat := by
      rw [BitVec.toNat_neg]
      omega
    rw [if_pos hneg, if_pos hneg, hsub, habs]
    congr 1
    omega
  · have hnn : ¬sn.toInt < 0 := by simpa [BitVec.slt] using hneg
    rw [if_neg hneg, if_neg hneg]
    congr 1
    omega

theorem setuint64_eq (n : BitVec 64) : setuint64 n = some (n.toNat : Int) := by
  unfold setuint64
  rw [bnMpi2bn_mpiBytes _ (by rw [length_shiftOut]; decide), bytesToNat_shiftOut (Nat.le_refl 8)]
  show some ((n.toNat / 1 : Nat) : Int) = some (n.toNat : Int)
  rw [Nat.div_one]

theorem setuint256_eq (n : Uint256) : setuint256 n = some (n.toNat : Int) := by
  have hlt : n.toNat < 256 ^ 32 := n.isLt
  unfold setuint256
  rw [bnMpi2bn_mpiBytes _ (by rw [List.length_reverse, length_toLE]), bytesToNat_reverse, ofLE_toLE hlt]
  rfl

/-- Cut off after `k` bytes. -/
theorem ofLE_take (k : Nat) (bytes : List UInt8) : ofLE (bytes.take k) = ofLE bytes % 256 ^ k := by
  induction bytes generalizing k with
  | nil => rw [List.take_nil, ofLE, Nat.zero_mod]
  | cons b bytes ih =>
    cases k with
    | zero => rw [List.take_zero, Nat.pow_zero, Nat.mod_one, ofLE]
    | succ k =>
      have hb : b.toNat < 256 := b.toNat_lt
      rw [List.take_succ_cons, ofLE, ofLE, ih, Nat.pow_succ, Nat.mul_comm (256 ^ k), Nat.mod_mul,
        Nat.add_mul_mod_self_left, Nat.add_mul_div_left _ _ (by decide), Nat.mod_eq_of_lt hb,
        Nat.div_eq_of_lt hb, Nat.zero_add]

/-- With the sign cleared, the form of an integer is its magnitude. -/
theorem bytesToNat_clear (x : Int) : bytesToNat ((bn2mpi x).modify 0 (· &&& 0x7f)) = x.natAbs := by
  have hclear {b : UInt8} (h : b.toNat < 128) : b &&& 0x7f = b := by
    rw [← UInt8.toNat_inj, UInt8.toNat_and]
    exact Nat.and_two_pow_sub_one_of_lt_two_pow (n := 7) h
  rcases Int.lt_trichotomy x 0 with hneg | rfl | hpos
  · obtain ⟨n, rfl⟩ : ∃ n : Nat, x = -(n : Int) := ⟨x.natAbs, by omega⟩
    have hn : 0 < n := by omega
    obtain ⟨b, bs, hb, hlt, -⟩ := bn2mpi_shape hn
    have hval := bytesToNat_bn2mpi n
    rw [hb] at hval
    rw [bn2mpi_neg hn hb, List.modify_zero_cons, or_80_and_7f hlt, hval, Int.natAbs_neg, Int.natAbs_natCast]
  · rfl
  · obtain ⟨n, rfl⟩ : ∃ n : Nat, x = n := ⟨x.toNat, by omega⟩
    obtain ⟨b, bs, hb, hlt, -⟩ := bn2mpi_shape (n := n) (by omega)
    have hval := bytesToNat_bn2mpi n
    rw [hb] at hval ⊢
    rw [List.modify_zero_cons, hclear hlt, hval, Int.natAbs_natCast]

theorem ofLE_lowBytes (size : Nat) (x : Int) : ofLE (lowBytes size x) = x.natAbs % 256 ^ size := by
  have hlen := length_bnBn2mpi x
  have hdrop : ((bnBn2mpi x).modify 4 (· &&& 0x7f)).drop 4 = (bn2mpi x).modify 0 (· &&& 0x7f) := rfl
  unfold lowBytes
  dsimp only
  rw [if_neg (by omega)]
  split
  · rw [hdrop, ofLE_take, ← bytesToNat_reverse, List.reverse_reverse, bytesToNat_clear]
  · have hnil : bn2mpi x = [] := List.eq_nil_of_length_eq_zero (by omega)
    have hzero : x.natAbs = 0 := by
      rw [← bytesToNat_clear, hnil]
      rfl
    rw [drop_bnBn2mpi, hnil, hzero, Nat.zero_mod]
    simp [ofLE]

/-- The two readers give the magnitude, modulo what fits; so `Bignum.getuint64` and `getuint256` say. -/
theorem getuint_eq (x : Int) : (getuint64 x).toNat = Silkcoin.getuint64 x ∧ getuint256 x = Silkcoin.getuint256 x := by
  unfold getuint64 getuint256 Silkcoin.getuint64 Silkcoin.getuint256
  rw [ofLE_lowBytes, ofLE_lowBytes, BitVec.toNat_ofNat]
  refine ⟨Nat.mod_mod _ _, ?_⟩
  apply BitVec.eq_of_toNat_eq
  rw [BitVec.toNat_ofNat, BitVec.toNat_ofNat]
  exact Nat.mod_mod _ _

theorem getvch_eq (x : Int) : getvch x = Silkcoin.getvch x := by
  have hlen := length_bnBn2mpi x
  unfold getvch Silkcoin.getvch
  dsimp only
  split
  · rw [List.eq_nil_of_length_eq_zero (show (bn2mpi x).length = 0 by omega)]
    rfl
  · rw [drop_bnBn2mpi]

/-- A vector that is read as an integer is a form of it. -/
theorem setvch_eq_some {vch : List UInt8} {x : Int} (h : setvch vch = some x) : mpi2bn vch.reverse = x := by
  unfold setvch bnMpi2bn at h
  split at h
  · cases h
  split at h
  · cases h
  · exact Option.some.inj h

/-- **The conversions are EXACT.**  A `BIGNUM` counts its bytes in an `int`, so that the bound on the vector
    that `setvch` puts a size in front of holds of all there are. -/
theorem conversions_exact (sn n : BitVec 64) (h : Uint256) (x : Int) (vch : List UInt8) :
    setint64 sn = some sn.toInt ∧ setuint64 n = some (n.toNat : Int) ∧ setuint256 h = some (h.toNat : Int)
    ∧ (0 ≤ x → ((getuint64 x).toNat : Int) = x % 2 ^ 64 ∧ ((getuint256 x).toNat : Int) = x % 2 ^ 256)
    ∧ mpi2bn (getvch x).reverse = x ∧ ((getvch x).length < 2 ^ 32 → setvch (getvch x) = some x)
    ∧ (mpi2bn vch.reverse = x → (getvch x).length ≤ vch.length)
    ∧ (setvch vch = some x → (getvch x).length ≤ vch.length) := by
  have hvch : (getvch x).reverse = bn2mpi x := by rw [getvch_eq, Silkcoin.getvch, List.reverse_reverse]
  have hshort : mpi2bn vch.reverse = x → (getvch x).length ≤ vch.length := by
    intro hx
    have hle := length_bn2mpi_le vch.reverse
    rw [hx, ← hvch, List.length_reverse, List.length_reverse] at hle
    exact hle
  refine ⟨setint64_eq sn, setuint64_eq n, setuint256_eq h, ?_, ?_, ?_, hshort, fun hx => hshort (setvch_eq_some hx)⟩
  · intro hx
    obtain ⟨h64, h256⟩ := getuint_eq x
    rw [h64, h256, Silkcoin.getuint64, Silkcoin.getuint256, BitVec.toNat_ofNat]
    constructor
    · omega
    · omega
  · rw [hvch, mpi2bn_bn2mpi]
  · intro hlt
    have hsize : sizeBytes (BitVec.ofNat 32 (getvch x).length) ++ (getvch x).reverse
        = withSize (getvch x).reverse := by rw [withSize, List.length_reverse]
    rw [setvch, hsize, bnMpi2bn_withSize (by rw [List.length_reverse]; exact hlt), hvch, mpi2bn_bn2mpi]

example : setint64 0x8000000000000000 = some (-9223372036854775808) := by decide
example : getvch (-255) = [0xff, 0x80] := by decide

end CBigNum

end Silkcoin
