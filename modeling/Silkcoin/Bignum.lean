/-
  `CBigNum`: arbitrary-precision integers and their byte forms.

  A `CBigNum` is an `Int`.  The class reaches its bytes through the MPI form of the bignum library:
  the magnitude, most significant byte first, with the sign in the top bit of the first byte (and
  one more byte in front where the magnitude needs that bit).  `mpi2bn` and `bn2mpi` are that form
  without its four-byte length; `setCompact`, `getCompact` and `getvch` are built on it the way
  `bignum.h` builds them.
-/
import Mathlib.Data.Nat.Digits.Defs
import Mathlib.Data.Nat.Digits.Lemmas

namespace Silkcoin

/-- A `uint256`: block and transaction hashes, and chain trust (addition wraps). -/
abbrev Uint256 := BitVec 256

/-! ## The MPI form -/

/-- The magnitude of big-endian bytes. -/
def bytesToNat (bytes : List UInt8) : Nat := Nat.ofDigits 256 (bytes.reverse.map UInt8.toNat)

/-- The integer of an MPI body: sign in the top bit of the first byte. -/
def mpi2bn : List UInt8 → Int
  | [] => 0
  | b :: bs =>
    if b &&& 0x80 = 0 then bytesToNat (b :: bs)
    else - (bytesToNat ((b &&& 0x7f) :: bs) : Int)

/-- The magnitude bytes of a natural number, most significant first, none for zero. -/
def natToBytes (n : Nat) : List UInt8 := (Nat.digits 256 n).reverse.map UInt8.ofNat

/-- The MPI body of an integer. -/
def bn2mpi (x : Int) : List UInt8 :=
  match natToBytes x.natAbs with
  | [] => []
  | b :: bs =>
    if b &&& 0x80 = 0 then (if x < 0 then b ||| 0x80 else b) :: bs
    else (if x < 0 then 0x80 else 0x00) :: b :: bs

/-- The little-endian form scripts use. -/
def getvch (x : Int) : List UInt8 := (bn2mpi x).reverse

/-! ## Compact targets -/

/-- The integer of a compact target: one byte of size, three bytes of leading digits. -/
def setCompact (nCompact : UInt32) : Int :=
  let nSize := (nCompact >>> 24).toNat
  let lead : List UInt8 :=
    [((nCompact >>> 16) &&& 0xff).toUInt8, ((nCompact >>> 8) &&& 0xff).toUInt8,
     (nCompact &&& 0xff).toUInt8]
  mpi2bn ((lead ++ List.replicate (nSize - 3) 0).take nSize)

/-- The compact form: the size and the first three bytes of the MPI body. -/
def getCompact (x : Int) : UInt32 :=
  let vch := bn2mpi x
  let byte (i : Nat) : UInt32 := (vch.getD i 0).toUInt32
  ((UInt32.ofNat vch.length) <<< 24) ||| (byte 0 <<< 16) ||| (byte 1 <<< 8) ||| byte 2

/-- The low 256 bits of the magnitude. -/
def getuint256 (x : Int) : Uint256 := BitVec.ofNat 256 x.natAbs

/-- The low 64 bits of the magnitude. -/
def getuint64 (x : Int) : Nat := x.natAbs % 2 ^ 64

example : setCompact 0x1e0fffff = 0xfffff * 256 ^ 27 := by decide
example : getCompact (setCompact 0x1e0fffff) = 0x1e0fffff := by decide
example : getvch 60000 = [0x60, 0xea, 0x00] := by decide

/-! ## The little-endian form of a natural number -/

/-- The value of little-endian bytes. -/
def vchValue (vch : List UInt8) : Nat := Nat.ofDigits 256 (vch.map UInt8.toNat)

theorem map_toNat_ofNat {ds : List Nat} (h : ∀ d ∈ ds, d < 256) :
    (ds.map UInt8.ofNat).map UInt8.toNat = ds := by
  rw [List.map_map]
  refine List.map_congr_left (g := id) ?_ |>.trans (List.map_id ds)
  intro d hd
  exact UInt8.toNat_ofNat_of_lt' (h d hd)

theorem map_ofNat_toNat (bytes : List UInt8) : (bytes.map UInt8.toNat).map UInt8.ofNat = bytes := by
  rw [List.map_map]
  refine List.map_congr_left (g := id) ?_ |>.trans (List.map_id bytes)
  intro b _
  exact UInt8.ofNat_toNat

theorem lt_of_mem_map_toNat {bytes : List UInt8} : ∀ d ∈ bytes.map UInt8.toNat, d < 256 := by
  intro d hd
  obtain ⟨b, -, rfl⟩ := List.mem_map.mp hd
  exact b.toNat_lt

theorem vchValue_natToBytes (n : Nat) : vchValue (natToBytes n).reverse = n := by
  unfold vchValue natToBytes
  rw [← List.map_reverse, List.reverse_reverse,
    map_toNat_ofNat (fun d hd => Nat.digits_lt_base (by decide) hd), Nat.ofDigits_digits]

/-- The sign byte, where there is one, is zero and does not change the value. -/
theorem vchValue_getvch (n : Nat) : vchValue (getvch n) = n := by
  have hval := vchValue_natToBytes n
  have hnn : ¬ ((n : Int) < 0) := by omega
  unfold getvch bn2mpi
  rw [Int.natAbs_natCast]
  cases hb : natToBytes n with
  | nil => rw [hb] at hval; exact hval
  | cons b bs =>
    rw [hb] at hval
    by_cases htop : b &&& 0x80 = 0
    · simp only [htop, if_true, if_neg hnn]
      exact hval
    · simp only [htop, if_false, if_neg hnn]
      rw [List.reverse_cons, vchValue, List.map_append, Nat.ofDigits_append]
      rw [vchValue] at hval
      simpa using hval

theorem getvch_injective {m n : Nat} (h : getvch m = getvch n) : m = n := by
  rw [← vchValue_getvch m, h, vchValue_getvch]

end Silkcoin
