/-
  BASE_UINT: unsigned numbers of 160 and 256 bits, in words of 32.

  The operators work word by word: an addition carries in 64 bits, a difference adds the complement plus one,
  `++` and `--` go on to the next word as long as one wraps, a shift puts each word into TWO words of the
  result, and the comparisons stop at the highest words that differ.  All of it is arithmetic modulo 2^BITS
  (`arithmetic_mod`).

  `GetHex` writes the bytes from the highest to the lowest, and `SetHex` reads digits from the LAST one, so the
  one undoes the other (`setHex_getHex`).
-/
import Silkcoin.Lib.CString
import Silkcoin.Lib.Words
import Mathlib.Algebra.Order.Ring.Int
import Mathlib.Data.BitVec
import Mathlib.Data.List.Induction

namespace Silkcoin

/-! ## Words -/

/-- `base_uint<BITS>` with `WIDTH = BITS / 32` words, the lowest first. -/
structure BaseUint (WIDTH : Nat) where
  pn : List (BitVec 32)
  size : pn.length = WIDTH
deriving DecidableEq

/-- `base_uint<160>` -/
abbrev BaseUint160 := BaseUint 5

/-- `base_uint<256>` -/
abbrev BaseUint256 := BaseUint 8

namespace BaseUint

variable {WIDTH : Nat}

/-- The number denoted. -/
def toNat (a : BaseUint WIDTH) : Nat := Words.value a.pn

def zero : BaseUint WIDTH := ⟨List.replicate WIDTH 0, List.length_replicate⟩

/-! ## The arithmetic operators -/

/-- The loop of `+=`, with its carry. -/
def addWords (carry : BitVec 64) : List (BitVec 32) → List (BitVec 32) → List (BitVec 32)
  | x :: xs, y :: ys =>
    let n := carry + x.setWidth 64 + y.setWidth 64
    (n &&& 0xffffffff).setWidth 32 :: addWords (n >>> 32) xs ys
  | _, _ => []

theorem length_addWords (carry : BitVec 64) (xs ys : List (BitVec 32)) (h : xs.length = ys.length) :
    (addWords carry xs ys).length = xs.length := by
  induction xs generalizing carry ys with
  | nil => rfl
  | cons x xs ih =>
    cases ys with
    | nil => cases h
    | cons y ys => exact congrArg (· + 1) (ih _ ys (Nat.succ.inj h))

/-- `while (++pn[i] == 0 && i < WIDTH-1) i++` -/
def incWords : List (BitVec 32) → List (BitVec 32)
  | [] => []
  | x :: xs => (x + 1) :: if x + 1 = 0 then incWords xs else xs

theorem length_incWords (xs : List (BitVec 32)) : (incWords xs).length = xs.length := by
  induction xs with
  | nil => rfl
  | cons x xs ih =>
    rw [incWords, List.length_cons, List.length_cons]
    split
    · rw [ih]
    · rfl

/-- `while (--pn[i] == -1 && i < WIDTH-1) i++`: the `-1` is compared as an `unsigned int`. -/
def decWords : List (BitVec 32) → List (BitVec 32)
  | [] => []
  | x :: xs => (x - 1) :: if x - 1 = 0xffffffff then decWords xs else xs

theorem length_decWords (xs : List (BitVec 32)) : (decWords xs).length = xs.length := by
  induction xs with
  | nil => rfl
  | cons x xs ih =>
    rw [decWords, List.length_cons, List.length_cons]
    split
    · rw [ih]
    · rfl

def add (a b : BaseUint WIDTH) : BaseUint WIDTH :=
  ⟨addWords 0 a.pn b.pn, by rw [length_addWords 0 a.pn b.pn (a.size.trans b.size.symm), a.size]⟩

/-- `operator++`; the postfix form returns the value before. -/
def increment (a : BaseUint WIDTH) : BaseUint WIDTH := ⟨incWords a.pn, (length_incWords a.pn).trans a.size⟩

/-- `operator--` -/
def decrement (a : BaseUint WIDTH) : BaseUint WIDTH := ⟨decWords a.pn, (length_decWords a.pn).trans a.size⟩

/-- `operator~` -/
def complement (a : BaseUint WIDTH) : BaseUint WIDTH :=
  ⟨a.pn.map fun x => ~~~x, (List.length_map _).trans a.size⟩

/-- `operator-()` -/
def neg (a : BaseUint WIDTH) : BaseUint WIDTH := a.complement.increment

/-- `*this += -b` -/
def sub (a b : BaseUint WIDTH) : BaseUint WIDTH := a.add b.neg

/-! ## The shifts -/

/-- The body of the loop of `<<=`: word `i` of `a` goes into words `i + k` and `i + k + 1`. -/
def shlWord (a : List (BitVec 32)) (k shift : Nat) (pn : List (BitVec 32)) (i : Nat) : List (BitVec 32) :=
  let pn := if i + k + 1 < a.length ∧ shift ≠ 0 then
      pn.modify (i + k + 1) (· ||| Words.word a i >>> (32 - shift)) else pn
  if i + k < a.length then pn.modify (i + k) (· ||| Words.word a i <<< shift) else pn

/-- The body of the loop of `>>=`: word `i` of `a` goes into words `i - k` and `i - k - 1`. -/
def shrWord (a : List (BitVec 32)) (k shift : Nat) (pn : List (BitVec 32)) (i : Nat) : List (BitVec 32) :=
  let pn := if k + 1 ≤ i ∧ shift ≠ 0 then
      pn.modify (i - k - 1) (· ||| Words.word a i <<< (32 - shift)) else pn
  if k ≤ i then pn.modify (i - k) (· ||| Words.word a i >>> shift) else pn

theorem length_shlWord (a : List (BitVec 32)) (k shift : Nat) (pn : List (BitVec 32)) (i : Nat) :
    (shlWord a k shift pn i).length = pn.length := by
  unfold shlWord
  dsimp only
  split <;> split <;> simp

theorem length_shrWord (a : List (BitVec 32)) (k shift : Nat) (pn : List (BitVec 32)) (i : Nat) :
    (shrWord a k shift pn i).length = pn.length := by
  unfold shrWord
  dsimp only
  split <;> split <;> simp

/-- The first `n` rounds of the loop of `<<=`. -/
def shlLoop (a : List (BitVec 32)) (k shift n : Nat) : List (BitVec 32) :=
  (List.range n).foldl (shlWord a k shift) (List.replicate a.length 0)

/-- The first `n` rounds of the loop of `>>=`. -/
def shrLoop (a : List (BitVec 32)) (k shift n : Nat) : List (BitVec 32) :=
  (List.range n).foldl (shrWord a k shift) (List.replicate a.length 0)

theorem shlLoop_succ (a : List (BitVec 32)) (k shift n : Nat) :
    shlLoop a k shift (n + 1) = shlWord a k shift (shlLoop a k shift n) n := by
  simp [shlLoop, List.range_succ]

theorem shrLoop_succ (a : List (BitVec 32)) (k shift n : Nat) :
    shrLoop a k shift (n + 1) = shrWord a k shift (shrLoop a k shift n) n := by
  simp [shrLoop, List.range_succ]

theorem length_shlLoop (a : List (BitVec 32)) (k shift n : Nat) : (shlLoop a k shift n).length = a.length := by
  induction n with
  | zero => simp [shlLoop]
  | succ n ih => rw [shlLoop_succ, length_shlWord, ih]

theorem length_shrLoop (a : List (BitVec 32)) (k shift n : Nat) : (shrLoop a k shift n).length = a.length := by
  induction n with
  | zero => simp [shrLoop]
  | succ n ih => rw [shrLoop_succ, length_shrWord, ih]

/-- `operator<<=` -/
def shiftLeft (a : BaseUint WIDTH) (shift : BitVec 32) : BaseUint WIDTH :=
  ⟨shlLoop a.pn (shift.toNat / 32) (shift.toNat % 32) WIDTH, (length_shlLoop _ _ _ _).trans a.size⟩

/-- `operator>>=` -/
def shiftRight (a : BaseUint WIDTH) (shift : BitVec 32) : BaseUint WIDTH :=
  ⟨shrLoop a.pn (shift.toNat / 32) (shift.toNat % 32) WIDTH, (length_shrLoop _ _ _ _).trans a.size⟩

/-! ## The comparisons -/

/-- The loop of the orders, from the highest word: the first two words that differ decide, as `first` says of
    them; `same` is for none. -/
def compareWords (first : BitVec 32 → BitVec 32 → Bool) (same : Bool) :
    List (BitVec 32) → List (BitVec 32) → Bool
  | x :: xs, y :: ys =>
    if first x y then true else if first y x then false else compareWords first same xs ys
  | _, _ => same

/-- `operator<` -/
def lt (a b : BaseUint WIDTH) : Bool := compareWords (fun x y => x < y) false a.pn.reverse b.pn.reverse

/-- `operator<=` -/
def le (a b : BaseUint WIDTH) : Bool := compareWords (fun x y => x < y) true a.pn.reverse b.pn.reverse

/-- `operator>` -/
def gt (a b : BaseUint WIDTH) : Bool := compareWords (fun x y => x > y) false a.pn.reverse b.pn.reverse

/-- `operator>=` -/
def ge (a b : BaseUint WIDTH) : Bool := compareWords (fun x y => x > y) true a.pn.reverse b.pn.reverse

/-- The loop of `operator==`, from the lowest word. -/
def sameWords : List (BitVec 32) → List (BitVec 32) → Bool
  | x :: xs, y :: ys => if x ≠ y then false else sameWords xs ys
  | _, _ => true

/-- `operator==` -/
def eq (a b : BaseUint WIDTH) : Bool := sameWords a.pn b.pn

/-- `operator!=` -/
def ne (a b : BaseUint WIDTH) : Bool := !a.eq b

/-! ## Hexadecimal text -/

/-- The bytes of a word in memory. -/
def leBytes (x : BitVec 32) : List (BitVec 8) :=
  [x.extractLsb' 0 8, x.extractLsb' 8 8, x.extractLsb' 16 8, x.extractLsb' 24 8]

/-- The words that four bytes each make. -/
def leWords : List (BitVec 8) → List (BitVec 32)
  | b :: c :: d :: e :: bytes => (e ++ d ++ c ++ b) :: leWords bytes
  | _ => []

/-- A digit of `%02x`. -/
def hexDigit (d : BitVec 4) : UInt8 := if d.toNat < 10 then 48 + UInt8.ofNat d.toNat else 87 + UInt8.ofNat d.toNat

/-- `%02x` -/
def hexByte (b : BitVec 8) : List UInt8 := [hexDigit (b.extractLsb' 4 4), hexDigit (b.extractLsb' 0 4)]

def getHex (a : BaseUint WIDTH) : List UInt8 := (a.pn.flatMap leBytes).reverse.flatMap hexByte

/-- `isspace`: tab to carriage return, and the blank. -/
def isSpace (c : UInt8) : Bool := (9 ≤ c && c ≤ 13) || c == 32

def tolower (c : UInt8) : UInt8 := if 65 ≤ c ∧ c ≤ 90 then c + 32 else c

/-- The table `phexdigit`, zero for all that is no digit. -/
def phexdigit (c : UInt8) : BitVec 8 :=
  if 48 ≤ c ∧ c ≤ 57 then (c - 48).toBitVec
  else if 65 ≤ c ∧ c ≤ 70 then (c - 55).toBitVec
  else if 97 ≤ c ∧ c ≤ 102 then (c - 87).toBitVec
  else 0

/-- `psz` after spaces and a `0x`. -/
def skipPrefix (psz : List UInt8) : List UInt8 :=
  match psz.dropWhile isSpace with
  | c :: d :: rest => if c = 48 ∧ tolower d = 120 then rest else c :: d :: rest
  | psz => psz

/-- The loop that fills `room` bytes with digits, given from the last one. -/
def fillBytes : Nat → List UInt8 → List (BitVec 8)
  | 0, _ => []
  | room + 1, [] => 0 :: fillBytes room []
  | room + 1, [c] => phexdigit c :: fillBytes room []
  | room + 1, c :: d :: rest => (phexdigit c ||| phexdigit d <<< 4) :: fillBytes room rest

theorem length_fillBytes : ∀ (room : Nat) (psz : List UInt8), (fillBytes room psz).length = room
  | 0, _ => rfl
  | room + 1, [] => congrArg (· + 1) (length_fillBytes room [])
  | room + 1, [_] => congrArg (· + 1) (length_fillBytes room [])
  | room + 1, _ :: _ :: rest => congrArg (· + 1) (length_fillBytes room rest)

theorem length_leWords : ∀ (n : Nat) (bytes : List (BitVec 8)), bytes.length = 4 * n → (leWords bytes).length = n
  | 0, [], _ => rfl
  | n + 1, b :: c :: d :: e :: bytes, h => by
    have hlen : bytes.length = 4 * n := by
      simp only [List.length_cons] at h
      omega
    exact congrArg (· + 1) (length_leWords n bytes hlen)
  | 0, _ :: _, h => by simp at h
  | n + 1, [], h => by simp at h
  | n + 1, [_], h => by simp only [List.length_cons, List.length_nil] at h; omega
  | n + 1, [_, _], h => by simp only [List.length_cons, List.length_nil] at h; omega
  | n + 1, [_, _, _], h => by simp only [List.length_cons, List.length_nil] at h; omega

def setHex (psz : List UInt8) : BaseUint WIDTH :=
  let digits := (skipPrefix (CString.cStr psz)).takeWhile fun c => phexdigit c ≠ 0 || c == 48
  ⟨leWords (fillBytes (WIDTH * 4) digits.reverse),
    length_leWords WIDTH _ (by rw [length_fillBytes, Nat.mul_comm])⟩

/-! ## Sums and differences -/

/-- Both numbers and the carry are added, modulo what the words hold. -/
theorem value_addWords : ∀ {xs ys : List (BitVec 32)} {carry : BitVec 64}, xs.length = ys.length →
    carry.toNat ≤ 1 → Words.value (addWords carry xs ys) =
      (Words.value xs + Words.value ys + carry.toNat) % 2 ^ (32 * xs.length)
  | [], [], carry, _, _ => by simp [addWords, Words.value, Nat.mod_one]
  | [], _ :: _, _, hlen, _ => by cases hlen
  | _ :: _, [], _, hlen, _ => by cases hlen
  | x :: xs, y :: ys, carry, hlen, hcarry => by
    have hx := x.isLt
    have hy := y.isLt
    have hn : (carry + x.setWidth 64 + y.setWidth 64).toNat = x.toNat + y.toNat + carry.toNat := by
      simp only [BitVec.toNat_add, BitVec.toNat_setWidth]
      omega
    have hlow : (((carry + x.setWidth 64 + y.setWidth 64) &&& 0xffffffff).setWidth 32).toNat
        = (x.toNat + y.toNat + carry.toNat) % 2 ^ 32 := by
      have hmask : (0xffffffff : BitVec 64).toNat = 2 ^ 32 - 1 := rfl
      rw [BitVec.toNat_setWidth, BitVec.toNat_and, hn, hmask, Nat.and_two_pow_sub_one_eq_mod, Nat.mod_mod]
    have hhigh : ((carry + x.setWidth 64 + y.setWidth 64) >>> 32).toNat
        = (x.toNat + y.toNat + carry.toNat) / 2 ^ 32 := by
      rw [BitVec.toNat_ushiftRight, hn, Nat.shiftRight_eq_div_pow]
    have hle : ((carry + x.setWidth 64 + y.setWidth 64) >>> 32).toNat ≤ 1 := by
      rw [hhigh]
      omega
    have hsplit : x.toNat + 2 ^ 32 * Words.value xs + (y.toNat + 2 ^ 32 * Words.value ys) + carry.toNat
        = x.toNat + y.toNat + carry.toNat + 2 ^ 32 * (Words.value xs + Words.value ys) := by ring
    rw [addWords, Words.value, Words.value, Words.value, value_addWords (Nat.succ.inj hlen) hle, hlow, hhigh,
      List.length_cons, Words.pow_words, hsplit, Nat.mod_mul, Nat.add_mul_mod_self_left,
      Nat.add_mul_div_left _ _ (Nat.two_pow_pos 32), Nat.add_comm (_ / _)]

/-- The words wrap as one number. -/
theorem value_incWords : ∀ xs : List (BitVec 32),
    Words.value (incWords xs) = (Words.value xs + 1) % 2 ^ (32 * xs.length)
  | [] => by simp [incWords, Words.value]
  | x :: xs => by
    have hx := x.isLt
    have hxs := Words.value_lt xs
    have hsum : (x + 1).toNat = (x.toNat + 1) % 2 ^ 32 := by rw [BitVec.toNat_add]; rfl
    have hsplit : x.toNat + 2 ^ 32 * Words.value xs + 1 = x.toNat + 1 + 2 ^ 32 * Words.value xs := by ring
    rw [incWords, Words.value, Words.value, List.length_cons, Words.pow_words, hsplit, Nat.mod_mul,
      Nat.add_mul_mod_self_left, Nat.add_mul_div_left _ _ (Nat.two_pow_pos 32), hsum]
    by_cases hwrap : x + 1 = 0
    · -- this word wraps: the next is counted up
      have hlast : x.toNat + 1 = 2 ^ 32 := by
        have hzero := congrArg BitVec.toNat hwrap
        rw [hsum] at hzero
        have hmod : (x.toNat + 1) % 2 ^ 32 = 0 := hzero
        omega
      rw [if_pos hwrap, value_incWords xs, hlast, Nat.div_self (Nat.two_pow_pos 32), Nat.add_comm 1]
    · have hlt : x.toNat + 1 < 2 ^ 32 := by
        rcases Nat.lt_or_ge (x.toNat + 1) (2 ^ 32) with hlt | hge
        · exact hlt
        · have hmod : (x.toNat + 1) % 2 ^ 32 = 0 := by omega
          have hzero : (x + 1).toNat = (0 : BitVec 32).toNat := hsum.trans hmod
          exact absurd (BitVec.eq_of_toNat_eq hzero) hwrap
      rw [if_neg hwrap, Nat.div_eq_of_lt hlt, Nat.zero_add, Nat.mod_eq_of_lt hxs]

/-- Counting up undoes counting down. -/
theorem incWords_decWords (xs : List (BitVec 32)) : incWords (decWords xs) = xs := by
  induction xs with
  | nil => rfl
  | cons x xs ih =>
    rw [decWords, incWords, BitVec.sub_add_cancel]
    by_cases hwrap : x - 1 = 0xffffffff
    · have hzero : x = 0 := by
        rw [← BitVec.sub_add_cancel x 1, hwrap]
        rfl
      rw [if_pos hwrap, if_pos hzero, ih]
    · have hne : x ≠ 0 := by
        rintro rfl
        exact hwrap rfl
      rw [if_neg hwrap, if_neg hne]

/-- A number below the modulus is what any number congruent to it leaves. -/
theorem eq_emod {n M : Nat} {z q : Int} (hn : n < M) (hz : z = n + M * q) : (n : Int) = z % M := by
  have hlt : (n : Int) < M := by omega
  rw [hz, Int.add_mul_emod_self_left, Int.emod_eq_of_lt (Int.natCast_nonneg n) hlt]

theorem toNat_lt (a : BaseUint WIDTH) : a.toNat < 2 ^ (32 * WIDTH) := by
  have hlt := Words.value_lt a.pn
  rw [a.size] at hlt
  exact hlt

theorem toNat_add (a b : BaseUint WIDTH) : (a.add b).toNat = (a.toNat + b.toNat) % 2 ^ (32 * WIDTH) := by
  have hlen := a.size.trans b.size.symm
  have hval : Words.value (addWords 0 a.pn b.pn) =
      (Words.value a.pn + Words.value b.pn + 0) % 2 ^ (32 * a.pn.length) := value_addWords hlen (Nat.zero_le 1)
  rw [a.size] at hval
  exact hval

theorem toNat_increment (a : BaseUint WIDTH) : a.increment.toNat = (a.toNat + 1) % 2 ^ (32 * WIDTH) := by
  have hval := value_incWords a.pn
  rw [a.size] at hval
  exact hval

theorem toNat_decrement (a : BaseUint WIDTH) :
    (a.decrement.toNat : Int) = ((a.toNat : Int) - 1) % (2 ^ (32 * WIDTH) : Nat) := by
  have hback : a.decrement.increment.toNat = a.toNat := congrArg Words.value (incWords_decWords a.pn)
  rw [toNat_increment] at hback
  have hdiv := Nat.mod_add_div (a.decrement.toNat + 1) (2 ^ (32 * WIDTH))
  rw [hback] at hdiv
  refine @eq_emod _ _ _ (-(((a.decrement.toNat + 1) / 2 ^ (32 * WIDTH) : Nat) : Int)) (toNat_lt _) ?_
  have hcast := congrArg (fun n : Nat => (n : Int)) hdiv
  push_cast at hcast ⊢
  rw [Int.mul_neg]
  omega

theorem toNat_complement (a : BaseUint WIDTH) : a.complement.toNat + a.toNat + 1 = 2 ^ (32 * WIDTH) := by
  have hval := Words.value_not a.pn
  rw [a.size] at hval
  exact hval

theorem toNat_neg (a : BaseUint WIDTH) :
    a.neg.toNat = (2 ^ (32 * WIDTH) - a.toNat) % 2 ^ (32 * WIDTH) := by
  have hnot := toNat_complement a
  have hsum : a.complement.toNat + 1 = 2 ^ (32 * WIDTH) - a.toNat := by omega
  rw [neg, toNat_increment, hsum]

theorem intCast_neg (a : BaseUint WIDTH) : (a.neg.toNat : Int) = (-(a.toNat : Int)) % (2 ^ (32 * WIDTH) : Nat) := by
  have hlt := toNat_lt a
  rw [toNat_neg, Int.natCast_mod, Int.natCast_sub (Nat.le_of_lt hlt), sub_eq_neg_add, Int.add_emod_right]

theorem intCast_sub (a b : BaseUint WIDTH) :
    ((a.sub b).toNat : Int) = ((a.toNat : Int) - b.toNat) % (2 ^ (32 * WIDTH) : Nat) := by
  rw [sub, toNat_add, Int.natCast_mod, Int.natCast_add, intCast_neg, Int.add_emod_emod, ← sub_eq_add_neg]

/-! ## Shifts -/

/-- After `n` rounds, word `m` holds what of words `m - k` and `m - k - 1` was gone through. -/
theorem word_shlLoop (a : List (BitVec 32)) (k shift : Nat) {n : Nat} (hn : n ≤ a.length) {m : Nat}
    (hm : m < a.length) : Words.word (shlLoop a k shift n) m =
      (if k ≤ m ∧ m < n + k then Words.word a (m - k) <<< shift else 0) |||
      (if shift ≠ 0 ∧ k + 1 ≤ m ∧ m < n + k + 1 then Words.word a (m - k - 1) >>> (32 - shift) else 0) := by
  induction n with
  | zero =>
    have hlow : ¬(k ≤ m ∧ m < 0 + k) := by omega
    have hhigh : ¬(shift ≠ 0 ∧ k + 1 ≤ m ∧ m < 0 + k + 1) := by omega
    have hzero : Words.word (shlLoop a k shift 0) m = 0 := by
      simp [shlLoop, Words.word, List.getD_eq_getElem?_getD, hm]
    rw [hzero, if_neg hlow, if_neg hhigh]
    rfl
  | succ n ih =>
    have hlen := length_shlLoop a k shift n
    have hold := ih (by omega)
    rw [shlLoop_succ]
    unfold shlWord
    dsimp only
    grind [Words.word_modify, List.length_modify]

theorem word_shrLoop (a : List (BitVec 32)) (k shift : Nat) {n : Nat} (hn : n ≤ a.length) {m : Nat}
    (hm : m < a.length) : Words.word (shrLoop a k shift n) m =
      (if m + k < n then Words.word a (m + k) >>> shift else 0) |||
      (if shift ≠ 0 ∧ m + k + 1 < n then Words.word a (m + k + 1) <<< (32 - shift) else 0) := by
  induction n with
  | zero =>
    have hzero : Words.word (shrLoop a k shift 0) m = 0 := by
      simp [shrLoop, Words.word, List.getD_eq_getElem?_getD, hm]
    simp [hzero]
  | succ n ih =>
    have hlen := length_shrLoop a k shift n
    have hold := ih (by omega)
    rw [shrLoop_succ]
    unfold shrWord
    dsimp only
    grind [Words.word_modify, List.length_modify]

theorem getLsbD_ite (c : Prop) [Decidable c] (x : BitVec 32) (i : Nat) :
    (if c then x else 0).getLsbD i = (decide c && x.getLsbD i) := by
  split
  · rename_i h
    simp [h]
  · rename_i h
    simp [h]

theorem toNat_shiftLeft (a : BaseUint WIDTH) (shift : BitVec 32) :
    (a.shiftLeft shift).toNat = a.toNat * 2 ^ shift.toNat % 2 ^ (32 * WIDTH) := by
  apply Nat.eq_of_testBit_eq
  intro p
  have hshift : 32 * (shift.toNat / 32) + shift.toNat % 32 = shift.toNat := Nat.div_add_mod _ 32
  have hbound := a.size
  rw [Nat.testBit_mod_two_pow, Nat.testBit_mul_two_pow]
  unfold toNat
  rw [Words.testBit_value (by decide), Words.testBit_value (by decide)]
  by_cases hp : p < 32 * WIDTH
  · have hm : p / 32 < a.pn.length := by omega
    have hj : p % 32 < 32 := Nat.mod_lt p (by decide)
    have hword := word_shlLoop a.pn (shift.toNat / 32) (shift.toNat % 32) (Nat.le_of_eq a.size.symm) hm
    show (Words.word (shlLoop a.pn _ _ WIDTH) (p / 32)).getLsbD (p % 32) = _
    rw [hword, BitVec.getLsbD_or, getLsbD_ite, getLsbD_ite, BitVec.getLsbD_shiftLeft, BitVec.getLsbD_ushiftRight]
    by_cases hlow : shift.toNat ≤ p
    · by_cases hhere : shift.toNat % 32 ≤ p % 32
      · -- the bit comes from word `p / 32 - k`
        have hk : shift.toNat / 32 ≤ p / 32 ∧ p / 32 < WIDTH + shift.toNat / 32 := by omega
        have hdiv : (p - shift.toNat) / 32 = p / 32 - shift.toNat / 32 := by omega
        have hmod : (p - shift.toNat) % 32 = p % 32 - shift.toNat % 32 := by omega
        have hout : (Words.word a.pn (p / 32 - shift.toNat / 32 - 1)).getLsbD (32 - shift.toNat % 32 + p % 32)
            = false := BitVec.getLsbD_of_ge _ _ (by omega)
        rw [hdiv, hmod, hout]
        simp [hp, hlow, hj, hhere, hk]
      · -- and here from the word below it
        have hk : shift.toNat % 32 ≠ 0 ∧ shift.toNat / 32 + 1 ≤ p / 32
            ∧ p / 32 < WIDTH + shift.toNat / 32 + 1 := by omega
        have hdiv : (p - shift.toNat) / 32 = p / 32 - shift.toNat / 32 - 1 := by omega
        have hmod : (p - shift.toNat) % 32 = 32 - shift.toNat % 32 + p % 32 := by omega
        have hlt : p % 32 < shift.toNat % 32 := by omega
        rw [hdiv, hmod]
        simp [hp, hlow, hlt, hk]
    · have hfirst : ¬(shift.toNat / 32 ≤ p / 32 ∧ p / 32 < WIDTH + shift.toNat / 32
          ∧ ¬p % 32 < shift.toNat % 32) := by omega
      have hsecond : ¬(shift.toNat % 32 ≠ 0 ∧ shift.toNat / 32 + 1 ≤ p / 32
          ∧ p / 32 < WIDTH + shift.toNat / 32 + 1) := by omega
      rw [decide_eq_false hsecond]
      simp only [hlow, Bool.false_and, Bool.or_false, decide_false, Bool.and_false]
      rw [Bool.and_eq_false_iff]
      by_cases hlt : p % 32 < shift.toNat % 32
      · right
        simp [hlt]
      · left
        apply decide_eq_false
        rintro ⟨hge, hle⟩
        exact hfirst ⟨hge, hle, hlt⟩
  · have hlen : (a.shiftLeft shift).pn.length ≤ p / 32 := by
      rw [(a.shiftLeft shift).size]
      omega
    rw [Words.word_of_length_le hlen]
    simp [hp]

theorem toNat_shiftRight (a : BaseUint WIDTH) (shift : BitVec 32) :
    (a.shiftRight shift).toNat = a.toNat / 2 ^ shift.toNat := by
  rw [← Nat.shiftRight_eq_div_pow]
  apply Nat.eq_of_testBit_eq
  intro p
  have hshift : 32 * (shift.toNat / 32) + shift.toNat % 32 = shift.toNat := Nat.div_add_mod _ 32
  have hbound := a.size
  rw [Nat.testBit_shiftRight]
  unfold toNat
  rw [Words.testBit_value (by decide), Words.testBit_value (by decide)]
  by_cases hp : p < 32 * WIDTH
  · have hm : p / 32 < a.pn.length := by omega
    have hj : p % 32 < 32 := Nat.mod_lt p (by decide)
    have hword := word_shrLoop a.pn (shift.toNat / 32) (shift.toNat % 32) (Nat.le_of_eq a.size.symm) hm
    show (Words.word (shrLoop a.pn _ _ WIDTH) (p / 32)).getLsbD (p % 32) = _
    rw [hword, BitVec.getLsbD_or, getLsbD_ite, getLsbD_ite, BitVec.getLsbD_shiftLeft, BitVec.getLsbD_ushiftRight]
    -- a word that is not there is zero
    have hzero (m : Nat) (hm : ¬m < WIDTH) : Words.word a.pn m = 0 := Words.word_of_length_le (by omega)
    by_cases hhere : shift.toNat % 32 + p % 32 < 32
    · have hdiv : (shift.toNat + p) / 32 = p / 32 + shift.toNat / 32 := by omega
      have hmod : (shift.toNat + p) % 32 = shift.toNat % 32 + p % 32 := by omega
      have hlt : shift.toNat % 32 ≠ 0 → p % 32 < 32 - shift.toNat % 32 := by omega
      rw [hdiv, hmod]
      by_cases hin : p / 32 + shift.toNat / 32 < WIDTH
      · by_cases hs : shift.toNat % 32 = 0
        · simp [hin, hs]
        · simp [hin, hlt hs]
      · have hnext : ¬p / 32 + shift.toNat / 32 + 1 < WIDTH := by omega
        rw [hzero _ hin]
        simp [hnext]
    · have hdiv : (shift.toNat + p) / 32 = p / 32 + shift.toNat / 32 + 1 := by omega
      have hmod : (shift.toNat + p) % 32 = p % 32 - (32 - shift.toNat % 32) := by omega
      have hne : shift.toNat % 32 ≠ 0 := by omega
      have hge : ¬p % 32 < 32 - shift.toNat % 32 := by omega
      have hout : (Words.word a.pn (p / 32 + shift.toNat / 32)).getLsbD (shift.toNat % 32 + p % 32) = false :=
        BitVec.getLsbD_of_ge _ _ (by omega)
      rw [hdiv, hmod, hout]
      by_cases hin : p / 32 + shift.toNat / 32 + 1 < WIDTH
      · simp [hin, hne, hj, hge]
      · rw [hzero _ hin]
        simp [hin]
  · have hlen : (a.shiftRight shift).pn.length ≤ p / 32 := by
      rw [(a.shiftRight shift).size]
      omega
    rw [Words.word_of_length_le hlen, Words.word_of_length_le (by omega)]
    simp

/-- Shifted out altogether. -/
theorem toNat_shift_of_le (a : BaseUint WIDTH) {shift : BitVec 32} (h : 32 * WIDTH ≤ shift.toNat) :
    (a.shiftLeft shift).toNat = 0 ∧ (a.shiftRight shift).toNat = 0 := by
  constructor
  · rw [toNat_shiftLeft]
    exact Nat.mod_eq_zero_of_dvd (dvd_mul_of_dvd_right (Nat.pow_dvd_pow 2 h) _)
  · rw [toNat_shiftRight]
    exact Nat.div_eq_of_lt (Nat.lt_of_lt_of_le a.toNat_lt (Nat.pow_le_pow_right (by decide) h))

/-! ## Orders -/

theorem compareWords_swap (same : Bool) : ∀ xs ys : List (BitVec 32),
    compareWords (fun x y => x > y) same xs ys = compareWords (fun x y => x < y) same ys xs
  | [], [] => rfl
  | [], _ :: _ => rfl
  | _ :: _, [] => rfl
  | x :: xs, y :: ys => by rw [compareWords, compareWords, compareWords_swap same xs ys]

/-- The loop from the highest word compares the numbers. -/
theorem compareWords_reverse (same : Bool) (xs : List (BitVec 32)) : ∀ ys : List (BitVec 32),
    xs.length = ys.length → (compareWords (fun x y => x < y) same xs.reverse ys.reverse = true ↔
      Words.value xs < Words.value ys ∨ same = true ∧ Words.value xs = Words.value ys) := by
  induction xs using List.reverseRecOn with
  | nil =>
    intro ys hlen
    rw [List.length_eq_zero_iff.mp hlen.symm]
    simp [compareWords]
  | append_singleton xs x ih =>
    intro ys hlen
    induction ys using List.reverseRecOn with
    | nil => simp at hlen
    | append_singleton ys y _ =>
      have hlen' : xs.length = ys.length := by simpa using hlen
      have hih := ih ys hlen'
      rw [List.reverse_concat, List.reverse_concat, compareWords]
      by_cases hxy : x < y
      · have hlt := Words.value_concat_lt hlen' hxy
        simp [hxy, hlt]
      by_cases hyx : y < x
      · have hlt := Words.value_concat_lt hlen'.symm hyx
        have hnot : ¬Words.value (xs ++ [x]) < Words.value (ys ++ [y]) := by omega
        have hne : Words.value (xs ++ [x]) ≠ Words.value (ys ++ [y]) := by omega
        simp [hxy, hyx, hnot, hne]
      · have heq : x = y := BitVec.le_antisymm (BitVec.not_lt.mp hyx) (BitVec.not_lt.mp hxy)
        subst heq
        rw [if_neg (by simp), if_neg (by simp), hih, Words.value_concat_lt_iff hlen',
          Words.value_concat, Words.value_concat, hlen', Nat.add_right_cancel_iff]

theorem sameWords_iff : ∀ {xs ys : List (BitVec 32)}, xs.length = ys.length →
    (sameWords xs ys = true ↔ xs = ys)
  | [], [], _ => by simp [sameWords]
  | [], _ :: _, h => by cases h
  | _ :: _, [], h => by cases h
  | x :: xs, y :: ys, h => by
    have hih := sameWords_iff (Nat.succ.inj h)
    rw [sameWords]
    by_cases hxy : x = y
    · simp [hxy, hih]
    · simp [hxy]

theorem lt_iff (a b : BaseUint WIDTH) : a.lt b = true ↔ a.toNat < b.toNat := by
  have h := compareWords_reverse false a.pn b.pn (a.size.trans b.size.symm)
  simpa [lt, toNat] using h

theorem le_iff (a b : BaseUint WIDTH) : a.le b = true ↔ a.toNat ≤ b.toNat := by
  have h := compareWords_reverse true a.pn b.pn (a.size.trans b.size.symm)
  rw [le, h, Nat.le_iff_lt_or_eq]
  simp [toNat]

theorem gt_iff (a b : BaseUint WIDTH) : a.gt b = true ↔ a.toNat > b.toNat := by
  rw [gt, compareWords_swap]
  exact lt_iff b a

theorem ge_iff (a b : BaseUint WIDTH) : a.ge b = true ↔ a.toNat ≥ b.toNat := by
  rw [ge, compareWords_swap]
  exact le_iff b a

theorem eq_iff (a b : BaseUint WIDTH) : a.eq b = true ↔ a.toNat = b.toNat := by
  have hlen := a.size.trans b.size.symm
  rw [eq, sameWords_iff hlen]
  exact ⟨congrArg Words.value, Words.value_inj hlen⟩

theorem ne_iff (a b : BaseUint WIDTH) : a.ne b = true ↔ a.toNat ≠ b.toNat := by
  rw [ne, Bool.not_eq_true', ← Bool.not_eq_true, eq_iff]

/-! ## Text and back -/

/-- What `%02x` prints for a digit is no space, no `x`, not the end, and that digit for `phexdigit`. -/
theorem phexdigit_hexDigit (d : BitVec 4) : phexdigit (hexDigit d) = d.setWidth 8 ∧ hexDigit d ≠ 0
    ∧ isSpace (hexDigit d) = false ∧ tolower (hexDigit d) ≠ 120
    ∧ (phexdigit (hexDigit d) ≠ 0 || hexDigit d == 48) = true := by
  revert d
  decide

theorem byte_of_digits (b : BitVec 8) :
    (b.extractLsb' 0 4).setWidth 8 ||| (b.extractLsb' 4 4).setWidth 8 <<< 4 = b := by
  apply BitVec.eq_of_getLsbD_eq
  intro i hi
  simp only [BitVec.getLsbD_or, BitVec.getLsbD_setWidth, BitVec.getLsbD_extractLsb', BitVec.getLsbD_shiftLeft]
  by_cases hlow : i < 4
  · simp [hi, hlow]
  · have hhigh : i - 4 < 4 := by omega
    have hhigh8 : i - 4 < 8 := by omega
    have hback : 4 + (i - 4) = i := by omega
    simp [hi, hlow, hhigh, hhigh8, hback]

theorem word_of_bytes (x : BitVec 32) : x.extractLsb' 24 8 ++ x.extractLsb' 16 8 ++ x.extractLsb' 8 8
    ++ x.extractLsb' 0 8 = x := by
  apply BitVec.eq_of_getLsbD_eq
  intro i hi
  simp only [BitVec.getLsbD_append, BitVec.getLsbD_extractLsb']
  by_cases h0 : i < 8
  · simp [h0]
  by_cases h1 : i - 8 < 8
  · have hback : 8 + (i - 8) = i := by omega
    simp [h0, h1, hback]
  by_cases h2 : i - 8 - 8 < 8
  · have hback : 16 + (i - 8 - 8) = i := by omega
    simp [h0, h1, h2, hback]
  · have hback : 24 + (i - 8 - 8 - 8) = i := by omega
    have h3 : i - 8 - 8 - 8 < 8 := by omega
    simp [h0, h1, h2, h3, hback]

theorem leWords_leBytes (xs : List (BitVec 32)) : leWords (xs.flatMap leBytes) = xs := by
  induction xs with
  | nil => rfl
  | cons x xs ih =>
    rw [List.flatMap_cons, leBytes]
    show (x.extractLsb' 24 8 ++ x.extractLsb' 16 8 ++ x.extractLsb' 8 8 ++ x.extractLsb' 0 8)
      :: leWords (xs.flatMap leBytes) = x :: xs
    rw [word_of_bytes, ih]

theorem length_leBytes (xs : List (BitVec 32)) : (xs.flatMap leBytes).length = xs.length * 4 := by
  induction xs with
  | nil => rfl
  | cons x xs ih =>
    rw [List.flatMap_cons, List.length_append, ih, List.length_cons, leBytes]
    simp only [List.length_cons, List.length_nil]
    omega

/-- Two digits a byte, the higher one LAST when read from the end. -/
theorem reverse_hexBytes (bytes : List (BitVec 8)) : (bytes.reverse.flatMap hexByte).reverse =
    bytes.flatMap fun b => [hexDigit (b.extractLsb' 0 4), hexDigit (b.extractLsb' 4 4)] := by
  induction bytes with
  | nil => rfl
  | cons b bytes ih =>
    rw [List.reverse_cons, List.flatMap_append, List.reverse_append, ih, List.flatMap_cons]
    rfl

theorem fillBytes_digits (bytes : List (BitVec 8)) : fillBytes bytes.length
    (bytes.flatMap fun b => [hexDigit (b.extractLsb' 0 4), hexDigit (b.extractLsb' 4 4)]) = bytes := by
  induction bytes with
  | nil => rfl
  | cons b bytes ih =>
    rw [List.flatMap_cons, List.cons_append, List.cons_append, List.nil_append, List.length_cons, fillBytes, ih,
      (phexdigit_hexDigit _).1, (phexdigit_hexDigit _).1, byte_of_digits]

theorem mem_getHex {a : BaseUint WIDTH} {c : UInt8} (h : c ∈ a.getHex) : ∃ d, c = hexDigit d := by
  obtain ⟨b, -, hc⟩ := List.mem_flatMap.mp h
  rcases List.mem_cons.mp hc with rfl | hc
  · exact ⟨_, rfl⟩
  · exact ⟨_, List.mem_singleton.mp hc⟩

/-- Nothing is skipped in front of digits. -/
theorem skipPrefix_digits {psz : List UInt8} (h : ∀ c ∈ psz, ∃ d, c = hexDigit d) : skipPrefix psz = psz := by
  have hdrop : psz.dropWhile isSpace = psz := by
    cases psz with
    | nil => rfl
    | cons c psz =>
      obtain ⟨d, rfl⟩ := h c List.mem_cons_self
      exact List.dropWhile_cons_of_neg (by rw [(phexdigit_hexDigit d).2.2.1]; decide)
  unfold skipPrefix
  rw [hdrop]
  split
  · rename_i c c' rest
    obtain ⟨d, rfl⟩ := h c' (List.mem_cons_of_mem c List.mem_cons_self)
    rw [if_neg]
    rintro ⟨-, hx⟩
    exact (phexdigit_hexDigit d).2.2.2.1 hx
  · rfl

theorem setHex_getHex (a : BaseUint WIDTH) : setHex a.getHex = a := by
  have hdigits : ∀ c ∈ a.getHex, ∃ d, c = hexDigit d := fun c hc => mem_getHex hc
  have hc : CString.cStr a.getHex = a.getHex := by
    apply CString.cStr_eq_self
    intro c hc
    obtain ⟨d, rfl⟩ := hdigits c hc
    exact (phexdigit_hexDigit d).2.1
  have htake : (a.getHex.takeWhile fun c => phexdigit c ≠ 0 || c == 48) = a.getHex := by
    apply List.takeWhile_eq_self_iff.mpr
    intro c hc
    obtain ⟨d, rfl⟩ := hdigits c hc
    exact (phexdigit_hexDigit d).2.2.2.2
  have hwords : (setHex a.getHex : BaseUint WIDTH).pn = a.pn := by
    show leWords (fillBytes (WIDTH * 4) ((skipPrefix (CString.cStr a.getHex)).takeWhile _).reverse) = a.pn
    rw [hc, skipPrefix_digits hdigits, htake, getHex, reverse_hexBytes]
    have hlen := length_leBytes a.pn
    rw [a.size] at hlen
    rw [← hlen, fillBytes_digits, leWords_leBytes]
  cases a
  cases hset : (setHex _ : BaseUint WIDTH)
  simp_all

/-! ## All together -/

/-- The operators on numbers of `BITS = 32 * WIDTH` bits are ARITHMETIC modulo 2^BITS, and the text of a number
    is that number again. -/
theorem arithmetic_mod (a b : BaseUint WIDTH) (shift : BitVec 32) :
    let M : Nat := 2 ^ (32 * WIDTH)
    (a.add b).toNat = (a.toNat + b.toNat) % M
    ∧ ((a.sub b).toNat : Int) = ((a.toNat : Int) - b.toNat) % M
    ∧ (a.neg.toNat : Int) = (-(a.toNat : Int)) % M
    ∧ a.increment.toNat = (a.toNat + 1) % M
    ∧ (a.decrement.toNat : Int) = ((a.toNat : Int) - 1) % M
    ∧ (a.shiftLeft shift).toNat = a.toNat * 2 ^ shift.toNat % M
    ∧ (a.shiftRight shift).toNat = a.toNat / 2 ^ shift.toNat
    ∧ (32 * WIDTH ≤ shift.toNat → (a.shiftLeft shift).toNat = 0 ∧ (a.shiftRight shift).toNat = 0)
    ∧ ((a.lt b = true ↔ a.toNat < b.toNat) ∧ (a.le b = true ↔ a.toNat ≤ b.toNat)
      ∧ (a.gt b = true ↔ a.toNat > b.toNat) ∧ (a.ge b = true ↔ a.toNat ≥ b.toNat)
      ∧ (a.eq b = true ↔ a.toNat = b.toNat) ∧ (a.ne b = true ↔ a.toNat ≠ b.toNat))
    ∧ setHex a.getHex = a :=
  ⟨toNat_add a b, intCast_sub a b, intCast_neg a, toNat_increment a, toNat_decrement a, toNat_shiftLeft a shift,
    toNat_shiftRight a shift, toNat_shift_of_le a,
    ⟨lt_iff a b, le_iff a b, gt_iff a b, ge_iff a b, eq_iff a b, ne_iff a b⟩, setHex_getHex a⟩

end BaseUint

end Silkcoin
