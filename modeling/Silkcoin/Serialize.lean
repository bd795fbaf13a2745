/-
  THE ENCODING of transactions and blocks: `IMPLEMENT_SERIALIZE` and the templates under it.

  The macro makes three routines of one list of fields: `GetSerializeSize`, `Serialize` and
  `Unserialize`.  Here they are written out, in this order, for every class, over the templates for
  numbers, byte vectors and vectors of objects of serialize.h.  A writer gives the bytes it appends; a
  reader takes them off a stream and fails where the source throws, at the end of the data or at a count
  over `MAX_SIZE`.  The readers of vectors take them in pieces, so that a count alone reserves no memory;
  how many objects go into one piece depends on their size in memory (`ObjectSizes`).

  `unserialize_lawful` of each class is the round trip, both ways: what is written is read, whatever
  follows; and what is read was written so, unless one of its counts was not in the shortest form, which
  the readers let pass.  `GetSerializeSize` is an `unsigned int`: it is the number of bytes written only
  up to `2^32` (`nSerSize_eq`), and a transaction of vectors that are not too long to be read may have
  more.
-/
import Silkcoin.Lib.Codec
import Silkcoin.Messages
import Silkcoin.Block

namespace Silkcoin

open Codec

/-! ## Compact sizes -/

def writeCompactSize (nSize : Nat) : List UInt8 :=
  if nSize < 253 then toLE 1 nSize
  else if nSize ≤ 0xffff then toLE 1 253 ++ toLE 2 nSize
  else if nSize ≤ 0xffffffff then toLE 1 254 ++ toLE 4 nSize
  else toLE 1 255 ++ toLE 8 nSize

/-- The bytes a count takes that starts with `chSize`. -/
def compactWidth (chSize : Nat) : Nat :=
  if chSize < 253 then 1 else if chSize = 253 then 3 else if chSize = 254 then 5 else 9

/-- The end of `ReadCompactSize`.  A count over `MAX_SIZE` throws; that it could have been shorter is
    only noted. -/
def checkCompactSize (chSize nSizeRet : Nat) : Reader Nat := fun s =>
  if nSizeRet > MAX_SIZE.toNat then none
  else some (nSizeRet, { s with
    canonical := s.canonical && decide (compactWidth chSize = getSizeOfCompactSize nSizeRet) })

def readCompactSize : Reader Nat := do
  let chSize ← readLE 1
  if chSize < 253 then checkCompactSize chSize chSize
  else if chSize = 253 then do
    let xSize ← readLE 2
    checkCompactSize chSize xSize
  else if chSize = 254 then do
    let xSize ← readLE 4
    checkCompactSize chSize xSize
  else do
    let xSize ← readLE 8
    checkCompactSize chSize xSize

theorem run_checkCompactSize {chSize n : Nat} (hn : n ≤ MAX_SIZE.toNat)
    (hwidth : compactWidth chSize = getSizeOfCompactSize n) (s : Stream) :
    (checkCompactSize chSize n).run s = some (n, s) := by
  show (if n > MAX_SIZE.toNat then none else some (n, _)) = _
  rw [if_neg (by omega), decide_eq_true hwidth, Bool.and_true]

theorem checkCompactSize_eq_some {chSize n m : Nat} {s s' : Stream}
    (h : (checkCompactSize chSize n).run s = some (m, s')) :
    m = n ∧ n ≤ MAX_SIZE.toNat ∧
      (s'.canonical = true → s' = s ∧ compactWidth chSize = getSizeOfCompactSize n) := by
  have h : (if n > MAX_SIZE.toNat then none else some (n, ({ s with
    canonical := s.canonical && decide (compactWidth chSize = getSizeOfCompactSize n) } : Stream))) =
      some (m, s') := h
  split at h
  · cases h
  · rename_i hn
    obtain ⟨rfl, rfl⟩ := Prod.mk.inj (Option.some.inj h)
    refine ⟨rfl, by omega, fun hc => ?_⟩
    obtain ⟨-, hwidth⟩ := Bool.and_eq_true_iff.mp hc
    refine ⟨?_, of_decide_eq_true hwidth⟩
    obtain ⟨bytes, canonical⟩ := s
    show (⟨bytes, canonical && decide _⟩ : Stream) = ⟨bytes, canonical⟩
    rw [hwidth, Bool.and_true]

/-- A count of `k` bytes behind its first byte. -/
theorem run_countBehind (chSize : Nat) {k n : Nat} (hchSize : chSize < 256) (hn : n ≤ MAX_SIZE.toNat)
    (hk : n < 256 ^ k) (hwidth : compactWidth chSize = getSizeOfCompactSize n) (rest : List UInt8)
    (c : Bool) (next : Nat → Reader Nat)
    (hnext : next chSize = (do let xSize ← readLE k; checkCompactSize chSize xSize)) :
    (readLE 1 >>= next).run ⟨(toLE 1 chSize ++ toLE k n) ++ rest, c⟩ = some (n, ⟨rest, c⟩) := by
  rw [List.append_assoc, (readLE_lawful 1).run_bind_put hchSize, hnext,
    (readLE_lawful k).run_bind_put hk, run_checkCompactSize hn hwidth]

theorem countBehind_eq_some {chSize k n : Nat} {s s₁ s' : Stream}
    (hfirst : (readLE 1).run s = some (chSize, s₁))
    (h : (do let xSize ← readLE k; checkCompactSize chSize xSize : Reader Nat).run s₁ = some (n, s')) :
    n ≤ MAX_SIZE.toNat ∧ (s'.canonical = true → s.canonical = true ∧
      s.bytes = toLE 1 chSize ++ toLE k n ++ s'.bytes ∧ compactWidth chSize = getSizeOfCompactSize n) := by
  obtain ⟨xSize, s₂, hx, hcheck⟩ := run_bind_eq_some.mp h
  obtain ⟨rfl, hn, hcanonical⟩ := checkCompactSize_eq_some hcheck
  refine ⟨hn, fun hc => ?_⟩
  obtain ⟨rfl, hwidth⟩ := hcanonical hc
  obtain ⟨hc₁, hbytes₁⟩ := (readLE_lawful k).put_get _ _ _ hx hc
  obtain ⟨hc₀, hbytes⟩ := (readLE_lawful 1).put_get _ _ _ hfirst hc₁
  refine ⟨hc₀, ?_, hwidth⟩
  rw [hbytes, hbytes₁, List.append_assoc]

/-- The form of a count by its size. -/
theorem writeCompactSize_cases (n : Nat) :
    (n < 253 ∧ getSizeOfCompactSize n = 1 ∧ writeCompactSize n = toLE 1 n) ∨
    (n < 256 ^ 2 ∧ getSizeOfCompactSize n = 3 ∧ writeCompactSize n = toLE 1 253 ++ toLE 2 n) ∨
    (n < 256 ^ 4 ∧ getSizeOfCompactSize n = 5 ∧ writeCompactSize n = toLE 1 254 ++ toLE 4 n) ∨
    (0xffffffff < n ∧ getSizeOfCompactSize n = 9 ∧ writeCompactSize n = toLE 1 255 ++ toLE 8 n) := by
  unfold getSizeOfCompactSize writeCompactSize
  by_cases h1 : n < 253
  · rw [if_pos h1, if_pos h1]
    exact Or.inl ⟨h1, rfl, rfl⟩
  rw [if_neg h1, if_neg h1]
  by_cases h2 : n ≤ 0xffff
  · rw [if_pos h2, if_pos h2]
    exact Or.inr (Or.inl ⟨by omega, rfl, rfl⟩)
  rw [if_neg h2, if_neg h2]
  by_cases h3 : n ≤ 0xffffffff
  · rw [if_pos h3, if_pos h3]
    exact Or.inr (Or.inr (Or.inl ⟨by omega, rfl, rfl⟩))
  rw [if_neg h3, if_neg h3]
  exact Or.inr (Or.inr (Or.inr ⟨by omega, rfl, rfl⟩))

/-- A count that was read and noted as shortest was written so. -/
theorem writeCompactSize_of_read {chSize k n : Nat} (hn : n ≤ MAX_SIZE.toNat)
    (hwidth : compactWidth chSize = getSizeOfCompactSize n)
    (hform : (chSize = 253 ∧ k = 2) ∨ (chSize = 254 ∧ k = 4) ∨ (253 ≤ chSize ∧ chSize ≠ 253 ∧ chSize ≠ 254)) :
    writeCompactSize n = toLE 1 chSize ++ toLE k n := by
  have hmax : MAX_SIZE.toNat = 33554432 := rfl
  have h253 : compactWidth 253 = 3 := rfl
  have h254 : compactWidth 254 = 5 := rfl
  have h255 : 253 ≤ chSize → chSize ≠ 253 → chSize ≠ 254 → compactWidth chSize = 9 := by
    intro h1 h2 h3
    rw [compactWidth, if_neg (by omega), if_neg h2, if_neg h3]
  rcases writeCompactSize_cases n with ⟨-, hsize, -⟩ | ⟨-, hsize, hw⟩ | ⟨-, hsize, hw⟩ | ⟨hbig, -⟩
  · rcases hform with ⟨rfl, -⟩ | ⟨rfl, -⟩ | ⟨h1, h2, h3⟩ <;> omega
  · rcases hform with ⟨rfl, rfl⟩ | ⟨rfl, -⟩ | ⟨h1, h2, h3⟩
    · exact hw
    · omega
    · have := h255 h1 h2 h3; omega
  · rcases hform with ⟨rfl, -⟩ | ⟨rfl, rfl⟩ | ⟨h1, h2, h3⟩
    · omega
    · exact hw
    · have := h255 h1 h2 h3; omega
  · omega

/-- Every count let pass is at most `MAX_SIZE`. -/
theorem readCompactSize_le {n : Nat} {s s' : Stream} (h : readCompactSize.run s = some (n, s')) :
    n ≤ MAX_SIZE.toNat := by
  obtain ⟨chSize, s₁, hfirst, h⟩ := run_bind_eq_some.mp h
  split at h
  · obtain ⟨rfl, hn, -⟩ := checkCompactSize_eq_some h
    exact hn
  split at h
  · exact (countBehind_eq_some hfirst h).1
  split at h
  · exact (countBehind_eq_some hfirst h).1
  · exact (countBehind_eq_some hfirst h).1

/-- Counts in their shortest form are read back, and a count in its shortest form was written so. -/
theorem readCompactSize_lawful :
    Lawful (fun n => n ≤ MAX_SIZE.toNat) writeCompactSize readCompactSize := by
  have hmax : MAX_SIZE.toNat = 33554432 := rfl
  refine ⟨?_, fun s n s' h => readCompactSize_le h, ?_⟩
  · intro n hn rest c
    rcases writeCompactSize_cases n with ⟨h, hsize, hw⟩ | ⟨h, hsize, hw⟩ | ⟨h, hsize, hw⟩ | ⟨h, -⟩
    · rw [hw, readCompactSize, (readLE_lawful 1).run_bind_put (by omega), if_pos h]
      exact run_checkCompactSize hn ((if_pos h).trans hsize.symm) _
    · rw [hw]
      exact run_countBehind 253 (by decide) hn h hsize.symm rest c _ rfl
    · rw [hw]
      exact run_countBehind 254 (by decide) hn h hsize.symm rest c _ rfl
    · omega
  · intro s n s' h hc
    obtain ⟨chSize, s₁, hfirst, h⟩ := run_bind_eq_some.mp h
    split at h
    · rename_i h1
      obtain ⟨rfl, hn, hcanonical⟩ := checkCompactSize_eq_some h
      obtain ⟨rfl, -⟩ := hcanonical hc
      obtain ⟨hc₀, hbytes⟩ := (readLE_lawful 1).put_get _ _ _ hfirst hc
      refine ⟨hc₀, ?_⟩
      rw [writeCompactSize, if_pos h1]
      exact hbytes
    rename_i h1
    split at h
    · rename_i h253
      obtain ⟨hn, hcanonical⟩ := countBehind_eq_some hfirst h
      obtain ⟨hc₀, hbytes, hwidth⟩ := hcanonical hc
      exact ⟨hc₀, writeCompactSize_of_read hn hwidth (Or.inl ⟨h253, rfl⟩) ▸ hbytes⟩
    rename_i h253
    split at h
    · rename_i h254
      obtain ⟨hn, hcanonical⟩ := countBehind_eq_some hfirst h
      obtain ⟨hc₀, hbytes, hwidth⟩ := hcanonical hc
      exact ⟨hc₀, writeCompactSize_of_read hn hwidth (Or.inr (Or.inl ⟨h254, rfl⟩)) ▸ hbytes⟩
    · -- eight bytes are never the shortest form of a count that is let pass
      rename_i h254
      obtain ⟨hn, hcanonical⟩ := countBehind_eq_some hfirst h
      obtain ⟨hc₀, hbytes, hwidth⟩ := hcanonical hc
      have hform := writeCompactSize_of_read (k := 8) hn hwidth (Or.inr (Or.inr ⟨by omega, h253, h254⟩))
      exact ⟨hc₀, hform ▸ hbytes⟩

theorem length_writeCompactSize (n : Nat) : (writeCompactSize n).length = getSizeOfCompactSize n := by
  rcases writeCompactSize_cases n with ⟨-, hsize, hw⟩ | ⟨-, hsize, hw⟩ | ⟨-, hsize, hw⟩ | ⟨-, hsize, hw⟩ <;>
    rw [hw, hsize] <;> simp

/-! ## Vectors -/

/-- `std::vector<unsigned char>`, and `CScript`. -/
def writeByteVector (v : List UInt8) : List UInt8 := writeCompactSize v.length ++ v

/-- At most 5000000 bytes are read at a time. -/
def readByteVector : Reader (List UInt8) := do
  let nSize ← readCompactSize
  readChunks readBytes (1 + 4999999 / 1) nSize 0 []

/-- `std::vector<T>` of objects. -/
def writeVector {α : Type} (put : α → List UInt8) (v : List α) : List UInt8 :=
  writeCompactSize v.length ++ putAll put v

/-- `sizeof(T)`; no class has more than 5000000 bytes. -/
structure ObjectSize where
  sizeof : Nat
  pos : 0 < sizeof
  le : sizeof ≤ 5000000

def readVector {α : Type} (T : ObjectSize) (get : Reader α) : Reader (List α) := do
  let nSize ← readCompactSize
  readChunks (readAll get) (5000000 / T.sizeof) nSize 0 []

/-- A count and that many elements, read in pieces. -/
theorem counted_lawful {α : Type} {Fits : List α → Prop} (put : List α → List UInt8)
    {piece : Nat → Reader (List α)}
    (hpiece : ∀ n, Lawful (fun v : List α => v.length = n ∧ Fits v) put (piece n))
    (hzero : ∀ s, (piece 0).run s = some ([], s))
    (hadd : ∀ m n s, (piece (m + n)).run s =
      (do let v ← piece m
          let w ← piece n
          return v ++ w : Reader (List α)).run s) {chunk : Nat} (hchunk : 0 < chunk) :
    Lawful (fun v : List α => v.length ≤ MAX_SIZE.toNat ∧ Fits v)
      (fun v => writeCompactSize v.length ++ put v)
      (do let nSize ← readCompactSize
          readChunks piece chunk nSize 0 []) := by
  refine readCompactSize_lawful.field List.length (fun v hv => hv.1) fun n hn => ?_
  have hread : ∀ s, (readChunks piece chunk n 0 []).run s = (piece n).run s := by
    intro s
    rw [readChunks_eq hzero hadd hchunk, run_bind]
    show ((piece n).run s).bind (fun r => some ([] ++ r.1, r.2)) = _
    cases (piece n).run s <;> rfl
  have h := hpiece n
  refine ⟨fun v hv rest c => ?_, fun s v s' hget => ?_, fun s v s' hget hc => ?_⟩
  · rw [hread]
    exact h.get_put v ⟨hv.2, hv.1.2⟩ rest c
  · rw [hread] at hget
    obtain ⟨hlen, hfits⟩ := h.get_fits s v s' hget
    exact ⟨⟨hlen ▸ hn, hfits⟩, hlen⟩
  · rw [hread] at hget
    exact h.put_get s v s' hget hc

theorem readByteVector_lawful :
    Lawful (fun v : List UInt8 => v.length ≤ MAX_SIZE.toNat ∧ True) writeByteVector readByteVector := by
  refine counted_lawful (fun v => v) (fun n => ?_) (fun s => ?_) readBytes_add (by decide)
  · have h := readBytes_lawful n
    exact ⟨fun v hv => h.get_put v hv.1, fun s v s' hget => ⟨h.get_fits s v s' hget, trivial⟩,
      h.put_get⟩
  · show (if s.bytes.length < 0 then none else some _) = _
    rw [if_neg (Nat.not_lt_zero _)]
    rfl

theorem readVector_lawful {α : Type} {Fits : α → Prop} {put : α → List UInt8} {get : Reader α}
    (h : Lawful Fits put get) (T : ObjectSize) :
    Lawful (fun v : List α => v.length ≤ MAX_SIZE.toNat ∧ ∀ a ∈ v, Fits a) (writeVector put)
      (readVector T get) :=
  counted_lawful _ (readAll_lawful h) (fun _ => rfl) (readAll_add get)
    (Nat.div_pos T.le T.pos)

/-! ## Numbers -/

def readUInt32 : Reader UInt32 := do return UInt32.ofNat (← readLE 4)

theorem readUInt32_lawful : Lawful (fun _ => True) (fun n : UInt32 => toLE 4 n.toNat) readUInt32 :=
  (readLE_lawful 4).iso UInt32.ofNat UInt32.toNat
    (fun x _ => ⟨x.toNat_lt, UInt32.ofNat_toNat⟩)
    (fun _ hn => ⟨trivial, UInt32.toNat_ofNat_of_lt' hn⟩)

def readUint256 : Reader Uint256 := do return BitVec.ofNat 256 (← readLE 32)

theorem readUint256_lawful : Lawful (fun _ => True) (fun h : Uint256 => toLE 32 h.toNat) readUint256 :=
  (readLE_lawful 32).iso (BitVec.ofNat 256) BitVec.toNat
    (fun h _ => ⟨h.isLt, BitVec.eq_of_toNat_eq (Nat.mod_eq_of_lt h.isLt)⟩)
    (fun _ hn => ⟨trivial, Nat.mod_eq_of_lt hn⟩)

/-! ## Transactions -/

/-- The objects that are read into vectors, by their size in memory. -/
structure ObjectSizes where
  txin : ObjectSize
  txout : ObjectSize
  transaction : ObjectSize

/-- `FLATDATA`: hash and number as they are in memory. -/
def COutPoint.serialize (o : COutPoint) : List UInt8 := toLE 32 o.hash.toNat ++ toLE 4 o.n.toNat

def COutPoint.unserialize : Reader COutPoint := do
  let hash ← readUint256
  let n ← readUInt32
  return ⟨hash, n⟩

theorem COutPoint.unserialize_lawful :
    Lawful (fun _ => True) COutPoint.serialize COutPoint.unserialize := by
  refine readUint256_lawful.field COutPoint.hash (fun _ _ => trivial) fun hash _ => ?_
  refine readUInt32_lawful.iso (COutPoint.mk hash) COutPoint.n ?_ ?_
  · rintro ⟨_, n⟩ ⟨-, rfl⟩
    exact ⟨trivial, rfl⟩
  · intro n _
    exact ⟨⟨trivial, rfl⟩, rfl⟩

namespace CTxIn

def serialize (txin : CTxIn) : List UInt8 :=
  txin.prevout.serialize ++
  (writeByteVector txin.scriptSig ++
  toLE 4 txin.nSequence.toNat)

def unserialize : Reader CTxIn := do
  let prevout ← COutPoint.unserialize
  let scriptSig ← readByteVector
  let nSequence ← readUInt32
  return ⟨prevout, scriptSig, nSequence⟩

/-- Its script is not too long to be read. -/
def Fits (txin : CTxIn) : Prop := txin.scriptSig.length ≤ MAX_SIZE.toNat

theorem unserialize_lawful : Lawful Fits serialize unserialize := by
  refine COutPoint.unserialize_lawful.field CTxIn.prevout (fun _ _ => trivial) fun prevout _ => ?_
  refine readByteVector_lawful.field CTxIn.scriptSig (fun _ h => ⟨h.1, trivial⟩) fun scriptSig hs => ?_
  refine readUInt32_lawful.iso (CTxIn.mk prevout scriptSig) CTxIn.nSequence ?_ ?_
  · rintro ⟨_, _, n⟩ ⟨⟨-, rfl⟩, rfl⟩
    exact ⟨trivial, rfl⟩
  · intro n _
    exact ⟨⟨⟨hs.1, rfl⟩, rfl⟩, rfl⟩

end CTxIn

namespace CTxOut

def serialize (txout : CTxOut) : List UInt8 :=
  toLEInt 8 txout.nValue ++
  writeByteVector txout.scriptPubKey

def unserialize : Reader CTxOut := do
  let nValue ← readLEInt 8
  let scriptPubKey ← readByteVector
  return ⟨nValue, scriptPubKey⟩

/-- Its value is an `int64_t`, and its script not too long to be read. -/
def Fits (txout : CTxOut) : Prop :=
  FitsInt 8 txout.nValue ∧ txout.scriptPubKey.length ≤ MAX_SIZE.toNat

theorem unserialize_lawful : Lawful Fits serialize unserialize := by
  refine (readLEInt_lawful 8).field CTxOut.nValue (fun _ h => h.1) fun nValue hv => ?_
  refine readByteVector_lawful.iso (CTxOut.mk nValue) CTxOut.scriptPubKey ?_ ?_
  · rintro ⟨_, script⟩ ⟨h, rfl⟩
    exact ⟨⟨h.2, trivial⟩, rfl⟩
  · intro script hs
    exact ⟨⟨⟨hv, hs.1⟩, rfl⟩, rfl⟩

end CTxOut

namespace CTransaction

def serialize (tx : CTransaction) : List UInt8 :=
  toLEInt 4 tx.nVersion ++
  (toLE 4 tx.nTime.toNat ++
  (writeVector CTxIn.serialize tx.vin ++
  (writeVector CTxOut.serialize tx.vout ++
  toLE 4 tx.nLockTime.toNat)))

def unserialize (Z : ObjectSizes) : Reader CTransaction := do
  let nVersion ← readLEInt 4
  let nTime ← readUInt32
  let vin ← readVector Z.txin CTxIn.unserialize
  let vout ← readVector Z.txout CTxOut.unserialize
  let nLockTime ← readUInt32
  return ⟨nVersion, nTime, vin, vout, nLockTime⟩

/-- Its version is an `int`, and its vectors and scripts are not too long to be read. -/
structure Fits (tx : CTransaction) : Prop where
  nVersion : FitsInt 4 tx.nVersion
  vin : tx.vin.length ≤ MAX_SIZE.toNat ∧ ∀ txin ∈ tx.vin, txin.Fits
  vout : tx.vout.length ≤ MAX_SIZE.toNat ∧ ∀ txout ∈ tx.vout, txout.Fits

theorem unserialize_lawful (Z : ObjectSizes) : Lawful Fits serialize (unserialize Z) := by
  refine (readLEInt_lawful 4).field CTransaction.nVersion (fun _ h => h.nVersion) fun nVersion hv => ?_
  refine readUInt32_lawful.field CTransaction.nTime (fun _ _ => trivial) fun nTime _ => ?_
  refine (readVector_lawful CTxIn.unserialize_lawful Z.txin).field CTransaction.vin
    (fun _ h => h.1.1.vin) fun vin hvin => ?_
  refine (readVector_lawful CTxOut.unserialize_lawful Z.txout).field CTransaction.vout
    (fun _ h => h.1.1.1.vout) fun vout hvout => ?_
  refine readUInt32_lawful.iso (CTransaction.mk nVersion nTime vin vout) CTransaction.nLockTime ?_ ?_
  · rintro ⟨_, _, _, _, n⟩ ⟨⟨⟨⟨-, rfl⟩, rfl⟩, rfl⟩, rfl⟩
    exact ⟨trivial, rfl⟩
  · intro n _
    exact ⟨⟨⟨⟨⟨⟨hv, hvin, hvout⟩, rfl⟩, rfl⟩, rfl⟩, rfl⟩, rfl⟩

end CTransaction

/-! ## Blocks -/

def SER_NETWORK : Nat := 1 <<< 0
def SER_DISK : Nat := 1 <<< 1
def SER_GETHASH : Nat := 1 <<< 2
def SER_BLOCKHEADERONLY : Nat := 1 <<< 17

/-- Do the transactions and the signature follow the header? -/
def withTransactions (nType : Nat) : Bool := decide (nType &&& (SER_GETHASH ||| SER_BLOCKHEADERONLY) = 0)

namespace CBlock

def serialize (nType : Nat) (b : CBlock) : List UInt8 :=
  toLEInt 4 b.nVersion ++
  (toLE 32 b.hashPrevBlock.toNat ++
  (toLE 32 b.hashMerkleRoot.toNat ++
  (toLE 4 b.nTime.toNat ++
  (toLE 4 b.nBits.toNat ++
  (toLE 4 b.nNonce.toNat ++
  if withTransactions nType then
    writeVector CTransaction.serialize b.vtx ++ writeByteVector b.vchBlockSig
  else [])))))

def unserialize (Z : ObjectSizes) (nType : Nat) : Reader CBlock := do
  let nVersion ← readLEInt 4
  let hashPrevBlock ← readUint256
  let hashMerkleRoot ← readUint256
  let nTime ← readUInt32
  let nBits ← readUInt32
  let nNonce ← readUInt32
  if withTransactions nType then do
    let vtx ← readVector Z.transaction (CTransaction.unserialize Z)
    let vchBlockSig ← readByteVector
    return ⟨⟨nVersion, hashPrevBlock, hashMerkleRoot, nTime, nBits, nNonce⟩, vtx, vchBlockSig⟩
  else return ⟨⟨nVersion, hashPrevBlock, hashMerkleRoot, nTime, nBits, nNonce⟩, [], []⟩

/-- Its version is an `int`, and its vectors and scripts are not too long to be read; a header alone has
    none. -/
structure Fits (nType : Nat) (b : CBlock) : Prop where
  nVersion : FitsInt 4 b.nVersion
  vtx : b.vtx.length ≤ MAX_SIZE.toNat ∧ ∀ tx ∈ b.vtx, tx.Fits
  vchBlockSig : b.vchBlockSig.length ≤ MAX_SIZE.toNat
  header : withTransactions nType = false → b.vtx = [] ∧ b.vchBlockSig = []

theorem unserialize_lawful (Z : ObjectSizes) (nType : Nat) :
    Lawful (Fits nType) (serialize nType) (unserialize Z nType) := by
  refine (readLEInt_lawful 4).field (fun b : CBlock => b.nVersion) (fun _ h => h.nVersion)
    fun nVersion hv => ?_
  refine readUint256_lawful.field (fun b : CBlock => b.hashPrevBlock) (fun _ _ => trivial) fun prev _ => ?_
  refine readUint256_lawful.field (fun b : CBlock => b.hashMerkleRoot) (fun _ _ => trivial) fun root _ => ?_
  refine readUInt32_lawful.field (fun b : CBlock => b.nTime) (fun _ _ => trivial) fun nTime _ => ?_
  refine readUInt32_lawful.field (fun b : CBlock => b.nBits) (fun _ _ => trivial) fun nBits _ => ?_
  refine readUInt32_lawful.field (fun b : CBlock => b.nNonce) (fun _ _ => trivial) fun nNonce _ => ?_
  cases hw : withTransactions nType with
  | true =>
    refine (readVector_lawful (CTransaction.unserialize_lawful Z) Z.transaction).field CBlock.vtx
      (fun _ h => h.1.1.1.1.1.1.vtx) fun vtx hvtx => ?_
    refine readByteVector_lawful.iso (CBlock.mk ⟨nVersion, prev, root, nTime, nBits, nNonce⟩ vtx)
      CBlock.vchBlockSig ?_ ?_
    · rintro ⟨⟨_, _, _, _, _, _⟩, _, sig⟩ ⟨⟨⟨⟨⟨⟨⟨h, rfl⟩, rfl⟩, rfl⟩, rfl⟩, rfl⟩, rfl⟩, rfl⟩
      exact ⟨⟨h.vchBlockSig, trivial⟩, rfl⟩
    · intro sig hsig
      exact ⟨⟨⟨⟨⟨⟨⟨⟨⟨hv, hvtx, hsig.1, fun hf => nomatch hw.symm.trans hf⟩, rfl⟩, rfl⟩, rfl⟩, rfl⟩,
        rfl⟩, rfl⟩, rfl⟩, rfl⟩
  | false =>
    -- nothing follows the header
    refine ⟨?_, ?_, ?_⟩
    · rintro ⟨⟨_, _, _, _, _, _⟩, vtx, sig⟩ ⟨⟨⟨⟨⟨⟨h, rfl⟩, rfl⟩, rfl⟩, rfl⟩, rfl⟩, rfl⟩ rest c
      obtain ⟨rfl, rfl⟩ := h.header hw
      rfl
    · intro s b s' hget
      obtain ⟨rfl, rfl⟩ := run_pure_eq_some.mp hget
      exact ⟨⟨⟨⟨⟨⟨⟨hv, ⟨Nat.zero_le _, fun _ htx => absurd htx List.not_mem_nil⟩, Nat.zero_le _,
        fun _ => ⟨rfl, rfl⟩⟩, rfl⟩, rfl⟩, rfl⟩, rfl⟩, rfl⟩, rfl⟩
    · intro s b s' hget hc
      obtain ⟨rfl, rfl⟩ := run_pure_eq_some.mp hget
      exact ⟨hc, rfl⟩

end CBlock

/-! ## Sizes -/

theorem length_writeByteVector (v : List UInt8) : (writeByteVector v).length = bytesSize v := by
  rw [writeByteVector, List.length_append, length_writeCompactSize, bytesSize]

theorem length_writeVector {α : Type} {put : α → List UInt8} {size : α → Nat} (v : List α)
    (h : ∀ a, (put a).length = size a) :
    (writeVector put v).length = getSizeOfCompactSize v.length + (v.map size).sum := by
  rw [writeVector, List.length_append, length_writeCompactSize, putAll, List.length_flatMap]
  congr 2
  exact List.map_congr_left fun a _ => h a

/-- The number of bytes written is what validation calculates with. -/
theorem CTxIn.length_serialize (txin : CTxIn) : txin.serialize.length = txin.getSerializeSize := by
  unfold CTxIn.serialize CTxIn.getSerializeSize COutPoint.serialize
  simp only [List.length_append, length_toLE, length_writeByteVector]
  omega

theorem CTxOut.length_serialize (txout : CTxOut) : txout.serialize.length = txout.getSerializeSize := by
  unfold CTxOut.serialize CTxOut.getSerializeSize toLEInt
  simp only [List.length_append, length_toLE, length_writeByteVector]

theorem CTransaction.length_serialize (tx : CTransaction) :
    tx.serialize.length = tx.getSerializeSize := by
  unfold CTransaction.serialize CTransaction.getSerializeSize toLEInt
  simp only [List.length_append, length_toLE, length_writeVector _ CTxIn.length_serialize,
    length_writeVector _ CTxOut.length_serialize]
  omega

theorem CBlock.length_serialize {nType : Nat} (hw : withTransactions nType = true) (b : CBlock) :
    (b.serialize nType).length = b.getSerializeSize := by
  unfold CBlock.serialize CBlock.getSerializeSize toLEInt
  rw [if_pos hw]
  simp only [List.length_append, length_toLE, length_writeByteVector,
    length_writeVector _ CTransaction.length_serialize]
  omega

theorem size_le_of_mem {α : Type} (size : α → Nat) {v : List α} {a : α} (h : a ∈ v) :
    size a ≤ (v.map size).sum := List.le_sum_of_mem (List.mem_map_of_mem h)

theorem length_le_of_size {α : Type} {size : α → Nat} (h : ∀ a, 1 ≤ size a) (v : List α) :
    v.length ≤ (v.map size).sum := by
  rw [← List.length_map (f := size)]
  refine List.length_le_sum_of_one_le _ fun n hn => ?_
  obtain ⟨a, -, rfl⟩ := List.mem_map.mp hn
  exact h a

/-- What is not too long on the whole has no vector that is too long to be read. -/
theorem CTransaction.fits_of_size {tx : CTransaction} (hsize : tx.getSerializeSize ≤ MAX_SIZE.toNat)
    (hversion : FitsInt 4 tx.nVersion) (hvalues : ∀ txout ∈ tx.vout, FitsInt 8 txout.nValue) :
    tx.Fits := by
  have hin : ∀ txin : CTxIn, 1 ≤ txin.getSerializeSize ∧
      txin.scriptSig.length ≤ txin.getSerializeSize := by
    intro txin
    rw [CTxIn.getSerializeSize, bytesSize]
    omega
  have hout : ∀ txout : CTxOut, 1 ≤ txout.getSerializeSize ∧
      txout.scriptPubKey.length ≤ txout.getSerializeSize := by
    intro txout
    rw [CTxOut.getSerializeSize, bytesSize]
    omega
  have hvin := length_le_of_size (fun txin => (hin txin).1) tx.vin
  have hvout := length_le_of_size (fun txout => (hout txout).1) tx.vout
  rw [CTransaction.getSerializeSize] at hsize
  refine ⟨hversion, ⟨by omega, fun txin htxin => ?_⟩, by omega, fun txout htxout => ⟨hvalues _ htxout, ?_⟩⟩
  · have hscript := (hin txin).2
    have hmem := size_le_of_mem CTxIn.getSerializeSize htxin
    show txin.scriptSig.length ≤ MAX_SIZE.toNat
    omega
  · have hscript := (hout txout).2
    have hmem := size_le_of_mem CTxOut.getSerializeSize htxout
    omega

theorem CTransaction.one_le_getSerializeSize (tx : CTransaction) : 1 ≤ tx.getSerializeSize := by
  rw [CTransaction.getSerializeSize]
  omega

/-- `GetSerializeSize` of a byte vector, an `unsigned int`. -/
def byteVectorSize (v : List UInt8) : UInt32 := UInt32.ofNat (getSizeOfCompactSize v.length + v.length * 1)

/-- `GetSerializeSize` of a vector of objects. -/
def vectorSize {α : Type} (size : α → UInt32) (v : List α) : UInt32 :=
  v.foldl (fun nSize a => nSize + size a) (UInt32.ofNat (getSizeOfCompactSize v.length))

/-- The `nSerSize` that `GetSerializeSize` of a class adds up. -/
def CTxIn.nSerSize (txin : CTxIn) : UInt32 := 36 + byteVectorSize txin.scriptSig + 4

def CTxOut.nSerSize (txout : CTxOut) : UInt32 := 8 + byteVectorSize txout.scriptPubKey

def CTransaction.nSerSize (tx : CTransaction) : UInt32 :=
  4 + 4 + vectorSize CTxIn.nSerSize tx.vin + vectorSize CTxOut.nSerSize tx.vout + 4

def CBlock.nSerSize (nType : Nat) (b : CBlock) : UInt32 :=
  let nSerSize := 4 + 32 + 32 + 4 + 4 + 4
  if withTransactions nType then
    nSerSize + vectorSize CTransaction.nSerSize b.vtx + byteVectorSize b.vchBlockSig
  else nSerSize

theorem byteVectorSize_eq (v : List UInt8) : byteVectorSize v = UInt32.ofNat (bytesSize v) := by
  rw [byteVectorSize, Nat.mul_one, bytesSize]

/-- Adding up in an `unsigned int` loses nothing below `2^32`. -/
theorem vectorSize_eq {α : Type} {size : α → UInt32} {sizeOf : α → Nat}
    (h : ∀ a, size a = UInt32.ofNat (sizeOf a)) (v : List α) :
    vectorSize size v = UInt32.ofNat (getSizeOfCompactSize v.length + (v.map sizeOf).sum) := by
  have hfold : ∀ (l : List α) (n : Nat), l.foldl (fun nSize a => nSize + size a) (UInt32.ofNat n) =
      UInt32.ofNat (n + (l.map sizeOf).sum) := by
    intro l
    induction l with
    | nil => exact fun n => rfl
    | cons a l ih =>
      intro n
      rw [List.foldl_cons, h, ← UInt32.ofNat_add, ih, List.map_cons, List.sum_cons, Nat.add_assoc]
  exact hfold v _

theorem CTxIn.nSerSize_eq (txin : CTxIn) : txin.nSerSize = UInt32.ofNat txin.getSerializeSize := by
  rw [CTxIn.nSerSize, byteVectorSize_eq, CTxIn.getSerializeSize, UInt32.ofNat_add, UInt32.ofNat_add]
  rfl

theorem CTxOut.nSerSize_eq (txout : CTxOut) : txout.nSerSize = UInt32.ofNat txout.getSerializeSize := by
  rw [CTxOut.nSerSize, byteVectorSize_eq, CTxOut.getSerializeSize, UInt32.ofNat_add]
  rfl

theorem CTransaction.nSerSize_eq (tx : CTransaction) :
    tx.nSerSize = UInt32.ofNat tx.getSerializeSize := by
  rw [CTransaction.nSerSize, vectorSize_eq CTxIn.nSerSize_eq, vectorSize_eq CTxOut.nSerSize_eq,
    CTransaction.getSerializeSize]
  simp only [UInt32.ofNat_add]
  rfl

theorem CBlock.nSerSize_eq {nType : Nat} (hw : withTransactions nType = true) (b : CBlock) :
    b.nSerSize nType = UInt32.ofNat b.getSerializeSize := by
  rw [CBlock.nSerSize, if_pos hw, vectorSize_eq CTransaction.nSerSize_eq, byteVectorSize_eq,
    CBlock.getSerializeSize]
  simp only [UInt32.ofNat_add]
  rfl

/-! ## The round trip -/

/-- Transactions and blocks on the network and on disk: what is written is read back and the rest of the
    stream left, `GetSerializeSize` counts the bytes written in an `unsigned int`, and bytes that are read
    with all counts in their shortest form are the bytes that would be written. -/
theorem serialize_roundtrip (Z : ObjectSizes) {nType : Nat}
    (hType : nType = SER_NETWORK ∨ nType = SER_DISK) :
    ((∀ tx : CTransaction, tx.Fits →
        (∀ rest c, (CTransaction.unserialize Z).run ⟨tx.serialize ++ rest, c⟩ = some (tx, ⟨rest, c⟩)) ∧
        tx.nSerSize.toNat = tx.serialize.length % 2 ^ 32) ∧
      ∀ s tx s', (CTransaction.unserialize Z).run s = some (tx, s') → s'.canonical = true →
        s.bytes = tx.serialize ++ s'.bytes) ∧
    ((∀ b : CBlock, b.Fits nType →
        (∀ rest c, (CBlock.unserialize Z nType).run ⟨b.serialize nType ++ rest, c⟩ =
          some (b, ⟨rest, c⟩)) ∧
        (b.nSerSize nType).toNat = (b.serialize nType).length % 2 ^ 32) ∧
      ∀ s b s', (CBlock.unserialize Z nType).run s = some (b, s') → s'.canonical = true →
        s.bytes = b.serialize nType ++ s'.bytes) := by
  have hw : withTransactions nType = true := by
    rcases hType with rfl | rfl <;> rfl
  have htx := CTransaction.unserialize_lawful Z
  have hblock := CBlock.unserialize_lawful Z nType
  refine ⟨⟨fun tx hfits => ⟨htx.get_put tx hfits, ?_⟩, ?_⟩, fun b hfits => ⟨hblock.get_put b hfits, ?_⟩, ?_⟩
  · rw [tx.nSerSize_eq, tx.length_serialize, UInt32.toNat_ofNat']
  · intro s tx s' hget hc
    exact (htx.put_get s tx s' hget hc).2
  · rw [b.nSerSize_eq hw, b.length_serialize hw, UInt32.toNat_ofNat']
  · intro s b s' hget hc
    exact (hblock.put_get s b s' hget hc).2

namespace Encoding

def objectSizes : ObjectSizes :=
  ⟨⟨64, by decide, by decide⟩, ⟨32, by decide, by decide⟩, ⟨64, by decide, by decide⟩⟩

/-- A coinbase that pays one output. -/
def shortTx : CTransaction := ⟨1, 1407023400, [⟨⟨0, 0xffffffff⟩, [1, 2], 0xffffffff⟩], [⟨-1, [0x51]⟩], 0⟩

def shortBlock : CBlock := ⟨⟨6, 5, 7, 1407023400, 0x1e0fffff, 9⟩, [shortTx], [3]⟩

theorem shortTx_fits : shortTx.Fits := by
  refine ⟨by decide, ⟨by decide, ?_⟩, by decide, ?_⟩
  · intro txin htxin
    rw [List.mem_singleton.mp htxin]
    show (2 : Nat) ≤ 33554432
    omega
  · intro txout htxout
    rw [List.mem_singleton.mp htxout]
    exact ⟨by decide, by decide⟩

theorem shortBlock_fits : shortBlock.Fits SER_DISK := by
  refine ⟨by decide, ⟨by decide, ?_⟩, by decide, fun h => nomatch h⟩
  intro tx htx
  rw [List.mem_singleton.mp htx]
  exact shortTx_fits

theorem shortBlock_roundtrip :
    (CBlock.unserialize objectSizes SER_DISK).run ⟨shortBlock.serialize SER_DISK ++ [0xff], true⟩ =
      some (shortBlock, ⟨[0xff], true⟩) ∧ (shortTx.nSerSize).toNat = 67 :=
  ⟨((serialize_roundtrip objectSizes (Or.inr rfl)).2.1 shortBlock shortBlock_fits).1 [0xff] true,
    (((serialize_roundtrip objectSizes (Or.inl rfl)).1.1 shortTx shortTx_fits).2).trans (by decide)⟩

/-- `n` outputs that pay nothing to a script of `m` bytes. -/
def longTx (n m : Nat) : CTransaction := ⟨1, 0, [], List.replicate n ⟨0, List.replicate m 0⟩, 0⟩

theorem longTx_fits {n m : Nat} (hn : n ≤ MAX_SIZE.toNat) (hm : m ≤ MAX_SIZE.toNat) :
    (longTx n m).Fits := by
  refine ⟨(by decide : FitsInt 4 1), ⟨Nat.zero_le _, fun _ h => absurd h List.not_mem_nil⟩, ?_, ?_⟩
  · rw [longTx, List.length_replicate]
    exact hn
  · intro txout htxout
    rw [List.eq_of_mem_replicate htxout]
    refine ⟨(by decide : FitsInt 8 0), ?_⟩
    rw [List.length_replicate]
    exact hm

theorem longTx_getSerializeSize (n m : Nat) : (longTx n m).getSerializeSize =
    13 + getSizeOfCompactSize n + n * (8 + (getSizeOfCompactSize m + m)) := by
  have hzero : getSizeOfCompactSize 0 = 1 := rfl
  rw [longTx, CTransaction.getSerializeSize, List.map_replicate, List.sum_replicate_nat,
    List.length_replicate, CTxOut.getSerializeSize, bytesSize, List.length_replicate, List.map_nil,
    List.sum_nil, List.length_nil, hzero]
  omega

/-- More than four gigabytes: `GetSerializeSize` is not the number of bytes written. -/
theorem nSerSize_longTx : (longTx 130 33554432).Fits ∧
    (longTx 130 33554432).serialize.length = 4362077864 ∧
    (longTx 130 33554432).nSerSize.toNat = 67110568 := by
  have hsize : (longTx 130 33554432).getSerializeSize = 4362077864 := by
    rw [longTx_getSerializeSize]
    norm_num [getSizeOfCompactSize]
  refine ⟨longTx_fits (by decide) (by decide), ?_, ?_⟩
  · rw [CTransaction.length_serialize, hsize]
  · rw [CTransaction.nSerSize_eq, hsize, UInt32.toNat_ofNat']

end Encoding

end Silkcoin
