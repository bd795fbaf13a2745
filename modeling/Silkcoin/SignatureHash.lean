/-
  WHAT A SIGNATURE COMMITS TO: `SignatureHash`.

  The function changes a copy of the transaction and writes it out, with the hash type behind it.  What the
  type leaves open is blanked: the scripts of the other inputs always, their sequence numbers and the
  outputs for some types, the other inputs altogether for others (`txTmp`).  Where the index is out of
  range there is nothing to write, and the hash is the number 1.

  `signaturePreimage_eq_iff` says what remains, as a statement about TWO transactions: the bytes hashed are
  the same if and only if the transactions agree on what the type covers (`SignedAlike`).  One direction
  is that nothing else is looked at; the other, that the writers are delimited, so that no two of the
  changed copies are written in the same bytes.  That needs no bound on what a reader lets pass, only
  that numbers and lengths are such as the source's types have (`Representable`).
-/
import Silkcoin.Lib.Delimited
import Silkcoin.CoinStake
import Silkcoin.Serialize

namespace Silkcoin

open Codec

/-! ## Writers are delimited -/

/-- The first byte of a count, which tells how many follow. -/
def compactLead (n : Nat) : Nat :=
  if n < 253 then n else if n ≤ 0xffff then 253 else if n ≤ 0xffffffff then 254 else 255

theorem writeCompactSize_lead (n : Nat) :
    writeCompactSize n = toLE 1 (compactLead n) ++ toLE (compactWidth (compactLead n) - 1) n := by
  unfold writeCompactSize compactLead
  split
  · rename_i h
    unfold compactWidth
    rw [if_pos h]
    exact (List.append_nil _).symm
  split
  · rfl
  split
  · rfl
  · rfl

theorem compactLead_lt (n : Nat) : compactLead n < 256 := by
  unfold compactLead
  split
  · omega
  split
  · decide
  split <;> decide

/-- What follows the first byte has room for the count, or is nothing. -/
theorem compactLead_room {n : Nat} (hn : n < 2 ^ 64) :
    (compactLead n = n ∧ n < 253) ∨ (253 ≤ compactLead n ∧ n < 256 ^ (compactWidth (compactLead n) - 1)) := by
  unfold compactLead
  split
  · rename_i h
    exact Or.inl ⟨rfl, h⟩
  split
  · exact Or.inr ⟨le_rfl, by show n < 65536; omega⟩
  split
  · exact Or.inr ⟨by decide, by show n < 4294967296; omega⟩
  · exact Or.inr ⟨by decide, by show n < 18446744073709551616; omega⟩

theorem toLE_delimited (k : Nat) : Delimited (fun n => n < 256 ^ k) (toLE k) :=
  .of_lawful (readLE_lawful k)

/-- A `size_t`, also over `MAX_SIZE`. -/
theorem writeCompactSize_delimited : Delimited (fun n => n < 2 ^ 64) writeCompactSize := by
  intro n m hn hm r r' h
  rw [writeCompactSize_lead, writeCompactSize_lead, List.append_assoc, List.append_assoc] at h
  obtain ⟨hlead, h⟩ := toLE_delimited 1 _ _ (compactLead_lt n) (compactLead_lt m) _ _ h
  rw [hlead] at h
  rcases compactLead_room hn with ⟨hln, hsn⟩ | ⟨hln, hwn⟩
  · rcases compactLead_room hm with ⟨hlm, -⟩ | ⟨hlm, -⟩
    · obtain rfl : n = m := by omega
      exact ⟨rfl, List.append_cancel_left h⟩
    · omega
  · rcases compactLead_room hm with ⟨hlm, hsm⟩ | ⟨hlm, hwm⟩
    · omega
    · rw [hlead] at hwn
      exact toLE_delimited _ _ _ hwn hwm _ _ h

theorem writeByteVector_delimited :
    Delimited (fun v : List UInt8 => v.length < 2 ^ 64) writeByteVector := by
  intro v w hv hw r r' h
  unfold writeByteVector at h
  rw [List.append_assoc, List.append_assoc] at h
  obtain ⟨hlen, h⟩ := writeCompactSize_delimited _ _ hv hw _ _ h
  exact List.append_inj h hlen

theorem writeVector_delimited {α : Type} {Fits : α → Prop} {put : α → List UInt8}
    (h : Delimited Fits put) :
    Delimited (fun v : List α => v.length < 2 ^ 64 ∧ ∀ a ∈ v, Fits a) (writeVector put) :=
  h.counted writeCompactSize_delimited

theorem uint32_delimited : Delimited (fun _ : UInt32 => True) (fun n => toLE 4 n.toNat) :=
  .of_lawful readUInt32_lawful

theorem COutPoint.serialize_delimited : Delimited (fun _ => True) COutPoint.serialize :=
  .of_lawful COutPoint.unserialize_lawful

def CTxIn.Representable (txin : CTxIn) : Prop := txin.scriptSig.length < 2 ^ 64

def CTxOut.Representable (txout : CTxOut) : Prop :=
  FitsInt 8 txout.nValue ∧ txout.scriptPubKey.length < 2 ^ 64

instance (txin : CTxIn) : Decidable txin.Representable := inferInstanceAs (Decidable (_ < _))
instance (txout : CTxOut) : Decidable txout.Representable := inferInstanceAs (Decidable (_ ∧ _))

/-- What an object of the class can hold: an `int`, `int64_t`s, and lengths that are `size_t`s. -/
structure CTransaction.Representable (tx : CTransaction) : Prop where
  nVersion : FitsInt 4 tx.nVersion
  vin : tx.vin.length < 2 ^ 64 ∧ ∀ txin ∈ tx.vin, txin.Representable
  vout : tx.vout.length < 2 ^ 64 ∧ ∀ txout ∈ tx.vout, txout.Representable

theorem CTxIn.serialize_delimited : Delimited CTxIn.Representable CTxIn.serialize := by
  refine COutPoint.serialize_delimited.field CTxIn.prevout (fun _ _ => trivial) fun prevout => ?_
  refine writeByteVector_delimited.field CTxIn.scriptSig (fun _ h => h.1) fun scriptSig => ?_
  refine uint32_delimited.comap CTxIn.nSequence (fun _ _ => trivial) ?_
  rintro ⟨_, _, n⟩ ⟨_, _, n'⟩ ⟨⟨-, rfl⟩, rfl⟩ ⟨⟨-, rfl⟩, rfl⟩ heq
  exact congrArg (CTxIn.mk _ _) heq

theorem CTxOut.serialize_delimited : Delimited CTxOut.Representable CTxOut.serialize := by
  refine (Delimited.of_lawful (readLEInt_lawful 8)).field CTxOut.nValue (fun _ h => h.1) fun nValue => ?_
  refine writeByteVector_delimited.comap CTxOut.scriptPubKey (fun _ h => h.1.2) ?_
  rintro ⟨_, script⟩ ⟨_, script'⟩ ⟨-, rfl⟩ ⟨-, rfl⟩ heq
  exact congrArg (CTxOut.mk _) heq

theorem CTransaction.serialize_delimited :
    Delimited CTransaction.Representable CTransaction.serialize := by
  refine (Delimited.of_lawful (readLEInt_lawful 4)).field CTransaction.nVersion (fun _ h => h.nVersion)
    fun nVersion => ?_
  refine uint32_delimited.field CTransaction.nTime (fun _ _ => trivial) fun nTime => ?_
  refine (writeVector_delimited CTxIn.serialize_delimited).field CTransaction.vin (fun _ h => h.1.1.vin)
    fun vin => ?_
  refine (writeVector_delimited CTxOut.serialize_delimited).field CTransaction.vout
    (fun _ h => h.1.1.1.vout) fun vout => ?_
  refine uint32_delimited.comap CTransaction.nLockTime (fun _ _ => trivial) ?_
  rintro ⟨_, _, _, _, n⟩ ⟨_, _, _, _, n'⟩ ⟨⟨⟨⟨-, rfl⟩, rfl⟩, rfl⟩, rfl⟩ ⟨⟨⟨⟨-, rfl⟩, rfl⟩, rfl⟩, rfl⟩ heq
  exact congrArg (CTransaction.mk _ _ _ _) heq

/-! ## The changed copy -/

/-- An `int`. -/
abbrev HashType := BitVec 32

def SIGHASH_NONE : HashType := 2
def SIGHASH_SINGLE : HashType := 3
def SIGHASH_ANYONECANPAY : HashType := 0x80

namespace HashType

variable (nHashType : HashType)

def isNone : Bool := nHashType &&& 0x1f = SIGHASH_NONE
def isSingle : Bool := nHashType &&& 0x1f = SIGHASH_SINGLE
def anyoneCanPay : Bool := nHashType &&& SIGHASH_ANYONECANPAY ≠ 0

/-- No type is both. -/
theorem not_isNone {nHashType : HashType} (h : nHashType.isSingle = true) : ¬ nHashType.isNone = true := by
  intro hnone
  have h₂ : nHashType &&& 0x1f = SIGHASH_NONE := of_decide_eq_true hnone
  have h₃ : nHashType &&& 0x1f = SIGHASH_SINGLE := of_decide_eq_true h
  rw [h₂] at h₃
  exact absurd h₃ (by decide)

end HashType

/-- `SetNull` -/
def CTxOut.null : CTxOut := ⟨-1, []⟩

namespace SignatureHash

/-- "Blank out other inputs' signatures" -/
def blankSignatures (scriptCode : CScript) (nIn : Nat) (vin : List CTxIn) : List CTxIn :=
  (vin.map fun txin => { txin with scriptSig := [] }).modify nIn fun txin => { txin with scriptSig := scriptCode }

/-- "Let the others update at will" -/
def freeSequences (nIn : Nat) (vin : List CTxIn) : List CTxIn :=
  vin.mapIdx fun i txin => if i ≠ nIn then { txin with nSequence := 0 } else txin

/-- "Only lock-in the txout payee at same index as txin" -/
def singleOutput (nOut : Nat) (vout : List CTxOut) : List CTxOut :=
  (vout.take (nOut + 1)).mapIdx fun i txout => if i < nOut then CTxOut.null else txout

/-- "Blank out some of the outputs"; nothing, where an output is asked for that is not there. -/
def blankOutputs (nIn : Nat) (nHashType : HashType) (txTmp : CTransaction) : Option CTransaction :=
  if nHashType.isNone then some { txTmp with vout := [], vin := freeSequences nIn txTmp.vin }
  else if nHashType.isSingle then
    if nIn ≥ txTmp.vout.length then none
    else some { txTmp with vout := singleOutput nIn txTmp.vout, vin := freeSequences nIn txTmp.vin }
  else some txTmp

/-- "Blank out other inputs completely" -/
def onlyInput (nIn : Nat) (vin : List CTxIn) : List CTxIn :=
  match vin[nIn]? with
  | none => vin
  | some txin => (vin.set 0 txin).take 1

/-- The copy that is written out. -/
def txTmp (scriptCode : CScript) (txTo : CTransaction) (nIn : Nat) (nHashType : HashType) :
    Option CTransaction :=
  if nIn ≥ txTo.vin.length then none
  else
    let scriptCode := findAndDelete [OP_CODESEPARATOR] scriptCode
    let txTmp := { txTo with vin := blankSignatures scriptCode nIn txTo.vin }
    match blankOutputs nIn nHashType txTmp with
    | none => none
    | some txTmp =>
      some (if nHashType.anyoneCanPay then { txTmp with vin := onlyInput nIn txTmp.vin } else txTmp)

/-- The bytes that are hashed. -/
def signaturePreimage (scriptCode : CScript) (txTo : CTransaction) (nIn : Nat) (nHashType : HashType) :
    Option (List UInt8) :=
  (txTmp scriptCode txTo nIn nHashType).map fun txTmp =>
    txTmp.serialize ++ toLE 4 nHashType.toNat

/-- `SignatureHash`, over the hash function `Hash`. -/
def signatureHash (hash : List UInt8 → Uint256) (scriptCode : CScript) (txTo : CTransaction) (nIn : Nat)
    (nHashType : HashType) : Uint256 :=
  match signaturePreimage scriptCode txTo nIn nHashType with
  | none => 1
  | some bytes => hash bytes

/-! ## What the type covers -/

/-- The index is in range, and so is the output of that index if the type asks for it. -/
structure InRange (txTo : CTransaction) (nIn : Nat) (nHashType : HashType) : Prop where
  input : nIn < txTo.vin.length
  output : nHashType.isSingle = true → nIn < txTo.vout.length

/-- Two transactions agree on what a signature of this type, for this input, covers. -/
structure SignedAlike (nHashType : HashType) (nIn : Nat) (scriptCode scriptCode' : CScript)
    (tx tx' : CTransaction) : Prop where
  nVersion : tx.nVersion = tx'.nVersion
  nTime : tx.nTime = tx'.nTime
  nLockTime : tx.nLockTime = tx'.nLockTime
  scriptCode : findAndDelete [OP_CODESEPARATOR] scriptCode = findAndDelete [OP_CODESEPARATOR] scriptCode'
  /-- the input that is signed -/
  prevout : (tx.vin[nIn]?).map CTxIn.prevout = (tx'.vin[nIn]?).map CTxIn.prevout
  nSequence : (tx.vin[nIn]?).map CTxIn.nSequence = (tx'.vin[nIn]?).map CTxIn.nSequence
  /-- the other inputs -/
  prevouts : nHashType.anyoneCanPay = false → tx.vin.map CTxIn.prevout = tx'.vin.map CTxIn.prevout
  nSequences : nHashType.anyoneCanPay = false → nHashType.isNone = false → nHashType.isSingle = false →
    tx.vin.map CTxIn.nSequence = tx'.vin.map CTxIn.nSequence
  /-- the outputs -/
  outputs : nHashType.isNone = false → nHashType.isSingle = false → tx.vout = tx'.vout
  output : nHashType.isSingle = true → tx.vout[nIn]? = tx'.vout[nIn]?

/-! ## The copy in closed form -/

section Copy

variable {nIn : Nat} {code code' : CScript} {free : Bool} {vin vin' : List CTxIn}

/-- Whether the sequence numbers of the other inputs are free. -/
def freesSequences (nHashType : HashType) : Bool := nHashType.isNone || nHashType.isSingle

/-- Input `i` of the copy. -/
def maskInput (free : Bool) (code : CScript) (nIn i : Nat) (txin : CTxIn) : CTxIn :=
  ⟨txin.prevout, if i = nIn then code else [], if free ∧ i ≠ nIn then 0 else txin.nSequence⟩

theorem blankSignatures_eq : blankSignatures code nIn vin = vin.mapIdx (maskInput false code nIn) := by
  apply List.ext_getElem?
  intro i
  unfold blankSignatures maskInput
  rw [List.getElem?_modify, List.getElem?_map, List.getElem?_mapIdx]
  cases vin[i]? with
  | none => rfl
  | some txin => by_cases hi : nIn = i <;> simp [hi, eq_comm]

theorem freeSequences_eq : freeSequences nIn (vin.mapIdx (maskInput false code nIn)) =
    vin.mapIdx (maskInput true code nIn) := by
  apply List.ext_getElem?
  intro i
  unfold freeSequences maskInput
  rw [List.getElem?_mapIdx, List.getElem?_mapIdx, List.getElem?_mapIdx]
  cases vin[i]? with
  | none => rfl
  | some txin => by_cases hi : i = nIn <;> simp [hi]

theorem onlyInput_eq {txin : CTxIn} (h : vin[nIn]? = some txin) : onlyInput nIn vin = [txin] := by
  unfold onlyInput
  rw [h]
  cases vin with
  | nil => cases h
  | cons a vin => rfl

theorem singleOutput_eq {nOut : Nat} {vout : List CTxOut} {txout : CTxOut} (h : vout[nOut]? = some txout) :
    singleOutput nOut vout = List.replicate nOut CTxOut.null ++ [txout] := by
  obtain ⟨hlt, hget⟩ := List.getElem?_eq_some_iff.mp h
  unfold singleOutput
  apply List.ext_getElem?
  intro i
  rw [List.getElem?_mapIdx, List.getElem?_append, List.length_replicate, List.getElem?_replicate]
  rcases Nat.lt_trichotomy i nOut with hi | rfl | hi
  · rw [if_pos hi, if_pos hi, List.getElem?_take_of_lt (by omega), List.getElem?_eq_getElem (by omega)]
    simp [hi]
  · rw [if_neg (lt_irrefl _), List.getElem?_take_of_lt (by omega), h, Nat.sub_self]
    simp
  · rw [if_neg (by omega), List.getElem?_eq_none (by rw [List.length_take]; omega)]
    rw [List.getElem?_eq_none (by rw [List.length_singleton]; omega)]
    rfl

/-- The copy, of a transaction in range. -/
def maskedTx (code : CScript) (tx : CTransaction) (nIn : Nat) (nHashType : HashType) : CTransaction :=
  { tx with
    vin :=
      if nHashType.anyoneCanPay then
        (tx.vin[nIn]?).toList.map (maskInput (freesSequences nHashType) code nIn nIn)
      else tx.vin.mapIdx (maskInput (freesSequences nHashType) code nIn)
    vout :=
      if nHashType.isNone then []
      else if nHashType.isSingle then List.replicate nIn CTxOut.null ++ (tx.vout[nIn]?).toList
      else tx.vout }

theorem txTmp_eq {scriptCode : CScript} {tx : CTransaction} {nHashType : HashType}
    (h : InRange tx nIn nHashType) : txTmp scriptCode tx nIn nHashType =
      some (maskedTx (findAndDelete [OP_CODESEPARATOR] scriptCode) tx nIn nHashType) := by
  obtain ⟨txin, hin⟩ : ∃ txin, tx.vin[nIn]? = some txin := ⟨_, List.getElem?_eq_getElem h.input⟩
  -- the inputs, with the sequences free or not, and then only one of them or all
  have hinput : ∀ free code, (if nHashType.anyoneCanPay then
      onlyInput nIn (tx.vin.mapIdx (maskInput free code nIn)) else tx.vin.mapIdx (maskInput free code nIn)) =
      if nHashType.anyoneCanPay then (tx.vin[nIn]?).toList.map (maskInput free code nIn nIn)
      else tx.vin.mapIdx (maskInput free code nIn) := by
    intro free code
    have hmasked : (tx.vin.mapIdx (maskInput free code nIn))[nIn]? = some (maskInput free code nIn nIn txin) := by
      rw [List.getElem?_mapIdx, hin]
      rfl
    rw [onlyInput_eq hmasked, hin]
    rfl
  unfold txTmp
  rw [if_neg (by have := h.input; omega)]
  dsimp only
  rw [blankSignatures_eq]
  unfold blankOutputs maskedTx freesSequences
  dsimp only
  by_cases hnone : nHashType.isNone = true
  · rw [if_pos hnone, if_pos hnone, freeSequences_eq]
    dsimp only
    rw [hnone, Bool.true_or, ← hinput]
    split <;> rfl
  · rw [if_neg hnone, if_neg hnone]
    by_cases hsingle : nHashType.isSingle = true
    · obtain ⟨txout, hout⟩ : ∃ txout, tx.vout[nIn]? = some txout :=
        ⟨_, List.getElem?_eq_getElem (h.output hsingle)⟩
      have hlt := h.output hsingle
      rw [if_pos hsingle, if_pos hsingle, if_neg (by omega), freeSequences_eq, singleOutput_eq hout, hout]
      dsimp only
      rw [hsingle, Bool.or_true, ← hinput]
      split <;> rfl
    · rw [if_neg hsingle, if_neg hsingle]
      dsimp only
      rw [Bool.eq_false_iff.mpr hnone, Bool.eq_false_iff.mpr hsingle, Bool.or_false, ← hinput]
      split <;> rfl

/-! ### It is representable -/

theorem maskInput_representable (hcode : code.length < 2 ^ 64) (i : Nat) (txin : CTxIn) :
    (maskInput free code nIn i txin).Representable := by
  unfold maskInput CTxIn.Representable
  dsimp only
  split
  · exact hcode
  · exact Nat.two_pow_pos 64

theorem null_representable : CTxOut.null.Representable := by
  unfold CTxOut.Representable FitsInt
  decide

theorem maskedTx_representable {tx : CTransaction} {nHashType : HashType} (hcode : code.length < 2 ^ 64)
    (htx : tx.Representable) (h : InRange tx nIn nHashType) :
    (maskedTx code tx nIn nHashType).Representable := by
  refine ⟨htx.nVersion, ?_, ?_⟩
  · unfold maskedTx
    dsimp only
    split
    · refine ⟨?_, fun txin hmem => ?_⟩
      · cases tx.vin[nIn]? <;> simp
      · obtain ⟨txin, -, rfl⟩ := List.mem_map.mp hmem
        exact maskInput_representable hcode _ _
    · refine ⟨by rw [List.length_mapIdx]; exact htx.vin.1, fun txin hmem => ?_⟩
      obtain ⟨i, hi, rfl⟩ := List.mem_mapIdx.mp hmem
      exact maskInput_representable hcode _ _
  · unfold maskedTx
    dsimp only
    split
    · exact ⟨Nat.two_pow_pos 64, fun _ hmem => absurd hmem List.not_mem_nil⟩
    split
    · rename_i hsingle
      have hlt := h.output hsingle
      have hlen := htx.vout.1
      refine ⟨?_, fun txout hmem => ?_⟩
      · rw [List.length_append, List.length_replicate, List.getElem?_eq_getElem hlt, Option.toList_some,
          List.length_singleton]
        omega
      · rcases List.mem_append.mp hmem with hmem | hmem
        · rw [List.eq_of_mem_replicate hmem]
          exact null_representable
        · rw [Option.mem_toList] at hmem
          exact htx.vout.2 _ (List.mem_of_getElem? hmem)
    · exact htx.vout

/-! ### Two copies are the same -/

/-- Of one input, that is not the one signed or is. -/
theorem maskInput_inj {i : Nat} {txin txin' : CTxIn} :
    maskInput free code nIn i txin = maskInput free code' nIn i txin' ↔
      txin.prevout = txin'.prevout ∧ (i = nIn → code = code') ∧
        (free = false ∨ i = nIn → txin.nSequence = txin'.nSequence) := by
  unfold maskInput
  rw [CTxIn.mk.injEq]
  by_cases hi : i = nIn <;> cases free <;> simp [hi]

theorem map_eq_of_map_eq {α β γ : Type} {a b : Option α} {f f' : α → β} {g : α → γ}
    (h : a.map f = b.map f') (hg : ∀ {x y}, f x = f' y → g x = g y) : a.map g = b.map g := by
  cases a with
  | none =>
    cases b with
    | none => rfl
    | some y => cases h
  | some x =>
    cases b with
    | none => cases h
    | some y => exact congrArg some (hg (Option.some.inj h))

/-- Of all inputs. -/
theorem maskInputs_inj (hlt : nIn < vin.length) :
    vin.mapIdx (maskInput free code nIn) = vin'.mapIdx (maskInput free code' nIn) ↔
      vin.map CTxIn.prevout = vin'.map CTxIn.prevout ∧ code = code' ∧
        (vin[nIn]?).map CTxIn.nSequence = (vin'[nIn]?).map CTxIn.nSequence ∧
        (free = false → vin.map CTxIn.nSequence = vin'.map CTxIn.nSequence) := by
  constructor
  · intro h
    have hi : ∀ i, (vin[i]?).map (maskInput free code nIn i) = (vin'[i]?).map (maskInput free code' nIn i) := by
      intro i
      rw [← List.getElem?_mapIdx, ← List.getElem?_mapIdx, h]
    have hfield : ∀ {γ : Type} (g : CTxIn → γ) (i : Nat), (∀ {txin txin'},
        maskInput free code nIn i txin = maskInput free code' nIn i txin' → g txin = g txin') →
        (vin[i]?).map g = (vin'[i]?).map g := by
      intro γ g i hg
      exact map_eq_of_map_eq (hi i) hg
    refine ⟨?_, ?_, ?_, fun hfree => ?_⟩
    · apply List.ext_getElem?
      intro i
      rw [List.getElem?_map, List.getElem?_map]
      exact hfield _ i fun h => (maskInput_inj.mp h).1
    · have := hi nIn
      rw [List.getElem?_eq_getElem hlt] at this
      cases h₂ : vin'[nIn]? with
      | none => rw [h₂] at this; cases this
      | some txin' =>
        rw [h₂] at this
        exact (maskInput_inj.mp (Option.some.inj this)).2.1 rfl
    · exact hfield _ nIn fun h => (maskInput_inj.mp h).2.2 (Or.inr rfl)
    · apply List.ext_getElem?
      intro i
      rw [List.getElem?_map, List.getElem?_map]
      exact hfield _ i fun h => (maskInput_inj.mp h).2.2 (Or.inl hfree)
  · rintro ⟨hprev, rfl, hseq, hseqs⟩
    apply List.ext_getElem?
    intro i
    rw [List.getElem?_mapIdx, List.getElem?_mapIdx]
    have hp : (vin.map CTxIn.prevout)[i]? = (vin'.map CTxIn.prevout)[i]? := by rw [hprev]
    rw [List.getElem?_map, List.getElem?_map] at hp
    cases h₁ : vin[i]? with
    | none =>
      rw [h₁] at hp
      cases h₂ : vin'[i]? with
      | none => rfl
      | some txin' => rw [h₂] at hp; cases hp
    | some txin =>
      rw [h₁] at hp
      cases h₂ : vin'[i]? with
      | none => rw [h₂] at hp; cases hp
      | some txin' =>
        rw [h₂] at hp
        refine congrArg some (maskInput_inj.mpr ⟨Option.some.inj hp, fun _ => rfl, ?_⟩)
        rintro (hfree | rfl)
        · have hs : (vin.map CTxIn.nSequence)[i]? = (vin'.map CTxIn.nSequence)[i]? := by rw [hseqs hfree]
          rw [List.getElem?_map, List.getElem?_map, h₁, h₂] at hs
          exact Option.some.inj hs
        · rw [h₁, h₂] at hseq
          exact Option.some.inj hseq

/-- Of the whole transaction: the fields a type covers are the fields of its copy. -/
theorem maskedTx_inj {tx tx' : CTransaction} {nHashType : HashType} {s s' : CScript}
    (h : InRange tx nIn nHashType) (h' : InRange tx' nIn nHashType) :
    maskedTx (findAndDelete [OP_CODESEPARATOR] s) tx nIn nHashType =
        maskedTx (findAndDelete [OP_CODESEPARATOR] s') tx' nIn nHashType ↔
      SignedAlike nHashType nIn s s' tx tx' := by
  generalize hcode : findAndDelete [OP_CODESEPARATOR] s = code
  generalize hcode' : findAndDelete [OP_CODESEPARATOR] s' = code'
  obtain ⟨txin, hin⟩ : ∃ txin, tx.vin[nIn]? = some txin := ⟨_, List.getElem?_eq_getElem h.input⟩
  obtain ⟨txin', hin'⟩ : ∃ txin, tx'.vin[nIn]? = some txin := ⟨_, List.getElem?_eq_getElem h'.input⟩
  constructor
  · intro heq
    obtain ⟨hversion, htime, hvin, hvout, hlock⟩ := CTransaction.mk.inj heq
    -- the signed input is in the copy either way
    have hsigned : code = code' ∧ txin.prevout = txin'.prevout ∧ txin.nSequence = txin'.nSequence ∧
        (nHashType.anyoneCanPay = false → tx.vin.map CTxIn.prevout = tx'.vin.map CTxIn.prevout ∧
          (freesSequences nHashType = false →
            tx.vin.map CTxIn.nSequence = tx'.vin.map CTxIn.nSequence)) := by
      by_cases hany : nHashType.anyoneCanPay = true
      · rw [if_pos hany, if_pos hany, hin, hin'] at hvin
        obtain ⟨hp, hc, hs⟩ := maskInput_inj.mp (List.cons.inj hvin).1
        exact ⟨hc rfl, hp, hs (Or.inr rfl), fun hnot => absurd hany (by rw [hnot]; simp)⟩
      · rw [if_neg hany, if_neg hany] at hvin
        obtain ⟨hp, hc, hs, hss⟩ := (maskInputs_inj h.input).mp hvin
        have hpi : (tx.vin.map CTxIn.prevout)[nIn]? = (tx'.vin.map CTxIn.prevout)[nIn]? := by rw [hp]
        rw [List.getElem?_map, List.getElem?_map, hin, hin'] at hpi
        rw [hin, hin'] at hs
        exact ⟨hc, Option.some.inj hpi, Option.some.inj hs, fun _ => ⟨hp, hss⟩⟩
    obtain ⟨hc, hp, hs, hall⟩ := hsigned
    refine ⟨hversion, htime, hlock, by rw [hcode, hcode', hc], by rw [hin, hin']; exact congrArg some hp,
      by rw [hin, hin']; exact congrArg some hs, fun hany => (hall hany).1, fun hany hnone hsingle => ?_,
      fun hnone hsingle => ?_, fun hsingle => ?_⟩
    · exact (hall hany).2 (by unfold freesSequences; rw [hnone, hsingle]; rfl)
    · rwa [hnone, hsingle, if_neg (by simp), if_neg (by simp), if_neg (by simp), if_neg (by simp)] at hvout
    · have hnone := HashType.not_isNone hsingle
      rw [if_neg hnone, if_neg hnone, if_pos hsingle, if_pos hsingle] at hvout
      have hout := List.append_cancel_left hvout
      rw [List.getElem?_eq_getElem (h.output hsingle), List.getElem?_eq_getElem (h'.output hsingle)] at hout ⊢
      exact congrArg some (List.cons.inj hout).1
  · intro halike
    have hc : code = code' := by rw [← hcode, ← hcode', halike.scriptCode]
    have hp := halike.prevout
    have hs := halike.nSequence
    unfold maskedTx
    rw [CTransaction.mk.injEq]
    refine ⟨halike.nVersion, halike.nTime, ?_, ?_, halike.nLockTime⟩
    · by_cases hany : nHashType.anyoneCanPay = true
      · rw [hin, hin'] at hp hs
        rw [if_pos hany, if_pos hany, hin, hin']
        exact congrArg (fun txin => [txin])
          (maskInput_inj.mpr ⟨Option.some.inj hp, fun _ => hc, fun _ => Option.some.inj hs⟩)
      · rw [if_neg hany, if_neg hany]
        have hany := Bool.eq_false_iff.mpr hany
        refine (maskInputs_inj h.input).mpr ⟨halike.prevouts hany, hc, hs, fun hfree => ?_⟩
        obtain ⟨hnone, hsingle⟩ := Bool.or_eq_false_iff.mp hfree
        exact halike.nSequences hany hnone hsingle
    · by_cases hnone : nHashType.isNone = true
      · rw [if_pos hnone, if_pos hnone]
      · rw [if_neg hnone, if_neg hnone]
        by_cases hsingle : nHashType.isSingle = true
        · rw [if_pos hsingle, if_pos hsingle, halike.output hsingle]
        · rw [if_neg hsingle, if_neg hsingle]
          exact halike.outputs (Bool.eq_false_iff.mpr hnone) (Bool.eq_false_iff.mpr hsingle)

end Copy

/-! ## The preimage -/

theorem length_findAndDeleteFrom (b : CScript) : ∀ (fuel : Nat) (script : CScript),
    (findAndDeleteFrom b fuel script).length ≤ script.length
  | 0, script => le_rfl
  | fuel + 1, script => by
    unfold findAndDeleteFrom
    split
    · refine le_trans (length_findAndDeleteFrom b fuel _) ?_
      rw [List.length_drop]
      omega
    · cases hop : getOp script with
      | none => exact le_rfl
      | some op =>
        have hshrinks := getOp_shrinks hop
        have hrest := length_findAndDeleteFrom b fuel op.rest
        dsimp only
        rw [List.length_append, List.length_take]
        omega

theorem length_findAndDelete (b script : CScript) : (findAndDelete b script).length ≤ script.length := by
  unfold findAndDelete
  split
  · exact le_rfl
  · exact length_findAndDeleteFrom b _ script

/-- The bytes hashed for one input of two transactions, under two script codes and two types, are the same
    if and only if the types are, and the transactions agree on what the type covers. -/
theorem signaturePreimage_eq_iff {tx tx' : CTransaction} {nIn : Nat} {t t' : HashType} {s s' : CScript}
    (htx : tx.Representable) (htx' : tx'.Representable) (hs : s.length < 2 ^ 64) (hs' : s'.length < 2 ^ 64)
    (h : InRange tx nIn t) (h' : InRange tx' nIn t') :
    signaturePreimage s tx nIn t = signaturePreimage s' tx' nIn t' ↔
      t = t' ∧ SignedAlike t nIn s s' tx tx' := by
  have hcode : ∀ {s : CScript}, s.length < 2 ^ 64 → (findAndDelete [OP_CODESEPARATOR] s).length < 2 ^ 64 :=
    fun hs => lt_of_le_of_lt (length_findAndDelete _ _) hs
  unfold signaturePreimage
  rw [txTmp_eq h, txTmp_eq h', Option.map_some, Option.map_some, Option.some_inj]
  constructor
  · intro heq
    obtain ⟨hmasked, htype⟩ := CTransaction.serialize_delimited _ _
      (maskedTx_representable (hcode hs) htx h) (maskedTx_representable (hcode hs') htx' h') _ _ heq
    obtain rfl : t = t' :=
      BitVec.eq_of_toNat_eq ((toLE_delimited 4).eq_of_put t.isLt t'.isLt htype)
    exact ⟨rfl, (maskedTx_inj h h').mp hmasked⟩
  · rintro ⟨rfl, halike⟩
    rw [(maskedTx_inj h h').mpr halike]

/-! ## The scripts of the inputs do not matter -/

/-- `txTo.vin[nIn].scriptSig = scriptSig` -/
def setScriptSig (txTo : CTransaction) (nIn : Nat) (scriptSig : CScript) : CTransaction :=
  { txTo with vin := txTo.vin.modify nIn fun txin => { txin with scriptSig := scriptSig } }

/-- What an input is signed with is not in what is signed, for any type, and in range or not. -/
theorem signaturePreimage_setScriptSig (s : CScript) (tx : CTransaction) (nIn nIn' : Nat) (t : HashType)
    (scriptSig : CScript) :
    signaturePreimage s (setScriptSig tx nIn' scriptSig) nIn t = signaturePreimage s tx nIn t := by
  have hlen : (setScriptSig tx nIn' scriptSig).vin.length = tx.vin.length := List.length_modify _ _ _
  have hblank : ∀ code, blankSignatures code nIn (setScriptSig tx nIn' scriptSig).vin =
      blankSignatures code nIn tx.vin := by
    intro code
    unfold blankSignatures
    congr 1
    apply List.ext_getElem?
    intro i
    show ((tx.vin.modify nIn' _).map _)[i]? = _
    rw [List.getElem?_map, List.getElem?_modify, List.getElem?_map]
    cases tx.vin[i]? with
    | none => rfl
    | some txin => by_cases hi : nIn' = i <;> simp [hi]
  unfold signaturePreimage txTmp
  dsimp only
  rw [hlen, hblank]
  rfl

theorem signatureHash_setScriptSig (hash : List UInt8 → Uint256) (s : CScript) (tx : CTransaction)
    (nIn nIn' : Nat) (t : HashType) (scriptSig : CScript) :
    signatureHash hash s (setScriptSig tx nIn' scriptSig) nIn t = signatureHash hash s tx nIn t := by
  unfold signatureHash
  rw [signaturePreimage_setScriptSig]

/-! ### One input of two, under `SIGHASH_SINGLE | SIGHASH_ANYONECANPAY` -/

def spends (n : UInt32) (scriptSig : CScript) : CTxIn := ⟨⟨0xabc, n⟩, scriptSig, 0xffffffff⟩

/-- Two inputs and two outputs. -/
def twoInputs : CTransaction := ⟨1, 1400000000, [spends 0 [0x51], spends 1 [0x52]], [⟨5, [0x51]⟩, ⟨7, [0x52]⟩], 0⟩

/-- The first input and the first output are others, and there is a third one of each. -/
def threeInputs : CTransaction :=
  ⟨1, 1400000000, [spends 8 [], spends 1 [0x53], spends 2 []], [⟨6, []⟩, ⟨7, [0x52]⟩, ⟨9, []⟩], 0⟩

theorem inRange_of_lt {tx : CTransaction} {nIn : Nat} {t : HashType} (h : nIn < tx.vin.length)
    (h' : nIn < tx.vout.length) : InRange tx nIn t := ⟨h, fun _ => h'⟩

/-- The second input is signed in the same bytes; a code separator in the script makes no difference. -/
theorem signaturePreimage_single : signaturePreimage [0xac] twoInputs 1 0x83 =
    signaturePreimage [0xab, 0xac] threeInputs 1 0x83 := by
  refine (signaturePreimage_eq_iff ⟨by decide, by decide, by decide⟩ ⟨by decide, by decide, by decide⟩
    (by decide) (by decide) (inRange_of_lt (by decide) (by decide))
    (inRange_of_lt (by decide) (by decide))).mpr ⟨rfl, ?_⟩
  exact ⟨rfl, rfl, rfl, by decide, rfl, rfl, by decide, by decide, by decide, by decide⟩

end SignatureHash

end Silkcoin
