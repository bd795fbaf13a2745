/-
  `CAccountingEntry` on disk: a transfer between accounts.

  The record was made before its map and position were, and so they hide in the COMMENT: behind its text
  stand a zero byte, the map, and whatever bytes a later version may add.  A reader that finds a zero byte
  cuts the comment there and reads the map from the rest; what the map leaves is kept as it is, and written
  again.

  Both directions change the object, and the writer puts back what it changed (`serialize_object`).  The cut
  is where it was joined because the text has no zero byte itself (`storedComment`, `cut_storedComment`); so
  what was written is read, as long as the comment with all that hides in it is not too long
  (`accounting_roundtrip`).
-/
import Silkcoin.MapValue
import Silkcoin.Wallet

namespace Silkcoin

open Codec OrderedMap Std

/-- An entry of the account book with all that it says. -/
structure CAccountingObject extends CAccountingEntry where
  strAccount : List UInt8
  nCreditDebit : Int
  strOtherAccount : List UInt8
  strComment : List UInt8
  mapValue : MapValue
  nEntryNo : BitVec 64
  ssExtra : List UInt8

namespace CAccountingObject

/-- `SetNull`, of a new object. -/
def null : CAccountingObject where
  nOrderPos := -1
  nTime := 0
  strAccount := []
  nCreditDebit := 0
  strOtherAccount := []
  strComment := []
  mapValue := ∅
  nEntryNo := 0
  ssExtra := []

/-- What is left of a text that is cut at `nSepPos`, if there is one. -/
def cut (str : List UInt8) (nSepPos : Option Nat) : List UInt8 :=
  match nSepPos with
  | none => str
  | some pos => str.take pos

variable (e : CAccountingObject)

/-! ## Writing and reading -/

/-- The comment as it is written: with the map and the extra bytes behind it, if there are any. -/
def storedComment : List UInt8 :=
  let mapValue := writeOrderPos e.nOrderPos e.mapValue
  if mapValue.isEmpty ∧ e.ssExtra.isEmpty then e.strComment
  else e.strComment ++ ([0] ++ writeMapValue mapValue ++ e.ssExtra)

/-- `Serialize`: the bytes, and the object it leaves. -/
def serialize (nType : Nat) (nVersion : Int) : List UInt8 × CAccountingObject :=
  let nSepPos := e.storedComment.idxOf? 0
  ((if nType &&& SER_GETHASH = 0 then toLEInt 4 nVersion else []) ++
    (toLEInt 8 e.nCreditDebit ++
    (toLEInt 8 e.nTime ++
    (writeString e.strOtherAccount ++
    writeString e.storedComment))),
   { e with
      strComment := cut e.storedComment nSepPos
      mapValue := (writeOrderPos e.nOrderPos e.mapValue).erase keyOrderPos })

/-- What hides behind the separator: the map, and the bytes it leaves.  Without a separator there is no map,
    and the extra bytes are those the object had. -/
def readHidden (me : CAccountingObject) (strComment : List UInt8) : Option (MapValue × List UInt8) :=
  match strComment.idxOf? 0 with
  | none => some (∅, me.ssExtra)
  | some nSepPos => (readMapValue.run ⟨strComment.drop (nSepPos + 1), true⟩).map fun r => (r.1, r.2.bytes)

/-- `Unserialize` into an object, behind the version. -/
def unserializeFields (me : CAccountingObject) : Reader CAccountingObject := do
  let nCreditDebit ← readLEInt 8
  let nTime ← readLEInt 8
  let strOtherAccount ← readString
  let strComment ← readString
  let (mapValue, ssExtra) ← liftM (readHidden me strComment)
  return { me with
    nCreditDebit := nCreditDebit
    nTime := nTime
    strOtherAccount := strOtherAccount
    strComment := cut strComment (strComment.idxOf? 0)
    mapValue := mapValue.erase keyOrderPos
    nOrderPos := readOrderPos mapValue
    ssExtra := ssExtra }

def unserialize (nType : Nat) (me : CAccountingObject) : Reader CAccountingObject :=
  if nType &&& SER_GETHASH = 0 then do
    let _ ← readLEInt 4
    unserializeFields me
  else unserializeFields me

/-- Its numbers are of the types they have, and its texts as they are written not too long to be read. -/
structure Fits : Prop where
  nCreditDebit : FitsInt 8 e.nCreditDebit
  nTime : FitsInt 8 e.nTime
  nOrderPos : FitsInt 8 e.nOrderPos
  strOtherAccount : e.strOtherAccount.length ≤ MAX_SIZE.toNat
  strComment : e.storedComment.length ≤ MAX_SIZE.toNat

/-! ## The separator -/

variable {e}

theorem idxOf?_text {text : List UInt8} (h : (0 : UInt8) ∉ text) : text.idxOf? 0 = none :=
  List.idxOf?_eq_none_iff.mpr h

theorem idxOf?_joined {text : List UInt8} (h : (0 : UInt8) ∉ text) (hidden : List UInt8) :
    (text ++ (0 :: hidden)).idxOf? 0 = some text.length := by
  rw [List.idxOf?, List.findIdx?_append, ← List.idxOf?, idxOf?_text h, List.idxOf?_cons]
  show some (0 + text.length) = _
  rw [Nat.zero_add]

/-- The comment is cut where it was joined. -/
theorem cut_storedComment (h : (0 : UInt8) ∉ e.strComment) :
    cut e.storedComment (e.storedComment.idxOf? 0) = e.strComment := by
  unfold storedComment
  dsimp only
  split
  · rw [idxOf?_text h]
    rfl
  · rw [List.singleton_append, List.cons_append, idxOf?_joined h]
    exact List.take_left

/-- What hides in the comment is found there. -/
theorem readHidden_storedComment (h : (0 : UInt8) ∉ e.strComment) (hfits : e.Fits) {me : CAccountingObject}
    (hme : me.ssExtra = []) :
    readHidden me e.storedComment = some (writeOrderPos e.nOrderPos e.mapValue, e.ssExtra) := by
  have hlength := hfits.strComment
  unfold storedComment at hlength ⊢
  dsimp only at hlength ⊢
  split at hlength
  · rename_i hempty
    rw [if_pos hempty]
    unfold readHidden
    rw [idxOf?_text h, ExtTreeMap.isEmpty_iff.mp hempty.1, List.isEmpty_iff.mp hempty.2]
    show some (∅, me.ssExtra) = some (∅, [])
    rw [hme]
  · rename_i hsome
    rw [if_neg hsome]
    rw [List.length_append, List.length_append, List.length_append, List.length_singleton] at hlength
    have hfitsMap : FitsMap (writeOrderPos e.nOrderPos e.mapValue) := fitsMap_of_length (by omega)
    rw [List.append_assoc, List.singleton_append]
    unfold readHidden
    rw [idxOf?_joined h]
    dsimp only
    have hdrop : (e.strComment ++ 0 :: (writeMapValue (writeOrderPos e.nOrderPos e.mapValue) ++ e.ssExtra)).drop
        (e.strComment.length + 1) = writeMapValue (writeOrderPos e.nOrderPos e.mapValue) ++ e.ssExtra := by
      rw [← List.drop_drop, List.drop_left, List.drop_succ_cons, List.drop_zero]
    have hread := run_readMapValue hfitsMap pure e.ssExtra true
    rw [bind_pure] at hread
    rw [hdrop, hread]
    rfl

theorem run_liftM_some {α β : Type} (a : α) (k : α → Reader β) (s : Stream) :
    ((liftM (some a) : Reader α) >>= k).run s = (k a).run s := rfl

/-- The object that reads an entry: what is no part of the encoding stays as it is. -/
def readInto (me e : CAccountingObject) : CAccountingObject :=
  { e with strAccount := me.strAccount, nEntryNo := me.nEntryNo }

theorem run_unserializeFields (h : (0 : UInt8) ∉ e.strComment) (hmap : e.mapValue[keyOrderPos]? = none)
    (hfits : e.Fits) {me : CAccountingObject} (hme : me.ssExtra = []) (rest : List UInt8) (c : Bool) :
    (unserializeFields me).run ⟨(e.serialize SER_GETHASH 0).1 ++ rest, c⟩ = some (readInto me e, ⟨rest, c⟩) := by
  unfold serialize unserializeFields
  dsimp only
  rw [if_neg (by decide), List.nil_append]
  simp only [List.append_assoc]
  rw [(readLEInt_lawful 8).run_bind_put hfits.nCreditDebit, (readLEInt_lawful 8).run_bind_put hfits.nTime,
    readString_lawful.run_bind_put hfits.strOtherAccount, readString_lawful.run_bind_put hfits.strComment,
    readHidden_storedComment h hfits hme, run_liftM_some]
  dsimp only
  rw [cut_storedComment h, erase_writeOrderPos _ hmap, readOrderPos_writeOrderPos hfits.nOrderPos hmap]
  rfl

/-- What is no part of the encoding is not written. -/
theorem serialize_readInto (me e : CAccountingObject) (nType : Nat) (nVersion : Int) :
    ((readInto me e).serialize nType nVersion).1 = (e.serialize nType nVersion).1 := rfl

/-- **An entry is read back as it was written**, with its comment, its map, its position and the bytes
    behind, and is then written in the same bytes again. -/
theorem accounting_roundtrip (e me : CAccountingObject) (hcomment : (0 : UInt8) ∉ e.strComment)
    (hmap : e.mapValue[keyOrderPos]? = none) (hfits : e.Fits) (hme : me.ssExtra = []) (nType : Nat) (nVersion : Int)
    (hversion : FitsInt 4 nVersion) (rest : List UInt8) (c : Bool) :
    ∃ r, (unserialize nType me).run ⟨(e.serialize nType nVersion).1 ++ rest, c⟩ = some (r, ⟨rest, c⟩) ∧
      r.strComment = e.strComment ∧ r.mapValue = e.mapValue ∧ r.nOrderPos = e.nOrderPos ∧
      r.ssExtra = e.ssExtra ∧ r = { e with strAccount := me.strAccount, nEntryNo := me.nEntryNo } ∧
      ∀ nType' nVersion', (r.serialize nType' nVersion').1 = (e.serialize nType' nVersion').1 := by
  refine ⟨readInto me e, ?_, rfl, rfl, rfl, rfl, rfl, serialize_readInto me e⟩
  have hfields := run_unserializeFields hcomment hmap hfits hme rest c
  unfold serialize at hfields ⊢
  dsimp only at hfields ⊢
  rw [if_neg (by decide), List.nil_append] at hfields
  unfold unserialize
  by_cases htype : nType &&& SER_GETHASH = 0
  · rw [if_pos htype, if_pos htype, List.append_assoc, (readLEInt_lawful 4).run_bind_put hversion]
    exact hfields
  · rw [if_neg htype, if_neg htype, List.nil_append]
    exact hfields

/-- A move with a position, a text in its map and two bytes of a later version. -/
def rentEntry : CAccountingObject :=
  { null with
    nCreditDebit := -500
    nTime := 1407023400
    strOtherAccount := ascii "house"
    strComment := ascii "rent"
    mapValue := (∅ : MapValue).insert (ascii "to") (ascii "bank")
    nOrderPos := 42
    ssExtra := [7, 0] }

theorem rentEntry_roundtrip :
    ∃ r, (unserialize SER_DISK null).run ⟨(rentEntry.serialize SER_DISK 60014).1 ++ [9], true⟩ =
        some (r, ⟨[9], true⟩) ∧
      r.strComment = rentEntry.strComment ∧ r.mapValue = rentEntry.mapValue ∧ r.nOrderPos = rentEntry.nOrderPos ∧
      r.ssExtra = rentEntry.ssExtra ∧
      r = { rentEntry with strAccount := null.strAccount, nEntryNo := null.nEntryNo } ∧
      ∀ nType' nVersion', (r.serialize nType' nVersion').1 = (rentEntry.serialize nType' nVersion').1 :=
  accounting_roundtrip rentEntry null (by decide) (by decide)
    ⟨by decide, by decide, by decide, by decide, by decide⟩ rfl SER_DISK 60014 (by decide) [9] true

/-- The name of the other account has one byte more than can be read. -/
def longEntry : CAccountingObject := { null with strOtherAccount := List.replicate 33554433 97 }

theorem longEntry_lost : ¬ ∀ e : CAccountingObject, (0 : UInt8) ∉ e.strComment → e.mapValue[keyOrderPos]? = none →
    ∃ r s, (unserialize SER_DISK null).run ⟨(e.serialize SER_DISK 60014).1, true⟩ = some (r, s) := by
  intro hclaim
  obtain ⟨r, s, hread⟩ := hclaim longEntry List.not_mem_nil ExtTreeMap.getElem?_empty
  have hlength : longEntry.strOtherAccount.length = 33554433 := List.length_replicate
  have hlong : MAX_SIZE.toNat < longEntry.strOtherAccount.length := by
    rw [hlength]
    decide
  unfold serialize unserialize unserializeFields at hread
  rw [if_pos (by decide), if_pos (by decide), (readLEInt_lawful 4).run_bind_put (by decide),
    (readLEInt_lawful 8).run_bind_put (by decide), (readLEInt_lawful 8).run_bind_put (by decide), run_bind,
    run_readString_long hlong (by omega)] at hread
  cases hread

end CAccountingObject

/-! ## The entries in the file -/

/-- The records "acentry", filed under account and number. -/
abbrev AccountRecords := BatchStore.StdMap (List UInt8 × BitVec 64) CAccountingObject

namespace AccountRecords

/-- The key of an entry as the file sorts by it. -/
def keyBytes (k : List UInt8 × BitVec 64) : List UInt8 := writeString k.1 ++ toLE 8 k.2.toNat

/-- `ListAccountCreditDebit`: account and number are read from the key. -/
def listAccountCreditDebit (records : AccountRecords) (strAccount : List UInt8) : List CAccountingObject :=
  let sorted := records.entries.insertionSort fun r r' => keyBytes r.1 ≤ keyBytes r'.1
  (sorted.filter fun r => decide (strAccount = ascii "*" ∨ r.1.1 = strAccount)).map fun r =>
    { r.2 with strAccount := r.1.1, nEntryNo := r.1.2 }

theorem mem_listAccountCreditDebit {records : AccountRecords} {strAccount : List UInt8}
    (hone : strAccount ≠ ascii "*") {e : CAccountingObject} : e ∈ records.listAccountCreditDebit strAccount ↔
      ∃ nEntryNo r, records.lookup (strAccount, nEntryNo) = some r ∧
        e = { r with strAccount := strAccount, nEntryNo := nEntryNo } := by
  unfold listAccountCreditDebit
  dsimp only
  rw [List.mem_map]
  constructor
  · rintro ⟨⟨⟨account, nEntryNo⟩, r⟩, hr, rfl⟩
    obtain ⟨hmem, haccount⟩ := List.mem_filter.mp hr
    have hmem' := (List.perm_insertionSort _ _).mem_iff.mp hmem
    obtain rfl : account = strAccount := (of_decide_eq_true haccount).resolve_left hone
    exact ⟨nEntryNo, r, AList.mem_lookup_iff.mpr hmem', rfl⟩
  · rintro ⟨nEntryNo, r, hlookup, rfl⟩
    refine ⟨⟨(strAccount, nEntryNo), r⟩, List.mem_filter.mpr ⟨?_, decide_eq_true (Or.inr rfl)⟩, rfl⟩
    exact (List.perm_insertionSort _ _).mem_iff.mpr (AList.mem_lookup_iff.mp hlookup)

end AccountRecords

end Silkcoin
