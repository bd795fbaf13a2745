/-
  `mapValue_t`: the map of texts a wallet record keeps, and the fields that travel in it.

  A text is its bytes; a map is written as its size and its entries in the order of their keys, and filled
  again entry by entry.  The position of a record in the wallet has no place of its own in the encoding: it
  is an entry "n" of the map, printed in decimal, put in before writing and taken out again after
  (`writeOrderPos`, `readOrderPos`).
-/
import Silkcoin.Serialize
import Silkcoin.Lib.Decimal
import Silkcoin.Lib.OrderedMap

namespace Silkcoin

open Codec Decimal OrderedMap Std

/-! ## Numbers as texts -/

/-- A text of the source. -/
def ascii (s : String) : List UInt8 := s.toList.map fun c => UInt8.ofNat c.toNat

def i64tostr (n : Int) : List UInt8 := if n < 0 then 45 :: decimal n.natAbs else decimal n.natAbs

/-- `isspace` of the C library. -/
def isSpace (b : UInt8) : Bool := decide (b = 32 ∨ 9 ≤ b.toNat ∧ b.toNat ≤ 13)

/-- `strtoll`: what is too large or too small becomes the last number there is. -/
def atoi64 (str : List UInt8) : Int :=
  let text := str.dropWhile isSpace
  if text.head? = some 45 then max (-2 ^ 63) (-(value 0 text.tail : Nat))
  else if text.head? = some 43 then min (2 ^ 63 - 1) (value 0 text.tail : Nat)
  else min (2 ^ 63 - 1) (value 0 text : Nat)

theorem atoi64_decimal {n : Nat} (h : n < 2 ^ 63) : atoi64 (decimal n) = n := by
  obtain ⟨d, hd, l, hl⟩ := decimal_eq_cons n
  have hdigit : ∀ b : UInt8, b.toNat < 48 → digit d ≠ b := by
    rintro b hb rfl
    have := toNat_digit hd
    omega
  have hspace : isSpace (digit d) = false := by
    have := toNat_digit hd
    refine decide_eq_false ?_
    rintro (h32 | hctl)
    · exact hdigit 32 (by decide) h32
    · omega
  have hvalue := value_decimal n
  unfold atoi64
  rw [hl] at hvalue ⊢
  rw [List.dropWhile_cons, hspace, if_neg Bool.false_ne_true]
  dsimp only
  rw [List.head?_cons, if_neg (fun h => hdigit 45 (by decide) (Option.some.inj h)),
    if_neg (fun h => hdigit 43 (by decide) (Option.some.inj h)), hvalue]
  omega

/-- What is printed is read. -/
theorem atoi64_i64tostr {n : Int} (h : FitsInt 8 n) : atoi64 (i64tostr n) = n := by
  have h : -(2 ^ 64 : Int) ≤ 2 * n ∧ 2 * n < 2 ^ 64 := h
  unfold i64tostr
  split
  · have hspace : isSpace 45 = false := by decide
    unfold atoi64
    rw [List.dropWhile_cons, hspace, if_neg Bool.false_ne_true]
    dsimp only
    rw [List.head?_cons, if_pos rfl, List.tail_cons, value_decimal]
    omega
  · rw [atoi64_decimal (by omega)]
    omega

/-! ## Texts and maps -/

/-- A map from texts to texts. -/
abbrev MapValue := ExtTreeMap (List UInt8) (List UInt8)

def writeString (str : List UInt8) : List UInt8 := writeCompactSize str.length ++ str

def readString : Reader (List UInt8) := do
  let nSize ← readCompactSize
  readBytes nSize

theorem readString_lawful : Lawful (fun str : List UInt8 => str.length ≤ MAX_SIZE.toNat) writeString readString := by
  refine readCompactSize_lawful.field List.length (fun _ h => h) fun n hn => ?_
  have h := readBytes_lawful n
  refine ⟨fun str hstr => h.get_put str hstr.2, fun s str s' hget => ?_, h.put_get⟩
  have hlength := h.get_fits s str s' hget
  exact ⟨hlength ▸ hn, hlength⟩

/-- A count over `MAX_SIZE` is written, and then not read. -/
theorem run_readCompactSize_long {n : Nat} (hlong : MAX_SIZE.toNat < n) (hn : n ≤ 0xffffffff) (rest : List UInt8)
    (c : Bool) : readCompactSize.run ⟨writeCompactSize n ++ rest, c⟩ = none := by
  have hmax : MAX_SIZE.toNat = 33554432 := rfl
  have hwrite : writeCompactSize n = toLE 1 254 ++ toLE 4 n := by
    unfold writeCompactSize
    rw [if_neg (by omega), if_neg (by omega), if_pos hn]
  unfold readCompactSize
  rw [hwrite, List.append_assoc, (readLE_lawful 1).run_bind_put (by decide), if_neg (by decide),
    if_neg (by decide), if_pos rfl, (readLE_lawful 4).run_bind_put (by omega)]
  show (if n > MAX_SIZE.toNat then none else some _) = none
  rw [if_pos hlong]

theorem run_readString_long {str : List UInt8} (hlong : MAX_SIZE.toNat < str.length)
    (hlength : str.length ≤ 0xffffffff) (rest : List UInt8) (c : Bool) :
    readString.run ⟨writeString str ++ rest, c⟩ = none := by
  unfold readString writeString
  rw [run_bind, List.append_assoc, run_readCompactSize_long hlong hlength]
  rfl

/-- Both texts of an entry are not too long to be read. -/
def FitsItem (item : List UInt8 × List UInt8) : Prop :=
  item.1.length ≤ MAX_SIZE.toNat ∧ item.2.length ≤ MAX_SIZE.toNat

def writeItem (item : List UInt8 × List UInt8) : List UInt8 := writeString item.1 ++ writeString item.2

def readItem : Reader (List UInt8 × List UInt8) := do
  let first ← readString
  let second ← readString
  return (first, second)

theorem readItem_lawful : Lawful FitsItem writeItem readItem := by
  refine readString_lawful.field Prod.fst (fun _ h => h.1) fun first hfirst => ?_
  refine readString_lawful.iso (Prod.mk first) Prod.snd ?_ ?_
  · rintro ⟨_, second⟩ ⟨h, rfl⟩
    exact ⟨h.2, rfl⟩
  · exact fun second hsecond => ⟨⟨⟨hfirst, hsecond⟩, rfl⟩, rfl⟩

def writeMapValue (m : MapValue) : List UInt8 := writeCompactSize m.size ++ putAll writeItem m.toList

def readMapValue : Reader MapValue := do
  let nSize ← readCompactSize
  let items ← readAll readItem nSize
  return fill items

/-- Neither the map nor a text in it is too long to be read. -/
def FitsMap (m : MapValue) : Prop := m.size ≤ MAX_SIZE.toNat ∧ ∀ item ∈ m.toList, FitsItem item

theorem run_readMapValue {β : Type} {m : MapValue} (h : FitsMap m) (k : MapValue → Reader β) (rest : List UInt8)
    (c : Bool) : (readMapValue >>= k).run ⟨writeMapValue m ++ rest, c⟩ = (k m).run ⟨rest, c⟩ := by
  have hread : readMapValue.run ⟨writeMapValue m ++ rest, c⟩ = some (m, ⟨rest, c⟩) := by
    unfold readMapValue writeMapValue
    rw [List.append_assoc, readCompactSize_lawful.run_bind_put h.1,
      (readAll_lawful readItem_lawful m.size).run_bind_put ⟨ExtTreeMap.length_toList, h.2⟩, fill_toList]
    rfl
  rw [run_bind, hread]
  rfl

/-- An entry that is too long is not read. -/
theorem run_readItem_long {item : List UInt8 × List UInt8} (hlong : ¬ FitsItem item)
    (h : item.1.length ≤ 0xffffffff ∧ item.2.length ≤ 0xffffffff) (rest : List UInt8) (c : Bool) :
    readItem.run ⟨writeItem item ++ rest, c⟩ = none := by
  unfold readItem writeItem
  rw [List.append_assoc]
  by_cases hfirst : item.1.length ≤ MAX_SIZE.toNat
  · have hsecond : MAX_SIZE.toNat < item.2.length := Nat.lt_of_not_le fun hle => hlong ⟨hfirst, hle⟩
    rw [readString_lawful.run_bind_put hfirst, run_bind, run_readString_long hsecond h.2]
    rfl
  · rw [run_bind, run_readString_long (Nat.lt_of_not_le hfirst) h.1]
    rfl

theorem run_readItems_long {items : List (List UInt8 × List UInt8)} (hlong : ∃ item ∈ items, ¬ FitsItem item)
    (h : ∀ item ∈ items, item.1.length ≤ 0xffffffff ∧ item.2.length ≤ 0xffffffff) (rest : List UInt8) (c : Bool) :
    (readAll readItem items.length).run ⟨putAll writeItem items ++ rest, c⟩ = none := by
  induction items with
  | nil =>
    obtain ⟨item, hmem, -⟩ := hlong
    cases hmem
  | cons item items ih =>
    show (readItem >>= _).run ⟨putAll writeItem (item :: items) ++ rest, c⟩ = none
    rw [putAll, List.flatMap_cons, List.append_assoc]
    by_cases hfits : FitsItem item
    · have hrest : ∃ item ∈ items, ¬ FitsItem item := by
        obtain ⟨item', hmem, hlong⟩ := hlong
        rcases List.mem_cons.mp hmem with rfl | hmem
        · exact absurd hfits hlong
        · exact ⟨item', hmem, hlong⟩
      rw [readItem_lawful.run_bind_put hfits, run_bind]
      show ((readAll readItem items.length).run ⟨putAll writeItem items ++ rest, c⟩).bind _ = none
      rw [ih hrest fun item hmem => h item (List.mem_cons_of_mem _ hmem)]
      rfl
    · rw [run_bind, run_readItem_long hfits (h item List.mem_cons_self)]
      rfl

/-- A map with an entry that is too long is not read. -/
theorem run_readMapValue_long {m : MapValue} (hlong : ∃ item ∈ m.toList, ¬ FitsItem item)
    (hsize : m.size ≤ MAX_SIZE.toNat)
    (h : ∀ item ∈ m.toList, item.1.length ≤ 0xffffffff ∧ item.2.length ≤ 0xffffffff) (rest : List UInt8) (c : Bool) :
    readMapValue.run ⟨writeMapValue m ++ rest, c⟩ = none := by
  unfold readMapValue writeMapValue
  rw [List.append_assoc, readCompactSize_lawful.run_bind_put hsize, ← ExtTreeMap.length_toList, run_bind,
    run_readItems_long hlong h]
  rfl

/-- A map that is written in few bytes is not too long. -/
theorem fitsMap_of_length {m : MapValue} (h : (writeMapValue m).length ≤ MAX_SIZE.toNat) : FitsMap m := by
  have hlength : (writeMapValue m).length =
      (writeCompactSize m.size).length + (m.toList.map fun item => (writeItem item).length).sum := by
    unfold writeMapValue putAll
    rw [List.length_append, List.length_flatMap]
  have hitem : ∀ item : List UInt8 × List UInt8, 1 + item.1.length + item.2.length ≤ (writeItem item).length := by
    intro item
    unfold writeItem writeString
    rw [List.length_append, List.length_append, List.length_append, length_writeCompactSize]
    unfold getSizeOfCompactSize
    repeat' split
    all_goals omega
  refine ⟨?_, fun item hmem => ?_⟩
  · have hone : ∀ item : List UInt8 × List UInt8, 1 ≤ (writeItem item).length :=
      fun item => by have := hitem item; omega
    have := length_le_of_size hone m.toList
    rw [ExtTreeMap.length_toList] at this
    omega
  · have := size_le_of_mem (fun item : List UInt8 × List UInt8 => (writeItem item).length) hmem
    have := hitem item
    unfold FitsItem
    omega

/-! ## The position -/

def keyOrderPos : List UInt8 := ascii "n"

def readOrderPos (mapValue : MapValue) : Int :=
  match mapValue[keyOrderPos]? with
  | none => -1
  | some str => atoi64 str

def writeOrderPos (nOrderPos : Int) (mapValue : MapValue) : MapValue :=
  if nOrderPos = -1 then mapValue else mapValue.insert keyOrderPos (i64tostr nOrderPos)

theorem readOrderPos_of_none {mapValue : MapValue} (h : mapValue[keyOrderPos]? = none) :
    readOrderPos mapValue = -1 := by
  unfold readOrderPos
  rw [h]

theorem readOrderPos_of_some {mapValue : MapValue} {n : Int} (hn : FitsInt 8 n)
    (h : mapValue[keyOrderPos]? = some (i64tostr n)) : readOrderPos mapValue = n := by
  unfold readOrderPos
  rw [h]
  exact atoi64_i64tostr hn

/-- The position is read as it was written. -/
theorem readOrderPos_writeOrderPos {n : Int} (hn : FitsInt 8 n) {mapValue : MapValue}
    (hmap : mapValue[keyOrderPos]? = none) : readOrderPos (writeOrderPos n mapValue) = n := by
  unfold writeOrderPos
  split
  · rename_i hnone
    rw [readOrderPos_of_none hmap, hnone]
  · apply readOrderPos_of_some hn
    rw [getElem?_insert_eq, if_pos rfl]

/-- And taking it out leaves the map. -/
theorem erase_writeOrderPos (n : Int) {mapValue : MapValue} (hmap : mapValue[keyOrderPos]? = none) :
    (writeOrderPos n mapValue).erase keyOrderPos = mapValue := by
  apply ExtTreeMap.ext_getElem?
  intro k
  rw [getElem?_erase_eq]
  unfold writeOrderPos
  split
  · rename_i hk
    rw [← hk, hmap]
  · rename_i hk
    split
    · rfl
    · rw [getElem?_insert_eq, if_neg hk]

end Silkcoin
