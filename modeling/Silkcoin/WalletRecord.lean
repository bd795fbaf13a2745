/-
  `CWalletTx` on disk: a wallet transaction with everything the wallet notes beside it.

  Four of its fields have no place in the encoding and travel as entries of the map of texts: the account,
  the flags of the spent outputs as a text of digits, the position, and the smart time.  A writer puts them
  into the map of the OBJECT and takes them out again; a reader takes them out of the map it has read.  An
  entry "version", which nobody writes any more, is taken out as well.

  So the object is as it was, and is read back (`walletTx_roundtrip`), if its map has none of the FIVE keys;
  an entry "version" is lost, on disk and in memory (`version_lost`).  Every combination of fields that are
  not there is covered by one fact about the map as it is written (`getElem?_storedMap`).
-/
import Silkcoin.MapValue
import Silkcoin.Wallet

namespace Silkcoin

open Codec Decimal OrderedMap Std

/-! ## Merkle transactions -/

/-- A transaction and its place in a block. -/
structure CMerkleTx where
  tx : CTransaction
  hashBlock : Uint256
  vMerkleBranch : List Uint256
  nIndex : Int
deriving DecidableEq, Repr

/-- The objects that are read into the vectors of a wallet transaction. -/
structure WalletSizes extends ObjectSizes where
  hash : ObjectSize
  merkleTx : ObjectSize
  item : ObjectSize

def writeUint256 (h : Uint256) : List UInt8 := toLE 32 h.toNat

namespace CMerkleTx

def serialize (m : CMerkleTx) : List UInt8 :=
  m.tx.serialize ++
  (toLE 32 m.hashBlock.toNat ++
  (writeVector writeUint256 m.vMerkleBranch ++
  toLEInt 4 m.nIndex))

def unserialize (Z : WalletSizes) : Reader CMerkleTx := do
  let tx ← CTransaction.unserialize Z.toObjectSizes
  let hashBlock ← readUint256
  let vMerkleBranch ← readVector Z.hash readUint256
  let nIndex ← readLEInt 4
  return ⟨tx, hashBlock, vMerkleBranch, nIndex⟩

structure Fits (m : CMerkleTx) : Prop where
  tx : m.tx.Fits
  vMerkleBranch : m.vMerkleBranch.length ≤ MAX_SIZE.toNat
  nIndex : FitsInt 4 m.nIndex

theorem unserialize_lawful (Z : WalletSizes) : Lawful Fits serialize (unserialize Z) := by
  refine (CTransaction.unserialize_lawful Z.toObjectSizes).field CMerkleTx.tx (fun _ h => h.tx) fun tx htx => ?_
  refine readUint256_lawful.field CMerkleTx.hashBlock (fun _ _ => trivial) fun hashBlock _ => ?_
  have hvector : Lawful (fun v : List Uint256 => v.length ≤ MAX_SIZE.toNat ∧ ∀ a ∈ v, True)
      (writeVector writeUint256) (readVector Z.hash readUint256) := readVector_lawful readUint256_lawful Z.hash
  refine hvector.field CMerkleTx.vMerkleBranch
    (fun _ h => ⟨h.1.1.vMerkleBranch, fun _ _ => trivial⟩) fun vMerkleBranch hv => ?_
  refine (readLEInt_lawful 4).iso (CMerkleTx.mk tx hashBlock vMerkleBranch) CMerkleTx.nIndex ?_ ?_
  · rintro ⟨_, _, _, nIndex⟩ ⟨⟨⟨h, rfl⟩, rfl⟩, rfl⟩
    exact ⟨h.nIndex, rfl⟩
  · exact fun nIndex hn => ⟨⟨⟨⟨⟨htx, hv.1, hn⟩, rfl⟩, rfl⟩, rfl⟩, rfl⟩

end CMerkleTx

/-! ## The record -/

/-- A wallet transaction with the fields that only its record has. -/
structure CWalletTxObject extends CWalletTx where
  vtxPrev : List CMerkleTx
  mapValue : MapValue
  vOrderForm : List (List UInt8 × List UInt8)
  fTimeReceivedIsTxTime : UInt32
  strFromAccount : List UInt8

namespace CWalletTxObject

def keyFromAccount : List UInt8 := ascii "fromaccount"
def keyVersion : List UInt8 := ascii "version"
def keySpent : List UInt8 := ascii "spent"
def keyTimeSmart : List UInt8 := ascii "timesmart"

/-- The flags as digits. -/
def spentText (vfSpent : List Bool) : List UInt8 := vfSpent.map fun f => if f then 49 else 48

/-- A `char` that holds a truth value. -/
def writeFlag (f : Bool) : List UInt8 := toLE 1 (if f then 1 else 0)

def readFlag : Reader Bool := do return decide (0 < (← readLE 1))

/-- What goes out of the map when writing and reading are done. -/
def erased (mapValue : MapValue) : MapValue :=
  ((((mapValue.erase keyFromAccount).erase keyVersion).erase keySpent).erase keyOrderPos).erase keyTimeSmart

variable (w : CWalletTxObject)

def merkleTx : CMerkleTx := ⟨w.tx, w.hashBlock, w.vMerkleBranch, w.nIndex⟩

/-- The map as it is written. -/
def storedMap : MapValue :=
  let mapValue := w.mapValue.insert keyFromAccount w.strFromAccount
  let mapValue := mapValue.insert keySpent (spentText w.vfSpent)
  let mapValue := writeOrderPos w.nOrderPos mapValue
  if w.nTimeSmart ≠ 0 then mapValue.insert keyTimeSmart (decimal w.nTimeSmart.toNat) else mapValue

/-- `Serialize`: the bytes, and the object it leaves. -/
def serialize : List UInt8 × CWalletTxObject :=
  (w.merkleTx.serialize ++
   (writeVector CMerkleTx.serialize w.vtxPrev ++
   (writeMapValue w.storedMap ++
   (writeVector writeItem w.vOrderForm ++
   (toLE 4 w.fTimeReceivedIsTxTime.toNat ++
   (toLE 4 w.nTimeReceived.toNat ++
   (writeFlag w.fFromMe ++
   writeFlag (w.vfSpent.any fun f => f))))))),
   { w with mapValue := erased w.storedMap })

/-- The flags of the spent outputs: of an old record, the same for all. -/
def readSpent (mapValue : MapValue) (vout : List CTxOut) (fSpent : Bool) : List Bool :=
  match mapValue[keySpent]? with
  | some str => str.map fun c => decide (c ≠ 48)
  | none => List.replicate vout.length fSpent

def readTimeSmart (mapValue : MapValue) : UInt32 :=
  match mapValue[keyTimeSmart]? with
  | some str => unsigned (atoi64 str)
  | none => 0

/-- `Unserialize`; all that an object held before is gone. -/
def unserialize (Z : WalletSizes) : Reader CWalletTxObject := do
  let m ← CMerkleTx.unserialize Z
  let vtxPrev ← readVector Z.merkleTx (CMerkleTx.unserialize Z)
  let mapValue ← readMapValue
  let vOrderForm ← readVector Z.item readItem
  let fTimeReceivedIsTxTime ← readUInt32
  let nTimeReceived ← readUInt32
  let fFromMe ← readFlag
  let fSpent ← readFlag
  return {
    tx := m.tx
    hashBlock := m.hashBlock
    vMerkleBranch := m.vMerkleBranch
    nIndex := m.nIndex
    nTimeReceived := nTimeReceived
    nTimeSmart := readTimeSmart mapValue
    fFromMe := fFromMe
    vfSpent := readSpent mapValue m.tx.vout fSpent
    nOrderPos := readOrderPos mapValue
    vtxPrev := vtxPrev
    mapValue := erased mapValue
    vOrderForm := vOrderForm
    fTimeReceivedIsTxTime := fTimeReceivedIsTxTime
    strFromAccount := (mapValue[keyFromAccount]?).getD [] }

/-- Its numbers are of the types they have, and nothing in it is too long to be read. -/
structure Fits : Prop where
  merkleTx : w.merkleTx.Fits
  vtxPrev : w.vtxPrev.length ≤ MAX_SIZE.toNat ∧ ∀ m ∈ w.vtxPrev, m.Fits
  storedMap : FitsMap w.storedMap
  vOrderForm : w.vOrderForm.length ≤ MAX_SIZE.toNat ∧ ∀ item ∈ w.vOrderForm, FitsItem item
  nOrderPos : FitsInt 8 w.nOrderPos

/-- The keys a map may not have. -/
def reservedKeys : List (List UInt8) := [keyFromAccount, keyVersion, keySpent, keyOrderPos, keyTimeSmart]

variable {w}

/-! ## The map as it is written -/

/-- Every combination of the fields that are there. -/
theorem getElem?_storedMap (k : List UInt8) : w.storedMap[k]? =
    if keyTimeSmart = k ∧ w.nTimeSmart ≠ 0 then some (decimal w.nTimeSmart.toNat)
    else if keyOrderPos = k ∧ w.nOrderPos ≠ -1 then some (i64tostr w.nOrderPos)
    else if keySpent = k then some (spentText w.vfSpent)
    else if keyFromAccount = k then some w.strFromAccount
    else w.mapValue[k]? := by
  have hposition : (writeOrderPos w.nOrderPos
      ((w.mapValue.insert keyFromAccount w.strFromAccount).insert keySpent (spentText w.vfSpent)))[k]? =
      if keyOrderPos = k ∧ w.nOrderPos ≠ -1 then some (i64tostr w.nOrderPos)
      else if keySpent = k then some (spentText w.vfSpent)
      else if keyFromAccount = k then some w.strFromAccount
      else w.mapValue[k]? := by
    unfold writeOrderPos
    by_cases hn : w.nOrderPos = -1
    · rw [if_pos hn, if_neg (fun h => h.2 hn), getElem?_insert_eq, getElem?_insert_eq]
    · rw [if_neg hn, getElem?_insert_eq, getElem?_insert_eq, getElem?_insert_eq]
      exact if_congr (iff_self_and.mpr fun _ => hn) rfl rfl
  unfold storedMap
  by_cases htime : w.nTimeSmart = 0
  · rw [if_neg (not_not.mpr htime), if_neg (fun h => h.2 htime)]
    exact hposition
  · rw [if_pos htime, getElem?_insert_eq]
    exact if_congr (iff_self_and.mpr fun _ => htime) rfl hposition

theorem getElem?_erased (mapValue : MapValue) (k : List UInt8) :
    (erased mapValue)[k]? = if k ∈ reservedKeys then none else mapValue[k]? := by
  have h := getElem?_eraseAll reservedKeys mapValue k
  split at h <;> rename_i hk
  · rw [if_pos hk]
    exact h
  · rw [if_neg hk]
    exact h

/-- What was put in is taken out. -/
theorem erased_storedMap (h : ∀ k ∈ reservedKeys, w.mapValue[k]? = none) : erased w.storedMap = w.mapValue := by
  apply ExtTreeMap.ext_getElem?
  intro k
  rw [getElem?_erased]
  split
  · rename_i hk
    exact (h k hk).symm
  · rename_i hk
    have hne : ∀ k' ∈ reservedKeys, ¬ k' = k := fun k' hmem heq => hk (heq ▸ hmem)
    rw [getElem?_storedMap, if_neg (fun h => hne _ (by decide) h.1), if_neg (fun h => hne _ (by decide) h.1),
      if_neg (hne _ (by decide)), if_neg (hne _ (by decide))]

theorem readTimeSmart_storedMap (h : w.mapValue[keyTimeSmart]? = none) :
    readTimeSmart w.storedMap = w.nTimeSmart := by
  unfold readTimeSmart
  rw [getElem?_storedMap]
  by_cases htime : w.nTimeSmart = 0
  · rw [if_neg (fun h => h.2 htime), if_neg (fun h => absurd h.1 (by decide)), if_neg (by decide),
      if_neg (by decide), h, htime]
  · have hlt := w.nTimeSmart.toNat_lt
    rw [if_pos ⟨rfl, htime⟩]
    show unsigned (atoi64 (decimal w.nTimeSmart.toNat)) = _
    rw [atoi64_decimal (by omega)]
    unfold unsigned
    have hmod : ((w.nTimeSmart.toNat : Int) % 2 ^ 32).toNat = w.nTimeSmart.toNat := by omega
    rw [hmod, UInt32.ofNat_toNat]

theorem readOrderPos_storedMap (hn : FitsInt 8 w.nOrderPos) (h : w.mapValue[keyOrderPos]? = none) :
    readOrderPos w.storedMap = w.nOrderPos := by
  by_cases hnone : w.nOrderPos = -1
  · rw [hnone]
    apply readOrderPos_of_none
    rw [getElem?_storedMap, if_neg (fun h => absurd h.1 (by decide)), if_neg (fun h => h.2 hnone),
      if_neg (by decide), if_neg (by decide), h]
  · apply readOrderPos_of_some hn
    rw [getElem?_storedMap, if_neg (fun h => absurd h.1 (by decide)), if_pos ⟨rfl, hnone⟩]

theorem readSpent_storedMap (vout : List CTxOut) (fSpent : Bool) :
    readSpent w.storedMap vout fSpent = w.vfSpent := by
  have hflags : (spentText w.vfSpent).map (fun c => decide (c ≠ 48)) = w.vfSpent := by
    unfold spentText
    rw [List.map_map]
    apply List.map_id''
    intro f
    cases f <;> rfl
  unfold readSpent
  rw [getElem?_storedMap, if_neg (fun h => absurd h.1 (by decide)), if_neg (fun h => absurd h.1 (by decide)),
    if_pos rfl]
  exact hflags

theorem readFromAccount_storedMap : (w.storedMap[keyFromAccount]?).getD [] = w.strFromAccount := by
  rw [getElem?_storedMap, if_neg (fun h => absurd h.1 (by decide)), if_neg (fun h => absurd h.1 (by decide)),
    if_neg (by decide), if_pos rfl, Option.getD_some]

/-! ## The round trip -/

theorem run_readFlag {β : Type} (f : Bool) (k : Bool → Reader β) (rest : List UInt8) (c : Bool) :
    (readFlag >>= k).run ⟨writeFlag f ++ rest, c⟩ = (k f).run ⟨rest, c⟩ := by
  have hread : readFlag.run ⟨writeFlag f ++ rest, c⟩ = some (f, ⟨rest, c⟩) := by
    unfold readFlag writeFlag
    rw [(readLE_lawful 1).run_bind_put (by split <;> decide)]
    cases f <;> rfl
  rw [run_bind, hread]
  rfl

/-- **A wallet transaction is read back as it was**, and the object that was written is as it was, if its map
    has none of the keys that the encoding uses. -/
theorem walletTx_roundtrip (Z : WalletSizes) (w : CWalletTxObject)
    (hreserved : ∀ k ∈ reservedKeys, w.mapValue[k]? = none) (hfits : w.Fits) (rest : List UInt8) (c : Bool) :
    (unserialize Z).run ⟨w.serialize.1 ++ rest, c⟩ = some (w, ⟨rest, c⟩) ∧ w.serialize.2 = w := by
  have herased := erased_storedMap hreserved
  constructor
  · unfold serialize unserialize
    dsimp only
    simp only [List.append_assoc]
    rw [(CMerkleTx.unserialize_lawful Z).run_bind_put hfits.merkleTx,
      (readVector_lawful (CMerkleTx.unserialize_lawful Z) Z.merkleTx).run_bind_put hfits.vtxPrev,
      run_readMapValue hfits.storedMap,
      (readVector_lawful readItem_lawful Z.item).run_bind_put hfits.vOrderForm,
      readUInt32_lawful.run_bind_put trivial, readUInt32_lawful.run_bind_put trivial, run_readFlag, run_readFlag,
      herased, readTimeSmart_storedMap (hreserved _ (by decide)), readSpent_storedMap,
      readOrderPos_storedMap hfits.nOrderPos (hreserved _ (by decide)), readFromAccount_storedMap]
    rfl
  · unfold serialize
    dsimp only
    rw [herased]

/-- A wallet transaction that pays nothing, with this map and account. -/
def bare (mapValue : MapValue) (strFromAccount : List UInt8) : CWalletTxObject :=
  { CWalletTx.ofTx ⟨1, 1407023400, [], [], 0⟩ with
    vtxPrev := []
    mapValue := mapValue
    vOrderForm := []
    fTimeReceivedIsTxTime := 0
    strFromAccount := strFromAccount }

def walletSizes : WalletSizes :=
  { Encoding.objectSizes with
    hash := Encoding.objectSizes.txout
    merkleTx := Encoding.objectSizes.transaction
    item := Encoding.objectSizes.transaction }

theorem bare_fits {mapValue : MapValue} {strFromAccount : List UInt8}
    (h : FitsMap (bare mapValue strFromAccount).storedMap) :
    (bare mapValue strFromAccount).Fits := by
  have hnone : ∀ {α : Type} {p : α → Prop}, ([] : List α).length ≤ MAX_SIZE.toNat ∧ ∀ a ∈ ([] : List α), p a :=
    fun {_ _} => ⟨Nat.zero_le _, fun _ ha => absurd ha List.not_mem_nil⟩
  exact ⟨⟨⟨(by decide : FitsInt 4 1), hnone, hnone⟩, Nat.zero_le _, (by decide : FitsInt 4 (-1))⟩, hnone, h, hnone,
    (by decide : FitsInt 8 (-1))⟩

/-- A spent output, a position, a smart time, an account and a text. -/
def paidRent : CWalletTxObject :=
  { bare ((∅ : MapValue).insert (ascii "comment") (ascii "rent")) (ascii "house") with
    vfSpent := [true, false]
    nOrderPos := 7
    nTimeSmart := 1407023400 }

theorem paidRent_roundtrip :
    (unserialize walletSizes).run ⟨paidRent.serialize.1 ++ [3], true⟩ = some (paidRent, ⟨[3], true⟩) ∧
      paidRent.serialize.2 = paidRent := by
  refine walletTx_roundtrip walletSizes paidRent (by decide) ?_ [3] true
  have hbare := @bare_fits ∅ [] (fitsMap_of_length (by decide))
  exact ⟨hbare.merkleTx, hbare.vtxPrev, fitsMap_of_length (by decide), hbare.vOrderForm,
    (by decide : FitsInt 8 7)⟩

/-- What is written of a map that is empty. -/
theorem bare_item {strFromAccount : List UInt8} {item : List UInt8 × List UInt8}
    (h : item ∈ (bare ∅ strFromAccount).storedMap.toList) :
    item = (keySpent, []) ∨ item = (keyFromAccount, strFromAccount) := by
  have hitem := ExtTreeMap.mem_toList_iff_getElem?_eq_some.mp h
  rw [getElem?_storedMap, if_neg (fun h => h.2 rfl), if_neg (fun h => h.2 rfl)] at hitem
  split at hitem
  · rename_i hkey
    exact Or.inl (Prod.ext hkey.symm (Option.some.inj hitem).symm)
  · split at hitem
    · rename_i hkey
      exact Or.inr (Prod.ext hkey.symm (Option.some.inj hitem).symm)
    · rw [show (bare ∅ strFromAccount).mapValue = ∅ from rfl, ExtTreeMap.getElem?_empty] at hitem
      cases hitem

/-- The name of the account is too long to be read. -/
theorem bare_long {strFromAccount : List UInt8} (hlong : MAX_SIZE.toNat < strFromAccount.length)
    (hlength : strFromAccount.length ≤ 0xffffffff) (Z : WalletSizes) (c : Bool) :
    (unserialize Z).run ⟨(bare ∅ strFromAccount).serialize.1, c⟩ = none := by
  have hbare := @bare_fits ∅ [] (fitsMap_of_length (by decide))
  have hmerkleTx : (bare ∅ strFromAccount).merkleTx.Fits := hbare.merkleTx
  have hvtxPrev : (bare ∅ strFromAccount).vtxPrev.length ≤ MAX_SIZE.toNat ∧
      ∀ m ∈ (bare ∅ strFromAccount).vtxPrev, m.Fits := hbare.vtxPrev
  have hkey : keyFromAccount.length ≤ 0xffffffff := by decide
  have hthere : (keyFromAccount, strFromAccount) ∈ (bare ∅ strFromAccount).storedMap.toList := by
    rw [ExtTreeMap.mem_toList_iff_getElem?_eq_some, getElem?_storedMap, if_neg (fun h => h.2 rfl),
      if_neg (fun h => h.2 rfl), if_neg (by decide), if_pos rfl]
    rfl
  have hsize : (bare ∅ strFromAccount).storedMap.size ≤ MAX_SIZE.toNat := by
    show (((∅ : MapValue).insert keyFromAccount strFromAccount).insert keySpent []).size ≤ 33554432
    have hfirst := @ExtTreeMap.size_insert_le _ _ _ (∅ : MapValue) _ keyFromAccount strFromAccount
    have hsecond := @ExtTreeMap.size_insert_le _ _ _ ((∅ : MapValue).insert keyFromAccount strFromAccount) _
      keySpent []
    rw [ExtTreeMap.size_empty] at hfirst
    omega
  have hlengths : ∀ item ∈ (bare ∅ strFromAccount).storedMap.toList,
      item.1.length ≤ 0xffffffff ∧ item.2.length ≤ 0xffffffff := by
    intro item hitem
    rcases bare_item hitem with rfl | rfl
    · decide
    · exact ⟨hkey, hlength⟩
  unfold serialize unserialize
  dsimp only
  rw [(CMerkleTx.unserialize_lawful Z).run_bind_put hmerkleTx,
    (readVector_lawful (CMerkleTx.unserialize_lawful Z) Z.merkleTx).run_bind_put hvtxPrev, run_bind,
    run_readMapValue_long ⟨_, hthere, fun h => absurd h.2 (Nat.not_le_of_lt hlong)⟩ hsize hlengths]
  rfl

/-- The four keys of the fields are not enough: an entry "version" is lost in memory.  And even without one,
    an account whose name has one byte more than can be read is not read back. -/
theorem version_lost :
    (¬ ∀ w : CWalletTxObject, (∀ k ∈ [keyFromAccount, keySpent, keyOrderPos, keyTimeSmart], w.mapValue[k]? = none) →
      w.serialize.2 = w) ∧
    ¬ ∀ w : CWalletTxObject, (∀ k ∈ reservedKeys, w.mapValue[k]? = none) →
      ∃ r s, (unserialize walletSizes).run ⟨w.serialize.1, true⟩ = some (r, s) := by
  constructor
  · intro hclaim
    have hkept := hclaim (bare ((∅ : MapValue).insert keyVersion [49]) []) (by decide)
    have hlost : (bare ((∅ : MapValue).insert keyVersion [49]) []).serialize.2.mapValue[keyVersion]? = none := by
      decide
    rw [hkept] at hlost
    revert hlost
    decide
  · intro hclaim
    obtain ⟨r, s, hread⟩ := hclaim (bare ∅ (List.replicate 33554433 97)) (fun k _ => ExtTreeMap.getElem?_empty)
    have hlength : (List.replicate 33554433 (97 : UInt8)).length = 33554433 := List.length_replicate
    have hlong : MAX_SIZE.toNat < (List.replicate 33554433 (97 : UInt8)).length := by
      rw [hlength]
      decide
    rw [bare_long hlong (by omega)] at hread
    cases hread

end CWalletTxObject

end Silkcoin
