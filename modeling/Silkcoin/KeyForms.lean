/-
  `CKey` objects and the FORM of their public key, and what `GetKey` makes of it.

  The form is held twice: in the key of the crypto library, which decides what `GetPubKey` gives, and in
  `fCompressedPubKey`.  Copying an object copies the first and not the second; a flag that is set stays set
  when the object is used again.  So an object may give out a public key in one form and say the other.

  A plain store files a secret under the id of the public key as it is given out, with the form the flag
  says, and an encrypted one hands a key over into an object whose flag may be set.  These two places are
  all (`getKey_filed_iff`): a key comes back as the one filed under its id just when the flag was right
  when it was filed, or, encrypted, when no set flag turns an uncompressed key into a compressed one.
-/
import Silkcoin.KeyStore

namespace Silkcoin

open BatchStore

/-! ## Objects -/

namespace CKey

variable (C : KeyPrimitives)

/-- The form `GetPubKey` gives the public key out in. -/
def convForm (key : CKey) : Bool := decide (key.vchPubKey.length = 33)

/-- `MakeNewKey`, which draws the secret. -/
def makeNewKey (key : CKey) (vchSecret : CSecret) (fCompressed : Bool) : CKey where
  fSet := true
  vchSecret := vchSecret
  vchPubKey := C.pubKey vchSecret (fCompressed || key.convForm)
  fCompressedPubKey := fCompressed || key.fCompressedPubKey

/-- `SetPrivKey` leaves the form as it is. -/
def setPrivKey (key : CKey) (vchSecret : CSecret) : CKey :=
  { key with fSet := true, vchSecret := vchSecret, vchPubKey := C.pubKey vchSecret key.convForm }

/-- What `IsValid` compares. -/
def isValid (key : CKey) : Bool :=
  key.fSet && decide (key.vchPubKey = (reset.setSecret C key.vchSecret key.fCompressedPubKey).vchPubKey)

/-- The key of a wallet record, if it passes the checks of the loader. -/
def load (vchPubKey : List UInt8) (vchSecret : CSecret) : Option CKey :=
  let key := (reset.setPubKey C vchPubKey).setPrivKey C vchSecret
  if key.vchPubKey = vchPubKey ∧ key.isValid C = true then some key else none

/-- The copy constructor leaves the flag as it finds it in memory. -/
def copy (b : CKey) (fUninitialized : Bool) : CKey := { b with fCompressedPubKey := fUninitialized }

/-- `operator=` leaves the flag of the object that is assigned to. -/
def assign (key b : CKey) : CKey := { b with fCompressedPubKey := key.fCompressedPubKey }

/-- The objects a key may come in: made, loaded or copied, in new objects and in used ones. -/
inductive Object : CKey → Prop where
  | makeNewKey (key : CKey) (vchSecret : CSecret) (fCompressed : Bool) :
      Object (key.makeNewKey C vchSecret fCompressed)
  | setSecret (key : CKey) (vchSecret : CSecret) (fCompressed : Bool) :
      Object (key.setSecret C vchSecret fCompressed)
  | load {vchPubKey : List UInt8} {vchSecret : CSecret} {key : CKey} (h : load C vchPubKey vchSecret = some key) :
      Object key
  | copy {b : CKey} (h : Object b) (fUninitialized : Bool) : Object (b.copy fUninitialized)
  | assign (key : CKey) {b : CKey} (h : Object b) : Object (key.assign b)

variable {C}

/-- Whatever the flag says, the public key is one of the secret. -/
theorem Object.pubKey {key : CKey} (h : Object C key) : ∃ form, key.vchPubKey = C.pubKey key.vchSecret form := by
  induction h with
  | makeNewKey key vchSecret fCompressed => exact ⟨_, rfl⟩
  | setSecret key vchSecret fCompressed => exact ⟨_, rfl⟩
  | load h =>
    unfold CKey.load at h
    dsimp only at h
    split at h
    · cases h
      exact ⟨_, rfl⟩
    · cases h
  | copy _ _ ih => exact ih
  | assign _ _ ih => exact ih

theorem convForm_of_pubKey {vMasterKey : List UInt8} (hw : C.Works vMasterKey) {key : CKey} {form : Bool}
    (h : key.vchPubKey = C.pubKey key.vchSecret form) : key.convForm = form := by
  unfold convForm
  rw [h, hw.length]
  cases form <;> rfl

end CKey

/-! ## Adding keys -/

namespace CCryptoKeyStore

/-- A new store, plain or encrypted and unlocked. -/
def opened (C : KeyPrimitives) (vMasterKey : List UInt8) (fUseCrypto : Bool) : CCryptoKeyStore :=
  if fUseCrypto then ((empty.encryptKeys C vMasterKey).2.unlock C vMasterKey).2 else empty

/-- A sequence of `AddKey` calls, and the keys that were added, the last one first. -/
inductive Adds (C : KeyPrimitives) (vMasterKey : List UInt8) (fUseCrypto : Bool) :
    CCryptoKeyStore → List CKey → Prop where
  | start : Adds C vMasterKey fUseCrypto (opened C vMasterKey fUseCrypto) []
  | addKey {store : CCryptoKeyStore} {added : List CKey} (h : Adds C vMasterKey fUseCrypto store added)
      {key : CKey} (hkey : CKey.Object C key) :
      Adds C vMasterKey fUseCrypto (store.addKey C key).2
        (if (store.addKey C key).1 then key :: added else added)

/-- The key that was filed last under an id. -/
def filed (C : KeyPrimitives) (added : List CKey) (address : Uint160) : Option CKey :=
  added.find? fun key => decide (C.hash160 key.vchPubKey = address)

variable {C : KeyPrimitives} {vMasterKey : List UInt8} {fUseCrypto : Bool} {store : CCryptoKeyStore}
  {added : List CKey}

theorem filed_cons (key : CKey) (added : List CKey) (address : Uint160) :
    filed C (key :: added) address =
      if C.hash160 key.vchPubKey = address then some key else filed C added address := by
  unfold filed
  rw [List.find?_cons]
  by_cases h : C.hash160 key.vchPubKey = address
  · rw [decide_eq_true h, if_pos h]
  · rw [decide_eq_false h, if_neg h]

theorem hash160_of_filed {address : Uint160} {key : CKey} (h : filed C added address = some key) :
    C.hash160 key.vchPubKey = address ∧ key ∈ added := by
  have hfound := @List.find?_some _ (fun key : CKey => decide (C.hash160 key.vchPubKey = address)) key added h
  exact ⟨of_decide_eq_true hfound, List.mem_of_find?_eq_some h⟩

/-- The store has, under each id, what was filed last: a secret and a flag, or a public key and the
    encrypted secret. -/
structure Files (C : KeyPrimitives) (vMasterKey : List UInt8) (fUseCrypto : Bool) (store : CCryptoKeyStore)
    (added : List CKey) : Prop where
  mode : store.fUseCrypto = fUseCrypto
  masterKey : fUseCrypto = true → store.vMasterKey = vMasterKey
  objects : ∀ key ∈ added, CKey.Object C key
  plain : fUseCrypto = false → ∀ address, store.mapKeys.lookup address =
    (filed C added address).map fun key => (key.vchSecret, key.fCompressedPubKey)
  crypted : fUseCrypto = true → ∀ address,
    (filed C added address = none → store.mapCryptedKeys.lookup address = none) ∧
    ∀ key, filed C added address = some key → ∃ vchCryptedSecret,
      store.mapCryptedKeys.lookup address = some (key.vchPubKey, vchCryptedSecret) ∧
        encryptSecret C vMasterKey key.vchSecret (C.hash key.vchPubKey) = some vchCryptedSecret

theorem files_opened (C : KeyPrimitives) (vMasterKey : List UInt8) (fUseCrypto : Bool) :
    Files C vMasterKey fUseCrypto (opened C vMasterKey fUseCrypto) [] := by
  cases fUseCrypto with
  | false => exact ⟨rfl, (fun h => by cases h), by simp, fun _ _ => rfl, (fun h => by cases h)⟩
  | true =>
    exact ⟨rfl, fun _ => rfl, by simp, (fun h => by cases h),
      fun _ _ => ⟨fun _ => rfl, (fun _ h => by cases h)⟩⟩

/-- `AddKey` files the key. -/
theorem Files.addKey (hw : C.Works vMasterKey) (h : Files C vMasterKey fUseCrypto store added) {key : CKey}
    (hkey : CKey.Object C key) :
    (store.addKey C key).1 = true ∧ Files C vMasterKey fUseCrypto (store.addKey C key).2 (key :: added) := by
  have hobjects : ∀ key' ∈ key :: added, CKey.Object C key' := by
    intro key' hmem
    rcases List.mem_cons.mp hmem with rfl | hmem
    · exact hkey
    · exact h.objects key' hmem
  cases fUseCrypto with
  | false =>
    have hadd : store.addKey C key = (true, { store with
        mapKeys := store.mapKeys.insert (C.hash160 key.vchPubKey) (key.vchSecret, key.fCompressedPubKey) }) :=
      if_pos h.mode
    rw [hadd]
    refine ⟨rfl, h.mode, h.masterKey, hobjects, fun _ address => ?_, (fun hf => by cases hf)⟩
    dsimp only
    rw [lookup_insert_eq_ite, filed_cons, h.plain rfl address]
    split
    · rfl
    · rfl
  | true =>
    obtain ⟨vchCryptedSecret, henc⟩ := encryptSecret_some hw key.vchSecret (C.hash key.vchPubKey)
    have hopen : store.isLocked = false := by
      have hsize := hw.masterKey
      unfold isLocked
      rw [h.masterKey rfl, h.mode, Bool.true_and]
      refine decide_eq_false ?_
      rintro rfl
      cases hsize
    have hset : store.setCrypted = (true, store) := if_pos h.mode
    have henc' : encryptSecret C store.vMasterKey key.vchSecret (C.hash key.vchPubKey) =
        some vchCryptedSecret := by
      rw [h.masterKey rfl]
      exact henc
    have hadd : store.addKey C key = (true, { store with
        mapCryptedKeys := store.mapCryptedKeys.insert (C.hash160 key.vchPubKey)
          (key.vchPubKey, vchCryptedSecret) }) := by
      unfold CCryptoKeyStore.addKey isCrypted
      rw [if_neg (by rw [h.mode]; decide), if_neg (by rw [hopen]; decide), henc']
      unfold addCryptedKey
      rw [hset]
    rw [hadd]
    refine ⟨rfl, h.mode, h.masterKey, hobjects, (fun hf => by cases hf), fun _ address => ?_⟩
    dsimp only
    rw [lookup_insert_eq_ite, filed_cons]
    by_cases hsame : C.hash160 key.vchPubKey = address
    · rw [if_pos hsame, if_pos hsame]
      refine ⟨(fun hf => by cases hf), fun key' hkey' => ?_⟩
      cases hkey'
      exact ⟨vchCryptedSecret, rfl, henc⟩
    · rw [if_neg hsame, if_neg hsame]
      exact h.crypted rfl address

theorem Adds.files (hw : C.Works vMasterKey) (h : Adds C vMasterKey fUseCrypto store added) :
    Files C vMasterKey fUseCrypto store added := by
  induction h with
  | start => exact files_opened C vMasterKey fUseCrypto
  | addKey _ hkey ih =>
    obtain ⟨hok, hfiles⟩ := ih.addKey hw hkey
    rw [if_pos hok]
    exact hfiles

/-! ## Getting keys -/

/-- The form a key comes back in. -/
def givenForm (fUseCrypto : Bool) (key keyOut : CKey) : Bool :=
  if fUseCrypto then keyOut.fCompressedPubKey || key.convForm else key.fCompressedPubKey

/-- `GetKey` gives the secret that was filed, and a public key in that form. -/
theorem Files.getKey_eq (hw : C.Works vMasterKey) (h : Files C vMasterKey fUseCrypto store added)
    (address : Uint160) (keyOut : CKey) : store.getKey C address keyOut =
      (filed C added address).map fun key => ⟨true, key.vchSecret,
        C.pubKey key.vchSecret (givenForm fUseCrypto key keyOut), givenForm fUseCrypto key keyOut⟩ := by
  unfold CCryptoKeyStore.getKey isCrypted
  cases fUseCrypto with
  | false =>
    rw [if_pos h.mode, h.plain rfl address, Option.map_map]
    refine congrArg (fun f => Option.map f (filed C added address)) (funext fun key => ?_)
    exact CKey.setSecret_reset C key.vchSecret key.fCompressedPubKey
  | true =>
    rw [if_neg (by rw [h.mode]; decide)]
    obtain ⟨hnone, hsome⟩ := h.crypted rfl address
    cases hfiled : filed C added address with
    | none => rw [hnone hfiled, Option.map_none]
    | some key =>
      obtain ⟨vchCryptedSecret, hlookup, henc⟩ := hsome key hfiled
      obtain ⟨form, hpub⟩ := (h.objects key (hash160_of_filed hfiled).2).pubKey
      have hvalid : C.validPubKey key.vchPubKey = true := by
        rw [hpub]
        exact hw.valid key.vchSecret form
      rw [hlookup, h.masterKey rfl]
      dsimp only
      rw [decryptKey_encryptSecret hw henc, Option.map_some, Option.map_some]
      unfold CKey.setPubKey
      rw [if_pos hvalid]
      rfl

/-- **A key comes back as it was filed.**  Over every sequence of `AddKey` calls, what `GetKey` gives for an
    id has that id and says its own form if the flag of the filed key was right (in a plain store), or if
    the object it is put into does not force an uncompressed key into the other form (in an encrypted one).
    And only then, if the two forms of a key do not share an id. -/
theorem getKey_filed_iff (hw : C.Works vMasterKey) (hrun : Adds C vMasterKey fUseCrypto store added)
    (address : Uint160) (keyOut : CKey) :
    ((∀ key, filed C added address = some key →
        if fUseCrypto then keyOut.fCompressedPubKey = true → key.convForm = true
        else key.fCompressedPubKey = key.convForm) →
      ∀ k, store.getKey C address keyOut = some k →
        C.hash160 k.vchPubKey = address ∧ k.fCompressedPubKey = k.convForm) ∧
    ((∀ vchSecret, C.hash160 (C.pubKey vchSecret true) ≠ C.hash160 (C.pubKey vchSecret false)) →
      (∀ k, store.getKey C address keyOut = some k →
        C.hash160 k.vchPubKey = address ∧ k.fCompressedPubKey = k.convForm) →
      ∀ key, filed C added address = some key →
        if fUseCrypto then keyOut.fCompressedPubKey = true → key.convForm = true
        else key.fCompressedPubKey = key.convForm) := by
  have hfiles := hrun.files hw
  have hget := hfiles.getKey_eq hw address keyOut
  -- the condition says that the key comes back in the form it was filed in
  have hform : ∀ key, (if fUseCrypto then keyOut.fCompressedPubKey = true → key.convForm = true
      else key.fCompressedPubKey = key.convForm) ↔ givenForm fUseCrypto key keyOut = key.convForm := by
    intro key
    unfold givenForm
    cases fUseCrypto
    · exact Iff.rfl
    · cases keyOut.fCompressedPubKey
      · exact ⟨fun _ => rfl, fun _ h => by cases h⟩
      · exact ⟨fun h => (h rfl).symm, fun h _ => h.symm⟩
  constructor
  · intro hcond k hk
    cases hfiled : filed C added address with
    | none =>
      rw [hget, hfiled] at hk
      cases hk
    | some key =>
      rw [hget, hfiled] at hk
      cases hk
      obtain ⟨hid, hmem⟩ := hash160_of_filed hfiled
      obtain ⟨form, hpub⟩ := (hfiles.objects key hmem).pubKey
      have hsame := (hform key).mp (hcond key hfiled)
      rw [CKey.convForm_of_pubKey hw hpub] at hsame
      refine ⟨?_, (CKey.convForm_of_pubKey hw rfl).symm⟩
      dsimp only
      rw [hsame, ← hpub]
      exact hid
  · intro hids hgood key hfiled
    obtain ⟨hid, hmem⟩ := hash160_of_filed hfiled
    obtain ⟨form, hpub⟩ := (hfiles.objects key hmem).pubKey
    refine (hform key).mpr ?_
    rw [hfiled] at hget
    have hback := (hgood _ hget).1
    rw [CKey.convForm_of_pubKey hw hpub]
    by_contra hne
    rw [← hid, hpub] at hback
    dsimp only at hback
    cases form with
    | false =>
      have hother := Bool.eq_true_of_not_eq_false hne
      rw [hother] at hback
      exact hids key.vchSecret hback
    | true =>
      have hother := Bool.eq_false_of_not_eq_true hne
      rw [hother] at hback
      exact hids key.vchSecret hback.symm

/-! ## An object that is used again

  The two keys of `TwoKeys`, the first compressed and the second not, in an encrypted store.  The object
  that got the first key is used for the second.
-/

namespace ReusedObject

open TwoKeys

/-- The other form of the second key. -/
def pubKey2Compressed : List UInt8 :=
  bytes 33 0x02466d7fcae563e5cb09a0d1870bb580344804617879a14949cf22285f1bae3f27

def primitives : KeyPrimitives where
  pubKey vchSecret fCompressed :=
    if vchSecret = secret2 ∧ fCompressed = true then pubKey2Compressed
    else TwoKeys.primitives.pubKey vchSecret fCompressed
  validPubKey := TwoKeys.primitives.validPubKey
  hash160 vchPubKey :=
    if vchPubKey = pubKey2Compressed then 0x4d1f7c2cea2bc842fa7d538c229e192aaa601253
    else TwoKeys.primitives.hash160 vchPubKey
  hash vchPubKey :=
    if vchPubKey = pubKey2Compressed then
      0xbc12ae578bf1b3ae979d8fcd0d6dbdf8136f5e043fb344946d187a5c5be424af
    else TwoKeys.primitives.hash vchPubKey
  encrypt := TwoKeys.primitives.encrypt
  decrypt := TwoKeys.primitives.decrypt

theorem works : primitives.Works masterKey where
  length vchSecret fCompressed := by
    unfold primitives
    dsimp only
    split
    · rename_i h
      rw [h.2]
      decide
    · exact TwoKeys.works.length vchSecret fCompressed
  valid vchSecret fCompressed := by
    unfold primitives
    dsimp only
    split
    · decide
    · exact TwoKeys.works.valid vchSecret fCompressed
  masterKey := rfl
  encrypts := TwoKeys.works.encrypts
  decrypts := TwoKeys.works.decrypts

def store1 : CCryptoKeyStore :=
  ((opened primitives masterKey true).addKey primitives (CKey.reset.setSecret primitives secret1 true)).2

def store2 : CCryptoKeyStore :=
  (store1.addKey primitives (CKey.reset.setSecret primitives secret2 false)).2

theorem adds : Adds primitives masterKey true store2
    [CKey.reset.setSecret primitives secret2 false, CKey.reset.setSecret primitives secret1 true] := by
  have h1 := (@Adds.start primitives masterKey true).addKey (CKey.Object.setSecret CKey.reset secret1 true)
  rw [if_pos (by decide)] at h1
  have h2 := h1.addKey (CKey.Object.setSecret CKey.reset secret2 false)
  rw [if_pos (by decide)] at h2
  exact h2

end ReusedObject

/-- A new object gets what was filed. -/
theorem getKey_filed_iff_new : CKey.reset.fCompressedPubKey = false ∧
    ∀ k, ReusedObject.store2.getKey ReusedObject.primitives
        (ReusedObject.primitives.hash160 TwoKeys.pubKey2) CKey.reset = some k →
      ReusedObject.primitives.hash160 k.vchPubKey = ReusedObject.primitives.hash160 TwoKeys.pubKey2 ∧
        k.fCompressedPubKey = k.convForm := by
  refine ⟨rfl, (getKey_filed_iff ReusedObject.works ReusedObject.adds _ CKey.reset).1 ?_⟩
  intro key _
  rw [if_pos rfl]
  intro h
  cases h

/-- One that was used for a compressed key gets the other form of it, under another id. -/
theorem getKey_reused : ¬ ∀ store added,
    Adds ReusedObject.primitives TwoKeys.masterKey true store added → ∀ address0 keyOut,
      store.getKey ReusedObject.primitives address0 CKey.reset = some keyOut → ∀ address k,
        store.getKey ReusedObject.primitives address keyOut = some k →
          ReusedObject.primitives.hash160 k.vchPubKey = address ∧ k.fCompressedPubKey = k.convForm := by
  intro h
  obtain ⟨hfirst, hsecond, hother⟩ : ReusedObject.store2.getKey ReusedObject.primitives
        (ReusedObject.primitives.hash160 TwoKeys.pubKey1) CKey.reset = some TwoKeys.key1 ∧
      ReusedObject.store2.getKey ReusedObject.primitives
        (ReusedObject.primitives.hash160 TwoKeys.pubKey2) TwoKeys.key1 =
          some ⟨true, TwoKeys.secret2, ReusedObject.pubKey2Compressed, true⟩ ∧
      ReusedObject.primitives.hash160 ReusedObject.pubKey2Compressed ≠
        ReusedObject.primitives.hash160 TwoKeys.pubKey2 := by decide
  exact hother (h _ _ ReusedObject.adds _ _ hfirst _ _ hsecond).1

end CCryptoKeyStore
end Silkcoin
