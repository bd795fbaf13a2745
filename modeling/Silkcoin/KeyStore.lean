/-
  `CCryptoKeyStore`: the private keys of a wallet, in the clear or encrypted.

  The store has two maps and a mode.  `mapKeys` holds secrets, `mapCryptedKeys` public keys with
  encrypted secrets, and `fUseCrypto` says which of the two is in use.  The switch goes ONE WAY:
  `encryptKeys` moves everything over and empties `mapKeys`; `setCrypted` refuses as long as there is
  a plain key.  An encrypted store without a master key is locked.

  `keyStore_losesNoKey` is the result: over every sequence of operations under one master key the two
  maps are never both in use, encrypting keeps every key id and public key, a locked store gives out
  nothing, and once it is unlocked every key ever added comes back, secret and compression.

  The elliptic curve, the hashes and the cipher are taken as given (`KeyPrimitives`); what is relied on
  is `KeyPrimitives.Works`.  A `CKey` that comes in is one that `MakeNewKey`, `SetSecret` or a record
  of the wallet file made (`CKey.Made`): its public key is the one of its secret, in the form its flag
  says.
-/
import Silkcoin.Bignum
import Silkcoin.Lib.Store

namespace Silkcoin

open BatchStore

abbrev Uint160 := BitVec 160

/-- The 32 bytes of a private key. -/
abbrev CSecret := { bytes : List UInt8 // bytes.length = 32 }

/-- The code behind the keys. -/
structure KeyPrimitives where
  /-- the public key of a secret, compressed or not -/
  pubKey : CSecret → Bool → List UInt8
  /-- does `o2i_ECPublicKey` take these bytes for a point? -/
  validPubKey : List UInt8 → Bool
  hash160 : List UInt8 → Uint160
  hash : List UInt8 → Uint256
  /-- AES under a key and an IV -/
  encrypt : List UInt8 → Uint256 → List UInt8 → Option (List UInt8)
  decrypt : List UInt8 → Uint256 → List UInt8 → Option (List UInt8)

/-- A public key has its own length for each form and is taken for one; the cipher does not fail under
    this master key, and decrypting undoes encrypting. -/
structure KeyPrimitives.Works (C : KeyPrimitives) (vMasterKey : List UInt8) : Prop where
  length : ∀ vchSecret fCompressed,
    (C.pubKey vchSecret fCompressed).length = if fCompressed then 33 else 65
  valid : ∀ vchSecret fCompressed, C.validPubKey (C.pubKey vchSecret fCompressed) = true
  masterKey : vMasterKey.length = 32
  encrypts : ∀ nIV (vchSecret : CSecret), (C.encrypt vMasterKey nIV vchSecret).isSome = true
  decrypts : ∀ nIV (vchSecret : CSecret) vchCiphertext,
    C.encrypt vMasterKey nIV vchSecret = some vchCiphertext →
      C.decrypt vMasterKey nIV vchCiphertext = some vchSecret.1

/-! ## Keys -/

/-- A key: what is in `pkey`, and the flag.  The secret of a key that is not set is not looked at. -/
structure CKey where
  fSet : Bool
  vchSecret : CSecret
  vchPubKey : List UInt8
  fCompressedPubKey : Bool
deriving DecidableEq, Repr

namespace CKey

variable (C : KeyPrimitives) (key : CKey)

/-- `CKey()`. -/
def reset : CKey := ⟨false, ⟨List.replicate 32 0, rfl⟩, [], false⟩

def setSecret (vchSecret : CSecret) (fCompressed : Bool) : CKey where
  fSet := true
  vchSecret := vchSecret
  vchPubKey := C.pubKey vchSecret (fCompressed || key.fCompressedPubKey)
  fCompressedPubKey := fCompressed || key.fCompressedPubKey

/-- 33 bytes are the compressed form; what is no public key resets the key. -/
def setPubKey (vchPubKey : List UInt8) : CKey :=
  if C.validPubKey vchPubKey then
    { key with
      fSet := true
      vchPubKey := vchPubKey
      fCompressedPubKey := key.fCompressedPubKey || decide (vchPubKey.length = 33) }
  else reset

/-- The key's parts agree. -/
structure Made : Prop where
  set : key.fSet = true
  pubKey : key.vchPubKey = C.pubKey key.vchSecret key.fCompressedPubKey

theorem setSecret_reset (vchSecret : CSecret) (fCompressed : Bool) :
    reset.setSecret C vchSecret fCompressed =
      ⟨true, vchSecret, C.pubKey vchSecret fCompressed, fCompressed⟩ := by
  show CKey.mk true vchSecret (C.pubKey vchSecret (fCompressed || false)) (fCompressed || false) = _
  rw [Bool.or_false]

/-- A fresh key takes its form from a public key it is given first. -/
theorem setSecret_setPubKey {vMasterKey : List UInt8} (hw : C.Works vMasterKey) (vchSecret : CSecret)
    (fCompressed : Bool) :
    (reset.setPubKey C (C.pubKey vchSecret fCompressed)).setSecret C vchSecret false =
      ⟨true, vchSecret, C.pubKey vchSecret fCompressed, fCompressed⟩ := by
  have hform : decide ((C.pubKey vchSecret fCompressed).length = 33) = fCompressed := by
    rw [hw.length]
    cases fCompressed <;> rfl
  unfold setPubKey
  rw [if_pos (hw.valid vchSecret fCompressed), hform]
  show CKey.mk true vchSecret (C.pubKey vchSecret (false || (false || fCompressed)))
    (false || (false || fCompressed)) = _
  rw [Bool.false_or, Bool.false_or]

end CKey

/-! ## The cipher -/

def WALLET_CRYPTO_KEY_SIZE : Nat := 32

/-- `SetKey` refuses a key of another size. -/
def encryptSecret (C : KeyPrimitives) (vMasterKey vchPlaintext : List UInt8) (nIV : Uint256) :
    Option (List UInt8) :=
  if vMasterKey.length ≠ WALLET_CRYPTO_KEY_SIZE then none else C.encrypt vMasterKey nIV vchPlaintext

def decryptSecret (C : KeyPrimitives) (vMasterKey vchCiphertext : List UInt8) (nIV : Uint256) :
    Option (List UInt8) :=
  if vMasterKey.length ≠ WALLET_CRYPTO_KEY_SIZE then none else C.decrypt vMasterKey nIV vchCiphertext

/-! ## The store -/

structure CCryptoKeyStore where
  mapKeys : StdMap Uint160 (CSecret × Bool)
  mapCryptedKeys : StdMap Uint160 (List UInt8 × List UInt8)
  vMasterKey : List UInt8
  fUseCrypto : Bool

namespace CCryptoKeyStore

variable (C : KeyPrimitives) (store : CCryptoKeyStore)

/-- `CCryptoKeyStore()`. -/
def empty : CCryptoKeyStore := ⟨∅, ∅, [], false⟩

def isCrypted : Bool := store.fUseCrypto

def isLocked : Bool := store.fUseCrypto && decide (store.vMasterKey = [])

/-- The entries of a map in the order of their keys. -/
def sorted {V : Type} (m : StdMap Uint160 V) : List ((_ : Uint160) × V) :=
  m.entries.insertionSort fun e e' => e.1 ≤ e'.1

def setCrypted : Bool × CCryptoKeyStore :=
  if store.fUseCrypto then (true, store)
  else if store.mapKeys.entries ≠ [] then (false, store)
  else (true, { store with fUseCrypto := true })

def lock : Bool × CCryptoKeyStore :=
  match store.setCrypted with
  | (false, store) => (false, store)
  | (true, store) => (true, { store with vMasterKey := [] })

/-- What `DecryptSecret` gives, if it has the size of a secret. -/
def decryptKey (vMasterKey vchPubKey vchCryptedSecret : List UInt8) : Option CSecret :=
  match decryptSecret C vMasterKey vchCryptedSecret (C.hash vchPubKey) with
  | none => none
  | some vchSecret => if h : vchSecret.length = 32 then some ⟨vchSecret, h⟩ else none

/-- The first key is decrypted to see if the master key is right. -/
def unlock (vMasterKeyIn : List UInt8) : Bool × CCryptoKeyStore :=
  match store.setCrypted with
  | (false, store) => (false, store)
  | (true, store) =>
    match sorted store.mapCryptedKeys with
    | [] => (true, { store with vMasterKey := vMasterKeyIn })
    | ⟨_, vchPubKey, vchCryptedSecret⟩ :: _ =>
      match decryptKey C vMasterKeyIn vchPubKey vchCryptedSecret with
      | none => (false, store)
      | some vchSecret =>
        let key := (CKey.reset.setPubKey C vchPubKey).setSecret C vchSecret false
        if key.vchPubKey = vchPubKey then (true, { store with vMasterKey := vMasterKeyIn })
        else (false, store)

def addCryptedKey (vchPubKey vchCryptedSecret : List UInt8) : Bool × CCryptoKeyStore :=
  match store.setCrypted with
  | (false, store) => (false, store)
  | (true, store) => (true, { store with
      mapCryptedKeys := store.mapCryptedKeys.insert (C.hash160 vchPubKey)
        (vchPubKey, vchCryptedSecret) })

def addKey (key : CKey) : Bool × CCryptoKeyStore :=
  if store.isCrypted = false then
    (true, { store with
      mapKeys := store.mapKeys.insert (C.hash160 key.vchPubKey)
        (key.vchSecret, key.fCompressedPubKey) })
  else if store.isLocked then (false, store)
  else
    match encryptSecret C store.vMasterKey key.vchSecret (C.hash key.vchPubKey) with
    | none => (false, store)
    | some vchCryptedSecret => store.addCryptedKey C key.vchPubKey vchCryptedSecret

def haveKey (address : Uint160) : Bool :=
  if store.isCrypted then (store.mapCryptedKeys.lookup address).isSome
  else (store.mapKeys.lookup address).isSome

/-- Into `keyOut`; a plain key is put into it after a `Reset`, an encrypted one is not. -/
def getKey (address : Uint160) (keyOut : CKey) : Option CKey :=
  if store.isCrypted = false then
    (store.mapKeys.lookup address).map fun entry => CKey.reset.setSecret C entry.1 entry.2
  else
    match store.mapCryptedKeys.lookup address with
    | none => none
    | some (vchPubKey, vchCryptedSecret) =>
      (decryptKey C store.vMasterKey vchPubKey vchCryptedSecret).map fun vchSecret =>
        (keyOut.setPubKey C vchPubKey).setSecret C vchSecret false

def getPubKey (address : Uint160) : Option (List UInt8) :=
  if store.isCrypted = false then (store.getKey C address CKey.reset).map CKey.vchPubKey
  else (store.mapCryptedKeys.lookup address).map Prod.fst

/-- One turn of the loop of `EncryptKeys`. -/
def encryptOne (vMasterKeyIn : List UInt8) (r : Bool × CCryptoKeyStore)
    (mKey : (_ : Uint160) × (CSecret × Bool)) : Bool × CCryptoKeyStore :=
  if r.1 = false then r
  else
    let key := CKey.reset.setSecret C mKey.2.1 mKey.2.2
    match encryptSecret C vMasterKeyIn key.vchSecret (C.hash key.vchPubKey) with
    | none => (false, r.2)
    | some vchCryptedSecret => r.2.addCryptedKey C key.vchPubKey vchCryptedSecret

/-- The plain keys go only after all of them are encrypted. -/
def encryptKeys (vMasterKeyIn : List UInt8) : Bool × CCryptoKeyStore :=
  if store.mapCryptedKeys.entries ≠ [] ∨ store.isCrypted then (false, store)
  else
    match (sorted store.mapKeys).foldl (encryptOne C vMasterKeyIn)
      (true, { store with fUseCrypto := true }) with
    | (false, store) => (false, store)
    | (true, store) => (true, { store with mapKeys := ∅ })

/-! ## Operations -/

/-- The operations of the claim: all of them under one master key. -/
inductive Op where
  | addKey (key : CKey)
  | addCryptedKey (key : CKey) (vchCryptedSecret : List UInt8)
  | encryptKeys
  | lock
  | unlock

/-- The key an operation adds. -/
def Op.key? : Op → Option CKey
  | .addKey key => some key
  | .addCryptedKey key _ => some key
  | _ => none

/-- The keys are sound, and a key that comes encrypted is encrypted under the master key. -/
def Op.Ok (vMasterKey : List UInt8) : Op → Prop
  | .addKey key => key.Made C
  | .addCryptedKey key vchCryptedSecret => key.Made C ∧
      encryptSecret C vMasterKey key.vchSecret (C.hash key.vchPubKey) = some vchCryptedSecret
  | _ => True

def step (vMasterKey : List UInt8) : Op → Bool × CCryptoKeyStore
  | .addKey key => store.addKey C key
  | .addCryptedKey key vchCryptedSecret => store.addCryptedKey C key.vchPubKey vchCryptedSecret
  | .encryptKeys => store.encryptKeys C vMasterKey
  | .lock => store.lock
  | .unlock => store.unlock C vMasterKey

/-- A sequence of operations on a new store, and the keys that were added in it. -/
inductive Run (vMasterKey : List UInt8) : CCryptoKeyStore → List CKey → Prop where
  | start : Run vMasterKey empty []
  | step {store : CCryptoKeyStore} {added : List CKey} (h : Run vMasterKey store added) (op : Op)
      (hop : op.Ok C vMasterKey) :
      Run vMasterKey (store.step C vMasterKey op).2
        (if (store.step C vMasterKey op).1 then op.key?.toList ++ added else added)

theorem Run.accept {C : KeyPrimitives} {vMasterKey : List UInt8} {store : CCryptoKeyStore}
    {added : List CKey} (h : Run C vMasterKey store added) (op : Op) (hop : op.Ok C vMasterKey)
    (hr : (store.step C vMasterKey op).1 = true) :
    Run C vMasterKey (store.step C vMasterKey op).2 (op.key?.toList ++ added) := by
  have hnext := h.step op hop
  rw [if_pos hr] at hnext
  exact hnext

/-! ## The invariant -/

variable {C} {store} {vMasterKey : List UInt8} {added : List CKey}

/-- A key is in the store: in the clear, or encrypted under the master key. -/
def Stores (C : KeyPrimitives) (vMasterKey : List UInt8) (store : CCryptoKeyStore)
    (vchSecret : CSecret) (fCompressed : Bool) : Prop :=
  let vchPubKey := C.pubKey vchSecret fCompressed
  if store.fUseCrypto then
    ∃ vchCryptedSecret,
      store.mapCryptedKeys.lookup (C.hash160 vchPubKey) = some (vchPubKey, vchCryptedSecret) ∧
        encryptSecret C vMasterKey vchSecret (C.hash vchPubKey) = some vchCryptedSecret
  else store.mapKeys.lookup (C.hash160 vchPubKey) = some (vchSecret, fCompressed)

/-- One map is in use, the one the mode says; what is in it is a key under its own id; and every key
    that was added is there. -/
structure Sound (C : KeyPrimitives) (vMasterKey : List UInt8) (store : CCryptoKeyStore)
    (added : List CKey) : Prop where
  plain : store.fUseCrypto = false → store.mapCryptedKeys = ∅ ∧ store.vMasterKey = []
  crypted : store.fUseCrypto = true → store.mapKeys = ∅
  masterKey : store.vMasterKey = [] ∨ store.vMasterKey = vMasterKey
  keys : ∀ id vchSecret fCompressed, store.mapKeys.lookup id = some (vchSecret, fCompressed) →
    id = C.hash160 (C.pubKey vchSecret fCompressed)
  cryptedKeys : ∀ id entry, store.mapCryptedKeys.lookup id = some entry →
    ∃ vchSecret fCompressed, entry.1 = C.pubKey vchSecret fCompressed ∧ id = C.hash160 entry.1 ∧
      encryptSecret C vMasterKey vchSecret (C.hash entry.1) = some entry.2
  holds : ∀ key ∈ added, key.Made C ∧
    Stores C vMasterKey store key.vchSecret key.fCompressedPubKey

/-- Under the master key encryption does not fail. -/
theorem encryptSecret_some (hw : C.Works vMasterKey) (vchSecret : CSecret) (nIV : Uint256) :
    ∃ vchCiphertext, encryptSecret C vMasterKey vchSecret nIV = some vchCiphertext := by
  unfold encryptSecret
  rw [if_neg (fun h => h hw.masterKey)]
  exact Option.isSome_iff_exists.mp (hw.encrypts nIV vchSecret)

/-- And what it gives is decrypted to the secret. -/
theorem decryptKey_encryptSecret (hw : C.Works vMasterKey) {vchSecret : CSecret}
    {vchPubKey vchCryptedSecret : List UInt8}
    (h : encryptSecret C vMasterKey vchSecret (C.hash vchPubKey) = some vchCryptedSecret) :
    decryptKey C vMasterKey vchPubKey vchCryptedSecret = some vchSecret := by
  have hsize : ¬ vMasterKey.length ≠ WALLET_CRYPTO_KEY_SIZE := fun hne => hne hw.masterKey
  unfold encryptSecret at h
  rw [if_neg hsize] at h
  unfold decryptKey decryptSecret
  rw [if_neg hsize, hw.decrypts _ _ _ h]
  show (if h : vchSecret.1.length = 32 then some (⟨vchSecret.1, h⟩ : CSecret) else none) = _
  rw [dif_pos vchSecret.2]

/-! ## Each operation keeps it -/

theorem setCrypted_eq (store : CCryptoKeyStore) :
    store.setCrypted = (false, store) ∨
      store.setCrypted = (true, { store with fUseCrypto := true }) ∧
        (store.fUseCrypto = true ∨ store.mapKeys = ∅) := by
  unfold setCrypted
  split
  · rename_i h
    refine Or.inr ⟨?_, Or.inl h⟩
    rw [← h]
  · split
    · exact Or.inl rfl
    · rename_i h
      refine Or.inr ⟨rfl, Or.inr (AList.ext ?_)⟩
      exact not_not.mp h

/-- An empty store may be switched over: there is nothing to move. -/
theorem Sound.setCrypted (h : Sound C vMasterKey store added)
    (hempty : store.fUseCrypto = true ∨ store.mapKeys = ∅) :
    Sound C vMasterKey { store with fUseCrypto := true } added := by
  rcases hempty with hcrypted | hempty
  · have hsame : { store with fUseCrypto := true } = store := by rw [← hcrypted]
    rw [hsame]
    exact h
  · refine ⟨(fun hf => by cases hf), fun _ => hempty, h.masterKey, h.keys, h.cryptedKeys, ?_⟩
    intro key hkey
    obtain ⟨hmade, hstores⟩ := h.holds key hkey
    refine ⟨hmade, ?_⟩
    by_cases hcrypted : store.fUseCrypto = true
    · unfold Stores at hstores ⊢
      rw [if_pos hcrypted] at hstores
      rw [if_pos rfl]
      exact hstores
    · unfold Stores at hstores
      rw [if_neg hcrypted, hempty] at hstores
      cases hstores

theorem Sound.setMasterKey (h : Sound C vMasterKey store added) (hcrypted : store.fUseCrypto = true)
    {vMasterKey' : List UInt8} (hkey : vMasterKey' = [] ∨ vMasterKey' = vMasterKey) :
    Sound C vMasterKey { store with vMasterKey := vMasterKey' } added :=
  ⟨fun hf => absurd hcrypted (by rw [hf]; decide), h.crypted, hkey, h.keys, h.cryptedKeys, h.holds⟩

theorem Sound.lock (h : Sound C vMasterKey store added) :
    Sound C vMasterKey store.lock.2 added := by
  unfold CCryptoKeyStore.lock
  rcases setCrypted_eq store with heq | ⟨heq, hempty⟩
  · rw [heq]
    exact h
  · rw [heq]
    exact (h.setCrypted hempty).setMasterKey rfl (Or.inl rfl)

/-- The first key of a sound store is no obstacle. -/
theorem Sound.unlock_eq (hw : C.Works vMasterKey) (h : Sound C vMasterKey store added)
    (hempty : store.fUseCrypto = true ∨ store.mapKeys = ∅) :
    store.unlock C vMasterKey =
      (true, { store with fUseCrypto := true, vMasterKey := vMasterKey }) := by
  unfold CCryptoKeyStore.unlock
  have heq : store.setCrypted = (true, { store with fUseCrypto := true }) := by
    rcases setCrypted_eq store with heq | ⟨heq, -⟩
    · exfalso
      unfold CCryptoKeyStore.setCrypted at heq
      rcases hempty with hcrypted | hnil
      · rw [if_pos hcrypted] at heq
        cases heq
      · split at heq
        · cases heq
        · rw [if_neg (fun hne => hne (by rw [hnil]; rfl))] at heq
          cases heq
    · exact heq
  rw [heq]
  dsimp only
  cases hsorted : sorted store.mapCryptedKeys with
  | nil => rfl
  | cons e l =>
    obtain ⟨id, vchPubKey, vchCryptedSecret⟩ := e
    have hmem : (⟨id, vchPubKey, vchCryptedSecret⟩ : (_ : Uint160) × (List UInt8 × List UInt8)) ∈
        store.mapCryptedKeys.entries := by
      rw [← List.mem_insertionSort fun e e' : (_ : Uint160) × (List UInt8 × List UInt8) => e.1 ≤ e'.1]
      show _ ∈ sorted store.mapCryptedKeys
      rw [hsorted]
      exact List.mem_cons_self
    obtain ⟨vchSecret, fCompressed, hpub, -, henc⟩ :=
      h.cryptedKeys id _ (AList.mem_lookup_iff.mpr hmem)
    have hpub : vchPubKey = C.pubKey vchSecret fCompressed := hpub
    dsimp only
    rw [decryptKey_encryptSecret hw henc]
    dsimp only
    rw [hpub, CKey.setSecret_setPubKey C hw]
    exact if_pos rfl

theorem Sound.unlock (hw : C.Works vMasterKey) (h : Sound C vMasterKey store added) :
    Sound C vMasterKey (store.unlock C vMasterKey).2 added := by
  rcases setCrypted_eq store with heq | ⟨-, hempty⟩
  · unfold CCryptoKeyStore.unlock
    rw [heq]
    exact h
  · rw [h.unlock_eq hw hempty]
    exact (h.setCrypted hempty).setMasterKey rfl (Or.inr rfl)

/-- A key joins the encrypted ones.  A key added before has the same id only if it is the same key. -/
theorem Sound.insertCrypted (h : Sound C vMasterKey store added) (hcrypted : store.fUseCrypto = true)
    {key : CKey} (hmade : key.Made C) {vchCryptedSecret : List UInt8}
    (henc : encryptSecret C vMasterKey key.vchSecret (C.hash key.vchPubKey) = some vchCryptedSecret)
    (hid : ∀ key' ∈ added, C.hash160 key'.vchPubKey = C.hash160 key.vchPubKey → key' = key) :
    Sound C vMasterKey { store with
      mapCryptedKeys := store.mapCryptedKeys.insert (C.hash160 key.vchPubKey)
        (key.vchPubKey, vchCryptedSecret) } (key :: added) := by
  refine ⟨fun hf => absurd hcrypted (by rw [hf]; decide), h.crypted, h.masterKey, h.keys, ?_, ?_⟩
  · intro id entry hlookup
    rw [lookup_insert_eq_ite] at hlookup
    split at hlookup
    · rename_i hhash
      cases hlookup
      exact ⟨key.vchSecret, key.fCompressedPubKey, hmade.pubKey, hhash.symm, henc⟩
    · exact h.cryptedKeys id entry hlookup
  · have hnew : Stores C vMasterKey { store with
        mapCryptedKeys := store.mapCryptedKeys.insert (C.hash160 key.vchPubKey)
          (key.vchPubKey, vchCryptedSecret) } key.vchSecret key.fCompressedPubKey := by
      unfold Stores
      rw [if_pos hcrypted, ← hmade.pubKey]
      exact ⟨vchCryptedSecret, by rw [lookup_insert_eq_ite, if_pos rfl], henc⟩
    intro key' hkey'
    rcases List.mem_cons.mp hkey' with rfl | hkey'
    · exact ⟨hmade, hnew⟩
    · obtain ⟨hmade', hstores⟩ := h.holds key' hkey'
      by_cases hsame : C.hash160 key'.vchPubKey = C.hash160 key.vchPubKey
      · rw [hid key' hkey' hsame]
        exact ⟨hmade, hnew⟩
      · refine ⟨hmade', ?_⟩
        unfold Stores at hstores ⊢
        rw [if_pos hcrypted, ← hmade'.pubKey] at hstores ⊢
        obtain ⟨vchCryptedSecret', hlookup, henc'⟩ := hstores
        refine ⟨vchCryptedSecret', ?_, henc'⟩
        rw [lookup_insert_eq_ite, if_neg (fun he => hsame he.symm)]
        exact hlookup

theorem Sound.addCryptedKey (h : Sound C vMasterKey store added) {key : CKey} (hmade : key.Made C)
    {vchCryptedSecret : List UInt8}
    (henc : encryptSecret C vMasterKey key.vchSecret (C.hash key.vchPubKey) = some vchCryptedSecret)
    (hid : (store.addCryptedKey C key.vchPubKey vchCryptedSecret).1 = true →
      ∀ key' ∈ added, C.hash160 key'.vchPubKey = C.hash160 key.vchPubKey → key' = key) :
    Sound C vMasterKey (store.addCryptedKey C key.vchPubKey vchCryptedSecret).2
      (if (store.addCryptedKey C key.vchPubKey vchCryptedSecret).1 then key :: added else added) := by
  unfold CCryptoKeyStore.addCryptedKey at hid ⊢
  rcases setCrypted_eq store with heq | ⟨heq, hempty⟩
  · rw [heq]
    exact h
  · rw [heq] at hid ⊢
    exact (h.setCrypted hempty).insertCrypted rfl hmade henc (hid rfl)

theorem Sound.addKey (hw : C.Works vMasterKey) (h : Sound C vMasterKey store added) {key : CKey}
    (hmade : key.Made C) (hid : (store.addKey C key).1 = true →
      ∀ key' ∈ added, C.hash160 key'.vchPubKey = C.hash160 key.vchPubKey → key' = key) :
    Sound C vMasterKey (store.addKey C key).2
      (if (store.addKey C key).1 then key :: added else added) := by
  unfold CCryptoKeyStore.addKey isCrypted at hid ⊢
  by_cases hplain : store.fUseCrypto = false
  · rw [if_pos hplain] at hid ⊢
    rw [if_pos rfl]
    have hid := hid rfl
    have hnew : Stores C vMasterKey { store with
        mapKeys := store.mapKeys.insert (C.hash160 key.vchPubKey)
          (key.vchSecret, key.fCompressedPubKey) } key.vchSecret key.fCompressedPubKey := by
      unfold Stores
      rw [if_neg (by rw [hplain]; decide), ← hmade.pubKey, lookup_insert_eq_ite, if_pos rfl]
    refine ⟨fun _ => h.plain hplain, fun hf => absurd hplain (by rw [hf]; decide), h.masterKey, ?_,
      h.cryptedKeys, ?_⟩
    · intro id vchSecret fCompressed hlookup
      rw [lookup_insert_eq_ite] at hlookup
      split at hlookup
      · rename_i hhash
        cases hlookup
        rw [← hmade.pubKey, hhash]
      · exact h.keys id vchSecret fCompressed hlookup
    · intro key' hkey'
      rcases List.mem_cons.mp hkey' with rfl | hkey'
      · exact ⟨hmade, hnew⟩
      · obtain ⟨hmade', hstores⟩ := h.holds key' hkey'
        by_cases hsame : C.hash160 key'.vchPubKey = C.hash160 key.vchPubKey
        · rw [hid key' hkey' hsame]
          exact ⟨hmade, hnew⟩
        · refine ⟨hmade', ?_⟩
          unfold Stores at hstores ⊢
          rw [if_neg (by rw [hplain]; decide), ← hmade'.pubKey] at hstores ⊢
          rw [lookup_insert_eq_ite, if_neg (fun he => hsame he.symm)]
          exact hstores
  · rw [if_neg hplain] at hid ⊢
    cases hlocked : store.isLocked with
    | true => exact h
    | false =>
      rw [hlocked] at hid
      -- an encrypted store that is not locked has the master key
      have hmaster : store.vMasterKey = vMasterKey := by
        refine h.masterKey.resolve_left fun hnil => ?_
        unfold isLocked at hlocked
        rw [hnil, Bool.eq_true_of_not_eq_false hplain] at hlocked
        cases hlocked
      obtain ⟨vchCryptedSecret, henc⟩ := encryptSecret_some hw key.vchSecret (C.hash key.vchPubKey)
      rw [hmaster, henc] at hid
      rw [hmaster, henc]
      exact h.addCryptedKey hmade henc hid

/-! ## Encrypting the keys -/

/-- The encrypted form of a plain entry. -/
def cryptedEntry (C : KeyPrimitives) (vMasterKey : List UInt8) (entry : CSecret × Bool) :
    List UInt8 × List UInt8 :=
  let vchPubKey := C.pubKey entry.1 entry.2
  (vchPubKey, (encryptSecret C vMasterKey entry.1 (C.hash vchPubKey)).getD [])

theorem encryptSecret_cryptedEntry (hw : C.Works vMasterKey) (entry : CSecret × Bool) :
    encryptSecret C vMasterKey entry.1 (C.hash (cryptedEntry C vMasterKey entry).1) =
      some (cryptedEntry C vMasterKey entry).2 := by
  obtain ⟨vchCiphertext, henc⟩ := encryptSecret_some hw entry.1 (C.hash (C.pubKey entry.1 entry.2))
  show encryptSecret C vMasterKey entry.1 (C.hash (C.pubKey entry.1 entry.2)) =
    some ((encryptSecret C vMasterKey entry.1 (C.hash (C.pubKey entry.1 entry.2))).getD [])
  rw [henc]
  rfl

/-- The loop over the plain keys does not stop early. -/
theorem foldl_encryptOne (hw : C.Works vMasterKey) {l : List ((_ : Uint160) × (CSecret × Bool))}
    (hl : ∀ e ∈ l, e.1 = C.hash160 (C.pubKey e.2.1 e.2.2)) (hcrypted : store.fUseCrypto = true) :
    l.foldl (encryptOne C vMasterKey) (true, store) = (true, { store with
      mapCryptedKeys := l.foldl (fun m e => m.insert e.1 (cryptedEntry C vMasterKey e.2))
        store.mapCryptedKeys }) := by
  induction l generalizing store with
  | nil => rfl
  | cons e l ih =>
    obtain ⟨id, vchSecret, fCompressed⟩ := e
    have hid : id = C.hash160 (C.pubKey vchSecret fCompressed) := hl _ List.mem_cons_self
    obtain ⟨vchCiphertext, henc⟩ :=
      encryptSecret_some hw vchSecret (C.hash (C.pubKey vchSecret fCompressed))
    have hstep : encryptOne C vMasterKey (true, store) ⟨id, vchSecret, fCompressed⟩ =
        (true, { store with
          mapCryptedKeys := store.mapCryptedKeys.insert id
            (cryptedEntry C vMasterKey (vchSecret, fCompressed)) }) := by
      have hset : store.setCrypted = (true, store) := if_pos hcrypted
      unfold encryptOne cryptedEntry
      rw [if_neg (fun h => by cases h), CKey.setSecret_reset]
      dsimp only
      rw [henc]
      unfold CCryptoKeyStore.addCryptedKey
      rw [hset, hid]
      rfl
    rw [List.foldl_cons, hstep]
    exact ih (fun e he => hl e (List.mem_cons_of_mem _ he)) hcrypted

/-- Sorting the entries of a map loses none. -/
theorem foldl_sorted_lookup {V W : Type} (m : StdMap Uint160 V) (f : V → W) (id : Uint160) :
    ((sorted m).foldl (fun r e => r.insert e.1 (f e.2)) (∅ : StdMap Uint160 W)).lookup id =
      (m.lookup id).map f := by
  have hperm : (sorted m).Perm m.entries := List.perm_insertionSort _ _
  have hnd : (sorted m).NodupKeys := (List.perm_nodupKeys hperm).mpr m.nodupKeys
  have hput := @foldl_put_lookup Uint160 V _ (StdMap Uint160 W) W (fun s k v => s.insert k (f v))
    (fun s k => s.lookup k) f (fun s k v k' => lookup_insert_eq_ite s k k' (f v)) _ hnd ∅ id
  have hsame : (sorted m).dlookup id = m.lookup id := List.perm_dlookup id hnd hperm
  rw [hput, hsame]
  exact Option.or_none

/-- On a crypted store `encryptKeys` does nothing. -/
theorem encryptKeys_crypted (hcrypted : store.fUseCrypto = true) :
    store.encryptKeys C vMasterKey = (false, store) := if_pos (Or.inr hcrypted)

/-- On a plain one it replaces every entry by its encrypted form. -/
theorem Sound.encryptKeys_eq (hw : C.Works vMasterKey) (h : Sound C vMasterKey store added)
    (hplain : store.fUseCrypto = false) :
    ∃ mapCryptedKeys, store.encryptKeys C vMasterKey = (true, ⟨∅, mapCryptedKeys, [], true⟩) ∧
      ∀ id, mapCryptedKeys.lookup id = (store.mapKeys.lookup id).map (cryptedEntry C vMasterKey) := by
  obtain ⟨hnil, hmaster⟩ := h.plain hplain
  have hguard : ¬ (store.mapCryptedKeys.entries ≠ [] ∨ store.isCrypted = true) := by
    rintro (hne | hcrypted)
    · exact hne (by rw [hnil]; rfl)
    · unfold isCrypted at hcrypted
      rw [hplain] at hcrypted
      cases hcrypted
  have hl : ∀ e ∈ sorted store.mapKeys, e.1 = C.hash160 (C.pubKey e.2.1 e.2.2) := by
    intro e he
    have hmem : e ∈ store.mapKeys.entries := (List.mem_insertionSort _).mp he
    exact h.keys e.1 e.2.1 e.2.2 (AList.mem_lookup_iff.mpr hmem)
  have hcrypted : ({ store with fUseCrypto := true } : CCryptoKeyStore).fUseCrypto = true := rfl
  have hfold := foldl_encryptOne hw hl hcrypted
  unfold CCryptoKeyStore.encryptKeys
  rw [if_neg hguard, hfold, hnil, hmaster]
  exact ⟨_, rfl, foldl_sorted_lookup store.mapKeys (cryptedEntry C vMasterKey)⟩

theorem Sound.encryptKeys (hw : C.Works vMasterKey) (h : Sound C vMasterKey store added) :
    Sound C vMasterKey (store.encryptKeys C vMasterKey).2 added := by
  cases hmode : store.fUseCrypto with
  | true =>
    rw [encryptKeys_crypted hmode]
    exact h
  | false =>
    obtain ⟨mapCryptedKeys, heq, hlookup⟩ := h.encryptKeys_eq hw hmode
    rw [heq]
    refine ⟨(fun hf => by cases hf), fun _ => rfl, Or.inl rfl, fun id _ _ hf => ?_, ?_, ?_⟩
    · cases hf
    · intro id entry hentry
      rw [hlookup, Option.map_eq_some_iff] at hentry
      obtain ⟨⟨vchSecret, fCompressed⟩, hplain, rfl⟩ := hentry
      exact ⟨vchSecret, fCompressed, rfl, h.keys id vchSecret fCompressed hplain,
        encryptSecret_cryptedEntry hw (vchSecret, fCompressed)⟩
    · intro key hkey
      obtain ⟨hmade, hstores⟩ := h.holds key hkey
      unfold Stores at hstores ⊢
      rw [if_neg (by rw [hmode]; decide)] at hstores
      rw [if_pos rfl]
      refine ⟨hmade, (cryptedEntry C vMasterKey (key.vchSecret, key.fCompressedPubKey)).2, ?_,
        encryptSecret_cryptedEntry hw (key.vchSecret, key.fCompressedPubKey)⟩
      rw [hlookup, hstores]
      rfl

/-! ## Every sequence of operations -/

/-- No two of the keys have one id. -/
def DistinctIds (C : KeyPrimitives) (added : List CKey) : Prop :=
  ∀ key ∈ added, ∀ key' ∈ added, C.hash160 key.vchPubKey = C.hash160 key'.vchPubKey → key = key'

theorem Sound.step (hw : C.Works vMasterKey) (h : Sound C vMasterKey store added) {op : Op}
    (hop : op.Ok C vMasterKey)
    (hid : DistinctIds C (if (store.step C vMasterKey op).1 then op.key?.toList ++ added else added)) :
    Sound C vMasterKey (store.step C vMasterKey op).2
      (if (store.step C vMasterKey op).1 then op.key?.toList ++ added else added) := by
  have hnew : ∀ {key : CKey} {r : Bool}, DistinctIds C (if r then key :: added else added) →
      r = true → ∀ key' ∈ added, C.hash160 key'.vchPubKey = C.hash160 key.vchPubKey → key' = key := by
    intro key r hid hr key' hkey'
    rw [if_pos hr] at hid
    exact hid key' (List.mem_cons_of_mem _ hkey') key List.mem_cons_self
  have hsame : ∀ {r : Bool} {store' : CCryptoKeyStore}, Sound C vMasterKey store' added →
      Sound C vMasterKey store' (if r then [] ++ added else added) := by
    intro r store' hs
    rw [List.nil_append, ite_self]
    exact hs
  cases op with
  | addKey key => exact h.addKey hw hop (hnew hid)
  | addCryptedKey key vchCryptedSecret => exact h.addCryptedKey hop.1 hop.2 (hnew hid)
  | encryptKeys => exact hsame (h.encryptKeys hw)
  | lock => exact hsame h.lock
  | unlock => exact hsame (h.unlock hw)

theorem sound_empty : Sound C vMasterKey empty [] where
  plain _ := ⟨rfl, rfl⟩
  crypted hf := by cases hf
  masterKey := Or.inl rfl
  keys _ _ _ hf := by cases hf
  cryptedKeys _ _ hf := by cases hf
  holds _ hf := by cases hf

/-- The keys added before a step are among those added after it. -/
theorem Run.sound (hw : C.Works vMasterKey) (hrun : Run C vMasterKey store added)
    (hid : DistinctIds C added) : Sound C vMasterKey store added := by
  induction hrun with
  | start => exact sound_empty
  | @step store added _ op hop ih =>
    have hsub : added ⊆ if (store.step C vMasterKey op).1 then op.key?.toList ++ added else added := by
      split
      · exact List.subset_append_right _ _
      · exact List.Subset.refl _
    exact (ih fun key hkey key' hkey' => hid key (hsub hkey) key' (hsub hkey')).step hw hop hid

/-! ## What the invariant gives -/

theorem Sound.encryptKeys_haveKey (hw : C.Works vMasterKey) (h : Sound C vMasterKey store added)
    (id : Uint160) : (store.encryptKeys C vMasterKey).2.haveKey id = store.haveKey id := by
  cases hmode : store.fUseCrypto with
  | true => rw [encryptKeys_crypted hmode]
  | false =>
    obtain ⟨mapCryptedKeys, heq, hlookup⟩ := h.encryptKeys_eq hw hmode
    unfold haveKey isCrypted
    rw [heq, hmode]
    show (mapCryptedKeys.lookup id).isSome = (store.mapKeys.lookup id).isSome
    rw [hlookup, Option.isSome_map]

theorem Sound.encryptKeys_getPubKey (hw : C.Works vMasterKey) (h : Sound C vMasterKey store added)
    (id : Uint160) :
    (store.encryptKeys C vMasterKey).2.getPubKey C id = store.getPubKey C id := by
  cases hmode : store.fUseCrypto with
  | true => rw [encryptKeys_crypted hmode]
  | false =>
    obtain ⟨mapCryptedKeys, heq, hlookup⟩ := h.encryptKeys_eq hw hmode
    unfold getPubKey getKey isCrypted
    rw [heq, hmode]
    show (mapCryptedKeys.lookup id).map Prod.fst = ((store.mapKeys.lookup id).map _).map CKey.vchPubKey
    rw [hlookup, Option.map_map, Option.map_map]
    cases store.mapKeys.lookup id with
    | none => rfl
    | some entry =>
      show some (C.pubKey entry.1 entry.2) = some (CKey.reset.setSecret C entry.1 entry.2).vchPubKey
      rw [CKey.setSecret_reset]

/-- A locked store has no master key to decrypt with. -/
theorem getKey_locked (hlocked : store.isLocked = true) (id : Uint160) (keyOut : CKey) :
    store.getKey C id keyOut = none := by
  unfold isLocked at hlocked
  rw [Bool.and_eq_true, decide_eq_true_eq] at hlocked
  unfold getKey isCrypted
  rw [if_neg (by rw [hlocked.1]; decide), hlocked.2]
  cases store.mapCryptedKeys.lookup id with
  | none => rfl
  | some entry => rfl

/-- What is stored is given out: in the clear, or with the master key. -/
theorem getKey_stores (hw : C.Works vMasterKey) {vchSecret : CSecret} {fCompressed : Bool}
    (h : Stores C vMasterKey store vchSecret fCompressed)
    (hkey : store.fUseCrypto = true → store.vMasterKey = vMasterKey) :
    store.getKey C (C.hash160 (C.pubKey vchSecret fCompressed)) CKey.reset =
      some ⟨true, vchSecret, C.pubKey vchSecret fCompressed, fCompressed⟩ := by
  unfold Stores at h
  unfold getKey isCrypted
  cases hmode : store.fUseCrypto with
  | false =>
    rw [if_neg (by rw [hmode]; decide)] at h
    rw [if_pos rfl, h]
    exact congrArg some (CKey.setSecret_reset C vchSecret fCompressed)
  | true =>
    rw [if_pos hmode] at h
    obtain ⟨vchCryptedSecret, hlookup, henc⟩ := h
    rw [if_neg (by decide), hlookup]
    show (decryptKey C store.vMasterKey _ _).map _ = _
    rw [hkey hmode, decryptKey_encryptSecret hw henc]
    exact congrArg some (CKey.setSecret_setPubKey C hw vchSecret fCompressed)

/-- Over every sequence of operations under one master key no key is lost. -/
theorem keyStore_losesNoKey {C : KeyPrimitives} {vMasterKey : List UInt8} (hw : C.Works vMasterKey)
    {store : CCryptoKeyStore} {added : List CKey} (hrun : Run C vMasterKey store added)
    (hid : DistinctIds C added) :
    (store.isCrypted = true → store.mapKeys = ∅) ∧
    (store.isCrypted = false → store.mapCryptedKeys = ∅ ∧ store.vMasterKey = []) ∧
    (∀ id, (store.encryptKeys C vMasterKey).2.haveKey id = store.haveKey id ∧
      (store.encryptKeys C vMasterKey).2.getPubKey C id = store.getPubKey C id) ∧
    (store.isLocked = true → ∀ id keyOut, store.getKey C id keyOut = none) ∧
    (store.isCrypted = true → (store.unlock C vMasterKey).1 = true) ∧
    (∀ key ∈ added, ∃ keyOut,
      (store.unlock C vMasterKey).2.getKey C (C.hash160 key.vchPubKey) CKey.reset = some keyOut ∧
        keyOut.vchSecret = key.vchSecret ∧ keyOut.fCompressedPubKey = key.fCompressedPubKey) := by
  have h : Sound C vMasterKey store added := hrun.sound hw hid
  refine ⟨h.crypted, h.plain,
    fun id => ⟨h.encryptKeys_haveKey hw id, h.encryptKeys_getPubKey hw id⟩, getKey_locked, ?_, ?_⟩
  · intro hcrypted
    rw [h.unlock_eq hw (Or.inl hcrypted)]
  · intro key hkey
    obtain ⟨hmade, hstores⟩ := (h.unlock hw).holds key hkey
    rw [hmade.pubKey]
    refine ⟨_, getKey_stores hw hstores fun hcrypted => ?_, rfl, rfl⟩
    rcases setCrypted_eq store with heq | ⟨-, hempty⟩
    · unfold CCryptoKeyStore.unlock at hcrypted ⊢
      rw [heq] at hcrypted ⊢
      unfold CCryptoKeyStore.setCrypted at heq
      rw [if_pos hcrypted] at heq
      cases heq
    · rw [h.unlock_eq hw hempty]

/-! ## A run

  A compressed key is added to a plain store, the store is encrypted, and an uncompressed key is added
  to the unlocked store.  Public keys, hashes and ciphertexts are the real ones of the two keys.
-/

namespace TwoKeys

/-- The bytes of a number, the highest first. -/
def bytes (length n : Nat) : List UInt8 :=
  (List.range length).reverse.map fun i => UInt8.ofNat (n / 256 ^ i)

def secret1 : CSecret := ⟨List.replicate 32 0x11, rfl⟩
def secret2 : CSecret := ⟨List.replicate 32 0x22, rfl⟩

def pubKey1 : List UInt8 :=
  bytes 33 0x034f355bdcb7cc0af728ef3cceb9615d90684bb5b2ca5f859ab0f0b704075871aa

def pubKey2 : List UInt8 := bytes 65
  0x04466d7fcae563e5cb09a0d1870bb580344804617879a14949cf22285f1bae3f276728176c3c6431f8eeda4538dc37c865e2784f3a9e77d044f33e407797e1278a

def ciphertext1 : List UInt8 := bytes 48
  0x161dace3cf7d6aa51b17bf3215f77cd762e31cccab7f3e6f9596259f3aa49422b46cdd436d4f44daf786ff0e8edbd628

def ciphertext2 : List UInt8 := bytes 48
  0x20ab74832ec96f0bc7c30cd4b5c51a65e2d19bc0016d189576acbd3f679d28ecf63d0e3d206eb5349a993e2444b1250c

def hash1 : Uint256 := 0xa20222d015368238b688538aab03e14e07f14f50fc94a329362164e7624c968c
def hash2 : Uint256 := 0xb66f80f840ff535d4dd6daec88fa2448852aa76c0d7d37efea3fe9907959b10a

def masterKey : List UInt8 := List.replicate 32 0x4d

/-- Other secrets and other ciphers than those of the run stand for themselves. -/
def primitives : KeyPrimitives where
  pubKey vchSecret fCompressed :=
    if vchSecret = secret1 ∧ fCompressed = true then pubKey1
    else if vchSecret = secret2 ∧ fCompressed = false then pubKey2
    else if fCompressed then 0x02 :: vchSecret.1
    else 0x04 :: (vchSecret.1 ++ vchSecret.1)
  validPubKey vchPubKey := decide (vchPubKey.length = 33 ∨ vchPubKey.length = 65)
  hash160 vchPubKey :=
    if vchPubKey = pubKey1 then 0xef1c351778f0e58d73a2e50ec7ddde11a25072fc
    else if vchPubKey = pubKey2 then 0x84532ac564cadfeaafcabaad82e74f932b0856b2
    else 0
  hash vchPubKey := if vchPubKey = pubKey1 then hash1 else if vchPubKey = pubKey2 then hash2 else 0
  encrypt vchKey nIV vchPlaintext :=
    if vchKey = masterKey ∧ nIV = hash1 ∧ vchPlaintext = secret1.1 then some ciphertext1
    else if vchKey = masterKey ∧ nIV = hash2 ∧ vchPlaintext = secret2.1 then some ciphertext2
    else some (0 :: vchPlaintext)
  decrypt vchKey nIV vchCiphertext :=
    if vchKey = masterKey ∧ nIV = hash1 ∧ vchCiphertext = ciphertext1 then some secret1.1
    else if vchKey = masterKey ∧ nIV = hash2 ∧ vchCiphertext = ciphertext2 then some secret2.1
    else some vchCiphertext.tail

theorem pubKey_length (vchSecret : CSecret) (fCompressed : Bool) :
    (primitives.pubKey vchSecret fCompressed).length = if fCompressed then 33 else 65 := by
  have hlength := vchSecret.2
  unfold primitives
  dsimp only
  split
  · rename_i h
    rw [h.2]
    decide
  · split
    · rename_i h
      rw [h.2]
      decide
    · cases fCompressed
      · show (0x04 :: (vchSecret.1 ++ vchSecret.1)).length = 65
        rw [List.length_cons, List.length_append]
        omega
      · show (0x02 :: vchSecret.1).length = 33
        rw [List.length_cons]
        omega

theorem works : primitives.Works masterKey where
  length := pubKey_length
  valid vchSecret fCompressed := by
    show decide ((primitives.pubKey vchSecret fCompressed).length = 33 ∨
      (primitives.pubKey vchSecret fCompressed).length = 65) = true
    rw [pubKey_length, decide_eq_true_eq]
    cases fCompressed
    · exact Or.inr rfl
    · exact Or.inl rfl
  masterKey := rfl
  encrypts nIV vchSecret := by
    unfold primitives
    dsimp only
    split
    · rfl
    · split <;> rfl
  decrypts nIV vchSecret vchCiphertext h := by
    have hlength := vchSecret.2
    unfold primitives at h ⊢
    dsimp only at h ⊢
    split at h
    · rename_i hkey
      cases h
      rw [if_pos ⟨rfl, hkey.2.1, rfl⟩, hkey.2.2]
    · split at h
      · rename_i hkey
        cases h
        rw [if_neg (fun hf => absurd (hf.2.1.symm.trans hkey.2.1) (by decide)),
          if_pos ⟨rfl, hkey.2.1, rfl⟩, hkey.2.2]
      · cases h
        -- what stands for itself has 33 bytes
        have hne : ∀ vchCiphertext : List UInt8, vchCiphertext.length = 48 →
            0 :: vchSecret.1 ≠ vchCiphertext := by
          intro vchCiphertext h48 heq
          rw [← heq, List.length_cons, hlength] at h48
          omega
        rw [if_neg (fun hf => hne _ (by decide) hf.2.2),
          if_neg (fun hf => hne _ (by decide) hf.2.2)]
        rfl

def key1 : CKey := ⟨true, secret1, pubKey1, true⟩
def key2 : CKey := ⟨true, secret2, pubKey2, false⟩

def ops : List Op := [.addKey key1, .encryptKeys, .unlock, .addKey key2, .lock]

/-- The store at the end. -/
def encrypted : CCryptoKeyStore :=
  ops.foldl (fun store op => (store.step primitives masterKey op).2) empty

theorem run : Run primitives masterKey encrypted [key2, key1] := by
  have h0 : Run primitives masterKey empty [] := Run.start
  have h1 := h0.accept (.addKey key1) ⟨rfl, by decide⟩ (by decide)
  have h2 := h1.accept .encryptKeys trivial (by decide)
  have h3 := h2.accept .unlock trivial (by decide)
  have h4 := h3.accept (.addKey key2) ⟨rfl, by decide⟩ (by decide)
  exact h4.accept .lock trivial (by decide)

end TwoKeys

theorem keyStore_losesNoKey_twoKeys : ∃ keyOut,
    (TwoKeys.encrypted.unlock TwoKeys.primitives TwoKeys.masterKey).2.getKey TwoKeys.primitives
      (TwoKeys.primitives.hash160 TwoKeys.pubKey1) CKey.reset = some keyOut ∧
    keyOut.vchSecret = TwoKeys.secret1 ∧ keyOut.fCompressedPubKey = true :=
  (keyStore_losesNoKey TwoKeys.works TwoKeys.run (by unfold DistinctIds; decide)).2.2.2.2.2
    TwoKeys.key1 (by decide)

end CCryptoKeyStore
end Silkcoin
