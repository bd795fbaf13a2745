/-
  `CWallet::Unlock` and `CWallet::ChangeWalletPassphrase`: passphrases and master-key records.

  A wallet keeps its master key in records, each encrypted under a passphrase, and both functions go through
  the records in their order.  A record is one of three things under a passphrase (`attempt`): it FAILS, when
  no key is derived or nothing is decrypted; it is WRONG, when what is decrypted does not fit the stored
  keys; or it OPENS.  A wrong record is passed by, but one that fails ends the loop, so a record behind it
  is never tried.

  `ChangeWalletPassphrase` locks the wallet before it begins, and changes the record it opened before it
  has encrypted it anew.  Where it returns false after that, it leaves what it did (`passphrase_atomic_iff`).
-/
import Silkcoin.KeyStore

namespace Silkcoin

open BatchStore

def WALLET_CRYPTO_SALT_SIZE : Nat := 8

/-- The code behind passphrases. -/
structure PassphrasePrimitives extends KeyPrimitives where
  /-- `EVP_BytesToKey`: a key of `WALLET_CRYPTO_KEY_SIZE` bytes and an IV, if that is what it gives -/
  bytesToKey : List UInt8 → List UInt8 → UInt32 → Option (List UInt8 × List UInt8)
  /-- `scrypt_salted_multiround_hash` -/
  scryptHash : List UInt8 → List UInt8 → UInt32 → List UInt8
  /-- AES under a key and an IV: did it work, and what is in the output then -/
  encryptKey : List UInt8 → List UInt8 → List UInt8 → Bool × List UInt8
  decryptKey : List UInt8 → List UInt8 → List UInt8 → Option (List UInt8)

/-- A master key, encrypted. -/
structure CMasterKey where
  vchCryptedKey : List UInt8
  vchSalt : List UInt8
  nDerivationMethod : UInt32
  nDeriveIterations : UInt32
deriving DecidableEq, Repr

/-- `CCrypter::SetKeyFromPassphrase`: `chKey` and `chIV`. -/
def setKeyFromPassphrase (P : PassphrasePrimitives) (strKeyData chSalt : List UInt8)
    (nRounds nDerivationMethod : UInt32) : Option (List UInt8 × List UInt8) :=
  if nRounds < 1 ∨ chSalt.length ≠ WALLET_CRYPTO_SALT_SIZE then none
  else if nDerivationMethod = 0 then P.bytesToKey strKeyData chSalt nRounds
  else if nDerivationMethod = 1 then P.bytesToKey (P.scryptHash strKeyData chSalt nRounds) chSalt nRounds
  else none

/-- The part of a wallet that passphrases are about.  `mapMasterKeys` is in the order of the ids, and
    `written` are the records that went to the wallet file. -/
structure CWalletKeys where
  store : CCryptoKeyStore
  mapMasterKeys : List (UInt32 × CMasterKey)
  written : List (UInt32 × CMasterKey)

namespace CWalletKeys

variable (P : PassphrasePrimitives) (w : CWalletKeys)

/-! ## Unlocking -/

def unlockLoop (strWalletPassphrase : List UInt8) (store : CCryptoKeyStore) :
    List (UInt32 × CMasterKey) → Bool × CCryptoKeyStore
  | [] => (false, store)
  | pMasterKey :: mapMasterKeys =>
    match setKeyFromPassphrase P strWalletPassphrase pMasterKey.2.vchSalt pMasterKey.2.nDeriveIterations
        pMasterKey.2.nDerivationMethod with
    | none => (false, store)
    | some crypter =>
      match P.decryptKey crypter.1 crypter.2 pMasterKey.2.vchCryptedKey with
      | none => (false, store)
      | some vMasterKey =>
        let r := store.unlock P.toKeyPrimitives vMasterKey
        if r.1 then r else unlockLoop strWalletPassphrase r.2 mapMasterKeys

def unlock (strWalletPassphrase : List UInt8) : Bool × CWalletKeys :=
  if w.store.isLocked = false then (false, w)
  else
    let r := unlockLoop P strWalletPassphrase w.store w.mapMasterKeys
    (r.1, { w with store := r.2 })

/-! ## Changing the passphrase -/

/-- The record under the new passphrase: were a key derived and the master key encrypted, and what the
    record is then.  `tune` is what the two measurements of time make of the iterations. -/
def rewrite (tune : UInt32 → UInt32) (strNewWalletPassphrase vMasterKey : List UInt8) (kMasterKey : CMasterKey) :
    Bool × CMasterKey :=
  let nDeriveIterations := max (tune kMasterKey.nDeriveIterations) 25000
  let kMasterKey := { kMasterKey with nDeriveIterations := nDeriveIterations }
  match setKeyFromPassphrase P strNewWalletPassphrase kMasterKey.vchSalt nDeriveIterations
      kMasterKey.nDerivationMethod with
  | none => (false, kMasterKey)
  | some crypter =>
    let r := P.encryptKey crypter.1 crypter.2 vMasterKey
    (r.1, { kMasterKey with vchCryptedKey := r.2 })

/-- The loop: the result, the store, the records as they are then, and the one that was written. -/
def changeLoop (tune : UInt32 → UInt32) (strOldWalletPassphrase strNewWalletPassphrase : List UInt8)
    (fWasLocked : Bool) (store : CCryptoKeyStore) : List (UInt32 × CMasterKey) →
    Bool × CCryptoKeyStore × List (UInt32 × CMasterKey) × List (UInt32 × CMasterKey)
  | [] => (false, store, [], [])
  | pMasterKey :: mapMasterKeys =>
    match setKeyFromPassphrase P strOldWalletPassphrase pMasterKey.2.vchSalt pMasterKey.2.nDeriveIterations
        pMasterKey.2.nDerivationMethod with
    | none => (false, store, pMasterKey :: mapMasterKeys, [])
    | some crypter =>
      match P.decryptKey crypter.1 crypter.2 pMasterKey.2.vchCryptedKey with
      | none => (false, store, pMasterKey :: mapMasterKeys, [])
      | some vMasterKey =>
        let r := store.unlock P.toKeyPrimitives vMasterKey
        if r.1 then
          let k := rewrite P tune strNewWalletPassphrase vMasterKey pMasterKey.2
          if k.1 then (true, if fWasLocked then r.2.lock.2 else r.2, (pMasterKey.1, k.2) :: mapMasterKeys,
            [(pMasterKey.1, k.2)])
          else (false, r.2, (pMasterKey.1, k.2) :: mapMasterKeys, [])
        else
          let rest := changeLoop tune strOldWalletPassphrase strNewWalletPassphrase fWasLocked r.2 mapMasterKeys
          (rest.1, rest.2.1, pMasterKey :: rest.2.2.1, rest.2.2.2)

def changeWalletPassphrase (tune : UInt32 → UInt32) (strOldWalletPassphrase strNewWalletPassphrase : List UInt8) :
    Bool × CWalletKeys :=
  let fWasLocked := w.store.isLocked
  let store := w.store.lock.2
  let r := changeLoop P tune strOldWalletPassphrase strNewWalletPassphrase fWasLocked store w.mapMasterKeys
  (r.1, { w with store := r.2.1, mapMasterKeys := r.2.2.1, written := w.written ++ r.2.2.2 })

/-! ## What a record is under a passphrase -/

/-- A master key fits the stored keys: it decrypts the first of them to the secret of its public key. -/
def Validates (C : KeyPrimitives) (store : CCryptoKeyStore) (vMasterKey : List UInt8) : Prop :=
  ∀ e ∈ (CCryptoKeyStore.sorted store.mapCryptedKeys).head?,
    ∃ vchSecret, CCryptoKeyStore.decryptKey C vMasterKey e.2.1 e.2.2 = some vchSecret ∧
      ((CKey.reset.setPubKey C e.2.1).setSecret C vchSecret false).vchPubKey = e.2.1

/-- What a record is decrypted to, if it is. -/
def attempt (strWalletPassphrase : List UInt8) (kMasterKey : CMasterKey) : Option (List UInt8) :=
  (setKeyFromPassphrase P strWalletPassphrase kMasterKey.vchSalt kMasterKey.nDeriveIterations
    kMasterKey.nDerivationMethod).bind fun crypter => P.decryptKey crypter.1 crypter.2 kMasterKey.vchCryptedKey

/-- The record is decrypted to a master key that fits. -/
def Opens (store : CCryptoKeyStore) (strWalletPassphrase : List UInt8) (kMasterKey : CMasterKey) : Prop :=
  ∃ vMasterKey, attempt P strWalletPassphrase kMasterKey = some vMasterKey ∧
    Validates P.toKeyPrimitives store vMasterKey

/-- A record that is not decrypted stands before the first one that opens. -/
def Blocked (strWalletPassphrase : List UInt8) : Prop :=
  ∃ before pMasterKey after, w.mapMasterKeys = before ++ pMasterKey :: after ∧
    attempt P strWalletPassphrase pMasterKey.2 = none ∧
    (∀ p ∈ before, ¬ Opens P w.store strWalletPassphrase p.2) ∧
    ∃ p ∈ after, Opens P w.store strWalletPassphrase p.2

/-- The record opens with this master key, and those before are decrypted and do not. -/
def Reaches (strWalletPassphrase : List UInt8) (kMasterKey : CMasterKey) (vMasterKey : List UInt8) : Prop :=
  ∃ before nID after, w.mapMasterKeys = before ++ (nID, kMasterKey) :: after ∧
    (∀ p ∈ before, ∃ vMasterKey, attempt P strWalletPassphrase p.2 = some vMasterKey ∧
      ¬ Validates P.toKeyPrimitives w.store vMasterKey) ∧
    attempt P strWalletPassphrase kMasterKey = some vMasterKey ∧
    Validates P.toKeyPrimitives w.store vMasterKey

/-! ## The key store -/

variable {P} {w} {store : CCryptoKeyStore} {strWalletPassphrase : List UInt8}

theorem store_unlock_of_validates {C : KeyPrimitives} (hcrypted : store.fUseCrypto = true)
    {vMasterKey : List UInt8} (h : Validates C store vMasterKey) :
    store.unlock C vMasterKey = (true, { store with vMasterKey := vMasterKey }) := by
  have hset : store.setCrypted = (true, store) := if_pos hcrypted
  unfold CCryptoKeyStore.unlock
  rw [hset]
  dsimp only
  unfold Validates at h
  cases hsorted : CCryptoKeyStore.sorted store.mapCryptedKeys with
  | nil => rfl
  | cons e l =>
    rw [hsorted] at h
    obtain ⟨vchSecret, hdecrypt, hkey⟩ := h e rfl
    dsimp only
    rw [hdecrypt]
    exact if_pos hkey

theorem store_unlock_of_not {C : KeyPrimitives} (hcrypted : store.fUseCrypto = true)
    {vMasterKey : List UInt8} (h : ¬ Validates C store vMasterKey) :
    store.unlock C vMasterKey = (false, store) := by
  have hset : store.setCrypted = (true, store) := if_pos hcrypted
  unfold CCryptoKeyStore.unlock
  rw [hset]
  dsimp only
  unfold Validates at h
  cases hsorted : CCryptoKeyStore.sorted store.mapCryptedKeys with
  | nil =>
    rw [hsorted] at h
    exact absurd (fun e he => by cases he) h
  | cons e l =>
    rw [hsorted] at h
    dsimp only
    cases hdecrypt : CCryptoKeyStore.decryptKey C vMasterKey e.2.1 e.2.2 with
    | none => rfl
    | some vchSecret =>
      refine if_neg fun hkey => h ?_
      rintro e' ⟨⟩
      exact ⟨vchSecret, hdecrypt, hkey⟩

theorem store_lock (hcrypted : store.fUseCrypto = true) : store.lock.2 = { store with vMasterKey := [] } := by
  have hset : store.setCrypted = (true, store) := if_pos hcrypted
  unfold CCryptoKeyStore.lock
  rw [hset]

theorem isLocked_iff (hcrypted : store.fUseCrypto = true) :
    store.isLocked = true ↔ store.vMasterKey = [] := by
  unfold CCryptoKeyStore.isLocked
  rw [hcrypted, Bool.true_and, decide_eq_true_iff]

/-! ## One record -/

section

variable {pMasterKey : UInt32 × CMasterKey} {mapMasterKeys : List (UInt32 × CMasterKey)}

theorem unlockLoop_fails (h : attempt P strWalletPassphrase pMasterKey.2 = none) :
    unlockLoop P strWalletPassphrase store (pMasterKey :: mapMasterKeys) = (false, store) := by
  unfold attempt at h
  rw [unlockLoop]
  cases hkey : setKeyFromPassphrase P strWalletPassphrase pMasterKey.2.vchSalt
      pMasterKey.2.nDeriveIterations pMasterKey.2.nDerivationMethod with
  | none => rfl
  | some crypter =>
    rw [hkey, Option.bind_some] at h
    dsimp only
    rw [h]

theorem unlockLoop_decrypts {vMasterKey : List UInt8}
    (h : attempt P strWalletPassphrase pMasterKey.2 = some vMasterKey) :
    unlockLoop P strWalletPassphrase store (pMasterKey :: mapMasterKeys) =
      if (store.unlock P.toKeyPrimitives vMasterKey).1 then store.unlock P.toKeyPrimitives vMasterKey
      else unlockLoop P strWalletPassphrase (store.unlock P.toKeyPrimitives vMasterKey).2 mapMasterKeys := by
  obtain ⟨crypter, hkey, hdecrypt⟩ := Option.bind_eq_some_iff.mp h
  rw [unlockLoop, hkey]
  dsimp only
  rw [hdecrypt]

theorem changeLoop_fails (tune : UInt32 → UInt32) (strNewWalletPassphrase : List UInt8) (fWasLocked : Bool)
    (h : attempt P strWalletPassphrase pMasterKey.2 = none) :
    changeLoop P tune strWalletPassphrase strNewWalletPassphrase fWasLocked store
      (pMasterKey :: mapMasterKeys) = (false, store, pMasterKey :: mapMasterKeys, []) := by
  unfold attempt at h
  rw [changeLoop]
  cases hkey : setKeyFromPassphrase P strWalletPassphrase pMasterKey.2.vchSalt
      pMasterKey.2.nDeriveIterations pMasterKey.2.nDerivationMethod with
  | none => rfl
  | some crypter =>
    rw [hkey, Option.bind_some] at h
    dsimp only
    rw [h]

theorem changeLoop_wrong (hcrypted : store.fUseCrypto = true) (tune : UInt32 → UInt32)
    (strNewWalletPassphrase : List UInt8) (fWasLocked : Bool) {vMasterKey : List UInt8}
    (h : attempt P strWalletPassphrase pMasterKey.2 = some vMasterKey)
    (hno : ¬ Validates P.toKeyPrimitives store vMasterKey) :
    let rest := changeLoop P tune strWalletPassphrase strNewWalletPassphrase fWasLocked store mapMasterKeys
    changeLoop P tune strWalletPassphrase strNewWalletPassphrase fWasLocked store
      (pMasterKey :: mapMasterKeys) = (rest.1, rest.2.1, pMasterKey :: rest.2.2.1, rest.2.2.2) := by
  obtain ⟨crypter, hkey, hdecrypt⟩ := Option.bind_eq_some_iff.mp h
  rw [changeLoop, hkey]
  dsimp only
  rw [hdecrypt]
  dsimp only
  rw [store_unlock_of_not hcrypted hno]
  rfl

theorem changeLoop_opens (hcrypted : store.fUseCrypto = true) (tune : UInt32 → UInt32)
    (strNewWalletPassphrase : List UInt8) (fWasLocked : Bool) {vMasterKey : List UInt8}
    (h : attempt P strWalletPassphrase pMasterKey.2 = some vMasterKey)
    (hvalid : Validates P.toKeyPrimitives store vMasterKey) :
    let k := rewrite P tune strNewWalletPassphrase vMasterKey pMasterKey.2
    let opened : CCryptoKeyStore := { store with vMasterKey := vMasterKey }
    changeLoop P tune strWalletPassphrase strNewWalletPassphrase fWasLocked store
      (pMasterKey :: mapMasterKeys) =
        if k.1 then (true, if fWasLocked then opened.lock.2 else opened, (pMasterKey.1, k.2) :: mapMasterKeys,
          [(pMasterKey.1, k.2)])
        else (false, opened, (pMasterKey.1, k.2) :: mapMasterKeys, []) := by
  obtain ⟨crypter, hkey, hdecrypt⟩ := Option.bind_eq_some_iff.mp h
  rw [changeLoop, hkey]
  dsimp only
  rw [hdecrypt]
  dsimp only
  rw [store_unlock_of_validates hcrypted hvalid]
  rfl

end

/-! ## Unlocking: the whole loop -/

/-- Only a record that opens unlocks; and if none does, nothing has changed. -/
theorem unlockLoop_spec (hcrypted : store.fUseCrypto = true) : ∀ mapMasterKeys : List (UInt32 × CMasterKey),
    ((unlockLoop P strWalletPassphrase store mapMasterKeys).1 = true ∧
      ∃ r ∈ mapMasterKeys, Opens P store strWalletPassphrase r.2) ∨
    unlockLoop P strWalletPassphrase store mapMasterKeys = (false, store)
  | [] => .inr rfl
  | pMasterKey :: mapMasterKeys => by
    cases h : attempt P strWalletPassphrase pMasterKey.2 with
    | none => exact .inr (unlockLoop_fails h)
    | some vMasterKey =>
      rw [unlockLoop_decrypts h]
      by_cases hvalid : Validates P.toKeyPrimitives store vMasterKey
      · rw [store_unlock_of_validates hcrypted hvalid, if_pos rfl]
        exact .inl ⟨rfl, pMasterKey, List.mem_cons_self, vMasterKey, h, hvalid⟩
      · rw [store_unlock_of_not hcrypted hvalid, if_neg Bool.false_ne_true]
        rcases unlockLoop_spec hcrypted mapMasterKeys with ⟨htrue, r, hr, hopens⟩ | hfalse
        · exact .inl ⟨htrue, r, List.mem_cons_of_mem _ hr, hopens⟩
        · exact .inr hfalse

/-- A record that is wrong is passed by. -/
theorem unlockLoop_of_not_opens (hcrypted : store.fUseCrypto = true) {pMasterKey : UInt32 × CMasterKey}
    {mapMasterKeys : List (UInt32 × CMasterKey)} (hno : ¬ Opens P store strWalletPassphrase pMasterKey.2)
    (hsome : attempt P strWalletPassphrase pMasterKey.2 ≠ none) :
    unlockLoop P strWalletPassphrase store (pMasterKey :: mapMasterKeys) =
      unlockLoop P strWalletPassphrase store mapMasterKeys := by
  obtain ⟨vMasterKey, h⟩ := Option.ne_none_iff_exists'.mp hsome
  have hinvalid : ¬ Validates P.toKeyPrimitives store vMasterKey := fun hv => hno ⟨vMasterKey, h, hv⟩
  rw [unlockLoop_decrypts h, store_unlock_of_not hcrypted hinvalid, if_neg Bool.false_ne_true]

theorem unlockLoop_blocked (hcrypted : store.fUseCrypto = true) {pMasterKey : UInt32 × CMasterKey}
    {after : List (UInt32 × CMasterKey)} (hfails : attempt P strWalletPassphrase pMasterKey.2 = none) :
    ∀ {before : List (UInt32 × CMasterKey)}, (∀ p ∈ before, ¬ Opens P store strWalletPassphrase p.2) →
      unlockLoop P strWalletPassphrase store (before ++ pMasterKey :: after) = (false, store)
  | [], _ => unlockLoop_fails hfails
  | p :: before, hno => by
    rw [List.cons_append]
    by_cases hp : attempt P strWalletPassphrase p.2 = none
    · exact unlockLoop_fails hp
    · rw [unlockLoop_of_not_opens hcrypted (hno p List.mem_cons_self) hp]
      exact unlockLoop_blocked hcrypted hfails fun q hq => hno q (List.mem_cons_of_mem p hq)

/-- A record that opens is found if every one before it that does not open is decrypted at least. -/
theorem unlockLoop_opens (hcrypted : store.fUseCrypto = true) {mapMasterKeys : List (UInt32 × CMasterKey)}
    (hsome : ∃ r ∈ mapMasterKeys, Opens P store strWalletPassphrase r.2)
    (hfree : ∀ before pMasterKey after, mapMasterKeys = before ++ pMasterKey :: after →
      attempt P strWalletPassphrase pMasterKey.2 = none →
      (∀ p ∈ before, ¬ Opens P store strWalletPassphrase p.2) →
      ¬ ∃ p ∈ after, Opens P store strWalletPassphrase p.2) :
    (unlockLoop P strWalletPassphrase store mapMasterKeys).1 = true := by
  induction mapMasterKeys with
  | nil =>
    obtain ⟨r, hr, -⟩ := hsome
    cases hr
  | cons p mapMasterKeys ih =>
    by_cases hopens : Opens P store strWalletPassphrase p.2
    · obtain ⟨vMasterKey, h, hvalid⟩ := hopens
      rw [unlockLoop_decrypts h, store_unlock_of_validates hcrypted hvalid, if_pos rfl]
    · have hrest : ∃ r ∈ mapMasterKeys, Opens P store strWalletPassphrase r.2 := by
        obtain ⟨r, hr, hro⟩ := hsome
        rcases List.mem_cons.mp hr with rfl | hr
        · exact absurd hro hopens
        · exact ⟨r, hr, hro⟩
      have hp : attempt P strWalletPassphrase p.2 ≠ none :=
        fun hnone => hfree [] p mapMasterKeys rfl hnone (fun q hq => by cases hq) hrest
      rw [unlockLoop_of_not_opens hcrypted hopens hp]
      refine ih hrest fun before q after hsplit hq hno => ?_
      refine hfree (p :: before) q after (by rw [hsplit, List.cons_append]) hq ?_
      intro r hr
      rcases List.mem_cons.mp hr with rfl | hr
      · exact hopens
      · exact hno r hr

theorem unlock_false (hcrypted : w.store.fUseCrypto = true)
    (h : (unlock P w strWalletPassphrase).1 = false) : (unlock P w strWalletPassphrase).2 = w := by
  unfold unlock at h ⊢
  split
  · rfl
  · rename_i hlocked
    rw [if_neg hlocked] at h
    rcases @unlockLoop_spec P w.store strWalletPassphrase hcrypted w.mapMasterKeys with ⟨htrue, -⟩ | hfalse
    · exact absurd (htrue.symm.trans h) Bool.noConfusion
    · dsimp only
      rw [hfalse]

/-- On a locked wallet, what unlocks is a record that opens, unless it is blocked. -/
theorem unlock_iff (hcrypted : w.store.fUseCrypto = true) (hlocked : w.store.isLocked = true) :
    ((unlock P w strWalletPassphrase).1 = true ↔
      ∃ r ∈ w.mapMasterKeys, Opens P w.store strWalletPassphrase r.2) ↔
      ¬ Blocked P w strWalletPassphrase := by
  have hloop : (unlock P w strWalletPassphrase).1 =
      (unlockLoop P strWalletPassphrase w.store w.mapMasterKeys).1 := by
    unfold unlock
    rw [if_neg (by rw [hlocked]; decide)]
  rw [hloop]
  constructor
  · rintro hexact ⟨before, pMasterKey, after, hsplit, hfails, hno, p, hp, hopens⟩
    have hmem : p ∈ w.mapMasterKeys := by
      rw [hsplit]
      exact List.mem_append_right _ (List.mem_cons_of_mem _ hp)
    have htrue := hexact.mpr ⟨p, hmem, hopens⟩
    rw [hsplit, unlockLoop_blocked hcrypted hfails hno] at htrue
    cases htrue
  · intro hfree
    constructor
    · intro htrue
      rcases @unlockLoop_spec P w.store strWalletPassphrase hcrypted w.mapMasterKeys with ⟨-, hsome⟩ | hfalse
      · exact hsome
      · rw [hfalse] at htrue
        cases htrue
    · intro hsome
      exact unlockLoop_opens hcrypted hsome fun before pMasterKey after hsplit hfails hno hafter =>
        hfree ⟨before, pMasterKey, after, hsplit, hfails, hno, hafter⟩

/-! ## Changing the passphrase: the whole loop -/

section

variable {tune : UInt32 → UInt32} {strOldWalletPassphrase strNewWalletPassphrase : List UInt8}
  {fWasLocked : Bool}

/-- The loop gets to a record that opens. -/
theorem changeLoop_reaches (hcrypted : store.fUseCrypto = true) {nID : UInt32} {kMasterKey : CMasterKey}
    {after : List (UInt32 × CMasterKey)} {vMasterKey : List UInt8}
    (h : attempt P strOldWalletPassphrase kMasterKey = some vMasterKey)
    (hvalid : Validates P.toKeyPrimitives store vMasterKey) :
    ∀ {before : List (UInt32 × CMasterKey)},
      (∀ p ∈ before, ∃ vMasterKey, attempt P strOldWalletPassphrase p.2 = some vMasterKey ∧
        ¬ Validates P.toKeyPrimitives store vMasterKey) →
      let k := rewrite P tune strNewWalletPassphrase vMasterKey kMasterKey
      let opened : CCryptoKeyStore := { store with vMasterKey := vMasterKey }
      changeLoop P tune strOldWalletPassphrase strNewWalletPassphrase fWasLocked store
        (before ++ (nID, kMasterKey) :: after) =
          if k.1 then (true, if fWasLocked then opened.lock.2 else opened, before ++ (nID, k.2) :: after,
            [(nID, k.2)])
          else (false, opened, before ++ (nID, k.2) :: after, [])
  | [], _ => by
    exact @changeLoop_opens P store strOldWalletPassphrase (nID, kMasterKey) after hcrypted tune
      strNewWalletPassphrase fWasLocked vMasterKey h hvalid
  | p :: before, hwrong => by
    obtain ⟨vMasterKey', hp, hinvalid⟩ := hwrong p List.mem_cons_self
    have hrest := @changeLoop_reaches hcrypted nID kMasterKey after vMasterKey h hvalid before
      fun q hq => hwrong q (List.mem_cons_of_mem p hq)
    have hstep := @changeLoop_wrong P store strOldWalletPassphrase p (before ++ (nID, kMasterKey) :: after)
      hcrypted tune strNewWalletPassphrase fWasLocked vMasterKey' hp hinvalid
    dsimp only at hrest hstep ⊢
    rw [List.cons_append, hstep, hrest]
    split
    · rfl
    · rfl

/-- Or it gets to none, and returns false. -/
theorem changeLoop_none (hcrypted : store.fUseCrypto = true) :
    ∀ {mapMasterKeys : List (UInt32 × CMasterKey)},
      (∀ before nID kMasterKey after vMasterKey, mapMasterKeys = before ++ (nID, kMasterKey) :: after →
        (∀ p ∈ before, ∃ vMasterKey, attempt P strOldWalletPassphrase p.2 = some vMasterKey ∧
          ¬ Validates P.toKeyPrimitives store vMasterKey) →
        attempt P strOldWalletPassphrase kMasterKey = some vMasterKey →
        ¬ Validates P.toKeyPrimitives store vMasterKey) →
      changeLoop P tune strOldWalletPassphrase strNewWalletPassphrase fWasLocked store mapMasterKeys =
        (false, store, mapMasterKeys, [])
  | [], _ => rfl
  | p :: mapMasterKeys, hnone => by
    cases hp : attempt P strOldWalletPassphrase p.2 with
    | none => exact changeLoop_fails tune strNewWalletPassphrase fWasLocked hp
    | some vMasterKey =>
      have hinvalid := hnone [] p.1 p.2 mapMasterKeys vMasterKey rfl (fun q hq => by cases hq) hp
      have hrest := @changeLoop_none hcrypted mapMasterKeys ?_
      · have hstep := @changeLoop_wrong P store strOldWalletPassphrase p mapMasterKeys hcrypted tune
          strNewWalletPassphrase fWasLocked vMasterKey hp hinvalid
        dsimp only at hstep
        rw [hstep, hrest]
      · intro before nID kMasterKey after vMasterKey' hsplit hwrong
        refine hnone (p :: before) nID kMasterKey after vMasterKey' (by rw [hsplit, List.cons_append]) ?_
        intro q hq
        rcases List.mem_cons.mp hq with rfl | hq
        · exact ⟨vMasterKey, hp, hinvalid⟩
        · exact hwrong q hq

/-- Where it gets to a record that opens, it is the new encryption that decides. -/
theorem change_reaches (hcrypted : w.store.fUseCrypto = true) {kMasterKey : CMasterKey}
    {vMasterKey : List UInt8} (h : Reaches P w strOldWalletPassphrase kMasterKey vMasterKey) :
    ((changeWalletPassphrase P w tune strOldWalletPassphrase strNewWalletPassphrase).1 = false →
      (changeWalletPassphrase P w tune strOldWalletPassphrase strNewWalletPassphrase).2.store = w.store ∧
      (changeWalletPassphrase P w tune strOldWalletPassphrase strNewWalletPassphrase).2.mapMasterKeys =
        w.mapMasterKeys) ↔
      ((rewrite P tune strNewWalletPassphrase vMasterKey kMasterKey).1 = true ∨
        w.store.vMasterKey = vMasterKey ∧
          (rewrite P tune strNewWalletPassphrase vMasterKey kMasterKey).2 = kMasterKey) := by
  obtain ⟨before, nID, after, hsplit, hwrong, hattempt, hvalid⟩ := h
  have hloop := @changeLoop_reaches P { w.store with vMasterKey := [] } tune strOldWalletPassphrase
    strNewWalletPassphrase w.store.isLocked hcrypted nID kMasterKey after vMasterKey hattempt hvalid before hwrong
  dsimp only at hloop
  unfold changeWalletPassphrase
  rw [store_lock hcrypted]
  dsimp only
  rw [hsplit, hloop]
  cases hk : (rewrite P tune strNewWalletPassphrase vMasterKey kMasterKey).1 with
  | true =>
    rw [if_pos rfl]
    exact ⟨fun _ => .inl rfl, (fun _ hf => by cases hf)⟩
  | false =>
    rw [if_neg Bool.false_ne_true]
    dsimp only
    constructor
    · intro hsame
      obtain ⟨hstore, hkeys⟩ := hsame rfl
      refine .inr ⟨(congrArg CCryptoKeyStore.vMasterKey hstore).symm, ?_⟩
      have hrecord := List.append_cancel_left hkeys
      exact congrArg Prod.snd (List.cons.inj hrecord).1
    · rintro (hf | ⟨hmaster, hrecord⟩) -
      · cases hf
      · rw [hrecord, ← hmaster]
        exact ⟨rfl, rfl⟩

/-- Where it gets to none, the wallet is locked. -/
theorem change_none (hcrypted : w.store.fUseCrypto = true)
    (h : ¬ ∃ kMasterKey vMasterKey, Reaches P w strOldWalletPassphrase kMasterKey vMasterKey) :
    ((changeWalletPassphrase P w tune strOldWalletPassphrase strNewWalletPassphrase).1 = false →
      (changeWalletPassphrase P w tune strOldWalletPassphrase strNewWalletPassphrase).2.store = w.store ∧
      (changeWalletPassphrase P w tune strOldWalletPassphrase strNewWalletPassphrase).2.mapMasterKeys =
        w.mapMasterKeys) ↔ w.store.isLocked = true := by
  have hloop := @changeLoop_none P { w.store with vMasterKey := [] } tune strOldWalletPassphrase
    strNewWalletPassphrase w.store.isLocked hcrypted w.mapMasterKeys
    fun before nID kMasterKey after vMasterKey hsplit hwrong hattempt hvalid =>
      h ⟨kMasterKey, vMasterKey, before, nID, after, hsplit, hwrong, hattempt, hvalid⟩
  unfold changeWalletPassphrase
  rw [store_lock hcrypted]
  dsimp only
  rw [hloop, isLocked_iff hcrypted]
  constructor
  · intro hsame
    exact (congrArg CCryptoKeyStore.vMasterKey (hsame rfl).1).symm
  · intro hlocked _
    rw [← hlocked]
    exact ⟨rfl, rfl⟩

end

/-- **When passphrases are exact and atomic.**  On an encrypted wallet `Unlock` unlocks with the records
    that open, and both functions leave everything as it was when they return false, just when no record
    that is not decrypted stands before the first one that opens; when what opens is encrypted anew without
    an error; and when `ChangeWalletPassphrase`, if nothing opens, found the wallet locked. -/
theorem passphrase_atomic_iff (P : PassphrasePrimitives) (w : CWalletKeys) (tune : UInt32 → UInt32)
    (strWalletPassphrase strOldWalletPassphrase strNewWalletPassphrase : List UInt8)
    (hcrypted : w.store.fUseCrypto = true) :
    ((w.store.isLocked = true → ((unlock P w strWalletPassphrase).1 = true ↔
        ∃ r ∈ w.mapMasterKeys, Opens P w.store strWalletPassphrase r.2)) ∧
      ((unlock P w strWalletPassphrase).1 = false → (unlock P w strWalletPassphrase).2 = w) ∧
      ((changeWalletPassphrase P w tune strOldWalletPassphrase strNewWalletPassphrase).1 = false →
        (changeWalletPassphrase P w tune strOldWalletPassphrase strNewWalletPassphrase).2.store = w.store ∧
        (changeWalletPassphrase P w tune strOldWalletPassphrase strNewWalletPassphrase).2.mapMasterKeys =
          w.mapMasterKeys)) ↔
    (w.store.isLocked = true → ¬ Blocked P w strWalletPassphrase) ∧
    (∀ kMasterKey vMasterKey, Reaches P w strOldWalletPassphrase kMasterKey vMasterKey →
      (rewrite P tune strNewWalletPassphrase vMasterKey kMasterKey).1 = true ∨
        w.store.vMasterKey = vMasterKey ∧
          (rewrite P tune strNewWalletPassphrase vMasterKey kMasterKey).2 = kMasterKey) ∧
    ((¬ ∃ kMasterKey vMasterKey, Reaches P w strOldWalletPassphrase kMasterKey vMasterKey) →
      w.store.isLocked = true) := by
  constructor
  · rintro ⟨hunlock, -, hchange⟩
    refine ⟨fun hlocked => (unlock_iff hcrypted hlocked).mp (hunlock hlocked), ?_, ?_⟩
    · intro kMasterKey vMasterKey hreaches
      exact (change_reaches hcrypted hreaches).mp hchange
    · intro hnone
      exact (change_none hcrypted hnone).mp hchange
  · rintro ⟨hfree, hrewrite, hlocked⟩
    refine ⟨fun h => (unlock_iff hcrypted h).mpr (hfree h), unlock_false hcrypted, ?_⟩
    by_cases hreaches : ∃ kMasterKey vMasterKey, Reaches P w strOldWalletPassphrase kMasterKey vMasterKey
    · obtain ⟨kMasterKey, vMasterKey, h⟩ := hreaches
      exact (change_reaches hcrypted h).mpr (hrewrite kMasterKey vMasterKey h)
    · exact (change_none hcrypted hreaches).mpr (hlocked hreaches)

/-! ## Two records

  The master key of `TwoKeys` in two records, under the passphrases "one" and "two"; the first key of
  `TwoKeys` is stored.  Derived keys and ciphertexts are the real ones.
-/

namespace TwoRecords

open CCryptoKeyStore.TwoKeys

def one : List UInt8 := [0x6f, 0x6e, 0x65]
def two : List UInt8 := [0x74, 0x77, 0x6f]

def record1 : CMasterKey where
  vchCryptedKey := bytes 48
    0xea41667d54fcfe0572d606e1ff489cf6d7a70c75a6329eeefccf411ef9439c20e40543c9af2e67fd52a92ae4463d2a3e
  vchSalt := List.replicate 8 1
  nDerivationMethod := 0
  nDeriveIterations := 25000

def record2 : CMasterKey where
  vchCryptedKey := bytes 48
    0xecc7500647dc50d2313831a1938308da2595b02636b7f9923afb416c546c59216b2c91b0937eb899685fbcf02e9c1fab
  vchSalt := List.replicate 8 2
  nDerivationMethod := 0
  nDeriveIterations := 25000

/-- The first record under the passphrase of the second. -/
def rewritten : List UInt8 := bytes 48
  0xfd168115237ea0f59c894cbcc8fcb2d5ae197470102ca8b99ebaa6d1bdc08bcd20c879e6bfb69b021be591cf02056637

def key11 : List UInt8 × List UInt8 :=
  (bytes 32 0x54d87be0be6da8b02bb6afdd1b52d337aa22391ccd71efebc53cc7af2e1addc7,
    bytes 16 0xe7955cdd5efd346cd44ddcff4738f9b8)
def key22 : List UInt8 × List UInt8 :=
  (bytes 32 0x88f98cb9140ab0ddf756edb9c81744d32a84bdc487bcf4981a136806bcd34c27,
    bytes 16 0x6d912a3ee380abf46d5f6b44df2af038)
def key21 : List UInt8 × List UInt8 :=
  (bytes 32 0x440c588250505dfa2e38979a8d3783cc6abca2759fbbddb203ca0d7cb69514cf,
    bytes 16 0x2d40db5ff70f522d0dbe491c46b9803f)

/-- Under other keys nothing is decrypted. -/
def primitives : PassphrasePrimitives where
  toKeyPrimitives := CCryptoKeyStore.TwoKeys.primitives
  bytesToKey strKeyData chSalt _ :=
    if strKeyData = one ∧ chSalt = record1.vchSalt then some key11
    else if strKeyData = two ∧ chSalt = record2.vchSalt then some key22
    else if strKeyData = two ∧ chSalt = record1.vchSalt then some key21
    else none
  scryptHash strKeyData _ _ := strKeyData
  encryptKey chKey chIV vchPlaintext :=
    if (chKey, chIV) = key21 ∧ vchPlaintext = masterKey then (true, rewritten) else (false, [])
  decryptKey chKey chIV vchCiphertext :=
    if (chKey, chIV) = key11 ∧ vchCiphertext = record1.vchCryptedKey then some masterKey
    else if (chKey, chIV) = key22 ∧ vchCiphertext = record2.vchCryptedKey then some masterKey
    else none

def wallet : CWalletKeys where
  store := ⟨∅, (∅ : StdMap Uint160 (List UInt8 × List UInt8)).insert
    (CCryptoKeyStore.TwoKeys.primitives.hash160 pubKey1) (pubKey1, ciphertext1), [], true⟩
  mapMasterKeys := [(1, record1), (2, record2)]
  written := []

theorem validates : Validates primitives.toKeyPrimitives wallet.store masterKey := by
  obtain ⟨hsorted, hdecrypt, hkey⟩ : (CCryptoKeyStore.sorted wallet.store.mapCryptedKeys).head? =
        some ⟨CCryptoKeyStore.TwoKeys.primitives.hash160 pubKey1, (pubKey1, ciphertext1)⟩ ∧
      CCryptoKeyStore.decryptKey primitives.toKeyPrimitives masterKey pubKey1 ciphertext1 = some secret1 ∧
      ((CKey.reset.setPubKey primitives.toKeyPrimitives pubKey1).setSecret primitives.toKeyPrimitives secret1
        false).vchPubKey = pubKey1 := by decide
  intro e he
  rw [hsorted] at he
  obtain rfl := Option.some.inj he
  exact ⟨secret1, hdecrypt, hkey⟩

theorem attempts : attempt primitives one record1 = some masterKey ∧
    attempt primitives two record2 = some masterKey ∧
    (rewrite primitives id two masterKey record1).1 = true ∧
    (unlock primitives wallet two).1 = false := by decide

end TwoRecords

/-- Unlocked with "one", and changed from "one" to "two". -/
theorem passphrase_atomic_iff_one :
    (TwoRecords.wallet.store.isLocked = true →
        ((unlock TwoRecords.primitives TwoRecords.wallet TwoRecords.one).1 = true ↔
        ∃ r ∈ TwoRecords.wallet.mapMasterKeys,
          Opens TwoRecords.primitives TwoRecords.wallet.store TwoRecords.one r.2)) ∧
      ((unlock TwoRecords.primitives TwoRecords.wallet TwoRecords.one).1 = false →
        (unlock TwoRecords.primitives TwoRecords.wallet TwoRecords.one).2 = TwoRecords.wallet) ∧
      ((changeWalletPassphrase TwoRecords.primitives TwoRecords.wallet id TwoRecords.one TwoRecords.two).1 = false →
        (changeWalletPassphrase TwoRecords.primitives TwoRecords.wallet id TwoRecords.one TwoRecords.two).2.store =
          TwoRecords.wallet.store ∧
        (changeWalletPassphrase TwoRecords.primitives TwoRecords.wallet id TwoRecords.one
          TwoRecords.two).2.mapMasterKeys = TwoRecords.wallet.mapMasterKeys) := by
  refine (passphrase_atomic_iff TwoRecords.primitives TwoRecords.wallet id TwoRecords.one TwoRecords.one
    TwoRecords.two rfl).mpr ⟨?_, ?_, fun _ => by decide⟩
  · rintro - ⟨before, q, after, hsplit, hfails, hno, -⟩
    cases before with
    | nil =>
      obtain rfl := (List.cons.inj hsplit).1
      rw [TwoRecords.attempts.1] at hfails
      cases hfails
    | cons p before =>
      obtain rfl := (List.cons.inj hsplit).1
      exact hno (1, TwoRecords.record1) List.mem_cons_self ⟨_, TwoRecords.attempts.1, TwoRecords.validates⟩
  · rintro kMasterKey vMasterKey ⟨before, nID, after, hsplit, hwrong, hattempt, -⟩
    refine .inl ?_
    cases before with
    | nil =>
      obtain rfl : TwoRecords.record1 = kMasterKey := congrArg Prod.snd (List.cons.inj hsplit).1
      rw [TwoRecords.attempts.1] at hattempt
      obtain rfl := Option.some.inj hattempt
      exact TwoRecords.attempts.2.2.1
    | cons p before =>
      obtain rfl := (List.cons.inj hsplit).1
      obtain ⟨vMasterKey', hother, hinvalid⟩ := hwrong (1, TwoRecords.record1) List.mem_cons_self
      rw [TwoRecords.attempts.1] at hother
      obtain rfl := Option.some.inj hother
      exact absurd TwoRecords.validates hinvalid

/-- With "two", which opens the second record, the wallet stays locked. -/
theorem unlock_blocked : ¬ ∀ w strWalletPassphrase, w.store.fUseCrypto = true → w.store.isLocked = true →
    ((unlock TwoRecords.primitives w strWalletPassphrase).1 = true ↔
      ∃ r ∈ w.mapMasterKeys, Opens TwoRecords.primitives w.store strWalletPassphrase r.2) := by
  intro h
  have hexact := h TwoRecords.wallet TwoRecords.two rfl (by decide)
  have htrue := hexact.mpr ⟨(2, TwoRecords.record2), List.mem_cons_of_mem _ List.mem_cons_self, _,
    TwoRecords.attempts.2.1, TwoRecords.validates⟩
  rw [TwoRecords.attempts.2.2.2] at htrue
  cases htrue

end CWalletKeys

end Silkcoin
