/-
  `dumpwallet` and `importwallet`: the keys of a wallet as a text, and back.

  A line of the dump is a private key, a time, one NOTE (a label, or that the key is a reserve or a change key)
  and a comment, with single spaces in between; so a label must not bring a space of its own.  `readLine` is
  what the import makes of a line, and it reads what was written (`readLine_keyLine`).

  `importwallet_dumpwallet`: every key of the dump is in the other wallet afterwards, with its time and label,
  and what that wallet had stays.  Either may be encrypted, each under a master key of its own.
-/
import Silkcoin.Base58
import Silkcoin.WalletBirthday

namespace Silkcoin

open Radix CString Codec BatchStore

/-! ## Labels -/

namespace Dump

/-- `hexmap` of `HexStr`. -/
def hexmap (n : UInt8) : UInt8 := (ascii "0123456789abcdef").getD n.toNat 0

def encodeDumpString (str : List UInt8) : List UInt8 :=
  str.flatMap fun c : UInt8 =>
    if c ≤ 32 ∨ c ≥ 128 ∨ c = 37 then [37, hexmap (c >>> 4), hexmap (c &&& 15)] else [c]

/-- `(c>>6)*9+((c-'0')&15)`; a `char` has a sign. -/
def hexDigitValue (c : UInt8) : UInt8 := (c.toInt8 >>> 6).toUInt8 * 9 + ((c - 48) &&& 15)

def decodeDumpString : List UInt8 → List UInt8
  | c :: h :: l :: rest =>
    if c = 37 then (hexDigitValue h <<< 4 ||| hexDigitValue l) :: decodeDumpString rest
    else c :: decodeDumpString (h :: l :: rest)
  | c :: rest => c :: decodeDumpString rest
  | [] => []

theorem hexDigitValue_hexmap : ∀ n < 256,
    hexDigitValue (hexmap (UInt8.ofNat n >>> 4)) <<< 4 ||| hexDigitValue (hexmap (UInt8.ofNat n &&& 15)) =
      UInt8.ofNat n ∧ (32 : UInt8) < hexmap (UInt8.ofNat n >>> 4) ∧ (32 : UInt8) < hexmap (UInt8.ofNat n &&& 15) := by
  decide +kernel

theorem decodeDumpString_cons {c : UInt8} (hc : c ≠ 37) (rest : List UInt8) :
    decodeDumpString (c :: rest) = c :: decodeDumpString rest := by
  rcases rest with _ | ⟨h, _ | ⟨l, rest⟩⟩
  · rfl
  · rfl
  · exact if_neg hc

/-- A label comes back, whatever its bytes are. -/
theorem decodeDumpString_encodeDumpString (str : List UInt8) : decodeDumpString (encodeDumpString str) = str := by
  induction str with
  | nil => rfl
  | cons c str ih =>
    have hc := hexDigitValue_hexmap c.toNat c.toNat_lt
    rw [UInt8.ofNat_toNat] at hc
    unfold encodeDumpString at ih ⊢
    rw [List.flatMap_cons]
    split
    · exact congrArg₂ List.cons hc.1 ih
    · rename_i hplain
      rw [List.singleton_append, decodeDumpString_cons (fun heq => hplain (Or.inr (Or.inr heq))), ih]

/-- No space and no line end. -/
theorem lt_of_mem_encodeDumpString {str : List UInt8} {x : UInt8} (h : x ∈ encodeDumpString str) : 32 < x := by
  obtain ⟨c, -, hx⟩ := List.mem_flatMap.mp h
  have hc := hexDigitValue_hexmap c.toNat c.toNat_lt
  rw [UInt8.ofNat_toNat] at hc
  split at hx
  · rcases List.mem_cons.mp hx with rfl | hx
    · decide
    · rcases List.mem_cons.mp hx with rfl | hx
      · exact hc.2.1
      · rw [List.mem_singleton.mp hx]
        exact hc.2.2
  · rename_i hplain
    rw [List.mem_singleton.mp hx]
    exact UInt8.not_le.mp fun hle => hplain (Or.inl hle)

/-! ## Private keys -/

variable (C : KeyPrimitives) (fTestNet : Bool)

def encodeBase58Check (vchIn : List UInt8) : List UInt8 := encodeBase58 (vchIn ++ toLE 4 (C.hash vchIn).toNat)

def decodeBase58Check (psz : List UInt8) : Option (List UInt8) :=
  match decodeBase58 psz with
  | none => none
  | some vch =>
    if vch.length < 4 then none
    else
      let vchRet := vch.take (vch.length - 4)
      if toLE 4 (C.hash vchRet).toNat = vch.drop (vch.length - 4) then some vchRet else none

structure CBitcoinSecret where
  nVersion : UInt8
  vchData : List UInt8

namespace CBitcoinSecret

def setSecret (vchSecret : CSecret) (fCompressed : Bool) : CBitcoinSecret :=
  ⟨128 + (if fTestNet then 111 else 25), vchSecret.1 ++ if fCompressed then [1] else []⟩

def toString (b : CBitcoinSecret) : List UInt8 := encodeBase58Check C (b.nVersion :: b.vchData)

def isValid (b : CBitcoinSecret) : Bool :=
  let sized := decide (b.vchData.length = 32 ∨ b.vchData.length = 33 ∧ b.vchData[32]? = some 1)
  if b.nVersion = 128 + 25 then decide (false = fTestNet) && sized
  else if b.nVersion = 128 + 111 then decide (true = fTestNet) && sized
  else false

def setString (str : List UInt8) : Option CBitcoinSecret :=
  match decodeBase58Check C str with
  | none => none
  | some [] => none
  | some (nVersion :: vchData) =>
    if isValid fTestNet ⟨nVersion, vchData⟩ then some ⟨nVersion, vchData⟩ else none

/-- `none` would be a read behind the data, which `IsValid` excludes. -/
def getSecret (b : CBitcoinSecret) : Option (CSecret × Bool) :=
  if h : (b.vchData.take 32).length = 32 then some (⟨b.vchData.take 32, h⟩, decide (b.vchData.length = 33))
  else none

end CBitcoinSecret

theorem decodeBase58Check_encodeBase58Check (vch : List UInt8) :
    decodeBase58Check C (encodeBase58Check C vch) = some vch := by
  have hlength : (vch ++ toLE 4 (C.hash vch).toNat).length - 4 = vch.length := by
    rw [List.length_append, length_toLE]
    omega
  unfold decodeBase58Check encodeBase58Check decodeBase58
  rw [cStr_encodeBase58, decodePsz_encodeBase58]
  dsimp only
  rw [hlength, List.take_left, List.drop_left, if_pos rfl, if_neg]
  rw [List.length_append, length_toLE]
  omega

theorem setString_toString (vchSecret : CSecret) (fCompressed : Bool) :
    (CBitcoinSecret.setString C fTestNet ((CBitcoinSecret.setSecret fTestNet vchSecret fCompressed).toString C)).bind
      CBitcoinSecret.getSecret = some (vchSecret, fCompressed) := by
  obtain ⟨bytes, hbytes⟩ := vchSecret
  have hvalid : CBitcoinSecret.isValid fTestNet (CBitcoinSecret.setSecret fTestNet ⟨bytes, hbytes⟩ fCompressed) := by
    cases fTestNet <;> cases fCompressed <;> simp [CBitcoinSecret.isValid, CBitcoinSecret.setSecret, hbytes]
  unfold CBitcoinSecret.setString CBitcoinSecret.toString
  rw [decodeBase58Check_encodeBase58Check]
  dsimp only
  rw [if_pos hvalid]
  cases fCompressed <;> simp [CBitcoinSecret.getSecret, CBitcoinSecret.setSecret, hbytes]

/-! ## Lines -/

/-- `EncodeDumpTime` and `DecodeDumpTime`: a date of the C library, and the reader of another library. -/
structure DumpTime where
  encode : Int → List UInt8
  decode : List UInt8 → Int

/-- This time is written without a space or a line end, and read back. -/
def DumpTime.Reads (T : DumpTime) (nTime : Int) : Prop :=
  T.decode (T.encode nTime) = nTime ∧ ∀ c ∈ T.encode nTime, 32 < c

variable (T : DumpTime)

inductive Note where
  | label (strLabel : List UInt8)
  | reserve
  | change

def Note.text : Note → List UInt8
  | .label strLabel => ascii "label=" ++ encodeDumpString strLabel
  | .reserve => ascii "reserve=1"
  | .change => ascii "change=1"

def Note.label? : Note → Option (List UInt8)
  | .label strLabel => some strLabel
  | _ => none

def addressText (keyid : Uint160) : List UInt8 :=
  encodeBase58Check C ((if fTestNet then 111 else 25) :: toLE 20 keyid.toNat)

def secretText (key : CKey) : List UInt8 :=
  (CBitcoinSecret.setSecret fTestNet key.vchSecret key.fCompressedPubKey).toString C

def keyParts (key : CKey) (keyid : Uint160) (nTime : Int) (note : Note) : List (List UInt8) :=
  [secretText C fTestNet key, T.encode nTime, note.text, ascii "#", ascii "addr=" ++ addressText C fTestNet keyid]

/-- One line: the parts, with single spaces in between. -/
def keyLine (key : CKey) (keyid : Uint160) (nTime : Int) (note : Note) : List UInt8 :=
  List.intercalate [32] (keyParts C fTestNet T key keyid nTime note)

/-- One turn of the inner loop of the import, on `fLabel` and `strLabel`. -/
def readNote (r : Bool × List UInt8) (str : List UInt8) : Bool × List UInt8 :=
  let fLabel := if str = ascii "change=1" then false else r.1
  let fLabel := if str = ascii "reserve=1" then false else fLabel
  if ascii "label=" <+: str then (true, decodeDumpString (str.drop 6)) else (fLabel, r.2)

/-- What the import takes from a line: the secret and its form, the time, and the label to set, if any. -/
def readLine (line : List UInt8) : Option ((CSecret × Bool) × Int × Option (List UInt8)) :=
  if line.head? = none ∨ line.head? = some 35 then none
  else
    match line.splitOn 32 with
    | secret :: time :: notes =>
      ((CBitcoinSecret.setString C fTestNet secret).bind CBitcoinSecret.getSecret).map fun key =>
        let r := (notes.takeWhile fun str => decide (¬ ascii "#" <+: str)).foldl readNote (true, [])
        (key, T.decode time, if r.1 then some r.2 else none)
    | _ => none

theorem lt_of_mem_encodeBase58 {vch : List UInt8} {c : UInt8} (h : c ∈ encodeBase58 vch) : 35 < c := by
  have hletters : ∀ d < 58, (35 : UInt8) < base58Letter d := by decide +kernel
  rw [encodeBase58_eq] at h
  obtain ⟨d, hd, rfl⟩ := List.mem_map.mp h
  exact hletters d (lt_of_mem_rebase (by omega) hd)

/-- The parts have neither a space nor a line end. -/
theorem lt_of_mem_keyParts (key : CKey) (keyid : Uint160) {nTime : Int} (htime : T.Reads nTime) (note : Note) :
    ∀ l ∈ keyParts C fTestNet T key keyid nTime note, ∀ c ∈ l, (32 : UInt8) < c := by
  have hbase : ∀ {vch : List UInt8} {c : UInt8}, c ∈ encodeBase58 vch → (32 : UInt8) < c :=
    fun h => UInt8.lt_trans (by decide) (lt_of_mem_encodeBase58 h)
  have hlabel : ∀ c ∈ ascii "label=", (32 : UInt8) < c := by decide +kernel
  have haddr : ∀ c ∈ ascii "addr=", (32 : UInt8) < c := by decide +kernel
  intro l hl c hc
  simp only [keyParts, List.mem_cons, List.not_mem_nil, or_false] at hl
  rcases hl with rfl | rfl | rfl | rfl | rfl
  · exact hbase hc
  · exact htime.2 c hc
  · cases note with
    | label strLabel =>
      rcases List.mem_append.mp hc with hc | hc
      · exact hlabel c hc
      · exact lt_of_mem_encodeDumpString hc
    | reserve => revert c; decide +kernel
    | change => revert c; decide +kernel
  · revert c
    decide +kernel
  · rcases List.mem_append.mp hc with hc | hc
    · exact haddr c hc
    · exact hbase hc

/-- **A line is read back** as it was meant. -/
theorem readLine_keyLine {key : CKey} {keyid : Uint160} {nTime : Int} (htime : T.Reads nTime) (note : Note) :
    readLine C fTestNet T (keyLine C fTestNet T key keyid nTime note) =
      some ((key.vchSecret, key.fCompressedPubKey), nTime, note.label?) := by
  have hparts := lt_of_mem_keyParts C fTestNet T key keyid htime note
  have hsplit := List.splitOn_intercalate (32 : UInt8) (fun l hl hmem => absurd (hparts l hl _ hmem) (by decide))
    (List.cons_ne_nil _ _)
  have hhead : ¬ ((keyLine C fTestNet T key keyid nTime note).head? = none ∨
      (keyLine C fTestNet T key keyid nTime note).head? = some 35) := by
    unfold keyLine keyParts
    rw [List.intercalate_cons_cons]
    cases hsecret : secretText C fTestNet key with
    | nil => exact fun h => absurd h (by simp)
    | cons c cs =>
      have hc : (35 : UInt8) < c := lt_of_mem_encodeBase58 (hsecret ▸ List.mem_cons_self)
      rintro (h | h)
      · cases h
      · obtain rfl := Option.some.inj h
        exact absurd hc (by decide)
  unfold readLine
  rw [if_neg hhead]
  unfold keyLine
  rw [hsplit]
  unfold keyParts secretText
  dsimp only
  rw [setString_toString, Option.map_some, htime.1]
  -- the comment ends the reading of the notes
  cases note with
  | label strLabel =>
    show some (_, _, some (decodeDumpString (encodeDumpString strLabel))) = _
    rw [decodeDumpString_encodeDumpString]
    rfl
  | reserve => rfl
  | change => rfl

/-! ## The wallets -/

/-- A wallet, as far as a dump goes.  `written` says if the wallet file takes the record of a new key. -/
structure KeyWallet where
  store : CCryptoKeyStore
  mapKeyMetadata : StdMap Uint160 Int
  mapAddressBook : StdMap Uint160 (List UInt8)
  nTimeFirstKey : Int
  written : Uint160 → Bool

namespace KeyWallet

/-- The note of a key that is dumped. -/
def noteOf (w : KeyWallet) (setKeyPool : List Uint160) (keyid : Uint160) : Note :=
  match w.mapAddressBook.lookup keyid with
  | some strLabel => .label strLabel
  | none => if setKeyPool.contains keyid then .reserve else .change

/-- The times and the keys, sorted. -/
def keyBirths (mapKeyBirth : StdMap Uint160 Int) : List (Int × Uint160) :=
  (mapKeyBirth.entries.map fun e => (e.2, e.1)).insertionSort fun a b => a.1 < b.1 ∨ a.1 = b.1 ∧ a.2 ≤ b.2

def keyLine? (w : KeyWallet) (setKeyPool : List Uint160) (e : Int × Uint160) : Option (List UInt8) :=
  (w.store.getKey C e.2 CKey.reset).map fun key => keyLine C fTestNet T key e.2 e.1 (w.noteOf setKeyPool e.2)

/-- The file that `dumpwallet` writes; `comments` are the four lines at its head. -/
def dumpwallet (w : KeyWallet) (comments : List (List UInt8)) (setKeyPool : List Uint160)
    (mapKeyBirth : StdMap Uint160 Int) : List UInt8 :=
  (comments ++ [[]] ++ (keyBirths mapKeyBirth).filterMap (w.keyLine? C fTestNet T setKeyPool) ++
    [[], ascii "# End of dump"]).flatMap fun line => line ++ [10]

/-- `CWallet::AddKey`; writing the record makes an entry for the time. -/
def addKey (w : KeyWallet) (key : CKey) : Bool × KeyWallet :=
  let keyid := C.hash160 key.vchPubKey
  match w.store.addKey C key with
  | (false, store) => (false, { w with store })
  | (true, store) => (w.written keyid,
    { w with
      store
      mapKeyMetadata := w.mapKeyMetadata.insert keyid ((w.mapKeyMetadata.lookup keyid).getD 0) })

/-- `wallet`, `fGood` and `nTimeBegin`. -/
structure Import where
  wallet : KeyWallet
  fGood : Bool
  nTimeBegin : Int

def importKey (r : Import) (key : CKey) (nTime : Int) (label : Option (List UInt8)) : Import :=
  let keyid := C.hash160 key.vchPubKey
  if r.wallet.store.haveKey keyid then r
  else
    match r.wallet.addKey C key with
    | (false, w) => { r with wallet := w, fGood := false }
    | (true, w) =>
      { r with
        wallet :=
          { w with
            mapKeyMetadata := w.mapKeyMetadata.insert keyid nTime
            mapAddressBook := match label with
              | some strLabel => w.mapAddressBook.insert keyid strLabel
              | none => w.mapAddressBook }
        nTimeBegin := min r.nTimeBegin nTime }

def importLine (r : Import) (line : List UInt8) : Import :=
  match readLine C fTestNet T line with
  | none => r
  | some ((vchSecret, fCompressed), nTime, label) =>
    importKey C r (CKey.reset.setSecret C vchSecret fCompressed) nTime label

/-- `importwallet`, but for the rescan; `none` where the wallet is locked. -/
def importwallet (w : KeyWallet) (nBestTime : UInt32) (file : List UInt8) : Option (Bool × KeyWallet) :=
  if w.store.isLocked then none
  else
    let r := (file.splitOn 10).foldl (importLine C fTestNet T) ⟨w, true, nBestTime.toNat⟩
    some (r.fGood, { r.wallet with nTimeFirstKey := WalletKeys.lowered r.wallet.nTimeFirstKey r.nTimeBegin })

end KeyWallet

/-! ## Keys that go in and out -/

section Keys

open CCryptoKeyStore

variable {C} {vMasterKey : List UInt8} {store : CCryptoKeyStore} {added : List CKey}

theorem masterKey_of_open (h : Sound C vMasterKey store added) (hopen : store.isLocked = false)
    (hcrypted : ¬ store.fUseCrypto = false) : store.vMasterKey = vMasterKey := by
  refine h.masterKey.resolve_left fun hnil => ?_
  unfold isLocked at hopen
  rw [hnil, Bool.eq_true_of_not_eq_false hcrypted] at hopen
  cases hopen

/-- A key that an open keystore gives out is one that can be made of its secret, and under its own id. -/
theorem getKey_made (hw : C.Works vMasterKey) (h : Sound C vMasterKey store added) (hopen : store.isLocked = false)
    {keyid : Uint160} {key : CKey} (hget : store.getKey C keyid CKey.reset = some key) :
    CKey.reset.setSecret C key.vchSecret key.fCompressedPubKey = key ∧ C.hash160 key.vchPubKey = keyid := by
  unfold getKey isCrypted at hget
  by_cases hplain : store.fUseCrypto = false
  · rw [if_pos hplain] at hget
    obtain ⟨⟨vchSecret, fCompressed⟩, hlookup, rfl⟩ := Option.map_eq_some_iff.mp hget
    dsimp only
    rw [CKey.setSecret_reset C vchSecret fCompressed]
    exact ⟨CKey.setSecret_reset C vchSecret fCompressed, (h.keys _ _ _ hlookup).symm⟩
  · rw [if_neg hplain] at hget
    cases hlookup : store.mapCryptedKeys.lookup keyid with
    | none => rw [hlookup] at hget; cases hget
    | some entry =>
      obtain ⟨vchSecret, fCompressed, hpub, hid, henc⟩ := h.cryptedKeys _ _ hlookup
      rw [hlookup] at hget
      dsimp only at hget
      rw [masterKey_of_open h hopen hplain, decryptKey_encryptSecret hw henc, Option.map_some, hpub,
        CKey.setSecret_setPubKey C hw] at hget
      obtain rfl := Option.some.inj hget
      rw [CKey.setSecret_reset]
      exact ⟨rfl, hpub ▸ hid.symm⟩

/-- An open keystore takes a key, and the others stay. -/
theorem addKey_open (hw : C.Works vMasterKey) (h : Sound C vMasterKey store added) (hopen : store.isLocked = false)
    (key : CKey) : ∃ store', store.addKey C key = (true, store') ∧ store'.isLocked = false ∧
      ∀ id, C.hash160 key.vchPubKey ≠ id → store'.getKey C id CKey.reset = store.getKey C id CKey.reset ∧
        store'.haveKey id = store.haveKey id := by
  unfold CCryptoKeyStore.addKey isCrypted
  by_cases hplain : store.fUseCrypto = false
  · rw [if_pos hplain]
    refine ⟨_, rfl, hopen, fun id hid => ?_⟩
    unfold getKey haveKey isCrypted
    simp only [hplain, lookup_insert_eq_ite, if_neg hid, and_self]
  · obtain ⟨vchCryptedSecret, henc⟩ := encryptSecret_some hw key.vchSecret (C.hash key.vchPubKey)
    rw [if_neg hplain, hopen, masterKey_of_open h hopen hplain, henc]
    unfold addCryptedKey setCrypted
    rw [if_pos (Bool.eq_true_of_not_eq_false hplain)]
    refine ⟨_, rfl, hopen, fun id hid => ?_⟩
    unfold getKey haveKey isCrypted
    simp only [lookup_insert_eq_ite, if_neg hid, and_self]

theorem haveKey_of_stores {vchSecret : CSecret} {fCompressed : Bool}
    (h : Stores C vMasterKey store vchSecret fCompressed) :
    store.haveKey (C.hash160 (C.pubKey vchSecret fCompressed)) = true := by
  unfold Stores at h
  unfold haveKey isCrypted
  split at h
  · rename_i hcrypted
    obtain ⟨vchCryptedSecret, hlookup, -⟩ := h
    rw [if_pos hcrypted, hlookup]
    rfl
  · rename_i hplain
    rw [if_neg hplain, h]
    rfl

end Keys

/-! ## The import -/

namespace KeyWallet

variable {C fTestNet T}

/-- What a wallet has under an id: the key it gives out, if there is one at all, the time and the label. -/
abbrev About := Option CKey × Bool × Option Int × Option (List UInt8)

def about (C : KeyPrimitives) (w : KeyWallet) (keyid : Uint160) : About :=
  (w.store.getKey C keyid CKey.reset, w.store.haveKey keyid, w.mapKeyMetadata.lookup keyid,
    w.mapAddressBook.lookup keyid)

/-- A key joins, where there is none yet. -/
def About.join (x : About) (key : CKey) (nTime : Int) (label : Option (List UInt8)) : About :=
  if x.2.1 then x else (some key, true, some nTime, label.or x.2.2.2)

/-- An open wallet with a sound keystore, whose file takes new records. -/
structure Ready (C : KeyPrimitives) (vMasterKey : List UInt8) (w : KeyWallet) : Prop where
  sound : ∃ added, CCryptoKeyStore.Sound C vMasterKey w.store added
  unlocked : w.store.isLocked = false
  written : ∀ keyid, w.written keyid = true

variable {vMasterKey : List UInt8}

/-- One key: it goes in where there is none, and changes nothing else. -/
theorem importKey_about (hw : C.Works vMasterKey) {r : Import} (h : Ready C vMasterKey r.wallet) {key : CKey}
    (hmade : CKey.reset.setSecret C key.vchSecret key.fCompressedPubKey = key) (nTime : Int)
    (label : Option (List UInt8)) :
    Ready C vMasterKey (importKey C r key nTime label).wallet ∧
      (importKey C r key nTime label).fGood = r.fGood ∧
      ∀ keyid, (importKey C r key nTime label).wallet.about C keyid =
        if C.hash160 key.vchPubKey = keyid then (r.wallet.about C keyid).join key nTime label
        else r.wallet.about C keyid := by
  have hkey : key.Made C := by
    rw [← hmade, CKey.setSecret_reset]
    exact ⟨rfl, rfl⟩
  unfold importKey
  dsimp only
  cases hhave : r.wallet.store.haveKey (C.hash160 key.vchPubKey) with
  | true =>
    refine ⟨h, rfl, fun keyid => ?_⟩
    by_cases hid : C.hash160 key.vchPubKey = keyid
    · rw [if_pos hid]
      exact (if_pos (hid ▸ hhave)).symm
    · rw [if_neg hid]
      rfl
  | false =>
    obtain ⟨added, hsound⟩ := h.sound
    obtain ⟨store', hadd, hopen', hother⟩ := addKey_open hw hsound h.unlocked key
    -- no key of this id was added before
    have hsound' := hsound.addKey hw hkey fun _ key' hkey' hsame => by
      obtain ⟨hmade', hstores⟩ := hsound.holds key' hkey'
      have := haveKey_of_stores hstores
      rw [← hmade'.pubKey, hsame, hhave] at this
      cases this
    rw [hadd, if_pos rfl] at hsound'
    have hstores := (hsound'.holds key List.mem_cons_self).2
    have hget := CCryptoKeyStore.getKey_stores hw hstores
      fun hcrypted => masterKey_of_open hsound' hopen' (by rw [hcrypted]; decide)
    have hhave' := haveKey_of_stores hstores
    rw [← CKey.setSecret_reset, hmade, ← hkey.pubKey] at hget
    rw [← hkey.pubKey] at hhave'
    unfold addKey
    rw [hadd, if_neg Bool.false_ne_true]
    dsimp only
    rw [h.written]
    refine ⟨⟨⟨_, hsound'⟩, hopen', h.written⟩, rfl, fun keyid => ?_⟩
    unfold about
    by_cases hid : C.hash160 key.vchPubKey = keyid
    · subst hid
      unfold About.join
      rw [if_pos rfl, hhave, if_neg Bool.false_ne_true]
      dsimp only
      rw [hget, hhave', lookup_insert_eq_ite, if_pos rfl]
      cases label with
      | none => rfl
      | some strLabel =>
        dsimp only
        rw [lookup_insert_eq_ite, if_pos rfl, Option.some_or]
    · rw [if_neg hid]
      dsimp only
      rw [(hother keyid hid).1, (hother keyid hid).2, lookup_insert_eq_ite, if_neg hid, lookup_insert_eq_ite,
        if_neg hid]
      cases label with
      | none => rfl
      | some strLabel =>
        dsimp only
        rw [lookup_insert_eq_ite, if_neg hid]

theorem label?_noteOf (w : KeyWallet) (setKeyPool : List Uint160) (keyid : Uint160) :
    (w.noteOf setKeyPool keyid).label? = w.mapAddressBook.lookup keyid := by
  unfold noteOf
  cases w.mapAddressBook.lookup keyid with
  | some strLabel => rfl
  | none =>
    dsimp only
    split <;> rfl

/-- What becomes of an id when a dump of `w₀` with this time for it is read. -/
def merged (C : KeyPrimitives) (w₀ : KeyWallet) (keyid : Uint160) (nTime : Option Int) (x : About) : About :=
  match nTime, w₀.store.getKey C keyid CKey.reset with
  | some nTime, some key => x.join key nTime (w₀.mapAddressBook.lookup keyid)
  | _, _ => x

/-- The lines of a dump, one after the other. -/
theorem foldl_keyLines (hw : C.Works vMasterKey) {vMasterKey₀ : List UInt8} (hw₀ : C.Works vMasterKey₀)
    {w₀ : KeyWallet} (h₀ : Ready C vMasterKey₀ w₀) (setKeyPool : List Uint160) {births : List (Int × Uint160)}
    (hnodup : (births.map Prod.snd).Nodup) (hreads : ∀ e ∈ births, T.Reads e.1) {r : Import}
    (h : Ready C vMasterKey r.wallet) :
    let r' := (births.filterMap (w₀.keyLine? C fTestNet T setKeyPool)).foldl (importLine C fTestNet T) r
    r'.fGood = r.fGood ∧ ∀ keyid, r'.wallet.about C keyid =
      merged C w₀ keyid ((births.find? fun e => decide (e.2 = keyid)).map Prod.fst) (r.wallet.about C keyid) := by
  induction births generalizing r with
  | nil => exact ⟨rfl, fun _ => rfl⟩
  | cons e births ih =>
    rw [List.map_cons, List.nodup_cons] at hnodup
    have ih := @ih hnodup.2 fun e' he' => hreads e' (List.mem_cons_of_mem _ he')
    have hfirst : births.find? (fun e' => decide (e'.2 = e.2)) = none :=
      List.find?_eq_none.mpr fun e' he' heq => hnodup.1 (of_decide_eq_true heq ▸ List.mem_map_of_mem he')
    cases hget : w₀.store.getKey C e.2 CKey.reset with
    | none =>
      obtain ⟨hgood, habout⟩ := ih h
      rw [List.filterMap_cons_none (by unfold keyLine?; rw [hget]; rfl)]
      refine ⟨hgood, fun keyid => (habout keyid).trans ?_⟩
      by_cases hid : e.2 = keyid
      · subst hid
        unfold merged
        rw [hfirst, hget]
        cases (List.find? (fun e' => decide (e'.2 = e.2)) (e :: births)).map Prod.fst <;> rfl
      · rw [List.find?_cons_of_neg (by simpa using hid)]
    | some key =>
      obtain ⟨added₀, hsound₀⟩ := h₀.sound
      obtain ⟨hmade, hid⟩ := getKey_made hw₀ hsound₀ h₀.unlocked hget
      have hline : importLine C fTestNet T r (keyLine C fTestNet T key e.2 e.1 (w₀.noteOf setKeyPool e.2)) =
          importKey C r key e.1 (w₀.mapAddressBook.lookup e.2) := by
        unfold importLine
        rw [readLine_keyLine C fTestNet T (hreads e List.mem_cons_self), label?_noteOf]
        dsimp only
        rw [hmade]
      obtain ⟨hready, hgood', habout'⟩ := importKey_about hw h hmade e.1 (w₀.mapAddressBook.lookup e.2)
      obtain ⟨hgood, habout⟩ := ih hready
      rw [List.filterMap_cons_some (by unfold keyLine?; rw [hget]; rfl), List.foldl_cons, hline]
      refine ⟨hgood.trans hgood', fun keyid => (habout keyid).trans ?_⟩
      rw [habout', hid]
      by_cases hid : e.2 = keyid
      · subst hid
        rw [hfirst, if_pos rfl, List.find?_cons_of_pos (by simp)]
        unfold merged
        rw [hget]
        rfl
      · rw [if_neg hid, List.find?_cons_of_neg (by simpa using hid)]

theorem splitOn_lines {lines : List (List UInt8)} (h : ∀ line ∈ lines, (10 : UInt8) ∉ line) :
    (lines.flatMap fun line => line ++ [10]).splitOn 10 = lines ++ [[]] := by
  induction lines with
  | nil => rfl
  | cons line lines ih =>
    rw [List.flatMap_cons, List.append_assoc, List.singleton_append,
      List.splitOn_append_cons_self_of_not_mem (h line List.mem_cons_self),
      ih fun l hl => h l (List.mem_cons_of_mem _ hl), List.cons_append]

/-- A comment or an empty line changes nothing. -/
theorem foldl_comments {lines : List (List UInt8)} (h : ∀ line ∈ lines, line.head? = none ∨ line.head? = some 35)
    (r : Import) : lines.foldl (importLine C fTestNet T) r = r := by
  induction lines with
  | nil => rfl
  | cons line lines ih =>
    have hline : importLine C fTestNet T r line = r := by
      unfold importLine readLine
      rw [if_pos (h line List.mem_cons_self)]
    rw [List.foldl_cons, hline, ih fun l hl => h l (List.mem_cons_of_mem _ hl)]

theorem notMem_intercalate {ls : List (List UInt8)} (h : ∀ l ∈ ls, ∀ c ∈ l, (32 : UInt8) < c) :
    (10 : UInt8) ∉ List.intercalate [32] ls := by
  have hpart : ∀ l ∈ ls, (10 : UInt8) ∉ l := fun l hl hmem => absurd (h l hl 10 hmem) (by decide)
  induction ls with
  | nil => exact List.not_mem_nil
  | cons l ls ih =>
    rw [List.forall_mem_cons] at h hpart
    cases ls with
    | nil => exact (List.intercalate_singleton (α := UInt8)) ▸ hpart.1
    | cons l' ls =>
      rw [List.intercalate_cons_cons, List.mem_append, List.mem_append, List.mem_singleton, not_or, not_or]
      exact ⟨⟨hpart.1, by decide⟩, ih h.2 hpart.2⟩

/-- **A DUMP IS A COPY.**  What `dumpwallet` wrote of the keys of one open wallet, `importwallet` brings into
    another: each key that was not there, with the time and the label, and nothing else changes. -/
theorem importwallet_dumpwallet (hw : C.Works vMasterKey) {vMasterKey₀ : List UInt8} (hw₀ : C.Works vMasterKey₀)
    {w₀ w : KeyWallet} (h₀ : Ready C vMasterKey₀ w₀) (h : Ready C vMasterKey w) {comments : List (List UInt8)}
    (hcomments : ∀ line ∈ comments, line.head? = some 35 ∧ (10 : UInt8) ∉ line) (setKeyPool : List Uint160)
    {mapKeyBirth : StdMap Uint160 Int} (hreads : ∀ keyid nTime, mapKeyBirth.lookup keyid = some nTime → T.Reads nTime)
    (nBestTime : UInt32) :
    ∃ w', w.importwallet C fTestNet T nBestTime (w₀.dumpwallet C fTestNet T comments setKeyPool mapKeyBirth) =
        some (true, w') ∧
      ∀ keyid, w'.about C keyid = merged C w₀ keyid (mapKeyBirth.lookup keyid) (w.about C keyid) := by
  have hperm : (keyBirths mapKeyBirth).Perm (mapKeyBirth.entries.map fun e => (e.2, e.1)) :=
    List.perm_insertionSort _ _
  have hbirth : ∀ {e : Int × Uint160}, e ∈ keyBirths mapKeyBirth ↔ mapKeyBirth.lookup e.2 = some e.1 := by
    intro e
    rw [hperm.mem_iff, List.mem_map, ← Option.mem_def, AList.mem_lookup_iff]
    constructor
    · rintro ⟨x, hx, rfl⟩
      exact hx
    · exact fun he => ⟨_, he, rfl⟩
  have hnodup : ((keyBirths mapKeyBirth).map Prod.snd).Nodup := by
    rw [(hperm.map Prod.snd).nodup_iff, List.map_map]
    exact mapKeyBirth.nodupKeys
  have hlines : ∀ line ∈ comments ++ [[]] ++
      (keyBirths mapKeyBirth).filterMap (w₀.keyLine? C fTestNet T setKeyPool) ++ [[], ascii "# End of dump"],
      (10 : UInt8) ∉ line := by
    intro line hline
    simp only [List.mem_append, List.mem_cons, List.not_mem_nil, or_false] at hline
    rcases hline with ((hline | rfl) | hline) | rfl | rfl
    · exact (hcomments line hline).2
    · exact List.not_mem_nil
    · obtain ⟨e, he, hline⟩ := List.mem_filterMap.mp hline
      obtain ⟨key, -, rfl⟩ := Option.map_eq_some_iff.mp hline
      exact notMem_intercalate (lt_of_mem_keyParts C fTestNet T key e.2 (hreads _ _ (hbirth.mp he)) _)
    · exact List.not_mem_nil
    · decide
  obtain ⟨hgood, habout⟩ := @foldl_keyLines C fTestNet T vMasterKey hw vMasterKey₀ hw₀ w₀ h₀ setKeyPool
    (keyBirths mapKeyBirth) hnodup (fun e he => hreads _ _ (hbirth.mp he)) ⟨w, true, nBestTime.toNat⟩ h
  have hhead : ∀ line ∈ comments ++ [[]], line.head? = none ∨ line.head? = some 35 := by
    intro line hline
    rcases List.mem_append.mp hline with hline | hline
    · exact Or.inr (hcomments line hline).1
    · exact Or.inl (List.mem_singleton.mp hline ▸ rfl)
  have hend : ∀ line ∈ [[], ascii "# End of dump"] ++ [[]], line.head? = none ∨ line.head? = some 35 := by decide
  unfold importwallet
  rw [if_neg (by rw [h.unlocked]; decide)]
  dsimp only
  unfold dumpwallet
  rw [splitOn_lines hlines, List.append_assoc _ _ [[]], List.foldl_append, foldl_comments hend, List.foldl_append,
    foldl_comments hhead, hgood]
  refine ⟨_, rfl, fun keyid => (habout keyid).trans ?_⟩
  congr 1
  -- the list of the births is searched as the map is
  cases hfind : (keyBirths mapKeyBirth).find? fun e => decide (e.2 = keyid) with
  | some e =>
    have hkey : e.2 = keyid := by simpa using List.find?_some hfind
    rw [← hkey, hbirth.mp (List.mem_of_find?_eq_some hfind)]
    rfl
  | none =>
    cases hlookup : mapKeyBirth.lookup keyid with
    | none => rfl
    | some nTime =>
      have := List.find?_eq_none.mp hfind (nTime, keyid) (hbirth.mpr hlookup)
      exact absurd (by simp) this

end KeyWallet

/-! ## One key -/

namespace OneKey

open CCryptoKeyStore TwoKeys

/-- With the hashes of the two texts that are written for the first key. -/
def dumping : KeyPrimitives :=
  { primitives with
    hash := fun bytes =>
      if bytes = 153 :: secret1.1 ++ [1] then 0x2b9d16acd48928400c88ffca566e4c5513d5f63a318441511213bc0aca7d0b7a
      else if bytes = 25 :: toLE 20 0xef1c351778f0e58d73a2e50ec7ddde11a25072fc then
        0x34d40afa04037c066ff13b638dabfe9e7150e92c9ca8f4dd6e15e0ab02dd7623
      else primitives.hash bytes }

theorem works_dumping : dumping.Works masterKey :=
  ⟨works.length, works.valid, works.masterKey, works.encrypts, works.decrypts⟩

def time : DumpTime := ⟨fun _ => ascii "2014-05-13T16:53:20Z", fun _ => 1400000000⟩

def keyid : Uint160 := 0xef1c351778f0e58d73a2e50ec7ddde11a25072fc

/-- The first key with the label "a b". -/
def walletA : KeyWallet :=
  ⟨(empty.addKey dumping key1).2, (∅ : StdMap Uint160 Int).insert keyid 1400000000,
    (∅ : StdMap Uint160 (List UInt8)).insert keyid (ascii "a b"), 1400000000, fun _ => true⟩

def walletB : KeyWallet := ⟨empty, ∅, ∅, 0, fun _ => true⟩

theorem importwallet_dumpwallet_oneKey : ∃ w', walletB.importwallet dumping false time 1400000000
      (walletA.dumpwallet dumping false time [ascii "# Wallet dump created by Silkcoin"] [] walletA.mapKeyMetadata) =
        some (true, w') ∧
    w'.about dumping keyid = (some key1, true, some 1400000000, some (ascii "a b")) := by
  have hmade : key1.Made dumping := ⟨rfl, by decide⟩
  have hA : walletA.Ready dumping masterKey :=
    ⟨⟨_, sound_empty.addKey works_dumping hmade (by simp)⟩, rfl, fun _ => rfl⟩
  have hB : walletB.Ready dumping masterKey := ⟨⟨[], sound_empty⟩, rfl, fun _ => rfl⟩
  have hcomments : ∀ line ∈ [ascii "# Wallet dump created by Silkcoin"],
      line.head? = some 35 ∧ (10 : UInt8) ∉ line := by decide
  have hreads : ∀ id nTime, walletA.mapKeyMetadata.lookup id = some nTime → time.Reads nTime := by
    intro id nTime hlookup
    unfold walletA at hlookup
    rw [lookup_insert_eq_ite] at hlookup
    split at hlookup
    · cases hlookup
      exact ⟨rfl, by decide +kernel⟩
    · cases hlookup
  obtain ⟨w', himport, habout⟩ :=
    KeyWallet.importwallet_dumpwallet works_dumping works_dumping hA hB hcomments [] hreads 1400000000
  exact ⟨w', himport, habout keyid⟩

end OneKey
end Dump
end Silkcoin
