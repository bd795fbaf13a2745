/-
  `SignSignature`: what the wallet calls its own, it can spend.

  `IsMine` and the signing `Solver` read the same templates, but not with the same depth: `IsMine` follows
  a script hash to the script behind it as often as it takes, `SignSignature` does it ONCE, as
  `VerifyScript` does.  And the interpreter pushes no item of more than 520 bytes, so that a longer script
  behind a hash can be known, have all its keys in the wallet, and not be spent.

  `signSignature_iff_of_isMine` is the result: of an output that is the wallet's own, and with its keys at
  hand, an input is signed if and only if the output is no script hash, or the script behind it is no
  script hash itself and has at most 520 bytes.

  The curve is a parameter (`SignPrimitives`), as far as it signs and verifies; `CheckSig` and
  `SignatureHash` are modelled.  `CheckSig` also remembers what it has verified, which changes no answer.
-/
import Silkcoin.SignatureHash
import Silkcoin.StandardRun

namespace Silkcoin

namespace Standard

open BatchStore SignatureHash Codec

/-! ## `CheckSig` -/

/-- The code behind keys and signatures, and the hash functions of the interpreter. -/
structure SignPrimitives extends KeyPrimitives where
  sign : CKey → Uint256 → Option (List UInt8)
  verify : CKey → Uint256 → List UInt8 → Bool
  ripemd160 : List UInt8 → List UInt8
  sha1 : List UInt8 → List UInt8
  sha256 : List UInt8 → List UInt8

section Sign

variable (E : SignPrimitives)

def checkSig (vchSig vchPubKey : List UInt8) (scriptCode : CScript) (txTo : CTransaction) (nIn : Nat)
    (nHashType : Int) : Bool :=
  match vchSig.getLast? with
  | none => false
  | some back =>
    if nHashType ≠ 0 ∧ nHashType ≠ back.toNat then false
    else
      let sighash := signatureHash E.hash scriptCode txTo nIn (BitVec.ofNat 32 back.toNat)
      if E.validPubKey vchPubKey then
        E.verify (CKey.reset.setPubKey E.toKeyPrimitives vchPubKey) sighash vchSig.dropLast
      else false

/-- The interpreter's functions. -/
def crypto : Crypto where
  ripemd160 := E.ripemd160
  sha1 := E.sha1
  sha256 := E.sha256
  hash160 vch := toLE 20 (E.hash160 vch).toNat
  hash256 vch := toLE 32 (E.hash vch).toNat
  checkSig := checkSig E

/-! ## The signing `Solver` -/

variable (keystore : CKeyStore) (hash : Uint256) (nHashType : HashType)

/-- What `Sign1` appends. -/
def sign1 (address : Uint160) : Option CScript :=
  match keystore.getKey E.toKeyPrimitives address CKey.reset with
  | none => none
  | some key => (E.sign key hash).map fun vchSig => pushData (vchSig ++ [UInt8.ofNat nHashType.toNat])

/-- The loop of `SignN`: a key that cannot sign is passed by. -/
def signN (nRequired : Nat) : List (List UInt8) → Nat → CScript → Nat × CScript
  | [], nSigned, scriptSigRet => (nSigned, scriptSigRet)
  | pubkey :: keys, nSigned, scriptSigRet =>
    if nSigned < nRequired then
      match sign1 E keystore hash nHashType (E.hash160 pubkey) with
      | some vch => signN nRequired keys (nSigned + 1) (scriptSigRet ++ vch)
      | none => signN nRequired keys nSigned scriptSigRet
    else (nSigned, scriptSigRet)

/-- `Solver` with a key store: its result, `scriptSigRet` and `whichTypeRet`. -/
def solverSign (scriptPubKey : CScript) : Bool × CScript × txnouttype :=
  match solver scriptPubKey [] with
  | (false, whichType, _) => (false, [], whichType)
  | (true, whichType, vSolutions) =>
    match whichType with
    | .TX_NONSTANDARD => (false, [], whichType)
    | .TX_PUBKEY =>
      match sign1 E keystore hash nHashType (E.hash160 (vSolutions.headD [])) with
      | none => (false, [], whichType)
      | some scriptSig => (true, scriptSig, whichType)
    | .TX_PUBKEYHASH =>
      let keyID := uint160 (vSolutions.headD [])
      match sign1 E keystore hash nHashType keyID with
      | none => (false, [], whichType)
      | some scriptSig =>
        (true, scriptSig ++ pushData ((keystore.getPubKey E.toKeyPrimitives keyID).getD []), whichType)
    | .TX_SCRIPTHASH =>
      match keystore.getCScript (uint160 (vSolutions.headD [])) with
      | none => (false, [], whichType)
      | some subscript => (true, subscript, whichType)
    | .TX_MULTISIG =>
      let nRequired := ((vSolutions.headD []).headD 0).toNat
      let (nSigned, scriptSig) := signN E keystore hash nHashType nRequired vSolutions.tail.dropLast 0 [OP_0]
      (decide (nSigned = nRequired), scriptSig, whichType)

end Sign

/-! ## `SignSignature` -/

/-- The interpreter, for input `nIn` of `txTo`; any hash type is checked for. -/
def contextOf (txTo : CTransaction) (nIn : Nat) : ScriptContext := ⟨txTo, nIn, 0⟩

/-- The result, and the transaction with what was put into it. -/
def signSignature (E : SignPrimitives) (keystore : CKeyStore) (fromPubKey : CScript) (txTo : CTransaction)
    (nIn : Nat) (nHashType : HashType) : Bool × CTransaction :=
  let hash := signatureHash E.hash fromPubKey txTo nIn nHashType
  match solverSign E keystore hash nHashType fromPubKey with
  | (false, scriptSig, _) => (false, setScriptSig txTo nIn scriptSig)
  | (true, subscript, .TX_SCRIPTHASH) =>
    let txTo := setScriptSig txTo nIn subscript
    let hash2 := signatureHash E.hash subscript txTo nIn nHashType
    let (fSolved, scriptSig, subType) := solverSign E keystore hash2 nHashType subscript
    let scriptSig := scriptSig ++ pushData subscript
    let txTo := setScriptSig txTo nIn scriptSig
    if (fSolved && decide (subType ≠ .TX_SCRIPTHASH)) = false then (false, txTo)
    else ((verifyScript (crypto E) (contextOf txTo nIn) scriptSig fromPubKey).verdict, txTo)
  | (true, scriptSig, _) =>
    let txTo := setScriptSig txTo nIn scriptSig
    ((verifyScript (crypto E) (contextOf txTo nIn) scriptSig fromPubKey).verdict, txTo)

/-! ## What is relied on -/

/-- The type fits into the byte behind the signature, and is one the interpreter takes. -/
def StandardType (nHashType : HashType) : Prop :=
  nHashType.toNat < 256 ∧
    1 ≤ UInt8.ofNat nHashType.toNat &&& 0x7f ∧ UInt8.ofNat nHashType.toNat &&& 0x7f ≤ 3

/-- The curve: a key signs, and its signature verifies under its public key; both are encoded as the
    interpreter wants them.  A signature is not the hash of its key. -/
structure Signs (E : SignPrimitives) : Prop where
  signs : ∀ key : CKey, key.Made E.toKeyPrimitives → ∀ hash, (E.sign key hash).isSome = true
  verifies : ∀ key : CKey, key.Made E.toKeyPrimitives → ∀ hash vchSig, E.sign key hash = some vchSig →
    E.verify (CKey.reset.setPubKey E.toKeyPrimitives key.vchPubKey) hash vchSig = true
  canonical : ∀ (key : CKey) hash vchSig, E.sign key hash = some vchSig → ∀ back : UInt8,
    1 ≤ back &&& 0x7f → back &&& 0x7f ≤ 3 → isCanonicalSignature (vchSig ++ [back]) = true
  validPubKey : ∀ vchSecret fCompressed, E.validPubKey (E.pubKey vchSecret fCompressed) = true
  canonicalPubKey : ∀ vchSecret fCompressed, isCanonicalPubKey (E.pubKey vchSecret fCompressed) = true
  notHash : ∀ (key : CKey) hash vchSig (back : UInt8), E.sign key hash = some vchSig →
    vchSig ++ [back] ≠ toLE 20 (E.hash160 key.vchPubKey).toNat

/-- The keys of the store can be had, and keys and scripts are kept under their own ids; no other bytes
    that could be a key have the id of one that is kept. -/
structure Available (E : SignPrimitives) (keystore : CKeyStore) : Prop where
  key : ∀ id, keystore.haveKey id = true → ∃ key, keystore.getKey E.toKeyPrimitives id CKey.reset = some key ∧
    key.Made E.toKeyPrimitives ∧ E.hash160 key.vchPubKey = id ∧
      keystore.getPubKey E.toKeyPrimitives id = some key.vchPubKey
  script : ∀ id script, keystore.getCScript id = some script → E.hash160 script = id
  noOther : ∀ (vch : List UInt8) key, vch.length ≤ 120 →
    keystore.getKey E.toKeyPrimitives (E.hash160 vch) CKey.reset = some key → key.vchPubKey = vch

/-- The keys of a store that lost none can be had while it is not locked. -/
theorem available_of_sound {C : KeyPrimitives} {vMasterKey : List UInt8} {store : CCryptoKeyStore}
    {added : List CKey} (hw : C.Works vMasterKey) (hsound : store.Sound C vMasterKey added)
    (hopen : store.isLocked = false) {id : Uint160} (h : store.haveKey id = true) :
    ∃ key, store.getKey C id CKey.reset = some key ∧ key.Made C ∧ C.hash160 key.vchPubKey = id ∧
      store.getPubKey C id = some key.vchPubKey := by
  unfold CCryptoKeyStore.haveKey CCryptoKeyStore.isCrypted at h
  unfold CCryptoKeyStore.isLocked at hopen
  cases hmode : store.fUseCrypto with
  | false =>
    rw [hmode, if_neg Bool.false_ne_true] at h
    obtain ⟨⟨vchSecret, fCompressed⟩, hlookup⟩ := Option.isSome_iff_exists.mp h
    obtain rfl := hsound.keys id vchSecret fCompressed hlookup
    have hstores : store.Stores C vMasterKey vchSecret fCompressed := by
      unfold CCryptoKeyStore.Stores
      rw [if_neg (by rw [hmode]; decide)]
      exact hlookup
    have hget := CCryptoKeyStore.getKey_stores hw hstores fun hcrypted => by rw [hmode] at hcrypted; cases hcrypted
    refine ⟨_, hget, ⟨rfl, rfl⟩, rfl, ?_⟩
    unfold CCryptoKeyStore.getPubKey CCryptoKeyStore.isCrypted
    rw [if_pos hmode, hget]
    rfl
  | true =>
    rw [hmode, if_pos rfl] at h
    rw [hmode, Bool.true_and, decide_eq_false_iff_not] at hopen
    obtain ⟨⟨vchPubKey, vchCryptedSecret⟩, hlookup⟩ := Option.isSome_iff_exists.mp h
    obtain ⟨vchSecret, fCompressed, hpub, rfl, hencrypt⟩ := hsound.cryptedKeys id _ hlookup
    dsimp only at hpub hlookup hencrypt ⊢
    subst hpub
    have hstores : store.Stores C vMasterKey vchSecret fCompressed := by
      unfold CCryptoKeyStore.Stores
      rw [if_pos hmode]
      exact ⟨vchCryptedSecret, hlookup, hencrypt⟩
    have hget := CCryptoKeyStore.getKey_stores hw hstores fun _ => hsound.masterKey.resolve_left hopen
    refine ⟨_, hget, ⟨rfl, rfl⟩, rfl, ?_⟩
    unfold CCryptoKeyStore.getPubKey CCryptoKeyStore.isCrypted
    rw [if_neg (by rw [hmode]; decide), hlookup]
    rfl

/-! ## Signatures and keys -/

theorem canonicalSignature_bounds {vchSig : Valtype} (h : isCanonicalSignature vchSig = true) :
    9 ≤ vchSig.length ∧ vchSig.length ≤ 73 ∧ vchSig.getD 0 0 = 0x30 := by
  unfold isCanonicalSignature at h
  split at h
  · cases h
  · rename_i hlen
    dsimp only at h
    split at h
    · cases h
    split at h
    · cases h
    · rename_i h30
      exact ⟨by omega, by omega, not_not.mp h30⟩

theorem canonicalPubKey_bounds {vchPubKey : Valtype} (h : isCanonicalPubKey vchPubKey = true) :
    33 ≤ vchPubKey.length ∧ vchPubKey.length ≤ 65 ∧ vchPubKey.getD 0 0 ≠ 0x30 := by
  unfold isCanonicalPubKey at h
  split at h
  · cases h
  split at h
  · rename_i hfirst
    have hlen := of_decide_eq_true h
    rw [hfirst]
    exact ⟨by omega, by omega, by decide⟩
  split at h
  · rename_i hfirst
    have hlen := of_decide_eq_true h
    refine ⟨by omega, by omega, ?_⟩
    rcases hfirst with hfirst | hfirst <;> rw [hfirst] <;> decide
  · cases h

/-- No signature is encoded like a key. -/
theorem canonical_ne {vchSig vchPubKey : Valtype} (hsig : isCanonicalSignature vchSig = true)
    (hkey : isCanonicalPubKey vchPubKey = true) : vchSig ≠ vchPubKey := by
  rintro rfl
  exact (canonicalPubKey_bounds hkey).2.2 (canonicalSignature_bounds hsig).2.2

/-- The signature `Sign1` makes with the key of a public key. -/
structure SignedBy (E : SignPrimitives) (hash : Uint256) (nHashType : HashType) (vchSig vch : Valtype) :
    Prop where
  canonical : isCanonicalSignature vchSig = true
  canonicalKey : isCanonicalPubKey vch = true
  notHash : vchSig ≠ toLE 20 (E.hash160 vch).toNat
  signs : ∀ (X : ScriptContext) (code : CScript), X.nHashType = 0 →
    signatureHash E.hash code X.txTo X.nIn nHashType = hash → signs (crypto E) X code vchSig vch = true

variable {E : SignPrimitives} {keystore : CKeyStore} {nHashType : HashType} (hash : Uint256)

theorem sign1_signs (hsigns : Signs E) (havail : Available E keystore) (htype : StandardType nHashType)
    {id : Uint160} (h : keystore.haveKey id = true) :
    ∃ vchSig vch, sign1 E keystore hash nHashType id = some (pushData vchSig) ∧ E.hash160 vch = id ∧
      keystore.getPubKey E.toKeyPrimitives id = some vch ∧
      (∀ vch' : List UInt8, vch'.length ≤ 120 → E.hash160 vch' = id → vch' = vch) ∧
      SignedBy E hash nHashType vchSig vch := by
  obtain ⟨key, hget, hmade, hid, hpub⟩ := havail.key id h
  obtain ⟨vchSig, hsign⟩ := Option.isSome_iff_exists.mp (hsigns.signs key hmade hash)
  have hkey := hmade.pubKey
  have hcanonKey := hsigns.canonicalPubKey key.vchSecret key.fCompressedPubKey
  have hvalid := hsigns.validPubKey key.vchSecret key.fCompressedPubKey
  rw [← hkey] at hcanonKey hvalid
  have hcanon := hsigns.canonical key hash vchSig hsign _ htype.2.1 htype.2.2
  refine ⟨vchSig ++ [UInt8.ofNat nHashType.toNat], key.vchPubKey, ?_, hid, hpub, ?_, hcanon, hcanonKey,
    hsigns.notHash key hash vchSig _ hsign, ?_⟩
  · unfold sign1
    rw [hget]
    dsimp only
    rw [hsign]
    rfl
  · intro vch' hlen hid'
    exact (havail.noOther vch' key hlen (by rw [hid']; exact hget)).symm
  · intro X code hX hcode
    have hback : (UInt8.ofNat nHashType.toNat).toNat = nHashType.toNat := UInt8.toNat_ofNat_of_lt' htype.1
    have htypeEq : BitVec.ofNat 32 nHashType.toNat = nHashType := BitVec.eq_of_toNat_eq
      (by rw [BitVec.toNat_ofNat, Nat.mod_eq_of_lt nHashType.isLt])
    unfold signs crypto checkSig
    dsimp only
    rw [hcanon, hcanonKey, List.getLast?_concat]
    dsimp only
    rw [if_neg (by rw [hX]; simp), hback, htypeEq, hcode, if_pos hvalid, List.dropLast_concat,
      hsigns.verifies key hmade hash vchSig hsign]
    rfl

/-- Keys that are all there sign one after the other, as many as are required. -/
theorem signN_signs (hsigns : Signs E) (havail : Available E keystore) (htype : StandardType nHashType)
    (nRequired : Nat) : ∀ (keys : List (List UInt8)) (nSigned : Nat) (scriptSig : CScript),
    (∀ key ∈ keys, key.length ≤ 120 ∧ keystore.haveKey (E.hash160 key) = true) →
    nSigned ≤ nRequired → nRequired ≤ nSigned + keys.length →
    ∃ sigs, signN E keystore hash nHashType nRequired keys nSigned scriptSig =
        (nRequired, scriptSig ++ pushAll sigs) ∧ sigs.length = nRequired - nSigned ∧
      List.SublistForall₂ (SignedBy E hash nHashType) sigs keys
  | [], nSigned, scriptSig, _, hle, hge => by
    obtain rfl : nSigned = nRequired := Nat.le_antisymm hle hge
    exact ⟨[], by simp [signN, pushAll], by simp, .nil⟩
  | key :: keys, nSigned, scriptSig, hkeys, hle, hge => by
    unfold signN
    by_cases hlt : nSigned < nRequired
    · obtain ⟨hlen, hhave⟩ := hkeys key List.mem_cons_self
      obtain ⟨vchSig, vch, hsign, -, -, hunique, hsigned⟩ := sign1_signs hash hsigns havail htype hhave
      obtain rfl := hunique key hlen rfl
      rw [List.length_cons] at hge
      obtain ⟨sigs, hrest, hcount, hmatch⟩ := signN_signs hsigns havail htype nRequired keys (nSigned + 1)
        (scriptSig ++ pushData vchSig) (fun k hk => hkeys k (List.mem_cons_of_mem _ hk)) hlt (by omega)
      refine ⟨vchSig :: sigs, ?_, by rw [List.length_cons]; omega, .cons hsigned hmatch⟩
      rw [if_pos hlt, hsign]
      dsimp only
      rw [hrest, List.append_assoc]
      rfl
    · obtain rfl : nSigned = nRequired := by omega
      rw [if_neg hlt]
      exact ⟨[], by simp [pushAll], by simp, .nil⟩

/-! ## One level of the signing `Solver` -/

theorem vchValue_eq_ofLE : ∀ vch : List UInt8, vchValue vch = ofLE vch
  | [] => rfl
  | b :: vch => by
    have ih := vchValue_eq_ofLE vch
    unfold vchValue at ih ⊢
    rw [List.map_cons, Nat.ofDigits_cons, ih, ofLE]

/-- Twenty bytes are the bytes of their number. -/
theorem toLE_uint160 {hash : List UInt8} (h : hash.length = 20) : toLE 20 (uint160 hash).toNat = hash := by
  have hlt := ofLE_lt hash
  rw [h] at hlt
  unfold uint160
  rw [vchValue_eq_ofLE, BitVec.toNat_ofNat, Nat.mod_eq_of_lt (lt_of_lt_of_eq hlt (by decide)), ← h]
  exact toLE_ofLE hash

/-- A script that is satisfied by these items: whoever signs the hash of the script, whatever is below. -/
def Satisfies (E : SignPrimitives) (hash : Uint256) (nHashType : HashType) (script : CScript)
    (items : List Valtype) : Prop :=
  ∀ (X : ScriptContext) (st : List Valtype), X.nHashType = 0 →
    signatureHash E.hash script X.txTo X.nIn nHashType = hash → st.length < 800 →
    (evalScript (crypto E) X (items.reverse ++ st) script).result = some (vchBool true :: st)

/-- A signature is not pushed by a script that pushes no such bytes. -/
theorem findAndDelete_signature {script : CScript} {ops : List Instruction} {vchSig : Valtype}
    (hdec : Decodes script ops) (hcanon : isCanonicalSignature vchSig = true)
    (hnot : ∀ instr ∈ ops, instr.data ≠ vchSig) : findAndDelete (pushData vchSig) script = script := by
  have hbounds := canonicalSignature_bounds hcanon
  exact findAndDelete_of_not_pushed (by omega) hdec fun instr hmem heq => absurd heq (hnot instr hmem)

/-- The script is signed with items that satisfy it.  The bounds keep it within the interpreter's. -/
def Solved (E : SignPrimitives) (keystore : CKeyStore) (hash : Uint256) (nHashType : HashType)
    (script : CScript) : Prop :=
  ∃ (items : List Valtype) (t : txnouttype), t ≠ .TX_SCRIPTHASH ∧
    solverSign E keystore hash nHashType script = (true, pushAll items, t) ∧
    (∀ v ∈ items, v.length ≤ 120) ∧ items.length ≤ 17 ∧ script.length ≤ 2500 ∧
    Satisfies E hash nHashType script items

section Solved

variable (hsigns : Signs E) (havail : Available E keystore) (htype : StandardType nHashType) {script : CScript}

include hsigns havail htype

theorem solved_pubkey {push : UInt8} {key : List UInt8}
    (hdec : Decodes script [⟨push, key⟩, ⟨OP_CHECKSIG, []⟩]) (hkey : 33 ≤ key.length ∧ key.length ≤ 120)
    (hhave : keystore.haveKey (E.hash160 key) = true) : Solved E keystore hash nHashType script := by
  obtain ⟨vchSig, vch, hsign, -, -, hunique, hsigned⟩ := sign1_signs hash hsigns havail htype hhave
  obtain rfl := hunique key hkey.2 rfl
  have hbounds := canonicalSignature_bounds hsigned.canonical
  have hscript : script.length ≤ 2 * (120 + 5) := length_decodes_le hdec (by simp [hkey.2])
  refine ⟨[vchSig], .TX_PUBKEY, by simp, ?_, by simpa using by omega, by simp, by omega, ?_⟩
  · unfold solverSign
    rw [solver_of_standard hdec (@IsStandard.pubkey push _ hkey)]
    dsimp only [List.headD_cons]
    rw [hsign]
    simp [pushAll]
  · intro X st hX hcode hst
    have hkeep : findAndDelete (pushData vchSig) script = script := by
      refine findAndDelete_signature hdec hsigned.canonical ?_
      intro instr hmem heq
      rcases List.mem_cons.mp hmem with rfl | hmem
      · exact canonical_ne hsigned.canonical hsigned.canonicalKey heq.symm
      · obtain rfl := List.mem_singleton.mp hmem
        rw [← heq] at hbounds
        exact absurd hbounds.1 (by decide)
    have hrun := @run_pubkey (crypto E) X script st push key vchSig hdec hkey (by omega)
    rw [hkeep, hsigned.signs X script hX hcode] at hrun
    exact hrun

theorem solved_pubkeyhash {push : UInt8} {vchHash : List UInt8}
    (hdec : Decodes script
      [⟨OP_DUP, []⟩, ⟨OP_HASH160, []⟩, ⟨push, vchHash⟩, ⟨OP_EQUALVERIFY, []⟩, ⟨OP_CHECKSIG, []⟩])
    (hlen : vchHash.length = 20) (hhave : keystore.haveKey (uint160 vchHash) = true) :
    Solved E keystore hash nHashType script := by
  obtain ⟨vchSig, vch, hsign, hid, hpub, -, hsigned⟩ := sign1_signs hash hsigns havail htype hhave
  have hbounds := canonicalSignature_bounds hsigned.canonical
  have hkeyBounds := canonicalPubKey_bounds hsigned.canonicalKey
  have hscript : script.length ≤ 5 * (20 + 5) := length_decodes_le hdec (by simp [hlen])
  have hhash : toLE 20 (E.hash160 vch).toNat = vchHash := by rw [hid, toLE_uint160 hlen]
  refine ⟨[vchSig, vch], .TX_PUBKEYHASH, by simp, ?_, by simpa using ⟨by omega, by omega⟩, by simp, by omega,
    ?_⟩
  · unfold solverSign
    rw [solver_of_standard hdec (@IsStandard.pubkeyhash push _ hlen)]
    dsimp only [List.headD_cons]
    rw [hsign]
    dsimp only
    rw [hpub]
    simp [pushAll]
  · intro X st hX hcode hst
    have hkeep : findAndDelete (pushData vchSig) script = script := by
      refine findAndDelete_signature hdec hsigned.canonical ?_
      intro instr hmem heq
      have hne : vchSig ≠ [] := ne_nil_of_length (by decide) hbounds.1
      simp only [List.mem_cons, List.not_mem_nil, or_false] at hmem
      rcases hmem with rfl | rfl | rfl | rfl | rfl
      · exact hne heq.symm
      · exact hne heq.symm
      · exact hsigned.notHash (heq.symm.trans hhash.symm)
      · exact hne heq.symm
      · exact hne heq.symm
    have hrun := @run_pubkeyhash (crypto E) X script st push vchHash vch vchSig hdec hlen hhash (by omega)
    rw [hkeep, hsigned.signs X script hX hcode] at hrun
    exact hrun

theorem solved_multisig {m n : Nat} {keys : List Instruction}
    (hdec : Decodes script
      (⟨encodeOP_N m, []⟩ :: (keys ++ [⟨encodeOP_N n, []⟩, ⟨OP_CHECKMULTISIG, []⟩])))
    (hkeys : ∀ key ∈ keys, 33 ≤ key.data.length ∧ key.data.length ≤ 120) (hm : 1 ≤ m) (hmn : m ≤ n)
    (hn : n = keys.length) (h16 : n ≤ 16)
    (hhave : ∀ key ∈ keys.map Instruction.data, keystore.haveKey (E.hash160 key) = true) :
    Solved E keystore hash nHashType script := by
  have hlen : ∀ key ∈ keys.map Instruction.data, key.length ≤ 120 := by
    intro key hmem
    obtain ⟨instr, hinstr, rfl⟩ := List.mem_map.mp hmem
    exact (hkeys instr hinstr).2
  obtain ⟨sigs, hsign, hcount, hmatch⟩ := signN_signs hash hsigns havail htype m
    (keys.map Instruction.data) 0 [OP_0] (fun key hmem => ⟨hlen key hmem, hhave key hmem⟩) (by omega)
    (by rw [List.length_map]; omega)
  -- every signature is one of a key, and every key is encoded as a key
  have hsigs : ∀ vchSig ∈ sigs, isCanonicalSignature vchSig = true := by
    intro vchSig hmem
    obtain ⟨vch, -, hsigned⟩ := Matching.exists_of_mem hmatch hmem
    exact hsigned.canonical
  have hcanonKey : ∀ key ∈ keys.map Instruction.data, isCanonicalPubKey key = true := by
    intro key hmem
    obtain ⟨vchSig, vch, -, -, -, hunique, hsigned⟩ := sign1_signs hash hsigns havail htype (hhave key hmem)
    obtain rfl := hunique key (hlen key hmem) rfl
    exact hsigned.canonicalKey
  have hscript := length_multisig_le hdec hkeys
  refine ⟨[] :: sigs, .TX_MULTISIG, by simp, ?_, ?_, ?_, by omega, ?_⟩
  · unfold solverSign
    rw [solver_of_standard hdec (.multisig hkeys hm hmn hn h16)]
    have hm' : (UInt8.ofNat m).toNat = m := UInt8.toNat_ofNat_of_lt' (by simp only [UInt8.size]; omega)
    simp only [List.headD_cons, List.tail_cons, List.dropLast_concat, hm', hsign, decide_true]
    rfl
  · intro v hmem
    rcases List.mem_cons.mp hmem with rfl | hmem
    · exact Nat.zero_le _
    · have := canonicalSignature_bounds (hsigs v hmem)
      omega
  · rw [List.length_cons]
    omega
  · intro X st hX hcode hst
    obtain ⟨fSuccess, hrun, hiff⟩ := @run_multisig_iff (crypto E) X script st m n keys sigs [] hdec hkeys hm
      hmn hn h16 (by omega) (by omega)
      (fun v hmem => by have := canonicalSignature_bounds (hsigs v hmem); omega)
      (fun v hmem hkey => canonical_ne (hsigs v hmem) (hcanonKey v hkey) rfl)
    have hall : List.SublistForall₂ (fun vchSig key => signs (crypto E) X script vchSig key = true) sigs
        (keys.map Instruction.data) := by
      obtain ⟨l, hl, hsub⟩ := List.sublistForall₂_iff.mp hmatch
      exact List.sublistForall₂_iff.mpr ⟨l, hl.imp fun _ _ hs => hs.signs X script hX hcode, hsub⟩
    rw [hiff.mpr hall] at hrun
    rw [List.reverse_cons, List.append_assoc]
    exact hrun

/-- What is the wallet's own, and no script hash, can be signed. -/
theorem solved_of_isMine {nDepth : Nat} (hmine : keystore.isMineFrom E.toKeyPrimitives nDepth script = true)
    (hp2sh : ¬ isPayToScriptHash script = true) : Solved E keystore hash nHashType script := by
  unfold CKeyStore.isMineFrom at hmine
  cases hsol : solveScript script with
  | none =>
    rw [hsol] at hmine
    cases hmine
  | some solution =>
    rw [hsol] at hmine
    obtain ⟨ops, t, S, hdec, hstd, hsolution⟩ := solveScript_iff.mp hsol
    cases hstd with
    | scripthash hlen => exact absurd (isPayToScriptHash_iff.mpr ⟨hlen, hdec⟩).1 hp2sh
    | pubkey hkey =>
      cases hsolution
      exact solved_pubkey hash hsigns havail htype hdec hkey hmine
    | pubkeyhash hlen =>
      cases hsolution
      exact solved_pubkeyhash hash hsigns havail htype hdec hlen hmine
    | @multisig m n keys hkeys hm hmn hn h16 =>
      rw [solutionOf_multisig (by omega)] at hsolution
      cases hsolution
      refine solved_multisig hash hsigns havail htype hdec hkeys hm hmn hn h16 ?_
      exact List.countP_eq_length.mp (of_decide_eq_true hmine)

end Solved

/-! ## `SignSignature` -/

/-- The script behind a script hash, as far as the store knows it. -/
def redeemScript (keystore : CKeyStore) (scriptPubKey : CScript) : Option CScript :=
  if isPayToScriptHash scriptPubKey then keystore.getCScript (uint160 ((scriptPubKey.drop 2).take 20))
  else none

/-- A script hash is the wallet's own if the script behind it is. -/
theorem redeemScript_of_isMine {C : KeyPrimitives} {nDepth : Nat} {scriptPubKey : CScript}
    (hmine : keystore.isMineFrom C nDepth scriptPubKey = true) (hp2sh : isPayToScriptHash scriptPubKey = true) :
    ∃ redeem nDepth', redeemScript keystore scriptPubKey = some redeem ∧
      keystore.isMineFrom C nDepth' redeem = true := by
  unfold CKeyStore.isMineFrom solveScript at hmine
  rw [if_pos hp2sh] at hmine
  unfold redeemScript
  rw [if_pos hp2sh]
  dsimp only at hmine
  cases nDepth with
  | zero => cases hmine
  | succ nDepth =>
    dsimp only at hmine
    cases hget : keystore.getCScript (uint160 ((scriptPubKey.drop 2).take 20)) with
    | none => rw [hget] at hmine; cases hmine
    | some redeem =>
      rw [hget] at hmine
      exact ⟨redeem, nDepth, rfl, hmine⟩

section Main

variable {txTo : CTransaction} {nIn : Nat} {scriptPubKey redeem : CScript} {items : List Valtype}

/-- The signing `Solver` says of a script hash that it is one, whether it knows the script or not. -/
theorem solverSign_scripthash (hash : Uint256) (hp2sh : isPayToScriptHash scriptPubKey = true) :
    (solverSign E keystore hash nHashType scriptPubKey).2.2 = .TX_SCRIPTHASH := by
  obtain ⟨hlen, hdec⟩ := isPayToScriptHash_iff.mp ⟨hp2sh, rfl⟩
  unfold solverSign
  rw [solver_of_standard hdec (.scripthash hlen)]
  dsimp only [List.headD_cons]
  cases keystore.getCScript (uint160 ((scriptPubKey.drop 2).take 20)) <;> rfl

/-- No script hash: one level is all there is. -/
theorem signSignature_bare (hp2sh : ¬ isPayToScriptHash scriptPubKey = true)
    (h : Solved E keystore (signatureHash E.hash scriptPubKey txTo nIn nHashType) nHashType scriptPubKey) :
    (signSignature E keystore scriptPubKey txTo nIn nHashType).1 = true := by
  obtain ⟨items, t, ht, hsign, hshort, hcount, -, hsat⟩ := h
  have hlen : (pushAll items).length ≤ items.length * (120 + 3) := length_pushAll_le hshort (by decide)
  have heval : (evalScript (crypto E) (contextOf (setScriptSig txTo nIn (pushAll items)) nIn) []
      (pushAll items)).result = some (items.reverse ++ []) := by
    refine evalScript_pushAll (fun v hv => ?_) ?_ ?_
    · have := hshort v hv
      omega
    · rw [List.length_nil]
      omega
    · omega
  have hrun := hsat (contextOf (setScriptSig txTo nIn (pushAll items)) nIn) [] rfl
    (signatureHash_setScriptSig _ _ _ _ _ _ _) (by decide)
  have hverdict := verify_bare heval hp2sh hrun
  unfold signSignature
  dsimp only
  rw [hsign]
  cases t with
  | TX_SCRIPTHASH => exact absurd rfl ht
  | TX_NONSTANDARD => exact hverdict
  | TX_PUBKEY => exact hverdict
  | TX_PUBKEYHASH => exact hverdict
  | TX_MULTISIG => exact hverdict

/-- A script hash, of which the store knows the script. -/
theorem signSignature_scripthash (havail : Available E keystore)
    (hp2sh : isPayToScriptHash scriptPubKey = true) (hredeem : redeemScript keystore scriptPubKey = some redeem) :
    ∃ hash vchHash, vchHash.length = 20 ∧
      Decodes scriptPubKey [⟨OP_HASH160, []⟩, ⟨0x14, vchHash⟩, ⟨OP_EQUAL, []⟩] ∧
      (crypto E).hash160 redeem = vchHash ∧
      (∀ scriptSig, signatureHash E.hash redeem (setScriptSig (setScriptSig txTo nIn redeem) nIn scriptSig) nIn
        nHashType = hash) ∧
      (signSignature E keystore scriptPubKey txTo nIn nHashType).1 =
        ((solverSign E keystore hash nHashType redeem).1 &&
          decide ((solverSign E keystore hash nHashType redeem).2.2 ≠ .TX_SCRIPTHASH) &&
          (verifyScript (crypto E) (contextOf (setScriptSig (setScriptSig txTo nIn redeem) nIn
            ((solverSign E keystore hash nHashType redeem).2.1 ++ pushData redeem)) nIn)
            ((solverSign E keystore hash nHashType redeem).2.1 ++ pushData redeem) scriptPubKey).verdict) := by
  obtain ⟨hlen, hdec⟩ := isPayToScriptHash_iff.mp ⟨hp2sh, rfl⟩
  unfold redeemScript at hredeem
  rw [if_pos hp2sh] at hredeem
  refine ⟨signatureHash E.hash redeem (setScriptSig txTo nIn redeem) nIn nHashType, _, hlen, hdec, ?_,
    fun scriptSig => signatureHash_setScriptSig _ _ _ _ _ _ _, ?_⟩
  · show toLE 20 (E.hash160 redeem).toNat = _
    rw [havail.script _ _ hredeem, toLE_uint160 hlen]
  · have hsolver : solverSign E keystore (signatureHash E.hash scriptPubKey txTo nIn nHashType) nHashType
        scriptPubKey = (true, redeem, .TX_SCRIPTHASH) := by
      unfold solverSign
      rw [solver_of_standard hdec (.scripthash hlen)]
      dsimp only [List.headD_cons]
      rw [hredeem]
    unfold signSignature
    dsimp only
    rw [hsolver]
    dsimp only
    split
    · rename_i hfail
      rw [hfail, Bool.false_and]
    · rename_i hok
      rw [Bool.not_eq_false] at hok
      rw [hok, Bool.true_and]

/-- What is the wallet's own is signed exactly if `VerifyScript` gets to the bottom of it. -/
theorem signSignature_iff_of_isMine (hsigns : Signs E) (havail : Available E keystore)
    (htype : StandardType nHashType) (hmine : keystore.isMine E.toKeyPrimitives scriptPubKey = true) :
    (signSignature E keystore scriptPubKey txTo nIn nHashType).1 = true ↔
      ∀ redeem ∈ redeemScript keystore scriptPubKey,
        ¬ isPayToScriptHash redeem = true ∧ redeem.length ≤ 520 := by
  by_cases hp2sh : isPayToScriptHash scriptPubKey = true
  · obtain ⟨redeem, nDepth, hredeem, hmine'⟩ := redeemScript_of_isMine hmine hp2sh
    obtain ⟨hash, vchHash, hlen, hdec, hhash, hcode, heq⟩ :=
      @signSignature_scripthash E keystore nHashType txTo nIn scriptPubKey redeem havail hp2sh hredeem
    have hiff : (∀ r ∈ redeemScript keystore scriptPubKey, ¬ isPayToScriptHash r = true ∧ r.length ≤ 520) ↔
        ¬ isPayToScriptHash redeem = true ∧ redeem.length ≤ 520 := by
      rw [hredeem]
      simp
    rw [hiff, heq]
    by_cases hnested : isPayToScriptHash redeem = true
    · -- the script behind is a script hash: `SignSignature` goes no further
      rw [decide_eq_false (not_not.mpr (solverSign_scripthash hash hnested)), Bool.and_false, Bool.false_and]
      exact iff_of_false Bool.false_ne_true fun h => h.1 hnested
    · obtain ⟨items, t, ht, hsign, hshort, hcount, hscript, hsat⟩ :=
        solved_of_isMine hash hsigns havail htype hmine' hnested
      have hshort' : ∀ v ∈ items, v.length ≤ 520 := fun v hv => Nat.le_trans (hshort v hv) (by decide)
      have hpushed := length_pushAll_le hshort (by decide)
      have hpush := length_pushData_le (Nat.le_trans hscript (by decide : 2500 ≤ 0xffff))
      have hsize : (pushAll items ++ pushData redeem).length ≤ 10000 := by
        rw [List.length_append]
        omega
      rw [hsign, decide_eq_true ht, Bool.true_and, Bool.true_and]
      by_cases h520 : redeem.length ≤ 520
      · have hrun := hsat (contextOf (setScriptSig (setScriptSig txTo nIn redeem) nIn
          (pushAll items ++ pushData redeem)) nIn) [] rfl (hcode _) (by decide)
        rw [List.append_nil] at hrun
        exact iff_of_true (verify_scripthash_pushed hshort' (by omega) h520 hsize hdec hlen hhash hrun)
          ⟨hnested, h520⟩
      · -- the script is longer than what can be pushed
        rw [verify_scripthash_large hshort' (by omega) (by omega) (Nat.le_trans hscript (by decide)) hsize]
        exact iff_of_false Bool.false_ne_true fun h => h520 h.2
  · have hnone : redeemScript keystore scriptPubKey = none := if_neg hp2sh
    rw [hnone]
    exact iff_of_true (signSignature_bare hp2sh (solved_of_isMine _ hsigns havail htype hmine hp2sh))
      (fun r hr => by cases hr)

end Main

/-! ## Two outputs that are not signed

  One key in the wallet, and three scripts: the one that asks for the key, the script hash of that one, and
  one that asks for the key in sixteen places.  Keys, hashes and the signature are real ones.
-/

namespace Nested

open CCryptoKeyStore.TwoKeys

def redeem : CScript := pushData pubKey1 ++ [OP_CHECKSIG]

def payToScriptHash (id : Uint160) : CScript := [OP_HASH160, 0x14] ++ toLE 20 id.toNat ++ [OP_EQUAL]

/-- The script hash of `redeem`. -/
def inner : CScript := payToScriptHash 0x4fd60ff432e6e8cdaae17afcd7eb07f651c6fdde

/-- The script hash of `inner`. -/
def outer : CScript := payToScriptHash 0x5b251a97c1cc5881dc1ca0b52825384d2798d3ab

/-- One of sixteen, 547 bytes. -/
def long : CScript := [OP_1] ++ pushAll (List.replicate 16 pubKey1) ++ [OP_16, OP_CHECKMULTISIG]

/-- The script hash of `long`. -/
def longHash : CScript := payToScriptHash 0xe35b9738c11f54576706841fd16bfe6cee3cecb2

def spending : CTransaction := ⟨1, 1400000000, [⟨⟨0xabc, 0⟩, [], 0xffffffff⟩], [⟨5, [0x51]⟩], 0⟩

def signature : List UInt8 := bytes 71
  0x3045022100e9c33305b110f9371883a2d306309a719248433368e935d88a4d34767d8d975902201cb68c3eea139fa4acc75bf1a697be37e393738d6a4b252cd59eaad8a052e236

/-- What the curve says elsewhere does not matter here. -/
def primitives : SignPrimitives where
  toKeyPrimitives := { CCryptoKeyStore.TwoKeys.primitives with
    hash160 := fun vch =>
      if vch = pubKey1 then 0xef1c351778f0e58d73a2e50ec7ddde11a25072fc
      else if vch = redeem then 0x4fd60ff432e6e8cdaae17afcd7eb07f651c6fdde
      else if vch = inner then 0x5b251a97c1cc5881dc1ca0b52825384d2798d3ab
      else if vch = long then 0xe35b9738c11f54576706841fd16bfe6cee3cecb2
      else 0
    hash := fun vch =>
      if signaturePreimage redeem spending 0 1 = some vch then
        0xf344346610aba9de94846105e5b394142ccadc715cf47afcb3429016f2643070
      else 0 }
  sign _ _ := some signature
  verify _ _ vchSig := decide (vchSig = signature)
  ripemd160 _ := []
  sha1 _ := []
  sha256 _ := []

/-- The store after the key and the scripts are added. -/
def wallet : CKeyStore :=
  let store : CKeyStore := ⟨(CCryptoKeyStore.empty.addKey primitives.toKeyPrimitives key1).2, ∅⟩
  [redeem, inner, long].foldl (fun store script => store.addCScript primitives.toKeyPrimitives script) store

theorem isCanonicalPubKey_pubKey (vchSecret : CSecret) (fCompressed : Bool) :
    isCanonicalPubKey (primitives.pubKey vchSecret fCompressed) = true := by
  have hlength := vchSecret.2
  show isCanonicalPubKey (CCryptoKeyStore.TwoKeys.primitives.pubKey vchSecret fCompressed) = true
  unfold CCryptoKeyStore.TwoKeys.primitives
  dsimp only
  split
  · decide
  split
  · decide
  cases fCompressed
  · show isCanonicalPubKey (0x04 :: (vchSecret.1 ++ vchSecret.1)) = true
    unfold isCanonicalPubKey
    rw [List.length_cons, List.length_append, hlength]
    rfl
  · show isCanonicalPubKey (0x02 :: vchSecret.1) = true
    unfold isCanonicalPubKey
    rw [List.length_cons, hlength]
    rfl

theorem signs_primitives : Signs primitives where
  signs key _ hash := rfl
  verifies key _ hash vchSig h := by
    cases h
    exact decide_eq_true (Eq.refl signature)
  canonical key hash vchSig h back h1 h3 := by
    cases h
    have hall : ∀ k < 256, 1 ≤ UInt8.ofNat k &&& 0x7f → UInt8.ofNat k &&& 0x7f ≤ 3 →
        isCanonicalSignature (signature ++ [UInt8.ofNat k]) = true := by decide +kernel
    have hback := hall back.toNat back.toNat_lt
    rw [UInt8.ofNat_toNat] at hback
    exact hback h1 h3
  validPubKey := works.valid
  canonicalPubKey := isCanonicalPubKey_pubKey
  notHash key hash vchSig back h heq := by
    cases h
    have hlen := congrArg List.length heq
    rw [length_toLE, List.length_append, List.length_singleton] at hlen
    exact absurd hlen (by decide)

theorem works_primitives : primitives.Works masterKey :=
  ⟨works.length, works.valid, works.masterKey, works.encrypts, works.decrypts⟩

theorem sound_wallet : wallet.Sound primitives.toKeyPrimitives masterKey [key1] :=
  have hrun : CCryptoKeyStore.Run primitives.toKeyPrimitives masterKey wallet.toCCryptoKeyStore [key1] :=
    CCryptoKeyStore.Run.start.accept (.addKey key1) ⟨rfl, by decide⟩ (by decide)
  hrun.sound works_primitives (by unfold CCryptoKeyStore.DistinctIds; decide)

/-- The id of the key is the id of nothing else. -/
theorem eq_pubKey1 {vch : List UInt8} (h : primitives.hash160 pubKey1 = primitives.hash160 vch) :
    vch = pubKey1 := by
  by_contra hne
  unfold primitives at h
  dsimp only at h
  rw [if_pos rfl, if_neg hne] at h
  split at h
  · exact absurd h (by decide)
  split at h
  · exact absurd h (by decide)
  split at h
  · exact absurd h (by decide)
  · exact absurd h (by decide)

theorem available_wallet : Available primitives wallet where
  key id h := available_of_sound works_primitives sound_wallet (by decide) h
  script id script h := by
    unfold CKeyStore.getCScript wallet CKeyStore.addCScript at h
    simp only [List.foldl_cons, List.foldl_nil, lookup_insert_eq_ite, AList.lookup_empty] at h
    split at h
    · rename_i hid
      cases h
      exact hid
    split at h
    · rename_i hid
      cases h
      exact hid
    split at h
    · rename_i hid
      cases h
      exact hid
    · cases h
  noOther vch key hlen h := by
    have hget : (AList.lookup (primitives.hash160 vch)
        ((∅ : StdMap Uint160 (CSecret × Bool)).insert (primitives.hash160 pubKey1) (secret1, true))).map
          (fun entry => CKey.reset.setSecret primitives.toKeyPrimitives entry.1 entry.2) = some key := h
    rw [lookup_insert_eq_ite, AList.lookup_empty] at hget
    split at hget
    · rename_i hid
      cases hget
      rw [eq_pubKey1 hid]
      decide
    · cases hget

theorem standardType_all : StandardType 1 := by unfold StandardType; decide

end Nested

/-- The script behind the first script hash asks for the key. -/
theorem signSignature_of_isMine_inner :
    (signSignature Nested.primitives Nested.wallet Nested.inner Nested.spending 0 1).1 = true :=
  (signSignature_iff_of_isMine Nested.signs_primitives Nested.available_wallet Nested.standardType_all
    (by decide +kernel)).mpr (by decide +kernel)

/-- A script hash within a script hash, and a script of 547 bytes: the wallet's own, and not signed. -/
theorem signSignature_nested : Signs Nested.primitives ∧ Available Nested.primitives Nested.wallet ∧
    StandardType 1 ∧ ∀ scriptPubKey ∈ [Nested.outer, Nested.longHash],
      Nested.wallet.isMine Nested.primitives.toKeyPrimitives scriptPubKey = true ∧
      (signSignature Nested.primitives Nested.wallet scriptPubKey Nested.spending 0 1).1 = false :=
  ⟨Nested.signs_primitives, Nested.available_wallet, Nested.standardType_all, by decide +kernel⟩

end Standard

end Silkcoin
