/-
  `signrawtransaction`: variants of one transaction are signed and merged.

  The argument is read as one transaction after another.  The first is the one to sign; for each of its inputs
  with a known previous output, the wallet's signature is put together with those of ALL the variants, at the
  same index, and the result is verified.

  1. An input that was verified stays so: what is put into the inputs after it is not looked at by its script
     (`verdict_setScriptSig`).  So `complete` means that the transaction returned verifies, input by input.
  2. Nobody asks whether a variant HAS an input at that index.  The loop stays inside the variants just when
     they have an input wherever the first one has an input with a known previous output
     (`signrawtransaction_safe_iff`).
-/
import Silkcoin.CombineSignatures
import Silkcoin.Lib.Takes

namespace Silkcoin

namespace Standard

open Codec SignatureHash BatchStore Validation

/-! ## Reading the variants -/

/-- Errors of the call; the last one is none, but a read past the end of `vin`. -/
inductive SignRawError where
  | json (code : Int) (message : String)
  /-- `Previous output scriptPubKey mismatch`, with the two scripts. -/
  | mismatch (known given : CScript)
  | vinOutOfRange

def RPC_DESERIALIZATION_ERROR : Int := -22

def SIGHASH_ANYONECANPAY : HashType := 0x80
def SIGHASH_SINGLE : HashType := 3

/-- `while (!ssData.empty())`, for so many transactions at most. -/
def readVariants (Z : ObjectSizes) : Nat → Stream → Except SignRawError (List CTransaction)
  | 0, s => if s.bytes = [] then .ok [] else .error (.json RPC_DESERIALIZATION_ERROR "TX decode failed")
  | n + 1, s =>
    if s.bytes = [] then .ok []
    else
      match (CTransaction.unserialize Z).run s with
      | none => .error (.json RPC_DESERIALIZATION_ERROR "TX decode failed")
      | some (tx, s) => (readVariants Z n s).map (tx :: ·)

/-- The loop over a whole stream: a transaction takes at least one byte. -/
def decodeVariants (Z : ObjectSizes) (s : Stream) : Except SignRawError (List CTransaction) :=
  readVariants Z s.bytes.length s

/-! ## Previous outputs -/

abbrev MapPrevOut := StdMap COutPoint CScript

/-- `FetchInputs` for one input.  What it returns is not looked at, but the map it fills: where it fails, there
    is no transaction with outputs in it. -/
def fetchPrevOut (g : Globals) (txdb : CTxDB) (txin : CTxIn) : Option CScript :=
  match CTransaction.fetchInput g txdb ∅ false false ∅ txin with
  | .error _ => none
  | .ok mapPrevTx =>
    (mapPrevTx.lookup txin.prevout.hash).bind fun r => (r.2.vout[txin.prevout.n.toNat]?).map CTxOut.scriptPubKey

def fetchPrevOuts (g : Globals) (txdb : CTxDB) (tx : CTransaction) : MapPrevOut :=
  tx.vin.foldl (fun mapPrevOut txin =>
    match fetchPrevOut g txdb txin with
    | some scriptPubKey => mapPrevOut.insert txin.prevout scriptPubKey
    | none => mapPrevOut) ∅

/-- A previous output given in the call. -/
def addPrevOut (mapPrevOut : MapPrevOut) (prevOut : COutPoint × CScript) : Except SignRawError MapPrevOut :=
  match mapPrevOut.lookup prevOut.1 with
  | some known => if known ≠ prevOut.2 then .error (.mismatch known prevOut.2) else .ok mapPrevOut
  | none => .ok (mapPrevOut.insert prevOut.1 prevOut.2)

/-! ## Signing and merging -/

/-- What the signing loop works with; `prevTxs` and `nHashType` are arguments of the call, `keystore` holds the
    keys given, or is the wallet. -/
structure SignRawCall where
  E : SignPrimitives
  Z : ObjectSizes
  g : Globals
  txdb : CTxDB
  nAdjustedTime : UInt32
  keystore : CKeyStore
  prevTxs : List (COutPoint × CScript)
  nHashType : HashType

namespace SignRawCall

variable (call : SignRawCall)

def fHashSingle : Bool := decide (call.nHashType &&& ~~~SIGHASH_ANYONECANPAY = SIGHASH_SINGLE)

/-- `mapPrevOut`, behind both loops that fill it. -/
def prevOuts (tx : CTransaction) : Except SignRawError MapPrevOut :=
  call.prevTxs.foldlM addPrevOut (fetchPrevOuts call.g call.txdb tx)

/-- Input `i` of one variant is merged in. -/
def mergeVariant (prevPubKey : CScript) (i : Nat) (mergedTx txv : CTransaction) :
    Except SignRawError CTransaction :=
  match mergedTx.vin[i]?, txv.vin[i]? with
  | some txin, some txinv =>
    .ok (setScriptSig mergedTx i
      (combineSignatures call.E mergedTx i call.nAdjustedTime prevPubKey txin.scriptSig txinv.scriptSig))
  | _, _ => .error .vinOutOfRange

/-- `VerifyScript(txin.scriptSig, prevPubKey, mergedTx, i, 0)` -/
def verifies (prevPubKey : CScript) (mergedTx : CTransaction) (i : Nat) : Bool :=
  match mergedTx.vin[i]? with
  | none => false
  | some txin => (verifyScript (crypto call.E) (contextOf mergedTx i) txin.scriptSig prevPubKey).verdict

/-- `SignSignature`, unless there is no output that a single one could be for. -/
def signInput (prevPubKey : CScript) (mergedTx : CTransaction) (i : Nat) : CTransaction :=
  let mergedTx := setScriptSig mergedTx i []
  if call.fHashSingle = false ∨ i < mergedTx.vout.length then
    (signSignature call.E call.keystore prevPubKey mergedTx i call.nHashType).2
  else mergedTx

/-- The body of the loop over the inputs: `mergedTx` and `fComplete`. -/
def mergeInput (txVariants : List CTransaction) (mapPrevOut : MapPrevOut) (st : CTransaction × Bool) (i : Nat) :
    Except SignRawError (CTransaction × Bool) :=
  match st.1.vin[i]? with
  | none => .error .vinOutOfRange
  | some txin =>
    match mapPrevOut.lookup txin.prevout with
    | none => .ok (st.1, false)
    | some prevPubKey => do
      let mergedTx ← txVariants.foldlM (call.mergeVariant prevPubKey i) (call.signInput prevPubKey st.1 i)
      if call.verifies prevPubKey mergedTx i then .ok (mergedTx, st.2) else .ok (mergedTx, false)

/-- The transaction that is returned, and `complete`. -/
def signrawtransaction (txData : List UInt8) : Except SignRawError (CTransaction × Bool) := do
  let txVariants ← decodeVariants call.Z ⟨txData, true⟩
  match txVariants with
  | [] => .error (.json RPC_DESERIALIZATION_ERROR "Missing transaction")
  | first :: others => do
    let mapPrevOut ← call.prevOuts first
    (List.range first.vin.length).foldlM (call.mergeInput (first :: others) mapPrevOut) (first, true)

end SignRawCall

/-! ## The loop that reads comes to an end -/

theorem takes_checkCompactSize (chSize n : Nat) : Takes 0 (checkCompactSize chSize n) := by
  intro s m s' h
  change (if n > MAX_SIZE.toNat then none else some (n, _)) = some (m, s') at h
  split at h
  · cases h
  · obtain rfl := (Prod.mk.inj (Option.some.inj h)).2
    exact Nat.le_refl _

theorem takes_readCompactSize : Takes 0 readCompactSize := by
  refine ((takes_readLE 1).mono (Nat.zero_le 1)).bind fun chSize => ?_
  split
  · exact takes_checkCompactSize _ _
  split
  · exact ((takes_readLE 2).mono (Nat.zero_le 2)).bind fun xSize => takes_checkCompactSize chSize xSize
  split
  · exact ((takes_readLE 4).mono (Nat.zero_le 4)).bind fun xSize => takes_checkCompactSize chSize xSize
  · exact ((takes_readLE 8).mono (Nat.zero_le 8)).bind fun xSize => takes_checkCompactSize chSize xSize

theorem takes_readByteVector : Takes 0 readByteVector :=
  takes_readCompactSize.bind fun _ => takes_readChunks (fun n => (takes_readBytes n).mono (Nat.zero_le n)) _ _ _ _

theorem takes_readVector {α : Type} (T : ObjectSize) {get : Reader α} (h : Takes 0 get) :
    Takes 0 (readVector T get) :=
  takes_readCompactSize.bind fun _ => takes_readChunks (takes_readAll h) _ _ _ _

theorem takes_readUInt32 : Takes 0 readUInt32 := ((takes_readLE 4).map UInt32.ofNat).mono (Nat.zero_le 4)

theorem takes_unserialize_txin : Takes 0 CTxIn.unserialize := by
  have hhash : Takes 0 readUint256 := ((takes_readLE 32).map (BitVec.ofNat 256)).mono (Nat.zero_le 32)
  have hprevout : Takes 0 COutPoint.unserialize := hhash.bind fun hash => takes_readUInt32.map (COutPoint.mk hash)
  exact hprevout.bind fun prevout => takes_readByteVector.bind fun scriptSig =>
    takes_readUInt32.map (CTxIn.mk prevout scriptSig)

theorem takes_unserialize_txout : Takes 0 CTxOut.unserialize :=
  ((takes_readLEInt 8).mono (Nat.zero_le 8)).bind fun nValue => takes_readByteVector.map (CTxOut.mk nValue)

/-- A transaction has at least its version. -/
theorem takes_unserialize_tx (Z : ObjectSizes) : Takes 4 (CTransaction.unserialize Z) :=
  (takes_readLEInt 4).bind fun nVersion => takes_readUInt32.bind fun nTime =>
    (takes_readVector Z.txin takes_unserialize_txin).bind fun vin =>
      (takes_readVector Z.txout takes_unserialize_txout).bind fun vout =>
        takes_readUInt32.map (CTransaction.mk nVersion nTime vin vout)

/-- Once there is room for every byte, more room makes no difference. -/
theorem readVariants_of_le (Z : ObjectSizes) {n m : Nat} {s : Stream} (h : s.bytes.length ≤ n) (hm : n ≤ m) :
    readVariants Z m s = readVariants Z n s := by
  induction n generalizing m s with
  | zero =>
    have hnil : s.bytes = [] := List.eq_nil_of_length_eq_zero (by omega)
    cases m with
    | zero => rfl
    | succ m => rw [readVariants, readVariants, if_pos hnil, if_pos hnil]
  | succ n ih =>
    obtain ⟨m, rfl⟩ : ∃ k, m = k + 1 := ⟨m - 1, by omega⟩
    rw [readVariants, readVariants]
    split
    · rfl
    · cases hread : (CTransaction.unserialize Z).run s with
      | none => rfl
      | some r =>
        have htaken := takes_unserialize_tx Z s r.1 r.2 hread
        dsimp only
        rw [ih (by omega) (by omega)]

/-- The loop itself: nothing is left, or a transaction is read and the rest goes on. -/
theorem decodeVariants_eq (Z : ObjectSizes) (s : Stream) : decodeVariants Z s =
    if s.bytes = [] then .ok []
    else
      match (CTransaction.unserialize Z).run s with
      | none => .error (.json RPC_DESERIALIZATION_ERROR "TX decode failed")
      | some (tx, s) => (decodeVariants Z s).map (tx :: ·) := by
  have hmore : decodeVariants Z s = readVariants Z (s.bytes.length + 1) s :=
    (readVariants_of_le Z (Nat.le_refl _) (Nat.le_succ _)).symm
  rw [hmore, readVariants]
  split
  · rfl
  · cases hread : (CTransaction.unserialize Z).run s with
    | none => rfl
    | some r =>
      have htaken := takes_unserialize_tx Z s r.1 r.2 hread
      dsimp only
      rw [readVariants_of_le Z (Nat.le_refl r.2.bytes.length) (by omega)]
      rfl

/-- Transactions written one behind the other are read as these. -/
theorem decodeVariants_serialize (Z : ObjectSizes) {txs : List CTransaction} (h : ∀ tx ∈ txs, tx.Fits) :
    decodeVariants Z ⟨txs.flatMap CTransaction.serialize, true⟩ = .ok txs := by
  induction txs with
  | nil => rfl
  | cons tx txs ih =>
    have hread := (CTransaction.unserialize_lawful Z).get_put tx (h tx List.mem_cons_self)
      (txs.flatMap CTransaction.serialize) true
    have hne : ¬(tx :: txs).flatMap CTransaction.serialize = [] := by
      intro hnil
      have htaken := takes_unserialize_tx Z _ _ _ hread
      rw [← List.flatMap_cons, hnil] at htaken
      simp at htaken
    rw [decodeVariants_eq, if_neg hne, List.flatMap_cons, hread]
    dsimp only
    rw [ih fun tx' htx' => h tx' (List.mem_cons_of_mem tx htx')]
    rfl

/-! ## What is put into other inputs is not looked at -/

section Context

variable {C : Crypto} {X X' : ScriptContext}

/-- Two transactions look the same to `CheckSig`. -/
def SameChecks (C : Crypto) (X X' : ScriptContext) : Prop :=
  ∀ vchSig vchPubKey scriptCode, C.checkSig vchSig vchPubKey scriptCode X.txTo X.nIn X.nHashType =
    C.checkSig vchSig vchPubKey scriptCode X'.txTo X'.nIn X'.nHashType

theorem SameChecks.checkOne (h : SameChecks C X X') : Silkcoin.checkOne C X = Silkcoin.checkOne C X' := by
  funext scriptCode vchSig vchPubKey
  unfold Silkcoin.checkOne
  rw [h vchSig vchPubKey scriptCode]

theorem SameChecks.multiSigLoop (h : SameChecks C X X') (scriptCode : CScript) :
    ∀ keys sigs : List Valtype, Silkcoin.multiSigLoop C X scriptCode keys sigs =
      Silkcoin.multiSigLoop C X' scriptCode keys sigs
  | [], [] => rfl
  | [], _ :: _ => rfl
  | _ :: _, [] => rfl
  | key :: keys, sig :: sigs => by
    rw [Silkcoin.multiSigLoop, Silkcoin.multiSigLoop, h.checkOne]
    congr 1
    funext fOk
    dsimp only
    rw [h.multiSigLoop scriptCode keys]

/-- The interpreter looks at the transaction through `CheckSig` alone. -/
theorem SameChecks.evalInstruction (h : SameChecks C X X') :
    Silkcoin.evalInstruction C X = Silkcoin.evalInstruction C X' := by
  have hsig : checkSigOp C X = checkSigOp C X' := by
    funext verify m
    unfold checkSigOp
    rw [h.checkOne]
  have hmulti : checkMultiSigOp C X = checkMultiSigOp C X' := by
    have hloop : Silkcoin.multiSigLoop C X = Silkcoin.multiSigLoop C X' := by
      funext scriptCode keys sigs
      exact h.multiSigLoop scriptCode keys sigs
    funext verify m
    unfold checkMultiSigOp
    rw [hloop]
  have hop : evalOp C X = evalOp C X' := by
    funext op m
    unfold evalOp
    rw [hsig, hmulti]
  have hexec : execute C X = execute C X' := by
    funext op m
    unfold execute
    rw [hop]
  funext op m
  unfold Silkcoin.evalInstruction
  rw [hexec]

theorem SameChecks.evalFrom (h : SameChecks C X X') (fuel : Nat) (script : CScript) (m : Machine) :
    Silkcoin.evalFrom C X fuel script m = Silkcoin.evalFrom C X' fuel script m := by
  induction fuel generalizing script m with
  | zero => cases script <;> rfl
  | succ fuel ih =>
    cases script with
    | nil => rfl
    | cons b script =>
      rw [Silkcoin.evalFrom.eq_def, Silkcoin.evalFrom.eq_def C X']
      dsimp only
      cases getOp (b :: script) with
      | none => rfl
      | some op =>
        dsimp only
        rw [h.evalInstruction]
        congr 1
        funext m
        exact ih op.rest m

theorem SameChecks.verifyScript (h : SameChecks C X X') (scriptSig scriptPubKey : CScript) :
    Silkcoin.verifyScript C X scriptSig scriptPubKey = Silkcoin.verifyScript C X' scriptSig scriptPubKey := by
  have heval : evalScript C X = evalScript C X' := by
    funext stack script
    unfold evalScript
    rw [h.evalFrom]
  unfold Silkcoin.verifyScript
  rw [heval]

end Context

theorem verifyScript_setScriptSig (E : SignPrimitives) (tx : CTransaction) (i j : Nat)
    (s scriptSig scriptPubKey : CScript) :
    verifyScript (crypto E) (contextOf (setScriptSig tx i s) j) scriptSig scriptPubKey =
      verifyScript (crypto E) (contextOf tx j) scriptSig scriptPubKey := by
  apply SameChecks.verifyScript
  intro vchSig vchPubKey scriptCode
  unfold crypto checkSig contextOf
  dsimp only
  cases vchSig.getLast? with
  | none => rfl
  | some back =>
    dsimp only
    rw [signatureHash_setScriptSig]

theorem setScriptSig_setScriptSig (tx : CTransaction) (i : Nat) (a b : CScript) :
    setScriptSig (setScriptSig tx i a) i b = setScriptSig tx i b := by
  unfold setScriptSig
  dsimp only
  rw [List.modify_modify_eq]
  rfl

theorem getElem?_setScriptSig (tx : CTransaction) (i j : Nat) (s : CScript) : (setScriptSig tx i s).vin[j]? =
    (tx.vin[j]?).map fun txin => if i = j then { txin with scriptSig := s } else txin := by
  show (tx.vin.modify i _)[j]? = _
  rw [List.getElem?_modify]
  cases tx.vin[j]? with
  | none => rfl
  | some txin => by_cases h : i = j <;> simp [h]

theorem prevouts_setScriptSig (tx : CTransaction) (i : Nat) (s : CScript) :
    (setScriptSig tx i s).vin.map CTxIn.prevout = tx.vin.map CTxIn.prevout := by
  apply List.ext_getElem?
  intro j
  rw [List.getElem?_map, List.getElem?_map, getElem?_setScriptSig]
  cases tx.vin[j]? with
  | none => rfl
  | some txin => by_cases h : i = j <;> simp [h]

theorem signSignature_eq_setScriptSig (E : SignPrimitives) (keystore : CKeyStore) (fromPubKey : CScript)
    (tx : CTransaction) (i : Nat) (nHashType : HashType) :
    ∃ s, (signSignature E keystore fromPubKey tx i nHashType).2 = setScriptSig tx i s := by
  unfold signSignature
  dsimp only
  split
  · exact ⟨_, rfl⟩
  · split
    · exact ⟨_, setScriptSig_setScriptSig tx i _ _⟩
    · exact ⟨_, setScriptSig_setScriptSig tx i _ _⟩
  · exact ⟨_, rfl⟩

/-! ## One input -/

namespace SignRawCall

variable {call : SignRawCall} {txVariants : List CTransaction} {mapPrevOut : MapPrevOut}
  {first : CTransaction} {st : CTransaction × Bool} {i : Nat}

/-- Where the previous output of input `i` is known, the variants have an input `i`. -/
def Covered (first : CTransaction) (txVariants : List CTransaction) (mapPrevOut : MapPrevOut) (i : Nat) : Prop :=
  ∀ txin, first.vin[i]? = some txin → (mapPrevOut.lookup txin.prevout).isSome = true →
    ∀ txv ∈ txVariants, i < txv.vin.length

/-- Behind `n` inputs: only scripts have changed, and if nothing was found wanting, these inputs verify. -/
structure Merged (call : SignRawCall) (first : CTransaction) (mapPrevOut : MapPrevOut) (n : Nat)
    (st : CTransaction × Bool) : Prop where
  prevouts : st.1.vin.map CTxIn.prevout = first.vin.map CTxIn.prevout
  verified : st.2 = true → ∀ j < n, ∀ txin, st.1.vin[j]? = some txin →
    ∃ prevPubKey, mapPrevOut.lookup txin.prevout = some prevPubKey ∧
      (verifyScript (crypto call.E) (contextOf st.1 j) txin.scriptSig prevPubKey).verdict = true

theorem signInput_eq (call : SignRawCall) (prevPubKey : CScript) (tx : CTransaction) (i : Nat) :
    ∃ s, call.signInput prevPubKey tx i = setScriptSig tx i s := by
  unfold signInput
  dsimp only
  split
  · obtain ⟨s, hs⟩ := signSignature_eq_setScriptSig call.E call.keystore prevPubKey (setScriptSig tx i []) i
      call.nHashType
    exact ⟨s, hs.trans (setScriptSig_setScriptSig tx i _ _)⟩
  · exact ⟨[], rfl⟩

/-- The variants are gone through to the first that has no input `i`. -/
theorem foldlM_mergeVariant (call : SignRawCall) (prevPubKey : CScript) {tx : CTransaction} {txin : CTxIn}
    (htxin : tx.vin[i]? = some txin) (txVariants : List CTransaction) (s : CScript) :
    ((∀ txv ∈ txVariants, i < txv.vin.length) →
      ∃ s', txVariants.foldlM (call.mergeVariant prevPubKey i) (setScriptSig tx i s) = .ok (setScriptSig tx i s')) ∧
    (¬(∀ txv ∈ txVariants, i < txv.vin.length) →
      txVariants.foldlM (call.mergeVariant prevPubKey i) (setScriptSig tx i s) = .error .vinOutOfRange) := by
  induction txVariants generalizing s with
  | nil => exact ⟨fun _ => ⟨s, rfl⟩, fun h => absurd (by simp) h⟩
  | cons txv txVariants ih =>
    have hmerged : (setScriptSig tx i s).vin[i]? = some { txin with scriptSig := s } := by
      rw [getElem?_setScriptSig, htxin]
      simp
    rw [List.foldlM_cons]
    by_cases hlt : i < txv.vin.length
    · have hstep : ∃ s', call.mergeVariant prevPubKey i (setScriptSig tx i s) txv = .ok (setScriptSig tx i s') := by
        unfold mergeVariant
        rw [hmerged, List.getElem?_eq_getElem hlt]
        dsimp only
        rw [setScriptSig_setScriptSig]
        exact ⟨_, rfl⟩
      obtain ⟨s', hs'⟩ := hstep
      have hiff : (∀ txv' ∈ txv :: txVariants, i < txv'.vin.length) ↔ ∀ txv' ∈ txVariants, i < txv'.vin.length := by
        rw [List.forall_mem_cons]
        exact and_iff_right hlt
      rw [hs', hiff]
      exact ih s'
    · have hstep : call.mergeVariant prevPubKey i (setScriptSig tx i s) txv = .error .vinOutOfRange := by
        unfold mergeVariant
        rw [hmerged, List.getElem?_eq_none (Nat.le_of_not_lt hlt)]
      rw [hstep]
      exact ⟨fun h => absurd (h txv List.mem_cons_self) hlt, fun _ => rfl⟩

/-- An input that verified does so after another script is put in elsewhere. -/
theorem Merged.setScriptSig {n : Nat} (h : Merged call first mapPrevOut n st) (hn : n ≤ i) (s : CScript)
    (fComplete : Bool) (hcomplete : fComplete = true → st.2 = true) :
    Merged call first mapPrevOut n (SignatureHash.setScriptSig st.1 i s, fComplete) where
  prevouts := (prevouts_setScriptSig st.1 i s).trans h.prevouts
  verified hf j hj txin htxin := by
    have hne : ¬i = j := by omega
    have hsame : st.1.vin[j]? = some txin := by
      change (SignatureHash.setScriptSig st.1 i s).vin[j]? = some txin at htxin
      rw [getElem?_setScriptSig] at htxin
      cases hin : st.1.vin[j]? with
      | none =>
        rw [hin] at htxin
        cases htxin
      | some txin' =>
        rw [hin, Option.map_some, if_neg hne] at htxin
        exact htxin
    obtain ⟨prevPubKey, hprev, hverdict⟩ := h.verified (hcomplete hf) j hj txin hsame
    refine ⟨prevPubKey, hprev, ?_⟩
    rw [verifyScript_setScriptSig]
    exact hverdict

theorem mergeInput_spec (txVariants : List CTransaction) (h : Merged call first mapPrevOut i st) 
    (hi : i < first.vin.length) :
    (Covered first txVariants mapPrevOut i →
      ∃ st', call.mergeInput txVariants mapPrevOut st i = .ok st' ∧ Merged call first mapPrevOut (i + 1) st') ∧
    (¬Covered first txVariants mapPrevOut i →
      call.mergeInput txVariants mapPrevOut st i = .error .vinOutOfRange) := by
  have hlen : st.1.vin.length = first.vin.length := by
    have hmap := congrArg List.length h.prevouts
    rwa [List.length_map, List.length_map] at hmap
  obtain ⟨txin, htxin⟩ : ∃ txin, st.1.vin[i]? = some txin := ⟨_, List.getElem?_eq_getElem (by omega)⟩
  have hfirst : (first.vin[i]?).map CTxIn.prevout = some txin.prevout := by
    rw [← List.getElem?_map, ← h.prevouts, List.getElem?_map, htxin]
    rfl
  have hcovered : Covered first txVariants mapPrevOut i ↔
      ((mapPrevOut.lookup txin.prevout).isSome = true → ∀ txv ∈ txVariants, i < txv.vin.length) := by
    obtain ⟨txin', htxin', hprevout⟩ := Option.map_eq_some_iff.mp hfirst
    constructor
    · intro hc hsome
      exact hc txin' htxin' (by rw [hprevout]; exact hsome)
    · intro hc txin'' htxin'' hsome
      obtain rfl := Option.some.inj (htxin'.symm.trans htxin'')
      exact hc (by rw [← hprevout]; exact hsome)
  unfold mergeInput
  rw [htxin, hcovered]
  dsimp only
  cases hprev : mapPrevOut.lookup txin.prevout with
  | none =>
    refine ⟨fun _ => ⟨_, rfl, h.prevouts, fun hf => by cases hf⟩, fun hc => ?_⟩
    exact absurd (fun hsome => by cases hsome) hc
  | some prevPubKey =>
    obtain ⟨s, hs⟩ := call.signInput_eq prevPubKey st.1 i
    obtain ⟨hok, herror⟩ := call.foldlM_mergeVariant prevPubKey htxin txVariants s
    dsimp only
    rw [hs]
    constructor
    · intro hc
      obtain ⟨s', hs'⟩ := hok (hc rfl)
      have hat : (SignatureHash.setScriptSig st.1 i s').vin[i]? = some { txin with scriptSig := s' } := by
        rw [getElem?_setScriptSig, htxin]
        simp
      rw [hs']
      show ∃ st', (if call.verifies prevPubKey (SignatureHash.setScriptSig st.1 i s') i then
          Except.ok (SignatureHash.setScriptSig st.1 i s', st.2)
        else Except.ok (SignatureHash.setScriptSig st.1 i s', false)) = .ok st' ∧ _
      by_cases hverifies : call.verifies prevPubKey (SignatureHash.setScriptSig st.1 i s') i = true
      · rw [if_pos hverifies]
        have hkeep := h.setScriptSig (Nat.le_refl i) s' st.2 id
        refine ⟨_, rfl, hkeep.prevouts, fun hf j hj txin' htxin' => ?_⟩
        rcases Nat.lt_or_eq_of_le (Nat.le_of_lt_succ hj) with hlt | rfl
        · exact hkeep.verified hf j hlt txin' htxin'
        · change (SignatureHash.setScriptSig st.1 j s').vin[j]? = some txin' at htxin'
          obtain rfl := Option.some.inj (hat.symm.trans htxin')
          refine ⟨prevPubKey, hprev, ?_⟩
          unfold verifies at hverifies
          rw [hat] at hverifies
          exact hverifies
      · rw [if_neg hverifies]
        exact ⟨_, rfl, (prevouts_setScriptSig st.1 i s').trans h.prevouts, fun hf => by cases hf⟩
    · intro hc
      rw [herror fun hall => hc fun _ => hall]
      rfl

/-! ## All of them -/

/-- The loop over the first `n` inputs. -/
theorem foldlM_mergeInput (call : SignRawCall) (txVariants : List CTransaction) (mapPrevOut : MapPrevOut)
    (first : CTransaction) {n : Nat} (hn : n ≤ first.vin.length) :
    ((∀ i < n, Covered first txVariants mapPrevOut i) → ∃ st,
      (List.range n).foldlM (call.mergeInput txVariants mapPrevOut) (first, true) = .ok st ∧
        Merged call first mapPrevOut n st) ∧
    (¬(∀ i < n, Covered first txVariants mapPrevOut i) →
      (List.range n).foldlM (call.mergeInput txVariants mapPrevOut) (first, true) = .error .vinOutOfRange) := by
  induction n with
  | zero =>
    refine ⟨fun _ => ⟨(first, true), rfl, rfl, fun _ j hj => by omega⟩, fun h => ?_⟩
    exact absurd (fun i hi => by omega) h
  | succ n ih =>
    obtain ⟨hok, herror⟩ := ih (by omega)
    have hsplit : (∀ i < n + 1, Covered first txVariants mapPrevOut i) ↔
        (∀ i < n, Covered first txVariants mapPrevOut i) ∧ Covered first txVariants mapPrevOut n := by
      constructor
      · intro h
        exact ⟨fun i hi => h i (by omega), h n (Nat.lt_succ_self n)⟩
      · rintro ⟨h, hlast⟩ i hi
        rcases Nat.lt_or_eq_of_le (Nat.le_of_lt_succ hi) with hlt | rfl
        · exact h i hlt
        · exact hlast
    rw [List.range_succ, List.foldlM_append]
    by_cases hbefore : ∀ i < n, Covered first txVariants mapPrevOut i
    · obtain ⟨st, hst, hmerged⟩ := hok hbefore
      obtain ⟨hin, hout⟩ := mergeInput_spec txVariants hmerged (by omega : n < first.vin.length)
      rw [hst, hsplit]
      have hone : ∀ r, call.mergeInput txVariants mapPrevOut st n = r →
          (do
            let s' ← (Except.ok st : Except SignRawError (CTransaction × Bool))
            List.foldlM (call.mergeInput txVariants mapPrevOut) s' [n]) = r := by
        rintro r rfl
        show (call.mergeInput txVariants mapPrevOut st n >>= pure) = _
        exact bind_pure _
      constructor
      · rintro ⟨-, hlast⟩
        obtain ⟨st', hst', hmerged'⟩ := hin hlast
        exact ⟨st', hone _ hst', hmerged'⟩
      · intro hnot
        exact hone _ (hout fun hlast => hnot ⟨hbefore, hlast⟩)
    · rw [herror hbefore, hsplit]
      exact ⟨fun h => absurd h.1 hbefore, fun _ => rfl⟩

/-- The loops that fill `mapPrevOut` read no `vin`. -/
theorem prevOuts_ne_vinOutOfRange (call : SignRawCall) (tx : CTransaction) :
    call.prevOuts tx ≠ .error .vinOutOfRange := by
  have hloop : ∀ (prevTxs : List (COutPoint × CScript)) (mapPrevOut : MapPrevOut),
      prevTxs.foldlM addPrevOut mapPrevOut ≠ .error .vinOutOfRange := by
    intro prevTxs
    induction prevTxs with
    | nil =>
      intro mapPrevOut h
      cases h
    | cons prevOut prevTxs ih =>
      intro mapPrevOut h
      rw [List.foldlM_cons] at h
      have hstep : addPrevOut mapPrevOut prevOut ≠ .error .vinOutOfRange := by
        unfold addPrevOut
        split
        · split
          · intro h'
            cases h'
          · intro h'
            cases h'
        · intro h'
          cases h'
      cases hadd : addPrevOut mapPrevOut prevOut with
      | error e =>
        rw [hadd] at h hstep
        exact hstep h
      | ok mapPrevOut' =>
        rw [hadd] at h
        exact ih mapPrevOut' h
  exact hloop _ _

/-- What the call comes to, of variants that were read. -/
theorem signrawtransaction_eq (call : SignRawCall) {txData : List UInt8} {first : CTransaction}
    {others : List CTransaction} (hdecode : decodeVariants call.Z ⟨txData, true⟩ = .ok (first :: others)) :
    call.signrawtransaction txData = call.prevOuts first >>= fun mapPrevOut =>
      (List.range first.vin.length).foldlM (call.mergeInput (first :: others) mapPrevOut) (first, true) := by
  unfold signrawtransaction
  rw [hdecode]
  rfl

/-- **Safe, and sound.**  Of an argument that is read as `first` and others: the call reads no input that does
    not exist, and what it calls complete verifies, just when the variants have an input wherever `first` has
    one with a known previous output. -/
theorem signrawtransaction_safe_iff (call : SignRawCall) (txData : List UInt8) (first : CTransaction)
    (others : List CTransaction) (hdecode : decodeVariants call.Z ⟨txData, true⟩ = .ok (first :: others)) :
    (call.signrawtransaction txData ≠ .error .vinOutOfRange ∧
      ∀ tx, call.signrawtransaction txData = .ok (tx, true) → ∃ mapPrevOut, call.prevOuts first = .ok mapPrevOut ∧
        ∀ i txin, tx.vin[i]? = some txin → ∃ prevPubKey, mapPrevOut.lookup txin.prevout = some prevPubKey ∧
          (verifyScript (crypto call.E) (contextOf tx i) txin.scriptSig prevPubKey).verdict = true) ↔
    ∀ mapPrevOut, call.prevOuts first = .ok mapPrevOut →
      ∀ i txin, first.vin[i]? = some txin → (mapPrevOut.lookup txin.prevout).isSome = true →
        ∀ txv ∈ first :: others, i < txv.vin.length := by
  have hne := call.prevOuts_ne_vinOutOfRange first
  rw [call.signrawtransaction_eq hdecode]
  cases hprev : call.prevOuts first with
  | error e =>
    rw [hprev] at hne
    refine ⟨fun _ _ h => (by cases h), fun _ => ⟨fun h => hne (Except.error.inj h ▸ rfl), fun tx h => (by cases h)⟩⟩
  | ok mapPrevOut =>
    obtain ⟨hok, herror⟩ := call.foldlM_mergeInput (first :: others) mapPrevOut first (Nat.le_refl first.vin.length)
    have hcovered : (∀ i < first.vin.length, Covered first (first :: others) mapPrevOut i) ↔
        ∀ i txin, first.vin[i]? = some txin → (mapPrevOut.lookup txin.prevout).isSome = true →
          ∀ txv ∈ first :: others, i < txv.vin.length := by
      constructor
      · intro h i txin htxin
        exact h i (List.getElem?_eq_some_iff.mp htxin).1 txin htxin
      · intro h i _
        exact h i
    have hok' : ∀ r, (List.range first.vin.length).foldlM (call.mergeInput (first :: others) mapPrevOut)
        (first, true) = r → ((Except.ok mapPrevOut : Except SignRawError MapPrevOut) >>= fun mapPrevOut =>
          (List.range first.vin.length).foldlM (call.mergeInput (first :: others) mapPrevOut) (first, true)) = r :=
      fun r h => h
    constructor
    · rintro ⟨hsafe, -⟩ mapPrevOut' h
      obtain rfl := Except.ok.inj h
      apply hcovered.mp
      by_contra hnot
      exact hsafe (hok' _ (herror hnot))
    · intro h
      obtain ⟨st, hst, hmerged⟩ := hok (hcovered.mpr (h mapPrevOut rfl))
      rw [hok' _ hst]
      refine ⟨fun h' => (by cases h'), fun tx htx => ⟨mapPrevOut, rfl, fun i txin htxin => ?_⟩⟩
      obtain rfl := Except.ok.inj htx
      have hlen := congrArg List.length hmerged.prevouts
      rw [List.length_map, List.length_map] at hlen
      have hi : i < first.vin.length := hlen ▸ (List.getElem?_eq_some_iff.mp htxin).1
      exact hmerged.verified rfl i hi txin htxin

end SignRawCall

/-! ## One transaction, and one behind it that has no inputs -/

namespace Variants

/-- A transaction without inputs. -/
def bare : CTransaction := ⟨1, 1400000000, [], [], 0⟩

/-- What `Nested.spending` spends is given in the call; its key is in the wallet. -/
def call : SignRawCall where
  E := Nested.primitives
  Z := Encoding.objectSizes
  g := Sample.nodeB []
  txdb := Sample.emptyDb
  nAdjustedTime := 1400000000
  keystore := Nested.wallet
  prevTxs := [(⟨0xabc, 0⟩, Nested.redeem)]
  nHashType := 1

theorem prevOuts_spending : ∃ mapPrevOut, call.prevOuts Nested.spending = .ok mapPrevOut ∧
    mapPrevOut.lookup ⟨0xabc, 0⟩ = some Nested.redeem :=
  ⟨(∅ : MapPrevOut).insert ⟨0xabc, 0⟩ Nested.redeem, rfl, AList.lookup_insert _⟩

theorem fits_spending : Nested.spending.Fits := by
  refine ⟨by decide, ⟨by decide, ?_⟩, by decide, ?_⟩
  · intro txin htxin
    rw [List.mem_singleton.mp htxin]
    exact Nat.zero_le _
  · intro txout htxout
    rw [List.mem_singleton.mp htxout]
    exact ⟨by decide, by decide⟩

theorem fits_bare : bare.Fits :=
  ⟨by decide, ⟨by decide, fun txin h => (List.not_mem_nil h).elim⟩, by decide,
    fun txout h => (List.not_mem_nil h).elim⟩

theorem fits_of_mem {txs : List CTransaction} (h : txs ⊆ [Nested.spending, bare]) : ∀ tx ∈ txs, tx.Fits := by
  intro tx htx
  rcases List.mem_pair.mp (h htx) with rfl | rfl
  · exact fits_spending
  · exact fits_bare

end Variants

/-- The transaction alone is signed safely. -/
theorem SignRawCall.signrawtransaction_one :
    decodeVariants Variants.call.Z ⟨[Nested.spending].flatMap CTransaction.serialize, true⟩ = .ok [Nested.spending] ∧
      Variants.call.signrawtransaction ([Nested.spending].flatMap CTransaction.serialize) ≠
        .error .vinOutOfRange := by
  have hdecode := decodeVariants_serialize Variants.call.Z
    (Variants.fits_of_mem (List.cons_subset_cons Nested.spending (List.nil_subset _)))
  refine ⟨hdecode, ((SignRawCall.signrawtransaction_safe_iff Variants.call _ Nested.spending [] hdecode).mpr ?_).1⟩
  intro mapPrevOut _ i txin htxin _ txv htxv
  rw [List.mem_singleton.mp htxv]
  exact (List.getElem?_eq_some_iff.mp htxin).1

/-- The transaction and `bare` behind it: `bare.vin[0]` is read. -/
theorem SignRawCall.signrawtransaction_bare :
    let txData := [Nested.spending, Variants.bare].flatMap CTransaction.serialize
    decodeVariants Variants.call.Z ⟨txData, true⟩ = .ok [Nested.spending, Variants.bare] ∧
      Variants.call.signrawtransaction txData = .error .vinOutOfRange := by
  have hdecode := decodeVariants_serialize Variants.call.Z (Variants.fits_of_mem (List.Subset.refl _))
  refine ⟨hdecode, ?_⟩
  obtain ⟨mapPrevOut, hprev, hlookup⟩ := Variants.prevOuts_spending
  rw [SignRawCall.signrawtransaction_eq Variants.call hdecode, hprev]
  refine (SignRawCall.foldlM_mergeInput Variants.call [Nested.spending, Variants.bare] mapPrevOut Nested.spending
    (Nat.le_refl 1)).2 fun h => ?_
  have hlt : 0 < Variants.bare.vin.length :=
    h 0 Nat.one_pos ⟨⟨0xabc, 0⟩, [], 0xffffffff⟩ rfl (by rw [hlookup]; rfl) Variants.bare (by simp)
  exact Nat.lt_irrefl 0 hlt

end Standard

end Silkcoin
