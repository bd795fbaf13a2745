/-
  `CombineSignatures`: two partly signed scripts of one output are put together.

  What the two scripts hold is read off the stack they leave.  The signatures of a multisig script have to
  find their keys AGAIN: they are an ordered set, and each is tried on the keys until one is free and takes
  it (`Assign`).  From the keys the signatures are read back in key order, as many as are required, and the
  missing ones are filled up.

  `combineSignatures_multisig` is the result: nothing is lost, whatever the order of the two scripts and of
  the signatures in them.  Two things are asked for.  A signature is one of ONE key of the script: with two
  keys made for one signature, it takes the place another one needs.  And a script behind a script hash is
  short enough to be pushed: a longer one does not get onto the stack, and the signature above which it
  should be is taken for it.
-/
import Silkcoin.Lib.Assign
import Silkcoin.SignSignature

namespace Silkcoin

namespace Standard

open BatchStore SignatureHash Assign

/-! ## The stack a script leaves, also if it fails -/

section Stack

variable (C : Crypto) (X : ScriptContext)

/-- The opcode that leaves the verdict this one requires. -/
def withoutVerify (opcode : UInt8) : Option UInt8 :=
  if opcode = OP_EQUALVERIFY then some OP_EQUAL
  else if opcode = OP_NUMEQUALVERIFY then some OP_NUMEQUAL
  else if opcode = OP_CHECKSIGVERIFY then some OP_CHECKSIG
  else if opcode = OP_CHECKMULTISIGVERIFY then some OP_CHECKMULTISIG
  else none

/-- The stack behind a case of the switch that returned false: as it was, but for a verdict that was left
    before it was looked at, and the number `OP_PICK` and `OP_ROLL` pop before they compare it. -/
def stackOfFailedOp (op : ScriptOp) (m : Machine) : List Valtype :=
  match withoutVerify op.opcode with
  | some opcode => ((evalOp C X { op with opcode } m).result.map Machine.stack).getD m.stack
  | none =>
    match m.stack with
    | vch :: x :: stack =>
      if (op.opcode = OP_PICK ∨ op.opcode = OP_ROLL) ∧ (castToBigNum vch).isSome then x :: stack
      else m.stack
    | _ => m.stack

/-- The stack behind an instruction that returned false. -/
def stackOfFailed (op : ScriptOp) (m : Machine) : List Valtype :=
  if op.data.length > 520 ∨ (op.opcode > OP_16 ∧ m.nOpCount + 1 > 201) ∨ op.opcode ∈ disabledOpcodes then
    m.stack
  else
    let m := m.countOp op.opcode
    match (execute C X op m).result with
    -- it was executed, and left too many items
    | some m => m.stack
    | none => stackOfFailedOp C X op m

def stackFrom : Nat → CScript → Machine → List Valtype
  | _, [], m => m.stack
  | 0, _ :: _, m => m.stack
  | fuel + 1, script, m =>
    match getOp script with
    | none => m.stack
    | some op =>
      match (evalInstruction C X op m).result with
      | some m => stackFrom fuel op.rest m
      | none => stackOfFailed C X op m

/-- `stack` after `EvalScript(stack, script, ..)`, whatever that returns. -/
def evalStack (stack : List Valtype) (script : CScript) : List Valtype :=
  if script.length > 10000 then stack
  else stackFrom C X script.length script ⟨stack, [], [], 0, script⟩

variable {C X}

/-- A script that does not fail leaves the stack it returns. -/
theorem evalStack_of_result {stack st : List Valtype} {script : CScript}
    (h : (evalScript C X stack script).result = some st) : evalStack C X stack script = st := by
  have hfrom : ∀ fuel script m m', (evalFrom C X fuel script m).result = some m' →
      stackFrom C X fuel script m = m'.stack := by
    intro fuel
    induction fuel with
    | zero =>
      intro script m m' h
      cases script with
      | nil =>
        rw [evalFrom] at h
        cases h
        rw [stackFrom]
      | cons b pc => cases h
    | succ fuel ih =>
      intro script m m' h
      cases script with
      | nil =>
        rw [evalFrom] at h
        cases h
        rw [stackFrom]
      | cons b pc =>
        rw [evalFrom.eq_def] at h
        rw [stackFrom.eq_def]
        dsimp only at h ⊢
        cases hop : getOp (b :: pc) with
        | none =>
          rw [hop] at h
          cases h
        | some op =>
          rw [hop] at h
          dsimp only at h ⊢
          obtain ⟨m1, hm1, hrest⟩ := Run.bind_result_eq_some.mp h
          rw [hm1]
          exact ih op.rest m1 m' hrest
  unfold evalScript at h
  unfold evalStack
  split at h
  · cases h
  · rename_i hlen
    rw [if_neg hlen]
    obtain ⟨m, hm, hstack⟩ := Run.bind_result_eq_some.mp h
    rw [Run.quiet_result] at hstack
    split at hstack
    · cases hstack
      exact hfrom _ _ _ _ hm
    · cases hstack

end Stack

/-! ## `CombineSignatures` -/

section Combine

variable (E : SignPrimitives) (txTo : CTransaction) (nIn : Nat)

/-- `set<valtype>`: what is no placeholder, in the order of the bytes. -/
def allsigs (sigs1 sigs2 : List Valtype) : List Valtype :=
  sortedSet (· ≤ ·) ((sigs1 ++ sigs2).filter fun v => v ≠ [])

/-- `sigs`: the keys of the script with their signatures. -/
def sigsByKey (scriptPubKey : CScript) (pubkeys sigs1 sigs2 : List Valtype) : StdMap Valtype Valtype :=
  assign (fun sig pubkey => checkSig E sig pubkey scriptPubKey txTo nIn 0) pubkeys (allsigs sigs1 sigs2)

/-- The loop that builds the merged script: `nSigsHave` and `result` behind it. -/
def mergeSigs (sigs : StdMap Valtype Valtype) (nSigsRequired : Nat) :
    List Valtype → Nat → CScript → Nat × CScript
  | [], nSigsHave, result => (nSigsHave, result)
  | pubkey :: pubkeys, nSigsHave, result =>
    if nSigsHave < nSigsRequired then
      match sigs.lookup pubkey with
      | some sig => mergeSigs sigs nSigsRequired pubkeys (nSigsHave + 1) (result ++ pushData sig)
      | none => mergeSigs sigs nSigsRequired pubkeys nSigsHave result
    else (nSigsHave, result)

def combineMultisig (scriptPubKey : CScript) (vSolutions : List (List UInt8)) (sigs1 sigs2 : List Valtype) :
    CScript :=
  let nSigsRequired := ((vSolutions.headD []).headD 0).toNat
  let pubkeys := vSolutions.tail.dropLast
  let sigs := sigsByKey E txTo nIn scriptPubKey pubkeys sigs1 sigs2
  let (nSigsHave, result) := mergeSigs sigs nSigsRequired pubkeys 0 [OP_0]
  result ++ List.replicate (nSigsRequired - nSigsHave) OP_0

/-- The static `CombineSignatures`; of the two stacks the top comes first. -/
def combineStacks : List Valtype → List Valtype → CScript → txnouttype → List (List UInt8) → CScript
  | sigs1, sigs2, scriptPubKey, txType, vSolutions =>
    match txType with
    | .TX_NONSTANDARD => if sigs1.length ≥ sigs2.length then pushAll sigs1.reverse else pushAll sigs2.reverse
    | .TX_PUBKEY => if sigs1.getLastD [] = [] then pushAll sigs2.reverse else pushAll sigs1.reverse
    | .TX_PUBKEYHASH => if sigs1.getLastD [] = [] then pushAll sigs2.reverse else pushAll sigs1.reverse
    | .TX_SCRIPTHASH =>
      match sigs1 with
      | [] => pushAll sigs2.reverse
      | spk :: sigs1' =>
        if spk = [] then pushAll sigs2.reverse
        else
          match sigs2 with
          | [] => pushAll (spk :: sigs1').reverse
          | spk2 :: sigs2' =>
            if spk2 = [] then pushAll (spk :: sigs1').reverse
            else
              let (_, txType2, vSolutions2) := solver spk []
              combineStacks sigs1' sigs2' spk txType2 vSolutions2 ++ pushData spk
    | .TX_MULTISIG => combineMultisig E txTo nIn scriptPubKey vSolutions sigs1 sigs2

/-- `CTransaction()`, at this time. -/
def emptyTransaction (nAdjustedTime : UInt32) : CTransaction := ⟨1, nAdjustedTime, [], [], 0⟩

/-- The items a `scriptSig` leaves, the last first: it is run for no input of no transaction. -/
def itemsOf (nAdjustedTime : UInt32) (scriptSig : CScript) : List Valtype :=
  evalStack (crypto E) (contextOf (emptyTransaction nAdjustedTime) 0) [] scriptSig

def combineSignatures (nAdjustedTime : UInt32) (scriptPubKey scriptSig1 scriptSig2 : CScript) : CScript :=
  let (_, txType, vSolutions) := solver scriptPubKey []
  combineStacks E txTo nIn (itemsOf E nAdjustedTime scriptSig1) (itemsOf E nAdjustedTime scriptSig2)
    scriptPubKey txType vSolutions

end Combine

/-! ## The merged script -/

section Merge

variable {E : SignPrimitives} {txTo : CTransaction} {nIn : Nat} {script : CScript}
  {keys sigs1 sigs2 : List Valtype}

/-- The signatures that are merged: of the first keys that have one. -/
def merged (sigs : StdMap Valtype Valtype) (nSigsRequired : Nat) (keys : List Valtype) : List Valtype :=
  (keys.filterMap fun key => sigs.lookup key).take nSigsRequired

theorem mergeSigs_eq (sigs : StdMap Valtype Valtype) (nSigsRequired : Nat) :
    ∀ (keys : List Valtype) (nSigsHave : Nat) (result : CScript), nSigsHave ≤ nSigsRequired →
    mergeSigs sigs nSigsRequired keys nSigsHave result =
      (nSigsHave + (merged sigs (nSigsRequired - nSigsHave) keys).length,
        result ++ pushAll (merged sigs (nSigsRequired - nSigsHave) keys))
  | [], nSigsHave, result, _ => by simp [mergeSigs, merged, pushAll]
  | key :: keys, nSigsHave, result, hle => by
    unfold mergeSigs
    by_cases hlt : nSigsHave < nSigsRequired
    · rw [if_pos hlt]
      obtain ⟨k, hk⟩ : ∃ k, nSigsRequired - nSigsHave = k + 1 := ⟨nSigsRequired - nSigsHave - 1, by omega⟩
      have hk' : nSigsRequired - (nSigsHave + 1) = k := by omega
      cases hsig : sigs.lookup key with
      | none =>
        dsimp only
        rw [mergeSigs_eq sigs nSigsRequired keys nSigsHave result hle]
        unfold merged
        rw [List.filterMap_cons_none (f := fun key => sigs.lookup key) hsig]
      | some sig =>
        dsimp only
        rw [mergeSigs_eq sigs nSigsRequired keys (nSigsHave + 1) _ hlt, hk', hk]
        unfold merged
        rw [List.filterMap_cons_some (f := fun key => sigs.lookup key) hsig, List.take_succ_cons, List.length_cons, List.append_assoc]
        unfold pushAll
        rw [List.flatMap_cons, Nat.add_assoc, Nat.add_comm 1]
    · have hzero : nSigsRequired - nSigsHave = 0 := by omega
      rw [if_neg hlt, hzero]
      simp [merged, pushAll]

/-- The item too many, the signatures, and what fills them up. -/
theorem combineMultisig_eq {m n : Nat} (hm : m < 256) :
    combineMultisig E txTo nIn script ([UInt8.ofNat m] :: (keys ++ [[UInt8.ofNat n]])) sigs1 sigs2 =
      pushAll ([] :: (merged (sigsByKey E txTo nIn script keys sigs1 sigs2) m keys ++
        List.replicate (m - (merged (sigsByKey E txTo nIn script keys sigs1 sigs2) m keys).length) [])) := by
  have hm' : (UInt8.ofNat m).toNat = m := UInt8.toNat_ofNat_of_lt' (by simp only [UInt8.size]; omega)
  have hfill : ∀ k, List.replicate k OP_0 = pushAll (List.replicate k []) := by
    intro k
    induction k with
    | zero => rfl
    | succ k ih =>
      rw [List.replicate_succ, List.replicate_succ, ih]
      rfl
  unfold combineMultisig
  simp only [List.headD_cons, List.tail_cons, List.dropLast_concat, hm']
  rw [mergeSigs_eq _ _ _ _ _ (Nat.zero_le m), Nat.sub_zero, hfill]
  dsimp only
  rw [Nat.zero_add]
  unfold pushAll
  rw [List.flatMap_cons, List.flatMap_append, List.append_assoc]
  rfl

/-- The order of the two stacks makes no difference. -/
theorem allsigs_comm : allsigs sigs1 sigs2 = allsigs sigs2 sigs1 :=
  sortedSet_congr _ fun v => by
    rw [List.mem_filter, List.mem_filter, List.mem_append, List.mem_append, @or_comm (v ∈ sigs1)]

theorem mem_allsigs {v : Valtype} : v ∈ allsigs sigs1 sigs2 ↔ (v ∈ sigs1 ∨ v ∈ sigs2) ∧ v ≠ [] := by
  unfold allsigs
  rw [mem_sortedSet, List.mem_filter, List.mem_append, decide_eq_true_eq]

end Merge

/-! ## What the two scripts hold -/

section Holds

variable (E : SignPrimitives) (txTo : CTransaction) (nIn : Nat) (script : CScript) (keys : List Valtype)

/-- The interpreter takes this for a signature of the key. -/
def signsKey (vchSig key : Valtype) : Bool := signs (crypto E) (contextOf txTo nIn) script vchSig key

/-- Placeholders, and signatures of keys of the script: each of one of them, and itself none of them. -/
def Holds (items : List Valtype) : Prop :=
  ∀ v ∈ items, v ≠ [] → (∃ key ∈ keys, signsKey E txTo nIn script v key = true) ∧ v ∉ keys ∧
    ∀ key ∈ keys, ∀ key' ∈ keys, checkSig E v key script txTo nIn 0 = true →
      checkSig E v key' script txTo nIn 0 = true → key = key'

/-- The keys of the signatures. -/
def signedKeys (items : List Valtype) : Finset Valtype :=
  keys.toFinset.filter fun key => ∃ v ∈ items, signsKey E txTo nIn script v key = true

variable {E txTo nIn script keys} {items1 items2 : List Valtype} {key v : Valtype}

theorem mem_signedKeys : key ∈ signedKeys E txTo nIn script keys items1 ↔
    key ∈ keys ∧ ∃ v ∈ items1, signsKey E txTo nIn script v key = true := by
  unfold signedKeys
  rw [Finset.mem_filter, List.mem_toFinset]

theorem mem_signedKeys_union :
    key ∈ signedKeys E txTo nIn script keys items1 ∪ signedKeys E txTo nIn script keys items2 ↔
      key ∈ keys ∧ ∃ v, (v ∈ items1 ∨ v ∈ items2) ∧ signsKey E txTo nIn script v key = true := by
  rw [Finset.mem_union, mem_signedKeys, mem_signedKeys]
  constructor
  · rintro (⟨hkey, v, hv, hsigns⟩ | ⟨hkey, v, hv, hsigns⟩)
    · exact ⟨hkey, v, Or.inl hv, hsigns⟩
    · exact ⟨hkey, v, Or.inr hv, hsigns⟩
  · rintro ⟨hkey, v, hv | hv, hsigns⟩
    · exact Or.inl ⟨hkey, v, hv, hsigns⟩
    · exact Or.inr ⟨hkey, v, hv, hsigns⟩

theorem checkSig_of_signsKey (h : signsKey E txTo nIn script v key = true) :
    checkSig E v key script txTo nIn 0 = true := by
  unfold signsKey signs at h
  rw [Bool.and_eq_true] at h
  exact h.2

theorem canonical_of_signsKey (h : signsKey E txTo nIn script v key = true) :
    isCanonicalSignature v = true := by
  unfold signsKey signs at h
  rw [Bool.and_eq_true, Bool.and_eq_true] at h
  exact h.1.1

/-- A placeholder signs for no key. -/
theorem signsKey_nil : signsKey E txTo nIn script [] key = false := by
  by_contra h
  have hcanon := canonical_of_signsKey (Bool.not_eq_false _ ▸ h)
  exact absurd (canonicalSignature_bounds hcanon).1 (by decide)

/-- What is put into the input does not change what its signatures sign. -/
theorem signsKey_setScriptSig (scriptSig : CScript) (vchSig key : Valtype) :
    signsKey E (setScriptSig txTo nIn scriptSig) nIn script vchSig key =
      signsKey E txTo nIn script vchSig key := by
  unfold signsKey signs crypto checkSig contextOf
  dsimp only
  cases vchSig.getLast? with
  | none => rfl
  | some back =>
    dsimp only
    rw [signatureHash_setScriptSig]

/-- The first signature in the set that is one of this key. -/
def found (E : SignPrimitives) (txTo : CTransaction) (nIn : Nat) (script : CScript)
    (items1 items2 : List Valtype) (key : Valtype) : Option Valtype :=
  (allsigs items1 items2).find? fun v => checkSig E v key script txTo nIn 0

/-- With signatures of one key each, the keys find the signatures that the signatures found them by. -/
theorem sigsByKey_lookup (h1 : Holds E txTo nIn script keys items1) (h2 : Holds E txTo nIn script keys items2)
    (hkey : key ∈ keys) : (sigsByKey E txTo nIn script keys items1 items2).lookup key =
      found E txTo nIn script items1 items2 key := by
  refine lookup_assign (fun v hv key hkey key' hkey' h h' => ?_) hkey
  obtain ⟨hmem, hne⟩ := mem_allsigs.mp hv
  rcases hmem with hmem | hmem
  · exact (h1 v hmem hne).2.2 key hkey key' hkey' h h'
  · exact (h2 v hmem hne).2.2 key hkey key' hkey' h h'

/-- What a key of the script finds signs for it, and is held by one of the two. -/
theorem found_spec (h1 : Holds E txTo nIn script keys items1) (h2 : Holds E txTo nIn script keys items2)
    (hkey : key ∈ keys) (h : found E txTo nIn script items1 items2 key = some v) :
    signsKey E txTo nIn script v key = true ∧ v ∉ keys ∧ (v ∈ items1 ∨ v ∈ items2) := by
  obtain ⟨hmem, hne⟩ := mem_allsigs.mp (List.mem_of_find?_eq_some h)
  have hcheck : checkSig E v key script txTo nIn 0 = true :=
    @List.find?_some _ (fun v => checkSig E v key script txTo nIn 0) _ _ h
  obtain ⟨⟨key', hkey', hsigns⟩, hnot, hunique⟩ := hmem.elim (fun hv => h1 v hv hne) (fun hv => h2 v hv hne)
  obtain rfl := hunique key hkey key' hkey' hcheck (checkSig_of_signsKey hsigns)
  exact ⟨hsigns, hnot, hmem⟩

/-- And the keys that find one are the keys that have signed. -/
theorem found_isSome_iff (h1 : Holds E txTo nIn script keys items1)
    (h2 : Holds E txTo nIn script keys items2) (hkey : key ∈ keys) :
    (found E txTo nIn script items1 items2 key).isSome = true ↔
      key ∈ signedKeys E txTo nIn script keys items1 ∪ signedKeys E txTo nIn script keys items2 := by
  rw [mem_signedKeys_union]
  constructor
  · intro h
    obtain ⟨v, hv⟩ := Option.isSome_iff_exists.mp h
    obtain ⟨hsigns, -, hmem⟩ := found_spec h1 h2 hkey hv
    exact ⟨hkey, v, hmem, hsigns⟩
  · rintro ⟨-, v, hmem, hsigns⟩
    have hne : v ≠ [] := by
      rintro rfl
      rw [signsKey_nil] at hsigns
      cases hsigns
    unfold found
    rw [List.find?_isSome]
    exact ⟨v, mem_allsigs.mpr ⟨hmem, hne⟩, checkSig_of_signsKey hsigns⟩

/-- The keys whose signatures are merged: the first of those that have signed. -/
theorem merged_spec (hnodup : keys.Nodup) (h1 : Holds E txTo nIn script keys items1)
    (h2 : Holds E txTo nIn script keys items2) (m : Nat) :
    ∃ ks : List Valtype, ks.Sublist keys ∧
      ks.length = min m
        (signedKeys E txTo nIn script keys items1 ∪ signedKeys E txTo nIn script keys items2).card ∧
      List.Forall₂ (fun v key => signsKey E txTo nIn script v key = true ∧ v ∉ keys ∧
          (v ∈ items1 ∨ v ∈ items2))
        (merged (sigsByKey E txTo nIn script keys items1 items2) m keys) ks := by
  have hmerged : merged (sigsByKey E txTo nIn script keys items1 items2) m keys =
      (keys.filterMap (found E txTo nIn script items1 items2)).take m := by
    unfold merged
    congr 1
    exact List.filterMap_congr fun key hkey => sigsByKey_lookup h1 h2 hkey
  have hsigned : (keys.filter fun key => (found E txTo nIn script items1 items2 key).isSome).toFinset =
      signedKeys E txTo nIn script keys items1 ∪ signedKeys E txTo nIn script keys items2 := by
    ext key
    rw [List.mem_toFinset, List.mem_filter]
    constructor
    · rintro ⟨hkey, hsome⟩
      exact (found_isSome_iff h1 h2 hkey).mp hsome
    · intro hmem
      have hkey := (mem_signedKeys_union.mp hmem).1
      exact ⟨hkey, (found_isSome_iff h1 h2 hkey).mpr hmem⟩
  refine ⟨(keys.filter fun key => (found E txTo nIn script items1 items2 key).isSome).take m,
    (List.take_sublist _ _).trans List.filter_sublist, ?_, ?_⟩
  · rw [List.length_take, ← hsigned, List.toFinset_card_of_nodup (hnodup.filter _)]
  · rw [hmerged]
    exact List.forall₂_take m (forall₂_filterMap fun key hkey v hv => found_spec h1 h2 hkey hv)

end Holds

/-! ## Nothing is lost -/

/-- `OP_m <keys> OP_n OP_CHECKMULTISIG` -/
structure IsMultisig (script : CScript) (m : Nat) (keys : List Instruction) : Prop where
  decodes : Decodes script
    (⟨encodeOP_N m, []⟩ :: (keys ++ [⟨encodeOP_N keys.length, []⟩, ⟨OP_CHECKMULTISIG, []⟩]))
  lengths : ∀ key ∈ keys, 33 ≤ key.data.length ∧ key.data.length ≤ 120
  pos : 1 ≤ m
  le : m ≤ keys.length
  few : keys.length ≤ 16

theorem IsMultisig.standard {script : CScript} {m : Nat} {keys : List Instruction}
    (h : IsMultisig script m keys) :
    IsStandard (⟨encodeOP_N m, []⟩ :: (keys ++ [⟨encodeOP_N keys.length, []⟩, ⟨OP_CHECKMULTISIG, []⟩]))
      .TX_MULTISIG
      ([UInt8.ofNat m] :: (keys.map Instruction.data ++ [[UInt8.ofNat keys.length]])) :=
  .multisig h.lengths h.pos h.le rfl h.few

/-- `SetMultisig`, of the public keys. -/
def setMultisig (nRequired : Nat) (keys : List Valtype) : CScript :=
  [encodeOP_N nRequired] ++ pushAll keys ++ [encodeOP_N keys.length, OP_CHECKMULTISIG]

/-- The instruction that pushes these bytes. -/
def pushOf (vch : Valtype) : Instruction := ⟨(pushData vch).headD 0, vch⟩

theorem decodes_push {vch : Valtype} {rest : CScript} {ops : List Instruction} (hlen : vch.length ≤ 0xffff)
    (h : Decodes rest ops) : Decodes (pushData vch ++ rest) (pushOf vch :: ops) := by
  obtain ⟨opcode, -, -, hop⟩ := getOp_push hlen
  have hfirst : (pushData vch).headD 0 = opcode := by
    cases hpush : pushData vch with
    | nil =>
      have hnone := hop []
      rw [hpush] at hnone
      cases hnone
    | cons b pc =>
      have hop := hop []
      rw [hpush] at hop
      exact (getOp_opcode hop).symm
  unfold pushOf
  rw [hfirst]
  exact @Decodes.cons _ ⟨opcode, vch, rest⟩ _ (hop rest) h

theorem decodes_pushAll {rest : CScript} {ops : List Instruction} (h : Decodes rest ops) :
    ∀ {values : List Valtype}, (∀ vch ∈ values, vch.length ≤ 0xffff) →
      Decodes (pushAll values ++ rest) (values.map pushOf ++ ops)
  | [], _ => h
  | vch :: values, hlen => by
    have hrest := decodes_pushAll h fun v hv => hlen v (List.mem_cons_of_mem _ hv)
    have hpush := decodes_push (hlen vch List.mem_cons_self) hrest
    rw [← List.append_assoc] at hpush
    exact hpush

/-- What `SetMultisig` builds is such a script. -/
theorem isMultisig_setMultisig {m : Nat} {keys : List Valtype}
    (hlengths : ∀ key ∈ keys, 33 ≤ key.length ∧ key.length ≤ 120) (hpos : 1 ≤ m) (hle : m ≤ keys.length)
    (hfew : keys.length ≤ 16) : IsMultisig (setMultisig m keys) m (keys.map pushOf) where
  decodes := by
    -- the numbers are opcodes without data
    have hnumber : ∀ k ≤ 16, 1 ≤ k → ¬ encodeOP_N k ≤ OP_PUSHDATA4 := by decide
    have hplain : ∀ {opcode : UInt8} {rest : CScript} {ops : List Instruction}, ¬ opcode ≤ OP_PUSHDATA4 →
        Decodes rest ops → Decodes (opcode :: rest) (⟨opcode, []⟩ :: ops) := by
      intro opcode rest ops hop h
      exact @Decodes.cons (opcode :: rest) ⟨opcode, [], rest⟩ ops (if_neg hop) h
    rw [List.length_map]
    unfold setMultisig
    rw [List.append_assoc]
    refine hplain (hnumber m (Nat.le_trans hle hfew) hpos) (decodes_pushAll ?_ fun key hkey => ?_)
    · exact hplain (hnumber _ hfew (Nat.le_trans hpos hle)) (hplain (by decide) .nil)
    · exact Nat.le_trans (hlengths key hkey).2 (by decide)
  lengths := by
    intro instr hinstr
    obtain ⟨key, hkey, rfl⟩ := List.mem_map.mp hinstr
    exact hlengths key hkey
  pos := hpos
  le := by rw [List.length_map]; exact hle
  few := by rw [List.length_map]; exact hfew

/-- An output asks for the signatures of a script: it is that script, or its hash.  Last comes what is
    pushed behind the signatures. -/
inductive Pays (E : SignPrimitives) (script : CScript) : CScript → List Valtype → Prop where
  | bare : Pays E script script []
  | scripthash {scriptPubKey : CScript} {hash : List UInt8} (hlen : hash.length = 20)
      (hdec : Decodes scriptPubKey [⟨OP_HASH160, []⟩, ⟨0x14, hash⟩, ⟨OP_EQUAL, []⟩])
      (hhash : (crypto E).hash160 script = hash) (h520 : script.length ≤ 520) :
      Pays E script scriptPubKey [script]

section Main

variable {E : SignPrimitives} {txTo : CTransaction} {nIn : Nat} {script scriptPubKey : CScript}
  {behind : List Valtype} {m : Nat} {keys : List Instruction} {nAdjustedTime : UInt32}
  {scriptSig1 scriptSig2 : CScript} {items1 items2 : List Valtype}

/-- The signatures of the merged script, filled up. -/
def filled (E : SignPrimitives) (txTo : CTransaction) (nIn : Nat) (script : CScript) (m : Nat)
    (keys items1 items2 : List Valtype) : List Valtype :=
  let sigs := merged (sigsByKey E txTo nIn script keys items1 items2) m keys
  sigs ++ List.replicate (m - sigs.length) []

/-- What `CombineSignatures` gives, of a script of several keys or of its hash. -/
theorem combineSignatures_eq (hscript : IsMultisig script m keys)
    (hpays : Pays E script scriptPubKey behind)
    (h1 : itemsOf E nAdjustedTime scriptSig1 = behind ++ items1)
    (h2 : itemsOf E nAdjustedTime scriptSig2 = behind ++ items2) :
    combineSignatures E txTo nIn nAdjustedTime scriptPubKey scriptSig1 scriptSig2 =
      pushAll ([] :: filled E txTo nIn script m (keys.map Instruction.data) items1 items2 ++ behind) := by
  have hsolver := solver_of_standard hscript.decodes hscript.standard
  have hm : m < 256 := by
    have := hscript.le
    have := hscript.few
    omega
  have hstacks : combineStacks E txTo nIn items1 items2 script .TX_MULTISIG
      ([UInt8.ofNat m] :: (keys.map Instruction.data ++ [[UInt8.ofNat keys.length]])) =
      pushAll ([] :: filled E txTo nIn script m (keys.map Instruction.data) items1 items2) := by
    rw [combineStacks.eq_def]
    exact combineMultisig_eq hm
  unfold combineSignatures
  rw [h1, h2]
  cases hpays with
  | bare =>
    rw [hsolver, List.append_nil]
    exact hstacks
  | scripthash hlen hdec' hhash h520 =>
    have hne : script ≠ [] := by
      rintro rfl
      obtain ⟨op, hop, -⟩ := Decodes.cons_iff.mp hscript.decodes
      cases hop
    rw [solver_of_standard hdec' (.scripthash hlen)]
    show combineStacks E txTo nIn (script :: items1) (script :: items2) scriptPubKey .TX_SCRIPTHASH _ = _
    rw [combineStacks.eq_def]
    dsimp only
    rw [if_neg hne, if_neg hne, hsolver, ← pushAll_concat]
    exact congrArg (· ++ pushData script) hstacks

/-- The verdict on the merged script is the one on the signatures in it. -/
theorem verify_filled {X : ScriptContext} {sigs : List Valtype} (hscript : IsMultisig script m keys)
    (hpays : Pays E script scriptPubKey behind)
    (hlen : sigs.length = m) (hshort : ∀ v ∈ sigs, v.length ≤ 73)
    (hnot : ∀ v ∈ sigs, v ∉ keys.map Instruction.data) :
    (verifyScript (crypto E) X (pushAll ([] :: sigs ++ behind)) scriptPubKey).verdict = true ↔
      List.SublistForall₂ (fun v key => signs (crypto E) X script v key = true) sigs
        (keys.map Instruction.data) := by
  obtain ⟨fSuccess, hrun, hiff⟩ := @run_multisig_iff (crypto E) X script [] m keys.length keys sigs [] hscript.decodes
    hscript.lengths hscript.pos hscript.le rfl hscript.few hlen (by decide)
    (fun v hv => Nat.le_trans (hshort v hv) (by decide)) hnot
  rw [← hiff]
  have hshort' : ∀ v ∈ ([] : Valtype) :: sigs, v.length ≤ 73 := by
    intro v hv
    rcases List.mem_cons.mp hv with rfl | hv
    · exact Nat.zero_le _
    · exact hshort v hv
  have h520 : ∀ v ∈ ([] : Valtype) :: sigs, v.length ≤ 520 := fun v hv => Nat.le_trans (hshort' v hv) (by decide)
  have hcount : (([] : Valtype) :: sigs).length ≤ 17 := by
    have hle := hscript.le
    have hfew := hscript.few
    rw [List.length_cons]
    omega
  have hpushed := length_pushAll_le hshort' (by decide)
  rw [← List.reverse_cons] at hrun
  cases hpays with
  | bare =>
    have heval : (evalScript (crypto E) X [] (pushAll ([] :: sigs))).result =
        some ((([] : Valtype) :: sigs).reverse ++ []) :=
      evalScript_pushAll h520 (by rw [List.length_nil]; omega) (by omega)
    rw [List.append_nil] at heval ⊢
    rw [verify_bare heval (not_payToScriptHash hscript.decodes hscript.standard (by simp)) hrun]
  | scripthash hlen' hdec' hhash hsmall =>
    have hpush := length_pushData_le (Nat.le_trans hsmall (by decide : 520 ≤ 0xffff))
    rw [← pushAll_concat, verify_scripthash_pushed h520 (by omega) hsmall
      (by rw [List.length_append]; omega) hdec' hlen' hhash hrun]

/-- What is filled up with placeholders is matched with the keys only if none is needed. -/
theorem sublistForall₂_filled_iff {sigs ks pubkeys : List Valtype} {signs : Valtype → Valtype → Prop}
    (hsub : ks.Sublist pubkeys) (hmatch : List.Forall₂ signs sigs ks) (hnil : ∀ key, ¬ signs [] key)
    (hle : sigs.length ≤ m) :
    List.SublistForall₂ signs (sigs ++ List.replicate (m - sigs.length) []) pubkeys ↔ sigs.length = m := by
  constructor
  · intro h
    by_contra hne
    have hmem : [] ∈ sigs ++ List.replicate (m - sigs.length) ([] : Valtype) :=
      List.mem_append_right _ (List.mem_replicate.mpr ⟨by omega, rfl⟩)
    obtain ⟨key, -, hsigns⟩ := Matching.exists_of_mem h hmem
    exact hnil key hsigns
  · intro hlen
    rw [hlen, Nat.sub_self, List.replicate_zero, List.append_nil]
    exact List.sublistForall₂_iff.mpr ⟨ks, hmatch, hsub⟩

/-- The merged script has the signatures of as many keys as are required, or of all that signed; it is
    accepted exactly if enough keys have signed; and it does not matter which script was first. -/
theorem combineSignatures_multisig (hscript : IsMultisig script m keys)
    (hnodup : (keys.map Instruction.data).Nodup) (hpays : Pays E script scriptPubKey behind)
    (h1 : itemsOf E nAdjustedTime scriptSig1 = behind ++ items1)
    (h2 : itemsOf E nAdjustedTime scriptSig2 = behind ++ items2)
    (hholds1 : Holds E txTo nIn script (keys.map Instruction.data) items1)
    (hholds2 : Holds E txTo nIn script (keys.map Instruction.data) items2) :
    let combined := combineSignatures E txTo nIn nAdjustedTime scriptPubKey scriptSig1 scriptSig2
    let signed := signedKeys E txTo nIn script (keys.map Instruction.data) items1 ∪
      signedKeys E txTo nIn script (keys.map Instruction.data) items2
    combineSignatures E txTo nIn nAdjustedTime scriptPubKey scriptSig2 scriptSig1 = combined ∧
    (∃ sigs ks : List Valtype,
      combined = pushAll ([] :: (sigs ++ List.replicate (m - sigs.length) []) ++ behind) ∧
      ks.Sublist (keys.map Instruction.data) ∧ ks.length = min m signed.card ∧
      List.Forall₂ (fun v key => signsKey E txTo nIn script v key = true ∧ (v ∈ items1 ∨ v ∈ items2)) sigs ks) ∧
    ((verifyScript (crypto E) (contextOf (setScriptSig txTo nIn combined) nIn) combined scriptPubKey).verdict =
      true ↔ m ≤ signed.card) := by
  intro combined signed
  have hcombined : combined = pushAll ([] :: filled E txTo nIn script m (keys.map Instruction.data) items1 items2
      ++ behind) := combineSignatures_eq hscript hpays h1 h2
  obtain ⟨ks, hsub, hcount, hmatch⟩ := merged_spec hnodup hholds1 hholds2 m
  have hlen := hmatch.length_eq
  have hle : ks.length ≤ m := by
    rw [hcount]
    exact min_le_left _ _
  obtain ⟨sigs, hsigs⟩ : ∃ sigs, merged (sigsByKey E txTo nIn script (keys.map Instruction.data) items1 items2) m
    (keys.map Instruction.data) = sigs := ⟨_, rfl⟩
  unfold filled at hcombined
  rw [hsigs] at hmatch hlen hcombined
  refine ⟨?_, ⟨sigs, ks, hcombined, hsub, hcount, hmatch.imp fun _ _ h => ⟨h.1, h.2.2⟩⟩, ?_⟩
  · -- the set of the signatures is the same
    rw [combineSignatures_eq hscript hpays h2 h1]
    show _ = combineSignatures E txTo nIn nAdjustedTime scriptPubKey scriptSig1 scriptSig2
    rw [combineSignatures_eq hscript hpays h1 h2]
    unfold filled sigsByKey
    rw [allsigs_comm]
  · -- every signature is one of a key, and so short, and no key
    have hsigned : ∀ v ∈ sigs, v.length ≤ 73 ∧ v ∉ keys.map Instruction.data := by
      intro v hv
      obtain ⟨key, -, hsigns, hnot, -⟩ := Matching.exists_of_mem
        (List.sublistForall₂_iff.mpr ⟨ks, hmatch, List.Sublist.refl ks⟩) hv
      exact ⟨(canonicalSignature_bounds (canonical_of_signsKey hsigns)).2.1, hnot⟩
    have hpadded : ∀ v ∈ sigs ++ List.replicate (m - sigs.length) [], v.length ≤ 73 ∧
        v ∉ keys.map Instruction.data := by
      intro v hv
      rcases List.mem_append.mp hv with hv | hv
      · exact hsigned v hv
      · rw [List.eq_of_mem_replicate hv]
        refine ⟨Nat.zero_le _, fun hmem => ?_⟩
        obtain ⟨instr, hinstr, hdata⟩ := List.mem_map.mp hmem
        have hlong := (hscript.lengths instr hinstr).1
        rw [hdata] at hlong
        exact absurd hlong (by decide)
    rw [hcombined, verify_filled hscript hpays
      (by rw [List.length_append, List.length_replicate]; omega)
      (fun v hv => (hpadded v hv).1) (fun v hv => (hpadded v hv).2)]
    show List.SublistForall₂ (fun v key => signsKey E (setScriptSig txTo nIn _) nIn script v key = true) _ _ ↔ _
    simp only [signsKey_setScriptSig]
    rw [@sublistForall₂_filled_iff m sigs ks _ (fun v key => signsKey E txTo nIn script v key = true) hsub
      (hmatch.imp fun _ _ h => h.1) (fun key h => by rw [signsKey_nil] at h; cases h) (by omega)]
    show sigs.length = m ↔ m ≤ (signedKeys E txTo nIn script (keys.map Instruction.data) items1 ∪
      signedKeys E txTo nIn script (keys.map Instruction.data) items2).card
    omega

end Main

/-! ## Signatures that are put together, and three that are not

  One signature of each of two keys is put together behind a script hash.  Then a script of sixteen keys,
  too long to be pushed; a script that says nothing, which leaves the other one as it is, with its
  signatures in the wrong order; and a key that was made for a signature of another one: the input has no
  output of its own, and so the hash to sign is 1.  Keys, hashes and signatures are real ones.
-/

namespace Halves

open CCryptoKeyStore.TwoKeys Nested

/-- The compressed form of `pubKey2`. -/
def pubKey2c : List UInt8 := bytes 33 0x02466d7fcae563e5cb09a0d1870bb580344804617879a14949cf22285f1bae3f27

/-- `signatureOne` is a signature of 1 under this key too. -/
def pubKeyMade : List UInt8 := bytes 33 0x027b831fbbaeb34365c2c991e96b320b315d16cbf818be7460a1628e87c7a0f08c

def two : CScript := setMultisig 2 [pubKey1, pubKey2c]

def twoHash : CScript := payToScriptHash 0x276b0aecadc4e260085016095aad29ea64998563

/-- One of sixteen: points of the curve with a small abscissa. -/
def sixteen : List Valtype :=
  pubKey1 :: [1, 2, 3, 4, 6, 8, 12, 13, 14, 16, 20, 22, 25, 27, 32].map fun x => 0x02 :: bytes 32 x

def longScript : CScript := setMultisig 1 sixteen

def longScriptHash : CScript := payToScriptHash 0x745612e09a854ffe74780fb786250b81de4386dd

def made : CScript := setMultisig 2 [pubKey1, pubKeyMade]

/-- Two inputs, and an output for the first. -/
def twice : CTransaction :=
  ⟨1, 1400000000, [⟨⟨0xabc, 0⟩, [], 0xffffffff⟩, ⟨⟨0xabc, 1⟩, [], 0xffffffff⟩], [⟨5, [0x51]⟩], 0⟩

def hashTwo : Uint256 := 0x66e240007bc74fe5095aceb75e2d608923ff255eaec6c8c4d9edf473eb890804
def hashLong : Uint256 := 0x97864e39a91991ecbb687a31cfe84c76b5c27e47f5bacfd786b1262e25134c7

/-- Of the two keys, over `hashTwo`. -/
def signature1 : List UInt8 := bytes 71
  0x3045022100bb96b41755f9147a5a949efdb6c3bd03aad984f5c687bf7fd5b327c781869c6b02206f9c2f5398d91ca87e48c488461e1963003b1be05f36303bb8f8de1ccdce2375
def signature2 : List UInt8 := bytes 70
  0x304402207458118fada89b2b3e0bbd79a73fdc02f7ef9d9f77e3b588685d326ade9ddd1b0220691c5572e40cf74795bc470cb494272d862ef8a5513d18f795e4dc687aa6f095

/-- Of the first key, over `hashLong`. -/
def signatureLong : List UInt8 := bytes 70
  0x3044022051d86723d9f129ef8fd44df91ede5ab5b1b219ae23f6a3e2001b39a4a397043c02204e83eabb19319d6205f71d4312f9819c86b528aab236068e6f4e44f641b8cc72

/-- Two of the first key, over 1. -/
def signatureOne : List UInt8 := bytes 71
  0x3045022100ee496ee0ef37e02fec4b16bf84ecb8cddcdaa813338db8a4ad03f9751f723e68022010fff5cf8a77d774da5ac57fa4909a475cefff498dec84466de8967a42613ab9
def signatureOther : List UInt8 := bytes 71
  0x3045022100f63d8b426788761e6ad2b96f2ecba90e6ceabc2847a731ff823984354890f27702204b348f3dada365074d4360eb99d0d1f5f3c1b115197c3456d609a142c1fb0f29

/-- What the curve says of keys, hashes and signatures that are not here does not matter. -/
def primitives : SignPrimitives where
  toKeyPrimitives := { CCryptoKeyStore.TwoKeys.primitives with
    hash160 := fun vch =>
      if vch = two then 0x276b0aecadc4e260085016095aad29ea64998563
      else if vch = longScript then 0x745612e09a854ffe74780fb786250b81de4386dd
      else 0
    hash := fun vch =>
      if signaturePreimage two spending 0 1 = some vch then hashTwo
      else if signaturePreimage longScript spending 0 1 = some vch then hashLong
      else 0 }
  sign _ _ := none
  verify key hash vchSig := decide ((key.vchPubKey, hash, vchSig) ∈
    [(pubKey1, hashTwo, signature1), (pubKey2c, hashTwo, signature2), (pubKey1, hashLong, signatureLong),
      (pubKey1, 1, signatureOne), (pubKeyMade, 1, signatureOne), (pubKey1, 1, signatureOther)])
  ripemd160 _ := []
  sha1 _ := []
  sha256 _ := []

/-- With the hash type behind it: all inputs and outputs, or the one output. -/
def all (vchSig : List UInt8) : Valtype := vchSig ++ [1]
def single (vchSig : List UInt8) : Valtype := vchSig ++ [3]

theorem isMultisig_two : IsMultisig two 2 ([pubKey1, pubKey2c].map pushOf) :=
  isMultisig_setMultisig (by decide) (by decide) (by decide) (by decide)

/-- The script hash pays to the two keys. -/
theorem pays_twoHash : Pays primitives two twoHash [two] := by
  have hp2sh : isPayToScriptHash twoHash = true := by decide
  obtain ⟨hlen, hdec⟩ := isPayToScriptHash_iff.mp ⟨hp2sh, rfl⟩
  exact .scripthash hlen hdec (by decide) (by decide)

theorem holds_two (items : List Valtype) (h : items ∈ [[all signature1, [], []], [[], all signature2, []]]) :
    Holds primitives spending 0 two (([pubKey1, pubKey2c].map pushOf).map Instruction.data) items := by
  unfold Holds
  revert items
  decide +kernel

end Halves

/-- The signature of the first key and that of the second: the merged script is accepted. -/
theorem combineSignatures_two :
    let combined := combineSignatures Halves.primitives Nested.spending 0 0 Halves.twoHash
      (pushAll [[], [], Halves.all Halves.signature1, Halves.two])
      (pushAll [[], Halves.all Halves.signature2, [], Halves.two])
    (verifyScript (crypto Halves.primitives) (contextOf (setScriptSig Nested.spending 0 combined) 0) combined
      Halves.twoHash).verdict = true :=
  have hholds1 := Halves.holds_two [Halves.all Halves.signature1, [], []] (by simp)
  have hholds2 := Halves.holds_two [[], Halves.all Halves.signature2, []] (by simp)
  (combineSignatures_multisig Halves.isMultisig_two (by decide) Halves.pays_twoHash
    (by decide +kernel) (by decide +kernel) hholds1 hholds2).2.2.mpr (by decide +kernel)

/-- Two scripts hold signatures of enough of the keys, and the merged script is not accepted. -/
def Loses (E : SignPrimitives) (txTo : CTransaction) (nIn : Nat) (scriptPubKey script : CScript) (m : Nat)
    (keys items1 items2 : List Valtype) (scriptSig1 scriptSig2 : CScript) : Prop :=
  let combined := combineSignatures E txTo nIn 0 scriptPubKey scriptSig1 scriptSig2
  keys.Nodup ∧
  (∀ v ∈ items1 ++ items2, v ≠ [] → ∃ key ∈ keys, signsKey E txTo nIn script v key = true) ∧
  m ≤ (signedKeys E txTo nIn script keys items1 ∪ signedKeys E txTo nIn script keys items2).card ∧
  (verifyScript (crypto E) (contextOf (setScriptSig txTo nIn combined) nIn) combined scriptPubKey).verdict = false

namespace Halves

open CCryptoKeyStore.TwoKeys Nested

/-- A script hash, and the script behind it. -/
def IsHashOf (scriptPubKey script : CScript) : Prop :=
  isPayToScriptHash scriptPubKey = true ∧ (crypto primitives).hash160 script = (scriptPubKey.drop 2).take 20

theorem isMultisig_long : IsMultisig longScript 1 (sixteen.map pushOf) :=
  isMultisig_setMultisig (by decide) (by decide) (by decide) (by decide)

theorem isMultisig_made : IsMultisig made 2 ([pubKey1, pubKeyMade].map pushOf) :=
  isMultisig_setMultisig (by decide) (by decide) (by decide) (by decide)

/-- A script too long to be pushed; a script that says nothing, for a script hash; a key that was made for a
    signature. -/
theorem combineSignatures_loses :
    (IsMultisig longScript 1 (sixteen.map pushOf) ∧ IsHashOf longScriptHash longScript ∧
      Loses primitives spending 0 longScriptHash longScript 1 sixteen [[], all signatureLong] [[]]
        (pushAll [[], all signatureLong, longScript]) (pushAll [[], longScript])) ∧
    (IsMultisig two 2 ([pubKey1, pubKey2c].map pushOf) ∧ IsHashOf twoHash two ∧
      Loses primitives spending 0 twoHash two 2 [pubKey1, pubKey2c] []
        [[], all signature2, all signature1] [] (pushAll [[], all signature2, all signature1, two])) ∧
    IsMultisig made 2 ([pubKey1, pubKeyMade].map pushOf) ∧
      Loses primitives twice 1 made made 2 [pubKey1, pubKeyMade] [[], single signatureOne]
        [[], single signatureOther] (pushAll [[], single signatureOne]) (pushAll [[], single signatureOther]) := by
  refine ⟨⟨isMultisig_long, ?_⟩, ⟨isMultisig_two, ?_⟩, isMultisig_made, ?_⟩
  · unfold IsHashOf Loses
    decide +kernel
  · unfold IsHashOf Loses
    decide +kernel
  · unfold Loses
    decide

end Halves

end Standard

end Silkcoin
