/-
  HOW THE STANDARD SCRIPTS RUN.

  Each of the four shapes is run by the interpreter on the stack that a script of pushes has left, and what
  it leaves itself is said in one theorem for each shape: a hash that is compared, one signature that is
  checked, or several that are matched with the keys in their order (`Matching.greedy`).

  A run is put together from its instructions (`Ends`), which do not see where in the script they stand.
  The signatures are dropped from what they sign; a script that does not push them is left as it is
  (`findAndDelete_of_not_pushed`).
-/
import Silkcoin.Solver
import Silkcoin.Lib.Matching

namespace Silkcoin

namespace Standard

open Matching

/-! ## Runs of instructions -/

section Runs

variable {C : Crypto} {X : ScriptContext} {script : CScript} {op : ScriptOp} {m m' : Machine}
  {r : Option Machine}

/-- The loop ends so, with any fuel that is enough for the script. -/
def Ends (C : Crypto) (X : ScriptContext) (script : CScript) (m : Machine) (r : Option Machine) : Prop :=
  ∀ fuel, script.length ≤ fuel → (evalFrom C X fuel script m).result = r

theorem Ends.nil : Ends C X [] m (some m) := by
  intro fuel _
  rw [evalFrom]
  rfl

/-- One instruction, and the rest. -/
theorem Ends.cons (hop : getOp script = some op) (hm : (evalInstruction C X op m).result = some m')
    (h : Ends C X op.rest m' r) : Ends C X script m r := by
  intro fuel hfuel
  have hshrinks := getOp_shrinks hop
  match fuel, script with
  | _, [] => cases hop
  | 0, _ :: _ => exact absurd hfuel (Nat.not_succ_le_zero _)
  | fuel + 1, b :: pc =>
    rw [evalFrom, hop]
    · dsimp only
      rw [Run.bind_result, hm]
      exact h fuel (by omega)
    · simp

/-- An instruction that fails ends the run. -/
theorem Ends.fail (hop : getOp script = some op) (hm : (evalInstruction C X op m).result = none) :
    Ends C X script m none := by
  intro fuel hfuel
  match fuel, script with
  | _, [] => cases hop
  | 0, _ :: _ => exact absurd hfuel (Nat.not_succ_le_zero _)
  | fuel + 1, b :: pc =>
    rw [evalFrom, hop]
    · dsimp only
      rw [Run.bind_result, hm]
      rfl
    · simp

theorem evalScript_ends {stack : List Valtype} (hlen : script.length ≤ 10000)
    (h : Ends C X script ⟨stack, [], [], 0, script⟩ r) :
    (evalScript C X stack script).result = r.bind fun m => if m.vfExec = [] then some m.stack else none := by
  unfold evalScript
  rw [if_neg (by omega), Run.bind_result, h _ le_rfl]
  rfl

end Runs

/-! ## Instructions outside of conditionals -/

section Instructions

variable {C : Crypto} {X : ScriptContext} {op : ScriptOp} {st : List Valtype} {n : Nat} {code : CScript}
  {m : Machine}

theorem evalInstruction_push (hop : op.opcode ≤ OP_PUSHDATA4) (hdata : op.data.length ≤ 520)
    (hsize : st.length < 1000) :
    (evalInstruction C X op ⟨st, [], [], n, code⟩).result = some ⟨op.data :: st, [], [], n, code⟩ := by
  have hcount : ¬ op.opcode > OP_16 := by
    intro h
    exact absurd (UInt8.lt_of_lt_of_le h hop) (by decide)
  have hdis : op.opcode ∉ disabledOpcodes := by
    intro h
    have hall : ∀ o ∈ disabledOpcodes, ¬ o ≤ OP_PUSHDATA4 := by decide +kernel
    exact hall _ h hop
  unfold evalInstruction
  rw [if_neg (by omega), if_neg (fun h => hcount h.1), if_neg hdis, Run.bind_result]
  unfold Machine.countOp execute
  rw [if_neg hcount, if_pos ⟨rfl, hop⟩]
  show (if (op.data :: st).length + ([] : List Valtype).length > 1000 then none else _) = _
  rw [if_neg (by simp only [List.length_cons, List.length_nil]; omega)]

/-- A push that is too large fails. -/
theorem evalInstruction_large (hdata : 520 < op.data.length) : (evalInstruction C X op m).result = none := by
  unfold evalInstruction
  rw [if_pos hdata]
  rfl

/-- `OP_1` to `OP_16` -/
theorem evalInstruction_number {k : Nat} (hop : op.opcode = encodeOP_N k) (hdata : op.data = [])
    (hk : 1 ≤ k) (hk16 : k ≤ 16) (hsize : st.length < 1000) :
    (evalInstruction C X op ⟨st, [], [], n, code⟩).result = some ⟨getvch k :: st, [], [], n, code⟩ := by
  have hbounds : ∀ k ≤ 16, 1 ≤ k → OP_1 ≤ encodeOP_N k ∧ encodeOP_N k ≤ OP_16 ∧
      encodeOP_N k ∉ disabledOpcodes := by decide
  obtain ⟨h1, h16, hdis⟩ := hbounds k hk16 hk
  have hpushed := smallInt_pushed h1 h16
  rw [decodeOP_N_encodeOP_N hk16] at hpushed
  rw [← hop] at h1 h16 hdis hpushed
  have hcount : ¬ op.opcode > OP_16 := UInt8.not_lt.mpr h16
  have hpush : ¬ op.opcode ≤ OP_PUSHDATA4 := fun h => absurd (UInt8.le_trans h1 h) (by decide)
  have hchecks : ∀ o, o = OP_CHECKSIG ∨ o = OP_CHECKSIGVERIFY ∨ o = OP_CHECKMULTISIG ∨
      o = OP_CHECKMULTISIGVERIFY → op.opcode ≠ o := by
    rintro o ho rfl
    rcases ho with ho | ho | ho | ho <;> rw [ho] at h16 <;> exact absurd h16 (by decide)
  have hexec : (⟨st, [], [], n, code⟩ : Machine).fExec = true := rfl
  unfold evalInstruction
  rw [if_neg (by rw [hdata]; simp), if_neg (fun h => hcount h.1), if_neg hdis, Run.bind_result]
  unfold Machine.countOp execute evalOp plainOp
  rw [if_neg hcount, if_neg (fun h => hpush h.2), if_pos (Or.inl hexec), if_neg, if_neg,
    if_pos (Or.inr ⟨h1, h16⟩), hpushed]
  · show (if (getvch k :: st).length + ([] : List Valtype).length > 1000 then none else _) = _
    rw [if_neg (by simp only [List.length_cons, List.length_nil]; omega)]
  · rintro (h | h)
    · exact hchecks OP_CHECKMULTISIG (by simp) h
    · exact hchecks OP_CHECKMULTISIGVERIFY (by simp) h
  · rintro (h | h)
    · exact hchecks OP_CHECKSIG (by simp) h
    · exact hchecks OP_CHECKSIGVERIFY (by simp) h

/-- Any opcode above `OP_16` is counted, and switched over. -/
theorem evalInstruction_counted {opcode : UInt8} {rest : CScript} {m' : Machine} (hop : OP_16 < opcode)
    (hdis : opcode ∉ disabledOpcodes) (hn : n < 201)
    (h : (evalOp C X ⟨opcode, [], rest⟩ ⟨st, [], [], n + 1, code⟩).result = some m')
    (hsize : m'.stack.length + m'.altstack.length ≤ 1000) :
    (evalInstruction C X ⟨opcode, [], rest⟩ ⟨st, [], [], n, code⟩).result = some m' := by
  have hpush : ¬ opcode ≤ OP_PUSHDATA4 := fun hle =>
    absurd (UInt8.lt_of_lt_of_le hop hle) (by decide)
  have hexec : (⟨st, [], [], n + 1, code⟩ : Machine).fExec = true := rfl
  unfold evalInstruction
  rw [if_neg (by simp), if_neg (by dsimp only; omega), if_neg hdis, Run.bind_result]
  unfold Machine.countOp execute
  rw [if_pos hop, if_neg (fun h => hpush h.2), if_pos (Or.inl hexec), h]
  exact congrArg id (if_neg (by omega))

theorem evalInstruction_dup {x : Valtype} (hop : op.opcode = OP_DUP) (hdata : op.data = []) (hn : n < 201)
    (hsize : st.length < 999) : (evalInstruction C X op ⟨x :: st, [], [], n, code⟩).result =
      some ⟨x :: x :: st, [], [], n + 1, code⟩ := by
  obtain ⟨opcode, data, rest⟩ := op
  dsimp only at hop hdata
  subst hop hdata
  refine evalInstruction_counted (by decide) (by decide) hn rfl ?_
  simp only [List.length_cons, List.length_nil]
  omega

theorem evalInstruction_hash160 {x : Valtype} (hop : op.opcode = OP_HASH160) (hdata : op.data = [])
    (hn : n < 201) (hsize : st.length < 1000) : (evalInstruction C X op ⟨x :: st, [], [], n, code⟩).result =
      some ⟨C.hash160 x :: st, [], [], n + 1, code⟩ := by
  obtain ⟨opcode, data, rest⟩ := op
  dsimp only at hop hdata
  subst hop hdata
  refine evalInstruction_counted (by decide) (by decide) hn rfl ?_
  simp only [List.length_cons, List.length_nil]
  omega

theorem evalInstruction_equal {x y : Valtype} (hop : op.opcode = OP_EQUAL) (hdata : op.data = [])
    (hn : n < 201) (hsize : st.length < 1000) :
    (evalInstruction C X op ⟨x :: y :: st, [], [], n, code⟩).result =
      some ⟨vchBool (y = x) :: st, [], [], n + 1, code⟩ := by
  obtain ⟨opcode, data, rest⟩ := op
  dsimp only at hop hdata
  subst hop hdata
  refine evalInstruction_counted (by decide) (by decide) hn rfl ?_
  simp only [List.length_cons, List.length_nil]
  omega

theorem evalInstruction_equalVerify {x : Valtype} (hop : op.opcode = OP_EQUALVERIFY) (hdata : op.data = [])
    (hn : n < 201) (hsize : st.length < 1000) :
    (evalInstruction C X op ⟨x :: x :: st, [], [], n, code⟩).result =
      some ⟨st, [], [], n + 1, code⟩ := by
  obtain ⟨opcode, data, rest⟩ := op
  dsimp only at hop hdata
  subst hop hdata
  refine evalInstruction_counted (by decide) (by decide) hn ?_ ?_
  · show (if x = x then _ else none) = _
    rw [if_pos rfl]
  · simp only [List.length_nil]
    omega

/-- A signature is good for a key: what the interpreter asks of the two. -/
def signs (C : Crypto) (X : ScriptContext) (code : CScript) (vchSig vchPubKey : Valtype) : Bool :=
  isCanonicalSignature vchSig && isCanonicalPubKey vchPubKey &&
    C.checkSig vchSig vchPubKey code X.txTo X.nIn X.nHashType

theorem checkOne_signs (vchSig vchPubKey : Valtype) :
    (checkOne C X code vchSig vchPubKey).result = some (signs C X code vchSig vchPubKey) := by
  unfold checkOne signs
  by_cases h : (isCanonicalSignature vchSig && isCanonicalPubKey vchPubKey) = true
  · rw [if_pos h, h, Bool.true_and]
  · rw [if_neg h, Bool.eq_false_iff.mpr h, Bool.false_and]
    rfl

theorem evalInstruction_checkSig {vchSig vchPubKey : Valtype} (hop : op.opcode = OP_CHECKSIG)
    (hdata : op.data = []) (hn : n < 201) (hsize : st.length < 1000) :
    (evalInstruction C X op ⟨vchPubKey :: vchSig :: st, [], [], n, code⟩).result =
      some ⟨vchBool (signs C X (findAndDelete (pushData vchSig) code) vchSig vchPubKey) :: st, [], [],
        n + 1, code⟩ := by
  obtain ⟨opcode, data, rest⟩ := op
  dsimp only at hop hdata
  subst hop hdata
  refine evalInstruction_counted (by decide) (by decide) hn ?_ ?_
  · unfold evalOp checkSigOp
    rw [if_pos (Or.inl rfl), Run.bind_result, checkOne_signs]
    rfl
  · simp only [List.length_cons, List.length_nil]
    omega

/-- The loop of `OP_CHECKMULTISIG` matches greedily; it gives up as soon as there cannot be a matching. -/
theorem multiSigLoop_greedy : ∀ (keys sigs : List Valtype),
    (multiSigLoop C X code keys sigs).result = some (greedy (signs C X code) keys sigs)
  | keys, [] => by
    rw [multiSigLoop, greedy]
    rfl
  | [], _ :: _ => rfl
  | vchPubKey :: keys, vchSig :: sigs => by
    rw [multiSigLoop, Run.bind_result, checkOne_signs, Option.bind_some, greedy]
    have hshort : ∀ sigs : List Valtype, (if sigs.length > keys.length then Run.quiet (some false)
        else multiSigLoop C X code keys sigs).result = some (greedy (signs C X code) keys sigs) := by
      intro sigs
      split
      · rename_i hlen
        cases hg : greedy (signs C X code) keys sigs with
        | false => rfl
        | true =>
          have := length_le_of_greedy hg
          omega
      · exact multiSigLoop_greedy keys sigs
    by_cases h : signs C X code vchSig vchPubKey = true
    · rw [if_pos h, h]
      exact hshort sigs
    · rw [if_neg h, Bool.eq_false_iff.mpr h]
      exact hshort (vchSig :: sigs)

/-- `keys` and `sigs` as they are on the stack, the last pushed first. -/
theorem evalInstruction_checkMultiSig {keys sigs : List Valtype} {dummy : Valtype}
    (hop : op.opcode = OP_CHECKMULTISIG) (hdata : op.data = []) (hkeys : keys.length ≤ 16)
    (hsigs : sigs.length ≤ keys.length) (hn : n + keys.length < 201) (hsize : st.length < 1000) :
    (evalInstruction C X op
      ⟨getvch keys.length :: (keys ++ getvch sigs.length :: (sigs ++ dummy :: st)), [], [], n, code⟩).result =
      some ⟨vchBool (greedy (signs C X (sigs.foldl (fun code vchSig => findAndDelete (pushData vchSig) code)
        code)) keys sigs) :: st, [], [], n + 1 + keys.length, code⟩ := by
  obtain ⟨opcode, data, rest⟩ := op
  dsimp only at hop hdata
  subst hop hdata
  obtain ⟨hcastk, hintk⟩ := castToBigNum_getvch hkeys
  obtain ⟨hcasts, hints⟩ := castToBigNum_getvch (le_trans hsigs hkeys)
  refine evalInstruction_counted (by decide) (by decide) (by omega) ?_ ?_
  · unfold evalOp checkMultiSigOp
    rw [if_neg (show ¬ (OP_CHECKMULTISIG = OP_CHECKSIG ∨ OP_CHECKMULTISIG = OP_CHECKSIGVERIFY) by decide),
      if_pos (Or.inl rfl)]
    dsimp only
    rw [Run.bind_result, Run.quiet_result, hcastk, Option.bind_some, hintk, if_neg (by omega),
      if_neg (by simp only [Int.toNat_natCast]; omega), Int.toNat_natCast, List.drop_left' rfl,
      List.take_left' rfl]
    dsimp only
    rw [Run.bind_result, Run.quiet_result, hcasts, Option.bind_some, hints, if_neg (by omega),
      Int.toNat_natCast, if_neg (by simp only [List.length_append, List.length_cons]; omega),
      List.take_left' rfl, Run.bind_result, multiSigLoop_greedy, Option.bind_some]
    have hbelow : (sigs ++ dummy :: st).drop (sigs.length + 1) = st := by
      rw [List.drop_append, List.drop_eq_nil_of_le (Nat.le_succ _), Nat.add_sub_cancel_left]
      rfl
    rw [hbelow]
    rfl
  · simp only [List.length_cons, List.length_nil]
    omega

end Instructions

/-! ## Scripts of pushes -/

section Pushes

variable {C : Crypto} {X : ScriptContext} {script b : List UInt8} {op : ScriptOp} {st vs : List Valtype}

/-- What is read is the end of the script, and what was in front of it is short. -/
theorem getOp_suffix (h : getOp script = some op) :
    op.rest <:+ script ∧ script.length ≤ op.rest.length + op.data.length + 5 := by
  have htake : ∀ {opcode : UInt8} {nSize : Nat} {pc : CScript}, takeOperand opcode nSize pc = some op →
      op.rest <:+ pc ∧ pc.length ≤ op.rest.length + op.data.length := by
    intro opcode nSize pc h
    unfold takeOperand at h
    split at h
    · cases h
    · cases h
      refine ⟨List.drop_suffix _ _, ?_⟩
      rw [List.length_drop, List.length_take]
      omega
  have hcons : ∀ {pre pc : CScript}, op.rest <:+ pc ∧ pc.length ≤ op.rest.length + op.data.length →
      pre.length ≤ 5 → op.rest <:+ pre ++ pc ∧ (pre ++ pc).length ≤ op.rest.length + op.data.length + 5 := by
    intro pre pc h hpre
    refine ⟨h.1.trans (List.suffix_append _ _), ?_⟩
    rw [List.length_append]
    omega
  unfold getOp at h
  split at h
  · cases h
  · rename_i opcode pc
    split at h
    · split at h
      · exact @hcons [opcode] pc (htake h) (by simp)
      · split at h
        · split at h
          · rename_i b0 pc
            exact @hcons [opcode, b0] pc (htake h) (by simp)
          · cases h
        · split at h
          · split at h
            · rename_i b0 b1 pc
              exact @hcons [opcode, b0, b1] pc (htake h) (by simp)
            · cases h
          · split at h
            · rename_i b0 b1 b2 b3 pc
              exact @hcons [opcode, b0, b1, b2, b3] pc (htake h) (by simp)
            · cases h
    · cases h
      exact @hcons [opcode] _ ⟨List.suffix_refl _, by simp⟩ (by simp)

theorem vchValue_two {n : Nat} (h : n < 65536) : vchValue [UInt8.ofNat n, UInt8.ofNat (n / 256)] = n := by
  show (UInt8.ofNat n).toNat + 256 * ((UInt8.ofNat (n / 256)).toNat + 256 * 0) = _
  rw [UInt8.toNat_ofNat', UInt8.toNat_ofNat']
  omega

/-- The instruction that pushes `b`. -/
theorem getOp_push (hb : b.length ≤ 0xffff) : ∃ opcode, opcode ≤ OP_PUSHDATA4 ∧ (b = [] → opcode = OP_0) ∧
    ∀ rest, getOp (pushData b ++ rest) = some ⟨opcode, b, rest⟩ := by
  by_cases h76 : b.length < 76
  · refine ⟨UInt8.ofNat b.length, ?_, ?_, getOp_pushData h76⟩
    · rw [UInt8.le_iff_toNat_le, UInt8.toNat_ofNat_of_lt' (Nat.lt_trans h76 (by decide))]
      exact Nat.le_trans (Nat.le_of_lt h76) (by decide)
    · rintro rfl
      rfl
  have hne : b = [] → False := by
    rintro rfl
    exact h76 (by decide)
  -- the operand is there: it is `b`
  have htake : ∀ (opcode : UInt8) (rest : CScript), takeOperand opcode b.length (b ++ rest) =
      some ⟨opcode, b, rest⟩ := by
    intro opcode rest
    unfold takeOperand
    rw [if_neg (by rw [List.length_append]; omega), List.take_left' rfl, List.drop_left' rfl]
  have hop : OP_PUSHDATA1.toNat = 76 := rfl
  by_cases h255 : b.length ≤ 0xff
  · refine ⟨OP_PUSHDATA1, by decide, fun h => absurd h hne, fun rest => ?_⟩
    unfold pushData
    rw [hop, if_neg h76, if_pos h255]
    show takeOperand OP_PUSHDATA1 (UInt8.ofNat b.length).toNat (b ++ rest) = _
    rw [UInt8.toNat_ofNat_of_lt' (by simp only [UInt8.size]; omega), htake]
  · refine ⟨OP_PUSHDATA2, by decide, fun h => absurd h hne, fun rest => ?_⟩
    unfold pushData
    rw [hop, if_neg h76, if_neg h255, if_pos hb]
    show takeOperand OP_PUSHDATA2 (vchValue [UInt8.ofNat b.length, UInt8.ofNat (b.length / 256)]) (b ++ rest) = _
    rw [vchValue_two (by omega), htake]

def pushAll (values : List Valtype) : CScript := values.flatMap pushData

/-- A script of pushes leaves what it pushes, the last on top. -/
theorem ends_pushAll (h520 : ∀ v ∈ vs, v.length ≤ 520) (hsize : st.length + vs.length ≤ 1000)
    {n : Nat} {code : CScript} :
    Ends C X (pushAll vs) ⟨st, [], [], n, code⟩ (some ⟨vs.reverse ++ st, [], [], n, code⟩) := by
  induction vs generalizing st with
  | nil => exact Ends.nil
  | cons v vs ih =>
    have hv := h520 v List.mem_cons_self
    obtain ⟨opcode, hle, -, hop⟩ := getOp_push (Nat.le_trans hv (by decide))
    rw [List.length_cons] at hsize
    refine Ends.cons (hop (pushAll vs)) (evalInstruction_push hle hv (by omega)) ?_
    rw [List.reverse_cons, List.append_assoc]
    exact ih (fun w hw => h520 w (List.mem_cons_of_mem _ hw)) (by rw [List.length_cons]; omega)

/-- A push of more than 520 bytes among them and the script fails. -/
theorem ends_pushAll_large {v : Valtype} (h520 : ∀ v ∈ vs, v.length ≤ 520) (hv : 520 < v.length)
    (hv' : v.length ≤ 0xffff) (hsize : st.length + vs.length ≤ 1000) {n : Nat} {code rest : CScript} :
    Ends C X (pushAll vs ++ (pushData v ++ rest)) ⟨st, [], [], n, code⟩ none := by
  induction vs generalizing st with
  | nil =>
    obtain ⟨opcode, -, -, hop⟩ := getOp_push hv'
    exact Ends.fail (hop rest) (evalInstruction_large hv)
  | cons w vs ih =>
    have hw := h520 w List.mem_cons_self
    obtain ⟨opcode, hle, -, hop⟩ := getOp_push (Nat.le_trans hw (by decide))
    rw [List.length_cons] at hsize
    unfold pushAll
    rw [List.flatMap_cons, List.append_assoc]
    refine Ends.cons (hop _) (evalInstruction_push hle hw (by omega)) ?_
    exact ih (fun w hw => h520 w (List.mem_cons_of_mem _ hw)) (by rw [List.length_cons]; omega)

theorem length_pushData_le (hb : b.length ≤ 0xffff) : (pushData b).length ≤ b.length + 3 := by
  unfold pushData
  split
  · simp only [List.length_cons]; omega
  split
  · simp only [List.length_cons]; omega
  · simp only [List.length_cons]; omega

theorem isPushOnlyFrom_pushAll (h : ∀ v ∈ vs, v.length ≤ 0xffff) : ∀ fuel, (pushAll vs).length ≤ fuel →
    isPushOnlyFrom fuel (pushAll vs) = true := by
  induction vs with
  | nil =>
    intro fuel _
    exact isPushOnlyFrom.eq_1 fuel
  | cons v vs ih =>
    intro fuel hfuel
    obtain ⟨opcode, hle, -, hop⟩ := getOp_push (h v List.mem_cons_self)
    have hop' : getOp (pushAll (v :: vs)) = some ⟨opcode, v, pushAll vs⟩ := hop (pushAll vs)
    have hshrinks := getOp_shrinks hop'
    cases fuel with
    | zero => omega
    | succ fuel =>
      rw [isPushOnlyFrom.eq_def]
      split
      · rfl
      · rename_i heq _; cases heq
      · rename_i heq _
        cases heq
        rw [hop']
        dsimp only
        rw [if_neg (fun h16 : opcode > OP_16 => absurd (UInt8.lt_of_lt_of_le h16 hle) (by decide))]
        exact ih (fun w hw => h w (List.mem_cons_of_mem _ hw)) fuel (by dsimp only at hshrinks; omega)

theorem isPushOnly_pushAll (h : ∀ v ∈ vs, v.length ≤ 0xffff) : isPushOnly (pushAll vs) = true :=
  isPushOnlyFrom_pushAll h _ le_rfl

theorem length_pushAll_le {k : Nat} (h : ∀ v ∈ vs, v.length ≤ k) (hk : k ≤ 0xffff) :
    (pushAll vs).length ≤ vs.length * (k + 3) := by
  induction vs with
  | nil => exact Nat.zero_le _
  | cons v vs ih =>
    have hv := h v List.mem_cons_self
    have hpush := length_pushData_le (Nat.le_trans hv hk)
    have hrest := ih fun w hw => h w (List.mem_cons_of_mem _ hw)
    unfold pushAll at hrest ⊢
    rw [List.flatMap_cons, List.length_append, List.length_cons, Nat.succ_mul]
    omega

/-- So does `EvalScript`, of a script that is not too long. -/
theorem evalScript_pushAll (h520 : ∀ v ∈ vs, v.length ≤ 520) (hsize : st.length + vs.length ≤ 1000)
    (hlen : (pushAll vs).length ≤ 10000) :
    (evalScript C X st (pushAll vs)).result = some (vs.reverse ++ st) := by
  rw [evalScript_ends hlen (ends_pushAll h520 hsize)]
  rfl

theorem length_decodes_le {ops : List Instruction} (h : Decodes script ops) {k : Nat}
    (hk : ∀ instr ∈ ops, instr.data.length ≤ k) : script.length ≤ ops.length * (k + 5) := by
  induction h with
  | nil => exact Nat.zero_le _
  | cons hop _ ih =>
    have hlen := (getOp_suffix hop).2
    have hdata := hk _ List.mem_cons_self
    have hrest := ih fun instr hmem => hk instr (List.mem_cons_of_mem _ hmem)
    rw [List.length_cons, Nat.succ_mul]
    dsimp only at hdata
    omega

/-- What is not pushed is not found at any instruction, and nothing is deleted. -/
theorem findAndDelete_of_not_pushed {ops : List Instruction} (hb : b.length ≤ 0xffff)
    (hdec : Decodes script ops) (h : ∀ instr ∈ ops, instr.data = b → b = [] ∧ instr.opcode ≠ OP_0) :
    findAndDelete (pushData b) script = script := by
  obtain ⟨opcode, -, hzero, hpush⟩ := getOp_push hb
  have hfrom : ∀ fuel, findAndDeleteFrom (pushData b) fuel script = script := by
    induction hdec with
    | nil =>
      intro fuel
      cases fuel with
      | zero => rfl
      | succ fuel =>
        unfold findAndDeleteFrom
        split
        · rename_i hpre
          obtain ⟨rest, hrest⟩ := List.isPrefixOf_iff_prefix.mp hpre
          have := hpush rest
          rw [hrest] at this
          cases this
        · rfl
    | @cons script op ops hop hops ih =>
      intro fuel
      cases fuel with
      | zero => rfl
      | succ fuel =>
        have ih := ih (fun instr hmem => h instr (List.mem_cons_of_mem _ hmem)) fuel
        unfold findAndDeleteFrom
        split
        · -- it stands here: then this instruction pushes it
          rename_i hpre
          obtain ⟨rest, hrest⟩ := List.isPrefixOf_iff_prefix.mp hpre
          have hfirst := hpush rest
          rw [hrest, hop] at hfirst
          cases hfirst
          obtain ⟨hnil, hne⟩ := h _ List.mem_cons_self rfl
          exact absurd (hzero hnil) hne
        · rw [hop]
          dsimp only
          rw [ih]
          obtain ⟨pre, hpre⟩ := (getOp_suffix hop).1
          rw [← hpre, List.length_append, Nat.add_sub_cancel, List.take_left' rfl]
  unfold findAndDelete
  split
  · rfl
  · exact hfrom _

end Pushes

/-! ## The four shapes -/

section Shapes

variable {C : Crypto} {X : ScriptContext} {script : CScript} {st : List Valtype}

/-- An instruction that carries data is a push. -/
theorem opcode_le_of_data {op : ScriptOp} (h : getOp script = some op) (hdata : op.data ≠ []) :
    op.opcode ≤ OP_PUSHDATA4 := by
  by_contra hop
  exact hdata (getOp_data h hop)

theorem ne_nil_of_length {v : Valtype} {k : Nat} (hk : 0 < k) (h : k ≤ v.length) : v ≠ [] := by
  rintro rfl
  exact absurd (lt_of_lt_of_le hk h) (lt_irrefl 0)

theorem run_pubkey {push : UInt8} {key vchSig : Valtype}
    (hdec : Decodes script [⟨push, key⟩, ⟨OP_CHECKSIG, []⟩]) (hkey : 33 ≤ key.length ∧ key.length ≤ 120)
    (hsize : st.length < 900) : (evalScript C X (vchSig :: st) script).result =
      some (vchBool (signs C X (findAndDelete (pushData vchSig) script) vchSig key) :: st) := by
  have hlen : script.length ≤ 2 * (120 + 5) := length_decodes_le hdec (by simp [hkey.2])
  obtain ⟨pubKey, h₁, ⟨-, hdata₁⟩, hdec₁⟩ := Decodes.cons_iff.mp hdec
  obtain ⟨checkSig, h₂, ⟨hop₂, hdata₂⟩, hdec₂⟩ := Decodes.cons_iff.mp hdec₁
  dsimp only at hdata₁ hop₂ hdata₂
  subst hdata₁
  have hpush := opcode_le_of_data h₁ (ne_nil_of_length (by decide) hkey.1)
  have hend := Decodes.nil_iff.mp hdec₂
  rw [evalScript_ends (by omega) (Ends.cons h₁ (evalInstruction_push hpush (by omega)
    (by rw [List.length_cons]; omega)) (Ends.cons h₂ (evalInstruction_checkSig hop₂ hdata₂ (by decide)
    (by omega)) (hend ▸ Ends.nil)))]
  rfl

theorem run_pubkeyhash {push : UInt8} {hash vchPubKey vchSig : Valtype}
    (hdec : Decodes script
      [⟨OP_DUP, []⟩, ⟨OP_HASH160, []⟩, ⟨push, hash⟩, ⟨OP_EQUALVERIFY, []⟩, ⟨OP_CHECKSIG, []⟩])
    (hlen : hash.length = 20) (hhash : C.hash160 vchPubKey = hash) (hsize : st.length < 900) :
    (evalScript C X (vchPubKey :: vchSig :: st) script).result =
      some (vchBool (signs C X (findAndDelete (pushData vchSig) script) vchSig vchPubKey) :: st) := by
  have hscript : script.length ≤ 5 * (20 + 5) := length_decodes_le hdec (by simp [hlen])
  obtain ⟨dup, h₁, ⟨hop₁, hdata₁⟩, hdec₁⟩ := Decodes.cons_iff.mp hdec
  obtain ⟨hash160, h₂, ⟨hop₂, hdata₂⟩, hdec₂⟩ := Decodes.cons_iff.mp hdec₁
  obtain ⟨pushHash, h₃, ⟨-, hdata₃⟩, hdec₃⟩ := Decodes.cons_iff.mp hdec₂
  obtain ⟨equalVerify, h₄, ⟨hop₄, hdata₄⟩, hdec₄⟩ := Decodes.cons_iff.mp hdec₃
  obtain ⟨checkSig, h₅, ⟨hop₅, hdata₅⟩, hdec₅⟩ := Decodes.cons_iff.mp hdec₄
  dsimp only at hop₁ hop₂ hop₄ hop₅ hdata₁ hdata₂ hdata₃ hdata₄ hdata₅
  have hpush := opcode_le_of_data h₃ (hdata₃ ▸ ne_nil_of_length (by decide) hlen.ge)
  have hend := Decodes.nil_iff.mp hdec₅
  have hsize₁ : (vchSig :: st).length < 999 := by rw [List.length_cons]; omega
  have hsize₂ : (vchPubKey :: vchSig :: st).length < 999 := by simp only [List.length_cons]; omega
  have hsize₃ : (C.hash160 vchPubKey :: vchPubKey :: vchSig :: st).length < 1000 := by
    simp only [List.length_cons]; omega
  have hverify := @evalInstruction_equalVerify C X equalVerify (vchPubKey :: vchSig :: st) 2 script hash hop₄
    hdata₄ (by decide) (by omega)
  have hpushed := @evalInstruction_push C X pushHash _ 2 script hpush (by rw [hdata₃]; omega) hsize₃
  rw [hdata₃, hhash] at hpushed
  rw [evalScript_ends (by omega)
    (Ends.cons h₁ (evalInstruction_dup hop₁ hdata₁ (by decide) hsize₁)
    (Ends.cons h₂ (evalInstruction_hash160 hop₂ hdata₂ (by decide) (by omega))
    (Ends.cons h₃ (hhash.symm ▸ hpushed)
    (Ends.cons h₄ hverify
    (Ends.cons h₅ (evalInstruction_checkSig hop₅ hdata₅ (by decide) (by omega)) (hend ▸ Ends.nil))))))]
  rfl

theorem run_scripthash {hash x : Valtype}
    (hdec : Decodes script [⟨OP_HASH160, []⟩, ⟨0x14, hash⟩, ⟨OP_EQUAL, []⟩]) (hlen : hash.length = 20)
    (hsize : st.length < 900) : (evalScript C X (x :: st) script).result =
      some (vchBool (C.hash160 x = hash) :: st) := by
  have hscript : script.length ≤ 3 * (20 + 5) := length_decodes_le hdec (by simp [hlen])
  obtain ⟨hash160, h₁, ⟨hop₁, hdata₁⟩, hdec₁⟩ := Decodes.cons_iff.mp hdec
  obtain ⟨pushHash, h₂, ⟨-, hdata₂⟩, hdec₂⟩ := Decodes.cons_iff.mp hdec₁
  obtain ⟨equal, h₃, ⟨hop₃, hdata₃⟩, hdec₃⟩ := Decodes.cons_iff.mp hdec₂
  dsimp only at hop₁ hop₃ hdata₁ hdata₂ hdata₃
  have hpush := opcode_le_of_data h₂ (hdata₂ ▸ ne_nil_of_length (by decide) hlen.ge)
  have hend := Decodes.nil_iff.mp hdec₃
  have hsize₁ : (C.hash160 x :: st).length < 1000 := by rw [List.length_cons]; omega
  have hpushed := @evalInstruction_push C X pushHash _ 1 script hpush (by rw [hdata₂]; omega) hsize₁
  rw [hdata₂] at hpushed
  rw [evalScript_ends (by omega)
    (Ends.cons h₁ (evalInstruction_hash160 hop₁ hdata₁ (by decide) (by omega))
    (Ends.cons h₂ hpushed
    (Ends.cons h₃ (evalInstruction_equal hop₃ hdata₃ (by decide) (by omega)) (hend ▸ Ends.nil))))]
  rfl

/-- Keys are pushed one after the other. -/
theorem ends_keys {ops : List Instruction} {n : Nat} {code : CScript} {r : Option Machine} :
    ∀ {keys : List Instruction} {script : CScript} {st : List Valtype}, Decodes script (keys ++ ops) →
    (∀ key ∈ keys, 33 ≤ key.data.length ∧ key.data.length ≤ 120) → st.length + keys.length ≤ 1000 →
    (∀ {rest}, Decodes rest ops →
      Ends C X rest ⟨(keys.map Instruction.data).reverse ++ st, [], [], n, code⟩ r) →
    Ends C X script ⟨st, [], [], n, code⟩ r
  | [], _, _, hdec, _, _, h => h hdec
  | key :: keys, script, st, hdec, hkeys, hsize, h => by
    obtain ⟨op, hop, ⟨-, hdata⟩, hdec₁⟩ := Decodes.cons_iff.mp hdec
    have hkey := hkeys key List.mem_cons_self
    rw [List.length_cons] at hsize
    have hpush := opcode_le_of_data hop (hdata ▸ ne_nil_of_length (by decide) hkey.1)
    refine Ends.cons hop (evalInstruction_push hpush (by rw [hdata]; omega) (by omega)) ?_
    refine ends_keys hdec₁ (fun k hk => hkeys k (List.mem_cons_of_mem _ hk))
      (by rw [List.length_cons]; omega) fun hrest => ?_
    have := h hrest
    rw [List.map_cons, List.reverse_cons, List.append_assoc] at this
    rw [hdata]
    exact this

theorem length_multisig_le {first count check : UInt8} {keys : List Instruction}
    (hdec : Decodes script (⟨first, []⟩ :: (keys ++ [⟨count, []⟩, ⟨check, []⟩])))
    (hkeys : ∀ key ∈ keys, 33 ≤ key.data.length ∧ key.data.length ≤ 120) :
    script.length ≤ (keys.length + 3) * (120 + 5) := by
  refine le_trans (length_decodes_le hdec (k := 120) fun instr hmem => ?_) ?_
  · simp only [List.mem_cons, List.mem_append, List.not_mem_nil, or_false] at hmem
    rcases hmem with rfl | hmem | rfl | rfl
    · exact Nat.zero_le _
    · exact (hkeys _ hmem).2
    · exact Nat.zero_le _
    · exact Nat.zero_le _
  · rw [List.length_cons, List.length_append]
    exact le_rfl

/-- `sigs` in the order they were pushed, behind the item too many. -/
theorem run_multisig {m n : Nat} {keys : List Instruction} {sigs : List Valtype} {dummy : Valtype}
    (hdec : Decodes script
      (⟨encodeOP_N m, []⟩ :: (keys ++ [⟨encodeOP_N n, []⟩, ⟨OP_CHECKMULTISIG, []⟩])))
    (hkeys : ∀ key ∈ keys, 33 ≤ key.data.length ∧ key.data.length ≤ 120) (hm : 1 ≤ m) (hmn : m ≤ n)
    (hn : n = keys.length) (h16 : n ≤ 16) (hsigs : sigs.length = m) (hsize : st.length < 900) :
    (evalScript C X (sigs.reverse ++ dummy :: st) script).result =
      some (vchBool (greedy (signs C X (sigs.reverse.foldl
          (fun code vchSig => findAndDelete (pushData vchSig) code) script))
        (keys.map Instruction.data).reverse sigs.reverse) :: st) := by
  have hscript := length_multisig_le hdec hkeys
  obtain ⟨required, h₁, ⟨hop₁, hdata₁⟩, hdec₁⟩ := Decodes.cons_iff.mp hdec
  dsimp only at hop₁ hdata₁
  have hstack : (sigs.reverse ++ dummy :: st).length = m + 1 + st.length := by
    rw [List.length_append, List.length_reverse, List.length_cons]
    omega
  have hend : Ends C X script ⟨sigs.reverse ++ dummy :: st, [], [], 0, script⟩
      (some ⟨vchBool (greedy (signs C X (sigs.reverse.foldl
          (fun code vchSig => findAndDelete (pushData vchSig) code) script))
        (keys.map Instruction.data).reverse sigs.reverse) :: st, [], [], 0 + 1 + keys.length, script⟩) := by
    refine Ends.cons h₁ (evalInstruction_number hop₁ hdata₁ hm (by omega) (by omega)) ?_
    refine ends_keys hdec₁ hkeys (by rw [List.length_cons]; omega) fun {rest} hdec₂ => ?_
    obtain ⟨count, h₂, ⟨hop₂, hdata₂⟩, hdec₃⟩ := Decodes.cons_iff.mp hdec₂
    obtain ⟨check, h₃, ⟨hop₃, hdata₃⟩, hdec₄⟩ := Decodes.cons_iff.mp hdec₃
    dsimp only at hop₂ hdata₂ hop₃ hdata₃
    refine Ends.cons h₂ (evalInstruction_number hop₂ hdata₂ (by omega) h16 ?_) ?_
    · rw [List.length_append, List.length_cons, List.length_reverse, List.length_map]
      omega
    · have hcheck := @evalInstruction_checkMultiSig C X check st 0 script
        (keys.map Instruction.data).reverse sigs.reverse dummy hop₃ hdata₃
        (by rw [List.length_reverse, List.length_map]; omega)
        (by rw [List.length_reverse, List.length_reverse, List.length_map]; omega)
        (by rw [List.length_reverse, List.length_map]; omega) (by omega)
      rw [List.length_reverse, List.length_reverse, List.length_map, hsigs, ← hn] at hcheck
      rw [← hn]
      refine Ends.cons h₃ hcheck ?_
      rw [Decodes.nil_iff.mp hdec₄]
      exact Ends.nil
  rw [evalScript_ends (by omega) hend]
  rfl

/-- The signatures are matched with the keys in their order, if none of them is pushed by the script. -/
theorem run_multisig_iff {m n : Nat} {keys : List Instruction} {sigs : List Valtype} {dummy : Valtype}
    (hdec : Decodes script
      (⟨encodeOP_N m, []⟩ :: (keys ++ [⟨encodeOP_N n, []⟩, ⟨OP_CHECKMULTISIG, []⟩])))
    (hkeys : ∀ key ∈ keys, 33 ≤ key.data.length ∧ key.data.length ≤ 120) (hm : 1 ≤ m) (hmn : m ≤ n)
    (hn : n = keys.length) (h16 : n ≤ 16) (hsigs : sigs.length = m) (hsize : st.length < 900)
    (hshort : ∀ vchSig ∈ sigs, vchSig.length ≤ 0xffff)
    (hnot : ∀ vchSig ∈ sigs, vchSig ∉ keys.map Instruction.data) :
    ∃ fSuccess : Bool, (evalScript C X (sigs.reverse ++ dummy :: st) script).result =
        some (vchBool fSuccess :: st) ∧
      (fSuccess = true ↔ List.SublistForall₂ (fun vchSig key => signs C X script vchSig key = true) sigs
        (keys.map Instruction.data)) := by
  have hcode : ∀ l : List Valtype, (∀ vchSig ∈ l, vchSig ∈ sigs) →
      l.foldl (fun code vchSig => findAndDelete (pushData vchSig) code) script = script := by
    intro l hl
    induction l with
    | nil => rfl
    | cons vchSig l ih =>
      have hmem := hl vchSig List.mem_cons_self
      rw [List.foldl_cons, findAndDelete_of_not_pushed (hshort _ hmem) hdec]
      · exact ih fun v hv => hl v (List.mem_cons_of_mem _ hv)
      · -- the numbers and the check carry no data, and are not `OP_0`
        intro instr hinstr hdata
        have hne : ∀ k ≤ 16, 1 ≤ k → encodeOP_N k ≠ OP_0 := by decide
        simp only [List.mem_cons, List.mem_append, List.not_mem_nil, or_false] at hinstr
        rcases hinstr with rfl | hinstr | rfl | rfl
        · exact ⟨hdata.symm, hne m (by omega) hm⟩
        · exact absurd (List.mem_map.mpr ⟨instr, hinstr, hdata⟩) (hnot _ hmem)
        · exact ⟨hdata.symm, hne n h16 (by omega)⟩
        · exact ⟨hdata.symm, by decide⟩
  refine ⟨_, run_multisig hdec hkeys hm hmn hn h16 hsigs hsize, ?_⟩
  rw [hcode _ fun v hv => List.mem_reverse.mp hv, greedy_iff, sublistForall₂_reverse_iff]

end Shapes

/-! ## `VerifyScript` -/

section Verify

variable {C : Crypto} {X : ScriptContext} {scriptSig scriptPubKey redeem : CScript}
  {st stack items : List Valtype}
  {fSuccess : Bool}

theorem topIsTrue_vchBool : topIsTrue (vchBool fSuccess :: st) = fSuccess := by
  cases fSuccess <;> rfl

/-- A script that fails is no signature. -/
theorem verify_none (h : (evalScript C X [] scriptSig).result = none) :
    (verifyScript C X scriptSig scriptPubKey).verdict = false := by
  unfold verifyScript
  dsimp only
  rw [h]

/-- The verdict of a script that is no script hash. -/
theorem verify_bare (hsig : (evalScript C X [] scriptSig).result = some stack)
    (hp2sh : ¬ isPayToScriptHash scriptPubKey = true)
    (hrun : (evalScript C X stack scriptPubKey).result = some (vchBool fSuccess :: st)) :
    (verifyScript C X scriptSig scriptPubKey).verdict = fSuccess := by
  unfold verifyScript
  dsimp only
  rw [hsig]
  dsimp only
  rw [hrun]
  dsimp only
  rw [topIsTrue_vchBool]
  cases fSuccess with
  | false => rfl
  | true => rw [if_neg (by simp), if_neg hp2sh]

/-- The verdict of a script hash is that of the script behind it. -/
theorem verify_scripthash {hash : Valtype} (hsig : (evalScript C X [] scriptSig).result = some (redeem :: stack))
    (hdec : Decodes scriptPubKey [⟨OP_HASH160, []⟩, ⟨0x14, hash⟩, ⟨OP_EQUAL, []⟩]) (hlen : hash.length = 20)
    (hhash : C.hash160 redeem = hash) (hsize : stack.length < 900) (hpush : isPushOnly scriptSig = true)
    (hrun : (evalScript C X stack redeem).result = some (vchBool fSuccess :: st)) :
    (verifyScript C X scriptSig scriptPubKey).verdict = fSuccess := by
  have hp2sh := (isPayToScriptHash_iff.mpr ⟨hlen, hdec⟩).1
  have hfirst : (evalScript C X (redeem :: stack) scriptPubKey).result = some (vchBool true :: stack) := by
    rw [run_scripthash hdec hlen hsize, decide_eq_true hhash]
  unfold verifyScript
  dsimp only
  rw [hsig]
  dsimp only
  rw [hfirst]
  dsimp only
  rw [topIsTrue_vchBool, if_neg (by simp), if_pos hp2sh, if_neg (by rw [hpush]; simp), hrun]
  exact @topIsTrue_vchBool st fSuccess

/-- The script is pushed after the items that are for it. -/
theorem pushAll_concat : pushAll items ++ pushData redeem = pushAll (items ++ [redeem]) := by
  simp [pushAll]

/-- So the script behind the hash sees the items that were pushed, if it can be pushed itself. -/
theorem verify_scripthash_pushed {hash : Valtype} (hshort : ∀ v ∈ items, v.length ≤ 520)
    (hcount : items.length < 900) (h520 : redeem.length ≤ 520)
    (hsize : (pushAll items ++ pushData redeem).length ≤ 10000)
    (hdec : Decodes scriptPubKey [⟨OP_HASH160, []⟩, ⟨0x14, hash⟩, ⟨OP_EQUAL, []⟩]) (hlen : hash.length = 20)
    (hhash : C.hash160 redeem = hash)
    (hrun : (evalScript C X items.reverse redeem).result = some (vchBool fSuccess :: st)) :
    (verifyScript C X (pushAll items ++ pushData redeem) scriptPubKey).verdict = fSuccess := by
  have hall : ∀ v ∈ items ++ [redeem], v.length ≤ 520 := by
    intro v hv
    rcases List.mem_append.mp hv with hv | hv
    · exact hshort v hv
    · rw [List.mem_singleton.mp hv]
      exact h520
  rw [pushAll_concat] at hsize ⊢
  have hsig : (evalScript C X [] (pushAll (items ++ [redeem]))).result = some (redeem :: items.reverse) := by
    rw [evalScript_pushAll hall (by rw [List.length_nil, List.length_append, List.length_singleton]; omega)
      hsize, List.reverse_append, List.append_nil]
    rfl
  exact verify_scripthash hsig hdec hlen hhash (by rw [List.length_reverse]; exact hcount)
    (isPushOnly_pushAll fun v hv => Nat.le_trans (hall v hv) (by decide)) hrun

/-- And a script of more than 520 bytes cannot: whatever it says, and whoever signs. -/
theorem verify_scripthash_large (hshort : ∀ v ∈ items, v.length ≤ 520) (hcount : items.length < 900)
    (h520 : 520 < redeem.length) (hredeem : redeem.length ≤ 0xffff)
    (hsize : (pushAll items ++ pushData redeem).length ≤ 10000) :
    (verifyScript C X (pushAll items ++ pushData redeem) scriptPubKey).verdict = false := by
  refine verify_none ?_
  have hends := @ends_pushAll_large C X [] items redeem hshort h520 hredeem
    (by rw [List.length_nil]; omega) 0 (pushAll items ++ pushData redeem) []
  rw [List.append_nil] at hends
  rw [evalScript_ends hsize hends]
  rfl

end Verify

end Standard

end Silkcoin
