/-
  WHAT THE SIGNATURE-OPERATION COUNT IS WORTH.

  Block validation bounds the work of a block by counting signature operations in its scripts, on
  the bytes and before anything runs.  This file shows that the count is an upper bound of what it
  stands for, the calls of `CheckSig` when the script does run (`checkSigs_le_getSigOpCount`).

  The counter and the interpreter walk the same instructions, but only the interpreter has a stack,
  and an `OP_CHECKMULTISIG` checks up to as many signatures as the number on top of it says.  The
  counter guesses that number from the opcode before.  The guess is right because of what a small
  integer leaves behind (`PushedConst`): if the branch is being executed, its value is on top, and if
  the branch is not being executed, neither is the `OP_CHECKMULTISIG` that follows.  Without a small
  integer in front the counter charges 20, more than which the interpreter refuses.

  For pay-to-script-hash the count is taken of the last item the input script pushes, and that item
  is the script the interpreter runs at the end, except after a number opcode, where the counter sees
  no item; what such an opcode leaves on the stack is no script that checks anything
  (`Redeems`).
-/
import Silkcoin.Interpreter
import Mathlib.Tactic.IntervalCases

namespace Silkcoin

variable (C : Crypto) (X : ScriptContext)

/-! ## The accurate count is the smaller one -/

theorem decodeOP_N_le {opcode : UInt8} (h1 : OP_1 ≤ opcode) (h16 : opcode ≤ OP_16) :
    1 ≤ decodeOP_N opcode ∧ decodeOP_N opcode ≤ 16 := by
  have h1 : 81 ≤ opcode.toNat := UInt8.le_iff_toNat_le.mp h1
  have h16 : opcode.toNat ≤ 96 := UInt8.le_iff_toNat_le.mp h16
  have hOP1 : OP_1.toNat = 81 := rfl
  have hne : opcode ≠ OP_0 := by
    rintro rfl
    have : OP_0.toNat = 0 := rfl
    omega
  rw [decodeOP_N, if_neg hne]
  omega

theorem sigOpsOf_accurate_le (lastOpcode opcode : UInt8) :
    sigOpsOf true lastOpcode opcode ≤ sigOpsOf false lastOpcode opcode := by
  rw [sigOpsOf, sigOpsOf]
  split
  · exact le_rfl
  · split
    · rw [if_neg (show ¬ (false = true ∧ _) from fun h => Bool.noConfusion h.1)]
      split
      · rename_i h
        have := decodeOP_N_le h.2.1 h.2.2
        omega
      · exact le_rfl
    · exact le_rfl

theorem sigOpsFrom_accurate_le (fuel : Nat) (script : CScript) (lastOpcode : UInt8) :
    sigOpsFrom true fuel script lastOpcode ≤ sigOpsFrom false fuel script lastOpcode := by
  induction fuel generalizing script lastOpcode with
  | zero => exact le_rfl
  | succ fuel ih =>
    rw [sigOpsFrom, sigOpsFrom]
    split
    · exact le_rfl
    · rename_i op _
      have hop := sigOpsOf_accurate_le lastOpcode op.opcode
      have hrest := ih op.rest op.opcode
      omega

theorem getSigOpCount_accurate_le (script : CScript) :
    getSigOpCount true script ≤ getSigOpCount false script :=
  sigOpsFrom_accurate_le _ _ _

/-! ## What one opcode costs -/

theorem checkOne_le (scriptCode : CScript) (vchSig vchPubKey : Valtype) :
    (checkOne C X scriptCode vchSig vchPubKey).checkSigs ≤ 1 := by
  rw [checkOne]
  split
  · exact le_rfl
  · exact Nat.zero_le _

theorem checkSigOp_le (verify : Bool) (m : Machine) :
    (checkSigOp C X verify m).checkSigs ≤ 1 := by
  rw [checkSigOp]
  split
  · exact Run.bind_checkSigs_le (checkOne_le C X _ _ _) (n := 0) fun _ _ => le_rfl
  · exact Nat.zero_le _

/-- Every check uses up a key. -/
theorem multiSigLoop_le (scriptCode : CScript) (keys sigs : List Valtype) :
    (multiSigLoop C X scriptCode keys sigs).checkSigs ≤ keys.length := by
  induction keys generalizing sigs with
  | nil =>
    cases sigs <;> exact Nat.zero_le _
  | cons vchPubKey keys ih =>
    cases sigs with
    | nil => exact Nat.zero_le _
    | cons vchSig sigs =>
      rw [multiSigLoop, List.length_cons, Nat.add_comm]
      refine Run.bind_checkSigs_le (checkOne_le C X _ _ _) fun fOk _ => ?_
      dsimp only
      generalize (if fOk = true then sigs else vchSig :: sigs) = left
      split
      · exact Nat.zero_le _
      · exact ih left

/-- A multisignature opcode costs at most the number of keys, which is on top of the stack and at
    most 20. -/
theorem checkMultiSigOp_le (verify : Bool) (m : Machine) (n : Nat)
    (hn : ∀ vch stack bn, m.stack = vch :: stack → castToBigNum vch = some bn →
      getint bn ≤ 20 → (getint bn).toNat ≤ n) :
    (checkMultiSigOp C X verify m).checkSigs ≤ n := by
  rw [checkMultiSigOp]
  split
  · exact Nat.zero_le _
  rename_i vchKeys stack hstack
  rw [← Nat.zero_add n]
  refine Run.bind_checkSigs_le le_rfl fun bnKeys hkeys => ?_
  dsimp only
  split
  · exact Nat.zero_le _
  rename_i hrange
  have hk := hn vchKeys stack bnKeys hstack hkeys (by omega)
  split
  · exact Nat.zero_le _
  split
  · exact Nat.zero_le _
  rename_i vchSigs below _
  rw [← Nat.zero_add n]
  refine Run.bind_checkSigs_le le_rfl fun bnSigs _ => ?_
  split
  · exact Nat.zero_le _
  split
  · exact Nat.zero_le _
  -- the keys tried are the ones announced
  refine Run.bind_checkSigs_le (k := n) (n := 0) ?_ fun _ _ => le_rfl
  refine le_trans (multiSigLoop_le C X _ _ _) ?_
  rw [List.length_take]
  omega

/-! ## A small integer is on top of the stack -/

/-- The number `OP_1` to `OP_16` pushes. -/
theorem smallInt_pushed {opcode : UInt8} (h1 : OP_1 ≤ opcode) (h16 : opcode ≤ OP_16) :
    (opcode.toNat : Int) - (OP_1.toNat - 1) = decodeOP_N opcode := by
  have hle : 81 ≤ opcode.toNat := UInt8.le_iff_toNat_le.mp h1
  have hOP1 : OP_1.toNat = 81 := rfl
  have hne : opcode ≠ OP_0 := by
    rintro rfl
    have : OP_0.toNat = 0 := rfl
    omega
  rw [decodeOP_N, if_neg hne, hOP1]
  omega

/-- Small numbers are read back from the stack as they were pushed. -/
theorem castToBigNum_getvch {n : Nat} (hn : n ≤ 16) :
    castToBigNum (getvch n) = some (n : Int) ∧ getint n = n := by
  interval_cases n <;> decide

/-- After a small integer opcode: if the branch is executed, the number is on top. -/
def PushedConst (lastOpcode : UInt8) (m : Machine) : Prop :=
  OP_1 ≤ lastOpcode → lastOpcode ≤ OP_16 → m.fExec = true →
    ∃ stack, m.stack = getvch (decodeOP_N lastOpcode) :: stack

theorem Machine.countOp_fExec (opcode : UInt8) (m : Machine) :
    (m.countOp opcode).fExec = m.fExec := by
  rw [countOp]
  split <;> rfl

theorem Machine.countOp_stack (opcode : UInt8) (m : Machine) :
    (m.countOp opcode).stack = m.stack := by
  rw [countOp]
  split <;> rfl

/-- A small integer opcode pushes its number, or passes by and leaves the branch not taken. -/
theorem execute_pushed {op : ScriptOp} {m m' : Machine}
    (h : (execute C X op m).result = some m') : PushedConst op.opcode m' := by
  intro h1 h16 hexec
  have ht1 : 81 ≤ op.opcode.toNat := UInt8.le_iff_toNat_le.mp h1
  have ht16 : op.opcode.toNat ≤ 96 := UInt8.le_iff_toNat_le.mp h16
  have hdata : ¬ op.opcode ≤ OP_PUSHDATA4 := fun hle => by
    have : op.opcode.toNat ≤ 78 := UInt8.le_iff_toNat_le.mp hle
    omega
  have hif : ¬ (OP_IF ≤ op.opcode ∧ op.opcode ≤ OP_ENDIF) := fun hle => by
    have : 99 ≤ op.opcode.toNat := UInt8.le_iff_toNat_le.mp hle.1
    omega
  have hne : ∀ {opcode : UInt8}, 96 < opcode.toNat → op.opcode ≠ opcode := by
    intro opcode hlt heq
    rw [← heq] at hlt
    omega
  rw [execute, if_neg (fun hx => hdata hx.2)] at h
  by_cases hm : m.fExec = true
  · rw [if_pos (Or.inl hm), evalOp, if_neg, if_neg, plainOp, if_pos (Or.inr ⟨h1, h16⟩),
      smallInt_pushed h1 h16] at h
    · obtain rfl := Option.some.inj h
      exact ⟨_, rfl⟩
    · rintro (heq | heq)
      · exact hne (by decide) heq
      · exact hne (by decide) heq
    · rintro (heq | heq)
      · exact hne (by decide) heq
      · exact hne (by decide) heq
  · rw [if_neg (not_or.mpr ⟨hm, hif⟩)] at h
    obtain rfl := Option.some.inj h
    exact absurd hexec hm

theorem evalInstruction_result {op : ScriptOp} {m m' : Machine}
    (h : (evalInstruction C X op m).result = some m') :
    (execute C X op (m.countOp op.opcode)).result = some m' := by
  rw [evalInstruction] at h
  split at h
  · cases h
  split at h
  · cases h
  split at h
  · cases h
  obtain ⟨m1, h1, hlim⟩ := Run.bind_result_eq_some.mp h
  rw [Run.quiet_result] at hlim
  split at hlim
  · cases hlim
  · rw [h1, hlim]

/-- STEP LEMMA, the state: after an instruction its opcode is the last one. -/
theorem evalInstruction_pushed {op : ScriptOp} {m m' : Machine}
    (h : (evalInstruction C X op m).result = some m') : PushedConst op.opcode m' :=
  execute_pushed C X (evalInstruction_result C X h)

theorem evalOp_le {lastOpcode : UInt8} {op : ScriptOp} {m : Machine} (hlast : PushedConst lastOpcode m)
    (hexec : m.fExec = true ∨ (OP_IF ≤ op.opcode ∧ op.opcode ≤ OP_ENDIF)) :
    (evalOp C X op m).checkSigs ≤ sigOpsOf true lastOpcode op.opcode := by
  rw [evalOp, sigOpsOf]
  split
  · exact checkSigOp_le C X _ _
  · split
    · rename_i hmulti
      -- a multisignature opcode is not one of the conditionals, so the branch is executed
      have hx : m.fExec = true := by
        rcases hexec with hx | ⟨-, hle⟩
        · exact hx
        · exfalso
          have hle : op.opcode.toNat ≤ 104 := UInt8.le_iff_toNat_le.mp hle
          rcases hmulti with heq | heq <;> rw [heq] at hle <;> revert hle <;> decide
      refine checkMultiSigOp_le C X _ _ _ fun vch stack bn hstack hbn h20 => ?_
      split
      · rename_i hsmall
        obtain ⟨st, hst⟩ := hlast hsmall.2.1 hsmall.2.2 hx
        rw [hst] at hstack
        obtain ⟨rfl, rfl⟩ := List.cons.inj hstack
        obtain ⟨hread, hint⟩ := castToBigNum_getvch (decodeOP_N_le hsmall.2.1 hsmall.2.2).2
        rw [hread] at hbn
        obtain rfl := Option.some.inj hbn
        rw [hint, Int.toNat_natCast]
      · omega
    · exact Nat.zero_le _

/-- STEP LEMMA, the cost: an instruction checks no more signatures than its opcode counts for. -/
theorem evalInstruction_le {lastOpcode : UInt8} {op : ScriptOp} {m : Machine}
    (hlast : PushedConst lastOpcode m) :
    (evalInstruction C X op m).checkSigs ≤ sigOpsOf true lastOpcode op.opcode := by
  have hlast' : PushedConst lastOpcode (m.countOp op.opcode) := by
    intro h1 h16 hx
    rw [Machine.countOp_fExec] at hx
    rw [Machine.countOp_stack]
    exact hlast h1 h16 hx
  rw [evalInstruction]
  split
  · exact Nat.zero_le _
  split
  · exact Nat.zero_le _
  split
  · exact Nat.zero_le _
  refine Run.bind_checkSigs_le (n := 0) ?_ fun _ _ => le_rfl
  rw [execute]
  split
  · exact Nat.zero_le _
  split
  · rename_i hx
    exact evalOp_le C X hlast' hx
  · exact Nat.zero_le _

/-- RUN LEMMA: what is left of a script checks no more signatures than are counted in it.  A
    truncated instruction stops both walks at the same place. -/
theorem evalFrom_le (fuel : Nat) (script : CScript) (m : Machine) (lastOpcode : UInt8)
    (hlast : PushedConst lastOpcode m) :
    (evalFrom C X fuel script m).checkSigs ≤ sigOpsFrom true fuel script lastOpcode := by
  induction fuel generalizing script m lastOpcode with
  | zero => cases script <;> exact Nat.zero_le _
  | succ fuel ih =>
    cases script with
    | nil => exact Nat.zero_le _
    | cons b script =>
      rw [evalFrom, sigOpsFrom]
      · cases getOp (b :: script) with
        | none => exact Nat.zero_le _
        | some op =>
          refine Run.bind_checkSigs_le (evalInstruction_le C X hlast) fun m' hm' => ?_
          exact ih op.rest m' op.opcode (evalInstruction_pushed C X hm')
      · simp

theorem evalScript_le (stack : List Valtype) (script : CScript) :
    (evalScript C X stack script).checkSigs ≤ getSigOpCount true script := by
  rw [evalScript]
  split
  · exact Nat.zero_le _
  · refine Run.bind_checkSigs_le (n := 0) ?_ fun _ _ => le_rfl
    refine evalFrom_le C X _ _ _ _ fun _ h16 => ?_
    -- no opcode before the first
    exact absurd h16 (by decide)

/-! ## The redeem script -/

/-- `top` is what the counter takes for the redeem script, or, where the counter saw no item, a
    number that checks nothing when it is run. -/
def Redeems (data top : Valtype) : Prop :=
  top = data ∨ (data = [] ∧ getSigOpCount true top = 0)

theorem Redeems.getSigOpCount_le {data top : Valtype} (h : Redeems data top) :
    getSigOpCount true top ≤ getSigOpCount true data := by
  rcases h with rfl | ⟨-, h⟩
  · exact le_rfl
  · omega

/-- The numbers the number opcodes push, run as scripts, count for nothing: a number is read as an
    opcode that pushes more bytes than there are, and minus one as a disabled opcode. -/
theorem getSigOpCount_number {opcode : UInt8}
    (h : opcode = OP_1NEGATE ∨ (OP_1 ≤ opcode ∧ opcode ≤ OP_16)) :
    getSigOpCount true (getvch ((opcode.toNat : Int) - (OP_1.toNat - 1))) = 0 := by
  rcases h with rfl | ⟨h1, h16⟩
  · decide
  · rw [smallInt_pushed h1 h16]
    have hle := (decodeOP_N_le h1 h16).2
    revert hle
    generalize decodeOP_N opcode = n
    intro hle
    interval_cases n <;> decide

theorem takeOperand_opcode {opcode : UInt8} {nSize : Nat} {pc : CScript} {op : ScriptOp}
    (h : takeOperand opcode nSize pc = some op) : op.opcode = opcode := by
  rw [takeOperand] at h
  split at h
  · cases h
  · cases h
    rfl

/-- Only the push opcodes carry data. -/
theorem getOp_data {script : CScript} {op : ScriptOp} (h : getOp script = some op)
    (hop : ¬ op.opcode ≤ OP_PUSHDATA4) : op.data = [] := by
  have hpush : ∀ {opcode nSize pc}, opcode ≤ OP_PUSHDATA4 →
      takeOperand opcode nSize pc = some op → op.data = [] := by
    intro opcode nSize pc hle htake
    rw [takeOperand_opcode htake] at hop
    exact absurd hle hop
  unfold getOp at h
  split at h
  · cases h
  · split at h
    · rename_i hle
      split at h
      · exact hpush hle h
      · split at h
        · split at h
          · exact hpush hle h
          · cases h
        · split at h
          · split at h
            · exact hpush hle h
            · cases h
          · split at h
            · exact hpush hle h
            · cases h
    · cases h
      rfl

/-- A push opcode, executed at top level, leaves its item on top, or a number. -/
theorem evalInstruction_redeems {script : CScript} {op : ScriptOp} {m m' : Machine}
    (hget : getOp script = some op) (hpush : ¬ op.opcode > OP_16) (hcond : m.vfExec = [])
    (h : (evalInstruction C X op m).result = some m') :
    m'.vfExec = [] ∧ ∃ top stack, m'.stack = top :: stack ∧ Redeems op.data top := by
  have hexec : m.fExec = true := by
    rw [Machine.fExec, hcond]
    rfl
  have h := evalInstruction_result C X h
  have hcount : m.countOp op.opcode = m := if_neg hpush
  have ht : op.opcode.toNat ≤ 96 := UInt8.le_iff_toNat_le.mp (UInt8.not_lt.mp hpush)
  have hne : ∀ {opcode : UInt8}, 96 < opcode.toNat → op.opcode ≠ opcode := by
    intro opcode hlt heq
    rw [← heq] at hlt
    omega
  rw [hcount, execute] at h
  by_cases hdata : op.opcode ≤ OP_PUSHDATA4
  · rw [if_pos ⟨hexec, hdata⟩] at h
    obtain rfl := Option.some.inj h
    exact ⟨hcond, _, _, rfl, Or.inl rfl⟩
  · rw [if_neg (fun hx => hdata hx.2), if_pos (Or.inl hexec), evalOp, if_neg, if_neg, plainOp] at h
    · by_cases hnum : op.opcode = OP_1NEGATE ∨ (OP_1 ≤ op.opcode ∧ op.opcode ≤ OP_16)
      · rw [if_pos hnum] at h
        obtain rfl := Option.some.inj h
        exact ⟨hcond, _, _, rfl, Or.inr ⟨getOp_data hget hdata, getSigOpCount_number hnum⟩⟩
      · -- what is left below `OP_16` is reserved, and fails
        exfalso
        have hres : op.opcode = 0x50 := by
          rw [not_or, not_and] at hnum
          have h78 : ¬ op.opcode.toNat ≤ 78 := fun hle => hdata (UInt8.le_iff_toNat_le.mpr hle)
          have h79 : op.opcode.toNat ≠ 79 := fun heq => hnum.1 (UInt8.toNat_inj.mp heq)
          have h81 : ¬ 81 ≤ op.opcode.toNat := fun hle =>
            hnum.2 (UInt8.le_iff_toNat_le.mpr hle) (UInt8.not_lt.mp hpush)
          refine UInt8.toNat_inj.mp ?_
          show op.opcode.toNat = 80
          omega
        rw [hres, if_neg (by decide), if_neg (by decide), if_neg (by decide), if_neg (by decide),
          if_neg (by decide), if_neg (by decide), if_neg (by decide)] at h
        cases h
    · rintro (heq | heq)
      · exact hne (by decide) heq
      · exact hne (by decide) heq
    · rintro (heq | heq)
      · exact hne (by decide) heq
      · exact hne (by decide) heq

/-- A push-only script that runs to its end leaves the counter's redeem script on top, if it left
    anything that was not there before. -/
theorem evalFrom_redeems (fuel : Nat) (script : CScript) (m m' : Machine) (data : Valtype)
    (hpush : isPushOnlyFrom fuel script = true) (hcond : m.vfExec = [])
    (htop : ∀ top stack, m.stack = top :: stack → Redeems data top)
    (h : (evalFrom C X fuel script m).result = some m') :
    ∃ last, lastPush fuel script data = some last ∧
      ∀ top stack, m'.stack = top :: stack → Redeems last top := by
  induction fuel generalizing script m data with
  | zero =>
    cases script with
    | nil =>
      rw [evalFrom] at h
      obtain rfl := Option.some.inj h
      exact ⟨data, by rw [lastPush], htop⟩
    | cons b script => cases hpush
  | succ fuel ih =>
    cases script with
    | nil =>
      rw [evalFrom] at h
      obtain rfl := Option.some.inj h
      exact ⟨data, by rw [lastPush], htop⟩
    | cons b script =>
      rw [isPushOnlyFrom] at hpush
      · rw [evalFrom] at h
        · rw [lastPush]
          · cases hget : getOp (b :: script) with
            | none =>
              rw [hget] at h
              cases h
            | some op =>
              rw [hget] at h hpush
              dsimp only at h hpush ⊢
              split at hpush
              · cases hpush
              · rename_i hop
                rw [if_neg hop]
                obtain ⟨m1, h1, h2⟩ := Run.bind_result_eq_some.mp h
                obtain ⟨hcond1, top, stack, hstack, hred⟩ :=
                  evalInstruction_redeems C X hget hop hcond h1
                refine ih op.rest m1 op.data hpush hcond1 ?_ h2
                intro top' stack' hstack'
                rw [hstack] at hstack'
                obtain ⟨rfl, -⟩ := List.cons.inj hstack'
                exact hred
          · simp
        · simp
      · simp

theorem evalScript_redeems {scriptSig : CScript} {stack : List Valtype} {top : Valtype}
    (hpush : isPushOnly scriptSig = true)
    (h : (evalScript C X [] scriptSig).result = some (top :: stack)) :
    ∃ last, lastPush scriptSig.length scriptSig [] = some last ∧ Redeems last top := by
  rw [evalScript] at h
  split at h
  · cases h
  obtain ⟨m, hm, hend⟩ := Run.bind_result_eq_some.mp h
  rw [Run.quiet_result] at hend
  split at hend
  · obtain ⟨last, hlast, htop⟩ := evalFrom_redeems C X _ _ _ _ [] hpush rfl
      (fun _ _ hnil => absurd hnil (List.cons_ne_nil _ _).symm) hm
    exact ⟨last, hlast, htop top stack (Option.some.inj hend)⟩
  · cases hend

/-- The redeem script of a pay-to-script-hash output checks no more signatures than the output
    counts for with its input. -/
theorem redeemChecks_le {scriptPubKey scriptSig : CScript}
    (hp2sh : isPayToScriptHash scriptPubKey = true) :
    (verifyScript C X scriptSig scriptPubKey).redeemChecks ≤
      getScriptSigOpCount scriptPubKey scriptSig := by
  rw [verifyScript]
  dsimp only
  split
  · exact Nat.zero_le _
  rename_i stackCopy hsig
  split
  · exact Nat.zero_le _
  split
  · exact Nat.zero_le _
  split
  · exact Nat.zero_le _
  rename_i hpush
  split
  · exact Nat.zero_le _
  rename_i pubKey2 stack _
  rw [Bool.not_eq_false] at hpush
  obtain ⟨last, hlast, hred⟩ := evalScript_redeems C X hpush hsig
  have hcount : getScriptSigOpCount scriptPubKey scriptSig = getSigOpCount true last := by
    rw [getScriptSigOpCount, if_pos hp2sh, hlast]
  have hrun := evalScript_le C X stack pubKey2
  have hle := hred.getSigOpCount_le
  rw [hcount]
  split
  · exact le_trans hrun hle
  · exact le_trans hrun hle

/-- THE COUNT BOUNDS THE WORK: every script on every stack, and every pay-to-script-hash input. -/
theorem checkSigs_le_getSigOpCount (C : Crypto) (X : ScriptContext) :
    (∀ stack script,
      (evalScript C X stack script).checkSigs ≤ getSigOpCount true script ∧
      getSigOpCount true script ≤ getSigOpCount false script) ∧
    (∀ scriptPubKey scriptSig, isPayToScriptHash scriptPubKey = true →
      isPushOnly scriptSig = true →
      (verifyScript C X scriptSig scriptPubKey).redeemChecks ≤
        getScriptSigOpCount scriptPubKey scriptSig) :=
  ⟨fun stack script => ⟨evalScript_le C X stack script, getSigOpCount_accurate_le script⟩,
    fun _ _ hp2sh _ => redeemChecks_le C X hp2sh⟩

namespace Redeeming

/-- Hash functions that say nothing, and a `CheckSig` that likes every signature. -/
def crypto : Crypto :=
  ⟨id, id, id, fun _ => List.replicate 20 0, id, fun _ _ _ _ _ _ => true⟩

def context : ScriptContext := ⟨⟨1, 1398947400, [], [], 0⟩, 0, 0⟩

def vchSig : Valtype := [0x30, 0x06, 0x02, 0x01, 0x01, 0x02, 0x01, 0x01, 0x01]

def vchPubKey : Valtype := 0x02 :: List.replicate 32 0x11

/-- One of two keys: the first key tried is not canonical, the second one fits. -/
def redeemScript : CScript :=
  OP_1 :: pushData vchPubKey ++ pushData (List.replicate 33 0x11) ++ [0x52, OP_CHECKMULTISIG]

def scriptSig : CScript := OP_0 :: pushData vchSig ++ pushData redeemScript

def scriptPubKey : CScript := OP_HASH160 :: 0x14 :: List.replicate 20 0 ++ [OP_EQUAL]

theorem checkSigs_le_getSigOpCount_multisig :
    (verifyScript crypto context scriptSig scriptPubKey).verdict = true ∧
    (verifyScript crypto context scriptSig scriptPubKey).redeemChecks = 1 ∧
    (verifyScript crypto context scriptSig scriptPubKey).redeemChecks ≤
      getScriptSigOpCount scriptPubKey scriptSig :=
  ⟨by decide, by decide,
    (checkSigs_le_getSigOpCount crypto context).2 scriptPubKey scriptSig (by decide)
      (by decide)⟩

end Redeeming
end Silkcoin
