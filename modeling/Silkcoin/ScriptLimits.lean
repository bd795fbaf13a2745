/-
  THE LIMITS OF THE INTERPRETER.

  `EvalScript` tests the size of what a script pushes, the number of counted opcodes, and, behind every
  instruction, the sizes of its two stacks.  It never tests the size of what an opcode MAKES.  That no
  item grows beyond the limit on pushes is a fact about the opcodes: an item either was there before, or
  is a hash, or is a number, and numbers are read from at most four bytes (`castToBigNum_lt`), so that
  what is made of them stays short however often it is done (`evalOp_short`).

  `Boundary` are the states of a run between two instructions; `evalScript_limits` bounds them all.
-/
import Silkcoin.Interpreter
import Silkcoin.Compact

namespace Silkcoin

/-- `MAX_SCRIPT_ELEMENT_SIZE`, which the source spells out. -/
def MAX_SCRIPT_ELEMENT_SIZE : Nat := 520

/-! ## The size of numbers -/

theorem length_natToBytes_le {n k : Nat} (h : n < 256 ^ k) : (natToBytes n).length ≤ k := by
  unfold natToBytes
  rw [List.length_map, List.length_reverse, Nat.digits_length_le_iff (by decide)]
  exact h

/-- One byte more than the magnitude, for the sign. -/
theorem length_getvch_le {x : Int} {k : Nat} (h : x.natAbs < 256 ^ k) : (getvch x).length ≤ k + 1 := by
  have hbytes := length_natToBytes_le h
  unfold getvch bn2mpi
  rw [List.length_reverse]
  cases hb : natToBytes x.natAbs with
  | nil => exact Nat.zero_le _
  | cons b bs =>
    rw [hb, List.length_cons] at hbytes
    dsimp only
    split <;> simp only [List.length_cons] <;> omega

theorem natAbs_mpi2bn_lt (bytes : List UInt8) : (mpi2bn bytes).natAbs < 256 ^ bytes.length := by
  cases bytes with
  | nil => decide
  | cons b bs =>
    simp only [mpi2bn]
    split
    · rw [Int.natAbs_natCast]
      exact bytesToNat_lt (b :: bs)
    · rw [Int.natAbs_neg, Int.natAbs_natCast]
      exact bytesToNat_lt ((b &&& 0x7f) :: bs)

theorem natAbs_setvch_lt (vch : Valtype) : (setvch vch).natAbs < 256 ^ vch.length := by
  have h := natAbs_mpi2bn_lt vch.reverse
  rw [List.length_reverse] at h
  exact h

/-- A number off the stack. -/
theorem castToBigNum_lt {vch : Valtype} {bn : Int} (h : castToBigNum vch = some bn) :
    bn.natAbs < 256 ^ 5 := by
  unfold castToBigNum at h
  split at h
  · cases h
  · rename_i hlen
    obtain rfl := Option.some.inj h
    have h4 : (setvch vch).natAbs < 256 ^ 4 :=
      lt_of_lt_of_le (natAbs_setvch_lt vch) (Nat.pow_le_pow_right (by decide) (by omega))
    exact lt_of_lt_of_le (natAbs_setvch_lt _)
      (Nat.pow_le_pow_right (by decide) (length_getvch_le h4))

theorem bnBool_lt (f : Bool) : (bnBool f).natAbs < 256 ^ 6 := by
  cases f <;> decide

theorem unaryNumber_lt {opcode : UInt8} {bn r : Int} (hbn : bn.natAbs < 256 ^ 5)
    (h : unaryNumber opcode bn = some r) : r.natAbs < 256 ^ 6 := by
  unfold unaryNumber at h
  split at h
  · obtain rfl := Option.some.inj h; omega
  · obtain rfl := Option.some.inj h; omega
  · obtain rfl := Option.some.inj h; omega
  · obtain rfl := Option.some.inj h
    split <;> omega
  · obtain rfl := Option.some.inj h; exact bnBool_lt _
  · obtain rfl := Option.some.inj h; exact bnBool_lt _
  · cases h

theorem binaryNumber_lt {opcode : UInt8} {bn1 bn2 r : Int} (h1 : bn1.natAbs < 256 ^ 5)
    (h2 : bn2.natAbs < 256 ^ 5) (h : binaryNumber opcode bn1 bn2 = some r) : r.natAbs < 256 ^ 6 := by
  unfold binaryNumber at h
  split at h
  case h_1 | h_2 => obtain rfl := Option.some.inj h; omega
  case h_12 | h_13 =>
    obtain rfl := Option.some.inj h
    split <;> omega
  case h_14 => cases h
  all_goals
    obtain rfl := Option.some.inj h
    exact bnBool_lt _

/-! ## What the opcodes make -/

/-- The digests have the sizes the source makes room for. -/
structure Crypto.Sized (C : Crypto) : Prop where
  ripemd160 : ∀ vch, (C.ripemd160 vch).length = 20
  sha1 : ∀ vch, (C.sha1 vch).length = 20
  sha256 : ∀ vch, (C.sha256 vch).length = 32
  hash160 : ∀ vch, (C.hash160 vch).length = 20
  hash256 : ∀ vch, (C.hash256 vch).length = 32

/-- No item is too long to have been pushed. -/
def Short (stack : List Valtype) : Prop := ∀ vch ∈ stack, vch.length ≤ MAX_SCRIPT_ELEMENT_SIZE

/-- The limits, between two instructions. -/
structure Machine.WithinLimits (m : Machine) : Prop where
  size : m.stack.length + m.altstack.length ≤ 1000
  stack : Short m.stack
  altstack : Short m.altstack
  nOpCount : m.nOpCount ≤ 201

namespace Short

variable {vch : Valtype} {stack : List Valtype}

theorem nil : Short [] := fun _ h => absurd h List.not_mem_nil

theorem cons_iff : Short (vch :: stack) ↔ vch.length ≤ MAX_SCRIPT_ELEMENT_SIZE ∧ Short stack :=
  List.forall_mem_cons

theorem cons (h : vch.length ≤ MAX_SCRIPT_ELEMENT_SIZE) (hs : Short stack) : Short (vch :: stack) :=
  cons_iff.mpr ⟨h, hs⟩

theorem of_subset {stack' : List Valtype} (hs : Short stack) (h : ∀ vch ∈ stack', vch ∈ stack) :
    Short stack' := fun vch hv => hs vch (h vch hv)

theorem number {x : Int} {k : Nat} (h : x.natAbs < 256 ^ k) (hk : k + 1 ≤ MAX_SCRIPT_ELEMENT_SIZE)
    (hs : Short stack) : Short (getvch x :: stack) :=
  cons (le_trans (length_getvch_le h) hk) hs

theorem bool (f : Bool) (hs : Short stack) : Short (vchBool f :: stack) := by
  cases f <;> exact cons (by decide) hs

end Short

/-- The items of both stacks are short, and `n` opcodes have been counted. -/
structure Machine.Tame (n : Nat) (m : Machine) : Prop where
  stack : Short m.stack
  altstack : Short m.altstack
  nOpCount : m.nOpCount = n

variable {m m' : Machine} {opcode : UInt8} {n : Nat}

theorem stackOp_tame (hm : m.Tame n) (hsize : m.stack.length ≤ 1000)
    (h : stackOp opcode m = some m') : m'.Tame n := by
  obtain ⟨stack, altstack, vfExec, nOpCount, scriptCode⟩ := m
  obtain ⟨hs, ha, hn⟩ := hm
  unfold stackOp at h
  dsimp only at hs ha hn hsize h
  split at h
  case h_1 =>
    obtain rfl := Option.some.inj h
    have hx := Short.cons_iff.mp hs
    exact ⟨hx.2, Short.cons hx.1 ha, hn⟩
  case h_2 =>
    split at h
    · cases h
    · obtain rfl := Option.some.inj h
      have hx := Short.cons_iff.mp ha
      exact ⟨Short.cons hx.1 hs, hx.2, hn⟩
  case h_9 =>
    obtain rfl := Option.some.inj h
    refine ⟨?_, ha, hn⟩
    dsimp only
    split
    · exact Short.cons (Short.cons_iff.mp hs).1 hs
    · exact hs
  case h_10 =>
    obtain rfl := Option.some.inj h
    exact ⟨Short.number (k := 2) (by omega) (by decide) hs, ha, hn⟩
  case h_18 => cases h
  -- the others copy, move or drop what is there
  all_goals
    obtain rfl := Option.some.inj h
    refine ⟨hs.of_subset fun vch hv => ?_, ha, hn⟩
    simp only [List.mem_cons] at hv ⊢
    tauto

theorem pickOp_tame (hm : m.Tame n) (h : pickOp opcode m = some m') : m'.Tame n := by
  obtain ⟨stack, altstack, vfExec, nOpCount, scriptCode⟩ := m
  obtain ⟨hs, ha, hn⟩ := hm
  unfold pickOp at h
  dsimp only at hs ha hn h
  split at h
  · rename_i vch x st
    obtain ⟨bn, -, h⟩ := Option.bind_eq_some_iff.mp h
    split at h
    · cases h
    · rename_i hin
      obtain rfl := Option.some.inj h
      have hst := (Short.cons_iff.mp hs).2
      have hlt : (getint bn).toNat < (x :: st).length := by omega
      have hitem : (x :: st).getD (getint bn).toNat [] ∈ x :: st := by
        rw [List.getD_eq_getElem?_getD, List.getElem?_eq_getElem hlt]
        exact List.getElem_mem hlt
      refine ⟨Short.cons (hst _ hitem) ?_, ha, hn⟩
      split
      · exact hst.of_subset fun y hy => List.mem_of_mem_eraseIdx hy
      · exact hst
  · cases h

theorem spliceOp_tame (hm : m.Tame n) (h : spliceOp opcode m = some m') : m'.Tame n := by
  obtain ⟨stack, altstack, vfExec, nOpCount, scriptCode⟩ := m
  obtain ⟨hs, ha, hn⟩ := hm
  unfold spliceOp at h
  dsimp only at hs ha hn h
  split at h
  · obtain rfl := Option.some.inj h
    have hlen := (Short.cons_iff.mp hs).1
    have hmax : MAX_SCRIPT_ELEMENT_SIZE = 520 := rfl
    exact ⟨Short.number (k := 2) (by omega) (by decide) hs, ha, hn⟩
  · obtain rfl := Option.some.inj h
    exact ⟨Short.bool _ (Short.cons_iff.mp (Short.cons_iff.mp hs).2).2, ha, hn⟩
  · split at h
    · obtain rfl := Option.some.inj h
      exact ⟨(Short.cons_iff.mp (Short.cons_iff.mp hs).2).2, ha, hn⟩
    · cases h
  · cases h

theorem numericOp_tame (hm : m.Tame n) (h : numericOp opcode m = some m') : m'.Tame n := by
  obtain ⟨stack, altstack, vfExec, nOpCount, scriptCode⟩ := m
  obtain ⟨hs, ha, hn⟩ := hm
  unfold numericOp at h
  dsimp only at hs ha hn h
  split at h
  · split at h
    · obtain ⟨bn, hbn, h⟩ := Option.bind_eq_some_iff.mp h
      obtain ⟨r, hr, h⟩ := Option.bind_eq_some_iff.mp h
      obtain rfl := Option.some.inj h
      have hlt := unaryNumber_lt (castToBigNum_lt hbn) hr
      exact ⟨Short.number hlt (by decide) (Short.cons_iff.mp hs).2, ha, hn⟩
    · cases h
  split at h
  · split at h
    · obtain ⟨bn1, -, h⟩ := Option.bind_eq_some_iff.mp h
      obtain ⟨bn2, -, h⟩ := Option.bind_eq_some_iff.mp h
      obtain ⟨bn3, -, h⟩ := Option.bind_eq_some_iff.mp h
      obtain rfl := Option.some.inj h
      have hst := (Short.cons_iff.mp (Short.cons_iff.mp (Short.cons_iff.mp hs).2).2).2
      exact ⟨Short.bool _ hst, ha, hn⟩
    · cases h
  · split at h
    · obtain ⟨bn1, h1, h⟩ := Option.bind_eq_some_iff.mp h
      obtain ⟨bn2, h2, h⟩ := Option.bind_eq_some_iff.mp h
      obtain ⟨r, hr, h⟩ := Option.bind_eq_some_iff.mp h
      have hlt := binaryNumber_lt (castToBigNum_lt h1) (castToBigNum_lt h2) hr
      have hst := (Short.cons_iff.mp (Short.cons_iff.mp hs).2).2
      split at h
      · split at h
        · obtain rfl := Option.some.inj h
          exact ⟨hst, ha, hn⟩
        · cases h
      · obtain rfl := Option.some.inj h
        exact ⟨Short.number hlt (by decide) hst, ha, hn⟩
    · cases h

theorem hashOp_tame {C : Crypto} (hC : C.Sized) (hm : m.Tame n) (h : hashOp C opcode m = some m') :
    m'.Tame n := by
  obtain ⟨stack, altstack, vfExec, nOpCount, scriptCode⟩ := m
  obtain ⟨hs, ha, hn⟩ := hm
  have hsmall : ∀ {vch : Valtype} {k : Nat}, vch.length = k → k ≤ 32 →
      vch.length ≤ MAX_SCRIPT_ELEMENT_SIZE :=
    fun hk h32 => hk ▸ le_trans h32 (by decide)
  unfold hashOp at h
  dsimp only at hs ha hn h
  split at h
  case h_6 => cases h
  all_goals
    obtain rfl := Option.some.inj h
    refine ⟨Short.cons ?_ (Short.cons_iff.mp hs).2, ha, hn⟩
  · exact hsmall (hC.ripemd160 _) (by decide)
  · exact hsmall (hC.sha1 _) (by decide)
  · exact hsmall (hC.sha256 _) (by decide)
  · exact hsmall (hC.hash160 _) (by decide)
  · exact hsmall (hC.hash256 _) (by decide)

theorem controlOp_tame (hm : m.Tame n) (h : controlOp opcode m = some m') : m'.Tame n := by
  obtain ⟨stack, altstack, vfExec, nOpCount, scriptCode⟩ := m
  obtain ⟨hs, ha, hn⟩ := hm
  unfold controlOp at h
  dsimp only at hs ha hn h
  split at h
  case h_1 | h_2 =>
    split at h
    · split at h
      · cases h
      · obtain rfl := Option.some.inj h
        exact ⟨(Short.cons_iff.mp hs).2, ha, hn⟩
    · obtain rfl := Option.some.inj h
      exact ⟨hs, ha, hn⟩
  case h_3 | h_4 =>
    split at h
    · cases h
    · obtain rfl := Option.some.inj h
      exact ⟨hs, ha, hn⟩
  case h_5 =>
    split at h
    · cases h
    · split at h
      · obtain rfl := Option.some.inj h
        exact ⟨(Short.cons_iff.mp hs).2, ha, hn⟩
      · cases h
  case h_6 => cases h
  case h_7 =>
    split at h
    · obtain rfl := Option.some.inj h
      exact ⟨hs, ha, hn⟩
    · cases h

theorem plainOp_tame {C : Crypto} (hC : C.Sized) {rest : CScript} (hm : m.Tame n)
    (hsize : m.stack.length ≤ 1000) (h : plainOp C opcode rest m = some m') : m'.Tame n := by
  unfold plainOp at h
  split at h
  · -- a number from -1 to 16
    obtain rfl := Option.some.inj h
    have hop := opcode.toNat_lt
    have hop1 : (OP_1.toNat : Int) = 81 := rfl
    exact ⟨Short.number (k := 1) (by omega) (by decide) hm.stack, hm.altstack, hm.nOpCount⟩
  split at h
  · exact pickOp_tame hm h
  split at h
  · obtain rfl := Option.some.inj h
    exact ⟨hm.stack, hm.altstack, hm.nOpCount⟩
  split at h
  · exact stackOp_tame hm hsize h
  split at h
  · exact spliceOp_tame hm h
  split at h
  · exact numericOp_tame hm h
  split at h
  · exact hashOp_tame hC hm h
  · exact controlOp_tame hm h

/-! ## Signatures -/

variable {C : Crypto} {X : ScriptContext}

theorem leaveVerdict_tame {verify fSuccess : Bool} {stack : List Valtype} (hs : Short stack)
    (ha : Short m.altstack) (hn : m.nOpCount = n) (h : leaveVerdict verify m stack fSuccess = some m') :
    m'.Tame n := by
  unfold leaveVerdict at h
  split at h
  · split at h
    · obtain rfl := Option.some.inj h
      exact ⟨hs, ha, hn⟩
    · cases h
  · obtain rfl := Option.some.inj h
    exact ⟨Short.bool _ hs, ha, hn⟩

theorem checkSigOp_tame {verify : Bool} (hm : m.Tame n)
    (h : (checkSigOp C X verify m).result = some m') : m'.Tame n := by
  obtain ⟨stack, altstack, vfExec, nOpCount, scriptCode⟩ := m
  obtain ⟨hs, ha, hn⟩ := hm
  unfold checkSigOp at h
  dsimp only at hs ha hn h
  split at h
  · obtain ⟨fSuccess, -, h⟩ := Run.bind_result_eq_some.mp h
    exact leaveVerdict_tame (Short.cons_iff.mp (Short.cons_iff.mp hs).2).2 ha hn h
  · cases h

/-- The keys of a multisignature are counted, and not too many. -/
theorem checkMultiSigOp_tame {verify : Bool} (hm : m.Tame n)
    (h : (checkMultiSigOp C X verify m).result = some m') : ∃ k, k ≤ 201 ∧ m'.Tame k := by
  obtain ⟨stack, altstack, vfExec, nOpCount, scriptCode⟩ := m
  obtain ⟨hs, ha, hn⟩ := hm
  unfold checkMultiSigOp at h
  dsimp only at hs ha hn h
  split at h
  · cases h
  rename_i vchKeys st
  obtain ⟨bnKeys, -, h⟩ := Run.bind_result_eq_some.mp h
  split at h
  · cases h
  split at h
  · cases h
  rename_i hcount
  split at h
  · cases h
  rename_i vchSigs below hdrop
  obtain ⟨bnSigs, -, h⟩ := Run.bind_result_eq_some.mp h
  split at h
  · cases h
  split at h
  · cases h
  obtain ⟨fSuccess, -, h⟩ := Run.bind_result_eq_some.mp h
  have hbelow : Short (below.drop ((getint bnSigs).toNat + 1)) := by
    refine (Short.cons_iff.mp hs).2.of_subset fun vch hv => ?_
    have hmem : vch ∈ vchSigs :: below := List.mem_cons_of_mem _ (List.mem_of_mem_drop hv)
    rw [← hdrop] at hmem
    exact List.mem_of_mem_drop hmem
  exact ⟨_, Nat.not_lt.mp hcount, leaveVerdict_tame hbelow ha rfl h⟩

/-- STEP LEMMA, the switch. -/
theorem evalOp_tame (hC : C.Sized) {op : ScriptOp} (hm : m.Tame n) (hn : n ≤ 201)
    (hsize : m.stack.length ≤ 1000) (h : (evalOp C X op m).result = some m') :
    ∃ k, k ≤ 201 ∧ m'.Tame k := by
  unfold evalOp at h
  split at h
  · exact ⟨n, hn, checkSigOp_tame hm h⟩
  split at h
  · exact checkMultiSigOp_tame hm h
  · exact ⟨n, hn, plainOp_tame hC hm hsize h⟩

/-! ## Runs -/

/-- STEP LEMMA: what is within the limits before an instruction is within them after it. -/
theorem evalInstruction_withinLimits (hC : C.Sized) {op : ScriptOp} (hm : m.WithinLimits)
    (h : (evalInstruction C X op m).result = some m') : m'.WithinLimits := by
  have hsize := evalInstruction_size C X h
  unfold evalInstruction at h
  split at h
  · cases h
  rename_i hdata
  split at h
  · cases h
  rename_i hcount
  split at h
  · cases h
  obtain ⟨m1, hexec, hlim⟩ := Run.bind_result_eq_some.mp h
  rw [Run.quiet_result] at hlim
  split at hlim
  · cases hlim
  obtain rfl := Option.some.inj hlim
  -- the opcode is counted before it is executed
  have hcounted : (m.countOp op.opcode).nOpCount ≤ 201 := by
    have hle := hm.nOpCount
    unfold Machine.countOp
    split
    · rename_i hop
      have hlt : ¬ m.nOpCount + 1 > 201 := fun hgt => hcount ⟨hop, hgt⟩
      exact Nat.not_lt.mp hlt
    · exact hle
  have htame : (m.countOp op.opcode).Tame (m.countOp op.opcode).nOpCount := by
    refine ⟨?_, ?_, rfl⟩ <;> unfold Machine.countOp <;> split
    · exact hm.stack
    · exact hm.stack
    · exact hm.altstack
    · exact hm.altstack
  have hstack : (m.countOp op.opcode).stack.length ≤ 1000 := by
    have hle := hm.size
    unfold Machine.countOp
    split
    · show m.stack.length ≤ 1000
      omega
    · omega
  unfold execute at hexec
  split at hexec
  · obtain rfl := Option.some.inj hexec
    exact ⟨hsize, Short.cons (Nat.not_lt.mp hdata) htame.stack, htame.altstack, hcounted⟩
  split at hexec
  · obtain ⟨k, hk, hm1⟩ := evalOp_tame hC htame hcounted hstack hexec
    exact ⟨hsize, hm1.stack, hm1.altstack, le_of_eq_of_le hm1.nOpCount hk⟩
  · obtain rfl := Option.some.inj hexec
    exact ⟨hsize, htame.stack, htame.altstack, hcounted⟩

/-- The states of a run between two instructions, with what is left of the script: `m₀` before the
    first, and what an instruction leaves that did not fail. -/
inductive Boundary (C : Crypto) (X : ScriptContext) (script₀ : CScript) (m₀ : Machine) :
    CScript → Machine → Prop where
  | start : Boundary C X script₀ m₀ script₀ m₀
  | step {script : CScript} {m m' : Machine} {op : ScriptOp} (h : Boundary C X script₀ m₀ script m)
      (hget : getOp script = some op) (heval : (evalInstruction C X op m).result = some m') :
      Boundary C X script₀ m₀ op.rest m'

/-- RUN LEMMA. -/
theorem Boundary.withinLimits (hC : C.Sized) {script₀ script : CScript} {m₀ m : Machine}
    (h₀ : m₀.WithinLimits) (h : Boundary C X script₀ m₀ script m) : m.WithinLimits := by
  induction h with
  | start => exact h₀
  | step _ _ heval ih => exact evalInstruction_withinLimits hC ih heval

/-- A run that does not fail gets to the end of the script. -/
theorem evalFrom_boundary {script₀ : CScript} {m₀ : Machine} (fuel : Nat) :
    ∀ {script : CScript} {m m' : Machine}, Boundary C X script₀ m₀ script m →
    (evalFrom C X fuel script m).result = some m' → Boundary C X script₀ m₀ [] m' := by
  induction fuel with
  | zero =>
    intro script m m' hb h
    cases script with
    | nil =>
      obtain rfl := Option.some.inj h
      exact hb
    | cons b script => cases h
  | succ fuel ih =>
    intro script m m' hb h
    cases script with
    | nil =>
      obtain rfl := Option.some.inj h
      exact hb
    | cons b script =>
      unfold evalFrom at h
      cases hget : getOp (b :: script) with
      | none =>
        rw [hget] at h
        cases h
      | some op =>
        rw [hget] at h
        obtain ⟨m1, hm1, h⟩ := Run.bind_result_eq_some.mp h
        exact ih (hb.step hget hm1) h

/-- **THE LIMITS HOLD AT EVERY BOUNDARY.**  On a stack within the limits, at most 1000 items are on the
    two stacks between any two instructions, none of them longer than a push may be, and at most 201
    opcodes have been counted, the keys of multisignatures with them; and a run that succeeds is at
    such a boundary at its end, with no conditional open. -/
theorem evalScript_limits (hC : C.Sized) (stack : List Valtype) (hsize : stack.length ≤ 1000)
    (hshort : Short stack) (script : CScript) :
    (∀ rest m, Boundary C X script ⟨stack, [], [], 0, script⟩ rest m → m.WithinLimits) ∧
    ∀ stack', (evalScript C X stack script).result = some stack' →
      ∃ m, Boundary C X script ⟨stack, [], [], 0, script⟩ [] m ∧ m.stack = stack' ∧ m.vfExec = [] := by
  constructor
  · intro rest m hb
    have h₀ : Machine.WithinLimits ⟨stack, [], [], 0, script⟩ :=
      ⟨hsize, hshort, Short.nil, Nat.zero_le 201⟩
    exact hb.withinLimits hC h₀
  · intro stack' h
    unfold evalScript at h
    split at h
    · cases h
    · obtain ⟨m, hm, h⟩ := Run.bind_result_eq_some.mp h
      rw [Run.quiet_result] at h
      split at h
      · rename_i hcond
        exact ⟨m, evalFrom_boundary _ .start hm, Option.some.inj h, hcond⟩
      · cases h

namespace Hashing

/-- The digests of the empty item. -/
def crypto : Crypto where
  ripemd160 vch := if vch = [] then
    [0x9c, 0x11, 0x85, 0xa5, 0xc5, 0xe9, 0xfc, 0x54, 0x61, 0x28, 0x08, 0x97, 0x7e, 0xe8, 0xf5, 0x48,
      0xb2, 0x25, 0x8d, 0x31] else List.replicate 20 0
  sha1 vch := if vch = [] then
    [0xda, 0x39, 0xa3, 0xee, 0x5e, 0x6b, 0x4b, 0x0d, 0x32, 0x55, 0xbf, 0xef, 0x95, 0x60, 0x18, 0x90,
      0xaf, 0xd8, 0x07, 0x09] else List.replicate 20 0
  sha256 vch := if vch = [] then
    [0xe3, 0xb0, 0xc4, 0x42, 0x98, 0xfc, 0x1c, 0x14, 0x9a, 0xfb, 0xf4, 0xc8, 0x99, 0x6f, 0xb9, 0x24,
      0x27, 0xae, 0x41, 0xe4, 0x64, 0x9b, 0x93, 0x4c, 0xa4, 0x95, 0x99, 0x1b, 0x78, 0x52, 0xb8, 0x55] else List.replicate 32 0
  hash160 vch := if vch = [] then
    [0xb4, 0x72, 0xa2, 0x66, 0xd0, 0xbd, 0x89, 0xc1, 0x37, 0x06, 0xa4, 0x13, 0x2c, 0xcf, 0xb1, 0x6f,
      0x7c, 0x3b, 0x9f, 0xcb] else List.replicate 20 0
  hash256 vch := if vch = [] then
    [0x5d, 0xf6, 0xe0, 0xe2, 0x76, 0x13, 0x59, 0xd3, 0x0a, 0x82, 0x75, 0x05, 0x8e, 0x29, 0x9f, 0xcc,
      0x03, 0x81, 0x53, 0x45, 0x45, 0xf5, 0x5c, 0xf4, 0x3e, 0x41, 0x98, 0x3f, 0x5d, 0x4c, 0x94, 0x56] else List.replicate 32 0
  checkSig _ _ _ _ _ _ := false

theorem crypto_sized : crypto.Sized := by
  constructor <;> intro vch <;> unfold crypto <;> dsimp only <;> split <;> rfl

def context : ScriptContext := ⟨⟨1, 0, [], [], 0⟩, 0, 0⟩

/-- The empty item is copied, the copy hashed and compared; the depth goes on top. -/
def script : CScript := [0x00, 0x76, 0xa9, 0x14] ++ crypto.hash160 [] ++ [0x88, 0x74]

/-- Its run ends with two items on the stack, within the limits. -/
theorem script_limits : ∃ m, Boundary crypto context script ⟨[], [], [], 0, script⟩ [] m ∧
    m.stack = [[0x01], []] ∧ m.vfExec = [] :=
  (evalScript_limits crypto_sized [] (Nat.zero_le 1000) Short.nil script).2 [[0x01], []]
    (by decide)

end Hashing
end Silkcoin
