/-
  `Solver`: the two cursors, one in the script and one in the template.

  A template is itself a script, with PSEUDO-OPCODES where a script may have anything of a kind: a key,
  a key hash, a small integer, or as many keys as there are.  `matchTemplate` is the loop with both
  cursors as the code runs it, `OP_PUBKEYS` with its greedy inner loop, and `Standard.solver` tries the
  three templates one after the other.

  What is accepted is said without cursors: a script DECODES to a list of instructions (`Decodes`), and
  the list is one of four shapes (`IsStandard`).  `solver_iff` says that this is what the loops find, for
  every byte string: a push may be longer than it has to be, and a truncated one decodes to nothing.

  The staker and the wallet work with what the solutions stand for; `solveScript_iff` says that they find
  it in the same scripts.
-/
import Silkcoin.IsMine

namespace Silkcoin

/-! ## Instructions -/

/-- An instruction: its opcode, and the data a push carries. -/
structure Instruction where
  opcode : UInt8
  data : List UInt8
deriving DecidableEq

/-- A script decodes to these instructions, to its last byte. -/
inductive Decodes : CScript → List Instruction → Prop
  | nil : Decodes [] []
  | cons {script : CScript} {op : ScriptOp} {ops : List Instruction} :
      getOp script = some op → Decodes op.rest ops → Decodes script (⟨op.opcode, op.data⟩ :: ops)

/-- The opcode is the first byte. -/
theorem getOp_opcode {opcode : UInt8} {pc : CScript} {op : ScriptOp} (h : getOp (opcode :: pc) = some op) :
    op.opcode = opcode := by
  unfold getOp at h
  dsimp only at h
  split at h
  · split at h
    · exact takeOperand_opcode h
    · split at h
      · split at h
        · exact takeOperand_opcode h
        · cases h
      · split at h
        · split at h
          · exact takeOperand_opcode h
          · cases h
        · split at h
          · exact takeOperand_opcode h
          · cases h
  · cases h
    rfl

/-- `GetOp2`, which moves the cursor also where it fails: past the opcode and the length it has read. -/
def getOp2 (script : CScript) : Bool × ScriptOp :=
  match getOp script with
  | some op => (true, op)
  | none =>
    let pc : CScript :=
      match script with
      | [] => []
      | opcode :: pc =>
        if opcode = OP_PUSHDATA1 then pc.drop 1
        else if opcode = OP_PUSHDATA2 then (if pc.length < 2 then pc else pc.drop 2)
        else if opcode = OP_PUSHDATA4 then (if pc.length < 4 then pc else pc.drop 4)
        else pc
    (false, ⟨OP_INVALIDOPCODE, [], pc⟩)

theorem getOp2_some {script : CScript} {op : ScriptOp} (h : getOp script = some op) :
    getOp2 script = (true, op) := by
  unfold getOp2
  rw [h]

theorem getOp2_none {script : CScript} (h : getOp script = none) :
    (getOp2 script).1 = false ∧ (getOp2 script).2.opcode = OP_INVALIDOPCODE := by
  unfold getOp2
  rw [h]
  exact ⟨rfl, rfl⟩

namespace Decodes

variable {script : CScript} {ops : List Instruction} {instr : Instruction}

theorem cons_iff : Decodes script (instr :: ops) ↔
    ∃ op, getOp script = some op ∧ (op.opcode = instr.opcode ∧ op.data = instr.data) ∧
      Decodes op.rest ops := by
  constructor
  · intro h
    cases h with
    | cons hop hops => exact ⟨_, hop, ⟨rfl, rfl⟩, hops⟩
  · rintro ⟨op, hop, ⟨hopcode, hdata⟩, hops⟩
    have h := Decodes.cons hop hops
    rwa [hopcode, hdata] at h

theorem exact {op : ScriptOp} {opcode : UInt8} (hop : getOp script = some op)
    (hexact : op.opcode = opcode ∧ op.data = []) (hops : Decodes op.rest ops) :
    Decodes script (⟨opcode, []⟩ :: ops) :=
  cons_iff.mpr ⟨op, hop, hexact, hops⟩

theorem first (h : Decodes script ops) (hne : ops ≠ []) : ∃ op, getOp script = some op := by
  cases h with
  | nil => exact absurd rfl hne
  | cons hop _ => exact ⟨_, hop⟩

theorem opcode {op : ScriptOp} {opcode : UInt8} (hop : getOp script = some op) (hcode : op.opcode = opcode)
    (hgt : ¬ opcode ≤ OP_PUSHDATA4) (hend : op.rest = []) : Decodes script [⟨opcode, []⟩] :=
  .exact hop ⟨hcode, getOp_data hop (hcode ▸ hgt)⟩ (hend ▸ .nil)

/-- Where the instructions of a script stop being these, others follow. -/
theorem of_append : ∀ {before : List Instruction} {script : CScript}, Decodes script (before ++ ops) →
    ∃ rest, Decodes rest ops
  | [], script, h => ⟨script, h⟩
  | _ :: _, _, h =>
    let ⟨_, _, _, hops⟩ := cons_iff.mp h
    of_append hops

@[simp] theorem nil_iff : Decodes script [] ↔ script = [] := by
  constructor
  · intro h
    cases h
    rfl
  · rintro rfl
    exact .nil

/-- A script decodes in one way. -/
theorem unique {ops' : List Instruction} (h : Decodes script ops) (h' : Decodes script ops') :
    ops = ops' := by
  induction h generalizing ops' with
  | nil =>
    cases h' with
    | nil => rfl
    | cons hop _ => cases hop
  | cons hop _ ih =>
    cases h' with
    | nil => cases hop
    | cons hop' hops' =>
      rw [hop] at hop'
      cases hop'
      rw [ih hops']

end Decodes

/-! ## Templates -/

namespace Standard

def OP_SMALLINTEGER : UInt8 := 0xfa
def OP_PUBKEYS : UInt8 := 0xfb
def OP_PUBKEYHASH : UInt8 := 0xfd
def OP_PUBKEY : UInt8 := 0xfe

inductive txnouttype where
  | TX_NONSTANDARD
  | TX_PUBKEY
  | TX_PUBKEYHASH
  | TX_SCRIPTHASH
  | TX_MULTISIG
deriving DecidableEq, Repr

/-- The templates, in the order of the map they are kept in. -/
def mTemplates : List (txnouttype × CScript) :=
  [(.TX_PUBKEY, [OP_PUBKEY, OP_CHECKSIG]),
   (.TX_PUBKEYHASH, [OP_DUP, OP_HASH160, OP_PUBKEYHASH, OP_EQUALVERIFY, OP_CHECKSIG]),
   (.TX_MULTISIG, [OP_SMALLINTEGER, OP_PUBKEYS, OP_SMALLINTEGER, OP_CHECKMULTISIG])]

/-- A key, by its length. -/
def isKey (vch : List UInt8) : Bool := decide (33 ≤ vch.length ∧ vch.length ≤ 120)

def isSmallInteger (opcode : UInt8) : Bool := decide (opcode = OP_0 ∨ (OP_1 ≤ opcode ∧ opcode ≤ OP_16))

/-- The inner loop at `OP_PUBKEYS`.  It takes keys while there are keys, and ends on the first
    instruction that is none, or that cannot be read. -/
def takePubKeys : Nat → ScriptOp → List (List UInt8) → List (List UInt8) × ScriptOp
  | 0, op1, vSolutions => (vSolutions, op1)
  | fuel + 1, op1, vSolutions =>
    if isKey op1.data then
      if (getOp2 op1.rest).1 then takePubKeys fuel (getOp2 op1.rest).2 (vSolutions ++ [op1.data])
      else (vSolutions ++ [op1.data], (getOp2 op1.rest).2)
    else (vSolutions, op1)

/-- One instruction of the script against one of the template. -/
def matchOp (op1 op2 : ScriptOp) (vSolutions : List (List UInt8)) : Option (List (List UInt8)) :=
  if op2.opcode = OP_PUBKEY then
    if isKey op1.data then some (vSolutions ++ [op1.data]) else none
  else if op2.opcode = OP_PUBKEYHASH then
    if op1.data.length = 20 then some (vSolutions ++ [op1.data]) else none
  else if op2.opcode = OP_SMALLINTEGER then
    if isSmallInteger op1.opcode then some (vSolutions ++ [[UInt8.ofNat (decodeOP_N op1.opcode)]]) else none
  else if op1.opcode ≠ op2.opcode ∨ op1.data ≠ op2.data then none
  else some vSolutions

/-- Both cursors, to the end of both scripts. -/
def matchTemplate : Nat → CScript → CScript → List (List UInt8) → Option (List (List UInt8))
  | 0, _, _, _ => none
  | fuel + 1, script1, script2, vSolutions =>
    if script1 = [] ∧ script2 = [] then some vSolutions
    else
      match getOp script1, getOp script2 with
      | some op1, some op2 =>
        if op2.opcode = OP_PUBKEYS then
          let (vSolutions, op1) := takePubKeys (script1.length + 1) op1 vSolutions
          match getOp op2.rest with
          | none => none
          | some op2 => (matchOp op1 op2 vSolutions).bind (matchTemplate fuel op1.rest op2.rest)
        else (matchOp op1 op2 vSolutions).bind (matchTemplate fuel op1.rest op2.rest)
      | _, _ => none

/-- `m` and `n` are asked about once the template matches. -/
def checkMultisig (vSolutions : List (List UInt8)) : Bool :=
  let m := (vSolutions.headD []).headD 0
  let n := (vSolutions.getLastD []).headD 0
  ! decide (m < 1 ∨ n < 1 ∨ m > n ∨ vSolutions.length - 2 ≠ n.toNat)

def scanTemplates (script1 : CScript) :
    List (txnouttype × CScript) → Bool × txnouttype × List (List UInt8)
  | [] => (false, .TX_NONSTANDARD, [])
  | (type, script2) :: rest =>
    match matchTemplate (script2.length + 1) script1 script2 [] with
    | none => scanTemplates script1 rest
    | some vSolutions =>
      (if type = .TX_MULTISIG then checkMultisig vSolutions else true, type, vSolutions)

/-- `Solver`: its result, `typeRet` and `vSolutionsRet`.  The vector it is given is empty with every
    caller; only a script hash is appended to it, the templates clear it. -/
def solver (scriptPubKey : CScript) (vSolutionsRet : List (List UInt8)) :
    Bool × txnouttype × List (List UInt8) :=
  if isPayToScriptHash scriptPubKey then
    (true, .TX_SCRIPTHASH, vSolutionsRet ++ [(scriptPubKey.drop 2).take 20])
  else scanTemplates scriptPubKey mTemplates

/-! ## What a standard script is -/

/-- `EncodeOP_N` -/
def encodeOP_N (n : Nat) : UInt8 := if n = 0 then OP_0 else UInt8.ofNat (OP_1.toNat + n - 1)

/-- The four shapes, opcode for opcode, and what `Solver` returns of each: what is pushed. -/
inductive IsStandard : List Instruction → txnouttype → List (List UInt8) → Prop
  | scripthash {hash : List UInt8} (hlen : hash.length = 20) :
      IsStandard [⟨OP_HASH160, []⟩, ⟨0x14, hash⟩, ⟨OP_EQUAL, []⟩] .TX_SCRIPTHASH [hash]
  | pubkey {push : UInt8} {key : List UInt8} (hkey : 33 ≤ key.length ∧ key.length ≤ 120) :
      IsStandard [⟨push, key⟩, ⟨OP_CHECKSIG, []⟩] .TX_PUBKEY [key]
  | pubkeyhash {push : UInt8} {hash : List UInt8} (hlen : hash.length = 20) :
      IsStandard [⟨OP_DUP, []⟩, ⟨OP_HASH160, []⟩, ⟨push, hash⟩, ⟨OP_EQUALVERIFY, []⟩, ⟨OP_CHECKSIG, []⟩]
        .TX_PUBKEYHASH [hash]
  | multisig {m n : Nat} {keys : List Instruction}
      (hkeys : ∀ key ∈ keys, 33 ≤ key.data.length ∧ key.data.length ≤ 120)
      (hm : 1 ≤ m) (hmn : m ≤ n) (hn : n = keys.length) (h16 : n ≤ 16) :
      IsStandard (⟨encodeOP_N m, []⟩ :: (keys ++ [⟨encodeOP_N n, []⟩, ⟨OP_CHECKMULTISIG, []⟩]))
        .TX_MULTISIG ([UInt8.ofNat m] :: (keys.map Instruction.data ++ [[UInt8.ofNat n]]))

/-! ## The loop with two cursors -/

section Loop

variable {fuel : Nat} {script1 script2 : CScript} {op1 op2 : ScriptOp} {vSolutions S : List (List UInt8)}

/-- At the end of the template the script has to be at its end. -/
theorem matchTemplate_end :
    matchTemplate (fuel + 1) script1 [] vSolutions = some S ↔ script1 = [] ∧ S = vSolutions := by
  unfold matchTemplate
  constructor
  · intro h
    split at h
    · rename_i hend
      exact ⟨hend.1, (Option.some.inj h).symm⟩
    · split at h
      · rename_i hnone
        cases hnone
      · cases h
  · rintro ⟨rfl, rfl⟩
    exact if_pos ⟨rfl, rfl⟩

/-- Any instruction of the template but `OP_PUBKEYS` takes one instruction of the script. -/
theorem matchTemplate_step (h2 : getOp script2 = some op2) (hne : op2.opcode ≠ OP_PUBKEYS) :
    matchTemplate (fuel + 1) script1 script2 vSolutions = some S ↔
      ∃ op1, getOp script1 = some op1 ∧ ∃ vSolutions', matchOp op1 op2 vSolutions = some vSolutions' ∧
        matchTemplate fuel op1.rest op2.rest vSolutions' = some S := by
  have hnotend : ¬ (script1 = [] ∧ script2 = []) := by
    rintro ⟨-, rfl⟩
    cases h2
  rw [matchTemplate.eq_def]
  dsimp only
  rw [if_neg hnotend, h2]
  cases h1 : getOp script1 with
  | none => simp
  | some op1 =>
    dsimp only
    rw [if_neg hne, Option.bind_eq_some_iff]
    constructor
    · intro h
      exact ⟨op1, rfl, h⟩
    · rintro ⟨_, ⟨rfl⟩, h⟩
      exact h

/-- `OP_PUBKEYS` takes the keys there are, and the template goes on with its next instruction. -/
theorem matchTemplate_pubKeys {op2' : ScriptOp} (h2 : getOp script2 = some op2)
    (heq : op2.opcode = OP_PUBKEYS) (h2' : getOp op2.rest = some op2') :
    matchTemplate (fuel + 1) script1 script2 vSolutions = some S ↔
      ∃ op1, getOp script1 = some op1 ∧
        ∃ vSolutions', matchOp (takePubKeys (script1.length + 1) op1 vSolutions).2 op2'
            (takePubKeys (script1.length + 1) op1 vSolutions).1 = some vSolutions' ∧
          matchTemplate fuel (takePubKeys (script1.length + 1) op1 vSolutions).2.rest op2'.rest vSolutions'
            = some S := by
  have hnotend : ¬ (script1 = [] ∧ script2 = []) := by
    rintro ⟨-, rfl⟩
    cases h2
  rw [matchTemplate.eq_def]
  dsimp only
  rw [if_neg hnotend, h2]
  cases h1 : getOp script1 with
  | none => simp
  | some op1 =>
    dsimp only
    rw [if_pos heq, h2']
    dsimp only
    rw [Option.bind_eq_some_iff]
    constructor
    · intro h
      exact ⟨op1, rfl, h⟩
    · rintro ⟨_, ⟨rfl⟩, h⟩
      exact h

end Loop

/-! ### One instruction -/

section Op

variable {op1 : ScriptOp} {rest : CScript} {vSolutions vSolutions' : List (List UInt8)}

theorem matchOp_pubKey : matchOp op1 ⟨OP_PUBKEY, [], rest⟩ vSolutions = some vSolutions' ↔
    (33 ≤ op1.data.length ∧ op1.data.length ≤ 120) ∧ vSolutions' = vSolutions ++ [op1.data] := by
  unfold matchOp isKey
  dsimp only
  rw [if_pos rfl]
  by_cases hkey : 33 ≤ op1.data.length ∧ op1.data.length ≤ 120 <;> simp [hkey, eq_comm]

theorem matchOp_pubKeyHash : matchOp op1 ⟨OP_PUBKEYHASH, [], rest⟩ vSolutions = some vSolutions' ↔
    op1.data.length = 20 ∧ vSolutions' = vSolutions ++ [op1.data] := by
  unfold matchOp
  dsimp only
  rw [if_neg (by decide), if_pos rfl]
  by_cases hlen : op1.data.length = 20 <;> simp [hlen, eq_comm]

theorem matchOp_smallInteger : matchOp op1 ⟨OP_SMALLINTEGER, [], rest⟩ vSolutions = some vSolutions' ↔
    isSmallInteger op1.opcode = true ∧
      vSolutions' = vSolutions ++ [[UInt8.ofNat (decodeOP_N op1.opcode)]] := by
  unfold matchOp
  dsimp only
  rw [if_neg (by decide), if_neg (by decide), if_pos rfl]
  by_cases hsmall : isSmallInteger op1.opcode = true <;> simp [hsmall, eq_comm]

/-- Any other opcode has to be there itself. -/
theorem matchOp_exact {opcode : UInt8}
    (hno : opcode ≠ OP_PUBKEY ∧ opcode ≠ OP_PUBKEYHASH ∧ opcode ≠ OP_SMALLINTEGER) :
    matchOp op1 ⟨opcode, [], rest⟩ vSolutions = some vSolutions' ↔
      (op1.opcode = opcode ∧ op1.data = []) ∧ vSolutions' = vSolutions := by
  unfold matchOp
  dsimp only
  rw [if_neg hno.1, if_neg hno.2.1, if_neg hno.2.2]
  by_cases hop : op1.opcode = opcode <;> by_cases hdata : op1.data = [] <;> simp [hop, hdata, eq_comm]

/-- What the opcodes of small integers are. -/
theorem isSmallInteger_iff {opcode : UInt8} :
    isSmallInteger opcode = true ↔ decodeOP_N opcode ≤ 16 ∧ opcode = encodeOP_N (decodeOP_N opcode) := by
  have hone : OP_1.toNat = 81 := rfl
  have hsixteen : OP_16.toNat = 96 := rfl
  unfold isSmallInteger
  rw [decide_eq_true_eq, UInt8.le_iff_toNat_le, UInt8.le_iff_toNat_le, hone, hsixteen]
  unfold decodeOP_N encodeOP_N
  rw [hone]
  by_cases hzero : opcode = OP_0
  · simp [hzero]
  rw [if_neg hzero]
  constructor
  · rintro (h | ⟨hlo, hhi⟩)
    · exact absurd h hzero
    refine ⟨by omega, ?_⟩
    rw [if_neg (by omega), show 81 + (opcode.toNat - (81 - 1)) - 1 = opcode.toNat by omega,
      UInt8.ofNat_toNat]
  · rintro ⟨hle, heq⟩
    right
    refine ⟨?_, by omega⟩
    by_contra hlt
    rw [if_pos (by omega)] at heq
    exact hzero heq

theorem isSmallInteger_encodeOP_N {n : Nat} (h : n ≤ 16) : isSmallInteger (encodeOP_N n) = true := by
  have hall : ∀ k ≤ 16, isSmallInteger (encodeOP_N k) = true := by decide
  exact hall n h

/-- A small integer carries no data; `OP_0` pushes none. -/
theorem data_of_smallInteger {script : CScript} {op : ScriptOp} (h : getOp script = some op)
    (hsmall : isSmallInteger op.opcode = true) : op.data = [] := by
  rcases of_decide_eq_true hsmall with hzero | ⟨hge, -⟩
  · cases script with
    | nil => cases h
    | cons opcode pc =>
      have hopcode := getOp_opcode h
      rw [hzero] at hopcode
      subst hopcode
      have h0 : takeOperand OP_0 0 pc = some op := h
      unfold takeOperand at h0
      rw [if_neg (Nat.not_lt_zero _)] at h0
      cases h0
      rfl
  · refine getOp_data h fun hle => ?_
    exact absurd (UInt8.le_trans hge hle) (by decide)

/-- In a script, too, a small integer is the opcode of its number. -/
theorem smallInteger_eq {script : CScript} {before ops : List Instruction} {instr : Instruction}
    (h : Decodes script (before ++ instr :: ops)) (hsmall : isSmallInteger instr.opcode = true) :
    instr = ⟨encodeOP_N (decodeOP_N instr.opcode), []⟩ := by
  obtain ⟨pc, hpc⟩ := h.of_append
  obtain ⟨op, hop, ⟨hopcode, hdata⟩, -⟩ := Decodes.cons_iff.mp hpc
  rw [← (isSmallInteger_iff.mp hsmall).2]
  rw [← hopcode] at hsmall
  rw [← data_of_smallInteger hop hsmall, hdata]

theorem decodeOP_N_encodeOP_N {n : Nat} (h : n ≤ 16) : decodeOP_N (encodeOP_N n) = n := by
  have hall : ∀ k ≤ 16, decodeOP_N (encodeOP_N k) = k := by decide
  exact hall n h

end Op

/-! ### The keys -/

/-- What the inner loop takes are keys; a small integer behind them is an instruction of the script. -/
theorem takePubKeys_sound : ∀ {fuel : Nat} {script : CScript} {op1 : ScriptOp}
    {vSolutions : List (List UInt8)}, getOp script = some op1 →
    isSmallInteger (takePubKeys fuel op1 vSolutions).2.opcode = true →
    ∃ keys : List Instruction, (∀ key ∈ keys, 33 ≤ key.data.length ∧ key.data.length ≤ 120) ∧
      (takePubKeys fuel op1 vSolutions).1 = vSolutions ++ keys.map Instruction.data ∧
      ∀ ops, Decodes (takePubKeys fuel op1 vSolutions).2.rest ops →
        Decodes script (keys ++ ⟨(takePubKeys fuel op1 vSolutions).2.opcode,
          (takePubKeys fuel op1 vSolutions).2.data⟩ :: ops)
  | 0, script, op1, vSolutions, hop, _ =>
    ⟨[], by simp, by simp [takePubKeys], fun ops hops => .cons hop hops⟩
  | fuel + 1, script, op1, vSolutions, hop, hsmall => by
    unfold takePubKeys at hsmall ⊢
    by_cases hkey : isKey op1.data = true
    · rw [if_pos hkey] at hsmall ⊢
      cases hnext : getOp op1.rest with
      | none =>
        -- the script is over: what the loop ends with is no instruction
        obtain ⟨hfalse, hinvalid⟩ := getOp2_none hnext
        rw [if_neg (by rw [hfalse]; simp)] at hsmall
        dsimp only at hsmall
        rw [hinvalid] at hsmall
        cases hsmall
      | some next =>
        rw [getOp2_some hnext] at hsmall ⊢
        simp only [if_true] at hsmall ⊢
        obtain ⟨keys, hkeys, hsol, hdec⟩ := takePubKeys_sound hnext hsmall
        refine ⟨⟨op1.opcode, op1.data⟩ :: keys, ?_, ?_, fun ops hops => .cons hop (hdec ops hops)⟩
        · intro key hmem
          rcases List.mem_cons.mp hmem with rfl | hmem
          · exact of_decide_eq_true hkey
          · exact hkeys key hmem
        · rw [hsol, List.map_cons, List.append_assoc, List.singleton_append]
    · rw [if_neg hkey] at hsmall ⊢
      exact ⟨[], by simp, by simp, fun ops hops => .cons hop hops⟩

/-- And it takes all there are, up to an instruction that carries no key. -/
theorem takePubKeys_complete {instr : Instruction} {ops : List Instruction}
    (hinstr : isKey instr.data = false) : ∀ (keys : List Instruction) {fuel : Nat} {script : CScript}
    {op1 : ScriptOp} {vSolutions : List (List UInt8)}, script.length < fuel →
    (∀ key ∈ keys, 33 ≤ key.data.length ∧ key.data.length ≤ 120) →
    getOp script = some op1 → Decodes script (keys ++ instr :: ops) →
    (takePubKeys fuel op1 vSolutions).1 = vSolutions ++ keys.map Instruction.data ∧
      ⟨(takePubKeys fuel op1 vSolutions).2.opcode, (takePubKeys fuel op1 vSolutions).2.data⟩ = instr ∧
      Decodes (takePubKeys fuel op1 vSolutions).2.rest ops
  | [], fuel + 1, script, op1, vSolutions, _, _, hop, hdec => by
    obtain ⟨op, hop', ⟨hopcode, hdata⟩, hops⟩ := Decodes.cons_iff.mp hdec
    rw [hop] at hop'
    cases hop'
    unfold takePubKeys
    rw [if_neg (by rw [hdata, hinstr]; simp)]
    refine ⟨by simp, ?_, hops⟩
    rw [hopcode, hdata]
  | key :: keys, fuel + 1, script, op1, vSolutions, hfuel, hkeys, hop, hdec => by
    obtain ⟨op, hop', ⟨-, hdata⟩, hops⟩ := Decodes.cons_iff.mp hdec
    rw [hop] at hop'
    cases hop'
    have hkey : isKey op1.data = true := by
      rw [hdata]
      exact decide_eq_true (hkeys _ List.mem_cons_self)
    -- there is a further instruction: `instr` at the latest
    obtain ⟨next, hnext⟩ := hops.first (by simp)
    have hshrinks := getOp_shrinks hop
    obtain ⟨hsol, hstop, hrest⟩ := @takePubKeys_complete instr ops hinstr keys fuel op1.rest next
      (vSolutions ++ [op1.data]) (by omega) (fun k hk => hkeys k (List.mem_cons_of_mem _ hk)) hnext hops
    unfold takePubKeys
    rw [if_pos hkey, getOp2_some hnext]
    simp only [if_true]
    refine ⟨?_, hstop, hrest⟩
    rw [hsol, hdata, List.map_cons, List.append_assoc, List.singleton_append]

/-! ## The templates, one by one -/

section Templates

variable {fuel : Nat} {script rest : CScript} {vSolutions S : List (List UInt8)}

theorem step_pubKey : matchTemplate (fuel + 1) script (OP_PUBKEY :: rest) vSolutions = some S ↔
    ∃ op, getOp script = some op ∧ (33 ≤ op.data.length ∧ op.data.length ≤ 120) ∧
      matchTemplate fuel op.rest rest (vSolutions ++ [op.data]) = some S := by
  rw [matchTemplate_step (show getOp (OP_PUBKEY :: rest) = some ⟨OP_PUBKEY, [], rest⟩ from rfl)
    (show OP_PUBKEY ≠ OP_PUBKEYS by decide)]
  simp only [matchOp_pubKey, and_assoc, exists_and_left, exists_eq_left]

theorem step_pubKeyHash : matchTemplate (fuel + 1) script (OP_PUBKEYHASH :: rest) vSolutions = some S ↔
    ∃ op, getOp script = some op ∧ op.data.length = 20 ∧
      matchTemplate fuel op.rest rest (vSolutions ++ [op.data]) = some S := by
  rw [matchTemplate_step (show getOp (OP_PUBKEYHASH :: rest) = some ⟨OP_PUBKEYHASH, [], rest⟩ from rfl)
    (show OP_PUBKEYHASH ≠ OP_PUBKEYS by decide)]
  simp only [matchOp_pubKeyHash, and_assoc, exists_and_left, exists_eq_left]

theorem step_smallInteger : matchTemplate (fuel + 1) script (OP_SMALLINTEGER :: rest) vSolutions = some S ↔
    ∃ op, getOp script = some op ∧ isSmallInteger op.opcode = true ∧
      matchTemplate fuel op.rest rest (vSolutions ++ [[UInt8.ofNat (decodeOP_N op.opcode)]]) = some S := by
  rw [matchTemplate_step (show getOp (OP_SMALLINTEGER :: rest) = some ⟨OP_SMALLINTEGER, [], rest⟩ from rfl)
    (show OP_SMALLINTEGER ≠ OP_PUBKEYS by decide)]
  simp only [matchOp_smallInteger, and_assoc, exists_and_left, exists_eq_left]

theorem step_exact {opcode : UInt8} (hop : getOp (opcode :: rest) = some ⟨opcode, [], rest⟩)
    (hne : opcode ≠ OP_PUBKEYS)
    (hno : opcode ≠ OP_PUBKEY ∧ opcode ≠ OP_PUBKEYHASH ∧ opcode ≠ OP_SMALLINTEGER) :
    matchTemplate (fuel + 1) script (opcode :: rest) vSolutions = some S ↔
      ∃ op, getOp script = some op ∧ (op.opcode = opcode ∧ op.data = []) ∧
        matchTemplate fuel op.rest rest vSolutions = some S := by
  rw [matchTemplate_step hop hne]
  simp only [matchOp_exact hno, and_assoc, exists_and_left, exists_eq_left]

theorem step_checkSig : matchTemplate (fuel + 1) script (OP_CHECKSIG :: rest) vSolutions = some S ↔
    ∃ op, getOp script = some op ∧ (op.opcode = OP_CHECKSIG ∧ op.data = []) ∧
      matchTemplate fuel op.rest rest vSolutions = some S :=
  step_exact rfl (by decide) (by decide)

/-- `OP_PUBKEY OP_CHECKSIG` -/
theorem template_pubkey : matchTemplate 3 script [OP_PUBKEY, OP_CHECKSIG] [] = some S ↔
    ∃ ops, Decodes script ops ∧ IsStandard ops .TX_PUBKEY S := by
  constructor
  · intro h
    obtain ⟨key, hkey, hlen, h⟩ := step_pubKey.mp h
    obtain ⟨checkSig, hsig, hexact, h⟩ := step_checkSig.mp h
    obtain ⟨hend, rfl⟩ := matchTemplate_end.mp h
    exact ⟨_, Decodes.cons_iff.mpr ⟨key, hkey, ⟨rfl, rfl⟩, Decodes.cons_iff.mpr ⟨checkSig, hsig, hexact,
      Decodes.nil_iff.mpr hend⟩⟩, .pubkey hlen⟩
  · rintro ⟨ops, hdec, hstd⟩
    cases hstd with
    | @pubkey _ vch hlen =>
      obtain ⟨key, hkey, ⟨-, hdata⟩, hdec₁⟩ := Decodes.cons_iff.mp hdec
      obtain ⟨checkSig, hsig, hexact, hdec₂⟩ := Decodes.cons_iff.mp hdec₁
      dsimp only at hdata
      subst hdata
      exact step_pubKey.mpr ⟨key, hkey, hlen, step_checkSig.mpr ⟨checkSig, hsig, hexact,
        matchTemplate_end.mpr ⟨Decodes.nil_iff.mp hdec₂, rfl⟩⟩⟩

/-- `OP_DUP OP_HASH160 OP_PUBKEYHASH OP_EQUALVERIFY OP_CHECKSIG` -/
theorem template_pubkeyhash :
    matchTemplate 6 script [OP_DUP, OP_HASH160, OP_PUBKEYHASH, OP_EQUALVERIFY, OP_CHECKSIG] [] = some S ↔
      ∃ ops, Decodes script ops ∧ IsStandard ops .TX_PUBKEYHASH S := by
  have hdup : OP_DUP ≠ OP_PUBKEYS ∧ OP_DUP ≠ OP_PUBKEY ∧ OP_DUP ≠ OP_PUBKEYHASH ∧
      OP_DUP ≠ OP_SMALLINTEGER := by decide
  have hhash : OP_HASH160 ≠ OP_PUBKEYS ∧ OP_HASH160 ≠ OP_PUBKEY ∧ OP_HASH160 ≠ OP_PUBKEYHASH ∧
      OP_HASH160 ≠ OP_SMALLINTEGER := by decide
  have hverify : OP_EQUALVERIFY ≠ OP_PUBKEYS ∧ OP_EQUALVERIFY ≠ OP_PUBKEY ∧
      OP_EQUALVERIFY ≠ OP_PUBKEYHASH ∧ OP_EQUALVERIFY ≠ OP_SMALLINTEGER := by decide
  constructor
  · intro h
    obtain ⟨dup, h₁, hexact₁, h⟩ := (step_exact rfl hdup.1 hdup.2).mp h
    obtain ⟨hash160, h₂, hexact₂, h⟩ := (step_exact rfl hhash.1 hhash.2).mp h
    obtain ⟨hash, h₃, hlen, h⟩ := step_pubKeyHash.mp h
    obtain ⟨equalVerify, h₄, hexact₄, h⟩ := (step_exact rfl hverify.1 hverify.2).mp h
    obtain ⟨checkSig, h₅, hexact₅, h⟩ := step_checkSig.mp h
    obtain ⟨hend, rfl⟩ := matchTemplate_end.mp h
    refine ⟨_, Decodes.cons_iff.mpr ⟨dup, h₁, hexact₁, ?_⟩,
      @IsStandard.pubkeyhash hash.opcode _ hlen⟩
    refine Decodes.cons_iff.mpr ⟨hash160, h₂, hexact₂, ?_⟩
    refine Decodes.cons_iff.mpr ⟨hash, h₃, ⟨rfl, rfl⟩, ?_⟩
    refine Decodes.cons_iff.mpr ⟨equalVerify, h₄, hexact₄, ?_⟩
    exact Decodes.cons_iff.mpr ⟨checkSig, h₅, hexact₅, Decodes.nil_iff.mpr hend⟩
  · rintro ⟨ops, hdec, hstd⟩
    cases hstd with
    | @pubkeyhash _ vch hlen =>
      obtain ⟨dup, h₁, hexact₁, hdec₁⟩ := Decodes.cons_iff.mp hdec
      obtain ⟨hash160, h₂, hexact₂, hdec₂⟩ := Decodes.cons_iff.mp hdec₁
      obtain ⟨hash, h₃, ⟨-, hdata⟩, hdec₃⟩ := Decodes.cons_iff.mp hdec₂
      obtain ⟨equalVerify, h₄, hexact₄, hdec₄⟩ := Decodes.cons_iff.mp hdec₃
      obtain ⟨checkSig, h₅, hexact₅, hdec₅⟩ := Decodes.cons_iff.mp hdec₄
      dsimp only at hdata
      subst hdata
      refine (step_exact rfl hdup.1 hdup.2).mpr ⟨dup, h₁, hexact₁, ?_⟩
      refine (step_exact rfl hhash.1 hhash.2).mpr ⟨hash160, h₂, hexact₂, ?_⟩
      refine step_pubKeyHash.mpr ⟨hash, h₃, hlen, ?_⟩
      refine (step_exact rfl hverify.1 hverify.2).mpr ⟨equalVerify, h₄, hexact₄, ?_⟩
      exact step_checkSig.mpr ⟨checkSig, h₅, hexact₅,
        matchTemplate_end.mpr ⟨Decodes.nil_iff.mp hdec₅, rfl⟩⟩

/-- `OP_SMALLINTEGER OP_PUBKEYS OP_SMALLINTEGER OP_CHECKMULTISIG`: any two small integers so far, and any
    number of keys. -/
theorem template_multisig :
    matchTemplate 5 script [OP_SMALLINTEGER, OP_PUBKEYS, OP_SMALLINTEGER, OP_CHECKMULTISIG] [] = some S ↔
      ∃ (m n : Nat) (keys : List Instruction), m ≤ 16 ∧ n ≤ 16 ∧
        (∀ key ∈ keys, 33 ≤ key.data.length ∧ key.data.length ≤ 120) ∧
        Decodes script (⟨encodeOP_N m, []⟩ :: (keys ++ [⟨encodeOP_N n, []⟩, ⟨OP_CHECKMULTISIG, []⟩])) ∧
        S = [UInt8.ofNat m] :: (keys.map Instruction.data ++ [[UInt8.ofNat n]]) := by
  have hcheck : OP_CHECKMULTISIG ≠ OP_PUBKEYS ∧ OP_CHECKMULTISIG ≠ OP_PUBKEY ∧
      OP_CHECKMULTISIG ≠ OP_PUBKEYHASH ∧ OP_CHECKMULTISIG ≠ OP_SMALLINTEGER := by decide
  constructor
  · intro h
    obtain ⟨required, h₁, hm, h⟩ := step_smallInteger.mp h
    obtain ⟨first, h₂, vSolutions', hmatch, h⟩ :=
      (matchTemplate_pubKeys (show getOp [OP_PUBKEYS, OP_SMALLINTEGER, OP_CHECKMULTISIG] =
        some ⟨OP_PUBKEYS, [], [OP_SMALLINTEGER, OP_CHECKMULTISIG]⟩ from rfl) rfl
        (show getOp [OP_SMALLINTEGER, OP_CHECKMULTISIG] =
          some ⟨OP_SMALLINTEGER, [], [OP_CHECKMULTISIG]⟩ from rfl)).mp h
    obtain ⟨hn, rfl⟩ := matchOp_smallInteger.mp hmatch
    obtain ⟨keys, hkeys, hsol, hdec⟩ := takePubKeys_sound h₂ hn
    obtain ⟨checkMultisig, h₃, hexact, h⟩ := (step_exact rfl hcheck.1 hcheck.2).mp h
    obtain ⟨hend, rfl⟩ := matchTemplate_end.mp h
    generalize (takePubKeys (required.rest.length + 1) first
      ([] ++ [[UInt8.ofNat (decodeOP_N required.opcode)]])).1 = vSolutions' at hsol
    generalize hcount : (takePubKeys (required.rest.length + 1) first
      ([] ++ [[UInt8.ofNat (decodeOP_N required.opcode)]])).2 = count at hn hdec h₃
    obtain ⟨hm16, hmop⟩ := isSmallInteger_iff.mp hm
    obtain ⟨hn16, hnop⟩ := isSmallInteger_iff.mp hn
    have hrest := hdec _ (Decodes.exact h₃ hexact (Decodes.nil_iff.mpr hend))
    refine ⟨_, _, keys, hm16, hn16, hkeys, Decodes.exact h₁ ⟨hmop, data_of_smallInteger h₁ hm⟩ ?_, ?_⟩
    · rw [← smallInteger_eq hrest hn]
      exact hrest
    · rw [hsol]
      simp
  · rintro ⟨m, n, keys, hm, hn, hkeys, hdec, rfl⟩
    obtain ⟨required, h₁, ⟨hmop, -⟩, hdec₁⟩ := Decodes.cons_iff.mp hdec
    dsimp only at hmop
    obtain ⟨first, h₂⟩ := hdec₁.first (by simp)
    obtain ⟨hsol, hstop, hdec₂⟩ := @takePubKeys_complete ⟨encodeOP_N n, []⟩ [⟨OP_CHECKMULTISIG, []⟩] rfl keys
      (required.rest.length + 1) required.rest first ([] ++ [[UInt8.ofNat (decodeOP_N required.opcode)]])
      (Nat.lt_succ_self _) hkeys h₂ hdec₁
    obtain ⟨checkMultisig, h₃, hexact, hdec₃⟩ := Decodes.cons_iff.mp hdec₂
    refine step_smallInteger.mpr ⟨required, h₁, by rw [hmop]; exact isSmallInteger_encodeOP_N hm, ?_⟩
    refine (matchTemplate_pubKeys (show getOp [OP_PUBKEYS, OP_SMALLINTEGER, OP_CHECKMULTISIG] =
        some ⟨OP_PUBKEYS, [], [OP_SMALLINTEGER, OP_CHECKMULTISIG]⟩ from rfl) rfl
        (show getOp [OP_SMALLINTEGER, OP_CHECKMULTISIG] =
          some ⟨OP_SMALLINTEGER, [], [OP_CHECKMULTISIG]⟩ from rfl)).mpr ⟨first, h₂, _,
        matchOp_smallInteger.mpr ⟨?_, rfl⟩, ?_⟩
    · rw [(Instruction.mk.inj hstop).1]
      exact isSmallInteger_encodeOP_N hn
    · refine (step_exact rfl hcheck.1 hcheck.2).mpr ⟨checkMultisig, h₃, hexact,
        matchTemplate_end.mpr ⟨Decodes.nil_iff.mp hdec₃, ?_⟩⟩
      rw [hsol, (Instruction.mk.inj hstop).1, hmop, decodeOP_N_encodeOP_N hm, decodeOP_N_encodeOP_N hn]
      simp

end Templates

/-! ## Pay-to-script-hash -/

/-- An instruction that carries no data is one byte. -/
theorem eq_cons_of_getOp {script : CScript} {op : ScriptOp} (h : getOp script = some op)
    (hop : ¬ op.opcode ≤ OP_PUSHDATA4) : script = op.opcode :: op.rest := by
  cases script with
  | nil => cases h
  | cons opcode pc =>
    rw [getOp_opcode h] at hop ⊢
    unfold getOp at h
    dsimp only at h
    rw [if_neg hop] at h
    cases h
    rfl

/-- The extra-fast test finds what decodes so. -/
theorem isPayToScriptHash_iff {script hash : List UInt8} :
    isPayToScriptHash script = true ∧ (script.drop 2).take 20 = hash ↔
      hash.length = 20 ∧ Decodes script [⟨OP_HASH160, []⟩, ⟨0x14, hash⟩, ⟨OP_EQUAL, []⟩] := by
  constructor
  · rintro ⟨h, rfl⟩
    obtain ⟨hlen, h0, h1, h22⟩ := of_decide_eq_true h
    match script, hlen with
    | a :: b :: tail, hlen =>
      have htail : tail.length = 21 := by
        simp only [List.length_cons] at hlen
        omega
      obtain rfl : a = OP_HASH160 := h0
      obtain rfl : b = 0x14 := h1
      refine ⟨by simp [htail], ?_⟩
      have hpush : getOp (0x14 :: tail) = some ⟨0x14, tail.take 20, tail.drop 20⟩ := by
        show takeOperand 0x14 20 tail = _
        unfold takeOperand
        rw [if_neg (by omega)]
      have hlast : tail.drop 20 = [OP_EQUAL] := by
        have hget : tail.getD 20 0 = OP_EQUAL := h22
        rw [List.drop_eq_getElem_cons (by omega), List.drop_eq_nil_of_le (by omega)]
        rw [List.getD_eq_getElem?_getD, List.getElem?_eq_getElem (by omega)] at hget
        rw [← hget]
        rfl
      refine @Decodes.exact _ _ ⟨OP_HASH160, [], 0x14 :: tail⟩ _ rfl ⟨rfl, rfl⟩ ?_
      refine Decodes.cons_iff.mpr ⟨_, hpush, ⟨rfl, rfl⟩, ?_⟩
      dsimp only
      rw [hlast]
      exact @Decodes.exact _ _ ⟨OP_EQUAL, [], []⟩ _ rfl ⟨rfl, rfl⟩ .nil
  · rintro ⟨hlen, h⟩
    obtain ⟨hash160, h₁, ⟨hop₁, -⟩, hdec₁⟩ := Decodes.cons_iff.mp h
    obtain ⟨push, h₂, ⟨hop₂, hdata⟩, hdec₂⟩ := Decodes.cons_iff.mp hdec₁
    obtain ⟨equal, h₃, ⟨hop₃, -⟩, hdec₃⟩ := Decodes.cons_iff.mp hdec₂
    dsimp only at hop₁ hop₂ hop₃ hdata
    have hfirst := eq_cons_of_getOp h₁ (by rw [hop₁]; decide)
    have hthird := eq_cons_of_getOp h₃ (by rw [hop₃]; decide)
    rw [hop₁] at hfirst
    rw [hop₃, Decodes.nil_iff.mp hdec₃] at hthird
    -- the push is direct: its opcode is the length of what it pushes
    have hsecond : hash160.rest = 0x14 :: (hash ++ push.rest) := by
      cases hpc : hash160.rest with
      | nil => rw [hpc] at h₂; cases h₂
      | cons opcode pc =>
        rw [hpc] at h₂
        obtain rfl : opcode = 0x14 := by rw [← getOp_opcode h₂, hop₂]
        have htake : takeOperand 0x14 20 pc = some push := h₂
        unfold takeOperand at htake
        split at htake
        · cases htake
        · cases htake
          dsimp only at hdata ⊢
          rw [← hdata, List.take_append_drop]
    rw [hfirst, hsecond, hthird]
    refine ⟨decide_eq_true ⟨by simp [hlen], rfl, rfl, ?_⟩, ?_⟩
    · show (hash ++ [OP_EQUAL]).getD 20 0 = OP_EQUAL
      simp [List.getD_eq_getElem?_getD, hlen]
    · show (hash ++ [OP_EQUAL]).take 20 = hash
      rw [List.take_append_of_le_length (by omega), List.take_of_length_le (by omega)]

/-! ## `Solver` accepts exactly the four shapes -/

/-- The last instruction tells the type, and the length tells the two that end in `OP_CHECKSIG` apart. -/
def kindOf (ops : List Instruction) : txnouttype :=
  match ops.getLast? with
  | none => .TX_NONSTANDARD
  | some last =>
    if last.opcode = OP_EQUAL then .TX_SCRIPTHASH
    else if last.opcode = OP_CHECKMULTISIG then .TX_MULTISIG
    else if ops.length = 2 then .TX_PUBKEY
    else .TX_PUBKEYHASH

theorem IsStandard.kind {ops : List Instruction} {t : txnouttype} {S : List (List UInt8)}
    (h : IsStandard ops t S) : t = kindOf ops := by
  cases h with
  | scripthash _ => rfl
  | pubkey _ => rfl
  | pubkeyhash _ => rfl
  | @multisig m n keys _ _ _ _ _ =>
    unfold kindOf
    have hlast : (⟨encodeOP_N m, []⟩ :: (keys ++ [⟨encodeOP_N n, []⟩, ⟨OP_CHECKMULTISIG, []⟩])).getLast? =
        some (⟨OP_CHECKMULTISIG, []⟩ : Instruction) := by
      rw [List.getLast?_cons, List.getLast?_append]
      rfl
    rw [hlast]
    rfl

theorem checkMultisig_eq {m n : Nat} (hm : m ≤ 16) (hn : n ≤ 16) (keys : List (List UInt8)) :
    checkMultisig ([UInt8.ofNat m] :: (keys ++ [[UInt8.ofNat n]])) = true ↔
      1 ≤ m ∧ m ≤ n ∧ n = keys.length := by
  have hmn : (UInt8.ofNat m).toNat = m := UInt8.toNat_ofNat_of_lt' (Nat.lt_of_le_of_lt hm (by decide))
  have hnn : (UInt8.ofNat n).toNat = n := UInt8.toNat_ofNat_of_lt' (Nat.lt_of_le_of_lt hn (by decide))
  have hlast : ([UInt8.ofNat m] :: (keys ++ [[UInt8.ofNat n]])).getLastD [] = [UInt8.ofNat n] := by
    rw [List.getLastD_eq_getLast?, List.getLast?_cons, List.getLast?_append]
    rfl
  have h1 : (1 : UInt8).toNat = 1 := rfl
  unfold checkMultisig
  simp only [hlast, List.headD_cons, List.length_cons, List.length_append, List.length_nil,
    Bool.not_eq_true', decide_eq_false_iff_not, UInt8.lt_iff_toNat_lt, gt_iff_lt, hmn, hnn, h1]
  omega

theorem scanTemplates_none {script script2 : CScript} {type : txnouttype}
    {rest : List (txnouttype × CScript)}
    (h : matchTemplate (script2.length + 1) script script2 [] = none) :
    scanTemplates script ((type, script2) :: rest) = scanTemplates script rest := by
  rw [scanTemplates, h]

theorem scanTemplates_some {script script2 : CScript} {type : txnouttype}
    {rest : List (txnouttype × CScript)} {S : List (List UInt8)}
    (h : matchTemplate (script2.length + 1) script script2 [] = some S) :
    scanTemplates script ((type, script2) :: rest) =
      (if type = .TX_MULTISIG then checkMultisig S else true, type, S) := by
  rw [scanTemplates, h]

/-- What `Solver` accepts is standard. -/
theorem standard_of_solver {script : CScript} {t : txnouttype} {S : List (List UInt8)}
    (h : solver script [] = (true, t, S)) : ∃ ops, Decodes script ops ∧ IsStandard ops t S := by
  unfold solver at h
  by_cases hp2sh : isPayToScriptHash script = true
  · rw [if_pos hp2sh] at h
    obtain ⟨hlen, hdec⟩ := isPayToScriptHash_iff.mp ⟨hp2sh, rfl⟩
    simp only [Prod.mk.injEq, true_and, List.nil_append] at h
    obtain ⟨rfl, rfl⟩ := h
    exact ⟨_, hdec, .scripthash hlen⟩
  rw [if_neg hp2sh] at h
  unfold mTemplates at h
  cases h₁ : matchTemplate 3 script [OP_PUBKEY, OP_CHECKSIG] [] with
  | some S₁ =>
    rw [scanTemplates_some h₁] at h
    cases h
    exact template_pubkey.mp h₁
  | none =>
    rw [scanTemplates_none h₁] at h
    cases h₂ : matchTemplate 6 script [OP_DUP, OP_HASH160, OP_PUBKEYHASH, OP_EQUALVERIFY, OP_CHECKSIG]
        [] with
    | some S₂ =>
      rw [scanTemplates_some h₂] at h
      cases h
      exact template_pubkeyhash.mp h₂
    | none =>
      rw [scanTemplates_none h₂] at h
      cases h₃ : matchTemplate 5 script
          [OP_SMALLINTEGER, OP_PUBKEYS, OP_SMALLINTEGER, OP_CHECKMULTISIG] [] with
      | none =>
        rw [scanTemplates_none h₃] at h
        cases h
      | some S₃ =>
        rw [scanTemplates_some h₃] at h
        obtain ⟨m, n, keys, hm, hn, hkeys, hdec, hS⟩ := template_multisig.mp h₃
        rw [if_pos rfl] at h
        simp only [Prod.mk.injEq] at h
        obtain ⟨hcheck, rfl, rfl⟩ := h
        rw [hS] at hcheck ⊢
        obtain ⟨h1, hmn, hlen⟩ := (checkMultisig_eq hm hn _).mp hcheck
        rw [List.length_map] at hlen
        exact ⟨_, hdec, .multisig hkeys h1 hmn hlen hn⟩

/-- Two standard readings of one script are of one type. -/
theorem kind_unique {script : CScript} {ops ops' : List Instruction} {t t' : txnouttype}
    {S S' : List (List UInt8)} (hdec : Decodes script ops) (hstd : IsStandard ops t S)
    (hdec' : Decodes script ops') (hstd' : IsStandard ops' t' S') : t = t' := by
  rw [hstd.kind, hstd'.kind, hdec.unique hdec']

theorem not_payToScriptHash {script : CScript} {ops : List Instruction} {t : txnouttype}
    {S : List (List UInt8)} (hdec : Decodes script ops) (hstd : IsStandard ops t S)
    (ht : t ≠ .TX_SCRIPTHASH) : ¬ isPayToScriptHash script = true := by
  intro hp2sh
  obtain ⟨hlen, hdec'⟩ := isPayToScriptHash_iff.mp ⟨hp2sh, rfl⟩
  exact ht (kind_unique hdec hstd hdec' (.scripthash hlen))

/-- And it accepts what is standard, with what is pushed. -/
theorem solver_of_standard {script : CScript} {ops : List Instruction} {t : txnouttype}
    {S : List (List UInt8)} (hdec : Decodes script ops) (hstd : IsStandard ops t S) :
    solver script [] = (true, t, S) := by
  -- a template of one type does not match what is of another
  have hother : ∀ {t' : txnouttype} {r : Option (List (List UInt8))}, t' ≠ t →
      (∀ {S'}, r = some S' ↔ ∃ ops, Decodes script ops ∧ IsStandard ops t' S') → r = none := by
    intro t' r hne hr
    cases hr' : r with
    | none => rfl
    | some S' =>
      obtain ⟨ops', hdec', hstd'⟩ := hr.mp hr'
      exact absurd (kind_unique hdec' hstd' hdec hstd) hne
  unfold solver mTemplates
  cases t with
  | TX_NONSTANDARD => cases hstd
  | TX_SCRIPTHASH =>
    cases hstd with
    | scripthash hlen =>
      obtain ⟨hp2sh, hhash⟩ := isPayToScriptHash_iff.mpr ⟨hlen, hdec⟩
      rw [if_pos hp2sh, hhash]
      rfl
  | TX_PUBKEY =>
    rw [if_neg (not_payToScriptHash hdec hstd (by simp)),
      scanTemplates_some (template_pubkey.mpr ⟨ops, hdec, hstd⟩)]
    rfl
  | TX_PUBKEYHASH =>
    rw [if_neg (not_payToScriptHash hdec hstd (by simp)),
      scanTemplates_none (hother (by simp) template_pubkey),
      scanTemplates_some (template_pubkeyhash.mpr ⟨ops, hdec, hstd⟩)]
    rfl
  | TX_MULTISIG =>
    rw [if_neg (not_payToScriptHash hdec hstd (by simp)),
      scanTemplates_none (hother (by simp) template_pubkey),
      scanTemplates_none (hother (by simp) template_pubkeyhash)]
    cases hstd with
    | @multisig m n keys hkeys hm hmn hn h16 =>
      have hm16 : m ≤ 16 := by omega
      rw [scanTemplates_some (template_multisig.mpr ⟨m, n, keys, hm16, h16, hkeys, hdec, rfl⟩), if_pos rfl,
        (checkMultisig_eq hm16 h16 _).mpr ⟨hm, hmn, by rw [List.length_map]; exact hn⟩]

/-- `Solver` returns true with a type and solutions if and only if the script decodes to an instance of
    that type, and the solutions are what it pushes. -/
theorem solver_iff (script : CScript) (t : txnouttype) (S : List (List UInt8)) :
    solver script [] = (true, t, S) ↔ ∃ ops, Decodes script ops ∧ IsStandard ops t S := by
  constructor
  · exact standard_of_solver
  · rintro ⟨ops, hdec, hstd⟩
    exact solver_of_standard hdec hstd

/-! ## What the staker and the wallet ask -/

/-- The solutions, read as what they stand for. -/
def solutionOf : txnouttype → List (List UInt8) → Option Solution
  | .TX_PUBKEY, [vchPubKey] => some (.TX_PUBKEY vchPubKey)
  | .TX_PUBKEYHASH, [hash] => some (.TX_PUBKEYHASH (uint160 hash))
  | .TX_SCRIPTHASH, [hash] => some (.TX_SCRIPTHASH (uint160 hash))
  | .TX_MULTISIG, m :: rest => some (.TX_MULTISIG (m.headD 0).toNat rest.dropLast)
  | _, _ => none

theorem solutionOf_multisig {m : Nat} (hm : m ≤ 16) (keys : List (List UInt8)) (n : List UInt8) :
    solutionOf .TX_MULTISIG ([UInt8.ofNat m] :: (keys ++ [n])) = some (.TX_MULTISIG m keys) := by
  have hm' : (UInt8.ofNat m).toNat = m := UInt8.toNat_ofNat_of_lt' (Nat.lt_of_le_of_lt hm (by decide))
  show some (Solution.TX_MULTISIG (UInt8.ofNat m).toNat (keys ++ [n]).dropLast) = _
  rw [hm', List.dropLast_concat]

section Wallet

variable {script : CScript} {vch : List UInt8}

theorem guard_bind {p : Prop} [Decidable p] {β : Type} {f : Unit → Option β} {b : β} :
    ((guard p : Option Unit) >>= f) = some b ↔ p ∧ f () = some b := by
  by_cases h : p <;> simp [h]

theorem solvePubKey_iff : solvePubKey script = some vch ↔
    ∃ ops, Decodes script ops ∧ IsStandard ops .TX_PUBKEY [vch] := by
  unfold solvePubKey
  constructor
  · intro h
    obtain ⟨pubKey, hkey, h⟩ := Option.bind_eq_some_iff.mp h
    obtain ⟨hlen, h⟩ := guard_bind.mp h
    obtain ⟨checkSig, hsig, h⟩ := Option.bind_eq_some_iff.mp h
    obtain ⟨⟨hop, hend⟩, h⟩ := guard_bind.mp h
    cases h
    exact ⟨_, .cons hkey (Decodes.opcode hsig hop (by decide) hend), .pubkey hlen⟩
  · rintro ⟨ops, hdec, hstd⟩
    cases hstd with
    | pubkey hlen =>
      obtain ⟨key, hkey, ⟨-, hdata⟩, hdec₁⟩ := Decodes.cons_iff.mp hdec
      obtain ⟨checkSig, hsig, ⟨hop, -⟩, hdec₂⟩ := Decodes.cons_iff.mp hdec₁
      dsimp only at hdata hop
      subst hdata
      refine Option.bind_eq_some_iff.mpr ⟨key, hkey, guard_bind.mpr ⟨hlen, ?_⟩⟩
      exact Option.bind_eq_some_iff.mpr ⟨checkSig, hsig,
        guard_bind.mpr ⟨⟨hop, Decodes.nil_iff.mp hdec₂⟩, rfl⟩⟩

theorem solvePubKeyHash_iff : solvePubKeyHash script = some vch ↔
    ∃ ops, Decodes script ops ∧ IsStandard ops .TX_PUBKEYHASH [vch] := by
  unfold solvePubKeyHash
  constructor
  · intro h
    obtain ⟨dup, h₁, h⟩ := Option.bind_eq_some_iff.mp h
    obtain ⟨hop₁, h⟩ := guard_bind.mp h
    obtain ⟨hash160, h₂, h⟩ := Option.bind_eq_some_iff.mp h
    obtain ⟨hop₂, h⟩ := guard_bind.mp h
    obtain ⟨hash, h₃, h⟩ := Option.bind_eq_some_iff.mp h
    obtain ⟨hlen, h⟩ := guard_bind.mp h
    obtain ⟨equalVerify, h₄, h⟩ := Option.bind_eq_some_iff.mp h
    obtain ⟨hop₄, h⟩ := guard_bind.mp h
    obtain ⟨checkSig, h₅, h⟩ := Option.bind_eq_some_iff.mp h
    obtain ⟨⟨hop₅, hend⟩, h⟩ := guard_bind.mp h
    cases h
    refine ⟨_, Decodes.exact h₁ ⟨hop₁, getOp_data h₁ (by rw [hop₁]; decide)⟩ ?_,
      @IsStandard.pubkeyhash hash.opcode _ hlen⟩
    refine Decodes.exact h₂ ⟨hop₂, getOp_data h₂ (by rw [hop₂]; decide)⟩ ?_
    refine Decodes.cons h₃ ?_
    refine Decodes.exact h₄ ⟨hop₄, getOp_data h₄ (by rw [hop₄]; decide)⟩ ?_
    exact Decodes.opcode h₅ hop₅ (by decide) hend
  · rintro ⟨ops, hdec, hstd⟩
    cases hstd with
    | pubkeyhash hlen =>
      obtain ⟨dup, h₁, ⟨hop₁, -⟩, hdec₁⟩ := Decodes.cons_iff.mp hdec
      obtain ⟨hash160, h₂, ⟨hop₂, -⟩, hdec₂⟩ := Decodes.cons_iff.mp hdec₁
      obtain ⟨hash, h₃, ⟨-, hdata⟩, hdec₃⟩ := Decodes.cons_iff.mp hdec₂
      obtain ⟨equalVerify, h₄, ⟨hop₄, -⟩, hdec₄⟩ := Decodes.cons_iff.mp hdec₃
      obtain ⟨checkSig, h₅, ⟨hop₅, -⟩, hdec₅⟩ := Decodes.cons_iff.mp hdec₄
      dsimp only at hdata
      subst hdata
      refine Option.bind_eq_some_iff.mpr ⟨dup, h₁, guard_bind.mpr ⟨hop₁, ?_⟩⟩
      refine Option.bind_eq_some_iff.mpr ⟨hash160, h₂, guard_bind.mpr ⟨hop₂, ?_⟩⟩
      refine Option.bind_eq_some_iff.mpr ⟨hash, h₃, guard_bind.mpr ⟨hlen, ?_⟩⟩
      refine Option.bind_eq_some_iff.mpr ⟨equalVerify, h₄, guard_bind.mpr ⟨hop₄, ?_⟩⟩
      exact Option.bind_eq_some_iff.mpr ⟨checkSig, h₅,
        guard_bind.mpr ⟨⟨hop₅, Decodes.nil_iff.mp hdec₅⟩, rfl⟩⟩

theorem solveSmallInteger_iff {opcode : UInt8} {n : Nat} : solveSmallInteger opcode = some n ↔
    isSmallInteger opcode = true ∧ decodeOP_N opcode = n := by
  unfold solveSmallInteger isSmallInteger
  refine guard_bind.trans ?_
  rw [decide_eq_true_iff]
  exact and_congr_right fun _ => Option.some_inj

/-- The wallet's loop over the keys is the inner loop: it ends where that one does, -/
theorem solvePubKeys_some : ∀ {fuel : Nat} {op : ScriptOp} {keys : List (List UInt8)}
    {r : List (List UInt8) × ScriptOp}, solvePubKeys fuel op keys = some r → takePubKeys fuel op keys = r
  | 0, _, _, _, h => by cases h
  | fuel + 1, op, keys, r, h => by
    unfold solvePubKeys at h
    unfold takePubKeys isKey
    by_cases hkey : 33 ≤ op.data.length ∧ op.data.length ≤ 120
    · rw [if_pos hkey] at h
      rw [if_pos (decide_eq_true hkey)]
      cases hnext : getOp op.rest with
      | none => rw [hnext] at h; cases h
      | some next =>
        rw [hnext] at h
        rw [getOp2_some hnext]
        exact solvePubKeys_some h
    · rw [if_neg hkey] at h
      rw [if_neg (by rw [decide_eq_true_iff]; exact hkey)]
      exact Option.some.inj h

/-- and if a small integer follows it ends. -/
theorem solvePubKeys_of_small : ∀ {fuel : Nat} {op : ScriptOp} {keys : List (List UInt8)},
    op.rest.length < fuel → isSmallInteger (takePubKeys fuel op keys).2.opcode = true →
    solvePubKeys fuel op keys = some (takePubKeys fuel op keys)
  | fuel + 1, op, keys, hfuel, hsmall => by
    unfold takePubKeys isKey at hsmall ⊢
    unfold solvePubKeys
    by_cases hkey : 33 ≤ op.data.length ∧ op.data.length ≤ 120
    · rw [if_pos (decide_eq_true hkey)] at hsmall ⊢
      rw [if_pos hkey]
      cases hnext : getOp op.rest with
      | none =>
        obtain ⟨hfalse, hinvalid⟩ := getOp2_none hnext
        rw [if_neg (by rw [hfalse]; simp)] at hsmall
        dsimp only at hsmall
        rw [hinvalid] at hsmall
        cases hsmall
      | some next =>
        have hshrinks := getOp_shrinks hnext
        rw [getOp2_some hnext] at hsmall ⊢
        exact solvePubKeys_of_small (by omega) hsmall
    · rw [if_neg hkey, if_neg (by rw [decide_eq_true_iff]; exact hkey)]

theorem solveMultisig_iff {m : Nat} {keys : List (List UInt8)} : solveMultisig script = some (m, keys) ↔
    m ≤ 16 ∧ ∃ ops, Decodes script ops ∧
      IsStandard ops .TX_MULTISIG ([UInt8.ofNat m] :: (keys ++ [[UInt8.ofNat keys.length]])) := by
  unfold solveMultisig
  constructor
  · intro h
    obtain ⟨required, h₁, h⟩ := Option.bind_eq_some_iff.mp h
    obtain ⟨m', hm, h⟩ := Option.bind_eq_some_iff.mp h
    obtain ⟨first, h₂, h⟩ := Option.bind_eq_some_iff.mp h
    obtain ⟨⟨keys', count⟩, htake, h⟩ := Option.bind_eq_some_iff.mp h
    obtain ⟨n, hn, h⟩ := Option.bind_eq_some_iff.mp h
    obtain ⟨checkMultisig, h₃, h⟩ := Option.bind_eq_some_iff.mp h
    obtain ⟨⟨hop, hend⟩, h⟩ := guard_bind.mp h
    obtain ⟨⟨hm1, -, hmn, hlen⟩, h⟩ := guard_bind.mp h
    cases h
    replace htake := solvePubKeys_some htake
    obtain ⟨hmsmall, rfl⟩ := solveSmallInteger_iff.mp hm
    obtain ⟨hnsmall, rfl⟩ := solveSmallInteger_iff.mp hn
    obtain ⟨instrs, hkeys, hsol, hdec⟩ := takePubKeys_sound h₂ (by rw [htake]; exact hnsmall)
    rw [htake] at hsol hdec
    have hrest := hdec _ (Decodes.opcode h₃ hop (by decide) hend)
    obtain ⟨hm16, hmop⟩ := isSmallInteger_iff.mp hmsmall
    obtain ⟨hn16, -⟩ := isSmallInteger_iff.mp hnsmall
    obtain rfl : keys = instrs.map Instruction.data := hsol
    have hlen' := hlen
    rw [List.length_map] at hlen'
    refine ⟨hm16, _, Decodes.exact h₁ ⟨hmop, data_of_smallInteger h₁ hmsmall⟩ hrest, ?_⟩
    rw [smallInteger_eq hrest hnsmall, hlen]
    exact .multisig hkeys hm1 hmn hlen'.symm hn16
  · rintro ⟨hm16, ops, hdec, hstd⟩
    generalize hS : ([UInt8.ofNat m] :: (keys ++ [[UInt8.ofNat keys.length]])) = S at hstd
    cases hstd with
    | @multisig m' n instrs hkeys hm1 hmn hlen h16 =>
      obtain ⟨hm, hS⟩ := List.cons.inj hS
      obtain ⟨hkeysEq, -⟩ := List.append_inj' hS rfl
      obtain rfl : m = m' := ofNat_toNat_lt (by omega) (by omega) (List.cons.inj hm).1
      obtain ⟨required, h₁, ⟨hmop, -⟩, hdec₁⟩ := Decodes.cons_iff.mp hdec
      dsimp only at hmop
      obtain ⟨first, h₂⟩ := hdec₁.first (by simp)
      have hshort := getOp_shrinks h₁
      have hshort' := getOp_shrinks h₂
      obtain ⟨hsol, hstop, hdec₂⟩ := @takePubKeys_complete ⟨encodeOP_N n, []⟩ [⟨OP_CHECKMULTISIG, []⟩] rfl
        instrs script.length required.rest first [] hshort hkeys h₂ hdec₁
      obtain ⟨checkMultisig, h₃, ⟨hop, -⟩, hdec₃⟩ := Decodes.cons_iff.mp hdec₂
      dsimp only at hop
      have hnop := (Instruction.mk.inj hstop).1
      have hsmall : ∀ {k : Nat}, k ≤ 16 → solveSmallInteger (encodeOP_N k) = some k := fun hk =>
        solveSmallInteger_iff.mpr ⟨isSmallInteger_encodeOP_N hk, decodeOP_N_encodeOP_N hk⟩
      have htake := @solvePubKeys_of_small script.length first [] (by omega)
        (by rw [hnop]; exact isSmallInteger_encodeOP_N h16)
      refine Option.bind_eq_some_iff.mpr ⟨required, h₁, ?_⟩
      refine Option.bind_eq_some_iff.mpr ⟨m, by rw [hmop]; exact hsmall hm16, ?_⟩
      refine Option.bind_eq_some_iff.mpr ⟨first, h₂, ?_⟩
      refine Option.bind_eq_some_iff.mpr ⟨_, htake, ?_⟩
      refine Option.bind_eq_some_iff.mpr ⟨n, by rw [hnop]; exact hsmall h16, ?_⟩
      refine Option.bind_eq_some_iff.mpr ⟨checkMultisig, h₃, ?_⟩
      refine guard_bind.mpr ⟨⟨hop, Decodes.nil_iff.mp hdec₃⟩, guard_bind.mpr ⟨?_, ?_⟩⟩
      · rw [hsol, List.nil_append, List.length_map]
        omega
      · rw [hsol, hkeysEq]
        rfl

/-- What the wallet finds in a script is what `Solver` finds there. -/
theorem solveScript_iff {solution : Solution} : solveScript script = some solution ↔
    ∃ ops t S, Decodes script ops ∧ IsStandard ops t S ∧ solutionOf t S = some solution := by
  unfold solveScript
  constructor
  · intro h
    by_cases hp2sh : isPayToScriptHash script = true
    · rw [if_pos hp2sh] at h
      obtain ⟨hlen, hdec⟩ := isPayToScriptHash_iff.mp ⟨hp2sh, rfl⟩
      exact ⟨_, _, _, hdec, .scripthash hlen, h⟩
    · rw [if_neg hp2sh] at h
      unfold Silkcoin.solver at h
      cases hpk : solvePubKey script with
      | some vch =>
        rw [hpk] at h
        obtain ⟨ops, hdec, hstd⟩ := solvePubKey_iff.mp hpk
        exact ⟨ops, _, _, hdec, hstd, h⟩
      | none =>
        rw [hpk] at h
        cases hpkh : solvePubKeyHash script with
        | some vch =>
          rw [hpkh] at h
          obtain ⟨ops, hdec, hstd⟩ := solvePubKeyHash_iff.mp hpkh
          exact ⟨ops, _, _, hdec, hstd, h⟩
        | none =>
          rw [hpkh] at h
          obtain ⟨⟨m, keys⟩, hmulti, rfl⟩ := Option.map_eq_some_iff.mp h
          obtain ⟨hm16, ops, hdec, hstd⟩ := solveMultisig_iff.mp hmulti
          exact ⟨ops, _, _, hdec, hstd, solutionOf_multisig hm16 keys _⟩
  · rintro ⟨ops, t, S, hdec, hstd, hsol⟩
    -- a solver of another type finds nothing
    have hother : ∀ {t' : txnouttype} {r : Option (List UInt8)}, t' ≠ t →
        (∀ {vch}, r = some vch ↔ ∃ ops, Decodes script ops ∧ IsStandard ops t' [vch]) → r = none := by
      intro t' r hne hr
      cases hr' : r with
      | none => rfl
      | some vch =>
        obtain ⟨ops', hdec', hstd'⟩ := hr.mp hr'
        exact absurd (kind_unique hdec' hstd' hdec hstd) hne
    unfold Silkcoin.solver
    cases hstd with
    | scripthash hlen =>
      obtain ⟨hp2sh, hhash⟩ := isPayToScriptHash_iff.mpr ⟨hlen, hdec⟩
      rw [if_pos hp2sh, hhash]
      exact hsol
    | @pubkey push _ hkey =>
      have hstd := @IsStandard.pubkey push _ hkey
      rw [if_neg (not_payToScriptHash hdec hstd (by simp)), solvePubKey_iff.mpr ⟨_, hdec, hstd⟩]
      exact hsol
    | @pubkeyhash push _ hlen =>
      have hstd := @IsStandard.pubkeyhash push _ hlen
      rw [if_neg (not_payToScriptHash hdec hstd (by simp)), hother (by simp) solvePubKey_iff,
        solvePubKeyHash_iff.mpr ⟨_, hdec, hstd⟩]
      exact hsol
    | @multisig m n instrs hkeys hm hmn hn h16 =>
      have hstd := IsStandard.multisig hkeys hm hmn hn h16
      have hlen : (instrs.map Instruction.data).length = n := by rw [List.length_map, hn]
      have hmulti : solveMultisig script = some (m, instrs.map Instruction.data) := by
        refine solveMultisig_iff.mpr ⟨by omega, _, hdec, ?_⟩
        rw [hlen]
        exact hstd
      rw [if_neg (not_payToScriptHash hdec hstd (by simp)), hother (by simp) solvePubKey_iff,
        hother (by simp) solvePubKeyHash_iff, hmulti]
      rw [solutionOf_multisig (by omega)] at hsol
      exact hsol

end Wallet

end Standard

end Silkcoin
