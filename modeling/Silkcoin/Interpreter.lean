/-
  `EvalScript` and `VerifyScript`: the script interpreter, with its signature checks COUNTED.

  The machine is the one of the source: a stack and an alternative stack of byte vectors (here with
  the top FIRST, so that `stacktop(-1)` is the head), the stack of open conditionals, the number of
  counted opcodes, and the part of the script signatures cover.  Every `return false`, and every
  exception the source catches, is a run without a result.

  What is added is the counter.  `CheckSig` is the expensive call, so a run records how often it was
  made, also on the way to a failure: a script that fails after twenty checks has cost twenty
  checks.  `CheckSig` itself (the signature hash, the curve, the cache) and the hash functions are
  parameters; the encoding tests in front of it are modelled.

  The opcodes the source disables never reach the switch, so their cases in it are dead and left
  out.
-/
import Silkcoin.Script
import Silkcoin.Transaction

namespace Silkcoin

/-- What the stack holds: `valtype` of the source. -/
abbrev Valtype := List UInt8

/-! ## Opcodes -/

@[match_pattern] def OP_1NEGATE : UInt8 := 0x4f
@[match_pattern] def OP_NOP : UInt8 := 0x61
@[match_pattern] def OP_IF : UInt8 := 0x63
@[match_pattern] def OP_NOTIF : UInt8 := 0x64
@[match_pattern] def OP_ELSE : UInt8 := 0x67
@[match_pattern] def OP_ENDIF : UInt8 := 0x68
@[match_pattern] def OP_VERIFY : UInt8 := 0x69
@[match_pattern] def OP_RETURN : UInt8 := 0x6a
@[match_pattern] def OP_TOALTSTACK : UInt8 := 0x6b
@[match_pattern] def OP_FROMALTSTACK : UInt8 := 0x6c
@[match_pattern] def OP_2DROP : UInt8 := 0x6d
@[match_pattern] def OP_2DUP : UInt8 := 0x6e
@[match_pattern] def OP_3DUP : UInt8 := 0x6f
@[match_pattern] def OP_2OVER : UInt8 := 0x70
@[match_pattern] def OP_2ROT : UInt8 := 0x71
@[match_pattern] def OP_2SWAP : UInt8 := 0x72
@[match_pattern] def OP_IFDUP : UInt8 := 0x73
@[match_pattern] def OP_DEPTH : UInt8 := 0x74
@[match_pattern] def OP_DROP : UInt8 := 0x75
@[match_pattern] def OP_DUP : UInt8 := 0x76
@[match_pattern] def OP_NIP : UInt8 := 0x77
@[match_pattern] def OP_OVER : UInt8 := 0x78
@[match_pattern] def OP_PICK : UInt8 := 0x79
@[match_pattern] def OP_ROLL : UInt8 := 0x7a
@[match_pattern] def OP_ROT : UInt8 := 0x7b
@[match_pattern] def OP_SWAP : UInt8 := 0x7c
@[match_pattern] def OP_TUCK : UInt8 := 0x7d
@[match_pattern] def OP_CAT : UInt8 := 0x7e
@[match_pattern] def OP_SUBSTR : UInt8 := 0x7f
@[match_pattern] def OP_LEFT : UInt8 := 0x80
@[match_pattern] def OP_RIGHT : UInt8 := 0x81
@[match_pattern] def OP_SIZE : UInt8 := 0x82
@[match_pattern] def OP_INVERT : UInt8 := 0x83
@[match_pattern] def OP_AND : UInt8 := 0x84
@[match_pattern] def OP_OR : UInt8 := 0x85
@[match_pattern] def OP_XOR : UInt8 := 0x86
@[match_pattern] def OP_EQUALVERIFY : UInt8 := 0x88
@[match_pattern] def OP_1ADD : UInt8 := 0x8b
@[match_pattern] def OP_1SUB : UInt8 := 0x8c
@[match_pattern] def OP_2MUL : UInt8 := 0x8d
@[match_pattern] def OP_2DIV : UInt8 := 0x8e
@[match_pattern] def OP_NEGATE : UInt8 := 0x8f
@[match_pattern] def OP_ABS : UInt8 := 0x90
@[match_pattern] def OP_NOT : UInt8 := 0x91
@[match_pattern] def OP_0NOTEQUAL : UInt8 := 0x92
@[match_pattern] def OP_ADD : UInt8 := 0x93
@[match_pattern] def OP_SUB : UInt8 := 0x94
@[match_pattern] def OP_MUL : UInt8 := 0x95
@[match_pattern] def OP_DIV : UInt8 := 0x96
@[match_pattern] def OP_MOD : UInt8 := 0x97
@[match_pattern] def OP_LSHIFT : UInt8 := 0x98
@[match_pattern] def OP_RSHIFT : UInt8 := 0x99
@[match_pattern] def OP_BOOLAND : UInt8 := 0x9a
@[match_pattern] def OP_BOOLOR : UInt8 := 0x9b
@[match_pattern] def OP_NUMEQUAL : UInt8 := 0x9c
@[match_pattern] def OP_NUMEQUALVERIFY : UInt8 := 0x9d
@[match_pattern] def OP_NUMNOTEQUAL : UInt8 := 0x9e
@[match_pattern] def OP_LESSTHAN : UInt8 := 0x9f
@[match_pattern] def OP_GREATERTHAN : UInt8 := 0xa0
@[match_pattern] def OP_LESSTHANOREQUAL : UInt8 := 0xa1
@[match_pattern] def OP_GREATERTHANOREQUAL : UInt8 := 0xa2
@[match_pattern] def OP_MIN : UInt8 := 0xa3
@[match_pattern] def OP_MAX : UInt8 := 0xa4
@[match_pattern] def OP_WITHIN : UInt8 := 0xa5
@[match_pattern] def OP_RIPEMD160 : UInt8 := 0xa6
@[match_pattern] def OP_SHA1 : UInt8 := 0xa7
@[match_pattern] def OP_SHA256 : UInt8 := 0xa8
@[match_pattern] def OP_HASH256 : UInt8 := 0xaa
@[match_pattern] def OP_CODESEPARATOR : UInt8 := 0xab
@[match_pattern] def OP_NOP1 : UInt8 := 0xb0
@[match_pattern] def OP_NOP10 : UInt8 := 0xb9

/-- The opcodes a script may not contain, executed or not. -/
def disabledOpcodes : List UInt8 :=
  [OP_CAT, OP_SUBSTR, OP_LEFT, OP_RIGHT, OP_INVERT, OP_AND, OP_OR, OP_XOR, OP_2MUL, OP_2DIV,
    OP_MUL, OP_DIV, OP_MOD, OP_LSHIFT, OP_RSHIFT]

/-! ## Values -/

/-- `CBigNum::setvch` -/
def setvch (vch : Valtype) : Int := mpi2bn vch.reverse

/-- A number off the stack: at most four bytes, else the source throws. -/
def castToBigNum (vch : Valtype) : Option Int :=
  if vch.length > 4 then none else some (setvch (getvch (setvch vch)))

/-- `CBigNum::getint`: the value, cut off at the ends of an `int`. -/
def getint (bn : Int) : Int :=
  if bn.natAbs > 2 ^ 31 - 1 then (if bn < 0 then - 2 ^ 31 else 2 ^ 31 - 1) else bn

/-- Some byte is not zero; a sign bit alone is negative zero. -/
def castToBool : Valtype → Bool
  | [] => false
  | [b] => b ≠ 0 ∧ b ≠ 0x80
  | b :: vch => b ≠ 0 ∨ castToBool vch

def vchFalse : Valtype := []
def vchTrue : Valtype := [1]

def vchBool (f : Bool) : Valtype := if f then vchTrue else vchFalse

/-- A comparison assigned to a `CBigNum`. -/
def bnBool (f : Bool) : Int := if f then 1 else 0

/-! ## Signatures and keys -/

/-- The encodings of public keys the interpreter lets through to `CheckSig`. -/
def isCanonicalPubKey (vchPubKey : Valtype) : Bool :=
  if vchPubKey.length < 33 then false
  else if vchPubKey.getD 0 0 = 0x04 then vchPubKey.length = 65
  else if vchPubKey.getD 0 0 = 0x02 ∨ vchPubKey.getD 0 0 = 0x03 then vchPubKey.length = 33
  else false

/-- One of the two integers of a signature, `len` bytes from `start` on: its type byte is in place,
    and it is there, not negative, and not padded without need. -/
def isCanonicalInteger (vchSig : Valtype) (start len : Nat) : Bool :=
  vchSig.getD (start - 2) 0 = 0x02 ∧ len ≠ 0 ∧ vchSig.getD start 0 &&& 0x80 = 0 ∧
    ¬ (len > 1 ∧ vchSig.getD start 0 = 0 ∧ vchSig.getD (start + 1) 0 &&& 0x80 = 0)

/-- The encodings of signatures the interpreter lets through to `CheckSig`. -/
def isCanonicalSignature (vchSig : Valtype) : Bool :=
  if vchSig.length < 9 ∨ vchSig.length > 73 then false
  else
    let nHashType := vchSig.getD (vchSig.length - 1) 0 &&& 0x7f
    if nHashType < 1 ∨ nHashType > 3 then false
    else if vchSig.getD 0 0 ≠ 0x30 then false
    else if (vchSig.getD 1 0).toNat ≠ vchSig.length - 3 then false
    else
      let nLenR := (vchSig.getD 3 0).toNat
      if 5 + nLenR ≥ vchSig.length then false
      else
        let nLenS := (vchSig.getD (5 + nLenR) 0).toNat
        if nLenR + nLenS + 7 ≠ vchSig.length then false
        else isCanonicalInteger vchSig 4 nLenR && isCanonicalInteger vchSig (6 + nLenR) nLenS &&
          decide (nLenS ≤ 32)

/-- The loop of `FindAndDelete`: at every instruction boundary, drop `b` as often as it is there. -/
def findAndDeleteFrom (b : CScript) : Nat → CScript → CScript
  | 0, script => script
  | fuel + 1, script =>
    if b.isPrefixOf script then findAndDeleteFrom b fuel (script.drop b.length)
    else
      match getOp script with
      | none => script
      | some op =>
        script.take (script.length - op.rest.length) ++ findAndDeleteFrom b fuel op.rest

def findAndDelete (b script : CScript) : CScript :=
  if b = [] then script else findAndDeleteFrom b script.length script

example : findAndDelete [0x51] [0x51, 0x51, 0x01, 0x51, 0x51, 0xac] = [0x01, 0x51, 0xac] := by
  decide

/-! ## The machine -/

/-- What the interpreter is given besides the script: the transaction spending, the input of it,
    and the hash type asked for. -/
structure ScriptContext where
  txTo : CTransaction
  nIn : Nat
  nHashType : Int

/-- The functions the interpreter calls. -/
structure Crypto where
  ripemd160 : Valtype → Valtype
  sha1 : Valtype → Valtype
  sha256 : Valtype → Valtype
  hash160 : Valtype → Valtype
  hash256 : Valtype → Valtype
  /-- `CheckSig(vchSig, vchPubKey, scriptCode, txTo, nIn, nHashType)` -/
  checkSig : Valtype → Valtype → CScript → CTransaction → Nat → Int → Bool

/-- The state between two instructions. -/
structure Machine where
  stack : List Valtype
  altstack : List Valtype
  /-- the open conditionals, innermost first: is this branch taken? -/
  vfExec : List Bool
  nOpCount : Nat
  /-- the script from the last code separator on -/
  scriptCode : CScript

/-- `fExec`: every open conditional takes its branch. -/
def Machine.fExec (m : Machine) : Bool := m.vfExec.all id

/-- How an instruction or a script ends: after how many calls of `CheckSig`, and with what; without
    a result where the source returns false. -/
structure Run (α : Type) where
  checkSigs : Nat
  result : Option α

namespace Run

variable {α β : Type}

/-- No signature was checked. -/
def quiet (result : Option α) : Run α := ⟨0, result⟩

/-- Go on from a result; a failure keeps what it has cost. -/
def bind (r : Run α) (f : α → Run β) : Run β :=
  match r.result with
  | none => ⟨r.checkSigs, none⟩
  | some a => ⟨r.checkSigs + (f a).checkSigs, (f a).result⟩

@[simp] theorem quiet_result (result : Option α) : (quiet result).result = result := rfl

/-- The cost of two stages is bounded stage by stage. -/
theorem bind_checkSigs_le {r : Run α} {f : α → Run β} {k n : Nat} (hr : r.checkSigs ≤ k)
    (hf : ∀ a, r.result = some a → (f a).checkSigs ≤ n) : (r.bind f).checkSigs ≤ k + n := by
  rw [bind]
  split
  · show r.checkSigs ≤ k + n
    omega
  · rename_i a ha
    have := hf a ha
    show r.checkSigs + (f a).checkSigs ≤ k + n
    omega

theorem bind_result {r : Run α} {f : α → Run β} :
    (r.bind f).result = r.result.bind fun a => (f a).result := by
  rw [bind]
  split
  · rename_i hr
    rw [hr]
    rfl
  · rename_i a hr
    rw [hr]
    rfl

theorem bind_result_eq_some {r : Run α} {f : α → Run β} {b : β} :
    (r.bind f).result = some b ↔ ∃ a, r.result = some a ∧ (f a).result = some b := by
  rw [bind]
  split
  · rename_i hr
    simp [hr]
  · rename_i a hr
    simp [hr]

end Run

/-! ## The switch -/

/-- `case OP_IF` to `case OP_RETURN`, and the opcodes that do nothing. -/
def controlOp (opcode : UInt8) (m : Machine) : Option Machine :=
  match opcode with
  | OP_IF | OP_NOTIF =>
    -- in a branch not taken the condition is not there to be read
    if m.fExec then
      match m.stack with
      | [] => none
      | vch :: stack =>
        let fValue := if opcode = OP_NOTIF then !castToBool vch else castToBool vch
        some { m with stack, vfExec := fValue :: m.vfExec }
    else some { m with vfExec := false :: m.vfExec }
  | OP_ELSE =>
    match m.vfExec with
    | [] => none
    | fValue :: vfExec => some { m with vfExec := (!fValue) :: vfExec }
  | OP_ENDIF =>
    match m.vfExec with
    | [] => none
    | _ :: vfExec => some { m with vfExec }
  | OP_VERIFY =>
    match m.stack with
    | [] => none
    | vch :: stack => if castToBool vch then some { m with stack } else none
  | OP_RETURN => none
  | _ => if opcode = OP_NOP ∨ (OP_NOP1 ≤ opcode ∧ opcode ≤ OP_NOP10) then some m else none

/-- `OP_PICK` and `OP_ROLL`: item `n` below the number itself, copied or moved to the top. -/
def pickOp (opcode : UInt8) (m : Machine) : Option Machine :=
  match m.stack with
  | vch :: x :: stack => do
    let bn ← castToBigNum vch
    let n := getint bn
    if n < 0 ∨ n ≥ (x :: stack).length then none
    else
      let item := (x :: stack).getD n.toNat []
      let stack := if opcode = OP_ROLL then (x :: stack).eraseIdx n.toNat else x :: stack
      some { m with stack := item :: stack }
  | _ => none

/-- `case OP_TOALTSTACK` to `case OP_TUCK`. -/
def stackOp (opcode : UInt8) (m : Machine) : Option Machine :=
  match opcode, m.stack with
  | OP_TOALTSTACK, x :: st => some { m with stack := st, altstack := x :: m.altstack }
  | OP_FROMALTSTACK, st =>
    match m.altstack with
    | [] => none
    | x :: altstack => some { m with stack := x :: st, altstack }
  | OP_2DROP, _ :: _ :: st => some { m with stack := st }
  | OP_2DUP, x2 :: x1 :: st => some { m with stack := x2 :: x1 :: x2 :: x1 :: st }
  | OP_3DUP, x3 :: x2 :: x1 :: st =>
    some { m with stack := x3 :: x2 :: x1 :: x3 :: x2 :: x1 :: st }
  | OP_2OVER, x4 :: x3 :: x2 :: x1 :: st =>
    some { m with stack := x2 :: x1 :: x4 :: x3 :: x2 :: x1 :: st }
  | OP_2ROT, x6 :: x5 :: x4 :: x3 :: x2 :: x1 :: st =>
    some { m with stack := x2 :: x1 :: x6 :: x5 :: x4 :: x3 :: st }
  | OP_2SWAP, x4 :: x3 :: x2 :: x1 :: st => some { m with stack := x2 :: x1 :: x4 :: x3 :: st }
  | OP_IFDUP, x :: st => some { m with stack := if castToBool x then x :: x :: st else x :: st }
  | OP_DEPTH, st => some { m with stack := getvch st.length :: st }
  | OP_DROP, _ :: st => some { m with stack := st }
  | OP_DUP, x :: st => some { m with stack := x :: x :: st }
  | OP_NIP, x2 :: _ :: st => some { m with stack := x2 :: st }
  | OP_OVER, x2 :: x1 :: st => some { m with stack := x1 :: x2 :: x1 :: st }
  | OP_ROT, x3 :: x2 :: x1 :: st => some { m with stack := x1 :: x3 :: x2 :: st }
  | OP_SWAP, x2 :: x1 :: st => some { m with stack := x1 :: x2 :: st }
  | OP_TUCK, x2 :: x1 :: st => some { m with stack := x2 :: x1 :: x2 :: st }
  | _, _ => none

/-- `OP_SIZE` and the two equality tests. -/
def spliceOp (opcode : UInt8) (m : Machine) : Option Machine :=
  match opcode, m.stack with
  | OP_SIZE, x :: st => some { m with stack := getvch x.length :: x :: st }
  | OP_EQUAL, x2 :: x1 :: st => some { m with stack := vchBool (x1 = x2) :: st }
  | OP_EQUALVERIFY, x2 :: x1 :: st => if x1 = x2 then some { m with stack := st } else none
  | _, _ => none

/-- The numeric opcodes of one operand. -/
def unaryNumber (opcode : UInt8) (bn : Int) : Option Int :=
  match opcode with
  | OP_1ADD => some (bn + 1)
  | OP_1SUB => some (bn - 1)
  | OP_NEGATE => some (-bn)
  | OP_ABS => some (if bn < 0 then -bn else bn)
  | OP_NOT => some (bnBool (bn = 0))
  | OP_0NOTEQUAL => some (bnBool (bn ≠ 0))
  | _ => none

/-- The numeric opcodes of two operands. -/
def binaryNumber (opcode : UInt8) (bn1 bn2 : Int) : Option Int :=
  match opcode with
  | OP_ADD => some (bn1 + bn2)
  | OP_SUB => some (bn1 - bn2)
  | OP_BOOLAND => some (bnBool (bn1 ≠ 0 ∧ bn2 ≠ 0))
  | OP_BOOLOR => some (bnBool (bn1 ≠ 0 ∨ bn2 ≠ 0))
  | OP_NUMEQUAL | OP_NUMEQUALVERIFY => some (bnBool (bn1 = bn2))
  | OP_NUMNOTEQUAL => some (bnBool (bn1 ≠ bn2))
  | OP_LESSTHAN => some (bnBool (bn1 < bn2))
  | OP_GREATERTHAN => some (bnBool (bn1 > bn2))
  | OP_LESSTHANOREQUAL => some (bnBool (bn1 ≤ bn2))
  | OP_GREATERTHANOREQUAL => some (bnBool (bn1 ≥ bn2))
  | OP_MIN => some (if bn1 < bn2 then bn1 else bn2)
  | OP_MAX => some (if bn1 > bn2 then bn1 else bn2)
  | _ => none

/-- `case OP_1ADD` to `case OP_WITHIN`. -/
def numericOp (opcode : UInt8) (m : Machine) : Option Machine :=
  if opcode ≤ OP_0NOTEQUAL then
    match m.stack with
    | x :: st => do
      let bn ← unaryNumber opcode (← castToBigNum x)
      some { m with stack := getvch bn :: st }
    | _ => none
  else if opcode = OP_WITHIN then
    match m.stack with
    | x3 :: x2 :: x1 :: st => do
      let bn1 ← castToBigNum x1
      let bn2 ← castToBigNum x2
      let bn3 ← castToBigNum x3
      some { m with stack := vchBool (bn2 ≤ bn1 ∧ bn1 < bn3) :: st }
    | _ => none
  else
    match m.stack with
    | x2 :: x1 :: st => do
      let bn1 ← castToBigNum x1
      let bn2 ← castToBigNum x2
      let vch := getvch (← binaryNumber opcode bn1 bn2)
      if opcode = OP_NUMEQUALVERIFY then
        if castToBool vch then some { m with stack := st } else none
      else some { m with stack := vch :: st }
    | _ => none

/-- `case OP_RIPEMD160` to `case OP_HASH256`. -/
def hashOp (C : Crypto) (opcode : UInt8) (m : Machine) : Option Machine :=
  match opcode, m.stack with
  | OP_RIPEMD160, x :: st => some { m with stack := C.ripemd160 x :: st }
  | OP_SHA1, x :: st => some { m with stack := C.sha1 x :: st }
  | OP_SHA256, x :: st => some { m with stack := C.sha256 x :: st }
  | OP_HASH160, x :: st => some { m with stack := C.hash160 x :: st }
  | OP_HASH256, x :: st => some { m with stack := C.hash256 x :: st }
  | _, _ => none

/-- The cases of the switch that check no signature; `rest` is the script behind the opcode. -/
def plainOp (C : Crypto) (opcode : UInt8) (rest : CScript) (m : Machine) : Option Machine :=
  if opcode = OP_1NEGATE ∨ (OP_1 ≤ opcode ∧ opcode ≤ OP_16) then
    some { m with stack := getvch ((opcode.toNat : Int) - (OP_1.toNat - 1)) :: m.stack }
  else if opcode = OP_PICK ∨ opcode = OP_ROLL then pickOp opcode m
  else if opcode = OP_CODESEPARATOR then some { m with scriptCode := rest }
  else if OP_TOALTSTACK ≤ opcode ∧ opcode ≤ OP_TUCK then stackOp opcode m
  else if OP_SIZE ≤ opcode ∧ opcode ≤ OP_EQUALVERIFY then spliceOp opcode m
  else if OP_1ADD ≤ opcode ∧ opcode ≤ OP_WITHIN then numericOp opcode m
  else if OP_RIPEMD160 ≤ opcode ∧ opcode ≤ OP_HASH256 then hashOp C opcode m
  else controlOp opcode m

section Checking

variable (C : Crypto) (X : ScriptContext)

/-- One signature against one key: `CheckSig` is called only on canonical encodings. -/
def checkOne (scriptCode : CScript) (vchSig vchPubKey : Valtype) : Run Bool :=
  if isCanonicalSignature vchSig && isCanonicalPubKey vchPubKey then
    ⟨1, some (C.checkSig vchSig vchPubKey scriptCode X.txTo X.nIn X.nHashType)⟩
  else .quiet (some false)

/-- Leave the verdict of a check on the stack, or, for a `VERIFY` opcode, require it. -/
def leaveVerdict (verify : Bool) (m : Machine) (stack : List Valtype) (fSuccess : Bool) :
    Option Machine :=
  if verify then (if fSuccess then some { m with stack } else none)
  else some { m with stack := vchBool fSuccess :: stack }

/-- `case OP_CHECKSIG: case OP_CHECKSIGVERIFY:` -/
def checkSigOp (verify : Bool) (m : Machine) : Run Machine :=
  match m.stack with
  | vchPubKey :: vchSig :: stack =>
    let scriptCode := findAndDelete (pushData vchSig) m.scriptCode
    (checkOne C X scriptCode vchSig vchPubKey).bind fun fSuccess =>
      .quiet (leaveVerdict verify m stack fSuccess)
  | _ => .quiet none

/-- The loop of `OP_CHECKMULTISIG`: a key is used once, a signature stays until a key fits it, and
    the loop gives up when there are more signatures left than keys. -/
def multiSigLoop (scriptCode : CScript) : List Valtype → List Valtype → Run Bool
  | _, [] => .quiet (some true)
  | [], _ :: _ => .quiet (some false)
  | vchPubKey :: keys, vchSig :: sigs =>
    (checkOne C X scriptCode vchSig vchPubKey).bind fun fOk =>
      let sigs := if fOk then sigs else vchSig :: sigs
      if sigs.length > keys.length then .quiet (some false)
      else multiSigLoop scriptCode keys sigs

/-- `case OP_CHECKMULTISIG: case OP_CHECKMULTISIGVERIFY:` -/
def checkMultiSigOp (verify : Bool) (m : Machine) : Run Machine :=
  match m.stack with
  | [] => .quiet none
  | vchKeys :: stack =>
    (Run.quiet (castToBigNum vchKeys)).bind fun bnKeys =>
      let nKeysCount := getint bnKeys
      if nKeysCount < 0 ∨ nKeysCount > 20 then .quiet none
      else
        let nOpCount := m.nOpCount + nKeysCount.toNat
        if nOpCount > 201 then .quiet none
        else
          match stack.drop nKeysCount.toNat with
          | [] => .quiet none
          | vchSigs :: below =>
            (Run.quiet (castToBigNum vchSigs)).bind fun bnSigs =>
              let nSigsCount := getint bnSigs
              if nSigsCount < 0 ∨ nSigsCount > nKeysCount then .quiet none
              -- one item more than the signatures is asked for, and popped with them
              else if below.length < nSigsCount.toNat + 1 then .quiet none
              else
                let keys := stack.take nKeysCount.toNat
                let sigs := below.take nSigsCount.toNat
                let scriptCode := sigs.foldl (fun code vchSig =>
                  findAndDelete (pushData vchSig) code) m.scriptCode
                (multiSigLoop C X scriptCode keys sigs).bind fun fSuccess =>
                  .quiet (leaveVerdict verify { m with nOpCount }
                    (below.drop (nSigsCount.toNat + 1)) fSuccess)

/-- The switch over the opcode. -/
def evalOp (op : ScriptOp) (m : Machine) : Run Machine :=
  if op.opcode = OP_CHECKSIG ∨ op.opcode = OP_CHECKSIGVERIFY then
    checkSigOp C X (op.opcode = OP_CHECKSIGVERIFY) m
  else if op.opcode = OP_CHECKMULTISIG ∨ op.opcode = OP_CHECKMULTISIGVERIFY then
    checkMultiSigOp C X (op.opcode = OP_CHECKMULTISIGVERIFY) m
  else .quiet (plainOp C op.opcode op.rest m)

/-- An instruction past the limits: push it, switch over it, or pass it by. -/
def execute (op : ScriptOp) (m : Machine) : Run Machine :=
  if m.fExec ∧ op.opcode ≤ OP_PUSHDATA4 then .quiet (some { m with stack := op.data :: m.stack })
  else if m.fExec ∨ (OP_IF ≤ op.opcode ∧ op.opcode ≤ OP_ENDIF) then evalOp C X op m
  else .quiet (some m)

/-- Opcodes above `OP_16` are counted, executed or not. -/
def Machine.countOp (opcode : UInt8) (m : Machine) : Machine :=
  if opcode > OP_16 then { m with nOpCount := m.nOpCount + 1 } else m

/-- One round of the loop. -/
def evalInstruction (op : ScriptOp) (m : Machine) : Run Machine :=
  if op.data.length > 520 then .quiet none
  else if op.opcode > OP_16 ∧ m.nOpCount + 1 > 201 then .quiet none
  else if op.opcode ∈ disabledOpcodes then .quiet none
  else
    (execute C X op (m.countOp op.opcode)).bind fun m =>
      .quiet (if m.stack.length + m.altstack.length > 1000 then none else some m)

/-- The size limit, behind every instruction. -/
theorem evalInstruction_size {op : ScriptOp} {m m' : Machine}
    (h : (evalInstruction C X op m).result = some m') :
    m'.stack.length + m'.altstack.length ≤ 1000 := by
  rw [evalInstruction] at h
  split at h
  · cases h
  split at h
  · cases h
  split at h
  · cases h
  obtain ⟨m1, -, hsize⟩ := Run.bind_result_eq_some.mp h
  rw [Run.quiet_result] at hsize
  split at hsize
  · cases hsize
  · obtain rfl := Option.some.inj hsize
    omega

/-- The loop over the script. -/
def evalFrom : Nat → CScript → Machine → Run Machine
  | _, [], m => .quiet (some m)
  | 0, _ :: _, _ => .quiet none
  | fuel + 1, script, m =>
    match getOp script with
    | none => .quiet none
    | some op => (evalInstruction C X op m).bind fun m => evalFrom fuel op.rest m

/-- Run a script on a stack. -/
def evalScript (stack : List Valtype) (script : CScript) : Run (List Valtype) :=
  if script.length > 10000 then .quiet none
  else
    (evalFrom C X script.length script ⟨stack, [], [], 0, script⟩).bind fun m =>
      .quiet (if m.vfExec = [] then some m.stack else none)

/-- `IsPushOnly` -/
def isPushOnlyFrom : Nat → CScript → Bool
  | _, [] => true
  | 0, _ :: _ => false
  | fuel + 1, script =>
    match getOp script with
    | none => false
    | some op => if op.opcode > OP_16 then false else isPushOnlyFrom fuel op.rest

def isPushOnly (script : CScript) : Bool := isPushOnlyFrom script.length script

/-- What the top of a final stack says. -/
def topIsTrue (stack : List Valtype) : Bool :=
  match stack with
  | [] => false
  | vch :: _ => castToBool vch

/-- A verification: the verdict, and the calls of `CheckSig` in each of the scripts it ran. -/
structure Verification where
  verdict : Bool
  scriptSigChecks : Nat
  scriptPubKeyChecks : Nat
  redeemChecks : Nat

/-- Does `scriptSig` satisfy `scriptPubKey`? -/
def verifyScript (scriptSig scriptPubKey : CScript) : Verification :=
  let r1 := evalScript C X [] scriptSig
  match r1.result with
  | none => ⟨false, r1.checkSigs, 0, 0⟩
  | some stackCopy =>
    let r2 := evalScript C X stackCopy scriptPubKey
    match r2.result with
    | none => ⟨false, r1.checkSigs, r2.checkSigs, 0⟩
    | some stack =>
      if topIsTrue stack = false then ⟨false, r1.checkSigs, r2.checkSigs, 0⟩
      else if isPayToScriptHash scriptPubKey then
        if isPushOnly scriptSig = false then ⟨false, r1.checkSigs, r2.checkSigs, 0⟩
        else
          match stackCopy with
          -- not reached: the hash of `scriptPubKey` had an item to read
          | [] => ⟨false, r1.checkSigs, r2.checkSigs, 0⟩
          | pubKey2 :: stackCopy =>
            let r3 := evalScript C X stackCopy pubKey2
            match r3.result with
            | none => ⟨false, r1.checkSigs, r2.checkSigs, r3.checkSigs⟩
            | some stack => ⟨topIsTrue stack, r1.checkSigs, r2.checkSigs, r3.checkSigs⟩
      else ⟨true, r1.checkSigs, r2.checkSigs, 0⟩

end Checking

end Silkcoin
