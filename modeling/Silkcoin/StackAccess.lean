/-
  `EvalScript` with its container accesses CHECKED.

  The interpreter of `Interpreter.lean` reads the stack by its shape, so an access out of range cannot
  even be written there.  The source tests the size by hand and then indexes from the end: `stacktop`,
  `altstacktop`, `popstack`, `erase`, `insert`, `vfExec.back`.  Some of these throw when they miss, some
  are undefined, and the `catch (...)` around the loop would turn what is thrown into a silent
  `return false`.  Here every statement of the source is written out with its accesses, and an access
  out of range is an outcome of its own, apart from `return false` and from the exception of
  `CastToBigNum`.

  `Agrees` relates a step written so to the same step of the interpreter.  It says both what is wanted:
  no access is out of range (`evalLoop_inRange`), and the two interpreters end alike
  (`evalScript_eq_result`).  The source compares some sizes as `int`; a stack of `2^31` items would
  fail these tests though it is deep enough, which is the one difference `Agrees` leaves room for.
-/
import Silkcoin.Interpreter

namespace Silkcoin

namespace Access

/-! ## Outcomes -/

/-- What may be thrown inside the `try`. -/
inductive Thrown where
  | castToBigNum
  | outOfRange
deriving DecidableEq, Repr

/-- How the body of the `try` ends before the end of the script. -/
inductive Stop where
  | returnFalse
  | throw (e : Thrown)
deriving DecidableEq, Repr

abbrev Step (α : Type) := Except Stop α

variable {α β : Type}

def returnFalse : Step α := .error .returnFalse

def outOfRange : Step α := .error (.throw .outOfRange)

def returnFalseIf (p : Prop) [Decidable p] : Step Unit := if p then returnFalse else .ok ()

/-- The conversion of a size to `int`. -/
def int32 (n : Nat) : Int := (n : Int).bmod (2 ^ 32)

/-! ## Accesses -/

/-- `stack.at(stack.size()+(i))`, on a stack with the top first; so also `altstacktop(i)`. -/
def stacktop (stack : List α) : Int → Step α
  | .negSucc n =>
    match stack[n]? with
    | some x => .ok x
    | none => outOfRange
  | .ofNat _ => outOfRange

/-- An assignment to `stacktop(i)`. -/
def setStacktop (stack : List α) (x : α) : Int → Step (List α)
  | .negSucc n => if n < stack.length then .ok (stack.set n x) else outOfRange
  | .ofNat _ => outOfRange

/-- `swap(stacktop(i), stacktop(j))` -/
def swapStacktop (stack : List α) (i j : Int) : Step (List α) := do
  let x ← stacktop stack i
  let y ← stacktop stack j
  let stack ← setStacktop stack y i
  setStacktop stack x j

/-- `popstack(stack)`, and `vfExec.pop_back()`. -/
def popstack : List α → Step (List α)
  | [] => outOfRange
  | _ :: stack => .ok stack

/-- `stack.erase(stack.end()-i)` -/
def erase (stack : List α) : Int → Step (List α)
  | .ofNat (n + 1) => if n < stack.length then .ok (stack.eraseIdx n) else outOfRange
  | _ => outOfRange

/-- `stack.erase(stack.end()-i, stack.end()-j)` -/
def eraseRange (stack : List α) (i j : Nat) : Step (List α) :=
  if j ≤ i ∧ i ≤ stack.length then .ok (stack.take j ++ stack.drop i) else outOfRange

/-- `stack.insert(stack.end()-i, x)` -/
def insert (stack : List α) (i : Nat) (x : α) : Step (List α) :=
  if i ≤ stack.length then .ok (stack.take i ++ x :: stack.drop i) else outOfRange

/-- A number off the stack, or the exception. -/
def castToBigNum (vch : Valtype) : Step Int :=
  match Silkcoin.castToBigNum vch with
  | none => .error (.throw .castToBigNum)
  | some bn => .ok bn

/-! ## The switch -/

/-- `case OP_IF` to `case OP_RETURN`, and the opcodes that do nothing. -/
def controlOp (opcode : UInt8) (m : Machine) : Step Machine :=
  match opcode with
  | OP_IF | OP_NOTIF =>
    if m.fExec then do
      returnFalseIf (m.stack.length < 1)
      let fValue := castToBool (← stacktop m.stack (-1))
      let fValue := if opcode = OP_NOTIF then !fValue else fValue
      let stack ← popstack m.stack
      return { m with stack, vfExec := fValue :: m.vfExec }
    else return { m with vfExec := false :: m.vfExec }
  | OP_ELSE => do
    returnFalseIf (m.vfExec.length = 0)
    let vfExec ← setStacktop m.vfExec (!(← stacktop m.vfExec (-1))) (-1)
    return { m with vfExec }
  | OP_ENDIF => do
    returnFalseIf (m.vfExec.length = 0)
    let vfExec ← popstack m.vfExec
    return { m with vfExec }
  | OP_VERIFY => do
    returnFalseIf (m.stack.length < 1)
    let fValue := castToBool (← stacktop m.stack (-1))
    returnFalseIf (fValue = false)
    let stack ← popstack m.stack
    return { m with stack }
  | OP_RETURN => returnFalse
  | _ => if opcode = OP_NOP ∨ (OP_NOP1 ≤ opcode ∧ opcode ≤ OP_NOP10) then return m else returnFalse

/-- `case OP_PICK: case OP_ROLL:` -/
def pickOp (opcode : UInt8) (m : Machine) : Step Machine := do
  returnFalseIf (m.stack.length < 2)
  let n := getint (← castToBigNum (← stacktop m.stack (-1)))
  let stack ← popstack m.stack
  returnFalseIf (n < 0 ∨ n ≥ int32 stack.length)
  let vch ← stacktop stack (-n - 1)
  let stack ← if opcode = OP_ROLL then erase stack (n + 1) else pure stack
  return { m with stack := vch :: stack }

/-- `case OP_TOALTSTACK` to `case OP_TUCK`. -/
def stackOp (opcode : UInt8) (m : Machine) : Step Machine :=
  match opcode with
  | OP_TOALTSTACK => do
    returnFalseIf (m.stack.length < 1)
    let altstack := (← stacktop m.stack (-1)) :: m.altstack
    let stack ← popstack m.stack
    return { m with stack, altstack }
  | OP_FROMALTSTACK => do
    returnFalseIf (m.altstack.length < 1)
    let stack := (← stacktop m.altstack (-1)) :: m.stack
    let altstack ← popstack m.altstack
    return { m with stack, altstack }
  | OP_2DROP => do
    returnFalseIf (m.stack.length < 2)
    let stack ← popstack m.stack
    let stack ← popstack stack
    return { m with stack }
  | OP_2DUP => do
    returnFalseIf (m.stack.length < 2)
    let vch1 ← stacktop m.stack (-2)
    let vch2 ← stacktop m.stack (-1)
    return { m with stack := vch2 :: vch1 :: m.stack }
  | OP_3DUP => do
    returnFalseIf (m.stack.length < 3)
    let vch1 ← stacktop m.stack (-3)
    let vch2 ← stacktop m.stack (-2)
    let vch3 ← stacktop m.stack (-1)
    return { m with stack := vch3 :: vch2 :: vch1 :: m.stack }
  | OP_2OVER => do
    returnFalseIf (m.stack.length < 4)
    let vch1 ← stacktop m.stack (-4)
    let vch2 ← stacktop m.stack (-3)
    return { m with stack := vch2 :: vch1 :: m.stack }
  | OP_2ROT => do
    returnFalseIf (m.stack.length < 6)
    let vch1 ← stacktop m.stack (-6)
    let vch2 ← stacktop m.stack (-5)
    let stack ← eraseRange m.stack 6 4
    return { m with stack := vch2 :: vch1 :: stack }
  | OP_2SWAP => do
    returnFalseIf (m.stack.length < 4)
    let stack ← swapStacktop m.stack (-4) (-2)
    let stack ← swapStacktop stack (-3) (-1)
    return { m with stack }
  | OP_IFDUP => do
    returnFalseIf (m.stack.length < 1)
    let vch ← stacktop m.stack (-1)
    return { m with stack := if castToBool vch then vch :: m.stack else m.stack }
  | OP_DEPTH => return { m with stack := getvch m.stack.length :: m.stack }
  | OP_DROP => do
    returnFalseIf (m.stack.length < 1)
    let stack ← popstack m.stack
    return { m with stack }
  | OP_DUP => do
    returnFalseIf (m.stack.length < 1)
    let vch ← stacktop m.stack (-1)
    return { m with stack := vch :: m.stack }
  | OP_NIP => do
    returnFalseIf (m.stack.length < 2)
    let stack ← erase m.stack 2
    return { m with stack }
  | OP_OVER => do
    returnFalseIf (m.stack.length < 2)
    let vch ← stacktop m.stack (-2)
    return { m with stack := vch :: m.stack }
  | OP_ROT => do
    returnFalseIf (m.stack.length < 3)
    let stack ← swapStacktop m.stack (-3) (-2)
    let stack ← swapStacktop stack (-2) (-1)
    return { m with stack }
  | OP_SWAP => do
    returnFalseIf (m.stack.length < 2)
    let stack ← swapStacktop m.stack (-2) (-1)
    return { m with stack }
  | OP_TUCK => do
    returnFalseIf (m.stack.length < 2)
    let vch ← stacktop m.stack (-1)
    let stack ← insert m.stack 2 vch
    return { m with stack }
  | _ => returnFalse

/-- `OP_SIZE` and the two equality tests. -/
def spliceOp (opcode : UInt8) (m : Machine) : Step Machine :=
  match opcode with
  | OP_SIZE => do
    returnFalseIf (m.stack.length < 1)
    let vch ← stacktop m.stack (-1)
    return { m with stack := getvch vch.length :: m.stack }
  | OP_EQUAL | OP_EQUALVERIFY => do
    returnFalseIf (m.stack.length < 2)
    let vch1 ← stacktop m.stack (-2)
    let vch2 ← stacktop m.stack (-1)
    let stack ← popstack m.stack
    let stack ← popstack stack
    let stack := vchBool (vch1 = vch2) :: stack
    if opcode = OP_EQUALVERIFY then do
      returnFalseIf (vch1 ≠ vch2)
      let stack ← popstack stack
      return { m with stack }
    else return { m with stack }
  | _ => returnFalse

/-- What the inner switches leave out is disabled, and does not get here. -/
def inSwitch (bn : Option Int) : Step Int :=
  match bn with
  | none => returnFalse
  | some bn => .ok bn

/-- `case OP_1ADD` to `case OP_WITHIN`. -/
def numericOp (opcode : UInt8) (m : Machine) : Step Machine :=
  if opcode ≤ OP_0NOTEQUAL then do
    returnFalseIf (m.stack.length < 1)
    let bn ← castToBigNum (← stacktop m.stack (-1))
    let bn ← inSwitch (unaryNumber opcode bn)
    let stack ← popstack m.stack
    return { m with stack := getvch bn :: stack }
  else if opcode = OP_WITHIN then do
    returnFalseIf (m.stack.length < 3)
    let bn1 ← castToBigNum (← stacktop m.stack (-3))
    let bn2 ← castToBigNum (← stacktop m.stack (-2))
    let bn3 ← castToBigNum (← stacktop m.stack (-1))
    let fValue := decide (bn2 ≤ bn1 ∧ bn1 < bn3)
    let stack ← popstack m.stack
    let stack ← popstack stack
    let stack ← popstack stack
    return { m with stack := vchBool fValue :: stack }
  else do
    returnFalseIf (m.stack.length < 2)
    let bn1 ← castToBigNum (← stacktop m.stack (-2))
    let bn2 ← castToBigNum (← stacktop m.stack (-1))
    let bn ← inSwitch (binaryNumber opcode bn1 bn2)
    let stack ← popstack m.stack
    let stack ← popstack stack
    let stack := getvch bn :: stack
    if opcode = OP_NUMEQUALVERIFY then do
      returnFalseIf (castToBool (← stacktop stack (-1)) = false)
      let stack ← popstack stack
      return { m with stack }
    else return { m with stack }

/-- The hash of the item that `OP_RIPEMD160` to `OP_HASH256` push. -/
def vchHash (C : Crypto) (opcode : UInt8) (vch : Valtype) : Step Valtype :=
  match opcode with
  | OP_RIPEMD160 => .ok (C.ripemd160 vch)
  | OP_SHA1 => .ok (C.sha1 vch)
  | OP_SHA256 => .ok (C.sha256 vch)
  | OP_HASH160 => .ok (C.hash160 vch)
  | OP_HASH256 => .ok (C.hash256 vch)
  | _ => returnFalse

/-- `case OP_RIPEMD160` to `case OP_HASH256`. -/
def hashOp (C : Crypto) (opcode : UInt8) (m : Machine) : Step Machine := do
  returnFalseIf (m.stack.length < 1)
  let vch ← stacktop m.stack (-1)
  let hash ← vchHash C opcode vch
  let stack ← popstack m.stack
  return { m with stack := hash :: stack }

/-- The cases of the switch that check no signature. -/
def plainOp (C : Crypto) (opcode : UInt8) (rest : CScript) (m : Machine) : Step Machine :=
  if opcode = OP_1NEGATE ∨ (OP_1 ≤ opcode ∧ opcode ≤ OP_16) then
    return { m with stack := getvch ((opcode.toNat : Int) - (OP_1.toNat - 1)) :: m.stack }
  else if opcode = OP_PICK ∨ opcode = OP_ROLL then pickOp opcode m
  else if opcode = OP_CODESEPARATOR then return { m with scriptCode := rest }
  else if OP_TOALTSTACK ≤ opcode ∧ opcode ≤ OP_TUCK then stackOp opcode m
  else if OP_SIZE ≤ opcode ∧ opcode ≤ OP_EQUALVERIFY then spliceOp opcode m
  else if OP_1ADD ≤ opcode ∧ opcode ≤ OP_WITHIN then numericOp opcode m
  else if OP_RIPEMD160 ≤ opcode ∧ opcode ≤ OP_HASH256 then hashOp C opcode m
  else controlOp opcode m

section Checking

variable (C : Crypto) (X : ScriptContext)

def checkOne (scriptCode : CScript) (vchSig vchPubKey : Valtype) : Bool :=
  isCanonicalSignature vchSig && isCanonicalPubKey vchPubKey &&
    C.checkSig vchSig vchPubKey scriptCode X.txTo X.nIn X.nHashType

/-- The verdict is pushed, and a `VERIFY` opcode pops it again. -/
def leaveVerdict (verify : Bool) (m : Machine) (stack : List Valtype) (fSuccess : Bool) :
    Step Machine := do
  let stack := vchBool fSuccess :: stack
  if verify then do
    returnFalseIf (fSuccess = false)
    let stack ← popstack stack
    return { m with stack }
  else return { m with stack }

/-- `case OP_CHECKSIG: case OP_CHECKSIGVERIFY:` -/
def checkSigOp (verify : Bool) (m : Machine) : Step Machine := do
  returnFalseIf (m.stack.length < 2)
  let vchSig ← stacktop m.stack (-2)
  let vchPubKey ← stacktop m.stack (-1)
  let scriptCode := findAndDelete (pushData vchSig) m.scriptCode
  let fSuccess := checkOne C X scriptCode vchSig vchPubKey
  let stack ← popstack m.stack
  let stack ← popstack stack
  leaveVerdict verify m stack fSuccess

/-- `for (int k = 0; k < nSigsCount; k++)`: drop the signatures from the script.  `n` are left to
    drop, the first of them at `-isig`. -/
def dropSignatures (stack : List Valtype) : Int → Nat → CScript → Step CScript
  | _, 0, scriptCode => .ok scriptCode
  | isig, n + 1, scriptCode => do
    let vchSig ← stacktop stack (-isig)
    dropSignatures stack (isig + 1) n (findAndDelete (pushData vchSig) scriptCode)

/-- `while (fSuccess && nSigsCount > 0)` -/
def multiSigLoop (stack : List Valtype) (scriptCode : CScript)
    (isig ikey nSigsCount nKeysCount : Int) : Step Bool :=
  if h : nSigsCount > 0 then do
    let vchSig ← stacktop stack (-isig)
    let vchPubKey ← stacktop stack (-ikey)
    let fOk := checkOne C X scriptCode vchSig vchPubKey
    if hleft : (if fOk then nSigsCount - 1 else nSigsCount) > nKeysCount - 1 then return false
    else
      multiSigLoop stack scriptCode (if fOk then isig + 1 else isig) (ikey + 1)
        (if fOk then nSigsCount - 1 else nSigsCount) (nKeysCount - 1)
  else return true
termination_by (nKeysCount + 1).toNat
decreasing_by
  -- a signature was left, and no fewer keys than signatures are
  split at hleft <;> omega

/-- `while (i-- > 0) popstack(stack);` -/
def popTimes : Nat → List Valtype → Step (List Valtype)
  | 0, stack => .ok stack
  | i + 1, stack => do
    let stack ← popstack stack
    popTimes i stack

/-- `case OP_CHECKMULTISIG: case OP_CHECKMULTISIGVERIFY:` -/
def checkMultiSigOp (verify : Bool) (m : Machine) : Step Machine := do
  let i : Int := 1
  returnFalseIf (int32 m.stack.length < i)
  let nKeysCount := getint (← castToBigNum (← stacktop m.stack (-i)))
  returnFalseIf (nKeysCount < 0 ∨ nKeysCount > 20)
  let nOpCount := (m.nOpCount : Int) + nKeysCount
  returnFalseIf (nOpCount > 201)
  let i := i + 1
  let ikey := i
  let i := i + nKeysCount
  returnFalseIf (int32 m.stack.length < i)
  let nSigsCount := getint (← castToBigNum (← stacktop m.stack (-i)))
  returnFalseIf (nSigsCount < 0 ∨ nSigsCount > nKeysCount)
  let i := i + 1
  let isig := i
  let i := i + nSigsCount
  returnFalseIf (int32 m.stack.length < i)
  let scriptCode ← dropSignatures m.stack isig nSigsCount.toNat m.scriptCode
  let fSuccess ← multiSigLoop C X m.stack scriptCode isig ikey nSigsCount nKeysCount
  let stack ← popTimes i.toNat m.stack
  leaveVerdict verify { m with nOpCount := nOpCount.toNat } stack fSuccess

/-- The switch over the opcode. -/
def evalOp (op : ScriptOp) (m : Machine) : Step Machine :=
  if op.opcode = OP_CHECKSIG ∨ op.opcode = OP_CHECKSIGVERIFY then
    checkSigOp C X (op.opcode = OP_CHECKSIGVERIFY) m
  else if op.opcode = OP_CHECKMULTISIG ∨ op.opcode = OP_CHECKMULTISIGVERIFY then
    checkMultiSigOp C X (op.opcode = OP_CHECKMULTISIGVERIFY) m
  else plainOp C op.opcode op.rest m

/-- An instruction past the limits: push it, switch over it, or pass it by. -/
def execute (op : ScriptOp) (m : Machine) : Step Machine :=
  if m.fExec ∧ op.opcode ≤ OP_PUSHDATA4 then .ok { m with stack := op.data :: m.stack }
  else if m.fExec ∨ (OP_IF ≤ op.opcode ∧ op.opcode ≤ OP_ENDIF) then evalOp C X op m
  else .ok m

/-- One round of the loop, behind `GetOp`. -/
def evalInstruction (op : ScriptOp) (m : Machine) : Step Machine := do
  returnFalseIf (op.data.length > 520)
  let m := m.countOp op.opcode
  returnFalseIf (op.opcode > OP_16 ∧ m.nOpCount > 201)
  returnFalseIf (op.opcode ∈ disabledOpcodes)
  let m ← execute C X op m
  returnFalseIf (m.stack.length + m.altstack.length > 1000)
  return m

/-- `while (pc < pend)` -/
def evalFrom : Nat → CScript → Machine → Step Machine
  | _, [], m => .ok m
  | 0, _ :: _, _ => returnFalse
  | fuel + 1, script, m =>
    match getOp script with
    | none => returnFalse
    | some op => do
      let m ← evalInstruction C X op m
      evalFrom fuel op.rest m

/-- The body of the `try`. -/
def evalLoop (stack : List Valtype) (script : CScript) : Step Machine :=
  evalFrom C X script.length script ⟨stack, [], [], 0, script⟩

/-- The stack the script leaves, where `EvalScript` returns true.  What is thrown in the loop is
    caught, whatever it is. -/
def evalScript (stack : List Valtype) (script : CScript) : Option (List Valtype) :=
  if script.length > 10000 then none
  else
    match evalLoop C X stack script with
    | .error .returnFalse => none
    | .error (.throw _) => none
    | .ok m => if m.vfExec = [] then some m.stack else none

end Checking

/-! ## Agreement with the interpreter -/

/-- The same end as the interpreter's, and no access out of range.  Only where a stack is not `small`
    may the source give up on its own. -/
inductive Agrees (small : Prop) : Step α → Option α → Prop where
  | ok (a : α) : Agrees small (.ok a) (some a)
  | returnFalse : Agrees small returnFalse none
  | castToBigNum : Agrees small (.error (.throw .castToBigNum)) none
  | tooBig (h : ¬ small) (o : Option α) : Agrees small returnFalse o

namespace Agrees

variable {small : Prop}

theorem bind {r : Step α} {o : Option α} {f : α → Step β} {g : α → Option β} (h : Agrees small r o)
    (hf : ∀ a, r = .ok a → Agrees small (f a) (g a)) : Agrees small (r >>= f) (o.bind g) := by
  cases h with
  | ok a => exact hf a rfl
  | returnFalse => exact .returnFalse
  | castToBigNum => exact .castToBigNum
  | tooBig h => exact .tooBig h _

/-- A test the interpreter makes too. -/
theorem test {p : Prop} [Decidable p] {f : Unit → Step α} {o : Option α}
    (hn : p → o = none) (hf : ¬ p → Agrees small (f ()) o) :
    Agrees small (returnFalseIf p >>= f) o := by
  unfold returnFalseIf
  by_cases hp : p
  · rw [if_pos hp, hn hp]
    exact .returnFalse
  · rw [if_neg hp]
    exact hf hp

theorem inRange {r : Step α} {o : Option α} (h : Agrees small r o) : r ≠ outOfRange := by
  cases h <;> exact nofun

theorem eq_of_ok {r : Step α} {o : Option α} {a : α} (h : Agrees small r o) (ha : r = .ok a) :
    o = some a := by
  cases h with
  | ok b =>
    cases ha
    rfl
  | returnFalse => cases ha
  | castToBigNum => cases ha
  | tooBig h => cases ha

end Agrees

variable (small : Prop)

theorem castToBigNum_agrees (vch : Valtype) :
    Agrees small (castToBigNum vch) (Silkcoin.castToBigNum vch) := by
  unfold castToBigNum
  split
  · rename_i h
    rw [h]
    exact .castToBigNum
  · rename_i bn h
    rw [h]
    exact .ok bn

theorem inSwitch_agrees (bn : Option Int) : Agrees small (inSwitch bn) bn := by
  unfold inSwitch
  split
  · exact .returnFalse
  · exact .ok _

theorem stackOp_agrees (opcode : UInt8) (m : Machine) :
    Agrees small (stackOp opcode m) (Silkcoin.stackOp opcode m) := by
  obtain ⟨stack, altstack, vfExec, nOpCount, scriptCode⟩ := m
  unfold stackOp
  -- by the number of items an opcode asks for
  split
  case h_2 => rcases altstack with _ | ⟨x1, alt⟩ <;> first | exact .returnFalse | exact .ok _
  case h_10 => exact .ok _
  case h_1 | h_9 | h_11 | h_12 =>
    rcases stack with _ | ⟨x1, st⟩ <;> first | exact .returnFalse | exact .ok _
  case h_3 | h_4 | h_13 | h_14 | h_16 | h_17 =>
    rcases stack with _ | ⟨x1, _ | ⟨x2, st⟩⟩ <;> first | exact .returnFalse | exact .ok _
  case h_5 | h_15 =>
    rcases stack with _ | ⟨x1, _ | ⟨x2, _ | ⟨x3, st⟩⟩⟩ <;>
      first | exact .returnFalse | exact .ok _
  case h_6 | h_8 =>
    rcases stack with _ | ⟨x1, _ | ⟨x2, _ | ⟨x3, _ | ⟨x4, st⟩⟩⟩⟩ <;>
      first | exact .returnFalse | exact .ok _
  case h_7 =>
    rcases stack with _ | ⟨x1, _ | ⟨x2, _ | ⟨x3, _ | ⟨x4, _ | ⟨x5, _ | ⟨x6, st⟩⟩⟩⟩⟩⟩ <;>
      first | exact .returnFalse | exact .ok _
  case h_18 =>
    have hnone : Silkcoin.stackOp opcode ⟨stack, altstack, vfExec, nOpCount, scriptCode⟩ = none := by
      unfold Silkcoin.stackOp
      split <;> first | rfl | contradiction
    rw [hnone]
    exact .returnFalse

theorem int32_le (n : Nat) : int32 n ≤ n := by
  have h : int32 n = if (n : Int) % 4294967296 < 2147483648 then (n : Int) % 4294967296
      else (n : Int) % 4294967296 - 4294967296 := rfl
  rw [h]
  split <;> omega

theorem int32_eq {n : Nat} (h : n < 2 ^ 31) : int32 n = n :=
  Int.bmod_eq_of_le (by omega) (by omega)

/-- The item `n` below the top, counted from the end. -/
theorem stacktop_neg {stack : List α} {n : Nat} (h : n < stack.length) :
    stacktop stack (-(n : Int) - 1) = .ok stack[n] := by
  have hneg : (-(n : Int) - 1) = Int.negSucc n := by omega
  rw [hneg]
  show (match stack[n]? with | some x => _ | none => _) = _
  rw [List.getElem?_eq_getElem h]

theorem erase_succ {stack : List α} {n : Nat} (h : n < stack.length) :
    erase stack ((n : Int) + 1) = .ok (stack.eraseIdx n) := if_pos h

theorem pickOp_agrees {m : Machine} (hs : small → m.stack.length < 2 ^ 31) (opcode : UInt8) :
    Agrees small (pickOp opcode m) (Silkcoin.pickOp opcode m) := by
  obtain ⟨stack, altstack, vfExec, nOpCount, scriptCode⟩ := m
  rcases stack with _ | ⟨vch, _ | ⟨x, st⟩⟩
  · exact .returnFalse
  · exact .returnFalse
  · refine Agrees.bind (castToBigNum_agrees small vch) fun bn _ => ?_
    show Agrees small (returnFalseIf (getint bn < 0 ∨ getint bn ≥ int32 (x :: st).length) >>= _)
      (if getint bn < 0 ∨ getint bn ≥ (x :: st).length then none else _)
    by_cases hp : getint bn < 0 ∨ getint bn ≥ int32 (x :: st).length
    · rw [returnFalseIf, if_pos hp]
      by_cases hsmall : small
      · have hlen : (x :: st).length < 2 ^ 31 := Nat.lt_of_succ_lt (hs hsmall)
        rw [int32_eq hlen] at hp
        rw [if_pos hp]
        exact .returnFalse
      · exact .tooBig hsmall _
    · rw [returnFalseIf, if_neg hp]
      have hle := int32_le (x :: st).length
      rw [not_or, not_lt, ge_iff_le, not_le] at hp
      rw [if_neg (by omega)]
      -- the number is a place on the stack
      obtain ⟨n, hn⟩ := Int.eq_ofNat_of_zero_le hp.1
      rw [hn] at hp ⊢
      have hlt : n < (x :: st).length := by omega
      show Agrees small (stacktop (x :: st) (-(n : Int) - 1) >>= _) _
      rw [stacktop_neg hlt, Int.toNat_natCast, List.getD_eq_getElem?_getD, List.getElem?_eq_getElem hlt]
      by_cases hroll : opcode = OP_ROLL
      · subst hroll
        show Agrees small (erase (x :: st) ((n : Int) + 1) >>= _) _
        rw [erase_succ hlt]
        exact .ok _
      · rw [if_neg hroll]
        show Agrees small (if opcode = OP_ROLL then _ else _) _
        rw [if_neg hroll]
        exact .ok _

theorem spliceOp_agrees (opcode : UInt8) (m : Machine) :
    Agrees small (spliceOp opcode m) (Silkcoin.spliceOp opcode m) := by
  obtain ⟨stack, altstack, vfExec, nOpCount, scriptCode⟩ := m
  unfold spliceOp
  split
  · rcases stack with _ | ⟨x1, st⟩
    · exact .returnFalse
    · exact .ok _
  · rcases stack with _ | ⟨x1, _ | ⟨x2, st⟩⟩
    · exact .returnFalse
    · exact .returnFalse
    · exact .ok _
  · rcases stack with _ | ⟨x2, _ | ⟨x1, st⟩⟩
    · exact .returnFalse
    · exact .returnFalse
    · show Agrees small (returnFalseIf (x1 ≠ x2) >>= _) (if x1 = x2 then _ else none)
      refine Agrees.test (fun hne => if_neg hne) fun heq => ?_
      rw [if_pos (not_not.mp heq)]
      exact .ok _
  · rename_i h1 h2 h3
    have hnone : Silkcoin.spliceOp opcode ⟨stack, altstack, vfExec, nOpCount, scriptCode⟩ = none := by
      unfold Silkcoin.spliceOp
      split <;> first | rfl | contradiction
    rw [hnone]
    exact .returnFalse

theorem hashOp_agrees (C : Crypto) (opcode : UInt8) (m : Machine) :
    Agrees small (hashOp C opcode m) (Silkcoin.hashOp C opcode m) := by
  obtain ⟨stack, altstack, vfExec, nOpCount, scriptCode⟩ := m
  rcases stack with _ | ⟨x1, st⟩
  · have hnone : Silkcoin.hashOp C opcode ⟨[], altstack, vfExec, nOpCount, scriptCode⟩ = none := by
      unfold Silkcoin.hashOp
      split <;> first | rfl | contradiction
    rw [hnone]
    exact .returnFalse
  · show Agrees small (vchHash C opcode x1 >>= _) _
    unfold vchHash
    split
    case h_6 =>
      have hnone : Silkcoin.hashOp C opcode ⟨x1 :: st, altstack, vfExec, nOpCount, scriptCode⟩ =
          none := by
        unfold Silkcoin.hashOp
        split <;> first | rfl | contradiction
      rw [hnone]
      exact .returnFalse
    all_goals exact .ok _

theorem numericOp_agrees (opcode : UInt8) (m : Machine) :
    Agrees small (numericOp opcode m) (Silkcoin.numericOp opcode m) := by
  obtain ⟨stack, altstack, vfExec, nOpCount, scriptCode⟩ := m
  unfold numericOp Silkcoin.numericOp
  split
  · rcases stack with _ | ⟨x, st⟩
    · exact .returnFalse
    · refine Agrees.bind (castToBigNum_agrees small x) fun bn _ => ?_
      refine Agrees.bind (inSwitch_agrees small _) fun bn _ => ?_
      exact .ok _
  split
  · rcases stack with _ | ⟨x3, _ | ⟨x2, _ | ⟨x1, st⟩⟩⟩
    · exact .returnFalse
    · exact .returnFalse
    · exact .returnFalse
    · refine Agrees.bind (castToBigNum_agrees small x1) fun bn1 _ => ?_
      refine Agrees.bind (castToBigNum_agrees small x2) fun bn2 _ => ?_
      refine Agrees.bind (castToBigNum_agrees small x3) fun bn3 _ => ?_
      exact .ok _
  · rcases stack with _ | ⟨x2, _ | ⟨x1, st⟩⟩
    · exact .returnFalse
    · exact .returnFalse
    · refine Agrees.bind (castToBigNum_agrees small x1) fun bn1 _ => ?_
      refine Agrees.bind (castToBigNum_agrees small x2) fun bn2 _ => ?_
      refine Agrees.bind (inSwitch_agrees small _) fun bn _ => ?_
      by_cases hv : opcode = OP_NUMEQUALVERIFY
      · subst hv
        show Agrees small (returnFalseIf (castToBool (getvch bn) = false) >>= _)
          (if castToBool (getvch bn) then _ else none)
        refine Agrees.test (fun hf => if_neg (by rw [hf]; exact nofun)) fun ht => ?_
        rw [if_pos (by simpa using ht)]
        exact .ok _
      · show Agrees small (if opcode = OP_NUMEQUALVERIFY then _ else _)
          (if opcode = OP_NUMEQUALVERIFY then _ else _)
        rw [if_neg hv, if_neg hv]
        exact .ok _

theorem controlOp_agrees (opcode : UInt8) (m : Machine) :
    Agrees small (controlOp opcode m) (Silkcoin.controlOp opcode m) := by
  obtain ⟨stack, altstack, vfExec, nOpCount, scriptCode⟩ := m
  unfold controlOp
  split
  case h_1 | h_2 =>
    show Agrees small (if Machine.fExec ⟨stack, altstack, vfExec, nOpCount, scriptCode⟩ then _ else _)
      (if Machine.fExec ⟨stack, altstack, vfExec, nOpCount, scriptCode⟩ then _ else _)
    split
    · rcases stack with _ | ⟨vch, st⟩
      · exact .returnFalse
      · exact .ok _
    · exact .ok _
  case h_3 | h_4 => rcases vfExec with _ | ⟨f, vfExec⟩ <;> first | exact .returnFalse | exact .ok _
  case h_5 =>
    rcases stack with _ | ⟨vch, st⟩
    · exact .returnFalse
    · show Agrees small (returnFalseIf (castToBool vch = false) >>= _)
        (if castToBool vch then _ else none)
      refine Agrees.test (fun hf => if_neg (by rw [hf]; exact nofun)) fun ht => ?_
      rw [if_pos (by simpa using ht)]
      exact .ok _
  case h_6 => exact .returnFalse
  case h_7 =>
    have hnop : Silkcoin.controlOp opcode ⟨stack, altstack, vfExec, nOpCount, scriptCode⟩ =
        if opcode = OP_NOP ∨ (OP_NOP1 ≤ opcode ∧ opcode ≤ OP_NOP10) then
          some ⟨stack, altstack, vfExec, nOpCount, scriptCode⟩ else none := by
      unfold Silkcoin.controlOp
      split <;> first | rfl | contradiction
    rw [hnop]
    split
    · exact .ok _
    · exact .returnFalse

theorem plainOp_agrees {m : Machine} (hs : small → m.stack.length < 2 ^ 31) (C : Crypto)
    (opcode : UInt8) (rest : CScript) :
    Agrees small (plainOp C opcode rest m) (Silkcoin.plainOp C opcode rest m) := by
  unfold plainOp Silkcoin.plainOp
  split
  · exact .ok _
  split
  · exact pickOp_agrees small hs opcode
  split
  · exact .ok _
  split
  · exact stackOp_agrees small opcode m
  split
  · exact spliceOp_agrees small opcode m
  split
  · exact numericOp_agrees small opcode m
  split
  · exact hashOp_agrees small C opcode m
  · exact controlOp_agrees small opcode m

/-! ### Signatures -/

section Checking

variable (C : Crypto) (X : ScriptContext)

theorem checkOne_result (scriptCode : CScript) (vchSig vchPubKey : Valtype) :
    (Silkcoin.checkOne C X scriptCode vchSig vchPubKey).result =
      some (checkOne C X scriptCode vchSig vchPubKey) := by
  unfold Silkcoin.checkOne checkOne
  cases isCanonicalSignature vchSig && isCanonicalPubKey vchPubKey with
  | false => rfl
  | true => rfl

theorem leaveVerdict_agrees (verify : Bool) (m : Machine) (stack : List Valtype) (fSuccess : Bool) :
    Agrees small (leaveVerdict verify m stack fSuccess)
      (Silkcoin.leaveVerdict verify m stack fSuccess) := by
  cases verify <;> cases fSuccess <;> first | exact .returnFalse | exact .ok _

theorem checkSigOp_agrees (verify : Bool) (m : Machine) :
    Agrees small (checkSigOp C X verify m) (Silkcoin.checkSigOp C X verify m).result := by
  obtain ⟨stack, altstack, vfExec, nOpCount, scriptCode⟩ := m
  rcases stack with _ | ⟨vchPubKey, _ | ⟨vchSig, st⟩⟩
  · exact .returnFalse
  · exact .returnFalse
  · unfold Silkcoin.checkSigOp
    rw [Run.bind_result, checkOne_result]
    exact leaveVerdict_agrees small verify _ st _

theorem stacktop_getElem (stack : List α) {n : Nat} (h : n < stack.length) :
    stacktop stack (-((n : Int) + 1)) = .ok stack[n] := by
  rw [Int.neg_add]
  exact stacktop_neg h

theorem ok_bind (a : α) (f : α → Step β) : ((Except.ok a : Step α) >>= f) = f a := rfl

/-- The next of some items that are on the stack from place `p` on. -/
theorem next_of_prefix {stack items : List α} {x : α} {p : Nat} (h : x :: items <+: stack.drop p) :
    stacktop stack (-((p : Int) + 1)) = .ok x ∧ items <+: stack.drop (p + 1) := by
  obtain ⟨below, hbelow⟩ := h
  have hlt : p < stack.length := by
    have hlen := congrArg List.length hbelow
    rw [List.length_drop, List.length_append, List.length_cons] at hlen
    omega
  rw [List.drop_eq_getElem_cons hlt, List.cons_append] at hbelow
  obtain ⟨hx, hitems⟩ := List.cons.inj hbelow
  rw [stacktop_getElem stack hlt, ← hx]
  exact ⟨rfl, below, hitems⟩

theorem dropSignatures_eq {stack : List Valtype} : ∀ (sigs : List Valtype) (p : Nat) (code : CScript),
    sigs <+: stack.drop p → dropSignatures stack ((p : Int) + 1) sigs.length code =
      .ok (sigs.foldl (fun code vchSig => findAndDelete (pushData vchSig) code) code)
  | [], _, _, _ => rfl
  | vchSig :: sigs, p, code, h => by
    obtain ⟨htop, hnext⟩ := next_of_prefix h
    show (stacktop stack (-((p : Int) + 1)) >>= fun vchSig =>
      dropSignatures stack ((p : Int) + 1 + 1) sigs.length (findAndDelete (pushData vchSig) code)) = _
    rw [htop]
    exact dropSignatures_eq sigs (p + 1) _ hnext

theorem popTimes_eq : ∀ (i : Nat) (stack : List Valtype), i ≤ stack.length →
    popTimes i stack = .ok (stack.drop i)
  | 0, _, _ => rfl
  | _ + 1, [], h => absurd h (by simp)
  | i + 1, _ :: stack, h => popTimes_eq i stack (Nat.le_of_succ_le_succ h)

/-- The loop over the signatures and the keys, when they are all on the stack and no more
    signatures than keys are left. -/
theorem multiSigLoop_eq (stack : List Valtype) (code : CScript) (keys : List Valtype) :
    ∀ (sigs : List Valtype) (p q : Nat), sigs <+: stack.drop p → keys <+: stack.drop q →
      sigs.length ≤ keys.length → ∃ fSuccess,
      multiSigLoop C X stack code ((p : Int) + 1) ((q : Int) + 1) sigs.length keys.length =
        .ok fSuccess ∧
      (Silkcoin.multiSigLoop C X code keys sigs).result = some fSuccess := by
  induction keys with
  | nil =>
    intro sigs p q _ _ hle
    obtain rfl := List.eq_nil_of_length_eq_zero (Nat.le_zero.mp hle)
    rw [multiSigLoop, dif_neg (by simp)]
    exact ⟨true, rfl, rfl⟩
  | cons vchPubKey keys ih =>
    intro sigs p q hsigs hkeys hle
    cases sigs with
    | nil =>
      rw [multiSigLoop, dif_neg (by simp)]
      exact ⟨true, rfl, rfl⟩
    | cons vchSig sigs =>
      obtain ⟨hsig, hsigs'⟩ := next_of_prefix hsigs
      obtain ⟨hkey, hkeys'⟩ := next_of_prefix hkeys
      -- the rest of the loop, whichever signatures are left
      have hrest : ∀ (left : List Valtype) (p' : Nat), left <+: stack.drop p' → ∃ fSuccess,
          (if _ : (left.length : Int) > keys.length then (pure false : Step Bool)
            else
              multiSigLoop C X stack code ((p' : Int) + 1) ((q : Int) + 1 + 1) left.length
                keys.length) = Except.ok fSuccess ∧
          (if left.length > keys.length then Run.quiet (some false)
            else Silkcoin.multiSigLoop C X code keys left).result = some fSuccess := by
        intro left p' hleft
        by_cases hgt : left.length > keys.length
        · rw [dif_pos (by omega), if_pos hgt]
          exact ⟨false, rfl, rfl⟩
        · rw [dif_neg (by omega), if_neg hgt]
          exact ih left p' (q + 1) hleft hkeys' (Nat.not_lt.mp hgt)
      have hpred : ∀ n : Nat, ((n + 1 : Nat) : Int) - 1 = n := fun n => by omega
      rw [multiSigLoop, dif_pos (by simp), hsig, Silkcoin.multiSigLoop, Run.bind_result,
        checkOne_result]
      simp only [List.length_cons, hpred]
      show ∃ fSuccess, (stacktop stack (-((q : Int) + 1)) >>= _) = _ ∧ _
      rw [hkey]
      cases hone : checkOne C X code vchSig vchPubKey with
      | true =>
        -- the signature fits: one signature and one key less
        simp only [ok_bind, hone, if_true, Option.bind_some]
        exact hrest sigs (p + 1) hsigs'
      | false =>
        simp only [ok_bind, hone, Bool.false_eq_true, if_false, Option.bind_some]
        exact hrest (vchSig :: sigs) p hsigs

/-- A size test, which the source makes on the size as an `int`: the stack is that deep behind it,
    and only a stack that is not small fails it though it is. -/
theorem Agrees.depth {m : Nat} {i : Int} {f : Unit → Step α} {o : Option α}
    (hs : small → m < 2 ^ 31) (hn : (m : Int) < i → o = none)
    (hf : i ≤ m → Agrees small (f ()) o) : Agrees small (returnFalseIf (int32 m < i) >>= f) o := by
  unfold returnFalseIf
  by_cases hp : int32 m < i
  · rw [if_pos hp]
    by_cases hsmall : small
    · rw [int32_eq (hs hsmall)] at hp
      rw [hn hp]
      exact .returnFalse
    · exact .tooBig hsmall _
  · rw [if_neg hp]
    have hle := int32_le m
    exact hf (by omega)

/-- The signatures and the keys of a multisignature, when they are all on the stack: what the two
    loops over them read and what is popped. -/
theorem multiSig_items (vchKeys : Valtype) (st : List Valtype) (nKeys nSigs : Nat)
    (hdepth : nKeys + nSigs + 2 ≤ st.length) (hle : nSigs ≤ nKeys) (scriptCode : CScript)
    {code : CScript} (hcode : code = ((st.drop (nKeys + 1)).take nSigs).foldl (fun code vchSig =>
      findAndDelete (pushData vchSig) code) scriptCode) :
    dropSignatures (vchKeys :: st) (1 + 1 + (nKeys : Int) + 1) nSigs scriptCode = .ok code ∧
    (∃ fSuccess, multiSigLoop C X (vchKeys :: st) code (1 + 1 + (nKeys : Int) + 1) (1 + 1) nSigs nKeys =
        .ok fSuccess ∧
      (Silkcoin.multiSigLoop C X code (st.take nKeys) ((st.drop (nKeys + 1)).take nSigs)).result =
        some fSuccess) ∧
    popTimes (1 + 1 + (nKeys : Int) + 1 + (nSigs : Int)).toNat (vchKeys :: st) =
      .ok ((st.drop (nKeys + 1)).drop (nSigs + 1)) := by
  have hkeysLen : (st.take nKeys).length = nKeys := by
    rw [List.length_take]
    omega
  have hsigsLen : ((st.drop (nKeys + 1)).take nSigs).length = nSigs := by
    rw [List.length_take, List.length_drop]
    omega
  have hisig : ((nKeys + 2 : Nat) : Int) + 1 = 1 + 1 + (nKeys : Int) + 1 := by omega
  have hsigs : (st.drop (nKeys + 1)).take nSigs <+: (vchKeys :: st).drop (nKeys + 2) :=
    List.take_prefix _ _
  refine ⟨?_, ?_, ?_⟩
  · have hdropped := dropSignatures_eq _ _ scriptCode hsigs
    rw [hsigsLen, hisig, ← hcode] at hdropped
    exact hdropped
  · obtain ⟨fSuccess, hloop, hres⟩ := multiSigLoop_eq C X (vchKeys :: st) code (st.take nKeys)
      _ _ 1 hsigs (List.take_prefix _ _) (by omega)
    rw [hsigsLen, hkeysLen, hisig] at hloop
    exact ⟨fSuccess, hloop, hres⟩
  · have hi : (1 + 1 + (nKeys : Int) + 1 + (nSigs : Int)).toNat = nKeys + nSigs + 3 := by omega
    rw [hi, popTimes_eq _ _ (by simp only [List.length_cons]; omega), List.drop_drop]
    have hsum : nKeys + 1 + (nSigs + 1) = nKeys + nSigs + 2 := by omega
    rw [hsum]
    rfl

theorem checkMultiSigOp_agrees {m : Machine} (hs : small → m.stack.length < 2 ^ 31) (verify : Bool) :
    Agrees small (checkMultiSigOp C X verify m) (Silkcoin.checkMultiSigOp C X verify m).result := by
  obtain ⟨stack, altstack, vfExec, nOpCount, scriptCode⟩ := m
  refine Agrees.depth small hs (fun h => ?_) fun h1 => ?_
  · rcases stack with _ | ⟨vchKeys, st⟩
    · rfl
    · simp only [List.length_cons] at h
      omega
  rcases stack with _ | ⟨vchKeys, st⟩
  · exact absurd h1 (by simp)
  unfold Silkcoin.checkMultiSigOp
  rw [Run.bind_result]
  refine Agrees.bind (castToBigNum_agrees small vchKeys) fun bnKeys _ => ?_
  generalize getint bnKeys = nKeysCount
  refine Agrees.test (fun hp => ?_) fun hkeys => ?_
  · rw [if_pos hp]
    rfl
  rw [if_neg hkeys]
  rw [not_or, not_lt, gt_iff_lt, not_lt] at hkeys
  obtain ⟨nKeys, rfl⟩ := Int.eq_ofNat_of_zero_le hkeys.1
  rw [Int.toNat_natCast]
  refine Agrees.test (fun hp => ?_) fun hops => ?_
  · rw [if_pos (by omega)]
    rfl
  rw [if_neg (by omega)]
  refine Agrees.depth small hs (fun h => ?_) fun h2 => ?_
  · rw [List.drop_eq_nil_of_le (by simp only [List.length_cons] at h; omega)]
    rfl
  simp only [List.length_cons] at h2
  have hlt : nKeys < st.length := by omega
  -- the keys are the items below the number, and the number of signatures is below them
  have htop : stacktop (vchKeys :: st) (-(1 + 1 + (nKeys : Int))) = .ok st[nKeys] := by
    have hidx := stacktop_getElem (vchKeys :: st) (n := nKeys + 1)
      (by simp only [List.length_cons]; omega)
    have hint : -(((nKeys + 1 : Nat) : Int) + 1) = -(1 + 1 + (nKeys : Int)) := by omega
    rw [hint] at hidx
    exact hidx
  have hdrop := List.drop_eq_getElem_cons hlt
  rw [hdrop]
  show Agrees small (stacktop (vchKeys :: st) (-(1 + 1 + (nKeys : Int))) >>= _)
    (Run.result (Run.bind _ _))
  rw [htop, ok_bind, Run.bind_result]
  refine Agrees.bind (castToBigNum_agrees small _) fun bnSigs _ => ?_
  generalize getint bnSigs = nSigsCount
  refine Agrees.test (fun hp => ?_) fun hsigs => ?_
  · rw [if_pos hp]
    rfl
  rw [if_neg hsigs]
  rw [not_or, not_lt, gt_iff_lt, not_lt] at hsigs
  obtain ⟨nSigs, rfl⟩ := Int.eq_ofNat_of_zero_le hsigs.1
  rw [Int.toNat_natCast]
  refine Agrees.depth small hs (fun h => ?_) fun h3 => ?_
  · rw [if_pos (by rw [List.length_drop]; simp only [List.length_cons] at h; omega)]
    rfl
  simp only [List.length_cons] at h3
  rw [if_neg (by rw [List.length_drop]; omega)]
  obtain ⟨hdropped, ⟨fSuccess, hloop, hres⟩, hpop⟩ := multiSig_items C X vchKeys st
    nKeys nSigs (by omega) (by omega) scriptCode rfl
  show Agrees small (dropSignatures (vchKeys :: st) (1 + 1 + (nKeys : Int) + 1) nSigs scriptCode >>= _)
    (Run.result (Run.bind _ _))
  rw [hdropped, ok_bind, Run.bind_result, hres]
  show Agrees small
    (multiSigLoop C X (vchKeys :: st) _ (1 + 1 + (nKeys : Int) + 1) (1 + 1) nSigs nKeys >>= _) _
  rw [hloop, ok_bind]
  show Agrees small (popTimes (1 + 1 + (nKeys : Int) + 1 + (nSigs : Int)).toNat (vchKeys :: st) >>= _) _
  rw [hpop, ok_bind]
  have hcount : ((nOpCount : Int) + (nKeys : Int)).toNat = nOpCount + nKeys := by omega
  rw [hcount]
  exact leaveVerdict_agrees small verify _ _ _

theorem evalOp_agrees {m : Machine} (hs : small → m.stack.length < 2 ^ 31) (op : ScriptOp) :
    Agrees small (evalOp C X op m) (Silkcoin.evalOp C X op m).result := by
  unfold evalOp Silkcoin.evalOp
  split
  · exact checkSigOp_agrees small C X _ m
  split
  · exact checkMultiSigOp_agrees small C X hs _
  · exact plainOp_agrees small hs C op.opcode op.rest

theorem execute_agrees {m : Machine} (hs : small → m.stack.length < 2 ^ 31) (op : ScriptOp) :
    Agrees small (execute C X op m) (Silkcoin.execute C X op m).result := by
  unfold execute Silkcoin.execute
  split
  · exact .ok _
  split
  · exact evalOp_agrees small C X hs op
  · exact .ok _

/-- STEP LEMMA: one round of the loop. -/
theorem evalInstruction_agrees {m : Machine} (hs : small → m.stack.length < 2 ^ 31) (op : ScriptOp) :
    Agrees small (evalInstruction C X op m) (Silkcoin.evalInstruction C X op m).result := by
  have hs' : small → (m.countOp op.opcode).stack.length < 2 ^ 31 := by
    unfold Machine.countOp
    split <;> exact hs
  have hcounted : (op.opcode > OP_16 ∧ (m.countOp op.opcode).nOpCount > 201) ↔
      (op.opcode > OP_16 ∧ m.nOpCount + 1 > 201) := by
    refine and_congr_right fun hop => ?_
    rw [Machine.countOp, if_pos hop]
  unfold evalInstruction Silkcoin.evalInstruction
  refine Agrees.test (fun hp => by rw [if_pos hp]; rfl) fun hdata => ?_
  rw [if_neg hdata]
  refine Agrees.test (fun hp => by rw [if_pos (hcounted.mp hp)]; rfl) fun hcount => ?_
  rw [if_neg (fun hp => hcount (hcounted.mpr hp))]
  refine Agrees.test (fun hp => by rw [if_pos hp]; rfl) fun hdisabled => ?_
  rw [if_neg hdisabled, Run.bind_result]
  refine Agrees.bind (execute_agrees small C X hs' op) fun m _ => ?_
  refine Agrees.test (fun hp => if_pos hp) fun hsize => ?_
  rw [Run.quiet_result, if_neg hsize]
  exact .ok m

/-- RUN LEMMA. -/
theorem evalFrom_agrees (fuel : Nat) (script : CScript) {m : Machine}
    (hs : small → m.stack.length < 2 ^ 31) :
    Agrees small (evalFrom C X fuel script m) (Silkcoin.evalFrom C X fuel script m).result := by
  induction fuel generalizing script m with
  | zero => cases script <;> first | exact .returnFalse | exact .ok _
  | succ fuel ih =>
    cases script with
    | nil => exact .ok _
    | cons b script =>
      unfold evalFrom Silkcoin.evalFrom
      cases getOp (b :: script) with
      | none => exact .returnFalse
      | some op =>
        dsimp only
        rw [Run.bind_result]
        refine Agrees.bind (evalInstruction_agrees small C X hs op) fun m' hm' => ?_
        -- behind the size test no stack is too big
        have hlen := evalInstruction_size C X ((evalInstruction_agrees small C X hs op).eq_of_ok hm')
        exact ih op.rest fun _ => by omega

/-- Every instruction is at least one byte long, so the length of the script is fuel enough. -/
theorem evalFrom_fuel {fuel : Nat} : ∀ {fuel' : Nat} {script : CScript} {m : Machine},
    script.length ≤ fuel → script.length ≤ fuel' →
    evalFrom C X fuel script m = evalFrom C X fuel' script m := by
  induction fuel with
  | zero =>
    intro fuel' script m h _
    obtain rfl := List.eq_nil_of_length_eq_zero (Nat.le_zero.mp h)
    cases fuel' <;> rfl
  | succ fuel ih =>
    intro fuel' script m h h'
    cases script with
    | nil => cases fuel' <;> rfl
    | cons b script =>
      cases fuel' with
      | zero => exact absurd h' (by simp)
      | succ fuel' =>
        unfold evalFrom
        cases hget : getOp (b :: script) with
        | none => rfl
        | some op =>
          have hshrinks := getOp_shrinks hget
          have hnext : (fun m => evalFrom C X fuel op.rest m) = fun m => evalFrom C X fuel' op.rest m :=
            funext fun m => ih (by omega) (by omega)
          dsimp only
          rw [hnext]

theorem evalLoop_agrees (stack : List Valtype) (script : CScript) :
    Agrees (stack.length < 2 ^ 31) (evalLoop C X stack script)
      (Silkcoin.evalFrom C X script.length script ⟨stack, [], [], 0, script⟩).result :=
  evalFrom_agrees _ C X _ _ id

/-- **NO ACCESS OF `EvalScript` IS OUT OF RANGE**, on whatever stack it starts: all that is ever
    thrown into its `catch (...)` is the exception of `CastToBigNum`. -/
theorem evalLoop_inRange (stack : List Valtype) (script : CScript) :
    ∀ e, evalLoop C X stack script = .error (.throw e) → e = .castToBigNum := by
  intro e he
  cases e with
  | castToBigNum => rfl
  | outOfRange => exact absurd he (evalLoop_agrees C X stack script).inRange

/-- `OP_1ADD` on five bytes. -/
theorem evalLoop_inRange_1add :
    let C : Crypto := ⟨id, id, id, id, id, fun _ _ _ _ _ _ => false⟩
    ∃ e, evalLoop C ⟨⟨1, 0, [], [], 0⟩, 0, 0⟩ [[1, 2, 3, 4, 5]] [OP_1ADD] = .error (.throw e) ∧
      e = .castToBigNum := by
  intro C
  have hthrow : evalLoop C ⟨⟨1, 0, [], [], 0⟩, 0, 0⟩ [[1, 2, 3, 4, 5]] [OP_1ADD] =
      .error (.throw .castToBigNum) := rfl
  exact ⟨_, hthrow, evalLoop_inRange _ _ _ _ _ hthrow⟩

/-- The interpreter is this one. -/
theorem evalScript_eq_result {stack : List Valtype} (hstack : stack.length < 2 ^ 31)
    (script : CScript) :
    evalScript C X stack script = (Silkcoin.evalScript C X stack script).result := by
  unfold evalScript Silkcoin.evalScript
  split
  · rfl
  · rw [Run.bind_result]
    have hagrees := evalLoop_agrees C X stack script
    generalize evalLoop C X stack script = r at hagrees
    generalize (Silkcoin.evalFrom C X script.length script ⟨stack, [], [], 0, script⟩).result = o
      at hagrees
    cases hagrees with
    | ok m => rfl
    | returnFalse => rfl
    | castToBigNum => rfl
    | tooBig h => exact absurd hstack h

end Checking

end Access
end Silkcoin
