/-
  `CScript`, written and read: the `<<` operators, `GetOp2`, and `FindAndDelete`.

  `GetOp2` reads through an iterator.  `InBounds.getOp2` is the function as it stands, with every access made
  to the bytes as they are, and with the cast of what is left to 32 BITS in front of the operand.  It never
  reads past the end (`InBounds.getOp2_safe`), and as long as less than 4 GiB are left it reads what `getOp`
  reads (`InBounds.getOp2_eq`).  With more left the cast may refuse an operand that is there.

  What the operators write is read back, item by item (`readOps_appendAll`).  Of the opcodes that holds only
  if they carry no operand: `<<` takes a push opcode without complaint, and what follows is then its operand.

  `FindAndDelete` erases from the vector it is walking.  It looks for the bytes at the boundaries of the
  instructions only, and where the bytes are one instruction themselves, what it finds there IS that
  instruction (`findAndDelete_splits`).
-/
import Silkcoin.StandardRun
import Silkcoin.StackAccess

namespace Silkcoin

namespace InBounds

/-! ## `GetOp2` -/

/-- What `GetOp2` returns and leaves in its references. -/
structure GetOpRet where
  fRet : Bool
  pc : Nat
  opcodeRet : UInt8
  vchRet : List UInt8
deriving DecidableEq

section GetOp

variable (script : CScript)

/-- `n` bytes from `pc` on, if they are all there. -/
def bytesAt (pc n : Nat) : Option (List UInt8) :=
  if pc + n ≤ script.length then some ((script.drop pc).take n) else none

def fail (pc : Nat) : Option GetOpRet := some ⟨false, pc, OP_INVALIDOPCODE, []⟩

/-- The operand.  What is left is compared as an `unsigned int`. -/
def takeOperand (opcode : UInt8) (pc nSize : Nat) : Option GetOpRet :=
  if (script.length - pc) % 2 ^ 32 < nSize then fail pc
  else do
    let vch ← bytesAt script pc nSize
    return ⟨true, pc + nSize, opcode, vch⟩

/-- The length in `n` bytes, and the operand behind it. -/
def takeSized (opcode : UInt8) (pc n : Nat) : Option GetOpRet :=
  if script.length - pc < n then fail pc
  else do
    let vch ← bytesAt script pc n
    takeOperand script opcode (pc + n) (vchValue vch)

/-- `none` is an access past the end. -/
def getOp2 (pc : Nat) : Option GetOpRet :=
  if script.length ≤ pc then fail pc
  else do
    let opcode ← script[pc]?
    if opcode ≤ OP_PUSHDATA4 then
      if opcode < OP_PUSHDATA1 then takeOperand script opcode (pc + 1) opcode.toNat
      else if opcode = OP_PUSHDATA1 then takeSized script opcode (pc + 1) 1
      else if opcode = OP_PUSHDATA2 then takeSized script opcode (pc + 1) 2
      else takeSized script opcode (pc + 1) 4
    else return ⟨true, pc + 1, opcode, []⟩

/-! ### It stays inside -/

/-- The cursor is between `pc` and the end. -/
def Stays (pc : Nat) (r : Option GetOpRet) : Prop :=
  ∃ ret, r = some ret ∧ pc ≤ ret.pc ∧ ret.pc ≤ script.length

variable {script}

theorem takeOperand_stays {opcode : UInt8} {pc nSize : Nat} (h : pc ≤ script.length) :
    Stays script pc (takeOperand script opcode pc nSize) := by
  unfold takeOperand
  split
  · exact ⟨_, rfl, Nat.le_refl _, h⟩
  · rename_i hsize
    -- the cast only makes less of what is left
    have hmod := Nat.mod_le (script.length - pc) (2 ^ 32)
    unfold bytesAt
    rw [if_pos (by omega)]
    exact ⟨_, rfl, Nat.le_add_right _ _, by dsimp only; omega⟩

theorem Stays.mono {pc pc' : Nat} {r : Option GetOpRet} (h : Stays script pc' r) (hle : pc ≤ pc') :
    Stays script pc r := by
  obtain ⟨ret, hret, hlo, hhi⟩ := h
  exact ⟨ret, hret, Nat.le_trans hle hlo, hhi⟩

theorem takeSized_stays {opcode : UInt8} {pc n : Nat} (h : pc ≤ script.length) :
    Stays script pc (takeSized script opcode pc n) := by
  unfold takeSized
  split
  · exact ⟨_, rfl, Nat.le_refl _, h⟩
  · rename_i hsize
    unfold bytesAt
    rw [if_pos (by omega)]
    exact (takeOperand_stays (by omega)).mono (Nat.le_add_right _ _)

/-- **`GetOp` READS NOTHING PAST THE END**, and where it succeeds the cursor moves on. -/
theorem getOp2_safe {pc : Nat} (h : pc ≤ script.length) :
    ∃ ret, getOp2 script pc = some ret ∧ pc ≤ ret.pc ∧ ret.pc ≤ script.length ∧
      (ret.fRet = true → pc < ret.pc) := by
  unfold getOp2
  split
  · exact ⟨_, rfl, Nat.le_refl _, h, fun hf => absurd hf Bool.false_ne_true⟩
  · rename_i hin
    have hlt : pc < script.length := Nat.lt_of_not_le hin
    rw [List.getElem?_eq_getElem hlt]
    have hmoves : ∀ {r : Option GetOpRet}, Stays script (pc + 1) r →
        ∃ ret, r = some ret ∧ pc ≤ ret.pc ∧ ret.pc ≤ script.length ∧ (ret.fRet = true → pc < ret.pc) := by
      rintro r ⟨ret, hret, hlo, hhi⟩
      exact ⟨ret, hret, Nat.le_of_succ_le hlo, hhi, fun _ => hlo⟩
    simp only [Option.bind_eq_bind, Option.bind_some]
    split
    · split
      · exact hmoves (takeOperand_stays hlt)
      split
      · exact hmoves (takeSized_stays hlt)
      split
      · exact hmoves (takeSized_stays hlt)
      · exact hmoves (takeSized_stays hlt)
    · exact hmoves ⟨_, rfl, Nat.le_refl _, hlt⟩

/-! ### It reads what `getOp` reads -/

/-- What `GetOp2` gives at `pc` is what `getOp` makes of the rest. -/
def Agrees (script : CScript) (op : Option ScriptOp) (r : Option GetOpRet) : Prop :=
  match op with
  | none => ∃ ret, r = some ret ∧ ret.fRet = false
  | some op => r = some ⟨true, script.length - op.rest.length, op.opcode, op.data⟩

theorem takeOperand_agrees {opcode : UInt8} {pc nSize : Nat} (h : pc ≤ script.length)
    (hsmall : script.length - pc < 2 ^ 32) :
    Agrees script (Silkcoin.takeOperand opcode nSize (script.drop pc)) (takeOperand script opcode pc nSize) := by
  unfold takeOperand Silkcoin.takeOperand
  rw [List.length_drop, Nat.mod_eq_of_lt hsmall]
  split
  · exact ⟨_, rfl, rfl⟩
  · unfold bytesAt Agrees
    rw [if_pos (by omega)]
    dsimp only
    rw [List.drop_drop, List.length_drop, show script.length - (script.length - (pc + nSize)) = pc + nSize by
      omega]
    rfl

/-- An operand behind its length in `n` bytes. -/
def sizedOp (opcode : UInt8) (n : Nat) (pc : CScript) : Option ScriptOp :=
  if pc.length < n then none else Silkcoin.takeOperand opcode (vchValue (pc.take n)) (pc.drop n)

theorem vchValue_singleton (b : UInt8) : vchValue [b] = b.toNat := by
  show b.toNat + 256 * 0 = b.toNat
  omega

/-- `getOp`, whatever the opcode. -/
theorem getOp_eq_sizedOp (opcode : UInt8) (pc : CScript) : getOp (opcode :: pc) =
    if opcode ≤ OP_PUSHDATA4 then
      if opcode < OP_PUSHDATA1 then Silkcoin.takeOperand opcode opcode.toNat pc
      else if opcode = OP_PUSHDATA1 then sizedOp opcode 1 pc
      else if opcode = OP_PUSHDATA2 then sizedOp opcode 2 pc
      else sizedOp opcode 4 pc
    else some ⟨opcode, [], pc⟩ := by
  unfold getOp sizedOp
  dsimp only
  split
  · split
    · rfl
    split
    · match pc with
      | [] => rfl
      | b0 :: pc =>
        rw [if_neg (by simp)]
        show Silkcoin.takeOperand opcode b0.toNat pc = Silkcoin.takeOperand opcode (vchValue [b0]) pc
        rw [vchValue_singleton]
    split
    · match pc with
      | [] => rfl
      | [_] => rfl
      | b0 :: b1 :: pc => rw [if_neg (by simp)]; rfl
    · match pc with
      | [] => rfl
      | [_] => rfl
      | [_, _] => rfl
      | [_, _, _] => rfl
      | b0 :: b1 :: b2 :: b3 :: pc => rw [if_neg (by simp)]; rfl
  · rfl

theorem takeSized_agrees {opcode : UInt8} {pc n : Nat} (h : pc ≤ script.length)
    (hsmall : script.length - pc < 2 ^ 32) :
    Agrees script (sizedOp opcode n (script.drop pc)) (takeSized script opcode pc n) := by
  unfold takeSized sizedOp
  rw [List.length_drop, List.drop_drop]
  split
  · exact ⟨_, rfl, rfl⟩
  · unfold bytesAt
    rw [if_pos (by omega)]
    exact takeOperand_agrees (by omega) (by omega)

/-- As long as less than 4 GiB are left. -/
theorem getOp2_eq {pc : Nat} (hsmall : script.length - pc < 2 ^ 32) :
    Agrees script (getOp (script.drop pc)) (getOp2 script pc) := by
  unfold getOp2
  split
  · rename_i hend
    rw [List.drop_eq_nil_of_le hend]
    exact ⟨_, rfl, rfl⟩
  · rename_i hin
    have hlt : pc < script.length := Nat.lt_of_not_le hin
    rw [List.getElem?_eq_getElem hlt, List.drop_eq_getElem_cons hlt]
    generalize script[pc] = opcode
    have hsized : ∀ n, Agrees script (sizedOp opcode n (script.drop (pc + 1)))
        (takeSized script opcode (pc + 1) n) := fun n => takeSized_agrees hlt (by omega)
    rw [getOp_eq_sizedOp]
    simp only [Option.bind_eq_bind, Option.bind_some]
    split
    · split
      · exact takeOperand_agrees hlt (by omega)
      split
      · exact hsized 1
      split
      · exact hsized 2
      · exact hsized 4
    · unfold Agrees
      dsimp only
      rw [List.length_drop, show script.length - (script.length - (pc + 1)) = pc + 1 by omega]
      rfl

/-- `GetOp` again and again from `pc` on, until it fails: what it read, and where it stopped. -/
def readOps (script : CScript) : Nat → Nat → Option (List Instruction × Nat)
  | 0, _ => none
  | fuel + 1, pc =>
    match getOp2 script pc with
    | none => none
    | some ret =>
      if ret.fRet then
        (readOps script fuel ret.pc).map fun read => (⟨ret.opcodeRet, ret.vchRet⟩ :: read.1, read.2)
      else some ([], ret.pc)

end GetOp

end InBounds

/-! ## Writing -/

/-- `push_uint64` -/
def pushUInt64 (n : Nat) : CScript :=
  if 1 ≤ n ∧ n ≤ 16 then [UInt8.ofNat (n + (OP_1.toNat - 1))] else pushData (getvch n)

/-- What is appended with `<<`.  An `opcodetype` is a byte, or the operator throws. -/
inductive ScriptItem where
  | opcode (opcode : UInt8)
  | bytes (b : List UInt8)
  | int64 (n : Int)
  | uint64 (n : Nat)
deriving DecidableEq

namespace ScriptItem

/-- The bytes the operator inserts at the end. -/
def encoding : ScriptItem → CScript
  | .opcode op => [op]
  | .bytes b => pushData b
  | .int64 n => pushInt64 n
  | .uint64 n => pushUInt64 n

/-- The opcode a push of these bytes begins with. -/
def pushOpcode (b : List UInt8) : UInt8 :=
  if b.length < OP_PUSHDATA1.toNat then UInt8.ofNat b.length
  else if b.length ≤ 0xff then OP_PUSHDATA1
  else if b.length ≤ 0xffff then OP_PUSHDATA2
  else OP_PUSHDATA4

/-- The instruction that stands for it: a small number is one opcode, other numbers and vectors are
    pushed. -/
def instruction : ScriptItem → Instruction
  | .opcode op => ⟨op, []⟩
  | .bytes b => ⟨pushOpcode b, b⟩
  | .int64 n =>
    if n = -1 ∨ (1 ≤ n ∧ n ≤ 16) then ⟨UInt8.ofNat (n + 80).toNat, []⟩ else ⟨pushOpcode (getvch n), getvch n⟩
  | .uint64 n => if 1 ≤ n ∧ n ≤ 16 then ⟨UInt8.ofNat (n + 80), []⟩ else ⟨pushOpcode (getvch n), getvch n⟩

/-- An opcode with an operand of its own, `OP_0` apart, whose operand is empty. -/
def IsPushOpcode (item : ScriptItem) : Prop :=
  ∃ op, item = .opcode op ∧ op ≠ OP_0 ∧ op ≤ OP_PUSHDATA4

end ScriptItem

/-- `CScript() << .. << ..` -/
def appendAll (items : List ScriptItem) : CScript :=
  items.foldl (fun script item => script ++ item.encoding) []

/-! ## What is written is read -/

section RoundTrip

open ScriptItem

theorem appendAll_eq (items : List ScriptItem) : appendAll items = items.flatMap encoding := by
  have hfold : ∀ (items : List ScriptItem) (script : CScript),
      items.foldl (fun script item => script ++ item.encoding) script = script ++ items.flatMap encoding := by
    intro items
    induction items with
    | nil => intro script; exact (List.append_nil script).symm
    | cons item items ih =>
      intro script
      rw [List.foldl_cons, ih, List.flatMap_cons, List.append_assoc]
  exact hfold items []

/-- Four bytes hold a length below 4 GiB. -/
theorem vchValue_four {n : Nat} (h : n < 2 ^ 32) : vchValue [UInt8.ofNat n, UInt8.ofNat (n / 256),
    UInt8.ofNat (n / 65536), UInt8.ofNat (n / 16777216)] = n := by
  show (UInt8.ofNat n).toNat + 256 * ((UInt8.ofNat (n / 256)).toNat + 256 *
    ((UInt8.ofNat (n / 65536)).toNat + 256 * ((UInt8.ofNat (n / 16777216)).toNat + 256 * 0))) = _
  rw [UInt8.toNat_ofNat', UInt8.toNat_ofNat', UInt8.toNat_ofNat', UInt8.toNat_ofNat']
  omega

/-- A push of less than 4 GiB, in whichever of the four encodings. -/
theorem getOp_pushData_append {b : List UInt8} (hb : b.length < 2 ^ 32) (rest : CScript) :
    getOp (pushData b ++ rest) = some ⟨pushOpcode b, b, rest⟩ := by
  have htake : ∀ opcode, takeOperand opcode b.length (b ++ rest) = some ⟨opcode, b, rest⟩ := by
    intro opcode
    unfold takeOperand
    rw [if_neg (by rw [List.length_append]; omega), List.take_left' rfl, List.drop_left' rfl]
  have hop : OP_PUSHDATA1.toNat = 76 := rfl
  unfold pushData pushOpcode
  rw [hop]
  split
  · rename_i hsmall
    have hpush := getOp_pushData hsmall rest
    unfold pushData at hpush
    rwa [hop, if_pos hsmall] at hpush
  split
  · rename_i h255
    rw [List.cons_append, List.cons_append, InBounds.getOp_eq_sizedOp]
    show takeOperand OP_PUSHDATA1 (vchValue [UInt8.ofNat b.length]) (b ++ rest) = _
    rw [InBounds.vchValue_singleton, UInt8.toNat_ofNat_of_lt' (by simp only [UInt8.size]; omega), htake]
  split
  · rw [List.cons_append, List.cons_append, List.cons_append, InBounds.getOp_eq_sizedOp,
      if_pos (by decide), if_neg (by decide), if_neg (by decide), if_pos rfl]
    unfold InBounds.sizedOp
    rw [if_neg (by simp)]
    show takeOperand OP_PUSHDATA2 (vchValue [UInt8.ofNat b.length, UInt8.ofNat (b.length / 256)])
      (b ++ rest) = _
    rw [Standard.vchValue_two (by omega), htake]
  · rw [List.cons_append, List.cons_append, List.cons_append, List.cons_append, List.cons_append,
      InBounds.getOp_eq_sizedOp, if_pos (by decide), if_neg (by decide), if_neg (by decide),
      if_neg (by decide)]
    unfold InBounds.sizedOp
    rw [if_neg (by simp)]
    show takeOperand OP_PUSHDATA4 (vchValue [UInt8.ofNat b.length, UInt8.ofNat (b.length / 256),
      UInt8.ofNat (b.length / 65536), UInt8.ofNat (b.length / 16777216)]) (b ++ rest) = _
    rw [vchValue_four hb, htake]

/-- A vector is not longer than its push. -/
theorem length_le_pushData (b : List UInt8) : b.length ≤ (pushData b).length := by
  unfold pushData
  split
  · rw [List.length_cons]; omega
  split
  · simp only [List.length_cons]; omega
  split
  · simp only [List.length_cons]; omega
  · simp only [List.length_cons]; omega

/-- An opcode without an operand is read as it is. -/
theorem getOp_plain {opcode : UInt8} (h : opcode = OP_0 ∨ ¬ opcode ≤ OP_PUSHDATA4) (rest : CScript) :
    getOp (opcode :: rest) = some ⟨opcode, [], rest⟩ := by
  rcases h with rfl | h
  · rfl
  · rw [InBounds.getOp_eq_sizedOp, if_neg h]

/-- **ONE ITEM** is read back as its instruction, whatever comes behind. -/
theorem getOp_encoding {item : ScriptItem} (hop : ¬ item.IsPushOpcode)
    (hsize : item.encoding.length < 2 ^ 32) (rest : CScript) :
    getOp (item.encoding ++ rest) = some ⟨item.instruction.opcode, item.instruction.data, rest⟩ := by
  have hpush : ∀ {b : List UInt8}, (pushData b).length < 2 ^ 32 →
      getOp (pushData b ++ rest) = some ⟨pushOpcode b, b, rest⟩ :=
    fun hlen => getOp_pushData_append (Nat.lt_of_le_of_lt (length_le_pushData _) hlen) rest
  -- a number of one opcode has one from `OP_1NEGATE` on
  have hsmall : ∀ k : Nat, 79 ≤ k → k ≤ 96 → ¬ UInt8.ofNat k ≤ OP_PUSHDATA4 := by
    intro k hlo hhi
    rw [UInt8.le_iff_toNat_le, UInt8.toNat_ofNat_of_lt' (by simp only [UInt8.size]; omega)]
    show ¬ k ≤ 78
    omega
  have hone : OP_1.toNat = 81 := rfl
  cases item with
  | opcode op =>
    refine @getOp_plain op ?_ rest
    by_cases hzero : op = OP_0
    · exact Or.inl hzero
    · exact Or.inr fun hle => hop ⟨op, rfl, hzero, hle⟩
  | bytes b => exact hpush hsize
  | int64 n =>
    have hsize : (pushInt64 n).length < 2 ^ 32 := hsize
    show getOp (pushInt64 n ++ rest) = _
    by_cases hn : n = -1 ∨ (1 ≤ n ∧ n ≤ 16)
    · rw [show pushInt64 n = [UInt8.ofNat (n + (OP_1.toNat - 1)).toNat] from if_pos hn, hone,
        show n + ((81 : Nat) - 1 : Int) = n + 80 by omega,
        show (ScriptItem.int64 n).instruction = ⟨UInt8.ofNat (n + 80).toNat, []⟩ from if_pos hn]
      exact getOp_plain (Or.inr (hsmall _ (by omega) (by omega))) rest
    · rw [show pushInt64 n = pushData (getvch n) from if_neg hn] at hsize ⊢
      rw [show (ScriptItem.int64 n).instruction = ⟨pushOpcode (getvch n), getvch n⟩ from if_neg hn]
      exact hpush hsize
  | uint64 n =>
    have hsize : (pushUInt64 n).length < 2 ^ 32 := hsize
    show getOp (pushUInt64 n ++ rest) = _
    by_cases hn : 1 ≤ n ∧ n ≤ 16
    · rw [show pushUInt64 n = [UInt8.ofNat (n + (OP_1.toNat - 1))] from if_pos hn, hone,
        show (ScriptItem.uint64 n).instruction = ⟨UInt8.ofNat (n + 80), []⟩ from if_pos hn]
      exact getOp_plain (Or.inr (hsmall _ (by omega) (by omega))) rest
    · rw [show pushUInt64 n = pushData (getvch n) from if_neg hn] at hsize ⊢
      rw [show (ScriptItem.uint64 n).instruction = ⟨pushOpcode (getvch n), getvch n⟩ from if_neg hn]
      exact hpush hsize

/-- No encoding is empty. -/
theorem encoding_ne_nil (item : ScriptItem) : item.encoding ≠ [] := by
  have hpush : ∀ b, pushData b ≠ [] := by
    intro b
    unfold pushData
    split
    · exact List.cons_ne_nil _ _
    split
    · exact List.cons_ne_nil _ _
    split
    · exact List.cons_ne_nil _ _
    · exact List.cons_ne_nil _ _
  cases item with
  | opcode op => exact List.cons_ne_nil _ _
  | bytes b => exact hpush b
  | int64 n =>
    show pushInt64 n ≠ []
    unfold pushInt64
    split
    · exact List.cons_ne_nil _ _
    · exact hpush _
  | uint64 n =>
    show pushUInt64 n ≠ []
    unfold pushUInt64
    split
    · exact List.cons_ne_nil _ _
    · exact hpush _

/-- The items that are left are read from where they begin. -/
theorem readOps_from {script : CScript} (hsize : script.length < 2 ^ 32) (items : List ScriptItem)
    (hop : ∀ item ∈ items, ¬ item.IsPushOpcode) (pre : CScript) (hscript : script = pre ++ items.flatMap encoding)
    (fuel : Nat) (hfuel : items.length < fuel) :
    InBounds.readOps script fuel pre.length = some (items.map instruction, script.length) := by
  induction items generalizing pre fuel with
  | nil =>
    obtain ⟨fuel, rfl⟩ : ∃ k, fuel = k + 1 := ⟨fuel - 1, by omega⟩
    rw [List.flatMap_nil, List.append_nil] at hscript
    subst hscript
    unfold InBounds.readOps InBounds.getOp2
    rw [if_pos (Nat.le_refl _)]
    rfl
  | cons item items ih =>
    obtain ⟨fuel, rfl⟩ : ∃ k, fuel = k + 1 := ⟨fuel - 1, by omega⟩
    rw [List.flatMap_cons, ← List.append_assoc] at hscript
    have hlen := congrArg List.length hscript
    rw [List.length_append, List.length_append] at hlen
    -- at the cursor stands the first item
    have hget := @InBounds.getOp2_eq script pre.length (by omega)
    rw [hscript, List.append_assoc, List.drop_left' rfl,
      getOp_encoding (hop item List.mem_cons_self) (by omega), ← List.append_assoc, ← hscript] at hget
    have hpc : script.length - (items.flatMap encoding).length = (pre ++ item.encoding).length := by
      rw [List.length_append]
      omega
    have hget : InBounds.getOp2 script pre.length =
        some ⟨true, (pre ++ item.encoding).length, item.instruction.opcode, item.instruction.data⟩ := by
      rw [← hpc]
      exact hget
    unfold InBounds.readOps
    rw [hget]
    dsimp only
    rw [if_pos rfl, ih (fun i hi => hop i (List.mem_cons_of_mem _ hi)) (pre ++ item.encoding) hscript fuel
      (by rw [List.length_cons] at hfuel; omega)]
    rfl

/-- **WHAT IS WRITTEN IS READ**, if no push opcode is among the items and the script is shorter than 4 GiB:
    `GetOp` gives instruction by instruction what the operators were given, and ends at the end.  And from
    any place of any script it moves on or fails, and reads nothing past the end. -/
theorem readOps_appendAll :
    (∀ items : List ScriptItem, (∀ item ∈ items, ¬ item.IsPushOpcode) → (appendAll items).length < 2 ^ 32 →
      InBounds.readOps (appendAll items) ((appendAll items).length + 1) 0 =
        some (items.map instruction, (appendAll items).length)) ∧
    ∀ (script : CScript) (pc : Nat), pc ≤ script.length →
      ∃ ret, InBounds.getOp2 script pc = some ret ∧ pc ≤ ret.pc ∧ ret.pc ≤ script.length ∧
        (ret.fRet = true → pc < ret.pc) := by
  refine ⟨fun items hop hsize => ?_, fun script pc h => InBounds.getOp2_safe h⟩
  refine readOps_from hsize items hop [] (appendAll_eq items) _ (Nat.lt_succ_of_le ?_)
  -- an item is a byte at least
  rw [appendAll_eq]
  clear hop hsize
  induction items with
  | nil => exact Nat.le_refl _
  | cons item items ih =>
    have hpos := List.length_pos_of_ne_nil (encoding_ne_nil item)
    rw [List.flatMap_cons, List.length_append, List.length_cons]
    omega

theorem readOps_appendAll_three : InBounds.readOps (appendAll [.opcode OP_1, .bytes [7], .int64 (-1)])
      ((appendAll [.opcode OP_1, .bytes [7], .int64 (-1)]).length + 1) 0 =
    some ([.opcode OP_1, .bytes [7], .int64 (-1)].map instruction,
      (appendAll [.opcode OP_1, .bytes [7], .int64 (-1)]).length) := by
  refine readOps_appendAll.1 _ (fun item hitem => ?_) (by decide)
  rintro ⟨op, rfl, -, hle⟩
  obtain rfl : op = OP_1 := by simpa using hitem
  exact absurd hle (by decide)

/-- A long vector with so much behind it that the cast loses it. -/
theorem getOp2_cast {b rest : CScript} (hlong : 0xffff < b.length) (hb : b.length < 2 ^ 32)
    (hcast : (b.length + rest.length) % 2 ^ 32 < b.length) :
    InBounds.getOp2 (pushData b ++ rest) 0 = some ⟨false, 5, OP_INVALIDOPCODE, []⟩ := by
  have hop : OP_PUSHDATA1.toNat = 76 := rfl
  have hvalue := vchValue_four hb
  have hpush : pushData b = OP_PUSHDATA4 :: UInt8.ofNat b.length :: UInt8.ofNat (b.length / 256) ::
      UInt8.ofNat (b.length / 65536) :: UInt8.ofNat (b.length / 16777216) :: b := by
    unfold pushData
    rw [hop, if_neg (by omega), if_neg (by omega), if_neg (by omega)]
  rw [hpush]
  generalize UInt8.ofNat b.length = b0 at hvalue ⊢
  generalize UInt8.ofNat (b.length / 256) = b1 at hvalue ⊢
  generalize UInt8.ofNat (b.length / 65536) = b2 at hvalue ⊢
  generalize UInt8.ofNat (b.length / 16777216) = b3 at hvalue ⊢
  simp only [List.cons_append]
  generalize hscript : OP_PUSHDATA4 :: b0 :: b1 :: b2 :: b3 :: (b ++ rest) = script
  have hlen : script.length = b.length + rest.length + 5 := by
    rw [← hscript]
    simp only [List.length_cons, List.length_append]
  unfold InBounds.getOp2
  rw [if_neg (by omega), show script[0]? = some OP_PUSHDATA4 by rw [← hscript]; rfl]
  simp only [Option.bind_eq_bind, Option.bind_some]
  rw [if_pos (by decide), if_neg (by decide), if_neg (by decide), if_neg (by decide)]
  unfold InBounds.takeSized InBounds.bytesAt
  rw [if_neg (by omega), if_pos (by omega),
    show (script.drop (0 + 1)).take 4 = [b0, b1, b2, b3] by rw [← hscript]; rfl]
  simp only [Option.bind_eq_bind, Option.bind_some]
  unfold InBounds.takeOperand
  rw [hvalue, hlen, show b.length + rest.length + 5 - (0 + 1 + 4) = b.length + rest.length by omega,
    if_pos hcast]
  rfl

/-- With one opcode behind it the cast refuses a vector of 4 GiB less one byte. -/
theorem readOps_cast {b : List UInt8} (hb : b.length = 2 ^ 32 - 1) (fuel : Nat) :
    InBounds.readOps (appendAll [.bytes b, .opcode OP_1]) (fuel + 1) 0 = some ([], 5) := by
  rw [appendAll_eq]
  show InBounds.readOps (pushData b ++ [OP_1]) (fuel + 1) 0 = some ([], 5)
  unfold InBounds.readOps
  rw [getOp2_cast (by omega) (by omega) (by rw [hb]; decide)]
  rfl

/-- 4 GiB less one byte. -/
def huge : List UInt8 := List.replicate (2 ^ 32 - 1) 0

theorem length_huge : huge.length = 2 ^ 32 - 1 := List.length_replicate

/-- A push opcode by itself is not read at all, and a vector of 4 GiB less one byte is not read with an
    opcode behind it. -/
theorem readOps_appendAll_fails :
    InBounds.readOps (appendAll [.opcode OP_PUSHDATA1]) 2 0 = some ([], 1) ∧
      ∀ fuel, InBounds.readOps (appendAll [.bytes huge, .opcode OP_1]) (fuel + 1) 0 = some ([], 5) :=
  ⟨by decide, readOps_cast length_huge⟩

end RoundTrip

/-! ## `FindAndDelete` -/

namespace InBounds

section Find

variable (b : CScript)

/-- `while (.. memcmp ..) { erase; ++nFound; }` at `pc`: what is left of the script, and the count. -/
def eraseMatches (pc : Nat) : Nat → CScript → Nat → CScript × Nat
  | 0, script, nFound => (script, nFound)
  | fuel + 1, script, nFound =>
    if script.length - pc ≥ b.length ∧ (script.drop pc).take b.length = b then
      eraseMatches pc fuel (script.take pc ++ script.drop (pc + b.length)) (nFound + 1)
    else (script, nFound)

/-- `do { .. } while (GetOp(pc, opcode))`.  `none` is an access past the end, or that the rounds did not
    suffice. -/
def findLoop : Nat → CScript → Nat → Nat → Option (CScript × Nat)
  | 0, _, _, _ => none
  | fuel + 1, script, pc, nFound =>
    let (script, nFound) := eraseMatches b pc script.length script nFound
    match getOp2 script pc with
    | none => none
    | some ret => if ret.fRet then findLoop fuel script ret.pc nFound else some (script, nFound)

/-- The script that is left, and the `int` that is returned. -/
def findAndDelete (script : CScript) : Option (CScript × Int) :=
  if b = [] then some (script, 0)
  else (findLoop b (script.length + 1) script 0 0).map fun found => (found.1, Access.int32 found.2)

end Find

end InBounds

/-! ### Instruction by instruction -/

/-- A script is these instructions, byte for byte, and a tail that no instruction can be read from. -/
inductive Splits : CScript → List CScript → CScript → Prop
  | tail {script : CScript} : getOp script = none → Splits script [] script
  | cons {enc rest tail : CScript} {encs : List CScript} {op : ScriptOp} :
      getOp (enc ++ rest) = some op → op.rest = rest → Splits rest encs tail →
        Splits (enc ++ rest) (enc :: encs) tail

section Splitting

variable {b script tail : CScript} {encs : List CScript}

/-- Every script is. -/
theorem exists_splits (script : CScript) : ∃ encs tail, Splits script encs tail := by
  induction hn : script.length using Nat.strong_induction_on generalizing script with
  | _ n ih =>
    cases hop : getOp script with
    | none => exact ⟨[], script, .tail hop⟩
    | some op =>
      have hshrinks := getOp_shrinks hop
      obtain ⟨encs, tail, hsplits⟩ := ih _ (by omega) op.rest rfl
      obtain ⟨enc, henc⟩ := (Standard.getOp_suffix hop).1
      subst henc
      exact ⟨enc :: encs, tail, .cons hop rfl hsplits⟩

theorem Splits.eq_append (h : Splits script encs tail) : script = encs.flatten ++ tail := by
  induction h with
  | tail => rfl
  | cons _ _ _ ih => rw [List.flatten_cons, List.append_assoc, ← ih]

/-- With more bytes behind, the same instruction is read. -/
theorem getOp_append {op : ScriptOp} (h : getOp script = some op) (more : CScript) :
    getOp (script ++ more) = some { op with rest := op.rest ++ more } := by
  have htake : ∀ {opcode : UInt8} {nSize : Nat} {pc : CScript}, takeOperand opcode nSize pc = some op →
      takeOperand opcode nSize (pc ++ more) = some { op with rest := op.rest ++ more } := by
    intro opcode nSize pc h
    unfold takeOperand at h ⊢
    split at h
    · cases h
    · rename_i hsize
      cases h
      have hle := Nat.le_of_not_lt hsize
      rw [if_neg (by rw [List.length_append]; omega), List.take_append_of_le_length hle,
        List.drop_append_of_le_length hle]
  have hsized : ∀ {opcode : UInt8} {n : Nat} {pc : CScript}, InBounds.sizedOp opcode n pc = some op →
      InBounds.sizedOp opcode n (pc ++ more) = some { op with rest := op.rest ++ more } := by
    intro opcode n pc h
    unfold InBounds.sizedOp at h ⊢
    split at h
    · cases h
    · rename_i hsize
      have hle := Nat.le_of_not_lt hsize
      rw [if_neg (by rw [List.length_append]; omega), List.take_append_of_le_length hle,
        List.drop_append_of_le_length hle]
      exact htake h
  cases script with
  | nil => cases h
  | cons opcode pc =>
    rw [InBounds.getOp_eq_sizedOp] at h
    rw [List.cons_append, InBounds.getOp_eq_sizedOp]
    split at h
    · rename_i hle
      rw [if_pos hle]
      split at h
      · rename_i hlt
        rw [if_pos hlt]
        exact htake h
      rename_i hlt
      rw [if_neg hlt]
      split at h
      · rename_i h1
        rw [if_pos h1]
        exact hsized h
      rename_i h1
      rw [if_neg h1]
      split at h
      · rename_i h2
        rw [if_pos h2]
        exact hsized h
      · rename_i h2
        rw [if_neg h2]
        exact hsized h
    · rename_i hle
      rw [if_neg hle]
      cases h
      rfl

/-- Where the bytes of one instruction stand at a boundary, that instruction stands there. -/
theorem Splits.of_prefix (hb : ∃ op, getOp b = some op ∧ op.rest = []) {rest : CScript}
    (h : Splits (b ++ rest) encs tail) : ∃ encs', encs = b :: encs' ∧ Splits rest encs' tail := by
  obtain ⟨op, hop, hrest⟩ := hb
  have hmore := getOp_append hop rest
  rw [hrest, List.nil_append] at hmore
  generalize hscript : b ++ rest = script at h hmore
  cases h with
  | tail hnone =>
    rw [hnone] at hmore
    cases hmore
  | @cons enc rest' _ encs' op' hop' hrest' hsplits =>
    rw [hop'] at hmore
    obtain rfl := Option.some.inj hmore
    obtain rfl : rest = rest' := hrest'
    obtain rfl := List.append_cancel_right hscript
    exact ⟨encs', rfl, hsplits⟩

/-- What is left when `b` has been erased at a boundary as often as it stands there. -/
theorem eraseMatches_splits (hb : ∃ op, getOp b = some op ∧ op.rest = []) (hne : b ≠ []) (pre : CScript)
    (fuel : Nat) : ∀ (script : CScript) (encs : List CScript) (nFound : Nat), Splits script encs tail →
      script.length ≤ fuel → ∃ script' encs', Splits script' encs' tail ∧
        InBounds.eraseMatches b pre.length fuel (pre ++ script) nFound =
          (pre ++ script', nFound + (encs.length - encs'.length)) ∧
        ¬ b <+: script' ∧ encs = List.replicate (encs.length - encs'.length) b ++ encs' := by
  have hpos := List.length_pos_of_ne_nil hne
  induction fuel with
  | zero =>
    intro script encs nFound h hfuel
    obtain rfl := List.length_eq_zero_iff.mp (Nat.le_zero.mp hfuel)
    refine ⟨[], encs, h, by rw [Nat.sub_self]; rfl, ?_, by rw [Nat.sub_self]; rfl⟩
    exact fun hpre => hne (List.prefix_nil.mp hpre)
  | succ fuel ih =>
    intro script encs nFound h hfuel
    unfold InBounds.eraseMatches
    rw [List.drop_left' rfl, List.length_append, Nat.add_sub_cancel_left]
    split
    · rename_i hmatch
      -- `b` stands here, so it is the first instruction
      obtain ⟨rest, rfl⟩ : b <+: script := hmatch.2 ▸ List.take_prefix _ _
      obtain ⟨encs, rfl, hrest⟩ := h.of_prefix hb
      rw [List.take_left' rfl, ← List.append_assoc, List.drop_left' (by rw [List.length_append])]
      rw [List.length_append] at hfuel
      obtain ⟨script', encs', hsplits, herase, hnot, hencs⟩ := ih rest encs (nFound + 1) hrest (by omega)
      have hle : encs'.length ≤ encs.length := by
        have := congrArg List.length hencs
        rw [List.length_append, List.length_replicate] at this
        omega
      have hcount : (b :: encs).length - encs'.length = encs.length - encs'.length + 1 := by
        rw [List.length_cons]
        omega
      refine ⟨script', encs', hsplits, ?_, hnot, ?_⟩
      · rw [herase, hcount]
        congr 1
        omega
      · rw [hcount, List.replicate_succ, List.cons_append, ← hencs]
    · rename_i hmatch
      refine ⟨script, encs, h, by rw [Nat.sub_self]; rfl, ?_, by rw [Nat.sub_self]; rfl⟩
      rintro ⟨rest, rfl⟩
      refine hmatch ⟨?_, List.take_left' rfl⟩
      rw [List.length_append]
      omega

/-- **THE LOOP**, from a boundary on.  In front of the boundary nothing changes. -/
theorem findLoop_splits (hb : ∃ op, getOp b = some op ∧ op.rest = []) (hne : b ≠ []) (fuel : Nat) :
    ∀ (pre script : CScript) (encs : List CScript) (nFound : Nat), Splits script encs tail →
      (pre ++ script).length < 2 ^ 32 → encs.length < fuel →
      InBounds.findLoop b fuel (pre ++ script) pre.length nFound =
        some (pre ++ ((encs.filter (· ≠ b)).flatten ++ tail), nFound + encs.count b) := by
  induction fuel with
  | zero => exact fun _ _ _ _ _ _ hfuel => absurd hfuel (Nat.not_lt_zero _)
  | succ fuel ih =>
    intro pre script encs nFound h hsize hfuel
    obtain ⟨script', encs', hsplits, herase, hnot, hencs⟩ := eraseMatches_splits hb hne pre
      (pre ++ script).length script encs nFound h (by rw [List.length_append]; omega)
    generalize encs.length - encs'.length = k at herase hencs
    subst hencs
    have hfilter : (List.replicate k b ++ encs').filter (· ≠ b) = encs'.filter (· ≠ b) := by
      rw [List.filter_append, List.filter_eq_nil_iff.mpr, List.nil_append]
      intro enc henc
      rw [List.eq_of_mem_replicate henc]
      simp
    have hcount : (List.replicate k b ++ encs').count b = k + encs'.count b := by
      rw [List.count_append, List.count_replicate_self]
    have hsmaller : script'.length ≤ script.length := by
      rw [h.eq_append, hsplits.eq_append, List.flatten_append]
      simp only [List.length_append]
      omega
    rw [hfilter, hcount]
    rw [List.length_append] at hsize hfuel
    unfold InBounds.findLoop
    rw [herase]
    dsimp only
    have hget := @InBounds.getOp2_eq (pre ++ script') pre.length (by rw [List.length_append]; omega)
    rw [List.drop_left' rfl] at hget
    cases hsplits with
    | tail hnone =>
      rw [hnone] at hget
      obtain ⟨ret, hret, hf⟩ := hget
      rw [hret]
      dsimp only
      rw [if_neg (by rw [hf]; exact Bool.false_ne_true)]
      rfl
    | @cons enc rest _ encs' op hop hrest hsplits =>
      have hget : InBounds.getOp2 (pre ++ (enc ++ rest)) pre.length =
          some ⟨true, (pre ++ (enc ++ rest)).length - rest.length, op.opcode, op.data⟩ := by
        rw [hop] at hget
        unfold InBounds.Agrees at hget
        dsimp only at hget
        rwa [hrest] at hget
      have hpc : (pre ++ (enc ++ rest)).length - rest.length = (pre ++ enc).length := by
        simp only [List.length_append]
        omega
      have hne : enc ≠ b := by
        rintro rfl
        exact hnot ⟨rest, rfl⟩
      rw [hget]
      dsimp only
      rw [if_pos rfl, hpc, ← List.append_assoc, ih (pre ++ enc) rest encs' _ hsplits
        (by
          simp only [List.length_append] at hsmaller ⊢
          omega)
        (by rw [List.length_replicate, List.length_cons] at hfuel; omega),
        List.filter_cons_of_pos (by simpa using hne), List.flatten_cons, List.count_cons_of_ne hne]
      simp only [List.append_assoc]
      congr 2
      omega

/-- An instruction is a byte at least. -/
theorem Splits.length_le (h : Splits script encs tail) : encs.length ≤ script.length := by
  induction h with
  | tail => exact Nat.zero_le _
  | cons hop hrest _ ih =>
    have hshrinks := getOp_shrinks hop
    rw [hrest, List.length_append] at hshrinks
    rw [List.length_cons, List.length_append]
    omega

/-- Below 4 GiB, but for the cast of the count. -/
theorem findAndDelete_count (hb : ∃ op, getOp b = some op ∧ op.rest = []) (hsize : script.length < 2 ^ 32)
    (h : Splits script encs tail) : InBounds.findAndDelete b script =
      some ((encs.filter (· ≠ b)).flatten ++ tail, Access.int32 (encs.count b)) := by
  have hne : b ≠ [] := by
    rintro rfl
    obtain ⟨op, hop, -⟩ := hb
    cases hop
  have hloop := findLoop_splits hb hne (script.length + 1) [] script encs 0 h hsize
    (Nat.lt_succ_of_le h.length_le)
  unfold InBounds.findAndDelete
  rw [if_neg hne]
  rw [List.nil_append, List.length_nil, List.nil_append, Nat.zero_add] at hloop
  rw [hloop]
  rfl

theorem findAndDeleteFrom_splits (hb : ∃ op, getOp b = some op ∧ op.rest = []) (hne : b ≠ [])
    (h : Splits script encs tail) : ∀ fuel, script.length ≤ fuel →
      findAndDeleteFrom b fuel script = (encs.filter (· ≠ b)).flatten ++ tail := by
  induction h with
  | @tail script hnone =>
    intro fuel _
    cases fuel with
    | zero => rfl
    | succ fuel =>
      unfold findAndDeleteFrom
      rw [hnone, if_neg]
      · rfl
      · intro hpre
        obtain ⟨rest, rfl⟩ := List.isPrefixOf_iff_prefix.mp hpre
        obtain ⟨op, hop, -⟩ := hb
        rw [getOp_append hop rest] at hnone
        cases hnone
  | @cons enc rest tail encs op hop hrest hsplits ih =>
    intro fuel hfuel
    have hshrinks := getOp_shrinks hop
    rw [hrest] at hshrinks
    obtain ⟨fuel, rfl⟩ : ∃ k, fuel = k + 1 := ⟨fuel - 1, by omega⟩
    unfold findAndDeleteFrom
    by_cases hpre : b <+: enc ++ rest
    · obtain ⟨rest', hrest'⟩ := hpre
      rw [if_pos (List.isPrefixOf_iff_prefix.mpr ⟨rest', hrest'⟩)]
      have hsplits' : Splits (b ++ rest') (enc :: encs) tail := hrest' ▸ .cons hop hrest hsplits
      obtain ⟨encs', hencs, -⟩ := hsplits'.of_prefix hb
      obtain ⟨rfl, rfl⟩ := List.cons.inj hencs
      rw [List.drop_left' rfl, ih fuel (by omega), List.filter_cons_of_neg (by simp)]
    · have hne : enc ≠ b := by
        rintro rfl
        exact hpre ⟨rest, rfl⟩
      rw [if_neg (fun h => hpre (List.isPrefixOf_iff_prefix.mp h)), hop]
      dsimp only
      rw [hrest, List.length_append, Nat.add_sub_cancel, List.take_left' rfl, ih fuel (by omega),
        List.filter_cons_of_pos (by simpa using hne), List.flatten_cons, List.append_assoc]

/-- So does the function of the interpreter and of `SignatureHash`. -/
theorem findAndDelete_eq (hb : ∃ op, getOp b = some op ∧ op.rest = []) (hsize : script.length < 2 ^ 32) :
    (InBounds.findAndDelete b script).map Prod.fst = some (findAndDelete b script) := by
  obtain ⟨encs, tail, h⟩ := exists_splits script
  have hne : b ≠ [] := by
    rintro rfl
    obtain ⟨op, hop, -⟩ := hb
    cases hop
  rw [findAndDelete_count hb hsize h]
  unfold findAndDelete
  rw [if_neg hne, findAndDeleteFrom_splits hb hne h _ (Nat.le_refl _)]
  rfl

/-- **AN INSTRUCTION IS DELETED WHEREVER IT STANDS**, in a script of less than 4 GiB, and nothing else changes:
    not the other instructions, not the data they push, and not the tail.  What is returned is how many there
    were, as an `int`. -/
theorem findAndDelete_splits {op : ScriptOp} (hb : getOp b = some op) (hrest : op.rest = [])
    (hsize : script.length < 2 ^ 32) : ∃ encs tail nFound, Splits script encs tail ∧
      InBounds.findAndDelete b script = some ((encs.filter (· ≠ b)).flatten ++ tail, nFound) ∧
      nFound = Access.int32 (encs.count b) ∧ (encs.count b < 2 ^ 31 → nFound = encs.count b) := by
  obtain ⟨encs, tail, h⟩ := exists_splits script
  refine ⟨encs, tail, _, h, findAndDelete_count ⟨op, hb, hrest⟩ hsize h, rfl, fun hfew => ?_⟩
  exact Int.bmod_eq_of_le (by omega) (by omega)

theorem findAndDelete_splits_checksig : ∃ encs tail nFound,
    Splits [0xac, 0x02, 0xac, 0xac, 0xac, 0x4c] encs tail ∧
      InBounds.findAndDelete [0xac] [0xac, 0x02, 0xac, 0xac, 0xac, 0x4c] =
        some ((encs.filter (· ≠ [0xac])).flatten ++ tail, nFound) ∧
      nFound = Access.int32 (encs.count [0xac]) ∧ (encs.count [0xac] < 2 ^ 31 → nFound = encs.count [0xac]) :=
  @findAndDelete_splits [0xac] [0xac, 0x02, 0xac, 0xac, 0xac, 0x4c] ⟨0xac, [], []⟩ rfl rfl (by decide)

/-! ### Above 4 GiB -/

theorem length_eraseMatches_le (pc fuel : Nat) : ∀ (script : CScript) (nFound : Nat),
    (InBounds.eraseMatches b pc fuel script nFound).1.length ≤ script.length := by
  induction fuel with
  | zero => exact fun script _ => Nat.le_refl script.length
  | succ fuel ih =>
    intro script nFound
    unfold InBounds.eraseMatches
    split
    · refine Nat.le_trans (ih _ _) ?_
      rw [List.length_append, List.length_take, List.length_drop]
      omega
    · exact Nat.le_refl _

theorem length_findLoop_le (fuel : Nat) : ∀ (script : CScript) (pc nFound : Nat) (found : CScript × Nat),
    InBounds.findLoop b fuel script pc nFound = some found → found.1.length ≤ script.length := by
  induction fuel with
  | zero => exact fun _ _ _ _ h => by cases h
  | succ fuel ih =>
    intro script pc nFound found h
    have herase := length_eraseMatches_le (b := b) pc script.length script nFound
    unfold InBounds.findLoop at h
    dsimp only at h
    split at h
    · cases h
    · split at h
      · exact Nat.le_trans (ih _ _ _ _ h) herase
      · cases h
        exact herase

/-- What stands in front is erased, whether `GetOp` can read it or not. -/
theorem findAndDelete_erases {rest : CScript} (hne : b ≠ []) {found : CScript × Int}
    (h : InBounds.findAndDelete b (b ++ rest) = some found) : found.1 ≠ b ++ rest := by
  have hpos := List.length_pos_of_ne_nil hne
  unfold InBounds.findAndDelete at h
  rw [if_neg hne] at h
  obtain ⟨loop, hloop, rfl⟩ := Option.map_eq_some_iff.mp h
  have hshort : loop.1.length ≤ rest.length := by
    unfold InBounds.findLoop at hloop
    dsimp only at hloop
    have herase : (InBounds.eraseMatches b 0 (b ++ rest).length (b ++ rest) 0).1.length ≤ rest.length := by
      obtain ⟨k, hk⟩ : ∃ k, (b ++ rest).length = k + 1 := ⟨(b ++ rest).length - 1, by
        rw [List.length_append]
        omega⟩
      rw [hk]
      unfold InBounds.eraseMatches
      rw [if_pos ⟨by rw [List.length_append]; omega, List.take_left' rfl⟩, Nat.zero_add,
        List.drop_left' rfl]
      exact length_eraseMatches_le _ _ _ _
    split at hloop
    · cases hloop
    · split at hloop
      · exact Nat.le_trans (length_findLoop_le _ _ _ _ _ hloop) herase
      · cases hloop
        exact herase
  intro heq
  have hlen := congrArg List.length heq
  rw [List.length_append] at hlen
  dsimp only at hlen
  omega

theorem splits_replicate (n : Nat) : Splits (List.replicate n OP_1) (List.replicate n [OP_1]) [] := by
  induction n with
  | zero => exact .tail rfl
  | succ n ih =>
    have hop : getOp ([OP_1] ++ List.replicate n OP_1) = some ⟨OP_1, [], List.replicate n OP_1⟩ :=
      getOp_plain (Or.inr (by decide)) _
    exact .cons hop rfl ih

theorem findAndDelete_replicate {n : Nat} (hn : n < 2 ^ 32) :
    InBounds.findAndDelete [OP_1] (List.replicate n OP_1) = some ([], Access.int32 n) := by
  rw [findAndDelete_count ⟨⟨OP_1, [], []⟩, rfl, rfl⟩ (by rwa [List.length_replicate]) (splits_replicate n),
    List.count_replicate_self, List.filter_eq_nil_iff.mpr]
  · rfl
  · intro enc henc
    rw [List.eq_of_mem_replicate henc]
    simp

/-- 2 GiB of `OP_1`. -/
def half : List UInt8 := List.replicate (2 ^ 31) OP_1

theorem length_half : half.length = 2 ^ 31 := List.length_replicate

/-- With 4 GiB behind it `GetOp` does not read an instruction that is deleted all the same; and of 2^31
    instructions the count is negative. -/
theorem findAndDelete_splits_fails :
    (InBounds.getOp2 (pushData half ++ half) 0 = some ⟨false, 5, OP_INVALIDOPCODE, []⟩ ∧
      ∀ found, InBounds.findAndDelete (pushData half) (pushData half ++ half) = some found →
        found.1 ≠ pushData half ++ half) ∧
    InBounds.findAndDelete [OP_1] half = some ([], -2147483648) := by
  have hlen := length_half
  refine ⟨⟨getOp2_cast (by omega) (by omega) (by rw [hlen]; decide), fun found h => ?_⟩, ?_⟩
  · exact findAndDelete_erases (encoding_ne_nil (.bytes half)) h
  · unfold half
    rw [findAndDelete_replicate (by decide), show Access.int32 (2 ^ 31) = -2147483648 by decide]

end Splitting

end Silkcoin
