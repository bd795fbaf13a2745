/-
  `CScript`: reading instructions, counting signature operations, pushing numbers.

  A script is its bytes.  The interpreter is not here: validation reaches it only through
  `VerifySignature`.  What block validation does with scripts on its own is to walk their
  instructions (`getOp`), count signature operations (`getSigOpCount`, with the accurate
  pay-to-script-hash variant `getScriptSigOpCount`), and compare the coinbase script with a pushed
  block height (`pushInt64`).

  The walks take a fuel argument, the length of the script, because every instruction consumes at
  least its opcode (`getOp_shrinks`).

  `pushInt64_prefix_injective` is the fact the coinbase height rule rests on: two pushed heights
  that are prefixes of one script of at most 100 bytes are the same height.
-/
import Silkcoin.Bignum
import Mathlib.Data.List.Infix

namespace Silkcoin

/-- A serialized script. -/
abbrev CScript := List UInt8

/-! ## Opcodes -/

def OP_0 : UInt8 := 0x00
def OP_PUSHDATA1 : UInt8 := 0x4c
def OP_PUSHDATA2 : UInt8 := 0x4d
def OP_PUSHDATA4 : UInt8 := 0x4e
def OP_1 : UInt8 := 0x51
def OP_16 : UInt8 := 0x60
@[match_pattern] def OP_EQUAL : UInt8 := 0x87
@[match_pattern] def OP_HASH160 : UInt8 := 0xa9
def OP_CHECKSIG : UInt8 := 0xac
def OP_CHECKSIGVERIFY : UInt8 := 0xad
def OP_CHECKMULTISIG : UInt8 := 0xae
def OP_CHECKMULTISIGVERIFY : UInt8 := 0xaf
def OP_INVALIDOPCODE : UInt8 := 0xff

/-- The number a small-integer opcode stands for. -/
def decodeOP_N (opcode : UInt8) : Nat :=
  if opcode = OP_0 then 0 else opcode.toNat - (OP_1.toNat - 1)

/-! ## Walking a script -/

/-- An instruction read off the front of a script. -/
structure ScriptOp where
  opcode : UInt8
  data : List UInt8
  rest : CScript

/-- Split `nSize` bytes of immediate operand off, if they are there. -/
def takeOperand (opcode : UInt8) (nSize : Nat) (pc : CScript) : Option ScriptOp :=
  if pc.length < nSize then none else some ⟨opcode, pc.take nSize, pc.drop nSize⟩

/-- Read one instruction: `none` at the end of the script or on a truncated operand. -/
def getOp (script : CScript) : Option ScriptOp :=
  match script with
  | [] => none
  | opcode :: pc =>
    if opcode ≤ OP_PUSHDATA4 then
      if opcode < OP_PUSHDATA1 then takeOperand opcode opcode.toNat pc
      else if opcode = OP_PUSHDATA1 then
        match pc with
        | b0 :: pc => takeOperand opcode b0.toNat pc
        | _ => none
      else if opcode = OP_PUSHDATA2 then
        match pc with
        | b0 :: b1 :: pc => takeOperand opcode (vchValue [b0, b1]) pc
        | _ => none
      else
        match pc with
        | b0 :: b1 :: b2 :: b3 :: pc => takeOperand opcode (vchValue [b0, b1, b2, b3]) pc
        | _ => none
    else some ⟨opcode, [], pc⟩

theorem takeOperand_rest {opcode : UInt8} {nSize : Nat} {pc : CScript} {op : ScriptOp}
    (h : takeOperand opcode nSize pc = some op) : op.rest.length ≤ pc.length := by
  unfold takeOperand at h
  split at h
  · cases h
  · cases h; simp

/-- Every instruction consumes at least its opcode. -/
theorem getOp_shrinks {script : CScript} {op : ScriptOp} (h : getOp script = some op) :
    op.rest.length < script.length := by
  unfold getOp at h
  split at h
  · cases h
  · rename_i opcode pc
    rw [List.length_cons]
    split at h
    · split at h
      · have := takeOperand_rest h; omega
      · split at h
        · split at h
          · have := takeOperand_rest h; simp only [List.length_cons]; omega
          · cases h
        · split at h
          · split at h
            · have := takeOperand_rest h; simp only [List.length_cons]; omega
            · cases h
          · split at h
            · have := takeOperand_rest h; simp only [List.length_cons]; omega
            · cases h
    · cases h; exact Nat.lt_succ_self _

/-! ## Signature operations -/

/-- The signature operations one opcode stands for. -/
def sigOpsOf (fAccurate : Bool) (lastOpcode opcode : UInt8) : Nat :=
  if opcode = OP_CHECKSIG ∨ opcode = OP_CHECKSIGVERIFY then 1
  else if opcode = OP_CHECKMULTISIG ∨ opcode = OP_CHECKMULTISIGVERIFY then
    if fAccurate ∧ OP_1 ≤ lastOpcode ∧ lastOpcode ≤ OP_16 then decodeOP_N lastOpcode else 20
  else 0

/-- The loop of `GetSigOpCount`: it stops, keeping its count, at the first unreadable instruction. -/
def sigOpsFrom (fAccurate : Bool) : Nat → CScript → UInt8 → Nat
  | 0, _, _ => 0
  | fuel + 1, script, lastOpcode =>
    match getOp script with
    | none => 0
    | some op =>
      sigOpsOf fAccurate lastOpcode op.opcode + sigOpsFrom fAccurate fuel op.rest op.opcode

/-- Signature operations of a script. -/
def getSigOpCount (fAccurate : Bool) (script : CScript) : Nat :=
  sigOpsFrom fAccurate script.length script OP_INVALIDOPCODE

def isPayToScriptHash (script : CScript) : Bool :=
  decide (script.length = 23 ∧ script.getD 0 0 = OP_HASH160 ∧ script.getD 1 0 = 0x14 ∧
    script.getD 22 0 = OP_EQUAL)

/-- The data of the last instruction of a push-only script; `none` if the script is not push-only
    or cannot be read to its end. -/
def lastPush : Nat → CScript → List UInt8 → Option (List UInt8)
  | _, [], data => some data
  | 0, _ :: _, _ => none
  | fuel + 1, script, _ =>
    match getOp script with
    | none => none
    | some op => if op.opcode > OP_16 then none else lastPush fuel op.rest op.data

/-- Signature operations an input adds when it spends `scriptPubKey` with `scriptSig`. -/
def getScriptSigOpCount (scriptPubKey scriptSig : CScript) : Nat :=
  if isPayToScriptHash scriptPubKey then
    match lastPush scriptSig.length scriptSig [] with
    | none => 0
    | some subscript => getSigOpCount true subscript
  else getSigOpCount true scriptPubKey

/-! ## Pushing data and numbers -/

/-- The bytes `operator<<(vector)` appends. -/
def pushData (b : List UInt8) : CScript :=
  if b.length < OP_PUSHDATA1.toNat then UInt8.ofNat b.length :: b
  else if b.length ≤ 0xff then OP_PUSHDATA1 :: UInt8.ofNat b.length :: b
  else if b.length ≤ 0xffff then
    OP_PUSHDATA2 :: UInt8.ofNat b.length :: UInt8.ofNat (b.length / 256) :: b
  else
    OP_PUSHDATA4 :: UInt8.ofNat b.length :: UInt8.ofNat (b.length / 256) ::
      UInt8.ofNat (b.length / 65536) :: UInt8.ofNat (b.length / 16777216) :: b

/-- The bytes `push_int64` appends: a small-integer opcode, or the pushed little-endian form. -/
def pushInt64 (n : Int) : CScript :=
  if n = -1 ∨ (1 ≤ n ∧ n ≤ 16) then [UInt8.ofNat (n + (OP_1.toNat - 1)).toNat]
  else pushData (getvch n)

example : pushInt64 5 = [0x55] := by decide
example : pushInt64 60001 = [0x03, 0x61, 0xea, 0x00] := by decide

/-- The first byte of a pushed height, and how long the push is.  The two forms do not overlap:
    a small-integer opcode is above every push opcode. -/
theorem pushInt64_cases (n : Nat) (h : (pushInt64 n).length ≤ 100) :
    (1 ≤ n ∧ n ≤ 16 ∧ pushInt64 n = [UInt8.ofNat (n + 80)]) ∨
    ((getvch n).length < 76 ∧ pushInt64 n = UInt8.ofNat (getvch n).length :: getvch n) ∨
    (76 ≤ (getvch n).length ∧ (getvch n).length ≤ 255 ∧
      pushInt64 n = 0x4c :: UInt8.ofNat (getvch n).length :: getvch n) := by
  unfold pushInt64 at h ⊢
  by_cases hs : (n : Int) = -1 ∨ (1 ≤ (n : Int) ∧ (n : Int) ≤ 16)
  · left
    have h1 : 1 ≤ n ∧ n ≤ 16 := by omega
    have htn : ((n : Int) + (OP_1.toNat - 1)).toNat = n + 80 := by
      have : (OP_1.toNat : Int) = 81 := rfl
      omega
    rw [if_pos hs, htn]
    exact ⟨h1.1, h1.2, rfl⟩
  · right
    rw [if_neg hs] at h ⊢
    unfold pushData at h ⊢
    have hop : OP_PUSHDATA1.toNat = 76 := rfl
    rw [hop] at h ⊢
    by_cases h76 : (getvch n).length < 76
    · left; rw [if_pos h76]; exact ⟨h76, rfl⟩
    · right
      rw [if_neg h76] at h ⊢
      by_cases h255 : (getvch n).length ≤ 0xff
      · rw [if_pos h255]; exact ⟨by omega, h255, rfl⟩
      · exfalso
        rw [if_neg h255] at h
        split at h <;> simp only [List.length_cons] at h <;> omega

theorem ofNat_toNat_lt {a b : Nat} (ha : a < 256) (hb : b < 256)
    (h : UInt8.ofNat a = UInt8.ofNat b) : a = b := by
  have := congrArg UInt8.toNat h
  rwa [UInt8.toNat_ofNat_of_lt' ha, UInt8.toNat_ofNat_of_lt' hb] at this

/-- Two pushed heights, one a prefix of the other, are equal: the first byte tells the form, the
    length byte the length, and the bytes the number. -/
theorem pushInt64_prefix_eq {m n : Nat} (hm : (pushInt64 m).length ≤ 100)
    (hn : (pushInt64 n).length ≤ 100) (hp : pushInt64 m <+: pushInt64 n) : m = n := by
  -- in the two long forms the length bytes agree, so the pushed bytes do
  have hbytes : ∀ {a b : List UInt8}, a <+: b → a.length = b.length → a = b :=
    fun hab hlen => hab.eq_of_length hlen
  rcases pushInt64_cases m hm with ⟨hm1, hm16, em⟩ | ⟨hml, em⟩ | ⟨hml, hmu, em⟩ <;>
  rcases pushInt64_cases n hn with ⟨hn1, hn16, en⟩ | ⟨hnl, en⟩ | ⟨hnl, hnu, en⟩ <;>
  rw [em, en, List.cons_prefix_cons] at hp <;> obtain ⟨hb, hp⟩ := hp
  · have := ofNat_toNat_lt (by omega) (by omega) hb; omega
  · have := ofNat_toNat_lt (by omega) (by omega) hb; omega
  · have := ofNat_toNat_lt (b := 76) (by omega) (by omega) hb; omega
  · have := ofNat_toNat_lt (by omega) (by omega) hb; omega
  · exact getvch_injective (hbytes hp (ofNat_toNat_lt (by omega) (by omega) hb))
  · have := ofNat_toNat_lt (b := 76) (by omega) (by omega) hb; omega
  · have := ofNat_toNat_lt (a := 76) (by omega) (by omega) hb; omega
  · have := ofNat_toNat_lt (a := 76) (by omega) (by omega) hb; omega
  · rw [List.cons_prefix_cons] at hp
    exact getvch_injective (hbytes hp.2 (ofNat_toNat_lt (by omega) (by omega) hp.1))

/-- Two pushed heights that start the same script of at most 100 bytes are equal. -/
theorem pushInt64_prefix_injective {m n : Nat} {script : CScript} (hlen : script.length ≤ 100)
    (hm : pushInt64 m <+: script) (hn : pushInt64 n <+: script) : m = n := by
  have hm100 : (pushInt64 m).length ≤ 100 := le_trans hm.length_le hlen
  have hn100 : (pushInt64 n).length ≤ 100 := le_trans hn.length_le hlen
  rcases List.prefix_or_prefix_of_prefix hm hn with h | h
  · exact pushInt64_prefix_eq hm100 hn100 h
  · exact (pushInt64_prefix_eq hn100 hm100 h).symm

end Silkcoin
