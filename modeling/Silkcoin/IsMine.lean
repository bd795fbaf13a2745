/-
  WHOSE an output is: `Solver` with all its templates, `IsMine` and `ExtractDestination`.

  `IsMine` of a script asks for the keys behind it; of a script hash, for the script behind it, and then
  for that one.  `IsMine` of a DESTINATION is another question: of a script hash it only asks if the
  script is known, not if its keys are there.  For key hashes the two agree.

  The key store is the wallet's, with the redeem scripts of `mapScripts` beside the keys.
-/
import Silkcoin.CoinStake

namespace Silkcoin

open BatchStore

/-! ## The key store with its scripts -/

structure CKeyStore extends CCryptoKeyStore where
  mapScripts : StdMap Uint160 CScript

namespace CKeyStore

variable (C : KeyPrimitives) (keystore : CKeyStore)

/-- `CScript::GetID` -/
def getID (script : CScript) : Uint160 := C.hash160 script

def addCScript (redeemScript : CScript) : CKeyStore :=
  { keystore with mapScripts := keystore.mapScripts.insert (getID C redeemScript) redeemScript }

def haveCScript (hash : Uint160) : Bool := (keystore.mapScripts.lookup hash).isSome

def getCScript (hash : Uint160) : Option CScript := keystore.mapScripts.lookup hash

end CKeyStore

/-! ## `Solver` -/

/-- What `Solver` finds: the kind of the script, and what is in it. -/
inductive Solution where
  | TX_PUBKEY (vchPubKey : List UInt8)
  | TX_PUBKEYHASH (hash : Uint160)
  | TX_SCRIPTHASH (hash : Uint160)
  | TX_MULTISIG (nRequired : Nat) (keys : List (List UInt8))
deriving DecidableEq

/-- `OP_SMALLINTEGER` -/
def solveSmallInteger (opcode : UInt8) : Option Nat := do
  guard (opcode = OP_0 ∨ (OP_1 ≤ opcode ∧ opcode ≤ OP_16))
  return decodeOP_N opcode

/-- `OP_PUBKEYS`: as many keys as there are, and the instruction behind them. -/
def solvePubKeys : Nat → ScriptOp → List (List UInt8) → Option (List (List UInt8) × ScriptOp)
  | 0, _, _ => none
  | fuel + 1, op, keys =>
    if 33 ≤ op.data.length ∧ op.data.length ≤ 120 then
      match getOp op.rest with
      | none => none
      | some next => solvePubKeys fuel next (keys ++ [op.data])
    else some (keys, op)

/-- `OP_SMALLINTEGER OP_PUBKEYS OP_SMALLINTEGER OP_CHECKMULTISIG`, with counts that agree. -/
def solveMultisig (script : CScript) : Option (Nat × List (List UInt8)) := do
  let required ← getOp script
  let m ← solveSmallInteger required.opcode
  let first ← getOp required.rest
  let (keys, count) ← solvePubKeys script.length first []
  let n ← solveSmallInteger count.opcode
  let checkMultisig ← getOp count.rest
  guard (checkMultisig.opcode = OP_CHECKMULTISIG ∧ checkMultisig.rest = [])
  guard (1 ≤ m ∧ 1 ≤ n ∧ m ≤ n ∧ keys.length = n)
  return (m, keys)

/-- All templates, pay-to-script-hash first. -/
def solveScript (scriptPubKey : CScript) : Option Solution :=
  if isPayToScriptHash scriptPubKey then some (.TX_SCRIPTHASH (uint160 ((scriptPubKey.drop 2).take 20)))
  else
    match solver scriptPubKey with
    | some (.TX_PUBKEY, vch) => some (.TX_PUBKEY vch)
    | some (.TX_PUBKEYHASH, vch) => some (.TX_PUBKEYHASH (uint160 vch))
    | none => (solveMultisig scriptPubKey).map fun r => .TX_MULTISIG r.1 r.2

/-! ## `IsMine` -/

namespace CKeyStore

variable (C : KeyPrimitives) (keystore : CKeyStore)

def haveKeys (pubkeys : List (List UInt8)) : Nat :=
  pubkeys.countP fun pubkey => keystore.haveKey (C.hash160 pubkey)

/-- `nDepth` bounds the scripts within scripts. -/
def isMineFrom : Nat → CScript → Bool
  | nDepth, scriptPubKey =>
    match solveScript scriptPubKey with
    | none => false
    | some (.TX_PUBKEY vchPubKey) => keystore.haveKey (C.hash160 vchPubKey)
    | some (.TX_PUBKEYHASH hash) => keystore.haveKey hash
    | some (.TX_SCRIPTHASH hash) =>
      match nDepth with
      | 0 => false
      | nDepth + 1 =>
        match keystore.getCScript hash with
        | none => false
        | some subscript => isMineFrom nDepth subscript
    | some (.TX_MULTISIG _ keys) => decide (keystore.haveKeys C keys = keys.length)

/-- A script of a script of a script ... is found after as many steps as there are scripts. -/
def isMine (scriptPubKey : CScript) : Bool :=
  keystore.isMineFrom C keystore.mapScripts.entries.length scriptPubKey

end CKeyStore

/-! ## Destinations -/

inductive CTxDestination where
  | keyID (id : Uint160)
  | scriptID (id : Uint160)
deriving DecidableEq

/-- A script with several keys has no single destination. -/
def extractDestination (C : KeyPrimitives) (scriptPubKey : CScript) : Option CTxDestination :=
  match solveScript scriptPubKey with
  | some (.TX_PUBKEY vchPubKey) => some (.keyID (C.hash160 vchPubKey))
  | some (.TX_PUBKEYHASH hash) => some (.keyID hash)
  | some (.TX_SCRIPTHASH hash) => some (.scriptID hash)
  | some (.TX_MULTISIG _ _) | none => none

/-- `IsMine(keystore, dest)` -/
def CKeyStore.isMineDestination (keystore : CKeyStore) : CTxDestination → Bool
  | .keyID id => keystore.haveKey id
  | .scriptID id => keystore.haveCScript id

end Silkcoin
