/-
  `addmultisigaddress`: from a request to a script the node understands.

  The call asks for at least one key to redeem and for as many keys as are to sign; every key must be a
  public key, in hex or behind an address of the wallet.  There is NO UPPER BOUND on their number.  The
  bound is in the encoder: `EncodeOP_N` asserts that a number is at most sixteen.

  So a request that is accepted yields a script that `Solver` reads back, key for key, exactly if it has
  no more than sixteen keys (`addmultisigaddress_understood_iff`); with seventeen the node stops.

  How an address is written is `Addresses`.
-/
import Silkcoin.CombineSignatures

namespace Silkcoin

open Validation

namespace Standard

/-- What ends the call: an exception with a text, one with a JSON code, or a failed assertion. -/
inductive RpcEnd where
  | runtimeError (what : String)
  | jsonRpc (message : String)
  | assertion (expr : String)
deriving DecidableEq, Repr

/-- `CBitcoinAddress`: the destination a text stands for, if it is a valid address. -/
structure Addresses where
  destination : List Char → Option CTxDestination

/-! ## Hex -/

/-- `phexdigit` -/
def phexdigit (c : Char) : Option UInt8 :=
  if '0' ≤ c ∧ c ≤ '9' then some (UInt8.ofNat (c.toNat - '0'.toNat))
  else if 'A' ≤ c ∧ c ≤ 'F' then some (UInt8.ofNat (c.toNat - 'A'.toNat + 10))
  else if 'a' ≤ c ∧ c ≤ 'f' then some (UInt8.ofNat (c.toNat - 'a'.toNat + 10))
  else none

def isHex (str : List Char) : Bool :=
  str.all (fun c => (phexdigit c).isSome) && decide (str.length > 0) && decide (str.length % 2 = 0)

def isspace (c : Char) : Bool := decide (c = ' ' ∨ (9 ≤ c.toNat ∧ c.toNat ≤ 13))

/-- `ParseHex`, up to the first character that is no digit. -/
def parseHex : List Char → List UInt8
  | [] => []
  | [_] => []
  | c :: d :: rest =>
    if isspace c then parseHex (d :: rest)
    else
      match phexdigit c, phexdigit d with
      | some hi, some lo => (hi <<< 4 ||| lo) :: parseHex rest
      | _, _ => []

/-! ## The request -/

section Request

variable (A : Addresses) (C : KeyPrimitives) (wallet : CCryptoKeyStore)

/-- `CPubKey::IsValid` -/
def isValidPubKey (vchPubKey : List UInt8) : Bool := decide (vchPubKey.length = 33 ∨ vchPubKey.length = 65)

/-- A fresh `CKey` with this public key. -/
def pubKeyOf (ks : List Char) (vchPubKey : List UInt8) : Except RpcEnd CKey :=
  if ¬ isValidPubKey vchPubKey ∨ ¬ C.validPubKey vchPubKey then
    .error (.runtimeError (" Invalid public key: " ++ String.ofList ks))
  else .ok (CKey.reset.setPubKey C vchPubKey)

/-- One turn of the loop that gathers the public keys. -/
def gatherKey (ks : List Char) : Except RpcEnd CKey :=
  match A.destination ks with
  | some (.keyID keyID) =>
    match wallet.getPubKey C keyID with
    | none => .error (.runtimeError ("no full public key for address " ++ String.ofList ks))
    | some vchPubKey => pubKeyOf C ks vchPubKey
  | some (.scriptID _) => .error (.runtimeError (String.ofList ks ++ " does not refer to a key"))
  | none =>
    if isHex ks then pubKeyOf C ks (parseHex ks)
    else .error (.runtimeError (" Invalid public key: " ++ String.ofList ks))

/-- `(int)` of a size. -/
def toInt (n : Nat) : Int := (n : Int).bmod (2 ^ 32)

/-- The checks of `addmultisigaddress`, and the keys it has gathered. -/
def gatherKeys (nRequired : Int) (keys : List (List Char)) (account : Option String) :
    Except RpcEnd (List CKey) := do
  require (account ≠ some "*") (.jsonRpc "Invalid account name")
  require (¬ nRequired < 1)
    (.runtimeError "a multisignature address must require at least one key to redeem")
  require (¬ toInt keys.length < nRequired) (.runtimeError ("not enough keys supplied (got " ++
    toString keys.length ++ " keys, but need at least " ++ toString nRequired ++ " to redeem)"))
  keys.mapM (gatherKey A C wallet)

/-- `EncodeOP_N`, with its assertion. -/
def assertOP_N (n : Int) : Except RpcEnd UInt8 := do
  require (0 ≤ n ∧ n ≤ 16) (.assertion "n >= 0 && n <= 16")
  return encodeOP_N n.toNat

/-- `SetMultisig`, of the public keys the keys give back. -/
def setMultisigOf (nRequired : Int) (keys : List CKey) : Except RpcEnd CScript := do
  let m ← assertOP_N nRequired
  let n ← assertOP_N (toInt keys.length)
  return [m] ++ pushAll (keys.map CKey.vchPubKey) ++ [n, OP_CHECKMULTISIG]

/-- The script whose hash becomes the address. -/
def addmultisigaddress (nRequired : Int) (keys : List (List Char)) (account : Option String) :
    Except RpcEnd CScript := do
  let pubkeys ← gatherKeys A C wallet nRequired keys account
  setMultisigOf nRequired pubkeys

end Request

/-! ## What is accepted -/

section Accepted

variable {A : Addresses} {C : KeyPrimitives} {wallet : CCryptoKeyStore}

theorem pubKeyOf_ok {ks : List Char} {vchPubKey : List UInt8} {key : CKey}
    (h : pubKeyOf C ks vchPubKey = .ok key) :
    key.vchPubKey.length = 33 ∨ key.vchPubKey.length = 65 := by
  unfold pubKeyOf at h
  split at h
  · cases h
  · rename_i hgood
    rw [not_or, not_not, not_not] at hgood
    cases h
    unfold CKey.setPubKey
    rw [if_pos hgood.2]
    exact of_decide_eq_true hgood.1

theorem gatherKey_ok {ks : List Char} {key : CKey} (h : gatherKey A C wallet ks = .ok key) :
    key.vchPubKey.length = 33 ∨ key.vchPubKey.length = 65 := by
  unfold gatherKey at h
  split at h
  · split at h
    · cases h
    · exact pubKeyOf_ok h
  · cases h
  · split at h
    · exact pubKeyOf_ok h
    · cases h

theorem mapM_gatherKey_ok : ∀ {keys : List (List Char)} {pubkeys : List CKey},
    keys.mapM (gatherKey A C wallet) = .ok pubkeys →
    pubkeys.length = keys.length ∧
      ∀ key ∈ pubkeys, key.vchPubKey.length = 33 ∨ key.vchPubKey.length = 65 := by
  intro keys
  induction keys with
  | nil =>
    intro pubkeys h
    cases h
    simp
  | cons ks keys ih =>
    intro pubkeys h
    rw [List.mapM_cons] at h
    obtain ⟨key, hkey, h⟩ := bind_ok.1 h
    obtain ⟨rest, hrest, h⟩ := bind_ok.1 h
    cases h
    obtain ⟨hlength, hall⟩ := ih hrest
    refine ⟨by rw [List.length_cons, List.length_cons, hlength], ?_⟩
    intro k hk
    rcases List.mem_cons.1 hk with rfl | hk
    · exact gatherKey_ok hkey
    · exact hall k hk

/-- A request that passes: the bounds that were checked, and one key of a good length for each text. -/
structure Accepted (nRequired : Int) (keys : List (List Char)) (pubkeys : List CKey) : Prop where
  required : 1 ≤ nRequired
  enough : nRequired ≤ toInt keys.length
  length : pubkeys.length = keys.length
  lengths : ∀ key ∈ pubkeys, key.vchPubKey.length = 33 ∨ key.vchPubKey.length = 65

theorem gatherKeys_ok {nRequired : Int} {keys : List (List Char)} {account : Option String}
    {pubkeys : List CKey} (h : gatherKeys A C wallet nRequired keys account = .ok pubkeys) :
    Accepted nRequired keys pubkeys := by
  unfold gatherKeys at h
  simp only [bind_ok, require_ok, exists_const, decide_eq_true_eq, not_lt] at h
  obtain ⟨-, hrequired, henough, hgather⟩ := h
  obtain ⟨hlength, hlengths⟩ := mapM_gatherKey_ok hgather
  exact ⟨hrequired, henough, hlength, hlengths⟩

end Accepted

/-! ## The script -/

theorem toInt_of_small {n : Nat} (h : n ≤ 16) : toInt n = n := by
  unfold toInt
  exact Int.bmod_eq_of_le (by omega) (by omega)

theorem assertOP_N_ok {n : Nat} (h : n ≤ 16) : assertOP_N n = .ok (encodeOP_N n) := by
  unfold assertOP_N
  rw [decide_eq_true (by omega), require_true, ok_bind, Int.toNat_natCast]
  rfl

/-- With sixteen keys at most no assertion fails. -/
theorem setMultisigOf_ok {nRequired : Int} {keys : List (List Char)} {pubkeys : List CKey}
    (h : Accepted nRequired keys pubkeys) (hfew : keys.length ≤ 16) :
    setMultisigOf nRequired pubkeys =
      .ok (setMultisig nRequired.toNat (pubkeys.map CKey.vchPubKey)) := by
  have hle := h.enough
  rw [toInt_of_small hfew] at hle
  have hrequired := h.required
  obtain ⟨m, rfl⟩ := Int.eq_ofNat_of_zero_le (show 0 ≤ nRequired by omega)
  have hm : m ≤ 16 := by omega
  unfold setMultisigOf setMultisig
  rw [assertOP_N_ok hm, ok_bind, h.length, toInt_of_small hfew, assertOP_N_ok hfew, ok_bind,
    List.length_map, h.length, Int.toNat_natCast]
  rfl

/-- A request is understood: the script is built, and `Solver` reads out of it what was asked for. -/
def Understood (nRequired : Int) (pubkeys : List CKey) : Prop :=
  ∃ script, setMultisigOf nRequired pubkeys = .ok script ∧
    solver script [] = (true, .TX_MULTISIG,
      [UInt8.ofNat nRequired.toNat] ::
        (pubkeys.map CKey.vchPubKey ++ [[UInt8.ofNat pubkeys.length]]))

/-- WHEN A REQUEST THAT IS ACCEPTED IS UNDERSTOOD: it has no more than sixteen keys. -/
theorem addmultisigaddress_understood_iff (A : Addresses) (C : KeyPrimitives) (wallet : CCryptoKeyStore)
    (nRequired : Int) (keys : List (List Char)) (account : Option String) (pubkeys : List CKey)
    (h : gatherKeys A C wallet nRequired keys account = .ok pubkeys) :
    Understood nRequired pubkeys ↔ keys.length ≤ 16 := by
  have hok := gatherKeys_ok h
  constructor
  · rintro ⟨script, -, hsolver⟩
    -- `Solver` never answers with more keys than that
    obtain ⟨ops, -, hstd⟩ := (solver_iff _ _ _).1 hsolver
    generalize hS : [UInt8.ofNat nRequired.toNat] ::
      (pubkeys.map CKey.vchPubKey ++ [[UInt8.ofNat pubkeys.length]]) = S at hstd
    cases hstd with
    | @multisig m n found hkeys hm hmn hn h16 =>
      have hlength := congrArg List.length hS
      simp only [List.length_cons, List.length_append, List.length_map, List.length_nil] at hlength
      have := hok.length
      omega
  · intro hfew
    have hle := hok.enough
    rw [toInt_of_small hfew] at hle
    have hrequired := hok.required
    have hlength := hok.length
    refine ⟨_, setMultisigOf_ok hok hfew, ?_⟩
    have hmulti := @isMultisig_setMultisig nRequired.toNat (pubkeys.map CKey.vchPubKey)
      (by
        intro key hkey
        obtain ⟨k, hk, rfl⟩ := List.mem_map.1 hkey
        have := hok.lengths k hk
        omega)
      (by omega) (by rw [List.length_map]; omega) (by rw [List.length_map]; omega)
    have hstd := solver_of_standard hmulti.decodes hmulti.standard
    have hdata : ((pubkeys.map CKey.vchPubKey).map pushOf).map Instruction.data =
        pubkeys.map CKey.vchPubKey := by
      rw [List.map_map]
      exact List.map_id _
    rw [hdata, List.length_map, List.length_map] at hstd
    exact hstd

/-! ## Three keys, and seventeen -/

namespace Requests

open CCryptoKeyStore.TwoKeys

/-- A key as it is typed in. -/
def hexStr (bytes : List UInt8) : List Char :=
  bytes.flatMap fun b => [Nat.digitChar (b.toNat / 16), Nat.digitChar (b.toNat % 16)]

/-- No text is an address, and the wallet has no keys. -/
def addresses : Addresses := ⟨fun _ => none⟩

def gathered (keys : List (List UInt8)) : Except RpcEnd (List CKey) :=
  gatherKeys addresses primitives CCryptoKeyStore.empty 1 (keys.map hexStr) none

theorem gathers : gathered [pubKey1, pubKey2, pubKey1] =
      .ok ([pubKey1, pubKey2, pubKey1].map (CKey.reset.setPubKey primitives)) ∧
    gathered (List.replicate 17 pubKey1) =
      .ok ((List.replicate 17 pubKey1).map (CKey.reset.setPubKey primitives)) := by decide +kernel

theorem understood_iff_three :
    Understood 1 ([pubKey1, pubKey2, pubKey1].map (CKey.reset.setPubKey primitives)) ↔
      ([pubKey1, pubKey2, pubKey1].map hexStr).length ≤ 16 :=
  addmultisigaddress_understood_iff addresses primitives CCryptoKeyStore.empty 1
    ([pubKey1, pubKey2, pubKey1].map hexStr) none _ gathers.1

/-- One key given seventeen times is accepted, and the assertion of the encoder fails. -/
theorem seventeen_keys :
    gathered (List.replicate 17 pubKey1) =
      .ok ((List.replicate 17 pubKey1).map (CKey.reset.setPubKey primitives)) ∧
    setMultisigOf 1 ((List.replicate 17 pubKey1).map (CKey.reset.setPubKey primitives)) =
      .error (.assertion "n >= 0 && n <= 16") ∧
    ¬ Understood 1 ((List.replicate 17 pubKey1).map (CKey.reset.setPubKey primitives)) := by
  have hstops : setMultisigOf 1 ((List.replicate 17 pubKey1).map (CKey.reset.setPubKey primitives)) =
      .error (.assertion "n >= 0 && n <= 16") := rfl
  refine ⟨gathers.2, hstops, ?_⟩
  rintro ⟨script, hscript, -⟩
  rw [hstops] at hscript
  cases hscript

end Requests

end Standard

end Silkcoin
