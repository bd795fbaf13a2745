/-
  `OP_CHECKMULTISIG`: which signatures it is content with.

  The loop gives every key to the first signature that is still open, and gives up when there are more
  signatures left than keys.  That is not to say that it is strict: whenever the signatures can be given
  to keys at all, each to one of its own and all in order, the loop finds a way (`checkMultiSig_matches`).
  One signature may fit several keys, and a key may come twice.
-/
import Silkcoin.StandardRun

namespace Silkcoin

open Matching Standard

variable {C : Crypto} {X : ScriptContext} {code : CScript}

/-- The signatures go to keys, in order, one key to each, and each is good for its key. -/
def Assignable (C : Crypto) (X : ScriptContext) (code : CScript) (sigs keys : List Valtype) : Prop :=
  ∃ f : Fin sigs.length ↪o Fin keys.length, ∀ i, signs C X code (sigs.get i) (keys.get (f i)) = true

theorem multiSigLoop_iff (keys sigs : List Valtype) :
    (multiSigLoop C X code keys sigs).result = some true ↔ Assignable C X code sigs keys := by
  rw [multiSigLoop_greedy, Option.some.injEq, greedy_iff]
  exact sublistForall₂_iff_orderEmbedding

/-- The script without the signatures. -/
def withoutSigs (sigs : List Valtype) (code : CScript) : CScript :=
  sigs.foldl (fun code vchSig => findAndDelete (pushData vchSig) code) code

/-- **`OP_CHECKMULTISIG` is complete.**  With `keys` and `sigs` on the stack, the last pushed first, and
    within the limits, it leaves the answer whether the signatures can be assigned to keys. -/
theorem checkMultiSig_matches {verify : Bool} {m : Machine} {keys sigs st : List Valtype}
    {vchKeys vchSigs dummy : Valtype}
    (hstack : m.stack = vchKeys :: (keys ++ vchSigs :: (sigs ++ dummy :: st)))
    (hkeys : castToBigNum vchKeys = some (keys.length : Int))
    (hsigs : castToBigNum vchSigs = some (sigs.length : Int)) (h20 : keys.length ≤ 20)
    (hop : m.nOpCount + keys.length ≤ 201) (hle : sigs.length ≤ keys.length) :
    ∃ fSuccess : Bool,
      (multiSigLoop C X (withoutSigs sigs m.scriptCode) keys sigs).result = some fSuccess ∧
      (checkMultiSigOp C X verify m).result =
        leaveVerdict verify { m with nOpCount := m.nOpCount + keys.length } st fSuccess ∧
      (fSuccess = true ↔ Assignable C X (withoutSigs sigs m.scriptCode) sigs keys) := by
  have hint : ∀ n : Nat, n ≤ 20 → getint (n : Int) = n := by
    intro n hn
    unfold getint
    rw [if_neg (by omega)]
  refine ⟨_, multiSigLoop_greedy keys sigs, ?_, ?_⟩
  · unfold checkMultiSigOp
    rw [hstack]
    dsimp only
    rw [Run.bind_result, Run.quiet_result, hkeys, Option.bind_some, hint _ h20, if_neg (by omega),
      if_neg (by simp only [Int.toNat_natCast]; omega), Int.toNat_natCast, List.drop_left' rfl,
      List.take_left' rfl]
    dsimp only
    rw [Run.bind_result, Run.quiet_result, hsigs, Option.bind_some, hint _ (by omega), if_neg (by omega),
      Int.toNat_natCast, if_neg (by simp only [List.length_append, List.length_cons]; omega),
      List.take_left' rfl, Run.bind_result, multiSigLoop_greedy, Option.bind_some]
    have hbelow : (sigs ++ dummy :: st).drop (sigs.length + 1) = st := by
      rw [List.drop_append, List.drop_eq_nil_of_le (Nat.le_succ _), Nat.add_sub_cancel_left]
      rfl
    rw [hbelow]
    rfl
  · rw [← multiSigLoop_iff, multiSigLoop_greedy, Option.some.injEq]

/-! ## Two of three, where the first signature fits every key -/

namespace TwoOfThree

/-- The least signature in canonical form, with `r` in it. -/
def sig (r : UInt8) : Valtype := [0x30, 6, 2, 1, r, 2, 1, 1, 1]

def key (x : UInt8) : Valtype := 2 :: List.replicate 32 x

/-- The second signature fits the last key alone. -/
def crypto : Crypto where
  ripemd160 := id
  sha1 := id
  sha256 := id
  hash160 := id
  hash256 := id
  checkSig vchSig vchPubKey _ _ _ _ := decide (vchSig = sig 1 ∨ vchPubKey = key 3)

def context : ScriptContext := ⟨⟨1, 0, [], [], 0⟩, 0, 1⟩

def machine : Machine where
  stack := [3] :: ([key 1, key 2, key 3] ++ [2] :: ([sig 1, sig 2] ++ [] :: []))
  altstack := []
  vfExec := []
  nOpCount := 1
  scriptCode := []

end TwoOfThree

theorem checkMultiSig_matches_two : ∃ fSuccess : Bool,
    (multiSigLoop TwoOfThree.crypto TwoOfThree.context [] [TwoOfThree.key 1, TwoOfThree.key 2, TwoOfThree.key 3]
      [TwoOfThree.sig 1, TwoOfThree.sig 2]).result = some fSuccess ∧
    (checkMultiSigOp TwoOfThree.crypto TwoOfThree.context false TwoOfThree.machine).result =
      leaveVerdict false { TwoOfThree.machine with nOpCount := 4 } [] fSuccess ∧
    (fSuccess = true ↔ Assignable TwoOfThree.crypto TwoOfThree.context [] [TwoOfThree.sig 1, TwoOfThree.sig 2]
      [TwoOfThree.key 1, TwoOfThree.key 2, TwoOfThree.key 3]) :=
  @checkMultiSig_matches TwoOfThree.crypto TwoOfThree.context false TwoOfThree.machine
    [TwoOfThree.key 1, TwoOfThree.key 2, TwoOfThree.key 3] [TwoOfThree.sig 1, TwoOfThree.sig 2] [] [3] [2] []
    rfl (by decide) (by decide) (by decide) (by decide) (by decide)

end Silkcoin
