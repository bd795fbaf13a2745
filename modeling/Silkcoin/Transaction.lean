/-
  Transactions: the data, the context-free checks and the index records.

  `CTransaction` has the source's fields.  `checkTransaction` is everything block validation asks
  of a transaction without looking at the chain; its inversion `checkTransaction_ok` packs what a
  passed check guarantees into `TxChecked`, and later files use that record only.

  A routine of the source that `return false`s becomes a computation in `Check`: it either returns a
  value or stops with a `Failure`, which keeps the denial-of-service score and the log text (without
  its formatted arguments).  `throw` is the one C++ exception validation can raise.

  Two exemptions by SHAPE are defined here and used everywhere below: `isCoinBase` (one input, null
  outpoint) and `isCoinStake` (first input not null, at least two outputs, the first one empty).
-/
import Silkcoin.Lib.Validation
import Silkcoin.Lib.Store
import Silkcoin.Amount
import Silkcoin.Script
import Mathlib.Algebra.Order.BigOperators.Group.List

namespace Silkcoin

open Validation

/-! ## Failures -/

/-- Why a validation routine stopped: `return DoS(nDoS, error(msg))`, or a thrown exception. -/
inductive Failure where
  | reject (nDoS : Nat) (msg : String)
  | throw (what : String)
deriving DecidableEq, Repr

/-- A validation routine. -/
abbrev Check := Except Failure

namespace Failure

/-- A plain `return false`. -/
def quiet : Failure := .reject 0 ""

/-- The caller's own failure replaces the callee's `false`; an exception passes through. -/
def instead (e : Failure) : Failure → Failure
  | .reject _ _ => e
  | .throw what => .throw what

/-- The caller reports its own text and the callee's score. -/
def retext (msg : String) : Failure → Failure
  | .reject nDoS _ => .reject nDoS msg
  | .throw what => .throw what

end Failure

/-! ## The data -/

/-- A transaction hash and an output number. -/
structure COutPoint where
  hash : Uint256
  n : UInt32
deriving DecidableEq, Repr

def COutPoint.null : COutPoint := ⟨0, 0xffffffff⟩

def COutPoint.isNull (o : COutPoint) : Bool := decide (o.hash = 0 ∧ o.n = 0xffffffff)

structure CTxIn where
  prevout : COutPoint
  scriptSig : CScript
  nSequence : UInt32
deriving DecidableEq, Repr

def CTxIn.isFinal (txin : CTxIn) : Bool := decide (txin.nSequence = 0xffffffff)

structure CTxOut where
  nValue : Int
  scriptPubKey : CScript
deriving DecidableEq, Repr

def CTxOut.isEmpty (txout : CTxOut) : Bool := decide (txout.nValue = 0 ∧ txout.scriptPubKey = [])

structure CTransaction where
  nVersion : Int
  nTime : UInt32
  vin : List CTxIn
  vout : List CTxOut
  nLockTime : UInt32
deriving DecidableEq, Repr

/-- A position in the block files: file, offset of the block, offset of the transaction. -/
structure CDiskTxPos where
  nFile : UInt32
  nBlockPos : UInt32
  nTxPos : UInt32
deriving DecidableEq, Repr

namespace CDiskTxPos

def null : CDiskTxPos := ⟨0xffffffff, 0, 0⟩

def isNull (pos : CDiskTxPos) : Bool := decide (pos.nFile = 0xffffffff)

/-- The position that stands for "not on disk, look in the memory pool". -/
def memoryPool : CDiskTxPos := ⟨1, 1, 1⟩

end CDiskTxPos

/-- The index record of a transaction: where it is, and where each of its outputs was spent. -/
structure CTxIndex where
  pos : CDiskTxPos
  vSpent : List CDiskTxPos
deriving DecidableEq, Repr

/-- The record of a transaction just connected: every slot null. -/
def CTxIndex.new (pos : CDiskTxPos) (nOutputs : Nat) : CTxIndex :=
  ⟨pos, List.replicate nOutputs CDiskTxPos.null⟩

/-! ## Sizes -/

def MAX_BLOCK_SIZE : Nat := 1000000

def MAX_BLOCK_SIZE_GEN : Nat := MAX_BLOCK_SIZE / 2

def MAX_BLOCK_SIGOPS : Nat := MAX_BLOCK_SIZE / 50

def LOCKTIME_THRESHOLD : Int := 500000000

def getSizeOfCompactSize (nSize : Nat) : Nat :=
  if nSize < 253 then 1 else if nSize ≤ 0xffff then 3 else if nSize ≤ 0xffffffff then 5 else 9

/-- Serialized size of a vector of bytes. -/
def bytesSize (b : List UInt8) : Nat := getSizeOfCompactSize b.length + b.length

def CTxIn.getSerializeSize (txin : CTxIn) : Nat := 36 + bytesSize txin.scriptSig + 4

def CTxOut.getSerializeSize (txout : CTxOut) : Nat := 8 + bytesSize txout.scriptPubKey

namespace CTransaction

variable (tx : CTransaction)

def getSerializeSize : Nat :=
  4 + 4 + (getSizeOfCompactSize tx.vin.length + (tx.vin.map CTxIn.getSerializeSize).sum)
    + (getSizeOfCompactSize tx.vout.length + (tx.vout.map CTxOut.getSerializeSize).sum) + 4

/-! ## Shapes -/

/-- One input, of the null outpoint, and at least one output. -/
def isCoinBase : Bool :=
  match tx.vin with
  | [txin] => txin.prevout.isNull && decide (1 ≤ tx.vout.length)
  | _ => false

/-- The coinstake mark: the first output is empty. -/
def isCoinStake : Bool :=
  match tx.vin, tx.vout with
  | txin :: _, txout :: _ :: _ => !txin.prevout.isNull && txout.isEmpty
  | _, _ => false

/-- The outpoints spent, in order. -/
def prevouts : List COutPoint := tx.vin.map CTxIn.prevout

/-- The exact total of the outputs. -/
def valueOut : Int := (tx.vout.map CTxOut.nValue).sum

/-! ## Counting and summing -/

def getLegacySigOpCount : Nat :=
  (tx.vin.map fun txin => getSigOpCount false txin.scriptSig).sum +
    (tx.vout.map fun txout => getSigOpCount false txout.scriptPubKey).sum

/-- One turn of the loop of `GetValueOut`. -/
def addValueOut (nValueOut : Int) (txout : CTxOut) : Check Int := do
  let nValueOut := int64 (nValueOut + txout.nValue)
  require (moneyRange txout.nValue && moneyRange nValueOut)
    (.throw "CTransaction::GetValueOut() : value out of range")
  return nValueOut

def getValueOut : Check Int := tx.vout.foldlM addValueOut 0

/-! ## Fees -/

inductive GetMinFee_mode where
  | GMF_BLOCK
  | GMF_RELAY
  | GMF_SEND
deriving DecidableEq, Repr

def getMinFee (nBlockSize : Nat) (mode : GetMinFee_mode) (nBytes : Nat) : Int :=
  let nBaseFee := if mode = .GMF_RELAY then MIN_RELAY_TX_FEE else MIN_TX_FEE
  let nNewBlockSize := nBlockSize + nBytes
  let nMinFee := (1 + (nBytes / 1000 : Nat)) * nBaseFee
  let nMinFee :=
    if nMinFee < nBaseFee ∧ ∃ txout ∈ tx.vout, txout.nValue < CENT then nBaseFee else nMinFee
  if nBlockSize ≠ 1 ∧ nNewBlockSize ≥ MAX_BLOCK_SIZE_GEN / 2 ∧
      nNewBlockSize ≥ MAX_BLOCK_SIZE_GEN then MAX_MONEY
  else
    -- the price goes up as the block approaches full
    let nMinFee :=
      if nBlockSize ≠ 1 ∧ nNewBlockSize ≥ MAX_BLOCK_SIZE_GEN / 2 then
        int64 (nMinFee * (MAX_BLOCK_SIZE_GEN / (MAX_BLOCK_SIZE_GEN - nNewBlockSize) : Nat))
      else nMinFee
    if moneyRange nMinFee then nMinFee else MAX_MONEY

/-- The defaults `ConnectInputs` calls it with: a flat fee. -/
theorem getMinFee_block : tx.getMinFee 1 .GMF_BLOCK 0 = 10000 := by
  have hbase : ¬ ((1 + ((0 / 1000 : Nat) : Int)) * MIN_TX_FEE < MIN_TX_FEE ∧
      ∃ txout ∈ tx.vout, txout.nValue < CENT) := fun h => absurd h.1 (by decide)
  simp only [getMinFee, ne_eq, not_true_eq_false, false_and, if_false, reduceCtorEq, if_neg hbase]
  decide

/-! ## Finality -/

/-- Final at a height and a time; a zero height or time means the node's own. -/
def isFinal (nBestHeight nAdjustedTime nBlockHeight nBlockTime : Int) : Bool :=
  if tx.nLockTime = 0 then true
  else
    let nBlockHeight := if nBlockHeight = 0 then nBestHeight else nBlockHeight
    let nBlockTime := if nBlockTime = 0 then nAdjustedTime else nBlockTime
    let nLockTime : Int := tx.nLockTime.toNat
    if nLockTime < (if nLockTime < LOCKTIME_THRESHOLD then nBlockHeight else nBlockTime) then true
    else tx.vin.all CTxIn.isFinal

/-! ## The context-free checks -/

/-- The checks of one output; the loop carries the running total. -/
def checkTxOut (nValueOut : Int) (txout : CTxOut) : Check Int := do
  require (!(txout.isEmpty && !tx.isCoinBase && !tx.isCoinStake))
    (.reject 100 "CTransaction::CheckTransaction() : txout empty for user transaction")
  require (¬ txout.nValue < 0) (.reject 100 "CTransaction::CheckTransaction() : txout.nValue negative")
  require (¬ txout.nValue > MAX_MONEY)
    (.reject 100 "CTransaction::CheckTransaction() : txout.nValue too high")
  let nValueOut := int64 (nValueOut + txout.nValue)
  require (moneyRange nValueOut)
    (.reject 100 "CTransaction::CheckTransaction() : txout total out of range")
  return nValueOut

def coinBaseScriptSize : Nat :=
  match tx.vin with
  | txin :: _ => txin.scriptSig.length
  | [] => 0

def checkTransaction : Check Unit := do
  require (!tx.vin.isEmpty) (.reject 10 "CTransaction::CheckTransaction() : vin empty")
  require (!tx.vout.isEmpty) (.reject 10 "CTransaction::CheckTransaction() : vout empty")
  require (¬ tx.getSerializeSize > MAX_BLOCK_SIZE)
    (.reject 100 "CTransaction::CheckTransaction() : size limits failed")
  let _ ← tx.vout.foldlM tx.checkTxOut 0
  -- duplicate inputs
  require tx.prevouts.Nodup .quiet
  if tx.isCoinBase then
    require (¬ (tx.coinBaseScriptSize < 2 ∨ tx.coinBaseScriptSize > 100))
      (.reject 100 "CTransaction::CheckTransaction() : coinbase script size is invalid")
  else
    require (tx.vin.all fun txin => !txin.prevout.isNull)
      (.reject 10 "CTransaction::CheckTransaction() : prevout is null")

/-! ## What a passed check guarantees -/

theorem addValueOut_ok {nValueOut r : Int} {txout : CTxOut} (h : addValueOut nValueOut txout = .ok r) :
    moneyRange txout.nValue = true ∧ moneyRange r = true ∧ r = int64 (nValueOut + txout.nValue) := by
  unfold addValueOut at h
  rw [require_bind_ok, Bool.and_eq_true, pure_ok] at h
  obtain ⟨⟨hv, hr⟩, rfl⟩ := h
  exact ⟨hv, hr, rfl⟩

/-- Where `GetValueOut` returns, it returns the exact total: no partial sum has wrapped. -/
theorem getValueOut_ok {v : Int} (h : tx.getValueOut = .ok v) :
    v = tx.valueOut ∧ moneyRange v = true ∧ ∀ txout ∈ tx.vout, moneyRange txout.nValue = true := by
  have hloop := foldlM_ok_induct (P := fun pre s => s = (pre.map CTxOut.nValue).sum ∧
      moneyRange s = true ∧ ∀ txout ∈ pre, moneyRange txout.nValue = true)
    ⟨rfl, by decide, fun _ h => absurd h List.not_mem_nil⟩ ?_ h
  · exact hloop
  · rintro pre txout post s s' - ⟨hs, hrange, hall⟩ hstep
    obtain ⟨hv, hr, rfl⟩ := addValueOut_ok hstep
    rw [int64_add_money hrange hv] at hr ⊢
    refine ⟨by rw [List.map_append, List.sum_append, hs]; simp, hr, ?_⟩
    intro o ho
    rcases List.mem_append.mp ho with ho | ho
    · exact hall o ho
    · rw [List.mem_singleton.mp ho]; exact hv

theorem checkTxOut_ok {nValueOut r : Int} {txout : CTxOut}
    (h : tx.checkTxOut nValueOut txout = .ok r) :
    (txout.isEmpty && !tx.isCoinBase && !tx.isCoinStake) = false ∧
      moneyRange txout.nValue = true ∧ moneyRange r = true ∧ r = int64 (nValueOut + txout.nValue) := by
  unfold checkTxOut at h
  simp only [require_bind_ok, pure_ok, decide_eq_true_eq] at h
  obtain ⟨hempty, hneg, hmax, hr, rfl⟩ := h
  have hmoney : MAX_MONEY = 200000000000000000 := by decide
  refine ⟨by simpa only [Bool.not_eq_true'] using hempty, moneyRange_iff.mpr ⟨?_, ?_⟩, hr, rfl⟩ <;> omega

/-- What a transaction that passed `CheckTransaction` looks like. -/
structure TxChecked : Prop where
  vin_ne : tx.vin ≠ []
  vout_ne : tx.vout ≠ []
  values : ∀ txout ∈ tx.vout, moneyRange txout.nValue = true
  total : moneyRange tx.valueOut = true
  nonempty : tx.isCoinBase = false → tx.isCoinStake = false →
    ∀ txout ∈ tx.vout, txout.isEmpty = false
  distinct : tx.prevouts.Nodup
  script : tx.isCoinBase = true → 2 ≤ tx.coinBaseScriptSize ∧ tx.coinBaseScriptSize ≤ 100
  inputs : tx.isCoinBase = false → ∀ txin ∈ tx.vin, txin.prevout.isNull = false

theorem checkTxOuts_ok {r : Int} (h : tx.vout.foldlM tx.checkTxOut 0 = .ok r) :
    r = tx.valueOut ∧ moneyRange r = true ∧ ∀ txout ∈ tx.vout,
      moneyRange txout.nValue = true ∧
        (txout.isEmpty && !tx.isCoinBase && !tx.isCoinStake) = false := by
  have hloop := foldlM_ok_induct (P := fun pre s => s = (pre.map CTxOut.nValue).sum ∧
      moneyRange s = true ∧ ∀ txout ∈ pre, moneyRange txout.nValue = true ∧
        (txout.isEmpty && !tx.isCoinBase && !tx.isCoinStake) = false)
    ⟨rfl, by decide, fun _ h => absurd h List.not_mem_nil⟩ ?_ h
  · exact hloop
  · rintro pre txout post s s' - ⟨hs, hrange, hall⟩ hstep
    obtain ⟨hempty, hv, hr, rfl⟩ := tx.checkTxOut_ok hstep
    rw [int64_add_money hrange hv] at hr ⊢
    refine ⟨by rw [List.map_append, List.sum_append, hs]; simp, hr, ?_⟩
    intro o ho
    rcases List.mem_append.mp ho with ho | ho
    · exact hall o ho
    · rw [List.mem_singleton.mp ho]; exact ⟨hv, hempty⟩

theorem checkTransaction_ok {u : Unit} (h : tx.checkTransaction = .ok u) : tx.TxChecked := by
  unfold checkTransaction at h
  simp only [bind_ok, require_ok, exists_const, decide_eq_true_eq] at h
  obtain ⟨hvin, hvout, -, ⟨r, houts, hdup, hshape⟩⟩ := h
  obtain ⟨rfl, htotal, hall⟩ := tx.checkTxOuts_ok houts
  refine ⟨by simpa using hvin, by simpa using hvout, fun o ho => (hall o ho).1, htotal, ?_, hdup,
    ?_, ?_⟩
  · intro hcb hcs o ho
    simpa [hcb, hcs] using (hall o ho).2
  · intro hcb
    rw [if_pos hcb, require_ok, decide_eq_true_eq] at hshape
    omega
  · intro hcb
    rw [if_neg (by simp [hcb]), require_ok, List.all_eq_true] at hshape
    intro txin htx
    simpa using hshape txin htx

/-- `GetValueOut` does not throw for a transaction that passed `CheckTransaction`. -/
theorem TxChecked.getValueOut_eq (h : tx.TxChecked) : tx.getValueOut = .ok tx.valueOut := by
  have htotal := moneyRange_iff.mp h.total
  have hvalues := h.values
  unfold valueOut at htotal ⊢
  unfold getValueOut
  -- every partial sum lies between what is summed already and the total
  have aux : ∀ (l : List CTxOut) (s : Int), 0 ≤ s →
      s + (l.map CTxOut.nValue).sum ≤ 200000000000000000 →
      (∀ txout ∈ l, moneyRange txout.nValue = true) →
      l.foldlM addValueOut s = .ok (s + (l.map CTxOut.nValue).sum) := by
    intro l
    induction l with
    | nil => intro s _ _ _; simp
    | cons o l ih =>
      intro s hs hle hall
      rw [List.forall_mem_cons] at hall
      rw [List.map_cons, List.sum_cons, ← add_assoc] at hle ⊢
      have hrest : 0 ≤ (l.map CTxOut.nValue).sum := by
        refine List.sum_nonneg fun v hv => ?_
        obtain ⟨o', ho', rfl⟩ := List.mem_map.mp hv
        exact (moneyRange_iff.mp (hall.2 o' ho')).1
      have ho := moneyRange_iff.mp hall.1
      have hsum : int64 (s + o.nValue) = s + o.nValue := int64_of_range (by omega) (by omega)
      have hrange : moneyRange (s + o.nValue) = true := moneyRange_iff.mpr ⟨by omega, by omega⟩
      have hstep : addValueOut s o = .ok (s + o.nValue) := by
        unfold addValueOut
        simp only [hsum, hall.1, hrange]; rfl
      rw [List.foldlM_cons, hstep]
      exact ih _ (by omega) hle hall.2
  have hrun := aux tx.vout 0 (le_refl 0) (by omega) hvalues
  rwa [zero_add] at hrun

/-! ## The two shapes -/

theorem isCoinBase_iff : tx.isCoinBase = true ↔
    ∃ txin, tx.vin = [txin] ∧ txin.prevout.isNull = true ∧ tx.vout ≠ [] := by
  unfold isCoinBase
  split
  · rename_i txin hvin
    rw [hvin, Bool.and_eq_true, decide_eq_true_eq, Nat.one_le_iff_ne_zero]
    constructor
    · rintro ⟨hn, hl⟩
      exact ⟨txin, rfl, hn, fun h => hl (by rw [h]; rfl)⟩
    · rintro ⟨txin', heq, hn, hl⟩
      cases heq
      exact ⟨hn, fun h => hl (List.length_eq_zero_iff.mp h)⟩
  · rename_i hvin
    exact ⟨fun h => absurd h (by simp), fun ⟨txin, h, _⟩ => absurd h (hvin txin)⟩

theorem isCoinStake_inputs (h : tx.isCoinStake = true) :
    ∃ txin rest, tx.vin = txin :: rest ∧ txin.prevout.isNull = false := by
  unfold isCoinStake at h
  split at h
  · rename_i txin rest _ _ _ hvin _
    rw [Bool.and_eq_true] at h
    exact ⟨txin, rest, hvin, by simpa using h.1⟩
  · cases h

/-- No transaction has both shapes: the first input decides. -/
theorem not_isCoinStake_of_isCoinBase (h : tx.isCoinBase = true) : tx.isCoinStake = false := by
  obtain ⟨txin, hvin, hnull, _⟩ := tx.isCoinBase_iff.mp h
  by_contra hcs
  obtain ⟨txin', rest, hvin', hnn⟩ := tx.isCoinStake_inputs (by simpa using hcs)
  rw [hvin] at hvin'
  cases hvin'
  simp [hnull] at hnn

end CTransaction
end Silkcoin
