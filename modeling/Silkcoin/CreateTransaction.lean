/-
  `CreateTransaction`: the loop that looks for a FEE.

  Every pass selects coins for the amount and the fee so far, makes the transaction, signs it, and looks at
  its size: if the fee is too low for it, the next pass has the higher one.  Change below a cent goes into
  the fee first.  The change goes to a reserved key, at a random place among the outputs.

  A fee that was too low is replaced by a MULTIPLE of the same rate (`feeRate`), for a size below 100 kB, and
  each time by a higher one: so there are at most a hundred passes more (`feeLoop_ends`).  What a pass that
  succeeds has made is `Sent`.  The amounts are right in an `int64_t`: coins that add up to more than fits
  wrap, and the rest of the wallet's arithmetic wraps with them.

  `dPriority` is not used, and the supporting transactions are for the receiver.  The key store is what it is
  when the call is made: the keys the pool makes on the way are new.
-/
import Silkcoin.SelectedValue
import Silkcoin.KeyPool
import Silkcoin.SignSignature

namespace Silkcoin

open Validation BatchStore Standard SignatureHash Codec

/-- `CScript::SetDestination` -/
def setDestination : CTxDestination → CScript
  | .keyID id => [OP_DUP, OP_HASH160] ++ (20 :: toLE 20 id.toNat) ++ [OP_EQUALVERIFY, OP_CHECKSIG]
  | .scriptID id => [OP_HASH160] ++ (20 :: toLE 20 id.toNat) ++ [OP_EQUAL]

/-- What the library, the dice and the addresses in memory decide, pass by pass. -/
structure SendChances where
  select : Nat → Nat → Chances
  setOrder : Nat → List WalletCoin → List WalletCoin
  setOrder_perm : ∀ n coins, (setOrder n coins).Perm coins
  getRandInt : Nat → Nat → Nat
  getRandInt_lt : ∀ n nMax, 0 < nMax → getRandInt n nMax < nMax

/-- What a call is given: of `wtxNew` its version and its times. -/
structure SendCall where
  vecSend : List (CScript × Int)
  wtxNew : CTransaction
  reservekey : Nat
  coinControl : Option CCoinControl
  nTransactionFee : Int
  chances : SendChances

/-- What changes on the way. -/
structure SendState where
  wallet : CachedWallet
  pool : PoolWallet
  nFeeRet : Int

/-- The two kinds of exception. -/
inductive SendFailure where
  | wallet (e : Failure)
  | pool (e : PoolFailure)

/-- How a pass ends: with a higher fee, or the call returns; `none` is `false`. -/
inductive PassEnd where
  | again (st : SendState)
  | returned (wtxNew : Option CTransaction) (st : SendState)

/-- `CTxIn(coin.first->GetHash(), coin.second)` -/
def coinPrevout (P : Primitives) (coin : WalletCoin) : COutPoint := ⟨P.getHash coin.1.tx, UInt32.ofNat coin.2⟩

def coinScript (coin : WalletCoin) : CScript := ((coin.1.tx.vout[coin.2]?).map CTxOut.scriptPubKey).getD []

namespace SendCall

variable (P : Primitives) (E : SignPrimitives) (S : PoolSource) (s : NodeState) (nSteps : Nat)
  (call : SendCall) (nValue : Int)

/-- The outputs to the payees. -/
def payees : List CTxOut := call.vecSend.map fun p => ⟨p.2, p.1⟩

/-- Sub-cent change goes into the fee, as long as that is too low. -/
def moveToFee (nChange nFeeRet : Int) : Int × Int :=
  if nFeeRet < MIN_TX_FEE ∧ nChange > 0 ∧ nChange < CENT then
    let nMoveToFee := min nChange (int64 (MIN_TX_FEE - nFeeRet))
    (int64 (nChange - nMoveToFee), int64 (nFeeRet + nMoveToFee))
  else (nChange, nFeeRet)

/-- Where the change goes: to the address the user wants it at, or to a key out of the pool. -/
def scriptChange (pool : PoolWallet) : Except SendFailure (CScript × PoolWallet) :=
  match call.coinControl.bind CCoinControl.destChange with
  | some dest => .ok (setDestination dest, pool)
  | none =>
    match pool.getReservedKey S call.reservekey with
    | (.error e, _) => .error (.pool e)
    | (.ok vchPubKey, pool) => .ok (setDestination (.keyID (S.hash160 vchPubKey)), pool)

/-- The outputs, in pass `n`. -/
def outputs (n : Nat) (nChange : Int) (pool : PoolWallet) : Except SendFailure (List CTxOut × PoolWallet) :=
  if nChange > 0 then
    match call.scriptChange S pool with
    | .error e => .error e
    | .ok (script, pool) =>
      .ok (call.payees.insertIdx (call.chances.getRandInt n call.payees.length) ⟨nChange, script⟩, pool)
  else .ok (call.payees, pool.returnReserved call.reservekey)

def unsignedTx (coins : List WalletCoin) (vout : List CTxOut) : CTransaction :=
  { call.wtxNew with
    vin := coins.map fun coin => ⟨coinPrevout P coin, [], 0xffffffff⟩
    vout := vout }

/-- `SignSignature(*this, *coin.first, wtxNew, nIn)`, with `SIGHASH_ALL` -/
def signInput (keystore : CKeyStore) (tx : CTransaction) (input : WalletCoin × Nat) : Option CTransaction :=
  match Standard.signSignature E keystore (coinScript input.1) tx input.2 1 with
  | (true, tx) => some tx
  | (false, _) => none

def signInputs (keystore : CKeyStore) (coins : List WalletCoin) (tx : CTransaction) : Option CTransaction :=
  coins.zipIdx.foldlM (signInput E keystore) tx

/-- `nTransactionFee * (1 + (int64_t)nBytes / 1000)` -/
def payFee (nBytes : Nat) : Int := int64 (call.nTransactionFee * (1 + (nBytes / 1000 : Nat)))

/-- The size and the fee of what was signed. -/
def finish (tx : CTransaction) (st : SendState) : PassEnd :=
  let nBytes := tx.nSerSize.toNat
  if nBytes ≥ MAX_BLOCK_SIZE_GEN / 5 then .returned none st
  else
    let nFee := max (call.payFee nBytes) (tx.getMinFee 1 .GMF_SEND nBytes)
    if st.nFeeRet < nFee then .again { st with nFeeRet := nFee } else .returned (some tx) st

/-- A selection is made into a transaction. -/
def spend (n : Nat) (sel : Selection) (st : SendState) : Except SendFailure PassEnd :=
  let coins := call.chances.setOrder n sel.setCoinsRet
  let moved := moveToFee (int64 (int64 (sel.nValueRet - nValue) - st.nFeeRet)) st.nFeeRet
  match call.outputs S n moved.1 st.pool with
  | .error e => .error e
  | .ok (vout, pool) =>
    let st := { st with pool := pool, nFeeRet := moved.2 }
    match signInputs E st.wallet.keystore coins (call.unsignedTx P coins vout) with
    | none => .ok (.returned none st)
    | some tx => .ok (call.finish tx st)

/-- Pass `n` of the loop. -/
def pass (n : Nat) (st : SendState) : Except SendFailure PassEnd :=
  match st.wallet.selectCoins P s nSteps (call.chances.select n) (int64 (nValue + st.nFeeRet)) call.wtxNew.nTime
    call.coinControl with
  | .error e => .error (.wallet e)
  | .ok (none, wallet) => .ok (.returned none { st with wallet := wallet })
  | .ok (some sel, wallet) => call.spend P E S nValue n sel { st with wallet := wallet }

/-- The loop, as far as `fuel` goes. -/
def feeLoop : Nat → Nat → SendState → Option (Except SendFailure (Option CTransaction × SendState))
  | 0, _, _ => none
  | fuel + 1, n, st =>
    match call.pass P E S s nSteps nValue n st with
    | .error e => some (.error e)
    | .ok (.again st) => feeLoop fuel (n + 1) st
    | .ok (.returned wtxNew st) => some (.ok (wtxNew, st))

/-- The loop over the amounts; a negative sum so far ends it. -/
def sumSend : List (CScript × Int) → Int → Option Int
  | [], nValue => some nValue
  | p :: vecSend, nValue => if nValue < 0 then none else sumSend vecSend (int64 (nValue + p.2))

def createTransaction (fuel : Nat) (st : SendState) :
    Option (Except SendFailure (Option CTransaction × SendState)) :=
  match sumSend call.vecSend 0 with
  | none => some (.ok (none, st))
  | some nValue =>
    if call.vecSend = [] ∨ nValue < 0 then some (.ok (none, st))
    else call.feeLoop P E S s nSteps nValue fuel 0 { st with nFeeRet := call.nTransactionFee }

end SendCall

/-! ## Signing -/

theorem signedFrom_setScriptSig (tx : CTransaction) (nIn : Nat) (scriptSig : CScript) :
    tx.SignedFrom (setScriptSig tx nIn scriptSig) where
  nVersion := rfl
  nTime := rfl
  prevouts := by
    show (tx.vin.modify nIn _).map CTxIn.prevout = tx.vin.map CTxIn.prevout
    apply List.ext_getElem?
    intro i
    rw [List.getElem?_map, List.getElem?_modify, List.getElem?_map]
    cases tx.vin[i]? with
    | none => rfl
    | some txin =>
      by_cases hi : nIn = i <;> simp [hi]
  vout := rfl
  nLockTime := rfl

theorem signedFrom_signSignature (E : SignPrimitives) (keystore : CKeyStore) (fromPubKey : CScript)
    (tx : CTransaction) (nIn : Nat) (nHashType : HashType) :
    tx.SignedFrom (Standard.signSignature E keystore fromPubKey tx nIn nHashType).2 := by
  unfold Standard.signSignature
  dsimp only
  split
  · exact signedFrom_setScriptSig tx nIn _
  · split
    · exact (signedFrom_setScriptSig tx nIn _).trans (signedFrom_setScriptSig _ nIn _)
    · exact (signedFrom_setScriptSig tx nIn _).trans (signedFrom_setScriptSig _ nIn _)
  · exact signedFrom_setScriptSig tx nIn _

namespace SendCall

variable {P : Primitives} {E : SignPrimitives} {S : PoolSource} {s : NodeState} {nSteps : Nat}
  {call : SendCall} {nValue : Int}

theorem signInput_ok {keystore : CKeyStore} {tx tx' : CTransaction} {input : WalletCoin × Nat}
    (h : signInput E keystore tx input = some tx') : tx.SignedFrom tx' := by
  have hsigned := signedFrom_signSignature E keystore (coinScript input.1) tx input.2 1
  unfold signInput at h
  split at h
  · rename_i heq
    cases h
    rw [heq] at hsigned
    exact hsigned
  · cases h

theorem signInputs_ok {keystore : CKeyStore} {coins : List WalletCoin} {tx tx' : CTransaction}
    (h : signInputs E keystore coins tx = some tx') : tx.SignedFrom tx' := by
  unfold signInputs at h
  generalize coins.zipIdx = inputs at h
  induction inputs generalizing tx with
  | nil =>
    cases h
    exact CTransaction.SignedFrom.refl _
  | cons input inputs ih =>
    rw [List.foldlM_cons] at h
    obtain ⟨mid, hfirst, hrest⟩ := Option.bind_eq_some_iff.mp h
    exact (signInput_ok hfirst).trans (ih hrest)

/-! ## The fee -/

/-- Per kilobyte, of what is asked for and what is configured. -/
def feeRate (call : SendCall) : Int := max call.nTransactionFee MIN_TX_FEE

/-- A hundred kilobytes cost no more than there is. -/
def FeeRange (call : SendCall) : Prop := moneyRange (100 * call.nTransactionFee) = true

theorem getMinFee_send (tx : CTransaction) {nBytes : Nat} (hsize : nBytes < 100000) :
    tx.getMinFee 1 .GMF_SEND nBytes = MIN_TX_FEE * (1 + (nBytes / 1000 : Nat)) := by
  have hbase : MIN_TX_FEE = 10000 := rfl
  have hk : nBytes / 1000 < 100 := by omega
  have hnot : ¬ ((1 + ((nBytes / 1000 : Nat) : Int)) * MIN_TX_FEE < MIN_TX_FEE ∧
      ∃ txout ∈ tx.vout, txout.nValue < CENT) := by
    rintro ⟨h, -⟩
    rw [hbase] at h
    omega
  have hrange : moneyRange ((1 + ((nBytes / 1000 : Nat) : Int)) * MIN_TX_FEE) = true := by
    rw [hbase]
    exact moneyRange_iff.mpr ⟨by omega, by omega⟩
  simp only [CTransaction.getMinFee, ne_eq, not_true_eq_false, false_and, if_false, reduceCtorEq, if_neg hnot]
  rw [if_pos hrange, mul_comm]

theorem payFee_eq (hfee : call.FeeRange) {nBytes : Nat} (hsize : nBytes < 100000) :
    call.payFee nBytes = call.nTransactionFee * (1 + (nBytes / 1000 : Nat)) := by
  obtain ⟨h0, hmax⟩ := moneyRange_iff.mp hfee
  have hk : nBytes / 1000 < 100 := by omega
  have hlow : 0 ≤ call.nTransactionFee * (1 + ((nBytes / 1000 : Nat) : Int)) :=
    mul_nonneg (by omega) (by omega)
  have hhigh : call.nTransactionFee * (1 + ((nBytes / 1000 : Nat) : Int)) ≤ call.nTransactionFee * 100 :=
    mul_le_mul_of_nonneg_left (by omega) (by omega)
  exact int64_of_range (by omega) (by omega)

/-- WHAT IS ASKED FOR is the rate, times the kilobytes begun. -/
theorem fee_eq (hfee : call.FeeRange) (tx : CTransaction) {nBytes : Nat} (hsize : nBytes < 100000) :
    max (call.payFee nBytes) (tx.getMinFee 1 .GMF_SEND nBytes) =
      call.feeRate * (1 + (nBytes / 1000 : Nat)) := by
  rw [payFee_eq hfee hsize, getMinFee_send tx hsize, feeRate, max_mul_of_nonneg _ _ (by omega)]

theorem feeRate_pos : 0 < call.feeRate := by
  have hbase : MIN_TX_FEE = 10000 := rfl
  unfold feeRate
  omega

/-- A fee that is no more than a hundred times the rate. -/
structure FeeOk (call : SendCall) (nFeeRet : Int) : Prop where
  nonneg : 0 ≤ nFeeRet
  bounded : nFeeRet ≤ call.feeRate * 100

theorem FeeOk.money {nFeeRet : Int} (h : call.FeeOk nFeeRet) (hfee : call.FeeRange) :
    nFeeRet ≤ 200000000000000000 := by
  obtain ⟨h0, hmax⟩ := moneyRange_iff.mp hfee
  have hbase : MIN_TX_FEE = 10000 := rfl
  have hbound := h.bounded
  unfold feeRate at hbound
  omega

theorem FeeOk.start (hfee : call.FeeRange) : call.FeeOk call.nTransactionFee := by
  obtain ⟨h0, -⟩ := moneyRange_iff.mp hfee
  refine ⟨by omega, ?_⟩
  unfold feeRate
  omega

theorem FeeOk.multiple {k : Nat} (hk : k < 100) : call.FeeOk (call.feeRate * (1 + (k : Nat))) := by
  have hrate := @feeRate_pos call
  exact ⟨mul_nonneg hrate.le (by omega), mul_le_mul_of_nonneg_left (by omega) hrate.le⟩

/-- What is moved to the fee is missing in the change; neither gets negative. -/
theorem moveToFee_spec {nChange nFeeRet : Int} (hchange : 0 ≤ nChange) (hfits : FitsInt64 nChange)
    (hok : call.FeeOk nFeeRet) (hfee : call.FeeRange) :
    (moveToFee nChange nFeeRet).1 + (moveToFee nChange nFeeRet).2 = nChange + nFeeRet ∧
      0 ≤ (moveToFee nChange nFeeRet).1 ∧ nFeeRet ≤ (moveToFee nChange nFeeRet).2 ∧
      call.FeeOk (moveToFee nChange nFeeRet).2 := by
  have hbase : MIN_TX_FEE = 10000 := rfl
  have hcent : CENT = 1000000 := rfl
  have hmoney := hok.money hfee
  have h0 := hok.nonneg
  obtain ⟨-, hupper⟩ := hfits
  unfold moveToFee
  split
  · rename_i hmove
    have hroom : int64 (MIN_TX_FEE - nFeeRet) = MIN_TX_FEE - nFeeRet := int64_of_range (by omega) (by omega)
    dsimp only
    rw [hroom, int64_of_range (by omega) (by omega), int64_of_range (by omega) (by omega)]
    have hrate : MIN_TX_FEE ≤ call.feeRate := by
      unfold feeRate
      omega
    exact ⟨by omega, by omega, by omega, by omega, by omega⟩
  · exact ⟨rfl, hchange, le_refl _, hok⟩

/-! ## The amounts -/

/-- The amounts that are asked for: positive, and no more than there is. -/
structure Asked (call : SendCall) : Prop where
  positive : ∀ p ∈ call.vecSend, 0 < p.2
  bounded : (call.vecSend.map Prod.snd).sum ≤ MAX_MONEY

theorem Asked.nonneg {call : SendCall} (h : call.Asked) : 0 ≤ (call.vecSend.map Prod.snd).sum := by
  apply List.sum_nonneg
  intro v hv
  obtain ⟨p, hp, rfl⟩ := List.mem_map.mp hv
  exact (h.positive p hp).le

theorem sumSend_eq : ∀ (vecSend : List (CScript × Int)) (nValue : Int), (∀ p ∈ vecSend, 0 < p.2) →
    0 ≤ nValue → nValue + (vecSend.map Prod.snd).sum ≤ MAX_MONEY →
    sumSend vecSend nValue = some (nValue + (vecSend.map Prod.snd).sum)
  | [], nValue, _, _, _ => by
    rw [List.map_nil, List.sum_nil, Int.add_zero]
    rfl
  | p :: vecSend, nValue, hpos, h0, hmax => by
    have hp := hpos p List.mem_cons_self
    have hrest : 0 ≤ (vecSend.map Prod.snd).sum := by
      apply List.sum_nonneg
      intro v hv
      obtain ⟨q, hq, rfl⟩ := List.mem_map.mp hv
      exact (hpos q (List.mem_cons_of_mem _ hq)).le
    rw [List.map_cons, List.sum_cons] at hmax
    rw [sumSend, if_neg (by omega), int64_of_money (by omega) (by omega),
      sumSend_eq vecSend _ (fun q hq => hpos q (List.mem_cons_of_mem _ hq)) (by omega) (by omega),
      List.map_cons, List.sum_cons, Int.add_assoc]

theorem sum_payees : (call.payees.map CTxOut.nValue).sum = (call.vecSend.map Prod.snd).sum := by
  unfold payees
  rw [List.map_map]
  rfl

/-- The outputs: those to the payees in their order, and the change if there is any. -/
theorem outputs_spec {n : Nat} {nChange : Int} {pool pool' : PoolWallet} {vout : List CTxOut}
    (hne : call.vecSend ≠ []) (hchange : 0 ≤ nChange) (h : call.outputs S n nChange pool = .ok (vout, pool')) :
    call.payees.Sublist vout ∧ (vout.map CTxOut.nValue).sum = (call.vecSend.map Prod.snd).sum + nChange ∧
      ∀ txout ∈ vout, txout ∈ call.payees ∨ 0 < txout.nValue := by
  unfold outputs at h
  split at h
  · rename_i hpos
    split at h
    · cases h
    rename_i script pool₁ hscript
    cases h
    have hlength : 0 < call.payees.length := by
      rw [payees, List.length_map]
      exact List.length_pos_iff.mpr hne
    have hplace := call.chances.getRandInt_lt n _ hlength
    have hperm := List.perm_insertIdx (⟨nChange, script⟩ : CTxOut) call.payees hplace.le
    refine ⟨?_, ?_, fun txout hmem => ?_⟩
    · have hback := @List.eraseIdx_insertIdx_self _ (call.chances.getRandInt n call.payees.length)
        call.payees ⟨nChange, script⟩
      conv_lhs => rw [← hback]
      exact List.eraseIdx_sublist _ _
    · rw [(hperm.map CTxOut.nValue).sum_eq, List.map_cons, List.sum_cons, sum_payees, add_comm]
    · rcases List.mem_cons.mp (hperm.mem_iff.mp hmem) with rfl | hmem
      · exact Or.inr hpos
      · exact Or.inl hmem
  · cases h
    refine ⟨List.Sublist.refl _, ?_, fun txout hmem => Or.inl hmem⟩
    rw [sum_payees]
    omega

/-- How it ends, once the transaction is signed. -/
theorem finish_cases (hfee : call.FeeRange) (tx : CTransaction) (st : SendState) :
    call.finish tx st = .returned none st ∨
      (tx.nSerSize.toNat < 100000 ∧ st.nFeeRet < call.feeRate * (1 + (tx.nSerSize.toNat / 1000 : Nat)) ∧
        call.finish tx st =
          .again { st with nFeeRet := call.feeRate * (1 + (tx.nSerSize.toNat / 1000 : Nat)) }) ∨
      (tx.nSerSize.toNat < 100000 ∧ call.feeRate * (1 + (tx.nSerSize.toNat / 1000 : Nat)) ≤ st.nFeeRet ∧
        call.finish tx st = .returned (some tx) st) := by
  have hmaxSize : MAX_BLOCK_SIZE_GEN / 5 = 100000 := by decide
  unfold finish
  dsimp only
  rw [hmaxSize]
  by_cases hsize : tx.nSerSize.toNat ≥ 100000
  · exact Or.inl (if_pos hsize)
  have hsize' : tx.nSerSize.toNat < 100000 := by omega
  rw [if_neg hsize, fee_eq hfee tx hsize']
  by_cases hlow : st.nFeeRet < call.feeRate * (1 + (tx.nSerSize.toNat / 1000 : Nat))
  · exact Or.inr (Or.inl ⟨hsize', hlow, if_pos hlow⟩)
  · exact Or.inr (Or.inr ⟨hsize', not_lt.mp hlow, if_neg hlow⟩)

end SendCall

/-! ## What is sent -/

/-- What the wallet's records say of an outpoint. -/
def CachedWallet.prevoutValue (w : CachedWallet) (prevout : COutPoint) : Int :=
  (((w.mapWallet.lookup prevout.hash).bind fun wtx => wtx.tx.vout[prevout.n.toNat]?).map CTxOut.nValue).getD 0

/-- The sum of the inputs. -/
def CachedWallet.valueIn (w : CachedWallet) (tx : CTransaction) : Int := (tx.prevouts.map w.prevoutValue).sum

/-- An output of one of the wallet's records. -/
def CachedWallet.Has (w : CachedWallet) (prevout : COutPoint) : Prop :=
  ∃ wtx, w.mapWallet.lookup prevout.hash = some wtx ∧ prevout.n.toNat < wtx.tx.vout.length

/-- A transaction of this wallet, for this call and at this fee. -/
structure Sent (w : CachedWallet) (call : SendCall) (tx : CTransaction) (nFeeRet : Int) : Prop where
  payees : call.payees.Sublist tx.vout
  own : ∀ prevout ∈ tx.prevouts, w.Has prevout
  distinct : tx.prevouts.Nodup
  conserved : int64 (w.valueIn tx) = tx.valueOut + nFeeRet
  payFee : call.nTransactionFee * (1 + (tx.nSerSize.toNat / 1000 : Nat)) ≤ nFeeRet
  minFee : tx.getMinFee 1 .GMF_SEND tx.nSerSize.toNat ≤ nFeeRet
  positive : ∀ txout ∈ tx.vout, 0 < txout.nValue

section Coins

variable {P : Primitives} {w : CachedWallet} {coins : List WalletCoin}

/-- A coin of the wallet. -/
def CachedWallet.HasCoin (P : Primitives) (w : CachedWallet) (coin : WalletCoin) : Prop :=
  w.mapWallet.lookup (P.getHash coin.1.tx) = some coin.1 ∧ coin.2 < coin.1.tx.vout.length

theorem CachedWallet.HasCoin.toNat (hkeyed : w.Keyed P) {coin : WalletCoin} (h : w.HasCoin P coin) :
    (coinPrevout P coin).n.toNat = coin.2 := by
  have hlength := hkeyed.outputs _ _ h.1
  have hi := h.2
  show (UInt32.ofNat coin.2).toNat = coin.2
  rw [UInt32.toNat_ofNat']
  exact Nat.mod_eq_of_lt (by omega)

theorem prevoutValue_coin (hkeyed : w.Keyed P) {coin : WalletCoin} (h : w.HasCoin P coin) :
    w.prevoutValue (coinPrevout P coin) = coinValue coin := by
  unfold CachedWallet.prevoutValue coinValue
  rw [h.toNat hkeyed]
  show (((w.mapWallet.lookup (P.getHash coin.1.tx)).bind fun wtx => wtx.tx.vout[coin.2]?).map _).getD 0 = _
  rw [h.1]
  rfl

/-- Different coins are different outpoints. -/
theorem coinPrevout_nodup (hkeyed : w.Keyed P) (hcoins : ∀ coin ∈ coins, w.HasCoin P coin)
    (hnodup : coins.Nodup) : (coins.map (coinPrevout P)).Nodup := by
  refine List.Nodup.map_on ?_ hnodup
  intro coin hcoin coin' hcoin' heq
  have h := hcoins coin hcoin
  have h' := hcoins coin' hcoin'
  have hhash : P.getHash coin.1.tx = P.getHash coin'.1.tx := congrArg COutPoint.hash heq
  have hrecord : coin.1 = coin'.1 := by
    have hlookup := h.1
    rw [hhash, h'.1] at hlookup
    exact (Option.some.inj hlookup).symm
  have hindex : coin.2 = coin'.2 := by
    rw [← h.toNat hkeyed, ← h'.toNat hkeyed, heq]
  exact Prod.ext hrecord hindex

end Coins

/-! ## One pass -/

/-- What a selection is made into. -/
def PassEnd.Right (P : Primitives) (w : CachedWallet) (call : SendCall) (sel : Selection) (st : SendState) :
    PassEnd → Prop
  | .again st' => st'.wallet = st.wallet ∧ st.nFeeRet < st'.nFeeRet ∧
      ∃ k < 100, st'.nFeeRet = call.feeRate * (1 + (k : Nat))
  | .returned none _ => True
  | .returned (some tx) st' => Sent w call tx st'.nFeeRet ∧ tx.nTime = call.wtxNew.nTime ∧
      tx.prevouts.Perm (sel.setCoinsRet.map (coinPrevout P))

namespace SendCall

variable {P : Primitives} {E : SignPrimitives} {S : PoolSource} {s : NodeState} {nSteps : Nat}
  {call : SendCall} {w : CachedWallet}

theorem spend_right (hkeyed : w.Keyed P) (hasked : call.Asked) (hfee : call.FeeRange) (hne : call.vecSend ≠ [])
    {n : Nat} {sel : Selection} {vCoins : List COutput} {st : SendState} (hok : call.FeeOk st.nFeeRet)
    (hpays : sel.Pays vCoins ((call.vecSend.map Prod.snd).sum + st.nFeeRet))
    (hcoins : ∀ coin ∈ sel.setCoinsRet, w.HasCoin P coin) {answer : PassEnd}
    (hrun : call.spend P E S (call.vecSend.map Prod.snd).sum n sel st = .ok answer) :
    answer.Right P w call sel st := by
  have hmoney : MAX_MONEY = 200000000000000000 := by decide
  have hfeeMoney := hok.money hfee
  have hfee0 := hok.nonneg
  have hvalue0 := hasked.nonneg
  have hvalue := hasked.bounded
  generalize hsum : (call.vecSend.map Prod.snd).sum = nValue at hpays hrun hvalue0 hvalue
  -- the change, before anything is moved to the fee
  have hin : FitsInt64 sel.nValueRet := by
    rw [hpays.total]
    exact ⟨int64_lower _, int64_upper _⟩
  have hreaches := hpays.reaches
  have hchange : int64 (int64 (sel.nValueRet - nValue) - st.nFeeRet) = sel.nValueRet - nValue - st.nFeeRet := by
    rw [int64_sub_left]
    exact int64_of_range (by omega) (by have := hin.2; omega)
  have hmoved := @moveToFee_spec call (sel.nValueRet - nValue - st.nFeeRet) st.nFeeRet (by omega)
    ⟨by omega, by have := hin.2; omega⟩ hok hfee
  unfold spend at hrun
  dsimp only at hrun
  rw [hchange] at hrun
  generalize moveToFee (sel.nValueRet - nValue - st.nFeeRet) st.nFeeRet = moved at hmoved hrun
  obtain ⟨hkept, hleft, hraised, hmovedOk⟩ := hmoved
  split at hrun
  · cases hrun
  rename_i vout pool houtputs
  obtain ⟨hpayees, htotal, hpositive⟩ := outputs_spec hne hleft houtputs
  rw [hsum] at htotal
  split at hrun
  · cases hrun
    trivial
  rename_i tx hsign
  have hsigned := signInputs_ok hsign
  obtain rfl := Except.ok.inj hrun
  rcases finish_cases hfee tx { st with pool := pool, nFeeRet := moved.2 } with
    heq | ⟨hsize, hlow, heq⟩ | ⟨hsize, henough, heq⟩
  · rw [heq]
    trivial
  · rw [heq]
    have hlow : moved.2 < call.feeRate * (1 + (tx.nSerSize.toNat / 1000 : Nat)) := hlow
    refine ⟨rfl, ?_, tx.nSerSize.toNat / 1000, by omega, rfl⟩
    show st.nFeeRet < call.feeRate * (1 + (tx.nSerSize.toNat / 1000 : Nat))
    omega
  · rw [heq]
    have hprevouts : tx.prevouts = (call.chances.setOrder n sel.setCoinsRet).map (coinPrevout P) := by
      rw [hsigned.prevouts]
      show ((call.chances.setOrder n sel.setCoinsRet).map _).map CTxIn.prevout = _
      rw [List.map_map]
      rfl
    have hperm : tx.prevouts.Perm (sel.setCoinsRet.map (coinPrevout P)) := by
      rw [hprevouts]
      exact (call.chances.setOrder_perm n sel.setCoinsRet).map _
    have hvout : tx.vout = vout := hsigned.vout
    rw [← fee_eq hfee tx hsize] at henough
    refine ⟨⟨?_, ?_, ?_, ?_, ?_, le_trans (le_max_right _ _) henough, ?_⟩, hsigned.nTime, hperm⟩
    · rw [hvout]
      exact hpayees
    · intro prevout hmem
      obtain ⟨coin, hcoin, rfl⟩ := List.mem_map.mp (hperm.mem_iff.mp hmem)
      have hhas := hcoins coin hcoin
      refine ⟨coin.1, hhas.1, ?_⟩
      rw [hhas.toNat hkeyed]
      exact hhas.2
    · exact hperm.nodup_iff.mpr (coinPrevout_nodup hkeyed hcoins hpays.distinct)
    · -- what goes in: the values of the coins
      have hvalueIn : w.valueIn tx = (sel.setCoinsRet.map coinValue).sum := by
        unfold CachedWallet.valueIn
        rw [(hperm.map w.prevoutValue).sum_eq, List.map_map]
        congr 1
        exact List.map_congr_left fun coin hcoin => prevoutValue_coin hkeyed (hcoins coin hcoin)
      show int64 (w.valueIn tx) = (tx.vout.map CTxOut.nValue).sum + moved.2
      rw [hvalueIn, ← hpays.total, hvout, htotal]
      omega
    · rw [← payFee_eq hfee hsize]
      exact le_trans (le_max_left _ _) henough
    · intro txout hmem
      rw [hvout] at hmem
      rcases hpositive txout hmem with hpayee | hpos
      · obtain ⟨p, hp, rfl⟩ := List.mem_map.mp hpayee
        exact hasked.positive p hp
      · exact hpos

/-- The wallet of the call, whatever its records remember by now; the coins there are, are still the same. -/
def Same (P : Primitives) (s : NodeState) (nSteps : Nat) (w : CachedWallet) (call : SendCall) (w' : CachedWallet) :
    Prop :=
  (∃ cache, w' = { w with cache := cache }) ∧
    w'.availableCoinsControl P s nSteps true call.coinControl =
      w.availableCoinsControl P s nSteps true call.coinControl

theorem Same.refl : Same P s nSteps w call w := ⟨⟨w.cache, rfl⟩, rfl⟩

theorem Same.keyed {w' : CachedWallet} (h : Same P s nSteps w call w') (hkeyed : w.Keyed P) : w'.Keyed P := by
  obtain ⟨⟨cache, rfl⟩, -⟩ := h
  exact ⟨hkeyed.keyed, hkeyed.values, hkeyed.outputs⟩

/-- What one pass does: of a transaction that is returned also which coins it spends. -/
def PassOk (P : Primitives) (s : NodeState) (nSteps : Nat) (w : CachedWallet) (call : SendCall) (st : SendState) :
    PassEnd → Prop
  | .again st' => Same P s nSteps w call st'.wallet ∧ st.nFeeRet < st'.nFeeRet ∧
      ∃ k < 100, st'.nFeeRet = call.feeRate * (1 + (k : Nat))
  | .returned none _ => True
  | .returned (some tx) st' => Sent w call tx st'.nFeeRet ∧ tx.nTime = call.wtxNew.nTime ∧
      ∃ vCoins w₁, w.availableCoinsControl P s nSteps true call.coinControl = .ok (vCoins, w₁) ∧
        (∀ prevout ∈ tx.prevouts, ∃ out ∈ vCoins, prevout = coinPrevout P out.coin) ∧
        (selects call.coinControl = false → ∀ prevout ∈ tx.prevouts, ∃ out ∈ vCoins,
          prevout = coinPrevout P out.coin ∧ out.tx.tx.nTime ≤ tx.nTime) ∧
        (selects call.coinControl = true → ∀ out ∈ vCoins, coinPrevout P out.coin ∈ tx.prevouts)

/-- A PASS. -/
theorem pass_ok (hkeyed : w.Keyed P) (hasked : call.Asked) (hfee : call.FeeRange) (hne : call.vecSend ≠ [])
    {n : Nat} {st : SendState} (hsame : Same P s nSteps w call st.wallet) (hok : call.FeeOk st.nFeeRet)
    {answer : PassEnd} (hrun : call.pass P E S s nSteps (call.vecSend.map Prod.snd).sum n st = .ok answer) :
    PassOk P s nSteps w call st answer := by
  have hmoney : MAX_MONEY = 200000000000000000 := by decide
  have hcentValue : CENT = 1000000 := rfl
  have hfeeMoney := hok.money hfee
  have hfee0 := hok.nonneg
  have hvalue := hasked.bounded
  have hvalue0 := hasked.nonneg
  have htarget : int64 ((call.vecSend.map Prod.snd).sum + st.nFeeRet) =
      (call.vecSend.map Prod.snd).sum + st.nFeeRet := int64_of_range (by omega) (by omega)
  have hcent : int64 ((call.vecSend.map Prod.snd).sum + st.nFeeRet + CENT) =
      (call.vecSend.map Prod.snd).sum + st.nFeeRet + CENT := int64_of_range (by omega) (by omega)
  unfold pass at hrun
  rw [htarget] at hrun
  split at hrun
  · cases hrun
  · cases hrun
    trivial
  rename_i sel w₁ hselect
  obtain ⟨vCoins, havail, hpays, htimely, hall⟩ := CachedWallet.selectCoins_pays (hsame.keyed hkeyed) hcent hselect
  obtain ⟨⟨cache₁, hcache₁⟩, hagain⟩ := CachedWallet.availableCoinsControl_again havail
  obtain ⟨⟨cache, hcache⟩, hcoinsSame⟩ := hsame
  have hw₁ : Same P s nSteps w call w₁ := by
    refine ⟨⟨cache₁, ?_⟩, ?_⟩
    · rw [hcache₁, hcache]
    · rw [hagain, ← havail, hcoinsSame]
  have hfirst : w.availableCoinsControl P s nSteps true call.coinControl = .ok (vCoins, w₁) := by
    rw [← hcoinsSame, havail]
  have hcoins : ∀ coin ∈ sel.setCoinsRet, w.HasCoin P coin := by
    intro coin hcoin
    obtain ⟨out, hout, rfl⟩ := hpays.available coin hcoin
    obtain ⟨-, hash, hspendable, -⟩ := (CachedWallet.mem_availableCoinsControl hfirst out).mp hout
    obtain ⟨txout, hat, -⟩ := hspendable.output
    refine ⟨?_, (List.getElem?_eq_some_iff.mp hat).1⟩
    show w.mapWallet.lookup (P.getHash out.tx.tx) = some out.tx
    rw [hkeyed.keyed hash out.tx hspendable.record]
    exact hspendable.record
  have hright : answer.Right P w call sel { st with wallet := w₁ } := by
    apply spend_right hkeyed hasked hfee hne _ _ hcoins hrun
    · exact vCoins
    · exact hok
    · exact hpays
  rcases answer with st' | ⟨_ | tx, st'⟩
  · obtain ⟨hwallet, hrest⟩ := hright
    refine ⟨?_, hrest⟩
    rw [hwallet]
    exact hw₁
  · trivial
  · obtain ⟨hsent, htime, hperm⟩ := hright
    refine ⟨hsent, htime, vCoins, w₁, hfirst, ?_, ?_, ?_⟩
    · intro prevout hprevout
      obtain ⟨coin, hcoin, rfl⟩ := List.mem_map.mp (hperm.mem_iff.mp hprevout)
      obtain ⟨out, hout, rfl⟩ := hpays.available coin hcoin
      exact ⟨out, hout, rfl⟩
    · intro hselects prevout hprevout
      obtain ⟨coin, hcoin, rfl⟩ := List.mem_map.mp (hperm.mem_iff.mp hprevout)
      obtain ⟨out, hout, rfl⟩ := hpays.available coin hcoin
      refine ⟨out, hout, rfl, ?_⟩
      rw [htime]
      exact htimely hselects out.coin hcoin
    · intro hselects out hout
      exact hperm.mem_iff.mpr (List.mem_map_of_mem (hall hselects out hout))

/-! ## The loop -/

/-- AFTER AT MOST A HUNDRED PASSES MORE the fee is enough: it is a multiple of the rate, a higher one each
    time, and below 100 kB no more than a hundred times the rate is asked for. -/
theorem feeLoop_ends (hkeyed : w.Keyed P) (hasked : call.Asked) (hfee : call.FeeRange) (hne : call.vecSend ≠ []) :
    ∀ (fuel n j : Nat) (st : SendState), Same P s nSteps w call st.wallet → call.FeeOk st.nFeeRet →
      call.feeRate * (j : Nat) ≤ st.nFeeRet → 101 ≤ fuel + j →
      call.feeLoop P E S s nSteps (call.vecSend.map Prod.snd).sum fuel n st ≠ none := by
  intro fuel
  induction fuel with
  | zero =>
    intro n j st _ hok hj hfuel
    -- the fee would be too high
    have hbound := le_trans hj hok.bounded
    have hj := le_of_mul_le_mul_left hbound feeRate_pos
    omega
  | succ fuel ih =>
    intro n j st hsame hok hj hfuel
    rw [feeLoop]
    rcases hpass : call.pass P E S s nSteps (call.vecSend.map Prod.snd).sum n st with e | ⟨st'⟩ | ⟨wtxNew, st'⟩
    · exact fun h => nomatch h
    · obtain ⟨hsame', hraised, k, hk, hfee'⟩ := pass_ok hkeyed hasked hfee hne hsame hok hpass
      have hj' : (j : Int) < 1 + (k : Nat) := by
        apply lt_of_mul_lt_mul_left _ (@feeRate_pos call).le
        omega
      refine ih (n + 1) (j + 1) st' hsame' ?_ ?_ (by omega)
      · rw [hfee']
        exact FeeOk.multiple hk
      · rw [hfee']
        exact mul_le_mul_of_nonneg_left (by omega) (@feeRate_pos call).le
    · exact fun h => nomatch h

/-- WHAT IS RETURNED is the work of a single pass over the same coins. -/
theorem feeLoop_ok (hkeyed : w.Keyed P) (hasked : call.Asked) (hfee : call.FeeRange) (hne : call.vecSend ≠ []) :
    ∀ (fuel n : Nat) (st : SendState), Same P s nSteps w call st.wallet → call.FeeOk st.nFeeRet →
      ∀ wtxNew stEnd, call.feeLoop P E S s nSteps (call.vecSend.map Prod.snd).sum fuel n st =
        some (.ok (wtxNew, stEnd)) → ∃ stLast, PassOk P s nSteps w call stLast (.returned wtxNew stEnd) := by
  intro fuel
  induction fuel with
  | zero =>
    intro n st _ _ wtxNew stEnd hrun
    cases hrun
  | succ fuel ih =>
    intro n st hsame hok wtxNew stEnd hrun
    rw [feeLoop] at hrun
    rcases hpass : call.pass P E S s nSteps (call.vecSend.map Prod.snd).sum n st with e | ⟨st'⟩ | ⟨found, st'⟩
    · rw [hpass] at hrun
      cases hrun
    · rw [hpass] at hrun
      obtain ⟨hsame', -, k, hk, hfee'⟩ := pass_ok hkeyed hasked hfee hne hsame hok hpass
      refine ih (n + 1) st' hsame' ?_ wtxNew stEnd hrun
      rw [hfee']
      exact FeeOk.multiple hk
    · rw [hpass] at hrun
      cases hrun
      exact ⟨st, pass_ok hkeyed hasked hfee hne hsame hok hpass⟩

/-- With amounts that are asked for, there is only the loop. -/
theorem createTransaction_eq (hasked : call.Asked) (fuel : Nat) (st : SendState) :
    call.createTransaction P E S s nSteps fuel st =
      if call.vecSend = [] then some (.ok (none, st))
      else call.feeLoop P E S s nSteps (call.vecSend.map Prod.snd).sum fuel 0
        { st with nFeeRet := call.nTransactionFee } := by
  have hbounded := hasked.bounded
  have hvalue0 := hasked.nonneg
  have hsum := sumSend_eq call.vecSend 0 hasked.positive (le_refl 0) (by omega)
  rw [Int.zero_add] at hsum
  unfold createTransaction
  rw [hsum]
  dsimp only
  by_cases hempty : call.vecSend = []
  · rw [if_pos hempty, if_pos (Or.inl hempty)]
  · rw [if_neg hempty, if_neg (not_or.mpr ⟨hempty, by omega⟩)]

/-- What a call returns is the work of one pass. -/
theorem createTransaction_ok (hasked : call.Asked) (hfee : call.FeeRange) {fuel : Nat} {st stEnd : SendState}
    (hkeyed : st.wallet.Keyed P) {tx : CTransaction}
    (hrun : call.createTransaction P E S s nSteps fuel st = some (.ok (some tx, stEnd))) :
    ∃ stLast, PassOk P s nSteps st.wallet call stLast (.returned (some tx) stEnd) := by
  rw [createTransaction_eq hasked] at hrun
  split at hrun
  · cases hrun
  · rename_i hne
    exact feeLoop_ok hkeyed hasked hfee hne fuel 0 { st with nFeeRet := call.nTransactionFee } Same.refl
      (FeeOk.start hfee) (some tx) stEnd hrun

end SendCall

/-! ## A wallet with a record in every block -/

namespace Paying

def nTimeOf (k : Nat) : Nat := 1000 + k

def hashOf (k : Nat) : Uint256 := BitVec.ofNat 256 (nTimeOf k)

theorem one_le : 1 ≤ 1000 := by decide

theorem ninetyThree_le : 93 ≤ 1000 := by decide

theorem hashOf_inj {i j : Nat} (hi : i < 1000) (hj : j < 1000) (h : hashOf i = hashOf j) : i = j := by
  have h := congrArg BitVec.toNat h
  simp only [hashOf, nTimeOf, BitVec.toNat_ofNat] at h
  omega

def entriesOf {β : Type} (n : Nat) (f : Nat → β) : List ((_ : Uint256) × β) :=
  (List.range n).map fun k => ⟨hashOf k, f k⟩

theorem entriesOf_nodupKeys {β : Type} {n : Nat} (h : n ≤ 1000) (f : Nat → β) : (entriesOf n f).NodupKeys := by
  show ((entriesOf n f).map Sigma.fst).Nodup
  unfold entriesOf
  rw [List.map_map]
  refine List.Nodup.map_on ?_ List.nodup_range
  intro i hi j hj heq
  rw [List.mem_range] at hi hj
  exact hashOf_inj (by omega) (by omega) heq

/-- A map with the keys `hashOf 0` to `hashOf (n - 1)`. -/
def mapOf {β : Type} (n : Nat) (h : n ≤ 1000) (f : Nat → β) : StdMap Uint256 β :=
  ⟨entriesOf n f, entriesOf_nodupKeys h f⟩

theorem lookup_mapOf {β : Type} {n : Nat} (h : n ≤ 1000) {f : Nat → β} {hash : Uint256} {b : β}
    (hlookup : (mapOf n h f).lookup hash = some b) : ∃ k < n, hash = hashOf k ∧ b = f k := by
  obtain ⟨k, hk, heq⟩ := List.mem_map.mp (AList.mem_lookup_iff.mp hlookup)
  cases heq
  exact ⟨k, List.mem_range.mp hk, rfl, rfl⟩

/-- Transactions are told apart by their times. -/
def primitives : Primitives where
  getHash tx := BitVec.ofNat 256 tx.nTime.toNat
  blockHash _ := 0
  hashPair _ _ := 0
  verifySignature _ _ _ := true
  checkBlockSignature _ := true
  isStandard _ := true

/-- An amount for the wallet's key, in block `k`. -/
def received (nValue : Int) (k : Nat) : CWalletTx :=
  { CWalletTx.ofTx ⟨1, UInt32.ofNat (nTimeOf k), [⟨⟨7, 0⟩, [], 0xffffffff⟩], [⟨nValue, Nested.redeem⟩], 0⟩ with
    hashBlock := hashOf k
    nIndex := 0 }

def index (k : Nat) : CBlockIndex := { Sample.genesis with
  hashBlock := hashOf k
  nHeight := k
  hashMerkleRoot := hashOf k }

/-- The chain to block `k`. -/
def upTo (k : Nat) : BlockPtr := (List.range (k + 1)).reverse.map index

def node (n : Nat) (h : n ≤ 1000) : NodeState := { Forging.node with
  tree := { Forging.node.tree with mapBlockIndex := mapOf n h upTo }
  mem := fun hash => ⟨if hash.toNat < nTimeOf (n - 1) then some (hash + 1) else none, 0, 0⟩
  pindexBest := upTo (n - 1) }

def wallet (n : Nat) (h : n ≤ 1000) (nValue : Int) : CachedWallet where
  isMine := Nested.wallet.isMine Nested.primitives.toKeyPrimitives
  nMinimumInputValue := 0
  mapWallet := mapOf n h (received nValue)
  nOrderPosNext := 0
  acentries := []
  keystore := Nested.wallet
  mapAddressBook := []
  fConfChange := false
  vtxPrev := fun _ => []
  cache := fun _ => CreditCache.dirty

theorem wallet_keyed {n : Nat} {h : n ≤ 1000} {nValue : Int} (hvalue : FitsInt64 nValue) :
    (wallet n h nValue).Keyed primitives where
  keyed hash wtx hlookup := by
    obtain ⟨k, hk, rfl, rfl⟩ := lookup_mapOf h hlookup
    show BitVec.ofNat 256 (UInt32.ofNat (nTimeOf k)).toNat = BitVec.ofNat 256 (nTimeOf k)
    have hsmall : nTimeOf k < 2 ^ 32 := by
      unfold nTimeOf
      omega
    rw [UInt32.toNat_ofNat', Nat.mod_eq_of_lt hsmall]
  values hash wtx hlookup txout hmem := by
    obtain ⟨k, hk, rfl, rfl⟩ := lookup_mapOf h hlookup
    rw [List.mem_singleton.mp hmem]
    exact hvalue
  outputs hash wtx hlookup := by
    obtain ⟨k, hk, rfl, rfl⟩ := lookup_mapOf h hlookup
    show 1 ≤ 2 ^ 32
    omega

/-- Nothing is shuffled, and the change comes first. -/
def chances : SendChances where
  select _ _ := Forging.chances
  setOrder _ coins := coins
  setOrder_perm _ coins := List.Perm.refl coins
  getRandInt _ _ := 0
  getRandInt_lt _ _ h := h

/-- One coin to be paid; the change goes to an address. -/
def call (nTime : UInt32) (setSelected : List COutPoint) : SendCall where
  vecSend := [([OP_1], COIN)]
  wtxNew := ⟨1, nTime, [], [], 0⟩
  reservekey := 0
  coinControl := some ⟨some (.keyID 7), setSelected⟩
  nTransactionFee := MIN_TX_FEE
  chances := chances

theorem call_asked (nTime : UInt32) (setSelected : List COutPoint) : (call nTime setSelected).Asked :=
  ⟨by show ∀ p ∈ [(([OP_1] : CScript), COIN)], 0 < p.2; decide,
    by show ([(([OP_1] : CScript), COIN)].map Prod.snd).sum ≤ MAX_MONEY; decide⟩

theorem call_feeRange (nTime : UInt32) (setSelected : List COutPoint) : (call nTime setSelected).FeeRange := by
  show moneyRange (100 * MIN_TX_FEE) = true
  decide

def start (n : Nat) (h : n ≤ 1000) (nValue : Int) : SendState :=
  ⟨wallet n h nValue, ⟨∅, ∅, [], false, [], fun _ => ⟨-1, []⟩⟩, 0⟩

/-- The call, to its end. -/
def run (n : Nat) (h : n ≤ 1000) (nValue : Int) (call : SendCall) :
    Option (Except SendFailure (Option CTransaction × SendState)) :=
  call.createTransaction primitives Nested.primitives ⟨0, fun _ => 0, fun _ => [], fun _ => 0⟩ (node n h) 1 101
    (start n h nValue)

/-- A transaction is returned, and so made. -/
def returns (p : CTransaction → Int → Bool) :
    Option (Except SendFailure (Option CTransaction × SendState)) → Bool
  | some (.ok (some tx, st)) => p tx st.nFeeRet
  | _ => false

theorem returns_iff {p : CTransaction → Int → Bool}
    {answer : Option (Except SendFailure (Option CTransaction × SendState))} :
    returns p answer = true ↔ ∃ tx st, answer = some (.ok (some tx, st)) ∧ p tx st.nFeeRet = true := by
  constructor
  · intro h
    rcases answer with _ | e | ⟨_ | tx, st⟩
    · cases h
    · cases h
    · cases h
    · exact ⟨tx, st, rfl, h⟩
  · rintro ⟨tx, st, rfl, h⟩
    exact h

end Paying

/-- THE LOOP ENDS, and a transaction that is returned has every payee among its outputs, spends outputs of the
    wallet, each once, and has a fee that is high enough for it.  In an `int64_t` it pays out what it takes
    in; exactly, if and only if what it takes in fits into one. -/
theorem createTransaction_spec (P : Primitives) (E : SignPrimitives) (S : PoolSource) (s : NodeState)
    (nSteps : Nat) (call : SendCall) (st : SendState) (hkeyed : st.wallet.Keyed P) (hasked : call.Asked)
    (hfee : call.FeeRange) :
    (∀ fuel ≥ 101, call.createTransaction P E S s nSteps fuel st ≠ none) ∧
    ∀ fuel tx stEnd, call.createTransaction P E S s nSteps fuel st = some (.ok (some tx, stEnd)) →
      Sent st.wallet call tx stEnd.nFeeRet ∧
      (st.wallet.valueIn tx = tx.valueOut + stEnd.nFeeRet ↔ FitsInt64 (st.wallet.valueIn tx)) := by
  constructor
  · intro fuel hfuel
    rw [SendCall.createTransaction_eq hasked]
    split
    · exact fun h => nomatch h
    · rename_i hne
      apply SendCall.feeLoop_ends hkeyed hasked hfee hne fuel 0 0
        { st with nFeeRet := call.nTransactionFee } SendCall.Same.refl (SendCall.FeeOk.start hfee)
      · rw [Nat.cast_zero, mul_zero]
        exact (SendCall.FeeOk.start hfee).nonneg
      · omega
  · intro fuel tx stEnd hrun
    obtain ⟨stLast, hsent, -⟩ := SendCall.createTransaction_ok hasked hfee hkeyed hrun
    refine ⟨hsent, fun heq => ?_, fun hfits => ?_⟩
    · rw [heq, ← hsent.conserved]
      exact ⟨int64_lower _, int64_upper _⟩
    · rw [← hsent.conserved, hfits.int64_eq]

namespace Paying

/-- Three coins are there, and the wallet chooses. -/
theorem createTransaction_spec_one : ∃ tx stEnd,
    run 1 one_le (3 * COIN) (call 2000 []) = some (.ok (some tx, stEnd)) ∧
    Sent (wallet 1 one_le (3 * COIN)) (call 2000 []) tx stEnd.nFeeRet ∧
    tx.vout.map CTxOut.nValue = [2 * COIN - MIN_TX_FEE, COIN] := by
  have hrun : returns (fun tx _ => decide (tx.vout.map CTxOut.nValue = [2 * COIN - MIN_TX_FEE, COIN]))
      (run 1 one_le (3 * COIN) (call 2000 [])) = true := by decide +kernel
  obtain ⟨tx, stEnd, heq, hvout⟩ := returns_iff.mp hrun
  have hspec := (createTransaction_spec primitives Nested.primitives ⟨0, fun _ => 0, fun _ => [], fun _ => 0⟩
    (node 1 one_le) 1 (call 2000 []) (start 1 one_le (3 * COIN)) (wallet_keyed (by decide))
    (call_asked 2000 []) (call_feeRange 2000 [])).2 101 tx stEnd heq
  exact ⟨tx, stEnd, heq, hspec.1, of_decide_eq_true hvout⟩

/-- Ninety-three amounts, each as much as there may be, all of them selected: their sum wraps, and what is
    paid out is less by `2 ^ 64`. -/
theorem createTransaction_not_conserved : (wallet 93 ninetyThree_le MAX_MONEY).Keyed primitives ∧
    (call 2000 ((List.range 93).map fun k => ⟨hashOf k, 0⟩)).Asked ∧
    (call 2000 ((List.range 93).map fun k => ⟨hashOf k, 0⟩)).FeeRange ∧
    ∃ tx stEnd, run 93 ninetyThree_le MAX_MONEY (call 2000 ((List.range 93).map fun k => ⟨hashOf k, 0⟩)) =
        some (.ok (some tx, stEnd)) ∧
      (wallet 93 ninetyThree_le MAX_MONEY).valueIn tx = tx.valueOut + stEnd.nFeeRet + 2 ^ 64 := by
  refine ⟨wallet_keyed (by decide), call_asked _ _, call_feeRange _ _, ?_⟩
  have hrun : returns (fun tx nFeeRet =>
      decide ((wallet 93 ninetyThree_le MAX_MONEY).valueIn tx = tx.valueOut + nFeeRet + 2 ^ 64))
      (run 93 ninetyThree_le MAX_MONEY (call 2000 ((List.range 93).map fun k => ⟨hashOf k, 0⟩))) = true := by
    decide +kernel
  obtain ⟨tx, stEnd, heq, hvalue⟩ := returns_iff.mp hrun
  exact ⟨tx, stEnd, heq, of_decide_eq_true hvalue⟩

end Paying

/-! ## The rule about time -/

/-- Not from after the transaction, any of what it spends. -/
def SpendsEarlier (w : CachedWallet) (tx : CTransaction) : Prop :=
  ∀ prevout ∈ tx.prevouts, ∀ wtx, w.mapWallet.lookup prevout.hash = some wtx → wtx.tx.nTime ≤ tx.nTime

/-- Nothing the user has selected, and that can be spent, is from after `nTime`. -/
def SelectsEarlier (P : Primitives) (s : NodeState) (nSteps : Nat) (w : CachedWallet)
    (coinControl : Option CCoinControl) (nTime : UInt32) : Prop :=
  selects coinControl = true → ∀ hash wtx i, w.Spendable P s nSteps hash wtx i →
    allowsCoin hash i coinControl = true → wtx.tx.nTime ≤ nTime

/-- THE RULE ABOUT TIME is kept if the wallet chooses.  If the user does, it is kept exactly if none of the
    outputs that are selected and can be spent is from after the transaction. -/
theorem createTransaction_time (P : Primitives) (E : SignPrimitives) (S : PoolSource) (s : NodeState)
    (nSteps : Nat) (call : SendCall) (st : SendState) (hkeyed : st.wallet.Keyed P) (hasked : call.Asked)
    (hfee : call.FeeRange) {fuel : Nat} {tx : CTransaction} {stEnd : SendState}
    (hrun : call.createTransaction P E S s nSteps fuel st = some (.ok (some tx, stEnd))) :
    SpendsEarlier st.wallet tx ↔
      SelectsEarlier P s nSteps st.wallet call.coinControl call.wtxNew.nTime := by
  obtain ⟨stLast, -, htime, vCoins, w₁, havail, hfrom, htimely, hall⟩ :=
    SendCall.createTransaction_ok hasked hfee hkeyed hrun
  have hmem := CachedWallet.mem_availableCoinsControl havail
  -- the record of a coin is that of the outpoint
  have hrecord : ∀ out ∈ vCoins, st.wallet.mapWallet.lookup (coinPrevout P out.coin).hash = some out.tx := by
    intro out hout
    obtain ⟨-, hash, hspendable, -⟩ := (hmem out).mp hout
    show st.wallet.mapWallet.lookup (P.getHash out.tx.tx) = some out.tx
    rw [hkeyed.keyed hash out.tx hspendable.record]
    exact hspendable.record
  constructor
  · intro hearlier hselects hash wtx i hspendable hallows
    have hout : (⟨wtx, i, s.walletDepth P wtx⟩ : COutput) ∈ vCoins :=
      (hmem _).mpr ⟨rfl, hash, hspendable, hallows⟩
    rw [← htime]
    exact hearlier _ (hall hselects _ hout) wtx (hrecord _ hout)
  · intro hcond prevout hprevout wtx hlookup
    rcases hselects : selects call.coinControl with _ | _
    · obtain ⟨out, hout, rfl, hle⟩ := htimely hselects prevout hprevout
      rw [hrecord out hout] at hlookup
      cases hlookup
      exact hle
    · obtain ⟨out, hout, rfl⟩ := hfrom prevout hprevout
      obtain ⟨-, hash, hspendable, hallows⟩ := (hmem out).mp hout
      rw [hrecord out hout] at hlookup
      cases hlookup
      rw [htime]
      exact hcond hselects hash out.tx out.i hspendable hallows

namespace Paying

/-- The selected coin is from before the transaction. -/
theorem createTransaction_time_one : ∃ tx stEnd,
    run 1 one_le (3 * COIN) (call 2000 [⟨hashOf 0, 0⟩]) = some (.ok (some tx, stEnd)) ∧
    SpendsEarlier (wallet 1 one_le (3 * COIN)) tx := by
  have hrun : returns (fun _ _ => true) (run 1 one_le (3 * COIN) (call 2000 [⟨hashOf 0, 0⟩])) = true := by
    decide +kernel
  obtain ⟨tx, stEnd, heq, -⟩ := returns_iff.mp hrun
  refine ⟨tx, stEnd, heq, ?_⟩
  refine (createTransaction_time primitives Nested.primitives ⟨0, fun _ => 0, fun _ => [], fun _ => 0⟩
    (node 1 one_le) 1 (call 2000 [⟨hashOf 0, 0⟩]) (start 1 one_le (3 * COIN)) (wallet_keyed (by decide))
    (call_asked 2000 _) (call_feeRange 2000 _) heq).mpr ?_
  intro _ hash wtx i hspendable _
  obtain ⟨k, hk, rfl, rfl⟩ := lookup_mapOf one_le hspendable.record
  obtain rfl : k = 0 := by omega
  decide

/-- It is from after the transaction, and spent all the same. -/
theorem createTransaction_late : (wallet 1 one_le (3 * COIN)).Keyed primitives ∧
    (call 500 [⟨hashOf 0, 0⟩]).Asked ∧ (call 500 [⟨hashOf 0, 0⟩]).FeeRange ∧
    ∃ tx stEnd, run 1 one_le (3 * COIN) (call 500 [⟨hashOf 0, 0⟩]) = some (.ok (some tx, stEnd)) ∧
      ¬ SpendsEarlier (wallet 1 one_le (3 * COIN)) tx := by
  refine ⟨wallet_keyed (by decide), call_asked _ _, call_feeRange _ _, ?_⟩
  have hrun : returns (fun tx _ => decide (tx.prevouts = [⟨hashOf 0, 0⟩] ∧ tx.nTime = 500))
      (run 1 one_le (3 * COIN) (call 500 [⟨hashOf 0, 0⟩])) = true := by decide +kernel
  obtain ⟨tx, stEnd, heq, hp⟩ := returns_iff.mp hrun
  obtain ⟨hprevouts, htime⟩ := of_decide_eq_true hp
  refine ⟨tx, stEnd, heq, fun hearlier => ?_⟩
  have hle := hearlier ⟨hashOf 0, 0⟩ (by rw [hprevouts]; exact List.mem_singleton.mpr rfl)
    (received (3 * COIN) 0) (by decide)
  rw [htime] at hle
  exact absurd hle (by decide)

end Paying

end Silkcoin
