/-
  Two views of an ACCOUNT: `listaccounts` and `getbalance` with an account.

  The one goes through the wallet once and gives every amount to the account it belongs to.  The other goes
  through it for one account and asks every transaction what it means to that account.  An amount is given to an
  account just when the account is told of it (`getAccountAmounts_eq`), so a transaction counts the same in both.

  But not the same transactions count.  `getbalance` leaves out what is not final, `listaccounts` does not.
  So the two agree just when the transactions that are not final come to nothing (`listaccounts_getbalance_iff`).
-/
import Silkcoin.TrustedChange
import Silkcoin.AccountingEntry
import Silkcoin.Lib.Tally

namespace Silkcoin

open Validation BatchStore

/-- The wallet with all that its accounts are made of.  The destination `none` is no destination. -/
structure AccountWallet extends CWallet where
  keystore : CKeyStore
  mapAddressBook : StdMap (Option CTxDestination) (List UInt8)
  strFromAccount : Uint256 → List UInt8
  nDebitCached : Uint256 → Option Int
  acentryRecords : AccountRecords

/-- What `GetAmounts` finds in a transaction. -/
structure Amounts where
  listReceived : List (Option CTxDestination × Int)
  listSent : List (Option CTxDestination × Int)
  nFee : Int
  strSentAccount : List UInt8

/-- `mapAccountBalances`. -/
abbrev AccountBalances := StdMap (List UInt8) Int

namespace AccountWallet

variable (C : KeyPrimitives) (P : Primitives) (s : NodeState) (w : AccountWallet)

/-! ## The amounts of a transaction -/

/-- `CWalletTx::GetDebit`; what is remembered is what was calculated. -/
def getDebitOf (hash : Uint256) (wtx : CWalletTx) : Check Int :=
  if wtx.tx.vin = [] then .ok 0
  else
    match w.nDebitCached hash with
    | some nDebit => .ok nDebit
    | none => w.getDebit wtx.tx

/-- `IsChange`: an address of ours that is not in the address book. -/
def isChange (txout : CTxOut) : Bool :=
  match extractDestination C txout.scriptPubKey with
  | some address => w.keystore.isMineDestination address && (w.mapAddressBook.lookup (some address)).isNone
  | none => false

/-- The body of the loop of `GetAmounts`. -/
def addAmount (nDebit : Int) (r : Amounts) (txout : CTxOut) : Amounts :=
  if txout.scriptPubKey = [] then r
  else if (if nDebit > 0 then w.isChange C txout else !w.isMineOut txout) then r
  else
    let address := extractDestination C txout.scriptPubKey
    { r with
      listSent := if nDebit > 0 then r.listSent ++ [(address, txout.nValue)] else r.listSent
      listReceived := if w.isMineOut txout then r.listReceived ++ [(address, txout.nValue)] else r.listReceived }

/-- The fee: what was ours and did not come out again. -/
def feeOf (nDebit : Int) (wtx : CWalletTx) : Check Int :=
  if nDebit > 0 then wtx.tx.getValueOut.map fun nValueOut => int64 (nDebit - nValueOut) else .ok 0

def getAmounts (hash : Uint256) (wtx : CWalletTx) : Check Amounts := do
  let nDebit ← w.getDebitOf hash wtx
  let nFee ← feeOf nDebit wtx
  return wtx.tx.vout.foldl (w.addAmount C nDebit) ⟨[], [], nFee, w.strFromAccount hash⟩

/-- The account of what was received at an address: without a label it is "". -/
def accountOf (address : Option CTxDestination) : List UInt8 := (w.mapAddressBook.lookup address).getD []

/-- The body of the second loop of `GetAccountAmounts`. -/
def addReceived (strAccount : List UInt8) (nReceived : Int) (r : Option CTxDestination × Int) : Int :=
  match w.mapAddressBook.lookup r.1 with
  | some strName => if strName = strAccount then int64 (nReceived + r.2) else nReceived
  | none => if strAccount = [] then int64 (nReceived + r.2) else nReceived

/-- `GetAccountAmounts`: what was received and sent, and the fee. -/
def getAccountAmounts (strAccount : List UInt8) (hash : Uint256) (wtx : CWalletTx) : Check (Int × Int × Int) := do
  let r ← w.getAmounts C hash wtx
  let nSent := if strAccount = r.strSentAccount then r.listSent.foldl (fun n sent => int64 (n + sent.2)) 0 else 0
  let nFee := if strAccount = r.strSentAccount then r.nFee else 0
  return (r.listReceived.foldl (w.addReceived strAccount) 0, nSent, nFee)

/-- The records in the order of the map. -/
def records : List ((_ : Uint256) × CWalletTx) := w.mapWallet.entries.insertionSort fun e e' => e.1 ≤ e'.1

/-- Deep enough, and mature. -/
def isRipe (nMinDepth : Int) (wtx : CWalletTx) : Bool :=
  decide (s.walletDepth P wtx ≥ nMinDepth) && decide (CachedWallet.blocksToMaturity P s wtx = 0)

/-! ## `getbalance` -/

/-- One turn of the loop of `GetAccountBalance`. -/
def accountTurn (strAccount : List UInt8) (nMinDepth nBalance : Int) (e : (_ : Uint256) × CWalletTx) : Check Int :=
  if CachedWallet.isFinal s e.2 = false ∨ s.walletDepth P e.2 < 0 then .ok nBalance
  else do
    let (nReceived, nSent, nFee) ← w.getAccountAmounts C strAccount e.1 e.2
    let nBalance := if nReceived ≠ 0 ∧ isRipe P s nMinDepth e.2 = true then int64 (nBalance + nReceived) else nBalance
    return int64 (nBalance - int64 (nSent + nFee))

/-- `GetAccountCreditDebit` -/
def getAccountCreditDebit (strAccount : List UInt8) : Int :=
  (w.acentryRecords.listAccountCreditDebit strAccount).foldl (fun n entry => int64 (n + entry.nCreditDebit)) 0

def getAccountBalance (strAccount : List UInt8) (nMinDepth : Int) : Check Int := do
  let nBalance ← w.records.foldlM (w.accountTurn C P s strAccount nMinDepth) 0
  return int64 (nBalance + w.getAccountCreditDebit strAccount)

/-! ## `listaccounts` -/

/-- `mapAccountBalances[strAccount]`; an account that is not there is put in with 0. -/
def balanceOf (m : AccountBalances) (strAccount : List UInt8) : Int := (m.lookup strAccount).getD 0

/-- `mapAccountBalances[strAccount] += n` -/
def addTo (m : AccountBalances) (strAccount : List UInt8) (n : Int) : AccountBalances :=
  m.insert strAccount (int64 (balanceOf m strAccount + n))

/-- `mapAccountBalances[strAccount] -= n` -/
def takeFrom (m : AccountBalances) (strAccount : List UInt8) (n : Int) : AccountBalances :=
  m.insert strAccount (int64 (balanceOf m strAccount - n))

/-- The accounts of the addresses that are ours. -/
def ownAccounts : AccountBalances :=
  w.mapAddressBook.entries.foldl (fun m entry =>
    if entry.1.any w.keystore.isMineDestination then m.insert entry.2 0 else m) ∅

/-- The amounts of a transaction go to their accounts. -/
def giveOut (fRipe : Bool) (m : AccountBalances) (r : Amounts) : AccountBalances :=
  let m := takeFrom m r.strSentAccount r.nFee
  let m := r.listSent.foldl (fun m sent => takeFrom m r.strSentAccount sent.2) m
  if fRipe then r.listReceived.foldl (fun m received => addTo m (w.accountOf received.1) received.2) m else m

/-- One turn of the loop over the wallet. -/
def listTurn (nMinDepth : Int) (m : AccountBalances) (e : (_ : Uint256) × CWalletTx) : Check AccountBalances :=
  if s.walletDepth P e.2 < 0 then .ok m
  else do
    let r ← w.getAmounts C e.1 e.2
    return w.giveOut (isRipe P s nMinDepth e.2) m r

def listaccounts (nMinDepth : Int) : Check AccountBalances := do
  let m ← w.records.foldlM (w.listTurn C P s nMinDepth) w.ownAccounts
  return (w.acentryRecords.listAccountCreditDebit (ascii "*")).foldl (fun m entry =>
    addTo m entry.strAccount entry.nCreditDebit) m

end AccountWallet

namespace AccountWallet

variable {C : KeyPrimitives} {P : Primitives} {s : NodeState} {w : AccountWallet}

/-! ## What a transaction means to an account -/

/-- An output that nobody is paid with: our change, and the empty one of a stake. -/
def kept (C : KeyPrimitives) (w : AccountWallet) (nDebit : Int) (txout : CTxOut) : Bool :=
  decide (txout.scriptPubKey = []) || (decide (nDebit > 0) && w.isChange C txout)

/-- The value of the outputs that `p` holds of. -/
def valueWhere (p : CTxOut → Bool) (tx : CTransaction) : Int := ((tx.vout.filter p).map CTxOut.nValue).sum

/-- The debit, as far as it can be calculated. -/
def debitOf (w : AccountWallet) (hash : Uint256) (wtx : CWalletTx) : Int := (w.getDebitOf hash wtx).toOption.getD 0

/-- What the account is paid. -/
def gain (C : KeyPrimitives) (w : AccountWallet) (strAccount : List UInt8) (hash : Uint256)
    (wtx : CWalletTx) : Int :=
  valueWhere (fun txout => decide (w.accountOf (extractDestination C txout.scriptPubKey) = strAccount) &&
    (!w.kept C (w.debitOf hash wtx) txout && w.isMineOut txout)) wtx.tx

/-- What the account that sent the transaction has spent: what went in, less what was kept. -/
def spent (C : KeyPrimitives) (w : AccountWallet) (strAccount : List UInt8) (hash : Uint256)
    (wtx : CWalletTx) : Int :=
  if w.debitOf hash wtx > 0 ∧ strAccount = w.strFromAccount hash then
    w.debitOf hash wtx - valueWhere (w.kept C (w.debitOf hash wtx)) wtx.tx
  else 0

/-- What the record comes to for the account.  It is paid when the record is ripe, and has spent at once. -/
def net (C : KeyPrimitives) (P : Primitives) (s : NodeState) (w : AccountWallet) (nMinDepth : Int)
    (strAccount : List UInt8) (e : (_ : Uint256) × CWalletTx) : Int :=
  (if isRipe P s nMinDepth e.2 then w.gain C strAccount e.1 e.2 else 0) - w.spent C strAccount e.1 e.2

/-- The amounts of a transaction can be calculated. -/
def InRange (w : AccountWallet) (hash : Uint256) (wtx : CWalletTx) : Prop :=
  ∃ nDebit, w.getDebitOf hash wtx = .ok nDebit ∧ (nDebit > 0 → ∃ nValueOut, wtx.tx.getValueOut = .ok nValueOut)

/-! ## The loops of `GetAmounts` -/

/-- A destination with what it is paid. -/
def paidTo (C : KeyPrimitives) (txout : CTxOut) : Option CTxDestination × Int :=
  (extractDestination C txout.scriptPubKey, txout.nValue)

theorem foldl_addAmount (nDebit : Int) (vout : List CTxOut) (r : Amounts) :
    vout.foldl (w.addAmount C nDebit) r = { r with
      listReceived := r.listReceived ++
        (vout.filter fun txout => !w.kept C nDebit txout && w.isMineOut txout).map (paidTo C)
      listSent := r.listSent ++
        (vout.filter fun txout => decide (nDebit > 0) && !w.kept C nDebit txout).map (paidTo C) } := by
  induction vout generalizing r with
  | nil => simp only [List.foldl_nil, List.filter_nil, List.map_nil, List.append_nil]
  | cons txout vout ih =>
    rw [List.foldl_cons, ih, List.filter_cons, List.filter_cons]
    unfold addAmount kept paidTo
    by_cases hempty : txout.scriptPubKey = []
    · simp only [hempty, decide_true, Bool.true_or, Bool.not_true, Bool.false_and, Bool.and_false, if_true,
        Bool.false_eq_true, if_false]
    · -- what is ours is received, what is debited is sent, and change is neither
      by_cases hdebit : nDebit > 0
      · cases w.isChange C txout <;> cases w.isMineOut txout <;> simp [hempty, hdebit]
      · cases w.isMineOut txout <;> simp [hempty, hdebit]

/-- The amounts can be calculated just when they are in range. -/
theorem getAmounts_ok_iff {hash : Uint256} {wtx : CWalletTx} :
    (∃ r, w.getAmounts C hash wtx = .ok r) ↔ w.InRange hash wtx := by
  unfold getAmounts InRange feeOf
  cases hd : w.getDebitOf hash wtx with
  | error e =>
    constructor
    · rintro ⟨r, h⟩
      cases h
    · rintro ⟨nDebit, h, -⟩
      cases h
  | ok nDebit =>
    rw [ok_bind]
    by_cases hdebit : nDebit > 0
    · rw [if_pos hdebit]
      cases hv : wtx.tx.getValueOut with
      | error e =>
        constructor
        · rintro ⟨r, h⟩
          cases h
        · rintro ⟨_, heq, h⟩
          cases heq
          obtain ⟨v, h⟩ := h hdebit
          cases h
      | ok v => exact ⟨fun _ => ⟨nDebit, rfl, fun _ => ⟨v, rfl⟩⟩, fun _ => ⟨_, rfl⟩⟩
    · rw [if_neg hdebit]
      exact ⟨fun _ => ⟨nDebit, rfl, fun h => absurd h hdebit⟩, fun _ => ⟨_, rfl⟩⟩

/-- Received for the account. -/
def credited (w : AccountWallet) (r : Amounts) (strAccount : List UInt8) : Int :=
  ((r.listReceived.filter fun received => decide (w.accountOf received.1 = strAccount)).map Prod.snd).sum

/-- Sent from the account, with the fee. -/
def debited (r : Amounts) (strAccount : List UInt8) : Int :=
  if strAccount = r.strSentAccount then (r.listSent.map Prod.snd).sum + r.nFee else 0

/-- In sum `GetAmounts` finds what the account is paid, and what it has spent. -/
theorem getAmounts_sums {hash : Uint256} {wtx : CWalletTx} {r : Amounts} (h : w.getAmounts C hash wtx = .ok r)
    (strAccount : List UInt8) : w.credited r strAccount = w.gain C strAccount hash wtx ∧
      int64 (debited r strAccount) = int64 (w.spent C strAccount hash wtx) := by
  unfold getAmounts at h
  obtain ⟨nDebit, hd, h⟩ := bind_ok.mp h
  obtain ⟨nFee, hfee, h⟩ := bind_ok.mp h
  have hdebitOf : w.debitOf hash wtx = nDebit := by
    unfold debitOf
    rw [hd]
    rfl
  rw [foldl_addAmount, List.nil_append, List.nil_append] at h
  cases h
  constructor
  · unfold credited gain valueWhere
    rw [hdebitOf, List.filter_map, List.map_map, List.filter_filter]
    rfl
  · unfold debited spent
    rw [hdebitOf]
    by_cases hacc : strAccount = w.strFromAccount hash
    swap
    · rw [if_neg hacc, if_neg fun h => hacc h.2]
    rw [if_pos hacc]
    unfold feeOf at hfee
    by_cases hdebit : nDebit > 0
    · -- the fee is the debit less all outputs, and those are sent or kept
      rw [if_pos hdebit] at hfee
      rw [if_pos ⟨hdebit, hacc⟩]
      cases hv : wtx.tx.getValueOut with
      | error e => rw [hv] at hfee; cases hfee
      | ok v =>
        rw [hv] at hfee
        cases hfee
        have hsplit := Tally.sum_split (w.kept C nDebit) CTxOut.nValue wtx.tx.vout
        have hvalue : v = (wtx.tx.vout.map CTxOut.nValue).sum := (wtx.tx.getValueOut_ok hv).1
        rw [int64_add_right, List.map_map]
        simp only [hdebit, decide_true, Bool.true_and]
        unfold valueWhere
        refine congrArg int64 ?_
        show ((wtx.tx.vout.filter fun txout => !w.kept C nDebit txout).map CTxOut.nValue).sum + (nDebit - v) = _
        omega
    · rw [if_neg hdebit] at hfee
      cases hfee
      rw [if_neg fun h => hdebit h.1]
      simp only [hdebit, decide_false, Bool.false_and, List.filter_false, List.map_nil, List.sum_nil]
      rfl

/-! ## `getbalance` adds up -/

/-- A loop that adds up. -/
theorem foldl_int64 {α : Type} (f : α → Int) (l : List α) (n : Int) :
    l.foldl (fun n a => int64 (n + f a)) (int64 n) = int64 (n + (l.map f).sum) := by
  induction l generalizing n with
  | nil => rw [List.map_nil, List.sum_nil, Int.add_zero]; rfl
  | cons a l ih =>
    rw [List.foldl_cons, int64_add_left, ih, List.map_cons, List.sum_cons, Int.add_assoc]

theorem addReceived_eq (strAccount : List UInt8) (n : Int) (r : Option CTxDestination × Int) :
    w.addReceived strAccount (int64 n) r = if w.accountOf r.1 = strAccount then int64 (n + r.2) else int64 n := by
  unfold addReceived accountOf
  rw [int64_add_left]
  cases w.mapAddressBook.lookup r.1 with
  | some strName => rfl
  | none =>
    show (if strAccount = [] then _ else _) = if [] = strAccount then _ else _
    by_cases h : strAccount = []
    · rw [if_pos h, if_pos h.symm]
    · rw [if_neg h, if_neg fun h' => h h'.symm]

theorem foldl_addReceived (strAccount : List UInt8) (l : List (Option CTxDestination × Int)) (n : Int) :
    l.foldl (w.addReceived strAccount) (int64 n) =
      int64 (n + ((l.filter fun r => decide (w.accountOf r.1 = strAccount)).map Prod.snd).sum) := by
  induction l generalizing n with
  | nil => rw [List.filter_nil, List.map_nil, List.sum_nil, Int.add_zero]; rfl
  | cons r l ih =>
    rw [List.foldl_cons, addReceived_eq, List.filter_cons]
    by_cases h : w.accountOf r.1 = strAccount
    · rw [if_pos h, ih, if_pos (decide_eq_true h), List.map_cons, List.sum_cons, Int.add_assoc]
    · rw [if_neg h, ih, if_neg (by simpa using h)]

/-- `GetAccountAmounts` comes to what the account is paid, and to what it has spent. -/
theorem getAccountAmounts_eq {hash : Uint256} {wtx : CWalletTx} (h : w.InRange hash wtx) (strAccount : List UInt8) :
    ∃ nSent nFee,
      w.getAccountAmounts C strAccount hash wtx = .ok (int64 (w.gain C strAccount hash wtx), nSent, nFee) ∧
      int64 (nSent + nFee) = int64 (w.spent C strAccount hash wtx) := by
  obtain ⟨r, hr⟩ := (getAmounts_ok_iff (C := C)).mpr h
  obtain ⟨hgain, hspent⟩ := getAmounts_sums hr strAccount
  have hreceived := foldl_addReceived (w := w) strAccount r.listReceived 0
  have hsent := foldl_int64 Prod.snd r.listSent 0
  have hzero : int64 0 = 0 := by decide
  rw [hzero, Int.zero_add] at hreceived hsent
  change _ = int64 (w.credited r strAccount) at hreceived
  rw [hgain] at hreceived
  rw [← hspent]
  unfold getAccountAmounts debited
  rw [hr]
  refine ⟨_, _, congrArg (fun n => Except.ok (n, _, _)) hreceived, ?_⟩
  split
  · rw [hsent, int64_add_left]
  · rfl

/-- A record that counts changes the balance by what it comes to. -/
theorem accountTurn_eq {strAccount : List UInt8} {nMinDepth : Int} {e : (_ : Uint256) × CWalletTx}
    (hfinal : CachedWallet.isFinal s e.2 = true) (hdepth : 0 ≤ s.walletDepth P e.2) (hrange : w.InRange e.1 e.2)
    (n : Int) : w.accountTurn C P s strAccount nMinDepth (int64 n) e =
      .ok (int64 (n + w.net C P s nMinDepth strAccount e)) := by
  obtain ⟨nSent, nFee, hamounts, hspent⟩ := getAccountAmounts_eq (C := C) hrange strAccount
  unfold accountTurn
  rw [if_neg fun h => h.elim (fun h => by simp [hfinal] at h) (by omega), hamounts, ok_bind]
  refine congrArg Except.ok ?_
  unfold net
  have hpaid : (if int64 (w.gain C strAccount e.1 e.2) ≠ 0 ∧ isRipe P s nMinDepth e.2 = true then
      int64 (int64 n + int64 (w.gain C strAccount e.1 e.2)) else int64 n) =
      int64 (n + if isRipe P s nMinDepth e.2 then w.gain C strAccount e.1 e.2 else 0) := by
    rw [int64_add_left, int64_add_right]
    cases isRipe P s nMinDepth e.2 with
    | false => rw [if_neg (fun h => absurd h.2 (by decide)), if_neg (by decide), Int.add_zero]
    | true =>
      rw [if_pos rfl]
      by_cases hgain : int64 (w.gain C strAccount e.1 e.2) = 0
      · rw [if_neg fun h => h.1 hgain, ← int64_add_right, hgain, Int.add_zero]
      · rw [if_pos ⟨hgain, rfl⟩]
  rw [hpaid, int64_sub_left, ← int64_sub_right, int64_int64, hspent, int64_sub_right, Int.add_sub_assoc]

theorem foldlM_accountTurn (strAccount : List UInt8) (nMinDepth : Int) (l : List ((_ : Uint256) × CWalletTx))
    (hl : ∀ e ∈ l, 0 ≤ s.walletDepth P e.2 → w.InRange e.1 e.2) (n : Int) :
    l.foldlM (w.accountTurn C P s strAccount nMinDepth) (int64 n) = .ok (int64 (n +
      ((l.filter fun e => CachedWallet.isFinal s e.2 && decide (0 ≤ s.walletDepth P e.2)).map
        (w.net C P s nMinDepth strAccount)).sum)) := by
  induction l generalizing n with
  | nil => rw [List.filter_nil, List.map_nil, List.sum_nil, Int.add_zero]; rfl
  | cons e l ih =>
    have ih := ih fun e he => hl e (List.mem_cons_of_mem _ he)
    rw [List.foldlM_cons, List.filter_cons]
    by_cases h : CachedWallet.isFinal s e.2 = true ∧ 0 ≤ s.walletDepth P e.2
    · rw [accountTurn_eq h.1 h.2 (hl e List.mem_cons_self h.2), ok_bind, ih, if_pos (by simpa using h),
        List.map_cons, List.sum_cons, Int.add_assoc]
    · have hskip : w.accountTurn C P s strAccount nMinDepth (int64 n) e = .ok (int64 n) := by
        unfold accountTurn
        refine if_pos ?_
        rw [← Bool.not_eq_true, ← Int.not_le]
        exact not_and_or.mp h
      rw [hskip, ok_bind, ih, if_neg (by simpa using h)]

/-! ## `listaccounts` adds up -/

/-- Every balance is this sum, as far as the integers go. -/
def Tracks (m : AccountBalances) (f : List UInt8 → Int) : Prop := ∀ a, balanceOf m a = int64 (f a)

theorem Tracks.congr {m : AccountBalances} {f g : List UInt8 → Int} (h : Tracks m f)
    (hfg : ∀ a, int64 (f a) = int64 (g a)) : Tracks m g := fun a => (h a).trans (hfg a)

theorem takeFrom_eq (m : AccountBalances) (a : List UInt8) (n : Int) : takeFrom m a n = addTo m a (-n) := by
  unfold takeFrom addTo
  rw [Int.sub_eq_add_neg]

theorem Tracks.addTo {m : AccountBalances} {f : List UInt8 → Int} (h : Tracks m f) (a : List UInt8) (n : Int) :
    Tracks (addTo m a n) fun b => f b + if a = b then n else 0 := by
  intro b
  show ((m.insert a (int64 (balanceOf m a + n))).lookup b).getD 0 = int64 (f b + if a = b then n else 0)
  by_cases hab : a = b
  · subst hab
    rw [AList.lookup_insert, if_pos rfl, Option.getD_some, h a, int64_add_left]
  · rw [AList.lookup_insert_ne fun hba => hab hba.symm, if_neg hab, Int.add_zero]
    exact h b

/-- A loop that gives something to an account at every turn. -/
theorem Tracks.foldl_addTo {α : Type} (k : α → List UInt8) (v : α → Int) (l : List α) {m : AccountBalances}
    {f : List UInt8 → Int} (h : Tracks m f) : Tracks (l.foldl (fun m x => AccountWallet.addTo m (k x) (v x)) m)
      fun b => f b + ((l.filter fun x => decide (k x = b)).map v).sum := by
  induction l generalizing m f with
  | nil => exact h.congr fun a => by rw [List.filter_nil, List.map_nil, List.sum_nil, Int.add_zero]
  | cons x l ih =>
    refine (ih (h.addTo (k x) (v x))).congr fun b => congrArg int64 ?_
    rw [List.filter_cons]
    by_cases hb : k x = b
    · rw [if_pos hb, if_pos (decide_eq_true hb), List.map_cons, List.sum_cons, Int.add_assoc]
    · rw [if_neg hb, if_neg (by simpa using hb), Int.add_zero]

theorem tracks_ownAccounts (w : AccountWallet) : Tracks w.ownAccounts fun _ => 0 := by
  unfold ownAccounts
  have hloop : ∀ (l : List ((_ : Option CTxDestination) × List UInt8)) (m : AccountBalances), Tracks m (fun _ => 0) →
      Tracks (l.foldl (fun m entry =>
        if entry.1.any w.keystore.isMineDestination then m.insert entry.2 0 else m) m) fun _ => 0 := by
    intro l
    induction l with
    | nil => exact fun m h => h
    | cons entry l ih =>
      intro m h
      refine ih _ ?_
      show Tracks (if entry.1.any w.keystore.isMineDestination then m.insert entry.2 0 else m) fun _ => 0
      split
      · intro b
        unfold balanceOf
        by_cases hb : b = entry.2
        · rw [hb, AList.lookup_insert]
          rfl
        · rw [AList.lookup_insert_ne hb]
          exact h b
      · exact h
  exact hloop _ _ fun a => rfl

/-- A loop that takes everything from one account. -/
theorem Tracks.foldl_takeFrom (a : List UInt8) (l : List (Option CTxDestination × Int)) {m : AccountBalances}
    {f : List UInt8 → Int} (h : Tracks m f) : Tracks (l.foldl (fun m sent => takeFrom m a sent.2) m)
      fun b => f b - if b = a then (l.map Prod.snd).sum else 0 := by
  induction l generalizing m f with
  | nil => exact h.congr fun b => by rw [List.map_nil, List.sum_nil, ite_self, Int.sub_zero]
  | cons sent l ih =>
    have hone := h.addTo a (-sent.2)
    rw [← takeFrom_eq] at hone
    refine (ih hone).congr fun b => congrArg int64 ?_
    rw [List.map_cons, List.sum_cons]
    by_cases hb : b = a
    · rw [if_pos hb, if_pos hb, if_pos hb.symm]
      omega
    · rw [if_neg hb, if_neg hb, if_neg fun h => hb h.symm, Int.add_zero]

/-- What is given out is what the record comes to, for every account. -/
theorem Tracks.giveOut {m : AccountBalances} {f : List UInt8 → Int} (h : Tracks m f) (nMinDepth : Int)
    {e : (_ : Uint256) × CWalletTx} {r : Amounts} (hr : w.getAmounts C e.1 e.2 = .ok r) :
    Tracks (w.giveOut (isRipe P s nMinDepth e.2) m r) fun a => f a + w.net C P s nMinDepth a e := by
  have hfee := h.addTo r.strSentAccount (-r.nFee)
  rw [← takeFrom_eq] at hfee
  have hsent := (hfee.foldl_takeFrom r.strSentAccount r.listSent).congr
    (g := fun a => f a - w.spent C a e.1 e.2) fun a => by
      rw [← int64_sub_right (f a), ← (getAmounts_sums hr a).2, int64_sub_right]
      unfold debited
      refine congrArg int64 ?_
      by_cases ha : a = r.strSentAccount
      · rw [if_pos ha, if_pos ha.symm, if_pos ha]
        omega
      · rw [if_neg ha, if_neg fun h => ha h.symm, if_neg ha, Int.add_zero]
  unfold AccountWallet.giveOut net
  cases isRipe P s nMinDepth e.2 with
  | false =>
    refine hsent.congr fun a => congrArg int64 ?_
    rw [if_neg (by decide)]
    omega
  | true =>
    refine (hsent.foldl_addTo (fun received => w.accountOf received.1) Prod.snd r.listReceived).congr fun a =>
      congrArg int64 ?_
    have hgain : ((r.listReceived.filter fun received => decide (w.accountOf received.1 = a)).map Prod.snd).sum =
        w.gain C a e.1 e.2 := (getAmounts_sums hr a).1
    rw [hgain, if_pos rfl]
    omega

theorem foldlM_listTurn (nMinDepth : Int) (l : List ((_ : Uint256) × CWalletTx))
    (hl : ∀ e ∈ l, 0 ≤ s.walletDepth P e.2 → w.InRange e.1 e.2) {m : AccountBalances} {f : List UInt8 → Int}
    (hm : Tracks m f) : ∃ m', l.foldlM (w.listTurn C P s nMinDepth) m = .ok m' ∧ Tracks m' fun a => f a +
      ((l.filter fun e => decide (0 ≤ s.walletDepth P e.2)).map (w.net C P s nMinDepth a)).sum := by
  induction l generalizing m f with
  | nil =>
    refine ⟨m, rfl, hm.congr fun a => ?_⟩
    rw [List.filter_nil, List.map_nil, List.sum_nil, Int.add_zero]
  | cons e l ih =>
    have ih := @ih fun e he => hl e (List.mem_cons_of_mem _ he)
    rw [List.foldlM_cons]
    simp only [List.filter_cons]
    unfold listTurn
    by_cases h : 0 ≤ s.walletDepth P e.2
    · obtain ⟨r, hr⟩ := (getAmounts_ok_iff (C := C)).mpr (hl e List.mem_cons_self h)
      rw [if_neg (by omega), hr, ok_bind]
      obtain ⟨m', hm', htracks⟩ := ih (hm.giveOut (P := P) (s := s) nMinDepth hr)
      refine ⟨m', hm', htracks.congr fun a => congrArg int64 ?_⟩
      rw [if_pos (decide_eq_true h), List.map_cons, List.sum_cons, Int.add_assoc]
    · rw [if_pos (by omega), ok_bind]
      obtain ⟨m', hm', htracks⟩ := ih hm
      refine ⟨m', hm', htracks.congr fun a => congrArg int64 ?_⟩
      rw [if_neg (by simpa using h)]

/-- No answer unless the amounts of all that is not lost can be calculated. -/
theorem inRange_of_listTurn {nMinDepth : Int} {l : List ((_ : Uint256) × CWalletTx)} {m m' : AccountBalances}
    (h : l.foldlM (w.listTurn C P s nMinDepth) m = .ok m') :
    ∀ e ∈ l, 0 ≤ s.walletDepth P e.2 → w.InRange e.1 e.2 := by
  induction l generalizing m with
  | nil => exact fun e he => absurd he List.not_mem_nil
  | cons e l ih =>
    rw [List.foldlM_cons] at h
    obtain ⟨m1, hturn, h⟩ := bind_ok.mp h
    intro e' he' hdepth
    rcases List.mem_cons.mp he' with rfl | he'
    · unfold listTurn at hturn
      rw [if_neg (by omega)] at hturn
      obtain ⟨r, hr, -⟩ := bind_ok.mp hturn
      exact getAmounts_ok_iff.mp ⟨r, hr⟩
    · exact ih h e' he' hdepth

/-! ## The accounting entries -/

/-- The entries of one account among all. -/
theorem listAccountCreditDebit_filter (records : AccountRecords) {strAccount : List UInt8}
    (hone : strAccount ≠ ascii "*") :
    ((records.listAccountCreditDebit (ascii "*")).filter fun entry => decide (entry.strAccount = strAccount)) =
      records.listAccountCreditDebit strAccount := by
  unfold AccountRecords.listAccountCreditDebit
  dsimp only
  rw [List.filter_map]
  refine congrArg (List.map _) ?_
  rw [List.filter_filter]
  refine List.filter_congr fun r hr => ?_
  simp [hone]

/-- The sum of the entries of the account. -/
def entriesOf (w : AccountWallet) (strAccount : List UInt8) : Int :=
  ((w.acentryRecords.listAccountCreditDebit strAccount).map CAccountingObject.nCreditDebit).sum

theorem mem_records {e : (_ : Uint256) × CWalletTx} : e ∈ w.records ↔ w.mapWallet.lookup e.1 = some e.2 := by
  unfold records
  rw [(List.perm_insertionSort _ _).mem_iff]
  exact AList.mem_lookup_iff.symm

theorem listaccounts_tracks (nMinDepth : Int)
    (h : ∀ e ∈ w.records, 0 ≤ s.walletDepth P e.2 → w.InRange e.1 e.2) {strAccount : List UInt8}
    (hone : strAccount ≠ ascii "*") : ∃ m, w.listaccounts C P s nMinDepth = .ok m ∧ balanceOf m strAccount =
      int64 (((w.records.filter fun e => decide (0 ≤ s.walletDepth P e.2)).map
        (w.net C P s nMinDepth strAccount)).sum + w.entriesOf strAccount) := by
  obtain ⟨m, hm, htracks⟩ := foldlM_listTurn (C := C) nMinDepth w.records h (tracks_ownAccounts w)
  unfold listaccounts
  rw [hm, ok_bind]
  refine ⟨_, rfl, ?_⟩
  rw [htracks.foldl_addTo CAccountingObject.strAccount CAccountingObject.nCreditDebit _ strAccount]
  dsimp only
  rw [listAccountCreditDebit_filter _ hone, Int.zero_add]
  rfl

theorem getAccountBalance_eq (nMinDepth : Int)
    (h : ∀ e ∈ w.records, 0 ≤ s.walletDepth P e.2 → w.InRange e.1 e.2) (strAccount : List UInt8) :
    w.getAccountBalance C P s strAccount nMinDepth =
      .ok (int64 (((w.records.filter fun e => CachedWallet.isFinal s e.2 && decide (0 ≤ s.walletDepth P e.2)).map
        (w.net C P s nMinDepth strAccount)).sum + w.entriesOf strAccount)) := by
  have hzero : int64 0 = 0 := by decide
  have hloop := foldlM_accountTurn (C := C) strAccount nMinDepth w.records h 0
  have hentries := foldl_int64 CAccountingObject.nCreditDebit (w.acentryRecords.listAccountCreditDebit strAccount) 0
  rw [hzero, Int.zero_add] at hloop hentries
  unfold getAccountBalance getAccountCreditDebit entriesOf
  rw [hloop, hentries, ok_bind]
  refine congrArg Except.ok ?_
  rw [int64_add_left, int64_add_right]

/-- Two sums are the same just when what one has more is nothing. -/
theorem int64_more_iff (x y n : Int) : int64 (x + y + n) = int64 (x + n) ↔ int64 y = 0 := by
  constructor
  · intro h
    have hless := int64_add_congr h (-(x + n))
    rw [show x + y + n + -(x + n) = y by omega, show x + n + -(x + n) = 0 by omega] at hless
    exact hless
  · intro h
    rw [show x + y + n = x + n + y by omega, ← int64_add_right, h, Int.add_zero]

end AccountWallet

/-! ## A payment to an account -/

namespace Locked

/-- A payment to the wallet that no block takes before block 1000. -/
def locked : CTransaction :=
  ⟨1, 1398950000, [⟨⟨7, 0⟩, [], 0⟩], [⟨5 * COIN, Forging.keyScript⟩], 1000⟩

def hashLocked : Uint256 := 0x6b8d316d1044bef65f16d3f70125847ccc5febab21fe5df07f15b00b38416504

def primitives : Primitives :=
  Primitives.ofTables [(locked, hashLocked), (Confirming.payment, Confirming.hashPayment)] [] []

/-- It waits in the pool, and so does one that is not locked. -/
def waiting : NodeState := Confirming.nodeAt [Sample.genesis] (((∅ : StdMap Uint256 CTransaction).insert
  hashLocked locked).insert Confirming.hashPayment Confirming.payment)

/-- A wallet with one payment, to an address of the account "a". -/
def wallet (hash : Uint256) (tx : CTransaction) : AccountWallet where
  isMine := Forging.keystore.isMine Forging.keyPrimitives
  nMinimumInputValue := 0
  mapWallet := (∅ : StdMap Uint256 CWalletTx).insert hash (CWalletTx.ofTx tx)
  nOrderPosNext := 1
  acentries := []
  keystore := Forging.keystore
  mapAddressBook := (∅ : StdMap (Option CTxDestination) (List UInt8)).insert
    (extractDestination Forging.keyPrimitives Forging.keyScript) (ascii "a")
  strFromAccount _ := []
  nDebitCached _ := none
  acentryRecords := ∅

end Locked

/-- The two agree on an account just when all the amounts can be calculated, and what is not final comes to
    nothing for it. -/
theorem AccountWallet.listaccounts_getbalance_iff (C : KeyPrimitives) (P : Primitives) (s : NodeState)
    (w : AccountWallet) (strAccount : List UInt8) (nMinDepth : Int) (hone : strAccount ≠ ascii "*") :
    (∃ m n, w.listaccounts C P s nMinDepth = .ok m ∧ w.getAccountBalance C P s strAccount nMinDepth = .ok n ∧
      AccountWallet.balanceOf m strAccount = n) ↔
    (∀ hash wtx, w.mapWallet.lookup hash = some wtx → 0 ≤ s.walletDepth P wtx → w.InRange hash wtx) ∧
      int64 ((w.records.filter fun e => !CachedWallet.isFinal s e.2 && decide (0 ≤ s.walletDepth P e.2)).map
        (w.net C P s nMinDepth strAccount)).sum = 0 := by
  have hsplit := Tally.sum_split (fun e : (_ : Uint256) × CWalletTx => CachedWallet.isFinal s e.2)
    (w.net C P s nMinDepth strAccount) (w.records.filter fun e => decide (0 ≤ s.walletDepth P e.2))
  rw [List.filter_filter, List.filter_filter] at hsplit
  have hrecords : (∀ hash wtx, w.mapWallet.lookup hash = some wtx → 0 ≤ s.walletDepth P wtx → w.InRange hash wtx) ↔
      ∀ e ∈ w.records, 0 ≤ s.walletDepth P e.2 → w.InRange e.1 e.2 :=
    ⟨fun h e he => h e.1 e.2 (AccountWallet.mem_records.mp he),
      fun h hash wtx hlookup => h ⟨hash, wtx⟩ (AccountWallet.mem_records.mpr hlookup)⟩
  rw [hrecords]
  constructor
  · rintro ⟨m, n, hm, hn, heq⟩
    have hrange : ∀ e ∈ w.records, 0 ≤ s.walletDepth P e.2 → w.InRange e.1 e.2 := by
      unfold AccountWallet.listaccounts at hm
      obtain ⟨_, hloop, -⟩ := bind_ok.mp hm
      exact AccountWallet.inRange_of_listTurn hloop
    refine ⟨hrange, ?_⟩
    obtain ⟨m', hm', hbalance⟩ := AccountWallet.listaccounts_tracks (C := C) nMinDepth hrange hone
    rw [hm] at hm'
    cases hm'
    rw [AccountWallet.getAccountBalance_eq nMinDepth hrange strAccount] at hn
    cases hn
    rw [hbalance, hsplit] at heq
    exact (AccountWallet.int64_more_iff _ _ _).mp heq
  · rintro ⟨hrange, hzero⟩
    obtain ⟨m, hm, hbalance⟩ := AccountWallet.listaccounts_tracks (C := C) nMinDepth hrange hone
    refine ⟨m, _, hm, AccountWallet.getAccountBalance_eq nMinDepth hrange strAccount, ?_⟩
    rw [hbalance, hsplit]
    exact (AccountWallet.int64_more_iff _ _ _).mpr hzero

/-- A payment that is final is the same in both. -/
theorem AccountWallet.listaccounts_getbalance_final : ∃ m n,
    (Locked.wallet Confirming.hashPayment Confirming.payment).listaccounts Forging.keyPrimitives Locked.primitives
      Locked.waiting 0 = .ok m ∧
    (Locked.wallet Confirming.hashPayment Confirming.payment).getAccountBalance Forging.keyPrimitives
      Locked.primitives Locked.waiting (ascii "a") 0 = .ok n ∧
    AccountWallet.balanceOf m (ascii "a") = n := by
  refine (AccountWallet.listaccounts_getbalance_iff Forging.keyPrimitives Locked.primitives Locked.waiting
    (Locked.wallet Confirming.hashPayment Confirming.payment) (ascii "a") 0 (by decide)).mpr ⟨?_, by decide⟩
  intro hash wtx hlookup hdepth
  have hmem : (⟨hash, wtx⟩ : (_ : Uint256) × CWalletTx) ∈
      [(⟨Confirming.hashPayment, CWalletTx.ofTx Confirming.payment⟩ : (_ : Uint256) × CWalletTx)] :=
    AList.mem_lookup_iff.mp hlookup
  obtain ⟨rfl, hwtx⟩ := Sigma.mk.inj (List.mem_singleton.mp hmem)
  obtain rfl := eq_of_heq hwtx
  exact ⟨0, by decide, fun h => absurd h (by decide)⟩

/-- A payment that is locked is listed, and is not in the balance of the account. -/
theorem AccountWallet.listaccounts_getbalance_locked :
    (∃ m, (Locked.wallet Locked.hashLocked Locked.locked).listaccounts Forging.keyPrimitives Locked.primitives
      Locked.waiting 0 = .ok m ∧ AccountWallet.balanceOf m (ascii "a") = 5 * COIN) ∧
    (Locked.wallet Locked.hashLocked Locked.locked).getAccountBalance Forging.keyPrimitives Locked.primitives
      Locked.waiting (ascii "a") 0 = .ok 0 := by
  exact ⟨⟨_, rfl, by decide⟩, by decide⟩

end Silkcoin
