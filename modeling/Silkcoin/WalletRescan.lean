/-
  Rebuilding a wallet from the chain: `ScanForWalletTransactions`.

  The scan walks up the links from a block to the tip and offers every transaction it reads to
  `AddToWalletIfInvolvingMe`.  It is ONE forward pass, so whether an input is the wallet's own depends
  on what was added before, and a spend only reaches a record that is there already.

  `Rebuilt` says what a wallet is to a set of transactions: it holds exactly those that pay to its keys
  or spend from them, and a flag is set exactly if one of them spends the output.  The scan keeps
  `Rebuilt` from one transaction to the next (`Rebuilt.step`), as long as the next transaction FOLLOWS:
  it is new, it spends what came before it, and nothing before it has spent its outputs.  On the main
  chain every transaction does (`follows`), because the chain is a valid ledger with every payment in
  the range of money.
-/
import Silkcoin.WalletNotices
import Silkcoin.WalletBirthday
import Silkcoin.Supply

namespace Silkcoin

open Validation BatchStore SpendLedger

/-! ## The scan -/

namespace CWallet

variable (P : Primitives) (g : Globals) (mapBlockIndex : StdMap Uint256 BlockPtr)
  (mem : Uint256 → BlockMem) (keys : WalletKeys) (fUpdate : Bool)

/-- What `AddToWalletIfInvolvingMe` returns: was the transaction added, or the record of it updated? -/
def isAdded (w : CWallet) (tx : CTransaction) : Check Bool := do
  let fExisted := (w.mapWallet.lookup (P.getHash tx)).isSome
  if fExisted && !fUpdate then return false
  else if fExisted || w.isMineTx tx then return true
  else w.isFromMe tx

/-- One transaction of a block that is scanned. -/
def scanTx (b : CBlock) (r : CWallet × Nat) (tx : CTransaction) : Check (CWallet × Nat) := do
  let fAdded ← r.1.isAdded P fUpdate tx
  let w ← r.1.addToWalletIfInvolvingMe P mapBlockIndex g.nAdjustedTime tx (some b) fUpdate
  return (w, if fAdded then r.2 + 1 else r.2)

/-- What `block` holds after `ReadFromDisk`, whose result is not looked at: a block that fails its
    checks is scanned all the same, one that does not parse is taken to be empty. -/
def blockRead (pindex : CBlockIndex) : Option CBlock :=
  if BlockFiles.openable pindex.nFile then g.files.block pindex.nFile pindex.nBlockPos else none

def scanBlock (pindex : CBlockIndex) (r : CWallet × Nat) : Check (CWallet × Nat) :=
  if keys.skips pindex.nTime then .ok r
  else match blockRead g pindex with
    | none => .ok r
    | some b => b.vtx.foldlM (scanTx P g mapBlockIndex fUpdate b) r

/-- Up the links from `pindex`; no walk is longer than the tree, and `fuel` is its size. -/
def scanFrom : Nat → CBlockIndex → CWallet × Nat → Check (CWallet × Nat)
  | 0, _, _ => .error (.throw "ScanForWalletTransactions() : the links do not end")
  | fuel + 1, pindex, r => do
    let r ← scanBlock P g mapBlockIndex keys fUpdate pindex r
    match (mem pindex.hashBlock).pnext with
    | none => return r
    | some next =>
      match mapBlockIndex.lookup next with
      | none | some [] => .error (.throw "null pointer")
      | some (pindex :: _) => scanFrom fuel pindex r

/-- The transactions the scan offers to the wallet, each with the block it was read from. -/
def offersFrom : Nat → CBlockIndex → List (CBlock × CTransaction)
  | 0, _ => []
  | fuel + 1, pindex =>
    (if keys.skips pindex.nTime then [] else
      match blockRead g pindex with
      | none => []
      | some b => b.vtx.map fun tx => (b, tx)) ++
    match (mem pindex.hashBlock).pnext with
    | none => []
    | some next =>
      match mapBlockIndex.lookup next with
      | none | some [] => []
      | some (pindex :: _) => offersFrom fuel pindex

/-- The wallet after the scan, and how many transactions it has found. -/
def scanForWalletTransactions (pindexStart : BlockPtr) (w : CWallet) : Check (CWallet × Nat) :=
  match pindexStart with
  | [] => .ok (w, 0)
  | pindex :: _ =>
    scanFrom P g mapBlockIndex mem keys fUpdate (mapBlockIndex.entries.length + 1) pindex (w, 0)

end CWallet

/-! ## What a wallet should hold -/

/-- The transaction pays to the keys. -/
def PaysTo (isMine : CScript → Bool) (tx : CTransaction) : Prop :=
  ∃ txout ∈ tx.vout, isMine txout.scriptPubKey = true

/-- The transaction spends an output of positive value that one of `txs` pays to the keys. -/
def SpendsFrom (P : Primitives) (isMine : CScript → Bool) (txs : Set CTransaction)
    (tx : CTransaction) : Prop :=
  ∃ prev ∈ txs, ∃ n txout, prev.vout[n]? = some txout ∧ isMine txout.scriptPubKey = true ∧
    0 < txout.nValue ∧ (P.getHash prev, n) ∈ CBlock.spentKeys tx

/-- The wallet that holds of `txs` what concerns its keys, with the flags that `txs` give it. -/
structure Rebuilt (P : Primitives) (txs : Set CTransaction) (w : CWallet) : Prop where
  sound : ∀ hash wtx, w.mapWallet.lookup hash = some wtx → P.getHash wtx.tx = hash ∧ wtx.tx ∈ txs ∧
    (PaysTo w.isMine wtx.tx ∨ SpendsFrom P w.isMine txs wtx.tx)
  complete : ∀ tx ∈ txs, PaysTo w.isMine tx ∨ SpendsFrom P w.isMine txs tx →
    ∃ wtx, w.mapWallet.lookup (P.getHash tx) = some wtx ∧ wtx.tx = tx
  spent : ∀ hash wtx, w.mapWallet.lookup hash = some wtx → ∀ n txout, wtx.tx.vout[n]? = some txout →
    w.isMine txout.scriptPubKey = true →
      (wtx.isSpent n = true ↔ ∃ tx ∈ txs, (hash, n) ∈ CBlock.spentKeys tx)

/-- The transaction can come next after `txs`. -/
structure Follows (P : Primitives) (txs : Set CTransaction) (tx : CTransaction) : Prop where
  fresh : ∀ t ∈ txs, P.getHash t ≠ P.getHash tx
  /-- neither it nor what came before spends its outputs -/
  unspent : ∀ t ∈ insert tx txs, ∀ o ∈ CBlock.spentKeys t, o.1 ≠ P.getHash tx
  values : ∀ txout ∈ tx.vout, moneyRange txout.nValue = true
  /-- the input of a coinbase names no output -/
  noInput : tx.isCoinBase = true → ∀ txin ∈ tx.vin, ∀ t ∈ insert tx txs,
    t.vout[txin.prevout.n.toNat]? = none
  /-- the outputs it spends add up -/
  paid : tx.isCoinBase = false → ∃ value : CTxIn → Int, (tx.vin.map value).sum ≤ MAX_MONEY ∧
    ∀ txin ∈ tx.vin, 0 ≤ value txin ∧ ∀ t ∈ txs, P.getHash t = txin.prevout.hash →
      ∀ txout, t.vout[txin.prevout.n.toNat]? = some txout → txout.nValue = value txin

/-! ## Flags after `WalletUpdateSpent` -/

namespace CWallet

section Flags

variable {P : Primitives} {w : CWallet} {wtx : CWalletTx} {tx : CTransaction} {n : Nat}

/-- Flags written one after the other, all the same way. -/
theorem isSpent_flags (fSpent : Bool) (l : List Nat) (hn : n < wtx.tx.vout.length) :
    ((l.map (RecordOp.flag fSpent)).foldl RecordOp.run wtx).isSpent n =
      if n ∈ l then fSpent else wtx.isSpent n := by
  induction l generalizing wtx with
  | nil => rfl
  | cons nOut l ih =>
    rw [List.map_cons, List.foldl_cons, ih (by rw [run_tx]; exact hn), isSpent_run hn]
    show (if n ∈ l then _ else (if nOut = n then some fSpent else none).getD _) = _
    by_cases hl : n ∈ l
    · rw [if_pos hl, if_pos (List.mem_cons_of_mem _ hl)]
    · rw [if_neg hl]
      by_cases heq : nOut = n
      · rw [if_pos heq, if_pos (by rw [heq]; exact List.mem_cons_self)]; rfl
      · rw [if_neg heq, if_neg (by simp [hl, Ne.symm heq])]; rfl

/-- A record after `WalletUpdateSpent`: what the transaction spends is set, and then, in a block, its
    own outputs are cleared. -/
theorem walletUpdateSpent_record (tx : CTransaction) (fBlock : Bool) {hash : Uint256}
    (hwtx : w.mapWallet.lookup hash = some wtx) :
    ∃ wtx', (w.walletUpdateSpent P tx fBlock).mapWallet.lookup hash = some wtx' ∧
      wtx'.tx = wtx.tx ∧ ∀ n < wtx.tx.vout.length, wtx'.isSpent n =
        if P.getHash tx = hash ∧ fBlock = true ∧ n ∈ w.ownOutputs tx then false
        else decide (n ∈ w.spendsOn hash tx.vin) || wtx.isSpent n := by
  have happ := walletUpdateSpent_applies (P := P) (w := w) tx fBlock
  refine ⟨_, by rw [happ.lookup, hwtx]; rfl, foldl_run_tx _, fun n hn => ?_⟩
  have hset : ((((w.spendsOn hash tx.vin).map (RecordOp.flag true)).foldl RecordOp.run wtx).isSpent n) =
      (decide (n ∈ w.spendsOn hash tx.vin) || wtx.isSpent n) := by
    rw [isSpent_flags true _ hn]
    by_cases hs : n ∈ w.spendsOn hash tx.vin
    · rw [if_pos hs, decide_eq_true hs]; rfl
    · rw [if_neg hs, decide_eq_false hs]; rfl
  rw [List.foldl_append]
  generalize hmid : ((w.spendsOn hash tx.vin).map (RecordOp.flag true)).foldl RecordOp.run wtx = mid
    at hset ⊢
  have hlen : n < mid.tx.vout.length := by rw [← hmid, foldl_run_tx]; exact hn
  by_cases hblock : P.getHash tx = hash ∧ fBlock = true
  · rw [if_pos hblock, isSpent_flags false _ hlen, hset]
    by_cases hown : n ∈ w.ownOutputs tx
    · rw [if_pos hown, if_pos ⟨hblock.1, hblock.2, hown⟩]
    · rw [if_neg hown, if_neg fun ⟨_, _, h⟩ => hown h]
  · rw [if_neg hblock, List.foldl_nil, hset, if_neg fun ⟨h, h', _⟩ => hblock ⟨h, h'⟩]

theorem mem_spendsOn {hash : Uint256} {vin : List CTxIn} : n ∈ w.spendsOn hash vin ↔
    ∃ txin ∈ vin, txin.prevout.hash = hash ∧ txin.prevout.n.toNat = n ∧
      (w.ownOutput txin.prevout).isSome = true := by
  unfold spendsOn
  simp only [List.mem_map, List.mem_filter, Bool.and_eq_true, decide_eq_true_eq]
  constructor
  · rintro ⟨txin, ⟨hmem, hhash, hown⟩, hn⟩
    exact ⟨txin, hmem, hhash, hn, hown⟩
  · rintro ⟨txin, hmem, hhash, hn, hown⟩
    exact ⟨txin, ⟨hmem, hhash, hown⟩, hn⟩

theorem ownOutput_eq_some {o : COutPoint} {txout : CTxOut} : w.ownOutput o = some txout ↔
    ∃ prev, w.mapWallet.lookup o.hash = some prev ∧ prev.tx.vout[o.n.toNat]? = some txout ∧
      w.isMine txout.scriptPubKey = true := by
  unfold ownOutput
  cases w.mapWallet.lookup o.hash with
  | none => simp
  | some prev =>
    simp only [Option.filter_eq_some_iff, isMineOut]
    constructor
    · rintro ⟨hout, hmine⟩
      exact ⟨prev, rfl, hout, hmine⟩
    · rintro ⟨prev', heq, hout, hmine⟩
      cases heq
      exact ⟨hout, hmine⟩

end Flags

/-! ## What the inputs are worth to the wallet -/

section Debit

variable {w : CWallet} {tx : CTransaction}

/-- Where the inputs are worth no more than a sum in the range of money, `GetDebit` does not throw. -/
theorem getDebit_eq {value : CTxIn → Int} (hsum : (tx.vin.map value).sum ≤ MAX_MONEY)
    (hle : ∀ txin ∈ tx.vin, 0 ≤ w.getDebitIn txin ∧ w.getDebitIn txin ≤ value txin) :
    w.getDebit tx = .ok (tx.vin.map w.getDebitIn).sum := by
  have hrun : ∀ (vin : List CTxIn) (nDebit : Int), 0 ≤ nDebit →
      (∀ txin ∈ vin, 0 ≤ w.getDebitIn txin ∧ w.getDebitIn txin ≤ value txin) →
      nDebit + (vin.map value).sum ≤ MAX_MONEY →
      vin.foldlM w.addDebit nDebit = .ok (nDebit + (vin.map w.getDebitIn).sum) := by
    intro vin
    induction vin with
    | nil => intro nDebit _ _ _; simp [pure, Except.pure]
    | cons txin vin ih =>
      intro nDebit hnonneg hle hmax
      obtain ⟨h0, h1⟩ := hle txin List.mem_cons_self
      have hrest : 0 ≤ (vin.map value).sum := List.sum_nonneg fun v hv => by
        obtain ⟨txin', hmem, rfl⟩ := List.mem_map.mp hv
        have := hle txin' (List.mem_cons_of_mem _ hmem)
        omega
      rw [List.map_cons, List.sum_cons] at hmax
      have hmoney : MAX_MONEY = 200000000000000000 := by decide
      have hint : int64 (nDebit + w.getDebitIn txin) = nDebit + w.getDebitIn txin :=
        int64_of_range (by omega) (by omega)
      have hrange : moneyRange (nDebit + w.getDebitIn txin) = true :=
        moneyRange_iff.mpr ⟨by omega, by omega⟩
      have hstep : w.addDebit nDebit txin = .ok (nDebit + w.getDebitIn txin) := by
        unfold addDebit
        dsimp only
        rw [hint, hrange]
        rfl
      rw [List.foldlM_cons, hstep, ok_bind,
        ih _ (by omega) (fun t ht => hle t (List.mem_cons_of_mem _ ht)) (by omega),
        List.map_cons, List.sum_cons, add_assoc]
  have := hrun tx.vin 0 le_rfl hle (by omega)
  rwa [zero_add] at this

/-- Inputs worth something make a debit. -/
theorem isFromMe_eq (value : CTxIn → Int) (hsum : (tx.vin.map value).sum ≤ MAX_MONEY)
    (hle : ∀ txin ∈ tx.vin, 0 ≤ w.getDebitIn txin ∧ w.getDebitIn txin ≤ value txin) :
    ∃ fFromMe, w.isFromMe tx = .ok fFromMe ∧
      (fFromMe = true ↔ ∃ txin ∈ tx.vin, 0 < w.getDebitIn txin) := by
  refine ⟨decide ((tx.vin.map w.getDebitIn).sum > 0), ?_, ?_⟩
  · unfold isFromMe
    rw [getDebit_eq hsum hle]
    rfl
  · rw [decide_eq_true_eq]
    constructor
    · intro hpos
      by_contra hno
      have hzero : (tx.vin.map w.getDebitIn).sum = 0 := List.sum_eq_zero fun v hv => by
        obtain ⟨txin, hmem, rfl⟩ := List.mem_map.mp hv
        exact le_antisymm (not_lt.mp fun h => hno ⟨txin, hmem, h⟩) (hle txin hmem).1
      omega
    · rintro ⟨txin, hmem, hpos⟩
      have hle' : w.getDebitIn txin ≤ (tx.vin.map w.getDebitIn).sum :=
        List.single_le_sum (fun v hv => by
          obtain ⟨txin', hmem', rfl⟩ := List.mem_map.mp hv
          exact (hle txin' hmem').1) _ (List.mem_map_of_mem hmem)
      omega

end Debit
end CWallet

/-! ## One transaction more -/

theorem spentKeys_of_not_coinBase {tx : CTransaction} (hcb : tx.isCoinBase = false) {o : Uint256 × Nat} :
    o ∈ CBlock.spentKeys tx ↔
      ∃ txin ∈ tx.vin, txin.prevout.hash = o.1 ∧ txin.prevout.n.toNat = o.2 := by
  rw [CBlock.spentKeys, if_neg (by simp [hcb]), CTransaction.prevouts, List.map_map, List.mem_map]
  constructor
  · rintro ⟨txin, hmem, rfl⟩
    exact ⟨txin, hmem, rfl, rfl⟩
  · rintro ⟨txin, hmem, hhash, hn⟩
    exact ⟨txin, hmem, Prod.ext hhash hn⟩

section Step

variable {P : Primitives} {txs : Set CTransaction} {w : CWallet} {tx : CTransaction}

/-- The wallet's own outputs are those that `txs` pay to its keys. -/
theorem Rebuilt.ownOutput (h : Rebuilt P txs w) {o : COutPoint} {txout : CTxOut} :
    w.ownOutput o = some txout ↔ ∃ prev ∈ txs, P.getHash prev = o.hash ∧
      prev.vout[o.n.toNat]? = some txout ∧ w.isMine txout.scriptPubKey = true := by
  rw [CWallet.ownOutput_eq_some]
  constructor
  · rintro ⟨prev, hprev, hout, hmine⟩
    obtain ⟨hhash, hmem, -⟩ := h.sound _ _ hprev
    exact ⟨prev.tx, hmem, hhash, hout, hmine⟩
  · rintro ⟨prev, hmem, hhash, hout, hmine⟩
    obtain ⟨wtx, hwtx, rfl⟩ := h.complete prev hmem
      (Or.inl ⟨txout, List.mem_of_getElem? hout, hmine⟩)
    rw [hhash] at hwtx
    exact ⟨wtx, hwtx, hout, hmine⟩

/-- A coinbase spends nothing of the wallet's. -/
theorem Rebuilt.ownOutput_coinBase (h : Rebuilt P txs w) (hf : Follows P txs tx)
    (hcb : tx.isCoinBase = true) {txin : CTxIn} (hmem : txin ∈ tx.vin) :
    w.ownOutput txin.prevout = none := by
  rw [Option.eq_none_iff_forall_ne_some]
  intro txout hown
  obtain ⟨prev, hprev, -, hout, -⟩ := h.ownOutput.mp hown
  rw [hf.noInput hcb txin hmem prev (Set.mem_insert_of_mem _ hprev)] at hout
  cases hout

/-- The outputs of the wallet's own that the next transaction spends. -/
theorem Rebuilt.mem_spendsOn (h : Rebuilt P txs w) (hf : Follows P txs tx) {hash : Uint256} {n : Nat} :
    n ∈ w.spendsOn hash tx.vin ↔ (hash, n) ∈ CBlock.spentKeys tx ∧
      ∃ prev ∈ txs, P.getHash prev = hash ∧ ∃ txout, prev.vout[n]? = some txout ∧
        w.isMine txout.scriptPubKey = true := by
  rw [CWallet.mem_spendsOn]
  by_cases hcb : tx.isCoinBase = true
  · constructor
    · rintro ⟨txin, hmem, -, -, hown⟩
      rw [h.ownOutput_coinBase hf hcb hmem] at hown
      cases hown
    · rintro ⟨hkey, -⟩
      rw [CBlock.spentKeys, if_pos hcb] at hkey
      cases hkey
  · rw [spentKeys_of_not_coinBase (by simpa using hcb)]
    constructor
    · rintro ⟨txin, hmem, rfl, rfl, hown⟩
      obtain ⟨txout, hown⟩ := Option.isSome_iff_exists.mp hown
      obtain ⟨prev, hprev, hhash, hout, hmine⟩ := h.ownOutput.mp hown
      exact ⟨⟨txin, hmem, rfl, rfl⟩, prev, hprev, hhash, txout, hout, hmine⟩
    · rintro ⟨⟨txin, hmem, rfl, rfl⟩, prev, hprev, hhash, txout, hout, hmine⟩
      have hown := h.ownOutput.mpr ⟨prev, hprev, hhash, hout, hmine⟩
      exact ⟨txin, hmem, rfl, rfl, by rw [hown]; rfl⟩

/-- With no minimum every payment counts. -/
theorem isMineTx_iff (hf : Follows P txs tx) (hmin : w.nMinimumInputValue = 0) :
    w.isMineTx tx = true ↔ PaysTo w.isMine tx := by
  unfold CWallet.isMineTx CWallet.isMineOut PaysTo
  simp only [List.any_eq_true, Bool.and_eq_true, decide_eq_true_eq]
  constructor
  · rintro ⟨txout, hmem, hmine, -⟩
    exact ⟨txout, hmem, hmine⟩
  · rintro ⟨txout, hmem, hmine⟩
    refine ⟨txout, hmem, hmine, ?_⟩
    rw [hmin]
    exact (moneyRange_iff.mp (hf.values txout hmem)).1

/-- `IsFromMe` does not throw, and it finds the payments that are spent. -/
theorem Rebuilt.isFromMe (h : Rebuilt P txs w) (hf : Follows P txs tx) :
    ∃ fFromMe, w.isFromMe tx = .ok fFromMe ∧ (fFromMe = true ↔ SpendsFrom P w.isMine txs tx) := by
  by_cases hcb : tx.isCoinBase = true
  · have hzero : ∀ txin ∈ tx.vin, w.getDebitIn txin = 0 := fun txin hmem => by
      unfold CWallet.getDebitIn
      rw [h.ownOutput_coinBase hf hcb hmem]; rfl
    obtain ⟨fFromMe, hrun, hiff⟩ := CWallet.isFromMe_eq (w := w) (fun _ => 0)
      (by rw [List.sum_eq_zero (by simp)]; decide) (fun txin hmem => by
        rw [hzero txin hmem]; exact ⟨le_rfl, le_rfl⟩)
    refine ⟨fFromMe, hrun, hiff.trans ⟨?_, ?_⟩⟩
    · rintro ⟨txin, hmem, hpos⟩
      rw [hzero txin hmem] at hpos
      omega
    · rintro ⟨_, _, _, _, _, _, _, hkey⟩
      rw [CBlock.spentKeys, if_pos hcb] at hkey
      cases hkey
  · have hcb : tx.isCoinBase = false := by simpa using hcb
    obtain ⟨value, hsum, hvalue⟩ := hf.paid hcb
    have hin : ∀ txin ∈ tx.vin, 0 ≤ w.getDebitIn txin ∧ w.getDebitIn txin ≤ value txin := by
      intro txin hmem
      obtain ⟨hnonneg, heq⟩ := hvalue txin hmem
      unfold CWallet.getDebitIn
      cases hown : w.ownOutput txin.prevout with
      | none => exact ⟨le_rfl, hnonneg⟩
      | some txout =>
        obtain ⟨prev, hprev, hhash, hout, -⟩ := h.ownOutput.mp hown
        have hv := heq prev hprev hhash txout hout
        show 0 ≤ txout.nValue ∧ txout.nValue ≤ value txin
        omega
    obtain ⟨fFromMe, hrun, hiff⟩ := CWallet.isFromMe_eq _ hsum hin
    refine ⟨fFromMe, hrun, hiff.trans ⟨?_, ?_⟩⟩
    · rintro ⟨txin, hmem, hpos⟩
      unfold CWallet.getDebitIn at hpos
      cases hown : w.ownOutput txin.prevout with
      | none => rw [hown] at hpos; exact absurd hpos (lt_irrefl 0)
      | some txout =>
        rw [hown] at hpos
        obtain ⟨prev, hprev, hhash, hout, hmine⟩ := h.ownOutput.mp hown
        exact ⟨prev, hprev, _, txout, hout, hmine, hpos,
          (spentKeys_of_not_coinBase hcb).mpr ⟨txin, hmem, hhash.symm, rfl⟩⟩
    · rintro ⟨prev, hprev, n, txout, hout, hmine, hpos, hkey⟩
      obtain ⟨txin, hmem, hhash, rfl⟩ := (spentKeys_of_not_coinBase hcb).mp hkey
      refine ⟨txin, hmem, ?_⟩
      unfold CWallet.getDebitIn
      rw [h.ownOutput.mpr ⟨prev, hprev, hhash.symm, hout, hmine⟩]
      exact hpos

/-- Of what came before nothing is spent from the next transaction. -/
theorem spendsFrom_insert (hf : Follows P txs tx) {t : CTransaction} (ht : t ∈ insert tx txs)
    (isMine : CScript → Bool) :
    SpendsFrom P isMine (insert tx txs) t ↔ SpendsFrom P isMine txs t := by
  constructor
  · rintro ⟨prev, hprev, n, txout, hout, hmine, hpos, hkey⟩
    rcases hprev with rfl | hprev
    · exact absurd rfl (hf.unspent t ht _ hkey)
    · exact ⟨prev, hprev, n, txout, hout, hmine, hpos, hkey⟩
  · rintro ⟨prev, hprev, rest⟩
    exact ⟨prev, Set.mem_insert_of_mem _ hprev, rest⟩

/-- **The step of the invariant.**  `w₁` is the wallet, with the record of the transaction added if it
    concerns the wallet; then `WalletUpdateSpent` runs. -/
theorem Rebuilt.updated (h : Rebuilt P txs w) (hf : Follows P txs tx) {w₁ : CWallet} {fBlock : Bool}
    (hmine : w₁.isMine = w.isMine)
    (hother : ∀ hash ≠ P.getHash tx, w₁.mapWallet.lookup hash = w.mapWallet.lookup hash)
    (hself : ∀ wtx, w₁.mapWallet.lookup (P.getHash tx) = some wtx → wtx.tx = tx ∧ wtx.vfSpent = [])
    (hadded : (w₁.mapWallet.lookup (P.getHash tx)).isSome = true ↔
      PaysTo w.isMine tx ∨ SpendsFrom P w.isMine txs tx) :
    Rebuilt P (insert tx txs) (w₁.walletUpdateSpent P tx fBlock) := by
  have happ := CWallet.walletUpdateSpent_applies (P := P) (w := w₁) tx fBlock
  have hself' : tx ∈ insert tx txs := Set.mem_insert _ _
  -- the spent outputs are those the wallet saw before its own record was added
  have hspends : ∀ {hash n}, hash ≠ P.getHash tx → (n ∈ w₁.spendsOn hash tx.vin ↔
      n ∈ w.spendsOn hash tx.vin) := by
    intro hash n hne
    simp only [CWallet.mem_spendsOn]
    refine exists_congr fun txin => and_congr_right fun _ => and_congr_right fun hhash => ?_
    have hown : w₁.ownOutput txin.prevout = w.ownOutput txin.prevout := by
      unfold CWallet.ownOutput CWallet.isMineOut
      rw [hother _ (by rw [hhash]; exact hne), hmine]
    rw [hown]
  -- no key of the records there were is that of the transaction
  have hold : ∀ {hash wtx}, w.mapWallet.lookup hash = some wtx → hash ≠ P.getHash tx := by
    rintro hash wtx hwtx rfl
    obtain ⟨hhash, hmem, -⟩ := h.sound _ _ hwtx
    exact hf.fresh _ hmem hhash
  -- a record afterwards, and what it was before
  have hback : ∀ hash wtx', (w₁.walletUpdateSpent P tx fBlock).mapWallet.lookup hash = some wtx' →
      ∃ wtx, w₁.mapWallet.lookup hash = some wtx ∧ wtx'.tx = wtx.tx ∧
        ∀ n < wtx.tx.vout.length, wtx'.isSpent n =
          if P.getHash tx = hash ∧ fBlock = true ∧ n ∈ w₁.ownOutputs tx then false
          else decide (n ∈ w₁.spendsOn hash tx.vin) || wtx.isSpent n := by
    intro hash wtx' hwtx'
    have hmap := hwtx'
    rw [happ.lookup] at hmap
    obtain ⟨wtx, hwtx, -⟩ := Option.map_eq_some_iff.mp hmap
    obtain ⟨wtx₂, hwtx₂, htx, hspent⟩ := CWallet.walletUpdateSpent_record (P := P) tx fBlock hwtx
    rw [hwtx'] at hwtx₂
    cases hwtx₂
    exact ⟨wtx, hwtx, htx, hspent⟩
  have hmine' : (w₁.walletUpdateSpent P tx fBlock).isMine = w.isMine := happ.isMine.trans hmine
  refine ⟨fun hash wtx' hwtx' => ?_, fun t ht hinvolves => ?_, fun hash wtx' hwtx' n txout hout hown => ?_⟩
  · rw [hmine']
    obtain ⟨wtx, hwtx, htx, -⟩ := hback hash wtx' hwtx'
    rw [htx]
    by_cases heq : hash = P.getHash tx
    · subst heq
      obtain ⟨rfl, -⟩ := hself wtx hwtx
      rw [spendsFrom_insert hf hself']
      exact ⟨rfl, hself', hadded.mp (by rw [hwtx]; rfl)⟩
    · rw [hother hash heq] at hwtx
      obtain ⟨hhash, hmem, hinvolves⟩ := h.sound _ _ hwtx
      rw [spendsFrom_insert hf (Set.mem_insert_of_mem _ hmem)]
      exact ⟨hhash, Set.mem_insert_of_mem _ hmem, hinvolves⟩
  · rw [hmine', spendsFrom_insert hf ht] at hinvolves
    have hrecord : ∃ wtx, w₁.mapWallet.lookup (P.getHash t) = some wtx ∧ wtx.tx = t := by
      rcases ht with rfl | ht
      · obtain ⟨wtx, hwtx⟩ := Option.isSome_iff_exists.mp (hadded.mpr hinvolves)
        exact ⟨wtx, hwtx, (hself wtx hwtx).1⟩
      · obtain ⟨wtx, hwtx, htx⟩ := h.complete t ht hinvolves
        exact ⟨wtx, by rw [hother _ (hold hwtx)]; exact hwtx, htx⟩
    obtain ⟨wtx, hwtx, rfl⟩ := hrecord
    obtain ⟨wtx', hwtx', htx, -⟩ := CWallet.walletUpdateSpent_record (P := P) tx fBlock hwtx
    exact ⟨wtx', hwtx', htx⟩
  · rw [hmine'] at hown
    obtain ⟨wtx, hwtx, htx, hspent⟩ := hback hash wtx' hwtx'
    rw [htx] at hout
    have hn : n < wtx.tx.vout.length := by
      by_contra hge
      rw [List.getElem?_eq_none (not_lt.mp hge)] at hout
      cases hout
    rw [hspent n hn]
    by_cases heq : hash = P.getHash tx
    · -- its own outputs: nobody has spent them
      subst heq
      have hnone : ∀ t ∈ insert tx txs, (P.getHash tx, n) ∉ CBlock.spentKeys t :=
        fun t ht hkey => hf.unspent t ht _ hkey rfl
      have hown' : n ∉ w₁.spendsOn (P.getHash tx) tx.vin := by
        rw [CWallet.mem_spendsOn]
        rintro ⟨txin, hmem, hhash, rfl, -⟩
        obtain ⟨rfl, -⟩ := hself wtx hwtx
        by_cases hcb : wtx.tx.isCoinBase = true
        · rw [hf.noInput hcb txin hmem _ hself'] at hout
          cases hout
        · exact hnone _ hself' ((spentKeys_of_not_coinBase (by simpa using hcb)).mpr
            ⟨txin, hmem, hhash, rfl⟩)
      have hflag : wtx.isSpent n = false := by
        unfold CWalletTx.isSpent
        rw [(hself wtx hwtx).2]; rfl
      simp only [hown', hflag, decide_false, Bool.or_false, ite_self]
      constructor
      · intro h; cases h
      · rintro ⟨t, ht, hkey⟩
        exact absurd hkey (hnone t ht)
    · rw [if_neg fun ⟨h, _⟩ => heq h.symm, Bool.or_eq_true, decide_eq_true_eq, hspends heq,
        h.mem_spendsOn hf]
      rw [hother hash heq] at hwtx
      obtain ⟨hhash, hmem, -⟩ := h.sound _ _ hwtx
      rw [h.spent hash wtx hwtx n txout hout hown]
      constructor
      · rintro (⟨hkey, -⟩ | ⟨t, ht, hkey⟩)
        · exact ⟨tx, hself', hkey⟩
        · exact ⟨t, Set.mem_insert_of_mem _ ht, hkey⟩
      · rintro ⟨t, rfl | ht, hkey⟩
        · exact Or.inl ⟨hkey, wtx.tx, hmem, hhash, txout, hout, hown⟩
        · exact Or.inr ⟨t, ht, hkey⟩

/-- **One transaction of the scan.** -/
theorem Rebuilt.scanTx (h : Rebuilt P txs w) (hf : Follows P txs tx) (hmin : w.nMinimumInputValue = 0)
    (g : Globals) (mapBlockIndex : StdMap Uint256 BlockPtr) (fUpdate : Bool) (b : CBlock) (ret : Nat) :
    ∃ r, CWallet.scanTx P g mapBlockIndex fUpdate b (w, ret) tx = .ok r ∧
      Rebuilt P (insert tx txs) r.1 ∧ r.1.isMine = w.isMine ∧ r.1.nMinimumInputValue = 0 := by
  have hnone : w.mapWallet.lookup (P.getHash tx) = none := by
    rw [Option.eq_none_iff_forall_ne_some]
    intro wtx hwtx
    obtain ⟨hhash, hmem, -⟩ := h.sound _ _ hwtx
    exact hf.fresh _ hmem hhash
  -- is the transaction the wallet's concern?
  have hinvolved : ∃ fInvolvingMe, (if w.isMineTx tx then .ok true else w.isFromMe tx) =
      (.ok fInvolvingMe : Check Bool) ∧
      (fInvolvingMe = true ↔ PaysTo w.isMine tx ∨ SpendsFrom P w.isMine txs tx) := by
    by_cases hpays : w.isMineTx tx = true
    · exact ⟨true, if_pos hpays, by simp [(isMineTx_iff hf hmin).mp hpays]⟩
    · obtain ⟨fFromMe, hrun, hiff⟩ := h.isFromMe hf
      refine ⟨fFromMe, by rw [if_neg hpays, hrun], ?_⟩
      rw [hiff, ← isMineTx_iff hf hmin]
      simp [hpays]
  obtain ⟨fInvolvingMe, hrun, hiff⟩ := hinvolved
  have hreturns : ∃ fAdded, w.isAdded P fUpdate tx = .ok fAdded := by
    unfold CWallet.isAdded
    simp only [hnone, Option.isSome_none, Bool.false_and, Bool.false_or, Bool.false_eq_true, if_false]
    exact ⟨fInvolvingMe, hrun⟩
  obtain ⟨fAdded, hadded⟩ := hreturns
  have hadd : w.addToWalletIfInvolvingMe P mapBlockIndex g.nAdjustedTime tx (some b) fUpdate =
      .ok (if fInvolvingMe then w.addToWallet P mapBlockIndex g.nAdjustedTime
        ((CWalletTx.ofTx tx).setMerkleBranch P b) else w.walletUpdateSpent P tx false) := by
    unfold CWallet.addToWalletIfInvolvingMe
    simp only [hnone, Option.isSome_none, Bool.false_and, Bool.false_or, Bool.false_eq_true, if_false]
    by_cases hpays : w.isMineTx tx = true
    · rw [if_pos hpays] at hrun ⊢
      cases hrun
      rfl
    · rw [if_neg hpays] at hrun ⊢
      rw [hrun, ok_bind]
      cases fInvolvingMe <;> rfl
  refine ⟨_, by unfold CWallet.scanTx; dsimp only; rw [hadded, ok_bind, hadd, ok_bind]; rfl, ?_⟩
  dsimp only
  cases fInvolvingMe with
  | false =>
    have happ := CWallet.walletUpdateSpent_applies (P := P) (w := w) tx false
    rw [if_neg Bool.false_ne_true]
    refine ⟨h.updated hf rfl (fun _ _ => rfl) (fun wtx hwtx => ?_) ?_, happ.isMine,
      happ.nMinimumInputValue.trans hmin⟩
    · rw [hnone] at hwtx
      cases hwtx
    · rw [hnone, ← hiff]
      simp
  | true =>
    have htx : ((CWalletTx.ofTx tx).setMerkleBranch P b).tx = tx := CWallet.setMerkleBranch_tx b _
    have hflags : ((CWalletTx.ofTx tx).setMerkleBranch P b).vfSpent = [] := by
      unfold CWalletTx.setMerkleBranch
      dsimp only
      split <;> rfl
    generalize (CWalletTx.ofTx tx).setMerkleBranch P b = wtxIn at htx hflags ⊢
    subst htx
    have hwallet : w.addToWallet P mapBlockIndex g.nAdjustedTime wtxIn =
        (w.insertNew mapBlockIndex g.nAdjustedTime (P.getHash wtxIn.tx) wtxIn).walletUpdateSpent P
          wtxIn.tx (decide (wtxIn.hashBlock ≠ 0)) := by
      unfold CWallet.addToWallet
      simp only [hnone]
    have happ := CWallet.walletUpdateSpent_applies (P := P)
      (w := w.insertNew mapBlockIndex g.nAdjustedTime (P.getHash wtxIn.tx) wtxIn) wtxIn.tx
      (decide (wtxIn.hashBlock ≠ 0))
    rw [if_pos rfl, hwallet]
    refine ⟨h.updated hf rfl (fun hash hne => ?_) (fun wtx hwtx => ?_) ?_, happ.isMine,
      happ.nMinimumInputValue.trans hmin⟩
    · unfold CWallet.insertNew
      rw [AList.lookup_insert_ne hne]
    · unfold CWallet.insertNew at hwtx
      rw [AList.lookup_insert] at hwtx
      cases hwtx
      exact ⟨rfl, hflags⟩
    · rw [← hiff]
      unfold CWallet.insertNew
      rw [AList.lookup_insert]
      simp

end Step

/-! ## Payments on the chain -/

/-- What an entry of the ledger spends is a sum in the range of money. -/
def Payments (l : TxLedger) : Prop :=
  ∀ e rest, e :: rest <:+ l → moneyRange (e.spends.map (valueAt rest)).sum = true

/-- A transaction of legal size has no output number 2³² - 1. -/
theorem vout_length_le {tx : CTransaction} (h : tx.checkTransaction = .ok ()) :
    tx.vout.length ≤ MAX_BLOCK_SIZE := by
  unfold CTransaction.checkTransaction at h
  simp only [require_bind_ok, decide_eq_true_eq, not_lt] at h
  obtain ⟨-, -, hsize, -⟩ := h
  have hout : tx.vout.length * 1 ≤ (tx.vout.map CTxOut.getSerializeSize).sum := by
    rw [← List.length_map (f := CTxOut.getSerializeSize)]
    refine List.card_nsmul_le_sum _ 1 fun n hn => ?_
    obtain ⟨txout, -, rfl⟩ := List.mem_map.mp hn
    unfold CTxOut.getSerializeSize
    omega
  unfold CTransaction.getSerializeSize at hsize
  omega

section Chain

variable {P : Primitives} {S : Set CTransaction} {chain : Chain}

/-- One block more. -/
theorem Payments.block {g : Globals} {txdb : CTxDB} {pindex : CBlockIndex} {b : CBlock}
    {vtx : List CTransaction} (hpaid : Payments (ledgerOf P chain)) (hstored : ChainStored g.files chain)
    (hr : Refines txdb.readTxIndex (ledgerOf P chain))
    (hv : Valid (blockEntries P pindex b vtx ++ ledgerOf P chain))
    (hin : ∀ p ∈ splits vtx, moneyRange (CBlock.valueIn P g txdb p) = true) :
    Payments (blockEntries P pindex b vtx ++ ledgerOf P chain) := by
  induction vtx using List.reverseRecOn with
  | nil => exact hpaid
  | append_singleton pre tx ih =>
    rw [splits_append_one] at hin
    rw [blockEntries_append_one, List.cons_append] at hv ⊢
    intro e rest hsuf
    rcases List.suffix_cons_iff.mp hsuf with heq | hsuf
    · obtain ⟨rfl, rfl⟩ := List.cons.inj heq
      rw [show (txEntry P tx (CBlock.txPosition pindex b pre)).spends = CBlock.spentKeys tx from rfl,
        spentValue_eq_valueIn hstored hr hv]
      exact hin _ (List.mem_append_right _ List.mem_cons_self)
    · exact ih hv.tail (fun p hp => hin p (List.mem_append_left _ hp)) e rest hsuf

/-- Every payment on a connected chain is in range, and every transaction of legal size. -/
theorem ChainRun.payments {base : BlockPtr} {txdb : CTxDB} {mem : Uint256 → BlockMem}
    (hinj : Set.InjOn P.getHash S) (hrun : ChainRun P S base chain txdb mem) :
    Payments (ledgerOf P chain) ∧
      ∀ c ∈ chain, ∀ tx ∈ c.block.vtx, tx.vout.length ≤ MAX_BLOCK_SIZE := by
  induction hrun with
  | start => exact ⟨fun e rest hsuf => absurd (List.suffix_nil.mp hsuf) (List.cons_ne_nil _ _),
      fun c hc => absurd hc List.not_mem_nil⟩
  | @connect chain txdb mem g gAccept tree pindex prev rest b r hrun hS hprev haccept hheight hstored
      hconnect ih =>
    have hi := hrun.index hinj
    have hi' := (ChainRun.connect hrun hS hprev haccept hheight hstored hconnect).index hinj
    have hstored' : ChainStored g.files chain := fun c hc => hstored c (List.mem_cons_of_mem _ hc)
    obtain ⟨hchecked, s, hloop, -⟩ := CBlock.connectBlock_ok hconnect
    have htally := CBlock.tally_run (hstored _ List.mem_cons_self) hchecked hloop
    have hv := hi'.valid
    rw [ledgerOf_cons] at hv ⊢
    refine ⟨ih.1.block hstored' hi.refines hv htally.in_range, ?_⟩
    unfold CBlock.connectBlock at hconnect
    simp only [bind_ok] at hconnect
    obtain ⟨_, hcheck, -⟩ := hconnect
    exact List.forall_mem_cons.mpr ⟨fun tx htx =>
      vout_length_le (CBlock.checkBlock_txs P _ b hcheck tx htx), ih.2⟩
  | @disconnect c chain txdb txdb' mem hrun hdisconnect ih =>
    refine ⟨fun e rest hsuf => ih.1 e rest (hsuf.trans ?_), fun d hd =>
      ih.2 d (List.mem_cons_of_mem _ hd)⟩
    rw [ledgerOf_cons]
    exact List.suffix_append _ _
  | silent hrun hread ih => exact ih

/-! ## The main chain -/

/-- The transaction of the genesis block. -/
def genesisTx : CTransaction where
  nVersion := 1
  nTime := 1398947338
  vin := [⟨COutPoint.null, [0x00, 0x01, 0x2a, 0x27] ++
    ("6 MAY 2014 Silkcoin is finally finished".toList.map fun c => UInt8.ofNat c.toNat), 0xffffffff⟩]
  vout := [⟨0, []⟩]
  nLockTime := 0

/-- The node is on the blocks of `chain` over genesis: they are connected and on disk, and the links
    lead through them and end at the last. -/
structure MainChain (P : Primitives) (S : Set CTransaction) (s : NodeState) (chain : Chain) : Prop
    extends NodeState.Built P S s chain where
  tree : NodeState.TreeOk P S s
  inTree : NodeState.InTree s (Chain.ptr s.pindexGenesisBlock chain)
  linked : Linked s.mem (Chain.ptr s.pindexGenesisBlock chain)
  last : ∀ tip ∈ (Chain.ptr s.pindexGenesisBlock chain).head?, (s.mem tip.hashBlock).pnext = none
  genesis : ∀ genesis ∈ s.pindexGenesisBlock.head?, ∃ b,
    readFromDisk P s.globals genesis = some b ∧ b.vtx = [genesisTx]
  genesisKnown : genesisTx ∈ S

/-- The transactions of the genesis block and of the blocks of `chain`. -/
def mainTxs (chain : Chain) : Set CTransaction :=
  { tx | tx = genesisTx ∨ ∃ c ∈ chain, tx ∈ c.block.vtx }

/-- Together with those of a block on top of it that come first. -/
def mainTxsAnd (chain : Chain) (pre : List CTransaction) : Set CTransaction :=
  { tx | tx ∈ mainTxs chain ∨ tx ∈ pre }

theorem mainTxsAnd_append_one (pre : List CTransaction) (tx : CTransaction) :
    mainTxsAnd chain (pre ++ [tx]) = insert tx (mainTxsAnd chain pre) := by
  ext t
  simp only [mainTxsAnd, Set.mem_insert_iff, Set.mem_ofPred_eq, List.mem_append, List.mem_singleton]
  tauto

theorem mainTxsAnd_vtx (c : ChainBlock) : mainTxsAnd chain c.block.vtx = mainTxs (c :: chain) := by
  ext t
  simp only [mainTxsAnd, mainTxs, Set.mem_ofPred_eq, List.mem_cons, exists_eq_or_imp]
  exact or_assoc.trans (or_congr_right or_comm)

/-! ## On the main chain every transaction follows -/

theorem ledgerOf_append (D C : Chain) : ledgerOf P (D ++ C) = ledgerOf P D ++ ledgerOf P C := by
  unfold ledgerOf connectedTxs
  rw [List.flatMap_append, List.map_append]

theorem blockEntries_split (pindex : CBlockIndex) (b : CBlock) (pre : List CTransaction)
    (tx : CTransaction) (post : List CTransaction) : txEntry P tx (CBlock.txPosition pindex b pre) ::
      blockEntries P pindex b pre <:+ blockEntries P pindex b (pre ++ tx :: post) := by
  induction post using List.reverseRecOn with
  | nil =>
    rw [blockEntries_append_one]
  | append_singleton post last ih =>
    rw [← List.cons_append, ← List.append_assoc, blockEntries_append_one]
    exact ih.trans (List.suffix_cons _ _)

/-- The entries before a transaction of the chain, and its own on top of them. -/
theorem entries_suffix {D C : Chain} {c : ChainBlock} {pre post : List CTransaction} {tx : CTransaction}
    (hvtx : c.block.vtx = pre ++ tx :: post) :
    txEntry P tx (CBlock.txPosition c.pindex c.block pre) ::
      (blockEntries P c.pindex c.block pre ++ ledgerOf P C) <:+ ledgerOf P (D ++ c :: C) := by
  rw [ledgerOf_append, ledgerOf_cons, hvtx]
  obtain ⟨front, hfront⟩ := blockEntries_split (P := P) c.pindex c.block pre tx post
  exact ⟨ledgerOf P D ++ front, by rw [← hfront]; simp⟩

/-- The genesis transaction is of legal form, and it starts with height 0. -/
theorem genesisTx_checked : genesisTx.TxChecked ∧ genesisTx.isCoinBase = true ∧
    CBlock.startsWithHeight genesisTx 0 = true := by
  have hcheck : genesisTx.checkTransaction = .ok () := ok_of_toOption (by decide)
  exact ⟨genesisTx.checkTransaction_ok hcheck, by decide, by decide⟩

namespace MainChain

variable {s : NodeState} {D C : Chain} {c : ChainBlock} {pre post : List CTransaction}
  {tx : CTransaction}

/-- No transaction of the chain has the hash of the genesis transaction. -/
theorem ne_genesisTx (hinj : Set.InjOn P.getHash S) (h : MainChain P S s chain) {c : ChainBlock}
    (hc : c ∈ chain) {tx : CTransaction} (htx : tx ∈ c.block.vtx) :
    P.getHash genesisTx ≠ P.getHash tx := by
  intro heq
  have hok := (h.run.index hinj).ok
  obtain rfl := hinj h.genesisKnown (hok.known c hc tx htx) heq
  obtain ⟨hchecked, hcb, h0⟩ := genesisTx_checked
  have hheight := CBlock.startsWithHeight_injective hchecked hcb h0
    (CBlock.startsWithHeight_of_mem (hok.checked c hc) (hok.height c hc) htx hcb)
  -- every block of the chain is above genesis
  obtain ⟨D, C, rfl⟩ := List.append_of_mem hc
  obtain ⟨genesis, hgenesis, -⟩ := h.tree.root
  have hsuf : c.pindex :: Chain.ptr s.pindexGenesisBlock C <:+
      Chain.ptr s.pindexGenesisBlock (D ++ c :: C) := by
    rw [Chain.ptr_append]
    exact List.suffix_append _ _
  have hin := h.inTree.suffix h.tree hsuf (List.cons_ne_nil _ _)
  cases hptr : Chain.ptr s.pindexGenesisBlock C with
  | nil =>
    unfold Chain.ptr at hptr
    rw [hgenesis] at hptr
    simp at hptr
  | cons prev rest =>
    rw [hptr] at hin
    have := h.tree.height _ _ _ hin
    omega

/-- A transaction that came before has its entry. -/
theorem mem_entries (hc : c ∈ chain) {t : CTransaction} (ht : t ∈ c.block.vtx) :
    ∃ pos, txEntry P t pos ∈ ledgerOf P chain := by
  obtain ⟨pre, post, hvtx⟩ := List.append_of_mem ht
  obtain ⟨D, C, rfl⟩ := List.append_of_mem hc
  exact ⟨_, (entries_suffix hvtx).subset List.mem_cons_self⟩

/-- **On the main chain every transaction follows** those before it. -/
theorem follows (hinj : Set.InjOn P.getHash S) (h : MainChain P S s (D ++ c :: C))
    (hvtx : c.block.vtx = pre ++ tx :: post) : Follows P (mainTxsAnd C pre) tx := by
  have hi := h.run.index hinj
  obtain ⟨hpaid, hsize⟩ := h.run.payments hinj
  have hsuf := entries_suffix (P := P) (D := D) (C := C) hvtx
  have hc : c ∈ D ++ c :: C := List.mem_append_right _ List.mem_cons_self
  have hmem : tx ∈ c.block.vtx := by rw [hvtx]; exact List.mem_append_right _ List.mem_cons_self
  have htx := (hi.ok.checked c hc).txs tx hmem
  have hv : Valid (txEntry P tx (CBlock.txPosition c.pindex c.block pre) ::
      (blockEntries P c.pindex c.block pre ++ ledgerOf P C)) := by
    obtain ⟨front, hfront⟩ := hsuf
    refine @valid_of_append _ front ?_
    rw [hfront]
    exact hi.valid
  generalize hl : blockEntries P c.pindex c.block pre ++ ledgerOf P C = l at hv hsuf
  -- what came before is the genesis transaction or has its entry, and is on the chain
  have hentry : ∀ t ∈ mainTxsAnd C pre, t = genesisTx ∨ (∃ pos, txEntry P t pos ∈ l) ∧
      ∃ d ∈ D ++ c :: C, t ∈ d.block.vtx := by
    rintro t ((rfl | ⟨d, hd, ht⟩) | ht)
    · exact Or.inl rfl
    · obtain ⟨pos, hpos⟩ := mem_entries (P := P) hd ht
      exact Or.inr ⟨⟨pos, by rw [← hl]; exact List.mem_append_right _ hpos⟩, d,
        List.mem_append_right _ (List.mem_cons_of_mem _ hd), ht⟩
    · refine Or.inr ⟨?_, c, hc, by rw [hvtx]; exact List.mem_append_left _ ht⟩
      rw [← splits_map_snd pre] at ht
      obtain ⟨p, hp, rfl⟩ := List.mem_map.mp ht
      exact ⟨_, by rw [← hl]; exact List.mem_append_left _ (mem_blockEntries.mpr ⟨p, hp, rfl⟩)⟩
  have hgenesis : ∀ {d : TxEntry}, d ∈ l → d.id ≠ P.getHash genesisTx := by
    intro d hd hid
    obtain ⟨e, he, t, ht, pos, rfl⟩ := mem_ledgerOf (hsuf.subset (List.mem_cons_of_mem _ hd))
    exact h.ne_genesisTx hinj he ht hid.symm
  have hspent : ∀ {t o}, t ∈ insert tx (mainTxsAnd C pre) → o ∈ CBlock.spentKeys t →
      ∃ d ∈ l, d.id = o.1 ∧ o.2 < d.outs.length := by
    intro t o ht ho
    rcases ht with rfl | ht
    · exact hv.head_exists ho
    · rcases hentry t ht with rfl | ⟨⟨pos, hpos⟩, -⟩
      · rw [CBlock.spentKeys, if_pos genesisTx_checked.2.1] at ho
        cases ho
      · exact hv.tail.spends_exist _ hpos o ho
  refine ⟨fun t ht => ?_, fun t ht o ho => ?_, htx.values, fun hcb txin htxin t ht => ?_, fun hcb => ?_⟩
  · rcases hentry t ht with rfl | ⟨⟨pos, hpos⟩, -⟩
    · exact h.ne_genesisTx hinj hc hmem
    · exact hv.fresh _ hpos
  · obtain ⟨d, hd, hid, -⟩ := hspent ht ho
    rw [← hid]
    exact hv.fresh d hd
  · -- an outpoint without a transaction has the number 2³² - 1
    have hlen : t.vout.length ≤ MAX_BLOCK_SIZE := by
      rcases ht with rfl | ht
      · exact hsize c hc _ hmem
      · rcases hentry t ht with rfl | ⟨-, d, hd, ht⟩
        · decide
        · exact hsize d hd t ht
    obtain ⟨txin', hvin, hnull, -⟩ := (CTransaction.isCoinBase_iff _).mp hcb
    rw [hvin, List.mem_singleton] at htxin
    subst htxin
    have hn : txin.prevout.n = 0xffffffff := (of_decide_eq_true hnull).2
    rw [hn]
    refine List.getElem?_eq_none (hlen.trans ?_)
    decide
  · -- each input is worth what the ledger has there
    have hvalue : ∀ {t pos}, txEntry P t pos ∈ l → ∀ n,
        valueAt l (P.getHash t, n) = ((t.vout[n]?).map CTxOut.nValue).getD 0 := by
      intro t pos hpos n
      have hfind := hv.tail.find_mem hpos
      unfold valueAt
      rw [show (P.getHash t, n).1 = (txEntry P t pos).id from rfl, hfind]
      show (t.vout.map CTxOut.nValue).getD n 0 = _
      rw [List.getD_eq_getElem?_getD, List.getElem?_map]
    have hkeys : CBlock.spentKeys tx = tx.vin.map fun txin => txin.prevout.key := by
      rw [CBlock.spentKeys, if_neg (by simp [hcb]), CTransaction.prevouts, List.map_map]
      rfl
    refine ⟨fun txin => valueAt l txin.prevout.key, ?_,
      fun txin htxin => ⟨?_, fun t ht hhash txout hout => ?_⟩⟩
    · have hsum := (moneyRange_iff.mp (hpaid _ _ hsuf)).2
      have hmoney : MAX_MONEY = 200000000000000000 := by decide
      rw [show (txEntry P tx (CBlock.txPosition c.pindex c.block pre)).spends = CBlock.spentKeys tx
        from rfl, hkeys, List.map_map] at hsum
      rw [hmoney]
      exact hsum
    · obtain ⟨d, hd, hid, -⟩ := hspent (Set.mem_insert tx _)
        (by rw [hkeys]; exact List.mem_map_of_mem htxin)
      obtain ⟨e, he, t, ht, pos, rfl⟩ := mem_ledgerOf (hsuf.subset (List.mem_cons_of_mem _ hd))
      have hkey : txin.prevout.key = (P.getHash t, txin.prevout.n.toNat) := Prod.ext hid.symm rfl
      show 0 ≤ valueAt l txin.prevout.key
      rw [hkey, hvalue hd]
      cases hout : t.vout[txin.prevout.n.toNat]? with
      | none => exact le_rfl
      | some txout =>
        exact (moneyRange_iff.mp (((hi.ok.checked e he).txs t ht).values txout
          (List.mem_of_getElem? hout))).1
    · obtain ⟨d, hd, hid, -⟩ := hspent (Set.mem_insert tx _)
        (by rw [hkeys]; exact List.mem_map_of_mem htxin)
      rcases hentry t ht with rfl | ⟨⟨pos, hpos⟩, -⟩
      · exact absurd (hid.trans hhash.symm) (hgenesis hd)
      · have hkey : txin.prevout.key = (P.getHash t, txin.prevout.n.toNat) :=
          Prod.ext hhash.symm rfl
        show txout.nValue = valueAt l txin.prevout.key
        rw [hkey, hvalue hpos, hout]
        rfl

/-! ## The scan over the main chain -/

variable {fUpdate : Bool} {keys : WalletKeys}

/-- What holds of the wallet once the chain has been scanned up to the blocks of `C`. -/
structure Scanned (P : Primitives) (isMine : CScript → Bool) (txs : Set CTransaction)
    (r : CWallet × Nat) : Prop where
  rebuilt : Rebuilt P txs r.1
  isMine_eq : r.1.isMine = isMine
  minimum : r.1.nMinimumInputValue = 0

theorem Scanned.step (fUpdate : Bool) {isMine : CScript → Bool} {txs : Set CTransaction} {r : CWallet × Nat}
    (h : Scanned P isMine txs r) (hf : Follows P txs tx) (b : CBlock) :
    ∃ r', CWallet.scanTx P s.globals s.tree.mapBlockIndex fUpdate b r tx = .ok r' ∧
      Scanned P isMine (insert tx txs) r' := by
  obtain ⟨r', hrun, hrebuilt, hmine, hmin⟩ := h.rebuilt.scanTx hf h.minimum s.globals
    s.tree.mapBlockIndex fUpdate b r.2
  exact ⟨r', hrun, hrebuilt, hmine.trans h.isMine_eq, hmin⟩

theorem blockRead_of_read {g : Globals} {pindex : CBlockIndex} {b : CBlock}
    (h : readFromDisk P g pindex = some b) : CWallet.blockRead g pindex = some b := by
  unfold readFromDisk BlockFiles.readBlock at h
  unfold CWallet.blockRead
  split at h
  · cases h
  · rename_i b' hb'
    split at h
    · cases h
    · cases h
      split at hb'
      · rename_i hopen
        rw [if_pos hopen]
        split at hb'
        · cases hb'
        · rename_i hfile
          split at hb'
          · cases hb'
          · rw [hfile]
            exact hb'
      · cases hb'

/-- One block of the scan. -/
theorem scanBlock (hinj : Set.InjOn P.getHash S) (h : MainChain P S s (D ++ c :: C))
    (hkeys : keys.nTimeFirstKey = 0) {isMine : CScript → Bool} {r : CWallet × Nat}
    (hr : Scanned P isMine (mainTxs C) r) :
    ∃ r', CWallet.scanBlock P s.globals s.tree.mapBlockIndex keys fUpdate c.pindex r = .ok r' ∧
      Scanned P isMine (mainTxs (c :: C)) r' := by
  have hread := blockRead_of_read (h.read c (List.mem_append_right _ List.mem_cons_self))
  have hskip : keys.skips c.pindex.nTime = false := by
    unfold WalletKeys.skips
    simp [hkeys]
  unfold CWallet.scanBlock
  rw [hskip, if_neg Bool.false_ne_true, hread, ← mainTxsAnd_vtx]
  refine foldlM_total (P := fun pre r => Scanned P isMine (mainTxsAnd C pre) r) ?_ ?_
  · have hnil : mainTxsAnd C [] = mainTxs C := by
      ext t
      simp [mainTxsAnd]
    rw [hnil]
    exact hr
  · intro pre tx post r hvtx hr
    rw [mainTxsAnd_append_one]
    exact hr.step fUpdate (h.follows hinj hvtx) c.block

/-- The scan from a block of the chain on.  The induction is on the blocks that are still above it. -/
theorem scanFrom (fUpdate : Bool) (hinj : Set.InjOn P.getHash S) (hkeys : keys.nTimeFirstKey = 0)
    {isMine : CScript → Bool} (fuel : Nat) (D C : Chain) (h : MainChain P S s (D ++ C))
    (hfuel : D.length < fuel) {pindex : CBlockIndex} {rest : BlockPtr}
    (hptr : Chain.ptr s.pindexGenesisBlock C = pindex :: rest) {r : CWallet × Nat}
    (hblock : ∃ r', CWallet.scanBlock P s.globals s.tree.mapBlockIndex keys fUpdate pindex r = .ok r' ∧
      Scanned P isMine (mainTxs C) r') :
    ∃ r', CWallet.scanFrom P s.globals s.tree.mapBlockIndex s.mem keys fUpdate fuel pindex r = .ok r' ∧
      Scanned P isMine (mainTxs (D ++ C)) r' := by
  induction D using List.reverseRecOn generalizing C fuel pindex rest r with
  | nil =>
    obtain ⟨r', hrun, hr'⟩ := hblock
    obtain ⟨fuel, rfl⟩ := Nat.exists_eq_succ_of_ne_zero (Nat.ne_of_gt hfuel)
    have hlast : (s.mem pindex.hashBlock).pnext = none := by
      refine h.last pindex ?_
      rw [List.nil_append, hptr]
      rfl
    refine ⟨r', ?_, hr'⟩
    unfold CWallet.scanFrom
    simp only [hrun, ok_bind, hlast]
    rfl
  | append_singleton D c ih =>
    obtain ⟨r', hrun, hr'⟩ := hblock
    obtain ⟨fuel, rfl⟩ := Nat.exists_eq_succ_of_ne_zero (Nat.ne_of_gt (Nat.zero_lt_of_lt hfuel))
    rw [List.append_assoc, List.singleton_append] at h ⊢
    rw [List.length_append, List.length_singleton] at hfuel
    have hsuf : c.pindex :: pindex :: rest <:+ Chain.ptr s.pindexGenesisBlock (D ++ c :: C) := by
      rw [Chain.ptr_append, ← hptr]
      exact List.suffix_append _ _
    -- the link leads to the next block, which is found under its hash
    have hnext : (s.mem pindex.hashBlock).pnext = some c.pindex.hashBlock := by
      obtain ⟨front, hfront⟩ := hsuf
      have hlinked := h.linked
      rw [← hfront] at hlinked
      exact hlinked.suffix.1
    have hlookup : s.tree.mapBlockIndex.lookup c.pindex.hashBlock = some (c.pindex :: pindex :: rest) := by
      obtain ⟨hash, hhash⟩ := h.inTree.suffix h.tree hsuf (List.cons_ne_nil _ _)
      have hkey := h.tree.keyed _ _ hhash
      rw [← Option.some.inj hkey] at hhash
      exact hhash
    obtain ⟨r'', hrun', hr''⟩ := ih fuel (c :: C) h (by omega)
      (show c.pindex :: Chain.ptr s.pindexGenesisBlock C = _ by rw [hptr])
      (h.scanBlock hinj hkeys hr')
    refine ⟨r'', ?_, hr''⟩
    unfold CWallet.scanFrom
    simp only [hrun, ok_bind, hnext, hlookup]
    exact hrun'

/-- The chain is no longer than the tree has entries. -/
theorem length_lt (h : MainChain P S s chain) :
    chain.length < s.tree.mapBlockIndex.entries.length + 1 := by
  have hnd := h.inTree.nodup h.tree
  have hsub : (Chain.ptr s.pindexGenesisBlock chain).map CBlockIndex.hashBlock ⊆
      s.tree.mapBlockIndex.keys := by
    intro hash hmem
    obtain ⟨p, hp, rfl⟩ := List.mem_map.mp hmem
    obtain ⟨front, rest, hsplit⟩ := List.append_of_mem hp
    have hsuf : p :: rest <:+ Chain.ptr s.pindexGenesisBlock chain := by
      rw [hsplit]
      exact List.suffix_append _ _
    obtain ⟨hash, hlookup⟩ := h.inTree.suffix h.tree hsuf (List.cons_ne_nil _ _)
    have hkey := h.tree.keyed _ _ hlookup
    rw [Option.some.inj hkey]
    exact AList.mem_keys.mpr (AList.lookup_isSome.mp (by rw [hlookup]; rfl))
  have hle := (List.subperm_of_subset hnd hsub).length_le
  have hlen : chain.length ≤ ((Chain.ptr s.pindexGenesisBlock chain).map CBlockIndex.hashBlock).length := by
    unfold Chain.ptr
    rw [List.length_map, List.length_append, List.length_map]
    omega
  have hkeys : s.tree.mapBlockIndex.keys.length = s.tree.mapBlockIndex.entries.length := by
    unfold AList.keys List.keys
    rw [List.length_map]
  omega

/-- **A rescan rebuilds the wallet.** -/
theorem scan_rebuilds (hinj : Set.InjOn P.getHash S) (h : MainChain P S s chain)
    (hkeys : keys.nTimeFirstKey = 0) {w : CWallet} (hmin : w.nMinimumInputValue = 0)
    (hempty : ∀ hash, w.mapWallet.lookup hash = none) :
    ∃ w' ret, CWallet.scanForWalletTransactions P s.globals s.tree.mapBlockIndex s.mem keys fUpdate
      s.pindexGenesisBlock w = .ok (w', ret) ∧ w'.isMine = w.isMine ∧
        Rebuilt P (mainTxs chain) w' := by
  obtain ⟨genesis, hgenesis, -⟩ := h.tree.root
  obtain ⟨b, hread, hvtx⟩ := h.genesis genesis (by rw [hgenesis]; rfl)
  obtain ⟨hchecked, hcb, -⟩ := genesisTx_checked
  -- before the scan the wallet has what concerns it of no transactions at all
  have hstart : Scanned P w.isMine ∅ (w, 0) := by
    refine ⟨⟨fun hash wtx hwtx => ?_, fun tx htx => absurd htx (Set.notMem_empty tx),
      fun hash wtx hwtx => ?_⟩, rfl, hmin⟩ <;>
    · rw [hempty] at hwtx
      cases hwtx
  have hfirst : Follows P ∅ genesisTx := by
    refine ⟨fun t ht => absurd ht (Set.notMem_empty t), fun t ht o ho => ?_, hchecked.values,
      fun _ txin htxin t ht => ?_, fun hno => ?_⟩
    · rcases ht with rfl | ht
      · rw [CBlock.spentKeys, if_pos hcb] at ho
        cases ho
      · exact absurd ht (Set.notMem_empty t)
    · rcases ht with rfl | ht
      · rw [show txin = ⟨COutPoint.null, _, 0xffffffff⟩ from List.mem_singleton.mp htxin]
        rfl
      · exact absurd ht (Set.notMem_empty t)
    · rw [hcb] at hno
      cases hno
  have hblock : ∃ r', CWallet.scanBlock P s.globals s.tree.mapBlockIndex keys fUpdate genesis (w, 0) =
      .ok r' ∧ Scanned P w.isMine (mainTxs []) r' := by
    have hskip : keys.skips genesis.nTime = false := by
      unfold WalletKeys.skips
      simp [hkeys]
    have htxs : mainTxs [] = insert genesisTx ∅ := by
      ext t
      simp [mainTxs]
    unfold CWallet.scanBlock
    rw [hskip, if_neg Bool.false_ne_true, blockRead_of_read hread, htxs]
    dsimp only
    rw [hvtx, List.foldlM_cons]
    obtain ⟨r', hrun, hr'⟩ := hstart.step (s := s) fUpdate hfirst b
    exact ⟨r', by rw [hrun]; rfl, hr'⟩
  obtain ⟨r, hrun, hr⟩ := scanFrom fUpdate hinj hkeys
    (s.tree.mapBlockIndex.entries.length + 1) chain [] (by rw [List.append_nil]; exact h) h.length_lt
    (show Chain.ptr s.pindexGenesisBlock [] = [genesis] from hgenesis) hblock
  rw [List.append_nil] at hr
  refine ⟨r.1, r.2, ?_, hr.isMine_eq, hr.rebuilt⟩
  unfold CWallet.scanForWalletTransactions
  rw [hgenesis]
  exact hrun

end MainChain

end Chain

/-! ## A wallet with the key of two coinbases -/

namespace Rescan

open Sample

/-- The genesis block of the source. -/
def blockGenesis : CBlock where
  nVersion := 1
  hashPrevBlock := 0
  hashMerkleRoot := genesis.hashMerkleRoot
  nTime := 1398947338
  nBits := 0x1e0fffff
  nNonce := 1663708
  vtx := [genesisTx]
  vchBlockSig := []

def txs : List (CTransaction × Uint256) := (genesisTx, genesis.hashMerkleRoot) :: txsB

def primitives : Primitives := Primitives.ofTables txs
  [(blockGenesis.toCBlockHeader, hashGenesisBlock), (blockB1.toCBlockHeader, hashB1),
    (blockB2.toCBlockHeader, hashB2)] []

def S : Set CTransaction := { tx | tx ∈ txs.map Prod.fst }

def blocks : Chain := chainB ++ [⟨genesis, blockGenesis⟩]

def globals (pindexBest : BlockPtr) : Globals := { nodeB pindexBest with files := filesOf blocks }

def ptrB2 : BlockPtr := [indexB2, indexB1, genesis]

def connected1 : Connected :=
  ((CBlock.connectBlock primitives (globals [genesis]) freshMem emptyDb indexB1 [genesis] blockB1
    false).toOption).getD ⟨emptyDb, freshMem⟩

def connected2 : Connected :=
  ((CBlock.connectBlock primitives (globals [indexB1, genesis]) connected1.mem connected1.txdb indexB2
    [indexB1, genesis] blockB2 false).toOption).getD ⟨emptyDb, freshMem⟩

/-- The node on `B2`, with the links from genesis to it. -/
def node : NodeState where
  fTestNet := false
  nAdjustedTime := 1398950000
  files := filesOf blocks
  tree := { treeUpTo ptrB2 with
    mapBlockIndex := ptrB2.tails.dropLast.foldr (fun ptr m => m.insert
      ((ptr.head?.map CBlockIndex.hashBlock).getD 0) ptr) ∅ }
  mem hash :=
    { connected2.mem hash with
      pnext := if hash = hashGenesisBlock then some hashB1
        else if hash = hashB1 then some hashB2 else none }
  txdb := connected2.txdb
  pindexGenesisBlock := [genesis]
  hashBestChain := hashB2
  pindexBest := ptrB2
  nBestHeight := 2
  nBestChainTrust := indexB2.nChainTrust
  nBestInvalidTrust := 0
  mempool := ⟨∅, ∅⟩
  wallets := []
  commits := []

/-- The key is that of the script the two coinbases pay to. -/
def wallet : CWallet where
  isMine scriptPubKey := decide (scriptPubKey = [0x51])
  nMinimumInputValue := 0
  mapWallet := ∅
  nOrderPosNext := 0
  acentries := []

/-- No birthday. -/
def keys : WalletKeys := ⟨[], ∅, 0, false, false, []⟩

/-- The tables are sound, and what is on disk is what was put there. -/
theorem tables : Set.InjOn primitives.getHash S ∧ ChainStored node.files blocks ∧
    NodeState.TreeOk primitives S node :=
  NodeState.TreeOk.of_tables (fun ptr => (globals ptr, treeUpTo ptr)) rfl (by decide)

/-- What is computed: both blocks are accepted and connected. -/
theorem runs :
    (CBlock.acceptChecks primitives (globals [genesis]) (treeUpTo [genesis]) blockB1).toOption =
      some [genesis] ∧
    (CBlock.acceptChecks primitives (globals [indexB1, genesis]) (treeUpTo [indexB1, genesis])
      blockB2).toOption = some [indexB1, genesis] ∧
    (CBlock.connectBlock primitives (globals [genesis]) freshMem emptyDb indexB1 [genesis] blockB1
      false).isOk = true ∧
    (CBlock.connectBlock primitives (globals [indexB1, genesis]) connected1.mem connected1.txdb indexB2
      [indexB1, genesis] blockB2 false).isOk = true ∧
    ∀ c ∈ blocks, ∀ tx ∈ c.block.vtx, tx ∈ txs.map Prod.fst := by
  decide

theorem run : ChainRun primitives S [genesis] chainB connected2.txdb connected2.mem := by
  have hB1 : (⟨indexB1, blockB1⟩ : ChainBlock) ∈ blocks := .tail _ (.head _)
  have hB2 : (⟨indexB2, blockB2⟩ : ChainBlock) ∈ blocks := .head _
  obtain ⟨-, hstored, -⟩ := tables
  obtain ⟨haccept1, haccept2, hconnect1, hconnect2, hknown⟩ := runs
  have hstored1 : ChainStored (filesOf blocks) [⟨indexB1, blockB1⟩] :=
    List.forall_mem_singleton.mpr (hstored _ hB1)
  have hstored2 : ChainStored (filesOf blocks) chainB :=
    List.forall_mem_cons.mpr ⟨hstored _ hB2, hstored1⟩
  have hrun1 : ChainRun primitives S [genesis] [⟨indexB1, blockB1⟩] connected1.txdb connected1.mem :=
    ChainRun.connect (ChainRun.start fun _ => rfl) (hknown _ hB1) rfl (ok_of_toOption haccept1) rfl
      hstored1 (eq_ok_getD hconnect1 _)
  exact ChainRun.connect hrun1 (hknown _ hB2) rfl (ok_of_toOption haccept2) rfl hstored2
    (eq_ok_getD hconnect2 _)

/-- What is read back, where the tip is, what the links are, and what genesis is. -/
theorem read_blocks : (∀ c ∈ chainB, readFromDisk primitives node.globals c.pindex = some c.block) ∧
    node.tree.mapBlockIndex.lookup hashB2 = some ptrB2 ∧
    ((node.mem hashB1).pnext = some hashB2 ∧ (node.mem hashGenesisBlock).pnext = some hashB1 ∧ True) ∧
    (∀ tip ∈ some indexB2, (node.mem tip.hashBlock).pnext = none) ∧
    readFromDisk primitives node.globals genesis = some blockGenesis ∧ genesisTx ∈ txs.map Prod.fst := by
  decide

theorem mainChain : MainChain primitives S node chainB := by
  obtain ⟨-, hstored, htree⟩ := tables
  obtain ⟨hread, hlookup, hlinked, hlast, hgenesis, hknown⟩ := read_blocks
  exact {
    run := ChainRun.silent run fun _ => rfl
    read := hread
    stored := fun c hc => hstored c (List.mem_append_left _ hc)
    tree := htree
    inTree := ⟨hashB2, hlookup⟩
    linked := hlinked
    last := hlast
    genesis := by
      rintro _ ⟨⟩
      exact ⟨blockGenesis, hgenesis, rfl⟩
    genesisKnown := hknown }

theorem scan_rebuilds_chainB : ∃ w' ret, CWallet.scanForWalletTransactions primitives node.globals
    node.tree.mapBlockIndex node.mem keys false node.pindexGenesisBlock wallet =
      .ok (w', ret) ∧ w'.isMine = wallet.isMine ∧ Rebuilt primitives (mainTxs chainB) w' :=
  let ⟨hinj, _⟩ := tables
  MainChain.scan_rebuilds hinj mainChain rfl rfl fun _ => rfl

end Rescan
end Silkcoin
