/-
  Spent flags over the life of a wallet.

  A flag is SET when the wallet is told of a transaction that spends the output: by the first loop of
  `WalletUpdateSpent`, by `CommitTransaction`, or by `ReacceptWalletTransactions`, which asks the
  transaction index.  It is CLEARED when the wallet records the transaction whose output it is: a new
  record starts with what flags it came with, and a block clears all of them.  So a spend that the wallet
  heard of BEFORE it recorded what is spent is lost, unless it hears of it again.

  `stale` is the history that matters: the transactions of the wallet that it has not been told of since
  it recorded one they spend from.  `Run.heard` is the invariant, that the spends of all the others are
  flagged; and so none is missed as long as no stale transaction is in the memory pool or on the chain
  (`spent_seen`).
-/
import Silkcoin.WalletRescan
import Silkcoin.PoolInputs

namespace Silkcoin

open Validation BatchStore

namespace CWallet

variable (P : Primitives) (s : NodeState) (keys : WalletKeys) (w : CWallet)

/-! ## `CommitTransaction` -/

/-- A coin that is spent.  Where the wallet has no such record, `mapWallet[]` makes an empty one, and
    there `MarkSpent` throws. -/
def commitCoin (w : CWallet) (txin : CTxIn) : Check CWallet :=
  match w.mapWallet.lookup txin.prevout.hash with
  | none => .error (.throw "CWalletTx::MarkSpent() : nOut out of range")
  | some coin =>
    if txin.prevout.n.toNat ≥ coin.tx.vout.length then
      .error (.throw "CWalletTx::MarkSpent() : nOut out of range")
    else .ok { w with mapWallet :=
      w.mapWallet.insert txin.prevout.hash (coin.markSpent txin.prevout.n.toNat) }

/-- `CommitTransaction`, up to `AcceptToMemoryPool`, whose failure does not undo it. -/
def commitTransaction (wtxNew : CWalletTx) : Check CWallet :=
  wtxNew.tx.vin.foldlM commitCoin (w.addToWallet P s.tree.mapBlockIndex s.nAdjustedTime wtxNew)

/-! ## `ReacceptWalletTransactions` -/

/-- One output of a record against the index. -/
def reacceptOutput (txindex : CTxIndex) (r : CWalletTx × Bool) (i : Nat) : CWalletTx × Bool :=
  if r.1.isSpent i then r
  else match txindex.vSpent[i]?, r.1.tx.vout[i]? with
    | some pos, some txout =>
      if !pos.isNull && w.isMineOut txout then (r.1.markSpent i, true) else r
    | _, _ => r

/-- One record; the second part says whether a spend was found that the wallet did not know.  A record
    without an index entry is offered to the memory pool and stays as it is. -/
def reaccepted (wtx : CWalletTx) : CWalletTx × Bool :=
  if (wtx.tx.isCoinBase && wtx.isSpent 0) || (wtx.tx.isCoinStake && wtx.isSpent 1) then (wtx, false)
  else match s.txdb.readTxIndex (P.getHash wtx.tx) with
    | none => (wtx, false)
    | some txindex =>
      if txindex.vSpent.length ≠ wtx.tx.vout.length then (wtx, false)
      else (List.range txindex.vSpent.length).foldl (w.reacceptOutput txindex) (wtx, false)

/-- The loop over the records; each looks at itself only. -/
def reacceptPass : CWallet × Bool :=
  ({ w with mapWallet := (w.mapWallet.entries.foldl (fun m e => m.insert e.1 (w.reaccepted P s e.2).1)
      w.mapWallet) },
    w.mapWallet.entries.any fun e => (w.reaccepted P s e.2).2)

/-- What a scan from genesis does to the wallet. -/
def rescan : Check (CWallet × Nat) :=
  w.scanForWalletTransactions P s.globals s.tree.mapBlockIndex s.mem keys false s.pindexGenesisBlock

/-- As long as a pass finds a spend that was missing, and the scan finds transactions. -/
def reacceptWalletTransactions : Nat → CWallet → Check CWallet
  | 0, _ => .error (.throw "ReacceptWalletTransactions() : the scans do not end")
  | fuel + 1, w =>
    let r := w.reacceptPass P s
    if r.2 then do
      let scanned ← r.1.rescan P s keys
      if scanned.2 ≠ 0 then reacceptWalletTransactions fuel scanned.1 else return scanned.1
    else .ok r.1

/-! ## What is spent -/

/-- Transaction `hash` of the wallet spends the wallet's own output `o` of another transaction. -/
def SpendsOwn (hash : Uint256) (o : COutPoint) : Prop :=
  ∃ wtx, w.mapWallet.lookup hash = some wtx ∧ o ∈ wtx.tx.prevouts ∧ o.hash ≠ hash ∧
    (w.ownOutput o).isSome = true

/-- The flag of output `o`. -/
def isSpentOut (o : COutPoint) : Bool :=
  ((w.mapWallet.lookup o.hash).map fun wtx => wtx.isSpent o.n.toNat).getD false

/-- The index shows the spend to `ReacceptWalletTransactions`, which passes over a coinbase whose first
    output is spent and over a coinstake whose second is. -/
def ShownSpent (o : COutPoint) : Prop :=
  ∃ wtx txindex pos, w.mapWallet.lookup o.hash = some wtx ∧
    s.txdb.readTxIndex (P.getHash wtx.tx) = some txindex ∧
    txindex.vSpent.length = wtx.tx.vout.length ∧ txindex.vSpent[o.n.toNat]? = some pos ∧
    pos.isNull = false ∧ ¬ (wtx.tx.isCoinBase = true ∧ o.n.toNat ≠ 0) ∧
    ¬ (wtx.tx.isCoinStake = true ∧ o.n.toNat ≠ 1)

end CWallet

/-- In the memory pool or on the main chain. -/
def NodeState.live (s : NodeState) (hash : Uint256) : Prop :=
  (s.mempool.mapTx.lookup hash).isSome = true ∨ (s.txdb.readTxIndex hash).isSome = true

/-- **No spend is missed**: of what a live transaction of the wallet spends, the wallet's own outputs are
    flagged. -/
def SpentSeen (s : NodeState) (w : CWallet) : Prop :=
  ∀ hash, s.live hash → ∀ o, w.SpendsOwn hash o → w.isSpentOut o = true

/-! ## Runs -/

/-- What is called on a wallet. -/
inductive WalletOp where
  | addToWallet (wtxIn : CWalletTx)
  | addToWalletIfInvolvingMe (tx : CTransaction) (pblock : Option CBlock) (fUpdate : Bool)
  | walletUpdateSpent (tx : CTransaction) (fBlock : Bool)
  | commitTransaction (wtxNew : CWalletTx)
  | reacceptWalletTransactions (fuel : Nat)

namespace WalletOp

variable (P : Primitives) (s : NodeState) (keys : WalletKeys)

def run (w : CWallet) : WalletOp → Check CWallet
  | addToWallet wtxIn => .ok (w.addToWallet P s.tree.mapBlockIndex s.nAdjustedTime wtxIn)
  | addToWalletIfInvolvingMe tx pblock fUpdate =>
    w.addToWalletIfInvolvingMe P s.tree.mapBlockIndex s.nAdjustedTime tx pblock fUpdate
  | walletUpdateSpent tx fBlock => .ok (w.walletUpdateSpent P tx fBlock)
  | commitTransaction wtxNew => w.commitTransaction P s wtxNew
  | reacceptWalletTransactions fuel => CWallet.reacceptWalletTransactions P s keys fuel w

/-! ## What the wallet has not been told of -/

/-- The wallet, now `w`, has been told of transaction `told`; where it has recorded it, as a new one or in
    a block, what spends from it is stale. -/
def staleAfter (w : CWallet) (told : Uint256) (fHeard fRecorded : Prop) (stale : Set Uint256) :
    Set Uint256 :=
  { hash | ¬ (hash = told ∧ fHeard) ∧
    (hash ∈ stale ∨ fRecorded ∧ ∃ o, w.SpendsOwn hash o ∧ o.hash = told) }

/-- From `w` to `w'` by `AddToWallet`. -/
def staleAdd (w w' : CWallet) (wtxIn : CWalletTx) (stale : Set Uint256) : Set Uint256 :=
  staleAfter w' (P.getHash wtxIn.tx) True
    (w.mapWallet.lookup (P.getHash wtxIn.tx) = none ∨ wtxIn.hashBlock ≠ 0) stale

/-- From `w` to `w'` by `AddToWalletIfInvolvingMe`, which passes over a transaction the wallet has unless
    it is to update it. -/
def staleInvolving (w w' : CWallet) (tx : CTransaction) (pblock : Option CBlock) (fUpdate : Bool)
    (stale : Set Uint256) : Set Uint256 :=
  if (w.mapWallet.lookup (P.getHash tx)).isSome && !fUpdate then stale
  else staleAfter w' (P.getHash tx) True
    (w.mapWallet.lookup (P.getHash tx) = none ∨ ∃ b ∈ pblock, b.getHash P ≠ 0) stale

/-- Through what a scan offers, from `w` on. -/
def staleScan : List (CBlock × CTransaction) → CWallet → Set Uint256 → Set Uint256
  | [], _, stale => stale
  | (b, tx) :: offers, w, stale =>
    match w.addToWalletIfInvolvingMe P s.tree.mapBlockIndex s.nAdjustedTime tx (some b) false with
    | .error _ => stale
    | .ok w' => staleScan offers w' (staleInvolving P w w' tx (some b) false stale)

/-- What a scan from genesis offers. -/
def offers : List (CBlock × CTransaction) :=
  match s.pindexGenesisBlock with
  | [] => []
  | pindex :: _ => CWallet.offersFrom s.globals s.tree.mapBlockIndex s.mem keys
      (s.tree.mapBlockIndex.entries.length + 1) pindex

/-- Through the scans of `ReacceptWalletTransactions`. -/
def staleScans : Nat → CWallet → Set Uint256 → Set Uint256
  | 0, _, stale => stale
  | fuel + 1, w, stale =>
    let r := w.reacceptPass P s
    if r.2 then
      match r.1.rescan P s keys with
      | .error _ => stale
      | .ok scanned =>
        let stale := staleScan P s (offers s keys) r.1 stale
        if scanned.2 ≠ 0 then staleScans fuel scanned.1 stale else stale
    else stale

/-- What is stale once the operation has taken the wallet from `w` to `w'`.  Re-acceptance takes up the
    spends that the index shows. -/
def stale (w w' : CWallet) (stale : Set Uint256) : WalletOp → Set Uint256
  | addToWallet wtxIn => staleAdd P w w' wtxIn stale
  | addToWalletIfInvolvingMe tx pblock fUpdate => staleInvolving P w w' tx pblock fUpdate stale
  | walletUpdateSpent tx fBlock => staleAfter w' (P.getHash tx)
      (∀ wtx, w.mapWallet.lookup (P.getHash tx) = some wtx → wtx.tx = tx) (fBlock = true) stale
  | commitTransaction wtxNew =>
    staleAdd P w (w.addToWallet P s.tree.mapBlockIndex s.nAdjustedTime wtxNew) wtxNew stale
  | reacceptWalletTransactions fuel => { hash | hash ∈ staleScans P s keys fuel w stale ∧
      ∃ o, w'.SpendsOwn hash o ∧ ¬ w'.ShownSpent P s o }

end WalletOp

/-- The life of a wallet, from an empty one, at a node that may do anything in between. -/
inductive WalletRun (P : Primitives) (keys : WalletKeys) : NodeState → CWallet → Set Uint256 → Prop where
  | start {s : NodeState} {w : CWallet} (hempty : ∀ hash, w.mapWallet.lookup hash = none) :
      WalletRun P keys s w ∅
  | node {s s' : NodeState} {w : CWallet} {stale : Set Uint256} (hrun : WalletRun P keys s w stale) :
      WalletRun P keys s' w stale
  | call {s : NodeState} {w w' : CWallet} {stale : Set Uint256} (op : WalletOp)
      (hrun : WalletRun P keys s w stale) (hop : op.run P s keys w = .ok w') :
      WalletRun P keys s w' (op.stale P s keys w w' stale)

/-! ## The invariant -/

/-- Every transaction is under its hash, and what the transactions that are not stale spend is flagged. -/
structure Heard (P : Primitives) (w : CWallet) (stale : Set Uint256) : Prop where
  keyed : CWallet.Keyed P w
  flagged : ∀ hash, hash ∉ stale → ∀ o, w.SpendsOwn hash o → w.isSpentOut o = true

namespace CWallet

section Flags

variable {P : Primitives} {w w' : CWallet} {o : COutPoint}

/-- The same transactions, and no flag cleared. -/
structure FlagsUp (w w' : CWallet) : Prop extends SameTxs w w' where
  up : ∀ o, (w.ownOutput o).isSome = true → w.isSpentOut o = true → w'.isSpentOut o = true

theorem SameTxs.spendsOwn (h : SameTxs w w') {hash : Uint256} :
    w'.SpendsOwn hash o ↔ w.SpendsOwn hash o := by
  have htx := h.txs hash
  unfold SpendsOwn
  rw [h.ownOutput]
  constructor
  · rintro ⟨wtx', hwtx', hmem, hrest⟩
    rw [hwtx'] at htx
    obtain ⟨wtx, hwtx, heq⟩ := Option.map_eq_some_iff.mp htx.symm
    exact ⟨wtx, hwtx, by rw [heq]; exact hmem, hrest⟩
  · rintro ⟨wtx, hwtx, hmem, hrest⟩
    rw [hwtx] at htx
    obtain ⟨wtx', hwtx', heq⟩ := Option.map_eq_some_iff.mp htx
    exact ⟨wtx', hwtx', by rw [heq]; exact hmem, hrest⟩

theorem FlagsUp.refl (w : CWallet) : FlagsUp w w := ⟨⟨rfl, rfl, fun _ => rfl⟩, fun _ _ h => h⟩

theorem FlagsUp.trans {w'' : CWallet} (h : FlagsUp w w') (h' : FlagsUp w' w'') : FlagsUp w w'' where
  isMine := h'.isMine.trans h.isMine
  nMinimumInputValue := h'.nMinimumInputValue.trans h.nMinimumInputValue
  txs hash := (h'.txs hash).trans (h.txs hash)
  up o hown hspent := h'.up o (by rw [h.toSameTxs.ownOutput]; exact hown) (h.up o hown hspent)

/-- An own output is one of a record. -/
theorem ownOutput_isSome : (w.ownOutput o).isSome = true ↔ ∃ wtx txout,
    w.mapWallet.lookup o.hash = some wtx ∧ wtx.tx.vout[o.n.toNat]? = some txout ∧
      w.isMine txout.scriptPubKey = true := by
  rw [Option.isSome_iff_exists]
  constructor
  · rintro ⟨txout, h⟩
    obtain ⟨wtx, hrest⟩ := ownOutput_eq_some.mp h
    exact ⟨wtx, txout, hrest⟩
  · rintro ⟨wtx, txout, hrest⟩
    exact ⟨txout, ownOutput_eq_some.mpr ⟨wtx, hrest⟩⟩

/-- A flag after `WalletUpdateSpent`, unless it is one of those that a block clears. -/
theorem isSpentOut_walletUpdateSpent {tx : CTransaction} {fBlock : Bool}
    (hown : (w.ownOutput o).isSome = true) (hkeeps : ¬ (P.getHash tx = o.hash ∧ fBlock = true)) :
    (w.walletUpdateSpent P tx fBlock).isSpentOut o = true ↔
      o ∈ tx.prevouts ∨ w.isSpentOut o = true := by
  obtain ⟨wtx, txout, hwtx, hout, -⟩ := ownOutput_isSome.mp hown
  obtain ⟨wtx', hwtx', -, hspent⟩ := walletUpdateSpent_record (P := P) tx fBlock hwtx
  have hn : o.n.toNat < wtx.tx.vout.length := (List.getElem?_eq_some_iff.mp hout).1
  unfold isSpentOut
  rw [hwtx', hwtx]
  show wtx'.isSpent o.n.toNat = true ↔ o ∈ tx.prevouts ∨ wtx.isSpent o.n.toNat = true
  rw [hspent _ hn, if_neg fun ⟨h, h', _⟩ => hkeeps ⟨h, h'⟩, Bool.or_eq_true, decide_eq_true_eq,
    mem_spendsOn]
  refine or_congr_left ⟨?_, fun hmem => ?_⟩
  · rintro ⟨txin, hmem, hhash, hn, -⟩
    have hkey : txin.prevout = o := COutPoint.key_injective (Prod.ext hhash hn)
    rw [← hkey]
    exact List.mem_map_of_mem hmem
  · obtain ⟨txin, htxin, rfl⟩ := List.mem_map.mp hmem
    exact ⟨txin, htxin, rfl, rfl, hown⟩

/-- Told of a transaction outside a block, the wallet only sets flags. -/
theorem walletUpdateSpent_flagsUp (tx : CTransaction) : FlagsUp w (w.walletUpdateSpent P tx false) where
  toSameTxs := (walletUpdateSpent_applies tx false).sameTxs
  up _ hown hspent :=
    (isSpentOut_walletUpdateSpent hown fun h => absurd h.2 Bool.false_ne_true).mpr (Or.inr hspent)

end Flags
end CWallet

open CWallet

/-! ## Being told of a transaction -/

section Told

variable {P : Primitives} {w w' w₁ : CWallet} {tx : CTransaction} {fBlock : Bool} {fHeard fRecorded : Prop}
  {stale : Set Uint256}

theorem Heard.flagsUp (h : Heard P w stale) (hup : FlagsUp w w') :
    Heard P w' stale where
  keyed := h.keyed.of_sameTxs hup.toSameTxs
  flagged hash hstale o hspends := by
    have hspends := hup.toSameTxs.spendsOwn.mp hspends
    exact hup.up o hspends.choose_spec.2.2.2 (h.flagged hash hstale o hspends)

/-- **The step.**  `w₁` is the wallet with the record of the transaction made or merged, if there is one;
    then `WalletUpdateSpent` runs. -/
theorem Heard.told (h : Heard P w stale) (hk : Keyed P w₁) (hmine : w₁.isMine = w.isMine)
    (hother : ∀ hash ≠ P.getHash tx, w₁.mapWallet.lookup hash = w.mapWallet.lookup hash)
    (hself : fHeard → ∀ wtx, w₁.mapWallet.lookup (P.getHash tx) = some wtx → wtx.tx = tx)
    (hunheard : ¬ fHeard → w₁ = w)
    (hkept : ¬ fRecorded → fBlock = false ∧ ∀ wtx₁, w₁.mapWallet.lookup (P.getHash tx) = some wtx₁ →
      ∃ wtx, w.mapWallet.lookup (P.getHash tx) = some wtx ∧ wtx₁.tx = wtx.tx ∧
        ∀ n < wtx.tx.vout.length, wtx.isSpent n = true → wtx₁.isSpent n = true) :
    Heard P (w₁.walletUpdateSpent P tx fBlock) (WalletOp.staleAfter (w₁.walletUpdateSpent P tx fBlock)
      (P.getHash tx) fHeard fRecorded stale) := by
  have hsame := (walletUpdateSpent_applies (P := P) (w := w₁) tx fBlock).sameTxs
  refine ⟨hk.of_sameTxs hsame, fun hash hstale o hspends => ?_⟩
  have hspends₁ := hsame.spendsOwn.mp hspends
  obtain ⟨wtx, hwtx, hmem, hne, hown⟩ := hspends₁
  by_cases htold : hash = P.getHash tx ∧ fHeard
  · -- it has just been told of the spend, and the outputs cleared were other ones
    obtain ⟨rfl, hheard⟩ := htold
    refine (isSpentOut_walletUpdateSpent hown fun hclear => hne hclear.1.symm).mpr (Or.inl ?_)
    rw [← hself hheard wtx hwtx]
    exact hmem
  · have hnot : hash ∉ stale ∧ ¬ (fRecorded ∧ o.hash = P.getHash tx) := by
      by_contra hcon
      rw [not_and_or, not_not, not_not] at hcon
      refine hstale ⟨htold, hcon.imp_right fun hrec => ⟨hrec.1, o, hspends, hrec.2⟩⟩
    -- the record of the spender is the one there was
    have hwtx₀ : w.mapWallet.lookup hash = some wtx := by
      by_cases heq : hash = P.getHash tx
      · rw [← hunheard fun hheard => htold ⟨heq, hheard⟩]
        exact hwtx
      · rw [← hother hash heq]
        exact hwtx
    obtain ⟨prev₁, txout, hprev₁, hout, hmine₁⟩ := ownOutput_isSome.mp hown
    -- and so is that of the output, but for flags that were set
    have hprev : ∃ prev, w.mapWallet.lookup o.hash = some prev ∧ prev₁.tx = prev.tx ∧
        ∀ n < prev.tx.vout.length, prev.isSpent n = true → prev₁.isSpent n = true := by
      by_cases heq : o.hash = P.getHash tx
      · rw [heq] at hprev₁ ⊢
        exact (hkept fun hrec => hnot.2 ⟨hrec, heq⟩).2 prev₁ hprev₁
      · exact ⟨prev₁, by rw [← hother _ heq]; exact hprev₁, rfl, fun _ _ h => h⟩
    obtain ⟨prev, hprev, htx, hup⟩ := hprev
    rw [htx] at hout
    have hold := h.flagged hash hnot.1 o ⟨wtx, hwtx₀, hmem, hne,
      ownOutput_isSome.mpr ⟨prev, txout, hprev, hout, by rw [← hmine]; exact hmine₁⟩⟩
    have hkeeps : ¬ (P.getHash tx = o.hash ∧ fBlock = true) := by
      rintro ⟨heq, hblock⟩
      have := (hkept fun hrec => hnot.2 ⟨hrec, heq.symm⟩).1
      rw [hblock] at this
      cases this
    refine (isSpentOut_walletUpdateSpent hown hkeeps).mpr (Or.inr ?_)
    unfold isSpentOut at hold ⊢
    rw [hprev] at hold
    rw [hprev₁]
    exact hup _ (List.getElem?_eq_some_iff.mp hout).1 hold

theorem merge_tx (wtx wtxIn : CWalletTx) : (wtx.merge wtxIn).tx = wtx.tx := by
  unfold CWalletTx.merge CWalletTx.updateSpent
  dsimp only
  split <;> split <;> split <;> rfl

/-- A merge only sets flags. -/
theorem merge_isSpent {wtx wtxIn : CWalletTx} {n : Nat} (h : wtx.isSpent n = true) :
    (wtx.merge wtxIn).isSpent n = true := by
  have hflags : (wtx.merge wtxIn).vfSpent =
      wtx.vfSpent.mapIdx fun i fSpent => fSpent || wtxIn.vfSpent.getD i false := by
    unfold CWalletTx.merge CWalletTx.updateSpent
    dsimp only
    split <;> split <;> split <;> rfl
  unfold CWalletTx.isSpent at h ⊢
  rw [List.getD_eq_getElem?_getD] at h
  rw [hflags, List.getD_eq_getElem?_getD, List.getElem?_mapIdx]
  cases hn : wtx.vfSpent[n]? with
  | none => rw [hn] at h; cases h
  | some fSpent =>
    rw [hn] at h
    have hset : fSpent = true := h
    rw [hset]
    rfl

/-- `AddToWallet`. -/
theorem Heard.addToWallet (h : Heard P w stale) (mapBlockIndex : StdMap Uint256 BlockPtr)
    (nAdjustedTime : Int) (wtxIn : CWalletTx) :
    Heard P (w.addToWallet P mapBlockIndex nAdjustedTime wtxIn) (WalletOp.staleAdd P w
      (w.addToWallet P mapBlockIndex nAdjustedTime wtxIn) wtxIn stale) := by
  unfold WalletOp.staleAdd
  cases hold : w.mapWallet.lookup (P.getHash wtxIn.tx) with
  | none =>
    have hadd : w.addToWallet P mapBlockIndex nAdjustedTime wtxIn =
        (w.insertNew mapBlockIndex nAdjustedTime (P.getHash wtxIn.tx) wtxIn).walletUpdateSpent P
          wtxIn.tx (decide (wtxIn.hashBlock ≠ 0)) := by
      unfold CWallet.addToWallet
      simp only [hold]
    have hnew : ∀ wtx, (w.insertNew mapBlockIndex nAdjustedTime (P.getHash wtxIn.tx)
        wtxIn).mapWallet.lookup (P.getHash wtxIn.tx) = some wtx → wtx.tx = wtxIn.tx := by
      intro wtx hwtx
      unfold CWallet.insertNew at hwtx
      rw [AList.lookup_insert] at hwtx
      cases hwtx
      rfl
    have hother : ∀ hash ≠ P.getHash wtxIn.tx, (w.insertNew mapBlockIndex nAdjustedTime
        (P.getHash wtxIn.tx) wtxIn).mapWallet.lookup hash = w.mapWallet.lookup hash := by
      intro hash hne
      unfold CWallet.insertNew
      rw [AList.lookup_insert_ne hne]
    have hk : Keyed P (w.insertNew mapBlockIndex nAdjustedTime (P.getHash wtxIn.tx) wtxIn) := by
      intro hash wtx hwtx
      by_cases heq : hash = P.getHash wtxIn.tx
      · rw [heq] at hwtx ⊢
        rw [hnew wtx hwtx]
      · rw [hother hash heq] at hwtx
        exact h.keyed hash wtx hwtx
    rw [hadd]
    exact h.told hk rfl hother (fun _ => hnew) (fun hno => absurd trivial hno)
      (fun hno => absurd (Or.inl rfl) hno)
  | some wtx =>
    have hadd : w.addToWallet P mapBlockIndex nAdjustedTime wtxIn =
        (w.modify (P.getHash wtxIn.tx) fun wtx => wtx.merge wtxIn).walletUpdateSpent P wtx.tx
          (decide (wtxIn.hashBlock ≠ 0)) := by
      unfold CWallet.addToWallet
      simp only [hold]
    have hhash := h.keyed _ wtx hold
    have hmodify : w.modify (P.getHash wtxIn.tx) (fun wtx => wtx.merge wtxIn) =
        { w with mapWallet := w.mapWallet.insert (P.getHash wtxIn.tx) (wtx.merge wtxIn) } := by
      unfold CWallet.modify
      rw [hold]
    have hself : ∀ wtx₁, (w.modify (P.getHash wtxIn.tx) fun wtx => wtx.merge wtxIn).mapWallet.lookup
        (P.getHash wtx.tx) = some wtx₁ → wtx₁ = wtx.merge wtxIn := by
      intro wtx₁ hwtx₁
      rw [hmodify, hhash, AList.lookup_insert] at hwtx₁
      exact (Option.some.inj hwtx₁).symm
    have hother : ∀ hash ≠ P.getHash wtx.tx, (w.modify (P.getHash wtxIn.tx) fun wtx =>
        wtx.merge wtxIn).mapWallet.lookup hash = w.mapWallet.lookup hash := by
      intro hash hne
      rw [hhash] at hne
      rw [hmodify, AList.lookup_insert_ne hne]
    have hk : Keyed P (w.modify (P.getHash wtxIn.tx) fun wtx => wtx.merge wtxIn) := by
      intro hash wtx₁ hwtx₁
      by_cases heq : hash = P.getHash wtx.tx
      · rw [heq] at hwtx₁ ⊢
        rw [hself wtx₁ hwtx₁, merge_tx]
      · rw [hother hash heq] at hwtx₁
        exact h.keyed hash wtx₁ hwtx₁
    have hmine : (w.modify (P.getHash wtxIn.tx) fun wtx => wtx.merge wtxIn).isMine = w.isMine := by
      rw [hmodify]
    generalize w.modify (P.getHash wtxIn.tx) (fun wtx => wtx.merge wtxIn) = w₁
      at hadd hself hother hk hmine
    rw [hadd, ← hhash]
    refine h.told hk hmine hother (fun _ wtx₁ hwtx₁ => ?_) (fun hno => absurd trivial hno)
      (fun hno => ⟨?_, fun wtx₁ hwtx₁ => ?_⟩)
    · rw [hself wtx₁ hwtx₁, merge_tx]
    · exact decide_eq_false fun hblock => hno (Or.inr hblock)
    · refine ⟨wtx, by rw [hhash]; exact hold, ?_, fun n _ hspent => ?_⟩
      · rw [hself wtx₁ hwtx₁, merge_tx]
      · rw [hself wtx₁ hwtx₁]
        exact merge_isSpent hspent

/-- What `AddToWalletIfInvolvingMe` comes to: nothing, `AddToWallet`, or `WalletUpdateSpent`. -/
theorem addToWalletIfInvolvingMe_cases {mapBlockIndex : StdMap Uint256 BlockPtr} {nAdjustedTime : Int}
    {tx : CTransaction} {pblock : Option CBlock} {fUpdate : Bool}
    (hok : w.addToWalletIfInvolvingMe P mapBlockIndex nAdjustedTime tx pblock fUpdate = .ok w') :
    ((w.mapWallet.lookup (P.getHash tx)).isSome && !fUpdate) = true ∧ w' = w ∨
    ((w.mapWallet.lookup (P.getHash tx)).isSome && !fUpdate) = false ∧
      w.isAdded P fUpdate tx = .ok true ∧ w' = w.addToWallet P mapBlockIndex nAdjustedTime ((pblock.map fun b =>
        (CWalletTx.ofTx tx).setMerkleBranch P b).getD (CWalletTx.ofTx tx)) ∨
    w.mapWallet.lookup (P.getHash tx) = none ∧ w' = w.walletUpdateSpent P tx false := by
  unfold CWallet.addToWalletIfInvolvingMe at hok
  unfold CWallet.isAdded
  dsimp only at hok ⊢
  by_cases hskip : ((w.mapWallet.lookup (P.getHash tx)).isSome && !fUpdate) = true
  · rw [if_pos hskip] at hok
    cases hok
    exact Or.inl ⟨hskip, rfl⟩
  · rw [if_neg hskip] at hok
    have hskip : ((w.mapWallet.lookup (P.getHash tx)).isSome && !fUpdate) = false := by simpa using hskip
    rw [if_neg (by rw [hskip]; exact Bool.false_ne_true)]
    by_cases hknown : ((w.mapWallet.lookup (P.getHash tx)).isSome || w.isMineTx tx) = true
    · rw [if_pos hknown] at hok
      cases hok
      exact Or.inr (Or.inl ⟨hskip, if_pos hknown, rfl⟩)
    · rw [if_neg hknown] at hok
      obtain ⟨fInvolvingMe, hfrom, hok⟩ := bind_ok.mp hok
      cases fInvolvingMe with
      | true =>
        cases hok
        exact Or.inr (Or.inl ⟨hskip, by rw [if_neg hknown, hfrom], rfl⟩)
      | false =>
        cases hok
        rw [Bool.or_eq_true, not_or] at hknown
        exact Or.inr (Or.inr ⟨by simpa using hknown.1, rfl⟩)

/-- `AddToWalletIfInvolvingMe`. -/
theorem Heard.involving (h : Heard P w stale) {mapBlockIndex : StdMap Uint256 BlockPtr}
    {nAdjustedTime : Int} {tx : CTransaction} {pblock : Option CBlock} {fUpdate : Bool}
    (hok : w.addToWalletIfInvolvingMe P mapBlockIndex nAdjustedTime tx pblock fUpdate = .ok w') :
    Heard P w' (WalletOp.staleInvolving P w w' tx pblock fUpdate stale) := by
  unfold WalletOp.staleInvolving
  rcases addToWalletIfInvolvingMe_cases hok with ⟨hskip, rfl⟩ | ⟨hskip, -, rfl⟩ | ⟨hnone, rfl⟩
  · rw [if_pos hskip]
    exact h
  · rw [if_neg (by rw [hskip]; exact Bool.false_ne_true)]
    have hwtxIn : ((pblock.map fun b => (CWalletTx.ofTx tx).setMerkleBranch P b).getD
        (CWalletTx.ofTx tx)).tx = tx ∧ (((pblock.map fun b =>
          (CWalletTx.ofTx tx).setMerkleBranch P b).getD (CWalletTx.ofTx tx)).hashBlock ≠ 0 ↔
            ∃ b ∈ pblock, b.getHash P ≠ 0) := by
      cases pblock with
      | none => exact ⟨rfl, by simp [CWalletTx.ofTx]⟩
      | some b => exact ⟨setMerkleBranch_tx b _, by simp [setMerkleBranch_hashBlock]⟩
    have hadd := h.addToWallet mapBlockIndex nAdjustedTime ((pblock.map fun b =>
      (CWalletTx.ofTx tx).setMerkleBranch P b).getD (CWalletTx.ofTx tx))
    unfold WalletOp.staleAdd at hadd
    rw [hwtxIn.1, hwtxIn.2] at hadd
    exact hadd
  · rw [if_neg (by rw [hnone]; simp)]
    refine h.told h.keyed rfl (fun _ _ => rfl) (fun _ wtx hwtx => ?_) (fun hno => absurd trivial hno)
      (fun hno => absurd (Or.inl hnone) hno)
    rw [hnone] at hwtx
    cases hwtx

/-! ## `CommitTransaction` -/

theorem isSpentOut_insert_mark {hash : Uint256} {coin : CWalletTx} {n : Nat}
    (hcoin : w.mapWallet.lookup hash = some coin) {o : COutPoint} (hown : (w.ownOutput o).isSome = true)
    (hspent : w.isSpentOut o = true) :
    isSpentOut { w with mapWallet := w.mapWallet.insert hash (coin.markSpent n) } o = true := by
  obtain ⟨wtx, txout, hwtx, hout, -⟩ := ownOutput_isSome.mp hown
  unfold isSpentOut at hspent ⊢
  show (((w.mapWallet.insert hash (coin.markSpent n)).lookup o.hash).map _).getD false = true
  rw [lookup_insert_eq_ite]
  by_cases heq : hash = o.hash
  · rw [← heq, hcoin] at hwtx hspent
    cases hwtx
    rw [if_pos heq]
    show (coin.mark true n).isSpent o.n.toNat = true
    rw [isSpent_mark true (List.getElem?_eq_some_iff.mp hout).1]
    split
    · rfl
    · exact hspent
  · rw [if_neg heq]
    exact hspent

theorem commitCoin_flagsUp {txin : CTxIn} (hok : commitCoin w txin = .ok w') : FlagsUp w w' := by
  unfold commitCoin at hok
  split at hok
  · cases hok
  · rename_i coin hcoin
    split at hok
    · cases hok
    · cases hok
      refine ⟨⟨rfl, rfl, fun hash => ?_⟩, fun o hown hspent => isSpentOut_insert_mark hcoin hown hspent⟩
      show ((w.mapWallet.insert txin.prevout.hash _).lookup hash).map CWalletTx.tx = _
      rw [lookup_insert_eq_ite]
      by_cases heq : txin.prevout.hash = hash
      · rw [if_pos heq, ← heq, hcoin]
        rfl
      · rw [if_neg heq]

theorem Heard.commit (h : Heard P w stale) {s : NodeState} {wtxNew : CWalletTx}
    (hok : w.commitTransaction P s wtxNew = .ok w') :
    Heard P w' (WalletOp.staleAdd P w
      (w.addToWallet P s.tree.mapBlockIndex s.nAdjustedTime wtxNew) wtxNew stale) := by
  have hadd := h.addToWallet s.tree.mapBlockIndex s.nAdjustedTime wtxNew
  refine hadd.flagsUp ?_
  exact foldlM_ok_inv (P := FlagsUp (w.addToWallet P s.tree.mapBlockIndex s.nAdjustedTime wtxNew))
    (FlagsUp.refl _) (fun txin _ v v' hv hstep => hv.trans (commitCoin_flagsUp hstep)) hok

end Told

/-! ## `ReacceptWalletTransactions` -/

section Reaccept

variable {P : Primitives} {s : NodeState} {keys : WalletKeys} {w w' : CWallet} {stale : Set Uint256}

/-- What looking at some outputs has done to a record: those are flagged that are the wallet's own and
    that the index has spent. -/
structure LookedAt (w : CWallet) (txindex : CTxIndex) (l : List Nat) (wtx wtx' : CWalletTx) : Prop where
  tx_eq : wtx'.tx = wtx.tx
  up : ∀ n < wtx.tx.vout.length, wtx.isSpent n = true → wtx'.isSpent n = true
  found : ∀ n ∈ l, ∀ pos txout, txindex.vSpent[n]? = some pos → pos.isNull = false →
    wtx.tx.vout[n]? = some txout → w.isMine txout.scriptPubKey = true → wtx'.isSpent n = true

theorem reacceptOutput_lookedAt (w : CWallet) (txindex : CTxIndex) (r : CWalletTx × Bool) (i : Nat) :
    LookedAt w txindex [i] r.1 (w.reacceptOutput txindex r i).1 := by
  -- left alone, the record is as it should be
  have hsame : (∀ pos txout, txindex.vSpent[i]? = some pos → pos.isNull = false →
      r.1.tx.vout[i]? = some txout → w.isMine txout.scriptPubKey = true → r.1.isSpent i = true) →
      LookedAt w txindex [i] r.1 r.1 := fun h =>
    ⟨rfl, fun _ _ h => h, fun n hn => by rw [List.mem_singleton.mp hn]; exact h⟩
  unfold reacceptOutput
  by_cases hspent : r.1.isSpent i = true
  · rw [if_pos hspent]
    exact hsame fun _ _ _ _ _ _ => hspent
  · rw [if_neg hspent]
    cases hpos : txindex.vSpent[i]? with
    | none => exact hsame fun _ _ h => by rw [hpos] at h; cases h
    | some pos =>
      cases hout : r.1.tx.vout[i]? with
      | none => exact hsame fun _ _ _ _ h => by rw [hout] at h; cases h
      | some txout =>
        dsimp only
        by_cases hown : (!pos.isNull && w.isMineOut txout) = true
        · rw [if_pos hown]
          have hmark : ∀ n < r.1.tx.vout.length,
              (r.1.markSpent i).isSpent n = if i = n then true else r.1.isSpent n :=
            fun n hn => isSpent_mark true hn
          refine ⟨rfl, fun n hn hset => by rw [hmark n hn, hset, ite_self], fun n hn => ?_⟩
          rw [List.mem_singleton.mp hn]
          intro _ _ _ _ _ _
          rw [hmark i (List.getElem?_eq_some_iff.mp hout).1, if_pos rfl]
        · rw [if_neg hown]
          refine hsame fun pos' txout' hpos' hnull hout' hmine => ?_
          rw [hpos] at hpos'
          rw [hout] at hout'
          cases hpos'
          cases hout'
          exact absurd (by rw [hnull]; exact hmine) hown

theorem reacceptOutputs_lookedAt (w : CWallet) (txindex : CTxIndex) (l : List Nat)
    (r : CWalletTx × Bool) :
    LookedAt w txindex l r.1 (l.foldl (w.reacceptOutput txindex) r).1 := by
  induction l generalizing r with
  | nil => exact ⟨rfl, fun _ _ h => h, fun _ hn => absurd hn List.not_mem_nil⟩
  | cons i l ih =>
    have hstep := reacceptOutput_lookedAt w txindex r i
    rw [List.foldl_cons]
    have hrest := ih (w.reacceptOutput txindex r i)
    refine ⟨hrest.tx_eq.trans hstep.tx_eq, fun n hn h => ?_, fun n hn pos txout hpos hnull hout hmine => ?_⟩
    · exact hrest.up n (by rw [hstep.tx_eq]; exact hn) (hstep.up n hn h)
    · rcases List.mem_cons.mp hn with rfl | hn
      · exact hrest.up n (by rw [hstep.tx_eq]; exact (List.getElem?_eq_some_iff.mp hout).1)
          (hstep.found n List.mem_cons_self pos txout hpos hnull hout hmine)
      · exact hrest.found n hn pos txout hpos hnull (by rw [hstep.tx_eq]; exact hout) hmine

theorem reaccepted_up (wtx : CWalletTx) : (w.reaccepted P s wtx).1.tx = wtx.tx ∧
    ∀ n < wtx.tx.vout.length, wtx.isSpent n = true → (w.reaccepted P s wtx).1.isSpent n = true := by
  unfold reaccepted
  split
  · exact ⟨rfl, fun _ _ h => h⟩
  · split
    · exact ⟨rfl, fun _ _ h => h⟩
    · split
      · exact ⟨rfl, fun _ _ h => h⟩
      · have h := reacceptOutputs_lookedAt w ‹CTxIndex› (List.range (‹CTxIndex›).vSpent.length) (wtx, false)
        exact ⟨h.tx_eq, h.up⟩

/-- A record after the pass. -/
theorem lookup_reacceptPass (hash : Uint256) : (w.reacceptPass P s).1.mapWallet.lookup hash =
    (w.mapWallet.lookup hash).map fun wtx => (w.reaccepted P s wtx).1 := by
  have hput := @foldl_put_lookup _ _ _ (StdMap Uint256 CWalletTx) CWalletTx
    (fun m k v => m.insert k (w.reaccepted P s v).1) (fun m hash => m.lookup hash)
    (fun wtx => (w.reaccepted P s wtx).1) (fun m k v k' => lookup_insert_eq_ite m k k' _) _
    w.mapWallet.nodupKeys w.mapWallet hash
  refine hput.trans ?_
  show ((w.mapWallet.lookup hash).map _).or (w.mapWallet.lookup hash) = _
  cases w.mapWallet.lookup hash <;> rfl

theorem reacceptPass_flagsUp : FlagsUp w (w.reacceptPass P s).1 := by
  refine ⟨⟨rfl, rfl, fun hash => ?_⟩, fun o hown hspent => ?_⟩
  · rw [lookup_reacceptPass, Option.map_map]
    refine congrArg (fun f => Option.map f _) (funext fun wtx => ?_)
    exact (reaccepted_up wtx).1
  · obtain ⟨wtx, txout, hwtx, hout, -⟩ := ownOutput_isSome.mp hown
    unfold isSpentOut at hspent ⊢
    rw [hwtx] at hspent
    rw [lookup_reacceptPass, hwtx]
    exact (reaccepted_up wtx).2 _ (List.getElem?_eq_some_iff.mp hout).1 hspent

/-- **What the index shows is flagged** after a pass. -/
theorem reacceptPass_shown {o : COutPoint} (hown : (w.ownOutput o).isSome = true)
    (hshown : w.ShownSpent P s o) : (w.reacceptPass P s).1.isSpentOut o = true := by
  obtain ⟨wtx, txout, hwtx, hout, hmine⟩ := ownOutput_isSome.mp hown
  obtain ⟨wtx', txindex, pos, hwtx', hindex, hlen, hpos, hnull, hcb, hcs⟩ := hshown
  rw [hwtx] at hwtx'
  cases hwtx'
  have hn := (List.getElem?_eq_some_iff.mp hout).1
  unfold isSpentOut
  rw [lookup_reacceptPass, hwtx]
  show (w.reaccepted P s wtx).1.isSpent o.n.toNat = true
  by_cases hspent : wtx.isSpent o.n.toNat = true
  · exact (reaccepted_up wtx).2 _ hn hspent
  · have hlooked : ((wtx.tx.isCoinBase && wtx.isSpent 0) || (wtx.tx.isCoinStake && wtx.isSpent 1)) =
        false := by
      rw [Bool.or_eq_false_iff, Bool.and_eq_false_iff, Bool.and_eq_false_iff]
      constructor
      · by_cases h : wtx.tx.isCoinBase = true
        · have h0 : o.n.toNat = 0 := by
            by_contra hne
            exact hcb ⟨h, hne⟩
          rw [h0] at hspent
          exact Or.inr (by simpa using hspent)
        · exact Or.inl (by simpa using h)
      · by_cases h : wtx.tx.isCoinStake = true
        · have h1 : o.n.toNat = 1 := by
            by_contra hne
            exact hcs ⟨h, hne⟩
          rw [h1] at hspent
          exact Or.inr (by simpa using hspent)
        · exact Or.inl (by simpa using h)
    unfold reaccepted
    rw [hlooked, if_neg Bool.false_ne_true, hindex]
    dsimp only
    rw [if_neg (not_not.mpr hlen)]
    exact (reacceptOutputs_lookedAt w txindex _ (wtx, false)).found _
      (List.mem_range.mpr (List.getElem?_eq_some_iff.mp hpos).1) pos txout hpos hnull hout hmine

/-! ## The scans of the re-acceptance -/

/-- The scan is a loop over what it offers. -/
theorem scanFrom_offers {g : Globals} {mapBlockIndex : StdMap Uint256 BlockPtr}
    {mem : Uint256 → BlockMem} {fUpdate : Bool} : ∀ {fuel : Nat} {pindex : CBlockIndex}
    {r r' : CWallet × Nat}, scanFrom P g mapBlockIndex mem keys fUpdate fuel pindex r = .ok r' →
      (offersFrom g mapBlockIndex mem keys fuel pindex).foldlM
        (fun r offer => scanTx P g mapBlockIndex fUpdate offer.1 r offer.2) r = .ok r' := by
  intro fuel
  induction fuel with
  | zero => intro pindex r r' h; cases h
  | succ fuel ih =>
    intro pindex r r' h
    unfold scanFrom at h
    obtain ⟨r₁, hblock, h⟩ := bind_ok.mp h
    unfold offersFrom
    rw [List.foldlM_append, bind_ok]
    refine ⟨r₁, ?_, ?_⟩
    · unfold scanBlock at hblock
      split at hblock
      · rename_i hskip
        rw [if_pos hskip]
        exact hblock
      · rename_i hskip
        rw [if_neg hskip]
        split at hblock
        · exact hblock
        · rw [List.foldlM_map]
          exact hblock
    · cases hnext : (mem pindex.hashBlock).pnext with
      | none =>
        simp only [hnext] at h
        exact h
      | some next =>
        simp only [hnext] at h
        dsimp only
        split at h
        · cases h
        · cases h
        · exact ih h

/-- One transaction offered, outside an update. -/
theorem scanTx_ok {g : Globals} {mapBlockIndex : StdMap Uint256 BlockPtr} {fUpdate : Bool} {b : CBlock}
    {r r' : CWallet × Nat} {tx : CTransaction}
    (h : scanTx P g mapBlockIndex fUpdate b r tx = .ok r') :
    r.1.addToWalletIfInvolvingMe P mapBlockIndex g.nAdjustedTime tx (some b) fUpdate = .ok r'.1 ∧
      r.2 ≤ r'.2 ∧ (r'.2 = r.2 → FlagsUp r.1 r'.1) := by
  unfold scanTx at h
  obtain ⟨fAdded, hadded, h⟩ := bind_ok.mp h
  obtain ⟨w', hok, h⟩ := bind_ok.mp h
  cases h
  refine ⟨hok, ?_, fun hcount => ?_⟩
  · dsimp only
    split <;> omega
  · -- nothing was found, so no record was made or updated
    have hnot : fAdded = false := by
      cases fAdded with
      | false => rfl
      | true =>
        simp only [if_true] at hcount
        omega
    rcases addToWalletIfInvolvingMe_cases hok with ⟨-, rfl⟩ | ⟨-, htrue, -⟩ | ⟨-, rfl⟩
    · exact FlagsUp.refl _
    · rw [hadded, hnot] at htrue
      cases htrue
    · exact walletUpdateSpent_flagsUp (P := P) tx

theorem scanTxs_count {g : Globals} {mapBlockIndex : StdMap Uint256 BlockPtr} {fUpdate : Bool}
    {l : List (CBlock × CTransaction)} {r r' : CWallet × Nat}
    (h : l.foldlM (fun r offer => scanTx P g mapBlockIndex fUpdate offer.1 r offer.2) r = .ok r') :
    r.2 ≤ r'.2 ∧ (r'.2 = r.2 → FlagsUp r.1 r'.1) := by
  induction l generalizing r with
  | nil =>
    cases h
    exact ⟨le_rfl, fun _ => FlagsUp.refl _⟩
  | cons offer l ih =>
    obtain ⟨r₁, hstep, hrest⟩ := bind_ok.mp ((List.foldlM_cons ..).symm.trans h)
    obtain ⟨-, hle, hup⟩ := scanTx_ok hstep
    obtain ⟨hle', hup'⟩ := ih hrest
    exact ⟨hle.trans hle', fun hcount => (hup (by omega)).trans (hup' (by omega))⟩

theorem Heard.scanTxs {l : List (CBlock × CTransaction)} {r r' : CWallet × Nat}
    (h : Heard P r.1 stale)
    (hok : l.foldlM (fun r offer => scanTx P s.globals s.tree.mapBlockIndex false offer.1 r offer.2) r =
      .ok r') : Heard P r'.1 (WalletOp.staleScan P s l r.1 stale) := by
  induction l generalizing r stale with
  | nil =>
    cases hok
    exact h
  | cons offer l ih =>
    obtain ⟨r₁, hstep, hrest⟩ := bind_ok.mp ((List.foldlM_cons ..).symm.trans hok)
    obtain ⟨hadd, -, -⟩ := scanTx_ok hstep
    obtain ⟨b, tx⟩ := offer
    unfold WalletOp.staleScan
    have hadd : r.1.addToWalletIfInvolvingMe P s.tree.mapBlockIndex s.nAdjustedTime tx (some b) false =
        .ok r₁.1 := hadd
    rw [hadd]
    exact ih (h.involving hadd) hrest

theorem rescan_offers {r : CWallet × Nat} (h : w.rescan P s keys = .ok r) :
    (WalletOp.offers s keys).foldlM
      (fun r offer => scanTx P s.globals s.tree.mapBlockIndex false offer.1 r offer.2) (w, 0) = .ok r := by
  unfold rescan scanForWalletTransactions at h
  unfold WalletOp.offers
  cases hgenesis : s.pindexGenesisBlock with
  | nil =>
    rw [hgenesis] at h
    exact h
  | cons pindex rest =>
    rw [hgenesis] at h
    exact scanFrom_offers h

/-- The scans, and that the last thing that was done is a pass: after it there was at most a scan that
    found nothing. -/
theorem Heard.scans (h : Heard P w stale) {fuel : Nat}
    (hok : reacceptWalletTransactions P s keys fuel w = .ok w') :
    Heard P w' (WalletOp.staleScans P s keys fuel w stale) ∧
      ∃ w₀ : CWallet, FlagsUp (w₀.reacceptPass P s).1 w' := by
  induction fuel generalizing w stale with
  | zero => cases hok
  | succ fuel ih =>
    have hpass := h.flagsUp (reacceptPass_flagsUp (P := P) (s := s) (w := w))
    unfold reacceptWalletTransactions at hok
    unfold WalletOp.staleScans
    dsimp only at hok ⊢
    by_cases hmissing : (w.reacceptPass P s).2 = true
    · rw [if_pos hmissing] at hok ⊢
      obtain ⟨scanned, hscan, hok⟩ := bind_ok.mp hok
      have hoffers := rescan_offers hscan
      have hheard := hpass.scanTxs hoffers
      rw [hscan]
      dsimp only
      by_cases hfound : scanned.2 ≠ 0
      · rw [if_pos hfound] at hok ⊢
        exact ih hheard hok
      · rw [if_neg hfound] at hok ⊢
        cases hok
        exact ⟨hheard, w, (scanTxs_count hoffers).2 (not_not.mp hfound)⟩
    · rw [if_neg hmissing] at hok ⊢
      cases hok
      exact ⟨hpass, w, FlagsUp.refl _⟩

theorem SameTxs.shownSpent (h : SameTxs w w') {o : COutPoint} (hshown : w'.ShownSpent P s o) :
    w.ShownSpent P s o := by
  obtain ⟨wtx', txindex, pos, hwtx', hrest⟩ := hshown
  have htx := h.txs o.hash
  rw [hwtx'] at htx
  obtain ⟨wtx, hwtx, heq⟩ := Option.map_eq_some_iff.mp htx.symm
  rw [← heq] at hrest
  exact ⟨wtx, txindex, pos, hwtx, hrest⟩

/-- `ReacceptWalletTransactions`. -/
theorem Heard.reaccept (h : Heard P w stale) {fuel : Nat}
    (hok : reacceptWalletTransactions P s keys fuel w = .ok w') :
    Heard P w' { hash | hash ∈ WalletOp.staleScans P s keys fuel w stale ∧
      ∃ o, w'.SpendsOwn hash o ∧ ¬ w'.ShownSpent P s o } := by
  obtain ⟨hheard, w₀, hup⟩ := h.scans hok
  refine ⟨hheard.keyed, fun hash hstale o hspends => ?_⟩
  by_cases hold : hash ∈ WalletOp.staleScans P s keys fuel w stale
  · -- then the index has shown what it spends
    have hshown : w'.ShownSpent P s o := by
      by_contra hno
      exact hstale ⟨hold, o, hspends, hno⟩
    have hown := hspends.choose_spec.2.2.2
    have hsame := (reacceptPass_flagsUp (P := P) (s := s) (w := w₀)).toSameTxs
    rw [hup.toSameTxs.ownOutput] at hown
    have hshown₁ := SameTxs.shownSpent hup.toSameTxs hshown
    refine hup.up o hown ?_
    rw [hsame.ownOutput] at hown
    exact reacceptPass_shown hown (SameTxs.shownSpent hsame hshown₁)
  · exact hheard.flagged hash hold o hspends

end Reaccept

/-! ## Runs -/

section Runs

variable {P : Primitives} {keys : WalletKeys} {s : NodeState} {w : CWallet} {stale : Set Uint256}

/-- One call. -/
theorem Heard.call (h : Heard P w stale) {w' : CWallet} {op : WalletOp}
    (hop : op.run P s keys w = .ok w') : Heard P w' (op.stale P s keys w w' stale) := by
  cases op with
  | addToWallet wtxIn =>
    cases hop
    exact h.addToWallet _ _ wtxIn
  | addToWalletIfInvolvingMe tx pblock fUpdate => exact h.involving hop
  | walletUpdateSpent tx fBlock =>
    cases hop
    refine h.told h.keyed rfl (fun _ _ => rfl) (fun hself => hself) (fun _ => rfl) fun hno => ?_
    exact ⟨by simpa using hno, fun wtx hwtx => ⟨wtx, hwtx, rfl, fun _ _ h => h⟩⟩
  | commitTransaction wtxNew => exact h.commit hop
  | reacceptWalletTransactions fuel => exact h.reaccept hop

/-- **The run invariant.** -/
theorem WalletRun.heard (hrun : WalletRun P keys s w stale) : Heard P w stale := by
  induction hrun with
  | start hempty =>
    refine ⟨fun hash wtx hwtx => ?_, fun hash _ o hspends => ?_⟩
    · rw [hempty] at hwtx
      cases hwtx
    · obtain ⟨wtx, hwtx, -⟩ := hspends
      rw [hempty] at hwtx
      cases hwtx
  | node hrun ih => exact ih
  | call op hrun hop ih => exact ih.call hop

/-- **No spend is missed** while nothing stale is in the memory pool or on the main chain. -/
theorem spentSeen_of_fresh (hrun : WalletRun P keys s w stale)
    (hfresh : ∀ hash ∈ stale, ¬ s.live hash) : SpentSeen s w :=
  fun hash hlive => hrun.heard.flagged hash fun hstale => hfresh hash hstale hlive

end Runs

/-! ## A transaction, what spends it, and its block again -/

namespace Forgotten

open Orphan (primitives withOrphan locked hashLocked orphan blockL12)

/-- The parent in its block: new to the wallet. -/
def confirm : WalletOp := .addToWalletIfInvolvingMe locked (some blockL12) true

/-- The child in the memory pool. -/
def receive : WalletOp := .addToWalletIfInvolvingMe orphan none true

def after (op : WalletOp) (w : CWallet) : CWallet :=
  ((op.run primitives withOrphan Rescan.keys w).toOption).getD w

def confirmed : CWallet := after confirm Rescan.wallet

def received : CWallet := after receive confirmed

/-- The block is connected again, or scanned by an import. -/
def confirmedAgain : CWallet := after confirm received

def staleConfirmed : Set Uint256 :=
  confirm.stale primitives withOrphan Rescan.keys Rescan.wallet confirmed ∅

def staleReceived : Set Uint256 :=
  receive.stale primitives withOrphan Rescan.keys confirmed received staleConfirmed

theorem run_received : WalletRun primitives Rescan.keys withOrphan received staleReceived := by
  have h1 : confirm.run primitives withOrphan Rescan.keys Rescan.wallet = .ok confirmed :=
    eq_ok_getD (by decide) Rescan.wallet
  have h2 : receive.run primitives withOrphan Rescan.keys confirmed = .ok received :=
    eq_ok_getD (by decide) confirmed
  exact WalletRun.call receive (WalletRun.call confirm (WalletRun.start fun _ => rfl) h1) h2

/-- Nothing in the wallet spends from `told`. -/
theorem not_spendsOwn {w : CWallet} {told : Uint256}
    (h : ∀ e ∈ w.mapWallet.entries, ∀ o ∈ e.2.tx.prevouts, o.hash ≠ told) (hash : Uint256) :
    ¬ ∃ o, w.SpendsOwn hash o ∧ o.hash = told := by
  rintro ⟨o, ⟨wtx, hwtx, hmem, -⟩, heq⟩
  exact h ⟨hash, wtx⟩ (AList.mem_lookup_iff.mp hwtx) o hmem heq

theorem fresh_received : ∀ hash ∈ staleReceived, ¬ withOrphan.live hash := by
  have hconfirmed : ∀ hash, hash ∉ staleConfirmed := by
    rintro hash ⟨-, hstale | ⟨-, hspends⟩⟩
    · exact hstale
    · exact not_spendsOwn (by decide) hash hspends
  rintro hash ⟨-, hstale | ⟨-, hspends⟩⟩
  · exact absurd hstale (hconfirmed hash)
  · exact absurd hspends (not_spendsOwn (by decide) hash)

end Forgotten

theorem spentSeen_of_fresh_received : SpentSeen Orphan.withOrphan Forgotten.received :=
  spentSeen_of_fresh Forgotten.run_received Forgotten.fresh_received

/-- The child is in the memory pool; the wallet takes what it spends for unspent. -/
theorem spend_forgotten : ∃ stale,
    WalletRun Orphan.primitives Rescan.keys Orphan.withOrphan Forgotten.confirmedAgain stale ∧
      ¬ SpentSeen Orphan.withOrphan Forgotten.confirmedAgain := by
  have hop : Forgotten.confirm.run Orphan.primitives Orphan.withOrphan Rescan.keys Forgotten.received =
    .ok Forgotten.confirmedAgain := eq_ok_getD (by decide) Forgotten.received
  refine ⟨_, WalletRun.call Forgotten.confirm Forgotten.run_received hop, fun h => ?_⟩
  have hrecord : Forgotten.confirmedAgain.mapWallet.lookup
      (Orphan.primitives.getHash Orphan.orphan) = some ((Forgotten.confirmedAgain.mapWallet.lookup
        (Orphan.primitives.getHash Orphan.orphan)).getD (CWalletTx.ofTx Orphan.orphan)) := by
    decide
  have hspent := h (Orphan.primitives.getHash Orphan.orphan) (Or.inl (by decide))
    ⟨Orphan.hashLocked, 0⟩ ⟨_, hrecord, by decide, by decide, by decide⟩
  have hflag : Forgotten.confirmedAgain.isSpentOut ⟨Orphan.hashLocked, 0⟩ = false := by decide
  rw [hflag] at hspent
  cases hspent

end Silkcoin
