/-
  TRUST in our own change: `AddSupportingTransactions` and `IsTrusted`.

  When a transaction is made, copies of what it spends are put beside it, down to those that are deep enough
  (`addSupportingTransactions`).  Later `IsTrusted` goes through these copies: a transaction that is not
  confirmed is trusted if it is final and ours and so is everything unconfirmed behind it.

  1. The search always comes to an end, since no transaction of the pool is behind itself
     (`trustedFrom_total`).
  2. A copy remembers the block its transaction was in THEN.  One that was in none is in none for ever: once it
     is confirmed it is neither in the pool nor, as far as the copy knows, in a block, and nothing that spends
     it is trusted (`isTrusted_confirmed_since`).
  3. So trust is decided by what holds now just when the copies still say so (`isTrusted_live_iff`).
-/
import Silkcoin.WalletBalance
import Silkcoin.Locator
import Silkcoin.Lib.Worklist

namespace Silkcoin

open Validation BatchStore

/-! ## Copies of what a transaction spends -/

def COPY_DEPTH : Int := 3

namespace NodeState

variable (P : Primitives) (s : NodeState)

/-- `SetMerkleBranch()`: the block is looked up in the index.  The depth, and the record with its block. -/
def setMerkleBranch (wtx : CWalletTx) : Int × CWalletTx :=
  match s.txdb.readTxIndex (P.getHash wtx.tx) with
  | none => (0, wtx)
  | some txindex =>
    match BlockFiles.readBlock P s.globals txindex.pos.nFile txindex.pos.nBlockPos with
    | none => (0, wtx)
    | some pblock =>
      let wtx := wtx.setMerkleBranch P pblock
      if wtx.nIndex = -1 then (0, wtx)
      else
        match s.tree.mapBlockIndex.lookup wtx.hashBlock with
        | none | some [] => (0, wtx)
        | some (pindex :: pprev) =>
          if s.isInMainChain (pindex :: pprev) then
            (((s.pindexBest.head?.map CBlockIndex.nHeight).getD 0 : Nat) - pindex.nHeight + 1, wtx)
          else (0, wtx)

/-- `ReadDiskTx`: the transaction alone, in no block as far as its record knows. -/
def readDiskTx (hash : Uint256) : Option CWalletTx :=
  (s.txdb.readTxIndex hash).bind fun txindex => (s.files.readTx txindex.pos).map CWalletTx.ofTx

end NodeState

/-- `setAlreadyDone`, `mapWalletPrev` and `vtxPrev` in the loop. -/
structure Supporting where
  setAlreadyDone : Finset Uint256
  mapWalletPrev : StdMap Uint256 CWalletTx
  vtxPrev : List CWalletTx

namespace CachedWallet

variable (P : Primitives) (s : NodeState) (w : CachedWallet)

/-- A supporting transaction, and what is known of others by then: from the wallet, from beside a transaction of
    the wallet, or from disk. -/
def findSupport (mapWalletPrev : StdMap Uint256 CWalletTx) (hash : Uint256) :
    Option (CWalletTx × StdMap Uint256 CWalletTx) :=
  match w.mapWallet.lookup hash with
  | some wtx =>
    some (wtx, (w.vtxPrev hash).foldl (fun m txWalletPrev => m.insert (P.getHash txWalletPrev.tx) txWalletPrev)
      mapWalletPrev)
  | none =>
    match mapWalletPrev.lookup hash with
    | some tx => some (tx, mapWalletPrev)
    | none => (s.readDiskTx hash).map fun tx => (tx, mapWalletPrev)

/-- The loop over `vWorkQueue`, for so many turns at most. -/
def supportFrom : Nat → List Uint256 → Supporting → Option Supporting
  | _, [], acc => some acc
  | 0, _ :: _, _ => none
  | nTurns + 1, hash :: vWorkQueue, acc =>
    if hash ∈ acc.setAlreadyDone then supportFrom nTurns vWorkQueue acc
    else
      let acc := { acc with setAlreadyDone := insert hash acc.setAlreadyDone }
      match w.findSupport P s acc.mapWalletPrev hash with
      | none => supportFrom nTurns vWorkQueue acc
      | some (tx, mapWalletPrev) =>
        let (nDepth, tx) := s.setMerkleBranch P tx
        let acc := { acc with mapWalletPrev := mapWalletPrev, vtxPrev := acc.vtxPrev ++ [tx] }
        supportFrom nTurns
          (if nDepth < COPY_DEPTH then vWorkQueue ++ tx.tx.vin.map fun txin => txin.prevout.hash else vWorkQueue) acc

/-- `AddSupportingTransactions`: the record, and what is put beside it. -/
def addSupportingTransactions (nTurns : Nat) (wtx : CWalletTx) : Option (CWalletTx × List CWalletTx) :=
  let (nDepth, wtx) := s.setMerkleBranch P wtx
  if nDepth < COPY_DEPTH then
    (w.supportFrom P s nTurns (wtx.tx.vin.map fun txin => txin.prevout.hash) ⟨∅, ∅, []⟩).map
      fun acc => (wtx, acc.vtxPrev.reverse)
  else some (wtx, [])

end CachedWallet

theorem NodeState.tx_setMerkleBranch (P : Primitives) (s : NodeState) (wtx : CWalletTx) :
    (s.setMerkleBranch P wtx).2.tx = wtx.tx := by
  have htx : ∀ b, (wtx.setMerkleBranch P b).tx = wtx.tx := by
    intro b
    unfold CWalletTx.setMerkleBranch
    dsimp only
    split <;> rfl
  unfold setMerkleBranch
  split
  · rfl
  split
  · rfl
  dsimp only
  split
  · exact htx _
  split
  · exact htx _
  · exact htx _
  split <;> exact htx _

namespace CachedWallet

variable {P : Primitives} {s : NodeState} {w : CachedWallet} {S : Set CTransaction}

/-- Where supporting transactions come from there are only transactions of `S`. -/
structure Sources (S : Set CTransaction) (s : NodeState) (w : CachedWallet) : Prop where
  wallet : ∀ hash wtx, w.mapWallet.lookup hash = some wtx → wtx.tx ∈ S
  beside : ∀ hash, ∀ prev ∈ w.vtxPrev hash, prev.tx ∈ S
  disk : ∀ hash wtx, s.readDiskTx hash = some wtx → wtx.tx ∈ S

/-- What was found so far. -/
structure FoundIn (S : Set CTransaction) (acc : Supporting) : Prop where
  known : ∀ hash tx, acc.mapWalletPrev.lookup hash = some tx → tx.tx ∈ S
  found : ∀ tx ∈ acc.vtxPrev, tx.tx ∈ S

theorem findSupport_mem (h : Sources S s w) {m m' : StdMap Uint256 CWalletTx} {hash : Uint256} {tx : CWalletTx}
    (hm : ∀ hash tx, m.lookup hash = some tx → tx.tx ∈ S) (hfind : w.findSupport P s m hash = some (tx, m')) :
    tx.tx ∈ S ∧ ∀ hash tx, m'.lookup hash = some tx → tx.tx ∈ S := by
  have hinsert : ∀ (prevs : List CWalletTx) (m : StdMap Uint256 CWalletTx), (∀ prev ∈ prevs, prev.tx ∈ S) →
      (∀ hash tx, m.lookup hash = some tx → tx.tx ∈ S) → ∀ hash tx,
      (prevs.foldl (fun m txWalletPrev => m.insert (P.getHash txWalletPrev.tx) txWalletPrev) m).lookup hash =
        some tx → tx.tx ∈ S := by
    intro prevs
    induction prevs with
    | nil => exact fun m _ hm => hm
    | cons prev prevs ih =>
      intro m hprevs hm
      refine ih _ (fun p hp => hprevs p (List.mem_cons_of_mem prev hp)) fun hash tx hlookup => ?_
      by_cases heq : hash = P.getHash prev.tx
      · rw [heq, AList.lookup_insert] at hlookup
        rw [← Option.some.inj hlookup]
        exact hprevs prev List.mem_cons_self
      · rw [AList.lookup_insert_ne heq] at hlookup
        exact hm hash tx hlookup
  unfold findSupport at hfind
  split at hfind
  · rename_i wtx hwtx
    obtain ⟨rfl, rfl⟩ := Prod.mk.inj (Option.some.inj hfind)
    exact ⟨h.wallet _ _ hwtx, hinsert _ _ (h.beside hash) hm⟩
  split at hfind
  · rename_i prev hprev
    obtain ⟨rfl, rfl⟩ := Prod.mk.inj (Option.some.inj hfind)
    exact ⟨hm _ _ hprev, hm⟩
  · obtain ⟨tx', hdisk, heq⟩ := Option.map_eq_some_iff.mp hfind
    obtain ⟨rfl, rfl⟩ := Prod.mk.inj heq
    exact ⟨h.disk _ _ hdisk, hm⟩

theorem supportFrom_mem (h : Sources S s w) : ∀ (nTurns : Nat) (vWorkQueue : List Uint256) (acc acc' : Supporting),
    FoundIn S acc → w.supportFrom P s nTurns vWorkQueue acc = some acc' → FoundIn S acc' := by
  intro nTurns
  induction nTurns with
  | zero =>
    intro vWorkQueue acc acc' hacc hrun
    cases vWorkQueue with
    | nil =>
      obtain rfl := Option.some.inj hrun
      exact hacc
    | cons hash vWorkQueue => cases hrun
  | succ nTurns ih =>
    intro vWorkQueue acc acc' hacc hrun
    cases vWorkQueue with
    | nil =>
      obtain rfl := Option.some.inj hrun
      exact hacc
    | cons hash vWorkQueue =>
      rw [supportFrom] at hrun
      split at hrun
      · exact ih _ _ _ hacc hrun
      · dsimp only at hrun
        cases hfind : w.findSupport P s acc.mapWalletPrev hash with
        | none =>
          rw [hfind] at hrun
          refine ih _ _ _ ?_ hrun
          exact ⟨hacc.known, hacc.found⟩
        | some r =>
          rw [hfind] at hrun
          obtain ⟨htx, hknown⟩ := findSupport_mem h hacc.known hfind
          refine ih _ _ _ ⟨hknown, fun tx hmem => ?_⟩ hrun
          rcases List.mem_append.mp hmem with hmem | hmem
          · exact hacc.found tx hmem
          · rw [List.mem_singleton.mp hmem, s.tx_setMerkleBranch]
            exact htx

/-- Everything that is put beside a transaction is from these sources. -/
theorem addSupportingTransactions_mem (h : Sources S s w) {nTurns : Nat} {wtx wtx' : CWalletTx}
    {vtxPrev : List CWalletTx} (hadd : w.addSupportingTransactions P s nTurns wtx = some (wtx', vtxPrev)) :
    wtx'.tx = wtx.tx ∧ ∀ prev ∈ vtxPrev, prev.tx ∈ S := by
  unfold addSupportingTransactions at hadd
  dsimp only at hadd
  split at hadd
  · obtain ⟨acc, hrun, heq⟩ := Option.map_eq_some_iff.mp hadd
    obtain ⟨rfl, rfl⟩ := Prod.mk.inj heq
    refine ⟨s.tx_setMerkleBranch P wtx, fun prev hprev => ?_⟩
    have hstart : FoundIn S ⟨∅, ∅, []⟩ := ⟨fun hash tx hl => (by cases hl), fun tx hl => (by cases hl)⟩
    exact (supportFrom_mem h _ _ _ _ hstart hrun).found prev (List.mem_reverse.mp hprev)
  · obtain ⟨rfl, rfl⟩ := Prod.mk.inj (Option.some.inj hadd)
    exact ⟨s.tx_setMerkleBranch P wtx, fun prev hprev => (by cases hprev)⟩

/-! ## The search of `IsTrusted` -/

/-- The copy of a supporting transaction: of several, the last one counts. -/
def copyOf (P : Primitives) (prevs : List CWalletTx) (hash : Uint256) : Option CWalletTx :=
  prevs.reverse.find? fun prev => decide (P.getHash prev.tx = hash)

/-- The body of the loop: what has to be looked at next, or `none` if there is no trust. -/
def trustStep (P : Primitives) (s : NodeState) (w : CachedWallet) (prevs : List CWalletTx) (ptx : CWalletTx) :
    Check (Option (List CWalletTx)) :=
  if isFinal s ptx = false then .ok none
  else if s.walletDepth P ptx ≥ 1 then .ok (some [])
  else if s.walletDepth P ptx < 0 then .ok none
  else do
    let fFromMe ← w.isFromMe ptx.tx
    return if fFromMe then ptx.tx.vin.mapM fun txin => copyOf P prevs txin.prevout.hash else none

theorem trustedFrom_eq_run (prevs : List CWalletTx) : ∀ (nSteps : Nat) (queue : List CWalletTx),
    w.trustedFrom P s prevs nSteps queue =
      Worklist.run (.throw "vWorkQueue") (trustStep P s w prevs) nSteps queue := by
  intro nSteps
  induction nSteps with
  | zero =>
    intro queue
    cases queue <;> rfl
  | succ nSteps ih =>
    intro queue
    cases queue with
    | nil => rfl
    | cons ptx rest =>
      rw [trustedFrom, Worklist.run]
      unfold trustStep
      split
      · rfl
      split
      · dsimp only
        rw [List.append_nil]
        exact ih rest
      split
      · rfl
      cases w.isFromMe ptx.tx with
      | error e => rfl
      | ok fFromMe =>
        cases fFromMe with
        | false => rfl
        | true =>
          unfold copyOf
          rw [ok_bind, ok_bind, if_pos rfl, if_pos rfl]
          cases ptx.tx.vin.mapM fun txin =>
              prevs.reverse.find? fun prev => decide (P.getHash prev.tx = txin.prevout.hash) with
          | none => rfl
          | some found => exact ih _

theorem copyOf_eq_some {prevs : List CWalletTx} {hash : Uint256} {prev : CWalletTx}
    (h : copyOf P prevs hash = some prev) : prev ∈ prevs ∧ P.getHash prev.tx = hash :=
  ⟨List.mem_reverse.mp (List.mem_of_find?_eq_some h), of_decide_eq_true (List.find?_some h :)⟩

end CachedWallet

/-! ## What holds now -/

/-- How deep a record can be: not in a block as far as it knows, then in the pool or lost; or at least 1. -/
theorem NodeState.TipLinked.walletDepth_cases {P : Primitives} {s : NodeState} (h : s.TipLinked) (wtx : CWalletTx) :
    (s.walletDepth P wtx = -1 ∧ s.mempool.mapTx.lookup (P.getHash wtx.tx) = none) ∨
      (s.walletDepth P wtx = 0 ∧ ∃ t, s.mempool.mapTx.lookup (P.getHash wtx.tx) = some t) ∨
      1 ≤ s.walletDepth P wtx := by
  have hfew : ∀ nResult : Int, nResult = 0 ∨ 1 ≤ nResult →
      ((if nResult = 0 ∧ (s.mempool.mapTx.lookup (P.getHash wtx.tx)).isNone then -1 else nResult) = -1 ∧
        s.mempool.mapTx.lookup (P.getHash wtx.tx) = none) ∨
      ((if nResult = 0 ∧ (s.mempool.mapTx.lookup (P.getHash wtx.tx)).isNone then -1 else nResult) = 0 ∧
        ∃ t, s.mempool.mapTx.lookup (P.getHash wtx.tx) = some t) ∨
      1 ≤ (if nResult = 0 ∧ (s.mempool.mapTx.lookup (P.getHash wtx.tx)).isNone then -1 else nResult) := by
    rintro nResult (rfl | hpos)
    · cases hpool : s.mempool.mapTx.lookup (P.getHash wtx.tx) with
      | none => exact Or.inl ⟨if_pos ⟨rfl, rfl⟩, rfl⟩
      | some t => exact Or.inr (Or.inl ⟨if_neg (fun hc => by cases hc.2), t, rfl⟩)
    · rw [if_neg (fun hc => by omega)]
      exact Or.inr (Or.inr hpos)
  unfold walletDepth
  apply hfew
  split
  · exact Or.inl rfl
  split
  · exact Or.inl rfl
  · exact Or.inl rfl
  rename_i pindex pprev hlookup
  split
  · exact Or.inl rfl
  rename_i hmain
  split
  · exact Or.inl rfl
  -- the block is on the lineage of the tip, and so not higher
  right
  have hin : InTree s (pindex :: pprev) := ⟨_, hlookup⟩
  have hsuf : pindex :: pprev <:+ s.pindexBest := by
    refine (h.isInMainChain_iff hin (List.cons_ne_nil _ _)).mp ?_
    unfold isInMainChain
    rw [Bool.or_eq_true, decide_eq_true_eq]
    exact not_not.mp hmain
  have hlen := hsuf.length_le
  have hheight := h.height_eq hin
  have hbest := h.nBestHeight_eq
  rw [h.height] at hbest
  rw [hbest, hheight]
  rw [List.length_cons] at hlen
  omega

/-- A record that is deep has its hash in the root of a block. -/
theorem NodeState.merkle_of_walletDepth {P : Primitives} {s : NodeState} {wtx : CWalletTx}
    (h : 1 ≤ s.walletDepth P wtx) : ∃ pindex pprev,
      s.tree.mapBlockIndex.lookup wtx.hashBlock = some (pindex :: pprev) ∧
      checkMerkleBranch P (P.getHash wtx.tx) wtx.vMerkleBranch wtx.nIndex.toNat = pindex.hashMerkleRoot := by
  have hzero : ∀ p : Prop, [Decidable p] → ¬(1 : Int) ≤ if (0 : Int) = 0 ∧ p then -1 else 0 := by
    intro p _
    split <;> omega
  unfold walletDepth at h
  dsimp only at h
  split at h
  · exact absurd h (hzero _)
  split at h
  · exact absurd h (hzero _)
  · exact absurd h (hzero _)
  rename_i pindex pprev hlookup
  split at h
  · exact absurd h (hzero _)
  split at h
  · exact absurd h (hzero _)
  · rename_i hroot
    exact ⟨pindex, pprev, hlookup, not_not.mp hroot⟩

namespace NodeState

variable (P : Primitives) (s : NodeState)

/-- Some record of the transaction knows a block of the main chain it is in. -/
def Confirmed (hash : Uint256) : Prop := ∃ wtx : CWalletTx, P.getHash wtx.tx = hash ∧ 1 ≤ s.walletDepth P wtx

/-- What `tx` spends, and what is spent by that, as far as the pool knows.  What is behind a confirmed
    transaction is confirmed too. -/
inductive Ancestor (tx : CTransaction) : Uint256 → Prop where
  | parent {txin : CTxIn} : txin ∈ tx.vin → Ancestor tx txin.prevout.hash
  | further {hash : Uint256} {t : CTransaction} {txin : CTxIn} : Ancestor tx hash →
      s.mempool.mapTx.lookup hash = some t → txin ∈ t.vin → Ancestor tx txin.prevout.hash

end NodeState

namespace CachedWallet

variable (P : Primitives) (S : Set CTransaction) (s : NodeState) (w : CachedWallet)

/-- Every unconfirmed ancestor is in the pool, final and ours. -/
def LiveTrust (tx : CTransaction) : Prop :=
  ∀ hash, s.Ancestor tx hash → ¬s.Confirmed P hash → ∃ t, s.mempool.mapTx.lookup hash = some t ∧
    t.isFinal s.nBestHeight s.nAdjustedTime 0 0 = true ∧ w.isFromMe t = .ok true

/-- Every ancestor has a copy, and the copy of one that is confirmed is final and knows the block it is in. -/
def UpToDate (prevs : List CWalletTx) (tx : CTransaction) : Prop :=
  ∀ hash, s.Ancestor tx hash → ∃ prev, copyOf P prevs hash = some prev ∧
    (s.Confirmed P hash → isFinal s prev = true ∧ 1 ≤ s.walletDepth P prev)

/-- The pool: filed under hashes, not confirmed, nothing behind itself, and no debit out of range. -/
structure PoolKept : Prop where
  keyed : ∀ hash t, s.mempool.mapTx.lookup hash = some t → P.getHash t = hash ∧ t ∈ S
  unconfirmed : ∀ hash t, s.mempool.mapTx.lookup hash = some t → ¬s.Confirmed P hash
  acyclic : ∃ rank : Uint256 → Nat, ∀ hash t, s.mempool.mapTx.lookup hash = some t →
    ∀ txin ∈ t.vin, rank txin.prevout.hash < rank hash
  debit : ∀ hash t, s.mempool.mapTx.lookup hash = some t → ∃ fFromMe, w.isFromMe t = .ok fFromMe

variable {P S s w} {prevs : List CWalletTx}

/-- A record that is 0 deep is the transaction in the pool. -/
theorem PoolKept.of_depth_zero (h : PoolKept P S s w) (hinj : Set.InjOn P.getHash S) (hlink : s.TipLinked)
    {ptx : CWalletTx} (hS : ptx.tx ∈ S) (hdepth : s.walletDepth P ptx = 0) :
    s.mempool.mapTx.lookup (P.getHash ptx.tx) = some ptx.tx := by
  rcases hlink.walletDepth_cases (P := P) ptx with ⟨hd, -⟩ | ⟨-, t, ht⟩ | hd
  · omega
  · obtain ⟨hkey, hmem⟩ := h.keyed _ t ht
    rw [ht, hinj hmem hS hkey]
  · omega

/-- A record of a transaction in the pool is 0 deep. -/
theorem PoolKept.depth_zero (h : PoolKept P S s w) (hlink : s.TipLinked) {ptx : CWalletTx} {t : CTransaction}
    (ht : s.mempool.mapTx.lookup (P.getHash ptx.tx) = some t) : s.walletDepth P ptx = 0 := by
  rcases hlink.walletDepth_cases (P := P) ptx with ⟨-, hnone⟩ | ⟨hd, -⟩ | hd
  · rw [hnone] at ht
    cases ht
  · exact hd
  · exact absurd ⟨ptx, rfl, hd⟩ (h.unconfirmed _ t ht)

/-- The step of a record that is 0 deep. -/
theorem trustStep_zero {ptx : CWalletTx} (hdepth : s.walletDepth P ptx = 0) {fFromMe : Bool}
    (hfrom : w.isFromMe ptx.tx = .ok fFromMe) : trustStep P s w prevs ptx =
      .ok (if isFinal s ptx = true ∧ fFromMe = true then ptx.tx.vin.mapM fun txin => copyOf P prevs txin.prevout.hash
        else none) := by
  unfold trustStep
  rw [hdepth, hfrom]
  cases isFinal s ptx with
  | false => rfl
  | true =>
    rw [if_neg (by decide), if_neg (by decide), if_neg (by decide)]
    cases fFromMe <;> rfl

theorem mapM_copyOf_eq_some {vin : List CTxIn} {found : List CWalletTx}
    (h : (vin.mapM fun txin => copyOf P prevs txin.prevout.hash) = some found) :
    (∀ txin ∈ vin, ∃ prev ∈ found, copyOf P prevs txin.prevout.hash = some prev) ∧
      ∀ prev ∈ found, ∃ txin ∈ vin, copyOf P prevs txin.prevout.hash = some prev := by
  induction vin generalizing found with
  | nil =>
    obtain rfl := Option.some.inj h
    exact ⟨fun txin ht => (by cases ht), fun prev hp => (by cases hp)⟩
  | cons txin vin ih =>
    rw [List.mapM_cons] at h
    obtain ⟨prev, hprev, h⟩ := Option.bind_eq_some_iff.mp h
    obtain ⟨rest, hrest, h⟩ := Option.bind_eq_some_iff.mp h
    obtain rfl := Option.some.inj h
    obtain ⟨hall, hof⟩ := ih hrest
    constructor
    · intro txin' ht
      rcases List.mem_cons.mp ht with rfl | ht
      · exact ⟨prev, List.mem_cons_self, hprev⟩
      · obtain ⟨p, hp, hcopy⟩ := hall txin' ht
        exact ⟨p, List.mem_cons_of_mem prev hp, hcopy⟩
    · intro p hp
      rcases List.mem_cons.mp hp with rfl | hp
      · exact ⟨txin, List.mem_cons_self, hprev⟩
      · obtain ⟨txin', ht, hcopy⟩ := hof p hp
        exact ⟨txin', List.mem_cons_of_mem txin ht, hcopy⟩

theorem mapM_copyOf_isSome {vin : List CTxIn}
    (h : ∀ txin ∈ vin, ∃ prev, copyOf P prevs txin.prevout.hash = some prev) :
    ∃ found, (vin.mapM fun txin => copyOf P prevs txin.prevout.hash) = some found := by
  induction vin with
  | nil => exact ⟨[], rfl⟩
  | cons txin vin ih =>
    obtain ⟨prev, hprev⟩ := h txin List.mem_cons_self
    obtain ⟨rest, hrest⟩ := ih fun t ht => h t (List.mem_cons_of_mem txin ht)
    refine ⟨prev :: rest, ?_⟩
    rw [List.mapM_cons, hprev, hrest]
    rfl

/-! ## Trust -/

/-- What the search starts from: a record that is 0 deep, and copies of transactions of `S`. -/
structure Setting (P : Primitives) (S : Set CTransaction) (s : NodeState) (w : CachedWallet)
    (prevs : List CWalletTx) (wtx : CWalletTx) : Prop where
  inj : Set.InjOn P.getHash S
  linked : s.TipLinked
  kept : PoolKept P S s w
  copies : ∀ prev ∈ prevs, prev.tx ∈ S
  mem : wtx.tx ∈ S
  final : isFinal s wtx = true
  depth : s.walletDepth P wtx = 0
  ours : w.isFromMe wtx.tx = .ok true

variable {wtx : CWalletTx}

/-- The step of any record of `S` but the deep ones. -/
theorem Setting.step_eq (h : Setting P S s w prevs wtx) {ptx : CWalletTx} (hS : ptx.tx ∈ S) :
    (1 ≤ s.walletDepth P ptx ∧ trustStep P s w prevs ptx = .ok (if isFinal s ptx = true then some [] else none)) ∨
    (s.walletDepth P ptx = -1 ∧ trustStep P s w prevs ptx = .ok none) ∨
    (s.walletDepth P ptx = 0 ∧ s.mempool.mapTx.lookup (P.getHash ptx.tx) = some ptx.tx ∧
      ∃ fFromMe, w.isFromMe ptx.tx = .ok fFromMe ∧ trustStep P s w prevs ptx =
        .ok (if isFinal s ptx = true ∧ fFromMe = true then
          ptx.tx.vin.mapM fun txin => copyOf P prevs txin.prevout.hash else none)) := by
  rcases h.linked.walletDepth_cases (P := P) ptx with ⟨hd, -⟩ | ⟨hd, -⟩ | hd
  · refine Or.inr (Or.inl ⟨hd, ?_⟩)
    unfold trustStep
    rw [hd]
    cases isFinal s ptx <;> rfl
  · have hpool := h.kept.of_depth_zero h.inj h.linked hS hd
    obtain ⟨fFromMe, hfrom⟩ := h.kept.debit _ _ hpool
    exact Or.inr (Or.inr ⟨hd, hpool, fFromMe, hfrom, trustStep_zero hd hfrom⟩)
  · refine Or.inl ⟨hd, ?_⟩
    unfold trustStep
    rw [if_pos hd]
    cases isFinal s ptx <;> rfl

theorem Setting.descends (h : Setting P S s w prevs wtx) {rank : Uint256 → Nat}
    (hrank : ∀ hash t, s.mempool.mapTx.lookup hash = some t → ∀ txin ∈ t.vin, rank txin.prevout.hash < rank hash) :
    Worklist.Descends (trustStep P s w prevs) (fun ptx => ptx.tx ∈ S) fun ptx => rank (P.getHash ptx.tx) := by
  intro ptx more hS hstep prev hprev
  rcases h.step_eq hS with ⟨-, heq⟩ | ⟨-, heq⟩ | ⟨-, hpool, fFromMe, -, heq⟩
  · rw [heq] at hstep
    split at hstep
    · obtain rfl := Option.some.inj (Except.ok.inj hstep)
      cases hprev
    · cases hstep
  · rw [heq] at hstep
    cases hstep
  · rw [heq] at hstep
    split at hstep
    · obtain ⟨txin, htxin, hcopy⟩ := (mapM_copyOf_eq_some (Except.ok.inj hstep)).2 prev hprev
      obtain ⟨hmem, hhash⟩ := copyOf_eq_some hcopy
      refine ⟨h.copies prev hmem, ?_⟩
      show rank (P.getHash prev.tx) < _
      rw [hhash]
      exact hrank _ _ hpool txin htxin
    · cases hstep

/-- What is looked at: the transaction, and copies of ancestors. -/
theorem Setting.reached (h : Setting P S s w prevs wtx) {ptx : CWalletTx}
    (hreached : Worklist.Reached (trustStep P s w prevs) [wtx] ptx) :
    ptx = wtx ∨ ∃ hash, s.Ancestor wtx.tx hash ∧ copyOf P prevs hash = some ptx := by
  induction hreached with
  | start hmem => exact Or.inl (List.mem_singleton.mp hmem)
  | @next a b more _ hstep hb ih =>
    have hS : a.tx ∈ S := by
      rcases ih with rfl | ⟨hash, -, hcopy⟩
      · exact h.mem
      · exact h.copies a (copyOf_eq_some hcopy).1
    right
    rcases h.step_eq hS with ⟨-, heq⟩ | ⟨-, heq⟩ | ⟨-, hpool, fFromMe, -, heq⟩
    · rw [heq] at hstep
      split at hstep
      · obtain rfl := Option.some.inj (Except.ok.inj hstep)
        cases hb
      · cases hstep
    · rw [heq] at hstep
      cases hstep
    · rw [heq] at hstep
      split at hstep
      · obtain ⟨txin, htxin, hcopy⟩ := (mapM_copyOf_eq_some (Except.ok.inj hstep)).2 b hb
        refine ⟨_, ?_, hcopy⟩
        rcases ih with rfl | ⟨hash, hanc, hcopya⟩
        · exact .parent htxin
        · obtain ⟨-, rfl⟩ := copyOf_eq_some hcopya
          exact .further hanc hpool htxin
      · cases hstep

/-- Where everything passes, every ancestor has a copy that is looked at. -/
theorem Setting.copy_reached (h : Setting P S s w prevs wtx)
    (hall : ∀ ptx, Worklist.Reached (trustStep P s w prevs) [wtx] ptx → trustStep P s w prevs ptx ≠ .ok none)
    {hash : Uint256} (hanc : s.Ancestor wtx.tx hash) :
    ∃ prev, copyOf P prevs hash = some prev ∧ Worklist.Reached (trustStep P s w prevs) [wtx] prev := by
  have hinputs : ∀ ptx, ptx.tx ∈ S → Worklist.Reached (trustStep P s w prevs) [wtx] ptx →
      s.walletDepth P ptx = 0 → ∀ txin ∈ ptx.tx.vin, ∃ prev, copyOf P prevs txin.prevout.hash = some prev ∧
        Worklist.Reached (trustStep P s w prevs) [wtx] prev := by
    intro ptx hS hreached hdepth txin htxin
    rcases h.step_eq hS with ⟨hd, -⟩ | ⟨hd, -⟩ | ⟨-, -, fFromMe, -, heq⟩
    · omega
    · omega
    · have hpass := hall ptx hreached
      rw [heq] at hpass
      split at hpass
      · rename_i hboth
        rw [if_pos hboth] at heq
        cases hfound : ptx.tx.vin.mapM fun txin => copyOf P prevs txin.prevout.hash with
        | none => exact absurd (congrArg Except.ok hfound) hpass
        | some found =>
          rw [hfound] at heq
          obtain ⟨prev, hprev, hcopy⟩ := (mapM_copyOf_eq_some hfound).1 txin htxin
          exact ⟨prev, hcopy, hreached.next heq hprev⟩
      · exact absurd rfl hpass
  induction hanc with
  | parent htxin => exact hinputs wtx h.mem (.start List.mem_cons_self) h.depth _ htxin
  | @further hash t txin _ hpool htxin ih =>
    obtain ⟨prev, hcopy, hreached⟩ := ih
    obtain ⟨hmem, rfl⟩ := copyOf_eq_some hcopy
    have hdepth := h.kept.depth_zero h.linked hpool
    have htx := h.kept.of_depth_zero h.inj h.linked (h.copies prev hmem) hdepth
    obtain rfl := Option.some.inj (hpool.symm.trans htx)
    exact hinputs prev (h.copies prev hmem) hreached hdepth txin htxin

/-- Everything that is looked at passes, just when there is trust now and the copies still say so. -/
theorem Setting.passes_iff (h : Setting P S s w prevs wtx) :
    (∀ ptx, Worklist.Reached (trustStep P s w prevs) [wtx] ptx → trustStep P s w prevs ptx ≠ .ok none) ↔
      LiveTrust P s w wtx.tx ∧ UpToDate P s prevs wtx.tx := by
  constructor
  · intro hall
    have hgood : ∀ hash, s.Ancestor wtx.tx hash → ∃ prev, copyOf P prevs hash = some prev ∧
        ((1 ≤ s.walletDepth P prev ∧ isFinal s prev = true) ∨
          (s.mempool.mapTx.lookup hash = some prev.tx ∧ isFinal s prev = true ∧ w.isFromMe prev.tx = .ok true)) := by
      intro hash hanc
      obtain ⟨prev, hcopy, hreached⟩ := h.copy_reached hall hanc
      obtain ⟨hmem, hhash⟩ := copyOf_eq_some hcopy
      have hpass := hall prev hreached
      refine ⟨prev, hcopy, ?_⟩
      rcases h.step_eq (h.copies prev hmem) with ⟨hd, heq⟩ | ⟨-, heq⟩ | ⟨-, hpool, fFromMe, hfrom, heq⟩
      · rw [heq] at hpass
        split at hpass
        · exact Or.inl ⟨hd, ‹_›⟩
        · exact absurd rfl hpass
      · exact absurd heq hpass
      · rw [heq] at hpass
        split at hpass
        · rename_i hboth
          exact Or.inr ⟨hhash ▸ hpool, hboth.1, hboth.2 ▸ hfrom⟩
        · exact absurd rfl hpass
    constructor
    · intro hash hanc hun
      obtain ⟨prev, hcopy, ⟨hd, -⟩ | ⟨hpool, hfinal, hours⟩⟩ := hgood hash hanc
      · exact absurd ⟨prev, (copyOf_eq_some hcopy).2, hd⟩ hun
      · exact ⟨prev.tx, hpool, hfinal, hours⟩
    · intro hash hanc
      obtain ⟨prev, hcopy, ⟨hd, hfinal⟩ | ⟨hpool, -, -⟩⟩ := hgood hash hanc
      · exact ⟨prev, hcopy, fun _ => ⟨hfinal, hd⟩⟩
      · exact ⟨prev, hcopy, fun hconf => absurd hconf (h.kept.unconfirmed _ _ hpool)⟩
  · rintro ⟨hlive, hupto⟩ ptx hreached
    -- a record that is 0 deep, final and ours passes, since its inputs have copies
    have hpass : ∀ ptx, ptx.tx ∈ S → s.walletDepth P ptx = 0 → isFinal s ptx = true → w.isFromMe ptx.tx = .ok true →
        (∀ txin ∈ ptx.tx.vin, s.Ancestor wtx.tx txin.prevout.hash) → trustStep P s w prevs ptx ≠ .ok none := by
      intro ptx hS hdepth hfinal hours hanc
      obtain ⟨found, hfound⟩ := mapM_copyOf_isSome fun txin htxin =>
        (hupto _ (hanc txin htxin)).imp fun prev hprev => hprev.1
      rw [trustStep_zero hdepth hours, if_pos ⟨hfinal, rfl⟩, hfound]
      intro hnone
      cases hnone
    rcases h.reached hreached with rfl | ⟨hash, hanc, hcopy⟩
    · exact hpass ptx h.mem h.depth h.final h.ours fun txin htxin => .parent htxin
    · obtain ⟨prev, hcopy', hdeep⟩ := hupto hash hanc
      obtain rfl := Option.some.inj (hcopy'.symm.trans hcopy)
      obtain ⟨hmem, rfl⟩ := copyOf_eq_some hcopy
      by_cases hconf : s.Confirmed P (P.getHash prev.tx)
      · obtain ⟨hfinal, hd⟩ := hdeep hconf
        rcases h.step_eq (h.copies prev hmem) with ⟨-, heq⟩ | ⟨hd', -⟩ | ⟨hd', -⟩
        · rw [heq, if_pos hfinal]
          intro hnone
          cases hnone
        · omega
        · omega
      · obtain ⟨t, hpool, hfinal, hours⟩ := hlive _ hanc hconf
        have hdepth := h.kept.depth_zero h.linked hpool
        have htx := h.kept.of_depth_zero h.inj h.linked (h.copies prev hmem) hdepth
        obtain rfl := Option.some.inj (hpool.symm.trans htx)
        exact hpass prev (h.copies prev hmem) hdepth hfinal hours fun txin htxin => .further hanc hpool htxin

/-- The search comes to an end. -/
theorem Setting.trustedFrom_total (h : Setting P S s w prevs wtx) :
    ∃ b n, (∀ nSteps, n ≤ nSteps → w.trustedFrom P s prevs nSteps [wtx] = .ok b) ∧
      (b = true ↔ LiveTrust P s w wtx.tx ∧ UpToDate P s prevs wtx.tx) := by
  obtain ⟨rank, hrank⟩ := h.kept.acyclic
  have hok : ∀ ptx, Worklist.Reached (trustStep P s w prevs) [wtx] ptx →
      ∃ more, trustStep P s w prevs ptx = .ok more := by
    intro ptx hreached
    have hS : ptx.tx ∈ S := by
      rcases h.reached hreached with rfl | ⟨hash, -, hcopy⟩
      · exact h.mem
      · exact h.copies ptx (copyOf_eq_some hcopy).1
    rcases h.step_eq hS with ⟨-, heq⟩ | ⟨-, heq⟩ | ⟨-, -, fFromMe, -, heq⟩
    · exact ⟨_, heq⟩
    · exact ⟨_, heq⟩
    · exact ⟨_, heq⟩
  obtain ⟨b, hrun, hiff⟩ := Worklist.run_total (.throw "vWorkQueue") (h.descends hrank) _ [wtx]
    (fun ptx hptx => List.mem_singleton.mp hptx ▸ h.mem) (Nat.le_refl _) hok
  exact ⟨b, _, fun nSteps hn => (trustedFrom_eq_run prevs nSteps [wtx]).trans (hrun nSteps hn),
    hiff.trans h.passes_iff⟩

/-- `IsTrusted` of it is the search. -/
theorem Setting.isTrusted_eq {hash : Uint256} (h : Setting P S s w (w.vtxPrev hash) wtx)
    (hconf : w.fConfChange = false) {c : CreditCache} (hcache : ∀ nDebit, c.nDebitCached = some nDebit → 0 < nDebit) :
    ∃ c', ∀ nSteps, w.isTrusted P s nSteps hash wtx c =
      (w.trustedFrom P s (w.vtxPrev hash) nSteps [wtx]).map fun fTrusted => (fTrusted, c') := by
  -- the debit is positive, remembered or not
  have hdebit : ∃ nDebit c', w.getDebitCached wtx c = .ok (nDebit, c') ∧ 0 < nDebit := by
    obtain ⟨nDebit, hnDebit, hpos⟩ : ∃ nDebit, w.getDebit wtx.tx = .ok nDebit ∧ 0 < nDebit := by
      have hours := h.ours
      unfold CWallet.isFromMe at hours
      cases hd : w.getDebit wtx.tx with
      | error e =>
        rw [hd] at hours
        cases hours
      | ok nDebit =>
        rw [hd] at hours
        exact ⟨nDebit, rfl, of_decide_eq_true (Except.ok.inj hours)⟩
    unfold getDebitCached
    have hvin : ¬wtx.tx.vin = [] := by
      intro hnil
      unfold CWallet.getDebit at hnDebit
      rw [hnil] at hnDebit
      obtain rfl := Except.ok.inj hnDebit
      omega
    rw [if_neg hvin]
    cases hc : c.nDebitCached with
    | some nDebit' => exact ⟨nDebit', c, rfl, hcache nDebit' hc⟩
    | none =>
      rw [hnDebit]
      exact ⟨nDebit, _, rfl, hpos⟩
  obtain ⟨nDebit, c', hget, hpos⟩ := hdebit
  refine ⟨c', fun nSteps => ?_⟩
  have hfinal : ¬isFinal s wtx = false := by rw [h.final]; exact Bool.noConfusion
  have hdepth := h.depth
  unfold isTrusted
  rw [if_neg hfinal, if_neg (by omega), if_neg (by omega), hconf, if_neg Bool.noConfusion, hget]
  show (if nDebit > 0 then _ else _) = _
  rw [if_pos hpos]
  cases w.trustedFrom P s (w.vtxPrev hash) nSteps [wtx] <;> rfl

/-- **Trust by what holds now.**  Of a transaction of ours that is final and waits in the pool, with beside it
    what was put there when it was made: `IsTrusted` comes to an end and is right just when, if there is trust now,
    every ancestor has a copy, and every confirmed one a final copy that knows its block. -/
theorem isTrusted_live_iff (P : Primitives) (S : Set CTransaction) (s₀ s : NodeState) (w₀ w : CachedWallet)
    (nTurns : Nat) (made made' wtx : CWalletTx) (hash : Uint256) (c : CreditCache) (hsources : Sources S s₀ w₀)
    (hadd : w₀.addSupportingTransactions P s₀ nTurns made = some (made', w.vtxPrev hash)) (hmade : made.tx = wtx.tx)
    (hmem : made.tx ∈ S) (hinj : Set.InjOn P.getHash S) (hlink : s.TipLinked) (hkept : PoolKept P S s w)
    (hfinal : isFinal s wtx = true) (hdepth : s.walletDepth P wtx = 0) (hours : w.isFromMe wtx.tx = .ok true)
    (hcache : ∀ nDebit, c.nDebitCached = some nDebit → 0 < nDebit) (hconf : w.fConfChange = false) :
    (∃ fTrusted c', (∃ n, ∀ nSteps, n ≤ nSteps → w.isTrusted P s nSteps hash wtx c = .ok (fTrusted, c')) ∧
      (fTrusted = true ↔ LiveTrust P s w wtx.tx)) ↔
    (LiveTrust P s w wtx.tx → UpToDate P s (w.vtxPrev hash) wtx.tx) := by
  have h : Setting P S s w (w.vtxPrev hash) wtx :=
    ⟨hinj, hlink, hkept, (addSupportingTransactions_mem hsources hadd).2, hmade ▸ hmem, hfinal, hdepth, hours⟩
  obtain ⟨b, n, hrun, hb⟩ := h.trustedFrom_total
  obtain ⟨c', heq⟩ := h.isTrusted_eq hconf hcache
  have htrusted : ∀ nSteps, n ≤ nSteps → w.isTrusted P s nSteps hash wtx c = .ok (b, c') := by
    intro nSteps hn
    rw [heq, hrun nSteps hn]
    rfl
  constructor
  · rintro ⟨fTrusted, c'', ⟨n', hn'⟩, hiff⟩ hlive
    have hsame := (hn' (max n n') (Nat.le_max_right n n')).symm.trans (htrusted (max n n') (Nat.le_max_left n n'))
    obtain ⟨rfl, -⟩ := Prod.mk.inj (Except.ok.inj hsame)
    exact (hb.mp (hiff.mpr hlive)).2
  · intro hupto
    refine ⟨b, c', ⟨n, htrusted⟩, hb.trans ⟨fun hboth => hboth.1, fun hlive => ⟨hlive, hupto hlive⟩⟩⟩

end CachedWallet

/-! ## A payment that is confirmed later -/

namespace Confirming

open Sample NodeState

def hashPayment : Uint256 := 0x2f077cd18e72b846bcf4305b8780a91794160504a08ddba3662c8157048e9cd6
def hashChange : Uint256 := 0xf067cff23be0f5d9252f60aa06a4821009445f5dcffe06af0b09a0742fba1a89

/-- Of the coinbase 0x11 and the payment. -/
def hashRoot : Uint256 := 0xe9debd0716f05018ec44f2a583186ec4ad976d030e95e8d9968af1f5bc03876c

/-- A payment to the wallet, and what the wallet makes of it. -/
def payment : CTransaction :=
  ⟨1, 1398950000, [⟨⟨7, 0⟩, [], 0xffffffff⟩], [⟨5 * COIN, Forging.keyScript⟩], 0⟩
def change : CTransaction :=
  ⟨1, 1398950010, [⟨⟨hashPayment, 0⟩, [], 0xffffffff⟩], [⟨5 * COIN, Forging.keyScript⟩], 0⟩

def S : Set CTransaction := { tx | tx ∈ [(payment, hashPayment), (change, hashChange)].map Prod.fst }

/-- The payment is hashed with a coinbase into the root of a block. -/
def primitives : Primitives := Primitives.ofTables [(payment, hashPayment), (change, hashChange)] []
  [((0x11, hashPayment), hashRoot)]

def indexPayment : CBlockIndex := { Switching.indexA1 with hashMerkleRoot := hashRoot }

/-- A node with this tip, and these transactions in the pool. -/
def nodeAt (pindexBest : BlockPtr) (mapTx : StdMap Uint256 CTransaction) : NodeState where
  fTestNet := false
  nAdjustedTime := 1398950020
  files := Switching.node.files
  tree := { Switching.tree with
    mapBlockIndex := [[indexPayment, genesis], [genesis]].foldr (fun ptr m => m.insert
      ((ptr.head?.map CBlockIndex.hashBlock).getD 0) ptr) ∅ }
  mem := Function.update freshMem hashGenesisBlock
    { BlockMem.new with pnext := nextOn pindexBest hashGenesisBlock }
  txdb := emptyDb
  pindexGenesisBlock := [genesis]
  hashBestChain := (pindexBest.head?.map CBlockIndex.hashBlock).getD 0
  pindexBest := pindexBest
  nBestHeight := ((pindexBest.head?.map CBlockIndex.nHeight).getD 0 : Nat)
  nBestChainTrust := genesis.nChainTrust
  nBestInvalidTrust := 0
  mempool := ⟨mapTx, ∅⟩
  wallets := []
  commits := []

/-- The payment waits in the pool. -/
def before : NodeState := nodeAt [genesis] ((∅ : StdMap Uint256 CTransaction).insert hashPayment payment)

/-- The payment is in a block, the change waits. -/
def after : NodeState := nodeAt [indexPayment, genesis] ((∅ : StdMap Uint256 CTransaction).insert hashChange change)

/-- The record of the payment once its block is known. -/
def known : CWalletTx := { CWalletTx.ofTx payment with
  hashBlock := indexPayment.hashBlock, vMerkleBranch := [0x11], nIndex := 1 }

/-- A wallet with the payment, and with these copies beside the change. -/
def wallet (record : CWalletTx) (prevs : List CWalletTx) : CachedWallet where
  isMine := Forging.keystore.isMine Forging.keyPrimitives
  nMinimumInputValue := 0
  mapWallet := (∅ : StdMap Uint256 CWalletTx).insert hashPayment record
  nOrderPosNext := 2
  acentries := []
  keystore := Forging.keystore
  mapAddressBook := []
  fConfChange := false
  vtxPrev hash := if hash = hashChange then prevs else []
  cache := fun _ => CreditCache.dirty

theorem ancestor_change {hash : Uint256} (h : after.Ancestor change hash) : hash = hashPayment := by
  induction h with
  | parent htxin => rw [List.mem_singleton.mp htxin]
  | further _ hpool _ ih =>
    subst ih
    cases hpool

theorem confirmed_payment : after.Confirmed primitives hashPayment := ⟨known, rfl, by decide⟩

theorem live_change (record : CWalletTx) (prevs : List CWalletTx) :
    CachedWallet.LiveTrust primitives after (wallet record prevs) change := by
  intro hash hanc hun
  rw [ancestor_change hanc] at hun
  exact absurd confirmed_payment hun

/-- What does not stand in the one pair climbs to nothing. -/
theorem checkMerkleBranch_of_ne : ∀ (vMerkleBranch : List Uint256) (hash : Uint256) (nIndex : Nat),
    hash ≠ 0x11 → hash ≠ hashPayment → checkMerkleBranch primitives hash vMerkleBranch nIndex = hash ∨
      checkMerkleBranch primitives hash vMerkleBranch nIndex = 0
  | [], _, _, _, _ => Or.inl rfl
  | otherside :: vMerkleBranch, hash, nIndex, hne, hne' => by
    have hpair : ∀ a b : Uint256, a ≠ 0x11 ∨ b ≠ hashPayment → primitives.hashPair a b = 0 := by
      intro a b hab
      show (List.lookup (a, b) [((0x11, hashPayment), hashRoot)]).getD 0 = 0
      have hfalse : ((a, b) == ((0x11 : Uint256), hashPayment)) = false := by
        rw [beq_eq_false_iff_ne]
        intro heq
        obtain ⟨ha, hb⟩ := Prod.mk.inj heq
        rcases hab with h | h
        · exact h ha
        · exact h hb
      rw [List.lookup_cons, hfalse]
      rfl
    rw [checkMerkleBranch, hpair _ _ (Or.inr hne'), hpair _ _ (Or.inl hne), ite_self]
    right
    rcases checkMerkleBranch_of_ne vMerkleBranch 0 (nIndex / 2) (by decide) (by decide) with h | h
    · exact h
    · exact h

/-- The two blocks. -/
theorem mem_tree {hash : Uint256} {ptr : BlockPtr} (h : after.tree.mapBlockIndex.lookup hash = some ptr) :
    (hash, ptr) = (indexPayment.hashBlock, [indexPayment, genesis]) ∨
      (hash, ptr) = (hashGenesisBlock, [genesis]) := by
  have hmem : (⟨hash, ptr⟩ : (_ : Uint256) × BlockPtr) ∈
      [(⟨indexPayment.hashBlock, [indexPayment, genesis]⟩ : (_ : Uint256) × BlockPtr),
        ⟨hashGenesisBlock, [genesis]⟩] := AList.mem_lookup_iff.mp h
  rcases List.mem_pair.mp hmem with heq | heq
  · obtain ⟨rfl, hptr⟩ := Sigma.mk.inj heq
    rw [eq_of_heq hptr]
    exact Or.inl rfl
  · obtain ⟨rfl, hptr⟩ := Sigma.mk.inj heq
    rw [eq_of_heq hptr]
    exact Or.inr rfl

theorem not_confirmed_change : ¬after.Confirmed primitives hashChange := by
  rintro ⟨wtx, hhash, hdepth⟩
  obtain ⟨pindex, pprev, hlookup, hroot⟩ := merkle_of_walletDepth hdepth
  rw [hhash] at hroot
  have hne : pindex.hashMerkleRoot ≠ hashChange ∧ pindex.hashMerkleRoot ≠ 0 := by
    rcases mem_tree hlookup with heq | heq
    · obtain ⟨rfl, -⟩ := List.cons.inj (Prod.mk.inj heq).2
      exact ⟨by decide, by decide⟩
    · obtain ⟨rfl, -⟩ := List.cons.inj (Prod.mk.inj heq).2
      exact ⟨by decide, by decide⟩
  rcases checkMerkleBranch_of_ne wtx.vMerkleBranch hashChange wtx.nIndex.toNat (by decide) (by decide) with h | h
  · exact hne.1 (hroot.symm.trans h)
  · exact hne.2 (hroot.symm.trans h)

theorem tipLinked_after : TipLinked after where
  rooted := {
    keyed := by
      intro hash ptr h
      rcases mem_tree h with heq | heq
      · obtain ⟨rfl, rfl⟩ := Prod.mk.inj heq
        rfl
      · obtain ⟨rfl, rfl⟩ := Prod.mk.inj heq
        rfl
    parent := by
      rintro p prev rest ⟨hash, h⟩
      rcases mem_tree h with heq | heq
      · obtain ⟨-, hrest⟩ := List.cons.inj (Prod.mk.inj heq).2
        rw [hrest]
        exact ⟨hashGenesisBlock, by decide⟩
      · cases (List.cons.inj (Prod.mk.inj heq).2).2
    root := by
      refine ⟨genesis, rfl, ?_⟩
      rintro ptr ⟨hash, h⟩
      rcases mem_tree h with heq | heq
      · exact ⟨[indexPayment], (Prod.mk.inj heq).2⟩
      · exact ⟨[], (Prod.mk.inj heq).2⟩
    height := by
      rintro p prev rest ⟨hash, h⟩
      rcases mem_tree h with heq | heq
      · obtain ⟨rfl, hrest⟩ := List.cons.inj (Prod.mk.inj heq).2
        obtain ⟨rfl, -⟩ := List.cons.inj hrest
        decide
      · cases (List.cons.inj (Prod.mk.inj heq).2).2 }
  zero := by
    show ∀ g ∈ [genesis], g.nHeight = 0
    decide
  inTree := ⟨indexPayment.hashBlock, by decide⟩
  tip := rfl
  height := rfl
  links := by
    intro hash
    show (Function.update freshMem hashGenesisBlock _ hash).pnext =
      if genesis.hashBlock = hash then some indexPayment.hashBlock else none
    by_cases h : hash = hashGenesisBlock
    · subst h
      rw [Function.update_self]
      rfl
    · rw [Function.update_of_ne h, if_neg fun heq => h heq.symm]
      rfl

theorem mem_S : payment ∈ S ∧ change ∈ S :=
  ⟨List.mem_cons_self, List.mem_cons_of_mem payment List.mem_cons_self⟩

theorem poolKept_after : CachedWallet.PoolKept primitives S after (wallet known [known]) := by
  have hpool : ∀ hash t, after.mempool.mapTx.lookup hash = some t → hash = hashChange ∧ t = change := by
    intro hash t h
    have hmem : (⟨hash, t⟩ : (_ : Uint256) × CTransaction) ∈
        [(⟨hashChange, change⟩ : (_ : Uint256) × CTransaction)] :=
      AList.mem_lookup_iff.mp h
    obtain ⟨rfl, ht⟩ := Sigma.mk.inj (List.mem_singleton.mp hmem)
    exact ⟨rfl, eq_of_heq ht⟩
  refine ⟨?_, ?_, ⟨fun hash => hash.toNat, ?_⟩, ?_⟩
  · intro hash t h
    obtain ⟨rfl, rfl⟩ := hpool hash t h
    exact ⟨rfl, mem_S.2⟩
  · intro hash t h
    obtain ⟨rfl, rfl⟩ := hpool hash t h
    exact not_confirmed_change
  · intro hash t h txin htxin
    obtain ⟨rfl, rfl⟩ := hpool hash t h
    rw [List.mem_singleton.mp htxin]
    decide
  · intro hash t h
    obtain ⟨rfl, rfl⟩ := hpool hash t h
    exact ⟨true, by decide⟩

theorem sources_known : CachedWallet.Sources S (nodeAt [indexPayment, genesis] ∅) (wallet known []) where
  wallet hash wtx h := by
    have hmem : (⟨hash, wtx⟩ : (_ : Uint256) × CWalletTx) ∈ [(⟨hashPayment, known⟩ : (_ : Uint256) × CWalletTx)] :=
      AList.mem_lookup_iff.mp h
    obtain ⟨rfl, hwtx⟩ := Sigma.mk.inj (List.mem_singleton.mp hmem)
    rw [eq_of_heq hwtx]
    exact mem_S.1
  beside hash prev h := by
    change prev ∈ (if hash = hashChange then [] else []) at h
    rw [ite_self] at h
    cases h
  disk hash wtx h := by cases h

theorem injOn_S : Set.InjOn primitives.getHash S := Primitives.ofTables_injOn (by decide) (by decide)

end Confirming

/-- The payment is in a block by the time the change is made: the copy knows it, and the change is trusted. -/
theorem CachedWallet.isTrusted_known :
    let w := Confirming.wallet Confirming.known [Confirming.known]
    ∃ fTrusted c', (∃ n, ∀ nSteps, n ≤ nSteps → w.isTrusted Confirming.primitives Confirming.after nSteps
        Confirming.hashChange (CWalletTx.ofTx Confirming.change) CreditCache.dirty = .ok (fTrusted, c')) ∧
      (fTrusted = true ↔ CachedWallet.LiveTrust Confirming.primitives Confirming.after w Confirming.change) := by
  refine (CachedWallet.isTrusted_live_iff Confirming.primitives Confirming.S
    (Confirming.nodeAt [Confirming.indexPayment, Sample.genesis] ∅) Confirming.after
    (Confirming.wallet Confirming.known []) (Confirming.wallet Confirming.known [Confirming.known]) 2
    (CWalletTx.ofTx Confirming.change) (CWalletTx.ofTx Confirming.change) (CWalletTx.ofTx Confirming.change)
    Confirming.hashChange CreditCache.dirty Confirming.sources_known (by decide) rfl Confirming.mem_S.2
    Confirming.injOn_S Confirming.tipLinked_after Confirming.poolKept_after (by decide) (by decide) (by decide)
    (fun nDebit h => by cases h) rfl).mpr fun _ hash hanc => ?_
  rw [Confirming.ancestor_change hanc]
  exact ⟨Confirming.known, by decide, fun _ => ⟨by decide, by decide⟩⟩

/-- The change is made while the payment waits, and copied with it.  Then the payment is confirmed, nothing
    unconfirmed is behind the change, and it is not trusted. -/
theorem CachedWallet.isTrusted_confirmed_since :
    let w := Confirming.wallet Confirming.known [CWalletTx.ofTx Confirming.payment]
    (Confirming.wallet (CWalletTx.ofTx Confirming.payment) []).addSupportingTransactions Confirming.primitives
        Confirming.before 2 (CWalletTx.ofTx Confirming.change) =
      some (CWalletTx.ofTx Confirming.change, w.vtxPrev Confirming.hashChange) ∧
    CachedWallet.isFinal Confirming.after (CWalletTx.ofTx Confirming.change) = true ∧
    Confirming.after.walletDepth Confirming.primitives (CWalletTx.ofTx Confirming.change) = 0 ∧
    w.isFromMe Confirming.change = .ok true ∧ w.fConfChange = false ∧
    CachedWallet.LiveTrust Confirming.primitives Confirming.after w Confirming.change ∧
    ∃ c', ∀ nSteps, w.isTrusted Confirming.primitives Confirming.after (nSteps + 2) Confirming.hashChange
      (CWalletTx.ofTx Confirming.change) CreditCache.dirty = .ok (false, c') := by
  refine ⟨by decide, by decide, by decide, by decide, rfl, Confirming.live_change _ _, ⟨some (5 * COIN), none⟩, ?_⟩
  intro nSteps
  rfl

end Silkcoin
