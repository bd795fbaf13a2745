/-
  What a `tx` message leaves behind, and whom it tells.

  Two things go wrong in the loop of the handler.

  * It looks into `mapOrphanTransactionsByPrev` with `[]`, which makes an EMPTY entry under the hash of
    every accepted transaction that nothing stored spends.  Nobody removes it.
    `orphans_indexed_of_clear`: in every run without such a transaction the two maps are inverse, no
    entry is empty, and the number of orphans bounds both.  `emptyEntry_left` is a run with one.
  * An accepted orphan is relayed, but the WALLETS are told of the transaction of the message once more.
    `resolved_iff`: what is accepted, relayed and told to the wallets is the same if and only if no
    orphan is accepted.  `child_untold` is a child that its wallet is not told of.
-/
import Silkcoin.OrphanTx
import Silkcoin.PoolConflicts

namespace Silkcoin

open Validation BatchStore

/-! ## Every run -/

/-- A stored orphan spends from the transaction. -/
def OrphanPool.SpendsFrom (P : Primitives) (orphans : OrphanPool) (tx : CTransaction) : Prop :=
  ∃ hash orphanTx, orphans.mapOrphanTransactions.lookup hash = some orphanTx ∧
    P.getHash tx ∈ orphanTx.prevHashes

/-- Any order of calls and messages; `C` is asked of a message, of the maps it finds and what it does. -/
inductive OrphanRun (P : Primitives) (C : OrphanPool → Resolving → Prop) : OrphanPool → Prop where
  | empty : OrphanRun P C OrphanPool.empty
  | add {s : OrphanPool} (h : OrphanRun P C s) (tx : CTransaction) :
      OrphanRun P C (s.addOrphanTx P tx).2
  | erase {s : OrphanPool} (h : OrphanRun P C s) (hash : Uint256) : OrphanRun P C (s.eraseOrphanTx hash)
  | limit {s : OrphanPool} (h : OrphanRun P C s) (nMaxOrphans : Nat) (rand : List Uint256) :
      OrphanRun P C (s.limitOrphanTxSize nMaxOrphans rand)
  | message {s : OrphanPool} (h : OrphanRun P C s) {A : AcceptSource} (hA : A.P = P) {tx : CTransaction}
      {pool : CTxMemPool} {rand : List Uint256} {r : Resolving}
      (hr : Resolving.processTx A tx pool s rand = .ok r) (hC : C s r) : OrphanRun P C r.orphans

/-- Every transaction that the message brings into the pool is spent by a stored orphan. -/
def AllSpent (P : Primitives) (s : OrphanPool) (r : Resolving) : Prop :=
  ∀ tx ∈ r.accepted, s.SpendsFrom P tx

namespace OrphanRun

variable {P : Primitives} {C : OrphanPool → Resolving → Prop} {s : OrphanPool}

theorem filed (h : OrphanRun P C s) : s.Filed P := by
  induction h with
  | empty => exact OrphanPool.tidy_empty.toFiled
  | add _ tx ih => exact ih.addOrphanTx tx
  | erase _ hash ih => exact ih.eraseOrphanTx hash
  | limit _ nMaxOrphans rand ih =>
    exact OrphanPool.limitLoop_keeps (I := fun o => o.Filed P)
      (fun _ hash h => h.eraseOrphanTx hash) _ _ _ ih
  | message _ hA hr _ ih =>
    subst hA
    exact Resolving.processTx_filed ih hr

theorem tidy (h : OrphanRun P (AllSpent P) s) : s.Tidy P := by
  refine ⟨h.filed, ?_⟩
  induction h with
  | empty => exact (OrphanPool.tidy_empty : OrphanPool.empty.Tidy P).noResidue
  | add _ tx ih => exact OrphanPool.noResidue_addOrphanTx ih tx
  | erase _ hash ih => exact OrphanPool.noResidue_eraseOrphanTx ih hash
  | limit _ nMaxOrphans rand ih =>
    exact OrphanPool.limitLoop_keeps (I := fun o => NoResidue o.mapOrphanTransactionsByPrev)
      (fun _ hash h => OrphanPool.noResidue_eraseOrphanTx h hash) _ _ _ ih
  | @message s h A hA tx pool rand r hr hspent ih =>
    subst hA
    refine Resolving.processTx_noResidue ⟨h.filed, ih⟩ hr fun hash hmem => ?_
    rw [Resolving.processTx_queue h.filed hr] at hmem
    obtain ⟨t, ht, rfl⟩ := List.mem_map.mp hmem
    obtain ⟨hash', orphanTx, hlookup, hprev⟩ := hspent t ht
    exact ⟨hash', (h.filed.index _ hash').mpr ⟨orphanTx, hlookup, hprev⟩⟩

end OrphanRun

/-- In every run in which each transaction that a message brings into the pool is spent by a stored
    orphan, the second map is the inverse of the first, no entry of it is empty, and its size is bounded
    by the number of orphans. -/
theorem orphans_indexed_of_clear {P : Primitives} {s : OrphanPool} (h : OrphanRun P (AllSpent P) s) :
    (∀ hash p, (∃ set, s.mapOrphanTransactionsByPrev.lookup p = some set ∧ hash ∈ set) ↔
      ∃ tx, s.mapOrphanTransactions.lookup hash = some tx ∧
        ∃ txin ∈ tx.vin, txin.prevout.hash = p) ∧
    (∀ p set, s.mapOrphanTransactionsByPrev.lookup p = some set → set.Nonempty) ∧
    s.mapOrphanTransactionsByPrev.keys.length ≤ 121 * s.size := by
  have htidy := h.tidy
  refine ⟨fun hash p => ?_, htidy.noResidue, htidy.keys_length_le⟩
  have hunder : (∃ set, s.mapOrphanTransactionsByPrev.lookup p = some set ∧ hash ∈ set) ↔
      hash ∈ under s.mapOrphanTransactionsByPrev p := by
    unfold under
    cases s.mapOrphanTransactionsByPrev.lookup p with
    | none =>
      constructor
      · rintro ⟨set, hf, -⟩
        cases hf
      · exact fun hf => absurd hf (Finset.notMem_empty _)
    | some set =>
      constructor
      · rintro ⟨set', heq, hmem⟩
        cases heq
        exact hmem
      · exact fun hmem => ⟨set, rfl, hmem⟩
  rw [hunder, htidy.index p hash]
  unfold CTransaction.prevHashes
  simp only [List.mem_map]

/-! ## Bounds -/

/-- Messages only: nothing else adds an orphan. -/
inductive TxRun (P : Primitives) : OrphanPool → Prop where
  | empty : TxRun P OrphanPool.empty
  | message {s : OrphanPool} (h : TxRun P s) {A : AcceptSource} (hA : A.P = P) {tx : CTransaction}
      {pool : CTxMemPool} {rand : List Uint256} {r : Resolving}
      (hr : Resolving.processTx A tx pool s rand = .ok r) : TxRun P r.orphans

/-- **ORPHANS ARE BOUNDED** in number and in bytes, whatever messages come. -/
theorem TxRun.orphans_bounded {P : Primitives} {s : OrphanPool} (h : TxRun P s) :
    s.size ≤ MAX_ORPHAN_TRANSACTIONS ∧
      (s.mapOrphanTransactions.entries.map fun e => e.2.getSerializeSize).sum ≤ 50000000 := by
  obtain ⟨hf, hsize⟩ : s.Filed P ∧ s.size ≤ MAX_ORPHAN_TRANSACTIONS := by
    induction h with
    | empty => exact ⟨OrphanPool.tidy_empty.toFiled, Nat.zero_le _⟩
    | @message s _ A hA tx pool rand r hr ih =>
      subst hA
      refine ⟨Resolving.processTx_filed ih.1 hr, ?_⟩
      rcases Resolving.processTx_cases ih.1 tx pool rand with
        ⟨-, r', -, hworked, -, -, heq⟩ | ⟨-, r', heq, -, -, -, -, -, horphans⟩
      · rw [heq] at hr
        cases hr
        refine OrphanPool.foldl_eraseOrphanTx_keeps (I := fun o => o.size ≤ MAX_ORPHAN_TRANSACTIONS)
          (fun o hash ho => ?_) _ ?_
        · cases hlookup : o.mapOrphanTransactions.lookup hash with
          | none =>
            unfold OrphanPool.eraseOrphanTx
            rwa [hlookup]
          | some tx =>
            rw [← OrphanPool.size_eraseOrphanTx hlookup] at ho
            exact Nat.le_of_succ_le ho
        · unfold OrphanPool.size
          rw [hworked.stored]
          exact ih.2
      · rw [heq] at hr
        cases hr
        rcases horphans with horphans | horphans
        · rw [horphans]
          exact ih.2
        · rw [horphans]
          exact OrphanPool.size_limitOrphanTxSize _ _
  refine ⟨hsize, ?_⟩
  calc (s.mapOrphanTransactions.entries.map fun e => e.2.getSerializeSize).sum
      ≤ s.size * 5000 := by
        refine (List.sum_le_card_nsmul _ 5000 fun n hn => ?_).trans_eq (by rw [List.length_map]; rfl)
        obtain ⟨e, he, rfl⟩ := List.mem_map.mp hn
        exact hf.small e.1 e.2 (AList.mem_lookup_iff.mpr he)
    _ ≤ 50000000 := Nat.mul_le_mul_right 5000 hsize

/-! ## A transaction and its child

  The transaction spends the first coinbase of a test chain of eleven blocks; the child spends it.
-/

namespace Arriving

open Sample Ripening

/-- It spends the one output of `tx`. -/
def child : CTransaction :=
  spend 0x5bbb26bb68f1d50327a78ed9675c314a27fa7a961f9e2bc9dad7fa93a3c7c473 1398948040 (4998 * COIN) 0

/-- Where the first coinbase is in the block files. -/
def posCoinBaseK1 : CDiskTxPos :=
  ((chainK11.getLast?).map fun c => CBlock.txPosition c.pindex c.block []).getD CDiskTxPos.null

def source : AcceptSource where
  P := Primitives.ofTables
    (txs ++ [(child, 0xea79634660f502433b58db1b31c87e593c7e92e50e8902d28ec5ec282df5c2c6)]) [] []
  relay _ := Ripening.relay
  g :=
    { fTestNet := true
      nAdjustedTime := 1398950000
      pindexBest := ptrK11
      nBestHeight := 11
      mempool := fun _ => none
      files := filesOf chainK11 }
  txdb := emptyDb.updateTxIndex hashCoinBaseK1 (CTxIndex.new posCoinBaseK1 1)

/-- The message with `tx`, on these maps and an empty pool. -/
def receivedTx (orphans : OrphanPool) : Resolving :=
  ((Resolving.processTx source tx CTxMemPool.clear orphans []).toOption).getD
    (Resolving.start source tx CTxMemPool.clear orphans)

/-- The message with the child, before its parent is known. -/
def receivedChild : Resolving :=
  ((Resolving.processTx source child CTxMemPool.clear OrphanPool.empty []).toOption).getD
    (Resolving.start source tx CTxMemPool.clear OrphanPool.empty)

theorem receivedChild_eq :
    Resolving.processTx source child CTxMemPool.clear OrphanPool.empty [] = .ok receivedChild :=
  eq_ok_getD (by decide) _

theorem run_child {C : OrphanPool → Resolving → Prop} (hC : C OrphanPool.empty receivedChild) :
    OrphanRun source.P C receivedChild.orphans :=
  OrphanRun.empty.message rfl receivedChild_eq hC

end Arriving

theorem orphans_indexed_of_clear_child : ∃ set,
    Arriving.receivedChild.orphans.mapOrphanTransactionsByPrev.lookup
      (Arriving.source.P.getHash Ripening.tx) = some set ∧
    Arriving.source.P.getHash Arriving.child ∈ set := by
  have hrun := Arriving.run_child (C := AllSpent Arriving.source.P) fun t ht => by
    rw [show Arriving.receivedChild.accepted = [] by decide] at ht
    cases ht
  refine ((orphans_indexed_of_clear hrun).1 _ _).mpr ⟨Arriving.child, by decide, ?_⟩
  exact ⟨⟨⟨0x5bbb26bb68f1d50327a78ed9675c314a27fa7a961f9e2bc9dad7fa93a3c7c473, 0⟩, [], 0xffffffff⟩,
    List.mem_cons_self, by decide⟩

theorem orphans_bounded_child : Arriving.receivedChild.orphans.size ≤ MAX_ORPHAN_TRANSACTIONS ∧
    (Arriving.receivedChild.orphans.mapOrphanTransactions.entries.map fun e =>
      e.2.getSerializeSize).sum ≤ 50000000 :=
  TxRun.orphans_bounded (TxRun.empty.message rfl Arriving.receivedChild_eq)

/-- Nothing stored spends the transaction, and its entry stays, with nothing under it. -/
theorem emptyEntry_left : ∃ s, OrphanRun Arriving.source.P (fun _ _ => True) s ∧
    s.mapOrphanTransactionsByPrev.lookup (Arriving.source.P.getHash Ripening.tx) = some ∅ := by
  have hreceived : Resolving.processTx Arriving.source Ripening.tx CTxMemPool.clear OrphanPool.empty [] =
    .ok (Arriving.receivedTx OrphanPool.empty) := eq_ok_getD (by decide +kernel) _
  exact ⟨_, OrphanRun.empty.message rfl hreceived trivial, by decide +kernel⟩

/-! ## Who is told of what -/

namespace Resolving

variable {A : AcceptSource} {tx : CTransaction} {s : OrphanPool} {r r' : Resolving}

/-- What is asked of a message: the same transactions are accepted, relayed and told to the wallets; and
    each orphan that spends from an accepted one was tried once, and is gone if it was accepted. -/
structure Resolved (P : Primitives) (s : OrphanPool) (r : Resolving) : Prop where
  synced : ∀ t, t ∈ r.synced ↔ t ∈ r.accepted
  relayed : ∀ t, t ∈ r.relayed ↔ t ∈ r.accepted
  retried : ∀ t ∈ r.accepted, ∀ hash orphanTx,
    s.mapOrphanTransactions.lookup hash = some orphanTx → P.getHash t ∈ orphanTx.prevHashes →
      r.retried.count hash = 1 ∧
      (orphanTx ∈ r.accepted → r.orphans.mapOrphanTransactions.lookup hash = none)

/-- An orphan that is tried is accepted, or nothing but the erase queue and the counters change. -/
theorem tryOrphan_cases {hash : Uint256} {t : CTransaction}
    (ht : r.orphans.mapOrphanTransactions.lookup hash = some t)
    (h : r.tryOrphan A tx hash = .ok r') :
    (∃ pool', A.acceptToMemoryPool r.pool r.nCalls t = .ok pool' ∧
      r'.accepted = r.accepted ++ [t]) ∨
    (∀ pool', A.acceptToMemoryPool r.pool r.nCalls t ≠ .ok pool') ∧ r'.pool = r.pool ∧
      r'.nCalls = r.nCalls + 1 ∧ r'.accepted = r.accepted ∧ r'.synced = r.synced ∧
      r'.relayed = r.relayed := by
  have htake : r.orphanTx A hash = (t, r) := by
    unfold orphanTx
    rw [ht]
  unfold tryOrphan at h
  rw [htake] at h
  dsimp only at h
  rw [Nat.add_sub_cancel] at h
  cases hacc : A.acceptToMemoryPool r.pool r.nCalls t with
  | ok pool' =>
    rw [hacc] at h
    cases h
    exact Or.inl ⟨pool', rfl, rfl⟩
  | error e =>
    rw [hacc] at h
    refine Or.inr ⟨(fun _ hf => by cases hf), ?_⟩
    cases e with
    | throw what => cases h
    | reject nDoS msg =>
      dsimp only at h
      split at h <;> cases h <;> exact ⟨rfl, rfl, rfl, rfl, rfl⟩

/-- Trying a list accepts nothing if and only if all of it is refused; what was accepted before stays. -/
theorem tryAll_accepted (hf : s.Filed A.P) {o : Uint256} (hashes : List Uint256)
    (hw : Worked A tx s r) (hk : ∀ hash ∈ hashes, hash ∈ under s.mapOrphanTransactionsByPrev o)
    (h : hashes.foldlM (tryOrphan A tx) r = .ok r') :
    r.accepted <+: r'.accepted ∧
    (r'.accepted = r.accepted ↔ Refused A s r.pool r.nCalls hashes) ∧
    (r'.accepted = r.accepted → r'.synced = r.synced ∧ r'.relayed = r.relayed) := by
  induction hashes generalizing r with
  | nil =>
    cases h
    refine ⟨List.prefix_refl _, iff_of_true rfl fun i hash t hi => ?_, fun _ => ⟨rfl, rfl⟩⟩
    cases hi
  | cons hash hashes ih =>
    obtain ⟨r₁, hr₁, hw₁, -, -, horphans⟩ := hw.tryOrphan hf (hk hash List.mem_cons_self)
    rw [List.foldlM_cons, hr₁] at h
    obtain ⟨hpre, hiff, hlogs⟩ := ih hw₁ (fun hash' hmem => hk hash' (List.mem_cons_of_mem _ hmem)) h
    obtain ⟨t, ht, -⟩ := (hf.index o hash).mp (hk hash List.mem_cons_self)
    rcases tryOrphan_cases (by rw [hw.stored]; exact ht) hr₁ with
      ⟨pool', hacc, haccepted⟩ | ⟨hrefused, hpool, hcalls, haccepted, hsynced, hrelayed⟩
    · rw [haccepted] at hpre
      have hlonger : r'.accepted ≠ r.accepted := by
        intro heq
        have hle := hpre.length_le
        rw [heq, List.length_append, List.length_singleton] at hle
        omega
      refine ⟨(List.prefix_append _ _).trans hpre, iff_of_false hlonger fun hall => ?_,
        fun heq => absurd heq hlonger⟩
      exact hall 0 hash t rfl ht pool' hacc
    · rw [haccepted] at hpre hiff hlogs
      rw [hpool, hcalls] at hiff
      refine ⟨hpre, hiff.trans ⟨fun hall => ?_, fun hall => ?_⟩, fun heq => ?_⟩
      · intro i hash' t' hi ht'
        cases i with
        | zero =>
          cases hi
          rw [ht] at ht'
          cases ht'
          exact hrefused
        | succ i =>
          have hnext := hall i hash' t' hi ht'
          rw [Nat.add_assoc, Nat.add_comm 1 i] at hnext
          exact hnext
      · intro i hash' t' hi ht'
        have hnext := hall (i + 1) hash' t' hi ht'
        rw [Nat.add_assoc, Nat.add_comm 1 i]
        exact hnext
      · rw [← hsynced, ← hrelayed]
        exact hlogs heq

theorem tryUnder_accepted (hf : s.Filed A.P) (hw : Worked A tx s r) {hashPrev : Uint256}
    (hmem : hashPrev ∈ r.vWorkQueue) (h : r.tryUnder A tx hashPrev = .ok r') :
    r.accepted <+: r'.accepted ∧
    (r'.accepted = r.accepted ↔ Refused A s r.pool r.nCalls
      ((under s.mapOrphanTransactionsByPrev hashPrev).sort (· ≤ ·))) ∧
    (r'.accepted = r.accepted → r'.synced = r.synced ∧ r'.relayed = r.relayed) := by
  unfold tryUnder at h
  dsimp only at h
  rw [under_touch, hw.under_eq] at h
  have hall := tryAll_accepted hf _ (hw.touched hmem) (fun hash hhash => (Finset.mem_sort _).mp hhash) h
  exact hall

theorem resolve_accepted (hf : s.Filed A.P) {fuel i : Nat} (hw : Worked A tx s r)
    (h : resolve A tx fuel i r = .ok r') : r.accepted <+: r'.accepted := by
  induction fuel generalizing i r with
  | zero =>
    cases h
    exact List.prefix_refl _
  | succ fuel ih =>
    unfold resolve at h
    cases hnext : r.vWorkQueue[i]? with
    | none =>
      rw [hnext] at h
      cases h
      exact List.prefix_refl _
    | some hashPrev =>
      rw [hnext] at h
      dsimp only at h
      have hmem := List.mem_of_getElem? hnext
      obtain ⟨r₁, hr₁, hw₁, -⟩ := hw.tryUnder hf hmem
      rw [hr₁] at h
      exact (tryUnder_accepted hf hw hmem hr₁).1.trans (ih hw₁ h)

theorem lookup_foldl_eraseOrphanTx {hashes : List Uint256} {hash : Uint256} (h : hash ∈ hashes)
    (orphans : OrphanPool) :
    (hashes.foldl (fun orphans hash => orphans.eraseOrphanTx hash)
      orphans).mapOrphanTransactions.lookup hash = none := by
  -- what is gone does not come back
  have hgone : ∀ (hash' : Uint256) (orphans : OrphanPool),
      orphans.mapOrphanTransactions.lookup hash = none ∨ hash' = hash →
      (orphans.eraseOrphanTx hash').mapOrphanTransactions.lookup hash = none := by
    intro hash' orphans hor
    unfold OrphanPool.eraseOrphanTx
    split
    · rename_i hnone
      rcases hor with hnone' | rfl
      · exact hnone'
      · exact hnone
    · show (orphans.mapOrphanTransactions.erase hash').lookup hash = none
      by_cases heq : hash = hash'
      · rw [heq, AList.lookup_erase]
      · rw [AList.lookup_erase_ne heq]
        exact hor.resolve_right fun he => heq he.symm
  induction hashes generalizing orphans with
  | nil => cases h
  | cons hash' hashes ih =>
    rw [List.foldl_cons]
    rcases List.mem_cons.mp h with rfl | h
    · exact OrphanPool.foldl_eraseOrphanTx_keeps (I := fun o => o.mapOrphanTransactions.lookup hash = none)
        (fun orphans hash' h => hgone hash' orphans (Or.inl h)) _ (hgone hash orphans (Or.inr rfl))
    · exact ih h _

/-- In whatever order the maps came about: the wallets are told of exactly what is accepted and relayed,
    and the rest of `Resolved`, if and only if the message brings in nothing or every orphan that spends
    from its transaction is refused. -/
theorem resolved_iff {A : AcceptSource} {s : OrphanPool} (hrun : OrphanRun A.P (fun _ _ => True) s)
    (tx : CTransaction) (pool : CTxMemPool) (rand : List Uint256) :
    ∃ r, processTx A tx pool s rand = .ok r ∧ (Resolved A.P s r ↔ NoneFollows A tx pool s) := by
  have hf := hrun.filed
  cases hacc : A.acceptToMemoryPool pool 0 tx with
  | error e =>
    rcases processTx_cases hf tx pool rand with
      ⟨pool', r', hok, -⟩ | ⟨-, r', heq, haccepted, hsynced, hrelayed, -⟩
    · rw [hacc] at hok
      cases hok
    · refine ⟨r', heq, iff_of_true ⟨fun t => ?_, fun t => ?_, fun t ht => ?_⟩ fun pool' hok => ?_⟩
      · rw [hsynced, haccepted]
      · rw [hrelayed, haccepted]
      · rw [haccepted] at ht
        cases ht
      · rw [hacc] at hok
        cases hok
  | ok pool' =>
    have hw := worked_start (s := s) hacc
    have hmem : A.P.getHash tx ∈ (start A tx pool' s).vWorkQueue := List.mem_cons_self
    obtain ⟨r₁, hr₁, hw₁, hpre₁, hretried⟩ := hw.tryUnder hf hmem
    obtain ⟨happended, hiff, hlogs⟩ := tryUnder_accepted hf hw hmem hr₁
    have hfuel : s.size + 1 ≤ 1 + s.size := by omega
    obtain ⟨r', hr', hw', -⟩ := hw₁.resolve hf hfuel
    have hmessage : processTx A tx pool s rand = .ok { r' with
        orphans := r'.vEraseQueue.foldl (fun orphans hash => orphans.eraseOrphanTx hash) r'.orphans } := by
      have hresolve : resolve A tx (s.size + 1) 0 (start A tx pool' s) = .ok r' := by
        show (start A tx pool' s).tryUnder A tx (A.P.getHash tx) >>= resolve A tx s.size 1 = _
        rw [hr₁]
        exact hr'
      unfold processTx
      rw [hacc]
      dsimp only
      rw [hresolve]
      rfl
    refine ⟨_, hmessage, ⟨fun hresolved => ?_, fun hnone => ?_⟩⟩
    · -- the wallets were told of nothing but `tx`, so nothing else was accepted
      have hall : ∀ t ∈ r'.accepted, t = tx := fun t ht => hw'.synced t ((hresolved.synced t).mpr ht)
      have hall₁ : r₁.accepted = [tx] := by
        obtain ⟨rest, hrest⟩ := happended
        have hlater := resolve_accepted hf hw₁ hr'
        cases rest with
        | nil => exact hrest.symm
        | cons t rest =>
          have ht : t ∈ r₁.accepted := by
            rw [← hrest]
            exact List.mem_append_right _ List.mem_cons_self
          have heq := hall t (hlater.subset ht)
          have hnodup := hw₁.nodup
          rw [hw₁.queue, ← hrest, heq] at hnodup
          exact absurd List.mem_cons_self (List.nodup_cons.mp hnodup).1
      intro pool'' hok
      rw [hacc] at hok
      cases hok
      exact hiff.mp hall₁
    · have hall₁ : r₁.accepted = [tx] := hiff.mpr (hnone pool' hacc)
      obtain ⟨hsynced, hrelayed⟩ := hlogs hall₁
      -- the queue is at its end
      have hend : r' = r₁ := by
        have hqueue : r₁.vWorkQueue[1]? = none := by
          rw [hw₁.queue, hall₁]
          rfl
        cases hsize : s.size with
        | zero =>
          rw [hsize] at hr'
          cases hr'
          rfl
        | succ n =>
          rw [hsize] at hr'
          unfold resolve at hr'
          rw [hqueue] at hr'
          cases hr'
          rfl
      subst hend
      refine ⟨fun t => ?_, fun t => ?_, fun t ht hash orphanTx hlookup hprev => ⟨?_, fun hin => ?_⟩⟩
      · show t ∈ r'.synced ↔ t ∈ r'.accepted
        rw [hsynced, hall₁]
        rfl
      · show t ∈ r'.relayed ↔ t ∈ r'.accepted
        rw [hrelayed, hall₁]
        rfl
      · have ht : t ∈ r'.accepted := ht
        rw [hall₁] at ht
        rw [List.mem_singleton.mp ht] at hprev
        show r'.retried.count hash = 1
        rw [hretried]
        refine List.count_eq_one_of_mem (Finset.sort_nodup _ _) ((Finset.mem_sort _).mpr ?_)
        exact (hf.index _ hash).mpr ⟨orphanTx, hlookup, hprev⟩
      · have hin : orphanTx ∈ r'.accepted := hin
        refine lookup_foldl_eraseOrphanTx (hw'.erased hash ?_) _
        rw [hw'.queue, ← hf.keyed hash orphanTx hlookup]
        exact List.mem_map_of_mem hin

theorem resolved_iff_alone : ∃ r, processTx Arriving.source Ripening.tx CTxMemPool.clear
    OrphanPool.empty [] = .ok r ∧ Resolved Arriving.source.P OrphanPool.empty r := by
  obtain ⟨r, hr, hiff⟩ := resolved_iff (A := Arriving.source) OrphanRun.empty Ripening.tx CTxMemPool.clear
    []
  refine ⟨r, hr, hiff.mpr fun pool' _ i hash orphanTx hi ht => ?_⟩
  cases ht

/-- The child waits for its parent.  The parent comes in, and the child is accepted and relayed; the
    wallets are told of the parent twice and of the child never. -/
theorem child_untold : OrphanRun Arriving.source.P (fun _ _ => True) Arriving.receivedChild.orphans ∧
    ∃ r, processTx Arriving.source Ripening.tx CTxMemPool.clear Arriving.receivedChild.orphans [] =
      .ok r ∧ Arriving.child ∈ r.accepted ∧ Arriving.child ∈ r.relayed ∧ Arriving.child ∉ r.synced ∧
      ¬ Resolved Arriving.source.P Arriving.receivedChild.orphans r := by
  have hreceived : processTx Arriving.source Ripening.tx CTxMemPool.clear
    Arriving.receivedChild.orphans [] = .ok (Arriving.receivedTx Arriving.receivedChild.orphans) :=
    eq_ok_getD (by decide +kernel) _
  have haccepted : Arriving.child ∈ (Arriving.receivedTx Arriving.receivedChild.orphans).accepted := by
    decide +kernel
  have hsynced : Arriving.child ∉ (Arriving.receivedTx Arriving.receivedChild.orphans).synced := by
    decide +kernel
  exact ⟨Arriving.run_child trivial, _, hreceived, haccepted, by decide +kernel, hsynced,
    fun hf => hsynced ((hf.synced _).mpr haccepted)⟩

end Resolving
end Silkcoin
