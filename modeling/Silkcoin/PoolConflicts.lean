/-
  THE MEMORY POOL AGAINST THE CHAIN: no transaction of the pool spends what ANOTHER transaction of the
  connected chain spends (`ConflictFree`).

  The pool meets the chain in three places:

  1. `accept` with input checks reads the transaction index: an output that the chain has spent has its
     slot taken, and the transaction is refused (`acceptTx_unspent`).
  2. `Reorganize` puts the transactions of the old branch back and calls `remove` AND `removeConflicts`
     for those of the new one: nothing the new branch spends is spent in the pool any more
     (`foldl_removeConflicts`).
  3. `SetBestChainInner` calls `remove` ONLY.  What spends an outpoint of the new block without being
     in it (`NoRival` says there is none) stays.

  So the agreement holds in every state of a run whose extensions meet no rival, and an extension keeps
  it EXACTLY if it meets none (`conflictFree_iff_noRival`).
-/
import Silkcoin.TipAgreement
import Silkcoin.Mempool

namespace Silkcoin

open Validation BatchStore SpendLedger

/-- The transaction takes the outpoint; a coinbase takes none. -/
def CTransaction.Spends (tx : CTransaction) (o : COutPoint) : Prop :=
  tx.isCoinBase = false ∧ o ∈ tx.prevouts

namespace CTxMemPool

variable {P : Primitives} {relay : RelayPolicy} {g : Globals} {txdb : CTxDB} {S : Set CTransaction}
  {pool pool' : CTxMemPool}

/-! ## What taking out leaves -/

/-- Nothing in the pool spends the outpoint. -/
def Free (pool : CTxMemPool) (o : COutPoint) : Prop :=
  ∀ hash tx, pool.mapTx.lookup hash = some tx → o ∉ tx.prevouts

theorem Within.free (h : Within pool' pool) {o : COutPoint} (ho : Free pool o) : Free pool' o :=
  fun hash tx htx => ho hash tx (h hash tx htx)

theorem removeTx_eq (tx : CTransaction) : pool.removeTx P tx =
    if (pool.mapTx.lookup (P.getHash tx)).isSome then eraseTx (P := P) pool tx else pool :=
  remove_succ false 0 pool tx

/-- `remove` without what depends on it: exactly the transaction goes. -/
theorem lookup_removeTx (tx : CTransaction) (hash : Uint256) :
    (pool.removeTx P tx).mapTx.lookup hash =
      if hash = P.getHash tx then none else pool.mapTx.lookup hash := by
  rw [removeTx_eq]
  by_cases heq : hash = P.getHash tx
  · rw [if_pos heq, heq]
    split
    · exact AList.lookup_erase _ _
    · rename_i hnone
      simpa using hnone
  · rw [if_neg heq]
    split
    · exact AList.lookup_erase_ne heq
    · rfl

theorem lookup_foldl_removeTx (vtx : List CTransaction) (hash : Uint256) (tx : CTransaction) :
    (vtx.foldl (fun pool t => pool.removeTx P t) pool).mapTx.lookup hash = some tx ↔
      pool.mapTx.lookup hash = some tx ∧ ∀ t ∈ vtx, P.getHash t ≠ hash := by
  induction vtx generalizing pool with
  | nil => simp
  | cons t vtx ih =>
    rw [List.foldl_cons, ih, lookup_removeTx]
    by_cases heq : hash = P.getHash t
    · simp [heq]
    · rw [if_neg heq, List.forall_mem_cons]
      exact ⟨fun h => ⟨h.1, fun h' => heq h'.symm, h.2⟩, fun h => ⟨h.1, h.2.2⟩⟩

theorem removeTx_indexed (hinj : Set.InjOn P.getHash S) (hi : Indexed P S pool) {tx : CTransaction}
    (hS : tx ∈ S) : Indexed P S (pool.removeTx P tx) ∧ Within (pool.removeTx P tx) pool :=
  remove_indexed hinj false 1 hi hS

theorem foldl_removeTx_indexed (hinj : Set.InjOn P.getHash S) {vtx : List CTransaction}
    (hS : ∀ tx ∈ vtx, tx ∈ S) (hi : Indexed P S pool) :
    Indexed P S (vtx.foldl (fun pool t => pool.removeTx P t) pool) :=
  List.foldlRecOn vtx _ (motive := Indexed P S) hi fun _ hp t ht =>
    (removeTx_indexed hinj hp (hS t ht)).1

/-- What is filed is gone after a recursive `remove` with any fuel. -/
theorem lookup_remove_self {fRecursive : Bool} {fuel : Nat} {tx : CTransaction}
    (hmem : (pool.mapTx.lookup (P.getHash tx)).isSome = true) :
    (pool.remove P fRecursive (fuel + 1) tx).mapTx.lookup (P.getHash tx) = none := by
  rw [remove_succ, if_pos hmem]
  exact AList.lookup_erase _ _

/-- The step of `removeConflicts`, at one input. -/
def removeConflict (P : Primitives) (tx : CTransaction) (pool : CTxMemPool) (txin : CTxIn) : CTxMemPool :=
  match pool.spenderOf txin.prevout with
  | none => pool
  | some txConflict =>
    if txConflict ≠ tx then pool.remove P true pool.mapTx.entries.length txConflict else pool

/-- **`removeConflicts`** leaves nothing in the pool that spends an input of the transaction. -/
theorem removeConflicts_free (hinj : Set.InjOn P.getHash S) (hi : Indexed P S pool) {tx : CTransaction}
    (hgone : pool.mapTx.lookup (P.getHash tx) = none) :
    ∀ o ∈ tx.prevouts, Free (pool.removeConflicts P tx) o := by
  have heq : pool.removeConflicts P tx = tx.vin.foldl (removeConflict P tx) pool :=
    removeConflicts_eq pool tx
  rw [heq]
  -- over the inputs done so far
  have hloop : ∀ (post pre : List CTxIn) (p : CTxMemPool), Indexed P S p → Within p pool →
      (∀ txin ∈ pre, Free p txin.prevout) →
      ∀ txin ∈ pre ++ post, Free (post.foldl (removeConflict P tx) p) txin.prevout := by
    intro post
    induction post with
    | nil =>
      intro pre p _ _ hfree
      rw [List.append_nil]
      exact hfree
    | cons txin post ih =>
      intro pre p hp hw hfree
      have hsplit : pre ++ txin :: post = (pre ++ [txin]) ++ post := by simp
      rw [hsplit, List.foldl_cons, removeConflict]
      cases hsp : p.spenderOf txin.prevout with
      | none =>
        dsimp only
        refine ih (pre ++ [txin]) p hp hw fun i hi' => ?_
        rcases List.mem_append.mp hi' with hi' | hi'
        · exact hfree i hi'
        · rw [List.mem_singleton.mp hi']
          intro hash t ht ho
          obtain ⟨n, hn⟩ := hp.inverse.entry_of_mem ht ho
          rw [(spenderOf_eq_none hp).mp hsp] at hn
          cases hn
      | some c =>
        obtain ⟨hc, hcS, ho⟩ := mem_of_spenderOf hp hsp
        -- the transaction itself is not there any more
        have hne : c ≠ tx := by
          rintro rfl
          rw [hw _ _ hc] at hgone
          cases hgone
        dsimp only
        rw [if_pos hne]
        obtain ⟨hp', hw'⟩ := remove_indexed hinj true p.mapTx.entries.length hp hcS
        have hpos : ∃ n, p.mapTx.entries.length = n + 1 := by
          have hmem := AList.mem_lookup_iff.mp hc
          exact ⟨p.mapTx.entries.length - 1, by have := List.length_pos_of_mem hmem; omega⟩
        have hdead : (p.remove P true p.mapTx.entries.length c).mapTx.lookup (P.getHash c) = none := by
          obtain ⟨n, hn⟩ := hpos
          rw [hn]
          exact lookup_remove_self (by rw [hc]; rfl)
        refine ih (pre ++ [txin]) _ hp' (hw'.trans hw) fun i hi' => ?_
        rcases List.mem_append.mp hi' with hi' | hi'
        · exact hw'.free (hfree i hi')
        · rw [List.mem_singleton.mp hi']
          intro hash t ht ho'
          have hsame := hp.inverse.unique (hw' _ _ ht) ho' hc ho
          rw [hsame, hdead] at ht
          cases ht
  intro o ho
  obtain ⟨txin, htxin, rfl⟩ := List.mem_map.mp ho
  exact hloop tx.vin [] pool hi (Within.refl pool) (fun _ h => absurd h List.not_mem_nil) txin
    (by simpa using htxin)

/-- The second loop over the pool in `Reorganize`. -/
def removeConnected (P : Primitives) (vDelete : List CTransaction) (pool : CTxMemPool) : CTxMemPool :=
  vDelete.foldl (fun pool tx => (pool.removeTx P tx).removeConflicts P tx) pool

theorem removeConnected_indexed (hinj : Set.InjOn P.getHash S) {vDelete : List CTransaction}
    (hS : ∀ tx ∈ vDelete, tx ∈ S) (hi : Indexed P S pool) :
    Indexed P S (removeConnected P vDelete pool) ∧ Within (removeConnected P vDelete pool) pool := by
  refine List.foldlRecOn vDelete _ (motive := fun p => Indexed P S p ∧ Within p pool)
    ⟨hi, Within.refl _⟩ ?_
  rintro p ⟨hp, hw⟩ tx htx
  obtain ⟨hp₁, hw₁⟩ := removeTx_indexed hinj hp (hS tx htx)
  obtain ⟨hp₂, hw₂⟩ := removeConflicts_indexed hinj hp₁ tx
  exact ⟨hp₂, (hw₂.trans hw₁).trans hw⟩

/-- **After the loop** nothing in the pool spends what the new branch spends. -/
theorem removeConnected_free (hinj : Set.InjOn P.getHash S) {vDelete : List CTransaction}
    (hS : ∀ tx ∈ vDelete, tx ∈ S) (hi : Indexed P S pool) :
    ∀ tx ∈ vDelete, ∀ o ∈ tx.prevouts, Free (removeConnected P vDelete pool) o := by
  induction vDelete generalizing pool with
  | nil => exact fun tx htx => absurd htx List.not_mem_nil
  | cons t vDelete ih =>
    obtain ⟨ht, hrest⟩ := List.forall_mem_cons.mp hS
    obtain ⟨hp₁, -⟩ := removeTx_indexed hinj hi ht
    obtain ⟨hp₂, -⟩ := removeConflicts_indexed hinj hp₁ t
    have hgone : (pool.removeTx P t).mapTx.lookup (P.getHash t) = none := by
      rw [lookup_removeTx, if_pos rfl]
    intro tx htx o ho
    rcases List.mem_cons.mp htx with rfl | htx
    · exact (removeConnected_indexed hinj hrest hp₂).2.free (removeConflicts_free hinj hp₁ hgone o ho)
    · exact ih hrest hp₂ tx htx o ho

/-! ## What putting back adds -/

/-- The first loop over the pool in `Reorganize`. -/
def restore (P : Primitives) (fTestNet : Bool) (vResurrect : List CTransaction) (pool : CTxMemPool) :
    CTxMemPool :=
  vResurrect.foldl (fun pool tx => pool.acceptOrDrop P fTestNet tx) pool

/-- What a transaction has passed that is accepted without a look at its inputs. -/
theorem accept_ok {fTestNet : Bool} {tx : CTransaction} (h : pool.accept P fTestNet tx = .ok pool') :
    tx.TxChecked ∧ tx.isCoinBase = false ∧ tx.isCoinStake = false ∧
      pool.mapTx.lookup (P.getHash tx) = none ∧
      (∀ o ∈ tx.prevouts, pool.mapNextTx.lookup o = none) ∧
      pool' = pool.addUnchecked (P.getHash tx) tx := by
  unfold accept at h
  simp only [bind_ok, orFail_ok, require_ok, exists_const, pure_ok] at h
  obtain ⟨_, hcheck, hcb, hcs, -, -, hnew, hfree, rfl⟩ := h
  refine ⟨tx.checkTransaction_ok hcheck, by simpa using hcb, by simpa using hcs,
    Option.isNone_iff_eq_none.mp hnew, fun o ho => ?_, rfl⟩
  obtain ⟨txin, htxin, rfl⟩ := List.mem_map.mp ho
  exact Option.isNone_iff_eq_none.mp (List.all_eq_true.mp hfree txin htxin)

/-- An accepted transaction is the only one that is new. -/
theorem lookup_acceptOrDrop {fTestNet : Bool} {tx t : CTransaction} {hash : Uint256}
    (h : (pool.acceptOrDrop P fTestNet tx).mapTx.lookup hash = some t) :
    pool.mapTx.lookup hash = some t ∨ t = tx := by
  unfold acceptOrDrop at h
  split at h
  · rename_i pool' haccept
    obtain ⟨-, -, -, -, -, rfl⟩ := accept_ok haccept
    rw [show (pool.addUnchecked (P.getHash tx) tx).mapTx = pool.mapTx.insert (P.getHash tx) tx from rfl,
      lookup_insert_eq_ite] at h
    split at h
    · exact Or.inr (Option.some.inj h).symm
    · exact Or.inl h
  · exact Or.inl h

/-- What is in the pool afterwards was there, or was put back. -/
theorem lookup_restore {fTestNet : Bool} {vResurrect : List CTransaction} {t : CTransaction}
    {hash : Uint256} (h : (restore P fTestNet vResurrect pool).mapTx.lookup hash = some t) :
    pool.mapTx.lookup hash = some t ∨ t ∈ vResurrect := by
  unfold restore at h
  induction vResurrect generalizing pool with
  | nil => exact Or.inl h
  | cons tx vResurrect ih =>
    rcases ih h with h | h
    · rcases lookup_acceptOrDrop h with h | rfl
      · exact Or.inl h
      · exact Or.inr List.mem_cons_self
    · exact Or.inr (List.mem_cons_of_mem _ h)

theorem restore_indexed {fTestNet : Bool} {vResurrect : List CTransaction}
    (hS : ∀ tx ∈ vResurrect, tx ∈ S) (hi : Indexed P S pool) :
    Indexed P S (restore P fTestNet vResurrect pool) := by
  refine List.foldlRecOn vResurrect _ (motive := Indexed P S) hi fun p hp tx htx => ?_
  unfold acceptOrDrop
  split
  · rename_i pool' haccept
    obtain ⟨hchecked, -, -, hnew, hfree, rfl⟩ := accept_ok haccept
    exact addUnchecked_indexed hp (hS tx htx) hchecked hnew hfree
  · exact hp

end CTxMemPool

/-! ## What the chain spends -/

section Ledger

variable {P : Primitives} {S : Set CTransaction} {chain : Chain} {txdb : CTxDB}

theorem mem_chain_txs {tx : CTransaction} :
    tx ∈ Chain.txs chain ↔ ∃ c ∈ chain, tx ∈ c.block.vtx := by
  unfold Chain.txs
  simp only [List.mem_flatMap, List.mem_reverse]

theorem txs_append (N C : Chain) (tx : CTransaction) :
    tx ∈ Chain.txs (N ++ C) ↔ tx ∈ N.txs ∨ tx ∈ C.txs := by
  unfold Chain.txs
  rw [List.reverse_append, List.flatMap_append, List.mem_append]
  exact or_comm

/-- A connected transaction is an entry of the ledger. -/
theorem entry_of_mem_txs {tx : CTransaction} (h : tx ∈ Chain.txs chain) :
    ∃ pos, txEntry P tx pos ∈ ledgerOf P chain := by
  obtain ⟨c, hc, htx⟩ := mem_chain_txs.mp h
  rw [← splits_map_snd c.block.vtx] at htx
  obtain ⟨p, hp, rfl⟩ := List.mem_map.mp htx
  refine ⟨CBlock.txPosition c.pindex c.block p.1, ?_⟩
  unfold ledgerOf connectedTxs
  refine List.mem_map.mpr ⟨(p.2, CBlock.txPosition c.pindex c.block p.1), ?_, rfl⟩
  refine List.mem_flatMap.mpr ⟨c, hc, ?_⟩
  rw [List.mem_reverse]
  exact List.mem_map.mpr ⟨p, hp, rfl⟩

theorem CTransaction.Spends.key {tx : CTransaction} {o : COutPoint} (h : tx.Spends o) :
    o.key ∈ CBlock.spentKeys tx := by
  unfold CBlock.spentKeys
  rw [if_neg (by rw [h.1]; exact Bool.false_ne_true)]
  exact List.mem_map_of_mem h.2

/-- Two transactions of a chain that spend one outpoint are the same. -/
theorem spends_unique (hinj : Set.InjOn P.getHash S) (hi : ChainIndex P S chain txdb)
    {tx tx' : CTransaction} {o : COutPoint} (h : tx ∈ Chain.txs chain) (h' : tx' ∈ Chain.txs chain)
    (ho : tx.Spends o) (ho' : tx'.Spends o) : tx = tx' := by
  obtain ⟨pos, hpos⟩ := entry_of_mem_txs (P := P) h
  obtain ⟨pos', hpos'⟩ := entry_of_mem_txs (P := P) h'
  have hsame := hi.valid.spender_unique hpos hpos' (o := o.key) ho.key ho'.key
  obtain ⟨c, hc, htx⟩ := mem_chain_txs.mp h
  obtain ⟨c', hc', htx'⟩ := mem_chain_txs.mp h'
  exact hinj (hi.ok.known c hc tx htx) (hi.ok.known c' hc' tx' htx') (congrArg Entry.id hsame)

/-- **`accept` with input checks**: the chain has spent none of the inputs. -/
theorem CTxMemPool.acceptTx_unspent {relay : RelayPolicy} {g : Globals} {pool pool' : CTxMemPool}
    {tx : CTransaction} (hi : IndexOf P chain txdb)
    (h : pool.acceptTx P relay g txdb true tx = .ok pool') {tx' : CTransaction}
    (htx' : tx' ∈ Chain.txs chain) {o : COutPoint} (ho : tx.Spends o) : ¬ tx'.Spends o := by
  intro ho'
  obtain ⟨hchecked, hcb, -, -, -, hinputs, -⟩ := acceptTx_ok h
  have hcheck := hinputs rfl
  unfold checkInputs at hcheck
  simp only [bind_ok, orFail_ok] at hcheck
  obtain ⟨inputs, hfetch, -, -, -, -, -, -, -, -, -, -, _, hconnect, -⟩ := hcheck
  have hloose := CTransaction.fetchInputs_loose tx hcb hfetch
  obtain ⟨ti, tp, q, hlook, hslot, hnull⟩ :=
    CTransaction.connectInputs_null hcb hchecked.distinct hconnect o ho.2
  -- the chain's spender is in the ledger, and so is what it spends from
  obtain ⟨pos, hentry⟩ := entry_of_mem_txs (P := P) htx'
  have hspends : o.key ∈ (txEntry P tx' pos).spends := ho'.key
  rcases hloose _ _ _ hlook with hread | ⟨hread, -⟩
  · have hunspent := (hi.refines.unspent_of_isNull hi.placed hread hslot hnull).2
    exact spender_eq_none.mp hunspent _ hentry hspends
  · obtain ⟨d, hd, hid, -⟩ := hi.valid.spends_exist _ hentry _ hspends
    have hsome := hi.refines o.hash
    rw [view, ← show d.id = o.hash from hid, hi.valid.find_mem hd] at hsome
    rw [show d.id = o.hash from hid, hread] at hsome
    cases hsome

end Ledger

/-! ## The steps of a node -/

/-- No transaction of the pool spends what ANOTHER transaction of the chain spends. -/
def ConflictFree (pool : CTxMemPool) (chain : Chain) : Prop :=
  ∀ hash tx, pool.mapTx.lookup hash = some tx → ∀ tx' ∈ Chain.txs chain, ∀ o,
    tx.Spends o → tx'.Spends o → tx' = tx

/-- No transaction of the pool that is not in the block spends what the block spends. -/
def NoRival (pool : CTxMemPool) (b : CBlock) : Prop :=
  ∀ hash tx, pool.mapTx.lookup hash = some tx → tx ∉ b.vtx → ∀ tx' ∈ b.vtx, ∀ o,
    tx.Spends o → ¬ tx'.Spends o

/-- What happens to the pool and the chain.  A step that extends the chain by a block is marked with
    it; `other` is all that leaves both alone (a block is stored, a tip is published, a call fails). -/
inductive PoolStep (P : Primitives) (S : Set CTransaction) :
    Option CBlock → NodeState × Chain → NodeState × Chain → Prop where
  | accept {s : NodeState} {chain : Chain} {relay : RelayPolicy} {tx : CTransaction}
      {pool' : CTxMemPool} (hS : tx ∈ S)
      (h : s.mempool.acceptTx P relay s.globals s.txdb true tx = .ok pool') :
      PoolStep P S none (s, chain) ({ s with mempool := pool' }, chain)
  | change {extension : Option CBlock} {x y : NodeState × Chain}
      (h : NodeState.TipChange P S extension x y) : PoolStep P S extension x y
  | other {s s' : NodeState} {chain : Chain} (ht : NodeState.TreeOk P S s')
      (hc : NodeState.OnChain P S s' chain) (hpool : s'.mempool = s.mempool) :
      PoolStep P S none (s, chain) (s', chain)

/-- The states reached from genesis and an empty pool by steps whose extensions meet no rival. -/
inductive CleanRun (P : Primitives) (S : Set CTransaction) : NodeState × Chain → Prop where
  | start {s : NodeState} (ht : NodeState.TreeOk P S s) (hc : NodeState.OnChain P S s [])
      (hpool : s.mempool = CTxMemPool.clear) : CleanRun P S (s, [])
  | step {extension : Option CBlock} {x y : NodeState × Chain} (hrun : CleanRun P S x)
      (h : PoolStep P S extension x y) (hclean : ∀ b ∈ extension, NoRival x.1.mempool b) :
      CleanRun P S y

/-! ## What a step preserves -/

section Steps

variable {P : Primitives} {S : Set CTransaction} {x y : NodeState × Chain} {extension : Option CBlock}

/-- What holds of node, chain and pool whatever the steps were. -/
structure PoolState (P : Primitives) (S : Set CTransaction) (x : NodeState × Chain) : Prop where
  tree : NodeState.TreeOk P S x.1
  onChain : NodeState.OnChain P S x.1 x.2
  indexed : CTxMemPool.Indexed P S x.1.mempool

/-- **An extension** keeps the agreement exactly if it meets no rival. -/
theorem conflictFree_extend (hinj : Set.InjOn P.getHash S) {pool : CTxMemPool} {chain : Chain}
    {c : ChainBlock} (hi : CTxMemPool.Indexed P S pool) (hS : ∀ tx ∈ c.block.vtx, tx ∈ S)
    (hfree : ConflictFree pool chain) :
    ConflictFree (c.block.vtx.foldl (fun pool tx => pool.removeTx P tx) pool) (c :: chain) ↔
      NoRival pool c.block := by
  constructor
  · intro h hash tx htx hnot tx' htx' o ho ho'
    -- what is not in the block stays, and would be the block's own transaction
    have hstays : ∀ t ∈ c.block.vtx, P.getHash t ≠ hash := by
      intro t ht heq
      obtain ⟨hhash, htxS⟩ := hi.keyed hash tx htx
      exact hnot (hinj (hS t ht) htxS (heq.trans hhash.symm) ▸ ht)
    have hsame := h hash tx ((CTxMemPool.lookup_foldl_removeTx _ _ _).mpr ⟨htx, hstays⟩) tx'
      (mem_chain_txs.mpr ⟨c, List.mem_cons_self, htx'⟩) o ho ho'
    exact hnot (hsame ▸ htx')
  · intro h hash tx htx tx' htx' o ho ho'
    obtain ⟨hold, hgone⟩ := (CTxMemPool.lookup_foldl_removeTx _ _ _).mp htx
    obtain ⟨d, hd, hin'⟩ := mem_chain_txs.mp htx'
    rcases List.mem_cons.mp hd with rfl | hd
    · by_cases hin : tx ∈ d.block.vtx
      · exact absurd (hi.keyed hash tx hold).1 (hgone tx hin)
      · exact absurd ho' (h hash tx hold hin tx' hin' o ho)
    · exact hfree hash tx hold tx' (mem_chain_txs.mpr ⟨d, hd, hin'⟩) o ho ho'

/-- **A reorganisation** keeps it. -/
theorem conflictFree_reorganize (hinj : Set.InjOn P.getHash S) {pool : CTxMemPool} {D N C : Chain}
    {txdb : CTxDB} {fTestNet : Bool} (hi : CTxMemPool.Indexed P S pool)
    (hold : ChainIndex P S (D ++ C) txdb) (hS : ∀ tx ∈ N.txs, tx ∈ S)
    (hfree : ConflictFree pool (D ++ C)) :
    ConflictFree (CTxMemPool.removeConnected P N.txs
      (CTxMemPool.restore P fTestNet D.resurrected pool)) (N ++ C) := by
  have hD : ∀ tx ∈ D.resurrected, tx ∈ Chain.txs (D ++ C) := by
    intro tx htx
    obtain ⟨c, hc, htx⟩ := List.mem_flatMap.mp htx
    exact mem_chain_txs.mpr ⟨c, List.mem_append_left _ hc, (List.mem_filter.mp htx).1⟩
  have hknown : ∀ tx ∈ D.resurrected, tx ∈ S := by
    intro tx htx
    obtain ⟨c, hc, htx⟩ := mem_chain_txs.mp (hD tx htx)
    exact hold.ok.known c hc tx htx
  have hrestored : CTxMemPool.Indexed P S (CTxMemPool.restore P fTestNet D.resurrected pool) :=
    CTxMemPool.restore_indexed hknown hi
  intro hash tx htx tx' htx' o ho ho'
  rcases (txs_append N C tx').mp htx' with hN | hC
  · exact absurd ho.2 (CTxMemPool.removeConnected_free hinj hS hrestored tx' hN o ho'.2 hash tx htx)
  · have htx'old : tx' ∈ Chain.txs (D ++ C) := (txs_append D C tx').mpr (Or.inr hC)
    have hwithin := (CTxMemPool.removeConnected_indexed hinj hS hrestored).2
    rcases CTxMemPool.lookup_restore (hwithin hash tx htx) with htx | htx
    · exact hfree hash tx htx tx' htx'old o ho ho'
    · exact spends_unique hinj hold htx'old (hD tx htx) ho' ho

theorem updatePool_eq (s : NodeState) (vResurrect vDelete : List CTransaction) :
    (s.updatePool P vResurrect vDelete).mempool = CTxMemPool.removeConnected P vDelete
      (CTxMemPool.restore P s.fTestNet vResurrect s.mempool) := rfl

/-- STEP LEMMA: the state stays consistent, and the agreement of pool and chain is kept exactly if no
    extension meets a rival. -/
theorem PoolStep.conflictFree (hinj : Set.InjOn P.getHash S) (hx : PoolState P S x)
    (hfree : ConflictFree x.1.mempool x.2) (h : PoolStep P S extension x y) :
    PoolState P S y ∧
      (ConflictFree y.1.mempool y.2 ↔ ∀ b ∈ extension, NoRival x.1.mempool b) := by
  have hnone : ∀ b ∈ (none : Option CBlock), NoRival x.1.mempool b := fun b hb => by cases hb
  cases h with
  | @accept s chain relay tx pool' hS h =>
    have hsame : NodeState.SameTree s { s with mempool := pool' } := ⟨rfl, rfl, rfl, rfl⟩
    have hc : NodeState.OnChain P S { s with mempool := pool' } chain :=
      ⟨hx.onChain.toBuilt.silent hsame fun _ => rfl, hx.onChain.best, hx.onChain.closed,
        hx.onChain.linked⟩
    refine ⟨⟨hx.tree.of_same hsame, hc, CTxMemPool.accept_indexed hx.indexed hS h⟩,
      iff_of_true ?_ hnone⟩
    have hi := (hx.onChain.run.index hinj).toIndexOf
    intro hash t ht tx' htx' o ho ho'
    obtain ⟨-, -, -, -, -, -, hpool⟩ := CTxMemPool.acceptTx_ok h
    rw [hpool, show (s.mempool.addUnchecked (P.getHash tx) tx).mapTx =
      s.mempool.mapTx.insert (P.getHash tx) tx from rfl, lookup_insert_eq_ite] at ht
    split at ht
    · cases ht
      exact absurd ho' (CTxMemPool.acceptTx_unspent hi h htx' ho)
    · exact hfree hash t ht tx' htx' o ho ho'
  | change h =>
    obtain ⟨s, chain⟩ := x
    obtain ⟨s', chain'⟩ := y
    obtain ⟨hc', hsame, -⟩ := h.onChain hx.tree hx.onChain
    have ht' := hx.tree.of_same hsame
    have hi' := hc'.run.index hinj
    cases h with
    | @extend _ t _ _ pindex b hbegin hnew hread h =>
      have hsame₀ := (NodeState.InTxn.begin hbegin).same
      obtain ⟨hb, hl⟩ := hx.onChain.begin hbegin
      obtain ⟨-, rfl⟩ := NodeState.txnBegin_ok hbegin
      obtain ⟨-, -, -, hpool⟩ := NodeState.setBestChainInner_ok (hx.tree.of_same hsame₀) hb hl
        (hsame₀.inTree.mpr hnew) (hsame₀.readFromDisk P ▸ hread) h
      have hS : ∀ tx ∈ b.vtx, tx ∈ S := hi'.ok.known ⟨pindex, b⟩ List.mem_cons_self
      refine ⟨⟨ht', hc', ?_⟩, ?_⟩
      · show CTxMemPool.Indexed P S s'.mempool
        rw [hpool]
        exact CTxMemPool.foldl_removeTx_indexed hinj hS hx.indexed
      · show ConflictFree s'.mempool _ ↔ _
        rw [hpool]
        exact (conflictFree_extend (c := ⟨pindex, b⟩) hinj hx.indexed hS hfree).trans (by simp)
    | reorganize hbegin hbest hin hnew h hc hptr =>
      obtain ⟨D, N, C, rfl, rfl, -, -, hpool, -⟩ := NodeState.reorganize_change hx.tree hx.onChain hbegin
        hbest hin hnew h hc hptr
      rw [updatePool_eq] at hpool
      have hold := hx.onChain.run.index hinj
      have hS : ∀ tx ∈ N.txs, tx ∈ S := by
        intro tx htx
        obtain ⟨c, hc, htx⟩ := mem_chain_txs.mp htx
        exact hi'.ok.known c (List.mem_append_left _ hc) tx htx
      have hknown : ∀ tx ∈ D.resurrected, tx ∈ S := by
        intro tx htx
        obtain ⟨c, hc, htx⟩ := List.mem_flatMap.mp htx
        exact hold.ok.known c (List.mem_append_left _ hc) tx (List.mem_filter.mp htx).1
      refine ⟨⟨ht', hc', ?_⟩, iff_of_true ?_ hnone⟩
      · show CTxMemPool.Indexed P S s'.mempool
        rw [hpool]
        exact (CTxMemPool.removeConnected_indexed hinj hS
          (CTxMemPool.restore_indexed hknown hx.indexed)).1
      · show ConflictFree s'.mempool _
        rw [hpool]
        exact conflictFree_reorganize hinj hx.indexed hold hS hfree
    | undone hu hsame hmem =>
      have hpool : s'.mempool = s.mempool := hu.mempool
      refine ⟨⟨ht', hc', ?_⟩, iff_of_true ?_ hnone⟩
      · show CTxMemPool.Indexed P S s'.mempool
        rw [hpool]
        exact hx.indexed
      · show ConflictFree s'.mempool _
        rw [hpool]
        exact hfree
  | @other s s' chain ht hc hpool =>
    refine ⟨⟨ht, hc, ?_⟩, iff_of_true ?_ hnone⟩
    · show CTxMemPool.Indexed P S s'.mempool
      rw [hpool]
      exact hx.indexed
    · show ConflictFree s'.mempool _
      rw [hpool]
      exact hfree

/-- RUN LEMMA. -/
theorem CleanRun.state (hinj : Set.InjOn P.getHash S) (hrun : CleanRun P S x) :
    PoolState P S x ∧ ConflictFree x.1.mempool x.2 := by
  induction hrun with
  | start ht hc hpool =>
    refine ⟨⟨ht, hc, ?_⟩, fun _ _ _ tx' htx' => ?_⟩
    · dsimp only
      rw [hpool]
      exact CTxMemPool.indexed_clear
    · exact absurd htx' List.not_mem_nil
  | step _ h hclean ih =>
    obtain ⟨hy, hiff⟩ := h.conflictFree hinj ih.1 ih.2
    exact ⟨hy, hiff.mpr hclean⟩

/-- **Pool against chain.**  In every state of a run whose extensions met no rival the pool agrees with
    the chain, and after one more step it does if and only if that step meets none. -/
theorem conflictFree_iff_noRival (hinj : Set.InjOn P.getHash S) (hrun : CleanRun P S x) :
    ConflictFree x.1.mempool x.2 ∧ ∀ extension y, PoolStep P S extension x y →
      (ConflictFree y.1.mempool y.2 ↔ ∀ b ∈ extension, NoRival x.1.mempool b) := by
  obtain ⟨hx, hfree⟩ := hrun.state hinj
  exact ⟨hfree, fun extension y h => (h.conflictFree hinj hx hfree).2⟩

end Steps

/-! ## `SetBestChain` in these steps -/

section Calls

variable {P : Primitives} {S : Set CTransaction} {s s' : NodeState} {chain : Chain}

/-- A successful `SetBestChain` is a sequence of them. -/
theorem setBestChain_poolSteps (ht : NodeState.TreeOk P S s) (hagrees : NodeState.TipAgrees P S s)
    (hchain : s.pindexBest = Chain.ptr s.pindexGenesisBlock chain) (hb : NodeState.Built P S s chain)
    (hbest : NodeState.InTree s s.pindexBest) {pindex : CBlockIndex} {rest : BlockPtr} {b : CBlock}
    (hnew : NodeState.InTree s (pindex :: rest)) (hread : readFromDisk P s.globals pindex = some b)
    (h : s.setBestChain P (pindex :: rest) b = .ok s') :
    ∃ chain', Relation.ReflTransGen (fun x y => ∃ extension, PoolStep P S extension x y)
      (s, chain) (s', chain') := by
  obtain ⟨hc, s₁, chain', pre, rfl, hchanges, -, -⟩ := NodeState.setBestChain_ok ht hagrees hchain hb
    hbest hnew hread h
  obtain ⟨hc₁, hsame, -⟩ := hchanges.onChain ht hc
  have hsame' : NodeState.SameTree s₁ (s₁.publish (pindex :: rest) pindex.hashBlock) :=
    ⟨rfl, rfl, rfl, rfl⟩
  have hpublished : NodeState.OnChain P S (s₁.publish (pindex :: rest) pindex.hashBlock) chain' :=
    ⟨hc₁.toBuilt.silent hsame' fun _ => rfl, hc₁.best, hc₁.closed, hc₁.linked⟩
  have hsteps : Relation.ReflTransGen (fun x y => ∃ extension, PoolStep P S extension x y)
      (s, chain) (s₁, chain') := by
    refine Relation.ReflTransGen.mono (fun x y hstep => ?_) _ _ hchanges
    obtain ⟨extension, hstep⟩ := hstep
    exact ⟨extension, .change hstep⟩
  exact ⟨chain', hsteps.tail
    ⟨none, .other ((ht.of_same hsame).of_same hsame') hpublished rfl⟩⟩

/-- Blocks one on top of the other, while the pool is empty. -/
theorem CleanRun.connectPostponed {l : List BlockPtr} (hrun : CleanRun P S (s, chain))
    (hpool : s.mempool = CTxMemPool.clear) (ht : NodeState.TreeOk P S s)
    (hc : NodeState.OnChain P S s chain)
    (hl : Ascends (Chain.ptr s.pindexGenesisBlock chain) l)
    (hin : ∀ ptr ∈ l, NodeState.InTree s ptr)
    (h : l.foldlM (NodeState.connectPostponed P) s = .ok s') :
    ∃ chain', CleanRun P S (s', chain') ∧ s'.mempool = CTxMemPool.clear ∧ NodeState.SameTree s s' ∧
      Chain.ptr s.pindexGenesisBlock chain' = l.getLastD (Chain.ptr s.pindexGenesisBlock chain) := by
  induction l generalizing s chain with
  | nil =>
    cases h
    exact ⟨chain, hrun, hpool, NodeState.SameTree.refl _, rfl⟩
  | cons ptr l ih =>
    obtain ⟨htail, hne, hrest⟩ := hl
    rw [List.foldlM_cons, bind_ok] at h
    obtain ⟨s₁, hstep, h⟩ := h
    obtain ⟨c, hptr, hchange⟩ := NodeState.connectPostponed_ok (S := S) htail
      (hin ptr List.mem_cons_self) hstep
    obtain ⟨hc₁, hsame₁, -⟩ := hchange.onChain ht hc
    have hempty : ∀ hash tx, CTxMemPool.clear.mapTx.lookup hash = some tx → False :=
      fun hash tx htx => by cases htx
    have hclean : ∀ b ∈ some c.block, NoRival s.mempool b := fun b _ hash tx htx => by
      rw [hpool] at htx
      exact (hempty hash tx htx).elim
    have hpool₁ : s₁.mempool = CTxMemPool.clear := by
      obtain ⟨pindex, b⟩ := c
      cases hchange with
      | extend hbegin hnew hread h =>
        have hsame₀ := (NodeState.InTxn.begin hbegin).same
        obtain ⟨hb, hlinked⟩ := hc.begin hbegin
        obtain ⟨-, rfl⟩ := NodeState.txnBegin_ok hbegin
        obtain ⟨-, -, -, hpool'⟩ := NodeState.setBestChainInner_ok (ht.of_same hsame₀) hb hlinked
          (hsame₀.inTree.mpr hnew) (hsame₀.readFromDisk P ▸ hread) h
        rw [hpool']
        dsimp only
        rw [hpool]
        exact List.foldlRecOn b.vtx _ (motive := fun p => p = CTxMemPool.clear) rfl
          fun p hp tx _ => by rw [hp]; rfl
    rw [← hptr, ← hsame₁.pindexGenesisBlock] at hrest
    obtain ⟨chain', hrun', hpool', hsame', hlast⟩ := ih (hrun.step (.change hchange) hclean) hpool₁
      (ht.of_same hsame₁) hc₁ hrest
      (fun q hq => hsame₁.inTree.mpr (hin q (List.mem_cons_of_mem _ hq))) h
    refine ⟨chain', hrun', hpool', hsame₁.trans hsame', ?_⟩
    rw [List.getLastD_cons, ← hptr, ← hsame₁.pindexGenesisBlock]
    exact hlast

end Calls

/-! ## Eleven blocks, and a rival -/

/- On the test network a coinbase can be spent ten blocks later. -/
namespace Ripening

open Sample

def testBlock (hashPrevBlock hashMerkleRoot : Uint256) (nNonce : UInt32)
    (coinBase : CTransaction) (rest : List CTransaction) : CBlock :=
  { workBlock hashPrevBlock hashMerkleRoot nNonce coinBase with
    nBits := 0x1f00ffff
    vtx := coinBase :: rest }

/-- Nonce, coinbase hash and block hash of the first eleven blocks. -/
def mined : List (UInt32 × Uint256 × Uint256) :=
  [(58961, 0xa32bc83eb7428be6e86178a68dde98fb2254b7b55a0d1a0e0032d020d13dee5f,
      0x00009b26815257d42e658730a29df8f3460be207fc383f93ed57d51649abdd6c),
    (117310, 0xa8f36df2b0c611393be282a86a813e46ee45fac321d7bd8630c7748dc3ab3f78,
      0x0000bf20f412eaa6f333ad5818b7eb086dc7bcd213153278d3f9599debbf9a18),
    (5712, 0x917bb09a4ccee5fe460c91d972b47fd4c111ac396797db584c1e5af13356b377,
      0x0000c37c4710ff9a466ddc28314fefa4bcece7a040761419f0f73c0905c310b0),
    (107021, 0x28957e248e3f33dd738798a71524b9818c1782bc79681a9af0c68c4fc24f9ee4,
      0x00007806be6aa71deb9c02cefde77b93305a8eec68ce8c32cd6220e142e6ad31),
    (26201, 0xd901b4d3cad0cec9094f09c5921b206bab138ca537b713699bf8aa82493f91e7,
      0x00005b67fb8bae4eb2314c22b06f4688fd7fe537bf81a2d3dcd40a357175c91e),
    (72048, 0xddddebc5ca772c16bb44a9cedf135cb5e8019be6d34511b52c2777a6678d1d4d,
      0x00009c994f9f35bbadd8ccbe1763d4d541797eb2839b9041b84c1cf70ca0d187),
    (10759, 0x13cde8585a5e448bae1c3bb17af63f6655ac42043ec733debe1ea5a8852aa86c,
      0x0000c2528d3df632a31f00e48c003b35f83a1306419673062e598a5d39cde495),
    (117879, 0x717a697fc5296665802729af0b655a41824624d45c009c568b281daec9bab812,
      0x00000580d1ca9937ccebf2ed9ffbf58097bce654dc94895a89bacd1fab862b09),
    (29527, 0xaa47f8ffcebf7e7a65a38100c70f122baea5b6b0ed3d5329274ec0b5b5f64726,
      0x0000775d3289366b1d21066ee4f5a55c184f9f336472125d2ad45162ac11d54b),
    (193618, 0x7c4cd8b60993403fd4798275453bd59f4698135015f0c32e97d34cfc96af0988,
      0x000057867572e3d2fd4df2c9c7cf9dbfa00c7ba4b83108e8f7cf658f5278a6a7),
    (12047, 0x7aa9fd47d8698073a2b861bdd0dfb8673010f4f17bce761f1f3b800d9637e9d9,
      0x000017d80c7f7c219535d2c6e0b2f72803fb05ea847aa466505c6778ded9d878)]

/-- The next block: its coinbase pays 5000 coins. -/
def ripen (chain : Chain) (row : UInt32 × Uint256 × Uint256) : Chain :=
  let prev := (chain.head?.map ChainBlock.pindex).getD genesis
  let nHeight := prev.nHeight + 1
  let coinBase := coinBaseTx (1398947338 + 60 * UInt32.ofNat nHeight) [0x50 + UInt8.ofNat nHeight, 0x4b]
    (5000 * COIN)
  let b := testBlock prev.hashBlock row.2.1 row.1 coinBase []
  ⟨entryOn prev (UInt32.ofNat (300 * nHeight)) row.2.2 b, b⟩ :: chain

def chainK11 : Chain := mined.foldl ripen []

def ptrK11 : BlockPtr := Chain.ptr [genesis] chainK11

def indexK11 : CBlockIndex := (ptrK11.head?).getD genesis

/-- A transaction that anyone may make of output 0 of `prev`. -/
def spend (prev : Uint256) (nTime : UInt32) (nValue : Int) (nLockTime : UInt32) : CTransaction where
  nVersion := 1
  nTime := nTime
  vin := [⟨⟨prev, 0⟩, [], 0xffffffff⟩]
  vout := [⟨nValue, [0x51]⟩]
  nLockTime := nLockTime

/-- The hash of the first coinbase. -/
def hashCoinBaseK1 : Uint256 := ((mined.head?).map fun row => row.2.1).getD 0

/-- Two ways to spend it. -/
def tx : CTransaction := spend hashCoinBaseK1 1398948028 (4999 * COIN) 0

def rival : CTransaction := spend hashCoinBaseK1 1398948028 (4998 * COIN) 0

def coinBaseK12 : CTransaction := coinBaseTx 1398948058 [0x5c, 0x4b] (5000 * COIN)

/-- The twelfth block, with the rival. -/
def blockK12 : CBlock :=
  testBlock indexK11.hashBlock 0xd4f5a40924f62edcd967e7122021d03d3a0ce5fb709d1594075a4750064179ee
    106968 coinBaseK12 [rival]

def hashK12 : Uint256 := 0x0000045a972ddf290b536b663b673c2553b7bae158429ebb9c9e2729014f7c3c

def indexK12 : CBlockIndex := entryOn indexK11 3600 hashK12 blockK12

def ptrK12 : BlockPtr := indexK12 :: ptrK11

def blocks : Chain := ⟨indexK12, blockK12⟩ :: chainK11

def txs : List (CTransaction × Uint256) :=
  [(tx, 0x5bbb26bb68f1d50327a78ed9675c314a27fa7a961f9e2bc9dad7fa93a3c7c473),
    (rival, 0x6de064d8378de10f8c3af51f0dd3d2218c9a82ea954464f06a35891a60af6682),
    (coinBaseK12, 0x3b01915d8118cc40334f5259101ffebd0bad6b2731cb06a4618ad93eeeef920e)] ++
  chainK11.map fun c => ((c.block.vtx.head?).getD tx, c.block.hashMerkleRoot)

def primitives : Primitives := Primitives.ofTables txs
  (blocks.map fun c => (c.block.toCBlockHeader, c.pindex.hashBlock))
  [((0x3b01915d8118cc40334f5259101ffebd0bad6b2731cb06a4618ad93eeeef920e, 0x6de064d8378de10f8c3af51f0dd3d2218c9a82ea954464f06a35891a60af6682),
    0xd4f5a40924f62edcd967e7122021d03d3a0ce5fb709d1594075a4750064179ee)]

/-- A test node on genesis, with every block on disk. -/
def node : NodeState where
  fTestNet := true
  nAdjustedTime := 1398950000
  files := filesOf blocks
  tree := { treeUpTo [] with
    mapBlockIndex := ptrK12.tails.dropLast.foldr (fun ptr m => m.insert
      ((ptr.head?.map CBlockIndex.hashBlock).getD 0) ptr) ∅ }
  mem := freshMem
  txdb := emptyDb.writeHashBestChain hashGenesisBlock
  pindexGenesisBlock := [genesis]
  hashBestChain := hashGenesisBlock
  pindexBest := [genesis]
  nBestHeight := 0
  nBestChainTrust := genesis.nChainTrust
  nBestInvalidTrust := 0
  mempool := CTxMemPool.clear
  wallets := []
  commits := []

def S : Set CTransaction := { t | t ∈ txs.map Prod.fst }

/-- The tables are sound, and what is on disk is what was put there. -/
theorem tables : Set.InjOn primitives.getHash S ∧ ChainStored node.files blocks ∧
    NodeState.TreeOk primitives S node :=
  NodeState.TreeOk.of_tables (fun ptr => ({ node.globals with pindexBest := ptr }, treeUpTo ptr)) rfl
    (by decide)

/-- Eleven blocks connected, the tip published, the transaction in the pool, and the twelfth block on
    top. -/
def atK11 : NodeState := (((NodeState.pathTo [genesis] ptrK11).reverse.foldlM
  (NodeState.connectPostponed primitives) node).toOption).getD node

def tipK11 : NodeState := atK11.publish ptrK11 indexK11.hashBlock

def relay : RelayPolicy := ⟨fun _ _ => true, fun _ => true⟩

def withTx : NodeState := { tipK11 with
  mempool := ((tipK11.mempool.acceptTx primitives relay tipK11.globals tipK11.txdb true tx).toOption).getD
    CTxMemPool.clear }

def begun : NodeState := (withTx.txnBegin.toOption).getD node

def atK12 : NodeState := ((begun.setBestChainInner primitives ptrK12 blockK12).toOption).getD node

/-- What is computed: the eleven blocks are connected, the transaction is accepted, the twelfth block is
    connected on top. -/
theorem runs : ((NodeState.pathTo [genesis] ptrK11).reverse.foldlM
      (NodeState.connectPostponed primitives) node).isOk = true ∧
    (tipK11.mempool.acceptTx primitives relay tipK11.globals tipK11.txdb true tx).isOk = true ∧
    withTx.txnBegin.isOk = true ∧ (begun.setBestChainInner primitives ptrK12 blockK12).isOk = true := by
  decide

/-- Where the entries are, what the database says of the tip, and what is read back of the twelfth
    block. -/
theorem read_blocks : (∀ ptr ∈ (NodeState.pathTo [genesis] ptrK11).reverse,
      node.tree.mapBlockIndex.lookup ((ptr.head?.map CBlockIndex.hashBlock).getD 0) = some ptr) ∧
    node.txdb.readHashBestChain = (Chain.ptr node.pindexGenesisBlock []).head?.map CBlockIndex.hashBlock ∧
    tx ∈ txs.map Prod.fst ∧ node.tree.mapBlockIndex.lookup hashK12 = some ptrK12 ∧
    readFromDisk primitives node.globals indexK12 = some blockK12 := by
  decide

/-- The run up to the transaction in the pool. -/
theorem cleanRun : ∃ chain, CleanRun primitives S (withTx, chain) ∧
    Chain.ptr [genesis] chain = ptrK11 ∧ NodeState.SameTree node withTx := by
  obtain ⟨hascends, hlast⟩ := NodeState.ascends_pathTo (chainK11.map ChainBlock.pindex) [genesis]
  obtain ⟨hlookup, hbest, htx, -⟩ := read_blocks
  obtain ⟨hinj, -, htree⟩ := tables
  obtain ⟨hconnect, haccept, -⟩ := runs
  have hin : ∀ ptr ∈ (NodeState.pathTo [genesis] ptrK11).reverse, NodeState.InTree node ptr :=
    fun ptr hptr => ⟨_, hlookup ptr hptr⟩
  have hon : NodeState.OnChain primitives S node [] := ⟨.start readTxIndex_genesisDb, hbest, rfl, trivial⟩
  have hconnectK11 : (NodeState.pathTo [genesis] ptrK11).reverse.foldlM
      (NodeState.connectPostponed primitives) node = .ok atK11 := eq_ok_getD hconnect _
  have hacceptTx : tipK11.mempool.acceptTx primitives relay tipK11.globals tipK11.txdb true tx =
      .ok withTx.mempool := eq_ok_getD haccept CTxMemPool.clear
  obtain ⟨chain, hrun, -, hsame, hptr⟩ := CleanRun.connectPostponed (.start htree hon rfl) rfl
    htree hon hascends hin hconnectK11
  have hnone : ∀ (pool : CTxMemPool), ∀ b ∈ (none : Option CBlock), NoRival pool b :=
    fun pool b hb => by cases hb
  have hsame₁ : NodeState.SameTree atK11 tipK11 := ⟨rfl, rfl, rfl, rfl⟩
  have hstate := (hrun.state hinj).1
  have htip : NodeState.OnChain primitives S tipK11 chain :=
    ⟨hstate.onChain.toBuilt.silent hsame₁ fun _ => rfl, hstate.onChain.best, hstate.onChain.closed,
      hstate.onChain.linked⟩
  have hpublished : CleanRun primitives S (tipK11, chain) :=
    hrun.step (.other (hstate.tree.of_same hsame₁) htip rfl) (hnone _)
  have hrun' : CleanRun primitives S (withTx, chain) :=
    hpublished.step (.accept htx hacceptTx) (hnone _)
  exact ⟨chain, hrun', hptr.trans hlast, hsame.fTestNet, hsame.files, hsame.tree,
    hsame.pindexGenesisBlock⟩

/-- The rival's block is connected, and the transaction stays in the pool. -/
theorem not_conflictFree_blockK12 : ∃ chain, CleanRun primitives S (withTx, chain) ∧
    PoolStep primitives S (some blockK12) (withTx, chain) (atK12, ⟨indexK12, blockK12⟩ :: chain) ∧
    ¬ ConflictFree atK12.mempool (⟨indexK12, blockK12⟩ :: chain) := by
  obtain ⟨chain, hrun, hptr, hsame⟩ := cleanRun
  have hon : Chain.ptr withTx.pindexGenesisBlock chain = ptrK11 := by
    rw [hsame.pindexGenesisBlock]
    exact hptr
  obtain ⟨-, -, -, hlookup, hblock⟩ := read_blocks
  obtain ⟨-, -, hbegin, hconnect⟩ := runs
  have hin : NodeState.InTree withTx ptrK12 := hsame.inTree.mpr ⟨hashK12, hlookup⟩
  have hread : readFromDisk primitives withTx.globals indexK12 = some blockK12 := by
    rw [hsame.readFromDisk]
    exact hblock
  have hstep : NodeState.TipChange primitives S (some blockK12) (withTx, chain)
      (atK12, ⟨indexK12, blockK12⟩ :: chain) := by
    have hbegun : withTx.txnBegin = .ok begun := eq_ok_getD hbegin node
    have hconnectK12 : begun.setBestChainInner primitives ptrK12 blockK12 = .ok atK12 :=
      eq_ok_getD hconnect _
    refine .extend hbegun ?_ hread ?_
    · rw [hon]
      exact hin
    · rw [hon]
      exact hconnectK12
  refine ⟨chain, hrun, .change hstep, fun h => ?_⟩
  have hmem : rival ∈ Chain.txs (⟨indexK12, blockK12⟩ :: chain) :=
    mem_chain_txs.mpr ⟨_, List.mem_cons_self, by decide⟩
  have hsame := h (primitives.getHash tx) tx (by decide) rival hmem ⟨hashCoinBaseK1, 0⟩
    ⟨by decide, by decide⟩ ⟨by decide, by decide⟩
  exact absurd hsame (by decide)

theorem conflictFree_iff_noRival_tx : ∃ chain, ConflictFree withTx.mempool chain ∧
    ∀ extension y, PoolStep primitives S extension (withTx, chain) y →
      (ConflictFree y.1.mempool y.2 ↔ ∀ b ∈ extension, NoRival withTx.mempool b) := by
  obtain ⟨chain, hrun, -⟩ := cleanRun
  obtain ⟨hinj, -⟩ := tables
  exact ⟨chain, conflictFree_iff_noRival hinj hrun⟩

end Ripening
end Silkcoin
