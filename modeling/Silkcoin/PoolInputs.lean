/-
  THE INPUTS OF THE MEMORY POOL: every input of every transaction in it is an output of another one in
  it, or an UNSPENT output of the connected chain (`Spendable`).  The block assembler calls the
  opposite something that "should never happen".

  `Reorganize` rebuilds the pool in two loops, and what is in it afterwards can be said without them:

  1. The first loop puts back what the old branch loses.  It comes back EXACTLY if it is no coinbase, no
     coinstake, standard, and not locked past 2038 (`restore_has`).
  2. The second loop takes out what the new branch has connected, what spends an outpoint that the new
     branch spends otherwise (`Rival`), and everything that depends on such a transaction.  The
     recursion visits every dependent before its own entry goes, so it misses NONE
     (`remove_pruned`, `removeConnected_has`).

  Nobody looks at what spends an output of a transaction that does NOT come back.  So the pool is
  spendable again if and only if there is no such orphan (`reorganize_spendable_iff`).
-/
import Silkcoin.PoolConflicts

namespace Silkcoin

open Validation BatchStore SpendLedger

/-! ## Outputs, and who depends on them -/

/-- `o` names an output of the transaction. -/
def CTransaction.HasOutput (P : Primitives) (tx : CTransaction) (o : COutPoint) : Prop :=
  P.getHash tx = o.hash ∧ o.n.toNat < tx.vout.length

/-- No transaction spends from itself through others: its hash covers the hashes it spends from.
    `rank` counts the way back. -/
def Ranked (P : Primitives) (S : Set CTransaction) (rank : CTransaction → Nat) : Prop :=
  ∀ tx ∈ S, ∀ tx' ∈ S, ∀ o ∈ tx.prevouts, P.getHash tx' = o.hash → rank tx' < rank tx

/-- `tx` depends on `c` through transactions `inside`. -/
inductive DependsOn (P : Primitives) (inside : CTransaction → Prop) (c : CTransaction) :
    CTransaction → Prop where
  | self : DependsOn P inside c c
  | spend {a tx : CTransaction} {o : COutPoint} (h : DependsOn P inside c a) (htx : inside tx)
      (ho : o ∈ tx.prevouts) (hout : a.HasOutput P o) : DependsOn P inside c tx

section Depends

variable {P : Primitives} {S : Set CTransaction} {rank : CTransaction → Nat}
  {inside inside' : CTransaction → Prop} {a c d tx : CTransaction}

theorem DependsOn.mono (h : DependsOn P inside c tx) (hin : ∀ t, inside t → inside' t) :
    DependsOn P inside' c tx := by
  induction h with
  | self => exact .self
  | spend _ ht ho hout ih => exact .spend ih (hin _ ht) ho hout

theorem DependsOn.trans (h : DependsOn P inside c d) (h' : DependsOn P inside d tx) :
    DependsOn P inside c tx := by
  induction h' with
  | self => exact h
  | spend _ ht ho hout ih => exact .spend ih ht ho hout

theorem DependsOn.inside_of (h : DependsOn P inside c tx) (hc : inside c) : inside tx := by
  cases h with
  | self => exact hc
  | spend _ ht _ _ => exact ht

/-- What depends on something has no smaller rank. -/
theorem DependsOn.rank_le (hrank : Ranked P S rank) (hin : ∀ t, inside t → t ∈ S) (hc : inside c)
    (h : DependsOn P inside c tx) : rank c ≤ rank tx := by
  induction h with
  | self => exact le_refl _
  | spend h ht ho hout ih =>
    have := hrank _ (hin _ ht) _ (hin _ (h.inside_of hc)) _ ho hout.1
    omega

end Depends

namespace CTxMemPool

variable {P : Primitives} {S : Set CTransaction} {rank : CTransaction → Nat} {pool pool' : CTxMemPool}
  {tx : CTransaction}

/-- The transaction is in the pool. -/
def Has (P : Primitives) (pool : CTxMemPool) (tx : CTransaction) : Prop :=
  pool.mapTx.lookup (P.getHash tx) = some tx

theorem Indexed.has (hi : Indexed P S pool) {hash : Uint256}
    (h : pool.mapTx.lookup hash = some tx) : pool.Has P tx := by
  unfold Has
  rw [(hi.keyed hash tx h).1]
  exact h

theorem Indexed.known (hi : Indexed P S pool) (h : pool.Has P tx) : tx ∈ S := (hi.keyed _ _ h).2

theorem Within.has (h : Within pool' pool) (htx : pool'.Has P tx) : pool.Has P tx := h _ _ htx

/-- What is in the pool under a hash is the transaction. -/
theorem Indexed.has_iff (hinj : Set.InjOn P.getHash S) (hi : Indexed P S pool) (hS : tx ∈ S) :
    pool.Has P tx ↔ (pool.mapTx.lookup (P.getHash tx)).isSome = true := by
  constructor
  · intro h
    unfold Has at h
    rw [h]; rfl
  · intro h
    obtain ⟨t, ht⟩ := Option.isSome_iff_exists.mp h
    obtain ⟨hhash, htS⟩ := hi.keyed _ _ ht
    unfold Has
    rw [ht, hinj htS hS hhash]

/-- Two transactions of the pool that spend one outpoint are the same. -/
theorem Indexed.spender_unique (hi : Indexed P S pool) {t : CTransaction} {o : COutPoint}
    (htx : pool.Has P tx) (ht : pool.Has P t) (ho : o ∈ tx.prevouts) (ho' : o ∈ t.prevouts) : tx = t := by
  have hhash := hi.inverse.unique htx ho ht ho'
  unfold Has at htx ht
  rw [hhash, ht] at htx
  exact (Option.some.inj htx).symm

/-! ## The fuel of a recursive `remove` -/

/-- How many transactions of the pool have rank `n` at least. -/
def above (rank : CTransaction → Nat) (pool : CTxMemPool) (n : Nat) : Nat :=
  pool.mapTx.entries.countP fun e => decide (n ≤ rank e.2)

theorem above_within (h : Within pool' pool) (n : Nat) : above rank pool' n ≤ above rank pool n := by
  have hsub : pool'.mapTx.entries ⊆ pool.mapTx.entries := by
    intro e he
    exact AList.mem_lookup_iff.mp (h e.1 e.2 (AList.mem_lookup_iff.mpr he))
  have hnd : pool'.mapTx.entries.Nodup := pool'.mapTx.nodupKeys.nodup
  exact (hnd.subperm hsub).countP_le _

/-- Above what the transaction makes room for, it is not counted itself. -/
theorem above_lt (hmem : pool.Has P tx) {n : Nat} (hn : rank tx < n) :
    above rank pool n + 1 ≤ above rank pool (rank tx) := by
  obtain ⟨l₁, l₂, hl⟩ := List.append_of_mem (AList.mem_lookup_iff.mp hmem)
  have hmono : ∀ l : List (Σ _ : Uint256, CTransaction),
      l.countP (fun e => decide (n ≤ rank e.2)) ≤ l.countP fun e => decide (rank tx ≤ rank e.2) := by
    intro l
    refine List.countP_mono_left fun e _ he => ?_
    rw [decide_eq_true_eq] at he ⊢
    omega
  have h₁ := hmono l₁
  have h₂ := hmono l₂
  unfold above
  rw [hl, List.countP_append, List.countP_append, List.countP_cons_of_neg (by simpa using hn),
    List.countP_cons_of_pos (by simp)]
  omega

theorem above_pos (hmem : pool.Has P tx) : 0 < above rank pool (rank tx) := by
  unfold above
  rw [List.countP_pos_iff]
  exact ⟨_, AList.mem_lookup_iff.mp hmem, by simp⟩

theorem above_le_length (n : Nat) : above rank pool n ≤ pool.mapTx.entries.length :=
  List.countP_le_length

/-! ## A recursive `remove` misses no dependent -/

/-- Nothing in the pool spends an output of `a`. -/
def Childless (P : Primitives) (pool : CTxMemPool) (a : CTransaction) : Prop :=
  ∀ t, pool.Has P t → ∀ o ∈ t.prevouts, ¬ a.HasOutput P o

theorem Within.childless (h : Within pool' pool) {a : CTransaction} (ha : pool.Childless P a) :
    pool'.Childless P a := fun t ht => ha t (h.has ht)

/-- What a recursive `remove` of `tx` has taken out depends on it, and nothing in the pool spends from
    that any more. -/
def Cascade (P : Primitives) (tx : CTransaction) (pool pool' : CTxMemPool) : Prop :=
  ∀ a, pool.Has P a → ¬ pool'.Has P a → DependsOn P (pool.Has P) tx a ∧ pool'.Childless P a

theorem removeSpenders_succ (removeOne : CTxMemPool → CTransaction → CTxMemPool) (hash : Uint256)
    (k : Nat) (pool : CTxMemPool) : removeSpenders removeOne hash (k + 1) pool =
      match (removeSpenders removeOne hash k pool).spenderOf ⟨hash, UInt32.ofNat k⟩ with
      | none => removeSpenders removeOne hash k pool
      | some txNext => removeOne (removeSpenders removeOne hash k pool) txNext := by
  unfold removeSpenders
  rw [List.range_succ, List.foldl_append]
  rfl

/-- What has been done once the first `k` outputs are without a spender. -/
structure Weaned (P : Primitives) (S : Set CTransaction) (tx : CTransaction) (pool : CTxMemPool) (k : Nat)
    (pool' : CTxMemPool) : Prop where
  indexed : Indexed P S pool'
  within : Within pool' pool
  stays : pool'.Has P tx
  cascade : Cascade P tx pool pool'
  free : ∀ n < k, ∀ t, pool'.Has P t → ⟨P.getHash tx, UInt32.ofNat n⟩ ∉ t.prevouts

/-- One output more. -/
theorem Weaned.succ (hinj : Set.InjOn P.getHash S) (hrank : Ranked P S rank) {fuel k : Nat}
    {q : CTxMemPool} (hk : k < tx.vout.length) (hmem : pool.Has P tx) (hS : tx ∈ S)
    (hfuel : above rank pool (rank tx) ≤ fuel + 1) (hq : Weaned P S tx pool k q)
    (ih : ∀ {pool : CTxMemPool} {tx : CTransaction}, Indexed P S pool → pool.Has P tx →
      above rank pool (rank tx) ≤ fuel →
      ¬ (pool.remove P true fuel tx).Has P tx ∧ Cascade P tx pool (pool.remove P true fuel tx)) :
    Weaned P S tx pool (k + 1) (match q.spenderOf ⟨P.getHash tx, UInt32.ofNat k⟩ with
      | none => q
      | some txNext => q.remove P true fuel txNext) := by
  cases hsp : q.spenderOf ⟨P.getHash tx, UInt32.ofNat k⟩ with
  | none =>
    refine ⟨hq.indexed, hq.within, hq.stays, hq.cascade, fun n hn t ht ho => ?_⟩
    by_cases hnk : n < k
    · exact hq.free n hnk t ht ho
    · obtain rfl : n = k := by omega
      obtain ⟨i, hi⟩ := hq.indexed.inverse.entry_of_mem ht ho
      rw [(spenderOf_eq_none hq.indexed).mp hsp] at hi
      cases hi
  | some x =>
    obtain ⟨hx, hxS, ho⟩ := mem_of_spenderOf hq.indexed hsp
    have hlt : rank tx < rank x := hrank x hxS tx hS _ ho rfl
    have hxfuel : above rank q (rank x) ≤ fuel := by
      have h₁ : above rank q (rank x) ≤ above rank pool (rank x) := above_within hq.within _
      have h₂ := above_lt hmem hlt
      omega
    obtain ⟨hgone, hcascade⟩ := ih hq.indexed hx hxfuel
    obtain ⟨hi', hw'⟩ := remove_indexed hinj true fuel hq.indexed hxS
    have hqS : ∀ t, q.Has P t → t ∈ S := fun t ht => hq.indexed.known ht
    have hx' : DependsOn P (pool.Has P) tx x :=
      .spend .self (hq.within.has hx) ho ⟨rfl, by
        show (UInt32.ofNat k).toNat < _
        rw [UInt32.toNat_ofNat']
        exact lt_of_le_of_lt (Nat.mod_le _ _) hk⟩
    refine ⟨hi', hw'.trans hq.within, ?_, fun a ha hnot => ?_, fun n hn t ht ho' => ?_⟩
    · -- what depends on the spender has a greater rank
      by_contra hnot
      have hle := (hcascade tx hq.stays hnot).1.rank_le hrank hqS hx
      omega
    · by_cases haq : q.Has P a
      · obtain ⟨hdep, hchildless⟩ := hcascade a haq hnot
        exact ⟨hx'.trans (hdep.mono fun t ht => hq.within.has ht), hchildless⟩
      · obtain ⟨hdep, hchildless⟩ := hq.cascade a ha haq
        exact ⟨hdep, hw'.childless hchildless⟩
    · by_cases hnk : n < k
      · exact hq.free n hnk t (hw'.has ht) ho'
      · obtain rfl : n = k := by omega
        obtain rfl := hq.indexed.spender_unique (hw'.has ht) hx ho' ho
        exact hgone ht

/-- **The recursion.**  Fuel for every transaction of the pool that has no smaller rank is enough. -/
theorem remove_pruned (hinj : Set.InjOn P.getHash S) (hrank : Ranked P S rank) (fuel : Nat) :
    ∀ {pool : CTxMemPool} {tx : CTransaction}, Indexed P S pool → pool.Has P tx →
      above rank pool (rank tx) ≤ fuel →
      ¬ (pool.remove P true fuel tx).Has P tx ∧ Cascade P tx pool (pool.remove P true fuel tx) := by
  induction fuel with
  | zero =>
    intro pool tx _ hmem hfuel
    have hpos : 0 < above rank pool (rank tx) := above_pos hmem
    omega
  | succ fuel ih =>
    intro pool tx hi hmem hfuel
    have hS := hi.known hmem
    have hspenders : ∀ k ≤ tx.vout.length,
        Weaned P S tx pool k (removeSpenders (remove P true fuel) (P.getHash tx) k pool) := by
      intro k
      induction k with
      | zero =>
        intro _
        exact ⟨hi, Within.refl pool, hmem, fun a ha hnot => absurd ha hnot, fun n hn => absurd hn
          (Nat.not_lt_zero n)⟩
      | succ k hk =>
        intro hle
        rw [removeSpenders_succ]
        exact (hk (by omega)).succ hinj hrank (by omega) hmem hS hfuel ih
    have hq := hspenders _ (le_refl _)
    have hsome : (pool.mapTx.lookup (P.getHash tx)).isSome = true := by
      unfold Has at hmem
      rw [hmem]; rfl
    rw [remove_succ, if_pos hsome, if_pos rfl]
    generalize removeSpenders (remove P true fuel) (P.getHash tx) tx.vout.length pool = q at hq ⊢
    -- at last the entry of the transaction itself
    have herase : ∀ t, (eraseTx (P := P) q tx).Has P t ↔ q.Has P t ∧ P.getHash t ≠ P.getHash tx := by
      intro t
      unfold Has eraseTx
      dsimp only
      by_cases heq : P.getHash t = P.getHash tx
      · rw [heq, AList.lookup_erase]
        simp
      · rw [AList.lookup_erase_ne heq]
        simp [heq]
    refine ⟨fun h => ((herase tx).mp h).2 rfl, fun a ha hnot => ?_⟩
    by_cases haq : q.Has P a
    · obtain rfl : a = tx := by
        refine hinj (hi.known ha) hS ?_
        by_contra hne
        exact hnot ((herase a).mpr ⟨haq, hne⟩)
      refine ⟨.self, fun t ht o ho hout => ?_⟩
      obtain ⟨hhash, hn⟩ := hout
      refine hq.free o.n.toNat hn t ((herase t).mp ht).1 ?_
      rw [hhash, UInt32.ofNat_toNat]
      exact ho
    · obtain ⟨hdep, hchildless⟩ := hq.cascade a ha haq
      exact ⟨hdep, fun t ht => hchildless t ((herase t).mp ht).1⟩

/-! ## The second loop of `Reorganize` -/

/-- Some OTHER transaction of the list spends an outpoint of `c`. -/
def Rival (vtx : List CTransaction) (c : CTransaction) : Prop :=
  ∃ u ∈ vtx, u ≠ c ∧ ∃ o ∈ u.prevouts, o ∈ c.prevouts

/-- What was taken out on account of `vtx`: a transaction of the list, or one that depends on a rival
    of the list, and of these no dependent is left. -/
structure Pruned (P : Primitives) (S : Set CTransaction) (vtx : List CTransaction)
    (pool pool' : CTxMemPool) : Prop where
  indexed : Indexed P S pool'
  within : Within pool' pool
  cause : ∀ a, pool.Has P a → ¬ pool'.Has P a →
    a ∈ vtx ∨ ∃ c, pool.Has P c ∧ Rival vtx c ∧ DependsOn P (pool.Has P) c a
  closed : ∀ a, pool.Has P a → ¬ pool'.Has P a → a ∉ vtx → pool'.Childless P a

theorem Pruned.refl {vtx : List CTransaction} (hi : Indexed P S pool) : Pruned P S vtx pool pool :=
  ⟨hi, Within.refl pool, fun _ ha hnot => absurd ha hnot, fun _ ha hnot => absurd ha hnot⟩

theorem Pruned.trans {vtx : List CTransaction} {pool₁ pool₂ pool₃ : CTxMemPool}
    (h : Pruned P S vtx pool₁ pool₂) (h' : Pruned P S vtx pool₂ pool₃) :
    Pruned P S vtx pool₁ pool₃ := by
  refine ⟨h'.indexed, h'.within.trans h.within, fun a ha hnot => ?_, fun a ha hnot hvtx => ?_⟩
  · by_cases h₂ : pool₂.Has P a
    · rcases h'.cause a h₂ hnot with hvtx | ⟨c, hc, hrival, hdep⟩
      · exact Or.inl hvtx
      · exact Or.inr ⟨c, h.within.has hc, hrival, hdep.mono fun t ht => h.within.has ht⟩
    · exact h.cause a ha h₂
  · by_cases h₂ : pool₂.Has P a
    · exact h'.closed a h₂ hnot hvtx
    · exact h'.within.childless (h.closed a ha h₂ hvtx)

theorem has_removeTx (t : CTransaction) :
    (pool.removeTx P tx).Has P t ↔ pool.Has P t ∧ P.getHash t ≠ P.getHash tx := by
  unfold Has
  rw [lookup_removeTx]
  by_cases heq : P.getHash t = P.getHash tx
  · simp [heq]
  · simp [heq]

/-- A connected transaction goes, and only it. -/
theorem removeTx_pruned (hinj : Set.InjOn P.getHash S) {vtx : List CTransaction} (hi : Indexed P S pool)
    (hvtx : tx ∈ vtx) (hS : tx ∈ S) : Pruned P S vtx pool (pool.removeTx P tx) := by
  obtain ⟨hi', hw⟩ := removeTx_indexed hinj hi hS
  have hsame : ∀ a, pool.Has P a → ¬ (pool.removeTx P tx).Has P a → a = tx := by
    intro a ha hnot
    refine hinj (hi.known ha) hS ?_
    by_contra hne
    exact hnot ((has_removeTx a).mpr ⟨ha, hne⟩)
  exact ⟨hi', hw, fun a ha hnot => Or.inl (hsame a ha hnot ▸ hvtx),
    fun a ha hnot hno => absurd (hsame a ha hnot ▸ hvtx) hno⟩

/-- Its rivals go, with everything that depends on them. -/
theorem removeConflicts_pruned (hinj : Set.InjOn P.getHash S) (hrank : Ranked P S rank)
    {vtx : List CTransaction} (hi : Indexed P S pool) (hvtx : tx ∈ vtx) :
    Pruned P S vtx pool (pool.removeConflicts P tx) := by
  rw [removeConflicts_eq]
  refine List.foldlRecOn tx.vin _ (motive := Pruned P S vtx pool) (Pruned.refl hi) ?_
  intro p hp txin htxin
  cases hsp : p.spenderOf txin.prevout with
  | none => exact hp
  | some c =>
    obtain ⟨hc, hcS, ho⟩ := mem_of_spenderOf hp.indexed hsp
    dsimp only
    split
    · rename_i hne
      obtain ⟨hi', hw⟩ := remove_indexed hinj true p.mapTx.entries.length hp.indexed hcS
      obtain ⟨-, hcascade⟩ := remove_pruned hinj hrank _ hp.indexed hc (above_le_length _)
      have hrival : Rival vtx c := ⟨tx, hvtx, fun h => hne h.symm, txin.prevout,
        List.mem_map_of_mem htxin, ho⟩
      exact hp.trans ⟨hi', hw, fun a ha hnot => Or.inr ⟨c, hc, hrival, (hcascade a ha hnot).1⟩,
        fun a ha hnot _ => (hcascade a ha hnot).2⟩
    · exact hp

theorem removeConnected_pruned (hinj : Set.InjOn P.getHash S) (hrank : Ranked P S rank)
    {vtx : List CTransaction} (hS : ∀ t ∈ vtx, t ∈ S) (hi : Indexed P S pool) :
    Pruned P S vtx pool (removeConnected P vtx pool) := by
  refine List.foldlRecOn vtx _ (motive := Pruned P S vtx pool) (Pruned.refl hi) ?_
  intro p hp t ht
  have h₁ := removeTx_pruned hinj hp.indexed ht (hS t ht)
  exact (hp.trans h₁).trans (removeConflicts_pruned hinj hrank h₁.indexed ht)

/-- No connected transaction is left. -/
theorem removeConnected_gone (hinj : Set.InjOn P.getHash S) {vtx : List CTransaction}
    (hS : ∀ t ∈ vtx, t ∈ S) (hi : Indexed P S pool) :
    ∀ t ∈ vtx, ¬ (removeConnected P vtx pool).Has P t := by
  induction vtx generalizing pool with
  | nil => exact fun t ht => absurd ht List.not_mem_nil
  | cons u vtx ih =>
    obtain ⟨hu, hrest⟩ := List.forall_mem_cons.mp hS
    obtain ⟨hp₁, -⟩ := removeTx_indexed hinj hi hu
    obtain ⟨hp₂, hw₂⟩ := removeConflicts_indexed hinj hp₁ u
    intro t ht hhas
    rcases List.mem_cons.mp ht with rfl | ht
    · have hw₃ := (removeConnected_indexed hinj hrest hp₂).2
      exact ((has_removeTx t).mp (hw₂.has (hw₃.has hhas))).2 rfl
    · exact ih hrest hp₂ t ht hhas

/-! ## The first loop, exactly -/

/-- What `accept` asks of a transaction on its own, once it has passed `CheckTransaction`. -/
def Restorable (P : Primitives) (fTestNet : Bool) (tx : CTransaction) : Prop :=
  tx.isCoinBase = false ∧ tx.isCoinStake = false ∧ ¬ tx.nLockTime.toNat > 2147483647 ∧
    (fTestNet = true ∨ P.isStandard tx = true)

theorem accept_iff {fTestNet : Bool} (hcheck : tx.checkTransaction = .ok ()) :
    pool.accept P fTestNet tx = .ok pool' ↔ Restorable P fTestNet tx ∧
      pool.mapTx.lookup (P.getHash tx) = none ∧ (∀ o ∈ tx.prevouts, pool.mapNextTx.lookup o = none) ∧
      pool' = pool.addUnchecked (P.getHash tx) tx := by
  have hprevouts : (tx.vin.all fun txin => (pool.mapNextTx.lookup txin.prevout).isNone) = true ↔
      ∀ o ∈ tx.prevouts, pool.mapNextTx.lookup o = none := by
    unfold CTransaction.prevouts
    simp [List.all_eq_true]
  unfold accept Restorable
  rw [hcheck]
  simp only [bind_ok, orFail_ok, require_ok, exists_const, pure_ok, decide_eq_true_eq,
    Bool.not_eq_true', Option.isNone_iff_eq_none, hprevouts, Bool.or_eq_true, and_assoc, true_and,
    eq_comm (a := pool')]

end CTxMemPool

/-! ## The chain behind the pool -/

section Chain

open CTxMemPool

variable {P : Primitives} {S : Set CTransaction} {rank : CTransaction → Nat} {chain : Chain}
  {txdb : CTxDB} {pool : CTxMemPool} {tx : CTransaction} {o : COutPoint}

/-- A connected transaction passed `CheckTransaction`. -/
theorem ChainRun.checkTransaction {base : BlockPtr} {mem : Uint256 → BlockMem}
    (hrun : ChainRun P S base chain txdb mem) :
    ∀ tx ∈ Chain.txs chain, tx.checkTransaction = .ok () := by
  induction hrun with
  | start _ => exact fun tx htx => absurd htx List.not_mem_nil
  | connect _ _ _ _ _ _ hconnect ih =>
    intro tx htx
    obtain ⟨c, hc, htx⟩ := mem_chain_txs.mp htx
    rcases List.mem_cons.mp hc with rfl | hc
    · unfold CBlock.connectBlock at hconnect
      simp only [bind_ok] at hconnect
      obtain ⟨_, hcheck, -⟩ := hconnect
      exact CBlock.checkBlock_txs P _ _ hcheck tx htx
    · exact ih tx (mem_chain_txs.mpr ⟨c, hc, htx⟩)
  | disconnect _ _ ih =>
    intro tx htx
    obtain ⟨c, hc, htx⟩ := mem_chain_txs.mp htx
    exact ih tx (mem_chain_txs.mpr ⟨c, List.mem_cons_of_mem _ hc, htx⟩)
  | silent _ _ ih => exact ih

theorem mem_txs_known (hi : ChainIndex P S chain txdb) (htx : tx ∈ Chain.txs chain) : tx ∈ S := by
  obtain ⟨c, hc, htx⟩ := mem_chain_txs.mp htx
  exact hi.ok.known c hc tx htx

/-- What a connected transaction spends is an output of a connected transaction. -/
theorem creator_of_spends (hi : ChainIndex P S chain txdb) (htx : tx ∈ Chain.txs chain)
    (ho : tx.Spends o) : ∃ w ∈ Chain.txs chain, w.HasOutput P o := by
  obtain ⟨pos, hentry⟩ := entry_of_mem_txs (P := P) htx
  obtain ⟨d, hd, hid, hn⟩ := hi.valid.spends_exist _ hentry _ ho.key
  obtain ⟨c, hc, w, hw, pos', rfl⟩ := mem_ledgerOf hd
  refine ⟨w, mem_chain_txs.mpr ⟨c, hc, hw⟩, hid, ?_⟩
  have hlen : (w.vout.map CTxOut.nValue).length = w.vout.length := List.length_map ..
  rw [← hlen]
  exact hn

/-- No transaction is in two parts of a chain. -/
theorem txs_disjoint {D C : Chain} (hi : ChainIndex P S (D ++ C) txdb) (hD : tx ∈ D.txs) :
    tx ∉ C.txs := by
  intro hC
  obtain ⟨pos, h₁⟩ := entry_of_mem_txs (P := P) hD
  obtain ⟨pos', h₂⟩ := entry_of_mem_txs (P := P) hC
  have hnd := hi.valid.ids_nodup
  have happend : ledgerOf P (D ++ C) = ledgerOf P D ++ ledgerOf P C := by
    unfold ledgerOf connectedTxs
    rw [List.flatMap_append, List.map_append]
  rw [happend, List.map_append, List.nodup_append] at hnd
  exact hnd.2.2 _ (List.mem_map_of_mem h₁) _ (List.mem_map_of_mem h₂) rfl

/-- The transactions of the pool came in through `accept`: none is a coinbase. -/
def Loose (P : Primitives) (pool : CTxMemPool) : Prop := ∀ tx, pool.Has P tx → tx.isCoinBase = false

/-- **The inputs are there**: every input is an output of another transaction in the pool, or an unspent
    output of the chain. -/
def Spendable (P : Primitives) (pool : CTxMemPool) (chain : Chain) : Prop :=
  ∀ tx, pool.Has P tx → ∀ o ∈ tx.prevouts,
    (∃ tx', pool.Has P tx' ∧ tx' ≠ tx ∧ tx'.HasOutput P o) ∨
    ∃ tx' ∈ Chain.txs chain, tx'.HasOutput P o ∧ ∀ u ∈ Chain.txs chain, ¬ u.Spends o

/-- Nothing of the chain is in a spendable pool: its inputs would be spent, and so they would be
    outputs of the pool, which are of the chain again, and so on back. -/
theorem Spendable.not_mem_txs (hinj : Set.InjOn P.getHash S) (hrank : Ranked P S rank)
    (hindexed : Indexed P S pool) (hloose : Loose P pool) (hi : ChainIndex P S chain txdb)
    (hs : Spendable P pool chain) (hhas : pool.Has P tx) : tx ∉ Chain.txs chain := by
  -- by induction on the rank
  induction hn : rank tx using Nat.strong_induction_on generalizing tx with
  | _ n ih =>
    subst hn
    intro htx
    obtain ⟨c, hc, hvtx⟩ := mem_chain_txs.mp htx
    obtain ⟨txin, vin, hvin⟩ := List.exists_cons_of_ne_nil ((hi.ok.checked c hc).txs tx hvtx).vin_ne
    have ho : txin.prevout ∈ tx.prevouts := by
      unfold CTransaction.prevouts
      rw [hvin]
      exact List.mem_cons_self
    have hspends : tx.Spends txin.prevout := ⟨hloose tx hhas, ho⟩
    rcases hs tx hhas _ ho with ⟨w, hw, -, hout⟩ | ⟨-, -, -, hunspent⟩
    · obtain ⟨w', hw', hout'⟩ := creator_of_spends hi htx hspends
      have hwS := hindexed.known hw
      obtain rfl : w' = w := hinj (mem_txs_known hi hw') hwS (hout'.1.trans hout.1.symm)
      exact ih _ (hrank tx (hindexed.known hhas) w' hwS _ ho hout.1) hw rfl hw'
    · exact hunspent tx htx hspends

/-- A spendable pool spends nothing the chain has spent. -/
theorem Spendable.unspent (hinj : Set.InjOn P.getHash S) (hrank : Ranked P S rank)
    (hindexed : Indexed P S pool) (hloose : Loose P pool) (hi : ChainIndex P S chain txdb)
    (hs : Spendable P pool chain) (hhas : pool.Has P tx) (ho : o ∈ tx.prevouts) {u : CTransaction}
    (hu : u ∈ Chain.txs chain) : ¬ u.Spends o := by
  intro hspends
  rcases hs tx hhas o ho with ⟨w, hw, -, hout⟩ | ⟨-, -, -, hunspent⟩
  · obtain ⟨w', hw', hout'⟩ := creator_of_spends hi hu hspends
    obtain rfl : w' = w := hinj (mem_txs_known hi hw') (hindexed.known hw) (hout'.1.trans hout.1.symm)
    exact hs.not_mem_txs hinj hrank hindexed hloose hi hw hw'
  · exact hunspent u hu hspends

end Chain

/-! ## The pool before and after -/

section Pool

open CTxMemPool

variable {P : Primitives} {S : Set CTransaction} {rank : CTransaction → Nat} {D N C : Chain}
  {txdb txdb' : CTxDB} {pool : CTxMemPool} {fTestNet : Bool}

theorem mem_resurrected {tx : CTransaction} :
    tx ∈ D.resurrected ↔ tx ∈ D.txs ∧ tx.isCoinBase = false ∧ tx.isCoinStake = false := by
  unfold Chain.resurrected
  rw [mem_chain_txs, List.mem_flatMap]
  simp only [List.mem_filter, Bool.not_eq_true', Bool.or_eq_false_iff]
  exact ⟨fun ⟨c, hc, htx, hno⟩ => ⟨⟨c, hc, htx⟩, hno⟩, fun ⟨⟨c, hc, htx⟩, hno⟩ => ⟨c, hc, htx, hno⟩⟩

/-- In the pool, or in the old branch and allowed back. -/
def Kept (P : Primitives) (fTestNet : Bool) (pool : CTxMemPool) (D : Chain) (tx : CTransaction) : Prop :=
  pool.Has P tx ∨ tx ∈ D.txs ∧ Restorable P fTestNet tx

theorem has_addUnchecked {tx : CTransaction} (hnew : pool.mapTx.lookup (P.getHash tx) = none)
    (t : CTransaction) :
    (pool.addUnchecked (P.getHash tx) tx).Has P t ↔ pool.Has P t ∨ t = tx := by
  unfold Has
  rw [show (pool.addUnchecked (P.getHash tx) tx).mapTx = pool.mapTx.insert (P.getHash tx) tx from rfl,
    lookup_insert_eq_ite]
  split
  · rename_i heq
    refine ⟨fun h => Or.inr (Option.some.inj h).symm, ?_⟩
    rintro (h | rfl)
    · rw [heq, h] at hnew
      cases hnew
    · rfl
  · rename_i hne
    refine ⟨Or.inl, ?_⟩
    rintro (h | rfl)
    · exact h
    · exact absurd rfl hne

/-- **The first loop**: what the old branch loses comes back exactly if it is allowed to.  Neither the
    pool nor what is already back spends its inputs. -/
theorem restore_has (hinj : Set.InjOn P.getHash S) (hrank : Ranked P S rank)
    (hindexed : Indexed P S pool) (hloose : Loose P pool) (hi : ChainIndex P S (D ++ C) txdb)
    (hcheck : ∀ tx ∈ Chain.txs (D ++ C), tx.checkTransaction = .ok ())
    (hs : Spendable P pool (D ++ C)) :
    Indexed P S (restore P fTestNet D.resurrected pool) ∧ ∀ tx,
      (restore P fTestNet D.resurrected pool).Has P tx ↔ Kept P fTestNet pool D tx := by
  have hold : ∀ tx ∈ D.txs, tx ∈ Chain.txs (D ++ C) := fun tx htx =>
    (txs_append D C tx).mpr (Or.inl htx)
  -- over the transactions done so far
  have hloop : ∀ (post pre : List CTransaction) (p : CTxMemPool), (∀ t ∈ pre ++ post, t ∈ D.resurrected) →
      Indexed P S p → (∀ tx, p.Has P tx ↔ pool.Has P tx ∨ tx ∈ pre ∧ Restorable P fTestNet tx) →
      Indexed P S (restore P fTestNet post p) ∧ ∀ tx, (restore P fTestNet post p).Has P tx ↔
        pool.Has P tx ∨ tx ∈ pre ++ post ∧ Restorable P fTestNet tx := by
    intro post
    induction post with
    | nil =>
      intro pre p _ hp hhas
      rw [List.append_nil]
      exact ⟨hp, hhas⟩
    | cons t post ih =>
      intro pre p hsub hp hhas
      have hsplit : pre ++ t :: post = (pre ++ [t]) ++ post := by simp
      obtain ⟨htD, hcb, -⟩ := mem_resurrected.mp (hsub t (by simp))
      have htS : t ∈ S := mem_txs_known hi (hold t htD)
      have hiff : ∀ q, p.accept P fTestNet t = .ok q ↔ _ := fun q => accept_iff (hcheck t (hold t htD))
      rw [hsplit] at hsub ⊢
      rw [show restore P fTestNet (t :: post) p = restore P fTestNet post (p.acceptOrDrop P fTestNet t)
        from rfl]
      by_cases hnew : Restorable P fTestNet t ∧ p.mapTx.lookup (P.getHash t) = none
      · obtain ⟨hback, hnone⟩ := hnew
        have hfree : ∀ o ∈ t.prevouts, p.mapNextTx.lookup o = none := by
          intro o ho
          by_contra hsome
          obtain ⟨r, hr⟩ := Option.ne_none_iff_exists'.mp hsome
          obtain ⟨u, hu, hou⟩ := hp.inverse.owner o r.1 r.2 hr
          have hou := List.mem_of_getElem? hou
          have huhas : p.Has P u := hp.has hu
          rcases (hhas u).mp huhas with hupool | ⟨hupre, huback⟩
          · exact hs.unspent hinj hrank hindexed hloose hi hupool hou (hold t htD) ⟨hcb, ho⟩
          · obtain ⟨huD, -⟩ := mem_resurrected.mp (hsub u (by simp [hupre]))
            obtain rfl := spends_unique hinj hi (hold u huD) (hold t htD) ⟨huback.1, hou⟩ ⟨hcb, ho⟩
            unfold Has at huhas
            rw [hnone] at huhas
            cases huhas
        have haccept := (hiff _).mpr ⟨hback, hnone, hfree, rfl⟩
        rw [show p.acceptOrDrop P fTestNet t = p.addUnchecked (P.getHash t) t by
          unfold acceptOrDrop; rw [haccept]]
        have hchecked := t.checkTransaction_ok (hcheck t (hold t htD))
        refine ih (pre ++ [t]) _ hsub (addUnchecked_indexed hp htS hchecked hnone hfree) fun tx => ?_
        rw [has_addUnchecked hnone, hhas, List.mem_append, List.mem_singleton]
        constructor
        · rintro ((h | h) | rfl)
          · exact Or.inl h
          · exact Or.inr ⟨Or.inl h.1, h.2⟩
          · exact Or.inr ⟨Or.inr rfl, hback⟩
        · rintro (h | ⟨h | h, hback'⟩)
          · exact Or.inl (Or.inl h)
          · exact Or.inl (Or.inr ⟨h, hback'⟩)
          · exact Or.inr h
      · -- refused: it is not allowed back, or it is back already
        have hdrop : p.acceptOrDrop P fTestNet t = p := by
          unfold acceptOrDrop
          split
          · rename_i q haccept
            obtain ⟨hback, hnone, -⟩ := (hiff q).mp haccept
            exact absurd ⟨hback, hnone⟩ hnew
          · rfl
        rw [hdrop]
        refine ih (pre ++ [t]) _ hsub hp fun tx => ?_
        rw [hhas, List.mem_append, List.mem_singleton]
        constructor
        · rintro (h | h)
          · exact Or.inl h
          · exact Or.inr ⟨Or.inl h.1, h.2⟩
        · rintro (h | ⟨h | rfl, hback⟩)
          · exact Or.inl h
          · exact Or.inr ⟨h, hback⟩
          · refine (hhas tx).mp ((hp.has_iff hinj htS).mpr (Option.isSome_iff_ne_none.mpr fun hnone => ?_))
            exact hnew ⟨hback, hnone⟩
  obtain ⟨hr, hhas⟩ := hloop D.resurrected [] pool (fun t ht => ht) hindexed (by simp)
  refine ⟨hr, fun tx => (hhas tx).trans (or_congr_right ?_)⟩
  rw [List.nil_append, mem_resurrected]
  exact ⟨fun h => ⟨h.1.1, h.2⟩, fun h => ⟨⟨h.1, h.2.1, h.2.2.1⟩, h.2⟩⟩

/-- What depends on a rival of the new branch is not in the new chain: the rival would be. -/
theorem not_mem_txs_of_rival (hinj : Set.InjOn P.getHash S) {inside : CTransaction → Prop}
    (hin : ∀ tx, inside tx → tx ∈ S ∧ tx.isCoinBase = false) (hi : ChainIndex P S (N ++ C) txdb)
    {c tx : CTransaction} (hc : inside c) (hrival : Rival N.txs c) (h : DependsOn P inside c tx) :
    tx ∉ Chain.txs (N ++ C) := by
  induction h with
  | self =>
    intro htx
    obtain ⟨u, hu, hne, o, ho, ho'⟩ := hrival
    obtain ⟨k, hk, hvtx⟩ := mem_chain_txs.mp htx
    have hchecked := (hi.ok.checked k hk).txs c hvtx
    have huC : u ∈ Chain.txs (N ++ C) := (txs_append N C u).mpr (Or.inl hu)
    by_cases hcb : u.isCoinBase = true
    · -- a coinbase names the null outpoint, and nothing else that is connected does
      obtain ⟨txin, hvin, hnull, -⟩ := u.isCoinBase_iff.mp hcb
      obtain ⟨txin', hmem, rfl⟩ := List.mem_map.mp ho'
      have ho : txin'.prevout ∈ u.prevouts := ho
      rw [CTransaction.prevouts, hvin, List.map_singleton, List.mem_singleton] at ho
      rw [← ho, hchecked.inputs (hin c hc).2 txin' hmem] at hnull
      cases hnull
    · exact hne (spends_unique hinj hi huC htx ⟨by simpa using hcb, ho⟩ ⟨(hin c hc).2, ho'⟩)
  | @spend a tx o h htx ho hout ih =>
    intro hmem
    obtain ⟨w, hw, hout'⟩ := creator_of_spends hi hmem ⟨(hin tx htx).2, ho⟩
    have ha := h.inside_of hc
    obtain rfl : w = a := hinj (mem_txs_known hi hw) (hin a ha).1 (hout'.1.trans hout.1.symm)
    exact ih hw

/-- **The second loop**: what the new branch has connected is taken out, and what depends on a rival of
    it, and nothing else. -/
theorem removeConnected_has (hinj : Set.InjOn P.getHash S) (hrank : Ranked P S rank)
    (hindexed : Indexed P S pool) (hloose : Loose P pool) (hi : ChainIndex P S (N ++ C) txdb)
    (tx : CTransaction) :
    (removeConnected P N.txs pool).Has P tx ↔ pool.Has P tx ∧ tx ∉ N.txs ∧
      ¬ ∃ c, pool.Has P c ∧ Rival N.txs c ∧ DependsOn P (pool.Has P) c tx := by
  have hS : ∀ t ∈ N.txs, t ∈ S := fun t ht =>
    mem_txs_known hi ((txs_append N C t).mpr (Or.inl ht))
  have hpruned := removeConnected_pruned hinj hrank hS hindexed
  constructor
  · intro h
    refine ⟨hpruned.within.has h, fun htx => removeConnected_gone hinj hS hindexed tx htx h, ?_⟩
    rintro ⟨c, hc, hrival, hdep⟩
    have hnot : ∀ {a}, DependsOn P (pool.Has P) c a → a ∉ Chain.txs (N ++ C) :=
      not_mem_txs_of_rival hinj (fun t ht => ⟨hindexed.known ht, hloose t ht⟩) hi hc hrival
    -- along the dependence, from the rival on
    refine absurd h ?_
    clear h
    induction hdep with
    | self =>
      intro h
      obtain ⟨u, hu, -, o, ho, ho'⟩ := hrival
      exact removeConnected_free hinj hS hindexed u hu o ho _ _ h ho'
    | @spend a tx o hdep htx ho hout ih =>
      intro h
      have hN : a ∉ N.txs := fun hmem => hnot hdep ((txs_append N C a).mpr (Or.inl hmem))
      exact hpruned.closed a (hdep.inside_of hc) ih hN tx h o ho hout
  · rintro ⟨h, hN, hno⟩
    by_contra hgone
    rcases hpruned.cause tx h hgone with hmem | hdep
    · exact hN hmem
    · exact hno hdep

/-- No transaction that is kept spends an output of one that is lost with the old branch, unless it
    goes with a rival of the new branch. -/
def NoOrphan (P : Primitives) (fTestNet : Bool) (pool : CTxMemPool) (D N : Chain) : Prop :=
  ∀ tx, Kept P fTestNet pool D tx → ∀ o ∈ tx.prevouts, ∀ lost ∈ D.txs, lost.HasOutput P o →
    ¬ Restorable P fTestNet lost → lost ∉ N.txs →
    ∃ c, Kept P fTestNet pool D c ∧ Rival N.txs c ∧ DependsOn P (Kept P fTestNet pool D) c tx

/-- Where an input of a kept transaction comes from. -/
theorem Kept.origin (hi : ChainIndex P S (D ++ C) txdb) (hs : Spendable P pool (D ++ C))
    {tx : CTransaction} (htx : Kept P fTestNet pool D tx) {o : COutPoint} (ho : o ∈ tx.prevouts) :
    ∃ w, w.HasOutput P o ∧ (pool.Has P w ∨ w ∈ D.txs ∨ w ∈ C.txs) := by
  rcases htx with htx | ⟨htx, hback⟩
  · rcases hs tx htx o ho with ⟨w, hw, -, hout⟩ | ⟨w, hw, hout, -⟩
    · exact ⟨w, hout, Or.inl hw⟩
    · exact ⟨w, hout, Or.inr ((txs_append D C w).mp hw)⟩
  · obtain ⟨w, hw, hout⟩ := creator_of_spends hi ((txs_append D C tx).mpr (Or.inl htx)) ⟨hback.1, ho⟩
    exact ⟨w, hout, Or.inr ((txs_append D C w).mp hw)⟩

/-- **The two loops together.**  The pool is spendable again exactly if there is no orphan. -/
theorem spendable_iff_noOrphan (hinj : Set.InjOn P.getHash S) (hrank : Ranked P S rank)
    (hindexed : Indexed P S pool) (hloose : Loose P pool) (hold : ChainIndex P S (D ++ C) txdb)
    (hcheck : ∀ tx ∈ Chain.txs (D ++ C), tx.checkTransaction = .ok ())
    (hnew : ChainIndex P S (N ++ C) txdb') (hs : Spendable P pool (D ++ C)) :
    Spendable P (removeConnected P N.txs (restore P fTestNet D.resurrected pool)) (N ++ C) ↔
      NoOrphan P fTestNet pool D N := by
  obtain ⟨hrestored, hkept⟩ : Indexed P S (restore P fTestNet D.resurrected pool) ∧ _ :=
    restore_has hinj hrank hindexed hloose hold hcheck hs
  have hloose' : Loose P (restore P fTestNet D.resurrected pool) := by
    intro tx htx
    rcases (hkept tx).mp htx with htx | ⟨-, hback⟩
    · exact hloose tx htx
    · exact hback.1
  have hhas := removeConnected_has hinj hrank hrestored hloose' hnew
  rw [show (restore P fTestNet D.resurrected pool).Has P = Kept P fTestNet pool D from
    funext fun tx => propext (hkept tx)] at hhas
  have hknown : ∀ tx, Kept P fTestNet pool D tx → tx ∈ S := fun tx htx =>
    hrestored.known ((hkept tx).mpr htx)
  -- what is lost is not in the pool, nor in the common part
  have hlost : ∀ lost ∈ D.txs, ¬ Restorable P fTestNet lost → lost ∉ N.txs →
      ¬ Kept P fTestNet pool D lost ∧ lost ∉ Chain.txs (N ++ C) := by
    intro lost hD hno hN
    constructor
    · rintro (h | h)
      · exact hs.not_mem_txs hinj hrank hindexed hloose hold h ((txs_append D C lost).mpr (Or.inl hD))
      · exact hno h.2
    · intro h
      rcases (txs_append N C lost).mp h with h | h
      · exact hN h
      · exact txs_disjoint hold hD h
  constructor
  · intro h tx htx o ho lost hD hout hno hN
    obtain ⟨hnotKept, hnotChain⟩ := hlost lost hD hno hN
    have hlostS : lost ∈ S := mem_txs_known hold ((txs_append D C lost).mpr (Or.inl hD))
    by_contra hrival
    by_cases hmem : tx ∈ N.txs
    · -- then its input would be an output of the new chain
      have hcb := hloose' tx ((hkept tx).mpr htx)
      obtain ⟨w, hw, hout'⟩ := creator_of_spends hnew ((txs_append N C tx).mpr (Or.inl hmem)) ⟨hcb, ho⟩
      obtain rfl : w = lost := hinj (mem_txs_known hnew hw) hlostS (hout'.1.trans hout.1.symm)
      exact hnotChain hw
    · rcases h tx ((hhas tx).mpr ⟨htx, hmem, hrival⟩) o ho with ⟨w, hw, -, hout'⟩ | ⟨w, hw, hout', -⟩
      · have hw := ((hhas w).mp hw).1
        obtain rfl : w = lost := hinj (hknown w hw) hlostS (hout'.1.trans hout.1.symm)
        exact hnotKept hw
      · obtain rfl : w = lost := hinj (mem_txs_known hnew hw) hlostS (hout'.1.trans hout.1.symm)
        exact hnotChain hw
  · intro h tx htx o ho
    obtain ⟨hkeptTx, hN, hrival⟩ := (hhas tx).mp htx
    have hcb := hloose' tx ((hkept tx).mpr hkeptTx)
    -- nothing connected takes the input: it would be the transaction itself
    have hunspent : ∀ u ∈ Chain.txs (N ++ C), ¬ u.Spends o := by
      intro u hu hspends
      have hfree : ConflictFree pool (D ++ C) := fun hash t ht u hu o ho ho' =>
        absurd ho' (hs.unspent hinj hrank hindexed hloose hold (hindexed.has ht) ho.2 hu)
      have hS : ∀ t ∈ N.txs, t ∈ S := fun t ht =>
        mem_txs_known hnew ((txs_append N C t).mpr (Or.inl ht))
      obtain rfl := conflictFree_reorganize hinj hindexed hold hS hfree _ tx htx u hu o ⟨hcb, ho⟩ hspends
      rcases (txs_append N C u).mp hu with hu | hu
      · exact hN hu
      · rcases hkeptTx with hpool | ⟨hD, -⟩
        · exact hs.not_mem_txs hinj hrank hindexed hloose hold hpool
            ((txs_append D C u).mpr (Or.inr hu))
        · exact txs_disjoint hold hD hu
    obtain ⟨w, hout, hw⟩ := hkeptTx.origin hold hs ho
    by_cases hmem : w ∈ Chain.txs (N ++ C)
    · exact Or.inr ⟨w, hmem, hout, hunspent⟩
    · have hnotN : w ∉ N.txs := fun h => hmem ((txs_append N C w).mpr (Or.inl h))
      have hwkept : Kept P fTestNet pool D w := by
        rcases hw with hw | hw | hw
        · exact Or.inl hw
        · refine Or.inr ⟨hw, ?_⟩
          by_contra hno
          exact hrival (h tx hkeptTx o ho w hw hout hno hnotN)
        · exact absurd ((txs_append N C w).mpr (Or.inr hw)) hmem
      refine Or.inl ⟨w, (hhas w).mpr ⟨hwkept, hnotN, ?_⟩, ?_, hout⟩
      · rintro ⟨c, hc, hr, hdep⟩
        exact hrival ⟨c, hc, hr, .spend hdep hkeptTx ho hout⟩
      · rintro rfl
        exact lt_irrefl _ (hrank w (hknown w hwkept) w (hknown w hwkept) o ho hout.1)

/-- **`Reorganize` and the inputs of the pool.**  From a consistent state with a spendable pool: after
    every successful `Reorganize`, whatever the branches, the pool is spendable on the new chain if and
    only if it had no orphan. -/
theorem reorganize_spendable_iff (hinj : Set.InjOn P.getHash S) (hrank : Ranked P S rank)
    {s t s' : NodeState} {chain : Chain} {new : BlockPtr} (hx : PoolState P S (s, chain))
    (hloose : Loose P s.mempool) (hs : Spendable P s.mempool chain)
    (hbest : s.pindexBest = Chain.ptr s.pindexGenesisBlock chain) (hin : NodeState.InTree s s.pindexBest)
    (hnew : NodeState.InTree s new) (hbegin : s.txnBegin = .ok t) (h : t.reorganize P new = .ok s') :
    ∃ D N C, chain = D ++ C ∧ new = Chain.ptr s.pindexGenesisBlock (N ++ C) ∧
      NodeState.findFork s.pindexBest new = .ok (Chain.ptr s.pindexGenesisBlock C) ∧
      NodeState.OnChain P S s' (N ++ C) ∧
      (Spendable P s'.mempool (N ++ C) ↔ NoOrphan P s.fTestNet s.mempool D N) := by
  have hsame := (NodeState.InTxn.begin hbegin).same
  obtain ⟨hb, hl⟩ := hx.onChain.begin hbegin
  obtain ⟨-, rfl⟩ := NodeState.txnBegin_ok hbegin
  obtain ⟨D, N, C, rfl, hN, hc', -, -, hpool, hfork⟩ := NodeState.reorganize_ok
    (hx.tree.of_same hsame) hb hl hbest (hsame.inTree.mpr hin) (hsame.inTree.mpr hnew) h
  rw [updatePool_eq] at hpool
  refine ⟨D, N, C, rfl, hN.symm, hfork, hc', ?_⟩
  rw [hpool]
  exact spendable_iff_noOrphan hinj hrank hx.indexed hloose (hx.onChain.run.index hinj)
    hx.onChain.run.checkTransaction (hc'.run.index hinj) hs

end Pool

/-! ## A locked transaction on the old branch -/

/- On top of the eleven blocks: `L12` with a transaction that is locked past 2038 but final, against
   `M12` and `M13`.  The pool spends what is locked. -/
namespace Orphan

open Sample
open Ripening (chainK11 ptrK11 indexK11 hashCoinBaseK1 spend testBlock relay)

def coinBaseL12 : CTransaction := coinBaseTx 1398948058 [0x5c, 0x4c] (5000 * COIN)

def locked : CTransaction := spend hashCoinBaseK1 1398948028 (4999 * COIN) 0x80000000

def hashLocked : Uint256 := 0xdc5ba6868b4458ae26930ee64f8ccba4fa667da860c0e010a2233e399028fcf8

def orphan : CTransaction := spend hashLocked 1398948058 (4998 * COIN) 0

def blockL12 : CBlock :=
  testBlock indexK11.hashBlock 0x60ac96810b4551b8385db6e13ab013dbd8a1a2434b894d16bdd4b4bdaa7de26b
    8624 coinBaseL12 [locked]

def indexL12 : CBlockIndex :=
  entryOn indexK11 3600 0x0000177b01e0ac21bc1572de1714501bfa81fe8c6eb9a3503d31dfb8dcd6dea1 blockL12

def chainL12 : Chain := ⟨indexL12, blockL12⟩ :: chainK11

def ptrL12 : BlockPtr := indexL12 :: ptrK11

def coinBaseM12 : CTransaction := coinBaseTx 1398948058 [0x5c, 0x4d] (5000 * COIN)

def blockM12 : CBlock :=
  testBlock indexK11.hashBlock 0x62e8e0fd93e56b3599968dfac7715b79f74671898d885659eaa69e0105923094
    30995 coinBaseM12 []

def indexM12 : CBlockIndex :=
  entryOn indexK11 4200 0x00005853e22913364f764b0d2ba5f4795141c227ad6ea51cfb030fb80266d1bf blockM12

def coinBaseM13 : CTransaction := coinBaseTx 1398948118 [0x5d, 0x4d] (5000 * COIN)

def blockM13 : CBlock :=
  testBlock indexM12.hashBlock 0xc5a1c10cd2c389d1d75cbef56a44fe4a7083a94cc7f1c16236748dfb3c0b1aa0
    83849 coinBaseM13 []

def indexM13 : CBlockIndex :=
  entryOn indexM12 4800 0x00003b4de9d129f1c5ed4071177a29d4e8152c23a630a28680225605f7147224 blockM13

def chainM13 : Chain := ⟨indexM13, blockM13⟩ :: ⟨indexM12, blockM12⟩ :: chainK11

def ptrM13 : BlockPtr := indexM13 :: indexM12 :: ptrK11

def blocks : Chain := ⟨indexM13, blockM13⟩ :: ⟨indexM12, blockM12⟩ :: chainL12

def txs : List (CTransaction × Uint256) :=
  [(locked, hashLocked),
    (orphan, 0xa2235177d3e47e791f9a71659a3048c15fed1fa8eea22af4c1637089062afc0c),
    (coinBaseL12, 0x070ac48c5c16b4d1ff1ae0e8a6ee79091d96c4231919901b9e85ec2c53773447),
    (coinBaseM12, blockM12.hashMerkleRoot), (coinBaseM13, blockM13.hashMerkleRoot)] ++
  chainK11.map fun c => ((c.block.vtx.head?).getD locked, c.block.hashMerkleRoot)

def primitives : Primitives := Primitives.ofTables txs
  (blocks.map fun c => (c.block.toCBlockHeader, c.pindex.hashBlock))
  [((0x070ac48c5c16b4d1ff1ae0e8a6ee79091d96c4231919901b9e85ec2c53773447, hashLocked),
    blockL12.hashMerkleRoot)]

/-- A test node on genesis, with both branches on disk. -/
def node : NodeState := { Ripening.node with
  files := filesOf blocks
  tree := { treeUpTo [] with
    mapBlockIndex := (ptrM13 :: (indexM12 :: ptrK11) :: ptrL12.tails.dropLast).foldr (fun ptr m => m.insert
      ((ptr.head?.map CBlockIndex.hashBlock).getD 0) ptr) ∅ } }

def S : Set CTransaction := { t | t ∈ txs.map Prod.fst }

/-- How many transactions are before it. -/
def rank (tx : CTransaction) : Nat :=
  if tx = orphan then 2 else if tx = locked then 1 else 0

/-- The tables are sound, and what is on disk is what was put there. -/
theorem tables : Set.InjOn primitives.getHash S ∧ ChainStored node.files blocks ∧
    NodeState.TreeOk primitives S node :=
  NodeState.TreeOk.of_tables (fun ptr => ({ node.globals with pindexBest := ptr }, treeUpTo ptr)) rfl
    (by decide)

/-- Twelve blocks connected, the tip published, the transaction in the pool, and the other branch. -/
def atL12 : NodeState := (((NodeState.pathTo [genesis] ptrL12).reverse.foldlM
  (NodeState.connectPostponed primitives) node).toOption).getD node

def tipL12 : NodeState := atL12.publish ptrL12 indexL12.hashBlock

def withOrphan : NodeState := { tipL12 with
  mempool := ((tipL12.mempool.acceptTx primitives relay tipL12.globals tipL12.txdb true
    orphan).toOption).getD CTxMemPool.clear }

def begun : NodeState := (withOrphan.txnBegin.toOption).getD node

def atM13 : NodeState := ((begun.reorganize primitives ptrM13).toOption).getD node

/-- What is computed: the twelve blocks are connected, the transaction is accepted, the switch is made. -/
theorem runs : ((NodeState.pathTo [genesis] ptrL12).reverse.foldlM
      (NodeState.connectPostponed primitives) node).isOk = true ∧
    (tipL12.mempool.acceptTx primitives relay tipL12.globals tipL12.txdb true orphan).isOk = true ∧
    withOrphan.txnBegin.isOk = true ∧ (begun.reorganize primitives ptrM13).isOk = true := by
  decide

theorem connectL12 : (NodeState.pathTo [genesis] ptrL12).reverse.foldlM
    (NodeState.connectPostponed primitives) node = .ok atL12 :=
  let ⟨h, _⟩ := runs
  eq_ok_getD h _

theorem acceptOrphan : tipL12.mempool.acceptTx primitives relay tipL12.globals tipL12.txdb true orphan =
    .ok withOrphan.mempool :=
  let ⟨_, h, _⟩ := runs
  eq_ok_getD h CTxMemPool.clear

theorem begin_eq : withOrphan.txnBegin = .ok begun :=
  let ⟨_, _, h, _⟩ := runs
  eq_ok_getD h node

theorem reorganizeM13 : begun.reorganize primitives ptrM13 = .ok atM13 :=
  let ⟨_, _, _, h⟩ := runs
  eq_ok_getD h node

/-- The blocks on disk, where their entries are, what the database says of the tip, and the ranks. -/
theorem read_blocks : (∀ c ∈ blocks, readFromDisk primitives node.globals c.pindex = some c.block) ∧
    (∀ ptr ∈ (NodeState.pathTo [genesis] ptrL12).reverse, node.tree.mapBlockIndex.lookup
      ((ptr.head?.map CBlockIndex.hashBlock).getD 0) = some ptr) ∧
    node.txdb.readHashBestChain = (Chain.ptr node.pindexGenesisBlock []).head?.map CBlockIndex.hashBlock ∧
    orphan ∈ txs.map Prod.fst ∧
    ∀ tx ∈ txs.map Prod.fst, ∀ tx' ∈ txs.map Prod.fst, ∀ o ∈ tx.prevouts,
      primitives.getHash tx' = o.hash → rank tx' < rank tx := by
  decide

theorem ranked : Ranked primitives S rank :=
  let ⟨_, _, _, _, h⟩ := read_blocks
  h

theorem onChain : NodeState.OnChain primitives S node [] := by
  obtain ⟨-, -, hbest, -⟩ := read_blocks
  exact ⟨.start readTxIndex_genesisDb, hbest, rfl, trivial⟩

/-- The state before. -/
theorem poolState : PoolState primitives S (withOrphan, chainL12) ∧
    NodeState.SameTree node withOrphan ∧ ∀ t, withOrphan.mempool.Has primitives t ↔ t = orphan := by
  obtain ⟨hascends, hlast⟩ := NodeState.ascends_pathTo (chainL12.map ChainBlock.pindex) [genesis]
  obtain ⟨hread, hlookup, -, horphan, -⟩ := read_blocks
  obtain ⟨hinj, -, htree⟩ := tables
  have hin : ∀ ptr ∈ (NodeState.pathTo [genesis] ptrL12).reverse, NodeState.InTree node ptr :=
    fun ptr hptr => ⟨_, hlookup ptr hptr⟩
  obtain ⟨chain, hrun, hempty, hsame, hptr⟩ := CleanRun.connectPostponed (.start htree onChain rfl) rfl
    htree onChain hascends hin connectL12
  have hstate := (hrun.state hinj).1
  obtain rfl : chain = chainL12 := by
    refine NodeState.chain_eq_of_read (hsame.readFromDisk primitives ▸ hstate.onChain.read)
      (fun c hc => ?_) (hptr.trans hlast)
    exact hread c (List.mem_cons_of_mem _ (List.mem_cons_of_mem _ hc))
  have hsame₁ : NodeState.SameTree atL12 withOrphan := ⟨rfl, rfl, rfl, rfl⟩
  refine ⟨⟨hstate.tree.of_same hsame₁, ⟨hstate.onChain.toBuilt.silent hsame₁ fun _ => rfl,
    hstate.onChain.best, hstate.onChain.closed, hstate.onChain.linked⟩,
    CTxMemPool.accept_indexed hstate.indexed horphan acceptOrphan⟩, hsame.trans hsame₁, fun t => ?_⟩
  obtain ⟨-, -, -, hnew, -, -, hpool⟩ := CTxMemPool.acceptTx_ok acceptOrphan
  have hclear : ¬ tipL12.mempool.Has primitives t := by
    show ¬ atL12.mempool.Has primitives t
    rw [show atL12.mempool = CTxMemPool.clear from hempty]
    intro h
    cases h
  rw [hpool, has_addUnchecked hnew]
  exact or_iff_right hclear

theorem spendable : Loose primitives withOrphan.mempool ∧
    Spendable primitives withOrphan.mempool chainL12 := by
  obtain ⟨-, -, hhas⟩ := poolState
  constructor
  · intro tx htx
    rw [(hhas tx).mp htx]
    decide
  · intro tx htx o ho
    obtain rfl := (hhas tx).mp htx
    obtain rfl : o = ⟨hashLocked, 0⟩ := by
      have hvin : orphan.prevouts = [⟨hashLocked, 0⟩] := by decide
      rw [hvin] at ho
      exact List.mem_singleton.mp ho
    have hunspent : ∀ u ∈ Chain.txs chainL12, (⟨hashLocked, 0⟩ : COutPoint) ∉ u.prevouts := by
      decide
    exact Or.inr ⟨locked, by decide, ⟨by decide, by decide⟩,
      fun u hu hspends => hunspent u hu hspends.2⟩

/-- The locked transaction does not come back, and what spends it stays. -/
theorem not_spendable_chainM13 : PoolState primitives S (withOrphan, chainL12) ∧
    Spendable primitives withOrphan.mempool chainL12 ∧ withOrphan.txnBegin = .ok begun ∧
    begun.reorganize primitives ptrM13 = .ok atM13 ∧
    NodeState.OnChain primitives S atM13 chainM13 ∧
    ¬ Spendable primitives atM13.mempool chainM13 := by
  obtain ⟨hstate, hsame, -⟩ := poolState
  obtain ⟨-, hspendable⟩ := spendable
  obtain ⟨hblocks, -⟩ := read_blocks
  have hsame₁ := (NodeState.InTxn.begin begin_eq).same
  obtain ⟨hb, hl⟩ := hstate.onChain.begin begin_eq
  have hin : NodeState.InTree begun begun.pindexBest := (hsame.trans hsame₁).inTree.mpr
    ⟨indexL12.hashBlock, by decide⟩
  have hnew : NodeState.InTree begun ptrM13 := (hsame.trans hsame₁).inTree.mpr
    ⟨indexM13.hashBlock, by decide⟩
  obtain ⟨D, N, C, -, hptr, hc', hsame₂, -⟩ := NodeState.reorganize_ok (hstate.tree.of_same hsame₁) hb hl
    (by decide) hin hnew reorganizeM13
  have hchain : N ++ C = chainM13 := by
    have hall := (hsame.trans hsame₁).trans hsame₂
    have hread : ∀ c ∈ chainM13, readFromDisk primitives node.globals c.pindex = some c.block := by
      intro c hc
      refine hblocks c ?_
      rcases List.mem_cons.mp hc with rfl | hc
      · exact List.mem_cons_self
      · rcases List.mem_cons.mp hc with rfl | hc
        · exact List.mem_cons_of_mem _ List.mem_cons_self
        · exact List.mem_cons_of_mem _ (List.mem_cons_of_mem _ (List.mem_cons_of_mem _ hc))
    rw [(hsame.trans hsame₁).pindexGenesisBlock] at hptr
    exact NodeState.chain_eq_of_read (hall.readFromDisk primitives ▸ hc'.read) hread hptr
  rw [hchain] at hc'
  refine ⟨hstate, hspendable, begin_eq, reorganizeM13, hc', fun h => ?_⟩
  have hstays : atM13.mempool.mapTx.lookup (primitives.getHash orphan) = some orphan := by
    decide
  rcases h orphan hstays ⟨hashLocked, 0⟩ (by decide) with ⟨w, hw, -, hout⟩ | ⟨w, hw, hout, -⟩
  · have hnone : atM13.mempool.mapTx.lookup hashLocked = none := by decide
    unfold CTxMemPool.Has at hw
    rw [hout.1, hnone] at hw
    cases hw
  · have hnone : ∀ w ∈ Chain.txs chainM13, primitives.getHash w ≠ hashLocked := by decide
    exact hnone w hw hout.1

/-- Here there is an orphan. -/
theorem reorganize_spendable_iff_orphan : ∃ D N C, chainL12 = D ++ C ∧
    ptrM13 = Chain.ptr [genesis] (N ++ C) ∧
    NodeState.OnChain primitives S atM13 (N ++ C) ∧
    (Spendable primitives atM13.mempool (N ++ C) ↔ NoOrphan primitives true withOrphan.mempool D N) := by
  obtain ⟨hstate, hsame, -⟩ := poolState
  obtain ⟨hinj, -⟩ := tables
  have hrank := ranked
  obtain ⟨hloose, hspendable⟩ := spendable
  obtain ⟨D, N, C, hD, hN, -, hc', hiff⟩ := reorganize_spendable_iff hinj hrank hstate hloose hspendable
    (by decide) (hsame.inTree.mpr ⟨indexL12.hashBlock, by decide⟩)
    (hsame.inTree.mpr ⟨indexM13.hashBlock, by decide⟩) begin_eq reorganizeM13
  rw [hsame.pindexGenesisBlock] at hN
  rw [hsame.fTestNet] at hiff
  exact ⟨D, N, C, hD, hN, hc', hiff⟩

end Orphan

end Silkcoin
