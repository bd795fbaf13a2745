/-
  Transactions that wait for their inputs, and the message that brings one in.

  `mapOrphanTransactions` holds them by hash; `mapOrphanTransactionsByPrev` lists, under every hash they
  spend from, who does.  The `tx` message works through a QUEUE of accepted transactions: everything
  listed under the next of them is tried again, and what is accepted joins the queue.

  `Worked` is what the loops keep of the two maps, the queue and the pool.  With it the handler always
  returns: nothing on the way throws (`acceptTx_noThrow`), and the queue comes to its end, because an
  orphan that is accepted is in the pool from then on and is refused if it is tried again
  (`Worked.resolve`).
-/
import Silkcoin.Mempool
import Silkcoin.Lib.SetIndex
import Mathlib.Data.Finset.Sort

namespace Silkcoin

open Validation BatchStore

/-- `uint256` is ordered as a number. -/
instance : LinearOrder Uint256 := LinearOrder.lift' BitVec.toNat fun _ _ h => BitVec.eq_of_toNat_eq h

def MAX_ORPHAN_TRANSACTIONS : Nat := MAX_BLOCK_SIZE / 100

/-- `CTransaction()`. -/
def CTransaction.null (nAdjustedTime : Int) : CTransaction where
  nVersion := 1
  nTime := UInt32.ofInt nAdjustedTime
  vin := []
  vout := []
  nLockTime := 0

/-- The hashes of the transactions it spends from, input by input. -/
def CTransaction.prevHashes (tx : CTransaction) : List Uint256 :=
  tx.vin.map fun txin => txin.prevout.hash

structure OrphanPool where
  mapOrphanTransactions : StdMap Uint256 CTransaction
  mapOrphanTransactionsByPrev : StdMap Uint256 (Finset Uint256)

namespace OrphanPool

variable (P : Primitives) (orphans : OrphanPool)

def empty : OrphanPool := ⟨∅, ∅⟩

/-- Not again, and nothing big. -/
def addOrphanTx (tx : CTransaction) : Bool × OrphanPool :=
  let hash := P.getHash tx
  if (orphans.mapOrphanTransactions.lookup hash).isSome then (false, orphans)
  else if tx.getSerializeSize > 5000 then (false, orphans)
  else (true,
    { mapOrphanTransactions := orphans.mapOrphanTransactions.insert hash tx
      mapOrphanTransactionsByPrev :=
        tx.prevHashes.foldl (addAt hash) orphans.mapOrphanTransactionsByPrev })

def eraseOrphanTx (hash : Uint256) : OrphanPool :=
  match orphans.mapOrphanTransactions.lookup hash with
  | none => orphans
  | some tx =>
    { mapOrphanTransactions := orphans.mapOrphanTransactions.erase hash
      mapOrphanTransactionsByPrev :=
        tx.prevHashes.foldl (dropAt hash) orphans.mapOrphanTransactionsByPrev }

def size : Nat := orphans.mapOrphanTransactions.entries.length

/-- `lower_bound`, or the first if there is none. -/
def lowerBound (randomhash : Uint256) : Option Uint256 :=
  let keys := orphans.mapOrphanTransactions.keys.insertionSort (· ≤ ·)
  (keys.find? (randomhash ≤ ·)).or keys.head?

/-- Every turn takes one out, so as many turns as there are orphans are enough. -/
def limitLoop (nMaxOrphans : Nat) : List Uint256 → Nat → OrphanPool → OrphanPool
  | _, 0, orphans => orphans
  | rand, n + 1, orphans =>
    if orphans.size > nMaxOrphans then
      match orphans.lowerBound (rand.headD 0) with
      | none => orphans
      | some hash => limitLoop nMaxOrphans rand.tail n (orphans.eraseOrphanTx hash)
    else orphans

/-- `rand` are the hashes that `GetRandHash` gives. -/
def limitOrphanTxSize (nMaxOrphans : Nat) (rand : List Uint256) : OrphanPool :=
  limitLoop nMaxOrphans rand orphans.size orphans

end OrphanPool

/-! ## The message -/

/-- What `AcceptToMemoryPool` reads and calls during one message.  The rate limiter of free transactions
    may answer otherwise every time: `relay` counts the calls. -/
structure AcceptSource where
  P : Primitives
  relay : Nat → RelayPolicy
  g : Globals
  txdb : CTxDB

namespace AcceptSource

variable (A : AcceptSource) (pool : CTxMemPool)

/-- The globals with this pool. -/
def globals : Globals := { A.g with mempool := fun hash => pool.mapTx.lookup hash }

/-- `AcceptToMemoryPool(txdb, true, ..)`, as the `n`-th call. -/
def acceptToMemoryPool (n : Nat) (tx : CTransaction) : Check CTxMemPool :=
  pool.acceptTx A.P (A.relay n) (A.globals pool) A.txdb true tx

/-- The flag that a call that fails leaves: all checks before `FetchInputs` pass, which are those of an
    `accept` without input checks and the look into the index, and `FetchInputs` fails for want of an
    input. -/
def fMissingInputs (tx : CTransaction) : Bool :=
  (pool.accept A.P A.g.fTestNet tx).toOption.isSome && !A.txdb.containsTx (A.P.getHash tx) &&
    match tx.fetchInputs (A.globals pool) A.txdb ∅ false false with
    | .error e => !e.2
    | .ok _ => false

end AcceptSource

/-- The handler at work: the pool, the maps, the two queues, the number of calls of
    `AcceptToMemoryPool`; and a record of what it did: accepted, told to the wallets, relayed, and tried
    again. -/
structure Resolving where
  pool : CTxMemPool
  orphans : OrphanPool
  vWorkQueue : List Uint256
  vEraseQueue : List Uint256
  nCalls : Nat
  accepted : List CTransaction
  synced : List CTransaction
  relayed : List CTransaction
  retried : List Uint256

namespace Resolving

variable (A : AcceptSource) (tx : CTransaction)

/-- `mapOrphanTransactions[hash]`. -/
def orphanTx (r : Resolving) (hash : Uint256) : CTransaction × Resolving :=
  match r.orphans.mapOrphanTransactions.lookup hash with
  | some orphanTx => (orphanTx, r)
  | none =>
    let orphanTx := CTransaction.null A.g.nAdjustedTime
    (orphanTx, { r with
      orphans := { r.orphans with
        mapOrphanTransactions := r.orphans.mapOrphanTransactions.insert hash orphanTx } })

/-- One orphan.  The wallets are told of `tx`, the transaction of the message. -/
def tryOrphan (r : Resolving) (orphanTxHash : Uint256) : Check Resolving :=
  let (orphanTx, r) := r.orphanTx A orphanTxHash
  let r := { r with nCalls := r.nCalls + 1, retried := r.retried ++ [orphanTxHash] }
  match A.acceptToMemoryPool r.pool (r.nCalls - 1) orphanTx with
  | .ok pool => .ok { r with
      pool := pool
      accepted := r.accepted ++ [orphanTx]
      synced := r.synced ++ [tx]
      relayed := r.relayed ++ [orphanTx]
      vWorkQueue := r.vWorkQueue ++ [orphanTxHash]
      vEraseQueue := r.vEraseQueue ++ [orphanTxHash] }
  | .error (.throw what) => .error (.throw what)
  | .error (.reject _ _) =>
    if A.fMissingInputs r.pool orphanTx then .ok r
    else .ok { r with vEraseQueue := r.vEraseQueue ++ [orphanTxHash] }

/-- All orphans under one hash, in order; `[]` makes the entry. -/
def tryUnder (r : Resolving) (hashPrev : Uint256) : Check Resolving :=
  let r := { r with
    orphans := { r.orphans with
      mapOrphanTransactionsByPrev := touch r.orphans.mapOrphanTransactionsByPrev hashPrev } }
  ((under r.orphans.mapOrphanTransactionsByPrev hashPrev).sort (· ≤ ·)).foldlM (tryOrphan A tx) r

/-- The queue from place `i` on. -/
def resolve : Nat → Nat → Resolving → Check Resolving
  | 0, _, r => .ok r
  | fuel + 1, i, r =>
    match r.vWorkQueue[i]? with
    | none => .ok r
    | some hashPrev => do
      let r ← tryUnder A tx r hashPrev
      resolve fuel (i + 1) r

/-- The queue grows by a stored orphan at most. -/
def start (pool : CTxMemPool) (orphans : OrphanPool) : Resolving where
  pool := pool
  orphans := orphans
  vWorkQueue := [A.P.getHash tx]
  vEraseQueue := [A.P.getHash tx]
  nCalls := 1
  accepted := [tx]
  synced := [tx]
  relayed := [tx]
  retried := []

/-- `ProcessMessage` on `tx`, but for the peer's own record.  `rand` is for `LimitOrphanTxSize`. -/
def processTx (pool : CTxMemPool) (orphans : OrphanPool) (rand : List Uint256) : Check Resolving :=
  match A.acceptToMemoryPool pool 0 tx with
  | .ok pool' => do
    let r ← resolve A tx (orphans.size + 1) 0 (start A tx pool' orphans)
    return { r with
      orphans := r.vEraseQueue.foldl (fun orphans hash => orphans.eraseOrphanTx hash) r.orphans }
  | .error (.throw what) => .error (.throw what)
  | .error (.reject _ _) =>
    let idle : Resolving := ⟨pool, orphans, [], [], 1, [], [], [], []⟩
    if A.fMissingInputs pool tx then
      .ok { idle with
        orphans := (orphans.addOrphanTx A.P tx).2.limitOrphanTxSize MAX_ORPHAN_TRANSACTIONS rand }
    else .ok idle

/-- The orphans of a list are refused one after the other, from the `n`-th call on. -/
def Refused (A : AcceptSource) (s : OrphanPool) (pool : CTxMemPool) (n : Nat) (hashes : List Uint256) :
    Prop :=
  ∀ i hash orphanTx, hashes[i]? = some hash → s.mapOrphanTransactions.lookup hash = some orphanTx →
    ∀ pool', A.acceptToMemoryPool pool (n + i) orphanTx ≠ .ok pool'

/-- The message brings in nothing, or every orphan that spends from its transaction is refused. -/
def NoneFollows (A : AcceptSource) (tx : CTransaction) (pool : CTxMemPool) (s : OrphanPool) : Prop :=
  ∀ pool', A.acceptToMemoryPool pool 0 tx = .ok pool' →
    Refused A s pool' 1 ((under s.mapOrphanTransactionsByPrev (A.P.getHash tx)).sort (· ≤ ·))

end Resolving
/-! ## The two maps -/

namespace OrphanPool

variable {P : Primitives} {orphans : OrphanPool}

/-- Each orphan is small and filed under its own hash, and the second map is the inverse of the
    first. -/
structure Filed (P : Primitives) (orphans : OrphanPool) : Prop where
  keyed : ∀ hash tx, orphans.mapOrphanTransactions.lookup hash = some tx → P.getHash tx = hash
  index : SetIndex CTransaction.prevHashes orphans.mapOrphanTransactions
    orphans.mapOrphanTransactionsByPrev
  small : ∀ hash tx, orphans.mapOrphanTransactions.lookup hash = some tx → tx.getSerializeSize ≤ 5000

/-- And no hash is listed with nothing under it. -/
structure Tidy (P : Primitives) (orphans : OrphanPool) : Prop extends Filed P orphans where
  noResidue : NoResidue orphans.mapOrphanTransactionsByPrev

theorem tidy_empty : Tidy P empty :=
  ⟨⟨(fun _ _ hf => by cases hf), SetIndex.empty, (fun _ _ hf => by cases hf)⟩,
    (fun _ _ hf => by cases hf)⟩

theorem Filed.addOrphanTx (h : Filed P orphans) (tx : CTransaction) :
    Filed P (orphans.addOrphanTx P tx).2 := by
  unfold OrphanPool.addOrphanTx
  dsimp only
  split
  · exact h
  · rename_i hnew
    split
    · exact h
    · rename_i hsmall
      refine ⟨fun hash t ht => ?_, h.index.insert (Option.not_isSome_iff_eq_none.mp hnew) tx,
        fun hash t ht => ?_⟩
      · rw [lookup_insert_eq_ite] at ht
        split at ht
        · rename_i heq
          cases ht
          exact heq
        · exact h.keyed hash t ht
      · rw [lookup_insert_eq_ite] at ht
        split at ht
        · cases ht
          omega
        · exact h.small hash t ht

theorem noResidue_addOrphanTx (h : NoResidue orphans.mapOrphanTransactionsByPrev) (tx : CTransaction) :
    NoResidue (orphans.addOrphanTx P tx).2.mapOrphanTransactionsByPrev := by
  unfold OrphanPool.addOrphanTx
  dsimp only
  split
  · exact h
  · split
    · exact h
    · exact h.foldl (fun _ o hi => hi.addAt _ o) _

theorem Filed.eraseOrphanTx (h : Filed P orphans) (hash : Uint256) :
    Filed P (orphans.eraseOrphanTx hash) := by
  unfold OrphanPool.eraseOrphanTx
  split
  · exact h
  · rename_i tx htx
    have hold : ∀ hash' t, (orphans.mapOrphanTransactions.erase hash).lookup hash' = some t →
        orphans.mapOrphanTransactions.lookup hash' = some t := fun hash' t ht =>
      BatchStore.lookup_of_erase ht
    exact ⟨fun hash' t ht => h.keyed hash' t (hold hash' t ht), h.index.erase htx,
      fun hash' t ht => h.small hash' t (hold hash' t ht)⟩

theorem noResidue_eraseOrphanTx (h : NoResidue orphans.mapOrphanTransactionsByPrev) (hash : Uint256) :
    NoResidue (orphans.eraseOrphanTx hash).mapOrphanTransactionsByPrev := by
  unfold OrphanPool.eraseOrphanTx
  split
  · exact h
  · exact h.foldl (fun _ o hi => hi.dropAt hash o) _

/-- Whatever erasing one keeps, erasing many keeps. -/
theorem foldl_eraseOrphanTx_keeps {I : OrphanPool → Prop}
    (herase : ∀ orphans hash, I orphans → I (orphans.eraseOrphanTx hash)) (hashes : List Uint256)
    (h : I orphans) : I (hashes.foldl (fun orphans hash => orphans.eraseOrphanTx hash) orphans) := by
  induction hashes generalizing orphans with
  | nil => exact h
  | cons hash hashes ih => exact ih (herase _ hash h)

/-- And so does `LimitOrphanTxSize`. -/
theorem limitLoop_keeps {I : OrphanPool → Prop}
    (herase : ∀ orphans hash, I orphans → I (orphans.eraseOrphanTx hash)) (nMaxOrphans n : Nat)
    (rand : List Uint256) (h : I orphans) : I (limitLoop nMaxOrphans rand n orphans) := by
  induction n generalizing rand orphans with
  | zero => exact h
  | succ n ih =>
    unfold limitLoop
    split
    · split
      · exact h
      · exact ih rand.tail (herase _ _ h)
    · exact h

theorem lowerBound_isSome (h : 0 < orphans.size) (randomhash : Uint256) :
    ∃ hash tx, orphans.lowerBound randomhash = some hash ∧
      orphans.mapOrphanTransactions.lookup hash = some tx := by
  unfold lowerBound
  dsimp only
  have hperm : (orphans.mapOrphanTransactions.keys.insertionSort (· ≤ ·)).Perm
      orphans.mapOrphanTransactions.keys := List.perm_insertionSort _ _
  have hmem : ∀ hash ∈ orphans.mapOrphanTransactions.keys.insertionSort (· ≤ ·),
      ∃ tx, orphans.mapOrphanTransactions.lookup hash = some tx := by
    intro hash hhash
    have hkey : hash ∈ orphans.mapOrphanTransactions := hperm.mem_iff.mp hhash
    exact Option.isSome_iff_exists.mp (AList.lookup_isSome.mpr hkey)
  cases hfind : (orphans.mapOrphanTransactions.keys.insertionSort (· ≤ ·)).find?
      (randomhash ≤ ·) with
  | some hash =>
    obtain ⟨tx, htx⟩ := hmem hash (List.mem_of_find?_eq_some hfind)
    exact ⟨hash, tx, rfl, htx⟩
  | none =>
    cases hkeys : orphans.mapOrphanTransactions.keys.insertionSort (· ≤ ·) with
    | nil =>
      have hlength := hperm.length_eq
      rw [hkeys] at hlength
      have hsize : orphans.mapOrphanTransactions.keys.length = orphans.size := List.length_map _
      rw [hsize, List.length_nil] at hlength
      omega
    | cons hash rest =>
      obtain ⟨tx, htx⟩ := hmem hash (by rw [hkeys]; exact List.mem_cons_self)
      exact ⟨hash, tx, rfl, htx⟩

theorem size_eraseOrphanTx {hash : Uint256} {tx : CTransaction}
    (h : orphans.mapOrphanTransactions.lookup hash = some tx) :
    (orphans.eraseOrphanTx hash).size + 1 = orphans.size := by
  unfold OrphanPool.eraseOrphanTx
  rw [h]
  have hkey : hash ∈ orphans.mapOrphanTransactions.entries.keys :=
    AList.lookup_isSome.mp (by rw [h]; rfl)
  show (orphans.mapOrphanTransactions.entries.kerase hash).length + 1 =
    orphans.mapOrphanTransactions.entries.length
  obtain ⟨_, l₁, l₂, -, hl, hrest⟩ := List.exists_of_kerase hkey
  rw [hrest, hl, List.length_append, List.length_append, List.length_cons]
  omega

/-- The bound holds when it is done: the number of orphans is limited, and with it both maps. -/
theorem size_limitOrphanTxSize (nMaxOrphans : Nat) (rand : List Uint256) :
    (orphans.limitOrphanTxSize nMaxOrphans rand).size ≤ nMaxOrphans := by
  have hloop : ∀ (n : Nat) (rand : List Uint256) (orphans : OrphanPool), orphans.size ≤ n →
      (limitLoop nMaxOrphans rand n orphans).size ≤ nMaxOrphans := by
    intro n
    induction n with
    | zero =>
      intro rand orphans hn
      show orphans.size ≤ nMaxOrphans
      omega
    | succ n ih =>
      intro rand orphans hn
      unfold limitLoop
      split
      · rename_i hgt
        have hpos : 0 < orphans.size := by omega
        obtain ⟨hash, tx, hfound, htx⟩ := lowerBound_isSome hpos (rand.headD 0)
        rw [hfound]
        refine ih rand.tail _ ?_
        have hsize := size_eraseOrphanTx htx
        omega
      · omega
  exact hloop orphans.size rand orphans (le_refl _)

/-- An input takes 41 bytes at least, and an orphan has at most 5000. -/
theorem Filed.prevHashes_length_le (h : Filed P orphans) {hash : Uint256} {tx : CTransaction}
    (htx : orphans.mapOrphanTransactions.lookup hash = some tx) : tx.prevHashes.length ≤ 121 := by
  have hinputs : ∀ vin : List CTxIn, 41 * vin.length ≤ (vin.map CTxIn.getSerializeSize).sum := by
    intro vin
    induction vin with
    | nil => exact Nat.le_refl 0
    | cons txin vin ih =>
      rw [List.map_cons, List.sum_cons, List.length_cons]
      have hone : 41 ≤ txin.getSerializeSize := by
        have hscript : 1 ≤ bytesSize txin.scriptSig := by
          unfold bytesSize getSizeOfCompactSize
          split_ifs <;> omega
        unfold CTxIn.getSerializeSize
        omega
      omega
  have hsize := h.small hash tx htx
  have hvin := hinputs tx.vin
  unfold CTransaction.getSerializeSize at hsize
  have hlength : tx.prevHashes.length = tx.vin.length := List.length_map _
  omega

/-- Where no entry is empty, the number of orphans bounds the second map. -/
theorem Tidy.keys_length_le (h : Tidy P orphans) :
    orphans.mapOrphanTransactionsByPrev.keys.length ≤ 121 * orphans.size := by
  have hsub : orphans.mapOrphanTransactionsByPrev.keys ⊆
      orphans.mapOrphanTransactions.entries.flatMap fun e => e.2.prevHashes := by
    intro o ho
    obtain ⟨set, hset⟩ := Option.isSome_iff_exists.mp (AList.lookup_isSome.mpr ho)
    obtain ⟨hash, hhash⟩ := h.noResidue o set hset
    have hunder : hash ∈ under orphans.mapOrphanTransactionsByPrev o := by
      unfold under
      rw [hset]
      exact hhash
    obtain ⟨tx, htx, hprev⟩ := (h.index o hash).mp hunder
    exact List.mem_flatMap.mpr ⟨⟨hash, tx⟩, AList.mem_lookup_iff.mp htx, hprev⟩
  have hnd : orphans.mapOrphanTransactionsByPrev.keys.Nodup :=
    orphans.mapOrphanTransactionsByPrev.nodupKeys
  have hbound : ∀ entries : List ((_ : Uint256) × CTransaction),
      (∀ e ∈ entries, e.2.prevHashes.length ≤ 121) →
      (entries.flatMap fun e => e.2.prevHashes).length ≤ 121 * entries.length := by
    intro entries
    induction entries with
    | nil => exact fun _ => Nat.le_refl 0
    | cons e entries ih =>
      intro hsmall
      have hhead := hsmall e List.mem_cons_self
      have htail := ih fun e' he' => hsmall e' (List.mem_cons_of_mem _ he')
      rw [List.flatMap_cons, List.length_append, List.length_cons]
      omega
  exact ((hnd.subperm hsub).length_le).trans (hbound _ fun e he =>
    h.prevHashes_length_le (AList.mem_lookup_iff.mpr he))

end OrphanPool

/-! ## The queue -/

namespace Resolving

variable {A : AcceptSource} {tx : CTransaction} {s : OrphanPool} {r r' : Resolving}

/-- What the loops keep.  `s` are the maps as the message found them: the orphans are the same, and so
    is what is listed under every hash; only an entry under a hash of the queue may be new. -/
structure Worked (A : AcceptSource) (tx : CTransaction) (s : OrphanPool) (r : Resolving) : Prop where
  stored : r.orphans.mapOrphanTransactions = s.mapOrphanTransactions
  under_eq : ∀ o, under r.orphans.mapOrphanTransactionsByPrev o =
    under s.mapOrphanTransactionsByPrev o
  entries : ∀ o set, r.orphans.mapOrphanTransactionsByPrev.lookup o = some set →
    s.mapOrphanTransactionsByPrev.lookup o = some set ∨ o ∈ r.vWorkQueue
  queue : r.vWorkQueue = r.accepted.map A.P.getHash
  known : ∀ hash ∈ r.vWorkQueue,
    hash = A.P.getHash tx ∨ (s.mapOrphanTransactions.lookup hash).isSome = true
  inPool : ∀ hash ∈ r.vWorkQueue, (r.pool.mapTx.lookup hash).isSome = true
  nodup : r.vWorkQueue.Nodup
  erased : ∀ hash ∈ r.vWorkQueue, hash ∈ r.vEraseQueue
  relayed : r.relayed = r.accepted
  synced : ∀ t ∈ r.synced, t = tx

/-- Accepting: the transaction was not in the pool and is now, with all that was. -/
theorem acceptToMemoryPool_ok {pool pool' : CTxMemPool} {n : Nat} {t : CTransaction}
    (h : A.acceptToMemoryPool pool n t = .ok pool') :
    pool.mapTx.lookup (A.P.getHash t) = none ∧ pool'.mapTx = pool.mapTx.insert (A.P.getHash t) t := by
  obtain ⟨-, -, -, hnew, -, -, rfl⟩ := CTxMemPool.acceptTx_ok h
  exact ⟨hnew, by rw [CTxMemPool.addUnchecked_eq]⟩

/-- One orphan that is listed: it is tried, and nothing throws. -/
theorem Worked.tryOrphan (hf : s.Filed A.P) (h : Worked A tx s r) {hash o : Uint256}
    (hk : hash ∈ under s.mapOrphanTransactionsByPrev o) :
    ∃ r', r.tryOrphan A tx hash = .ok r' ∧ Worked A tx s r' ∧ r.vWorkQueue <+: r'.vWorkQueue ∧
      r'.retried = r.retried ++ [hash] ∧ r'.orphans = r.orphans := by
  obtain ⟨t, ht, -⟩ := (hf.index o hash).mp hk
  have hhash : A.P.getHash t = hash := hf.keyed hash t ht
  have htake : r.orphanTx A hash = (t, r) := by
    unfold orphanTx
    rw [h.stored, ht]
  unfold Resolving.tryOrphan
  rw [htake]
  dsimp only
  cases hacc : A.acceptToMemoryPool r.pool (r.nCalls + 1 - 1) t with
  | error e =>
    cases e with
    | throw what => exact absurd trivial (CTxMemPool.acceptTx_noThrow true t _ hacc)
    | reject nDoS msg =>
      dsimp only
      split
      · exact ⟨_, rfl, ⟨h.stored, h.under_eq, h.entries, h.queue, h.known, h.inPool, h.nodup, h.erased,
          h.relayed, h.synced⟩, List.prefix_refl _, rfl, rfl⟩
      · refine ⟨_, rfl, ⟨h.stored, h.under_eq, h.entries, h.queue, h.known, h.inPool, h.nodup, ?_,
          h.relayed, h.synced⟩, List.prefix_refl _, rfl, rfl⟩
        exact fun hash' hmem => List.mem_append_left _ (h.erased hash' hmem)
  | ok pool' =>
    obtain ⟨hnew, hpool⟩ := acceptToMemoryPool_ok hacc
    rw [hhash] at hnew hpool
    -- it is not in the pool yet, so it is not in the queue either
    have hout : hash ∉ r.vWorkQueue := by
      intro hmem
      have hin := h.inPool hash hmem
      rw [hnew] at hin
      cases hin
    refine ⟨_, rfl, ⟨h.stored, h.under_eq, ?_, ?_, ?_, ?_, ?_, ?_, ?_, ?_⟩, List.prefix_append _ _, rfl,
      rfl⟩
    · intro o' set hset
      exact (h.entries o' set hset).imp id (List.mem_append_left _)
    · show r.vWorkQueue ++ [hash] = (r.accepted ++ [t]).map A.P.getHash
      rw [List.map_append, ← h.queue, List.map_singleton, hhash]
    · intro hash' hmem
      rcases List.mem_append.mp hmem with hmem | hmem
      · exact h.known hash' hmem
      · rw [List.mem_singleton.mp hmem, ht]
        exact Or.inr rfl
    · intro hash' hmem
      show (pool'.mapTx.lookup hash').isSome = true
      rw [hpool, lookup_insert_eq_ite]
      split
      · rfl
      · rename_i hne
        rcases List.mem_append.mp hmem with hmem | hmem
        · exact h.inPool hash' hmem
        · exact absurd (List.mem_singleton.mp hmem).symm hne
    · exact List.nodup_append.mpr ⟨h.nodup, List.nodup_singleton _, fun a ha b hb heq =>
        hout (by rw [← List.mem_singleton.mp hb, ← heq]; exact ha)⟩
    · intro hash' hmem
      rcases List.mem_append.mp hmem with hmem | hmem
      · exact List.mem_append_left _ (h.erased hash' hmem)
      · exact List.mem_append_right _ hmem
    · show r.relayed ++ [t] = r.accepted ++ [t]
      rw [h.relayed]
    · intro t' hmem
      rcases List.mem_append.mp hmem with hmem | hmem
      · exact h.synced t' hmem
      · exact List.mem_singleton.mp hmem

/-- All orphans under one hash. -/
theorem Worked.tryAll (hf : s.Filed A.P) {o : Uint256} (hashes : List Uint256)
    (h : Worked A tx s r) (hk : ∀ hash ∈ hashes, hash ∈ under s.mapOrphanTransactionsByPrev o) :
    ∃ r', hashes.foldlM (Resolving.tryOrphan A tx) r = .ok r' ∧ Worked A tx s r' ∧
      r.vWorkQueue <+: r'.vWorkQueue ∧ r'.retried = r.retried ++ hashes ∧ r'.orphans = r.orphans := by
  induction hashes generalizing r with
  | nil => exact ⟨r, rfl, h, List.prefix_refl _, (List.append_nil _).symm, rfl⟩
  | cons hash hashes ih =>
    obtain ⟨r₁, hr₁, h₁, hpre₁, hretried₁, horphans₁⟩ := h.tryOrphan hf (hk hash List.mem_cons_self)
    obtain ⟨r', hr', h', hpre', hretried', horphans'⟩ :=
      ih h₁ fun hash' hmem => hk hash' (List.mem_cons_of_mem _ hmem)
    refine ⟨r', ?_, h', hpre₁.trans hpre', ?_, horphans'.trans horphans₁⟩
    · rw [List.foldlM_cons, hr₁]
      exact hr'
    · rw [hretried', hretried₁, List.append_assoc]
      rfl

/-- A look at an entry under a hash of the queue. -/
theorem Worked.touched (h : Worked A tx s r) {hashPrev : Uint256} (hmem : hashPrev ∈ r.vWorkQueue) :
    Worked A tx s { r with
      orphans := { r.orphans with
        mapOrphanTransactionsByPrev := touch r.orphans.mapOrphanTransactionsByPrev hashPrev } } := by
  refine ⟨h.stored, fun o => (under_touch hashPrev o).trans (h.under_eq o), ?_, h.queue, h.known,
    h.inPool, h.nodup, h.erased, h.relayed, h.synced⟩
  intro o set hset
  have hset : (r.orphans.mapOrphanTransactionsByPrev.insert hashPrev _).lookup o = some set := hset
  rw [lookup_insert_eq_ite] at hset
  split at hset
  · rename_i heq
    exact Or.inr (heq ▸ hmem)
  · exact h.entries o set hset

theorem Worked.tryUnder (hf : s.Filed A.P) (h : Worked A tx s r) {hashPrev : Uint256}
    (hmem : hashPrev ∈ r.vWorkQueue) :
    ∃ r', r.tryUnder A tx hashPrev = .ok r' ∧ Worked A tx s r' ∧ r.vWorkQueue <+: r'.vWorkQueue ∧
      r'.retried =
        r.retried ++ (under s.mapOrphanTransactionsByPrev hashPrev).sort (· ≤ ·) := by
  unfold Resolving.tryUnder
  dsimp only
  rw [under_touch, h.under_eq]
  obtain ⟨r', hr', h', hpre, hretried, -⟩ := (h.touched hmem).tryAll hf
    ((under s.mapOrphanTransactionsByPrev hashPrev).sort (· ≤ ·))
    fun hash hhash => (Finset.mem_sort _).mp hhash
  exact ⟨r', hr', h', hpre, hretried⟩

theorem Worked.length_le (h : Worked A tx s r) : r.vWorkQueue.length ≤ s.size + 1 := by
  have hsub : r.vWorkQueue ⊆ A.P.getHash tx :: s.mapOrphanTransactions.keys := by
    intro hash hmem
    rcases h.known hash hmem with rfl | hsome
    · exact List.mem_cons_self
    · exact List.mem_cons_of_mem _ (AList.lookup_isSome.mp hsome)
  have hle := (h.nodup.subperm hsub).length_le
  have hsize : s.mapOrphanTransactions.keys.length = s.size := List.length_map _
  rw [List.length_cons, hsize] at hle
  exact hle

/-- The loop over the queue ends at its end: everything listed under a hash of the queue is tried. -/
theorem Worked.resolve (hf : s.Filed A.P) {fuel i : Nat} (h : Worked A tx s r)
    (hfuel : s.size + 1 ≤ i + fuel) :
    ∃ r', Resolving.resolve A tx fuel i r = .ok r' ∧ Worked A tx s r' ∧
      r.vWorkQueue <+: r'.vWorkQueue ∧ r.retried <+: r'.retried ∧
      ∀ hash ∈ r'.vWorkQueue.drop i, ∀ k ∈ under s.mapOrphanTransactionsByPrev hash, k ∈ r'.retried := by
  induction fuel generalizing i r with
  | zero =>
    refine ⟨r, rfl, h, List.prefix_refl _, List.prefix_refl _, fun hash hmem => ?_⟩
    have hlength := h.length_le
    rw [List.drop_eq_nil_of_le (by omega)] at hmem
    cases hmem
  | succ fuel ih =>
    unfold Resolving.resolve
    cases hnext : r.vWorkQueue[i]? with
    | none =>
      refine ⟨r, rfl, h, List.prefix_refl _, List.prefix_refl _, fun hash hmem => ?_⟩
      rw [List.drop_eq_nil_of_le (List.getElem?_eq_none_iff.mp hnext)] at hmem
      cases hmem
    | some hashPrev =>
      obtain ⟨r₁, hr₁, h₁, hpre₁, hretried₁⟩ := h.tryUnder hf (List.mem_of_getElem? hnext)
      obtain ⟨r', hr', h', hpre', hretried', hdone⟩ := ih (i := i + 1) h₁ (by omega)
      refine ⟨r', ?_, h', hpre₁.trans hpre', ?_, ?_⟩
      · dsimp only
        rw [hr₁]
        exact hr'
      · rw [hretried₁] at hretried'
        exact (List.prefix_append _ _).trans hretried'
      · intro hash hmem k hk
        -- the first of the rest is the one just worked on
        have hlt : i < r.vWorkQueue.length := (List.getElem?_eq_some_iff.mp hnext).1
        have hget : r'.vWorkQueue[i]? = some hashPrev := by
          obtain ⟨rest, hrest⟩ := hpre₁.trans hpre'
          rw [← hrest, List.getElem?_append_left hlt]
          exact hnext
        obtain ⟨hlt', heq⟩ := List.getElem?_eq_some_iff.mp hget
        rw [List.drop_eq_getElem_cons hlt', heq] at hmem
        rcases List.mem_cons.mp hmem with rfl | hmem
        · refine hretried'.subset ?_
          rw [hretried₁]
          exact List.mem_append_right _ ((Finset.mem_sort _).mpr hk)
        · exact hdone hash hmem k hk

/-! ## The message -/

theorem worked_start {pool pool' : CTxMemPool} (h : A.acceptToMemoryPool pool 0 tx = .ok pool') :
    Worked A tx s (start A tx pool' s) := by
  obtain ⟨-, hpool⟩ := acceptToMemoryPool_ok h
  refine ⟨rfl, fun _ => rfl, fun _ _ hset => Or.inl hset, rfl, ?_, ?_, List.nodup_singleton _, ?_, rfl, ?_⟩
  · exact fun hash hmem => Or.inl (List.mem_singleton.mp hmem)
  · intro hash hmem
    show (pool'.mapTx.lookup hash).isSome = true
    rw [hpool, List.mem_singleton.mp hmem, AList.lookup_insert]
    rfl
  · exact fun hash hmem => hmem
  · exact fun t hmem => List.mem_singleton.mp hmem

/-- The handler returns: what it has done before it erases orphans, or nothing at all. -/
theorem processTx_cases (hf : s.Filed A.P) (tx : CTransaction) (pool : CTxMemPool)
    (rand : List Uint256) :
    (∃ pool' r', A.acceptToMemoryPool pool 0 tx = .ok pool' ∧ Worked A tx s r' ∧
      [A.P.getHash tx] <+: r'.vWorkQueue ∧
      (∀ hash ∈ r'.vWorkQueue, ∀ k ∈ under s.mapOrphanTransactionsByPrev hash, k ∈ r'.retried) ∧
      processTx A tx pool s rand = .ok { r' with
        orphans := r'.vEraseQueue.foldl (fun orphans hash => orphans.eraseOrphanTx hash) r'.orphans }) ∨
    (∀ pool', A.acceptToMemoryPool pool 0 tx ≠ .ok pool') ∧
      ∃ r', processTx A tx pool s rand = .ok r' ∧ r'.accepted = [] ∧ r'.synced = [] ∧
        r'.relayed = [] ∧ r'.retried = [] ∧ r'.vWorkQueue = [] ∧ (r'.orphans = s ∨ r'.orphans =
          (s.addOrphanTx A.P tx).2.limitOrphanTxSize MAX_ORPHAN_TRANSACTIONS rand) := by
  cases hacc : A.acceptToMemoryPool pool 0 tx with
  | ok pool' =>
    left
    have hfuel : s.size + 1 ≤ 0 + (s.size + 1) := by omega
    obtain ⟨r', hr', hworked, hpre, -, hdone⟩ := (worked_start hacc).resolve hf hfuel
    refine ⟨pool', r', rfl, hworked, hpre, hdone, ?_⟩
    unfold processTx
    rw [hacc]
    dsimp only
    rw [hr']
    rfl
  | error e =>
    right
    refine ⟨(fun _ hf => by cases hf), ?_⟩
    cases e with
    | throw what => exact absurd trivial (CTxMemPool.acceptTx_noThrow true tx _ hacc)
    | reject nDoS msg =>
      unfold processTx
      rw [hacc]
      dsimp only
      split
      · exact ⟨_, rfl, rfl, rfl, rfl, rfl, rfl, Or.inr rfl⟩
      · exact ⟨_, rfl, rfl, rfl, rfl, rfl, rfl, Or.inl rfl⟩

theorem Worked.filed (hf : s.Filed A.P) (h : Worked A tx s r) : r.orphans.Filed A.P := by
  refine ⟨fun hash t ht => hf.keyed hash t (by rw [← h.stored]; exact ht), fun o k => ?_,
    fun hash t ht => hf.small hash t (by rw [← h.stored]; exact ht)⟩
  rw [h.under_eq, h.stored]
  exact hf.index o k

/-- No empty entry is left if something was listed under every hash of the queue. -/
theorem Worked.noResidue (hs : NoResidue s.mapOrphanTransactionsByPrev) (h : Worked A tx s r)
    (hspent : ∀ hash ∈ r.vWorkQueue, (under s.mapOrphanTransactionsByPrev hash).Nonempty) :
    NoResidue r.orphans.mapOrphanTransactionsByPrev := by
  intro o set hset
  rcases h.entries o set hset with hold | hmem
  · exact hs o set hold
  · have hne := hspent o hmem
    rw [← h.under_eq] at hne
    unfold under at hne
    rw [hset] at hne
    exact hne

theorem processTx_filed (hf : s.Filed A.P) {pool : CTxMemPool} {rand : List Uint256}
    (h : processTx A tx pool s rand = .ok r) : r.orphans.Filed A.P := by
  rcases processTx_cases hf tx pool rand with
    ⟨pool', r', -, hworked, -, -, heq⟩ | ⟨-, r', heq, -, -, -, -, -, horphans⟩
  · rw [heq] at h
    cases h
    show (r'.vEraseQueue.foldl _ r'.orphans).Filed A.P
    exact OrphanPool.foldl_eraseOrphanTx_keeps (I := fun o => o.Filed A.P)
      (fun _ hash h => h.eraseOrphanTx hash) _ (hworked.filed hf)
  · rw [heq] at h
    cases h
    rcases horphans with horphans | horphans
    · rw [horphans]
      exact hf
    · rw [horphans]
      exact OrphanPool.limitLoop_keeps (I := fun o => o.Filed A.P)
        (fun _ hash h => h.eraseOrphanTx hash) _ _ _ (hf.addOrphanTx tx)

/-- The queue is what was accepted. -/
theorem processTx_queue (hf : s.Filed A.P) {pool : CTxMemPool} {rand : List Uint256}
    (h : processTx A tx pool s rand = .ok r) : r.vWorkQueue = r.accepted.map A.P.getHash := by
  rcases processTx_cases hf tx pool rand with
    ⟨pool', r', -, hworked, -, -, heq⟩ | ⟨-, r', heq, haccepted, -, -, -, hqueue, -⟩
  · rw [heq] at h
    cases h
    exact hworked.queue
  · rw [heq] at h
    cases h
    rw [hqueue, haccepted]
    rfl

theorem processTx_noResidue (hf : s.Tidy A.P) {pool : CTxMemPool} {rand : List Uint256}
    (h : processTx A tx pool s rand = .ok r)
    (hspent : ∀ hash ∈ r.vWorkQueue, (under s.mapOrphanTransactionsByPrev hash).Nonempty) :
    NoResidue r.orphans.mapOrphanTransactionsByPrev := by
  rcases processTx_cases hf.toFiled tx pool rand with
    ⟨pool', r', -, hworked, -, -, heq⟩ | ⟨-, r', heq, -, -, -, -, -, horphans⟩
  · rw [heq] at h
    cases h
    exact OrphanPool.foldl_eraseOrphanTx_keeps (I := fun o => NoResidue o.mapOrphanTransactionsByPrev)
      (fun _ hash h => OrphanPool.noResidue_eraseOrphanTx h hash) _ (hworked.noResidue hf.noResidue hspent)
  · rw [heq] at h
    cases h
    rcases horphans with horphans | horphans
    · rw [horphans]
      exact hf.noResidue
    · rw [horphans]
      exact OrphanPool.limitLoop_keeps (I := fun o => NoResidue o.mapOrphanTransactionsByPrev)
        (fun _ hash h => OrphanPool.noResidue_eraseOrphanTx h hash) _ _ _
        (OrphanPool.noResidue_addOrphanTx hf.noResidue tx)

end Resolving
end Silkcoin
