/-
  The books of the orphan blocks.

  Three containers keep the orphans: `mapOrphanBlocks` under their own hash, `mapOrphanBlocksByPrev`
  under the hash of their parent, and `setStakeSeenOrphan` the stakes of those that are proof-of-stake.
  They are written to when an orphan comes in (`addOrphan`) and when the work queue has its turn
  (`connectOrphans`), and nowhere else: `acceptBlock` leaves them alone (`acceptBlock_sameOrphans`).

  The two MAPS agree after every call.  The STAKES do not always: two orphans may have one stake — the
  second is let in when an orphan waits for it, or the pending checkpoint — and the turn of the first
  takes the stake out of the set, while the second is still there (`Staking.stake_forgotten`).

  It happens when the two wait for DIFFERENT blocks.  `HangsFrom` is the orphans that may have their
  turn when a block comes in; as long as none of them shares its stake with an orphan that waits for
  another block, the set is right (`orphanBooks_kept`).
-/
import Silkcoin.ProcessBlock
import Silkcoin.PoolConflicts

namespace Silkcoin

open Validation BatchStore

namespace Node

theorem Leaves.and {A B : Node → Prop} {x : Except Halted Node} (hA : Leaves A A x) (hB : Leaves B B x) :
    Leaves (fun n => A n ∧ B n) (fun n => A n ∧ B n) x := by
  cases x with
  | ok n' => exact ⟨hA, hB⟩
  | error e =>
    obtain ⟨why, n'⟩ := e
    cases why with
    | reject nDoS msg => exact ⟨hA, hB⟩
    | throw what => trivial

theorem Leaves.ignoring {Q : Node → Prop} {x : Except Halted Node} (hx : Leaves Q Q x) :
    Leaves Q Q (ignoring x) := by
  cases x with
  | ok n' => exact hx
  | error e =>
    obtain ⟨why, n'⟩ := e
    cases why with
    | reject nDoS msg => exact hx
    | throw what => trivial

/-! ## Who writes to the books -/

/-- The three containers are the same. -/
structure SameOrphans (n n' : Node) : Prop where
  byHash : n'.mapOrphanBlocks = n.mapOrphanBlocks
  byPrev : n'.mapOrphanBlocksByPrev = n.mapOrphanBlocksByPrev
  stakes : n'.setStakeSeenOrphan = n.setStakeSeenOrphan

namespace SameOrphans

variable {n n' n'' : Node}

theorem refl (n : Node) : SameOrphans n n := ⟨rfl, rfl, rfl⟩

theorem trans (h : SameOrphans n n') (h' : SameOrphans n' n'') : SameOrphans n n'' :=
  ⟨h'.byHash.trans h.byHash, h'.byPrev.trans h.byPrev, h'.stakes.trans h.stakes⟩

end SameOrphans

/-- A call that leaves the books alone. -/
abbrev KeepsOrphans (n : Node) (x : Except Halted Node) : Prop :=
  Leaves (SameOrphans n) (SameOrphans n) x

namespace KeepsOrphans

variable {n : Node}

theorem bind {n' : Node} {x : Except Halted Node} {f : Node → Except Halted Node}
    (hx : KeepsOrphans n x) (hf : ∀ n', KeepsOrphans n' (f n')) (hn : SameOrphans n' n) :
    KeepsOrphans n' (x >>= f) := by
  refine Leaves.bind (hx.mono (fun _ => hn.trans) (fun _ => hn.trans)) fun m _ hm => ?_
  exact (hf m).mono (fun _ => hm.trans) (fun _ => hm.trans)

theorem withTxDB (n : Node) (x : Except Stopped NodeState) : KeepsOrphans n (n.withTxDB x) := by
  cases x with
  | ok s => exact ⟨rfl, rfl, rfl⟩
  | error e => exact Leaves.error ⟨rfl, rfl, rfl⟩

theorem orFalse {x : Except Halted Node} (msg : String) (hx : KeepsOrphans n x) :
    KeepsOrphans n (orFalse x msg) := Leaves.orFail hx (fun _ => rfl) fun _ _ => rfl

theorem ignoring {x : Except Halted Node} (hx : KeepsOrphans n x) : KeepsOrphans n (ignoring x) :=
  Leaves.ignoring hx

theorem check {α : Type} (x : Check α) {f : Failure → Halted} (hf : ∀ why, (f why).node = n) :
    Leaves (fun _ => True) (SameOrphans n) (orFail x f) := by
  cases x with
  | ok a => trivial
  | error why =>
    refine Leaves.error ?_
    rw [hf]
    exact SameOrphans.refl n

theorem test {α : Type} (n : Node) (x : Check α) :
    Leaves (fun _ => True) (SameOrphans n) (n.test x) := check x fun _ => rfl

end KeepsOrphans

variable (P : Primitives) (H : KernelHashes) (K : CheckpointKey) (n : Node)

theorem writeToDisk_sameOrphans (b : CBlock) :
    Leaves (fun r => SameOrphans n r.1) (SameOrphans n) (n.writeToDisk b) := by
  unfold writeToDisk
  dsimp only
  split
  · exact Leaves.error ⟨rfl, rfl, rfl⟩
  · split
    · exact ⟨rfl, rfl, rfl⟩
    · exact Leaves.error ⟨rfl, rfl, rfl⟩

theorem addToBlockIndex_sameOrphans (nFile nBlockPos : UInt32) (b : CBlock) :
    KeepsOrphans n (n.addToBlockIndex P H nFile nBlockPos b) := by
  unfold addToBlockIndex
  refine Leaves.bind (KeepsOrphans.test n _) fun _ _ _ => ?_
  refine Leaves.bind (KeepsOrphans.test n _) fun pindexNew _ _ => ?_
  cases pindexNew with
  | nil => exact Leaves.error (SameOrphans.refl n)
  | cons pindexNew pprev =>
    refine KeepsOrphans.bind (KeepsOrphans.withTxDB _ _) (fun n' => ?_) ⟨rfl, rfl, rfl⟩
    split
    · exact KeepsOrphans.withTxDB n' _
    · exact SameOrphans.refl n'

theorem validateSyncCheckpoint_sameOrphans (hashCheckpoint : Uint256) :
    KeepsOrphans n (n.validateSyncCheckpoint hashCheckpoint) := by
  unfold validateSyncCheckpoint
  dsimp only
  split
  · exact Leaves.error (SameOrphans.refl n)
  · exact Leaves.error (SameOrphans.refl n)
  · split
    · exact Leaves.error (SameOrphans.refl n)
    · exact Leaves.error (SameOrphans.refl n)
    · split
      · split
        · exact Leaves.error (SameOrphans.refl n)
        · split
          · exact Leaves.error ⟨rfl, rfl, rfl⟩
          · exact Leaves.error (SameOrphans.refl n)
      · split
        · exact Leaves.error (SameOrphans.refl n)
        · split
          · exact Leaves.error ⟨rfl, rfl, rfl⟩
          · exact SameOrphans.refl n

theorem bringToMainChain_sameOrphans (caller : String) (hashCheckpoint : Uint256)
    (pindexCheckpoint : BlockPtr) :
    KeepsOrphans n (n.bringToMainChain P caller hashCheckpoint pindexCheckpoint) := by
  unfold bringToMainChain
  split
  · exact SameOrphans.refl n
  · split
    · exact Leaves.error (SameOrphans.refl n)
    · next block _ =>
      have hkeeps := KeepsOrphans.withTxDB n (n.toNodeState.setBestChain P pindexCheckpoint block)
      generalize n.withTxDB (n.toNodeState.setBestChain P pindexCheckpoint block) = x at hkeeps
      cases x with
      | ok n' => exact hkeeps
      | error e =>
        obtain ⟨why, n'⟩ := e
        cases why with
        | reject nDoS msg => exact Leaves.error ⟨hkeeps.1, hkeeps.2, hkeeps.3⟩
        | throw what => trivial

theorem moveSyncCheckpoint_sameOrphans (caller : String) (hashCheckpoint : Uint256)
    (pindexCheckpoint : BlockPtr) :
    KeepsOrphans n (n.moveSyncCheckpoint P caller hashCheckpoint pindexCheckpoint) :=
  KeepsOrphans.bind (bringToMainChain_sameOrphans P n caller hashCheckpoint pindexCheckpoint)
    (fun n' => KeepsOrphans.orFalse _ (KeepsOrphans.withTxDB n' _)) (SameOrphans.refl n)

theorem acceptPendingSyncCheckpoint_sameOrphans : KeepsOrphans n (n.acceptPendingSyncCheckpoint P) := by
  unfold acceptPendingSyncCheckpoint
  split
  · split
    · exact Leaves.error (SameOrphans.refl n)
    · have hkeeps := validateSyncCheckpoint_sameOrphans n n.hashPendingCheckpoint
      split
      · next e he =>
        rw [he] at hkeeps
        obtain ⟨why, n'⟩ := e
        cases why with
        | reject nDoS msg => exact Leaves.error ⟨hkeeps.1, hkeeps.2, hkeeps.3⟩
        | throw what => trivial
      · next n' hn' =>
        rw [hn'] at hkeeps
        refine KeepsOrphans.bind (moveSyncCheckpoint_sameOrphans P n' _ _ _) (fun n'' => ?_) hkeeps
        exact ⟨rfl, rfl, rfl⟩
  · exact Leaves.error (SameOrphans.refl n)

theorem processSyncCheckpoint_sameOrphans (msg : CSyncCheckpoint) :
    KeepsOrphans n (n.processSyncCheckpoint P K msg) := by
  unfold processSyncCheckpoint
  refine Leaves.bind (KeepsOrphans.check (msg.checkSignature K) fun _ => rfl) fun msg _ _ => ?_
  split
  · exact Leaves.error ⟨rfl, rfl, rfl⟩
  · refine KeepsOrphans.bind ((validateSyncCheckpoint_sameOrphans n msg.hashCheckpoint).orFail
      (fun _ => rfl) fun _ _ => rfl) (fun n' => ?_) (SameOrphans.refl n)
    refine KeepsOrphans.bind (moveSyncCheckpoint_sameOrphans P n' _ _ _) (fun n'' => ?_)
      (SameOrphans.refl n')
    exact ⟨rfl, rfl, rfl⟩

theorem sendSyncCheckpoint_sameOrphans (hashCheckpoint : Uint256) :
    KeepsOrphans n (n.sendSyncCheckpoint P K hashCheckpoint) := by
  unfold sendSyncCheckpoint
  dsimp only
  split
  · exact Leaves.error (SameOrphans.refl n)
  · split
    · exact Leaves.error (SameOrphans.refl n)
    · exact processSyncCheckpoint_sameOrphans P K n _

theorem sendNewCheckpoint_sameOrphans (fFrom : Bool) :
    KeepsOrphans n (n.sendNewCheckpoint P K fFrom) := by
  unfold sendNewCheckpoint
  split
  · unfold autoSelectSyncCheckpoint
    split
    · trivial
    · exact KeepsOrphans.ignoring (sendSyncCheckpoint_sameOrphans P K n _)
  · exact SameOrphans.refl n

theorem proveStake_sameOrphans (b : CBlock) : KeepsOrphans n (n.proveStake P H b) := by
  unfold proveStake
  split
  · split
    · trivial
    · refine Leaves.bind (KeepsOrphans.test n _) fun hash _ _ => ?_
      split
      · exact ⟨rfl, rfl, rfl⟩
      · exact SameOrphans.refl n
  · exact SameOrphans.refl n

/-- **Accepting a block does not touch the orphans.** -/
theorem acceptBlock_sameOrphans (b : CBlock) : KeepsOrphans n (n.acceptBlock P H b) := by
  unfold acceptBlock
  refine Leaves.bind (KeepsOrphans.test n _) fun _ _ _ => ?_
  refine Leaves.bind (writeToDisk_sameOrphans n b) fun r _ hr => ?_
  refine KeepsOrphans.bind (KeepsOrphans.orFalse _ (addToBlockIndex_sameOrphans P H r.1 r.2.1 r.2.2 b))
    (fun n' => ?_) hr
  exact KeepsOrphans.ignoring (acceptPendingSyncCheckpoint_sameOrphans P n')

/-! ## The books -/

/-- Is the block one of the orphans? -/
def IsOrphan (b : CBlock) : Prop := n.mapOrphanBlocks.lookup (b.getHash P) = some b

/-- The two maps hold the same blocks, each once, under its own hash and under its parent's. -/
structure MapsAgree : Prop where
  hash : ∀ hash b, n.mapOrphanBlocks.lookup hash = some b → b.getHash P = hash
  prev : ∀ e ∈ n.mapOrphanBlocksByPrev, e.1 = e.2.hashPrevBlock
  mem_iff : ∀ b, (b.hashPrevBlock, b) ∈ n.mapOrphanBlocksByPrev ↔ n.IsOrphan P b
  once : (n.mapOrphanBlocksByPrev.map fun e => e.2.getHash P).Nodup

/-- The set holds the stakes of the proof-of-stake orphans. -/
def StakesKept : Prop := ∀ stake, stake ∈ n.setStakeSeenOrphan ↔
  ∃ b, n.IsOrphan P b ∧ b.isProofOfStake = true ∧ b.getProofOfStake = stake

variable {P H K n}

theorem SameOrphans.isOrphan {n' : Node} (h : SameOrphans n n') (b : CBlock) :
    n'.IsOrphan P b ↔ n.IsOrphan P b := by
  unfold IsOrphan
  rw [h.byHash]

theorem SameOrphans.mapsAgree {n' : Node} (h : SameOrphans n n') (hn : n.MapsAgree P) :
    n'.MapsAgree P where
  hash hash b := by
    rw [h.byHash]
    exact hn.hash hash b
  prev := by
    rw [h.byPrev]
    exact hn.prev
  mem_iff b := by
    rw [h.byPrev, h.isOrphan]
    exact hn.mem_iff b
  once := by
    rw [h.byPrev]
    exact hn.once

theorem SameOrphans.stakesKept {n' : Node} (h : SameOrphans n n') (hn : n.StakesKept P) :
    n'.StakesKept P := by
  intro stake
  rw [h.stakes, hn stake]
  exact exists_congr fun b => and_congr_left' (h.isOrphan b).symm

/-- Two orphans with one hash are one. -/
theorem IsOrphan.eq {b b' : CBlock} (hb : n.IsOrphan P b) (hb' : n.IsOrphan P b')
    (hash : b.getHash P = b'.getHash P) : b = b' := by
  unfold IsOrphan at hb hb'
  rw [hash, hb'] at hb
  exact (Option.some.inj hb).symm

theorem MapsAgree.mem_orphansOf (hn : n.MapsAgree P) {hashPrev : Uint256} {b : CBlock} :
    b ∈ n.orphansOf hashPrev ↔ n.IsOrphan P b ∧ b.hashPrevBlock = hashPrev := by
  unfold orphansOf
  constructor
  · intro hb
    obtain ⟨e, he, rfl⟩ := List.mem_map.mp hb
    obtain ⟨hmem, heq⟩ := List.mem_filter.mp he
    have hprev := hn.prev e hmem
    refine ⟨(hn.mem_iff e.2).mp ?_, ?_⟩
    · rw [← hprev]
      exact hmem
    · rw [← hprev]
      exact of_decide_eq_true heq
  · rintro ⟨hb, rfl⟩
    exact List.mem_map.mpr ⟨_, List.mem_filter.mpr ⟨(hn.mem_iff b).mpr hb, decide_eq_true rfl⟩, rfl⟩

theorem getProofOfStake_isNull {b : CBlock} (hb : b.isProofOfStake = true) :
    b.getProofOfStake.1.isNull = false := by
  unfold CBlock.isProofOfStake at hb
  unfold CBlock.getProofOfStake
  split at hb
  · next tx _ _ =>
    obtain ⟨txin, rest, hvin, hnull⟩ := CTransaction.isCoinStake_inputs _ hb
    rw [if_pos hb]
    simp only [hvin]
    exact hnull
  · cases hb

theorem getProofOfStake_work {b : CBlock} (hb : b.isProofOfStake = false) :
    b.getProofOfStake = (COutPoint.null, 0) := by
  unfold CBlock.isProofOfStake at hb
  unfold CBlock.getProofOfStake
  split at hb
  · rw [hb]
    rfl
  · rfl

/-- The stake of a proof-of-stake block is not the null stake of the others. -/
theorem isProofOfStake_of_stake {b b' : CBlock} (hb : b.isProofOfStake = true)
    (heq : b'.getProofOfStake = b.getProofOfStake) : b'.isProofOfStake = true := by
  by_contra hwork
  have hnull := getProofOfStake_isNull hb
  rw [← heq, getProofOfStake_work (Bool.eq_false_of_not_eq_true hwork)] at hnull
  cases hnull

/-! ## The turn of a hash in the work queue -/

/-- The state `r` of the loop over the orphans of one hash, after those in `done`: they are out of the
    map, their stakes are out of the set, and some of them are in the queue. -/
structure Taken (P : Primitives) (n : Node) (vWorkQueue : List Uint256) (done : List CBlock)
    (r : Node × List Uint256) : Prop where
  byHash : ∀ hash, r.1.mapOrphanBlocks.lookup hash =
    if hash ∈ done.map (CBlock.getHash · P) then none else n.mapOrphanBlocks.lookup hash
  byPrev : r.1.mapOrphanBlocksByPrev = n.mapOrphanBlocksByPrev
  stakes : ∀ stake, stake ∈ r.1.setStakeSeenOrphan ↔
    stake ∈ n.setStakeSeenOrphan ∧ ∀ b ∈ done, b.getProofOfStake ≠ stake
  queue : ∃ accepted, accepted.Sublist (done.map (CBlock.getHash · P)) ∧ r.2 = vWorkQueue ++ accepted

theorem Taken.start (P : Primitives) (n : Node) (vWorkQueue : List Uint256) :
    Taken P n vWorkQueue [] (n, vWorkQueue) where
  byHash _ := (if_neg List.not_mem_nil).symm
  byPrev := rfl
  stakes _ := (and_iff_left fun _ hb => absurd hb List.not_mem_nil).symm
  queue := ⟨[], List.Sublist.slnil, (List.append_nil _).symm⟩

/-- One orphan more, accepted (`accepted` is its hash) or not. -/
theorem Taken.forget {vWorkQueue : List Uint256} {done : List CBlock} {r : Node × List Uint256}
    (h : Taken P n vWorkQueue done r) {n' : Node} (hsame : SameOrphans r.1 n') (b : CBlock)
    {accepted : List Uint256} (hacc : accepted.Sublist [b.getHash P]) :
    Taken P n vWorkQueue (done ++ [b]) (n'.forgetOrphan P b, r.2 ++ accepted) where
  byHash hash := by
    show (n'.mapOrphanBlocks.erase (b.getHash P)).lookup hash = _
    rw [hsame.byHash, List.map_append, List.map_singleton]
    by_cases heq : hash = b.getHash P
    · rw [heq, AList.lookup_erase,
        if_pos (List.mem_append_right _ (List.mem_singleton.mpr rfl))]
    · rw [AList.lookup_erase_ne heq, h.byHash]
      refine if_congr ?_ rfl rfl
      rw [List.mem_append]
      exact (or_iff_left fun hm => heq (List.mem_singleton.mp hm)).symm
  byPrev := hsame.byPrev.trans h.byPrev
  stakes stake := by
    show stake ∈ n'.setStakeSeenOrphan.filter _ ↔ _
    rw [hsame.stakes, List.mem_filter, h.stakes, and_assoc, decide_eq_true_eq]
    refine and_congr_right fun _ => ?_
    rw [List.forall_mem_append, List.forall_mem_singleton]
    exact and_congr_right fun _ => ne_comm
  queue := by
    obtain ⟨before, hbefore, hr⟩ := h.queue
    refine ⟨before ++ accepted, ?_, ?_⟩
    · rw [List.map_append]
      exact hbefore.append hacc
    · rw [hr, List.append_assoc]

theorem connectOrphan_taken {vWorkQueue : List Uint256} {done : List CBlock}
    {r : Node × List Uint256} (b : CBlock) (h : Taken P n vWorkQueue done r) :
    Leaves (Taken P n vWorkQueue (done ++ [b])) (fun _ => False) (connectOrphan P H r b) := by
  have hsame := acceptBlock_sameOrphans P H r.1 b
  unfold connectOrphan
  split
  · next n' hn' =>
    rw [hn'] at hsame
    exact h.forget hsame b (List.Sublist.refl _)
  · next nDoS msg n' hn' =>
    rw [hn'] at hsame
    have := h.forget hsame b (List.nil_sublist _)
    rwa [List.append_nil] at this
  · trivial

/-- After the turn the orphans are those that wait for another block. -/
theorem Taken.isOrphan_iff (hn : n.MapsAgree P) {hashPrev : Uint256} {vWorkQueue : List Uint256}
    {r : Node × List Uint256} (h : Taken P n vWorkQueue (n.orphansOf hashPrev) r) (b : CBlock) :
    (r.1.forgetWaiting hashPrev).IsOrphan P b ↔ n.IsOrphan P b ∧ b.hashPrevBlock ≠ hashPrev := by
  show r.1.mapOrphanBlocks.lookup (b.getHash P) = some b ↔ _
  rw [h.byHash]
  by_cases hb : b.getHash P ∈ (n.orphansOf hashPrev).map (CBlock.getHash · P)
  · rw [if_pos hb]
    obtain ⟨b', hb', heq⟩ := List.mem_map.mp hb
    obtain ⟨hb'orphan, hprev⟩ := hn.mem_orphansOf.mp hb'
    refine iff_of_false (fun h => by cases h) ?_
    rintro ⟨hborphan, hne⟩
    rw [IsOrphan.eq hborphan hb'orphan heq.symm] at hne
    exact hne hprev
  · rw [if_neg hb]
    constructor
    · intro hborphan
      refine ⟨hborphan, fun hprev => hb ?_⟩
      exact List.mem_map_of_mem (hn.mem_orphansOf.mpr ⟨hborphan, hprev⟩)
    · exact And.left

theorem Taken.mapsAgree (hn : n.MapsAgree P) {hashPrev : Uint256} {vWorkQueue : List Uint256}
    {r : Node × List Uint256} (h : Taken P n vWorkQueue (n.orphansOf hashPrev) r) :
    (r.1.forgetWaiting hashPrev).MapsAgree P where
  hash hash b hb := by
    have hb' : r.1.mapOrphanBlocks.lookup hash = some b := hb
    rw [h.byHash] at hb'
    split at hb'
    · cases hb'
    · exact hn.hash hash b hb'
  prev e he := by
    have hmem := (List.mem_filter.mp he).1
    rw [h.byPrev] at hmem
    exact hn.prev e hmem
  mem_iff b := by
    rw [h.isOrphan_iff hn, ← hn.mem_iff]
    show _ ∈ r.1.mapOrphanBlocksByPrev.filter _ ↔ _
    rw [h.byPrev, List.mem_filter, decide_eq_true_eq]
  once := by
    show ((r.1.mapOrphanBlocksByPrev.filter _).map _).Nodup
    rw [h.byPrev]
    exact hn.once.sublist ((List.filter_sublist).map _)

/-- The stakes of the orphans that are left, if none of them has the stake of one that is gone. -/
theorem Taken.stakesKept (hn : n.MapsAgree P) (hstakes : n.StakesKept P) {hashPrev : Uint256}
    {vWorkQueue : List Uint256} {r : Node × List Uint256}
    (h : Taken P n vWorkQueue (n.orphansOf hashPrev) r)
    (hapart : ∀ b b', n.IsOrphan P b → b.hashPrevBlock = hashPrev → n.IsOrphan P b' →
      b.isProofOfStake = true → b'.getProofOfStake = b.getProofOfStake → b'.hashPrevBlock = hashPrev) :
    (r.1.forgetWaiting hashPrev).StakesKept P := by
  intro stake
  show stake ∈ r.1.setStakeSeenOrphan ↔ _
  rw [h.stakes, hstakes]
  constructor
  · rintro ⟨⟨b, hb, hpos, rfl⟩, hkept⟩
    refine ⟨b, (h.isOrphan_iff hn b).mpr ⟨hb, fun hprev => ?_⟩, hpos, rfl⟩
    exact hkept b (hn.mem_orphansOf.mpr ⟨hb, hprev⟩) rfl
  · rintro ⟨b, hb, hpos, rfl⟩
    obtain ⟨hborphan, hne⟩ := (h.isOrphan_iff hn b).mp hb
    refine ⟨⟨b, hborphan, hpos, rfl⟩, fun b' hb' heq => hne ?_⟩
    obtain ⟨hb'orphan, hprev⟩ := hn.mem_orphansOf.mp hb'
    exact hapart b' b hb'orphan hprev hborphan (isProofOfStake_of_stake hpos heq) heq.symm

/-- A turn takes one hash off the queue, and no more come on than orphans go. -/
theorem Taken.shorter (hashPrev : Uint256) {vWorkQueue : List Uint256} {r : Node × List Uint256}
    (h : Taken P n vWorkQueue (n.orphansOf hashPrev) r) :
    r.2.length + (r.1.forgetWaiting hashPrev).mapOrphanBlocksByPrev.length <
      (hashPrev :: vWorkQueue).length + n.mapOrphanBlocksByPrev.length := by
  obtain ⟨accepted, hsub, hr⟩ := h.queue
  have hacc : accepted.length ≤ (n.orphansOf hashPrev).length := by
    have := hsub.length_le
    rwa [List.length_map] at this
  have hsplit := List.length_eq_length_filter_add
    (l := n.mapOrphanBlocksByPrev) fun e => decide (e.1 = hashPrev)
  have hforget : (r.1.forgetWaiting hashPrev).mapOrphanBlocksByPrev =
      n.mapOrphanBlocksByPrev.filter fun e => !decide (e.1 = hashPrev) := by
    show r.1.mapOrphanBlocksByPrev.filter _ = _
    rw [h.byPrev]
    exact List.filter_congr fun e _ => decide_not
  unfold orphansOf at hacc
  rw [List.length_map] at hacc
  rw [hr, hforget, List.length_append, List.length_cons]
  omega

/-! ## The work queue -/

/-- The orphans that wait for `hash`, and those that wait for them. -/
inductive HangsFrom (P : Primitives) (n : Node) (hash : Uint256) : CBlock → Prop
  | child {b : CBlock} : n.IsOrphan P b → b.hashPrevBlock = hash → HangsFrom P n hash b
  | above {b b' : CBlock} : HangsFrom P n hash b → n.IsOrphan P b' → b'.hashPrevBlock = b.getHash P →
      HangsFrom P n hash b'

/-- An orphan that hangs from `hash` shares its stake only with orphans that wait for the same block. -/
def StakesApart (P : Primitives) (n : Node) (hash : Uint256) : Prop :=
  ∀ b b', HangsFrom P n hash b → n.IsOrphan P b' → b.isProofOfStake = true →
    b'.getProofOfStake = b.getProofOfStake → b'.hashPrevBlock = b.hashPrevBlock

/-- The two maps agree; and the stakes are right where the calls so far were as `C` asks. -/
structure BooksKept (P : Primitives) (C : Prop) (n : Node) : Prop where
  maps : n.MapsAgree P
  stakes : C → n.StakesKept P

theorem SameOrphans.booksKept {C : Prop} {n' : Node} (h : SameOrphans n n') (hn : BooksKept P C n) :
    BooksKept P C n' := ⟨h.mapsAgree hn.maps, fun hC => h.stakesKept (hn.stakes hC)⟩

/-- The work queue of a call that began at `start` with the block `hash`: what is in it hangs from that
    block, and what is an orphan now was one at the start. -/
structure InCall (P : Primitives) (start : Node) (hash : Uint256) (n : Node)
    (vWorkQueue : List Uint256) : Prop where
  orphans : ∀ b, n.IsOrphan P b → start.IsOrphan P b
  queue : ∀ hashPrev ∈ vWorkQueue, hashPrev = hash ∨ ∃ b, HangsFrom P start hash b ∧
    b.getHash P = hashPrev

theorem InCall.hangsFrom {start : Node} {hash hashPrev : Uint256} {vWorkQueue : List Uint256}
    (h : InCall P start hash n vWorkQueue) (hmem : hashPrev ∈ vWorkQueue) {b : CBlock}
    (hb : n.IsOrphan P b) (hprev : b.hashPrevBlock = hashPrev) : HangsFrom P start hash b := by
  rcases h.queue hashPrev hmem with rfl | ⟨b', hb', rfl⟩
  · exact HangsFrom.child (h.orphans b hb) hprev
  · exact HangsFrom.above hb' (h.orphans b hb) hprev

/-- One turn of the queue. -/
theorem InCall.turn {start : Node} {hash hashPrev : Uint256} {vWorkQueue : List Uint256}
    (h : InCall P start hash n (hashPrev :: vWorkQueue)) (hn : n.MapsAgree P)
    {r : Node × List Uint256} (hr : Taken P n vWorkQueue (n.orphansOf hashPrev) r) :
    InCall P start hash (r.1.forgetWaiting hashPrev) r.2 where
  orphans b hb := h.orphans b ((hr.isOrphan_iff hn b).mp hb).1
  queue hashPrev' hmem := by
    obtain ⟨accepted, hsub, heq⟩ := hr.queue
    rw [heq] at hmem
    rcases List.mem_append.mp hmem with hmem | hmem
    · exact h.queue hashPrev' (List.mem_cons_of_mem _ hmem)
    · obtain ⟨b, hb, rfl⟩ := List.mem_map.mp (hsub.subset hmem)
      obtain ⟨hborphan, hprev⟩ := hn.mem_orphansOf.mp hb
      exact Or.inr ⟨b, h.hangsFrom List.mem_cons_self hborphan hprev, rfl⟩

/-- **The work queue keeps the books.** -/
theorem connectOrphans_kept {C : Prop} {start : Node} {hash : Uint256}
    (hapart : C → StakesApart P start hash) (fuel : Nat) :
    ∀ (n : Node) (vWorkQueue : List Uint256), BooksKept P C n → InCall P start hash n vWorkQueue →
      Leaves (BooksKept P C) (fun _ => False) (connectOrphans P H fuel n vWorkQueue) := by
  induction fuel with
  | zero =>
    intro n vWorkQueue hn hcall
    cases vWorkQueue with
    | nil => exact hn
    | cons hashPrev vWorkQueue => trivial
  | succ fuel ih =>
    intro n vWorkQueue hn hcall
    cases vWorkQueue with
    | nil => exact hn
    | cons hashPrev vWorkQueue =>
      refine (Leaves.foldlM (I := Taken P n vWorkQueue) (Taken.start P n vWorkQueue)
        fun done b r hr => connectOrphan_taken b hr).bind fun r _ hr => ?_
      refine ih _ _ ⟨hr.mapsAgree hn.maps, fun hC => ?_⟩ (hcall.turn hn.maps hr)
      refine hr.stakesKept hn.maps (hn.stakes hC) fun b b' hb hprev hb' hpos heq => ?_
      have hhangs := hcall.hangsFrom List.mem_cons_self hb hprev
      exact (hapart hC b b' hhangs (hcall.orphans b' hb') hpos heq).trans hprev

/-- The same loop, with another answer where the fuel is gone. -/
def drain (P : Primitives) (H : KernelHashes) (stuck : Except Halted Node) : Nat → Node → List Uint256 → Except Halted Node
  | _, n, [] => .ok n
  | 0, _, _ :: _ => stuck
  | fuel + 1, n, hashPrev :: vWorkQueue => do
    let r ← (n.orphansOf hashPrev).foldlM (connectOrphan P H) (n, vWorkQueue)
    drain P H stuck fuel (r.1.forgetWaiting hashPrev) r.2

/-- **THE WORK QUEUE ENDS**: with one turn for every hash in it and for every orphan the fuel is never
    gone, whatever the answer were. -/
theorem connectOrphans_ends (stuck : Except Halted Node) (k k' : Nat) (n : Node) (vWorkQueue : List Uint256) :
    drain P H stuck (vWorkQueue.length + n.mapOrphanBlocksByPrev.length + k) n vWorkQueue =
      connectOrphans P H (vWorkQueue.length + n.mapOrphanBlocksByPrev.length + k') n vWorkQueue := by
  have hloop : ∀ (fuel fuel' : Nat) (n : Node) (vWorkQueue : List Uint256),
      vWorkQueue.length + n.mapOrphanBlocksByPrev.length ≤ fuel →
      vWorkQueue.length + n.mapOrphanBlocksByPrev.length ≤ fuel' →
      drain P H stuck fuel n vWorkQueue = connectOrphans P H fuel' n vWorkQueue := by
    intro fuel
    induction fuel with
    | zero =>
      intro fuel' n vWorkQueue hfuel hfuel'
      cases vWorkQueue with
      | nil => cases fuel' <;> rfl
      | cons hashPrev vWorkQueue => exact absurd hfuel (by simp)
    | succ fuel ih =>
      intro fuel' n vWorkQueue hfuel hfuel'
      cases vWorkQueue with
      | nil => cases fuel' <;> rfl
      | cons hashPrev vWorkQueue =>
        cases fuel' with
        | zero => exact absurd hfuel' (by simp)
        | succ fuel' =>
          have htaken : Leaves (Taken P n vWorkQueue (n.orphansOf hashPrev)) (fun _ => False)
              ((n.orphansOf hashPrev).foldlM (connectOrphan P H) (n, vWorkQueue)) :=
            Leaves.foldlM (Taken.start P n vWorkQueue) fun done b r hr => connectOrphan_taken b hr
          unfold drain connectOrphans
          generalize (n.orphansOf hashPrev).foldlM (connectOrphan P H) (n, vWorkQueue) = x at htaken
          cases x with
          | error e => rfl
          | ok r =>
            -- what is left to do is less
            have hless := htaken.shorter hashPrev
            exact ih _ _ _ (by omega) (by omega)
  exact hloop _ _ n vWorkQueue (Nat.le_add_right _ k) (Nat.le_add_right _ k')

/-! ## A whole call -/

theorem SameOrphans.hangsFrom {n' : Node} (h : SameOrphans n n') {hash : Uint256} {b : CBlock}
    (hb : HangsFrom P n' hash b) : HangsFrom P n hash b := by
  induction hb with
  | child hb hprev => exact HangsFrom.child ((h.isOrphan _).mp hb) hprev
  | above _ hb' hprev ih => exact HangsFrom.above ih ((h.isOrphan _).mp hb') hprev

theorem SameOrphans.stakesApart {n' : Node} (h : SameOrphans n n') {hash : Uint256}
    (hn : StakesApart P n hash) : StakesApart P n' hash := fun b b' hb hb' =>
  hn b b' (h.hangsFrom hb) ((h.isOrphan b').mp hb')

/-- What may come before the books are written to. -/
theorem KeepsOrphans.booksKept {C : Prop} {x : Except Halted Node} (hx : KeepsOrphans n x)
    (hn : BooksKept P C n) :
    Leaves (fun n' => SameOrphans n n') (BooksKept P C) x :=
  hx.mono (fun _ h => h) (fun _ h => h.booksKept hn)

theorem enterOrphan_isOrphan {b : CBlock} (hnew : n.mapOrphanBlocks.lookup (b.getHash P) = none)
    (b' : CBlock) : (n.enterOrphan P b).IsOrphan P b' ↔ n.IsOrphan P b' ∨ b' = b := by
  show (n.mapOrphanBlocks.insert (b.getHash P) b).lookup (b'.getHash P) = some b' ↔ _
  rw [lookup_insert_eq_ite]
  by_cases heq : b.getHash P = b'.getHash P
  · rw [if_pos heq]
    constructor
    · intro h
      exact Or.inr (Option.some.inj h).symm
    · rintro (h | rfl)
      · unfold IsOrphan at h
        rw [← heq, hnew] at h
        cases h
      · rfl
  · rw [if_neg heq]
    refine (or_iff_left fun h => heq ?_).symm
    rw [h]

theorem enterOrphan_mapsAgree {b : CBlock} (hnew : n.mapOrphanBlocks.lookup (b.getHash P) = none)
    (hn : n.MapsAgree P) : (n.enterOrphan P b).MapsAgree P where
  hash hash b' hb' := by
    have hb' : (n.mapOrphanBlocks.insert (b.getHash P) b).lookup hash = some b' := hb'
    rw [lookup_insert_eq_ite] at hb'
    split at hb'
    · next heq =>
      cases hb'
      exact heq
    · exact hn.hash hash b' hb'
  prev e he := by
    rcases List.mem_append.mp he with he | he
    · exact hn.prev e he
    · rw [List.mem_singleton.mp he]
  mem_iff b' := by
    refine Iff.trans ?_ (enterOrphan_isOrphan hnew b').symm
    show _ ∈ n.mapOrphanBlocksByPrev ++ _ ↔ _
    rw [List.mem_append, List.mem_singleton, hn.mem_iff]
    exact or_congr_right ⟨fun h => (Prod.mk.inj h).2, fun h => by rw [h]⟩
  once := by
    show ((n.mapOrphanBlocksByPrev ++ _).map _).Nodup
    rw [List.map_append, List.map_singleton]
    refine hn.once.append (List.nodup_singleton _) ?_
    rw [List.disjoint_singleton]
    intro hmem
    obtain ⟨e, he, heq⟩ := List.mem_map.mp hmem
    have horphan : n.IsOrphan P e.2 := by
      rw [← hn.mem_iff, ← hn.prev e he]
      exact he
    unfold IsOrphan at horphan
    rw [heq, hnew] at horphan
    cases horphan

theorem enterOrphan_stakesKept {b : CBlock} (hnew : n.mapOrphanBlocks.lookup (b.getHash P) = none)
    (hn : n.StakesKept P) : (n.enterOrphan P b).StakesKept P := by
  intro stake
  have hentered : stake ∈ (n.enterOrphan P b).setStakeSeenOrphan ↔
      stake ∈ n.setStakeSeenOrphan ∨ b.isProofOfStake = true ∧ b.getProofOfStake = stake := by
    unfold enterOrphan
    dsimp only
    split
    · next hpos =>
      rw [List.mem_cons, or_comm]
      exact or_congr_right ⟨fun h => ⟨hpos, h.symm⟩, fun h => h.2.symm⟩
    · next hwork => exact (or_iff_left fun h => hwork h.1).symm
  rw [hentered, hn stake]
  constructor
  · rintro (⟨b', hb', hrest⟩ | hrest)
    · exact ⟨b', (enterOrphan_isOrphan hnew b').mpr (Or.inl hb'), hrest⟩
    · exact ⟨b, (enterOrphan_isOrphan hnew b).mpr (Or.inr rfl), hrest⟩
  · rintro ⟨b', hb', hrest⟩
    rcases (enterOrphan_isOrphan hnew b').mp hb' with hb' | rfl
    · exact Or.inl ⟨b', hb', hrest⟩
    · exact Or.inr hrest

/-- A test leaves the books alone. -/
theorem test_kept {α : Type} {C : Prop} (hn : BooksKept P C n) (x : Check α) :
    Leaves (fun _ => True) (BooksKept P C) (n.test x) :=
  (KeepsOrphans.test n x).mono (fun _ h => h) fun _ h => h.booksKept hn

theorem addOrphan_kept {C : Prop} (b : CBlock) (hn : BooksKept P C n)
    (hnew : n.mapOrphanBlocks.lookup (b.getHash P) = none) :
    Leaves (BooksKept P C) (BooksKept P C) (n.addOrphan P b) := by
  unfold addOrphan
  refine (test_kept hn _).bind fun _ _ _ => (test_kept hn _).bind fun _ _ _ => ?_
  exact Leaves.ok ⟨enterOrphan_mapsAgree hnew hn.maps,
    fun hC => enterOrphan_stakesKept hnew (hn.stakes hC)⟩

theorem connectWithOrphans_kept {C : Prop} (b : CBlock) (hn : BooksKept P C n)
    (hapart : C → StakesApart P n (b.getHash P)) :
    Leaves (BooksKept P C) (BooksKept P C) (n.connectWithOrphans P H b) := by
  unfold connectWithOrphans
  refine (((acceptBlock_sameOrphans P H n b).orFalse
    "ProcessBlock() : AcceptBlock FAILED").booksKept hn).bind fun n' _ hsame => ?_
  refine (connectOrphans_kept (fun hC => hsame.stakesApart (hapart hC)) _ n' _ (hsame.booksKept hn)
    ⟨fun _ h => h, ?_⟩).mono (fun _ h => h) fun _ h => h.elim
  intro hashPrev hmem
  exact Or.inl (List.mem_singleton.mp hmem)

theorem preliminaryChecks_new {b : CBlock} {u : Unit} (h : n.preliminaryChecks P b = .ok u) :
    n.mapOrphanBlocks.lookup (b.getHash P) = none := by
  unfold preliminaryChecks at h
  simp only [bind_ok, require_ok, exists_const] at h
  exact Option.isNone_iff_eq_none.mp h.2.1

/-- **What a call does to the books.** -/
theorem processBlock_kept {C : Prop} (fFrom : Bool) (b : CBlock) (hn : BooksKept P C n)
    (hapart : C → StakesApart P n (b.getHash P)) :
    Leaves (BooksKept P C) (BooksKept P C) (n.processBlock P H K fFrom b) := by
  unfold processBlock
  refine (test_kept hn _).bind fun _ hpre _ => ?_
  refine ((proveStake_sameOrphans P H n b).booksKept hn).bind fun n₁ _ hsame => ?_
  have hn₁ : BooksKept P C n₁ := hsame.booksKept hn
  refine (test_kept hn₁ _).bind fun _ _ _ => ?_
  split
  · refine addOrphan_kept b hn₁ ?_
    rw [hsame.byHash]
    refine preliminaryChecks_new (u := ()) ?_
    unfold test at hpre
    exact orFail_ok.mp hpre
  · refine (connectWithOrphans_kept b hn₁ fun hC => hsame.stakesApart (hapart hC)).bind
      fun n₂ _ hn₂ => ?_
    exact (sendNewCheckpoint_sameOrphans P K n₂ fFrom).mono (fun _ h => h.booksKept hn₂)
      fun _ h => h.booksKept hn₂

/-! ## Runs -/

/-- A call returned, with `true` or with `false`, and left the node `n'`. -/
def Returned (x : Except Halted Node) (n' : Node) : Prop :=
  x = .ok n' ∨ ∃ nDoS msg, x = .error ⟨.reject nDoS msg, n'⟩

theorem Leaves.of_returned {Q : Node → Prop} {x : Except Halted Node} {n' : Node} (h : Leaves Q Q x)
    (hret : Returned x n') : Q n' := by
  rcases hret with rfl | ⟨nDoS, msg, rfl⟩
  · exact h
  · exact h

theorem Leaves.returned {Q : Node → Prop} {x : Except Halted Node} (h : ∀ n', Returned x n' → Q n') :
    Leaves Q Q x := by
  cases x with
  | ok n' => exact h n' (Or.inl rfl)
  | error e =>
    obtain ⟨why, n'⟩ := e
    cases why with
    | reject nDoS msg => exact h n' (Or.inr ⟨nDoS, msg, rfl⟩)
    | throw what => trivial

/-- Calls of `ProcessBlock`, each with the node it found, from a node without orphans.  Between the calls
    the node may change as it likes, except for the three books. -/
inductive BlockRun (P : Primitives) (H : KernelHashes) (K : CheckpointKey) :
    List (Node × CBlock) → Node → Prop
  | start {n : Node} : n.mapOrphanBlocks = ∅ → n.mapOrphanBlocksByPrev = [] →
      n.setStakeSeenOrphan = [] → BlockRun P H K [] n
  | process {calls : List (Node × CBlock)} {n n' : Node} (fFrom : Bool) (b : CBlock) :
      BlockRun P H K calls n → Returned (n.processBlock P H K fFrom b) n' →
      BlockRun P H K (calls ++ [(n, b)]) n'
  | other {calls : List (Node × CBlock)} {n n' : Node} :
      BlockRun P H K calls n → SameOrphans n n' → BlockRun P H K calls n'

theorem booksKept_empty {C : Prop} (hash : n.mapOrphanBlocks = ∅) (prev : n.mapOrphanBlocksByPrev = [])
    (stakes : n.setStakeSeenOrphan = []) : BooksKept P C n := by
  have hnone : ∀ b, ¬ n.IsOrphan P b := by
    intro b hb
    unfold IsOrphan at hb
    rw [hash] at hb
    cases hb
  refine ⟨⟨fun hash' b hb => ?_, ?_, fun b => ?_, ?_⟩, fun _ stake => ?_⟩
  · rw [hash] at hb
    cases hb
  · rw [prev]
    exact fun e he => absurd he List.not_mem_nil
  · rw [prev]
    exact iff_of_false List.not_mem_nil (hnone b)
  · rw [prev]
    exact List.nodup_nil
  · rw [stakes]
    exact iff_of_false List.not_mem_nil fun ⟨b, hb, _⟩ => hnone b hb

theorem BlockRun.booksKept {calls : List (Node × CBlock)} (h : BlockRun P H K calls n) :
    BooksKept P (∀ c ∈ calls, StakesApart P c.1 (c.2.getHash P)) n := by
  induction h with
  | start hash prev stakes => exact booksKept_empty hash prev stakes
  | process fFrom b _ hret ih =>
    refine Leaves.of_returned (processBlock_kept fFrom b ⟨ih.maps, fun hC => ih.stakes ?_⟩ fun hC => ?_)
      hret
    · exact fun c hc => hC c (List.mem_append_left _ hc)
    · exact hC _ (List.mem_append_right _ (List.mem_singleton.mpr rfl))
  | other _ hsame ih => exact hsame.booksKept ih

/-- **The books of the orphan blocks.**  In every run the two maps hold the same blocks, each under its
    own hash and under its parent's; and the set of stakes is right if at no call an orphan that hangs
    from the block that came in had the stake of one that waits for another block. -/
theorem orphanBooks_kept {calls : List (Node × CBlock)} (h : BlockRun P H K calls n) :
    n.MapsAgree P ∧ ((∀ c ∈ calls, StakesApart P c.1 (c.2.getHash P)) → n.StakesKept P) :=
  ⟨h.booksKept.maps, h.booksKept.stakes⟩

theorem BlockRun.feed {fFrom : Bool} {blocks : List CBlock} {n' : Node} :
    ∀ {n : Node} {calls : List (Node × CBlock)}, BlockRun P H K calls n →
      blocks.foldlM (processBlock P H K · fFrom) n = .ok n' → ∃ calls, BlockRun P H K calls n' := by
  induction blocks with
  | nil =>
    intro n calls h hfeed
    cases hfeed
    exact ⟨calls, h⟩
  | cons b blocks ih =>
    intro n calls h hfeed
    rw [List.foldlM_cons, bind_ok] at hfeed
    obtain ⟨n₁, hn₁, hfeed⟩ := hfeed
    exact ih (h.process fFrom b (Or.inl hn₁)) hfeed

end Node

/-! ## A stake that is forgotten -/

namespace Staking

open Sample Node

/-- The key of the staker, and a script only it can spend. -/
def stakerScript : CScript :=
  [0x21,
    0x03, 0xf5, 0x70, 0x0b, 0x95, 0x7e, 0xed, 0xed, 0xbc, 0xba, 0xa4, 0xb5, 0x77, 0xac, 0x03,
    0xec, 0x58, 0xd5, 0x2e, 0xc0, 0xb6, 0x3b, 0x24, 0xcf, 0x66, 0xc2, 0xb1, 0x83, 0xe9, 0x7d,
    0x76, 0x98, 0xea,
    0xac]

/-- The coinbase of block `nHeight` of the first eleven. -/
def coinBaseK (nHeight : Nat) : Uint256 :=
  ((Ripening.mined[nHeight - 1]?).map fun row => row.2.1).getD 0

/-- A proof-of-stake block: the coinbase is empty, and the coinstake stakes the coinbase of block
    `nStaked`, with no reward. -/
def stakeBlock (hashPrevBlock hashMerkleRoot : Uint256) (nTime : UInt32) (coinBaseScript : CScript)
    (nStaked : Nat) (vchBlockSig : List UInt8) : CBlock where
  nVersion := 6
  hashPrevBlock := hashPrevBlock
  hashMerkleRoot := hashMerkleRoot
  nTime := nTime
  nBits := 0x1e0fffff
  nNonce := 0
  vtx := [
    { coinBaseTx nTime coinBaseScript 0 with vout := [⟨0, []⟩] },
    { nVersion := 1
      nTime := nTime
      vin := [⟨⟨coinBaseK nStaked, 0⟩, [], 0xffffffff⟩]
      vout := [⟨0, []⟩, ⟨5000 * COIN, stakerScript⟩]
      nLockTime := 0 }]
  vchBlockSig := vchBlockSig

/-- Three days later two miners find a block each, and then another on top of it. -/
def blockX12 : CBlock :=
  Ripening.testBlock Ripening.indexK11.hashBlock
    0xb34aff15067d05bba3c276866042c2b8c4ee76371087a731aca56a7fbc84eded 31806
    (coinBaseTx 1399206538 [0x5c, 0x58] (5000 * COIN)) []

def hashX12 : Uint256 := 0x0000ffa3373059f0d1d41282c68c8ed21c31c6c17cf216e90e13d3babd758983

def blockY12 : CBlock :=
  Ripening.testBlock Ripening.indexK11.hashBlock
    0x1a1483e81cbf4dd8785e28c4a68dd0fe7e502cfacdde5a9d1bee3a1b27022916 176798
    (coinBaseTx 1399206538 [0x5c, 0x59] (5000 * COIN)) []

def hashY12 : Uint256 := 0x00001ff36a26a7304da1bb34483a2b87851fe6a9423adf5633cb57584f6e1e98

def blockX13 : CBlock :=
  Ripening.testBlock hashX12
    0x1c4f0b6786768ee65937447988f719b9df67d30646f5864454aeba7693dfcb8e 8115
    (coinBaseTx 1399206598 [0x5d, 0x58] (5000 * COIN)) []

def hashX13 : Uint256 := 0x00007f77a16e68ba34b691f83b11dd6f9a817a1d5eb9b04f0b3c330dae7ef901

def blockY13 : CBlock :=
  Ripening.testBlock hashY12
    0x6c95aaa132a3af5d8c0befa3d831d6d5777f695566f2acc928cb9fbf33e38b11 10113
    (coinBaseTx 1399206598 [0x5d, 0x59] (5000 * COIN)) []

def hashY13 : Uint256 := 0x0000f33eafec57c207cd965d67917f7bc5569723a430393c2d70ccd01fca70e7

/-- A block on `Y13`, which stakes the first coinbase. -/
def blockS14 : CBlock :=
  stakeBlock hashY13
    0x79436aa4023a421bca7c467ce91ba56a0f70bfd75c1d22784865e9b37af8e57e 1399206742 [0x5e, 0x53] 1
    [
      0x30, 0x44, 0x02, 0x20, 0x20, 0x3e, 0x80, 0x66, 0x45, 0x0d, 0xeb, 0x01, 0x7e, 0xd3, 0x42,
      0x8b, 0x19, 0x5b, 0xed, 0x39, 0x5b, 0x2d, 0x97, 0x25, 0xa9, 0x83, 0x82, 0xbf, 0xac, 0x43,
      0xfd, 0xaf, 0xb0, 0x4c, 0x6b, 0x17, 0x02, 0x20, 0x3c, 0x75, 0x27, 0xf1, 0x73, 0x62, 0xdf,
      0xd1, 0xed, 0x72, 0xe4, 0x9a, 0xe6, 0x0f, 0xf0, 0x92, 0x96, 0x7f, 0x5c, 0x76, 0x27, 0x06,
      0xb0, 0xc1, 0x05, 0xf0, 0x8d, 0xff, 0x8e, 0xc2, 0xef, 0x48]

def hashS14 : Uint256 := 0x2a47dfa6e0f67b734bf7611386054bd056bc4c848f87feceddfe0d5fc75e915c

/-- The same stake, in a block whose parent nobody has. -/
def blockO14 : CBlock :=
  stakeBlock 1
    0x96368355e86f7f393c6d5d75a4e51104a9a5ae52a656035467008f325eace38c 1399206742 [0x5e, 0x4f] 1
    [
      0x30, 0x45, 0x02, 0x21, 0x00, 0xff, 0xbf, 0x70, 0xd4, 0xb8, 0xbe, 0xcb, 0xb7, 0x91, 0xce,
      0x76, 0x56, 0x33, 0xce, 0xde, 0x5e, 0x12, 0x17, 0xe8, 0x13, 0x11, 0x91, 0x23, 0xd2, 0x3a,
      0x2e, 0x0a, 0x2e, 0xbb, 0x85, 0x87, 0xed, 0x02, 0x20, 0x5c, 0x70, 0x31, 0x87, 0xff, 0x88,
      0x63, 0x79, 0x6b, 0x34, 0x18, 0xac, 0xdf, 0x4e, 0x50, 0x61, 0x26, 0x4e, 0x5c, 0x07, 0x58,
      0xe4, 0x69, 0xd7, 0xa3, 0x48, 0xfa, 0x67, 0x26, 0xe7, 0x7b, 0x04]

def hashO14 : Uint256 := 0xf97e70c940678ddffbfe7f49beeb64a2f0f22eff1451e4e2e728274ad1d0a237

/-- A block on top of that one, with another stake. -/
def blockC15 : CBlock :=
  stakeBlock hashO14
    0x1f48007034aa322524735d6ca96151a02a7e6fd5d53a4f92a5265073df5a0b3d 1399206913 [0x5f, 0x43] 2
    [
      0x30, 0x44, 0x02, 0x20, 0x7b, 0x60, 0x9d, 0xe6, 0x74, 0xb4, 0xd0, 0x50, 0x33, 0xcb, 0x87,
      0x1f, 0x12, 0x08, 0x6d, 0x09, 0x3e, 0x25, 0x0e, 0xd3, 0x57, 0x7f, 0x1f, 0x39, 0x61, 0x3b,
      0x3c, 0xaa, 0x5a, 0x87, 0x4d, 0xf2, 0x02, 0x20, 0x4f, 0x6f, 0xd7, 0x2a, 0x37, 0x31, 0x55,
      0x4b, 0x9d, 0xf6, 0x1e, 0x1f, 0x79, 0x02, 0xc8, 0x6f, 0x22, 0x18, 0x54, 0x9e, 0x2f, 0x05,
      0x83, 0x98, 0xb0, 0xe7, 0xa7, 0xd7, 0x15, 0x14, 0x46, 0x9a]

def hashC15 : Uint256 := 0x41b20d4c1b73fed6ebebe3ccdd4b7fe29935ed8c66ff3ab9197bc6f12612f9f5

def works : List (CBlock × Uint256) :=
  [(blockX12, hashX12), (blockY12, hashY12), (blockX13, hashX13), (blockY13, hashY13)]

def stakes : List (CBlock × Uint256) := [(blockS14, hashS14), (blockO14, hashO14), (blockC15, hashC15)]

/-- The coinbases and coinstakes of the proof-of-stake blocks, in their order. -/
def hashesOfStakes : List (Uint256 × Uint256) :=
  [(0xbd896391caf932c588988ea03ff1e64e18bdbb1aa8aecbdefafd8ca0029b72a9,
      0x23b9aef904870bf02610a29e2bfe72a73649bcd9cd9e97d8d90df4d6d3b69248),
    (0xd890a07cacef3d3d4822f986529bf20469756ec74e4aa76d0874cd4e84b46d58,
      0x23b9aef904870bf02610a29e2bfe72a73649bcd9cd9e97d8d90df4d6d3b69248),
    (0xe9f384931a246786a82289be832c9331f3a4e7e7220697f15950400869f4ac45,
      0x24478bd090f77312cff3c4751b0812f9788452cc9dbce2ff4041d3e3a5ec6334)]

def primitives : Primitives := Primitives.ofTables
  (Ripening.txs ++ (works.flatMap fun r => r.1.vtx.map fun tx => (tx, r.1.hashMerkleRoot)) ++
    (stakes.zip hashesOfStakes).flatMap fun r => r.1.1.vtx.zip [r.2.1, r.2.2])
  ((Ripening.chainK11.map fun c => (c.block.toCBlockHeader, c.pindex.hashBlock)) ++
    (works ++ stakes).map fun r => (r.1.toCBlockHeader, r.2))
  ((stakes.zip hashesOfStakes).map fun r => (r.2, r.1.1.hashMerkleRoot))

/-- The kernel hashes of these blocks. -/
def selections : List ((Uint256 × BitVec 64) × Uint256) :=
  [((0x00000b5f90b3a8b418030fc1f985ea496c014d56b35a49fe97760c71a5653eb2, 0),
      0x1de62997d3d4d050ed099e16d7599f6201d671ee01c51a43423f11230d9690c6),
    ((0x00009b26815257d42e658730a29df8f3460be207fc383f93ed57d51649abdd6c, 0),
      0x565ccd4329b7fe5279670989b41a8510db753ba797ba30dcc5a46ef9caab902d),
    ((0x0000bf20f412eaa6f333ad5818b7eb086dc7bcd213153278d3f9599debbf9a18, 0),
      0xd1d9b57ae59ff738b8a1aa812a1f7ece6564090882a2b474250368ca219f8d5a),
    ((0x0000ffa3373059f0d1d41282c68c8ed21c31c6c17cf216e90e13d3babd758983, 0),
      0xda861541c8b815ab2ac56efb0a1237010180675159d86079687e5964b2da5322),
    ((0x00001ff36a26a7304da1bb34483a2b87851fe6a9423adf5633cb57584f6e1e98, 0),
      0xf918f8371f8090032dd33df1315cedaeff2fdb6b59c6c759e34a92b68835297f)]

def checksums : List ((UInt32 × UInt32 × Uint256 × BitVec 64) × Uint256) :=
  [((0xfd11f4e7, 0, 0, 0),
      0x2dcbe35851e93e78fe5a79291fc6c2746c62fd87a1d67d0ecff2b495258382e4),
    ((0x2dcbe358, 0, 0, 0),
      0x641174e5e5b2f1a85822acd229d3d2af85052a7c6f1e8fc687c12d8de2336c8d),
    ((0x641174e5, 4, 0, 0),
      0xc0d4b4f2ff43065c7f64c240906cdb796a7c024b4dfbda6a3066d2d58e773f3c),
    ((0xc0d4b4f2, 2, 0, 0),
      0xf1885d2f1b17cc2851849c82839d3a11504f15f7af294b4096dba4ffe8748112),
    ((0xf1885d2f, 0, 0, 0),
      0xccea99110ae5f8165118504abae7e36f5fb1360099c8ebb77f601b8a343d9c55),
    ((0xccea9911, 2, 0, 0),
      0x34346a0082d2eb424e4456a482751a60f7d55df8e08248d51cf9047c7336fd7c),
    ((0x34346a00, 2, 0, 0),
      0x9c27e84fa40d8f345a2d3fbc30224fcde436cde0b300889a44c3faf9842c5010),
    ((0x9c27e84f, 2, 0, 0),
      0xb092d97b9d5a23682380a5ed08225ee72e3b2f9367aa0f87a4f8f4101f919e8a),
    ((0xb092d97b, 2, 0, 0),
      0x78df760560d614b57e4056964cd511c070930832528c05dcd1f0a807225b5058),
    ((0x78df7605, 2, 0, 0),
      0xf40f232fb213b4dba13e8bcc5e9d2682eac4640e7af57e8eade1dd49fa0be1f0),
    ((0xf40f232f, 0, 0, 0),
      0xa862fe2ea5b6b57c8ac8cb1436c4a0fe06439ef78f8b0927e9c4e1b059786baf),
    ((0xa862fe2e, 2, 0, 0),
      0x5bf8d4a5699a4f43c387b55fa1a752aa42dbe0da93276bf15b94c5a90211afa2),
    ((0xa862fe2e, 0, 0, 0),
      0x8944cf4fd912bb3ec3088385a3761b9d95b1bcadb1e97986f259eb142a17fccb),
    ((0x5bf8d4a5, 6, 0, 1),
      0x7658d1f20b917c207aae81314444d6cedb62642ab3521b0a316f5ab86607e0b6),
    ((0x8944cf4f, 6, 0, 0),
      0xaceb28c2830326bbfad641c135ef1414683b5d1dcaa901cdd141dc2e5271e3eb),
    ((0xaceb28c2, 1, 0x020913220cb676cc158f8b8a1fdc15f3a7a6c2b6a95075e38c9b50a77eb6fad1, 0),
      0xa659577f5e70092e5bd691500b9d135fe6639a8db12f37f27a05f8c5c52adc9c)]

def proofs : List ((BitVec 64 × UInt32 × UInt32 × UInt32 × UInt32 × UInt32) × Uint256) :=
  [((1, 1398947398, 81, 1398947398, 0, 1399206742),
      0x020913220cb676cc158f8b8a1fdc15f3a7a6c2b6a95075e38c9b50a77eb6fad1),
    ((0, 1398947398, 81, 1398947398, 0, 1399206742),
      0xf921e3887782bb3799e1959f0eb7ce0fef15d4075fd47daa9936e7cef6f26f97),
    ((1, 1398947458, 81, 1398947458, 0, 1399206913),
      0x02966d74f17da13125521650c7ef361df1af0edbcb6e070920074a39cd8a164e)]

def kernelHashes : KernelHashes where
  selection hash nStakeModifier := (selections.lookup (hash, nStakeModifier)).getD 0
  proof nStakeModifier nTimeBlockFrom nTxPrevOffset nTimeTxPrev n nTimeTx :=
    (proofs.lookup (nStakeModifier, nTimeBlockFrom, nTxPrevOffset, nTimeTxPrev, n, nTimeTx)).getD 0
  checksum prev nFlags hashProofOfStake nStakeModifier :=
    (checksums.lookup (prev.getD 0, nFlags, hashProofOfStake, nStakeModifier)).getD 0

/-- A node that does not hold the master key. -/
def checkpointKey : CheckpointKey := ⟨fun _ _ => false, none⟩

/-- A test node that has only the genesis block. -/
def start : Node where
  toNodeState := { Ripening.node with
    nAdjustedTime := 1399207000
    files := ⟨fun _ _ => none, fun _ _ => none, fun _ _ => none⟩
    tree := ⟨AList.insert hashGenesisBlock [genesis] ∅, hashGenesisBlock, .STRICT⟩ }
  mapProofOfStake := ∅
  setStakeSeen := []
  mapOrphanBlocks := ∅
  mapOrphanBlocksByPrev := []
  setStakeSeenOrphan := []
  hashPendingCheckpoint := 0
  checkpointMessage := CSyncCheckpoint.null
  checkpointMessagePending := CSyncCheckpoint.null
  hashInvalidCheckpoint := 0
  appends := (List.range 30).map fun i => some (1, UInt32.ofNat (500 * i + 500))

/-- One block after the other, from a peer. -/
def feed (n : Node) (blocks : List CBlock) : Except Halted Node :=
  blocks.foldlM (processBlock primitives kernelHashes checkpointKey · true) n

/-- The first eleven blocks, and the first block of the three miners. -/
def firstBlocks : List CBlock :=
  (Ripening.chainK11.map ChainBlock.block).reverse ++ [blockX12, blockX13, blockY12]

theorem run : BlockRun primitives kernelHashes checkpointKey [] start := BlockRun.start rfl rfl rfl

/-- An orphan with an orphan on top of it, two orphans with one stake, and then the parent of the first
    of these two. -/
def blocks : List CBlock := firstBlocks ++ [blockC15, blockS14, blockO14, blockY13]

/-- `S14` had its turn and is the tip; `O14` is still an orphan, and its stake is not in the set. -/
theorem stake_forgotten : ∃ calls n, BlockRun primitives kernelHashes checkpointKey calls n ∧
    n.hashBestChain = hashS14 ∧ n.IsOrphan primitives blockO14 ∧ blockO14.isProofOfStake = true ∧
    blockO14.getProofOfStake ∉ n.setStakeSeenOrphan ∧ ¬ n.StakesKept primitives := by
  have hfed : ((feed start blocks).toOption.map fun n => (n.hashBestChain,
      n.mapOrphanBlocks.lookup (blockO14.getHash primitives),
      decide (blockO14.getProofOfStake ∈ n.setStakeSeenOrphan))) =
      some (hashS14, some blockO14, false) := by decide +kernel
  obtain ⟨n, hn, heq⟩ := Option.map_eq_some_iff.mp hfed
  obtain ⟨htip, heq⟩ := Prod.mk.inj heq
  obtain ⟨horphan, hstake⟩ := Prod.mk.inj heq
  obtain ⟨calls, hrun⟩ := run.feed (ok_of_toOption hn)
  have hpos : blockO14.isProofOfStake = true := by decide
  have hgone := of_decide_eq_false hstake
  exact ⟨calls, n, hrun, htip, horphan, hpos, hgone,
    fun hkept => hgone ((hkept _).mpr ⟨blockO14, horphan, hpos, rfl⟩)⟩

/-- One orphan alone. -/
theorem orphanBooks_kept_blockX13 : ∃ calls n,
    BlockRun primitives kernelHashes checkpointKey calls n ∧ n.IsOrphan primitives blockX13 ∧
      n.MapsAgree primitives ∧ n.StakesKept primitives := by
  have hfed : ((start.processBlock primitives kernelHashes checkpointKey true blockX13).toOption.map
      fun n => n.mapOrphanBlocks.lookup (blockX13.getHash primitives)) = some (some blockX13) := by
    decide
  obtain ⟨n, hn, horphan⟩ := Option.map_eq_some_iff.mp hfed
  have hrun := run.process true blockX13 (Or.inl (ok_of_toOption hn))
  obtain ⟨hmaps, hstakes⟩ := orphanBooks_kept hrun
  refine ⟨_, n, hrun, horphan, hmaps, hstakes fun c hc => ?_⟩
  rw [List.mem_singleton.mp hc]
  intro b b' _ hb'
  cases hb'

end Staking
end Silkcoin
