/-
  A FAILED `SetBestChain`, and what it leaves behind.

  The database is written in one transaction, and a failure aborts it; the tip, the links and the
  memory pool are only changed after the commit.  So for these a failed switch is no switch at all
  (`Untouched`), wherever on either branch it fails.

  The WALLETS are told at once.  `DisconnectBlock` and `ConnectBlock` end by calling
  `SyncWithWallets` for every transaction of their block, and nothing takes that back when a later
  block of the branch fails.  What the wallets have been told by then is `failNotices`: the blocks
  taken off so far, then the blocks put on so far.  Which blocks these are does not depend on the
  wallets, and is read off a switch of the same node without any.

  `setBestChain_false_unchanged_iff`: a failed switch changes nothing if and ONLY if these notices
  leave every wallet as it was.
-/
import Silkcoin.WalletNotices
import Silkcoin.TipAgreement

namespace Silkcoin

open Validation BatchStore

/-! ## All wallets, one after the other -/

theorem syncAll_ok {f : CWallet → Check CWallet} {ws : List CWallet} (h : (syncAll f ws).2 = .ok ()) :
    List.Forall₂ (fun w w' => f w = .ok w') ws (syncAll f ws).1 := by
  induction ws with
  | nil => exact .nil
  | cons w ws ih =>
    unfold syncAll at h ⊢
    cases hw : f w with
    | error e =>
      rw [hw] at h
      cases h
    | ok w' =>
      rw [hw] at h
      exact .cons hw (ih h)

/-- The elements a loop gets through before it stops. -/
def passed {σ α ε : Type} (step : σ → α → Except ε σ) : σ → List α → List α
  | _, [] => []
  | s, a :: l =>
    match step s a with
    | .error _ => []
    | .ok s' => a :: passed step s' l

namespace NodeState

variable {P : Primitives} {s s' s₁ s₂ t : NodeState} {ns ms : List Notice}

/-- Every wallet has been told `ns`; the block tree and the clock are the same. -/
structure Informed (P : Primitives) (s : NodeState) (ns : List Notice) (s' : NodeState) : Prop where
  same : SameTree s s'
  nAdjustedTime : s'.nAdjustedTime = s.nAdjustedTime
  told : List.Forall₂ (fun w w' =>
    ns.foldlM (CWallet.sync P s.tree.mapBlockIndex s.nAdjustedTime) w = .ok w') s.wallets s'.wallets

theorem Informed.refl (hsame : SameTree s s') (htime : s'.nAdjustedTime = s.nAdjustedTime)
    (hwallets : s'.wallets = s.wallets) : Informed P s [] s' := by
  refine ⟨hsame, htime, ?_⟩
  rw [hwallets]
  exact List.forall₂_same.mpr fun w _ => rfl

theorem Informed.trans (h₁ : Informed P s ns s₁) (h₂ : Informed P s₁ ms s₂) :
    Informed P s (ns ++ ms) s₂ := by
  refine ⟨h₁.same.trans h₂.same, h₂.nAdjustedTime.trans h₁.nAdjustedTime, ?_⟩
  have htold := h₂.told
  rw [h₁.same.tree, h₁.nAdjustedTime] at htold
  have hcomp : ∀ {ws ws₁ ws₂ : List CWallet} {f g : CWallet → Check CWallet},
      List.Forall₂ (fun w w' => f w = .ok w') ws ws₁ →
      List.Forall₂ (fun w w' => g w = .ok w') ws₁ ws₂ →
      List.Forall₂ (fun w w' => (f w >>= g) = .ok w') ws ws₂ := by
    intro ws ws₁ ws₂ f g hf
    induction hf generalizing ws₂ with
    | nil =>
      rintro ⟨⟩
      exact .nil
    | cons hw _ ih =>
      rintro (_ | ⟨hw', hrest⟩)
      exact .cons (by rw [hw]; exact hw') (ih hrest)
  simpa only [List.foldlM_append] using hcomp h₁.told htold

theorem Informed.start (h : Informed P s₁ ns s') (hsame : SameTree s s₁)
    (htime : s₁.nAdjustedTime = s.nAdjustedTime) (hwallets : s₁.wallets = s.wallets) :
    Informed P s ns s' :=
  (Informed.refl hsame htime hwallets).trans h

/-- The same node without wallets. -/
def mute (s : NodeState) : NodeState := { s with wallets := [] }

theorem syncNotices_mute (ns : List Notice) (s : NodeState) :
    ns.foldlM (syncWithWallets P) s.mute = .ok s.mute := by
  induction ns with
  | nil => rfl
  | cons n ns ih =>
    rw [List.foldlM_cons]
    exact ih

theorem syncNotices_informed (h : ns.foldlM (syncWithWallets P) s = .ok s') :
    Informed P s ns s' := by
  induction ns generalizing s with
  | nil =>
    cases h
    exact Informed.refl (SameTree.refl _) rfl rfl
  | cons n ns ih =>
    rw [List.foldlM_cons, bind_ok] at h
    obtain ⟨s₁, hstep, hrest⟩ := h
    have hone : Informed P s [n] s₁ := by
      unfold syncWithWallets at hstep
      dsimp only at hstep
      split at hstep
      · rename_i hall
        cases hstep
        refine ⟨⟨rfl, rfl, rfl, rfl⟩, rfl, (syncAll_ok hall).imp fun w w' hw => ?_⟩
        rw [List.foldlM_cons, hw]
        rfl
      · cases hstep
    exact hone.trans (ih hrest)

/-- A block connected: the wallets know, and without wallets it is the same. -/
theorem connectBlock_informed {pindex : CBlockIndex} {pprev : BlockPtr} {b : CBlock}
    (h : s.connectBlock P pindex pprev b = .ok s') : Informed P s b.connectedNotices s' ∧
      s.mute.connectBlock P pindex pprev b = .ok s'.mute := by
  unfold connectBlock at h
  simp only [bind_ok, orFail_ok] at h
  obtain ⟨r, hr, h⟩ := h
  have hinf := syncNotices_informed h
  obtain ⟨wallets, rfl⟩ := syncNotices_wallets h
  refine ⟨hinf.start ⟨rfl, rfl, rfl, rfl⟩ rfl rfl, ?_⟩
  unfold connectBlock
  rw [show CBlock.connectBlock P s.mute.globals s.mute.mem s.mute.txdb pindex pprev b false = .ok r
    from hr]
  exact syncNotices_mute _ { s with txdb := r.txdb, mem := r.mem }

theorem connectBlock_mute_false {pindex : CBlockIndex} {pprev : BlockPtr} {b : CBlock} {nDoS : Nat}
    {msg : String} (h : s.connectBlock P pindex pprev b = .error ⟨.reject nDoS msg, s'⟩) :
    ∃ e, s.mute.connectBlock P pindex pprev b = .error e := by
  obtain ⟨-, hnot⟩ := connectBlock_false h
  unfold connectBlock
  cases hr : CBlock.connectBlock P s.mute.globals s.mute.mem s.mute.txdb pindex pprev b false with
  | ok r => exact absurd ⟨r, hr⟩ hnot
  | error e => exact ⟨_, rfl⟩

theorem disconnectBlock_mute_false {pprev : BlockPtr} {b : CBlock} {nDoS : Nat} {msg : String}
    (h : s.disconnectBlock P pprev b = .error ⟨.reject nDoS msg, s'⟩) :
    ∃ e, s.mute.disconnectBlock P pprev b = .error e := by
  unfold disconnectBlock at h ⊢
  rcases bind_error.mp h with h | ⟨txdb, -, hsync⟩
  · obtain ⟨e, hfail, -⟩ := orFail_error.mp h
    rw [show CBlock.disconnectBlock P s.mute.mem s.mute.txdb pprev b = .error e from hfail]
    exact ⟨_, rfl⟩
  · obtain ⟨what, hwhat⟩ := syncNotices_error hsync
    cases hwhat

/-! ## One block off the tip, or on top -/

/-- The notices of the block at `ptr`. -/
def tipNotices (P : Primitives) (notices : CBlock → List Notice) (s : NodeState) (ptr : BlockPtr) :
    List Notice :=
  ((ptr.head?.bind (readFromDisk P s.globals)).map notices).getD []

theorem SameTree.tipNotices (h : SameTree s s') (notices : CBlock → List Notice) :
    tipNotices P notices s' = tipNotices P notices s := by
  funext ptr
  unfold NodeState.tipNotices
  rw [h.readFromDisk]

/-- The body of one of the two loops of `Reorganize`.  Where it goes on, the wallets have been told of
    the block; where it stops, nothing has changed; and both happen with and without wallets. -/
structure TipStep (P : Primitives) (notices : CBlock → List Notice)
    (step : NodeState × List CTransaction → BlockPtr → Except Stopped (NodeState × List CTransaction)) :
    Prop where
  ok : ∀ {s acc ptr r}, step (s, acc) ptr = .ok r →
    Informed P s (tipNotices P notices s ptr) r.1 ∧ (∀ s₀, InTxn s₀ s → InTxn s₀ r.1) ∧
      step (s.mute, acc) ptr = .ok (r.1.mute, r.2)
  stopped : ∀ {s acc ptr nDoS msg s'}, step (s, acc) ptr = .error ⟨.reject nDoS msg, s'⟩ →
    s' = s ∧ ∃ e, step (s.mute, acc) ptr = .error e

theorem disconnectTip_step : TipStep P CBlock.disconnectedNotices (disconnectTip P) := by
  constructor
  · intro s acc ptr r h
    cases ptr with
    | nil => cases h
    | cons pindex pprev =>
      unfold disconnectTip at h ⊢
      unfold tipNotices
      dsimp only [List.head?_cons, Option.bind_some] at h ⊢
      cases hread : readFromDisk P s.globals pindex with
      | none =>
        rw [hread] at h
        cases h
      | some b =>
        rw [hread] at h
        rw [show readFromDisk P s.mute.globals pindex = some b from hread]
        simp only [bind_ok, onFalse_ok, pure_ok] at h
        obtain ⟨s₁, hs₁, rfl⟩ := h
        refine ⟨?_, fun s₀ h₀ => h₀.disconnectBlock hs₁, ?_⟩
        · unfold disconnectBlock at hs₁
          simp only [bind_ok, orFail_ok] at hs₁
          obtain ⟨txdb, -, hs₁⟩ := hs₁
          have hinf := syncNotices_informed hs₁
          exact hinf.start ⟨rfl, rfl, rfl, rfl⟩ rfl rfl
        · obtain ⟨txdb, wallets, hr, rfl⟩ := disconnectBlock_ok hs₁
          have hmute : s.mute.disconnectBlock P pprev b =
              .ok { s with txdb := txdb, wallets := [] } := by
            unfold disconnectBlock
            rw [show CBlock.disconnectBlock P s.mute.mem s.mute.txdb pprev b = .ok txdb from hr]
            exact syncNotices_mute _ { s with txdb := txdb }
          dsimp only
          rw [hmute]
          rfl
  · intro s acc ptr nDoS msg s' h
    cases ptr with
    | nil => cases h
    | cons pindex pprev =>
      unfold disconnectTip at h ⊢
      dsimp only at h ⊢
      cases hread : readFromDisk P s.globals pindex with
      | none =>
        rw [hread] at h
        rw [show readFromDisk P s.mute.globals pindex = none from hread]
        cases h
        exact ⟨rfl, _, rfl⟩
      | some b =>
        rw [hread] at h
        rw [show readFromDisk P s.mute.globals pindex = some b from hread]
        rcases bind_error.mp h with h | ⟨_, -, h⟩
        · rcases onFalse_false h with ⟨n, m, u, hfalse, he⟩ | ⟨what, he⟩
          · obtain rfl := disconnectBlock_false hfalse
            cases he
            refine ⟨rfl, ?_⟩
            obtain ⟨e, hmute⟩ := disconnectBlock_mute_false hfalse
            dsimp only
            rw [hmute]
            obtain ⟨why, u⟩ := e
            cases why <;> exact ⟨_, rfl⟩
          · cases he
        · cases h

theorem connectTip_step : TipStep P CBlock.connectedNotices (connectTip P) := by
  constructor
  · intro s acc ptr r h
    cases ptr with
    | nil => cases h
    | cons pindex pprev =>
      unfold connectTip at h ⊢
      unfold tipNotices
      dsimp only [List.head?_cons, Option.bind_some] at h ⊢
      cases hread : readFromDisk P s.globals pindex with
      | none =>
        rw [hread] at h
        cases h
      | some b =>
        rw [hread] at h
        rw [show readFromDisk P s.mute.globals pindex = some b from hread]
        simp only [bind_ok, onFalse_ok, pure_ok] at h
        obtain ⟨s₁, hs₁, rfl⟩ := h
        obtain ⟨hinf, hmute⟩ := connectBlock_informed hs₁
        refine ⟨hinf, fun s₀ h₀ => h₀.connectBlock hs₁, ?_⟩
        dsimp only
        rw [hmute]
        rfl
  · intro s acc ptr nDoS msg s' h
    cases ptr with
    | nil => cases h
    | cons pindex pprev =>
      unfold connectTip at h ⊢
      dsimp only at h ⊢
      cases hread : readFromDisk P s.globals pindex with
      | none =>
        rw [hread] at h
        rw [show readFromDisk P s.mute.globals pindex = none from hread]
        cases h
        exact ⟨rfl, _, rfl⟩
      | some b =>
        rw [hread] at h
        rw [show readFromDisk P s.mute.globals pindex = some b from hread]
        rcases bind_error.mp h with h | ⟨_, -, h⟩
        · rcases onFalse_false h with ⟨n, m, u, hfalse, he⟩ | ⟨what, he⟩
          · obtain ⟨rfl, -⟩ := connectBlock_false hfalse
            cases he
            obtain ⟨e, hmute⟩ := connectBlock_mute_false hfalse
            refine ⟨rfl, ?_⟩
            dsimp only
            rw [hmute]
            obtain ⟨why, u⟩ := e
            cases why <;> exact ⟨_, rfl⟩
          · cases he
        · cases h

/-! ## A loop over the blocks -/

section Loop

variable {notices : CBlock → List Notice}
  {step : NodeState × List CTransaction → BlockPtr → Except Stopped (NodeState × List CTransaction)}

/-- A loop that gets to its end. -/
theorem TipStep.loop_ok (hstep : TipStep P notices step) {l : List BlockPtr}
    {acc : List CTransaction} {r : NodeState × List CTransaction}
    (h : l.foldlM step (s, acc) = .ok r) :
    Informed P s (l.flatMap (tipNotices P notices s)) r.1 ∧ (∀ s₀, InTxn s₀ s → InTxn s₀ r.1) ∧
      passed step (s.mute, acc) l = l ∧ l.foldlM step (s.mute, acc) = .ok (r.1.mute, r.2) := by
  induction l generalizing s acc with
  | nil =>
    cases h
    exact ⟨Informed.refl (SameTree.refl _) rfl rfl, fun _ h => h, rfl, rfl⟩
  | cons ptr l ih =>
    rw [List.foldlM_cons, bind_ok] at h
    obtain ⟨⟨s₁, acc₁⟩, hfirst, hrest⟩ := h
    obtain ⟨hinf, htxn, hmute⟩ := hstep.ok hfirst
    obtain ⟨hinf', htxn', hpassed, hmute'⟩ := ih hrest
    rw [hinf.same.tipNotices] at hinf'
    refine ⟨?_, fun s₀ h => htxn' s₀ (htxn s₀ h), ?_, ?_⟩
    · rw [List.flatMap_cons]
      exact hinf.trans hinf'
    · unfold passed
      rw [hmute]
      exact congrArg (ptr :: ·) hpassed
    · rw [List.foldlM_cons, hmute]
      exact hmute'

/-- A loop that stops: the wallets know of the blocks it got through. -/
theorem TipStep.loop_stopped (hstep : TipStep P notices step) {l : List BlockPtr}
    {acc : List CTransaction} {nDoS : Nat} {msg : String}
    (h : l.foldlM step (s, acc) = .error ⟨.reject nDoS msg, s'⟩) :
    Informed P s ((passed step (s.mute, acc) l).flatMap (tipNotices P notices s)) s' ∧
      (∀ s₀, InTxn s₀ s → InTxn s₀ s') ∧ ∃ e, l.foldlM step (s.mute, acc) = .error e := by
  induction l generalizing s acc with
  | nil => cases h
  | cons ptr l ih =>
    rw [List.foldlM_cons] at h
    unfold passed
    rw [List.foldlM_cons]
    rcases bind_error.mp h with hfirst | ⟨⟨s₁, acc₁⟩, hfirst, hrest⟩
    · obtain ⟨rfl, e, hmute⟩ := hstep.stopped hfirst
      rw [hmute]
      exact ⟨Informed.refl (SameTree.refl _) rfl rfl, fun _ h => h, e, rfl⟩
    · obtain ⟨hinf, htxn, hmute⟩ := hstep.ok hfirst
      obtain ⟨hinf', htxn', hmute'⟩ := ih hrest
      rw [hinf.same.tipNotices] at hinf'
      rw [hmute]
      refine ⟨?_, fun s₀ h => htxn' s₀ (htxn s₀ h), hmute'⟩
      dsimp only
      rw [List.flatMap_cons]
      exact hinf.trans hinf'

end Loop

/-! ## What a failed switch has told the wallets -/

/-- The notices of `replaceBranch` up to where it fails. -/
def replaceNotices (P : Primitives) (s : NodeState) (vDisconnect vConnect : List BlockPtr) :
    List Notice :=
  (passed (disconnectTip P) (s, []) vDisconnect).flatMap
      (tipNotices P CBlock.disconnectedNotices s) ++
    match vDisconnect.foldlM (disconnectTip P) (s, []) with
    | .error _ => []
    | .ok r => (passed (connectTip P) (r.1, []) vConnect).flatMap
        (tipNotices P CBlock.connectedNotices s)

/-- The notices of a failed `SetBestChain`: of the blocks a switch without wallets gets through. -/
def failNotices (P : Primitives) (node : NodeState) (pindexNew : BlockPtr) (b : CBlock) :
    List Notice :=
  let s : NodeState := { node with wallets := [], txdb := node.txdb.txnBegin }
  if s.pindexGenesisBlock = [] ∧
      b.getHash P = (if s.fTestNet then hashGenesisBlockTestNet else hashGenesisBlock) then []
  else if b.hashPrevBlock = s.hashBestChain then
    match pindexNew with
    | pindex :: prev :: rest =>
      match s.connectBlock P pindex (prev :: rest) b with
      | .ok _ => b.connectedNotices
      | .error _ => []
    | _ => []
  else
    let new := (intermediate (chainTrust s.pindexBest) pindexNew).1
    match findFork s.pindexBest new with
    | .error _ => []
    | .ok pfork => replaceNotices P s (pathTo pfork s.pindexBest) (pathTo pfork new).reverse

/-- Aborting tells the wallets nothing. -/
theorem abort_informed (P : Primitives) (t : NodeState) (pindexNew : BlockPtr) :
    Informed P t [] (t.txnAbort.invalidChainFound pindexNew) := by
  unfold invalidChainFound
  split <;> exact Informed.refl ⟨rfl, rfl, rfl, rfl⟩ rfl rfl

/-- After an abort everything is as it was, whether the transaction was open or the store had refused
    it. -/
theorem abort_untouched (h : InTxn s t ∨ Untouched s t) (pindexNew : BlockPtr) :
    Untouched s (t.txnAbort.invalidChainFound pindexNew) := by
  rcases h with h | h
  · exact (h.abort pindexNew).1
  · unfold invalidChainFound
    split
    · refine ⟨fun key hkey => ?_, rfl, h.pindexGenesisBlock, h.hashBestChain, h.pindexBest,
        h.nBestHeight, h.nBestChainTrust, h.links, h.mempool⟩
      show (t.txdb.disk.insert _ _).lookup key = _
      rw [lookup_insert_eq_ite, if_neg (fun heq => hkey heq.symm)]
      exact h.disk key hkey
    · exact ⟨h.disk, rfl, h.pindexGenesisBlock, h.hashBestChain, h.pindexBest, h.nBestHeight,
        h.nBestChainTrust, h.links, h.mempool⟩

/-- Nor does a commit the store refuses. -/
theorem commit_informed {hash : Uint256} {e : Failure} {stop : Stopped}
    (h : txnCommit { s with txdb := s.txdb.writeHashBestChain hash } e = .error stop) :
    Informed P s [] stop.state := by
  unfold txnCommit at h
  dsimp only at h
  split at h
  · cases h
  · cases h
    exact Informed.refl ⟨rfl, rfl, rfl, rfl⟩ rfl rfl

/-! ## A failed switch -/

/-- **`replaceBranch`**, where it fails. -/
theorem replaceBranch_false {s₀ : NodeState} (hin : InTxn s₀ s) {vDisconnect vConnect : List BlockPtr}
    {hash : Uint256} {nDoS : Nat} {msg : String}
    (h : s.replaceBranch P vDisconnect vConnect hash = .error ⟨.reject nDoS msg, s'⟩) :
    Informed P s (replaceNotices P s.mute vDisconnect vConnect) s' ∧
      (InTxn s₀ s' ∨ Untouched s₀ s') := by
  unfold replaceBranch at h
  unfold replaceNotices
  rw [show tipNotices P CBlock.disconnectedNotices s.mute = tipNotices P CBlock.disconnectedNotices s
    from rfl, show tipNotices P CBlock.connectedNotices s.mute =
      tipNotices P CBlock.connectedNotices s from rfl]
  rcases bind_error.mp h with h | ⟨r, hoff, h⟩
  · -- a block of the tip's branch does not come off
    obtain ⟨hinf, htxn, e, hmute⟩ := disconnectTip_step.loop_stopped h
    rw [hmute, List.append_nil]
    exact ⟨hinf, Or.inl (htxn s₀ hin)⟩
  · obtain ⟨hinf, htxn, hpassed, hmute⟩ := disconnectTip_step.loop_ok hoff
    rw [hmute, hpassed]
    dsimp only
    rcases bind_error.mp h with h | ⟨r', hon, h⟩
    · -- a block of the new branch does not connect
      obtain ⟨hinf', htxn', -⟩ := connectTip_step.loop_stopped h
      rw [hinf.same.tipNotices] at hinf'
      exact ⟨hinf.trans hinf', Or.inl (htxn' s₀ (htxn s₀ hin))⟩
    · obtain ⟨hinf', htxn', hpassed', -⟩ := connectTip_step.loop_ok hon
      rw [hinf.same.tipNotices] at hinf'
      rw [hpassed']
      rcases bind_error.mp h with h | ⟨s₁, -, h⟩
      · -- the store does not take the switch
        obtain ⟨hu, -, -⟩ := (htxn' s₀ (htxn s₀ hin)).commit_false h
        have hend := (hinf.trans hinf').trans (commit_informed h)
        rw [List.append_nil] at hend
        exact ⟨hend, Or.inr hu⟩
      · cases h

/-- **`Reorganize`**, where it fails, with the cleanup of `SetBestChain`. -/
theorem reorganize_false {s₀ : NodeState} (hin : InTxn s₀ s) {new : BlockPtr} {nDoS : Nat}
    {msg : String} (h : s.reorganize P new = .error ⟨.reject nDoS msg, s'⟩) (pindexNew : BlockPtr) :
    Untouched s₀ (s'.txnAbort.invalidChainFound pindexNew) ∧
      Informed P s (match findFork s.pindexBest new with
        | .error _ => []
        | .ok pfork =>
          replaceNotices P s.mute (pathTo pfork s.pindexBest) (pathTo pfork new).reverse)
        (s'.txnAbort.invalidChainFound pindexNew) := by
  unfold reorganize at h
  rcases bind_error.mp h with hfail | ⟨pfork, hfork, h⟩
  · obtain ⟨e, hfork, he⟩ := orFail_error.mp hfail
    cases he
    rw [hfork]
    exact ⟨abort_untouched (Or.inl hin) pindexNew, abort_informed P s pindexNew⟩
  · rw [orFail_ok] at hfork
    rw [hfork]
    obtain ⟨hinf, hcase⟩ := replaceBranch_false hin h
    have hend := hinf.trans (abort_informed P s' pindexNew)
    rw [List.append_nil] at hend
    exact ⟨abort_untouched hcase pindexNew, hend⟩

/-- **`SetBestChainInner`**, where it fails. -/
theorem setBestChainInner_informed {s₀ : NodeState} (hin : InTxn s₀ s) {pindex prev : CBlockIndex}
    {rest : BlockPtr} {b : CBlock} {nDoS : Nat} {msg : String}
    (h : s.setBestChainInner P (pindex :: prev :: rest) b = .error ⟨.reject nDoS msg, s'⟩) :
    Untouched s₀ s' ∧ Informed P s (match s.mute.connectBlock P pindex (prev :: rest) b with
      | .ok _ => b.connectedNotices
      | .error _ => []) s' := by
  unfold setBestChainInner at h
  dsimp only at h
  rcases bind_error.mp h with h | ⟨s₁, hconnect, h⟩
  · -- the block does not connect, and the wallets do not hear of it
    rcases onFalse_false h with ⟨n, m, s₁, hfalse, he⟩ | ⟨what, he⟩
    · obtain ⟨rfl, -⟩ := connectBlock_false hfalse
      obtain ⟨e, hmute⟩ := connectBlock_mute_false hfalse
      cases he
      rw [hmute]
      exact ⟨abort_untouched (Or.inl hin) _, abort_informed P s₁ _⟩
    · cases he
  · -- it connects, but the store does not take it
    rw [onFalse_ok] at hconnect
    obtain ⟨hinf, hmute⟩ := connectBlock_informed hconnect
    rcases bind_error.mp h with h | ⟨s₂, -, h⟩
    · obtain ⟨hu, -, -⟩ := (hin.connectBlock hconnect).commit_false h
      have hend := hinf.trans (commit_informed h)
      rw [List.append_nil] at hend
      rw [hmute]
      exact ⟨hu, hend⟩
    · cases h

theorem connectFurther_not_false {l : List BlockPtr} {nDoS : Nat} {msg : String} :
    connectFurther P s l ≠ .error ⟨.reject nDoS msg, s'⟩ := by
  induction l generalizing s with
  | nil =>
    intro h
    cases h
  | cons ptr l ih =>
    intro h
    unfold connectFurther at h
    split at h
    · exact ih h
    · cases h
    · cases h

/-- **`SetBestChain`, where it fails**: the wallets have been told of the blocks before the one that
    stopped it, and everything else is as it was. -/
theorem setBestChain_false {pindexNew : BlockPtr} {b : CBlock} {nDoS : Nat} {msg : String}
    (h : s.setBestChain P pindexNew b = .error ⟨.reject nDoS msg, s'⟩) :
    Untouched s s' ∧ Informed P s (s.failNotices P pindexNew b) s' := by
  unfold setBestChain at h
  rcases bind_error.mp h with h | ⟨s₁, -, h⟩
  swap
  · cases h
  unfold moveChain at h
  rcases bind_error.mp h with h | ⟨s₀, hbegin, h⟩
  · unfold txnBegin at h
    split at h <;> cases h
  have hin := InTxn.begin hbegin
  obtain ⟨hclosed, hs₀⟩ := txnBegin_ok hbegin
  suffices hinner : Untouched s s' ∧ Informed P s₀ (s.failNotices P pindexNew b) s' by
    refine ⟨hinner.1, hinner.2.start hin.same ?_ ?_⟩
    · rw [hs₀]
    · rw [hs₀]
  have hmute : ({ s with wallets := [], txdb := s.txdb.txnBegin } : NodeState) = s₀.mute := by
    rw [hs₀]; rfl
  unfold failNotices
  rw [hmute]
  by_cases hgenesis : s₀.pindexGenesisBlock = [] ∧
      b.getHash P = (if s₀.fTestNet then hashGenesisBlockTestNet else hashGenesisBlock)
  · rw [if_pos hgenesis] at h
    dsimp only
    rw [if_pos (show s₀.mute.pindexGenesisBlock = [] ∧ b.getHash P =
      (if s₀.mute.fTestNet then hashGenesisBlockTestNet else hashGenesisBlock) from hgenesis)]
    rcases bind_error.mp h with h | ⟨s₁, -, h⟩
    · exact ⟨(hin.commit_false h).1, commit_informed h⟩
    · cases h
  · rw [if_neg hgenesis] at h
    dsimp only
    rw [if_neg (show ¬ (s₀.mute.pindexGenesisBlock = [] ∧ b.getHash P =
      (if s₀.mute.fTestNet then hashGenesisBlockTestNet else hashGenesisBlock)) from hgenesis)]
    split at h
    · -- on top of the tip
      rename_i hprev
      rw [if_pos (show b.hashPrevBlock = s₀.mute.hashBestChain from hprev)]
      rcases onFalse_false h with ⟨n, m, s₁, hfalse, he⟩ | ⟨what, he⟩
      · cases he
        cases pindexNew with
        | nil => cases hfalse
        | cons pindex rest =>
          cases rest with
          | nil => cases hfalse
          | cons prev rest => exact setBestChainInner_informed hin hfalse
      · cases he
    · -- a reorganisation
      rename_i hprev
      rw [if_neg (show ¬ b.hashPrevBlock = s₀.mute.hashBestChain from hprev)]
      unfold switchBranch at h
      split at h
      · cases h
      · rename_i best below hbest
        have htrust : chainTrust s₀.mute.pindexBest = best.nChainTrust := by
          rw [show s₀.mute.pindexBest = best :: below from hbest]; rfl
        rw [htrust]
        rcases bind_error.mp h with h | ⟨s₁, -, h⟩
        · rcases onFalse_false h with ⟨n, m, s₁, hfalse, he⟩ | ⟨what, he⟩
          · cases he
            exact reorganize_false hin hfalse pindexNew
          · cases he
        · exact absurd h connectFurther_not_false

/-- Nothing has changed: neither the database and what is published, nor any wallet. -/
structure Unchanged (s s' : NodeState) : Prop extends Untouched s s' where
  wallets : List.Forall₂ (fun w w' => ∀ hash, w'.mapWallet.lookup hash = w.mapWallet.lookup hash)
    s.wallets s'.wallets

theorem told_unchanged_iff {m : StdMap Uint256 BlockPtr} {time : Int} {ws ws' : List CWallet}
    (hk : ∀ w ∈ ws, w.Keyed P)
    (h : List.Forall₂ (fun w w' => ns.foldlM (CWallet.sync P m time) w = .ok w') ws ws') :
    List.Forall₂ (fun w w' => ∀ hash, w'.mapWallet.lookup hash = w.mapWallet.lookup hash) ws ws' ↔
      ∀ w ∈ ws, w.Undisturbed P ns := by
  induction h with
  | nil => exact iff_of_true .nil fun _ hw => absurd hw List.not_mem_nil
  | cons hw _ ih =>
    rw [List.forall₂_cons, List.forall_mem_cons, ih fun w hw => hk w (List.mem_cons_of_mem _ hw),
      CWallet.syncNotices_unchanged (hk _ List.mem_cons_self) hw]

/-- **Atomicity.**  A failed `SetBestChain` changes nothing if and only if no wallet is disturbed by
    what it was told before the failure. -/
theorem setBestChain_false_unchanged_iff (hk : ∀ w ∈ s.wallets, w.Keyed P) {pindexNew : BlockPtr}
    {b : CBlock} {nDoS : Nat} {msg : String}
    (h : s.setBestChain P pindexNew b = .error ⟨.reject nDoS msg, s'⟩) :
    Unchanged s s' ↔ ∀ w ∈ s.wallets, w.Undisturbed P (s.failNotices P pindexNew b) := by
  obtain ⟨hu, hinf⟩ := setBestChain_false h
  rw [← told_unchanged_iff hk hinf.told]
  exact ⟨fun hall => hall.wallets, fun hw => ⟨hu, hw⟩⟩

end NodeState

/-! ## A switch that fails above a block the wallet knows nothing of -/

namespace FailedSwitching

open Sample

/-- The coinbase of the block that fails: one coin too much. -/
def coinBaseX2 : CTransaction := coinBaseTx 1398947458 [0x52, 0x58] (2000001 * COIN)

def blockX2 : CBlock :=
  workBlock hashB1 0xcdc070a5897dd81c9d24d4226fcdc74a28d9f42371cd0e22016e6469d0da5d11 736481 coinBaseX2

def hashX2 : Uint256 := 0x00000c68edd964fbea16755cea98c0cd11d44b39140f51cde44f8157aeefd0e2

def indexX2 : CBlockIndex := entryOn indexB1 900 hashX2 blockX2

def ptrX2 : BlockPtr := [indexX2, indexB1, genesis]

def blocks : Chain :=
  [⟨indexX2, blockX2⟩, ⟨indexB1, blockB1⟩, ⟨Switching.indexA1, Switching.blockA1⟩]

def primitives : Primitives := Primitives.ofTables
  [(Switching.coinBaseA1, Switching.blockA1.hashMerkleRoot), (coinBaseB1, blockB1.hashMerkleRoot),
    (coinBaseX2, blockX2.hashMerkleRoot)]
  [(Switching.blockA1.toCBlockHeader, Switching.hashA1), (blockB1.toCBlockHeader, hashB1),
    (blockX2.toCBlockHeader, hashX2)] []

/-- An empty wallet with the key of every output. -/
def wallet : CWallet := ⟨fun _ => true, 0, ∅, 0, []⟩

/-- The node with the tip `A1`, and the branch `B1`, `X2` on disk. -/
def node : NodeState :=
  { Switching.node with
    files := filesOf blocks
    tree := { Switching.tree with
      mapBlockIndex := [ptrX2, ptrX2.tail, [genesis], Switching.ptrA1].foldr (fun ptr m => m.insert
        ((ptr.head?.map CBlockIndex.hashBlock).getD 0) ptr) ∅ }
    wallets := [wallet] }

/-- The state a routine stops in, and why. -/
def stopped (x : Except Stopped NodeState) : Option Failure × NodeState :=
  match x with
  | .ok s => (none, s)
  | .error e => (some e.why, e.state)

theorem eq_error {x : Except Stopped NodeState} {why : Failure} (h : (stopped x).1 = some why) :
    x = .error ⟨why, (stopped x).2⟩ := by
  cases x with
  | ok s => cases h
  | error e =>
    obtain rfl := Option.some.inj h
    rfl

def after : NodeState := (stopped (node.setBestChain primitives ptrX2 blockX2)).2

theorem setBestChain_error : node.setBestChain primitives ptrX2 blockX2 =
    .error ⟨.reject 0 "SetBestChain() : Reorganize failed", after⟩ := eq_error (by decide)

/-- `SetBestChain` returns false, and the wallet keeps the coinbase of `B1`. -/
theorem setBestChain_blockX2 : node.setBestChain primitives ptrX2 blockX2 =
      .error ⟨.reject 0 "SetBestChain() : Reorganize failed", after⟩ ∧
    after.pindexBest = Switching.ptrA1 ∧
    (node.wallets.map fun w => (w.mapWallet.lookup blockB1.hashMerkleRoot).isSome) = [false] ∧
    (after.wallets.map fun w => (w.mapWallet.lookup blockB1.hashMerkleRoot).map CWalletTx.hashBlock) =
      [some hashB1] ∧
    ¬ NodeState.Unchanged node after := by
  have hbefore : (node.wallets.map fun w =>
      (w.mapWallet.lookup blockB1.hashMerkleRoot).isSome) = [false] := by decide
  have hafter : (after.wallets.map fun w =>
      (w.mapWallet.lookup blockB1.hashMerkleRoot).map CWalletTx.hashBlock) = [some hashB1] := by
    decide
  refine ⟨setBestChain_error, by decide, hbefore, hafter, fun h => ?_⟩
  have hwallets := h.wallets
  rw [show node.wallets = [wallet] from rfl, List.forall₂_cons_left_iff] at hwallets
  obtain ⟨w, rest, hsame, -, hrest⟩ := hwallets
  rw [hrest, List.map_cons, hsame] at hafter
  cases hafter

theorem setBestChain_false_unchanged_iff_blockX2 : NodeState.Unchanged node after ↔
    ∀ w ∈ node.wallets, w.Undisturbed primitives (node.failNotices primitives ptrX2 blockX2) := by
  have hk : ∀ w ∈ node.wallets, w.Keyed primitives := by
    intro w hw
    rw [List.mem_singleton.mp hw]
    rintro hash wtx ⟨⟩
  exact NodeState.setBestChain_false_unchanged_iff hk setBestChain_error

end FailedSwitching
end Silkcoin
