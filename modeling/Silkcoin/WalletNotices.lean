/-
  What a sequence of notices does to a wallet.

  To ONE record a notice is a few writes: of the record's place in the chain, and of single spent
  flags (`RecordOp`).  `opsOn` reads them off the notice, the keys and the transactions of the
  wallet, none of which a notice changes as long as it adds no record; so the record after many
  notices is the record after the log of all their writes (`sync_applies`), and of a log only the
  last write to each part counts (`Settled`).

  `syncNotices_unchanged`: the notices leave the wallet as it was exactly if they add nothing to it
  and every record is `Settled`.
-/
import Silkcoin.Wallet

namespace Silkcoin

open Validation BatchStore

/-! ## Writes to a record -/

/-- A write to a record: of its place in the chain, or of one spent flag. -/
inductive RecordOp where
  | place (hashBlock : Uint256) (vMerkleBranch : List Uint256) (nIndex : Int)
  | flag (fSpent : Bool) (nOut : Nat)

namespace RecordOp

/-- A flag that is set is not set again; clearing one always fills the flags up. -/
def run (wtx : CWalletTx) : RecordOp → CWalletTx
  | place hashBlock vMerkleBranch nIndex => wtx.merge { CWalletTx.ofTx wtx.tx with
      hashBlock := hashBlock, vMerkleBranch := vMerkleBranch, nIndex := nIndex }
  | flag fSpent nOut => if fSpent && wtx.isSpent nOut then wtx else wtx.mark fSpent nOut

def hashWritten : RecordOp → Option Uint256
  | place hashBlock _ _ => if hashBlock ≠ 0 then some hashBlock else none
  | flag _ _ => none

def indexWritten : RecordOp → Option (List Uint256 × Int)
  | place _ vMerkleBranch nIndex => if nIndex ≠ -1 then some (vMerkleBranch, nIndex) else none
  | flag _ _ => none

def flagWritten (n : Nat) : RecordOp → Option Bool
  | place _ _ _ => none
  | flag fSpent nOut => if nOut = n then some fSpent else none

/-- A flag is that of an output the transaction has. -/
def InRange (tx : CTransaction) : RecordOp → Prop
  | place _ _ _ => True
  | flag _ nOut => nOut < tx.vout.length

end RecordOp

/-! ## A record after a log of writes -/

/-- The last write to each part of the record writes what stands there; and if a flag is cleared,
    there is a flag for every output. -/
structure Settled (wtx : CWalletTx) (ops : List RecordOp) : Prop where
  hashBlock : ∀ h ∈ (ops.filterMap RecordOp.hashWritten).getLast?, h = wtx.hashBlock
  index : ∀ x ∈ (ops.filterMap RecordOp.indexWritten).getLast?, x = (wtx.vMerkleBranch, wtx.nIndex)
  flags : ∀ n < wtx.tx.vout.length, ∀ fSpent ∈ (ops.filterMap (RecordOp.flagWritten n)).getLast?,
    fSpent = wtx.isSpent n
  length : (∃ nOut, RecordOp.flag false nOut ∈ ops) → wtx.vfSpent.length = wtx.tx.vout.length

section Record

variable {wtx : CWalletTx}

theorem length_resized : wtx.resized.length = wtx.tx.vout.length := by
  unfold CWalletTx.resized
  rw [List.length_append, List.length_take, List.length_replicate]
  omega

theorem getD_resized {n : Nat} (hn : n < wtx.tx.vout.length) :
    wtx.resized.getD n false = wtx.isSpent n := by
  unfold CWalletTx.resized CWalletTx.isSpent
  simp only [List.getD_eq_getElem?_getD, List.getElem?_append, List.length_take,
    List.getElem?_take_of_lt hn, List.getElem?_replicate]
  split
  · rfl
  · rw [List.getElem?_eq_none (l := wtx.vfSpent) (by omega)]
    split <;> rfl

theorem isSpent_mark {n nOut : Nat} (fSpent : Bool) (hn : n < wtx.tx.vout.length) :
    (wtx.mark fSpent nOut).isSpent n = if nOut = n then fSpent else wtx.isSpent n := by
  show (wtx.resized.set nOut fSpent).getD n false = _
  rw [← getD_resized hn, List.getD_eq_getElem?_getD, List.getElem?_set]
  by_cases h : nOut = n
  · subst h
    rw [if_pos rfl, if_pos rfl, if_pos (by rw [length_resized]; exact hn)]
    rfl
  · rw [if_neg h, if_neg h, ← List.getD_eq_getElem?_getD]

theorem merge_place (hashBlock : Uint256) (vMerkleBranch : List Uint256) (nIndex : Int) :
    RecordOp.run wtx (.place hashBlock vMerkleBranch nIndex) =
      { wtx with
        hashBlock := if hashBlock ≠ 0 then hashBlock else wtx.hashBlock
        vMerkleBranch := if nIndex ≠ -1 then vMerkleBranch else wtx.vMerkleBranch
        nIndex := if nIndex ≠ -1 then nIndex else wtx.nIndex } := by
  have hflags : ∀ l : List Bool, (l.mapIdx fun i fSpent => fSpent || ([] : List Bool).getD i false) = l := by
    intro l
    apply List.ext_getElem?
    intro n
    rw [List.getElem?_mapIdx]
    simp
  unfold RecordOp.run CWalletTx.merge CWalletTx.updateSpent CWalletTx.ofTx
  by_cases hh : hashBlock ≠ 0 <;> by_cases hi : nIndex ≠ -1 <;>
    simp only [hh, hi, if_true, if_false, Bool.false_eq_true, hflags, ne_eq,
      not_false_eq_true]

theorem run_flag (fSpent : Bool) (nOut : Nat) : RecordOp.run wtx (.flag fSpent nOut) =
    if fSpent && wtx.isSpent nOut then wtx else wtx.mark fSpent nOut := rfl

@[simp] theorem run_tx (op : RecordOp) : (op.run wtx).tx = wtx.tx := by
  cases op with
  | place => rw [merge_place]
  | flag fSpent nOut =>
    rw [run_flag]
    split <;> rfl

theorem foldl_run_tx (ops : List RecordOp) : (ops.foldl RecordOp.run wtx).tx = wtx.tx := by
  induction ops generalizing wtx with
  | nil => rfl
  | cons op ops ih => rw [List.foldl_cons, ih, run_tx]

theorem hashBlock_run (op : RecordOp) :
    (op.run wtx).hashBlock = op.hashWritten.getD wtx.hashBlock := by
  cases op with
  | place hashBlock _ _ =>
    rw [merge_place]
    show (if _ then _ else _) = (if _ then _ else _ : Option _).getD _
    split <;> rfl
  | flag fSpent nOut =>
    rw [run_flag]
    split <;> rfl

theorem index_run (op : RecordOp) : ((op.run wtx).vMerkleBranch, (op.run wtx).nIndex) =
    op.indexWritten.getD (wtx.vMerkleBranch, wtx.nIndex) := by
  cases op with
  | place _ _ nIndex =>
    rw [merge_place]
    unfold RecordOp.indexWritten
    dsimp only
    split <;> rfl
  | flag fSpent nOut =>
    rw [run_flag]
    split <;> rfl

theorem isSpent_run {n : Nat} (hn : n < wtx.tx.vout.length) (op : RecordOp) :
    (op.run wtx).isSpent n = (op.flagWritten n).getD (wtx.isSpent n) := by
  cases op with
  | place => rw [merge_place]; rfl
  | flag fSpent nOut =>
    rw [run_flag]
    show _ = (if nOut = n then some fSpent else none).getD _
    by_cases hset : (fSpent && wtx.isSpent nOut) = true
    · rw [if_pos hset]
      rw [Bool.and_eq_true] at hset
      by_cases h : nOut = n
      · subst h
        rw [if_pos rfl, hset.1, hset.2]; rfl
      · rw [if_neg h]; rfl
    · rw [if_neg hset, isSpent_mark _ hn]
      by_cases h : nOut = n
      · rw [if_pos h, if_pos h]; rfl
      · rw [if_neg h, if_neg h]; rfl

/-- The rest of a record no write reaches. -/
theorem rest_run (op : RecordOp) : (op.run wtx).nTimeReceived = wtx.nTimeReceived ∧
    (op.run wtx).nTimeSmart = wtx.nTimeSmart ∧ (op.run wtx).fFromMe = wtx.fFromMe ∧
      (op.run wtx).nOrderPos = wtx.nOrderPos := by
  cases op with
  | place => rw [merge_place]; exact ⟨rfl, rfl, rfl, rfl⟩
  | flag fSpent nOut =>
    rw [run_flag]
    split <;> exact ⟨rfl, rfl, rfl, rfl⟩

theorem foldl_run_rest (ops : List RecordOp) :
    (ops.foldl RecordOp.run wtx).nTimeReceived = wtx.nTimeReceived ∧
      (ops.foldl RecordOp.run wtx).nTimeSmart = wtx.nTimeSmart ∧
      (ops.foldl RecordOp.run wtx).fFromMe = wtx.fFromMe ∧
      (ops.foldl RecordOp.run wtx).nOrderPos = wtx.nOrderPos := by
  induction ops generalizing wtx with
  | nil => exact ⟨rfl, rfl, rfl, rfl⟩
  | cons op ops ih =>
    obtain ⟨h1, h2, h3, h4⟩ := @ih (op.run wtx)
    obtain ⟨k1, k2, k3, k4⟩ := @rest_run wtx op
    exact ⟨h1.trans k1, h2.trans k2, h3.trans k3, h4.trans k4⟩

theorem foldl_run_hashBlock (ops : List RecordOp) : (ops.foldl RecordOp.run wtx).hashBlock =
    ((ops.filterMap RecordOp.hashWritten).getLast?).getD wtx.hashBlock :=
  get_foldl_writes (I := fun _ => True) (fun _ _ _ => trivial) (fun _ op _ => hashBlock_run op)
    ops wtx trivial

theorem foldl_run_index (ops : List RecordOp) :
    ((ops.foldl RecordOp.run wtx).vMerkleBranch, (ops.foldl RecordOp.run wtx).nIndex) =
      ((ops.filterMap RecordOp.indexWritten).getLast?).getD (wtx.vMerkleBranch, wtx.nIndex) :=
  get_foldl_writes (g := fun wtx : CWalletTx => (wtx.vMerkleBranch, wtx.nIndex))
    (I := fun _ => True) (fun _ _ _ => trivial) (fun _ op _ => index_run op) ops wtx trivial

theorem foldl_run_isSpent {n : Nat} (hn : n < wtx.tx.vout.length) (ops : List RecordOp) :
    (ops.foldl RecordOp.run wtx).isSpent n =
      ((ops.filterMap (RecordOp.flagWritten n)).getLast?).getD (wtx.isSpent n) :=
  get_foldl_writes (g := fun wtx : CWalletTx => wtx.isSpent n)
    (I := fun w : CWalletTx => n < w.tx.vout.length) (fun w op hw => by rw [run_tx]; exact hw)
    (fun _ op hw => isSpent_run hw op) ops wtx hn

/-- Once the flags have been filled up they stay so. -/
theorem length_run {op : RecordOp} (h : wtx.vfSpent.length = wtx.tx.vout.length) :
    (op.run wtx).vfSpent.length = (op.run wtx).tx.vout.length := by
  cases op with
  | place => rw [merge_place]; exact h
  | flag fSpent nOut =>
    rw [run_flag]
    split
    · exact h
    · show (wtx.resized.set nOut fSpent).length = _
      rw [List.length_set, length_resized]; rfl

theorem length_foldl_run (ops : List RecordOp)
    (h : wtx.vfSpent.length = wtx.tx.vout.length ∨ ∃ nOut, RecordOp.flag false nOut ∈ ops) :
    (ops.foldl RecordOp.run wtx).vfSpent.length = wtx.tx.vout.length := by
  induction ops generalizing wtx with
  | nil =>
    rcases h with h | ⟨nOut, h⟩
    · exact h
    · cases h
  | cons op ops ih =>
    rw [List.foldl_cons, ← @run_tx wtx op]
    refine ih ?_
    rcases h with h | ⟨nOut, h⟩
    · exact Or.inl (length_run h)
    · rcases List.mem_cons.mp h with rfl | h
      · refine Or.inl ?_
        show (wtx.resized.set nOut false).length = wtx.tx.vout.length
        rw [List.length_set, length_resized]
      · exact Or.inr ⟨nOut, h⟩

/-- Setting flags that are set does nothing. -/
theorem vfSpent_foldl_run_of_set (ops : List RecordOp)
    (h : ∀ fSpent nOut, RecordOp.flag fSpent nOut ∈ ops → fSpent = true ∧ wtx.isSpent nOut = true) :
    (ops.foldl RecordOp.run wtx).vfSpent = wtx.vfSpent := by
  induction ops generalizing wtx with
  | nil => rfl
  | cons op ops ih =>
    have hstep : (op.run wtx).vfSpent = wtx.vfSpent := by
      cases op with
      | place => rw [merge_place]
      | flag fSpent nOut =>
        obtain ⟨rfl, hset⟩ := h fSpent nOut List.mem_cons_self
        rw [run_flag, hset]; rfl
    have hspent : ∀ n, (op.run wtx).isSpent n = wtx.isSpent n := fun n => by
      unfold CWalletTx.isSpent
      rw [hstep]
    rw [List.foldl_cons, ih, hstep]
    intro fSpent nOut hmem
    rw [hspent]
    exact h fSpent nOut (List.mem_cons_of_mem _ hmem)

theorem getLast?_flagWritten_of_mem {n : Nat} {ops : List RecordOp} {fSpent : Bool}
    (hmem : RecordOp.flag fSpent n ∈ ops) :
    ∃ v, (ops.filterMap (RecordOp.flagWritten n)).getLast? = some v ∧ RecordOp.flag v n ∈ ops := by
  have hw : RecordOp.flagWritten n (.flag fSpent n) = some fSpent := if_pos rfl
  have hne : ops.filterMap (RecordOp.flagWritten n) ≠ [] :=
    List.ne_nil_of_mem (List.mem_filterMap.mpr ⟨_, hmem, hw⟩)
  refine ⟨_, List.getLast?_eq_some_getLast hne, ?_⟩
  obtain ⟨op, hop, hw⟩ := List.mem_filterMap.mp (List.getLast_mem hne)
  cases op with
  | place => cases hw
  | flag fSpent' nOut =>
    by_cases h : nOut = n
    · rw [RecordOp.flagWritten, if_pos h] at hw
      rw [← Option.some.inj hw, ← h]
      exact hop
    · rw [RecordOp.flagWritten, if_neg h] at hw
      cases hw

/-- **Of a log only the last write to each part counts.** -/
theorem foldl_run_eq_iff {ops : List RecordOp} (hrange : ∀ op ∈ ops, op.InRange wtx.tx) :
    ops.foldl RecordOp.run wtx = wtx ↔ Settled wtx ops := by
  constructor
  · intro heq
    refine ⟨fun h hlast => ?_, fun x hlast => ?_, fun n hn fSpent hlast => ?_, fun hclear => ?_⟩
    · have := @foldl_run_hashBlock wtx ops
      rw [heq, Option.mem_def.mp hlast] at this
      exact this.symm
    · have := @foldl_run_index wtx ops
      rw [heq, Option.mem_def.mp hlast] at this
      exact this.symm
    · have := foldl_run_isSpent hn ops
      rw [heq, Option.mem_def.mp hlast] at this
      exact this.symm
    · have := @length_foldl_run wtx ops (Or.inr hclear)
      rwa [heq] at this
  · intro hs
    have getD_eq : ∀ {X : Type} (o : Option X) (x : X), (∀ y ∈ o, y = x) → o.getD x = x := by
      intro X o x h
      cases o with
      | none => rfl
      | some y => exact h y rfl
    have hhash := @foldl_run_hashBlock wtx ops
    have hindex := @foldl_run_index wtx ops
    have hflags : ∀ n < wtx.tx.vout.length, (ops.foldl RecordOp.run wtx).isSpent n = wtx.isSpent n :=
      fun n hn => by rw [foldl_run_isSpent hn, getD_eq _ _ (hs.flags n hn)]
    rw [getD_eq _ _ hs.hashBlock] at hhash
    rw [getD_eq _ _ hs.index] at hindex
    obtain ⟨h1, h2, h3, h4⟩ := @foldl_run_rest wtx ops
    have hspent : (ops.foldl RecordOp.run wtx).vfSpent = wtx.vfSpent := by
      by_cases hclear : ∃ nOut, RecordOp.flag false nOut ∈ ops
      · -- there is a flag for every output, before and after
        have hlen := @length_foldl_run wtx ops (Or.inr hclear)
        have hlen' := hs.length hclear
        apply List.ext_getElem (hlen.trans hlen'.symm)
        intro n hn hn'
        have := hflags n (by omega)
        unfold CWalletTx.isSpent at this
        rwa [List.getD_eq_getElem?_getD, List.getD_eq_getElem?_getD, List.getElem?_eq_getElem hn,
          List.getElem?_eq_getElem hn'] at this
      · -- only set, and what is set last is set already
        refine vfSpent_foldl_run_of_set ops fun fSpent nOut hmem => ?_
        have htrue : ∀ v, RecordOp.flag v nOut ∈ ops → v = true := by
          intro v hv
          cases v with
          | true => rfl
          | false => exact absurd ⟨nOut, hv⟩ hclear
        obtain ⟨v, hlast, hv⟩ := getLast?_flagWritten_of_mem hmem
        have hn : nOut < wtx.tx.vout.length := hrange _ hmem
        exact ⟨htrue _ hmem, by rw [← hs.flags nOut hn v hlast]; exact htrue v hv⟩
    exact CWalletTx.ext (foldl_run_tx ops) hhash (congrArg Prod.fst hindex) (congrArg Prod.snd hindex)
      h1 h2 h3 hspent h4

end Record

/-! ## What a notice writes -/

namespace CWallet

/-- The same keys, and the same transactions under the same hashes. -/
structure SameTxs (w w' : CWallet) : Prop where
  isMine : w'.isMine = w.isMine
  nMinimumInputValue : w'.nMinimumInputValue = w.nMinimumInputValue
  txs : ∀ h, (w'.mapWallet.lookup h).map CWalletTx.tx = (w.mapWallet.lookup h).map CWalletTx.tx

section Same

variable {w w' : CWallet}

theorem SameTxs.isSome (h : SameTxs w w') (hash : Uint256) :
    (w'.mapWallet.lookup hash).isSome = (w.mapWallet.lookup hash).isSome := by
  rw [← Option.isSome_map (f := CWalletTx.tx), h.txs, Option.isSome_map]

theorem SameTxs.ownOutput (h : SameTxs w w') : w'.ownOutput = w.ownOutput := by
  have hmine : w'.isMineOut = w.isMineOut := by
    funext txout
    unfold isMineOut
    rw [h.isMine]
  have hmap : ∀ (v : CWallet) prevout, v.ownOutput prevout =
      ((v.mapWallet.lookup prevout.hash).map CWalletTx.tx).bind fun tx =>
        (tx.vout[prevout.n.toNat]?).filter v.isMineOut := by
    intro v prevout
    unfold CWallet.ownOutput
    cases v.mapWallet.lookup prevout.hash <;> rfl
  funext prevout
  rw [hmap, hmap, h.txs, hmine]

theorem SameTxs.isFromMe (h : SameTxs w w') : w'.isFromMe = w.isFromMe := by
  have hadd : w'.addDebit = w.addDebit := by
    funext nDebit txin
    unfold addDebit getDebitIn
    rw [h.ownOutput]
  funext tx
  unfold CWallet.isFromMe getDebit
  rw [hadd]

theorem SameTxs.isMineTx (h : SameTxs w w') : w'.isMineTx = w.isMineTx := by
  funext tx
  unfold CWallet.isMineTx isMineOut
  rw [h.isMine, h.nMinimumInputValue]

end Same

/-- The flags of record `hash` that the inputs `vin` are about: those of the wallet's own outputs. -/
def spendsOn (w : CWallet) (hash : Uint256) (vin : List CTxIn) : List Nat :=
  (vin.filter fun txin => decide (txin.prevout.hash = hash) && (w.ownOutput txin.prevout).isSome).map
    fun txin => txin.prevout.n.toNat

/-- The transaction as the wallet has it. -/
def recorded (P : Primitives) (w : CWallet) (tx : CTransaction) : CTransaction :=
  ((w.mapWallet.lookup (P.getHash tx)).map CWalletTx.tx).getD tx

/-- Where the block puts its transaction. -/
def placeIn (P : Primitives) (b : CBlock) (tx : CTransaction) : RecordOp :=
  let wtx := (CWalletTx.ofTx tx).setMerkleBranch P b
  .place wtx.hashBlock wtx.vMerkleBranch wtx.nIndex

/-- What a notice writes to record `hash`. -/
def opsOn (P : Primitives) (w : CWallet) (hash : Uint256) : Notice → List RecordOp
  | .connected b tx =>
    (if P.getHash tx = hash then [placeIn P b tx] else []) ++
      ((w.spendsOn hash (w.recorded P tx).vin).map (.flag true) ++
        if P.getHash tx = hash ∧ b.getHash P ≠ 0 then
          (w.ownOutputs (w.recorded P tx)).map (.flag false)
        else [])
  | .disconnected tx =>
    if tx.isCoinStake = true ∧ w.isFromMe tx = .ok true then
      (w.spendsOn hash tx.vin).map (.flag false)
    else []

/-- The wallet has the transaction, or is not concerned. -/
def Known (P : Primitives) (w : CWallet) : Notice → Prop
  | .connected _ tx => (w.mapWallet.lookup (P.getHash tx)).isSome = true ∨
      w.isMineTx tx = false ∧ w.isFromMe tx = .ok false
  | .disconnected _ => True

/-- Every transaction is filed under its hash. -/
def Keyed (P : Primitives) (w : CWallet) : Prop :=
  ∀ hash wtx, w.mapWallet.lookup hash = some wtx → P.getHash wtx.tx = hash

/-- The wallet after the writes `ops`, given for each record. -/
structure Applies (ops : Uint256 → List RecordOp) (w w' : CWallet) : Prop where
  isMine : w'.isMine = w.isMine
  nMinimumInputValue : w'.nMinimumInputValue = w.nMinimumInputValue
  lookup : ∀ hash, w'.mapWallet.lookup hash =
    (w.mapWallet.lookup hash).map fun wtx => (ops hash).foldl RecordOp.run wtx

section Applies

variable {P : Primitives} {mapBlockIndex : StdMap Uint256 BlockPtr} {nAdjustedTime : Int}
  {w w' w₁ w₂ : CWallet} {ops ops₁ ops₂ : Uint256 → List RecordOp}

theorem Applies.sameTxs (h : Applies ops w w') : SameTxs w w' := by
  refine ⟨h.isMine, h.nMinimumInputValue, fun hash => ?_⟩
  rw [h.lookup, Option.map_map]
  refine congrArg (fun f => Option.map f _) (funext fun wtx => ?_)
  exact foldl_run_tx (ops hash)

theorem Applies.refl (w : CWallet) : Applies (fun _ => []) w w :=
  ⟨rfl, rfl, fun hash => by cases w.mapWallet.lookup hash <;> rfl⟩

theorem Applies.trans (h₁ : Applies ops₁ w w₁) (h₂ : Applies ops₂ w₁ w₂) :
    Applies (fun hash => ops₁ hash ++ ops₂ hash) w w₂ := by
  refine ⟨h₂.isMine.trans h₁.isMine, h₂.nMinimumInputValue.trans h₁.nMinimumInputValue,
    fun hash => ?_⟩
  rw [h₂.lookup, h₁.lookup, Option.map_map]
  refine congrArg (fun f => Option.map f _) (funext fun wtx => ?_)
  exact List.foldl_append.symm

/-- One record changed. -/
theorem applies_insert {hash : Uint256} {wtx wtx' : CWalletTx} {l : List RecordOp}
    (hwtx : w.mapWallet.lookup hash = some wtx) (hrun : l.foldl RecordOp.run wtx = wtx') :
    Applies (fun h => if hash = h then l else []) w
      { w with mapWallet := w.mapWallet.insert hash wtx' } := by
  refine ⟨rfl, rfl, fun h => ?_⟩
  show (w.mapWallet.insert hash wtx').lookup h = _
  rw [lookup_insert_eq_ite]
  by_cases heq : hash = h
  · subst heq
    rw [if_pos rfl, if_pos rfl, hwtx, Option.map_some, hrun]
  · rw [if_neg heq, if_neg heq]
    cases w.mapWallet.lookup h <;> rfl

theorem modify_applies {h : Uint256} {f : CWalletTx → CWalletTx} {l : List RecordOp}
    (hf : ∀ wtx, w.mapWallet.lookup h = some wtx → l.foldl RecordOp.run wtx = f wtx) :
    Applies (fun hash => if h = hash then l else []) w (w.modify h f) := by
  unfold modify
  split
  · rename_i hnone
    refine ⟨rfl, rfl, fun hash => ?_⟩
    by_cases heq : h = hash
    · subst heq
      rw [hnone]; rfl
    · rw [if_neg heq]
      cases w.mapWallet.lookup hash <;> rfl
  · rename_i wtx hwtx
    exact applies_insert hwtx (hf wtx hwtx)

theorem Keyed.of_sameTxs (hk : Keyed P w) (h : SameTxs w w') : Keyed P w' := by
  intro hash wtx hwtx
  have htx := h.txs hash
  rw [hwtx] at htx
  obtain ⟨wtx₀, hwtx₀, heq⟩ := Option.map_eq_some_iff.mp htx.symm
  rw [← heq]
  exact hk hash wtx₀ hwtx₀

/-! ## One input, and all of them -/

theorem spendsOn_cons (hash : Uint256) (txin : CTxIn) (vin : List CTxIn) :
    w.spendsOn hash (txin :: vin) = w.spendsOn hash [txin] ++ w.spendsOn hash vin := by
  unfold spendsOn
  rw [← List.map_append, ← List.filter_append]
  rfl

theorem SameTxs.spendsOn (h : SameTxs w w') : w'.spendsOn = w.spendsOn := by
  funext hash vin
  unfold CWallet.spendsOn
  rw [h.ownOutput]

theorem spendsOn_singleton {txin : CTxIn} (hash : Uint256) : w.spendsOn hash [txin] =
    if txin.prevout.hash = hash ∧ (w.ownOutput txin.prevout).isSome = true then
      [txin.prevout.n.toNat] else [] := by
  unfold CWallet.spendsOn
  rw [List.filter_cons, List.filter_nil]
  by_cases h : txin.prevout.hash = hash ∧ (w.ownOutput txin.prevout).isSome = true
  · rw [if_pos h, if_pos (by simp [h.1, h.2])]
    rfl
  · rw [if_neg h, if_neg (by simpa using h)]
    rfl

/-- The writes of one input: none, unless the output is the wallet's own. -/
theorem applies_input {fSpent : Bool} {txin : CTxIn}
    (hskip : (w.ownOutput txin.prevout).isSome = false → w' = w)
    (hmark : ∀ prev, w.mapWallet.lookup txin.prevout.hash = some prev →
      (w.ownOutput txin.prevout).isSome = true →
      w' = w.modify txin.prevout.hash (fun wtx =>
        RecordOp.run wtx (.flag fSpent txin.prevout.n.toNat)) ∨
      w' = w ∧ RecordOp.run prev (.flag fSpent txin.prevout.n.toNat) = prev) :
    Applies (fun hash => (w.spendsOn hash [txin]).map (.flag fSpent)) w w' := by
  by_cases hown : (w.ownOutput txin.prevout).isSome = true
  · cases hprev : w.mapWallet.lookup txin.prevout.hash with
    | none =>
      unfold CWallet.ownOutput at hown
      rw [hprev] at hown
      cases hown
    | some prev =>
      have hops : (fun hash => (w.spendsOn hash [txin]).map (RecordOp.flag fSpent)) =
          fun hash => if txin.prevout.hash = hash then [.flag fSpent txin.prevout.n.toNat] else [] := by
        funext hash
        rw [spendsOn_singleton]
        by_cases h : txin.prevout.hash = hash
        · rw [if_pos h, if_pos ⟨h, hown⟩]; rfl
        · rw [if_neg h, if_neg (fun hh => h hh.1)]; rfl
      rw [hops]
      rcases hmark prev hprev hown with rfl | ⟨rfl, hsame⟩
      · exact modify_applies fun _ _ => rfl
      · refine ⟨rfl, rfl, fun hash => ?_⟩
        by_cases h : txin.prevout.hash = hash
        · subst h
          rw [if_pos rfl, hprev]
          exact congrArg some hsame.symm
        · rw [if_neg h]
          cases w'.mapWallet.lookup hash <;> rfl
  · rw [hskip (by simpa using hown)]
    have hops : (fun hash => (w.spendsOn hash [txin]).map (RecordOp.flag fSpent)) = fun _ => [] := by
      funext hash
      rw [spendsOn_singleton, if_neg (fun h => hown h.2)]
      rfl
    rw [hops]
    exact Applies.refl w

theorem markInput_applies (txin : CTxIn) :
    Applies (fun hash => (w.spendsOn hash [txin]).map (.flag false)) w (markInput false w txin) := by
  refine applies_input (fun hown => ?_) fun prev hprev hown => ?_
  · unfold markInput
    split
    · rfl
    · rw [hown]; rfl
  · left
    unfold markInput modify
    simp only [hprev, hown, if_true]
    rfl

theorem spendInput_applies (txin : CTxIn) :
    Applies (fun hash => (w.spendsOn hash [txin]).map (.flag true)) w (spendInput w txin) := by
  refine applies_input (fun hown => ?_) fun prev hprev hown => ?_
  · unfold spendInput markInput
    split
    · rfl
    · split
      · rfl
      · simp only [hown, Bool.false_eq_true, if_false]
  · by_cases hspent : prev.isSpent txin.prevout.n.toNat = true
    · right
      rw [run_flag, hspent]
      unfold spendInput
      simp only [hprev, hspent, if_true, Bool.and_self, and_self]
    · left
      unfold spendInput markInput modify
      simp only [hprev, hspent, hown, if_true, if_false, run_flag, Bool.true_and, Bool.false_eq_true]

theorem foldl_inputs_applies {fSpent : Bool} {f : CWallet → CTxIn → CWallet}
    (hf : ∀ w txin, Applies (fun hash => (w.spendsOn hash [txin]).map (.flag fSpent)) w (f w txin))
    (vin : List CTxIn) (w : CWallet) :
    Applies (fun hash => (w.spendsOn hash vin).map (.flag fSpent)) w (vin.foldl f w) := by
  induction vin generalizing w with
  | nil => exact Applies.refl w
  | cons txin vin ih =>
    have hstep := hf w txin
    have hrest := ih (f w txin)
    rw [hstep.sameTxs.spendsOn] at hrest
    have := hstep.trans hrest
    simp only [← List.map_append, ← spendsOn_cons] at this
    exact this

theorem SameTxs.ownOutputs (h : SameTxs w w') : w'.ownOutputs = w.ownOutputs := by
  funext tx
  unfold CWallet.ownOutputs isMineOut
  rw [h.isMine]

/-- What `WalletUpdateSpent` writes. -/
theorem walletUpdateSpent_applies (tx : CTransaction) (fBlock : Bool) :
    Applies (fun hash => (w.spendsOn hash tx.vin).map (.flag true) ++
      if P.getHash tx = hash ∧ fBlock = true then (w.ownOutputs tx).map (.flag false) else [])
      w (w.walletUpdateSpent P tx fBlock) := by
  have hspend := foldl_inputs_applies (fun w txin => spendInput_applies (w := w) txin) tx.vin w
  unfold walletUpdateSpent
  cases fBlock with
  | false =>
    simp only [Bool.false_eq_true, and_false, if_false, List.append_nil]
    exact hspend
  | true =>
    have hown := modify_applies (w := tx.vin.foldl spendInput w) (h := P.getHash tx)
      (f := fun wtx => (w.ownOutputs tx).foldl CWalletTx.markUnspent wtx)
      (l := (w.ownOutputs tx).map (.flag false)) (fun wtx _ => by rw [List.foldl_map]; rfl)
    have := hspend.trans hown
    simp only [and_true, if_true, hspend.sameTxs.ownOutputs]
    exact this

/-! ## One notice -/

theorem placeIn_run (b : CBlock) (tx : CTransaction) (wtx : CWalletTx) :
    RecordOp.run wtx (placeIn P b tx) = wtx.merge ((CWalletTx.ofTx tx).setMerkleBranch P b) := by
  unfold placeIn RecordOp.run CWalletTx.setMerkleBranch
  dsimp only
  split <;> rfl

theorem setMerkleBranch_hashBlock (b : CBlock) (wtx : CWalletTx) :
    (wtx.setMerkleBranch P b).hashBlock = b.getHash P := by
  unfold CWalletTx.setMerkleBranch
  dsimp only
  split <;> rfl

theorem setMerkleBranch_tx (b : CBlock) (wtx : CWalletTx) :
    (wtx.setMerkleBranch P b).tx = wtx.tx := by
  unfold CWalletTx.setMerkleBranch
  dsimp only
  split <;> rfl

/-- A transaction the wallet has, in a block. -/
theorem addToWallet_applies (hk : Keyed P w) {b : CBlock} {tx : CTransaction}
    (hsome : (w.mapWallet.lookup (P.getHash tx)).isSome = true) :
    Applies (fun hash => opsOn P w hash (.connected b tx)) w
      (w.addToWallet P mapBlockIndex nAdjustedTime ((CWalletTx.ofTx tx).setMerkleBranch P b)) := by
  obtain ⟨wtx, hwtx⟩ := Option.isSome_iff_exists.mp hsome
  have hrec : w.recorded P tx = wtx.tx := by
    unfold recorded
    rw [hwtx]; rfl
  have hmerge := modify_applies (w := w) (h := P.getHash tx)
    (f := fun wtx => wtx.merge ((CWalletTx.ofTx tx).setMerkleBranch P b))
    (l := [placeIn P b tx]) (fun wtx _ => placeIn_run b tx wtx)
  have hspent := walletUpdateSpent_applies (P := P)
    (w := w.modify (P.getHash tx) fun wtx => wtx.merge ((CWalletTx.ofTx tx).setMerkleBranch P b))
    wtx.tx (decide (b.getHash P ≠ 0))
  rw [hmerge.sameTxs.spendsOn, hmerge.sameTxs.ownOutputs, hk _ wtx hwtx] at hspent
  have hadd : w.addToWallet P mapBlockIndex nAdjustedTime ((CWalletTx.ofTx tx).setMerkleBranch P b) =
      (w.modify (P.getHash tx) fun wtx =>
        wtx.merge ((CWalletTx.ofTx tx).setMerkleBranch P b)).walletUpdateSpent P wtx.tx
          (decide (b.getHash P ≠ 0)) := by
    have htx : ((CWalletTx.ofTx tx).setMerkleBranch P b).tx = tx := setMerkleBranch_tx b _
    have hlookup : w.mapWallet.lookup (P.getHash ((CWalletTx.ofTx tx).setMerkleBranch P b).tx) =
        some wtx := by rw [htx]; exact hwtx
    unfold addToWallet
    simp only [hlookup, setMerkleBranch_hashBlock]
    rw [htx]
  have := hmerge.trans hspent
  simp only [decide_eq_true_eq] at this
  rw [hadd]
  simp only [opsOn, hrec]
  exact this

/-- A notice to a wallet it adds nothing to. -/
theorem sync_applies (hk : Keyed P w) {n : Notice} (hknown : Known P w n)
    (h : w.sync P mapBlockIndex nAdjustedTime n = .ok w') :
    Applies (fun hash => opsOn P w hash n) w w' := by
  cases n with
  | connected b tx =>
    unfold CWallet.sync addToWalletIfInvolvingMe at h
    simp only [Bool.not_true, Bool.and_false, Bool.false_eq_true, if_false] at h
    by_cases hsome : (w.mapWallet.lookup (P.getHash tx)).isSome = true
    · simp only [hsome, Bool.true_or, if_true, ok_bind, pure_ok] at h
      rw [← h]
      exact addToWallet_applies hk hsome
    · obtain ⟨hmine, hfrom⟩ := hknown.resolve_left hsome
      simp only [hsome, hmine, hfrom, Bool.or_self, Bool.false_eq_true, if_false, ok_bind, pure_ok] at h
      have hnone : w.mapWallet.lookup (P.getHash tx) = none := by simpa using hsome
      have hrec : w.recorded P tx = tx := by
        unfold recorded
        rw [hnone]; rfl
      rw [← h]
      have hspent := walletUpdateSpent_applies (P := P) (w := w) tx false
      refine ⟨hspent.isMine, hspent.nMinimumInputValue, fun hash => ?_⟩
      rw [hspent.lookup]
      by_cases heq : P.getHash tx = hash
      · -- it has no record to write to
        rw [← heq, hnone]; rfl
      · simp only [opsOn, hrec, heq, false_and, if_false, List.nil_append]
  | disconnected tx =>
    simp only [CWallet.sync] at h
    simp only [opsOn]
    by_cases hcs : tx.isCoinStake = true
    · rw [if_pos hcs, bind_ok] at h
      obtain ⟨fFromMe, hfrom, h⟩ := h
      cases fFromMe with
      | false =>
        simp only [Bool.false_eq_true, if_false, pure_ok] at h
        subst h
        simp only [hfrom, Except.ok.injEq, Bool.false_eq_true, and_false, if_false]
        exact Applies.refl w
      | true =>
        simp only [if_true, disableTransaction, hcs, hfrom, ok_bind, pure_ok] at h
        subst h
        simp only [hcs, hfrom, and_self, if_true]
        exact foldl_inputs_applies (fun w txin => markInput_applies (w := w) txin) tx.vin w
    · rw [if_neg hcs] at h
      cases h
      simp only [hcs, Bool.false_eq_true, false_and, if_false]
      exact Applies.refl w

/-- A record that was not there. -/
theorem addToWallet_inserts (hk : Keyed P w) {m : StdMap Uint256 BlockPtr} {t : Int}
    {x : CWalletTx}
    (hnone : w.mapWallet.lookup (P.getHash x.tx) = none) :
    Keyed P (w.addToWallet P m t x) ∧ ∀ hash,
      ((w.addToWallet P m t x).mapWallet.lookup hash).isSome =
        (decide (P.getHash x.tx = hash) || (w.mapWallet.lookup hash).isSome) := by
  have hspent := (walletUpdateSpent_applies (P := P)
    (w := w.insertNew m t (P.getHash x.tx) x) x.tx
    (decide (x.hashBlock ≠ 0))).sameTxs
  have hadd : w.addToWallet P m t x =
      (w.insertNew m t (P.getHash x.tx) x).walletUpdateSpent P
        x.tx (decide (x.hashBlock ≠ 0)) := by
    unfold addToWallet
    simp only [hnone]
  rw [hadd]
  refine ⟨Keyed.of_sameTxs (fun hash wtx hwtx => ?_) hspent, fun hash => ?_⟩
  · unfold insertNew at hwtx
    rw [lookup_insert_eq_ite] at hwtx
    by_cases heq : P.getHash x.tx = hash
    · rw [if_pos heq] at hwtx
      cases hwtx
      exact heq
    · rw [if_neg heq] at hwtx
      exact hk hash wtx hwtx
  · rw [hspent.isSome]
    unfold insertNew
    rw [lookup_insert_eq_ite]
    by_cases heq : P.getHash x.tx = hash
    · rw [if_pos heq, decide_eq_true heq]; rfl
    · rw [if_neg heq, decide_eq_false heq]; rfl

/-- **One notice.**  It writes to the records there are, or it adds one. -/
theorem sync_ok (hk : Keyed P w) {n : Notice}
    (h : w.sync P mapBlockIndex nAdjustedTime n = .ok w') :
    Keyed P w' ∧
      (∀ hash, (w.mapWallet.lookup hash).isSome = true → (w'.mapWallet.lookup hash).isSome = true) ∧
      (Known P w n ∧ Applies (fun hash => opsOn P w hash n) w w' ∨
        ¬ Known P w n ∧ ∃ hash, w.mapWallet.lookup hash = none ∧
          (w'.mapWallet.lookup hash).isSome = true) := by
  by_cases hknown : Known P w n
  · have happ := sync_applies hk hknown h
    refine ⟨hk.of_sameTxs happ.sameTxs, fun hash hsome => ?_, Or.inl ⟨hknown, happ⟩⟩
    rw [happ.sameTxs.isSome]
    exact hsome
  · cases n with
    | disconnected tx => exact absurd trivial hknown
    | connected b tx =>
      have hcases := not_or.mp hknown
      have hnone : w.mapWallet.lookup (P.getHash tx) = none := by simpa using hcases.1
      have hw' : w' = w.addToWallet P mapBlockIndex nAdjustedTime
          ((CWalletTx.ofTx tx).setMerkleBranch P b) := by
        simp only [CWallet.sync, addToWalletIfInvolvingMe, hnone] at h
        by_cases hmine : w.isMineTx tx = true
        · simp only [hmine, Option.isSome_none, Bool.false_and, Bool.false_or, Bool.false_eq_true,
            if_true, if_false, ok_bind, pure_ok] at h
          exact h.symm
        · simp only [hmine, Option.isSome_none, Bool.false_and, Bool.false_or, Bool.false_eq_true,
            if_false, bind_ok] at h
          obtain ⟨fInvolvingMe, hfrom, h⟩ := h
          cases fInvolvingMe with
          | true =>
            simp only [if_true, pure_ok] at h
            exact h.symm
          | false => exact absurd ⟨by simpa using hmine, hfrom⟩ hcases.2
      rw [hw']
      have htx : ((CWalletTx.ofTx tx).setMerkleBranch P b).tx = tx := setMerkleBranch_tx b _
      obtain ⟨hk', hkeys⟩ := addToWallet_inserts (m := mapBlockIndex) (t := nAdjustedTime) hk
        (x := (CWalletTx.ofTx tx).setMerkleBranch P b) (by rw [htx]; exact hnone)
      rw [htx] at hkeys
      refine ⟨hk', fun hash hsome => ?_, Or.inr ⟨hknown, P.getHash tx, hnone, ?_⟩⟩
      · rw [hkeys, hsome, Bool.or_true]
      · rw [hkeys, decide_eq_true rfl, Bool.true_or]

/-! ## A sequence of notices -/

theorem SameTxs.recorded (h : SameTxs w w') : w'.recorded P = w.recorded P := by
  funext tx
  unfold CWallet.recorded
  rw [h.txs]

theorem SameTxs.opsOn (h : SameTxs w w') : opsOn P w' = opsOn P w := by
  funext hash n
  cases n with
  | connected b tx =>
    simp only [CWallet.opsOn, h.recorded, h.spendsOn, h.ownOutputs]
  | disconnected tx => simp only [CWallet.opsOn, h.spendsOn, h.isFromMe]

theorem SameTxs.known (h : SameTxs w w') (n : Notice) : Known P w' n ↔ Known P w n := by
  cases n with
  | connected b tx => simp only [Known, h.isSome, h.isMineTx, h.isFromMe]
  | disconnected tx => exact Iff.rfl

/-- The flags a notice writes are those of outputs. -/
theorem opsOn_inRange {hash : Uint256} {wtx : CWalletTx}
    (hwtx : w.mapWallet.lookup hash = some wtx) (n : Notice) :
    ∀ op ∈ opsOn P w hash n, op.InRange wtx.tx := by
  have hspends : ∀ (vin : List CTxIn) (fSpent : Bool),
      ∀ op ∈ (w.spendsOn hash vin).map (RecordOp.flag fSpent), op.InRange wtx.tx := by
    intro vin fSpent op hop
    obtain ⟨nOut, hn, rfl⟩ := List.mem_map.mp hop
    obtain ⟨txin, htxin, rfl⟩ := List.mem_map.mp hn
    rw [List.mem_filter, Bool.and_eq_true, decide_eq_true_eq] at htxin
    obtain ⟨-, hhash, hown⟩ := htxin
    unfold ownOutput at hown
    rw [hhash, hwtx] at hown
    by_contra hlt
    have hout : wtx.tx.vout[txin.prevout.n.toNat]? = none := List.getElem?_eq_none (not_lt.mp hlt)
    dsimp only at hown
    rw [hout] at hown
    cases hown
  cases n with
  | connected b tx =>
    intro op hop
    rcases List.mem_append.mp hop with hop | hop
    · split at hop
      · rw [List.mem_singleton.mp hop]
        trivial
      · cases hop
    · rcases List.mem_append.mp hop with hop | hop
      · exact hspends _ _ op hop
      · split at hop
        · rename_i h
          obtain ⟨nOut, hn, rfl⟩ := List.mem_map.mp hop
          have hrec : w.recorded P tx = wtx.tx := by
            unfold recorded
            rw [h.1, hwtx]; rfl
          rw [hrec] at hn
          exact List.mem_range.mp (List.mem_filter.mp hn).1
        · cases hop
  | disconnected tx =>
    intro op hop
    simp only [opsOn] at hop
    split at hop
    · exact hspends _ _ op hop
    · cases hop

/-- The notices add nothing to the wallet, and for every record the last write to each part writes
    what stands there already. -/
structure Undisturbed (P : Primitives) (w : CWallet) (ns : List Notice) : Prop where
  known : ∀ n ∈ ns, Known P w n
  settled : ∀ hash wtx, w.mapWallet.lookup hash = some wtx →
    Settled wtx (ns.flatMap (opsOn P w hash))

/-- As long as no record is added, the notices are one log of writes. -/
theorem syncNotices_ok {ns : List Notice} (hk : Keyed P w)
    (h : ns.foldlM (CWallet.sync P mapBlockIndex nAdjustedTime) w = .ok w') :
    (∀ hash, (w.mapWallet.lookup hash).isSome = true → (w'.mapWallet.lookup hash).isSome = true) ∧
      ((∀ n ∈ ns, Known P w n) ∧ Applies (fun hash => ns.flatMap (opsOn P w hash)) w w' ∨
        ¬ (∀ n ∈ ns, Known P w n) ∧ ∃ hash, w.mapWallet.lookup hash = none ∧
          (w'.mapWallet.lookup hash).isSome = true) := by
  induction ns generalizing w with
  | nil =>
    cases h
    exact ⟨fun _ hsome => hsome, Or.inl ⟨fun n hn => absurd hn List.not_mem_nil, Applies.refl _⟩⟩
  | cons n ns ih =>
    rw [List.foldlM_cons, bind_ok] at h
    obtain ⟨w₁, hstep, hrest⟩ := h
    obtain ⟨hk₁, hmono₁, hcases₁⟩ := sync_ok hk hstep
    obtain ⟨hmono, hcases⟩ := ih hk₁ hrest
    refine ⟨fun hash hsome => hmono hash (hmono₁ hash hsome), ?_⟩
    rcases hcases₁ with ⟨hknown, happ⟩ | ⟨hnot, hash, hnone, hsome⟩
    · have hsame := happ.sameTxs
      rcases hcases with ⟨hall, happ'⟩ | ⟨hnot, hash, hnone, hsome⟩
      · left
        refine ⟨List.forall_mem_cons.mpr ⟨hknown, fun m hm => (hsame.known m).mp (hall m hm)⟩, ?_⟩
        rw [hsame.opsOn] at happ'
        exact happ.trans happ'
      · right
        refine ⟨fun hall => hnot fun m hm => ?_, hash, ?_, hsome⟩
        · exact (hsame.known m).mpr (hall m (List.mem_cons_of_mem _ hm))
        · have := hsame.isSome hash
          rw [hnone] at this
          simpa using this.symm
    · exact Or.inr ⟨fun hall => hnot (hall n List.mem_cons_self), hash, hnone, hmono hash hsome⟩

/-- **When a sequence of notices leaves a wallet as it was.** -/
theorem syncNotices_unchanged {ns : List Notice} (hk : Keyed P w)
    (h : ns.foldlM (CWallet.sync P mapBlockIndex nAdjustedTime) w = .ok w') :
    (∀ hash, w'.mapWallet.lookup hash = w.mapWallet.lookup hash) ↔ Undisturbed P w ns := by
  have hiff : ∀ hash wtx, w.mapWallet.lookup hash = some wtx →
      ((ns.flatMap (opsOn P w hash)).foldl RecordOp.run wtx = wtx ↔
        Settled wtx (ns.flatMap (opsOn P w hash))) := by
    intro hash wtx hwtx
    refine foldl_run_eq_iff fun op hop => ?_
    obtain ⟨n, -, hop⟩ := List.mem_flatMap.mp hop
    exact opsOn_inRange hwtx n op hop
  obtain ⟨-, ⟨hknown, happ⟩ | ⟨hnot, hash, hnone, hsome⟩⟩ := syncNotices_ok hk h
  · constructor
    · intro heq
      refine ⟨hknown, fun hash wtx hwtx => (hiff hash wtx hwtx).mp ?_⟩
      have := happ.lookup hash
      rw [heq hash, hwtx] at this
      exact (Option.some.inj this).symm
    · intro hu hash
      rw [happ.lookup hash]
      cases hwtx : w.mapWallet.lookup hash with
      | none => rfl
      | some wtx => exact congrArg some ((hiff hash wtx hwtx).mpr (hu.settled hash wtx hwtx))
  · -- a record was added, so the wallet has changed and one of the notices was news to it
    constructor
    · intro heq
      rw [heq hash, hnone] at hsome
      cases hsome
    · intro hu
      exact absurd hu.known hnot

end Applies

end CWallet
end Silkcoin
