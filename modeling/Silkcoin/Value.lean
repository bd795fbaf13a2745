/-
  No coins from nothing: what a connected block may add to the money supply.

  The value a block adds is the total of its outputs minus the total of the outputs it spends
  (`valueAdded`), counted exactly and without the code's accumulators.  `Tally` ties the accumulators
  of `ConnectBlock` to these exact sums, transaction by transaction.

  A proof-of-stake block, and a proof-of-work block without a coinstake-shaped transaction, adds at
  most its subsidy: ordinary transactions only lose value, and the fees they leave are what the
  reward check adds to the subsidy (`getProofOfWorkReward_le`, `getProofOfStakeReward_le`, which also
  carry the case that the sum of the fees has wrapped).

  A proof-of-work block with a coinstake-shaped transaction in third place or later is a different
  matter: that transaction is exempt from "value in >= value out", and the only reward check made is
  the one of the coinbase.
-/
import Silkcoin.ConnectBlock
import Mathlib.Algebra.Order.BigOperators.Group.List

namespace Silkcoin

open Validation

/-! ## Prefixes -/

/-- Every element of a list with what stands before it. -/
def splitsFrom {α : Type} : List α → List α → List (List α × α)
  | _, [] => []
  | pre, x :: xs => (pre, x) :: splitsFrom (pre ++ [x]) xs

/-- Every transaction of a block with the transactions before it. -/
def splits {α : Type} (l : List α) : List (List α × α) := splitsFrom [] l

theorem splitsFrom_append_one {α : Type} (x : α) : ∀ (xs pre : List α),
    splitsFrom pre (xs ++ [x]) = splitsFrom pre xs ++ [(pre ++ xs, x)]
  | [], pre => by simp [splitsFrom]
  | y :: ys, pre => by
      rw [List.cons_append, splitsFrom, splitsFrom_append_one x ys, splitsFrom, List.append_assoc]
      rfl

theorem splits_append_one {α : Type} (xs : List α) (x : α) :
    splits (xs ++ [x]) = splits xs ++ [(xs, x)] := splitsFrom_append_one x xs []

theorem mem_splitsFrom {α : Type} {l : List α} {p : List α × α} : ∀ {xs pre : List α},
    l = pre ++ xs → p ∈ splitsFrom pre xs → ∃ post, l = p.1 ++ p.2 :: post
  | [], _, _, h => absurd h List.not_mem_nil
  | x :: xs, pre, hl, h => by
      rcases List.mem_cons.mp h with rfl | h
      · exact ⟨xs, hl⟩
      · exact mem_splitsFrom (by rw [hl, List.append_assoc]; rfl) h

theorem mem_splits {α : Type} {l pre post : List α} {x : α} (h : l = pre ++ x :: post) :
    (pre, x) ∈ splits l := by
  subst h
  induction post using List.reverseRecOn with
  | nil => rw [splits_append_one]; exact List.mem_append_right _ List.mem_cons_self
  | append_singleton post y ih =>
    rw [← List.cons_append, ← List.append_assoc, splits_append_one]
    exact List.mem_append_left _ ih

namespace CBlock

variable (P : Primitives) (g : Globals) (txdb : CTxDB)

/-- A stored block, transaction by transaction. -/
theorem stored_of_splits {pindex : CBlockIndex} {b : CBlock} {files : BlockFiles}
    (h : ∀ p ∈ splits b.vtx, files.readTx (txPosition pindex b p.1) = some p.2 ∧
      txPosition pindex b p.1 ≠ CDiskTxPos.memoryPool) : Stored pindex b files :=
  fun _ _ _ hvtx => h _ (mem_splits hvtx)

/-! ## Exact accounting -/

/-- The output an outpoint names, for a transaction that comes after `pre` in its block: an output
    of an earlier transaction of the block, or one behind an index entry. -/
def prevOut (pre : List CTransaction) (o : COutPoint) : Option CTxOut :=
  match pre.find? fun tx => P.getHash tx = o.hash with
  | some tx => tx.vout[o.n.toNat]?
  | none =>
    match txdb.readTxIndex o.hash with
    | none => none
    | some txindex =>
      match CTransaction.prevTxOf g o.hash txindex with
      | .error _ => none
      | .ok txPrev => txPrev.vout[o.n.toNat]?

def prevValue (pre : List CTransaction) (o : COutPoint) : Int :=
  ((prevOut P g txdb pre o).map CTxOut.nValue).getD 0

/-- The total of the outputs a transaction spends. -/
def valueIn (p : List CTransaction × CTransaction) : Int :=
  if p.2.isCoinBase then 0 else (p.2.prevouts.map (prevValue P g txdb p.1)).sum

/-- The value a list of transactions adds. -/
def valueAdded (vtx : List CTransaction) : Int :=
  ((splits vtx).map fun p => p.2.valueOut - valueIn P g txdb p).sum

/-- Neither coinbase nor coinstake. -/
def isOrdinary (tx : CTransaction) : Bool := !tx.isCoinBase && !tx.isCoinStake

/-- The fees the ordinary transactions leave. -/
def feesOf (vtx : List CTransaction) : Int :=
  ((splits vtx).map fun p => if isOrdinary p.2 then valueIn P g txdb p - p.2.valueOut else 0).sum

/-- What the last coinstake creates. -/
def stakeOf (vtx : List CTransaction) : Int :=
  (splits vtx).foldl (fun r p => if p.2.isCoinStake then p.2.valueOut - valueIn P g txdb p else r) 0

/-! ## The accumulators follow -/

/-- The state of `ConnectBlock` after the transactions `pre`, in exact terms. -/
structure Tally (pindex : CBlockIndex) (b : CBlock) (pre : List CTransaction) (s : ConnectState) :
    Prop where
  nTxPos_eq : s.nTxPos = txOffset pindex b pre
  view_eq : ∀ o, viewValue g txdb s.mapQueuedChanges o = prevValue P g txdb pre o
  added_eq : int64 (s.nValueOut - s.nValueIn) = int64 (valueAdded P g txdb pre)
  nFees_eq : s.nFees = int64 (feesOf P g txdb pre)
  nStakeReward_eq : s.nStakeReward = int64 (stakeOf P g txdb pre)
  out_range : ∀ p ∈ splits pre, moneyRange p.2.valueOut = true
  in_range : ∀ p ∈ splits pre, moneyRange (valueIn P g txdb p) = true
  fee : ∀ p ∈ splits pre, isOrdinary p.2 = true → p.2.valueOut + 10000 ≤ valueIn P g txdb p

section

variable {P g txdb} {pindex : CBlockIndex} {pprev : BlockPtr} {b : CBlock}

theorem prevValue_append_one {pre : List CTransaction} {tx : CTransaction} (o : COutPoint)
    (hfresh : ∀ t ∈ pre, P.getHash t ≠ P.getHash tx) : prevValue P g txdb (pre ++ [tx]) o =
      if P.getHash tx = o.hash then ((tx.vout[o.n.toNat]?).map CTxOut.nValue).getD 0
      else prevValue P g txdb pre o := by
  unfold prevValue prevOut
  rw [List.find?_append]
  by_cases heq : P.getHash tx = o.hash
  · have hnone : pre.find? (fun t => decide (P.getHash t = o.hash)) = none := by
      rw [List.find?_eq_none]
      intro t ht
      simpa [← heq] using hfresh t ht
    rw [hnone]
    simp [heq]
  · rw [if_neg heq]
    simp [heq]

theorem tally_step {pre : List CTransaction} {tx : CTransaction} {post : List CTransaction}
    {s s' : ConnectState} (hstored : Stored pindex b g.files) (hchecked : b.BlockChecked P)
    (hvtx : b.vtx = pre ++ tx :: post) (hs : Tally P g txdb pindex b pre s)
    (hstep : connectTx P g txdb pindex pprev false s tx = .ok s') :
    Tally P g txdb pindex b (pre ++ [tx]) s' := by
  have hmem : tx ∈ b.vtx := by rw [hvtx]; exact List.mem_append_right _ List.mem_cons_self
  have h := connectTx_ok (hchecked.txs tx hmem) hstep
  -- the fetched values are the exact ones
  have hin : txValueIn g txdb s.mapQueuedChanges tx = valueIn P g txdb (pre, tx) := by
    unfold txValueIn valueIn
    rw [List.map_congr_left fun o _ => hs.view_eq o]
  have hfresh : ∀ t ∈ pre, P.getHash t ≠ P.getHash tx := by
    intro t ht heq
    have hnd := hchecked.distinct
    rw [hvtx, List.map_append, List.nodup_append] at hnd
    exact hnd.2.2 _ (List.mem_map_of_mem ht) _ (List.mem_map_of_mem List.mem_cons_self) heq
  have hsum : ∀ f : List CTransaction × CTransaction → Int,
      ((splits (pre ++ [tx])).map f).sum = ((splits pre).map f).sum + f (pre, tx) := by
    intro f
    rw [splits_append_one, List.map_append, List.sum_append]
    simp
  have hall : ∀ Q : List CTransaction × CTransaction → Prop, (∀ p ∈ splits pre, Q p) → Q (pre, tx) →
      ∀ p ∈ splits (pre ++ [tx]), Q p := by
    intro Q hpre htx p hp
    rw [splits_append_one, List.mem_append, List.mem_singleton] at hp
    rcases hp with hp | rfl
    · exact hpre p hp
    · exact htx
  refine ⟨?_, ?_, ?_, ?_, ?_, hall _ hs.out_range h.valueOut_range,
    hall _ hs.in_range (hin ▸ h.valueIn_range), hall _ hs.fee ?_⟩
  · rw [h.nTxPos_eq, hs.nTxPos_eq, txOffset_append_one]
  · intro o
    rw [prevValue_append_one o hfresh, ← hs.view_eq]
    unfold viewValue
    rw [h.view_eq o.hash]
    by_cases heq : P.getHash tx = o.hash
    · have hpos : (CTxIndex.new ⟨pindex.nFile, pindex.nBlockPos, s.nTxPos⟩ tx.vout.length).pos =
          txPosition pindex b pre := by rw [hs.nTxPos_eq]; rfl
      have hprev := hstored.prevTxOf hvtx o.hash hpos
      rw [if_pos heq, if_pos heq]
      simp only [hprev]
    · rw [if_neg heq, if_neg heq]
      cases indexView txdb s.mapQueuedChanges o.hash with
      | none => rfl
      | some ti => rfl
  · unfold valueAdded
    rw [hsum, h.nValueOut_eq, h.nValueIn_eq, hin]
    have hadd := int64_add_congr hs.added_eq (tx.valueOut - valueIn P g txdb (pre, tx))
    unfold valueAdded at hadd
    by_cases hcb : tx.isCoinBase = true
    · rw [if_pos hcb, int64_sub_left, ← hadd]
      have hzero : valueIn P g txdb (pre, tx) = 0 := if_pos hcb
      rw [hzero]
      exact congrArg int64 (by ring)
    · rw [if_neg hcb, int64_sub_left, int64_sub_right, ← hadd]
      exact congrArg int64 (by ring)
  · unfold feesOf
    rw [hsum, h.nFees_eq, hin, hs.nFees_eq]
    by_cases hord : tx.isCoinBase = true ∨ tx.isCoinStake = true
    · have hno : isOrdinary tx = false := by
        unfold isOrdinary
        rcases hord with hx | hx <;> simp [hx]
      rw [if_pos hord, if_neg (by simp [hno]), add_zero]; rfl
    · have hyes : isOrdinary tx = true := by
        rw [not_or] at hord
        simp [isOrdinary, hord.1, hord.2]
      rw [if_neg hord, if_pos hyes, int64_add_left]; rfl
  · unfold stakeOf
    rw [splits_append_one, List.foldl_append, h.nStakeReward_eq, hin, hs.nStakeReward_eq]
    by_cases hcs : tx.isCoinStake = true
    · rw [if_pos hcs]
      simp [hcs]
    · rw [if_neg hcs]
      simp [hcs, stakeOf]
  · intro hord
    unfold isOrdinary at hord
    rw [Bool.and_eq_true] at hord
    exact hin ▸ h.fee (by simpa using hord.1) (by simpa using hord.2)

/-- After the last transaction. -/
theorem tally_run {s : ConnectState} (hstored : Stored pindex b g.files)
    (hchecked : b.BlockChecked P)
    (hrun : b.vtx.foldlM (connectTx P g txdb pindex pprev false) (connectStart pindex b false) = .ok s) :
    Tally P g txdb pindex b b.vtx s := by
  refine foldlM_ok_induct (P := Tally P g txdb pindex b) ?_ ?_ hrun
  · have hnil : ∀ p ∈ splits ([] : List CTransaction), ∀ {Q : Prop}, Q :=
      fun p hp => absurd hp List.not_mem_nil
    refine ⟨rfl, fun o => ?_, rfl, rfl, rfl, fun p hp => hnil p hp, fun p hp => hnil p hp,
      fun p hp => hnil p hp⟩
    have hview : indexView txdb (connectStart pindex b false).mapQueuedChanges o.hash =
        txdb.readTxIndex o.hash := rfl
    unfold viewValue prevValue prevOut
    rw [hview]
    cases hti : txdb.readTxIndex o.hash with
    | none => rfl
    | some ti => cases hprev : CTransaction.prevTxOf g o.hash ti <;> simp [hprev]
  · intro pre tx post s s' hvtx hs hstep
    exact tally_step hstored hchecked hvtx hs hstep

/-! ## What the reward check covers -/

/-- The most a block may create before fees, by its kind; for a proof-of-stake block it needs the
    coin age of the coinstake. -/
def blockSubsidy (g : Globals) (txdb : CTxDB) (b : CBlock) : Option Int :=
  if b.isProofOfWork then
    some (getProofOfWorkReward 0 ((g.pindexBest.head?.map CBlockIndex.nHeight).getD 0))
  else
    match b.vtx with
    | _ :: coinStake :: _ =>
      match coinStake.getCoinAge g txdb with
      | .ok nCoinAge => some (getProofOfStakeReward (int64 nCoinAge) 0)
      | .error _ => none
    | _ => none

/-- **No coins from nothing.**  The block adds at most its subsidy, no ordinary transaction pays out
    more than it takes in, and the only exempt transaction is the coinstake whose reward is
    checked. -/
structure NoCoinsFromNothing (P : Primitives) (g : Globals) (txdb : CTxDB) (b : CBlock) : Prop where
  subsidy : ∃ nSubsidy, blockSubsidy g txdb b = some nSubsidy ∧
    valueAdded P g txdb b.vtx ≤ nSubsidy
  ordinary : ∀ p ∈ splits b.vtx, isOrdinary p.2 = true → p.2.valueOut ≤ valueIn P g txdb p
  covered : ∀ p ∈ splits b.vtx, p.2.isCoinStake = true →
    b.isProofOfStake = true ∧ p.1.length = 1

theorem mem_of_mem_splitsFrom {α : Type} {p : List α × α} : ∀ {xs pre : List α},
    p ∈ splitsFrom pre xs → p.2 ∈ xs ∧ pre.length ≤ p.1.length
  | [], _, h => absurd h List.not_mem_nil
  | x :: xs, pre, h => by
      rcases List.mem_cons.mp h with rfl | h
      · exact ⟨List.mem_cons_self, le_refl _⟩
      · obtain ⟨hmem, hlen⟩ := mem_of_mem_splitsFrom h
        rw [List.length_append] at hlen
        exact ⟨List.mem_cons_of_mem _ hmem, by omega⟩

/-- Value added is what coinbase and coinstakes create, less the fees. -/
theorem added_eq_of_ordinary {l : List (List CTransaction × CTransaction)}
    (h : ∀ p ∈ l, isOrdinary p.2 = true) :
    (l.map fun p => p.2.valueOut - valueIn P g txdb p).sum =
      - (l.map fun p => if isOrdinary p.2 then valueIn P g txdb p - p.2.valueOut else 0).sum := by
  induction l with
  | nil => rfl
  | cons p l ih =>
    simp only [List.map_cons, List.sum_cons]
    rw [ih fun q hq => h q (List.mem_cons_of_mem _ hq), if_pos (h p List.mem_cons_self)]
    ring

theorem feesOf_nonneg {pindex : CBlockIndex} {b : CBlock} {s : ConnectState}
    (h : Tally P g txdb pindex b b.vtx s) : 0 ≤ feesOf P g txdb b.vtx := by
  refine List.sum_nonneg fun x hx => ?_
  obtain ⟨p, hp, rfl⟩ := List.mem_map.mp hx
  by_cases hord : isOrdinary p.2 = true
  · have := h.fee p hp hord
    rw [if_pos hord]
    omega
  · rw [if_neg hord]

theorem isOrdinary_iff {tx : CTransaction} :
    isOrdinary tx = true ↔ tx.isCoinBase = false ∧ tx.isCoinStake = false := by
  simp [isOrdinary]

/-- The transactions behind the given ones are all ordinary. -/
theorem splitsFrom_ordinary (pre : List CTransaction) {rest : List CTransaction}
    (hcb : ∀ tx ∈ rest, tx.isCoinBase = false) (hcs : ∀ tx ∈ rest, tx.isCoinStake = false) :
    ∀ p ∈ splitsFrom pre rest, isOrdinary p.2 = true := by
  intro p hp
  have hmem := (mem_of_mem_splitsFrom hp).1
  exact isOrdinary_iff.mpr ⟨hcb _ hmem, hcs _ hmem⟩

/-- What the coinstake in second place creates, if there is no other. -/
theorem stakeOf_second {coinBase coinStake : CTransaction} {others : List CTransaction}
    (hcs : coinStake.isCoinStake = true) (hothers : ∀ tx ∈ others, tx.isCoinStake = false) :
    stakeOf P g txdb (coinBase :: coinStake :: others) =
      coinStake.valueOut - valueIn P g txdb ([coinBase], coinStake) := by
  have hrest : ∀ (l : List (List CTransaction × CTransaction)) (r : Int),
      (∀ p ∈ l, p.2.isCoinStake = false) →
      l.foldl (fun r p => if p.2.isCoinStake then p.2.valueOut - valueIn P g txdb p else r) r = r := by
    intro l
    induction l with
    | nil => intro r _; rfl
    | cons p l ih =>
      intro r hl
      rw [List.foldl_cons, if_neg (by simp [hl p List.mem_cons_self])]
      exact ih r fun q hq => hl q (List.mem_cons_of_mem _ hq)
  have hsplits : splits (coinBase :: coinStake :: others) =
      ([], coinBase) :: ([coinBase], coinStake) :: splitsFrom [coinBase, coinStake] others := rfl
  unfold stakeOf
  rw [hsplits, List.foldl_cons, List.foldl_cons, hrest _ _ fun p hp => hothers _
    (mem_of_mem_splitsFrom hp).1, if_pos hcs]

/-- A proof-of-work block without a coinstake adds at most the subsidy. -/
theorem work_subsidy {s : ConnectState} (hchecked : b.BlockChecked P)
    (hs : Tally P g txdb pindex b b.vtx s) (hreward : checkReward g txdb b s = .ok ())
    (hwork : b.isProofOfStake = false) (hcs : ∀ tx ∈ b.vtx, tx.isCoinStake = false) :
    ∃ nSubsidy, blockSubsidy g txdb b = some nSubsidy ∧ valueAdded P g txdb b.vtx ≤ nSubsidy := by
  have hpow : b.isProofOfWork = true := by simp [isProofOfWork, hwork]
  obtain ⟨coinBase, rest, hvtx, hcb, hrest⟩ := hchecked.coinbase
  have hfees := feesOf_nonneg hs
  have hnFees := hs.nFees_eq
  refine ⟨_, if_pos hpow, ?_⟩
  unfold checkReward at hreward
  rw [hvtx] at hreward hfees hnFees hcs ⊢
  simp only [hpow, if_true, bind_ok, require_ok, decide_eq_true_eq] at hreward
  obtain ⟨v, hout, hle⟩ := hreward
  obtain ⟨rfl, -, -⟩ := coinBase.getValueOut_ok hout
  have hsplits : splits (coinBase :: rest) = ([], coinBase) :: splitsFrom [coinBase] rest := rfl
  have hord := splitsFrom_ordinary [coinBase] hrest
    fun tx htx => hcs tx (List.mem_cons_of_mem _ htx)
  have hzero : valueIn P g txdb ([], coinBase) = 0 := if_pos hcb
  have hnotord : isOrdinary coinBase = false := by simp [isOrdinary, hcb]
  have hadded : valueAdded P g txdb (coinBase :: rest) =
      coinBase.valueOut - feesOf P g txdb (coinBase :: rest) := by
    unfold valueAdded feesOf
    rw [hsplits, List.map_cons, List.sum_cons, List.map_cons, List.sum_cons,
      added_eq_of_ordinary hord, hzero, if_neg (by simp [hnotord])]
    ring
  have hbound := getProofOfWorkReward_le hfees
    ((g.pindexBest.head?.map CBlockIndex.nHeight).getD 0)
  rw [← hnFees] at hbound
  omega

/-- A proof-of-stake block adds at most what its coinstake may create. -/
theorem stake_subsidy {s : ConnectState} (hchecked : b.BlockChecked P)
    (hs : Tally P g txdb pindex b b.vtx s) (hreward : checkReward g txdb b s = .ok ())
    (hpos : b.isProofOfStake = true) :
    ∃ nSubsidy, blockSubsidy g txdb b = some nSubsidy ∧ valueAdded P g txdb b.vtx ≤ nSubsidy := by
  have hpow : b.isProofOfWork = false := by simp [isProofOfWork, hpos]
  obtain ⟨coinBase, coinStake, others, hvtx, hcs, hempty, hothers⟩ := hchecked.coinstake hpos
  obtain ⟨coinBase', rest, hvtx', hcb, hrest⟩ := hchecked.coinbase
  rw [hvtx] at hvtx'
  obtain ⟨rfl, rfl⟩ := List.cons.inj hvtx'
  have hfees := feesOf_nonneg hs
  have hnFees := hs.nFees_eq
  have hnStake := hs.nStakeReward_eq
  have hout := hs.out_range
  have hin := hs.in_range
  unfold checkReward at hreward
  unfold blockSubsidy
  rw [hvtx] at hreward hfees hnFees hnStake hout hin ⊢
  simp only [hpow, Bool.false_eq_true, if_false, bind_ok, orFail_ok, require_ok,
    decide_eq_true_eq] at hreward ⊢
  obtain ⟨nCoinAge, hage, hle⟩ := hreward
  rw [hage]
  refine ⟨_, rfl, ?_⟩
  have hsplits : splits (coinBase :: coinStake :: others) =
      ([], coinBase) :: ([coinBase], coinStake) :: splitsFrom [coinBase, coinStake] others := rfl
  have hord := splitsFrom_ordinary [coinBase, coinStake]
    (fun tx htx => hrest tx (List.mem_cons_of_mem _ htx)) hothers
  -- the coinbase pays nothing
  have hcbout : coinBase.valueOut = 0 := by
    refine List.sum_eq_zero fun v hv => ?_
    obtain ⟨txout, htxout, rfl⟩ := List.mem_map.mp hv
    have := hempty txout htxout
    simp only [CTxOut.isEmpty, decide_eq_true_eq] at this
    exact this.1
  have hzero : valueIn P g txdb ([], coinBase) = 0 := if_pos hcb
  have hnot : isOrdinary coinBase = false := by simp [isOrdinary, hcb]
  have hnot' : isOrdinary coinStake = false := by simp [isOrdinary, hcs]
  have hstake : stakeOf P g txdb (coinBase :: coinStake :: others) = _ := stakeOf_second hcs hothers
  have hadded : valueAdded P g txdb (coinBase :: coinStake :: others) =
      (coinStake.valueOut - valueIn P g txdb ([coinBase], coinStake)) -
        feesOf P g txdb (coinBase :: coinStake :: others) := by
    unfold valueAdded feesOf
    rw [hsplits]
    simp only [List.map_cons, List.sum_cons]
    rw [added_eq_of_ordinary hord, hzero, hcbout, if_neg (by simp [hnot]), if_neg (by simp [hnot'])]
    ring
  -- the coinstake's own gain does not wrap
  have hmem : ([coinBase], coinStake) ∈ splits (coinBase :: coinStake :: others) := by
    rw [hsplits]; exact List.mem_cons_of_mem _ List.mem_cons_self
  have h1 : 0 ≤ coinStake.valueOut ∧ coinStake.valueOut ≤ _ := moneyRange_iff.mp (hout _ hmem)
  have h2 := moneyRange_iff.mp (hin _ hmem)
  rw [hstake, int64_of_range (by omega) (by omega)] at hnStake
  have hbound := getProofOfStakeReward_le (int64 nCoinAge) hfees
  rw [← hnFees] at hbound
  have hgain := (not_lt.mp hle).trans hbound
  rw [hnStake] at hgain
  rw [hadded]
  exact sub_le_iff_le_add.mpr hgain

/-- The increase of the money supply a connected block records is, up to wrapping, the value it
    adds. -/
theorem moneySupply_added {mem : Uint256 → BlockMem} {r : Connected}
    (hstored : Stored pindex b g.files)
    (h : connectBlock P g mem txdb pindex pprev b false = .ok r) :
    (r.mem pindex.hashBlock).nMoneySupply =
      int64 (prevMoneySupply mem pprev + valueAdded P g txdb b.vtx) := by
  obtain ⟨hchecked, s, hrun, -, hmem, -⟩ := connectBlock_ok h
  have hs := tally_run hstored hchecked hrun
  have hadd := int64_add_congr hs.added_eq (prevMoneySupply mem pprev)
  calc (r.mem pindex.hashBlock).nMoneySupply
      = int64 (prevMoneySupply mem pprev + s.nValueOut - s.nValueIn) := by
        rw [hmem, recordSupply_moneySupply]
    _ = int64 (s.nValueOut - s.nValueIn + prevMoneySupply mem pprev) := by
        rw [add_sub_assoc, add_comm]
    _ = int64 (prevMoneySupply mem pprev + valueAdded P g txdb b.vtx) := by
        rw [hadd, add_comm]

/-- **When a connected block creates nothing beyond its subsidy.**  For every block that connects,
    whatever the index: exactly when it is proof-of-stake, or has no coinstake-shaped transaction. -/
theorem noCoinsFromNothing_iff {mem : Uint256 → BlockMem} {r : Connected}
    (hstored : Stored pindex b g.files)
    (h : connectBlock P g mem txdb pindex pprev b false = .ok r) :
    NoCoinsFromNothing P g txdb b ↔
      (b.isProofOfStake = true ∨ ∀ tx ∈ b.vtx, tx.isCoinStake = false) := by
  obtain ⟨hchecked, s, hrun, hreward, -, -⟩ := connectBlock_ok h
  have hs := tally_run hstored hchecked hrun
  have hordinary : ∀ p ∈ splits b.vtx, isOrdinary p.2 = true → p.2.valueOut ≤ valueIn P g txdb p := by
    intro p hp hord
    have := hs.fee p hp hord
    omega
  constructor
  · -- a coinstake the reward check covers makes the block proof-of-stake
    intro hno
    by_contra hcon
    rw [not_or] at hcon
    obtain ⟨hwork, hcs⟩ := hcon
    push Not at hcs
    obtain ⟨tx, htx, hstake⟩ := hcs
    obtain ⟨pre, post, hvtx⟩ := List.append_of_mem htx
    exact hwork (hno.covered _ (mem_splits hvtx) (by simpa using hstake)).1
  · rintro (hpos | hcs)
    · refine ⟨stake_subsidy hchecked hs hreward hpos, hordinary, ?_⟩
      -- in a proof-of-stake block the one coinstake is in second place
      intro p hp hstake
      obtain ⟨coinBase, coinStake, others, hvtx, -, -, hothers⟩ := hchecked.coinstake hpos
      obtain ⟨coinBase', rest, hvtx', hcb, -⟩ := hchecked.coinbase
      rw [hvtx] at hvtx'
      obtain ⟨rfl, rfl⟩ := List.cons.inj hvtx'
      refine ⟨hpos, ?_⟩
      rw [hvtx] at hp
      rcases List.mem_cons.mp hp with rfl | hp
      · rw [coinBase.not_isCoinStake_of_isCoinBase hcb] at hstake
        cases hstake
      · rcases List.mem_cons.mp hp with rfl | hp
        · rfl
        · rw [hothers _ (mem_of_mem_splitsFrom hp).1] at hstake
          cases hstake
    · by_cases hpos : b.isProofOfStake = true
      · refine ⟨stake_subsidy hchecked hs hreward hpos, hordinary, ?_⟩
        intro p hp hstake
        rw [hcs _ (mem_of_mem_splitsFrom hp).1] at hstake
        cases hstake
      · refine ⟨work_subsidy hchecked hs hreward (by simpa using hpos) hcs, hordinary, ?_⟩
        intro p hp hstake
        rw [hcs _ (mem_of_mem_splitsFrom hp).1] at hstake
        cases hstake

end
end CBlock

/-! ## A proof-of-work block that mints -/

namespace Mint

/-- An earlier transaction with two outputs anyone can spend. -/
def txPrev : CTransaction where
  nVersion := 1
  nTime := 1399900000
  vin := [⟨⟨0x1111, 0⟩, [], 0xffffffff⟩]
  vout := [⟨10 * COIN, [0x51]⟩, ⟨10 * COIN, [0x51]⟩]
  nLockTime := 0

def hashPrevTx : Uint256 := 0x687451b3f0f825132e5cf388959faf6899ed71e509a3af3cf19d6a87824bfee5

def coinBase : CTransaction where
  nVersion := 1
  nTime := 1400000000
  vin := [⟨COutPoint.null, [0x01, 0x15], 0xffffffff⟩]
  vout := [⟨5000 * COIN, [0x51]⟩]
  nLockTime := 0

/-- An ordinary transaction in second place: the block stays proof-of-work. -/
def payment : CTransaction where
  nVersion := 1
  nTime := 1400000000
  vin := [⟨⟨hashPrevTx, 0⟩, [], 0xffffffff⟩]
  vout := [⟨10 * COIN - 10000, [0x51]⟩]
  nLockTime := 0

/-- Coinstake-shaped, in third place: ten coins in, a million out. -/
def minting : CTransaction where
  nVersion := 1
  nTime := 1400000000
  vin := [⟨⟨hashPrevTx, 1⟩, [], 0xffffffff⟩]
  vout := [⟨0, []⟩, ⟨1000000 * COIN, [0x51]⟩]
  nLockTime := 0

def block : CBlock where
  nVersion := 6
  hashPrevBlock := 0x2222
  hashMerkleRoot := 0x2b65fb5d42c845ab3322108994b69fabf72d8e1ce74835e75e718a754980d60a
  nTime := 1400000000
  nBits := 0x1e0fffff
  nNonce := 2580573
  vtx := [coinBase, payment, minting]
  vchBlockSig := []

/-- The hashes of these transactions and of this header; all scripts are `OP_1`. -/
def primitives : Primitives := Primitives.ofTables
  [(coinBase, 0x640ae1dda451197e389a88f6a599e980b73e32452707ab5ab9501ee6e0e6263b),
   (payment, 0x36477562371ff2aabd37015e3c0aa31c564e2e8732bf47607687005cce930999),
   (minting, 0xb72403f51c5c052ef91bd419a5995928935575fb38f1f3692e7bc51834b56dd4),
   (txPrev, hashPrevTx)]
  [(block.toCBlockHeader, 0x000009eef6f2524ddd8b9d23bbb12c87fafcfdf1380b237bedfc9700aa0c1f33)]
  [((0x640ae1dda451197e389a88f6a599e980b73e32452707ab5ab9501ee6e0e6263b,
     0x36477562371ff2aabd37015e3c0aa31c564e2e8732bf47607687005cce930999),
     0x16132cf021c954c7c61dd4a5556988774e6f672045f1a5c711a66d8eb6ac3148),
   ((0xb72403f51c5c052ef91bd419a5995928935575fb38f1f3692e7bc51834b56dd4,
     0xb72403f51c5c052ef91bd419a5995928935575fb38f1f3692e7bc51834b56dd4),
     0x8ed604e7c41f8c2a7ee739201f88dc2de16d03f447c2ff684cd3523aed182eea),
   ((0x16132cf021c954c7c61dd4a5556988774e6f672045f1a5c711a66d8eb6ac3148,
     0x8ed604e7c41f8c2a7ee739201f88dc2de16d03f447c2ff684cd3523aed182eea),
     0x2b65fb5d42c845ab3322108994b69fabf72d8e1ce74835e75e718a754980d60a)]

def pindex : CBlockIndex :=
  { CBlockIndex.ofBlock 1 5000 block with hashBlock := block.getHash primitives, nHeight := 21 }

/-- The previous block, of which only place, height and time matter. -/
def prev : CBlockIndex :=
  { CBlockIndex.ofBlock 1 4000 { block with nTime := 1399999900 } with
    hashBlock := 0x2222, nHeight := 20 }

/-- A node at height 20 with the block on disk. -/
def globals : Globals where
  fTestNet := false
  nAdjustedTime := 1400000000
  pindexBest := [prev]
  nBestHeight := 20
  mempool _ := none
  files :=
    { tx := fun nFile nTxPos =>
        if nFile = 1 ∧ nTxPos = 381 then some txPrev
        else if nFile = 1 ∧ nTxPos = 5081 then some coinBase
        else if nFile = 1 ∧ nTxPos = 5148 then some payment
        else if nFile = 1 ∧ nTxPos = 5213 then some minting
        else none
      block := fun nFile nBlockPos => if nFile = 1 ∧ nBlockPos = 5000 then some block else none
      header := fun nFile nBlockPos =>
        if nFile = 1 ∧ nBlockPos = 5000 then some block.toCBlockHeader else none }

/-- The index has the earlier transaction, both outputs unspent. -/
def txdb : CTxDB :=
  (⟨∅, none⟩ : CTxDB).updateTxIndex hashPrevTx (CTxIndex.new ⟨1, 300, 381⟩ 2)

theorem stored : CBlock.Stored pindex block globals.files :=
  CBlock.stored_of_splits (by decide)

theorem connects : ∃ r, CBlock.connectBlock primitives globals (fun _ => BlockMem.new) txdb pindex
    [prev] block false = .ok r :=
  exists_ok (by decide)

theorem noCoinsFromNothing_iff_block : ∃ r,
    CBlock.connectBlock primitives globals (fun _ => BlockMem.new) txdb pindex [prev] block false =
      .ok r ∧
    (CBlock.NoCoinsFromNothing primitives globals txdb block ↔
      (block.isProofOfStake = true ∨ ∀ tx ∈ block.vtx, tx.isCoinStake = false)) := by
  obtain ⟨r, hr⟩ := connects
  exact ⟨r, hr, CBlock.noCoinsFromNothing_iff stored hr⟩

/-- The block connects, its subsidy is 5000 coins, and it adds over a million. -/
theorem block_mints : CBlock.Stored pindex block globals.files ∧
    (∃ r, CBlock.connectBlock primitives globals (fun _ => BlockMem.new) txdb pindex [prev] block
      false = .ok r) ∧
    CBlock.blockSubsidy globals txdb block = some (5000 * COIN) ∧
    CBlock.valueAdded primitives globals txdb block.vtx = 1004990 * COIN - 10000 ∧
    ¬ CBlock.NoCoinsFromNothing primitives globals txdb block := by
  have hsubsidy : CBlock.blockSubsidy globals txdb block = some (5000 * COIN) := by decide
  have hadded : CBlock.valueAdded primitives globals txdb block.vtx = 1004990 * COIN - 10000 := by
    decide
  refine ⟨stored, connects, hsubsidy, hadded, ?_⟩
  rintro ⟨⟨nSubsidy, heq, hle⟩, -, -⟩
  rw [hsubsidy] at heq
  cases heq
  rw [hadded] at hle
  exact absurd hle (by decide)

end Mint
end Silkcoin
