/-
  THE RECORDED MONEY SUPPLY is the value of the unspent outputs.

  `ConnectBlock` keeps `nMoneySupply` up to date by adding what the block puts out and taking off what
  it spends; the transaction index is written on another path.  `unspentValue` is the other side of
  the equation: the outputs whose slot in the index is null, added up.

  1. The supply of a LEDGER moves with every entry (`supply_cons`), so that of the connected chain
     moves by the value the next block adds (`supply_block`).
  2. Every move of a switch keeps `Supplied`: the entry of each connected block holds the value of
     the outputs unspent up to it, as an `int64_t`.
  3. A run is any sequence of successful `SetBestChain` calls (`SwitchRun`).  As long as every
     postponed block is connected, the chain below the tip is the connected one, and its entries
     are right (`nMoneySupply_eq_unspentValue`).

  Where a postponed block is NOT connected, the tip is published all the same.  The next block then
  builds on an entry that never got a supply, and counts on from zero (`Uncounted`).
-/
import Silkcoin.TipAgreement

namespace Silkcoin

open Validation BatchStore SpendLedger

/-! ## The value of the unspent outputs -/

/-- The outputs of a transaction whose slots are null, added up. -/
def nullSlots (vout : List CTxOut) (vSpent : List CDiskTxPos) : Int :=
  ((vout.zip vSpent).map fun p => if p.2.isNull then p.1.nValue else 0).sum

/-- The outputs of the connected transactions whose slot in the index is null, added up. -/
def unspentValue (P : Primitives) (chain : Chain) (txdb : CTxDB) : Int :=
  ((connectedTxs chain).map fun r =>
    match txdb.readTxIndex (P.getHash r.1) with
    | none => 0
    | some txindex => nullSlots r.1.vout txindex.vSpent).sum

section Ledger

variable {P : Primitives} {chain : Chain} {txdb : CTxDB}

/-- Slots against the spenders of a ledger, from output `k` on. -/
theorem nullSlots_eq_outsSum {l : TxLedger} {i : Uint256} {vout : List CTxOut}
    {vSpent : List CDiskTxPos} {k : Nat} (hlen : vSpent.length = vout.length)
    (hnull : ∀ n q, vSpent[n]? = some q → (q.isNull = true ↔ spender l (i, k + n) = none)) :
    nullSlots vout vSpent = outsSum (fun o => ¬ spender l o = none) i k (vout.map CTxOut.nValue) := by
  induction vout generalizing vSpent k with
  | nil => rfl
  | cons txout vout ih =>
    cases vSpent with
    | nil => cases hlen
    | cons q vSpent =>
      have hnull' : ∀ n q, vSpent[n]? = some q →
          (q.isNull = true ↔ spender l (i, k + 1 + n) = none) := by
        intro n q hq
        have := hnull (n + 1) q hq
        rwa [show k + (n + 1) = k + 1 + n by omega] at this
      have hrest := ih (Nat.succ.inj hlen) hnull'
      have hfirst : q.isNull = true ↔ spender l (i, k) = none := hnull 0 q rfl
      unfold nullSlots at hrest ⊢
      rw [List.zip_cons_cons, List.map_cons, List.sum_cons, hrest, List.map_cons, outsSum]
      congr 1
      by_cases hq : q.isNull = true
      · rw [if_pos hq, if_neg (not_not.mpr (hfirst.mp hq))]
      · rw [if_neg hq, if_pos (show ¬ spender l (i, k) = none from fun hsp => hq (hfirst.mpr hsp))]

/-- The null slots of the index are the unspent outputs of the ledger. -/
theorem unspentValue_eq_supply (hv : Valid (ledgerOf P chain)) (hl : IsLedger P chain txdb) :
    unspentValue P chain txdb = supply (ledgerOf P chain) := by
  unfold unspentValue supply sumExcept
  rw [show (ledgerOf P chain).map _ = (connectedTxs chain).map _ from List.map_map]
  refine congrArg List.sum (List.map_congr_left fun r hr => ?_)
  obtain ⟨txindex, hread, -, hlen⟩ := hl.entry_eq r hr
  rw [hread]
  refine nullSlots_eq_outsSum hlen fun n q hq => ?_
  have hslot := (hl.slot_iff _ _ _ _ hread hq).1
  rw [spendersOf_eq P, hv.spenders_eq] at hslot
  rw [Nat.zero_add, show (txEntry P r.1 r.2).id = P.getHash r.1 from rfl]
  cases hsp : spender (ledgerOf P chain) (P.getHash r.1, n) with
  | none =>
    rw [hsp] at hslot
    refine iff_of_true ?_ rfl
    by_contra hne
    obtain ⟨pos, hpos⟩ := hslot.mp (by simpa using hne)
    cases hpos
  | some pos =>
    rw [hsp] at hslot
    have hne := hslot.mpr ⟨pos, rfl⟩
    refine iff_of_false ?_ (Option.some_ne_none pos)
    rw [hne]
    exact Bool.false_ne_true

/-- What the ledger holds behind an outpoint is what `ConnectBlock` reads there. -/
theorem valueAt_eq_prevValue {g : Globals} {pindex : CBlockIndex} {b : CBlock}
    {pre : List CTransaction} (hstored : ChainStored g.files chain)
    (hr : Refines txdb.readTxIndex (ledgerOf P chain)) (hv' : Valid (ledgerOf P chain))
    (hv : Valid (blockEntries P pindex b pre ++ ledgerOf P chain)) {o : COutPoint}
    (ho : ∃ d ∈ blockEntries P pindex b pre ++ ledgerOf P chain, d.id = o.hash) :
    valueAt (blockEntries P pindex b pre ++ ledgerOf P chain) o.key =
      CBlock.prevValue P g txdb pre o := by
  have hval : ∀ {tx : CTransaction} {pos : CDiskTxPos},
      txEntry P tx pos ∈ blockEntries P pindex b pre ++ ledgerOf P chain → P.getHash tx = o.hash →
      valueAt (blockEntries P pindex b pre ++ ledgerOf P chain) o.key =
        ((tx.vout[o.n.toNat]?).map CTxOut.nValue).getD 0 := by
    intro tx pos hmem hhash
    have hfind := hv.find_mem hmem
    unfold valueAt
    rw [show o.key.1 = (txEntry P tx pos).id from hhash.symm, hfind]
    show (tx.vout.map CTxOut.nValue).getD o.n.toNat 0 = _
    rw [List.getD_eq_getElem?_getD, List.getElem?_map]
  unfold CBlock.prevValue CBlock.prevOut
  cases hpre : pre.find? fun tx => decide (P.getHash tx = o.hash) with
  | some tx =>
    -- an output of the block itself
    have hhash : P.getHash tx = o.hash := by simpa using List.find?_some hpre
    have htx := List.mem_of_find?_eq_some hpre
    rw [← splits_map_snd pre] at htx
    obtain ⟨p, hp, rfl⟩ := List.mem_map.mp htx
    exact hval (List.mem_append_left _ (mem_blockEntries.mpr ⟨p, hp, rfl⟩)) hhash
  | none =>
    -- an output of the chain, behind the index
    obtain ⟨d, hd, hid⟩ := ho
    have hd : d ∈ ledgerOf P chain := by
      rcases List.mem_append.mp hd with hd | hd
      · obtain ⟨p, hp, rfl⟩ := mem_blockEntries.mp hd
        have hno := List.find?_eq_none.mp hpre p.2 (mem_splits_snd hp)
        exact absurd (show P.getHash p.2 = o.hash from hid) (by simpa using hno)
      · exact hd
    have hmem := hd
    obtain ⟨r, hrow, rfl⟩ := List.mem_map.mp hd
    obtain ⟨c, hc, hrow⟩ := List.mem_flatMap.mp hrow
    rw [List.mem_reverse, List.mem_map] at hrow
    obtain ⟨p, hp, rfl⟩ := hrow
    obtain ⟨post, hvtx⟩ := mem_splitsFrom (l := c.block.vtx) rfl hp
    have hread : txdb.readTxIndex o.hash = some (encode (CBlock.txPosition c.pindex c.block p.1,
        slots (ledgerOf P chain) (txEntry P p.2 (CBlock.txPosition c.pindex c.block p.1)))) := by
      rw [hr, view, ← hid, hv'.find_mem hmem]
      rfl
    have hprev : CTransaction.prevTxOf g o.hash (encode (CBlock.txPosition c.pindex c.block p.1,
        slots (ledgerOf P chain) (txEntry P p.2 (CBlock.txPosition c.pindex c.block p.1)))) =
        .ok p.2 := (hstored c hc).prevTxOf hvtx o.hash rfl
    dsimp only
    rw [hread]
    dsimp only
    rw [hprev]
    exact hval (List.mem_append_right _ hmem) hid

/-- What the next transaction of a block spends, by the ledger, is its value in. -/
theorem spentValue_eq_valueIn {g : Globals} {pindex : CBlockIndex} {b : CBlock}
    {pre : List CTransaction} {tx : CTransaction} (hstored : ChainStored g.files chain)
    (hr : Refines txdb.readTxIndex (ledgerOf P chain))
    (hv : Valid (txEntry P tx (CBlock.txPosition pindex b pre) ::
      (blockEntries P pindex b pre ++ ledgerOf P chain))) :
    ((CBlock.spentKeys tx).map (valueAt (blockEntries P pindex b pre ++ ledgerOf P chain))).sum =
      CBlock.valueIn P g txdb (pre, tx) := by
  have hspends : (CBlock.spentKeys tx).map
      (valueAt (blockEntries P pindex b pre ++ ledgerOf P chain)) =
      if tx.isCoinBase then [] else tx.prevouts.map (CBlock.prevValue P g txdb pre) := by
    unfold CBlock.spentKeys
    by_cases hcb : tx.isCoinBase = true
    · rw [if_pos hcb, if_pos hcb]; rfl
    · rw [if_neg hcb, if_neg hcb, List.map_map]
      refine List.map_congr_left fun o ho => ?_
      have hkey : o.key ∈ (txEntry P tx (CBlock.txPosition pindex b pre)).spends := by
        show o.key ∈ CBlock.spentKeys tx
        rw [CBlock.spentKeys, if_neg hcb]
        exact List.mem_map_of_mem ho
      obtain ⟨d, hd, hid, -⟩ := hv.head_exists hkey
      exact valueAt_eq_prevValue hstored hr (valid_of_append hv.tail) hv.tail ⟨d, hd, hid⟩
  rw [hspends]
  unfold CBlock.valueIn
  split
  · rfl
  · rfl

/-- **One block more**: the supply moves by the value it adds. -/
theorem supply_block {g : Globals} {pindex : CBlockIndex} {b : CBlock}
    (hstored : ChainStored g.files chain) (hr : Refines txdb.readTxIndex (ledgerOf P chain))
    (hv : Valid (ledgerOf P (⟨pindex, b⟩ :: chain))) :
    supply (ledgerOf P (⟨pindex, b⟩ :: chain)) =
      supply (ledgerOf P chain) + CBlock.valueAdded P g txdb b.vtx := by
  rw [ledgerOf_cons] at hv ⊢
  dsimp only at hv ⊢
  -- over the transactions connected so far
  generalize b.vtx = vtx at hv ⊢
  induction vtx using List.reverseRecOn with
  | nil =>
    show supply (ledgerOf P chain) = supply (ledgerOf P chain) + 0
    rw [add_zero]
  | append_singleton pre tx ih =>
    rw [blockEntries_append_one, List.cons_append] at hv ⊢
    have hin := spentValue_eq_valueIn hstored hr hv
    have hadded : CBlock.valueAdded P g txdb (pre ++ [tx]) = CBlock.valueAdded P g txdb pre +
        (tx.valueOut - CBlock.valueIn P g txdb (pre, tx)) := by
      unfold CBlock.valueAdded
      rw [splits_append_one, List.map_append, List.sum_append]
      simp
    rw [supply_cons hv, ih hv.tail, hadded,
      show (txEntry P tx (CBlock.txPosition pindex b pre)).spends = CBlock.spentKeys tx from rfl, hin,
      show (txEntry P tx (CBlock.txPosition pindex b pre)).outs.sum = tx.valueOut from rfl]
    omega

end Ledger

/-! ## What the entries record -/

namespace NodeState

variable {P : Primitives} {S : Set CTransaction} {s s' : NodeState} {chain chain' : Chain}

/-- The entry of every connected block records the supply of the chain up to it. -/
structure Supplied (P : Primitives) (s : NodeState) (chain : Chain) : Prop where
  base : CBlock.prevMoneySupply s.mem s.pindexGenesisBlock = 0
  entry : ∀ c C, c :: C <:+ chain →
    (s.mem c.pindex.hashBlock).nMoneySupply = int64 (supply (ledgerOf P (c :: C)))

/-- The supply recorded below a block on top of the chain. -/
theorem Supplied.prev (h : Supplied P s chain) :
    CBlock.prevMoneySupply s.mem (Chain.ptr s.pindexGenesisBlock chain) =
      int64 (supply (ledgerOf P chain)) := by
  cases chain with
  | nil =>
    rw [show Chain.ptr s.pindexGenesisBlock [] = s.pindexGenesisBlock from rfl, h.base]
    rfl
  | cons c C => exact h.entry c C (List.suffix_refl _)

/-- Only the recorded supplies of the chain's blocks and of genesis matter. -/
theorem Supplied.congr (h : Supplied P s chain)
    (hgenesis : s'.pindexGenesisBlock = s.pindexGenesisBlock)
    (hmem : ∀ p ∈ Chain.ptr s.pindexGenesisBlock chain,
      (s'.mem p.hashBlock).nMoneySupply = (s.mem p.hashBlock).nMoneySupply) :
    Supplied P s' chain := by
  constructor
  · rw [hgenesis, ← h.base]
    unfold CBlock.prevMoneySupply
    cases hbase : s.pindexGenesisBlock with
    | nil => rfl
    | cons genesis rest =>
      refine hmem genesis ?_
      unfold Chain.ptr
      rw [hbase]
      exact List.mem_append_right _ List.mem_cons_self
  · intro c C hsuf
    rw [← h.entry c C hsuf]
    refine hmem c.pindex ?_
    unfold Chain.ptr
    exact List.mem_append_left _ (List.mem_map_of_mem (hsuf.subset List.mem_cons_self))

theorem Supplied.suffix {D : Chain} (h : Supplied P s (D ++ chain)) : Supplied P s chain :=
  ⟨h.base, fun c C hsuf => h.entry c C (hsuf.trans (List.suffix_append D chain))⟩

theorem setNext_nMoneySupply (next : Option Uint256) (pprev : BlockPtr) (hash : Uint256) :
    ((s.setNext next pprev).mem hash).nMoneySupply = (s.mem hash).nMoneySupply := by
  unfold setNext
  cases pprev with
  | nil => rfl
  | cons prev rest =>
    show (Function.update s.mem prev.hashBlock _ hash).nMoneySupply = _
    by_cases heq : hash = prev.hashBlock
    · subst heq
      rw [Function.update_self]
    · rw [Function.update_of_ne heq]

/-- **One block on top** records the supply with it. -/
theorem Supplied.connect (hinj : Set.InjOn P.getHash S) (ht : TreeOk P S s) (hb : Built P S s chain)
    (h : Supplied P s chain) {pindex : CBlockIndex} {b : CBlock}
    (hnew : InTree s (pindex :: Chain.ptr s.pindexGenesisBlock chain))
    (hread : readFromDisk P s.globals pindex = some b)
    (hconnect : s.connectBlock P pindex (Chain.ptr s.pindexGenesisBlock chain) b = .ok s') :
    Supplied P s' (⟨pindex, b⟩ :: chain) := by
  have hb' := (hb.connect ht hnew hread hconnect).1
  have hvalid := (hb'.run.index hinj).valid
  obtain ⟨r, wallets, hr, rfl⟩ := connectBlock_ok hconnect
  have hi := hb.run.index hinj
  have hstored : CBlock.Stored pindex b s.files := hb'.stored _ List.mem_cons_self
  have hnd := InTree.nodup ht hnew
  rw [List.map_cons, List.nodup_cons] at hnd
  have hbelow : Supplied P { s with txdb := r.txdb, mem := r.mem, wallets := wallets } chain := by
    refine h.congr rfl fun p hp => ?_
    have hne : p.hashBlock ≠ pindex.hashBlock := fun heq => hnd.1 (heq ▸ List.mem_map_of_mem hp)
    show (r.mem p.hashBlock).nMoneySupply = _
    rw [connectBlock_mem hr hne]
  refine ⟨hbelow.base, fun c C hsuf => ?_⟩
  rcases List.suffix_cons_iff.mp hsuf with heq | hsuf
  · obtain ⟨rfl, rfl⟩ := List.cons.inj heq
    show (r.mem pindex.hashBlock).nMoneySupply = _
    rw [CBlock.moneySupply_added (g := s.globals) hstored hr, h.prev, int64_add_left,
      supply_block (g := s.globals) hb.stored hi.refines hvalid]
  · exact hbelow.entry c C hsuf

/-- STEP LEMMA: a move of a switch keeps what is recorded. -/
theorem Supplied.move (hinj : Set.InjOn P.getHash S) (ht : TreeOk P S s) (hb : Built P S s chain)
    (h : Supplied P s chain) (hmove : Move P (s, chain) (s', chain')) :
    TreeOk P S s' ∧ Built P S s' chain' ∧ Supplied P s' chain' := by
  cases hmove with
  | connect hnew hread hconnect =>
    obtain ⟨hb', hsame, -⟩ := hb.connect ht hnew hread hconnect
    exact ⟨ht.of_same hsame, hb', h.connect hinj ht hb hnew hread hconnect⟩
  | @disconnect _ _ c _ hdisconnect =>
    obtain ⟨hb', hsame, hmem⟩ := hb.disconnect hdisconnect
    refine ⟨ht.of_same hsame, hb', ?_⟩
    have hsuf : Supplied P s chain' := Supplied.suffix (D := [c]) h
    exact hsuf.congr hsame.pindexGenesisBlock fun p _ => by rw [hmem]
  | txnBegin hbegin =>
    have hsame := (InTxn.begin hbegin).same
    obtain ⟨hclosed, hs'⟩ := txnBegin_ok hbegin
    refine ⟨ht.of_same hsame, hb.silent hsame fun hash => ?_, h.congr hsame.pindexGenesisBlock
      fun p _ => ?_⟩
    · rw [hs']
      exact CTxDB.readTxIndex_txnBegin _ hclosed hash
    · rw [hs']
  | commit hcommit =>
    obtain ⟨hb', -, -, hsame, hmem⟩ := hb.commit hcommit
    exact ⟨ht.of_same hsame, hb', h.congr hsame.pindexGenesisBlock fun p _ => by rw [hmem]⟩
  | setNext next pprev =>
    obtain ⟨hsame, htxdb⟩ := setNext_same (s := s) next pprev
    exact ⟨ht.of_same hsame, hb.silent hsame fun hash => by rw [htxdb],
      h.congr hsame.pindexGenesisBlock fun p _ => setNext_nMoneySupply next pprev _⟩
  | pool mempool =>
    have hsame : SameTree s { s with mempool := mempool } := ⟨rfl, rfl, rfl, rfl⟩
    exact ⟨ht.of_same hsame, hb.silent hsame fun _ => rfl, h.congr rfl fun _ _ => rfl⟩
  | undone hclosed hu hsame hmem =>
    refine ⟨ht.of_same hsame, hb.silent hsame fun hash => ?_, h.congr hsame.pindexGenesisBlock
      fun p hp => by rw [hmem p hp]⟩
    unfold CTxDB.readTxIndex
    rw [hu.read hclosed fun hkey => by cases hkey]

/-- RUN LEMMA, over the moves of one switch. -/
theorem Supplied.moves (hinj : Set.InjOn P.getHash S) (ht : TreeOk P S s) (hb : Built P S s chain)
    (h : Supplied P s chain) (hmoves : Moves P (s, chain) (s', chain')) : Supplied P s' chain' := by
  have hall : ∀ x y, Moves P x y → TreeOk P S x.1 → Built P S x.1 x.2 → Supplied P x.1 x.2 →
      TreeOk P S y.1 ∧ Built P S y.1 y.2 ∧ Supplied P y.1 y.2 := by
    intro x y hxy hx₁ hx₂ hx₃
    induction hxy with
    | refl => exact ⟨hx₁, hx₂, hx₃⟩
    | tail _ hmove ih => exact ih.2.2.move hinj ih.1 ih.2.1 hmove
  exact (hall _ _ hmoves ht hb h).2.2

/-! ## Runs -/

/-- What may happen between two switches: blocks arrive and are written, transactions come and go.  The
    tip, the blocks below it and their records stay. -/
structure Between (P : Primitives) (S : Set CTransaction) (s s' : NodeState) : Prop where
  tree : TreeOk P S s'
  inTree : InTree s' s.pindexBest
  pindexGenesisBlock : s'.pindexGenesisBlock = s.pindexGenesisBlock
  hashBestChain : s'.hashBestChain = s.hashBestChain
  pindexBest : s'.pindexBest = s.pindexBest
  nBestHeight : s'.nBestHeight = s.nBestHeight
  read : ∀ p ∈ s.pindexBest, readFromDisk P s'.globals p = readFromDisk P s.globals p
  stored : ∀ pindex b, CBlock.Stored pindex b s.files → CBlock.Stored pindex b s'.files
  index : ∀ hash, s'.txdb.readTxIndex hash = s.txdb.readTxIndex hash
  best : s'.txdb.readHashBestChain = s.txdb.readHashBestChain
  mem : ∀ p ∈ s.pindexBest, s'.mem p.hashBlock = s.mem p.hashBlock

/-- The states reached from genesis by successful calls of `SetBestChain`, each of which connected the
    blocks it had postponed. -/
inductive SwitchRun (P : Primitives) (S : Set CTransaction) : NodeState → Prop where
  | start {s : NodeState} (ht : TreeOk P S s) (hagrees : TipAgrees P S s)
      (hin : InTree s s.pindexBest) (hgenesis : s.pindexBest = s.pindexGenesisBlock)
      (hsupply : CBlock.prevMoneySupply s.mem s.pindexGenesisBlock = 0) : SwitchRun P S s
  | between {s s' : NodeState} (hrun : SwitchRun P S s) (h : Between P S s s') : SwitchRun P S s'
  | setBestChain {s s' : NodeState} {pindex : CBlockIndex} {rest : BlockPtr} {b : CBlock}
      (hrun : SwitchRun P S s) (hnew : InTree s (pindex :: rest))
      (hread : readFromDisk P s.globals pindex = some b)
      (hall : PostponedConnect P s (pindex :: rest) b)
      (h : s.setBestChain P (pindex :: rest) b = .ok s') : SwitchRun P S s'

/-- What holds in every state of a run. -/
structure RunState (P : Primitives) (S : Set CTransaction) (s : NodeState) (chain : Chain) : Prop where
  tree : TreeOk P S s
  agrees : TipAgrees P S s
  inTree : InTree s s.pindexBest
  ptr : s.pindexBest = Chain.ptr s.pindexGenesisBlock chain
  built : Built P S s chain
  supplied : Supplied P s chain

theorem RunState.between (h : RunState P S s chain) (hstep : Between P S s s') :
    RunState P S s' chain := by
  have hptr : s'.pindexBest = Chain.ptr s'.pindexGenesisBlock chain := by
    rw [hstep.pindexBest, hstep.pindexGenesisBlock, h.ptr]
  have hin : ∀ c ∈ chain, c.pindex ∈ s.pindexBest := by
    intro c hc
    rw [h.ptr]
    exact List.mem_append_left _ (List.mem_map_of_mem hc)
  have hbuilt : ∀ {C : Chain}, (∀ c ∈ C, c.pindex ∈ s.pindexBest) → Built P S s C →
      Built P S s' C := by
    intro C hC hb
    refine ⟨?_, fun c hc => ?_, fun c hc => hstep.stored _ _ (hb.stored c hc)⟩
    · rw [hstep.pindexGenesisBlock]
      exact ChainRun.silent hb.run hstep.index
    · rw [hstep.read _ (hC c hc)]
      exact hb.read c hc
  refine ⟨hstep.tree, ?_, by rw [hstep.pindexBest]; exact hstep.inTree, hptr, hbuilt hin h.built,
    h.supplied.congr hstep.pindexGenesisBlock fun p hp => ?_⟩
  · have hb := hbuilt hin h.built
    refine ⟨?_, ?_, ?_, ⟨chain, hptr, hb, fun hinj => (hb.run.index hinj).toIndexOf.isLedger⟩, ?_⟩
    · rw [hstep.best, hstep.hashBestChain]
      exact h.agrees.stored
    · rw [hstep.pindexBest, hstep.hashBestChain]
      exact h.agrees.tip
    · rw [hstep.nBestHeight, hstep.pindexBest]
      exact h.agrees.height
    · rw [hstep.pindexBest]
      exact h.agrees.linked.congr fun q hq => by rw [hstep.mem q (List.mem_of_mem_tail hq)]
  · rw [hstep.mem p (h.ptr ▸ hp)]

theorem RunState.setBestChain (hinj : Set.InjOn P.getHash S) (h : RunState P S s chain)
    {pindex : CBlockIndex} {rest : BlockPtr} {b : CBlock} (hnew : InTree s (pindex :: rest))
    (hread : readFromDisk P s.globals pindex = some b)
    (hall : PostponedConnect P s (pindex :: rest) b)
    (hstep : s.setBestChain P (pindex :: rest) b = .ok s') : ∃ chain', RunState P S s' chain' := by
  have hagrees' := (setBestChain_tipAgrees_iff h.tree h.agrees h.inTree hnew hread hstep).mpr hall
  obtain ⟨hc₀, s₁, chain', pre, rfl, hchanges, hptr, hiff⟩ := setBestChain_ok h.tree h.agrees h.ptr
    h.built h.inTree hnew hread hstep
  obtain rfl := hiff.mpr hall
  obtain ⟨hc, hsame, hmoves⟩ := hchanges.onChain h.tree hc₀
  rw [← hsame.pindexGenesisBlock] at hptr
  have hsame' : SameTree s₁ (s₁.publish (pindex :: rest) pindex.hashBlock) := ⟨rfl, rfl, rfl, rfl⟩
  have hsupplied := h.supplied.moves hinj h.tree h.built hmoves
  exact ⟨chain', h.tree.of_same (hsame.trans hsame'), hagrees', (hsame.trans hsame').inTree.mpr hnew,
    hptr, hc.toBuilt.silent hsame' fun _ => rfl, hsupplied.congr rfl fun _ _ => rfl⟩

theorem SwitchRun.state (hinj : Set.InjOn P.getHash S) (hrun : SwitchRun P S s) :
    ∃ chain, RunState P S s chain := by
  induction hrun with
  | @start s ht hagrees hin hgenesis hsupply =>
    obtain ⟨chain, hchain, hb, -⟩ := hagrees.connected
    have hnil : chain = [] := by
      have hlen := congrArg List.length (hgenesis.symm.trans hchain)
      unfold Chain.ptr at hlen
      rw [List.length_append, List.length_map] at hlen
      exact List.length_eq_zero_iff.mp (by omega)
    subst hnil
    refine ⟨[], ht, hagrees, hin, hchain, hb, hsupply, fun c C hsuf => ?_⟩
    cases List.suffix_nil.mp hsuf
  | between _ h ih =>
    obtain ⟨chain, hs⟩ := ih
    exact ⟨chain, hs.between h⟩
  | setBestChain _ hnew hread hall h ih =>
    obtain ⟨chain, hs⟩ := ih
    exact hs.setBestChain hinj hnew hread hall h

/-- **The money supply.**  In every state of a run the index is that of the chain below the tip, and
    the entry of every block of the chain records the value of the outputs unspent in the index of
    the blocks up to it, if that fits an `int64_t`. -/
theorem nMoneySupply_eq_unspentValue (hinj : Set.InjOn P.getHash S) (hrun : SwitchRun P S s) :
    ∃ chain, s.pindexBest = Chain.ptr s.pindexGenesisBlock chain ∧ IsLedger P chain s.txdb ∧
      ∀ c C, c :: C <:+ chain → ∀ txdb, IsLedger P (c :: C) txdb →
        -9223372036854775808 ≤ unspentValue P (c :: C) txdb →
        unspentValue P (c :: C) txdb < 9223372036854775808 →
        (s.mem c.pindex.hashBlock).nMoneySupply = unspentValue P (c :: C) txdb := by
  obtain ⟨chain, hs⟩ := hrun.state hinj
  have hi := hs.built.run.index hinj
  refine ⟨chain, hs.ptr, hi.toIndexOf.isLedger, fun c C hsuf txdb hl hlo hhi => ?_⟩
  have hvalid : Valid (ledgerOf P (c :: C)) := by
    obtain ⟨D, rfl⟩ := hsuf
    have hv := hi.valid
    unfold ledgerOf connectedTxs at hv ⊢
    rw [List.flatMap_append, List.map_append] at hv
    exact valid_of_append hv
  rw [hs.supplied.entry c C hsuf, ← unspentValue_eq_supply hvalid hl]
  exact int64_of_range hlo hhi

end NodeState

/-! ## Where a postponed block is not connected -/

namespace Uncounted

open Sample Switching

def coinBaseB4 : CTransaction := coinBaseTx 1398947578 [0x54, 0x42] (5000 * COIN)

def blockB4 : CBlock :=
  workBlock hashB3 0xf377ac905cec5cb48b8fb0c10317bbee5d1e9594e171524e73f694f6dd66f821 172730 coinBaseB4

def hashB4 : Uint256 := 0x000009859985cdd82d515f73d0aef9f158f9bfea2b247537513af2380f8f7efa

def indexB4 : CBlockIndex := entryOn indexB3 1100 hashB4 blockB4

def ptrB4 : BlockPtr := indexB4 :: ptrB3

def blocks : Chain := ⟨indexB4, blockB4⟩ :: Switching.blocks

def txs : List (CTransaction × Uint256) := (coinBaseB4, blockB4.hashMerkleRoot) :: Switching.txs

def primitives : Primitives := Primitives.ofTables txs
  ((blockB4.toCBlockHeader, hashB4) :: [(blockA1.toCBlockHeader, hashA1),
    (blockB1.toCBlockHeader, hashB1), (blockB2.toCBlockHeader, hashB2),
    (blockB3.toCBlockHeader, hashB3)]) []

/-- The pointers of the tree. -/
def ptrs : List BlockPtr :=
  [ptrB4, ptrB3, [indexB2, indexB1, genesis], [indexB1, genesis], [genesis], ptrA1]

/-- A node that has genesis for its tip, and every block on disk. -/
def node : NodeState :=
  { Switching.node with
    files := filesOf blocks
    tree := { Switching.tree with
      mapBlockIndex := ptrs.foldr (fun ptr m => m.insert
        ((ptr.head?.map CBlockIndex.hashBlock).getD 0) ptr) ∅ }
    mem := freshMem
    txdb := emptyDb.writeHashBestChain hashGenesisBlock
    hashBestChain := hashGenesisBlock
    pindexBest := [genesis]
    nBestHeight := 0
    nBestChainTrust := genesis.nChainTrust }

/-- The node after the tips `A1`, `B3` and `B4`. -/
def atA1 : NodeState := ((node.setBestChain primitives ptrA1 blockA1).toOption).getD node

def atB3 : NodeState := ((atA1.setBestChain primitives ptrB3 blockB3).toOption).getD node

def atB4 : NodeState := ((atB3.setBestChain primitives ptrB4 blockB4).toOption).getD node

/-- Every call succeeds, and the entry of `B4` records its own coinbase only: `B3` was published
    without being connected. -/
theorem nMoneySupply_blockB4 :
    node.setBestChain primitives ptrA1 blockA1 = .ok atA1 ∧
    atA1.setBestChain primitives ptrB3 blockB3 = .ok atB3 ∧
    atB3.setBestChain primitives ptrB4 blockB4 = .ok atB4 ∧
    atB4.pindexBest = ptrB4 ∧
    (atB4.mem hashB4).nMoneySupply = 5000 * COIN ∧
    unspentValue primitives [⟨indexB4, blockB4⟩, ⟨indexB2, blockB2⟩, ⟨indexB1, blockB1⟩] atB4.txdb =
      15000 * COIN ∧
    unspentValue primitives [⟨indexB4, blockB4⟩, ⟨indexB3, blockB3⟩, ⟨indexB2, blockB2⟩,
      ⟨indexB1, blockB1⟩] atB4.txdb = 15000 * COIN :=
  ⟨eq_ok_getD (by decide) _, eq_ok_getD (by decide) _,
    eq_ok_getD (by decide) _, by decide, by decide, by decide,
    by decide⟩

def S : Set CTransaction := { tx | tx ∈ txs.map Prod.fst }

/-- The tables are sound, and what is on disk is what was put there. -/
theorem tables : Set.InjOn primitives.getHash S ∧ ChainStored node.files blocks ∧
    NodeState.TreeOk primitives S node :=
  NodeState.TreeOk.of_tables (fun ptr => ({ nodeB ptr with files := filesOf blocks }, treeUpTo ptr)) rfl
    (by decide)

/-- The tip `A1`, on top of genesis. -/
theorem nMoneySupply_eq_unspentValue_blockA1 : ∃ chain,
    atA1.pindexBest = Chain.ptr atA1.pindexGenesisBlock chain ∧ IsLedger primitives chain atA1.txdb ∧
      ∀ c C, c :: C <:+ chain → ∀ txdb, IsLedger primitives (c :: C) txdb →
        -9223372036854775808 ≤ unspentValue primitives (c :: C) txdb →
        unspentValue primitives (c :: C) txdb < 9223372036854775808 →
        (atA1.mem c.pindex.hashBlock).nMoneySupply = unspentValue primitives (c :: C) txdb := by
  obtain ⟨hinj, -, htree⟩ := tables
  have hbuilt : NodeState.Built primitives S node [] := .start readTxIndex_genesisDb
  have htip : NodeState.TipAgrees primitives S node :=
    ⟨by decide, rfl, rfl, ⟨[], rfl, hbuilt, fun hinj => (hbuilt.run.index hinj).toIndexOf.isLedger⟩,
      trivial⟩
  have hstart : NodeState.SwitchRun primitives S node :=
    .start htree htip ⟨hashGenesisBlock, by decide⟩ rfl rfl
  refine NodeState.nMoneySupply_eq_unspentValue hinj (hstart.setBestChain
    (show node.InTree ptrA1 from ⟨hashA1, by decide⟩)
    (show readFromDisk primitives node.globals indexA1 = some blockA1 by decide) (Or.inl rfl)
    (eq_ok_getD (by decide) _))

end Uncounted
end Silkcoin
