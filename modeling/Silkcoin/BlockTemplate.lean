/-
  The template of `CreateNewBlock` connects.

  What is in the block is said without the queue: `Connects` takes the transactions one after the other
  and puts each on top of the chain and of those before it, with its signature operations and its fee.
  That the loop builds such a list is its invariant (`Assembled`), whatever the queue hands out and
  whatever is skipped on the way: a transaction that fails leaves nothing behind.

  The rest follows from the LEDGER.  The test pool over the database shows the chain with the template on
  top (`Connects.ledger`); in a ledger every spent output exists below and no outpoint is spent twice, so
  a parent comes before its child and there are no double spends.

  The loop ENDS, and throws nothing: every transaction of the pool is in the queue or waits, a turn takes
  one off, and what waits goes to the queue once (`pending`).
-/
import Silkcoin.CreateNewBlock
import Silkcoin.PoolConflicts

namespace Silkcoin

open Validation BatchStore SpendLedger

namespace NodeState

variable {D : Type} {P : Primitives} {F : Doubles D} {heap : Heap D} {args : MinerArgs} {s : NodeState}

/-! ## The memory pool -/

/-- A transaction of the pool that may go into a block. -/
def Candidate (s : NodeState) (tx : CTransaction) : Prop :=
  (∃ hash, s.mempool.mapTx.lookup hash = some tx) ∧ tx.isCoinBase = false ∧ tx.isCoinStake = false

/-- The pool holds its transactions under their hashes; they passed `CheckTransaction`, and each of their
    inputs is an output on disk or in the pool.  `S` are the transactions at hand. -/
structure PoolReady (P : Primitives) (S : Set CTransaction) (s : NodeState) : Prop where
  keyed : ∀ hash tx, s.mempool.mapTx.lookup hash = some tx → P.getHash tx = hash ∧ tx ∈ S
  checked : ∀ hash tx, s.mempool.mapTx.lookup hash = some tx → tx.TxChecked
  inputs : ∀ hash tx, s.mempool.mapTx.lookup hash = some tx → ∀ o ∈ tx.prevouts,
    (s.txdb.readPrevTx s.files o).isSome = true ∨
      ∃ txPrev, s.mempool.mapTx.lookup o.hash = some txPrev ∧ o.n.toNat < txPrev.vout.length

/-! ## The pass over the pool -/

/-- Does it wait? -/
def waits (e : Sigma fun _ : Uint256 => COrphan D) : Bool := decide (e.2.setDependsOn ≠ [])

/-- The transactions in the queue and those that wait for their turn to get there. -/
def pending (vecPriority : List (TxPriority D)) (vOrphan : StdMap Uint256 (COrphan D)) : Nat :=
  vecPriority.length + vOrphan.entries.countP waits

/-- The queue and the list of those that wait hold candidates, and no pointer in `mapDependers`
    dangles. -/
structure QueueOk (s : NodeState) (mapDependers : StdMap Uint256 (List Uint256))
    (vecPriority : List (TxPriority D)) (vOrphan : StdMap Uint256 (COrphan D)) : Prop where
  queued : ∀ t ∈ vecPriority, Candidate s t.tx
  waiting : ∀ hash porphan, vOrphan.lookup hash = some porphan → Candidate s porphan.tx
  dependers : ∀ hash dependers, mapDependers.lookup hash = some dependers →
    ∀ depender ∈ dependers, (vOrphan.lookup depender).isSome = true

/-- The loop over the inputs of `hash`: nothing is missing, and the new pointers are to `hash`, which
    will be in the list then. -/
structure Scanned (hash : Uint256) (c : Collected D) (r : InputScan D) : Prop where
  found : r.fMissingInputs = false
  dependers : ∀ h dependers, r.mapDependers.lookup h = some dependers → ∀ depender ∈ dependers,
    depender = hash ∧ r.setDependsOn.isSome = true ∨
      ∃ before, c.mapDependers.lookup h = some before ∧ depender ∈ before

theorem scanInput_ok {S : Set CTransaction} (hpool : PoolReady P S s) {hash : Uint256} {tx : CTransaction}
    (htx : s.mempool.mapTx.lookup hash = some tx) {txin : CTxIn} (htxin : txin ∈ tx.vin)
    {c : Collected D} {r : InputScan D} (hr : Scanned hash c r) :
    ∃ r', scanInput P F s hash r txin = .ok r' ∧ Scanned hash c r' := by
  unfold scanInput
  rw [if_neg (by rw [hr.found]; exact Bool.false_ne_true)]
  cases hread : s.txdb.readPrevTx s.files txin.prevout with
  | some prev => exact ⟨_, rfl, hr.found, hr.dependers⟩
  | none =>
    have hin := hpool.inputs hash tx htx txin.prevout (List.mem_map_of_mem htxin)
    rw [hread] at hin
    obtain ⟨txPrev, hprev, hn⟩ := hin.resolve_left Bool.false_ne_true
    dsimp only
    rw [hprev]
    dsimp only
    rw [List.getElem?_eq_getElem hn]
    refine ⟨_, rfl, hr.found, fun h dependers hlook depender hmem => ?_⟩
    dsimp only at hlook ⊢
    rw [lookup_insert_eq_ite] at hlook
    split at hlook
    · next heq =>
      cases hlook
      rcases List.mem_append.mp hmem with hmem | hmem
      · cases hold : r.mapDependers.lookup txin.prevout.hash with
        | none =>
          rw [hold] at hmem
          cases hmem
        | some before =>
          rw [hold] at hmem
          rcases hr.dependers _ before hold depender hmem with ⟨heq', -⟩ | hold'
          · exact Or.inl ⟨heq', rfl⟩
          · rw [← heq]
            exact Or.inr hold'
      · exact Or.inl ⟨List.mem_singleton.mp hmem, rfl⟩
    · rcases hr.dependers h dependers hlook depender hmem with ⟨heq', -⟩ | hold'
      · exact Or.inl ⟨heq', rfl⟩
      · exact Or.inr hold'

/-- What one transaction adds to the queue or to those that wait. -/
theorem collectTx_ok {S : Set CTransaction} (hpool : PoolReady P S s) {hash : Uint256} {tx : CTransaction}
    (htx : s.mempool.mapTx.lookup hash = some tx) {c : Collected D}
    (hc : QueueOk s c.mapDependers c.vecPriority c.vOrphan) :
    ∃ c', collectTx P F s c ⟨hash, tx⟩ = .ok c' ∧
      QueueOk s c'.mapDependers c'.vecPriority c'.vOrphan ∧
      pending c'.vecPriority c'.vOrphan ≤ pending c.vecPriority c.vOrphan + 1 := by
  unfold collectTx
  dsimp only
  split
  · exact ⟨c, rfl, hc, Nat.le_succ _⟩
  · next hkind =>
    have hcandidate : Candidate s tx := by
      rw [not_or, not_or] at hkind
      exact ⟨⟨hash, htx⟩, Bool.eq_false_of_not_eq_true hkind.1,
        Bool.eq_false_of_not_eq_true hkind.2.1⟩
    obtain ⟨r, hrun, hr⟩ := foldlM_total (P := fun _ r => Scanned hash c r)
      (l := tx.vin) (f := scanInput P F s hash) (b := ⟨none, c.mapDependers, F.ofInt 0, 0, false⟩)
      ⟨rfl, fun h dependers hlook depender hmem => Or.inr ⟨dependers, hlook, hmem⟩⟩
      fun pre txin post r hvin hr => scanInput_ok hpool htx
        (by rw [hvin]; exact List.mem_append_right _ List.mem_cons_self) hr
    rw [hrun, ok_bind, if_neg (by rw [hr.found]; exact Bool.false_ne_true),
      (hpool.checked hash tx htx).getValueOut_eq, ok_bind]
    cases hdeps : r.setDependsOn with
    | some setDependsOn =>
      refine ⟨_, rfl, ⟨hc.queued, ?_, ?_⟩, ?_⟩
      · intro h porphan hlook
        dsimp only at hlook
        rw [lookup_insert_eq_ite] at hlook
        split at hlook
        · cases hlook
          exact hcandidate
        · exact hc.waiting h porphan hlook
      · intro h dependers hlook depender hmem
        dsimp only
        rw [lookup_insert_eq_ite]
        split
        · rfl
        · next hne =>
          rcases hr.dependers h dependers hlook depender hmem with ⟨heq, -⟩ | ⟨before, hbefore, hmem⟩
          · exact absurd heq.symm hne
          · exact hc.dependers h before hbefore depender hmem
      · have hcount := countP_insert (waits (D := D)) c.vOrphan hash
          ⟨tx, setDependsOn, F.div r.dPriority (F.ofInt (tx.getSerializeSize : Nat)),
            F.div (F.ofInt (int64 (r.nTotalIn - tx.valueOut)))
              (F.div (F.ofInt (tx.getSerializeSize : Nat)) (F.ofInt 1000))⟩
        unfold pending
        dsimp only
        have hone : ∀ b : Bool, b.toNat ≤ 1 := by decide
        have := hone (waits ⟨hash, ⟨tx, setDependsOn,
          F.div r.dPriority (F.ofInt (tx.getSerializeSize : Nat)),
            F.div (F.ofInt (int64 (r.nTotalIn - tx.valueOut)))
              (F.div (F.ofInt (tx.getSerializeSize : Nat)) (F.ofInt 1000))⟩⟩)
        omega
    | none =>
      refine ⟨_, rfl, ⟨?_, hc.waiting, ?_⟩, ?_⟩
      · intro t ht
        rcases List.mem_append.mp ht with ht | ht
        · exact hc.queued t ht
        · rw [List.mem_singleton.mp ht]
          exact hcandidate
      · intro h dependers hlook depender hmem
        rcases hr.dependers h dependers hlook depender hmem with ⟨-, hsome⟩ | ⟨before, hbefore, hmem⟩
        · rw [hdeps] at hsome
          cases hsome
        · exact hc.dependers h before hbefore depender hmem
      · unfold pending
        dsimp only
        rw [List.length_append, List.length_singleton]
        omega

/-- The pass throws nothing, and leaves no more to be done than there are transactions in the pool. -/
theorem collect_ok {S : Set CTransaction} (hpool : PoolReady P S s) :
    ∃ c, collect P F s = .ok c ∧ QueueOk s c.mapDependers c.vecPriority c.vOrphan ∧
      pending c.vecPriority c.vOrphan ≤ s.mempool.mapTx.entries.length := by
  unfold collect
  refine foldlM_total (P := fun (pre : List _) (c : Collected D) =>
    QueueOk s c.mapDependers c.vecPriority c.vOrphan ∧
    pending c.vecPriority c.vOrphan ≤ pre.length) ?_ ?_
  · refine ⟨⟨fun t ht => absurd ht List.not_mem_nil, fun hash porphan h => ?_,
      fun hash dependers h => ?_⟩, Nat.le_refl 0⟩
    · cases h
    · cases h
  · rintro pre ⟨hash, tx⟩ post c hentries ⟨hc, hpending⟩
    have hlook : s.mempool.mapTx.lookup hash = some tx := by
      refine AList.mem_lookup_iff.mpr ?_
      rw [hentries]
      exact List.mem_append_right _ List.mem_cons_self
    obtain ⟨c', hc', hok, hle⟩ := collectTx_ok (F := F) hpool hlook hc
    refine ⟨c', hc', hok, ?_⟩
    rw [List.length_append, List.length_singleton]
    omega

end NodeState

/-! ## What is in the block -/

/-- A transaction of the template, with its signature operations and its fee. -/
structure TemplateTx where
  tx : CTransaction
  nSigOps : Nat
  nFee : Int

/-- The transactions one after the other on top of the chain: each passes `ConnectInputs` against the
    index with those before it.  The fee is what its inputs are worth less its outputs. -/
inductive Connects (P : Primitives) (g : Globals) (txdb : CTxDB) (pindexPrev : BlockPtr) :
    List TemplateTx → QueuedChanges → Prop
  | nil : Connects P g txdb pindexPrev [] ∅
  | append {rows : List TemplateTx} {mapTestPool pool' : QueuedChanges} {tx : CTransaction}
      {mapInputs : MapPrevTx} {nP2SH : Nat}
      (hrows : Connects P g txdb pindexPrev rows mapTestPool)
      (hfetch : tx.fetchInputs g txdb mapTestPool false true = .ok mapInputs)
      (hp2sh : tx.getP2SHSigOpCount mapInputs = .ok nP2SH)
      (hconnect : tx.connectInputs P g mapInputs mapTestPool CDiskTxPos.memoryPool pindexPrev false true
        = .ok pool') :
      Connects P g txdb pindexPrev
        (rows ++ [⟨tx, tx.getLegacySigOpCount + nP2SH,
          (tx.vin.map (CTransaction.inputValue mapInputs)).sum - tx.valueOut⟩])
        (pool'.insert (P.getHash tx) (CTxIndex.new CDiskTxPos.memoryPool tx.vout.length))

/-! ## One transaction on the test pool -/

namespace CTransaction

variable {g : Globals} {tx : CTransaction} {inputs : MapPrevTx}

theorem fetchInputs_noThrow {txdb : CTxDB} {mapTestPool : QueuedChanges} {fBlock fMiner : Bool} :
    Never Failure.IsThrow (orFail (tx.fetchInputs g txdb mapTestPool fBlock fMiner) Prod.fst) := by
  refine Never.orFail fun e he => ?_
  unfold fetchInputs at he
  split at he
  · cases he
  · rw [bind_error] at he
    rcases he with he | ⟨inputs, -, he⟩
    · obtain ⟨e', he', rfl⟩ := orFail_error.mp he
      refine Never.foldlM (I := fun _ => True) (fun txin _ s _ => ⟨?_, fun _ _ => trivial⟩) trivial e' he'
      unfold fetchInput
      dsimp only
      split
      · exact Never.ok _
      · split
        · refine Never.bind ?_ fun _ _ => Never.ok _
          unfold prevTxOf
          split <;> split
          · exact Never.error id
          · exact Never.ok _
          · exact Never.error id
          · exact Never.ok _
        · split
          · exact Never.error id
          · split
            · exact Never.error id
            · exact Never.ok _
    · rw [bind_error] at he
      rcases he with he | ⟨_, -, he⟩
      · rw [require_error] at he
        rw [← he.2]
        exact id
      · cases he

theorem exists_getP2SHSigOpCount (h : tx.InputsThere inputs) :
    ∃ n, tx.getP2SHSigOpCount inputs = .ok n := by
  unfold getP2SHSigOpCount
  split
  · exact ⟨0, rfl⟩
  · obtain ⟨n, hn, -⟩ := foldlM_total (P := fun _ _ => True) (l := tx.vin) (f := addP2SHSigOps inputs)
      (b := 0) trivial fun pre txin post r hvin _ => by
        obtain ⟨txout, hout⟩ := getOutputFor_there h
          (by rw [hvin]; exact List.mem_append_right _ List.mem_cons_self)
        unfold addP2SHSigOps
        rw [hout]
        exact ⟨_, rfl, trivial⟩
    exact ⟨n, hn⟩

end CTransaction

namespace NodeState

variable {D : Type} {P : Primitives} {F : Doubles D} {heap : Heap D} {args : MinerArgs} {s : NodeState}

theorem orSkip_of_never {α : Type} {x : Check α} (h : Never Failure.IsThrow x) :
    orSkip x = .ok x.toOption := by
  cases x with
  | ok a => rfl
  | error e =>
    cases e with
    | reject nDoS msg => rfl
    | throw what => exact absurd trivial (h _ rfl)

/-- A transaction is skipped, or it is one more of the template. -/
theorem tryTx_ok (nBlockSigOps : Nat) (nMinFee : Int) {pindexPrev : BlockPtr}
    {mapTestPool : QueuedChanges} {tx : CTransaction} {rows : List TemplateTx}
    (hrows : Connects P s.globals s.txdb pindexPrev rows mapTestPool) (hchecked : tx.TxChecked)
    (hcb : tx.isCoinBase = false) :
    tryTx P s pindexPrev mapTestPool nBlockSigOps nMinFee tx = .ok none ∨
    ∃ c, tryTx P s pindexPrev mapTestPool nBlockSigOps nMinFee tx = .ok (some c) ∧
      Connects P s.globals s.txdb pindexPrev (rows ++ [⟨tx, c.nTxSigOps, c.nTxFees⟩]) c.mapTestPool ∧
      nBlockSigOps + c.nTxSigOps < MAX_BLOCK_SIGOPS := by
  unfold tryTx
  rw [orSkip_of_never CTransaction.fetchInputs_noThrow, ok_bind]
  cases hfetch : (orFail (tx.fetchInputs s.globals s.txdb mapTestPool false true) Prod.fst).toOption with
  | none => exact Or.inl rfl
  | some mapInputs =>
    have hfetched := orFail_ok.mp (ok_of_toOption hfetch)
    have hthere := CTransaction.fetchInputs_there hcb hfetched
    dsimp only
    -- nothing below throws: every input is among the fetched
    obtain ⟨nValueIn, hin⟩ := CTransaction.exists_getValueIn hthere
    obtain ⟨nP2SH, hp2sh⟩ := CTransaction.exists_getP2SHSigOpCount hthere
    rw [hin, ok_bind, hchecked.getValueOut_eq, ok_bind]
    split
    · exact Or.inl rfl
    · rw [hp2sh, ok_bind]
      split
      · exact Or.inl rfl
      · next hsigops =>
        rw [orSkip_of_never (CTransaction.connectInputs_noThrow hthere hchecked), ok_bind]
        cases hconnect : (tx.connectInputs P s.globals mapInputs mapTestPool CDiskTxPos.memoryPool pindexPrev
            false true).toOption with
        | none => exact Or.inl rfl
        | some pool' =>
          have hconnected := ok_of_toOption hconnect
          refine Or.inr ⟨_, rfl, ?_, Nat.not_le.mp hsigops⟩
          have hfee : int64 (nValueIn - tx.valueOut) =
              (tx.vin.map (CTransaction.inputValue mapInputs)).sum - tx.valueOut := by
            have hrange := (CTransaction.connectInputs_ok rfl hcb hchecked.distinct
              (CTransaction.fetchInputs_ok tx rfl hcb hfetched).1 hconnected).2.2.1
            have hout := hchecked.total
            rw [moneyRange_iff] at hrange hout
            rw [CTransaction.getValueIn_ok tx hcb hin,
              int64_of_range (x := (tx.vin.map (CTransaction.inputValue mapInputs)).sum) (by omega) (by omega),
              int64_of_range (by omega) (by omega)]
          rw [hfee]
          exact Connects.append hrows hfetched hp2sh hconnected

/-! ## The loop over the queue -/

/-- What is in the block so far, and what its counters stand for. -/
structure Assembled (P : Primitives) (args : MinerArgs) (s : NodeState) (pindexPrev : BlockPtr)
    (rows : List TemplateTx) (a : Assembly D) : Prop where
  connects : Connects P s.globals s.txdb pindexPrev rows a.mapTestPool
  vtx_eq : a.vtx = rows.map TemplateTx.tx
  size_eq : a.nBlockSize = 1000 + ((rows.map TemplateTx.tx).map CTransaction.getSerializeSize).sum
  size_lt : rows = [] ∨ a.nBlockSize < args.nBlockMaxSize
  sigops_eq : a.nBlockSigOps = 100 + (rows.map TemplateTx.nSigOps).sum
  sigops_lt : a.nBlockSigOps < MAX_BLOCK_SIGOPS
  fees_eq : a.nFees = int64 (rows.map TemplateTx.nFee).sum
  candidates : ∀ row ∈ rows, Candidate s row.tx

/-- The whole state of the loop: the block, the queue, and how much there is to be done at most. -/
structure LoopOk (P : Primitives) (args : MinerArgs) (s : NodeState)
    (mapDependers : StdMap Uint256 (List Uint256)) (pindexPrev : BlockPtr) (rows : List TemplateTx)
    (fuel : Nat) (a : Assembly D) : Prop where
  assembled : Assembled P args s pindexPrev rows a
  queue : QueueOk s mapDependers a.vecPriority a.vOrphan
  pending_le : pending a.vecPriority a.vOrphan ≤ fuel

variable {mapDependers : StdMap Uint256 (List Uint256)} {pindexPrev : BlockPtr}

/-- What waited goes to the queue at most once. -/
theorem releaseDepender_ok (hash : Uint256) {rows : List TemplateTx} {fuel : Nat} {a : Assembly D}
    {depender : Uint256} (ha : LoopOk P args s mapDependers pindexPrev rows fuel a)
    (hdepender : (a.vOrphan.lookup depender).isSome = true) :
    ∃ a', releaseDepender hash a depender = .ok a' ∧
      LoopOk P args s mapDependers pindexPrev rows fuel a' := by
  obtain ⟨porphan, hlook⟩ := Option.isSome_iff_exists.mp hdepender
  unfold releaseDepender
  rw [hlook]
  dsimp only
  split
  · exact ⟨a, rfl, ha⟩
  · next hwaits =>
    have hcandidate := ha.queue.waiting depender porphan hlook
    have hkeys : ∀ h (v : COrphan D), ((a.vOrphan.insert depender v).lookup h).isSome =
        (a.vOrphan.lookup h).isSome := by
      intro h v
      rw [lookup_insert_eq_ite]
      split
      · next heq =>
        rw [← heq, hlook]
        rfl
      · rfl
    have hold : waits ⟨depender, porphan⟩ = true := decide_eq_true hwaits
    have hcount := fun v : COrphan D => countP_insert (waits (D := D)) a.vOrphan depender v
    rw [hlook] at hcount
    have hle := ha.pending_le
    unfold pending at hle
    refine ⟨_, rfl, ⟨⟨ha.assembled.connects, ha.assembled.vtx_eq, ha.assembled.size_eq,
      ha.assembled.size_lt, ha.assembled.sigops_eq, ha.assembled.sigops_lt, ha.assembled.fees_eq,
      ha.assembled.candidates⟩, ⟨?_, ?_, ?_⟩, ?_⟩⟩
    · intro t ht
      dsimp only at ht
      split at ht
      · rcases List.mem_append.mp ht with ht | ht
        · exact ha.queue.queued t ht
        · rw [List.mem_singleton.mp ht]
          exact hcandidate
      · exact ha.queue.queued t ht
    · intro h porphan' hlook'
      dsimp only at hlook'
      rw [lookup_insert_eq_ite] at hlook'
      split at hlook'
      · cases hlook'
        exact hcandidate
      · exact ha.queue.waiting h porphan' hlook'
    · intro h dependers hlook' d hd
      dsimp only
      rw [hkeys]
      exact ha.queue.dependers h dependers hlook' d hd
    · unfold pending
      dsimp only
      split
      · next hempty =>
        -- one more in the queue, one less that waits
        have := hcount { porphan with
          setDependsOn := porphan.setDependsOn.filter fun h => decide (h ≠ hash) }
        rw [show waits ⟨depender, _⟩ = false from decide_eq_false (not_not_intro hempty)] at this
        dsimp only [Option.elim] at this
        rw [hold] at this
        rw [List.length_append, List.length_singleton]
        simp only [Bool.toNat_true, Bool.toNat_false] at this
        omega
      · next hstill =>
        have := hcount { porphan with
          setDependsOn := porphan.setDependsOn.filter fun h => decide (h ≠ hash) }
        rw [show waits ⟨depender, _⟩ = true from decide_eq_true hstill] at this
        dsimp only [Option.elim] at this
        rw [hold] at this
        omega

/-- One turn of the loop: the transaction is skipped, or the block is one longer. -/
theorem takeTx_ok {S : Set CTransaction} (hpool : PoolReady P S s) (fProofOfStake : Bool)
    (nCoinBaseTime : UInt32) {rows : List TemplateTx} {fuel : Nat} {a : Assembly D} {top : TxPriority D}
    (ha : LoopOk P args s mapDependers pindexPrev rows fuel a) (htop : Candidate s top.tx) :
    ∃ a' rows', takeTx P F args s mapDependers pindexPrev fProofOfStake nCoinBaseTime a top = .ok a' ∧
      LoopOk P args s mapDependers pindexPrev rows' fuel a' := by
  obtain ⟨⟨hash, hlook⟩, hcb, hcs⟩ := htop
  unfold takeTx
  split
  · next hfits =>
    have hfits' : a.nBlockSize + top.tx.getSerializeSize < args.nBlockMaxSize := by
      unfold fits at hfits
      simp only [Bool.and_eq_true, decide_eq_true_eq] at hfits
      exact hfits.1.1.1
    dsimp only
    rcases tryTx_ok a.nBlockSigOps (top.tx.getMinFee a.nBlockSize .GMF_BLOCK 0) ha.assembled.connects
      (hpool.checked hash top.tx hlook) hcb with hskip | ⟨c, htry, hconnects, hsigops⟩
    · rw [hskip]
      exact ⟨_, rows, rfl, ⟨ha.assembled.connects, ha.assembled.vtx_eq, ha.assembled.size_eq,
        ha.assembled.size_lt, ha.assembled.sigops_eq, ha.assembled.sigops_lt, ha.assembled.fees_eq,
        ha.assembled.candidates⟩, ha.queue, ha.pending_le⟩
    · rw [htry, ok_bind]
      dsimp only
      generalize hb : ({ a with
        fSortedByFee := sortByFee F args a top
        vtx := a.vtx ++ [top.tx]
        mapTestPool := c.mapTestPool
        nBlockSize := a.nBlockSize + top.tx.getSerializeSize
        nBlockSigOps := a.nBlockSigOps + c.nTxSigOps
        nFees := int64 (a.nFees + c.nTxFees) } : Assembly D) = b
      have hassembled : Assembled P args s pindexPrev (rows ++ [⟨top.tx, c.nTxSigOps, c.nTxFees⟩]) b := by
        subst hb
        refine ⟨hconnects, ?_, ?_, Or.inr hfits', ?_, hsigops, ?_, ?_⟩
        · rw [List.map_append, ha.assembled.vtx_eq]
          rfl
        · dsimp only
          rw [List.map_append, List.map_append, List.sum_append, ha.assembled.size_eq, Nat.add_assoc]
          rfl
        · dsimp only
          rw [List.map_append, List.sum_append, ha.assembled.sigops_eq, Nat.add_assoc]
          rfl
        · dsimp only
          rw [List.map_append, List.sum_append, ha.assembled.fees_eq, int64_add_left]
          simp
        · intro row hrow
          rcases List.mem_append.mp hrow with hrow | hrow
          · exact ha.assembled.candidates row hrow
          · rw [List.mem_singleton.mp hrow]
            exact ⟨⟨hash, hlook⟩, hcb, hcs⟩
      obtain ⟨a', hrun, ha'⟩ := foldlM_total
        (P := fun _ (a' : Assembly D) => LoopOk P args s mapDependers pindexPrev
          (rows ++ [⟨top.tx, c.nTxSigOps, c.nTxFees⟩]) fuel a')
        (l := (mapDependers.lookup (P.getHash top.tx)).getD [])
        (f := releaseDepender (P.getHash top.tx))
        ⟨hassembled, hb ▸ ha.queue, hb ▸ ha.pending_le⟩
        fun pre depender post a₁ hdependers ha₁ => by
          cases hdeps : mapDependers.lookup (P.getHash top.tx) with
          | none =>
            rw [hdeps] at hdependers
            cases pre <;> cases hdependers
          | some dependers =>
            rw [hdeps] at hdependers
            have hmem : depender ∈ dependers := by
              rw [show dependers = _ from hdependers]
              exact List.mem_append_right _ List.mem_cons_self
            exact releaseDepender_ok (P.getHash top.tx) ha₁
              (ha₁.queue.dependers _ dependers hdeps depender hmem)
      exact ⟨a', _, hrun, ha'⟩
  · exact ⟨a, rows, rfl, ha⟩

/-- The loop ends, by induction on the fuel, which the queue never outlasts. -/
theorem takeFromQueue_ok (heap : Heap D) {S : Set CTransaction} (hpool : PoolReady P S s)
    (fProofOfStake : Bool) (nCoinBaseTime : UInt32) {fuel : Nat} : ∀ {rows : List TemplateTx} {a : Assembly D},
    LoopOk P args s mapDependers pindexPrev rows fuel a →
    ∃ a' rows', takeFromQueue P F heap args s mapDependers pindexPrev fProofOfStake nCoinBaseTime fuel a
      = .ok a' ∧ Assembled P args s pindexPrev rows' a' := by
  induction fuel with
  | zero =>
    intro rows a ha
    unfold takeFromQueue
    split
    · exact ⟨a, rows, rfl, ha.assembled⟩
    · next top rest hpop =>
      exfalso
      have hle := ha.pending_le
      have hlen := (heap.pop_perm hpop).length_eq
      unfold pending at hle
      rw [List.length_cons] at hlen
      omega
  | succ fuel ih =>
    intro rows a ha
    unfold takeFromQueue
    split
    · exact ⟨a, rows, rfl, ha.assembled⟩
    · next top rest hpop =>
      have hperm := heap.pop_perm hpop
      have hrest : LoopOk P args s mapDependers pindexPrev rows fuel { a with vecPriority := rest } := by
        refine ⟨⟨ha.assembled.connects, ha.assembled.vtx_eq, ha.assembled.size_eq,
          ha.assembled.size_lt, ha.assembled.sigops_eq, ha.assembled.sigops_lt, ha.assembled.fees_eq,
          ha.assembled.candidates⟩, ⟨fun t ht => ?_, ha.queue.waiting, ha.queue.dependers⟩, ?_⟩
        · exact ha.queue.queued t (hperm.mem_iff.mp (List.mem_cons_of_mem _ ht))
        · have hle := ha.pending_le
          have hlen := hperm.length_eq
          unfold pending at hle ⊢
          rw [List.length_cons] at hlen
          dsimp only
          omega
      obtain ⟨a', rows', hstep, ha'⟩ := takeTx_ok (F := F) hpool fProofOfStake nCoinBaseTime hrest
        (ha.queue.queued top (hperm.mem_iff.mp List.mem_cons_self))
      dsimp only
      rw [hstep, ok_bind]
      exact ih ha'

end NodeState

/-! ## The template on the ledger -/

/-- The entries of the template, newest first. -/
def templateEntries (P : Primitives) (rows : List TemplateTx) : TxLedger :=
  (rows.map fun row => txEntry P row.tx CDiskTxPos.memoryPool).reverse

theorem templateEntries_append_one (P : Primitives) (rows : List TemplateTx) (row : TemplateTx) :
    templateEntries P (rows ++ [row]) =
      txEntry P row.tx CDiskTxPos.memoryPool :: templateEntries P rows := by
  unfold templateEntries
  rw [List.map_append, List.reverse_append]
  rfl

theorem mem_templateEntries {P : Primitives} {rows : List TemplateTx} {e : TxEntry} :
    e ∈ templateEntries P rows ↔ ∃ row ∈ rows, e = txEntry P row.tx CDiskTxPos.memoryPool := by
  unfold templateEntries
  rw [List.mem_reverse, List.mem_map]
  exact ⟨fun ⟨row, hrow, he⟩ => ⟨row, hrow, he.symm⟩, fun ⟨row, hrow, he⟩ => ⟨row, hrow, he.symm⟩⟩

section Ledger

variable {P : Primitives} {S : Set CTransaction} {g : Globals} {txdb : CTxDB} {pindexPrev : BlockPtr}
  {chain : Chain} {rows : List TemplateTx} {mapTestPool : QueuedChanges}

/-- A transaction that spends only unspent outputs is not on the ledger yet. -/
theorem fresh_of_unspent (hinj : Set.InjOn P.getHash S) {l : TxLedger}
    (hl : ∀ d ∈ l, ∃ tx ∈ S, ∃ pos, d = txEntry P tx pos) {tx : CTransaction} (hS : tx ∈ S)
    (hvin : tx.vin ≠ []) (hcb : tx.isCoinBase = false)
    (hunspent : ∀ o ∈ CBlock.spentKeys tx, spender l o = none) : ∀ d ∈ l, d.id ≠ P.getHash tx := by
  intro d hd hid
  obtain ⟨tx', htx', pos, rfl⟩ := hl d hd
  obtain rfl := hinj htx' hS hid
  obtain ⟨txin, htxin⟩ := List.exists_mem_of_ne_nil _ hvin
  have hkey : txin.prevout.key ∈ CBlock.spentKeys tx' := by
    unfold CBlock.spentKeys
    rw [hcb, if_neg Bool.false_ne_true]
    exact List.mem_map_of_mem (List.mem_map_of_mem htxin)
  exact spender_eq_none.mp (hunspent _ hkey) _ hd hkey

/-- The test pool over the database shows the chain with the template on top of it. -/
theorem Connects.ledger (hinj : Set.InjOn P.getHash S) (hi : IndexOf P chain txdb)
    (hchain : ∀ c ∈ chain, ∀ tx ∈ c.block.vtx, tx ∈ S)
    (h : Connects P g txdb pindexPrev rows mapTestPool)
    (hrows : ∀ row ∈ rows, row.tx ∈ S ∧ row.tx.TxChecked ∧ row.tx.isCoinBase = false) :
    Refines (indexView txdb mapTestPool) (templateEntries P rows ++ ledgerOf P chain) ∧
      Valid (templateEntries P rows ++ ledgerOf P chain) ∧
      Placed (templateEntries P rows ++ ledgerOf P chain) := by
  induction h with
  | nil => exact ⟨hi.refines, hi.valid, hi.placed⟩
  | @append rows mapTestPool pool' tx mapInputs nP2SH _ hfetch _ hconnect ih =>
    obtain ⟨hrefines, hvalid, hplaced⟩ := ih fun row hrow => hrows row (List.mem_append_left _ hrow)
    obtain ⟨hS, hchecked, hcb⟩ := hrows _ (List.mem_append_right _ List.mem_cons_self)
    dsimp only at hS hchecked hcb
    have hfetched := (CTransaction.fetchInputs_ok tx rfl hcb hfetch).1
    obtain ⟨hview, hnull, -⟩ := CTransaction.connectInputs_ok rfl hcb hchecked.distinct hfetched hconnect
    have hkeys : CBlock.spentKeys tx = tx.prevouts.map COutPoint.key := by
      unfold CBlock.spentKeys
      rw [hcb, if_neg Bool.false_ne_true]
    have hspends : ∀ o ∈ CBlock.spentKeys tx,
        (∃ d ∈ templateEntries P rows ++ ledgerOf P chain, d.id = o.1 ∧ o.2 < d.outs.length) ∧
          spender (templateEntries P rows ++ ledgerOf P chain) o = none := by
      intro o ho
      rw [hkeys] at ho
      obtain ⟨prevout, hmem, rfl⟩ := List.mem_map.mp ho
      obtain ⟨ti, tp, q, hlook, hq, hqnull⟩ := hnull prevout hmem
      exact hrefines.unspent_of_isNull hplaced (hfetched _ _ _ hlook).1 hq hqnull
    have hl : ∀ d ∈ templateEntries P rows ++ ledgerOf P chain, ∃ tx ∈ S, ∃ pos, d = txEntry P tx pos := by
      intro d hd
      rcases List.mem_append.mp hd with hd | hd
      · obtain ⟨row, hrow, rfl⟩ := mem_templateEntries.mp hd
        exact ⟨row.tx, (hrows row (List.mem_append_left _ hrow)).1, _, rfl⟩
      · obtain ⟨c, hc, tx', htx', pos, rfl⟩ := mem_ledgerOf hd
        exact ⟨tx', hchain c hc tx' htx', pos, rfl⟩
    have hvalid' : Valid (txEntry P tx CDiskTxPos.memoryPool ::
        (templateEntries P rows ++ ledgerOf P chain)) :=
      Valid.cons hvalid (fresh_of_unspent hinj hl hS hchecked.vin_ne hcb fun o ho => (hspends o ho).2)
        (spentKeys_nodup hchecked) hspends
    rw [templateEntries_append_one, List.cons_append]
    refine ⟨hrefines.push hvalid' fun h => ?_, hvalid', fun e he => ?_⟩
    · show (AList.lookup h (AList.insert _ _ pool')).or _ = _
      rw [lookup_insert_eq_ite]
      split
      · rfl
      · rw [hkeys]
        exact hview h
    · rcases List.mem_cons.mp he with rfl | he
      · rfl
      · exact hplaced e he

/-- Every parent of a transaction that is in the block comes before it. -/
def ParentsFirst (P : Primitives) (vtx : List CTransaction) : Prop :=
  ∀ pre tx post, vtx = pre ++ tx :: post → tx.isCoinBase = false →
    ∀ o ∈ tx.prevouts, ∀ t ∈ vtx, P.getHash t = o.hash → t ∈ pre

/-- On a ledger what an entry spends is below it, so no other entry has that identifier. -/
theorem parentsFirst_of_valid {l : TxLedger} (hvalid : Valid (templateEntries P rows ++ l)) :
    ParentsFirst P (rows.map TemplateTx.tx) := by
  intro pre tx post hsplit hcb o ho t ht hid
  obtain ⟨rows₁, rows₂, rfl, hpre, hrest⟩ := List.map_eq_append_iff.mp hsplit
  obtain ⟨row, rows₃, rfl, htx, hpost⟩ := List.map_eq_cons_iff.mp hrest
  have hentries : templateEntries P (rows₁ ++ row :: rows₃) ++ l = templateEntries P rows₃ ++
      txEntry P tx CDiskTxPos.memoryPool :: (templateEntries P rows₁ ++ l) := by
    unfold templateEntries
    rw [List.map_append, List.map_cons, List.reverse_append, List.reverse_cons, htx]
    simp only [List.append_assoc, List.cons_append, List.nil_append]
  rw [hentries] at hvalid
  have hkey : o.key ∈ (txEntry P tx CDiskTxPos.memoryPool).spends := by
    show o.key ∈ CBlock.spentKeys tx
    unfold CBlock.spentKeys
    rw [hcb, if_neg Bool.false_ne_true]
    exact List.mem_map_of_mem ho
  obtain ⟨d, hd, hdid, -⟩ := (valid_of_append hvalid).head_exists hkey
  rw [hsplit] at ht
  rcases List.mem_append.mp ht with ht | ht
  · exact ht
  · exfalso
    -- it is above, or it is the transaction itself, and `d` below has the same hash
    have habove : txEntry P t CDiskTxPos.memoryPool ∈ templateEntries P rows₃ ++
        [txEntry P tx CDiskTxPos.memoryPool] := by
      rcases List.mem_cons.mp ht with rfl | ht
      · exact List.mem_append_right _ List.mem_cons_self
      · rw [← hpost] at ht
        obtain ⟨row', hrow', rfl⟩ := List.mem_map.mp ht
        exact List.mem_append_left _ (mem_templateEntries.mpr ⟨row', hrow', rfl⟩)
    have hids := hvalid.ids_nodup
    rw [List.append_cons, List.map_append, List.nodup_append] at hids
    exact hids.2.2 _ (List.mem_map_of_mem habove) _ (List.mem_map_of_mem hd) (hid.trans hdid.symm)

/-- The coinbase is no child, and before all others. -/
theorem ParentsFirst.cons {vtx : List CTransaction} (h : ParentsFirst P vtx) {coinBase : CTransaction}
    (hcoinbase : coinBase.isCoinBase = true) : ParentsFirst P (coinBase :: vtx) := by
  intro pre tx post hsplit hcb o ho t ht hid
  cases pre with
  | nil =>
    cases hsplit
    rw [hcoinbase] at hcb
    cases hcb
  | cons first pre =>
    rw [List.cons_append, List.cons.injEq] at hsplit
    obtain ⟨rfl, hsplit⟩ := hsplit
    rcases List.mem_cons.mp ht with rfl | ht
    · exact List.mem_cons_self
    · exact List.mem_cons_of_mem _ (h pre tx post hsplit hcb o ho t ht hid)

theorem prevouts_nodup_of_valid {l : TxLedger} (hvalid : Valid (templateEntries P rows ++ l))
    (hrows : ∀ row ∈ rows, row.tx.isCoinBase = false) :
    ((rows.map TemplateTx.tx).flatMap CTransaction.prevouts).Nodup := by
  have hnodup := hvalid.spends_nodup
  rw [List.flatMap_append, List.nodup_append] at hnodup
  have hperm : ((templateEntries P rows).flatMap Entry.spends).Perm
      (((rows.map TemplateTx.tx).flatMap CTransaction.prevouts).map COutPoint.key) := by
    unfold templateEntries
    refine (List.Perm.flatMap_right _ (List.reverse_perm _)).trans (List.Perm.of_eq ?_)
    rw [List.flatMap_map, List.flatMap_map, List.map_flatMap]
    refine List.flatMap_congr fun row hrow => ?_
    show CBlock.spentKeys row.tx = _
    unfold CBlock.spentKeys
    rw [hrows row hrow, if_neg Bool.false_ne_true]
  exact List.Nodup.of_map _ (hperm.nodup_iff.mp hnodup.1)

end Ledger

/-! ## The size of the coinbase -/

theorem getSizeOfCompactSize_le (n : Nat) : getSizeOfCompactSize n ≤ 9 := by
  unfold getSizeOfCompactSize
  split
  · omega
  · split
    · omega
    · split <;> omega

/-- The script of a height that is an `int` has at most six bytes. -/
theorem length_pushInt64_le {n : Nat} (hn : n < 2 ^ 31) : (pushInt64 n).length ≤ 6 := by
  have hbytes : (natToBytes n).length ≤ 4 := by
    unfold natToBytes
    rw [List.length_map, List.length_reverse, Nat.digits_length_le_iff (by decide)]
    omega
  have hvch : (getvch n).length ≤ 5 := by
    unfold getvch bn2mpi
    rw [List.length_reverse, Int.natAbs_natCast]
    cases hb : natToBytes n with
    | nil => exact Nat.zero_le 5
    | cons b bs =>
      rw [hb, List.length_cons] at hbytes
      dsimp only
      split <;> simp only [List.length_cons] <;> omega
  unfold pushInt64
  split
  · exact Nat.le_add_left 1 5
  · unfold pushData
    rw [if_pos (show (getvch n).length < OP_PUSHDATA1.toNat by
      show (getvch n).length < 76
      omega), List.length_cons]
    omega

namespace NodeState

variable {D : Type} {P : Primitives} {F : Doubles D} {heap : Heap D} {args : MinerArgs} {s : NodeState}

theorem length_scriptSig_newCoinBase {nHeight : Nat} (hheight : nHeight < 2 ^ 31) (fProofOfStake : Bool) :
    (if fProofOfStake then pushInt64 nHeight ++ COINBASE_FLAGS else []).length ≤ 6 := by
  split
  · exact (List.append_nil (pushInt64 nHeight)).symm ▸ length_pushInt64_le hheight
  · exact Nat.zero_le 6

theorem getSerializeSize_newCoinBase {nHeight : Nat} (hheight : nHeight < 2 ^ 31) (fProofOfStake : Bool)
    (keyID : BitVec 160) (nValue : Int) :
    (newCoinBase s nHeight fProofOfStake keyID nValue).getSerializeSize ≤ 95 := by
  have hscript := length_scriptSig_newCoinBase hheight fProofOfStake
  have hsmall : ∀ n < 253, getSizeOfCompactSize n = 1 := fun n hn => if_pos hn
  unfold newCoinBase CTransaction.getSerializeSize
  dsimp only
  generalize (if fProofOfStake then pushInt64 nHeight ++ COINBASE_FLAGS else []) = scriptSig at hscript ⊢
  have hout : (if fProofOfStake then (⟨0, []⟩ : CTxOut) else ⟨nValue, payToKeyHash keyID⟩).getSerializeSize
      ≤ 34 := by
    split
    · decide
    · show 8 + bytesSize (payToKeyHash keyID) ≤ 34
      have hlen : (payToKeyHash keyID).length = 25 := by
        unfold payToKeyHash
        simp
      unfold bytesSize
      rw [hlen]
      decide
  simp only [List.map_cons, List.map_nil, List.sum_cons, List.sum_nil, List.length_singleton]
  rw [hsmall 1 (by decide)]
  show 4 + 4 + (1 + (36 + bytesSize scriptSig + 4 + 0)) + (1 + (_ + 0)) + 4 ≤ 95
  unfold bytesSize
  rw [hsmall _ (by omega)]
  omega

/-! ## The template -/

/-- The template around what the loop has assembled. -/
def templateOf (s : NodeState) (pindexPrev : CBlockIndex) (below : BlockPtr) (fProofOfStake : Bool)
    (coinBase : CTransaction) (vtx : List CTransaction) : CBlock where
  nVersion := 6
  hashPrevBlock := pindexPrev.hashBlock
  hashMerkleRoot := 0
  nTime := newBlockTime s pindexPrev below fProofOfStake (coinBase :: vtx)
  nBits := getNextTargetRequired s.globals (pindexPrev :: below) fProofOfStake
  nNonce := 0
  vtx := coinBase :: vtx
  vchBlockSig := []

/-- `CreateNewBlock` returns a template, and throws nothing. -/
theorem createNewBlock_eq (F : Doubles D) (heap : Heap D) (args : MinerArgs) {S : Set CTransaction}
    {pindexPrev : CBlockIndex} {below : BlockPtr} (hpool : PoolReady P S s)
    (hbest : s.pindexBest = pindexPrev :: below) (hheight : pindexPrev.nHeight + 1 < 2 ^ 31)
    (fProofOfStake : Bool) (keyID : BitVec 160) :
    ∃ a rows, Assembled P args s (pindexPrev :: below) rows (a : Assembly D) ∧
      createNewBlock P F heap args s fProofOfStake keyID = .ok (templateOf s pindexPrev below
        fProofOfStake (newCoinBase s (pindexPrev.nHeight + 1) fProofOfStake keyID
          (getProofOfWorkReward a.nFees pindexPrev.nHeight)) a.vtx, a.nFees) := by
  obtain ⟨c, hcollect, hqueue, hpending⟩ := collect_ok (F := F) hpool
  have hstart : LoopOk P args s c.mapDependers (pindexPrev :: below) []
      s.mempool.mapTx.entries.length (⟨[], ∅, 1000, 100, 0, decide (args.nBlockPrioritySize = 0),
        c.vecPriority, c.vOrphan⟩ : Assembly D) :=
    ⟨⟨Connects.nil, rfl, rfl, Or.inl rfl, rfl, (by decide : 100 < MAX_BLOCK_SIGOPS), rfl,
      fun row hrow => absurd hrow List.not_mem_nil⟩, hqueue, hpending⟩
  obtain ⟨a, rows, hrun, ha⟩ := takeFromQueue_ok (F := F) heap hpool fProofOfStake
    (newCoinBase s (pindexPrev.nHeight + 1) fProofOfStake keyID 0).nTime hstart
  have hassert : (!fProofOfStake || decide ((newCoinBase s (pindexPrev.nHeight + 1) fProofOfStake keyID
      0).coinBaseScriptSize ≤ 100)) = true := by
    rw [Bool.or_eq_true, decide_eq_true_eq]
    exact Or.inr (Nat.le_trans (length_scriptSig_newCoinBase hheight fProofOfStake) (by decide))
  refine ⟨a, rows, ha, ?_⟩
  unfold createNewBlock
  rw [hbest]
  dsimp only
  rw [hassert, require_true, ok_bind, hcollect, ok_bind, hrun, ok_bind]
  rfl

/-- What is in the template is at hand, has passed `CheckTransaction`, and is neither coinbase nor
    coinstake. -/
theorem Assembled.rows_ok {S : Set CTransaction} {pindexPrev : BlockPtr} {rows : List TemplateTx}
    {a : Assembly D} (ha : Assembled P args s pindexPrev rows a) (hpool : PoolReady P S s) :
    ∀ row ∈ rows, row.tx ∈ S ∧ row.tx.TxChecked ∧ row.tx.isCoinBase = false ∧
      row.tx.isCoinStake = false := by
  intro row hrow
  obtain ⟨⟨hash, hlook⟩, hcb, hcs⟩ := ha.candidates row hrow
  exact ⟨(hpool.keyed hash row.tx hlook).2, hpool.checked hash row.tx hlook, hcb, hcs⟩

/-- **`CreateNewBlock` assembles a template that connects.**  For every pool whose inputs are each in
    the chain or in the pool, whatever the fees, the priorities and the order of the heap: the
    transactions of the block pass `ConnectInputs` one after the other, parents come first, no outpoint
    is spent twice, the size and the signature operations are within the limits, and the fees are the
    sum of the fees. -/
theorem createNewBlock_connects (F : Doubles D) (heap : Heap D) (args : MinerArgs)
    {S : Set CTransaction} {chain : Chain} {pindexPrev : CBlockIndex} {below : BlockPtr}
    (hinj : Set.InjOn P.getHash S) (hi : IndexOf P chain s.txdb)
    (hchain : ∀ c ∈ chain, ∀ tx ∈ c.block.vtx, tx ∈ S) (hpool : PoolReady P S s)
    (hbest : s.pindexBest = pindexPrev :: below) (hheight : pindexPrev.nHeight + 1 < 2 ^ 31)
    (fProofOfStake : Bool) (keyID : BitVec 160) :
    ∃ b nFees coinBase rows mapTestPool,
      createNewBlock P F heap args s fProofOfStake keyID = .ok (b, nFees) ∧
      b.vtx = coinBase :: rows.map TemplateTx.tx ∧ coinBase.isCoinBase = true ∧
      ParentsFirst P b.vtx ∧ (b.vtx.flatMap CTransaction.prevouts).Nodup ∧
      b.getSerializeSize < args.nBlockMaxSize ∧
      100 + (rows.map TemplateTx.nSigOps).sum < MAX_BLOCK_SIGOPS ∧
      Connects P s.globals s.txdb s.pindexBest rows mapTestPool ∧
      nFees = int64 (rows.map TemplateTx.nFee).sum := by
  obtain ⟨a, rows, ha, hb⟩ := createNewBlock_eq F heap args hpool hbest hheight fProofOfStake keyID
  have hrows : ∀ row ∈ rows, row.tx ∈ S ∧ row.tx.TxChecked ∧ row.tx.isCoinBase = false :=
    fun row hrow => ⟨(ha.rows_ok hpool row hrow).1, (ha.rows_ok hpool row hrow).2.1,
      (ha.rows_ok hpool row hrow).2.2.1⟩
  have hvalid := (ha.connects.ledger hinj hi hchain hrows).2.1
  rw [ha.vtx_eq] at hb
  obtain ⟨b, hb, hvtx, hsig⟩ : ∃ b, createNewBlock P F heap args s fProofOfStake keyID = .ok (b, a.nFees) ∧
      b.vtx = newCoinBase s (pindexPrev.nHeight + 1) fProofOfStake keyID
        (getProofOfWorkReward a.nFees pindexPrev.nHeight) :: rows.map TemplateTx.tx ∧
      b.vchBlockSig = [] := ⟨_, hb, rfl, rfl⟩
  have hcoinbase : (newCoinBase s (pindexPrev.nHeight + 1) fProofOfStake keyID
      (getProofOfWorkReward a.nFees pindexPrev.nHeight)).isCoinBase = true := rfl
  refine ⟨b, a.nFees, _, rows, a.mapTestPool, hb, hvtx, hcoinbase, ?_, ?_, ?_, ?_,
    hbest ▸ ha.connects, ha.fees_eq⟩
  · rw [hvtx]
    exact (parentsFirst_of_valid hvalid).cons hcoinbase
  · rw [hvtx, List.flatMap_cons]
    show (COutPoint.null :: _).Nodup
    refine List.nodup_cons.mpr ⟨fun hmem => ?_,
      prevouts_nodup_of_valid hvalid fun row hrow => (hrows row hrow).2.2⟩
    obtain ⟨tx, htx, ho⟩ := List.mem_flatMap.mp hmem
    obtain ⟨row, hrow, rfl⟩ := List.mem_map.mp htx
    obtain ⟨txin, htxin, hnull⟩ := List.mem_map.mp ho
    have hne := (hrows row hrow).2.1.inputs (hrows row hrow).2.2 txin htxin
    rw [hnull] at hne
    cases hne
  · have hcb := getSerializeSize_newCoinBase (s := s) hheight fProofOfStake keyID
      (getProofOfWorkReward a.nFees pindexPrev.nHeight)
    have hcompact := getSizeOfCompactSize_le b.vtx.length
    have hsize := ha.size_eq
    have hmin : 1000 ≤ args.nBlockMaxSize := Nat.le_max_left _ _
    unfold CBlock.getSerializeSize
    rw [hsig, hvtx, List.map_cons, List.sum_cons, ← hvtx]
    show 80 + (_ + (_ + _)) + 1 < _
    rcases ha.size_lt with rfl | hlt
    · rw [List.map_nil, List.map_nil, List.sum_nil]
      omega
    · omega
  · have hlt := ha.sigops_lt
    rw [ha.sigops_eq] at hlt
    exact hlt

/-- A small pool is looked through; its transactions are in the table, and their inputs are on disk. -/
theorem PoolReady.of_table {txs : List (CTransaction × Uint256)} (h : ∀ e ∈ s.mempool.mapTx.entries,
    P.getHash e.2 = e.1 ∧ e.2 ∈ txs.map Prod.fst ∧ e.2.checkTransaction.isOk = true ∧
      ∀ o ∈ e.2.prevouts, (s.txdb.readPrevTx s.files o).isSome = true) :
    PoolReady P { tx | tx ∈ txs.map Prod.fst } s := by
  have hmem : ∀ hash tx, s.mempool.mapTx.lookup hash = some tx →
      (⟨hash, tx⟩ : Sigma fun _ : Uint256 => CTransaction) ∈ s.mempool.mapTx.entries :=
    fun hash tx h => AList.mem_lookup_iff.mp h
  refine ⟨fun hash tx htx => ?_, fun hash tx htx => ?_, fun hash tx htx o ho => ?_⟩
  · obtain ⟨hkey, hS, -, -⟩ := h _ (hmem hash tx htx)
    exact ⟨hkey, hS⟩
  · obtain ⟨-, -, hok, -⟩ := h _ (hmem hash tx htx)
    obtain ⟨u, hu⟩ := exists_ok hok
    exact tx.checkTransaction_ok hu
  · obtain ⟨-, -, -, hin⟩ := h _ (hmem hash tx htx)
    exact Or.inl (hin o ho)

end NodeState

/-! ## A block with the transaction that spends the first coinbase -/

namespace Ripening

/-- Whole numbers for `double`, and a queue that is served from the front. -/
def wholes : Doubles Int where
  ofInt := id
  add := (· + ·)
  mul := (· * ·)
  div := (· / ·)
  lt a b := decide (a < b)
  eq a b := decide (a = b)

def front : Heap Int where
  pop _ l := match l with
    | [] => none
    | top :: rest => some (top, rest)
  pop_perm := by
    intro less l top rest h
    cases l with
    | nil => cases h
    | cons t l =>
      cases h
      exact List.Perm.refl _
  pop_none := by
    intro less l h
    cases l with
    | nil => rfl
    | cons t l => cases h

def miner : MinerArgs := ⟨250000, 27000, 0, 10000⟩

theorem poolReady : NodeState.PoolReady primitives S withTx := .of_table (by decide)

theorem createNewBlock_connects_tx : ∃ b nFees coinBase rows mapTestPool,
    withTx.createNewBlock primitives wholes front miner false 0 = .ok (b, nFees) ∧
    b.vtx = coinBase :: rows.map TemplateTx.tx ∧ ParentsFirst primitives b.vtx ∧
    b.getSerializeSize < 250000 ∧
    Connects primitives withTx.globals withTx.txdb withTx.pindexBest rows mapTestPool ∧
    nFees = int64 (rows.map TemplateTx.nFee).sum := by
  obtain ⟨chain, hrun, -, -⟩ := cleanRun
  obtain ⟨hinj, -⟩ := tables
  have hindex := (hrun.state hinj).1.onChain.run.index hinj
  obtain ⟨b, nFees, coinBase, rows, pool, hb, hvtx, -, hparents, -, hsize, -, hconnects, hfees⟩ :=
    NodeState.createNewBlock_connects wholes front miner hinj hindex.toIndexOf hindex.ok.known poolReady
      (show withTx.pindexBest = indexK11 :: ptrK11.tail by decide) (by decide) false 0
  exact ⟨b, nFees, coinBase, rows, pool, hb, hvtx, hparents, hsize, hconnects, hfees⟩

end Ripening
end Silkcoin
