/-
  The inputs of a transaction: fetching, connecting and disconnecting them.

  `fetchInputs` collects the index entry and the transaction behind every outpoint spent;
  `connectInputs` checks them and queues the entries with the spent slots filled in;
  `disconnectInputs` empties the slots again and erases the transaction's own entry.

  All three are loops over `vin` that read and write index entries one at a time, so the lemmas
  about them speak about the index as ONE function of the hash, seen through whatever is queued
  (`indexView`), and say how a whole loop moves it: every slot the inputs name is set, no other is
  (`markSpent`).  `connectInputs_ok` and `disconnectInputs_eq` are those two lemmas.
-/
import Silkcoin.TxDb
import Mathlib.Data.List.Zip

namespace Silkcoin

open Validation BatchStore

/-- Index entries and transactions behind the inputs, by transaction hash. -/
abbrev MapPrevTx := StdMap Uint256 (CTxIndex × CTransaction)

/-- Changes to the index that a block has queued. -/
abbrev QueuedChanges := StdMap Uint256 CTxIndex

/-- The index as a block being connected sees it: queued changes shadow the database. -/
def indexView (txdb : CTxDB) (mapQueuedChanges : QueuedChanges) (hash : Uint256) : Option CTxIndex :=
  (mapQueuedChanges.lookup hash).or (txdb.readTxIndex hash)

/-- An outpoint as hash and number. -/
def COutPoint.key (o : COutPoint) : Uint256 × Nat := (o.hash, o.n.toNat)

theorem COutPoint.key_injective {o o' : COutPoint} (h : o.key = o'.key) : o = o' := by
  obtain ⟨hash, n⟩ := o
  obtain ⟨hash', n'⟩ := o'
  have hhash : hash = hash' := (Prod.mk.inj h).1
  have hn : n = n' := UInt32.toNat_inj.mp (Prod.mk.inj h).2
  rw [hhash, hn]

/-- The slots of entry `hash` that `os` names, all set to `pos`. -/
def markSpent (pos : CDiskTxPos) (os : List (Uint256 × Nat)) (hash : Uint256)
    (txindex : CTxIndex) : CTxIndex :=
  { txindex with vSpent := txindex.vSpent.mapIdx fun n q => if (hash, n) ∈ os then pos else q }

/-- One slot set. -/
def CTxIndex.setSpent (txindex : CTxIndex) (n : Nat) (pos : CDiskTxPos) : CTxIndex :=
  { txindex with vSpent := txindex.vSpent.set n pos }

/-! ## Marking slots -/

@[simp] theorem length_markSpent (pos : CDiskTxPos) (os : List (Uint256 × Nat)) (h : Uint256)
    (txindex : CTxIndex) : (markSpent pos os h txindex).vSpent.length = txindex.vSpent.length := by
  simp [markSpent]

theorem markSpent_nil (pos : CDiskTxPos) (h : Uint256) (txindex : CTxIndex) :
    markSpent pos [] h txindex = txindex := by
  have hid : txindex.vSpent.mapIdx (fun n q => if (h, n) ∈ ([] : List (Uint256 × Nat)) then pos else q)
      = txindex.vSpent := by
    apply List.ext_getElem?
    intro n
    rw [List.getElem?_mapIdx]
    simp
  rw [markSpent, hid]

theorem getElem?_markSpent (pos : CDiskTxPos) (os : List (Uint256 × Nat)) (h : Uint256)
    (txindex : CTxIndex) (n : Nat) : (markSpent pos os h txindex).vSpent[n]? =
      (txindex.vSpent[n]?).map fun q => if (h, n) ∈ os then pos else q := by
  rw [markSpent, List.getElem?_mapIdx]

/-- Marks of other entries do not matter. -/
theorem markSpent_append_ne {pos : CDiskTxPos} {os : List (Uint256 × Nat)} {o : Uint256 × Nat}
    {h : Uint256} (hne : o.1 ≠ h) : markSpent pos (os ++ [o]) h = markSpent pos os h := by
  have hmem : ∀ n, ((h, n) ∈ os ++ [o]) = ((h, n) ∈ os) := by
    intro n
    rw [List.mem_append, List.mem_singleton, eq_iff_iff]
    exact ⟨fun hor => hor.resolve_right (fun heq => hne (by rw [← heq])), Or.inl⟩
  funext txindex
  simp only [markSpent, hmem]

/-- Setting one more slot is marking one more outpoint. -/
theorem setSpent_markSpent (pos : CDiskTxPos) (os : List (Uint256 × Nat)) (h : Uint256) (n : Nat)
    (txindex : CTxIndex) : (markSpent pos os h txindex).setSpent n pos =
      markSpent pos (os ++ [(h, n)]) h txindex := by
  have hslots : ((markSpent pos os h txindex).vSpent.set n pos) =
      (markSpent pos (os ++ [(h, n)]) h txindex).vSpent := by
    apply List.ext_getElem?
    intro m
    rw [List.getElem?_set, getElem?_markSpent, getElem?_markSpent, length_markSpent]
    by_cases hmn : n = m
    · subst hmn
      rw [if_pos rfl]
      by_cases hlt : n < txindex.vSpent.length
      · rw [if_pos hlt, List.getElem?_eq_getElem hlt]
        simp
      · rw [if_neg hlt, List.getElem?_eq_none (by omega)]; rfl
    · rw [if_neg hmn]
      have hmem : ((h, m) ∈ os ++ [(h, n)]) = ((h, m) ∈ os) := by
        rw [List.mem_append, List.mem_singleton, eq_iff_iff]
        exact ⟨fun hor => hor.resolve_right (fun heq => hmn (Prod.mk.inj heq).2.symm), Or.inl⟩
      simp only [hmem]
  show CTxIndex.mk _ _ = CTxIndex.mk _ _
  rw [hslots]; rfl

/-! ## `FetchInputs` -/

namespace CTransaction

variable (P : Primitives) (g : Globals) (tx : CTransaction)

/-- The transaction behind an index entry: on disk, unless the entry says "memory pool". -/
def prevTxOf (hash : Uint256) (txindex : CTxIndex) : Check CTransaction :=
  if txindex.pos = CDiskTxPos.memoryPool then
    match g.mempool hash with
    | none => .error (.reject 0 "FetchInputs() : mempool Tx prev not found")
    | some txPrev => .ok txPrev
  else
    match g.files.readTx txindex.pos with
    | none => .error (.reject 0 "FetchInputs() : ReadFromDisk prev tx failed")
    | some txPrev => .ok txPrev

/-- One turn of the first loop.  Without `fBlock` and `fMiner` an unindexed transaction may still
    be in the memory pool; its entry is then made up on the spot. -/
def fetchInput (txdb : CTxDB) (mapTestPool : QueuedChanges) (fBlock fMiner : Bool)
    (inputsRet : MapPrevTx) (txin : CTxIn) : Check MapPrevTx :=
  let hash := txin.prevout.hash
  match inputsRet.lookup hash with
  | some _ => .ok inputsRet
  | none =>
    match if fBlock || fMiner then indexView txdb mapTestPool hash else txdb.readTxIndex hash with
    | some txindex => do
      let txPrev ← prevTxOf g hash txindex
      return inputsRet.insert hash (txindex, txPrev)
    | none =>
      if fBlock || fMiner then .error (.reject 0 "FetchInputs() : prev tx index entry not found")
      else
        match g.mempool hash with
        | none => .error (.reject 0 "FetchInputs() : mempool Tx prev not found")
        | some txPrev =>
          .ok (inputsRet.insert hash (CTxIndex.new CDiskTxPos.null txPrev.vout.length, txPrev))

/-- The second loop's test: the output number exists. -/
def prevoutInRange (inputsRet : MapPrevTx) (txin : CTxIn) : Bool :=
  match inputsRet.lookup txin.prevout.hash with
  | none => false
  | some (txindex, txPrev) => decide (¬ (txin.prevout.n.toNat ≥ txPrev.vout.length ∨
      txin.prevout.n.toNat ≥ txindex.vSpent.length))

/-- The failure carries `fInvalid`: whether the transaction is definitely invalid. -/
def fetchInputs (txdb : CTxDB) (mapTestPool : QueuedChanges) (fBlock fMiner : Bool) :
    Except (Failure × Bool) MapPrevTx :=
  if tx.isCoinBase then .ok ∅
  else do
    let inputsRet ← orFail (tx.vin.foldlM (fetchInput g txdb mapTestPool fBlock fMiner) ∅)
      fun e => (e, false)
    require (tx.vin.all (prevoutInRange inputsRet))
      (.reject 100 "FetchInputs() : prevout.n out of range", true)
    return inputsRet

/-! ## What the inputs are worth -/

def getOutputFor (input : CTxIn) (inputs : MapPrevTx) : Check CTxOut :=
  match inputs.lookup input.prevout.hash with
  | none => .error (.throw "CTransaction::GetOutputFor() : prevout.hash not found")
  | some (_, txPrev) =>
    match txPrev.vout[input.prevout.n.toNat]? with
    | none => .error (.throw "CTransaction::GetOutputFor() : prevout.n out of range")
    | some txout => .ok txout

/-- One turn of the loop of `GetValueIn`. -/
def addValueIn (inputs : MapPrevTx) (nResult : Int) (txin : CTxIn) : Check Int := do
  let txout ← getOutputFor txin inputs
  return int64 (nResult + txout.nValue)

def getValueIn (inputs : MapPrevTx) : Check Int :=
  if tx.isCoinBase then .ok 0 else tx.vin.foldlM (addValueIn inputs) 0

/-- One turn of the loop of `GetP2SHSigOpCount`. -/
def addP2SHSigOps (inputs : MapPrevTx) (nSigOps : Nat) (txin : CTxIn) : Check Nat := do
  let prevout ← getOutputFor txin inputs
  return if isPayToScriptHash prevout.scriptPubKey then
    nSigOps + getScriptSigOpCount prevout.scriptPubKey txin.scriptSig else nSigOps

def getP2SHSigOpCount (inputs : MapPrevTx) : Check Nat :=
  if tx.isCoinBase then .ok 0 else tx.vin.foldlM (addP2SHSigOps inputs) 0

/-! ## `ConnectInputs` -/

/-- Is the block at `pos` one of the last `nCoinbaseMaturity` blocks ending in `pindexBlock`? -/
def immature (pindexBlock : BlockPtr) (pos : CDiskTxPos) : Bool :=
  match pindexBlock with
  | [] => false
  | top :: _ =>
    (pindexBlock.takeWhile fun pindex =>
        decide ((top.nHeight : Int) - pindex.nHeight < g.nCoinbaseMaturity)).any fun pindex =>
      decide (pindex.nBlockPos = pos.nBlockPos ∧ pindex.nFile = pos.nFile)

/-- One turn of the first loop, the inexpensive checks; it carries the value so far. -/
def checkInput (inputs : MapPrevTx) (pindexBlock : BlockPtr) (nValueIn : Int) (txin : CTxIn) :
    Check Int :=
  match inputs.lookup txin.prevout.hash with
  | none => .error (.throw "assert(inputs.count(prevout.hash) > 0)")
  | some (txindex, txPrev) =>
    match txPrev.vout[txin.prevout.n.toNat]?, txindex.vSpent[txin.prevout.n.toNat]? with
    | some txout, some _ => do
      require (¬ ((txPrev.isCoinBase ∨ txPrev.isCoinStake) ∧ immature g pindexBlock txindex.pos))
        (.reject 0 "ConnectInputs() : tried to spend coinbase or coinstake at depth")
      require (¬ txPrev.nTime > tx.nTime)
        (.reject 100 "ConnectInputs() : transaction timestamp earlier than input transaction")
      let nValueIn := int64 (nValueIn + txout.nValue)
      require (moneyRange txout.nValue && moneyRange nValueIn)
        (.reject 100 "ConnectInputs() : txin values out of range")
      return nValueIn
    | _, _ => .error (.reject 100 "ConnectInputs() : prevout.n out of range")

/-- The signature of an input, unless the block is below the last hardened checkpoint. -/
def checkSignature (fBlock : Bool) (txPrev : CTransaction) (nIn : Nat) : Check Unit :=
  if fBlock ∧ g.nBestHeight < getTotalBlocksEstimate g.fTestNet then .ok ()
  else require (P.verifySignature txPrev tx nIn) (.reject 100 "ConnectInputs() : VerifySignature failed")

/-- One turn of the second loop: conflict, signature, and the slot is taken. -/
def spendInput (posThisTx : CDiskTxPos) (fBlock fMiner : Bool) (s : MapPrevTx × QueuedChanges)
    (input : CTxIn × Nat) : Check (MapPrevTx × QueuedChanges) :=
  let (inputs, mapTestPool) := s
  let prevout := input.1.prevout
  match inputs.lookup prevout.hash with
  | none => .error (.throw "assert(inputs.count(prevout.hash) > 0)")
  | some (txindex, txPrev) =>
    match txindex.vSpent[prevout.n.toNat]? with
    | none => .error (.reject 100 "ConnectInputs() : prevout.n out of range")
    | some spent => do
      require spent.isNull (.reject 0 "ConnectInputs() : prev tx already used")
      checkSignature P g tx fBlock txPrev input.2
      let txindex := txindex.setSpent prevout.n.toNat posThisTx
      return (inputs.insert prevout.hash (txindex, txPrev),
        if fBlock || fMiner then mapTestPool.insert prevout.hash txindex else mapTestPool)

/-- The value and fee rules; a coinstake is exempt from both. -/
def checkFee (nValueIn : Int) : Check Unit :=
  if tx.isCoinStake then .ok ()
  else do
    let nValueOut ← tx.getValueOut
    require (¬ nValueIn < nValueOut) (.reject 100 "ConnectInputs() : value in < value out")
    let nTxFee := int64 (nValueIn - nValueOut)
    require (¬ nTxFee < 0) (.reject 100 "ConnectInputs() : nTxFee < 0")
    require (¬ nTxFee < tx.getMinFee 1 .GMF_BLOCK 0)
      (.reject 100 "ConnectInputs() : not paying required fee")
    require (moneyRange nTxFee) (.reject 100 "ConnectInputs() : nFees out of range")

/-- Returns `mapTestPool` with the entries of the spent transactions updated. -/
def connectInputs (inputs : MapPrevTx) (mapTestPool : QueuedChanges) (posThisTx : CDiskTxPos)
    (pindexBlock : BlockPtr) (fBlock fMiner : Bool) : Check QueuedChanges :=
  if tx.isCoinBase then .ok mapTestPool
  else do
    let nValueIn ← tx.vin.foldlM (checkInput g tx inputs pindexBlock) 0
    let s ← tx.vin.zipIdx.foldlM (spendInput P g tx posThisTx fBlock fMiner) (inputs, mapTestPool)
    checkFee tx nValueIn
    return s.2

/-! ## `DisconnectInputs` -/

/-- One turn of the loop: the slot is emptied and written back. -/
def disconnectInput (txdb : CTxDB) (txin : CTxIn) : Check CTxDB :=
  match txdb.readTxIndex txin.prevout.hash with
  | none => .error (.reject 0 "DisconnectInputs() : ReadTxIndex failed")
  | some txindex => do
    require (¬ txin.prevout.n.toNat ≥ txindex.vSpent.length)
      (.reject 0 "DisconnectInputs() : prevout.n out of range")
    return txdb.updateTxIndex txin.prevout.hash
      (txindex.setSpent txin.prevout.n.toNat CDiskTxPos.null)

def disconnectInputs (txdb : CTxDB) : Check CTxDB := do
  let txdb ← if tx.isCoinBase then .ok txdb else tx.vin.foldlM disconnectInput txdb
  return txdb.eraseTxIndex P tx

/-! ## What a successful fetch returns -/

section Fetch

variable {g} {txdb : CTxDB} {mapTestPool : QueuedChanges}

/-- Every fetched entry is the one the index shows, with the transaction it points to. -/
def Fetched (g : Globals) (txdb : CTxDB) (mapTestPool : QueuedChanges) (inputs : MapPrevTx) : Prop :=
  ∀ h txindex txPrev, inputs.lookup h = some (txindex, txPrev) →
    indexView txdb mapTestPool h = some txindex ∧ prevTxOf g h txindex = .ok txPrev

theorem fetchInput_ok {fBlock fMiner : Bool} (hqueued : (fBlock || fMiner) = true)
    {inputs inputs' : MapPrevTx} {txin : CTxIn} (hf : Fetched g txdb mapTestPool inputs)
    (h : fetchInput g txdb mapTestPool fBlock fMiner inputs txin = .ok inputs') :
    Fetched g txdb mapTestPool inputs' := by
  unfold fetchInput at h
  simp only [hqueued, if_true] at h
  split at h
  · cases h; exact hf
  · split at h
    · rename_i txindex hview
      rw [bind_ok] at h
      obtain ⟨txPrev, hprev, h⟩ := h
      rw [pure_ok] at h
      subst h
      intro h' ti tp hlook
      rw [lookup_insert_eq_ite] at hlook
      by_cases heq : txin.prevout.hash = h'
      · rw [if_pos heq] at hlook
        cases hlook
        subst heq
        exact ⟨hview, hprev⟩
      · rw [if_neg heq] at hlook
        exact hf h' ti tp hlook
    · cases h

/-- The entry and the transaction behind each input, the output number in range of both. -/
theorem fetchInputs_ok {fBlock fMiner : Bool} (hqueued : (fBlock || fMiner) = true)
    {inputs : MapPrevTx} (hcb : tx.isCoinBase = false)
    (h : fetchInputs g tx txdb mapTestPool fBlock fMiner = .ok inputs) :
    Fetched g txdb mapTestPool inputs ∧ ∀ txin ∈ tx.vin, ∃ txindex txPrev,
      inputs.lookup txin.prevout.hash = some (txindex, txPrev) ∧
        txin.prevout.n.toNat < txPrev.vout.length ∧
        txin.prevout.n.toNat < txindex.vSpent.length := by
  unfold fetchInputs at h
  rw [if_neg (by simp [hcb])] at h
  simp only [bind_ok, orFail_ok, require_ok, exists_const, pure_ok, List.all_eq_true] at h
  obtain ⟨inputs', hloop, hrange, rfl⟩ := h
  constructor
  · refine foldlM_ok_inv (P := Fetched g txdb mapTestPool) ?_ ?_ hloop
    · intro h' ti tp hl; cases hl
    · intro txin _ s s' hs hstep
      exact fetchInput_ok hqueued hs hstep
  · intro txin htx
    have hin := hrange txin htx
    unfold prevoutInRange at hin
    split at hin
    · cases hin
    · rename_i ti tp hl
      rw [decide_eq_true_eq] at hin
      exact ⟨ti, tp, hl, by omega, by omega⟩

/-- Outside a block: the entry of the index, or one made up for a transaction of the memory pool. -/
def FetchedLoose (g : Globals) (txdb : CTxDB) (inputs : MapPrevTx) : Prop :=
  ∀ h txindex txPrev, inputs.lookup h = some (txindex, txPrev) →
    txdb.readTxIndex h = some txindex ∨ txdb.readTxIndex h = none ∧ g.mempool h = some txPrev

theorem fetchInputs_loose {inputs : MapPrevTx} (hcb : tx.isCoinBase = false)
    (h : fetchInputs g tx txdb mapTestPool false false = .ok inputs) : FetchedLoose g txdb inputs := by
  unfold fetchInputs at h
  rw [if_neg (by simp [hcb])] at h
  simp only [bind_ok, orFail_ok, require_ok, exists_const, pure_ok] at h
  obtain ⟨inputs', hloop, -, rfl⟩ := h
  refine foldlM_ok_inv (P := FetchedLoose g txdb) (fun h' ti tp hl => by cases hl) ?_ hloop
  intro txin _ s s' hs hstep
  unfold fetchInput at hstep
  simp only [Bool.or_self, Bool.false_eq_true, if_false] at hstep
  split at hstep
  · cases hstep; exact hs
  · intro h' ti tp hlook
    split at hstep
    · rename_i txindex hread
      rw [bind_ok] at hstep
      obtain ⟨txPrev, -, hstep⟩ := hstep
      cases hstep
      rw [lookup_insert_eq_ite] at hlook
      split at hlook
      · rename_i heq
        cases hlook
        subst heq
        exact Or.inl hread
      · exact hs h' ti tp hlook
    · rename_i hread
      split at hstep
      · cases hstep
      · rename_i txPrev hpool
        cases hstep
        rw [lookup_insert_eq_ite] at hlook
        split at hlook
        · rename_i heq
          cases hlook
          subst heq
          exact Or.inr ⟨hread, hpool⟩
        · exact hs h' ti tp hlook

end Fetch

/-! ## What the inputs are worth, exactly -/

/-- The value of the output an input spends, as fetched. -/
def inputValue (inputs : MapPrevTx) (txin : CTxIn) : Int :=
  match inputs.lookup txin.prevout.hash with
  | none => 0
  | some (_, txPrev) => ((txPrev.vout[txin.prevout.n.toNat]?).map CTxOut.nValue).getD 0

theorem getOutputFor_ok {inputs : MapPrevTx} {txin : CTxIn} {txout : CTxOut}
    (h : getOutputFor txin inputs = .ok txout) : inputValue inputs txin = txout.nValue := by
  unfold getOutputFor at h
  unfold inputValue
  split at h
  · cases h
  · split at h
    · cases h
    · rename_i hout
      cases h
      simp [hout]

/-- `GetValueIn` adds up what the inputs are worth; here nothing bounds the sum. -/
theorem getValueIn_ok {inputs : MapPrevTx} {v : Int} (hcb : tx.isCoinBase = false)
    (h : tx.getValueIn inputs = .ok v) : v = int64 (tx.vin.map (inputValue inputs)).sum := by
  unfold getValueIn at h
  rw [if_neg (by simp [hcb])] at h
  refine foldlM_ok_induct (P := fun pre s => s = int64 (pre.map (inputValue inputs)).sum) rfl ?_ h
  rintro pre txin post s s' - rfl hstep
  unfold addValueIn at hstep
  simp only [bind_ok, pure_ok] at hstep
  obtain ⟨txout, hout, rfl⟩ := hstep
  rw [int64_add_left, List.map_append, List.sum_append, ← getOutputFor_ok hout]
  simp

/-! ## What a successful connect checked and did -/

section Connect

variable {P g tx} {inputs : MapPrevTx} {pindexBlock : BlockPtr} {posThisTx : CDiskTxPos}

theorem checkInput_ok {nValueIn r : Int} {txin : CTxIn}
    (h : checkInput g tx inputs pindexBlock nValueIn txin = .ok r) :
    ∃ txindex txPrev, inputs.lookup txin.prevout.hash = some (txindex, txPrev) ∧
      ¬ ((txPrev.isCoinBase ∨ txPrev.isCoinStake) ∧ immature g pindexBlock txindex.pos) ∧
      ¬ txPrev.nTime > tx.nTime ∧ moneyRange (inputValue inputs txin) = true ∧
      moneyRange r = true ∧ r = int64 (nValueIn + inputValue inputs txin) := by
  unfold checkInput at h
  split at h
  · cases h
  · rename_i txindex txPrev hlook
    split at h
    · rename_i txout _ hout _
      simp only [require_bind_ok, pure_ok, decide_eq_true_eq, Bool.and_eq_true] at h
      obtain ⟨hmature, htime, ⟨hv, hr⟩, rfl⟩ := h
      have hval : inputValue inputs txin = txout.nValue := by
        unfold inputValue
        rw [hlook]
        simp [hout]
      rw [hval]
      exact ⟨txindex, txPrev, hlook, hmature, htime, hv, hr, rfl⟩
    · cases h

/-- The first loop returns the exact total of the inputs: every partial sum was in range. -/
theorem checkInputs_ok {v : Int} (h : tx.vin.foldlM (checkInput g tx inputs pindexBlock) 0 = .ok v) :
    v = (tx.vin.map (inputValue inputs)).sum ∧ moneyRange v = true ∧
      ∀ txin ∈ tx.vin, moneyRange (inputValue inputs txin) = true := by
  refine foldlM_ok_induct (P := fun pre s => s = (pre.map (inputValue inputs)).sum ∧
    moneyRange s = true ∧ ∀ txin ∈ pre, moneyRange (inputValue inputs txin) = true)
    ⟨rfl, (by decide : moneyRange 0 = true), fun _ h => absurd h List.not_mem_nil⟩ ?_ h
  rintro pre txin post s s' - ⟨hs, hrange, hall⟩ hstep
  obtain ⟨_, _, _, _, _, hv, hr, rfl⟩ := checkInput_ok hstep
  rw [int64_add_money hrange hv] at hr ⊢
  refine ⟨by rw [List.map_append, List.sum_append, hs]; simp, hr, ?_⟩
  intro i hi
  rcases List.mem_append.mp hi with hi | hi
  · exact hall i hi
  · rw [List.mem_singleton.mp hi]; exact hv

/-- What the second loop has done once it has taken the outpoints `os`. -/
structure Spending (txdb : CTxDB) (inputs : MapPrevTx) (mapTestPool : QueuedChanges)
    (posThisTx : CDiskTxPos) (os : List (Uint256 × Nat)) (s : MapPrevTx × QueuedChanges) : Prop where
  inputs_eq : ∀ h, s.1.lookup h =
    (inputs.lookup h).map fun r => (markSpent posThisTx os h r.1, r.2)
  view_eq : ∀ h, indexView txdb s.2 h =
    (indexView txdb mapTestPool h).map (markSpent posThisTx os h)
  unspent : ∀ o ∈ os, ∃ txindex txPrev q, inputs.lookup o.1 = some (txindex, txPrev) ∧
    txindex.vSpent[o.2]? = some q ∧ q.isNull = true

/-- One turn of the second loop, whatever it is called for: the slot was null, and is taken. -/
theorem spendInput_taken {fBlock fMiner : Bool} {os : List (Uint256 × Nat)}
    {s s' : MapPrevTx × QueuedChanges} {input : CTxIn × Nat}
    (hs : ∀ h, s.1.lookup h = (inputs.lookup h).map fun r => (markSpent posThisTx os h r.1, r.2))
    (hfresh : input.1.prevout.key ∉ os)
    (h : spendInput P g tx posThisTx fBlock fMiner s input = .ok s') :
    (∀ h, s'.1.lookup h = (inputs.lookup h).map fun r =>
      (markSpent posThisTx (os ++ [input.1.prevout.key]) h r.1, r.2)) ∧
    ∃ txindex txPrev q, inputs.lookup input.1.prevout.hash = some (txindex, txPrev) ∧
      txindex.vSpent[input.1.prevout.n.toNat]? = some q ∧ q.isNull = true ∧
      s'.2 = if fBlock || fMiner then s.2.insert input.1.prevout.hash (markSpent posThisTx
        (os ++ [input.1.prevout.key]) input.1.prevout.hash txindex) else s.2 := by
  obtain ⟨inputs₁, pool₁⟩ := s
  obtain ⟨⟨o, scriptSig, nSequence⟩, nIn⟩ := input
  change o.key ∉ os at hfresh
  show (∀ h, _ = (inputs.lookup h).map fun r => (markSpent posThisTx (os ++ [o.key]) h r.1, r.2)) ∧
    ∃ txindex txPrev q, inputs.lookup o.hash = some (txindex, txPrev) ∧
      txindex.vSpent[o.n.toNat]? = some q ∧ q.isNull = true ∧ _ = _
  unfold spendInput at h
  dsimp only at h
  have hin := hs o.hash
  split at h
  · cases h
  · rename_i ti₁ tp hlook
    rw [hlook] at hin
    -- the entry read is the fetched one with the earlier marks
    obtain ⟨⟨ti, tp'⟩, hlook₀, hpair⟩ := Option.map_eq_some_iff.mp hin.symm
    cases hpair
    split at h
    · cases h
    · rename_i q hslot
      simp only [bind_ok, require_ok, exists_const, pure_ok] at h
      obtain ⟨hnull, _, -, rfl⟩ := h
      rw [getElem?_markSpent] at hslot
      obtain ⟨q₀, hq₀, hq⟩ := Option.map_eq_some_iff.mp hslot
      rw [if_neg (show (o.hash, o.n.toNat) ∉ os from hfresh)] at hq
      subst hq
      rw [setSpent_markSpent]
      refine ⟨fun h' => ?_, ti, _, q₀, hlook₀, hq₀, hnull, rfl⟩
      rw [lookup_insert_eq_ite]
      by_cases heq : o.hash = h'
      · subst heq
        rw [if_pos rfl, hlook₀]; rfl
      · rw [if_neg heq, hs h', markSpent_append_ne (o := o.key) heq]

theorem spendInput_ok {txdb : CTxDB} {mapTestPool : QueuedChanges} {fBlock fMiner : Bool}
    (hqueued : (fBlock || fMiner) = true) {os : List (Uint256 × Nat)}
    {s s' : MapPrevTx × QueuedChanges} {input : CTxIn × Nat}
    (hfetch : Fetched g txdb mapTestPool inputs)
    (hs : Spending txdb inputs mapTestPool posThisTx os s) (hfresh : input.1.prevout.key ∉ os)
    (h : spendInput P g tx posThisTx fBlock fMiner s input = .ok s') :
    Spending txdb inputs mapTestPool posThisTx (os ++ [input.1.prevout.key]) s' := by
  obtain ⟨hinputs, ti, tp, q, hlook, hq, hnull, hpool⟩ := spendInput_taken hs.inputs_eq hfresh h
  refine ⟨hinputs, fun h' => ?_, fun o ho => ?_⟩
  · rw [hpool, if_pos hqueued]
    show (AList.lookup h' (AList.insert _ _ s.2)).or _ = _
    rw [lookup_insert_eq_ite]
    by_cases heq : input.1.prevout.hash = h'
    · subst heq
      rw [if_pos rfl, (hfetch _ _ _ hlook).1]; rfl
    · rw [if_neg heq, markSpent_append_ne (o := input.1.prevout.key) heq]
      exact hs.view_eq h'
  · rcases List.mem_append.mp ho with ho | ho
    · exact hs.unspent o ho
    · rw [List.mem_singleton.mp ho]
      exact ⟨ti, tp, q, hlook, hq, hnull⟩

/-- The outpoints of the numbered inputs. -/
theorem keys_zipIdx : ∀ (l : List CTxIn) (k : Nat), (l.zipIdx k).map (fun i => i.1.prevout.key) =
    (l.map CTxIn.prevout).map COutPoint.key
  | [], _ => rfl
  | txin :: l, k => by rw [List.zipIdx_cons, List.map_cons, keys_zipIdx l]; rfl

theorem keys_nodup (hnd : tx.prevouts.Nodup) :
    (tx.vin.zipIdx.map fun i => i.1.prevout.key).Nodup := by
  rw [keys_zipIdx]
  exact hnd.map fun _ _ => COutPoint.key_injective

/-- **`ConnectInputs`**, whatever it is called for: every output spent had a null slot in the entry
    that was fetched. -/
theorem connectInputs_null {mapTestPool pool' : QueuedChanges} {fBlock fMiner : Bool}
    (hcb : tx.isCoinBase = false) (hnd : tx.prevouts.Nodup)
    (h : connectInputs P g tx inputs mapTestPool posThisTx pindexBlock fBlock fMiner = .ok pool') :
    ∀ o ∈ tx.prevouts, ∃ txindex txPrev q, inputs.lookup o.hash = some (txindex, txPrev) ∧
      txindex.vSpent[o.n.toNat]? = some q ∧ q.isNull = true := by
  unfold connectInputs at h
  rw [if_neg (by simp [hcb])] at h
  simp only [bind_ok, pure_ok] at h
  obtain ⟨_, -, s, hspend, -⟩ := h
  have hndk := keys_nodup hnd
  have hloop := foldlM_ok_induct (P := fun pre s =>
      (∀ h, s.1.lookup h = (inputs.lookup h).map fun r =>
        (markSpent posThisTx (pre.map fun i : CTxIn × Nat => i.1.prevout.key) h r.1, r.2)) ∧
      ∀ input ∈ pre, ∃ txindex txPrev q, inputs.lookup input.1.prevout.hash = some (txindex, txPrev) ∧
        txindex.vSpent[input.1.prevout.n.toNat]? = some q ∧ q.isNull = true)
    ?_ ?_ hspend
  · intro o ho
    obtain ⟨txin, htxin, rfl⟩ := List.mem_map.mp ho
    obtain ⟨i, hi⟩ := List.getElem?_of_mem htxin
    exact hloop.2 (txin, i) (by
      rw [List.mem_zipIdx_iff_getElem?]
      exact hi)
  · refine ⟨fun h => ?_, fun i hi => absurd hi List.not_mem_nil⟩
    cases inputs.lookup h <;> simp [markSpent_nil]
  · rintro pre input post s s' hl ⟨hs, hall⟩ hstep
    rw [hl, List.map_append, List.nodup_append] at hndk
    obtain ⟨hs', ti, tp, q, hlook, hq, hnull, -⟩ := spendInput_taken hs
      (fun hmem => hndk.2.2 _ hmem _ (List.mem_map_of_mem List.mem_cons_self) rfl) hstep
    rw [List.map_append]
    refine ⟨hs', fun i hi => ?_⟩
    rcases List.mem_append.mp hi with hi | hi
    · exact hall i hi
    · rw [List.mem_singleton.mp hi]
      exact ⟨ti, tp, q, hlook, hq, hnull⟩

/-- **`ConnectInputs`.**  The slots of the outpoints spent were null and now hold the position of
    this transaction; nothing else in the index changed.  The inputs are worth `nValueIn`, exactly,
    and unless the transaction is a coinstake they are worth more than its outputs. -/
theorem connectInputs_ok {txdb : CTxDB} {mapTestPool pool' : QueuedChanges} {fBlock fMiner : Bool}
    (hqueued : (fBlock || fMiner) = true) (hcb : tx.isCoinBase = false) (hnd : tx.prevouts.Nodup)
    (hfetch : Fetched g txdb mapTestPool inputs)
    (h : connectInputs P g tx inputs mapTestPool posThisTx pindexBlock fBlock fMiner = .ok pool') :
    (∀ h, indexView txdb pool' h = (indexView txdb mapTestPool h).map
      (markSpent posThisTx (tx.prevouts.map COutPoint.key) h)) ∧
    (∀ o ∈ tx.prevouts, ∃ txindex txPrev q, inputs.lookup o.hash = some (txindex, txPrev) ∧
      txindex.vSpent[o.n.toNat]? = some q ∧ q.isNull = true) ∧
    moneyRange (tx.vin.map (inputValue inputs)).sum = true ∧
    (∀ txin ∈ tx.vin, moneyRange (inputValue inputs txin) = true) ∧
    (tx.isCoinStake = false → tx.valueOut + 10000 ≤ (tx.vin.map (inputValue inputs)).sum) := by
  unfold connectInputs at h
  rw [if_neg (by simp [hcb])] at h
  simp only [bind_ok, pure_ok] at h
  obtain ⟨v, hcheck, s, hspend, _, hfee, rfl⟩ := h
  obtain ⟨rfl, hrange, hall⟩ := checkInputs_ok hcheck
  -- the second loop, over the numbered inputs
  have hndk := keys_nodup hnd
  have hloop := foldlM_ok_induct (P := fun pre s => Spending txdb inputs mapTestPool posThisTx
      (pre.map fun i : CTxIn × Nat => i.1.prevout.key) s) ?_ ?_ hspend
  · rw [keys_zipIdx] at hloop
    refine ⟨hloop.view_eq, ?_, hrange, hall, ?_⟩
    · intro o ho
      exact hloop.unspent o.key (List.mem_map_of_mem ho)
    · intro hcs
      unfold checkFee at hfee
      rw [if_neg (by simp [hcs])] at hfee
      simp only [bind_ok, require_ok, exists_const, decide_eq_true_eq, getMinFee_block] at hfee
      obtain ⟨out, hout, hlt, hneg, hmin, hfr⟩ := hfee
      obtain ⟨rfl, horange, -⟩ := tx.getValueOut_ok hout
      rw [moneyRange_iff] at hrange horange
      rw [int64_of_range (by omega) (by omega)] at hmin
      omega
  · refine ⟨fun h => ?_, fun h => ?_, fun o ho => absurd ho List.not_mem_nil⟩
    · cases inputs.lookup h <;> simp [markSpent_nil]
    · show indexView txdb mapTestPool h = _
      cases indexView txdb mapTestPool h <;> simp [markSpent_nil]
  · intro pre input post s s' hl hs hstep
    rw [List.map_append]
    refine spendInput_ok hqueued hfetch hs ?_ hstep
    rw [hl, List.map_append, List.nodup_append] at hndk
    intro hmem
    exact hndk.2.2 _ hmem _ (List.mem_map_of_mem List.mem_cons_self) rfl

end Connect

/-! ## What disconnecting does -/

/-- **`DisconnectInputs`.**  Where the entries spent from exist, it succeeds: their slots are null
    again and the transaction's own entry is gone. -/
theorem disconnectInputs_eq {txdb : CTxDB}
    (hex : tx.isCoinBase = false → ∀ o ∈ tx.prevouts, ∃ txindex,
      txdb.readTxIndex o.hash = some txindex ∧ o.n.toNat < txindex.vSpent.length) :
    ∃ txdb', tx.disconnectInputs P txdb = .ok txdb' ∧ ∀ h, txdb'.readTxIndex h =
      if P.getHash tx = h then none
      else (txdb.readTxIndex h).map (markSpent CDiskTxPos.null
        (if tx.isCoinBase then [] else tx.prevouts.map COutPoint.key) h) := by
  unfold disconnectInputs
  by_cases hcb : tx.isCoinBase = true
  · refine ⟨txdb.eraseTxIndex P tx, by simp [hcb], fun h => ?_⟩
    rw [CTxDB.readTxIndex_eraseTxIndex, if_pos hcb]
    cases txdb.readTxIndex h <;> simp [markSpent_nil]
  · -- over the inputs done so far: the loop has not stopped, and their slots are null
    have hloop : ∀ (post pre : List CTxIn) (db : CTxDB), tx.vin = pre ++ post →
        (∀ h, db.readTxIndex h = (txdb.readTxIndex h).map (markSpent CDiskTxPos.null
          (pre.map fun i => i.prevout.key) h)) →
        ∃ db', post.foldlM disconnectInput db = .ok db' ∧ ∀ h, db'.readTxIndex h =
          (txdb.readTxIndex h).map (markSpent CDiskTxPos.null
            (tx.vin.map fun i => i.prevout.key) h) := by
      intro post
      induction post with
      | nil => intro pre db hl hdb; exact ⟨db, rfl, by rw [hl, List.append_nil]; exact hdb⟩
      | cons txin post ih =>
        intro pre db hl hdb
        have hmem : txin.prevout ∈ tx.prevouts := by
          unfold prevouts
          rw [hl]
          exact List.mem_map_of_mem (List.mem_append_right _ List.mem_cons_self)
        obtain ⟨ti, hti, hn⟩ := hex (by simpa using hcb) _ hmem
        have hread := hdb txin.prevout.hash
        rw [hti, Option.map_some] at hread
        have hstep : disconnectInput db txin = .ok (db.updateTxIndex txin.prevout.hash
            (markSpent CDiskTxPos.null ((pre.map fun i => i.prevout.key) ++ [txin.prevout.key])
              txin.prevout.hash ti)) := by
          have hrange : ¬ (txin.prevout.n.toNat ≥ ti.vSpent.length) := by omega
          unfold disconnectInput
          rw [hread]
          simp only [length_markSpent, hrange, not_false_eq_true, decide_true, require_true, ok_bind]
          rw [setSpent_markSpent]; rfl
        rw [List.foldlM_cons, hstep]
        refine ih (pre ++ [txin]) _ (by rw [hl, List.append_assoc]; rfl) ?_
        intro h
        rw [CTxDB.readTxIndex_updateTxIndex, List.map_append]
        by_cases heq : txin.prevout.hash = h
        · subst heq
          rw [if_pos rfl, hti]; rfl
        · rw [if_neg heq, hdb h]
          exact congrArg (fun f => (txdb.readTxIndex h).map f)
            (markSpent_append_ne (o := txin.prevout.key) heq).symm
    obtain ⟨db', hrun, hdb'⟩ := hloop tx.vin [] txdb rfl
      (fun h => by cases txdb.readTxIndex h <;> simp [markSpent_nil])
    refine ⟨db'.eraseTxIndex P tx, by simp [hcb, hrun], fun h => ?_⟩
    rw [CTxDB.readTxIndex_eraseTxIndex, hdb', if_neg hcb]
    unfold prevouts
    rw [List.map_map]; rfl

end CTransaction
end Silkcoin
