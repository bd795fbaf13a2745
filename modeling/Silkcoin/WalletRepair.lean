/-
  `FixSpentCoins`: the flags of the wallet and the slots of the transaction index.

  Both say of an output whether it is spent, and the wallet may be wrong: a block was lost, or a transaction
  of another wallet with the same keys was missed.  The repair goes through all records that the index knows
  and, for each output of ours where the two DIFFER, counts it, adds its value, and sets the flag to what the
  slot says, whichever way that is.

  A step changes the flag of its own output only (`isSpent_fixOutput`), however long the vector of flags is:
  `MarkSpent` and `MarkUnspent` give it its full length.  So what a later step finds in dispute was in dispute
  at the beginning, a run counts exactly the outputs that differ (`fixSpentCoins_spec`), and a second run finds
  none.  The balance is an `int64_t`.
-/
import Silkcoin.WalletNotices
import Silkcoin.TxDb

namespace Silkcoin

open BatchStore

/-- Does the slot of an output say that it is spent? -/
def CTxIndex.saysSpent (txindex : CTxIndex) (n : Nat) : Bool :=
  !(decide (txindex.vSpent.length ≤ n) || (txindex.vSpent.getD n CDiskTxPos.null).isNull)

/-- `nMismatchFound` and `nBalanceInQuestion`. -/
structure Mismatch where
  nMismatchFound : Nat
  nBalanceInQuestion : Int
deriving DecidableEq, Repr

def Mismatch.found (m : Mismatch) (nValue : Int) : Mismatch :=
  ⟨m.nMismatchFound + 1, int64 (m.nBalanceInQuestion + nValue)⟩

/-- The balance is an `int64_t`. -/
def Mismatch.Fits (m : Mismatch) : Prop := int64 m.nBalanceInQuestion = m.nBalanceInQuestion

namespace CWallet

variable (P : Primitives) (txdb : CTxDB) (fCheckOnly : Bool) (w : CWallet)

/-- One output: a lost coin, a spent coin, or neither. -/
def fixOutput (txindex : CTxIndex) (r : CWalletTx × Mismatch) (o : CTxOut × Nat) : CWalletTx × Mismatch :=
  if w.isMineOut o.1 ∧ r.1.isSpent o.2 = true ∧ txindex.saysSpent o.2 = false then
    (if fCheckOnly then r.1 else r.1.markUnspent o.2, r.2.found o.1.nValue)
  else if w.isMineOut o.1 ∧ r.1.isSpent o.2 = false ∧ txindex.saysSpent o.2 = true then
    (if fCheckOnly then r.1 else r.1.markSpent o.2, r.2.found o.1.nValue)
  else r

/-- One record, if the index knows it. -/
def fixCoin (r : CWallet × Mismatch) (hash : Uint256) : CWallet × Mismatch :=
  match r.1.mapWallet.lookup hash with
  | none => r
  | some pcoin =>
    match txdb.readTxIndex (P.getHash pcoin.tx) with
    | none => r
    | some txindex =>
      let fixed := pcoin.tx.vout.zipIdx.foldl (r.1.fixOutput fCheckOnly txindex) (pcoin, r.2)
      ({ r.1 with mapWallet := r.1.mapWallet.insert hash fixed.1 }, fixed.2)

/-- The keys of the records, in the order of the map. -/
def vCoins : List Uint256 := w.mapWallet.keys.insertionSort fun h h' => h ≤ h'

def fixSpentCoins : CWallet × Mismatch := w.vCoins.foldl (fixCoin P txdb fCheckOnly) (w, ⟨0, 0⟩)

/-! ## What is in dispute -/

/-- An output of ours whose flag is not what its slot says. -/
def disputes (txindex : CTxIndex) (pcoin : CWalletTx) (o : CTxOut × Nat) : Bool :=
  w.isMineOut o.1 && (pcoin.isSpent o.2 != txindex.saysSpent o.2)

/-- The outputs of a record that are in dispute. -/
def questionedOf (pcoin : CWalletTx) : List CTxOut :=
  match txdb.readTxIndex (P.getHash pcoin.tx) with
  | none => []
  | some txindex => (pcoin.tx.vout.zipIdx.filter (w.disputes txindex pcoin)).map Prod.fst

/-- All outputs that are in dispute. -/
def questioned : List CTxOut :=
  w.vCoins.flatMap fun hash => ((w.mapWallet.lookup hash).map (w.questionedOf P txdb)).getD []

/-- What a repair makes of a record. -/
structure Repaired (pcoin pcoin' : CWalletTx) : Prop where
  kept : pcoin' = { pcoin with vfSpent := pcoin'.vfSpent }
  unknown : txdb.readTxIndex (P.getHash pcoin.tx) = none → pcoin' = pcoin
  flags : ∀ txindex, txdb.readTxIndex (P.getHash pcoin.tx) = some txindex → ∀ n txout,
    pcoin.tx.vout[n]? = some txout →
    pcoin'.isSpent n = if w.isMineOut txout then txindex.saysSpent n else pcoin.isSpent n

/-! ## One output -/

variable {P txdb fCheckOnly w} {txindex : CTxIndex} {r : CWalletTx × Mismatch} {o : CTxOut × Nat}

/-- Whichever way the two differ, the flag becomes what the slot says. -/
theorem fixOutput_eq : w.fixOutput fCheckOnly txindex r o =
    if w.disputes txindex r.1 o = true then
      (if fCheckOnly then r.1 else r.1.mark (txindex.saysSpent o.2) o.2, r.2.found o.1.nValue)
    else r := by
  unfold fixOutput disputes
  cases hmine : w.isMineOut o.1 with
  | false => rfl
  | true =>
    cases hflag : r.1.isSpent o.2 <;> cases hslot : txindex.saysSpent o.2 <;> rfl

/-- A step changes the flag of its own output only. -/
theorem isSpent_fixOutput {n : Nat} (hn : n < r.1.tx.vout.length) :
    (w.fixOutput false txindex r o).1.isSpent n =
      if o.2 = n ∧ w.isMineOut o.1 = true then txindex.saysSpent n else r.1.isSpent n := by
  rw [fixOutput_eq]
  by_cases hdispute : w.disputes txindex r.1 o = true
  · have hmine := (Bool.and_eq_true_iff.mp hdispute).1
    rw [if_pos hdispute]
    show (r.1.mark (txindex.saysSpent o.2) o.2).isSpent n = _
    rw [isSpent_mark _ hn]
    by_cases ho : o.2 = n
    · rw [if_pos ho, if_pos ⟨ho, hmine⟩, ho]
    · rw [if_neg ho, if_neg (fun h => ho h.1)]
  · rw [if_neg hdispute]
    split
    · rename_i h
      -- there was nothing to change
      unfold disputes at hdispute
      rw [h.2, h.1, Bool.true_and, bne_iff_ne, not_not] at hdispute
      exact hdispute
    · rfl

theorem fixOutput_kept : (w.fixOutput fCheckOnly txindex r o).1 =
    { r.1 with vfSpent := (w.fixOutput fCheckOnly txindex r o).1.vfSpent } := by
  rw [fixOutput_eq]
  split
  · cases fCheckOnly <;> rfl
  · rfl

theorem fixOutput_fits (hr : r.2.Fits) : (w.fixOutput fCheckOnly txindex r o).2.Fits := by
  rw [fixOutput_eq]
  split
  · exact int64_int64 _
  · exact hr

/-! ## One record -/

/-- Through some of the outputs of a record: what was in dispute is counted, and the flags are set. -/
theorem fixOutputs_spec (l : List (CTxOut × Nat)) (r : CWalletTx × Mismatch) (hl : (l.map Prod.snd).Nodup)
    (hlt : ∀ o ∈ l, o.2 < r.1.tx.vout.length) (hr : r.2.Fits) :
    let r' := l.foldl (w.fixOutput fCheckOnly txindex) r
    let values := (l.filter (w.disputes txindex r.1)).map fun o => o.1.nValue
    r'.1 = { r.1 with vfSpent := r'.1.vfSpent } ∧
      r'.2.nMismatchFound = r.2.nMismatchFound + values.length ∧
      r'.2.nBalanceInQuestion = int64 (r.2.nBalanceInQuestion + values.sum) ∧
      (fCheckOnly = true → r'.1 = r.1) ∧
      (fCheckOnly = false → ∀ n < r.1.tx.vout.length, r'.1.isSpent n =
        if ∃ o ∈ l, o.2 = n ∧ w.isMineOut o.1 = true then txindex.saysSpent n else r.1.isSpent n) := by
  induction l generalizing r with
  | nil =>
    refine ⟨rfl, rfl, ?_, fun _ => rfl, fun _ n _ => ?_⟩
    · show r.2.nBalanceInQuestion = int64 (r.2.nBalanceInQuestion + 0)
      rw [Int.add_zero, hr]
    · rw [if_neg]
      · rfl
      · rintro ⟨o, ho, -⟩
        cases ho
  | cons o l ih =>
    obtain ⟨hfresh, hnodup⟩ := List.nodup_cons.mp hl
    have hkept := @fixOutput_kept fCheckOnly w txindex r o
    have htx : (w.fixOutput fCheckOnly txindex r o).1.tx = r.1.tx := by
      rw [hkept]
    -- the later outputs are in dispute as before
    have hlater : ∀ o' ∈ l, w.disputes txindex (w.fixOutput fCheckOnly txindex r o).1 o' =
        w.disputes txindex r.1 o' := by
      intro o' ho'
      have hne : o.2 ≠ o'.2 := fun heq => hfresh (heq ▸ List.mem_map_of_mem ho')
      have hflag : (w.fixOutput fCheckOnly txindex r o).1.isSpent o'.2 = r.1.isSpent o'.2 := by
        cases fCheckOnly with
        | true =>
          rw [fixOutput_eq]
          split <;> rfl
        | false =>
          rw [isSpent_fixOutput (hlt o' (List.mem_cons_of_mem o ho')), if_neg (fun h => hne h.1)]
      unfold disputes
      rw [hflag]
    obtain ⟨hrec, hcount, hbalance, hcheck, hflags⟩ := ih (w.fixOutput fCheckOnly txindex r o) hnodup
      (fun o' ho' => htx ▸ hlt o' (List.mem_cons_of_mem o ho')) (fixOutput_fits hr)
    rw [List.filter_congr hlater] at hcount hbalance
    dsimp only at hrec hcount hbalance hcheck hflags ⊢
    rw [List.foldl_cons]
    refine ⟨?_, ?_, ?_, ?_, ?_⟩
    · rw [hrec]
      conv_lhs => rw [hkept]
    · rw [hcount, fixOutput_eq, List.filter_cons]
      split
      · show r.2.nMismatchFound + 1 + _ = _
        rw [List.map_cons, List.length_cons]
        omega
      · rfl
    · rw [hbalance, fixOutput_eq, List.filter_cons]
      split
      · show int64 (int64 (r.2.nBalanceInQuestion + o.1.nValue) + _) = _
        rw [int64_add_left, List.map_cons, List.sum_cons, Int.add_assoc]
      · rfl
    · intro hcheckOnly
      rw [hcheck hcheckOnly, fixOutput_eq, hcheckOnly]
      split <;> rfl
    · intro hrepair n hn
      rw [hflags hrepair n (htx ▸ hn)]
      subst hrepair
      rw [isSpent_fixOutput hn]
      by_cases hthere : ∃ o' ∈ l, o'.2 = n ∧ w.isMineOut o'.1 = true
      · obtain ⟨o', ho', h⟩ := hthere
        rw [if_pos ⟨o', ho', h⟩, if_pos ⟨o', List.mem_cons_of_mem o ho', h⟩]
      · rw [if_neg hthere]
        by_cases hhere : o.2 = n ∧ w.isMineOut o.1 = true
        · rw [if_pos hhere, if_pos ⟨o, List.mem_cons_self, hhere⟩]
        · rw [if_neg hhere, if_neg]
          rintro ⟨o', ho', h⟩
          rcases List.mem_cons.mp ho' with rfl | ho'
          · exact hhere h
          · exact hthere ⟨o', ho', h⟩

theorem zipIdx_nodup (vout : List CTxOut) : (vout.zipIdx.map Prod.snd).Nodup := by
  rw [List.zipIdx_map_snd]
  exact List.nodup_range'

/-- One record: what is in dispute is counted, and the flags are set. -/
theorem fixRecord_spec {pcoin : CWalletTx} (hindex : txdb.readTxIndex (P.getHash pcoin.tx) = some txindex)
    {m : Mismatch} (hm : m.Fits) :
    let fixed := pcoin.tx.vout.zipIdx.foldl (w.fixOutput fCheckOnly txindex) (pcoin, m)
    fixed.2.nMismatchFound = m.nMismatchFound + (w.questionedOf P txdb pcoin).length ∧
      fixed.2.nBalanceInQuestion =
        int64 (m.nBalanceInQuestion + ((w.questionedOf P txdb pcoin).map CTxOut.nValue).sum) ∧
      (fCheckOnly = true → fixed.1 = pcoin) ∧ (fCheckOnly = false → w.Repaired P txdb pcoin fixed.1) := by
  have hlt : ∀ o ∈ pcoin.tx.vout.zipIdx, o.2 < pcoin.tx.vout.length :=
    fun o ho => by simpa using (List.mem_zipIdx ho).2.1
  obtain ⟨hrec, hcount, hbalance, hcheck, hflags⟩ := @fixOutputs_spec fCheckOnly w txindex pcoin.tx.vout.zipIdx
    (pcoin, m) (zipIdx_nodup pcoin.tx.vout) hlt hm
  have hquestioned : w.questionedOf P txdb pcoin =
      (pcoin.tx.vout.zipIdx.filter (w.disputes txindex pcoin)).map Prod.fst := by
    unfold questionedOf
    rw [hindex]
  dsimp only at hrec hcount hbalance hcheck hflags ⊢
  rw [hquestioned, List.length_map, List.map_map]
  refine ⟨?_, hbalance, hcheck, fun hrepair => ⟨hrec, fun hnone => ?_, fun txindex' hindex' n txout hout => ?_⟩⟩
  · rw [hcount, List.length_map]
  · rw [hindex] at hnone
    cases hnone
  · obtain rfl := Option.some.inj (hindex.symm.trans hindex')
    rw [hflags hrepair n (List.getElem?_eq_some_iff.mp hout).1]
    have hmem : (txout, n) ∈ pcoin.tx.vout.zipIdx := List.mem_zipIdx_iff_getElem?.mpr hout
    by_cases hmine : w.isMineOut txout = true
    · rw [if_pos ⟨(txout, n), hmem, rfl, hmine⟩, if_pos hmine]
    · rw [if_neg hmine, if_neg]
      rintro ⟨⟨txout', n'⟩, ho, rfl, hmine'⟩
      have hout' := List.mem_zipIdx_iff_getElem?.mp ho
      obtain rfl := Option.some.inj (hout'.symm.trans hout)
      exact hmine hmine'

/-! ## All records -/

/-- What is in dispute among the records with these keys. -/
def questionedAmong (P : Primitives) (txdb : CTxDB) (w : CWallet) (l : List Uint256) : List CTxOut :=
  l.flatMap fun hash => ((w.mapWallet.lookup hash).map (w.questionedOf P txdb)).getD []

/-- What a run through some of the records leaves. -/
structure Fixed (P : Primitives) (txdb : CTxDB) (fCheckOnly : Bool) (w w' : CWallet) (l : List Uint256) : Prop where
  rest : w' = { w with mapWallet := w'.mapWallet }
  others : ∀ hash, hash ∉ l ∨ w.mapWallet.lookup hash = none → w'.mapWallet.lookup hash = w.mapWallet.lookup hash
  records : ∀ hash ∈ l, ∀ pcoin, w.mapWallet.lookup hash = some pcoin →
    ∃ pcoin', w'.mapWallet.lookup hash = some pcoin' ∧
      (fCheckOnly = true → pcoin' = pcoin) ∧ (fCheckOnly = false → w.Repaired P txdb pcoin pcoin')

/-- A record that is not known, or not there, is passed over. -/
theorem fixCoin_spec (r : CWallet × Mismatch) (hash : Uint256) (hr : r.2.Fits) :
    let r' := fixCoin P txdb fCheckOnly r hash
    let questions := questionedAmong P txdb r.1 [hash]
    Fixed P txdb fCheckOnly r.1 r'.1 [hash] ∧
      r'.2.nMismatchFound = r.2.nMismatchFound + questions.length ∧
      r'.2.nBalanceInQuestion = int64 (r.2.nBalanceInQuestion + (questions.map CTxOut.nValue).sum) := by
  have hquestions : questionedAmong P txdb r.1 [hash] =
      ((r.1.mapWallet.lookup hash).map (r.1.questionedOf P txdb)).getD [] := by
    unfold questionedAmong
    rw [List.flatMap_cons, List.flatMap_nil, List.append_nil]
  dsimp only
  rw [hquestions]
  unfold fixCoin
  cases hlook : r.1.mapWallet.lookup hash with
  | none =>
    refine ⟨⟨rfl, fun _ _ => rfl, ?_⟩, rfl, ?_⟩
    · intro hash' hmem pcoin hpcoin
      rw [List.mem_singleton.mp hmem, hlook] at hpcoin
      cases hpcoin
    · show _ = int64 (_ + 0)
      rw [Int.add_zero, hr]
  | some pcoin =>
    dsimp only
    cases hindex : txdb.readTxIndex (P.getHash pcoin.tx) with
    | none =>
      have hnone : r.1.questionedOf P txdb pcoin = [] := by
        unfold questionedOf
        rw [hindex]
      rw [Option.map_some, Option.getD_some, hnone]
      refine ⟨⟨rfl, fun _ _ => rfl, ?_⟩, rfl, ?_⟩
      · intro hash' hmem pcoin' hpcoin
        rw [List.mem_singleton.mp hmem, hlook] at hpcoin
        obtain rfl := Option.some.inj hpcoin
        rw [List.mem_singleton.mp hmem]
        refine ⟨pcoin, hlook, fun _ => rfl, fun _ => ⟨rfl, fun _ => rfl, ?_⟩⟩
        intro txindex hsome
        rw [hindex] at hsome
        cases hsome
      · show _ = int64 (_ + 0)
        rw [Int.add_zero, hr]
    | some txindex =>
      obtain ⟨hcount, hbalance, hcheck, hrepair⟩ := @fixRecord_spec P txdb fCheckOnly r.1 txindex pcoin hindex r.2 hr
      refine ⟨⟨rfl, ?_, ?_⟩, hcount, hbalance⟩
      · intro hash' hother
        apply AList.lookup_insert_ne
        rintro rfl
        rcases hother with hother | hother
        · exact hother List.mem_cons_self
        · rw [hlook] at hother
          cases hother
      · intro hash' hmem pcoin' hpcoin
        rw [List.mem_singleton.mp hmem, hlook] at hpcoin
        obtain rfl := Option.some.inj hpcoin
        rw [List.mem_singleton.mp hmem]
        exact ⟨_, AList.lookup_insert _, hcheck, hrepair⟩

/-- A run through some of the records, none of them twice. -/
theorem fixCoins_spec (l : List Uint256) (r : CWallet × Mismatch) (hl : l.Nodup) (hr : r.2.Fits) :
    let r' := l.foldl (fixCoin P txdb fCheckOnly) r
    let questions := questionedAmong P txdb r.1 l
    Fixed P txdb fCheckOnly r.1 r'.1 l ∧
      r'.2.nMismatchFound = r.2.nMismatchFound + questions.length ∧
      r'.2.nBalanceInQuestion = int64 (r.2.nBalanceInQuestion + (questions.map CTxOut.nValue).sum) := by
  induction l generalizing r with
  | nil =>
    refine ⟨⟨rfl, fun _ _ => rfl, fun hash hmem => absurd hmem List.not_mem_nil⟩, rfl, ?_⟩
    show _ = int64 (_ + 0)
    rw [Int.add_zero, hr]
    rfl
  | cons hash l ih =>
    obtain ⟨hnew, hnodup⟩ := List.nodup_cons.mp hl
    obtain ⟨hfirst, hcount, hbalance⟩ := @fixCoin_spec P txdb fCheckOnly r hash hr
    obtain ⟨hlater, hcounts, hbalances⟩ := ih (fixCoin P txdb fCheckOnly r hash) hnodup
      (by rw [Mismatch.Fits, hbalance, int64_int64])
    -- the records to come are as they were
    have hsame : ∀ hash' ∈ l, (fixCoin P txdb fCheckOnly r hash).1.mapWallet.lookup hash' =
        r.1.mapWallet.lookup hash' := by
      intro hash' hmem
      apply hfirst.others hash' (Or.inl ?_)
      rintro hmem'
      exact hnew (List.mem_singleton.mp hmem' ▸ hmem)
    have hquestions : questionedAmong P txdb (fixCoin P txdb fCheckOnly r hash).1 l = questionedAmong P txdb r.1 l := by
      unfold questionedAmong
      apply List.flatMap_congr
      intro hash' hmem
      rw [hsame hash' hmem, hfirst.rest]
      rfl
    have hsplit : questionedAmong P txdb r.1 (hash :: l) =
        questionedAmong P txdb r.1 [hash] ++ questionedAmong P txdb r.1 l := by
      unfold questionedAmong
      rw [List.flatMap_cons, List.flatMap_cons, List.flatMap_nil, List.append_nil]
    dsimp only at hfirst hcount hbalance hlater hcounts hbalances ⊢
    rw [hquestions] at hcounts hbalances
    rw [List.foldl_cons, hsplit, List.length_append, List.map_append, List.sum_append]
    refine ⟨⟨?_, ?_, ?_⟩, by omega, ?_⟩
    · rw [hlater.rest]
      conv_lhs => rw [hfirst.rest]
    · intro hash' hother
      have hfirstOther : hash' ∉ [hash] ∨ r.1.mapWallet.lookup hash' = none :=
        hother.imp_left fun h hmem => h (List.mem_singleton.mp hmem ▸ List.mem_cons_self)
      have hkept := hfirst.others hash' hfirstOther
      rw [← hkept]
      apply hlater.others
      rw [hkept]
      exact hother.imp_left fun h hmem => h (List.mem_cons_of_mem hash hmem)
    · intro hash' hmem pcoin hpcoin
      rcases List.mem_cons.mp hmem with rfl | hmem
      · obtain ⟨pcoin', hlook, h⟩ := hfirst.records hash' List.mem_cons_self pcoin hpcoin
        exact ⟨pcoin', (hlater.others hash' (Or.inl hnew)).trans hlook, h⟩
      · obtain ⟨pcoin', hlook, hcheck, hrepair⟩ :=
          hlater.records hash' hmem pcoin ((hsame hash' hmem).trans hpcoin)
        refine ⟨pcoin', hlook, hcheck, fun hno => ?_⟩
        have hrepaired := hrepair hno
        rw [hfirst.rest] at hrepaired
        exact ⟨hrepaired.kept, hrepaired.unknown, hrepaired.flags⟩
    · rw [hbalances, hbalance, int64_add_left, Int.add_assoc]

theorem vCoins_perm (w : CWallet) : w.vCoins.Perm w.mapWallet.keys := List.perm_insertionSort _ _

theorem vCoins_nodup (w : CWallet) : w.vCoins.Nodup := (vCoins_perm w).nodup_iff.mpr w.mapWallet.keys_nodup

theorem mem_vCoins {hash : Uint256} {pcoin : CWalletTx} (h : w.mapWallet.lookup hash = some pcoin) :
    hash ∈ w.vCoins := by
  rw [(vCoins_perm w).mem_iff, ← AList.mem_keys, ← AList.lookup_isSome, h]
  rfl

/-- **What a run does**, to all records. -/
theorem fixSpentCoins_fixed (P : Primitives) (txdb : CTxDB) (fCheckOnly : Bool) (w : CWallet) :
    let r := w.fixSpentCoins P txdb fCheckOnly
    Fixed P txdb fCheckOnly w r.1 w.vCoins ∧ r.2.nMismatchFound = (w.questioned P txdb).length ∧
      r.2.nBalanceInQuestion = int64 ((w.questioned P txdb).map CTxOut.nValue).sum := by
  obtain ⟨hfixed, hcount, hbalance⟩ := @fixCoins_spec P txdb fCheckOnly w.vCoins (w, ⟨0, 0⟩) (vCoins_nodup w) rfl
  dsimp only at hfixed hcount hbalance ⊢
  rw [Nat.zero_add] at hcount
  rw [Int.zero_add] at hbalance
  exact ⟨hfixed, hcount, hbalance⟩

/-- A repaired record has nothing in dispute. -/
theorem Repaired.questionedOf {pcoin pcoin' : CWalletTx} (h : w.Repaired P txdb pcoin pcoin') :
    w.questionedOf P txdb pcoin' = [] := by
  have htx : pcoin'.tx = pcoin.tx := by rw [h.kept]
  unfold CWallet.questionedOf
  rw [htx]
  cases hindex : txdb.readTxIndex (P.getHash pcoin.tx) with
  | none => rfl
  | some txindex =>
    dsimp only
    rw [List.map_eq_nil_iff, List.filter_eq_nil_iff]
    rintro ⟨txout, n⟩ ho hdispute
    obtain ⟨hmine, hdiffer⟩ := Bool.and_eq_true_iff.mp hdispute
    have hflag := h.flags txindex hindex n txout (List.mem_zipIdx_iff_getElem?.mp ho)
    rw [if_pos hmine] at hflag
    rw [hflag, bne_self_eq_false] at hdiffer
    cases hdiffer

/-- **The repair reaches the index.**  The flags of our outputs in the records that the index knows are what
    their slots say, all other flags are as they were; what is reported is what was in dispute, and a second
    run has nothing to report. -/
theorem fixSpentCoins_spec (P : Primitives) (txdb : CTxDB) (w : CWallet) :
    let r := w.fixSpentCoins P txdb false
    (∀ hash, w.mapWallet.lookup hash = none → r.1.mapWallet.lookup hash = none) ∧
      (∀ hash pcoin, w.mapWallet.lookup hash = some pcoin →
        ∃ pcoin', r.1.mapWallet.lookup hash = some pcoin' ∧ w.Repaired P txdb pcoin pcoin') ∧
      r.2.nMismatchFound = (w.questioned P txdb).length ∧
      r.2.nBalanceInQuestion = int64 ((w.questioned P txdb).map CTxOut.nValue).sum ∧
      ∀ fCheckOnly, (r.1.fixSpentCoins P txdb fCheckOnly).2 = ⟨0, 0⟩ := by
  obtain ⟨hfixed, hcount, hbalance⟩ := fixSpentCoins_fixed P txdb false w
  dsimp only at hfixed hcount hbalance ⊢
  refine ⟨fun hash hnone => (hfixed.others hash (Or.inr hnone)).trans hnone, fun hash pcoin hlook => ?_, hcount,
    hbalance, fun fCheckOnly => ?_⟩
  · obtain ⟨pcoin', hlook', -, hrepair⟩ := hfixed.records hash (mem_vCoins hlook) pcoin hlook
    exact ⟨pcoin', hlook', hrepair rfl⟩
  · obtain ⟨-, hcount', hbalance'⟩ := fixSpentCoins_fixed P txdb fCheckOnly (w.fixSpentCoins P txdb false).1
    have hnone : (w.fixSpentCoins P txdb false).1.questioned P txdb = [] := by
      unfold questioned
      rw [List.flatMap_eq_nil_iff]
      intro hash _
      cases hlook : w.mapWallet.lookup hash with
      | none =>
        rw [hfixed.others hash (Or.inr hlook), hlook]
        rfl
      | some pcoin =>
        obtain ⟨pcoin', hlook', -, hrepair⟩ := hfixed.records hash (mem_vCoins hlook) pcoin hlook
        rw [hlook', hfixed.rest]
        exact (hrepair rfl).questionedOf
    rw [hnone] at hcount' hbalance'
    generalize (CWallet.fixSpentCoins P txdb fCheckOnly _).2 = m at hcount' hbalance' ⊢
    obtain ⟨count, balance⟩ := m
    obtain rfl : count = 0 := hcount'
    obtain rfl : balance = 0 := hbalance'.trans rfl
    rfl

/-! ## More than an `int64_t` holds -/

/-- A wallet record that pays all money there is to us, and calls it spent. -/
def lostCoin (n : Nat) : CWalletTx :=
  { CWalletTx.ofTx ⟨1, UInt32.ofNat n, [], [⟨MAX_MONEY, []⟩], 0⟩ with vfSpent := [true] }

/-- Hashes that are the times. -/
def byTime : Primitives := { Primitives.ofTables [] [] [] with getHash := fun tx => BitVec.ofNat 256 tx.nTime.toNat }

def lostWallet : CWallet where
  isMine _ := true
  nMinimumInputValue := 0
  mapWallet := (List.range 47).foldl (fun m n => m.insert (BitVec.ofNat 256 n) (lostCoin n)) ∅
  nOrderPosNext := 0
  acentries := []

/-- The index says of all of them that they are not spent. -/
def lostIndex : CTxDB where
  disk := (List.range 47).foldl (fun m n => m.insert (.tx (BitVec.ofNat 256 n)) (.txIndex (CTxIndex.new ⟨1, 0, 0⟩ 1))) ∅
  activeBatch := none

theorem lostBalance : ¬ ∀ (P : Primitives) (txdb : CTxDB) (w : CWallet),
    (∀ e ∈ w.mapWallet.entries, ∀ txindex ∈ txdb.readTxIndex (P.getHash e.2.tx),
      txindex.vSpent.length = e.2.tx.vout.length) →
    (w.fixSpentCoins P txdb false).2.nBalanceInQuestion = ((w.questioned P txdb).map CTxOut.nValue).sum := by
  intro hclaim
  have hslots : ∀ e ∈ lostWallet.mapWallet.entries, ∀ txindex ∈ lostIndex.readTxIndex (byTime.getHash e.2.tx),
      txindex.vSpent.length = e.2.tx.vout.length := by
    decide
  have hreported : (lostWallet.fixSpentCoins byTime lostIndex false).2.nBalanceInQuestion = -9046744073709551616 := by
    decide +kernel
  have htotal : ((lostWallet.questioned byTime lostIndex).map CTxOut.nValue).sum = 9400000000000000000 := by
    decide
  have := hclaim byTime lostIndex lostWallet hslots
  omega

end CWallet

end Silkcoin
