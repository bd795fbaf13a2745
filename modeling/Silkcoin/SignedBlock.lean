/-
  The block that `SignBlock` signs.

  A staker's block goes through `CheckBlock` and pays its coinstake no more than the reward, UNLESS what
  `CreateNewBlock` chose does not go with what `CreateCoinStake` found: a transaction of the template is later
  than the coinstake, the coinstake pays out more than there is money, or the two are too large together
  (`Fits`).  Whether they go together is looked at nowhere; the loop in `SignBlock` that erases the
  transactions of the future finds none (`stakeBlock_eq`), since the time of the block was raised to the latest
  of them just before.

  The reward is counted by the wallet with the fees of the template and by `ConnectBlock` with the fees of the
  block.  They are the same: nothing was erased, and an outpoint has the same WORTH wherever it is looked up, as
  there is only one transaction with its hash (`Worth.unique`).
-/
import Silkcoin.SignBlock

namespace Silkcoin

open Validation BatchStore SpendLedger

/-! ## The key of the kernel -/

namespace CCryptoKeyStore

variable {C : KeyPrimitives} {store : CCryptoKeyStore} {vMasterKey : List UInt8}

/-- The last thing `GetKey` does is `SetSecret`: the public key is the secret's. -/
theorem getKey_pubKey {address : Uint160} {keyOut key : CKey} (h : store.getKey C address keyOut = some key) :
    key.vchPubKey = C.pubKey key.vchSecret key.fCompressedPubKey := by
  unfold getKey at h
  split at h
  · obtain ⟨entry, -, rfl⟩ := Option.map_eq_some_iff.mp h
    rfl
  · cases hentry : store.mapCryptedKeys.lookup address with
    | none =>
      rw [hentry] at h
      cases h
    | some entry =>
      obtain ⟨vchPubKey, vchCryptedSecret⟩ := entry
      rw [hentry] at h
      obtain ⟨vchSecret, -, rfl⟩ := Option.map_eq_some_iff.mp h
      rfl

theorem pubKey_size (hC : C.Works vMasterKey) (vchSecret : CSecret) (fCompressed : Bool) :
    33 ≤ (C.pubKey vchSecret fCompressed).length ∧ (C.pubKey vchSecret fCompressed).length ≤ 65 := by
  rw [hC.length]
  cases fCompressed with
  | false => exact ⟨by decide, by decide⟩
  | true => exact ⟨by decide, by decide⟩

/-- What stands for a missing public key is short, too. -/
theorem getPubKey_size (hC : C.Works vMasterKey) {added : List CKey} (hs : store.Sound C vMasterKey added)
    (address : Uint160) : ((store.getPubKey C address).getD []).length ≤ 65 := by
  unfold getPubKey
  split
  · cases hkey : store.getKey C address CKey.reset with
    | none => exact Nat.zero_le 65
    | some key =>
      show key.vchPubKey.length ≤ 65
      rw [getKey_pubKey hkey]
      exact (pubKey_size hC _ _).2
  · cases hentry : store.mapCryptedKeys.lookup address with
    | none => exact Nat.zero_le 65
    | some entry =>
      obtain ⟨vchSecret, fCompressed, hpubKey, -⟩ := hs.cryptedKeys address entry hentry
      show entry.1.length ≤ 65
      rw [hpubKey]
      exact (pubKey_size hC _ _).2

end CCryptoKeyStore

namespace NodeState

variable {P : Primitives} {S : Set CTransaction} {s : NodeState} {C : KeyPrimitives} {H : KernelHashes}
  {E : Signatures} {W : StakeWallet} {store : CCryptoKeyStore} {vMasterKey : List UInt8} {added : List CKey}

/-- The coinstake pays to the kernel's key, and `CheckBlockSignature` finds it there. -/
theorem kernelScript_pays (hC : C.Works vMasterKey) {script script' : CScript} {key key' : CKey}
    (h : kernelScript C store script key = (key', some script')) :
    solver script' = some (.TX_PUBKEY, key'.vchPubKey) ∧ C.validPubKey key'.vchPubKey = true := by
  have hvalid : ∀ {address : Uint160} {key : CKey}, store.getKey C address key = some key' →
      C.validPubKey key'.vchPubKey = true := by
    intro address key hkey
    rw [CCryptoKeyStore.getKey_pubKey hkey]
    exact hC.valid _ _
  unfold kernelScript at h
  cases hsolve : solver script with
  | none =>
    rw [hsolve] at h
    cases h
  | some found =>
    obtain ⟨kind, vch⟩ := found
    rw [hsolve] at h
    cases kind with
    | TX_PUBKEYHASH =>
      dsimp only at h
      cases hkey : store.getKey C (uint160 vch) key with
      | none =>
        rw [hkey] at h
        cases h
      | some key₁ =>
        rw [hkey] at h
        cases h
        refine ⟨?_, hvalid hkey⟩
        have hsize := CCryptoKeyStore.pubKey_size hC key'.vchSecret key'.fCompressedPubKey
        rw [← CCryptoKeyStore.getKey_pubKey hkey] at hsize
        exact solver_payToPubKey hsize.1 (by omega)
    | TX_PUBKEY =>
      dsimp only at h
      cases hkey : store.getKey C (C.hash160 vch) key with
      | none =>
        rw [hkey] at h
        cases h
      | some key₁ =>
        rw [hkey] at h
        dsimp only at h
        by_cases hvch : key₁.vchPubKey = vch
        · rw [if_neg (not_not_intro hvch)] at h
          cases h
          exact ⟨by rw [hsolve, hvch], hvalid hkey⟩
        · rw [if_pos hvch] at h
          cases h

/-! ## The scripts of the inputs -/

/-- No script of an input has a signature operation. -/
def Quiet (tx : CTransaction) : Prop := ∀ txin ∈ tx.vin, getSigOpCount false txin.scriptSig = 0

theorem signScript_quiet (hC : C.Works vMasterKey) (hE : E.Works C) (hs : store.Sound C vMasterKey added)
    {scriptPubKey scriptSig : CScript} {hash : Uint256}
    (h : signScript C E store scriptPubKey hash = some scriptSig) : getSigOpCount false scriptSig = 0 := by
  have hsign : ∀ {address : Uint160} {scriptSig : CScript}, sign1 C E store address hash = some scriptSig →
      ∃ vch : List UInt8, vch.length < 76 ∧ scriptSig = pushData vch := by
    intro address scriptSig h
    unfold sign1 at h
    simp only [Option.bind_eq_bind, Option.bind_eq_some_iff] at h
    obtain ⟨key, -, vchSig, hsig, h⟩ := h
    cases h
    refine ⟨_, ?_, rfl⟩
    have hlen := (hE.length key hash vchSig hsig).2
    rw [List.length_append, List.length_singleton]
    omega
  unfold signScript at h
  cases hsolve : solver scriptPubKey with
  | none =>
    rw [hsolve] at h
    cases h
  | some found =>
    obtain ⟨kind, vch⟩ := found
    rw [hsolve] at h
    cases kind with
    | TX_PUBKEY =>
      obtain ⟨sig, hlen, rfl⟩ := hsign h
      exact getSigOpCount_push hlen
    | TX_PUBKEYHASH =>
      simp only [Option.bind_eq_bind, Option.bind_eq_some_iff] at h
      obtain ⟨scriptSig₁, h₁, h⟩ := h
      cases h
      obtain ⟨sig, hlen, rfl⟩ := hsign h₁
      refine getSigOpCount_push_push hlen ?_
      exact Nat.lt_of_le_of_lt (CCryptoKeyStore.getPubKey_size hC hs _) (by decide)

theorem signSignature_quiet (hC : C.Works vMasterKey) (hE : E.Works C) (hs : store.Sound C vMasterKey added)
    {txFrom tx tx' : CTransaction} {nIn : Nat} (hquiet : Quiet tx)
    (h : signSignature P C E store txFrom tx nIn = some tx') : Quiet tx' := by
  unfold signSignature at h
  simp only [Option.bind_eq_bind, Option.bind_eq_some_iff] at h
  obtain ⟨txin, -, txout, -, scriptSig, hscript, _, -, h⟩ := h
  cases h
  intro txin' htxin'
  rcases List.mem_or_eq_of_mem_set htxin' with hold | rfl
  · exact hquiet txin' hold
  · exact signScript_quiet hC hE hs hscript

/-- The signatures are all there is in the scripts. -/
theorem createCoinStake_quiet (hC : C.Works vMasterKey) (hE : E.Works C) (hs : W.keys.Sound C vMasterKey added)
    {nBits : UInt32} {nSearchInterval nFees : Int} {tx : CTransaction} {key : CKey}
    (h : createCoinStake P s C H E W nBits nSearchInterval nFees = .ok (some (tx, key))) : Quiet tx := by
  unfold createCoinStake at h
  split at h
  · cases h
  obtain ⟨⟨key', found⟩, -, h⟩ := bind_ok.mp h
  cases found with
  | none => cases h
  | some kernel =>
    dsimp only at h
    split at h
    · cases h
    obtain ⟨age, -, h⟩ := bind_ok.mp h
    cases age with
    | none => cases h
    | some nCoinAge =>
      dsimp only at h
      split at h
      · cases h
      obtain ⟨tx', hfinish, heq⟩ := Option.map_eq_some_iff.mp (Except.ok.inj h)
      obtain ⟨rfl, -⟩ := Prod.mk.inj heq
      unfold finishCoinStake at hfinish
      simp only [Option.bind_eq_bind, Option.bind_eq_some_iff] at hfinish
      obtain ⟨signed, hfold, _, -, heq⟩ := hfinish
      obtain rfl := Option.some.inj heq
      have hrun : ∀ (l : List (StakeCoin × Nat)) (t : CTransaction), Quiet t →
          l.foldlM (fun tx input => signSignature P C E W.keys input.1.1 tx input.2) t = some signed →
            Quiet signed := by
        intro l
        induction l with
        | nil =>
          intro t ht hnil
          obtain rfl := Option.some.inj hnil
          exact ht
        | cons input l ih =>
          intro t ht hcons
          rw [List.foldlM_cons] at hcons
          obtain ⟨t', hstep, hrest⟩ := Option.bind_eq_some_iff.mp hcons
          exact ih t' (signSignature_quiet hC hE hs ht hstep) hrest
      refine hrun _ _ ?_ hfold
      intro txin htxin
      obtain ⟨coin, -, rfl⟩ := List.mem_map.mp htxin
      rfl

end NodeState

/-! ## `CheckTransaction` -/

namespace CTransaction

variable {tx : CTransaction}

theorem checkTxOuts_eq (h : tx.TxChecked) : tx.vout.foldlM tx.checkTxOut 0 = .ok tx.valueOut := by
  have htotal := moneyRange_iff.mp h.total
  have hmax : MAX_MONEY = 200000000000000000 := by decide
  have hempty : ∀ txout ∈ tx.vout, (!(txout.isEmpty && !tx.isCoinBase && !tx.isCoinStake)) = true := by
    intro txout htxout
    cases hcb : tx.isCoinBase with
    | true => simp
    | false =>
      cases hcs : tx.isCoinStake with
      | true => simp
      | false => simp [h.nonempty hcb hcs txout htxout]
  -- every total on the way lies between what there is already and the end
  have hrun : ∀ (l : List CTxOut) (n : Int), (∀ txout ∈ l, txout ∈ tx.vout) → 0 ≤ n →
      n + (l.map CTxOut.nValue).sum ≤ 200000000000000000 →
        l.foldlM tx.checkTxOut n = .ok (n + (l.map CTxOut.nValue).sum) := by
    intro l
    induction l with
    | nil =>
      intro n _ _ _
      simp
    | cons txout l ih =>
      intro n hmem hn hle
      rw [List.forall_mem_cons] at hmem
      rw [List.map_cons, List.sum_cons, ← add_assoc] at hle ⊢
      have hrest : 0 ≤ (l.map CTxOut.nValue).sum := by
        refine List.sum_nonneg fun v hv => ?_
        obtain ⟨other, hother, rfl⟩ := List.mem_map.mp hv
        exact (moneyRange_iff.mp (h.values other (hmem.2 other hother))).1
      have hvalue := moneyRange_iff.mp (h.values txout hmem.1)
      have hsum : int64 (n + txout.nValue) = n + txout.nValue := int64_of_range (by omega) (by omega)
      have hrange : moneyRange (n + txout.nValue) = true := moneyRange_iff.mpr ⟨by omega, by omega⟩
      have hstep : tx.checkTxOut n txout = .ok (n + txout.nValue) := by
        unfold checkTxOut
        rw [hempty txout hmem.1, require_true, ok_bind, decide_eq_true (show ¬txout.nValue < 0 by omega),
          require_true, ok_bind, decide_eq_true (show ¬txout.nValue > MAX_MONEY by omega), require_true, ok_bind,
          hsum]
        dsimp only
        rw [hrange, require_true]
        rfl
      rw [List.foldlM_cons, hstep, ok_bind]
      exact ih _ hmem.2 (by omega) hle
  have hall := hrun tx.vout 0 (fun _ h => h) (Int.le_refl 0) (by rw [Int.zero_add]; exact htotal.2)
  rw [Int.zero_add] at hall
  exact hall

/-- The checks are all there is to `CheckTransaction`, but for the size. -/
theorem TxChecked.checkTransaction_eq (h : tx.TxChecked) (hsize : tx.getSerializeSize ≤ MAX_BLOCK_SIZE) :
    tx.checkTransaction = .ok () := by
  have hvin : (!tx.vin.isEmpty) = true := by simp [h.vin_ne]
  have hvout : (!tx.vout.isEmpty) = true := by simp [h.vout_ne]
  unfold checkTransaction
  rw [hvin, require_true, ok_bind, hvout, require_true, ok_bind, decide_eq_true (Nat.not_lt.mpr hsize),
    require_true, ok_bind, checkTxOuts_eq h, ok_bind, decide_eq_true h.distinct, require_true, ok_bind]
  cases hcb : tx.isCoinBase with
  | true =>
    have hscript := h.script hcb
    rw [if_pos rfl, decide_eq_true (show ¬(tx.coinBaseScriptSize < 2 ∨ tx.coinBaseScriptSize > 100) by omega),
      require_true]
  | false =>
    have hinputs : (tx.vin.all fun txin => !txin.prevout.isNull) = true := by
      rw [List.all_eq_true]
      intro txin htxin
      rw [h.inputs hcb txin htxin]
      rfl
    rw [if_neg Bool.false_ne_true, hinputs, require_true]

end CTransaction

namespace NodeState

variable {P : Primitives} {S : Set CTransaction} {s : NodeState} {C : KeyPrimitives} {H : KernelHashes}
  {W : StakeWallet} {nBits : UInt32} {kernel : StakeKernel} {inputs : List StakeCoin} {nCoinAge : Nat}
  {nReward : Int} {tx : CTransaction} {key : CKey}

/-- In two halves or in one: the outputs add up to the credit, even if it has wrapped. -/
theorem sum_stakeOutputs (kernel : StakeKernel) {nCredit : Int} (hlo : -9223372036854775808 ≤ nCredit)
    (hhi : nCredit < 9223372036854775808) :
    ((stakeOutputs kernel nCredit).map CTxOut.nValue).sum = nCredit := by
  unfold stakeOutputs
  split
  · have hcent : CENT = 1000000 := rfl
    have hhalf : -9223372036854775808 ≤ nCredit - (nCredit.tdiv 2).tdiv CENT * CENT ∧
        nCredit - (nCredit.tdiv 2).tdiv CENT * CENT < 9223372036854775808 := by
      rw [hcent]
      rcases Int.le_total 0 nCredit with hpos | hneg
      · rw [Int.tdiv_eq_ediv_of_nonneg hpos, Int.tdiv_eq_ediv_of_nonneg (by omega)]
        omega
      · obtain ⟨n, rfl⟩ : ∃ n, nCredit = -n := ⟨-nCredit, (Int.neg_neg _).symm⟩
        rw [Int.neg_tdiv, Int.neg_tdiv, Int.tdiv_eq_ediv_of_nonneg (show 0 ≤ n by omega),
          Int.tdiv_eq_ediv_of_nonneg (show 0 ≤ n / 2 by omega)]
        omega
    simp only [List.map_cons, List.map_nil, List.sum_cons, List.sum_nil]
    rw [int64_of_range hhalf.1 hhalf.2]
    omega
  · simp only [List.map_cons, List.map_nil, List.sum_cons, List.sum_nil]
    omega

namespace CoinStakeMade

variable (h : CoinStakeMade P s C H W nBits kernel inputs nCoinAge nReward tx key)

include h

theorem vout_eq : tx.vout = ⟨0, []⟩ :: stakeOutputs kernel (int64 (coinsValue inputs + nReward)) := h.signed.vout

/-- Within the money range, the sum of inputs and reward has not wrapped. -/
theorem lt_of_moneyRange (hreward : nReward < 9223372036854775808) (hmoney : moneyRange tx.valueOut = true) :
    coinsValue inputs + nReward < 9223372036854775808 := by
  have hrange := h.value_range
  have hpos := h.reward_pos
  have hsum : tx.valueOut = int64 (coinsValue inputs + nReward) := by
    unfold CTransaction.valueOut
    rw [h.vout_eq, List.map_cons, List.sum_cons, sum_stakeOutputs kernel (int64_lower _) (int64_upper _)]
    exact Int.zero_add _
  have hvalue := moneyRange_iff.mp hmoney
  rw [hsum, int64_def] at hvalue
  split at hvalue
  · omega
  · omega

/-- A coinstake within the money range passes `CheckTransaction`. -/
theorem txChecked (hinj : Set.InjOn P.getHash S) (hw : W.wallet.RecordsOk S)
    (hreward : nReward < 9223372036854775808) (hmoney : moneyRange tx.valueOut = true) : tx.TxChecked := by
  have hmax := h.lt_of_moneyRange hreward hmoney
  have h0 := h.value_range.1
  have hpos := h.reward_pos
  have hcb := h.not_isCoinBase hw
  have hcs := h.isCoinStake hw
  obtain ⟨hsum, hnonneg⟩ := (h.paysOut hmax).valueOut (by omega)
  have hvalue := moneyRange_iff.mp hmoney
  have hprevout : ∀ o ∈ tx.prevouts, o.isNull = false := by
    intro o ho
    rw [h.prevouts_eq] at ho
    obtain ⟨coin, hcoin, rfl⟩ := List.mem_map.mp ho
    exact (h.input_ok hw hcoin).prevout_not_isNull P
  constructor
  · obtain ⟨txin, rest, hvin, -⟩ := h.vin_eq
    rw [hvin]
    exact List.cons_ne_nil _ _
  · rw [h.vout_eq]
    exact List.cons_ne_nil _ _
  · intro txout htxout
    have hle : txout.nValue ≤ (tx.vout.map CTxOut.nValue).sum := by
      refine List.single_le_sum (fun v hv => ?_) _ (List.mem_map_of_mem htxout)
      obtain ⟨other, hother, rfl⟩ := List.mem_map.mp hv
      exact hnonneg other hother
    have hvalue := hvalue.2
    unfold CTransaction.valueOut at hvalue
    exact moneyRange_iff.mpr ⟨hnonneg txout htxout, Int.le_trans hle hvalue⟩
  · exact hmoney
  · intro _ hno
    rw [hcs] at hno
    cases hno
  · rw [h.prevouts_eq]
    refine h.nodup.map_on fun coin hcoin coin' hcoin' heq => ?_
    exact (h.input_ok hw hcoin).prevout_inj hinj (h.input_ok hw hcoin') heq
  · intro hyes
    rw [hcb] at hyes
    cases hyes
  · intro _ txin htxin
    exact hprevout _ (List.mem_map_of_mem htxin)

/-- The outputs are what there is to sign for. -/
theorem sigOps_le {vMasterKey : List UInt8} (hC : C.Works vMasterKey) (hquiet : Quiet tx) :
    tx.getLegacySigOpCount ≤ 2 := by
  obtain ⟨keyBefore, hscript⟩ := h.kernel_found.script
  have hone : getSigOpCount false kernel.scriptPubKeyOut = 1 :=
    getSigOpCount_pubKey (kernelScript_pays hC hscript).1
  have hvin : (tx.vin.map fun txin => getSigOpCount false txin.scriptSig).sum = 0 := by
    refine List.sum_eq_zero fun n hn => ?_
    obtain ⟨txin, htxin, rfl⟩ := List.mem_map.mp hn
    exact hquiet txin htxin
  unfold CTransaction.getLegacySigOpCount
  rw [hvin, h.vout_eq]
  unfold stakeOutputs
  split
  · simp only [List.map_cons, List.map_nil, List.sum_cons, List.sum_nil, hone]
    exact Nat.le_refl 2
  · simp only [List.map_cons, List.map_nil, List.sum_cons, List.sum_nil, hone]
    exact Nat.le_succ 1

end CoinStakeMade

/-! ## The time of the block -/

theorem toNat_unsigned {x : Int} (h0 : 0 ≤ x) (hx : x < 4294967296) : ((unsigned x).toNat : Int) = x := by
  have hmod : x % 2 ^ 32 = x := Int.emod_eq_of_lt h0 hx
  have hnat : (UInt32.ofNat x.toNat).toNat = x.toNat := UInt32.toNat_ofNat_of_lt' (show x.toNat < 2 ^ 32 by omega)
  unfold unsigned
  rw [hmod, hnat]
  omega

theorem foldl_max_le {vtx : List CTransaction} {t m : Int} (ht : t ≤ m)
    (h : ∀ tx ∈ vtx, (tx.nTime.toNat : Int) ≤ m) : vtx.foldl (fun t tx => max t tx.nTime.toNat) t ≤ m := by
  induction vtx generalizing t with
  | nil => exact ht
  | cons tx vtx ih =>
    rw [List.forall_mem_cons] at h
    exact ih (max_le ht h.1) h.2

theorem le_foldl_max (vtx : List CTransaction) (t : Int) :
    t ≤ vtx.foldl (fun t tx => max t tx.nTime.toNat) t ∧
      ∀ tx ∈ vtx, (tx.nTime.toNat : Int) ≤ vtx.foldl (fun t tx => max t tx.nTime.toNat) t := by
  induction vtx generalizing t with
  | nil => exact ⟨Int.le_refl t, fun tx htx => absurd htx List.not_mem_nil⟩
  | cons tx vtx ih =>
    obtain ⟨hstart, hmem⟩ := ih (max t tx.nTime.toNat)
    refine ⟨(le_max_left _ _).trans hstart, ?_⟩
    rw [List.forall_mem_cons]
    exact ⟨(le_max_right _ _).trans hstart, hmem⟩

theorem getMaxTransactionTime_le {vtx : List CTransaction} {m : Int} (hm : 0 ≤ m)
    (h : ∀ tx ∈ vtx, (tx.nTime.toNat : Int) ≤ m) : getMaxTransactionTime vtx ≤ m := foldl_max_le hm h

theorem le_getMaxTransactionTime {vtx : List CTransaction} {tx : CTransaction} (h : tx ∈ vtx) :
    (tx.nTime.toNat : Int) ≤ getMaxTransactionTime vtx := (le_foldl_max vtx 0).2 tx h

theorem getMaxTransactionTime_nonneg (vtx : List CTransaction) : 0 ≤ getMaxTransactionTime vtx :=
  (le_foldl_max vtx 0).1

theorem getMaxTransactionTime_lt (vtx : List CTransaction) : getMaxTransactionTime vtx < 4294967296 := by
  refine Int.lt_of_le_of_lt (getMaxTransactionTime_le (m := 4294967295) (by decide) fun tx _ => ?_) (by decide)
  have := tx.nTime.toNat_lt
  omega

/-- A coinstake in time: the block is as late as the latest in it, and NOTHING is erased. -/
theorem stakeBlock_eq (b : CBlock) {coinBase txCoinStake : CTransaction} {rest : List CTransaction}
    (hearly : earliestTime s.pindexBest ≤ txCoinStake.nTime.toNat) :
    (stakeBlock P s b coinBase rest txCoinStake).vtx =
        { coinBase with nTime := txCoinStake.nTime } :: txCoinStake :: rest ∧
      (stakeBlock P s b coinBase rest txCoinStake).getBlockTime =
        getMaxTransactionTime ({ coinBase with nTime := txCoinStake.nTime } :: rest) := by
  have h0 := getMaxTransactionTime_nonneg ({ coinBase with nTime := txCoinStake.nTime } :: rest)
  have hlt := getMaxTransactionTime_lt ({ coinBase with nTime := txCoinStake.nTime } :: rest)
  have hmem : ∀ tx ∈ { coinBase with nTime := txCoinStake.nTime } :: rest, (tx.nTime.toNat : Int) ≤
      getMaxTransactionTime ({ coinBase with nTime := txCoinStake.nTime } :: rest) :=
    fun tx htx => le_getMaxTransactionTime htx
  have hfirst : (txCoinStake.nTime.toNat : Int) ≤
      getMaxTransactionTime ({ coinBase with nTime := txCoinStake.nTime } :: rest) :=
    hmem { coinBase with nTime := txCoinStake.nTime } List.mem_cons_self
  obtain ⟨hmedian, htip⟩ := max_le_iff.mp hearly
  have htime : (unsigned (max (unsigned (max (BlockPtr.getMedianTimePast s.pindexBest + 1)
        (getMaxTransactionTime ({ coinBase with nTime := txCoinStake.nTime } :: rest)))).toNat
      ((s.pindexBest.head?.map CBlockIndex.getBlockTime).getD 0 - 10 * 60))).toNat =
      getMaxTransactionTime ({ coinBase with nTime := txCoinStake.nTime } :: rest) := by
    rw [max_eq_right (hmedian.trans hfirst), toNat_unsigned h0 hlt, max_eq_left (htip.trans hfirst),
      toNat_unsigned h0 hlt]
  refine ⟨?_, htime⟩
  show List.take 1 (List.filter _ _) ++ txCoinStake :: List.drop 1 (List.filter _ _) = _
  rw [List.filter_eq_self.mpr]
  · rfl
  · intro tx htx
    have hle := hmem tx htx
    rw [← htime] at hle
    rw [Bool.not_eq_true', decide_eq_false_iff_not, gt_iff_lt, UInt32.not_lt, UInt32.le_iff_toNat_le]
    exact Int.ofNat_le.mp hle

/-! ## What `SignBlock` returns -/

variable {E : Signatures}

/-- The template with the coinstake in second place, and signed. -/
structure Signed (P : Primitives) (E : Signatures) (b' : CBlock) (coinBase : CTransaction)
    (rest : List CTransaction) (txCoinStake : CTransaction) (key : CKey) : Prop where
  vtx : b'.vtx = { coinBase with nTime := txCoinStake.nTime } :: txCoinStake :: rest
  time : b'.getBlockTime = getMaxTransactionTime ({ coinBase with nTime := txCoinStake.nTime } :: rest)
  root : b'.hashMerkleRoot = b'.buildMerkleTree P
  sign : E.sign key (b'.getHash P) = some b'.vchBlockSig

/-- A block that is signed has the coinstake in it, and a signature of its key over the rest. -/
theorem signBlock_ok {nLastCoinStakeSearchTime nFees n : Int} {b b' : CBlock} {coinBase : CTransaction}
    {rest : List CTransaction} (hvtx : b.vtx = coinBase :: rest) (hvout : coinBase.vout = [⟨0, []⟩])
    (hwork : b.isProofOfStake = false)
    (h : signBlock P C H E s W nLastCoinStakeSearchTime nFees b = .ok ⟨true, b', n⟩) :
    ∃ txCoinStake key,
      createCoinStake P s C H E W b.nBits ((unsigned s.nAdjustedTime).toNat - nLastCoinStakeSearchTime) nFees =
        .ok (some (txCoinStake, key)) ∧
      E.sign key ((stakeBlock P s b coinBase rest txCoinStake).getHash P) = some b'.vchBlockSig ∧
      Signed P E b' coinBase rest txCoinStake key := by
  have hempty : ¬CTxOut.isEmpty ⟨0, []⟩ = false := by decide
  unfold signBlock at h
  rw [hvtx] at h
  dsimp only at h
  rw [hvout] at h
  dsimp only at h
  rw [if_neg hempty, if_neg (by rw [hwork]; exact Bool.false_ne_true)] at h
  split at h
  · obtain ⟨found, hstake, h⟩ := bind_ok.mp h
    cases found with
    | none => cases h
    | some r =>
      obtain ⟨txCoinStake, key⟩ := r
      dsimp only at h
      split at h
      · rename_i hearly
        cases hsign : E.sign key ((stakeBlock P s b coinBase rest txCoinStake).getHash P) with
        | none =>
          rw [hsign] at h
          cases h
        | some vchBlockSig =>
          rw [hsign] at h
          cases h
          obtain ⟨hvtx', htime⟩ := stakeBlock_eq b hearly
          exact ⟨txCoinStake, key, hstake, hsign, hvtx', htime, rfl, hsign⟩
      · cases h
  · cases h

/-- The time of the block is the coinstake's EXACTLY if nothing else in it is later. -/
theorem Signed.time_iff {b' : CBlock} {coinBase txCoinStake : CTransaction} {rest : List CTransaction} {key : CKey}
    (h : Signed P E b' coinBase rest txCoinStake key) :
    b'.getBlockTime = txCoinStake.nTime.toNat ↔ ∀ tx ∈ rest, tx.nTime ≤ txCoinStake.nTime := by
  rw [h.time]
  constructor
  · intro heq tx htx
    have hle := le_getMaxTransactionTime (List.mem_cons_of_mem { coinBase with nTime := txCoinStake.nTime } htx)
    rw [heq] at hle
    exact UInt32.le_iff_toNat_le.mpr (Int.ofNat_le.mp hle)
  · intro hle
    have hmem : { coinBase with nTime := txCoinStake.nTime } ∈
        { coinBase with nTime := txCoinStake.nTime } :: rest := List.mem_cons_self
    have hfirst := le_getMaxTransactionTime hmem
    refine Int.le_antisymm (getMaxTransactionTime_le (Int.natCast_nonneg _) ?_) hfirst
    rw [List.forall_mem_cons]
    refine ⟨Int.le_refl _, ?_⟩
    intro tx htx
    exact Int.ofNat_le.mpr (UInt32.le_iff_toNat_le.mp (hle tx htx))

/-- The signature is the kernel's key's, and the coinstake says which that is. -/
theorem CoinStakeMade.checkBlockSignature {vMasterKey : List UInt8} (hC : C.Works vMasterKey) (hE : E.Works C)
    {nBits : UInt32} {kernel : StakeKernel} {inputs : List StakeCoin} {nCoinAge : Nat} {nReward : Int}
    {tx : CTransaction} {key : CKey} (h : CoinStakeMade P s C H W nBits kernel inputs nCoinAge nReward tx key)
    {b' : CBlock} {coinBase : CTransaction} {rest : List CTransaction} (hb' : Signed P E b' coinBase rest tx key) :
    Silkcoin.checkBlockSignature P C E b' = true := by
  obtain ⟨keyBefore, hscript⟩ := h.kernel_found.script
  obtain ⟨hsolve, hvalid⟩ := kernelScript_pays hC hscript
  obtain ⟨nValue, more, hout⟩ : ∃ nValue more,
      stakeOutputs kernel (int64 (coinsValue inputs + nReward)) = ⟨nValue, kernel.scriptPubKeyOut⟩ :: more := by
    unfold stakeOutputs
    split
    · exact ⟨_, _, rfl⟩
    · exact ⟨_, _, rfl⟩
  have hne : b'.vchBlockSig.isEmpty = false := by
    have hlen := (hE.length key _ _ hb'.sign).1
    cases hsig : b'.vchBlockSig with
    | nil =>
      rw [hsig] at hlen
      exact absurd hlen (Nat.lt_irrefl 0)
    | cons c vchBlockSig => rfl
  unfold Silkcoin.checkBlockSignature
  rw [hb'.vtx]
  dsimp only
  rw [h.vout_eq, hout]
  dsimp only
  rw [hsolve]
  dsimp only
  rw [hvalid, hne, hE.verifies key _ _ hb'.sign]
  rfl

end NodeState

/-! ## `CheckBlock` -/

namespace CBlock

variable {P : Primitives} {g : Globals} {b : CBlock} {coinBase coinStake : CTransaction}
  {rest : List CTransaction}

/-- All that `CheckBlock` looks at in a proof-of-stake block. -/
structure StakeChecked (P : Primitives) (g : Globals) (b : CBlock) (coinBase coinStake : CTransaction)
    (rest : List CTransaction) : Prop where
  vtx : b.vtx = coinBase :: coinStake :: rest
  size : b.getSerializeSize ≤ MAX_BLOCK_SIZE
  now : b.getBlockTime ≤ futureDrift g.nAdjustedTime
  coinbase : coinBase.isCoinBase = true
  empty : coinBase.vout = [⟨0, []⟩]
  drift : b.getBlockTime ≤ futureDrift coinBase.nTime.toNat
  coinstake : coinStake.isCoinStake = true
  ordinary : ∀ tx ∈ rest, tx.isCoinBase = false ∧ tx.isCoinStake = false
  time : b.getBlockTime = coinStake.nTime.toNat
  signature : P.checkBlockSignature b = true
  txs : ∀ tx ∈ b.vtx, tx.checkTransaction = .ok () ∧ (tx.nTime.toNat : Int) ≤ b.getBlockTime
  distinct : (b.vtx.map P.getHash).Nodup
  sigOps : (b.vtx.map CTransaction.getLegacySigOpCount).sum ≤ MAX_BLOCK_SIGOPS
  root : b.hashMerkleRoot = b.buildMerkleTree P

theorem length_le_getSerializeSize (b : CBlock) : b.vtx.length ≤ b.getSerializeSize := by
  have hsum : b.vtx.length ≤ (b.vtx.map CTransaction.getSerializeSize).sum := by
    refine (Nat.le_of_eq (List.length_map _).symm).trans (List.length_le_sum_of_one_le _ ?_)
    intro n hn
    obtain ⟨tx, -, rfl⟩ := List.mem_map.mp hn
    unfold CTransaction.getSerializeSize
    omega
  unfold getSerializeSize
  omega

theorem checkBlockTxs_eq (h : ∀ tx ∈ b.vtx, tx.checkTransaction = .ok () ∧ (tx.nTime.toNat : Int) ≤ b.getBlockTime) :
    b.vtx.foldlM b.checkBlockTx () = .ok () := by
  have hrun : ∀ l : List CTransaction, (∀ tx ∈ l, tx ∈ b.vtx) → l.foldlM b.checkBlockTx () = .ok () := by
    intro l
    induction l with
    | nil =>
      intro _
      rfl
    | cons tx l ih =>
      intro hmem
      rw [List.forall_mem_cons] at hmem
      obtain ⟨hcheck, htime⟩ := h tx hmem.1
      have hstep : b.checkBlockTx () tx = .ok () := by
        unfold checkBlockTx
        rw [hcheck, decide_eq_true (not_lt.mpr htime)]
        rfl
      rw [List.foldlM_cons, hstep, ok_bind]
      exact ih hmem.2
  exact hrun b.vtx fun _ h => h

theorem StakeChecked.isProofOfStake (h : StakeChecked P g b coinBase coinStake rest) : b.isProofOfStake = true := by
  unfold CBlock.isProofOfStake
  rw [h.vtx]
  exact h.coinstake

/-- With all of it right, `CheckBlock` returns true. -/
theorem StakeChecked.checkBlock_eq (h : StakeChecked P g b coinBase coinStake rest) :
    b.checkBlock P g true true true = .ok () := by
  have hpos := h.isProofOfStake
  have hlength := (length_le_getSerializeSize b).trans h.size
  have hlimits : ¬(b.vtx = [] ∨ b.vtx.length > MAX_BLOCK_SIZE ∨ b.getSerializeSize > MAX_BLOCK_SIZE) := by
    rw [not_or, not_or]
    refine ⟨?_, Nat.not_lt.mpr hlength, Nat.not_lt.mpr h.size⟩
    rw [h.vtx]
    exact List.cons_ne_nil _ _
  have hwork : checkClaimedWork P g b true = .ok () := by
    unfold checkClaimedWork isProofOfWork
    rw [hpos]
    rfl
  have hcb : ((coinStake :: rest).all fun tx => !tx.isCoinBase) = true := by
    rw [List.all_eq_true, List.forall_mem_cons]
    constructor
    · cases hbase : coinStake.isCoinBase with
      | false => rfl
      | true =>
        have hno := coinStake.not_isCoinStake_of_isCoinBase hbase
        rw [h.coinstake] at hno
        cases hno
    · intro tx htx
      rw [(h.ordinary tx htx).1]
      rfl
  have hshape : checkStakeShape P b coinBase (coinStake :: rest) true = .ok () := by
    have hout : (decide (coinBase.vout.length = 1) && coinBase.vout.all CTxOut.isEmpty) = true := by
      rw [h.empty]
      rfl
    have hothers : (rest.all fun tx => !tx.isCoinStake) = true := by
      rw [List.all_eq_true]
      intro tx htx
      rw [(h.ordinary tx htx).2]
      rfl
    have hsame : checkCoinStakeTimestamp b.getBlockTime coinStake.nTime.toNat = true := decide_eq_true h.time
    unfold checkStakeShape
    rw [if_pos hpos, hout, require_true, ok_bind]
    dsimp only
    rw [h.coinstake, require_true, ok_bind, hothers, require_true, ok_bind, hsame, require_true, ok_bind,
      h.signature]
    rfl
  have htxs := checkBlockTxs_eq h.txs
  have hroot : ¬(true = true ∧ b.hashMerkleRoot ≠ b.buildMerkleTree P) := fun hne => hne.2 h.root
  unfold checkBlock
  rw [decide_eq_true hlimits, require_true, ok_bind, hwork, ok_bind, decide_eq_true (not_lt.mpr h.now),
    require_true, ok_bind]
  have hvtx := h.vtx
  rw [hvtx] at htxs ⊢
  dsimp only
  rw [h.coinbase, require_true, ok_bind, hcb, require_true, ok_bind, decide_eq_true (not_lt.mpr h.drift),
    require_true, ok_bind, hshape, ok_bind, htxs, ok_bind, ← hvtx, decide_eq_true h.distinct, require_true, ok_bind,
    decide_eq_true (Nat.not_lt.mpr h.sigOps), require_true, ok_bind, decide_eq_true hroot, require_true]

/-- What a proof-of-stake block that passed has at least. -/
theorem checkBlock_limits {fCheckPOW fCheckMerkleRoot fCheckSig : Bool} {u : Unit}
    (hvtx : b.vtx = coinBase :: coinStake :: rest) (hstake : coinStake.isCoinStake = true)
    (h : b.checkBlock P g fCheckPOW fCheckMerkleRoot fCheckSig = .ok u) :
    b.getSerializeSize ≤ MAX_BLOCK_SIZE ∧ b.getBlockTime = coinStake.nTime.toNat := by
  have hpos : b.isProofOfStake = true := by
    unfold CBlock.isProofOfStake
    rw [hvtx]
    exact hstake
  unfold checkBlock at h
  obtain ⟨hlimits, h⟩ := require_bind_ok.mp h
  obtain ⟨_, -, h⟩ := bind_ok.mp h
  obtain ⟨-, h⟩ := require_bind_ok.mp h
  rw [decide_eq_true_eq, not_or, not_or] at hlimits
  rw [hvtx] at h
  dsimp only at h
  obtain ⟨-, h⟩ := require_bind_ok.mp h
  obtain ⟨-, h⟩ := require_bind_ok.mp h
  obtain ⟨-, h⟩ := require_bind_ok.mp h
  obtain ⟨_, hshape, -⟩ := bind_ok.mp h
  unfold checkStakeShape at hshape
  rw [if_pos hpos] at hshape
  obtain ⟨-, hshape⟩ := require_bind_ok.mp hshape
  dsimp only at hshape
  obtain ⟨-, hshape⟩ := require_bind_ok.mp hshape
  obtain ⟨-, hshape⟩ := require_bind_ok.mp hshape
  obtain ⟨htime, -⟩ := require_bind_ok.mp hshape
  exact ⟨Nat.not_lt.mp hlimits.2.2, of_decide_eq_true htime⟩

end CBlock

/-! ## What an outpoint is worth -/

/-- Its value in a transaction at hand with its hash. -/
def Worth (P : Primitives) (S : Set CTransaction) (o : COutPoint) (v : Int) : Prop :=
  ∃ tx ∈ S, P.getHash tx = o.hash ∧ v = ((tx.vout[o.n.toNat]?).map CTxOut.nValue).getD 0

section Worth

variable {P : Primitives} {S : Set CTransaction} {chain : Chain}

theorem Worth.unique (hinj : Set.InjOn P.getHash S) {o : COutPoint} {v v' : Int} (h : Worth P S o v)
    (h' : Worth P S o v') : v = v' := by
  obtain ⟨tx, htx, hhash, rfl⟩ := h
  obtain ⟨tx', htx', hhash', rfl⟩ := h'
  rw [hinj htx htx' (hhash.trans hhash'.symm)]

namespace NodeState

variable {s : NodeState} {pindexPrev : BlockPtr} {rows : List TemplateTx} {mapTestPool : QueuedChanges}

/-- The fee of a transaction, by what its outpoints are worth. -/
def LeavesFee (P : Primitives) (S : Set CTransaction) (row : TemplateTx) : Prop :=
  ∃ value : COutPoint → Int, (∀ o ∈ row.tx.prevouts, Worth P S o (value o)) ∧
    row.nFee = (row.tx.prevouts.map value).sum - row.tx.valueOut

/-- What the miner fetches is in the chain or in the pool, under its hash. -/
theorem fetched_known (hi : ChainIndex P S chain s.txdb) (hstored : ChainStored s.files chain)
    (hpool : PoolReady P S s)
    (hrefines : Refines (indexView s.txdb mapTestPool) (templateEntries P rows ++ ledgerOf P chain))
    {inputs : MapPrevTx} (hf : CTransaction.Fetched s.globals s.txdb mapTestPool inputs) {hash : Uint256}
    {txindex : CTxIndex} {txPrev : CTransaction} (hlook : inputs.lookup hash = some (txindex, txPrev)) :
    txPrev ∈ S ∧ P.getHash txPrev = hash := by
  obtain ⟨hview, hprev⟩ := hf hash txindex txPrev hlook
  obtain ⟨d, hd, hid, -, hpos, -⟩ := hrefines.find_some hview
  unfold CTransaction.prevTxOf at hprev
  by_cases hmem : txindex.pos = CDiskTxPos.memoryPool
  · rw [if_pos hmem] at hprev
    cases hlookup : s.globals.mempool hash with
    | none =>
      rw [hlookup] at hprev
      cases hprev
    | some tx =>
      rw [hlookup] at hprev
      cases hprev
      obtain ⟨hhash, hS⟩ := hpool.keyed hash txPrev hlookup
      exact ⟨hS, hhash⟩
  · rw [if_neg hmem] at hprev
    rcases List.mem_append.mp hd with hd | hd
    · -- the transactions of the template are in the pool
      obtain ⟨row, -, rfl⟩ := mem_templateEntries.mp hd
      exact absurd hpos hmem
    · obtain ⟨tx, hS, hhash, hread, -⟩ := hi.readTx_of_mem hstored hd
      have hread : s.globals.files.readTx d.pos = some tx := hread
      rw [hpos, hread] at hprev
      cases hprev
      exact ⟨hS, hhash.trans hid⟩

end NodeState

/-- The fees of the template. -/
theorem Connects.leavesFee {s : NodeState} {pindexPrev : BlockPtr} {rows : List TemplateTx}
    {mapTestPool : QueuedChanges} (h : Connects P s.globals s.txdb pindexPrev rows mapTestPool)
    (hinj : Set.InjOn P.getHash S) (hi : ChainIndex P S chain s.txdb) (hstored : ChainStored s.files chain)
    (hpool : NodeState.PoolReady P S s)
    (hrows : ∀ row ∈ rows, row.tx ∈ S ∧ row.tx.TxChecked ∧ row.tx.isCoinBase = false) :
    ∀ row ∈ rows, NodeState.LeavesFee P S row := by
  induction h with
  | nil => exact fun row hrow => absurd hrow List.not_mem_nil
  | @append rows mapTestPool pool' tx mapInputs nP2SH hbefore hfetch _ _ ih =>
    have hold := fun row hrow => hrows row (List.mem_append_left _ hrow)
    obtain ⟨-, -, hcb⟩ := hrows _ (List.mem_append_right _ List.mem_cons_self)
    dsimp only at hcb
    obtain ⟨hf, hin⟩ := CTransaction.fetchInputs_ok tx rfl hcb hfetch
    obtain ⟨hrefines, -, -⟩ := hbefore.ledger hinj hi.toIndexOf hi.ok.known hold
    intro row hrow
    rcases List.mem_append.mp hrow with hrow | hrow
    · exact ih hold row hrow
    · obtain rfl := List.mem_singleton.mp hrow
      refine ⟨fun o => CTransaction.inputValue mapInputs ⟨o, [], 0⟩, ?_, ?_⟩
      · intro o ho
        obtain ⟨txin, htxin, rfl⟩ := List.mem_map.mp ho
        obtain ⟨txindex, txPrev, hlook, -, -⟩ := hin txin htxin
        obtain ⟨hS, hhash⟩ := NodeState.fetched_known hi hstored hpool hrefines hf hlook
        refine ⟨txPrev, hS, hhash, ?_⟩
        unfold CTransaction.inputValue
        dsimp only
        rw [hlook]
      · show _ = (List.map _ (List.map _ _)).sum - _
        rw [List.map_map]
        rfl

theorem Connects.sigOps_le {g : Globals} {txdb : CTxDB} {pindexPrev : BlockPtr} {rows : List TemplateTx}
    {mapTestPool : QueuedChanges} (h : Connects P g txdb pindexPrev rows mapTestPool) :
    ∀ row ∈ rows, row.tx.getLegacySigOpCount ≤ row.nSigOps := by
  induction h with
  | nil => exact fun row hrow => absurd hrow List.not_mem_nil
  | append _ _ _ _ ih =>
    intro row hrow
    rcases List.mem_append.mp hrow with hrow | hrow
    · exact ih row hrow
    · obtain rfl := List.mem_singleton.mp hrow
      exact Nat.le_add_right _ _

variable {s : NodeState} {g : Globals} {txdb : CTxDB} {pindex : CBlockIndex} {pprev : BlockPtr} {b : CBlock}
  {coinStake : CTransaction}

namespace NodeState.ConnectsStake

variable (hb : ConnectsStake P S s g txdb pindex b coinStake)

include hb

/-- What the block finds under a hash is a transaction at hand. -/
theorem prevValue_worth (hi : ChainIndex P S chain s.txdb) (hstored : ChainStored s.files chain)
    {pre : List CTransaction} (hpre : ∀ t ∈ pre, t ∈ S) {o : COutPoint}
    (hfound : (∃ t ∈ pre, P.getHash t = o.hash) ∨ (txdb.readTxIndex o.hash).isSome = true) :
    Worth P S o (CBlock.prevValue P g txdb pre o) := by
  unfold CBlock.prevValue CBlock.prevOut
  cases hfind : pre.find? fun tx => decide (P.getHash tx = o.hash) with
  | some tx =>
    exact ⟨tx, hpre tx (List.mem_of_find?_eq_some hfind), of_decide_eq_true (List.find?_some hfind :), rfl⟩
  | none =>
    have hindex : (txdb.readTxIndex o.hash).isSome = true := by
      refine hfound.resolve_left ?_
      rintro ⟨t, ht, hhash⟩
      exact List.find?_eq_none.mp hfind t ht (decide_eq_true hhash)
    obtain ⟨txindex, hentry⟩ := Option.isSome_iff_exists.mp hindex
    obtain ⟨tx, hS, hhash, hread, hne⟩ := hi.readTx_of_entry hstored ((hb.index _).symm.trans hentry)
    have hprev : CTransaction.prevTxOf g o.hash txindex = .ok tx := by
      unfold CTransaction.prevTxOf
      rw [if_neg hne, hb.files.readTx hread]
    refine ⟨tx, hS, hhash, ?_⟩
    dsimp only
    rw [hentry]
    dsimp only
    rw [hprev]

/-- In a block whose transactions connect, every outpoint is worth something. -/
theorem splits_worth (hi : ChainIndex P S chain s.txdb) (hstored : ChainStored s.files chain) {st : ConnectState}
    (hrun : b.vtx.foldlM (CBlock.connectTx P g txdb pindex pprev false)
      (CBlock.connectStart pindex b false) = .ok st) :
    ∀ p ∈ splits b.vtx, p.2.isCoinBase = false → ∀ o ∈ p.2.prevouts,
      Worth P S o (CBlock.prevValue P g txdb p.1 o) := by
  have hall := foldlM_ok_induct (P := fun pre st =>
      (∀ hash, (indexView txdb st.mapQueuedChanges hash).isSome = true →
        (∃ t ∈ pre, P.getHash t = hash) ∨ (txdb.readTxIndex hash).isSome = true) ∧
      ∀ p ∈ splits pre, p.2.isCoinBase = false → ∀ o ∈ p.2.prevouts,
        Worth P S o (CBlock.prevValue P g txdb p.1 o)) ?_ ?_ hrun
  · exact hall.2
  · exact ⟨fun hash h => Or.inr h, fun p hp => absurd hp List.not_mem_nil⟩
  · rintro pre tx post st st' hvtx ⟨hview, hworth⟩ hstep
    have hmem : tx ∈ b.vtx := by
      rw [hvtx]
      exact List.mem_append_right _ List.mem_cons_self
    have h := CBlock.connectTx_ok (hb.checked.txs tx hmem) hstep
    constructor
    · intro hash hsome
      rw [h.view_eq] at hsome
      split at hsome
      · rename_i heq
        exact Or.inl ⟨tx, List.mem_append_right _ List.mem_cons_self, heq⟩
      · rw [Option.isSome_map] at hsome
        rcases hview hash hsome with ⟨t, ht, heq⟩ | hindex
        · exact Or.inl ⟨t, List.mem_append_left _ ht, heq⟩
        · exact Or.inr hindex
    · intro p hp hcb o ho
      rw [splits_append_one, List.mem_append, List.mem_singleton] at hp
      rcases hp with hp | rfl
      · exact hworth p hp hcb o ho
      · obtain ⟨txindex, txPrev, q, hin, -⟩ := h.unspent hcb o ho
        refine hb.prevValue_worth hi hstored ?_ (hview o.hash (by rw [hin]; rfl))
        intro t ht
        refine hb.known t ?_
        rw [hvtx]
        exact List.mem_append_left _ ht

end NodeState.ConnectsStake

/-- The fees of the ordinary transactions, counted in the block, are those of the template. -/
theorem fees_of_template (hinj : Set.InjOn P.getHash S) {rows : List TemplateTx} (pre : List CTransaction)
    (hrows : ∀ row ∈ rows, NodeState.LeavesFee P S row ∧ row.tx.isCoinBase = false ∧ row.tx.isCoinStake = false)
    (hworth : ∀ p ∈ splitsFrom pre (rows.map TemplateTx.tx), p.2.isCoinBase = false → ∀ o ∈ p.2.prevouts,
      Worth P S o (CBlock.prevValue P g txdb p.1 o)) :
    ((splitsFrom pre (rows.map TemplateTx.tx)).map fun p =>
        if CBlock.isOrdinary p.2 then CBlock.valueIn P g txdb p - p.2.valueOut else 0).sum =
      (rows.map TemplateTx.nFee).sum := by
  induction rows generalizing pre with
  | nil => rfl
  | cons row rows ih =>
    rw [List.forall_mem_cons] at hrows
    obtain ⟨⟨⟨value, hvalue, hfee⟩, hcb, hcs⟩, hrows⟩ := hrows
    rw [List.map_cons, splitsFrom, List.forall_mem_cons] at hworth
    obtain ⟨hfirst, hworth⟩ := hworth
    have hin : CBlock.valueIn P g txdb (pre, row.tx) = (row.tx.prevouts.map value).sum := by
      unfold CBlock.valueIn
      rw [if_neg (by rw [hcb]; exact Bool.false_ne_true)]
      refine congrArg List.sum (List.map_congr_left fun o ho => ?_)
      exact (hfirst hcb o ho).unique hinj (hvalue o ho)
    rw [List.map_cons, splitsFrom, List.map_cons, List.sum_cons, ih _ hrows hworth, List.map_cons, List.sum_cons,
      if_pos (CBlock.isOrdinary_iff.mpr ⟨hcb, hcs⟩), hin, hfee]

end Worth

/-! ## The template and the coinstake -/

namespace NodeState

variable {D : Type} {P : Primitives} {S : Set CTransaction} {s : NodeState} {C : KeyPrimitives} {H : KernelHashes}
  {E : Signatures} {W : StakeWallet} {args : MinerArgs} {pindexPrev : BlockPtr} {rows : List TemplateTx}
  {mapTestPool : QueuedChanges} {a : Assembly D}

theorem createCoinStake_time {nBits : UInt32} {nSearchInterval nFees : Int} {tx : CTransaction} {key : CKey}
    (hclock : 60 ≤ s.nAdjustedTime ∧ s.nAdjustedTime < 4294967296)
    (h : createCoinStake P s C H E W nBits nSearchInterval nFees = .ok (some (tx, key))) :
    (tx.nTime.toNat : Int) ≤ s.nAdjustedTime := by
  unfold createCoinStake at h
  split at h
  · cases h
  obtain ⟨⟨key', found⟩, hsearch, h⟩ := bind_ok.mp h
  cases found with
  | none => cases h
  | some kernel =>
    dsimp only at h
    split at h
    · cases h
    obtain ⟨age, -, h⟩ := bind_ok.mp h
    cases age with
    | none => cases h
    | some nCoinAge =>
      dsimp only at h
      split at h
      · cases h
      obtain ⟨tx', hfinish, heq⟩ := Option.map_eq_some_iff.mp (Except.ok.inj h)
      obtain ⟨rfl, -⟩ := Prod.mk.inj heq
      have htime : tx'.nTime = kernel.nTime := (finishCoinStake_ok hfinish).1.nTime
      obtain ⟨-, -, n, hn, hkernel⟩ := searchCoins_ok hsearch
      have hnow := toNat_unsigned (x := s.nAdjustedTime) (by omega) hclock.2
      have hn : n < 60 := hn
      have hnat : (UInt32.ofNat n).toNat = n := UInt32.toNat_ofNat_of_lt' (show n < 2 ^ 32 by omega)
      have hsub : (unsigned s.nAdjustedTime - UInt32.ofNat n).toNat = (unsigned s.nAdjustedTime).toNat - n := by
        rw [UInt32.toNat_sub_of_le, hnat]
        rw [UInt32.le_iff_toNat_le, hnat]
        omega
      rw [htime, hkernel, hsub]
      omega

/-- No record is deeper than the chain is high. -/
theorem walletDepth_le (wtx : CWalletTx) :
    s.walletDepth P wtx ≤ ((s.pindexBest.head?.map CBlockIndex.nHeight).getD 0 : Nat) + 1 := by
  have hfew : ∀ nResult : Int, nResult ≤ ((s.pindexBest.head?.map CBlockIndex.nHeight).getD 0 : Nat) + 1 →
      (if nResult = 0 ∧ (s.mempool.mapTx.lookup (P.getHash wtx.tx)).isNone then -1 else nResult) ≤
        ((s.pindexBest.head?.map CBlockIndex.nHeight).getD 0 : Nat) + 1 := by
    intro nResult hle
    split
    · omega
    · exact hle
  unfold walletDepth
  apply hfew
  split
  · omega
  split
  · omega
  · omega
  split
  · omega
  split
  · omega
  · omega

/-- A coin that may be staked is deep, and so the chain is high. -/
theorem height_of_available {w : CWallet} {nConf : Int} {coin : StakeCoin}
    (h : coin ∈ s.availableCoinsMinConf P w nConf) :
    nConf ≤ ((s.pindexBest.head?.map CBlockIndex.nHeight).getD 0 : Nat) + 1 := by
  unfold availableCoinsMinConf at h
  obtain ⟨e, -, hcoin⟩ := List.mem_flatMap.mp h
  split at hcoin
  · cases hcoin
  · rename_i hdeep
    rw [not_or, not_lt] at hdeep
    exact hdeep.2.trans (walletDepth_le e.2)

theorem length_lt_pushData (b : List UInt8) : b.length < (pushData b).length := by
  unfold pushData
  split
  · exact Nat.lt_succ_self _
  split
  · simp only [List.length_cons]
    omega
  split
  · simp only [List.length_cons]
    omega
  · simp only [List.length_cons]
    omega

/-- The coinbase of a template on a chain that has a coin to stake: its script has the size that is wanted,
    and no signature operation. -/
theorem newCoinBase_checked {nHeight : Nat} (hlow : 17 ≤ nHeight) (hheight : nHeight < 2 ^ 31) (keyID : BitVec 160)
    (nValue : Int) (nTime : UInt32) :
    ({ newCoinBase s nHeight true keyID nValue with nTime := nTime } : CTransaction).TxChecked ∧
      ({ newCoinBase s nHeight true keyID nValue with nTime := nTime } : CTransaction).getLegacySigOpCount = 0 := by
  have hlen := length_pushInt64_le hheight
  have hpush : pushInt64 nHeight = pushData (getvch nHeight) := by
    unfold pushInt64
    rw [if_neg (by omega)]
  have hne : getvch (nHeight : Int) ≠ [] := by
    intro hnil
    have hvalue := vchValue_getvch nHeight
    rw [hnil] at hvalue
    have hzero : vchValue [] = 0 := rfl
    omega
  have hshort : (getvch (nHeight : Int)).length < 76 := by
    rw [hpush] at hlen
    have hdata := length_lt_pushData (getvch (nHeight : Int))
    omega
  have hsize : 2 ≤ (pushInt64 nHeight).length := by
    have hdata := length_lt_pushData (getvch (nHeight : Int))
    have hpos := List.length_pos_iff.mpr hne
    rw [hpush]
    omega
  have hscript : ({ newCoinBase s nHeight true keyID nValue with nTime := nTime } : CTransaction).vin =
      [⟨COutPoint.null, pushInt64 nHeight, 0xffffffff⟩] := by
    show [(⟨COutPoint.null, pushInt64 nHeight ++ COINBASE_FLAGS, 0xffffffff⟩ : CTxIn)] = _
    rw [show COINBASE_FLAGS = [] from rfl, List.append_nil]
  constructor
  · constructor
    · rw [hscript]
      exact List.cons_ne_nil _ _
    · exact List.cons_ne_nil _ _
    · intro txout htxout
      obtain rfl := List.mem_singleton.mp htxout
      show moneyRange 0 = true
      decide
    · show moneyRange (0 + 0) = true
      decide
    · intro hcb
      cases hcb
    · show (List.map CTxIn.prevout _).Nodup
      rw [hscript]
      exact List.nodup_singleton _
    · intro _
      unfold CTransaction.coinBaseScriptSize
      rw [hscript]
      exact ⟨hsize, hlen.trans (by decide)⟩
    · intro hcb
      cases hcb
  · unfold CTransaction.getLegacySigOpCount
    rw [hscript]
    show getSigOpCount false (pushInt64 nHeight) + 0 + (0 + 0) = 0
    rw [hpush, getSigOpCount_push hshort]

/-- A template, as far as it matters to what becomes of it. -/
structure Template (P : Primitives) (S : Set CTransaction) (s : NodeState) (b : CBlock) (nFees : Int)
    (coinBase : CTransaction) (rows : List TemplateTx) : Prop where
  vtx : b.vtx = coinBase :: rows.map TemplateTx.tx
  ordinary : ∀ row ∈ rows, row.tx ∈ S ∧ row.tx.TxChecked ∧ row.tx.isCoinBase = false ∧ row.tx.isCoinStake = false
  fee : ∀ row ∈ rows, LeavesFee P S row
  nFees_eq : nFees = int64 (rows.map TemplateTx.nFee).sum
  distinct : (rows.map fun row => P.getHash row.tx).Nodup
  sigOps : 100 + (rows.map fun row => row.tx.getLegacySigOpCount).sum ≤ MAX_BLOCK_SIGOPS
  size : ∀ row ∈ rows, row.tx.getSerializeSize ≤ MAX_BLOCK_SIZE

theorem createNewBlock_template {chain : Chain} (F : Doubles D) (heap : Heap D) (args : MinerArgs)
    {pindexPrev : CBlockIndex} {below : BlockPtr} (hinj : Set.InjOn P.getHash S) (hi : ChainIndex P S chain s.txdb)
    (hstored : ChainStored s.files chain) (hpool : PoolReady P S s) (hbest : s.pindexBest = pindexPrev :: below)
    (hheight : pindexPrev.nHeight + 1 < 2 ^ 31) {keyID : BitVec 160} {b : CBlock} {nFees : Int}
    (h : createNewBlock P F heap args s true keyID = .ok (b, nFees)) : ∃ nValue rows,
      Template P S s b nFees (newCoinBase s (pindexPrev.nHeight + 1) true keyID nValue) rows := by
  obtain ⟨a, rows, ha, hb⟩ := createNewBlock_eq F heap args hpool hbest hheight true keyID
  rw [h] at hb
  cases hb
  have hrows := ha.rows_ok hpool
  have hplain : ∀ row ∈ rows, row.tx ∈ S ∧ row.tx.TxChecked ∧ row.tx.isCoinBase = false :=
    fun row hrow => ⟨(hrows row hrow).1, (hrows row hrow).2.1, (hrows row hrow).2.2.1⟩
  have hvalid := (ha.connects.ledger hinj hi.toIndexOf hi.ok.known hplain).2.1
  refine ⟨getProofOfWorkReward a.nFees pindexPrev.nHeight, rows, ?_, hrows,
    ha.connects.leavesFee hinj hi hstored hpool hplain, ha.fees_eq, ?_, ?_, ?_⟩
  · show _ :: a.vtx = _
    rw [ha.vtx_eq]
  · have hids := hvalid.ids_nodup
    rw [List.map_append] at hids
    have hids := hids.of_append_left
    unfold templateEntries at hids
    rw [List.map_reverse, List.map_map] at hids
    exact List.nodup_reverse.mp hids
  · have hle := List.sum_le_sum fun row hrow => ha.connects.sigOps_le row hrow
    have hlt := ha.sigops_lt
    rw [ha.sigops_eq] at hlt
    omega
  · intro row hrow
    have hle : row.tx.getSerializeSize ≤ ((rows.map TemplateTx.tx).map CTransaction.getSerializeSize).sum :=
      List.single_le_sum (fun _ _ => Nat.zero_le _) _
        (List.mem_map_of_mem (List.mem_map_of_mem hrow))
    have hmax : args.nBlockMaxSize ≤ MAX_BLOCK_SIZE := max_le (by decide) ((min_le_left _ _).trans (by decide))
    have hsize := ha.size_eq
    rcases ha.size_lt with rfl | hlt
    · cases hrow
    · omega

/-- The node of a staker: its chain is on disk, its pool and its wallet hold transactions at hand, its keys are
    sound, and its clock is one of `unsigned int` seconds. -/
structure StakerOk (P : Primitives) (S : Set CTransaction) (chain : Chain) (C : KeyPrimitives) (E : Signatures)
    (vMasterKey : List UInt8) (added : List CKey) (s : NodeState) (W : StakeWallet) : Prop where
  hashes : Set.InjOn P.getHash S
  index : ChainIndex P S chain s.txdb
  stored : ChainStored s.files chain
  pool : PoolReady P S s
  records : W.wallet.RecordsOk S
  keys : W.keys.Sound C vMasterKey added
  curve : C.Works vMasterKey
  signs : E.Works C
  clock : 60 ≤ s.nAdjustedTime ∧ s.nAdjustedTime < 4294967296

/-- The template and the coinstake go together: no transaction is later than the coinstake, it pays out no more
    than there is money, and with it and the signature the block is not too large. -/
structure Fits (b : CBlock) (txCoinStake : CTransaction) (vchBlockSig : List UInt8) : Prop where
  times : ∀ tx ∈ b.vtx.tail, tx.nTime ≤ txCoinStake.nTime
  value : moneyRange txCoinStake.valueOut = true
  size : ({ b with vtx := txCoinStake :: b.vtx, vchBlockSig := vchBlockSig } : CBlock).getSerializeSize ≤
    MAX_BLOCK_SIZE

/-- Whatever `SignBlock` is about to sign, the template goes with the coinstake in it. -/
def TemplateFits (P : Primitives) (C : KeyPrimitives) (H : KernelHashes) (E : Signatures) (s : NodeState)
    (W : StakeWallet) (nLastCoinStakeSearchTime nFees : Int) (b : CBlock) : Prop :=
  ∀ coinBase rest txCoinStake key vchBlockSig, b.vtx = coinBase :: rest →
    createCoinStake P s C H E W b.nBits ((unsigned s.nAdjustedTime).toNat - nLastCoinStakeSearchTime) nFees =
      .ok (some (txCoinStake, key)) →
    E.sign key ((stakeBlock P s b coinBase rest txCoinStake).getHash P) = some vchBlockSig →
      Fits b txCoinStake vchBlockSig

/-- The block passes `CheckBlock`, and wherever its transactions connect on this chain the coinstake creates no
    more than the reward for the fees in it. -/
structure Accepts (P : Primitives) (S : Set CTransaction) (s : NodeState) (b : CBlock) : Prop where
  check : b.checkBlock P s.globals true true true = .ok ()
  reward : ∀ g txdb pindex pprev txCoinStake st, ConnectsStake P S s g txdb pindex b txCoinStake →
    b.vtx.foldlM (CBlock.connectTx P g txdb pindex pprev false) (CBlock.connectStart pindex b false) = .ok st →
      CBlock.checkReward g txdb b st = .ok ()

section Signed

variable {chain : Chain} {vMasterKey : List UInt8} {added : List CKey} {b b' : CBlock} {nFees : Int}
  {coinBase txCoinStake : CTransaction} {kernel : StakeKernel} {inputs : List StakeCoin} {nCoinAge : Nat}
  {nReward : Int} {key : CKey}

/-- The size does not depend on the order. -/
theorem Signed.size_eq (hb' : Signed P E b' coinBase (rows.map TemplateTx.tx) txCoinStake key)
    (hvtx : b.vtx = coinBase :: rows.map TemplateTx.tx) : b'.getSerializeSize =
      ({ b with vtx := txCoinStake :: b.vtx, vchBlockSig := b'.vchBlockSig } : CBlock).getSerializeSize := by
  have hsame : ({ coinBase with nTime := txCoinStake.nTime } : CTransaction).getSerializeSize =
      coinBase.getSerializeSize := rfl
  unfold CBlock.getSerializeSize
  rw [hb'.vtx]
  dsimp only
  rw [hvtx]
  simp only [List.map_cons, List.sum_cons, List.length_cons, hsame]
  omega

/-- Three kinds of transactions are in it, and no two of a kind have one hash. -/
theorem Signed.distinct (hb' : Signed P E b' coinBase (rows.map TemplateTx.tx) txCoinStake key)
    (ht : Template P S s b nFees coinBase rows) (hinj : Set.InjOn P.getHash S) (hknown : ∀ tx ∈ b'.vtx, tx ∈ S)
    (hbase : coinBase.isCoinBase = true) (hcb : txCoinStake.isCoinBase = false)
    (hcs : txCoinStake.isCoinStake = true) : (b'.vtx.map P.getHash).Nodup := by
  rw [hb'.vtx, List.forall_mem_cons, List.forall_mem_cons] at hknown
  obtain ⟨hfirst, hsecond, hrest⟩ := hknown
  have hbase : ({ coinBase with nTime := txCoinStake.nTime } : CTransaction).isCoinBase = true := hbase
  rw [hb'.vtx, List.map_cons, List.nodup_cons, List.map_cons, List.nodup_cons, List.map_map]
  refine ⟨?_, ?_, ht.distinct⟩
  · intro hmem
    rcases List.mem_cons.mp hmem with heq | hmem
    · have hsame := hinj hfirst hsecond heq
      rw [hsame, hcb] at hbase
      cases hbase
    · obtain ⟨row, hrow, heq⟩ := List.mem_map.mp hmem
      have hsame := hinj (hrest _ (List.mem_map_of_mem hrow)) hfirst heq
      rw [← hsame, (ht.ordinary row hrow).2.2.1] at hbase
      cases hbase
  · intro hmem
    obtain ⟨row, hrow, heq⟩ := List.mem_map.mp hmem
    have hsame := hinj (hrest _ (List.mem_map_of_mem hrow)) hsecond heq
    rw [← hsame, (ht.ordinary row hrow).2.2.2] at hcs
    cases hcs

/-- A coinstake that goes with the template makes a block with all that `CheckBlock` wants. -/
theorem StakerOk.stakeChecked (hnode : StakerOk P S chain C E vMasterKey added s W) {nHeight : Nat}
    {keyID : BitVec 160} {nValue : Int} (hlow : 17 ≤ nHeight) (hheight : nHeight < 2 ^ 31)
    (ht : Template P S s b nFees (newCoinBase s nHeight true keyID nValue) rows)
    (hmade : CoinStakeMade P s C H W b.nBits kernel inputs nCoinAge nReward txCoinStake key)
    (hreward : nReward < 9223372036854775808) (hquiet : Quiet txCoinStake)
    (hnow : (txCoinStake.nTime.toNat : Int) ≤ s.nAdjustedTime)
    (hb' : Signed P E b' (newCoinBase s nHeight true keyID nValue) (rows.map TemplateTx.tx) txCoinStake key)
    (hsig : P.checkBlockSignature b' = checkBlockSignature P C E b') (hknown : ∀ tx ∈ b'.vtx, tx ∈ S)
    (hfits : Fits b txCoinStake b'.vchBlockSig) :
    CBlock.StakeChecked P s.globals b' { newCoinBase s nHeight true keyID nValue with nTime := txCoinStake.nTime }
      txCoinStake (rows.map TemplateTx.tx) := by
  obtain ⟨hcoinbase, hnone⟩ := newCoinBase_checked (s := s) hlow hheight keyID nValue txCoinStake.nTime
  have hstake := hmade.isCoinStake hnode.records
  have hstakeChecked := hmade.txChecked hnode.hashes hnode.records hreward hfits.value
  have htimes := hfits.times
  rw [ht.vtx] at htimes
  have htime := hb'.time_iff.mpr htimes
  have hordinary : ∀ tx ∈ rows.map TemplateTx.tx, tx.isCoinBase = false ∧ tx.isCoinStake = false := by
    intro tx htx
    obtain ⟨row, hrow, rfl⟩ := List.mem_map.mp htx
    exact (ht.ordinary row hrow).2.2
  have hdrift : ∀ t : Int, t ≤ futureDrift t := fun t => by
    unfold futureDrift
    omega
  refine ⟨hb'.vtx, ?_, ?_, rfl, rfl, ?_, hstake, hordinary, htime, ?_, ?_, ?_, ?_, hb'.root⟩
  · rw [hb'.size_eq ht.vtx]
    exact hfits.size
  · rw [htime]
    exact hnow.trans (hdrift _)
  · rw [htime]
    exact hdrift _
  · rw [hsig]
    exact hmade.checkBlockSignature hnode.curve hnode.signs hb'
  · rw [hb'.vtx, htime, List.forall_mem_cons, List.forall_mem_cons]
    refine ⟨⟨hcoinbase.checkTransaction_eq ?_, Int.le_refl _⟩,
      ⟨hstakeChecked.checkTransaction_eq ?_, Int.le_refl _⟩, ?_⟩
    · exact (getSerializeSize_newCoinBase (s := s) hheight true keyID nValue).trans (by decide)
    · exact hmade.size.le.trans (by decide)
    · intro tx htx
      obtain ⟨row, hrow, rfl⟩ := List.mem_map.mp htx
      refine ⟨(ht.ordinary row hrow).2.1.checkTransaction_eq (ht.size row hrow), ?_⟩
      exact Int.ofNat_le.mpr (UInt32.le_iff_toNat_le.mp (htimes row.tx htx))
  · exact hb'.distinct ht hnode.hashes hknown rfl (hmade.not_isCoinBase hnode.records) hstake
  · have hle := hmade.sigOps_le hnode.curve hquiet
    have hsum := ht.sigOps
    rw [hb'.vtx, List.map_cons, List.map_cons, List.sum_cons, List.sum_cons, hnone, List.map_map]
    have hsame : (List.map (CTransaction.getLegacySigOpCount ∘ TemplateTx.tx) rows).sum =
        (rows.map fun row => row.tx.getLegacySigOpCount).sum := rfl
    omega

/-- The fees `ConnectBlock` counts are the fees of the template. -/
theorem Template.nFees_connected (ht : Template P S s b nFees coinBase rows) (hinj : Set.InjOn P.getHash S)
    (hi : ChainIndex P S chain s.txdb) (hstored : ChainStored s.files chain) {g : Globals} {txdb : CTxDB}
    {pindex : CBlockIndex} {pprev : BlockPtr} {first : CTransaction}
    (hb : ConnectsStake P S s g txdb pindex b' txCoinStake)
    (hvtx : b'.vtx = first :: txCoinStake :: rows.map TemplateTx.tx) (hfirst : first.isCoinBase = true)
    (hstake : txCoinStake.isCoinStake = true) {st : ConnectState}
    (hrun : b'.vtx.foldlM (CBlock.connectTx P g txdb pindex pprev false)
      (CBlock.connectStart pindex b' false) = .ok st) : st.nFees = nFees := by
  have htally := CBlock.tally_run hb.stored hb.checked hrun
  have hworth := hb.splits_worth hi hstored hrun
  have hsplits : splits b'.vtx =
      ([], first) :: ([first], txCoinStake) :: splitsFrom [first, txCoinStake] (rows.map TemplateTx.tx) := by
    rw [hvtx]
    rfl
  have hfees := @fees_of_template P S g txdb hinj rows [first, txCoinStake]
    (fun row hrow => ⟨ht.fee row hrow, (ht.ordinary row hrow).2.2⟩) fun p hp => by
      refine hworth p ?_
      rw [hsplits]
      exact List.mem_cons_of_mem _ (List.mem_cons_of_mem _ hp)
  have hno₁ : CBlock.isOrdinary first = false := by
    unfold CBlock.isOrdinary
    rw [hfirst]
    rfl
  have hno₂ : CBlock.isOrdinary txCoinStake = false := by
    unfold CBlock.isOrdinary
    rw [hstake, Bool.not_true, Bool.and_false]
  rw [htally.nFees_eq, ht.nFees_eq]
  congr 1
  unfold CBlock.feesOf
  rw [hsplits, List.map_cons, List.map_cons, List.sum_cons, List.sum_cons, hfees, hno₁, hno₂]
  dsimp only
  rw [if_neg Bool.false_ne_true, if_neg Bool.false_ne_true, Int.zero_add, Int.zero_add]

/-- What passes `CheckBlock` went together. -/
theorem Signed.fits (hb' : Signed P E b' coinBase (rows.map TemplateTx.tx) txCoinStake key)
    (hvtx : b.vtx = coinBase :: rows.map TemplateTx.tx) (hstake : txCoinStake.isCoinStake = true)
    (hcheck : b'.checkBlock P s.globals true true true = .ok ()) : Fits b txCoinStake b'.vchBlockSig := by
  obtain ⟨hsize, hstamp⟩ := CBlock.checkBlock_limits hb'.vtx hstake hcheck
  constructor
  · rw [hvtx]
    exact hb'.time_iff.mp hstamp
  · have hchecked := CBlock.checkBlock_ok P s.globals b' hcheck
    refine (hchecked.txs txCoinStake ?_).total
    rw [hb'.vtx]
    exact List.mem_cons_of_mem _ List.mem_cons_self
  · rw [← hb'.size_eq hvtx]
    exact hsize

/-- **When a staker accepts its own block.**  For every pool, every chain on disk and every wallet: what
    `CreateNewBlock` and `SignBlock` make passes `CheckBlock` and pays no more than the reward EXACTLY if the
    template and the coinstake that `CreateCoinStake` finds go together. -/
theorem signBlock_accepted_iff (F : Doubles D) (heap : Heap D) (args : MinerArgs)
    (hnode : StakerOk P S chain C E vMasterKey added s W) {pindexPrev : CBlockIndex} {below : BlockPtr}
    (hbest : s.pindexBest = pindexPrev :: below) (hheight : pindexPrev.nHeight + 1 < 2 ^ 31) {keyID : BitVec 160}
    {nLastCoinStakeSearchTime n : Int}
    (hcreate : createNewBlock P F heap args s true keyID = .ok (b, nFees))
    (hsigned : signBlock P C H E s W nLastCoinStakeSearchTime nFees b = .ok ⟨true, b', n⟩)
    (hsig : P.checkBlockSignature b' = checkBlockSignature P C E b') (hknown : ∀ tx ∈ b'.vtx, tx ∈ S) :
    Accepts P S s b' ↔ TemplateFits P C H E s W nLastCoinStakeSearchTime nFees b := by
  obtain ⟨nValue, rows, ht⟩ := createNewBlock_template F heap args hnode.hashes hnode.index hnode.stored hnode.pool
    hbest hheight hcreate
  have hwork : b.isProofOfStake = false := by
    unfold CBlock.isProofOfStake
    rw [ht.vtx]
    cases hrows : rows with
    | nil => rfl
    | cons row rows' => exact (ht.ordinary row (by rw [hrows]; exact List.mem_cons_self)).2.2.2
  obtain ⟨txCoinStake, key, hfound, hsign, hb'⟩ := signBlock_ok ht.vtx rfl hwork hsigned
  obtain ⟨kernel, inputs, nCoinAge, hmade⟩ := createCoinStake_ok hnode.records hfound
  have hstake := hmade.isCoinStake hnode.records
  constructor
  · intro haccepts coinBase rest tx key' vchBlockSig hvtx hother hsign'
    rw [ht.vtx] at hvtx
    cases hvtx
    rw [hfound] at hother
    cases hother
    rw [hsign] at hsign'
    cases hsign'
    exact hb'.fits ht.vtx hstake haccepts.check
  · intro hall
    have hfits := hall _ _ txCoinStake key _ ht.vtx hfound hsign
    have hreward : getProofOfStakeReward (int64 nCoinAge) nFees < 9223372036854775808 := int64_upper _
    -- there is a coin to stake, so the height takes two bytes
    have hlow : 17 ≤ pindexPrev.nHeight + 1 := by
      have hhigh := height_of_available (hmade.available kernel.coin hmade.kernel_mem)
      have hmaturity : 10 ≤ s.globals.nCoinbaseMaturity := by
        unfold Globals.nCoinbaseMaturity
        split
        · decide
        · decide
      rw [hbest] at hhigh
      have hhigh : s.globals.nCoinbaseMaturity + 10 ≤ (pindexPrev.nHeight : Int) + 1 := hhigh
      omega
    have hchecked := hnode.stakeChecked hlow hheight ht hmade hreward
      (createCoinStake_quiet hnode.curve hnode.signs hnode.keys hfound) (createCoinStake_time hnode.clock hfound)
      hb' hsig hknown hfits
    refine ⟨hchecked.checkBlock_eq, ?_⟩
    intro g txdb pindex pprev tx st hb hrun
    obtain ⟨first, others, hsecond⟩ := hb.second
    rw [hb'.vtx] at hsecond
    cases hsecond
    have hfees := ht.nFees_connected hnode.hashes hnode.index hnode.stored hb hb'.vtx rfl hstake hrun
    exact hmade.checkReward (hmade.lt_of_moneyRange hreward hfits.value) hnode.hashes hnode.records hnode.index
      hnode.stored hb hrun hfees

end Signed

end NodeState

/-! ## Two blocks of the staker: with an empty pool, and with a late transaction in it -/

deriving instance DecidableEq for NodeState.SignResult

namespace Forging

open Sample NodeState

/-- The tip with one transaction in the pool. -/
def tipLate : NodeState := { tipK20 with
  mempool := { tipK20.mempool with mapTx := tipK20.mempool.mapTx.insert (primitives.getHash late) late } }

theorem works : keyPrimitives.Works CCryptoKeyStore.TwoKeys.masterKey where
  length := CCryptoKeyStore.TwoKeys.works.length
  valid := CCryptoKeyStore.TwoKeys.works.valid
  masterKey := CCryptoKeyStore.TwoKeys.works.masterKey
  encrypts := CCryptoKeyStore.TwoKeys.works.encrypts
  decrypts := CCryptoKeyStore.TwoKeys.works.decrypts

theorem keys_sound : keys.Sound keyPrimitives CCryptoKeyStore.TwoKeys.masterKey [CCryptoKeyStore.TwoKeys.key1] :=
  (CCryptoKeyStore.Run.start.accept (.addKey CCryptoKeyStore.TwoKeys.key1) ⟨rfl, by decide⟩ (by decide)).sound
    works (by unfold CCryptoKeyStore.DistinctIds; decide)

theorem sigs_work : sigs.Works keyPrimitives := by
  have hsign : ∀ {key : CKey} {hash : Uint256} {vchSig : List UInt8}, sigs.sign key hash = some vchSig →
      key.vchPubKey = CCryptoKeyStore.TwoKeys.pubKey1 ∧ signatures.lookup hash = some vchSig := by
    intro key hash vchSig h
    unfold sigs at h
    dsimp only at h
    split at h
    · rename_i hkey
      exact ⟨hkey, h⟩
    · cases h
  have hsizes : ∀ e ∈ signatures, 0 < e.2.length ∧ e.2.length ≤ 72 := by decide
  constructor
  · intro key hash vchSig h
    obtain ⟨l₁, l₂, heq, -⟩ := List.lookup_eq_some_iff.mp (hsign h).2
    refine hsizes (hash, vchSig) ?_
    rw [heq]
    exact List.mem_append_right _ List.mem_cons_self
  · intro key hash vchSig h
    obtain ⟨hkey, hsig⟩ := hsign h
    have hvalid : (CKey.reset.setPubKey keyPrimitives key.vchPubKey).vchPubKey =
        CCryptoKeyStore.TwoKeys.pubKey1 := by
      rw [hkey]
      decide
    exact decide_eq_true ⟨hvalid, hsig⟩

/-- At the tip everything is as it should be, with either pool. -/
theorem stakerOk {s : NodeState} (htxdb : s.txdb = tipK20.txdb) (hfiles : s.files = tipK20.files)
    (htime : s.nAdjustedTime = nNow.toNat) (hpool : PoolReady primitives S s) : ∃ chain,
    StakerOk primitives S chain keyPrimitives sigs CCryptoKeyStore.TwoKeys.masterKey
      [CCryptoKeyStore.TwoKeys.key1] s staker := by
  obtain ⟨chain, hindex, hstored⟩ := onChainK20
  refine ⟨chain, tables.1, ?_, ?_, hpool, recordsOk, keys_sound, works, sigs_work, ?_⟩
  · rw [htxdb]
    exact hindex
  · rw [hfiles]
    exact hstored
  · rw [htime]
    decide

/-- What `CreateNewBlock` makes of the pool, and `SignBlock` of that. -/
def template (txs : List CTransaction) : CBlock where
  toCBlockHeader := unsignedBlock nNow 0
  vtx := { coinBaseStake with nTime := nNow } :: txs
  vchBlockSig := []

def stakeK21 : CBlock where
  toCBlockHeader := unsignedBlock nStakeTime 0xd9bf6b1753c9664fdd8d8ef12c8fd5e81ca06af4cd71504143636f008c4f394c
  vtx := [coinBaseStake, coinStake]
  vchBlockSig := (signatures.lookup 0xb9e265836bec6e10caa451db2984857be25cf7548774137778f161b558a8898c).getD []

def lateK21 : CBlock where
  toCBlockHeader := unsignedBlock nNow 0x4a28827ed87fd7e8911f3b44c4585628bf3c8be28c33998b7b261a7c9c39daf7
  vtx := [coinBaseStake, coinStakeFee, late]
  vchBlockSig := (signatures.lookup 0xb83c1bc1e874b82e0c493c9b1dfd3412803a04109f2abe32e169b379f58da9d4).getD []

set_option maxRecDepth 8000 in
theorem poolsReady : PoolReady primitives S tipK20 ∧ PoolReady primitives S tipLate :=
  ⟨.of_table (by decide), .of_table (by decide)⟩

set_option maxRecDepth 8000 in
/-- What is computed: the two templates and what is signed. -/
theorem templates : tipK20.pindexBest = indexK20 :: ptrK20.tail ∧
    ((unsigned tipK20.nAdjustedTime).toNat : Int) - (nNow.toNat - 60) = 60 ∧
    tipK20.createNewBlock primitives Ripening.wholes Ripening.front Ripening.miner true 0 =
      .ok (template [], 0) ∧
    signBlock primitives keyPrimitives kernelHashes sigs tipK20 staker (nNow.toNat - 60) 0 (template []) =
      .ok ⟨true, stakeK21, nNow.toNat - 60⟩ ∧
    tipLate.createNewBlock primitives Ripening.wholes Ripening.front Ripening.miner true 0 =
      .ok (template [late], COIN) ∧
    signBlock primitives keyPrimitives kernelHashes sigs tipLate staker (nNow.toNat - 60) COIN (template [late]) =
      .ok ⟨true, lateK21, nNow.toNat - 60⟩ := by
  decide

/-- The transaction pays a fee of one coin and is of this second; the coinstake was found ten seconds back. -/
theorem lateBlock_rejected : (∃ chain, StakerOk primitives S chain keyPrimitives sigs
      CCryptoKeyStore.TwoKeys.masterKey [CCryptoKeyStore.TwoKeys.key1] tipLate staker) ∧
    tipLate.createNewBlock primitives Ripening.wholes Ripening.front Ripening.miner true 0 =
      .ok (template [late], COIN) ∧
    signBlock primitives keyPrimitives kernelHashes sigs tipLate staker (nNow.toNat - 60) COIN (template [late]) =
      .ok ⟨true, lateK21, nNow.toNat - 60⟩ ∧
    primitives.checkBlockSignature lateK21 = checkBlockSignature primitives keyPrimitives sigs lateK21 ∧
    lateK21.checkBlock primitives tipLate.globals true true true =
      .error (.reject 50 "CheckBlock() : coinstake timestamp violation") :=
  ⟨stakerOk rfl rfl rfl poolsReady.2, templates.2.2.2.2.1, templates.2.2.2.2.2, by decide, by decide⟩

theorem signBlock_accepted_iff_emptyPool : Accepts primitives S tipK20 stakeK21 := by
  obtain ⟨chain, hnode⟩ := stakerOk rfl rfl (by decide) poolsReady.1
  obtain ⟨hbest, htime, hcreate, hsigned, -⟩ := templates
  refine (signBlock_accepted_iff Ripening.wholes Ripening.front Ripening.miner hnode
    hbest (by decide) hcreate hsigned (by decide) (by unfold S; decide)).mpr ?_
  intro coinBase rest tx key vchBlockSig hvtx hfound hsign
  rw [htime, show (template []).nBits = 0x1e0fffff from rfl, createCoinStake_staker.1] at hfound
  cases hfound
  refine ⟨fun tx htx => absurd htx List.not_mem_nil, by decide, ?_⟩
  have hlen := (sigs_work.length _ _ _ hsign).2
  have hcompact := getSizeOfCompactSize_le vchBlockSig.length
  have hrest : 80 + (getSizeOfCompactSize 2 + ([coinStake, { coinBaseStake with nTime := nNow }].map
      CTransaction.getSerializeSize).sum) ≤ 999000 := by decide
  show _ + (_ + _) ≤ 1000000
  exact (Nat.add_le_add hrest (Nat.add_le_add hcompact hlen)).trans (by decide)

end Forging
end Silkcoin
