/-
  What a coinstake of `CreateCoinStake` IS WORTH: what its inputs are worth, and the reward for their age.

  The routine counts in `int64_t`, over the wallet's own copies of the transactions it spends.
  `ConnectBlock` counts again, over the chain.  The two counts meet in the transactions themselves: the
  wallet's copy and the one on disk have the same hash, so they are the same.

  Everything that could go wrong in between is a loop: the search for the kernel (`searchCoins_ok`), the
  inputs that are added to it (`addInputs_ok`), and the signatures (`finishCoinStake_ok`), which change
  no time, no outpoint and no output, and so neither the coin age nor the kernel.
-/
import Silkcoin.BlockTemplate
import Silkcoin.IsMine
import Silkcoin.WalletRescan

namespace Silkcoin

open Validation BatchStore SpendLedger

/-! ## The coins of the wallet -/

/-- An output there is, of a transaction that passed `CheckTransaction`. -/
structure StakeCoin.Ok (S : Set CTransaction) (coin : StakeCoin) : Prop where
  known : coin.1 ∈ S
  checked : coin.1.checkTransaction = .ok ()
  there : coin.2.toNat < coin.1.vout.length

namespace StakeCoin.Ok

variable {S : Set CTransaction} {coin : StakeCoin}

theorem getElem? (h : coin.Ok S) : coin.1.vout[coin.2.toNat]? = some coin.txout := by
  unfold StakeCoin.txout
  rw [List.getElem?_eq_getElem h.there]
  rfl

theorem value_range (h : coin.Ok S) : 0 ≤ coin.nValue ∧ coin.nValue ≤ 200000000000000000 := by
  have hmem : coin.txout ∈ coin.1.vout := List.mem_of_getElem? h.getElem?
  exact moneyRange_iff.mp ((coin.1.checkTransaction_ok h.checked).values _ hmem)

/-- No transaction of legal size has so many outputs. -/
theorem prevout_not_isNull (P : Primitives) (h : coin.Ok S) : (coin.prevout P).isNull = false := by
  have hlen := vout_length_le h.checked
  have hthere := h.there
  have hmax : MAX_BLOCK_SIZE < 4294967295 := by decide
  unfold StakeCoin.prevout COutPoint.isNull
  rw [decide_eq_false_iff_not]
  rintro ⟨-, hn⟩
  have hn : coin.2 = 0xffffffff := hn
  rw [hn] at hthere
  have hbig : (0xffffffff : UInt32).toNat = 4294967295 := by decide
  omega

/-- Two coins with the same outpoint are the same. -/
theorem prevout_inj {P : Primitives} (hinj : Set.InjOn P.getHash S) {coin' : StakeCoin} (h : coin.Ok S)
    (h' : coin'.Ok S) (heq : coin.prevout P = coin'.prevout P) : coin = coin' := by
  obtain ⟨hhash, hn⟩ := COutPoint.mk.inj heq
  exact Prod.ext (hinj h.known h'.known hhash) hn

end StakeCoin.Ok

/-- The records of the wallet are transactions at hand that passed `CheckTransaction`. -/
def CWallet.RecordsOk (S : Set CTransaction) (w : CWallet) : Prop :=
  ∀ hash wtx, w.mapWallet.lookup hash = some wtx → wtx.tx ∈ S ∧ wtx.tx.checkTransaction = .ok ()

namespace NodeState

variable {P : Primitives} {S : Set CTransaction} {s : NodeState}

theorem availableCoinsMinConf_ok {w : CWallet} (hw : w.RecordsOk S) {nConf : Int} {coin : StakeCoin}
    (h : coin ∈ s.availableCoinsMinConf P w nConf) : coin.Ok S := by
  unfold availableCoinsMinConf at h
  obtain ⟨e, he, hcoin⟩ := List.mem_flatMap.mp h
  rw [List.mem_insertionSort] at he
  obtain ⟨hS, hchecked⟩ := hw e.1 e.2 (AList.mem_lookup_iff.mpr he)
  split at hcoin
  · cases hcoin
  · obtain ⟨i, hi, rfl⟩ := List.mem_map.mp hcoin
    have hlt := List.mem_range.mp (List.mem_of_mem_filter hi)
    exact ⟨hS, hchecked, Nat.lt_of_le_of_lt (Nat.mod_le _ _) hlt⟩

/-- The chosen coins are available, and none is chosen twice. -/
theorem selectCoins_ok (nTargetValue : Int) (nSpendTime : UInt32) : ∀ (l : List StakeCoin)
    (setCoins : List StakeCoin) (nValueRet : Int), setCoins.Nodup →
    (selectCoins nTargetValue nSpendTime l setCoins nValueRet).Nodup ∧
      ∀ coin ∈ selectCoins nTargetValue nSpendTime l setCoins nValueRet, coin ∈ setCoins ∨ coin ∈ l
  | [], setCoins, nValueRet, hnodup => ⟨hnodup, fun coin h => Or.inl h⟩
  | c :: l, setCoins, nValueRet, hnodup => by
    have ih := selectCoins_ok nTargetValue nSpendTime l
    -- a coin more, or not
    have hskip : ∀ {v : Int}, (selectCoins nTargetValue nSpendTime l setCoins v).Nodup ∧
        ∀ coin ∈ selectCoins nTargetValue nSpendTime l setCoins v, coin ∈ setCoins ∨ coin ∈ c :: l := by
      intro v
      obtain ⟨hn, hmem⟩ := ih setCoins v hnodup
      exact ⟨hn, fun coin h => (hmem coin h).imp_right (List.mem_cons_of_mem c)⟩
    have hinsert : ∀ coin, coin ∈ setCoins.insert c → coin ∈ setCoins ∨ coin ∈ c :: l := by
      intro coin h
      rcases List.mem_insert_iff.mp h with rfl | h
      · exact Or.inr List.mem_cons_self
      · exact Or.inl h
    unfold selectCoins
    split
    · exact ⟨hnodup, fun coin h => Or.inl h⟩
    split
    · exact hskip
    split
    · exact ⟨hnodup.insert, hinsert⟩
    split
    · obtain ⟨hn, hmem⟩ := ih (setCoins.insert c) (int64 (nValueRet + c.nValue)) hnodup.insert
      refine ⟨hn, fun coin h => ?_⟩
      rcases hmem coin h with h | h
      · exact hinsert coin h
      · exact Or.inr (List.mem_cons_of_mem c h)
    · exact hskip

theorem selectCoinsSimple_ok {setOrder : SetOrder} {w : CWallet} {nTargetValue nMinConf : Int}
    {nSpendTime : UInt32} : (s.selectCoinsSimple P setOrder w nTargetValue nSpendTime nMinConf).Nodup ∧
      ∀ coin ∈ s.selectCoinsSimple P setOrder w nTargetValue nSpendTime nMinConf,
        coin ∈ s.availableCoinsMinConf P w nMinConf := by
  have hperm := setOrder.order_perm
    (selectCoins nTargetValue nSpendTime (s.availableCoinsMinConf P w nMinConf) [] 0)
  obtain ⟨hnodup, hmem⟩ := selectCoins_ok nTargetValue nSpendTime (s.availableCoinsMinConf P w nMinConf)
    [] 0 List.nodup_nil
  refine ⟨hperm.nodup_iff.mpr hnodup, fun coin h => ?_⟩
  rcases hmem coin (hperm.mem_iff.mp h) with h | h
  · cases h
  · exact h

/-! ## The kernel that is found -/

variable {C : KeyPrimitives} {H : KernelHashes} {store : CCryptoKeyStore} {nBits nTime : UInt32}

/-- A coin whose kernel hash meets the target at the time of the coinstake, and a script of a key at
    hand. -/
structure KernelFound (P : Primitives) (s : NodeState) (C : KeyPrimitives) (H : KernelHashes)
    (store : CCryptoKeyStore) (nBits : UInt32) (kernel : StakeKernel) (key : CKey) : Prop where
  hash : ∃ txindex block hashProofOfStake,
    s.txdb.readTxIndex (P.getHash kernel.coin.1) = some txindex ∧
      s.files.readHeader txindex.pos.nFile txindex.pos.nBlockPos = some block ∧
      checkStakeKernelHash P H s.globals s.tree.mapBlockIndex s.mem nBits block
        (txindex.pos.nTxPos - txindex.pos.nBlockPos) kernel.coin.1 (kernel.coin.prevout P) kernel.nTime =
          .ok hashProofOfStake
  script : ∃ keyBefore, kernelScript C store kernel.coin.txout.scriptPubKey keyBefore =
    (key, some kernel.scriptPubKeyOut)

theorem orSkip_ok {α : Type} {x : Check α} {a : α} (h : orSkip x = .ok (some a)) : x = .ok a := by
  unfold orSkip at h
  split at h
  · cases h
    rfl
  · cases h
  · cases h

theorem searchTimes_ok {block : CBlockHeader} {txindex : CTxIndex} {coin : StakeCoin} {nTimeTx : UInt32}
    {script : CScript} {key' : CKey} : ∀ {l : List Nat} {key : CKey},
    searchTimes P s C H store nBits block txindex coin nTime l key = .ok (key', some (nTimeTx, script)) →
    (∃ hashProofOfStake, checkStakeKernelHash P H s.globals s.tree.mapBlockIndex s.mem nBits block
      (txindex.pos.nTxPos - txindex.pos.nBlockPos) coin.1 (coin.prevout P) nTimeTx = .ok hashProofOfStake) ∧
    (∃ keyBefore, kernelScript C store coin.txout.scriptPubKey keyBefore = (key', some script)) ∧
    ∃ n ∈ l, nTimeTx = nTime - UInt32.ofNat n
  | [], key, h => by
    unfold searchTimes at h
    cases h
  | n :: rest, key, h => by
    unfold searchTimes at h
    obtain ⟨found, hcheck, h⟩ := bind_ok.mp h
    cases found with
    | none =>
      obtain ⟨hhash, hscript, m, hm, heq⟩ := searchTimes_ok h
      exact ⟨hhash, hscript, m, List.mem_cons_of_mem n hm, heq⟩
    | some hashProofOfStake =>
      cases hk : kernelScript C store coin.txout.scriptPubKey key with
      | mk key₁ script₁ =>
        dsimp only at h
        rw [hk] at h
        cases script₁ with
        | none => cases h
        | some script₁ =>
          cases h
          exact ⟨⟨hashProofOfStake, orSkip_ok hcheck⟩, ⟨key, hk⟩, n, List.mem_cons_self, rfl⟩

/-- The kernel is of a coin there is, no later than now, and at most a minute earlier. -/
theorem searchCoins_ok {nSearchInterval : Int} {kernel : StakeKernel} {key' : CKey} :
    ∀ {l : List StakeCoin} {key : CKey},
    searchCoins P s C H store nBits nSearchInterval nTime l key = .ok (key', some kernel) →
    kernel.coin ∈ l ∧ KernelFound P s C H store nBits kernel key' ∧
      ∃ n < nMaxStakeSearchInterval, kernel.nTime = nTime - UInt32.ofNat n
  | [], key, h => by
    unfold searchCoins at h
    cases h
  | coin :: rest, key, h => by
    have hrest : ∀ {key₁ : CKey},
        searchCoins P s C H store nBits nSearchInterval nTime rest key₁ = .ok (key', some kernel) →
        kernel.coin ∈ coin :: rest ∧ KernelFound P s C H store nBits kernel key' ∧
          ∃ n < nMaxStakeSearchInterval, kernel.nTime = nTime - UInt32.ofNat n := by
      intro key₁ h
      obtain ⟨hmem, hfound⟩ := searchCoins_ok h
      exact ⟨List.mem_cons_of_mem coin hmem, hfound⟩
    unfold searchCoins at h
    split at h
    · exact hrest h
    rename_i txindex hindex
    split at h
    · exact hrest h
    rename_i block hheader
    split at h
    · exact hrest h
    obtain ⟨⟨key₁, found⟩, htimes, h⟩ := bind_ok.mp h
    cases found with
    | none => exact hrest h
    | some r =>
      obtain ⟨nTimeTx, script⟩ := r
      cases h
      obtain ⟨⟨hashProofOfStake, hhash⟩, hscript, n, hn, heq⟩ := searchTimes_ok htimes
      exact ⟨List.mem_cons_self, ⟨⟨txindex, block, hashProofOfStake, hindex, hheader, hhash⟩, hscript⟩,
        n, (List.mem_range.mp hn).trans_le (min_le_right _ _), heq⟩

/-! ## The inputs -/

/-- The value of coins. -/
def coinsValue (coins : List StakeCoin) : Int := (coins.map StakeCoin.nValue).sum

/-- The loop adds up without wrapping, to no more than may be staked; no coin comes in twice. -/
theorem addInputs_ok (kernel : StakeKernel) (nStakeable : Int) : ∀ (l inputs : List StakeCoin)
    (nCredit : Int), (∀ coin ∈ l, coin.Ok S) → nCredit = coinsValue inputs → 0 ≤ nCredit →
    nCredit ≤ 200000000000000000 → nCredit ≤ nStakeable → kernel.coin ∈ inputs → inputs.Nodup → l.Nodup →
    (∀ coin ∈ l, coin ∈ inputs → coin = kernel.coin) →
    ∃ more, (addInputs P s kernel nStakeable l inputs nCredit).1 = inputs ++ more ∧
      (∀ coin ∈ more, coin ∈ l) ∧ (inputs ++ more).Nodup ∧
      (addInputs P s kernel nStakeable l inputs nCredit).2 = coinsValue (inputs ++ more) ∧
      0 ≤ coinsValue (inputs ++ more) ∧ coinsValue (inputs ++ more) ≤ 200000000000000000 ∧
      coinsValue (inputs ++ more) ≤ nStakeable
  | [], inputs, nCredit, _, hsum, h0, hmax, hle, _, hnodup, _, _ => by
    refine ⟨[], ?_⟩
    rw [List.append_nil, ← hsum]
    exact ⟨rfl, fun coin h => absurd h List.not_mem_nil, hnodup, rfl, h0, hmax, hle⟩
  | coin :: l, inputs, nCredit, hok, hsum, h0, hmax, hle, hkernel, hnodup, hset, hnew => by
    obtain ⟨hcoin, hset⟩ := List.nodup_cons.mp hset
    have hstop : ∃ more, (inputs, nCredit).1 = inputs ++ more ∧ (∀ c ∈ more, c ∈ coin :: l) ∧
        (inputs ++ more).Nodup ∧ (inputs, nCredit).2 = coinsValue (inputs ++ more) ∧
        0 ≤ coinsValue (inputs ++ more) ∧ coinsValue (inputs ++ more) ≤ 200000000000000000 ∧
        coinsValue (inputs ++ more) ≤ nStakeable := by
      refine ⟨[], ?_⟩
      rw [List.append_nil, ← hsum]
      exact ⟨rfl, fun c h => absurd h List.not_mem_nil, hnodup, rfl, h0, hmax, hle⟩
    have hskip : ∃ more, (addInputs P s kernel nStakeable l inputs nCredit).1 = inputs ++ more ∧
        (∀ c ∈ more, c ∈ coin :: l) ∧ (inputs ++ more).Nodup ∧
        (addInputs P s kernel nStakeable l inputs nCredit).2 = coinsValue (inputs ++ more) ∧
        0 ≤ coinsValue (inputs ++ more) ∧ coinsValue (inputs ++ more) ≤ 200000000000000000 ∧
        coinsValue (inputs ++ more) ≤ nStakeable := by
      obtain ⟨more, h₁, h₂, h₃⟩ := addInputs_ok kernel nStakeable l inputs nCredit
        (fun c hc => hok c (List.mem_cons_of_mem coin hc)) hsum h0 hmax hle hkernel hnodup hset
        fun c hc => hnew c (List.mem_cons_of_mem coin hc)
      exact ⟨more, h₁, fun c hc => List.mem_cons_of_mem coin (h₂ c hc), h₃⟩
    have hvalue := (hok coin List.mem_cons_self).value_range
    have hthreshold : nStakeCombineThreshold = 100000000000 := by decide
    unfold addInputs
    split
    · rename_i hwanted
      split
      · exact hstop
      split
      · exact hstop
      rename_i hsmall
      -- below the threshold nothing wraps
      rw [int64_of_range (by omega) (by omega)]
      split
      · exact hstop
      split
      · exact hskip
      split
      · exact hskip
      -- another transaction than the kernel's, and so a new coin
      have hfresh : coin ∉ inputs := by
        intro hmem
        rw [hnew coin List.mem_cons_self hmem] at hwanted
        exact hwanted.2.2 rfl
      have hsum' : nCredit + coin.nValue = coinsValue (inputs ++ [coin]) := by
        unfold coinsValue at hsum ⊢
        rw [List.map_append, List.sum_append, ← hsum, List.map_singleton, List.sum_singleton]
      have hnodup' : (inputs ++ [coin]).Nodup := by
        rw [List.nodup_append]
        refine ⟨hnodup, List.nodup_singleton coin, ?_⟩
        intro a ha b hb heq
        rw [List.mem_singleton.mp hb] at heq
        exact hfresh (heq ▸ ha)
      have hnew' : ∀ c ∈ l, c ∈ inputs ++ [coin] → c = kernel.coin := by
        intro c hc hmem
        rcases List.mem_append.mp hmem with hmem | hmem
        · exact hnew c (List.mem_cons_of_mem coin hc) hmem
        · rw [List.mem_singleton.mp hmem] at hc
          exact absurd hc hcoin
      obtain ⟨more, h₁, h₂, h₃⟩ := addInputs_ok kernel nStakeable l (inputs ++ [coin])
        (nCredit + coin.nValue) (fun c hc => hok c (List.mem_cons_of_mem coin hc)) hsum'
        (by omega) (by omega) (by omega) (List.mem_append_left _ hkernel) hnodup' hset hnew'
      refine ⟨coin :: more, ?_, ?_, ?_⟩
      · rw [h₁, List.append_assoc]
        rfl
      · intro c hc
        rcases List.mem_cons.mp hc with rfl | hc
        · exact List.mem_cons_self
        · exact List.mem_cons_of_mem coin (h₂ c hc)
      · rw [List.append_cons]
        exact h₃
    · exact hskip

end NodeState

/-! ## The signatures -/

/-- Only the scripts of the inputs may differ. -/
structure CTransaction.SignedFrom (tx tx' : CTransaction) : Prop where
  nVersion : tx'.nVersion = tx.nVersion
  nTime : tx'.nTime = tx.nTime
  prevouts : tx'.prevouts = tx.prevouts
  vout : tx'.vout = tx.vout
  nLockTime : tx'.nLockTime = tx.nLockTime

namespace CTransaction.SignedFrom

variable {tx tx' tx'' : CTransaction}

theorem refl (tx : CTransaction) : tx.SignedFrom tx := ⟨rfl, rfl, rfl, rfl, rfl⟩

theorem trans (h : tx.SignedFrom tx') (h' : tx'.SignedFrom tx'') : tx.SignedFrom tx'' where
  nVersion := h'.nVersion.trans h.nVersion
  nTime := h'.nTime.trans h.nTime
  prevouts := h'.prevouts.trans h.prevouts
  vout := h'.vout.trans h.vout
  nLockTime := h'.nLockTime.trans h.nLockTime

end CTransaction.SignedFrom

namespace NodeState

variable {P : Primitives} {S : Set CTransaction} {s : NodeState} {C : KeyPrimitives} {H : KernelHashes}
  {E : Signatures} {W : StakeWallet} {nBits : UInt32}

theorem signSignature_ok {store : CCryptoKeyStore} {txFrom tx tx' : CTransaction} {nIn : Nat}
    (h : signSignature P C E store txFrom tx nIn = some tx') :
    tx.SignedFrom tx' ∧ P.verifySignature txFrom tx' nIn = true := by
  unfold signSignature at h
  simp only [Option.bind_eq_bind, Option.bind_eq_some_iff] at h
  obtain ⟨txin, htxin, txout, -, scriptSig, -, h⟩ := h
  obtain ⟨_, hverify, h⟩ := h
  cases h
  have hprevouts : (tx.vin.set nIn { txin with scriptSig := scriptSig }).map CTxIn.prevout =
      tx.vin.map CTxIn.prevout := by
    rw [List.map_set]
    refine List.ext_getElem? fun i => ?_
    rw [List.getElem?_set]
    split
    · rename_i heq
      subst heq
      rw [List.getElem?_map, htxin, List.length_map]
      rw [if_pos (List.getElem?_eq_some_iff.mp htxin).1]
      rfl
    · rfl
  exact ⟨⟨rfl, rfl, hprevouts, rfl, rfl⟩, (Option.guard_eq_some' _).mp hverify⟩

theorem finishCoinStake_ok {tx tx' : CTransaction} {inputs : List StakeCoin}
    (h : finishCoinStake P C E W tx inputs = some tx') :
    tx.SignedFrom tx' ∧ tx'.getSerializeSize < MAX_BLOCK_SIZE_GEN / 5 := by
  unfold finishCoinStake at h
  simp only [Option.bind_eq_bind, Option.bind_eq_some_iff] at h
  obtain ⟨signed, hfold, _, hsize, h⟩ := h
  obtain rfl := Option.some.inj h
  have hsigned : ∀ (l : List (StakeCoin × Nat)) (t : CTransaction),
      l.foldlM (fun tx input => signSignature P C E W.keys input.1.1 tx input.2) t = some signed →
        t.SignedFrom signed := by
    intro l
    induction l with
    | nil =>
      intro t ht
      obtain rfl := Option.some.inj ht
      exact CTransaction.SignedFrom.refl t
    | cons input l ih =>
      intro t ht
      rw [List.foldlM_cons] at ht
      obtain ⟨t', hstep, hrest⟩ := Option.bind_eq_some_iff.mp ht
      exact (signSignature_ok hstep).1.trans (ih t' hrest)
  exact ⟨hsigned _ _ hfold, (Option.guard_eq_some' _).mp hsize⟩

/-! ## The coin age -/

/-- The loop of `GetCoinAge`, over the outpoints. -/
def coinAgeOf (g : Globals) (txdb : CTxDB) (nTime : UInt32) (prevouts : List COutPoint) : Check Nat := do
  let bnCentSecond ← prevouts.foldlM (fun bnCentSecond prevout =>
    (⟨1, nTime, [], [], 0⟩ : CTransaction).addCoinAge g txdb bnCentSecond ⟨prevout, [], 0⟩) 0
  return getuint64 (((bnCentSecond * CENT).tdiv COIN).tdiv (24 * 60 * 60))

/-- Of a transaction that is no coinbase, only the time and the outpoints count. -/
theorem getCoinAge_eq {g : Globals} {txdb : CTxDB} {tx : CTransaction} (hcb : tx.isCoinBase = false) :
    tx.getCoinAge g txdb = coinAgeOf g txdb tx.nTime tx.prevouts := by
  unfold CTransaction.getCoinAge coinAgeOf CTransaction.prevouts
  rw [if_neg (by rw [hcb]; exact Bool.false_ne_true), List.foldlM_map]
  rfl

/-! ## What `CreateCoinStake` returns -/

/-- The coinstake of a kernel and its inputs, with `nReward` on top of what they are worth. -/
structure CoinStakeMade (P : Primitives) (s : NodeState) (C : KeyPrimitives) (H : KernelHashes)
    (W : StakeWallet) (nBits : UInt32) (kernel : StakeKernel) (inputs : List StakeCoin) (nCoinAge : Nat)
    (nReward : Int) (tx : CTransaction) (key : CKey) : Prop where
  kernel_found : KernelFound P s C H W.keys nBits kernel key
  first : inputs.head? = some kernel.coin
  available : ∀ coin ∈ inputs, coin ∈ s.availableCoinsMinConf P W.wallet (s.globals.nCoinbaseMaturity + 10)
  nodup : inputs.Nodup
  value_range : 0 ≤ coinsValue inputs ∧ coinsValue inputs ≤ 200000000000000000
  stakeable : coinsValue inputs ≤ int64 (W.nBalance - W.nReserveBalance)
  reserve : W.nReserveBalance < W.nBalance
  coinAge : coinAgeOf s.globals s.txdb kernel.nTime (inputs.map (StakeCoin.prevout P)) = .ok nCoinAge
  reward_pos : 0 < nReward
  signed : (unsignedCoinStake P kernel inputs
    (stakeOutputs kernel (int64 (coinsValue inputs + nReward)))).SignedFrom tx
  size : tx.getSerializeSize < MAX_BLOCK_SIZE_GEN / 5

/-- A transaction whose first input is an output there is, is no coinbase. -/
theorem unsignedCoinStake_not_isCoinBase {kernel : StakeKernel} {inputs : List StakeCoin}
    {vout : List CTxOut} (hok : kernel.coin.Ok S) (hfirst : inputs.head? = some kernel.coin) :
    (unsignedCoinStake P kernel inputs vout).isCoinBase = false := by
  cases inputs with
  | nil => cases hfirst
  | cons coin rest =>
    obtain rfl := Option.some.inj hfirst
    unfold unsignedCoinStake CTransaction.isCoinBase
    cases rest with
    | nil =>
      show ((kernel.coin.prevout P).isNull && _) = false
      rw [hok.prevout_not_isNull P, Bool.false_and]
    | cons coin' rest => rfl

theorem createCoinStake_ok (hw : W.wallet.RecordsOk S) {nSearchInterval nFees : Int} {tx : CTransaction}
    {key : CKey} (h : createCoinStake P s C H E W nBits nSearchInterval nFees = .ok (some (tx, key))) :
    ∃ kernel inputs nCoinAge, CoinStakeMade P s C H W nBits kernel inputs nCoinAge
      (getProofOfStakeReward (int64 nCoinAge) nFees) tx key := by
  unfold createCoinStake at h
  split at h
  · cases h
  rename_i hreserve
  obtain ⟨⟨key', found⟩, hsearch, h⟩ := bind_ok.mp h
  cases found with
  | none => cases h
  | some kernel =>
    obtain ⟨hnodup, havailable⟩ := selectCoinsSimple_ok (P := P) (s := s)
    obtain ⟨hmem, hfound, -⟩ := searchCoins_ok hsearch
    dsimp only at h
    split at h
    · cases h
    rename_i hvalue
    rw [not_or, not_lt] at hvalue
    have hok := fun coin hcoin => availableCoinsMinConf_ok hw (havailable coin hcoin)
    have hkernel := (hok _ hmem).value_range
    obtain ⟨more, hinputs, hmore, hdistinct, hcredit, h0, hmax, hle⟩ :=
      addInputs_ok (P := P) (s := s) kernel (int64 (W.nBalance - W.nReserveBalance)) _ [kernel.coin]
        kernel.coin.nValue hok (by rw [coinsValue, List.map_singleton, List.sum_singleton]) hkernel.1
        hkernel.2 hvalue.2 List.mem_cons_self (List.nodup_singleton _) hnodup
        fun coin _ hcoin => List.mem_singleton.mp hcoin
    rw [hinputs, hcredit] at h
    obtain ⟨age, hage, h⟩ := bind_ok.mp h
    cases age with
    | none => cases h
    | some nCoinAge =>
      dsimp only at h
      split at h
      · cases h
      rename_i hreward
      have hfirst : ([kernel.coin] ++ more).head? = some kernel.coin := rfl
      have hage := orSkip_ok hage
      rw [getCoinAge_eq (unsignedCoinStake_not_isCoinBase (hok _ hmem) hfirst)] at hage
      cases hfinish : finishCoinStake P C E W (unsignedCoinStake P kernel ([kernel.coin] ++ more)
          (stakeOutputs kernel (int64 (coinsValue ([kernel.coin] ++ more) +
            getProofOfStakeReward (int64 nCoinAge) nFees)))) ([kernel.coin] ++ more) with
      | none =>
        rw [hfinish] at h
        cases h
      | some tx' =>
        rw [hfinish] at h
        cases h
        obtain ⟨hsigned, hsize⟩ := finishCoinStake_ok hfinish
        refine ⟨kernel, [kernel.coin] ++ more, nCoinAge, hfound, hfirst, fun coin hcoin => ?_, hdistinct,
          ⟨h0, hmax⟩, hle, not_le.mp hreserve, ?_, not_le.mp hreward, hsigned, hsize⟩
        · rcases List.mem_append.mp hcoin with hcoin | hcoin
          · rw [List.mem_singleton.mp hcoin]
            exact havailable _ hmem
          · exact havailable _ (hmore coin hcoin)
        · rw [← hage]
          show _ = coinAgeOf _ _ _ ((List.map _ _).map CTxIn.prevout)
          rw [List.map_map]
          rfl

/-! ## The same chain, a block later -/

end NodeState

/-- Block files that hold what these hold, and perhaps more. -/
structure BlockFiles.Grown (files files' : BlockFiles) : Prop where
  tx : ∀ nFile nTxPos tx, files.tx nFile nTxPos = some tx → files'.tx nFile nTxPos = some tx
  header : ∀ nFile nBlockPos header, files.header nFile nBlockPos = some header →
    files'.header nFile nBlockPos = some header

namespace BlockFiles.Grown

variable {files files' : BlockFiles}

theorem readTx (h : files.Grown files') {pos : CDiskTxPos} {tx : CTransaction}
    (hread : files.readTx pos = some tx) : files'.readTx pos = some tx := by
  unfold BlockFiles.readTx at hread ⊢
  split at hread
  · rename_i hopen
    rw [if_pos hopen]
    exact h.tx _ _ _ hread
  · cases hread

theorem readHeader (h : files.Grown files') {nFile nBlockPos : UInt32} {header : CBlockHeader}
    (hread : files.readHeader nFile nBlockPos = some header) :
    files'.readHeader nFile nBlockPos = some header := by
  unfold BlockFiles.readHeader at hread ⊢
  split at hread
  · rename_i hopen
    rw [if_pos hopen]
    exact h.header _ _ _ hread
  · cases hread

end BlockFiles.Grown

section SameChain

variable {P : Primitives} {S : Set CTransaction} {chain : Chain}

/-- An entry of the chain's ledger is a transaction at hand, on disk. -/
theorem ChainIndex.readTx_of_mem {txdb : CTxDB} {files : BlockFiles} (hi : ChainIndex P S chain txdb)
    (hstored : ChainStored files chain) {d : TxEntry} (hd : d ∈ ledgerOf P chain) :
    ∃ tx ∈ S, P.getHash tx = d.id ∧ files.readTx d.pos = some tx ∧ d.pos ≠ CDiskTxPos.memoryPool := by
  obtain ⟨r, hr, rfl⟩ := List.mem_map.mp hd
  obtain ⟨c, hc, hr⟩ := List.mem_flatMap.mp hr
  obtain ⟨p, hp, rfl⟩ := List.mem_map.mp (List.mem_reverse.mp hr)
  obtain ⟨post, hsplit⟩ := mem_splitsFrom (List.nil_append _).symm hp
  obtain ⟨hread, hne⟩ := hstored c hc p.1 p.2 post hsplit
  exact ⟨p.2, hi.ok.known c hc p.2 (mem_splits_snd hp), rfl, hread, hne⟩

/-- Behind an entry of the index is a transaction at hand, and it is on disk. -/
theorem ChainIndex.readTx_of_entry {txdb : CTxDB} {files : BlockFiles} (hi : ChainIndex P S chain txdb)
    (hstored : ChainStored files chain) {hash : Uint256} {txindex : CTxIndex}
    (hindex : txdb.readTxIndex hash = some txindex) :
    ∃ tx ∈ S, P.getHash tx = hash ∧ files.readTx txindex.pos = some tx ∧
      txindex.pos ≠ CDiskTxPos.memoryPool := by
  obtain ⟨d, hd, hid, -, hpos, -⟩ := hi.refines.find_some hindex
  obtain ⟨tx, htx, hhash, hread, hne⟩ := hi.readTx_of_mem hstored hd
  rw [hpos]
  exact ⟨tx, htx, hhash.trans hid, hread, hne⟩

/-- A coin of the wallet whose transaction is in the index is read from disk as it is. -/
theorem StakeCoin.Ok.readPrevTx (hinj : Set.InjOn P.getHash S) {txdb : CTxDB} {files : BlockFiles}
    (hi : ChainIndex P S chain txdb) (hstored : ChainStored files chain) {coin : StakeCoin}
    (hok : coin.Ok S) {txindex : CTxIndex}
    (hindex : txdb.readTxIndex (P.getHash coin.1) = some txindex) :
    txdb.readPrevTx files (coin.prevout P) = some (coin.1, txindex) := by
  obtain ⟨tx, htx, hhash, hread, -⟩ := hi.readTx_of_entry hstored hindex
  obtain rfl := hinj htx hok.known hhash
  have hindex : txdb.readTxIndex (coin.prevout P).hash = some txindex := hindex
  unfold CTxDB.readPrevTx
  rw [hindex]
  dsimp only
  rw [hread]
  exact if_neg (not_le.mpr hok.there)

/-- A coin age that was calculated is calculated again on the same chain. -/
theorem coinAgeOf_again {g g' : Globals} {txdb txdb' : CTxDB} (hi : ChainIndex P S chain txdb)
    (hstored : ChainStored g.files chain) (hT : g'.fTestNet = g.fTestNet)
    (hfiles : g.files.Grown g'.files) (hindex : ∀ hash, txdb'.readTxIndex hash = txdb.readTxIndex hash)
    {nTime : UInt32} {prevouts : List COutPoint} {nCoinAge : Nat}
    (h : NodeState.coinAgeOf g txdb nTime prevouts = .ok nCoinAge) :
    NodeState.coinAgeOf g' txdb' nTime prevouts = .ok nCoinAge := by
  have hminAge : g'.nStakeMinAge = g.nStakeMinAge := by
    unfold Globals.nStakeMinAge
    rw [hT]
  have hprev : ∀ prevout, txdb'.readPrevTx g'.files prevout = txdb.readPrevTx g.files prevout := by
    intro prevout
    unfold CTxDB.readPrevTx
    rw [hindex]
    cases hentry : txdb.readTxIndex prevout.hash with
    | none => rfl
    | some txindex =>
      obtain ⟨tx, -, -, hread, -⟩ := hi.readTx_of_entry hstored hentry
      dsimp only
      rw [hread, hfiles.readTx hread]
  unfold NodeState.coinAgeOf at h ⊢
  obtain ⟨bnCentSecond, hfold, hage⟩ := bind_ok.mp h
  refine bind_ok.mpr ⟨bnCentSecond, foldlM_ok_mono ?_ hfold, hage⟩
  intro prevout _ n n' hstep
  unfold CTransaction.addCoinAge at hstep ⊢
  dsimp only at hstep ⊢
  rw [hprev]
  cases hread : txdb.readPrevTx g.files prevout with
  | none =>
    rw [hread] at hstep
    exact hstep
  | some r =>
    obtain ⟨txPrev, txindex⟩ := r
    rw [hread] at hstep
    obtain ⟨u, htime, hstep⟩ := bind_ok.mp hstep
    refine bind_ok.mpr ⟨u, htime, ?_⟩
    cases hheader : g.files.readHeader txindex.pos.nFile txindex.pos.nBlockPos with
    | none =>
      rw [hheader] at hstep
      cases hstep
    | some header =>
      rw [hheader] at hstep
      rw [hfiles.readHeader hheader, hminAge]
      exact hstep

end SameChain

/-! ## The outputs -/

namespace NodeState

variable {P : Primitives} {S : Set CTransaction} {chain : Chain} {s : NodeState} {C : KeyPrimitives}
  {H : KernelHashes} {E : Signatures} {W : StakeWallet} {nBits : UInt32} {kernel : StakeKernel}
  {inputs : List StakeCoin} {nCoinAge : Nat} {nReward : Int} {tx : CTransaction} {key : CKey}

/-- The credit goes to the script of the kernel, on the whole or in two parts. -/
def PaysOut (scriptPubKey : CScript) (nCredit : Int) (vout : List CTxOut) : Prop :=
  vout = [⟨0, []⟩, ⟨nCredit, scriptPubKey⟩] ∨
    ∃ nHalf nRest, vout = [⟨0, []⟩, ⟨nHalf, scriptPubKey⟩, ⟨nRest, scriptPubKey⟩] ∧
      nHalf + nRest = nCredit ∧ 0 ≤ nHalf ∧ 0 ≤ nRest

theorem paysOut_stakeOutputs (kernel : StakeKernel) {nCredit : Int} (h0 : 0 ≤ nCredit)
    (hmax : nCredit < 9223372036854775808) :
    PaysOut kernel.scriptPubKeyOut nCredit (⟨0, []⟩ :: stakeOutputs kernel nCredit) := by
  unfold stakeOutputs
  split
  · -- half of it, rounded down to cents
    have hcent : CENT = 1000000 := rfl
    have hhalf : (nCredit.tdiv 2).tdiv CENT = nCredit / 2 / 1000000 := by
      rw [Int.tdiv_eq_ediv_of_nonneg h0, hcent, Int.tdiv_eq_ediv_of_nonneg (by omega)]
    dsimp only
    rw [hhalf, hcent, int64_of_range (by omega) (by omega)]
    refine Or.inr ⟨_, _, rfl, ?_, ?_, ?_⟩ <;> omega
  · exact Or.inl rfl

theorem PaysOut.valueOut {scriptPubKey : CScript} {nCredit : Int} {vout : List CTxOut}
    (h : PaysOut scriptPubKey nCredit vout) (h0 : 0 ≤ nCredit) :
    (vout.map CTxOut.nValue).sum = nCredit ∧ ∀ txout ∈ vout, 0 ≤ txout.nValue := by
  rcases h with rfl | ⟨nHalf, nRest, rfl, hsum, hhalf, hrest⟩
  · refine ⟨?_, ?_⟩
    · simp only [List.map_cons, List.map_nil, List.sum_cons, List.sum_nil]
      omega
    · simp only [List.forall_mem_cons]
      exact ⟨Int.le_refl 0, h0, fun txout htxout => absurd htxout List.not_mem_nil⟩
  · refine ⟨?_, ?_⟩
    · simp only [List.map_cons, List.map_nil, List.sum_cons, List.sum_nil]
      omega
    · simp only [List.forall_mem_cons]
      exact ⟨Int.le_refl 0, hhalf, hrest, fun txout htxout => absurd htxout List.not_mem_nil⟩

namespace CoinStakeMade

variable (h : CoinStakeMade P s C H W nBits kernel inputs nCoinAge nReward tx key)

include h

theorem prevouts_eq : tx.prevouts = inputs.map (StakeCoin.prevout P) := by
  rw [h.signed.prevouts]
  show (List.map _ _).map CTxIn.prevout = _
  rw [List.map_map]
  rfl

theorem kernel_mem : kernel.coin ∈ inputs := List.mem_of_mem_head? h.first

theorem input_ok (hw : W.wallet.RecordsOk S) {coin : StakeCoin} (hcoin : coin ∈ inputs) : coin.Ok S :=
  availableCoinsMinConf_ok hw (h.available coin hcoin)

theorem vin_eq : ∃ txin rest, tx.vin = txin :: rest ∧ txin.prevout = kernel.coin.prevout P := by
  have hprevouts := h.prevouts_eq
  have hfirst := h.first
  unfold CTransaction.prevouts at hprevouts
  cases hin : inputs with
  | nil =>
    rw [hin] at hfirst
    cases hfirst
  | cons coin rest =>
    rw [hin] at hfirst hprevouts
    obtain rfl := Option.some.inj hfirst
    cases hvin : tx.vin with
    | nil =>
      rw [hvin] at hprevouts
      cases hprevouts
    | cons txin rest' =>
      rw [hvin, List.map_cons, List.map_cons] at hprevouts
      exact ⟨txin, rest', rfl, (List.cons.inj hprevouts).1⟩

theorem isCoinStake (hw : W.wallet.RecordsOk S) : tx.isCoinStake = true := by
  obtain ⟨txin, rest, hvin, hprevout⟩ := h.vin_eq
  have hnull := (h.input_ok hw h.kernel_mem).prevout_not_isNull P
  have hvout : tx.vout = ⟨0, []⟩ :: stakeOutputs kernel (int64 (coinsValue inputs + nReward)) :=
    h.signed.vout
  rw [← hprevout] at hnull
  obtain ⟨txout, more, houts⟩ : ∃ txout more,
      stakeOutputs kernel (int64 (coinsValue inputs + nReward)) = txout :: more := by
    unfold stakeOutputs
    split
    · exact ⟨_, _, rfl⟩
    · exact ⟨_, _, rfl⟩
  unfold CTransaction.isCoinStake
  rw [hvin, hvout, houts]
  show (!txin.prevout.isNull && true) = true
  rw [hnull]
  rfl

theorem not_isCoinBase (hw : W.wallet.RecordsOk S) : tx.isCoinBase = false := by
  by_contra hcb
  have hcs := tx.not_isCoinStake_of_isCoinBase (by simpa using hcb)
  rw [h.isCoinStake hw] at hcs
  cases hcs

theorem getCoinAge_eq (hw : W.wallet.RecordsOk S) (g : Globals) (txdb : CTxDB) :
    tx.getCoinAge g txdb = coinAgeOf g txdb kernel.nTime (inputs.map (StakeCoin.prevout P)) := by
  rw [NodeState.getCoinAge_eq (h.not_isCoinBase hw), h.prevouts_eq, h.signed.nTime]
  rfl

theorem paysOut (hmax : coinsValue inputs + nReward < 9223372036854775808) :
    PaysOut kernel.scriptPubKeyOut (coinsValue inputs + nReward) tx.vout := by
  have hvout : tx.vout = ⟨0, []⟩ :: stakeOutputs kernel (int64 (coinsValue inputs + nReward)) :=
    h.signed.vout
  have h0 := h.value_range.1
  have hpos := h.reward_pos
  rw [hvout, int64_of_range (by omega) hmax]
  exact paysOut_stakeOutputs kernel (by omega) hmax

/-- The kernel is found again where `CheckProofOfStake` looks for it, and it meets the target. -/
theorem checkProofOfStake_eq (hinj : Set.InjOn P.getHash S) (hw : W.wallet.RecordsOk S)
    (hi : ChainIndex P S chain s.txdb) (hstored : ChainStored s.files chain) :
    ∃ txPrev txindex prevout block hashProofOfStake,
      tx.prevouts.head? = some prevout ∧
      s.txdb.readPrevTx s.files prevout = some (txPrev, txindex) ∧
      s.files.readHeader txindex.pos.nFile txindex.pos.nBlockPos = some block ∧
      checkStakeKernelHash P H s.globals s.tree.mapBlockIndex s.mem nBits block
        (txindex.pos.nTxPos - txindex.pos.nBlockPos) txPrev prevout tx.nTime = .ok hashProofOfStake ∧
      checkProofOfStake P H s.globals s.tree.mapBlockIndex s.mem s.txdb tx nBits =
        if P.verifySignature txPrev tx 0 then .ok hashProofOfStake
        else .error (.reject 100 "CheckProofOfStake() : VerifySignature failed on coinstake") := by
  obtain ⟨txin, rest, hvin, hprevout⟩ := h.vin_eq
  obtain ⟨⟨txindex, block, hashProofOfStake, hindex, hheader, hhash⟩, -⟩ := h.kernel_found
  have hread := (h.input_ok hw h.kernel_mem).readPrevTx hinj hi hstored hindex
  have hprevouts : tx.prevouts.head? = some (kernel.coin.prevout P) := by
    unfold CTransaction.prevouts
    rw [hvin, List.map_cons, hprevout]
    rfl
  have hnTime : tx.nTime = kernel.nTime := h.signed.nTime
  refine ⟨_, _, _, _, _, hprevouts, hread, hheader, by rw [hnTime]; exact hhash, ?_⟩
  have hread : s.txdb.readPrevTx s.globals.files (kernel.coin.prevout P) = some (kernel.coin.1, txindex) :=
    hread
  have hheader : s.globals.files.readHeader txindex.pos.nFile txindex.pos.nBlockPos = some block := hheader
  unfold checkProofOfStake readKernel
  rw [h.isCoinStake hw, require_true, ok_bind, hvin]
  dsimp only
  rw [hprevout, hread]
  dsimp only
  rw [hheader, hnTime]
  cases P.verifySignature kernel.coin.1 tx 0 with
  | false => rfl
  | true =>
    rw [require_true, ok_bind]
    show orFail (checkStakeKernelHash P H s.globals _ _ nBits block _ _ _ _) _ = _
    rw [hhash]
    rfl

end CoinStakeMade

/-! ## The reward, counted again -/

/-- A block with the coinstake `tx` in second place, where it is connected on the chain of `s`: the
    files have grown by it, and the index shows the same. -/
structure ConnectsStake (P : Primitives) (S : Set CTransaction) (s : NodeState) (g : Globals)
    (txdb : CTxDB) (pindex : CBlockIndex) (b : CBlock) (tx : CTransaction) : Prop where
  fTestNet : g.fTestNet = s.fTestNet
  files : s.files.Grown g.files
  index : ∀ hash, txdb.readTxIndex hash = s.txdb.readTxIndex hash
  stored : CBlock.Stored pindex b g.files
  known : ∀ t ∈ b.vtx, t ∈ S
  second : ∃ coinBase others, b.vtx = coinBase :: tx :: others
  checked : b.BlockChecked P

/-- The outputs the coinstake spends are worth to the block what they are worth to the wallet. -/
theorem CoinStakeMade.valueIn_eq (h : CoinStakeMade P s C H W nBits kernel inputs nCoinAge nReward tx key)
    (hinj : Set.InjOn P.getHash S) (hw : W.wallet.RecordsOk S) (hi : ChainIndex P S chain s.txdb)
    (hstored : ChainStored s.files chain) {g : Globals} {txdb : CTxDB} {pindex : CBlockIndex}
    {pprev : BlockPtr} {b : CBlock} (hb : ConnectsStake P S s g txdb pindex b tx)
    {coinBase : CTransaction} {others : List CTransaction} (hvtx : b.vtx = coinBase :: tx :: others)
    {st : ConnectState} (hrun : b.vtx.foldlM (CBlock.connectTx P g txdb pindex pprev false)
      (CBlock.connectStart pindex b false) = .ok st) :
    CBlock.valueIn P g txdb ([coinBase], tx) = coinsValue inputs := by
  have hcb := h.not_isCoinBase hw
  -- the coinbase is connected, and then the coinstake
  rw [hvtx, List.foldlM_cons] at hrun
  obtain ⟨s₁, hfirst, hrun⟩ := bind_ok.mp hrun
  rw [List.foldlM_cons] at hrun
  obtain ⟨s₂, hsecond, -⟩ := bind_ok.mp hrun
  have hmem₁ : coinBase ∈ b.vtx := by rw [hvtx]; exact List.mem_cons_self
  have hmem₂ : tx ∈ b.vtx := by rw [hvtx]; exact List.mem_cons_of_mem _ List.mem_cons_self
  have h₁ := CBlock.connectTx_ok (hb.checked.txs _ hmem₁) hfirst
  have h₂ := CBlock.connectTx_ok (hb.checked.txs _ hmem₂) hsecond
  unfold CBlock.valueIn coinsValue
  rw [if_neg (by rw [hcb]; exact Bool.false_ne_true), h.prevouts_eq, List.map_map]
  congr 1
  refine List.map_congr_left fun coin hcoin => ?_
  have hok := h.input_ok hw hcoin
  have hprevout : coin.prevout P ∈ tx.prevouts := by
    rw [h.prevouts_eq]
    exact List.mem_map_of_mem hcoin
  obtain ⟨txindex₁, txPrev₁, q, hview, -⟩ := h₂.unspent hcb _ hprevout
  have hvalue : ((coin.1.vout[coin.2.toNat]?).map CTxOut.nValue).getD 0 = coin.nValue := by
    rw [hok.getElem?]
    rfl
  show ((CBlock.prevOut P g txdb [coinBase] (coin.prevout P)).map CTxOut.nValue).getD 0 = coin.nValue
  rw [← hvalue]
  congr 2
  unfold CBlock.prevOut
  by_cases hsame : P.getHash coinBase = P.getHash coin.1
  · -- it spends the coinbase of the block itself
    obtain rfl := hinj (hb.known _ hmem₁) hok.known hsame
    rw [List.find?_cons_of_pos (by exact decide_eq_true rfl)]
    rfl
  · rw [List.find?_cons_of_neg (by exact fun hf => hsame (of_decide_eq_true hf)), List.find?_nil]
    -- the output is unspent in the index, so there is an entry
    have hview : indexView txdb s₁.mapQueuedChanges (P.getHash coin.1) = some txindex₁ := hview
    rw [h₁.view_eq, if_neg hsame] at hview
    obtain ⟨txindex, hentry, -⟩ := Option.map_eq_some_iff.mp hview
    have hentry : txdb.readTxIndex (P.getHash coin.1) = some txindex := hentry
    obtain ⟨txPrev, hknown, hhash, hread, hne⟩ := hi.readTx_of_entry hstored
      ((hb.index _).symm.trans hentry)
    obtain rfl := hinj hknown hok.known hhash
    have hprev : CTransaction.prevTxOf g (P.getHash coin.1) txindex = .ok coin.1 := by
      unfold CTransaction.prevTxOf
      rw [if_neg hne, hb.files.readTx hread]
    dsimp only [StakeCoin.prevout]
    rw [hentry]
    dsimp only
    rw [hprev]

/-- **The reward check passes**, if the block has the fees the coinstake was made for. -/
theorem CoinStakeMade.checkReward {nFees : Int} (h : CoinStakeMade P s C H W nBits kernel inputs nCoinAge
      (getProofOfStakeReward (int64 nCoinAge) nFees) tx key)
    (hmax : coinsValue inputs + getProofOfStakeReward (int64 nCoinAge) nFees < 9223372036854775808)
    (hinj : Set.InjOn P.getHash S) (hw : W.wallet.RecordsOk S) (hi : ChainIndex P S chain s.txdb)
    (hstored : ChainStored s.files chain) {g : Globals} {txdb : CTxDB} {pindex : CBlockIndex}
    {pprev : BlockPtr} {b : CBlock} (hb : ConnectsStake P S s g txdb pindex b tx) {st : ConnectState}
    (hrun : b.vtx.foldlM (CBlock.connectTx P g txdb pindex pprev false)
      (CBlock.connectStart pindex b false) = .ok st) (hfees : st.nFees = nFees) :
    CBlock.checkReward g txdb b st = .ok () := by
  obtain ⟨coinBase, others, hvtx⟩ := hb.second
  have hcs := h.isCoinStake hw
  have hpos : b.isProofOfStake = true := by
    unfold CBlock.isProofOfStake
    rw [hvtx]
    exact hcs
  have hwork : b.isProofOfWork = false := by
    unfold CBlock.isProofOfWork
    rw [hpos]
    rfl
  have htally := CBlock.tally_run hb.stored hb.checked hrun
  have hvalue := h.valueIn_eq hinj hw hi hstored hb hvtx hrun
  -- there is no other coinstake
  have hothers : ∀ t ∈ others, t.isCoinStake = false := by
    obtain ⟨coinBase', coinStake', others', hvtx', -, -, hothers⟩ := hb.checked.coinstake hpos
    rw [hvtx] at hvtx'
    cases hvtx'
    exact hothers
  have h0 := h.value_range.1
  have hreward := h.reward_pos
  have hpaid := (h.paysOut hmax).valueOut (by omega)
  have hstake : st.nStakeReward = getProofOfStakeReward (int64 nCoinAge) nFees := by
    rw [htally.nStakeReward_eq, hvtx, CBlock.stakeOf_second hcs hothers, hvalue,
      show tx.valueOut = _ from hpaid.1, add_sub_cancel_left, int64_of_range (by omega) (by omega)]
  have hage : tx.getCoinAge g txdb = .ok nCoinAge := by
    rw [h.getCoinAge_eq hw]
    exact coinAgeOf_again hi hstored hb.fTestNet hb.files hb.index h.coinAge
  unfold CBlock.checkReward
  rw [hvtx, hwork]
  dsimp only
  rw [if_neg Bool.false_ne_true, hage]
  show require _ _ = _
  rw [hstake, hfees, decide_eq_true (lt_irrefl _), require_true]

/-! ## The coinstake -/

/-- What a coinstake that is to be put into a block with target `nBits` and fees `nFees` has to be. -/
structure StakeSound (P : Primitives) (S : Set CTransaction) (H : KernelHashes) (s : NodeState)
    (W : StakeWallet) (nBits : UInt32) (nFees : Int) (tx : CTransaction) : Prop where
  isCoinStake : tx.isCoinStake = true
  /-- the kernel is what `CheckProofOfStake` makes of it: all but the signature is certain -/
  kernel : ∃ txPrev txindex prevout block hashProofOfStake,
    tx.prevouts.head? = some prevout ∧
    s.txdb.readPrevTx s.files prevout = some (txPrev, txindex) ∧
    s.files.readHeader txindex.pos.nFile txindex.pos.nBlockPos = some block ∧
    checkStakeKernelHash P H s.globals s.tree.mapBlockIndex s.mem nBits block
      (txindex.pos.nTxPos - txindex.pos.nBlockPos) txPrev prevout tx.nTime = .ok hashProofOfStake ∧
    checkProofOfStake P H s.globals s.tree.mapBlockIndex s.mem s.txdb tx nBits =
      if P.verifySignature txPrev tx 0 then .ok hashProofOfStake
      else .error (.reject 100 "CheckProofOfStake() : VerifySignature failed on coinstake")
  /-- its inputs are the wallet's coins, and leave the reserve alone -/
  value : ∃ (inputs : List StakeCoin) (nCoinAge : Nat),
    tx.prevouts = inputs.map (StakeCoin.prevout P) ∧
    (∀ coin ∈ inputs,
      coin ∈ s.availableCoinsMinConf P W.wallet (s.globals.nCoinbaseMaturity + 10)) ∧
    coinsValue inputs ≤ W.nBalance - W.nReserveBalance ∧
    tx.getCoinAge s.globals s.txdb = .ok nCoinAge ∧
    -- unless the sum of inputs and reward is no `int64_t`
    (coinsValue inputs + getProofOfStakeReward (int64 nCoinAge) nFees < 2 ^ 63 →
      tx.valueOut = coinsValue inputs + getProofOfStakeReward (int64 nCoinAge) nFees ∧
      (∀ txout ∈ tx.vout, 0 ≤ txout.nValue) ∧
      (∃ scriptPubKey, PaysOut scriptPubKey
        (coinsValue inputs + getProofOfStakeReward (int64 nCoinAge) nFees) tx.vout) ∧
      -- and the block that has it can be connected, if its fees are these
      ∀ g txdb pindex pprev b st, ConnectsStake P S s g txdb pindex b tx →
        b.vtx.foldlM (CBlock.connectTx P g txdb pindex pprev false) (CBlock.connectStart pindex b false) =
          .ok st → st.nFees = nFees → CBlock.checkReward g txdb b st = .ok ())

theorem CoinStakeMade.sound {nFees : Int} (h : CoinStakeMade P s C H W nBits kernel inputs nCoinAge
      (getProofOfStakeReward (int64 nCoinAge) nFees) tx key) (hinj : Set.InjOn P.getHash S)
    (hw : W.wallet.RecordsOk S) (hi : ChainIndex P S chain s.txdb) (hstored : ChainStored s.files chain) :
    StakeSound P S H s W nBits nFees tx := by
  refine ⟨h.isCoinStake hw, h.checkProofOfStake_eq hinj hw hi hstored, inputs, nCoinAge, h.prevouts_eq,
    h.available, ?_, ?_, ?_⟩
  · have hstakeable := h.stakeable
    have hreserve := h.reserve
    have hle := int64_le (x := W.nBalance - W.nReserveBalance) (by omega)
    omega
  · rw [h.getCoinAge_eq hw]
    exact h.coinAge
  · intro hmax
    have hmax : coinsValue inputs + getProofOfStakeReward (int64 nCoinAge) nFees < 9223372036854775808 :=
      hmax
    have h0 := h.value_range.1
    have hreward := h.reward_pos
    have hpays := h.paysOut hmax
    obtain ⟨hsum, hnonneg⟩ := hpays.valueOut (by omega)
    refine ⟨hsum, hnonneg, ⟨_, hpays⟩, ?_⟩
    intro g txdb pindex pprev b st hb hrun hfees
    exact h.checkReward hmax hinj hw hi hstored hb hrun hfees

/-- **`CreateCoinStake` makes a coinstake its own rules accept.**  For every wallet of checked
    transactions, every connected chain that is on disk, and all fees. -/
theorem createCoinStake_sound (hinj : Set.InjOn P.getHash S) (hi : ChainIndex P S chain s.txdb)
    (hstored : ChainStored s.files chain) (hw : W.wallet.RecordsOk S) {nSearchInterval nFees : Int}
    (h : createCoinStake P s C H E W nBits nSearchInterval nFees = .ok (some (tx, key))) :
    StakeSound P S H s W nBits nFees tx := by
  obtain ⟨kernel, inputs, nCoinAge, hmade⟩ := createCoinStake_ok hw h
  exact hmade.sound hinj hw hi hstored

end NodeState

/-! ## A staker -/

namespace Forging

open Sample NodeState

/-- Pays to the first key. -/
def keyScript : CScript := pushData CCryptoKeyStore.TwoKeys.pubKey1 ++ [OP_CHECKSIG]

def hashKeyScript : Uint160 := 0x4fd60ff432e6e8cdaae17afcd7eb07f651c6fdde

/-- Pays to the hash of the script above. -/
def hashScript : CScript :=
  [0xa9, 0x14] ++ (List.range 20).map (fun i => UInt8.ofNat (hashKeyScript.toNat / 256 ^ i)) ++ [0x87]

/-- Nonce, coinbase hash, block hash, flags, stake modifier and its checksum. -/
def forged : List (UInt32 × Uint256 × Uint256 × UInt32 × BitVec 64 × UInt32) :=
  [(16859, 0x31cb66729a88f8169b453e2a1c00f3ccb7a8468406096e90acd1c6cc09f3ec15,
      0x000025b9c74870fb58ec468032803e57af3f4f81ad992c00022232128cd86d6d, 2, 0, 0xd322d8c6),
    (25622, 0xf710b45253eb921f261aa1af9b80033737deb9555a3794b590a72fe49326238a,
      0x0000e7bb6a3b1e6478bcb62491f9bfe324b2184da775a9687e69f1f56ff068cb, 2, 0, 0xa563c64c),
    (48902, 0xafd01a98e46b2f1dc33b3994a1a6f23705b850fdec6782692d2dafbb2bf36cba,
      0x000005711acc58f216cf7a35c30ae84a2a4770d4a548babefa93b6d95c1a6d09, 6, 6, 0xc66409b0),
    (28286, 0x8a70dd09b46d39e735b101f963a039e85327269a17208b6e92a66764e25f0f54,
      0x0000dbad8eaf5dfeee463decc383d97664a2fadf1eaba6231ccfe0bc8ad819ee, 0, 6, 0x4a0b8e59),
    (14430, 0x90accec5f2868a21c9e15db705f9889f4b73d7a688fa704d907c873aa3535ab7,
      0x0000cec4822df154c669088f2712da2ef6671a3dae4f1f482af8fe1b48ca9891, 2, 6, 0x3ae8af6a),
    (20178, 0x2d3869c7a260d9c22f848db84cfdddb9632ba3873ea000a80d3306870f311f8d,
      0x000014057b20d55fd17211f050ab8774d5829a217591949529a950fa36a1ca54, 0, 6, 0x242be8cf),
    (55048, 0x62cad2b2b5366ab9a564f6f0ea02c14543833dd7190a2c64d0c1de16791fcee6,
      0x00009813ca32893c850a156ff36575841dbc3657ad851c36b4b1120ed140d20f, 2, 6, 0x14f03597),
    (32265, 0x42497553c7c2c61dd0b49c6c1ce3b9320ceee221079585aa5031e28316de19a5,
      0x00001844c25d64596f0f9151e5aaa953f02b3c9bcb024493c96114bd0e0068dc, 0, 6, 0x5fee9247),
    (12560, 0x744092bf5a4e126f7a4cf9bc4afab04531f7ea819284f339028dba5cf192ea29,
      0x00005815d834e09c7f9ecd349f4d94b2845f25b25fd329b2a22187d0f7632a82, 0, 6, 0x55e194df),
    (184309, 0x5bbbf384e8d0e664f37906860066e970ee7dea09e29a5c06a0c01cd6988ff190,
      0x0000a3f2a749ed3cfe5a53add617761315efd64f5f86f6f694d9a4f82b1b271f, 2, 6, 0x993da6f8),
    (14627, 0x6293e4719e9ddc055e8dd0c003701657eeb9312dec88c64f4e09bf3f021f7158,
      0x00001d1f7d80398248c8bd0d1c801e2cb0599add43e64187e92f65acf21d4c39, 2, 6, 0x3260c64c),
    (192732, 0xb87687a00e28d7080f525f028ae374dcac5e99e19ff2e64b2d5cf5a510a650d0,
      0x00006006ca366952090670cc082ece22855f65d77c18d4e3455be90514ab3dba, 0, 6, 0xe92e26cf),
    (1663, 0x5859b9e5c8267a67d53c7d17ec530f77b6139144458a8a81c03d554c6cde58f2,
      0x0000eafa5f862cc55536aafb40f5c28459169149eb69485771437a5d6df9d93a, 4, 3246, 0xb181a98e),
    (13605, 0x068a2c9ee8885bb336ede927f8e5ae6c83c0f7ef619bb6b0be1ecc4ab0e6b252,
      0x00008a38a3e5911b3331b68f4d07e2ef90947615e6208d1b9fb366b0e8e0f716, 0, 3246, 0x878ff8be),
    (9037, 0xb8c25177c894bf095292649fc5564220536602bb4ac46ef6a3d5e11ca40d39e8,
      0x0000773f14f728155fb247225dc9f9fdb28ecf8a52108c169940cc346a74dacb, 2, 3246, 0xa074bfed),
    (12244, 0x4d8102d82423ae96129caf017ae4e289923817150eb687a5c42fb1f542a3ccfc,
      0x0000b4565d652532197bb5166141ed01988ceac04a644be3098e34ca1665643c, 0, 3246, 0xd915b603),
    (5079, 0x5e629a54f36b97475040c33d54503c67193821ae6434f74461d26c129f91dfb2,
      0x000040133625faf5fc792f6c14fc43705feec3d9201962d910f417bb2c617f82, 0, 3246, 0xd264010f),
    (93554, 0x5593918e53a80de96339f1b3030fea5c161341be077674ee4e7b8af769000457,
      0x0000b3dc7211e35b7f857240dd0a7c712fb49cb866307e94fa5a3486e6b52e1f, 2, 3246, 0xd17a98ac),
    (4302, 0x1fa1810c0cd5417f878bb7276b8482867e6150eb4d76b94683275bd6c12214e0,
      0x00001370aa94f12ee526249dab35292367f3bf1b0a0f7b3fa21e3fa4ad0eeb54, 0, 3246, 0x29342a50),
    (183593, 0xc4dda98f0fb6ec750b9040677ef4b084e7cca75b178fec5321e2f16d416a6786,
      0x000013ed6f252ab0eeb8a6ea730d7e8b596c1eb1db7b49fc512590886bcc4afd, 6, 0, 0x24780668)]

/-- A block a minute, and three days before the last but one.  The first coinbase pays to the key, and a
    coin to the script hash; the others to anyone. -/
def forge (chain : Chain) (row : UInt32 × Uint256 × Uint256 × UInt32 × BitVec 64 × UInt32) : Chain :=
  let prev := (chain.head?.map ChainBlock.pindex).getD genesis
  let nHeight := prev.nHeight + 1
  let nTime := if nHeight ≤ 18 then 1398947338 + 60 * UInt32.ofNat nHeight
    else 1399206538 + 60 * UInt32.ofNat (nHeight - 19)
  let coinBase := coinBaseTx nTime (pushInt64 nHeight ++ [0x46]) (5000 * COIN)
  let coinBase := if nHeight = 1 then
      { coinBase with vout := [⟨4999 * COIN, keyScript⟩, ⟨COIN, hashScript⟩] }
    else coinBase
  let b := Ripening.testBlock prev.hashBlock row.2.1 row.1 coinBase []
  ⟨{ entryOn prev (UInt32.ofNat (300 * nHeight)) row.2.2.1 b with
      nFlags := row.2.2.2.1
      nStakeModifier := row.2.2.2.2.1
      nStakeModifierChecksum := row.2.2.2.2.2 }, b⟩ :: chain

def chainK20 : Chain := forged.foldl forge []

def ptrK20 : BlockPtr := Chain.ptr [genesis] chainK20

def indexK20 : CBlockIndex := (ptrK20.head?).getD genesis

/-- The hash of the coinbase of block `nHeight`. -/
def hashCoinBase (nHeight : Nat) : Uint256 := ((forged[nHeight - 1]?).map fun row => row.2.1).getD 0

def coinBaseOf (nHeight : Nat) : CTransaction :=
  (((chainK20[20 - nHeight]?).bind fun c => c.block.vtx.head?)).getD (coinBaseTx 0 [] 0)

/-- The time of the coinstake. -/
def nStakeTime : UInt32 := 1399206775

/-- Ten seconds later. -/
def nNow : UInt32 := 1399206785

/-- A coinstake of the first output, with `nReward`. -/
def stake (nReward : Int) (scriptSig : CScript) : CTransaction where
  nVersion := 1
  nTime := nStakeTime
  vin := [⟨⟨hashCoinBase 1, 0⟩, scriptSig, 0xffffffff⟩]
  vout := [⟨0, []⟩, ⟨4999 * COIN + nReward, keyScript⟩]
  nLockTime := 0


/-- What is signed, and the signature: of the coinstake without a fee, and with a fee of one coin. -/
def hashToSign : Uint256 := 0xa5042e3d4afe40971e64ebb39065d330ad80efc9209d7c43116b42124acbe0ff

def vchSig : List UInt8 :=
  [
    0x30, 0x44, 0x02, 0x20, 0x79, 0x96, 0x14, 0x7b, 0x22, 0xa7, 0xb6, 0x8f, 0x7c, 0x85, 0x4e, 0xd9,
    0xbb, 0xa9, 0x41, 0xc9, 0x48, 0x0a, 0x27, 0x10, 0x31, 0xcb, 0x86, 0xc1, 0xfc, 0x38, 0xa3, 0x18,
    0x5d, 0x04, 0xb1, 0xe3, 0x02, 0x20, 0x3b, 0x32, 0x2d, 0xe0, 0x1e, 0x63, 0xbe, 0x8e, 0xa0, 0xeb,
    0xa8, 0x79, 0x75, 0x63, 0x8d, 0xb9, 0x14, 0x16, 0xeb, 0x40, 0xe6, 0x45, 0x43, 0x43, 0xf0, 0xc2,
    0xb5, 0x94, 0xd6, 0x83, 0x98, 0xc9]

def hashToSignFee : Uint256 := 0x9c7cbd64d29aef70aeafca68720095665f75e60185862f0b80119d3358d33819

def vchSigFee : List UInt8 :=
  [
    0x30, 0x44, 0x02, 0x20, 0x0d, 0x73, 0x4f, 0xe5, 0xd0, 0x91, 0x62, 0xff, 0xf9, 0xe6, 0xb3, 0xe7,
    0x1e, 0xdc, 0x2b, 0x53, 0xbc, 0x53, 0x7a, 0x8f, 0xde, 0x7a, 0x0f, 0x5b, 0x74, 0xa7, 0x96, 0x0f,
    0x9d, 0x21, 0xfb, 0x05, 0x02, 0x20, 0x13, 0x3f, 0x9c, 0x9e, 0xf9, 0x87, 0x31, 0xf0, 0x5c, 0x5b,
    0xae, 0x2e, 0x49, 0x53, 0x52, 0xb1, 0x37, 0x7d, 0xf2, 0x17, 0x95, 0xcb, 0x1d, 0x95, 0x5b, 0xc1,
    0x30, 0x0f, 0x6c, 0xf5, 0xaf, 0x91]

def nReward : Int := 82175557

def coinStake : CTransaction := stake nReward (pushData (vchSig ++ [SIGHASH_ALL]))

def coinStakeFee : CTransaction := stake (nReward + COIN) (pushData (vchSigFee ++ [SIGHASH_ALL]))

/-- The coinbase of the block of either. -/
def coinBaseStake : CTransaction where
  nVersion := 1
  nTime := nStakeTime
  vin := [⟨COutPoint.null, pushInt64 21, 0xffffffff⟩]
  vout := [⟨0, []⟩]
  nLockTime := 0

/-- A transaction that spends the second coinbase, as late as can be, with a fee of one coin. -/
def late : CTransaction :=
  Ripening.spend (hashCoinBase 2) nNow (4999 * COIN) 0

def txs : List (CTransaction × Uint256) :=
  [(coinStake, 0xf2556e56b36971537e6d496ba110715f26a9181d5d1094132cf003b398cd8ff7),
    (coinStakeFee, 0xe58990d3766bd1ed5a1e52572e8a0231b196aac147f2183640710c2d3d5c4435),
    (coinBaseStake, 0x9d0e5f4e407459e6da34c9adc27e2f94b97aa9d01417ae7bc96ca602e1e97e73),
    (late, 0x7788031f7e0483fd29366472e5c5e4796aa1121b625eaeff737cf7b6ff764119)] ++
  chainK20.map fun c => ((c.block.vtx.head?).getD late, c.block.hashMerkleRoot)

/-- The merkle trees of the two blocks. -/
def pairs : List ((Uint256 × Uint256) × Uint256) :=
  [((0x9d0e5f4e407459e6da34c9adc27e2f94b97aa9d01417ae7bc96ca602e1e97e73, 0xf2556e56b36971537e6d496ba110715f26a9181d5d1094132cf003b398cd8ff7),
      0xd9bf6b1753c9664fdd8d8ef12c8fd5e81ca06af4cd71504143636f008c4f394c),
    ((0x9d0e5f4e407459e6da34c9adc27e2f94b97aa9d01417ae7bc96ca602e1e97e73, 0xe58990d3766bd1ed5a1e52572e8a0231b196aac147f2183640710c2d3d5c4435),
      0x0741b0efed1961e515d8af6250fc66d28c6325b4b9391e4caf94ec4dbcb4d6aa),
    ((0x7788031f7e0483fd29366472e5c5e4796aa1121b625eaeff737cf7b6ff764119, 0x7788031f7e0483fd29366472e5c5e4796aa1121b625eaeff737cf7b6ff764119),
      0x260c3e598a13a341a72709fef6fea3c2b4a94590fc9f54fedd47c2ec1197ccc1),
    ((0x0741b0efed1961e515d8af6250fc66d28c6325b4b9391e4caf94ec4dbcb4d6aa, 0x260c3e598a13a341a72709fef6fea3c2b4a94590fc9f54fedd47c2ec1197ccc1),
      0x4a28827ed87fd7e8911f3b44c4585628bf3c8be28c33998b7b261a7c9c39daf7)]

/-- The block of a coinstake, without its signature. -/
def unsignedBlock (nTime : UInt32) (hashMerkleRoot : Uint256) : CBlockHeader where
  nVersion := 6
  hashPrevBlock := indexK20.hashBlock
  hashMerkleRoot := hashMerkleRoot
  nTime := nTime
  nBits := 0x1e0fffff
  nNonce := 0

def headers : List (CBlockHeader × Uint256) :=
  [(unsignedBlock nStakeTime
      0xd9bf6b1753c9664fdd8d8ef12c8fd5e81ca06af4cd71504143636f008c4f394c,
      0xb9e265836bec6e10caa451db2984857be25cf7548774137778f161b558a8898c),
    (unsignedBlock nNow
      0x4a28827ed87fd7e8911f3b44c4585628bf3c8be28c33998b7b261a7c9c39daf7,
      0xb83c1bc1e874b82e0c493c9b1dfd3412803a04109f2abe32e169b379f58da9d4)]

def primitives : Primitives := Primitives.ofTables txs
  (headers ++ chainK20.map fun c => (c.block.toCBlockHeader, c.pindex.hashBlock)) pairs

/-- The proof hashes of the last seconds. -/
def proofs : List (UInt32 × Uint256) :=
  [(1399206785, 0x662866e64bd29c1d203de8239fa3faaf3a7cf34faeefd91a28c8488c0a7bc5ec),
    (1399206784, 0xd22781536d0c5f26a571412245169633f70f087cbcb514e9f4311f3a782fe3e4),
    (1399206783, 0x49c6d2f319e8d0f127e43e3bbe0404eafb30f01ab26f37d07d5b6972266120a9),
    (1399206782, 0x981ab9ca2dc3ffec634774383c068e289a9f5ec40aa798b5b50a662262e80146),
    (1399206781, 0xbeaa0796613c3c34608a6377572e2be8b20a47685440591b51a83cb78389b1f5),
    (1399206780, 0xb35438fcc20996e0347736d3f891986fbdf3502d45c8011ecab09420de32d038),
    (1399206779, 0xc7b73fd81d89a04c7f24199e8c7281707a8b6de588fdf51ad61f9da68a4c8cfc),
    (1399206778, 0xa0dd6712d181832e1d22fb5bf355690dff2ebdaf8a835fdeeaa0da229a8ad510),
    (1399206777, 0xbc5cb41f6ebda73460652d4a52ea6e311ea34f26fc81bff0d8e8ba7c617baa70),
    (1399206776, 0x9a408710b1f638f26a761a0057d1eca661aff06b89ccc2881a2b9476e1ed0d1b),
    (1399206775, 0x01f5b9c5a0efdb604077d8729d7e1de3c3379b15173d9689c6022854f83e85d7)]

/-- Only the kernel of the first output is asked for, with the modifier of the last block. -/
def kernelHashes : KernelHashes where
  selection _ _ := 0
  proof nStakeModifier nTimeBlockFrom nTxPrevOffset nTimeTxPrev n nTimeTx :=
    if (nStakeModifier, nTimeBlockFrom, nTxPrevOffset, nTimeTxPrev, n) = (0, 1398947398, 81, 1398947398, 0)
    then (proofs.lookup nTimeTx).getD 0 else 0
  checksum _ _ _ _ := 0

/-- The signatures of the two coinstakes and their two blocks. -/
def signatures : List (Uint256 × List UInt8) :=
  [(hashToSign, vchSig), (hashToSignFee, vchSigFee),
    (0xb9e265836bec6e10caa451db2984857be25cf7548774137778f161b558a8898c,
      [
        0x30, 0x44, 0x02, 0x20, 0x58, 0x42, 0x3b, 0x5f, 0x44, 0x55, 0x26, 0xc0, 0xea, 0x90, 0x44,
        0x59, 0xa4, 0x66, 0x6d, 0x40, 0x03, 0x5f, 0x32, 0xad, 0xf9, 0xbb, 0x25, 0xd2, 0xd9, 0xf6,
        0x56, 0x47, 0x1f, 0x39, 0x5a, 0xb8, 0x02, 0x20, 0x07, 0xa0, 0xb1, 0x2f, 0xd8, 0xcb, 0x8c,
        0x96, 0xfe, 0x4e, 0xa8, 0xcc, 0x89, 0x95, 0x6e, 0x98, 0x56, 0x09, 0xd6, 0xab, 0x74, 0xe5,
        0xdf, 0xcc, 0x0d, 0x29, 0x3d, 0x64, 0x42, 0xfc, 0x0e, 0x61]),
    (0xb83c1bc1e874b82e0c493c9b1dfd3412803a04109f2abe32e169b379f58da9d4,
      [
        0x30, 0x44, 0x02, 0x20, 0x0d, 0x4c, 0x48, 0x77, 0x87, 0x1c, 0x89, 0x04, 0x3a, 0x59, 0x72,
        0x4f, 0x27, 0xac, 0xeb, 0x74, 0xbc, 0x5b, 0xf2, 0xa2, 0x2e, 0xe7, 0xa4, 0x95, 0x09, 0x8d,
        0x3b, 0x96, 0x2d, 0x6d, 0x0e, 0x35, 0x02, 0x20, 0x4c, 0x9f, 0x6a, 0x7c, 0x87, 0x9f, 0xc2,
        0x91, 0xb6, 0xbd, 0x12, 0x3e, 0x3b, 0x89, 0xb8, 0xd5, 0x4b, 0x96, 0xf9, 0x9d, 0x5c, 0x15,
        0x79, 0xd1, 0x3e, 0xf7, 0x69, 0x34, 0x6b, 0x74, 0xa1, 0xd4])]

def sigs : Signatures where
  sign key hash := if key.vchPubKey = CCryptoKeyStore.TwoKeys.pubKey1 then signatures.lookup hash else none
  verify key hash vchSig := decide (key.vchPubKey = CCryptoKeyStore.TwoKeys.pubKey1 ∧ signatures.lookup hash = some vchSig)
  signatureHash _ tx _ :=
    ([(stake nReward [], hashToSign), (stake (nReward + COIN) [], hashToSignFee)].lookup tx).getD 0

/-- The keys of the sample, and the hash of the script. -/
def keyPrimitives : KeyPrimitives := { CCryptoKeyStore.TwoKeys.primitives with
  hash160 := fun vch =>
    if vch = keyScript then hashKeyScript else CCryptoKeyStore.TwoKeys.primitives.hash160 vch }

/-- The first key. -/
def keys : CCryptoKeyStore :=
  (CCryptoKeyStore.empty.step keyPrimitives CCryptoKeyStore.TwoKeys.masterKey
    (.addKey CCryptoKeyStore.TwoKeys.key1)).2

/-- A test node on genesis, with the blocks on disk. -/
def node : NodeState where
  fTestNet := true
  nAdjustedTime := nNow.toNat
  files := filesOf chainK20
  tree := { treeUpTo [] with
    mapBlockIndex := ptrK20.tails.dropLast.foldr (fun ptr m => m.insert
      ((ptr.head?.map CBlockIndex.hashBlock).getD 0) ptr) ∅ }
  mem := freshMem
  txdb := emptyDb.writeHashBestChain hashGenesisBlock
  pindexGenesisBlock := [genesis]
  hashBestChain := hashGenesisBlock
  pindexBest := [genesis]
  nBestHeight := 0
  nBestChainTrust := genesis.nChainTrust
  nBestInvalidTrust := 0
  mempool := CTxMemPool.clear
  wallets := []
  commits := []

def S : Set CTransaction := { t | t ∈ txs.map Prod.fst }

/-- The tables are sound, and what is on disk is what was put there. -/
theorem tables : Set.InjOn primitives.getHash S ∧ ChainStored node.files chainK20 ∧
    NodeState.TreeOk primitives S node :=
  NodeState.TreeOk.of_tables (fun ptr => ({ node.globals with pindexBest := ptr }, treeUpTo ptr)) rfl
    (by decide)

/-- The twenty blocks connected. -/
def atK20 : NodeState := (((NodeState.pathTo [genesis] ptrK20).reverse.foldlM
  (NodeState.connectPostponed primitives) node).toOption).getD node

/-- The tip published. -/
def tipK20 : NodeState := atK20.publish ptrK20 indexK20.hashBlock

/-- What is computed: the twenty blocks are connected, their entries are in the tree, and what the
    database says of the tip. -/
theorem runK20 : ((NodeState.pathTo [genesis] ptrK20).reverse.foldlM
      (NodeState.connectPostponed primitives) node).isOk = true ∧
    (∀ ptr ∈ (NodeState.pathTo [genesis] ptrK20).reverse, node.tree.mapBlockIndex.lookup
      ((ptr.head?.map CBlockIndex.hashBlock).getD 0) = some ptr) ∧
    node.txdb.readHashBestChain =
      (Chain.ptr node.pindexGenesisBlock []).head?.map CBlockIndex.hashBlock := by
  decide

/-- The node is on a chain that is on disk. -/
theorem onChainK20 : ∃ chain, ChainIndex primitives S chain tipK20.txdb ∧
    ChainStored tipK20.files chain := by
  obtain ⟨hascends, -⟩ := NodeState.ascends_pathTo (chainK20.map ChainBlock.pindex) [genesis]
  obtain ⟨hinj, -, htree⟩ := tables
  obtain ⟨hconnect, hlookup, hbest⟩ := runK20
  have hin : ∀ ptr ∈ (NodeState.pathTo [genesis] ptrK20).reverse, NodeState.InTree node ptr :=
    fun ptr hptr => ⟨_, hlookup ptr hptr⟩
  have hon : NodeState.OnChain primitives S node [] := ⟨.start readTxIndex_genesisDb, hbest, rfl, trivial⟩
  have hconnectK20 : (NodeState.pathTo [genesis] ptrK20).reverse.foldlM
      (NodeState.connectPostponed primitives) node = .ok atK20 := eq_ok_getD hconnect _
  obtain ⟨chain, hrun, -⟩ := CleanRun.connectPostponed (.start htree hon rfl) rfl htree hon
    hascends hin hconnectK20
  have hbuilt := (hrun.state hinj).1.onChain.toBuilt
  exact ⟨chain, hbuilt.run.index hinj, hbuilt.stored⟩

/-- The first coinbase, as the wallet has it. -/
def recordK1 : CWalletTx := { CWalletTx.ofTx (coinBaseOf 1) with
  hashBlock := (forged.head?.map fun row => row.2.2.1).getD 0
  nIndex := 0 }

def keystore : CKeyStore := ⟨keys, ∅⟩

/-- A staker with the first coinbase, and no reserve. -/
def staker : StakeWallet where
  wallet := {
    isMine := keystore.isMine keyPrimitives
    nMinimumInputValue := 0
    mapWallet := AList.insert (hashCoinBase 1) recordK1 ∅
    nOrderPosNext := 1
    acentries := [] }
  keys := keys
  nBalance := 4999 * COIN
  nReserveBalance := 0
  setOrder := ⟨id, fun l => List.Perm.refl l⟩

/-- It stakes the coin with the reward of its age; the record's place in its block is right. -/
theorem createCoinStake_staker : createCoinStake primitives tipK20 keyPrimitives kernelHashes sigs staker
      0x1e0fffff 60 0 = .ok (some (coinStake, CCryptoKeyStore.TwoKeys.key1)) ∧
    coinBaseOf 1 ∈ txs.map Prod.fst := by
  decide

theorem recordsOk : staker.wallet.RecordsOk S := by
  obtain ⟨-, hknown⟩ := createCoinStake_staker
  intro hash wtx hlookup
  have hlookup : ((∅ : StdMap Uint256 CWalletTx).insert (hashCoinBase 1) recordK1).lookup hash =
    some wtx := hlookup
  rw [lookup_insert_eq_ite] at hlookup
  split at hlookup
  · obtain rfl := Option.some.inj hlookup
    exact ⟨hknown, by decide⟩
  · cases hlookup

theorem createCoinStake_sound_staker : ∃ tx key, createCoinStake primitives tipK20 keyPrimitives
      kernelHashes sigs staker 0x1e0fffff 60 0 = .ok (some (tx, key)) ∧
    StakeSound primitives S kernelHashes tipK20 staker 0x1e0fffff 0 tx := by
  obtain ⟨chain, hindex, hstored⟩ := onChainK20
  obtain ⟨hstake, -⟩ := createCoinStake_staker
  obtain ⟨hinj, -⟩ := tables
  exact ⟨_, _, hstake, createCoinStake_sound hinj hindex hstored recordsOk hstake⟩

end Forging
end Silkcoin
