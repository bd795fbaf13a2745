/-
  `CSignatureCache` and `CheckSig` of script.cpp: what has been verified once is not verified again.

  The cache is ONE static object behind all calls.  A call looks (signature hash, signature, public key) up
  after the hash type is taken off the signature, and puts the same triple in after it has verified.  When
  there are more than `-maxsigcachesize` entries, random ones are evicted first.  The limit is read again
  with every call.

  What is verified depends on the triple alone (`verifies`), and nothing goes into the cache that was not
  verified (`Recall.Sound`).  So a call answers what it would answer without a cache, `checkSig`, whatever
  the calls before it were.
-/
import Silkcoin.Lib.Recall
import Silkcoin.SignSignature

namespace Silkcoin

namespace Standard

open SignatureHash

/-! ## The cache -/

/-- `sigdata_type`: signature hash, signature and public key. -/
abbrev SigData : Type := Uint256 × List UInt8 × List UInt8

/-- The order of `std::set`, component by component. -/
def SigData.le (a b : SigData) : Prop :=
  a.1 < b.1 ∨ (a.1 = b.1 ∧ (a.2.1 < b.2.1 ∨ (a.2.1 = b.2.1 ∧ ¬ b.2.2 < a.2.2)))

instance : DecidableRel SigData.le := fun a b => by unfold SigData.le; infer_instance

structure CSignatureCache where
  /-- without repetition; in order only where the order matters -/
  setValid : List SigData

namespace CSignatureCache

def empty : CSignatureCache := ⟨[]⟩

variable (cache : CSignatureCache)

def get (hash : Uint256) (vchSig pubKey : List UInt8) : Bool :=
  decide ((hash, vchSig, pubKey) ∈ cache.setValid)

/-- `lower_bound` of the random hash with nothing behind it, or the first entry if there is none. -/
def lowerBound (randomHash : Uint256) (setValid : List SigData) : Option SigData :=
  let sorted := setValid.insertionSort SigData.le
  (sorted.find? fun entry => randomHash ≤ entry.1).or sorted.head?

/-- `Set`.  `GetRandHash` gives `rand` turn by turn. -/
def set (nMaxCacheSize : Int) (rand : ℕ → Uint256) (hash : Uint256) (vchSig pubKey : List UInt8) :
    CSignatureCache :=
  if nMaxCacheSize ≤ 0 then cache
  else
    let setValid := Recall.evict (fun turn => lowerBound (rand turn)) nMaxCacheSize.toNat
      cache.setValid.length 0 cache.setValid
    ⟨setValid.insert (hash, vchSig, pubKey)⟩

end CSignatureCache

/-! ## `CheckSig` with it -/

/-- What one call is given, the limit in force, and the random hashes it may draw. -/
structure CheckSigCall where
  vchSig : List UInt8
  vchPubKey : List UInt8
  scriptCode : CScript
  txTo : CTransaction
  nIn : ℕ
  nHashType : Int
  nMaxCacheSize : Int
  rand : ℕ → Uint256

section Cached

variable (E : SignPrimitives)

/-- Key and signature fit the hash. -/
def verifies (k : SigData) : Bool :=
  if E.validPubKey k.2.2 then E.verify (CKey.reset.setPubKey E.toKeyPrimitives k.2.2) k.1 k.2.1 else false

/-- `CheckSig`: the answer, and the cache it leaves. -/
def cachedCheckSig (cache : CSignatureCache) (c : CheckSigCall) : Bool × CSignatureCache :=
  match c.vchSig.getLast? with
  | none => (false, cache)
  | some back =>
    if c.nHashType ≠ 0 ∧ c.nHashType ≠ back.toNat then (false, cache)
    else
      let vchSig := c.vchSig.dropLast
      let sighash := signatureHash E.hash c.scriptCode c.txTo c.nIn (BitVec.ofNat 32 back.toNat)
      if cache.get sighash vchSig c.vchPubKey then (true, cache)
      else if ¬ E.validPubKey c.vchPubKey then (false, cache)
      else if ¬ E.verify (CKey.reset.setPubKey E.toKeyPrimitives c.vchPubKey) sighash vchSig then
        (false, cache)
      else (true, cache.set c.nMaxCacheSize c.rand sighash vchSig c.vchPubKey)

/-- The cache after these calls, the first one on an empty cache. -/
def cacheAfter (history : List CheckSigCall) : CSignatureCache :=
  history.foldl (fun cache c => (cachedCheckSig E cache c).2) .empty

end Cached

/-! ## Nothing else is in it -/

section Run

variable {E : SignPrimitives} {cache : CSignatureCache}

/-- Every entry verifies. -/
def CSignatureCache.Valid (E : SignPrimitives) (cache : CSignatureCache) : Prop :=
  Recall.Sound (fun k => verifies E k = true) cache.setValid

/-- There is always an entry to evict. -/
theorem lowerBound_isSome (randomHash : Uint256) {setValid : List SigData} (h : setValid ≠ []) :
    ∃ entry ∈ setValid, CSignatureCache.lowerBound randomHash setValid = some entry := by
  unfold CSignatureCache.lowerBound
  dsimp only
  have hmem : ∀ entry, entry ∈ setValid.insertionSort SigData.le ↔ entry ∈ setValid :=
    fun entry => (List.perm_insertionSort SigData.le setValid).mem_iff
  cases hfind : (setValid.insertionSort SigData.le).find? fun entry => randomHash ≤ entry.1 with
  | some entry => exact ⟨entry, (hmem entry).mp (List.mem_of_find?_eq_some hfind), rfl⟩
  | none =>
    cases hsorted : setValid.insertionSort SigData.le with
    | nil =>
      have hlen := (List.perm_insertionSort SigData.le setValid).length_eq
      rw [hsorted] at hlen
      exact absurd (List.length_eq_zero_iff.mp hlen.symm) h
    | cons entry rest =>
      exact ⟨entry, (hmem entry).mp (by rw [hsorted]; exact List.mem_cons_self), rfl⟩

/-- The loop of `Set` ends, and the cache holds one entry more than the limit at most. -/
theorem CSignatureCache.length_set (cache : CSignatureCache) {nMaxCacheSize : Int} (hpos : 0 < nMaxCacheSize)
    (rand : ℕ → Uint256) (hash : Uint256) (vchSig pubKey : List UInt8) :
    (cache.set nMaxCacheSize rand hash vchSig pubKey).setValid.length ≤ nMaxCacheSize.toNat + 1 := by
  have hevict : (Recall.evict (fun turn => lowerBound (rand turn)) nMaxCacheSize.toNat
      cache.setValid.length 0 cache.setValid).length ≤ nMaxCacheSize.toNat :=
    Recall.length_evict (fun turn _ h => lowerBound_isSome (rand turn) h) _ _ _ (Nat.le_add_left _ _)
  unfold set
  rw [if_neg (by omega)]
  dsimp only
  rw [List.length_insert]
  split
  · omega
  · omega

theorem CSignatureCache.Valid.set (h : cache.Valid E) (nMaxCacheSize : Int) (rand : ℕ → Uint256)
    {hash : Uint256} {vchSig pubKey : List UInt8} (hk : verifies E (hash, vchSig, pubKey) = true) :
    (cache.set nMaxCacheSize rand hash vchSig pubKey).Valid E := by
  unfold CSignatureCache.set
  split
  · exact h
  · show Recall.Sound _ (List.insert _ _)
    exact (Recall.Sound.mono h (Recall.evict_subset _ _ _)).insert hk

/-- **ONE CALL** answers what the check without a cache answers, and keeps the cache valid. -/
theorem cachedCheckSig_step (h : cache.Valid E) (c : CheckSigCall) :
    (cachedCheckSig E cache c).1 =
        checkSig E c.vchSig c.vchPubKey c.scriptCode c.txTo c.nIn c.nHashType ∧
      (cachedCheckSig E cache c).2.Valid E := by
  unfold cachedCheckSig checkSig
  cases c.vchSig.getLast? with
  | none => exact ⟨rfl, h⟩
  | some back =>
    dsimp only
    split
    · exact ⟨rfl, h⟩
    · -- the triple that is looked up is the one whose verification is asked for
      generalize hkey : (signatureHash E.hash c.scriptCode c.txTo c.nIn (BitVec.ofNat 32 back.toNat),
        c.vchSig.dropLast, c.vchPubKey) = k
      have hanswer : (if E.validPubKey c.vchPubKey then
          E.verify (CKey.reset.setPubKey E.toKeyPrimitives c.vchPubKey)
            (signatureHash E.hash c.scriptCode c.txTo c.nIn (BitVec.ofNat 32 back.toNat))
            c.vchSig.dropLast else false) = verifies E k := by
        subst hkey
        rfl
      rw [hanswer]
      by_cases hget : k ∈ cache.setValid
      · rw [if_pos (show cache.get _ _ _ = true by
          unfold CSignatureCache.get
          rw [hkey]
          exact decide_eq_true hget)]
        exact ⟨(h k hget).symm, h⟩
      · rw [if_neg (show ¬ cache.get _ _ _ = true by
          unfold CSignatureCache.get
          rw [hkey, decide_eq_true_eq]
          exact hget)]
        subst hkey
        by_cases hvalid : E.validPubKey c.vchPubKey = true
        · rw [if_neg (fun hn => hn hvalid)]
          rw [if_pos hvalid] at hanswer
          split
          · rename_i hverify
            rw [Bool.not_eq_true] at hverify
            exact ⟨hverify.symm.trans hanswer, h⟩
          · rename_i hverify
            rw [not_not] at hverify
            rw [hverify] at hanswer
            exact ⟨hanswer, h.set _ _ hanswer.symm⟩
        · rw [if_pos hvalid]
          rw [if_neg hvalid] at hanswer
          exact ⟨hanswer, h⟩

theorem cacheAfter_valid (E : SignPrimitives) (history : List CheckSigCall) :
    (cacheAfter E history).Valid E := by
  unfold cacheAfter
  induction history using List.reverseRecOn with
  | nil => exact Recall.sound_nil
  | append_singleton history c ih =>
    rw [List.foldl_append]
    exact (cachedCheckSig_step ih c).2

/-- **THE CACHE IS BOUNDED**: after whatever calls it holds one entry more than the limit at most. -/
theorem cacheAfter_bounded (E : SignPrimitives) (nMaxCacheSize : Int) (history : List CheckSigCall) :
    (cacheAfter E (history.map fun c => { c with nMaxCacheSize })).setValid.length ≤ nMaxCacheSize.toNat + 1 := by
  unfold cacheAfter
  induction history using List.reverseRecOn with
  | nil => exact Nat.zero_le _
  | append_singleton history c ih =>
    rw [List.map_append, List.foldl_append]
    -- a call that stores something has made room before
    have hset : ∀ {cache : CSignatureCache} {sighash : Uint256} {vchSig : List UInt8},
        cache.setValid.length ≤ nMaxCacheSize.toNat + 1 →
        (cache.set nMaxCacheSize c.rand sighash vchSig c.vchPubKey).setValid.length ≤ nMaxCacheSize.toNat + 1 := by
      intro cache sighash vchSig hcache
      by_cases hpos : 0 < nMaxCacheSize
      · exact cache.length_set hpos _ _ _ _
      · unfold CSignatureCache.set
        rwa [if_pos (by omega)]
    show (cachedCheckSig E _ { c with nMaxCacheSize }).2.setValid.length ≤ _
    unfold cachedCheckSig
    cases c.vchSig.getLast? with
    | none => exact ih
    | some back =>
      dsimp only
      repeat' split
      all_goals first
        | exact ih
        | exact hset ih

/-- **THE CACHE CANNOT BE SEEN.**  After whatever calls, with whatever limits and evictions, a call answers
    what it would answer without a cache. -/
theorem checkSig_ignores_cache (E : SignPrimitives) (history : List CheckSigCall) (c : CheckSigCall) :
    (cachedCheckSig E (cacheAfter E history) c).1 =
      checkSig E c.vchSig c.vchPubKey c.scriptCode c.txTo c.nIn c.nHashType :=
  (cachedCheckSig_step (cacheAfter_valid E history) c).1

end Run

end Standard

end Silkcoin
