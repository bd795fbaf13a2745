/-
  THE ADDRESS FILE: what `CAddrMan` is read from.

  It has the new entries, the tried ones, and of every new bucket the numbers of the entries in it.  If the
  number of buckets is not ours, the buckets of the file do not count, and every new entry is put into the
  one bucket it has with its own source; "this supports changes to the parameters".

  1. The entries are numbered as they are read; of the tried ones those are lost that find their bucket
     full (`kept`).  The tables have every number where it belongs (`Filled`).
  2. With as many buckets as ours an entry is in the first four buckets it is named in (`places`); a number
     that names no entry makes one.
  3. The file is safe EXACTLY IF it has no more buckets than we have, the numbers are those of entries, and
     no bucket gets too many (`unserialize_iff`).  With 257 buckets the 257th is out of range.
-/
import Silkcoin.AddrCheck

namespace Codec

variable {σ α : Type}

/-- So many values, each taken in as it is read, with its number. -/
def readEach (get : Reader α) (step : Nat → σ → α → σ) : Nat → Nat → σ → Reader σ
  | _, 0, s => pure s
  | n, k + 1, s => do
    let a ← get
    readEach get step (n + 1) k (step n s a)

/-- The same of a list. -/
def takeEach (step : Nat → σ → α → σ) : Nat → List α → σ → σ
  | _, [], s => s
  | n, a :: l, s => takeEach step (n + 1) l (step n s a)

theorem takeEach_const (step : σ → α → σ) (n : Nat) (l : List α) (s : σ) :
    takeEach (fun _ => step) n l s = l.foldl step s := by
  induction l generalizing n s with
  | nil => rfl
  | cons a l ih => exact ih (n + 1) (step s a)

theorem run_readEach {get : Reader α} {put : α → List UInt8} (step : Nat → σ → α → σ) (l : List α)
    (hget : ∀ a ∈ l, ∀ rest c, get.run ⟨put a ++ rest, c⟩ = some (a, ⟨rest, c⟩)) (n : Nat) (s : σ)
    (rest : List UInt8) (c : Bool) :
    (readEach get step n l.length s).run ⟨l.flatMap put ++ rest, c⟩ = some (takeEach step n l s, ⟨rest, c⟩) := by
  induction l generalizing n s with
  | nil => rfl
  | cons a l ih =>
    have hfirst := hget a List.mem_cons_self (l.flatMap put ++ rest) c
    rw [List.flatMap_cons, List.append_assoc]
    show (get >>= fun a => readEach get step (n + 1) l.length (step n s a)).run _ = _
    rw [run_bind, hfirst]
    exact ih (fun a ha => hget a (List.mem_cons_of_mem _ ha)) (n + 1) (step n s a)

end Codec

namespace Silkcoin

open BatchStore Buckets Codec Std

/-! ## Entries on disk -/

namespace CAddrInfo

/-- The version stands in front of the address. -/
def serialize (nVersion : UInt32) (info : CAddrInfo) : List UInt8 :=
  toLE 4 nVersion.toNat ++ (toLE 4 info.nTime.toNat ++ (toLE 8 info.nServices.toNat ++
    (info.toCService.serialize ++ (info.source.serialize ++
      (toLEInt 8 info.nLastSuccess ++ toLEInt 4 info.nAttempts)))))

def unserialize : Reader CAddrInfo := do
  let _ ← readUInt32
  let nTime ← readUInt32
  let nServices ← readLE 8
  let ip ← CService.unserialize
  let source ← CNetAddr.unserialize
  let nLastSuccess ← readLEInt 8
  let nAttempts ← readLEInt 4
  return { ofAddress ⟨ip, UInt64.ofNat nServices, nTime, 0⟩ source with
    nLastSuccess := nLastSuccess
    nAttempts := nAttempts }

/-- As it is read: what is in memory only is as the constructor sets it. -/
structure OnDisk (info : CAddrInfo) : Prop where
  nLastTry : info.nLastTry = 0
  nRefCount : info.nRefCount = 0
  fInTried : info.fInTried = false
  nRandomPos : info.nRandomPos = -1
  nLastSuccess : FitsInt 8 info.nLastSuccess
  nAttempts : FitsInt 4 info.nAttempts

theorem unserialize_serialize {info : CAddrInfo} (h : info.OnDisk) (nVersion : UInt32) (rest : List UInt8)
    (c : Bool) : unserialize.run ⟨info.serialize nVersion ++ rest, c⟩ = some (info, ⟨rest, c⟩) := by
  obtain ⟨⟨ip, nServices, nTime, nLastTry⟩, source, nLastSuccess, nAttempts, nRefCount, fInTried, nRandomPos⟩ := info
  obtain ⟨rfl, rfl, rfl, rfl, hsuccess, hattempts⟩ := h
  have hservices : nServices.toNat < 256 ^ 8 := nServices.toNat_lt
  unfold serialize unserialize
  simp only [List.append_assoc]
  rw [readUInt32_lawful.run_bind_put trivial, readUInt32_lawful.run_bind_put trivial,
    (readLE_lawful 8).run_bind_put hservices, CService.unserialize_lawful.run_bind_put trivial,
    CNetAddr.unserialize_lawful.run_bind_put trivial, (readLEInt_lawful 8).run_bind_put hsuccess,
    (readLEInt_lawful 4).run_bind_put hattempts]
  rw [UInt64.ofNat_toNat]
  rfl

end CAddrInfo

/-! ## Reading -/

/-- The bucket with a number, if there is one. -/
def bucketNo (b : Nat) : Option NewBucket := if h : b < ADDRMAN_NEW_BUCKET_COUNT then some ⟨b, h⟩ else none

namespace CAddrMan

section Read

variable (Hash : List UInt8 → Uint256) (nUBuckets : Int)

/-- An entry is put in under a number. -/
def number (s : CAddrMan) (n : Int) (info : CAddrInfo) : CAddrMan :=
  { s with
    mapInfo := s.mapInfo.insert n { info with nRandomPos := s.vRandom.length }
    mapAddr := s.mapAddr.insert info.toCNetAddr n
    vRandom := s.vRandom ++ [n] }

def loadNew (n : Nat) (s : CAddrMan) (info : CAddrInfo) : CAddrMan :=
  if nUBuckets ≠ ADDRMAN_NEW_BUCKET_COUNT then
    (s.number n { info with nRefCount := info.nRefCount + 1 }).insertNew
      (getNewBucket Hash s.nKey info.toCNetAddr info.source) n
  else s.number n info

/-- A tried entry, or one that is lost. -/
def loadTried (r : CAddrMan × Int) (info : CAddrInfo) : CAddrMan × Int :=
  let (s, nLost) := r
  let nKBucket := getTriedBucket Hash s.nKey info.toCService
  if (s.vvTried nKBucket).length < ADDRMAN_TRIED_BUCKET_SIZE then
    let s := s.number s.nIdCount { info with fInTried := true }
    ({ s.setTried nKBucket (s.vvTried nKBucket ++ [s.nIdCount]) with nIdCount := s.nIdCount + 1 }, nLost)
  else (s, nLost + 1)

/-- `CAddrInfo()` -/
def nullInfo : CAddrInfo := CAddrInfo.ofAddress ⟨⟨⟨Vector.replicate 16 0⟩, 0⟩, NODE_NETWORK, 100000000, 0⟩
  ⟨Vector.replicate 16 0⟩

/-- A number in a bucket; `mapInfo[nIndex]` is there from then on. -/
def loadIndex (b : NewBucket) (s : CAddrMan) (nIndex : Int) : CAddrMan :=
  let info := (s.mapInfo[nIndex]?).getD nullInfo
  if nUBuckets = ADDRMAN_NEW_BUCKET_COUNT ∧ info.nRefCount < ADDRMAN_NEW_BUCKETS_PER_ADDRESS then
    (s.setInfo nIndex { info with nRefCount := info.nRefCount + 1 }).insertNew b nIndex
  else s.setInfo nIndex info

/-- The buckets of the file from number `b` on; `none` is a bucket out of range. -/
def readBuckets : Nat → Nat → CAddrMan → Reader (Option CAddrMan)
  | _, 0, s => pure (some s)
  | b, k + 1, s =>
    match bucketNo b with
    | none => pure none
    | some nUBucket => do
      let nSize ← readLEInt 4
      let s ← readEach (readLEInt 4) (fun _ => loadIndex nUBuckets nUBucket) 0 nSize.toNat s
      readBuckets (b + 1) k s

/-- The entries and the buckets, into empty tables. -/
def readTables (nKey : List UInt8) (nNew nTried : Int) : Reader (Option CAddrMan) := do
  let nUBuckets ← readLEInt 4
  let s := { empty nKey with nNew := nNew, nTried := nTried }
  let s ← readEach CAddrInfo.unserialize (loadNew Hash nUBuckets) 0 nNew.toNat s
  let r ← readEach CAddrInfo.unserialize (fun _ => loadTried Hash) 0 nTried.toNat ({ s with nIdCount := nNew }, 0)
  readBuckets nUBuckets 0 nUBuckets.toNat { r.1 with nTried := r.1.nTried - r.2 }

def unserialize : Reader (Option CAddrMan) := do
  let _ ← readBytes 1
  let nKey ← readByteVector
  let nNew ← readLEInt 4
  let nTried ← readLEInt 4
  readTables Hash nKey nNew nTried

end Read

end CAddrMan

/-! ## The file -/

/-- A file: the entries it has, and for every bucket the numbers in it. -/
structure PeersFile where
  nKey : List UInt8
  vNew : List CAddrInfo
  vTried : List CAddrInfo
  vvNew : List (List Int)

namespace PeersFile

def putBucket (vNew : List Int) : List UInt8 := toLEInt 4 vNew.length ++ vNew.flatMap (toLEInt 4)

def serialize (nVersion : UInt32) (f : PeersFile) : List UInt8 :=
  [0] ++ (writeByteVector f.nKey ++ (toLEInt 4 f.vNew.length ++ (toLEInt 4 f.vTried.length ++
    (toLEInt 4 f.vvNew.length ++ (f.vNew.flatMap (CAddrInfo.serialize nVersion) ++
      (f.vTried.flatMap (CAddrInfo.serialize nVersion) ++ f.vvNew.flatMap putBucket))))))

/-- What can be written: numbers are `int`, and an entry has no more than is written of it. -/
structure Fits (f : PeersFile) : Prop where
  nKey : f.nKey.length ≤ MAX_SIZE.toNat
  nNew : FitsInt 4 f.vNew.length
  nTried : FitsInt 4 f.vTried.length
  nUBuckets : FitsInt 4 f.vvNew.length
  vNew : ∀ info ∈ f.vNew, info.OnDisk
  vTried : ∀ info ∈ f.vTried, info.OnDisk
  vvNew : ∀ vNew ∈ f.vvNew, FitsInt 4 vNew.length ∧ ∀ nIndex ∈ vNew, FitsInt 4 nIndex

/-- The numbers in the buckets from number `b` on, in the order they are read. -/
def visitsFrom : Nat → List (List Int) → List (NewBucket × Int)
  | _, [] => []
  | b, vNew :: vvNew =>
    match bucketNo b with
    | none => []
    | some nUBucket => vNew.map (fun nIndex => (nUBucket, nIndex)) ++ visitsFrom (b + 1) vvNew

def visits (f : PeersFile) : List (NewBucket × Int) := visitsFrom 0 f.vvNew

section Load

variable (Hash : List UInt8 → Uint256) (f : PeersFile)

/-- The new entries are in. -/
def withNew : CAddrMan :=
  takeEach (CAddrMan.loadNew Hash f.vvNew.length) 0 f.vNew
    { CAddrMan.empty f.nKey with nNew := f.vNew.length, nTried := f.vTried.length }

/-- The tried ones too, with the number of those that are lost. -/
def withTried : CAddrMan × Int :=
  f.vTried.foldl (CAddrMan.loadTried Hash) ({ f.withNew Hash with nIdCount := f.vNew.length }, 0)

def entered : CAddrMan :=
  { (f.withTried Hash).1 with nTried := (f.withTried Hash).1.nTried - (f.withTried Hash).2 }

/-- And the buckets. -/
def loaded : CAddrMan :=
  f.visits.foldl (fun s v => s.loadIndex f.vvNew.length v.1 v.2) (f.entered Hash)

end Load

end PeersFile

namespace CAddrMan

theorem run_readBuckets {nUBuckets : Int} (vvNew : List (List Int))
    (hfits : ∀ vNew ∈ vvNew, FitsInt 4 vNew.length ∧ ∀ nIndex ∈ vNew, FitsInt 4 nIndex) (b : Nat) (s : CAddrMan)
    (rest : List UInt8) (c : Bool) (hb : b + vvNew.length ≤ ADDRMAN_NEW_BUCKET_COUNT) :
    (readBuckets nUBuckets b vvNew.length s).run ⟨vvNew.flatMap PeersFile.putBucket ++ rest, c⟩ =
      some (some ((PeersFile.visitsFrom b vvNew).foldl (fun s v => s.loadIndex nUBuckets v.1 v.2) s), ⟨rest, c⟩) := by
  induction vvNew generalizing b s with
  | nil => rfl
  | cons vNew vvNew ih =>
    obtain ⟨hsize, hnumbers⟩ := hfits vNew List.mem_cons_self
    rw [List.length_cons] at hb
    have hno : bucketNo b = some ⟨b, by omega⟩ := dif_pos (by omega)
    have hread := fun s => @run_readEach _ _ (readLEInt 4) (toLEInt 4) (fun _ => loadIndex nUBuckets ⟨b, by omega⟩) vNew
      (fun nIndex hin rest c => (readLEInt_lawful 4).get_put nIndex (hnumbers nIndex hin) rest c) 0 s
      (vvNew.flatMap PeersFile.putBucket ++ rest) c
    rw [List.flatMap_cons, PeersFile.putBucket, List.append_assoc, List.append_assoc, List.length_cons, readBuckets,
      PeersFile.visitsFrom, hno]
    dsimp only
    rw [(readLEInt_lawful 4).run_bind_put hsize, run_bind, Int.toNat_natCast, hread, takeEach_const,
      List.foldl_append, List.foldl_map]
    exact ih (fun vNew h => hfits vNew (List.mem_cons_of_mem _ h)) (b + 1) _ (by omega)

/-- One bucket too many. -/
theorem run_readBuckets_none {nUBuckets : Int} (vvNew : List (List Int))
    (hfits : ∀ vNew ∈ vvNew, FitsInt 4 vNew.length ∧ ∀ nIndex ∈ vNew, FitsInt 4 nIndex) (b : Nat) (s : CAddrMan)
    (rest : List UInt8) (c : Bool) (hb : b ≤ ADDRMAN_NEW_BUCKET_COUNT)
    (hmany : ADDRMAN_NEW_BUCKET_COUNT < b + vvNew.length) :
    ∃ r, (readBuckets nUBuckets b vvNew.length s).run ⟨vvNew.flatMap PeersFile.putBucket ++ rest, c⟩ =
      some (none, r) := by
  induction vvNew generalizing b s with
  | nil =>
    rw [List.length_nil] at hmany
    omega
  | cons vNew vvNew ih =>
    obtain ⟨hsize, hnumbers⟩ := hfits vNew List.mem_cons_self
    rw [List.length_cons] at hmany
    by_cases hlast : b = ADDRMAN_NEW_BUCKET_COUNT
    · have hno : bucketNo b = none := dif_neg (by omega)
      rw [List.length_cons, readBuckets, hno]
      exact ⟨_, rfl⟩
    · have hno : bucketNo b = some ⟨b, by omega⟩ := dif_pos (by omega)
      have hread := fun s => @run_readEach _ _ (readLEInt 4) (toLEInt 4) (fun _ => loadIndex nUBuckets ⟨b, by omega⟩) vNew
        (fun nIndex hin rest c => (readLEInt_lawful 4).get_put nIndex (hnumbers nIndex hin) rest c) 0 s
        (vvNew.flatMap PeersFile.putBucket ++ rest) c
      rw [List.flatMap_cons, PeersFile.putBucket, List.append_assoc, List.append_assoc, List.length_cons, readBuckets,
        hno]
      dsimp only
      rw [(readLEInt_lawful 4).run_bind_put hsize, run_bind, Int.toNat_natCast, hread]
      exact ih (fun vNew h => hfits vNew (List.mem_cons_of_mem _ h)) (b + 1) _ (by omega) (by omega)

/-- THE FILE IS READ: the tables it is loaded into, or a bucket out of range. -/
theorem run_unserialize (Hash : List UInt8 → Uint256) {f : PeersFile} (hf : f.Fits) (nVersion : UInt32)
    (rest : List UInt8) (c : Bool) :
    (f.vvNew.length ≤ ADDRMAN_NEW_BUCKET_COUNT →
      (unserialize Hash).run ⟨f.serialize nVersion ++ rest, c⟩ = some (some (f.loaded Hash), ⟨rest, c⟩)) ∧
    (ADDRMAN_NEW_BUCKET_COUNT < f.vvNew.length →
      ∃ r, (unserialize Hash).run ⟨f.serialize nVersion ++ rest, c⟩ = some (none, r)) := by
  have hnew := fun s rest => @run_readEach _ _ CAddrInfo.unserialize (CAddrInfo.serialize nVersion) (loadNew Hash f.vvNew.length) f.vNew
    (fun info hin rest c => CAddrInfo.unserialize_serialize (hf.vNew info hin) nVersion rest c) 0 s rest c
  have htried := fun r rest => @run_readEach _ _ CAddrInfo.unserialize (CAddrInfo.serialize nVersion) (fun _ => loadTried Hash) f.vTried
    (fun info hin rest c => CAddrInfo.unserialize_serialize (hf.vTried info hin) nVersion rest c) 0 r rest c
  have hrun : (unserialize Hash).run ⟨f.serialize nVersion ++ rest, c⟩ =
      (readBuckets f.vvNew.length 0 f.vvNew.length (f.entered Hash)).run
        ⟨f.vvNew.flatMap PeersFile.putBucket ++ rest, c⟩ := by
    unfold PeersFile.serialize unserialize
    simp only [List.append_assoc]
    rw [(readBytes_lawful 1).run_bind_put (show [0].length = 1 from rfl), readByteVector_lawful.run_bind_put ⟨hf.nKey, trivial⟩,
      (readLEInt_lawful 4).run_bind_put hf.nNew, (readLEInt_lawful 4).run_bind_put hf.nTried]
    unfold readTables
    rw [(readLEInt_lawful 4).run_bind_put hf.nUBuckets]
    dsimp only
    rw [run_bind, Int.toNat_natCast, hnew]
    show ((readEach _ _ 0 (f.vTried.length : Int).toNat _) >>= _).run _ = _
    rw [run_bind, Int.toNat_natCast, htried, takeEach_const]
    rfl
  rw [hrun]
  exact ⟨run_readBuckets f.vvNew hf.vvNew 0 _ rest c ∘ fun h => by omega,
    run_readBuckets_none f.vvNew hf.vvNew 0 _ rest c (Nat.zero_le _) ∘ fun h => by omega⟩

/-! ## The entries -/

/-- The entries have the numbers of their places. -/
structure Numbered (l : List CAddrInfo) (s : CAddrMan) : Prop where
  info : ∀ n : Int, s.mapInfo[n]? = if 0 ≤ n then (l[n.toNat]?).map fun i => { i with nRandomPos := n } else none
  lookup : ∀ a n, s.mapAddr.lookup a = some n → 0 ≤ n ∧ ∃ i, l[n.toNat]? = some i ∧ i.toCNetAddr = a
  known : ∀ i ∈ l, (s.mapAddr.lookup i.toCNetAddr).isSome = true
  random : s.vRandom = (List.range l.length).map fun k : Nat => (k : Int)

variable {l : List CAddrInfo} {s : CAddrMan}

/-- ONE MORE ENTRY, with the next number. -/
theorem Numbered.number (h : Numbered l s) (i : CAddrInfo) : Numbered (l ++ [i]) (s.number l.length i) := by
  have hlength : s.vRandom.length = l.length := by rw [h.random, List.length_map, List.length_range]
  constructor
  · intro n
    show (s.mapInfo.insert (l.length : Int) { i with nRandomPos := s.vRandom.length })[n]? = _
    rw [getElem?_insert_int, h.info, hlength]
    by_cases hn : (l.length : Int) = n
    · subst hn
      rw [if_pos rfl, if_pos (Int.natCast_nonneg _), Int.toNat_natCast, List.getElem?_concat_length]
      rfl
    · rw [if_neg hn]
      by_cases hpos : 0 ≤ n
      · rw [if_pos hpos, if_pos hpos]
        congr 1
        rcases Nat.lt_or_ge n.toNat l.length with hlt | hge
        · rw [List.getElem?_append_left hlt]
        · rw [List.getElem?_eq_none hge, List.getElem?_eq_none]
          rw [List.length_append, List.length_singleton]
          omega
      · rw [if_neg hpos, if_neg hpos]
  · intro a n hlookup
    have hlookup : (s.mapAddr.insert i.toCNetAddr (l.length : Int)).lookup a = some n := hlookup
    by_cases ha : a = i.toCNetAddr
    · subst ha
      rw [AList.lookup_insert, Option.some.injEq] at hlookup
      subst hlookup
      refine ⟨Int.natCast_nonneg _, i, ?_, rfl⟩
      rw [Int.toNat_natCast, List.getElem?_concat_length]
    · rw [AList.lookup_insert_ne ha] at hlookup
      obtain ⟨hn, i', hi', heq⟩ := h.lookup a n hlookup
      refine ⟨hn, i', ?_, heq⟩
      rw [List.getElem?_append_left (List.getElem?_eq_some_iff.mp hi').1]
      exact hi'
  · intro i' hi'
    show ((s.mapAddr.insert i.toCNetAddr (l.length : Int)).lookup i'.toCNetAddr).isSome = true
    by_cases ha : i'.toCNetAddr = i.toCNetAddr
    · rw [ha, AList.lookup_insert]
      rfl
    · rw [AList.lookup_insert_ne ha]
      rcases List.mem_append.mp hi' with hi' | hi'
      · exact h.known i' hi'
      · rw [List.mem_singleton.mp hi'] at ha
        exact absurd rfl ha
  · show s.vRandom ++ [(l.length : Int)] = _
    rw [h.random, List.length_append, List.length_singleton, List.range_succ, List.map_append]
    rfl

section Entries

variable {Hash : List UInt8 → Uint256} {nUBuckets : Int} {nKey : List UInt8}

/-- A new entry has its reference at once if the buckets of the file do not count. -/
def counted (nUBuckets : Int) (info : CAddrInfo) : CAddrInfo :=
  if nUBuckets ≠ ADDRMAN_NEW_BUCKET_COUNT then { info with nRefCount := info.nRefCount + 1 } else info

/-- The bucket an entry has with its own source. -/
def ownBucket (Hash : List UInt8 → Uint256) (nKey : List UInt8) (info : CAddrInfo) : NewBucket :=
  getNewBucket Hash nKey info.toCNetAddr info.source

/-- The new entries of `l` are in. -/
structure NewIn (Hash : List UInt8 → Uint256) (nUBuckets : Int) (s₀ : CAddrMan) (l : List CAddrInfo) (s : CAddrMan) :
    Prop where
  numbered : Numbered (l.map (counted nUBuckets)) s
  vvNew : ∀ b (n : Int), n ∈ s.vvNew b ↔
    nUBuckets ≠ ADDRMAN_NEW_BUCKET_COUNT ∧ 0 ≤ n ∧ ∃ i, l[n.toNat]? = some i ∧ ownBucket Hash s₀.nKey i = b
  nKey : s.nKey = s₀.nKey
  vvTried : s.vvTried = s₀.vvTried
  nNew : s.nNew = s₀.nNew
  nTried : s.nTried = s₀.nTried

theorem NewIn.loadNew {s₀ : CAddrMan} (h : NewIn Hash nUBuckets s₀ l s) (i : CAddrInfo) :
    NewIn Hash nUBuckets s₀ (l ++ [i]) (s.loadNew Hash nUBuckets l.length i) := by
  have hstep := h.numbered.number (counted nUBuckets i)
  rw [List.length_map] at hstep
  have hget : ∀ (n : Int) b, 0 ≤ n → ((∃ i', (l ++ [i])[n.toNat]? = some i' ∧ ownBucket Hash s₀.nKey i' = b) ↔
      (n = l.length ∧ ownBucket Hash s₀.nKey i = b) ∨ ∃ i', l[n.toNat]? = some i' ∧ ownBucket Hash s₀.nKey i' = b) := by
    intro n b hn
    rcases Nat.lt_trichotomy n.toNat l.length with hlt | heq | hgt
    · rw [List.getElem?_append_left hlt]
      constructor
      · exact Or.inr
      · rintro (⟨hn', -⟩ | h)
        · omega
        · exact h
    · rw [heq, List.getElem?_concat_length, List.getElem?_eq_none (Nat.le_refl _)]
      have hn' : n = l.length := by omega
      simp [hn']
    · rw [List.getElem?_eq_none (by rw [List.length_append, List.length_singleton]; omega),
        List.getElem?_eq_none (by omega)]
      have hn' : n ≠ l.length := by omega
      simp [hn']
  by_cases hU : nUBuckets ≠ ADDRMAN_NEW_BUCKET_COUNT
  · have hcount : counted nUBuckets i = { i with nRefCount := i.nRefCount + 1 } := if_pos hU
    have hstate : s.loadNew Hash nUBuckets l.length i =
        (s.number l.length (counted nUBuckets i)).insertNew (ownBucket Hash s.nKey i) l.length := by
      rw [CAddrMan.loadNew, if_pos hU, hcount]
      rfl
    rw [hstate]
    refine ⟨?_, fun b n => ?_, h.nKey, h.vvTried, h.nNew, h.nTried⟩
    · rw [List.map_append]
      exact ⟨hstep.info, hstep.lookup, hstep.known, hstep.random⟩
    · show n ∈ Function.update s.vvNew _ ((s.vvNew _).insert (l.length : Int)) b ↔ _
      rw [mem_update_insert, h.vvNew, h.nKey]
      by_cases hn : 0 ≤ n
      · rw [hget n b hn]
        constructor
        · rintro (⟨hb, rfl⟩ | ⟨-, -, hi⟩)
          · exact ⟨hU, hn, Or.inl ⟨rfl, hb⟩⟩
          · exact ⟨hU, hn, Or.inr hi⟩
        · rintro ⟨-, -, ⟨rfl, hb⟩ | hi⟩
          · exact Or.inl ⟨hb, rfl⟩
          · exact Or.inr ⟨hU, hn, hi⟩
      · constructor
        · rintro (⟨-, rfl⟩ | ⟨-, hn', -⟩)
          · exact absurd (Int.natCast_nonneg _) hn
          · exact absurd hn' hn
        · exact fun h => absurd h.2.1 hn
  · have hcount : counted nUBuckets i = i := if_neg hU
    have hstate : s.loadNew Hash nUBuckets l.length i = s.number l.length (counted nUBuckets i) := by
      rw [CAddrMan.loadNew, if_neg hU, hcount]
    rw [hstate]
    refine ⟨?_, fun b n => ?_, h.nKey, h.vvTried, h.nNew, h.nTried⟩
    · rw [List.map_append]
      exact hstep
    · exact (h.vvNew b n).trans (iff_of_false (fun h => hU h.1) (fun h => hU h.1))

theorem NewIn.takeEach {s₀ : CAddrMan} (l' : List CAddrInfo) : ∀ (l : List CAddrInfo) (s : CAddrMan),
    NewIn Hash nUBuckets s₀ l s →
    NewIn Hash nUBuckets s₀ (l ++ l') (Codec.takeEach (CAddrMan.loadNew Hash nUBuckets) l.length l' s) := by
  induction l' with
  | nil =>
    intro l s h
    rw [List.append_nil]
    exact h
  | cons i l' ih =>
    intro l s h
    have hnext := ih (l ++ [i]) _ (h.loadNew i)
    rw [List.append_assoc, List.length_append, List.length_singleton] at hnext
    exact hnext

/-- Those of some entries that fall into a tried bucket. -/
def inBucket (Hash : List UInt8 → Uint256) (nKey : List UInt8) (b : TriedBucket) (l : List CAddrInfo) : List CAddrInfo :=
  l.filter fun info => decide (getTriedBucket Hash nKey info.toCService = b)

/-- THE TRIED ENTRIES THAT ARE KEPT: those that do not find their bucket full. -/
def keep (Hash : List UInt8 → Uint256) (nKey : List UInt8) (kept : List CAddrInfo) (info : CAddrInfo) : List CAddrInfo :=
  if (inBucket Hash nKey (getTriedBucket Hash nKey info.toCService) kept).length < ADDRMAN_TRIED_BUCKET_SIZE then
    kept ++ [info]
  else kept

/-- The numbers that a tried bucket gets, if they begin with `k`. -/
def numbersIn (Hash : List UInt8 → Uint256) (nKey : List UInt8) (k : Nat) (kept : List CAddrInfo) (b : TriedBucket) :
    List Int :=
  ((kept.zipIdx k).filter fun p => decide (getTriedBucket Hash nKey p.1.toCService = b)).map fun p => (p.2 : Int)

def tried (info : CAddrInfo) : CAddrInfo := { info with fInTried := true }

theorem length_numbersIn (k : Nat) (kept : List CAddrInfo) (b : TriedBucket) :
    (numbersIn Hash nKey k kept b).length = (inBucket Hash nKey b kept).length := by
  rw [numbersIn, List.length_map, inBucket]
  induction kept generalizing k with
  | nil => rfl
  | cons info kept ih =>
    rw [List.zipIdx_cons, List.filter_cons, List.filter_cons]
    dsimp only
    split
    · rw [List.length_cons, List.length_cons, ih]
    · exact ih (k + 1)

theorem numbersIn_append (k : Nat) (kept : List CAddrInfo) (info : CAddrInfo) (b : TriedBucket) :
    numbersIn Hash nKey k (kept ++ [info]) b = numbersIn Hash nKey k kept b ++
      if getTriedBucket Hash nKey info.toCService = b then [((k + kept.length : Nat) : Int)] else [] := by
  rw [numbersIn, List.zipIdx_append, List.filter_append, List.map_append, numbersIn]
  congr 1
  rw [List.zipIdx_singleton, List.filter_singleton]
  dsimp only
  by_cases hb : getTriedBucket Hash nKey info.toCService = b
  · rw [if_pos hb, decide_eq_true hb]
    rfl
  · rw [if_neg hb, decide_eq_false hb]
    rfl

/-- The tried entries of `read` were read, and `kept` of them kept, behind the new ones. -/
structure TriedIn (Hash : List UInt8 → Uint256) (s₀ : CAddrMan) (news read kept : List CAddrInfo) (r : CAddrMan × Int) :
    Prop where
  numbered : Numbered (news ++ kept.map tried) r.1
  nIdCount : r.1.nIdCount = (news.length + kept.length : Nat)
  vvTried : ∀ b, r.1.vvTried b = numbersIn Hash s₀.nKey news.length kept b
  nLost : r.2 + kept.length = read.length
  nKey : r.1.nKey = s₀.nKey
  vvNew : r.1.vvNew = s₀.vvNew
  nNew : r.1.nNew = s₀.nNew
  nTried : r.1.nTried = s₀.nTried

theorem TriedIn.loadTried {s₀ : CAddrMan} {news read kept : List CAddrInfo} {r : CAddrMan × Int}
    (h : TriedIn Hash s₀ news read kept r) (i : CAddrInfo) :
    TriedIn Hash s₀ news (read ++ [i]) (keep Hash s₀.nKey kept i) (loadTried Hash r i) := by
  obtain ⟨s, nLost⟩ := r
  obtain ⟨hnumbered, hidCount, hvvTried, hlost, hkey, hvvNew, hnNew, hnTried⟩ := h
  dsimp only at hnumbered hidCount hvvTried hlost hkey hvvNew hnNew hnTried
  have hread : ((read ++ [i]).length : Int) = read.length + 1 := by
    rw [List.length_append, List.length_singleton]
    rfl
  unfold CAddrMan.loadTried keep
  dsimp only
  rw [hvvTried, length_numbersIn, hkey]
  split
  · have hlength : (news ++ kept.map tried).length = news.length + kept.length := by
      rw [List.length_append, List.length_map]
    have hstep := hnumbered.number (tried i)
    rw [hlength, ← hidCount] at hstep
    refine ⟨?_, ?_, fun b => ?_, ?_, hkey, hvvNew, hnNew, hnTried⟩
    · rw [List.map_append, ← List.append_assoc]
      exact ⟨hstep.info, hstep.lookup, hstep.known, hstep.random⟩
    · show s.nIdCount + 1 = _
      rw [hidCount, List.length_append, List.length_singleton]
      omega
    · rw [numbersIn_append]
      show Function.update s.vvTried _ _ b = _
      by_cases hb : getTriedBucket Hash s₀.nKey i.toCService = b
      · rw [if_pos hb, hb, Function.update_self]
        show s.vvTried b ++ [s.nIdCount] = _
        rw [hvvTried b, hidCount]
      · rw [if_neg hb, Function.update_of_ne (Ne.symm hb), List.append_nil]
        exact hvvTried b
    · rw [hread, List.length_append, List.length_singleton]
      show nLost + _ = _
      omega
  · refine ⟨hnumbered, hidCount, hvvTried, ?_, hkey, hvvNew, hnNew, hnTried⟩
    rw [hread]
    show nLost + 1 + _ = _
    omega

theorem TriedIn.foldl {s₀ : CAddrMan} {news : List CAddrInfo} (l : List CAddrInfo) :
    ∀ (read kept : List CAddrInfo) (r : CAddrMan × Int), TriedIn Hash s₀ news read kept r →
    TriedIn Hash s₀ news (read ++ l) (l.foldl (keep Hash s₀.nKey) kept) (l.foldl (CAddrMan.loadTried Hash) r) := by
  induction l with
  | nil =>
    intro read kept r h
    rw [List.append_nil]
    exact h
  | cons i l ih =>
    intro read kept r h
    have hnext := ih _ _ _ (h.loadTried i)
    rw [List.append_assoc] at hnext
    exact hnext

end Entries

/-! ## The buckets -/

section Visits

variable {vs : List (NewBucket × Int)} {b : NewBucket} {n m : Int}

/-- The buckets a number is named in, in the order they are read. -/
def places (vs : List (NewBucket × Int)) (n : Int) : List NewBucket :=
  (vs.filter fun v => decide (v.2 = n)).map Prod.fst

/-- The first four of them. -/
def placed (vs : List (NewBucket × Int)) (n : Int) : List NewBucket :=
  (places vs n).take ADDRMAN_NEW_BUCKETS_PER_ADDRESS.toNat

theorem places_append_self : places (vs ++ [(b, n)]) n = places vs n ++ [b] := by
  rw [places, List.filter_append, List.map_append, List.filter_singleton, decide_eq_true (Eq.refl n)]
  rfl

theorem places_append_ne (h : m ≠ n) : places (vs ++ [(b, m)]) n = places vs n := by
  rw [places, List.filter_append, List.map_append, List.filter_singleton, decide_eq_false h]
  exact List.append_nil _

theorem placed_append_ne (h : m ≠ n) : placed (vs ++ [(b, m)]) n = placed vs n := by
  rw [placed, places_append_ne h, placed]

theorem placed_append_lt (h : (placed vs n).length < 4) : placed (vs ++ [(b, n)]) n = placed vs n ++ [b] := by
  have hfour : ADDRMAN_NEW_BUCKETS_PER_ADDRESS.toNat = 4 := rfl
  rw [placed, hfour, List.length_take] at h
  rw [placed, placed, hfour, places_append_self, List.take_of_length_le (by rw [List.length_append, List.length_singleton]; omega),
    List.take_of_length_le (by omega)]

theorem placed_append_ge (h : ¬ (placed vs n).length < 4) : placed (vs ++ [(b, n)]) n = placed vs n := by
  have hfour : ADDRMAN_NEW_BUCKETS_PER_ADDRESS.toNat = 4 := rfl
  rw [placed, hfour, List.length_take] at h
  rw [placed, placed, hfour, places_append_self, List.take_append_of_le_length (by omega)]

theorem mem_visits_of_places (h : b ∈ places vs n) : (b, n) ∈ vs := by
  obtain ⟨⟨b', n'⟩, hv, rfl⟩ := List.mem_map.mp h
  obtain ⟨hin, hn⟩ := List.mem_filter.mp hv
  have hn : n' = n := of_decide_eq_true hn
  exact hn ▸ hin

theorem places_ne_nil (h : (b, n) ∈ vs) : places vs n ≠ [] := by
  refine List.ne_nil_of_mem (a := b) (List.mem_map.mpr ⟨(b, n), List.mem_filter.mpr ⟨h, decide_eq_true rfl⟩, rfl⟩)

/-- The numbers of `vs` were read, and the buckets count. -/
structure Given (s₀ : CAddrMan) (vs : List (NewBucket × Int)) (s : CAddrMan) : Prop where
  info : ∀ n : Int, s.mapInfo[n]? = if places vs n = [] then s₀.mapInfo[n]? else
    some { (s₀.mapInfo[n]?).getD nullInfo with nRefCount := (placed vs n).length }
  vvNew : ∀ b (n : Int), n ∈ s.vvNew b ↔ b ∈ placed vs n
  rest : s = { s₀ with mapInfo := s.mapInfo, vvNew := s.vvNew }

theorem Given.loadIndex {s₀ s : CAddrMan} (hzero : ∀ (n : Int) (i : CAddrInfo), s₀.mapInfo[n]? = some i → i.nRefCount = 0)
    (h : Given s₀ vs s) (b : NewBucket) (m : Int) :
    Given s₀ (vs ++ [(b, m)]) (s.loadIndex ADDRMAN_NEW_BUCKET_COUNT b m) := by
  have hcount : ((s.mapInfo[m]?).getD nullInfo).nRefCount = (placed vs m).length := by
    rw [h.info]
    split
    · rename_i hnil
      rw [placed, hnil, List.take_nil]
      cases hm : s₀.mapInfo[m]? with
      | none => rfl
      | some i => exact hzero m i hm
    · rfl
  have hsame : ∀ k : Int, { (s.mapInfo[m]?).getD nullInfo with nRefCount := k } =
      { (s₀.mapInfo[m]?).getD nullInfo with nRefCount := k } := by
    intro k
    rw [h.info]
    split
    · rfl
    · rfl
  have hne : places (vs ++ [(b, m)]) m ≠ [] := places_ne_nil (List.mem_append_right _ (List.mem_singleton_self _))
  unfold CAddrMan.loadIndex
  dsimp only
  rw [hcount]
  split
  · rename_i hroom
    have hroom : (placed vs m).length < 4 := Int.ofNat_lt.mp hroom.2
    refine ⟨fun n => ?_, fun b' n => ?_, ?_⟩
    · show (s.mapInfo.insert m _)[n]? = _
      rw [getElem?_insert_int]
      by_cases hn : m = n
      · subst hn
        rw [if_pos rfl, if_neg hne, hsame, placed_append_lt hroom, List.length_append]
        rfl
      · rw [if_neg hn, places_append_ne hn, placed_append_ne hn, h.info]
    · show n ∈ Function.update s.vvNew b ((s.vvNew b).insert m) b' ↔ _
      rw [mem_update_insert, h.vvNew]
      by_cases hn : m = n
      · subst hn
        rw [placed_append_lt hroom, List.mem_append, List.mem_singleton]
        constructor
        · rintro (⟨rfl, -⟩ | hin)
          · exact Or.inr rfl
          · exact Or.inl hin
        · rintro (hin | rfl)
          · exact Or.inr hin
          · exact Or.inl ⟨rfl, rfl⟩
      · rw [placed_append_ne hn]
        exact or_iff_right fun heq => hn heq.2
    · rw [h.rest]
      rfl
  · rename_i hfull
    have hfull : ¬ (placed vs m).length < 4 := fun hlt => hfull ⟨rfl, Int.ofNat_lt.mpr hlt⟩
    refine ⟨fun n => ?_, fun b' n => ?_, ?_⟩
    · rw [getElem?_setInfo]
      by_cases hn : m = n
      · subst hn
        rw [if_pos rfl, if_neg hne, placed_append_ge hfull, ← hsame, ← hcount]
      · rw [if_neg hn, places_append_ne hn, placed_append_ne hn, h.info]
    · by_cases hn : m = n
      · subst hn
        rw [placed_append_ge hfull]
        exact h.vvNew b' m
      · rw [placed_append_ne hn]
        exact h.vvNew b' n
    · rw [h.rest]
      rfl

theorem Given.foldl {s₀ : CAddrMan}
    (hzero : ∀ (n : Int) (i : CAddrInfo), s₀.mapInfo[n]? = some i → i.nRefCount = 0) (l : List (NewBucket × Int)) :
    ∀ (vs : List (NewBucket × Int)) (s : CAddrMan), Given s₀ vs s →
    Given s₀ (vs ++ l) (l.foldl (fun s v => s.loadIndex ADDRMAN_NEW_BUCKET_COUNT v.1 v.2) s) := by
  induction l with
  | nil =>
    intro vs s h
    rw [List.append_nil]
    exact h
  | cons v l ih =>
    intro vs s h
    have hnext := ih (vs ++ [v]) _ (h.loadIndex hzero v.1 v.2)
    rw [List.append_assoc] at hnext
    exact hnext

/-- The numbers of `vs` were read, and the buckets do not count. -/
structure Skipped (s₀ : CAddrMan) (vs : List (NewBucket × Int)) (s : CAddrMan) : Prop where
  info : ∀ n : Int, s.mapInfo[n]? = if places vs n = [] then s₀.mapInfo[n]? else some ((s₀.mapInfo[n]?).getD nullInfo)
  rest : s = { s₀ with mapInfo := s.mapInfo }

theorem Skipped.loadIndex {s₀ s : CAddrMan} {nUBuckets : Int} (hU : nUBuckets ≠ ADDRMAN_NEW_BUCKET_COUNT)
    (h : Skipped s₀ vs s) (b : NewBucket) (m : Int) :
    Skipped s₀ (vs ++ [(b, m)]) (s.loadIndex nUBuckets b m) := by
  have hsame : (s.mapInfo[m]?).getD nullInfo = (s₀.mapInfo[m]?).getD nullInfo := by
    rw [h.info]
    split
    · rfl
    · rfl
  have hne : places (vs ++ [(b, m)]) m ≠ [] := places_ne_nil (List.mem_append_right _ (List.mem_singleton_self _))
  unfold CAddrMan.loadIndex
  dsimp only
  rw [if_neg fun h => hU h.1]
  refine ⟨fun n => ?_, ?_⟩
  · rw [getElem?_setInfo]
    by_cases hn : m = n
    · subst hn
      rw [if_pos rfl, if_neg hne, hsame]
    · rw [if_neg hn, places_append_ne hn, h.info]
  · rw [h.rest]
    rfl

theorem Skipped.foldl {s₀ : CAddrMan} {nUBuckets : Int} (hU : nUBuckets ≠ ADDRMAN_NEW_BUCKET_COUNT)
    (l : List (NewBucket × Int)) : ∀ (vs : List (NewBucket × Int)) (s : CAddrMan), Skipped s₀ vs s →
    Skipped s₀ (vs ++ l) (l.foldl (fun s v => s.loadIndex nUBuckets v.1 v.2) s) := by
  induction l with
  | nil =>
    intro vs s h
    rw [List.append_nil]
    exact h
  | cons v l ih =>
    intro vs s h
    have hnext := ih (vs ++ [v]) _ (h.loadIndex hU v.1 v.2)
    rw [List.append_assoc] at hnext
    exact hnext

end Visits

end CAddrMan

namespace PeersFile

open CAddrMan

section Final

variable (Hash : List UInt8 → Uint256) (f : PeersFile)

def kept : List CAddrInfo := f.vTried.foldl (keep Hash f.nKey) []

/-- The entries under their numbers. -/
def entries : List CAddrInfo := f.vNew.map (counted f.vvNew.length) ++ (f.kept Hash).map tried

/-- As many buckets as ours. -/
def Ours : Prop := f.vvNew.length = ADDRMAN_NEW_BUCKET_COUNT

instance : Decidable f.Ours := inferInstanceAs (Decidable (_ = _))

/-- The references of an entry in the end. -/
def refs (n : Int) (info : CAddrInfo) : Int := if f.Ours then (placed f.visits n).length else info.nRefCount

/-- WHAT IS READ from a file. -/
structure Filled (s : CAddrMan) : Prop where
  entry : ∀ (n : Int) i, 0 ≤ n → (f.entries Hash)[n.toNat]? = some i →
    s.mapInfo[n]? = some { i with nRandomPos := n, nRefCount := f.refs n i }
  other : ∀ (n : Int), ¬ (0 ≤ n ∧ n < (f.entries Hash).length) →
    if places f.visits n = [] then s.mapInfo[n]? = none else ∃ info, s.mapInfo[n]? = some info ∧ info.nRandomPos = -1
  vvNew : ∀ b (n : Int), n ∈ s.vvNew b ↔ if f.Ours then b ∈ placed f.visits n else
    0 ≤ n ∧ ∃ i, f.vNew[n.toNat]? = some i ∧ ownBucket Hash f.nKey i = b
  lookup : ∀ a n, s.mapAddr.lookup a = some n → 0 ≤ n ∧ ∃ i, (f.entries Hash)[n.toNat]? = some i ∧ i.toCNetAddr = a
  known : ∀ i ∈ f.entries Hash, (s.mapAddr.lookup i.toCNetAddr).isSome = true
  random : s.vRandom = (List.range (f.entries Hash).length).map fun k : Nat => (k : Int)
  vvTried : ∀ b, s.vvTried b = numbersIn Hash f.nKey f.vNew.length (f.kept Hash) b
  nKey : s.nKey = f.nKey
  nIdCount : s.nIdCount = (f.entries Hash).length
  nNew : s.nNew = f.vNew.length
  nTried : s.nTried = (f.kept Hash).length

variable {Hash f}

theorem withNew_spec : NewIn Hash f.vvNew.length
    { CAddrMan.empty f.nKey with nNew := f.vNew.length, nTried := f.vTried.length } f.vNew (f.withNew Hash) := by
  refine NewIn.takeEach f.vNew [] _ ⟨⟨fun n => ?_, fun a n h => ?_, fun i hi => ?_, rfl⟩, fun b n => ?_, rfl, rfl, rfl, rfl⟩
  · have hnone : (CAddrMan.empty f.nKey).mapInfo[n]? = none := ExtTreeMap.getElem?_empty
    rw [hnone]
    split
    · rfl
    · rfl
  · cases h
  · cases hi
  · constructor
    · intro h
      exact absurd h ExtTreeSet.not_mem_empty
    · rintro ⟨-, -, i, hi, -⟩
      cases hi

theorem withTried_spec : TriedIn Hash { f.withNew Hash with nIdCount := f.vNew.length }
    (f.vNew.map (counted f.vvNew.length)) f.vTried (f.kept Hash) (f.withTried Hash) := by
  have hnew := @withNew_spec Hash f
  have hkey : (f.withNew Hash).nKey = f.nKey := hnew.nKey
  have hrun := @TriedIn.foldl Hash { f.withNew Hash with nIdCount := f.vNew.length }
    (f.vNew.map (counted f.vvNew.length)) f.vTried [] [] ({ f.withNew Hash with nIdCount := f.vNew.length }, 0) ?_
  · rw [kept, ← hkey]
    exact hrun
  · refine ⟨?_, ?_, fun b => ?_, rfl, rfl, rfl, rfl, rfl⟩
    · rw [List.map_nil, List.append_nil]
      exact ⟨hnew.numbered.info, hnew.numbered.lookup, hnew.numbered.known, hnew.numbered.random⟩
    · rw [List.length_map]
      rfl
    · show (f.withNew Hash).vvTried b = []
      rw [hnew.vvTried]
      rfl

theorem entered_numbered : Numbered (f.entries Hash) (f.entered Hash) :=
  have h := (@withTried_spec Hash f).numbered
  ⟨h.info, h.lookup, h.known, h.random⟩

/-- What is kept is in the order it was read. -/
theorem kept_sublist : (f.kept Hash).Sublist f.vTried := by
  have hall : ∀ (l kept read : List CAddrInfo), kept.Sublist read →
      (l.foldl (keep Hash f.nKey) kept).Sublist (read ++ l) := by
    intro l
    induction l with
    | nil =>
      intro kept read h
      rw [List.append_nil]
      exact h
    | cons info l ih =>
      intro kept read h
      have hnext := ih (keep Hash f.nKey kept info) (read ++ [info]) (by
        unfold keep
        split
        · exact h.append (List.Sublist.refl [info])
        · exact h.trans (List.sublist_append_left read [info]))
      rw [List.append_assoc] at hnext
      exact hnext
  exact hall f.vTried [] [] (List.Sublist.refl [])

theorem mem_vTried_of_mem_kept {i : CAddrInfo} (hi : i ∈ f.kept Hash) : i ∈ f.vTried := kept_sublist.subset hi

theorem nRefCount_entries (hf : f.Fits) (hours : f.Ours) : ∀ i ∈ f.entries Hash, i.nRefCount = 0 := by
  intro i hi
  have hU : ¬ (f.vvNew.length : Int) ≠ ADDRMAN_NEW_BUCKET_COUNT := fun h => h (by rw [hours])
  rcases List.mem_append.mp hi with hi | hi
  · obtain ⟨info, hinfo, rfl⟩ := List.mem_map.mp hi
    rw [counted, if_neg hU]
    exact (hf.vNew info hinfo).nRefCount
  · obtain ⟨info, hinfo, rfl⟩ := List.mem_map.mp hi
    exact (hf.vTried info (mem_vTried_of_mem_kept hinfo)).nRefCount

theorem getElem?_entered (n : Int) : (f.entered Hash).mapInfo[n]? =
    if 0 ≤ n then ((f.entries Hash)[n.toNat]?).map fun i => { i with nRandomPos := n } else none :=
  entered_numbered.info n

theorem getElem?_entered_none {n : Int} (hn : ¬ (0 ≤ n ∧ n < (f.entries Hash).length)) :
    (f.entered Hash).mapInfo[n]? = none := by
  rw [getElem?_entered]
  split
  · rw [List.getElem?_eq_none (by omega)]
    rfl
  · rfl

theorem entered_vvNew (b : NewBucket) (n : Int) : n ∈ (f.entered Hash).vvNew b ↔
    ¬ f.Ours ∧ 0 ≤ n ∧ ∃ i, f.vNew[n.toNat]? = some i ∧ ownBucket Hash f.nKey i = b := by
  have hsame : (f.entered Hash).vvNew = (f.withNew Hash).vvNew := withTried_spec.vvNew
  have hU : (f.vvNew.length : Int) ≠ ADDRMAN_NEW_BUCKET_COUNT ↔ ¬ f.Ours := not_congr Int.ofNat_inj
  rw [hsame, (@withNew_spec Hash f).vvNew, hU]
  exact Iff.rfl

/-- THE TABLES AS THEY ARE READ. -/
theorem loaded_filled (hf : f.Fits) : f.Filled Hash (f.loaded Hash) := by
  have htried := @withTried_spec Hash f
  have hnew := @withNew_spec Hash f
  have hnumbered := @entered_numbered Hash f
  have hcount : (f.entered Hash).nTried = (f.kept Hash).length := by
    show (f.withTried Hash).1.nTried - (f.withTried Hash).2 = _
    have hall : (f.withTried Hash).1.nTried = f.vTried.length := htried.nTried.trans hnew.nTried
    have hlost := htried.nLost
    rw [hall]
    omega
  have hid : (f.entered Hash).nIdCount = (f.entries Hash).length := by
    have hsum := htried.nIdCount
    rw [entries, List.length_append, List.length_map (f := tried)]
    exact hsum
  have hbuckets : ∀ b, (f.entered Hash).vvTried b = numbersIn Hash f.nKey f.vNew.length (f.kept Hash) b := by
    intro b
    have hb := htried.vvTried b
    rw [List.length_map] at hb
    have hkey : (f.withNew Hash).nKey = f.nKey := hnew.nKey
    rw [← hkey]
    exact hb
  have hkey : (f.entered Hash).nKey = f.nKey := htried.nKey.trans hnew.nKey
  have hnNew : (f.entered Hash).nNew = f.vNew.length := htried.nNew.trans hnew.nNew
  by_cases hours : f.Ours
  · have hzero : ∀ (n : Int) (i : CAddrInfo), (f.entered Hash).mapInfo[n]? = some i → i.nRefCount = 0 := by
      intro n i hi
      rw [getElem?_entered] at hi
      split at hi
      · obtain ⟨i', hi', rfl⟩ := Option.map_eq_some_iff.mp hi
        exact nRefCount_entries hf hours i' (List.mem_of_getElem? hi')
      · cases hi
    have hstart : Given (f.entered Hash) [] (f.entered Hash) := by
      refine ⟨fun n => rfl, fun b n => ?_, rfl⟩
      rw [entered_vvNew]
      exact iff_of_false (fun h => h.1 hours) List.not_mem_nil
    have hgiven : Given (f.entered Hash) f.visits (f.loaded Hash) := by
      have hrun := Given.foldl hzero f.visits [] _ hstart
      rw [loaded, hours]
      exact hrun
    have hrest := hgiven.rest
    refine ⟨fun n i hn hi => ?_, fun n hn => ?_, fun b n => ?_, ?_, ?_, ?_, ?_, ?_, ?_, ?_, ?_⟩
    · rw [hgiven.info, getElem?_entered, if_pos hn, hi, refs, if_pos hours]
      split
      · rename_i hnil
        have hplaced : placed f.visits n = [] := by rw [placed, hnil, List.take_nil]
        have hi0 := nRefCount_entries hf hours i (List.mem_of_getElem? hi)
        rw [hplaced]
        show some { i with nRandomPos := n } = some { i with nRandomPos := n, nRefCount := 0 }
        rw [← hi0]
      · rfl
    · rw [hgiven.info, getElem?_entered_none hn]
      split
      · rfl
      · exact ⟨_, rfl, rfl⟩
    · rw [if_pos hours]
      exact hgiven.vvNew b n
    · rw [hrest]
      exact hnumbered.lookup
    · rw [hrest]
      exact hnumbered.known
    · rw [hrest]
      exact hnumbered.random
    · rw [hrest]
      exact hbuckets
    · rw [hrest]
      exact hkey
    · rw [hrest]
      exact hid
    · rw [hrest]
      exact hnNew
    · rw [hrest]
      exact hcount
  · have hU : (f.vvNew.length : Int) ≠ ADDRMAN_NEW_BUCKET_COUNT := fun h => hours (Int.ofNat_inj.mp h)
    have hskipped : Skipped (f.entered Hash) f.visits (f.loaded Hash) :=
      Skipped.foldl hU f.visits [] _ ⟨fun n => rfl, rfl⟩
    have hrest := hskipped.rest
    refine ⟨fun n i hn hi => ?_, fun n hn => ?_, fun b n => ?_, ?_, ?_, ?_, ?_, ?_, ?_, ?_, ?_⟩
    · rw [hskipped.info, getElem?_entered, if_pos hn, hi, refs, if_neg hours]
      split
      · rfl
      · rfl
    · rw [hskipped.info, getElem?_entered_none hn]
      split
      · rfl
      · exact ⟨_, rfl, rfl⟩
    · rw [if_neg hours, hrest]
      exact (entered_vvNew b n).trans (and_iff_right hours)
    · rw [hrest]
      exact hnumbered.lookup
    · rw [hrest]
      exact hnumbered.known
    · rw [hrest]
      exact hnumbered.random
    · rw [hrest]
      exact hbuckets
    · rw [hrest]
      exact hkey
    · rw [hrest]
      exact hid
    · rw [hrest]
      exact hnNew
    · rw [hrest]
      exact hcount

/-! ## When it is safe -/

variable (Hash f)

/-- A new entry gets into a new bucket. -/
def InNew (b : NewBucket) (k : Nat) : Prop :=
  if f.Ours then b ∈ placed f.visits k else (f.vNew[k]?).map (ownBucket Hash f.nKey) = some b

instance (b : NewBucket) (k : Nat) : Decidable (f.InNew Hash b k) := inferInstanceAs (Decidable (ite _ _ _))

/-- The numbers that a bucket may have: with our buckets those of new entries, else those of any. -/
def nNumbers : Nat := if f.Ours then f.vNew.length else (f.entries Hash).length

/-- A FILE THAT IS SAFE. -/
structure Safe : Prop where
  addresses : ((f.entries Hash).map fun i => i.toCNetAddr).Nodup
  newTimes : ∀ i ∈ f.vNew, 0 ≤ i.nLastSuccess
  keptTimes : ∀ i ∈ f.kept Hash, 0 < i.nLastSuccess
  buckets : f.vvNew.length ≤ ADDRMAN_NEW_BUCKET_COUNT
  numbers : ∀ v ∈ f.visits, 0 ≤ v.2 ∧ v.2 < f.nNumbers Hash
  named : f.Ours → ∀ k : Nat, k < f.vNew.length → places f.visits k ≠ [] ∧ (placed f.visits k).Nodup
  room : ∀ b, ((List.range f.vNew.length).filter fun k => decide (f.InNew Hash b k)).length ≤ ADDRMAN_NEW_BUCKET_SIZE

/-- What the check needs of it; the new buckets may be as full as they like. -/
structure Sound : Prop where
  addresses : ((f.entries Hash).map fun i => i.toCNetAddr).Nodup
  newTimes : ∀ i ∈ f.vNew, 0 ≤ i.nLastSuccess
  keptTimes : ∀ i ∈ f.kept Hash, 0 < i.nLastSuccess
  numbers : ∀ v ∈ f.visits, 0 ≤ v.2 ∧ v.2 < f.nNumbers Hash
  named : f.Ours → ∀ k : Nat, k < f.vNew.length → places f.visits k ≠ [] ∧ (placed f.visits k).Nodup

variable {Hash f} {s : CAddrMan}

theorem Safe.sound (h : f.Safe Hash) : f.Sound Hash :=
  ⟨h.addresses, h.newTimes, h.keptTimes, h.numbers, h.named⟩

theorem length_entries : (f.entries Hash).length = f.vNew.length + (f.kept Hash).length := by
  rw [entries, List.length_append, List.length_map, List.length_map]

theorem getElem?_entries_new {k : Nat} (hk : k < f.vNew.length) :
    (f.entries Hash)[k]? = (f.vNew[k]?).map (counted f.vvNew.length) := by
  rw [entries, List.getElem?_append_left (by rw [List.length_map]; exact hk), List.getElem?_map]

theorem getElem?_entries_kept {k : Nat} (hk : f.vNew.length ≤ k) :
    (f.entries Hash)[k]? = ((f.kept Hash)[k - f.vNew.length]?).map tried := by
  rw [entries, List.getElem?_append_right (by rw [List.length_map]; exact hk), List.length_map, List.getElem?_map]

theorem counted_fields (info : CAddrInfo) (nUBuckets : Int) :
    (counted nUBuckets info).fInTried = info.fInTried ∧ (counted nUBuckets info).nLastSuccess = info.nLastSuccess ∧
      (counted nUBuckets info).nLastTry = info.nLastTry ∧ (counted nUBuckets info).toCService = info.toCService := by
  unfold counted
  split
  · exact ⟨rfl, rfl, rfl, rfl⟩
  · exact ⟨rfl, rfl, rfl, rfl⟩

/-- A set with the members of a list. -/
theorem size_of_mem_iff {B : ExtTreeSet Int} {l : List Int} (hl : l.Nodup) (h : ∀ n, n ∈ B ↔ n ∈ l) :
    B.size = l.length := by
  have hnodup : B.toList.Nodup :=
    ExtTreeSet.distinct_toList.imp fun h he => h (LawfulEqCmp.compare_eq_iff_eq.mpr he)
  have hperm : B.toList.Perm l := (List.perm_ext_iff_of_nodup hnodup hl).mpr fun n => by
    rw [ExtTreeSet.mem_toList, h]
  rw [← ExtTreeSet.length_toList, hperm.length_eq]

theorem mem_vvNew_iff (h : f.Filled Hash s) (b : NewBucket) (k : Nat) :
    (k : Int) ∈ s.vvNew b ↔ f.InNew Hash b k := by
  rw [h.vvNew, InNew]
  split
  · rfl
  · rw [Int.toNat_natCast, and_iff_right (Int.natCast_nonneg k), Option.map_eq_some_iff]

theorem mem_vvNew_lt (h : f.Filled Hash s) (hnumbers : ∀ v ∈ f.visits, 0 ≤ v.2 ∧ v.2 < f.nNumbers Hash)
    {b : NewBucket} {n : Int} (hn : n ∈ s.vvNew b) : 0 ≤ n ∧ n < f.vNew.length := by
  rw [h.vvNew] at hn
  split at hn
  · rename_i hours
    have hvisit := hnumbers _ (mem_visits_of_places (List.mem_of_mem_take hn))
    rw [nNumbers, if_pos hours] at hvisit
    exact hvisit
  · obtain ⟨hpos, i, hi, -⟩ := hn
    have hlt := (List.getElem?_eq_some_iff.mp hi).1
    omega

/-- As many as get into a bucket. -/
theorem size_vvNew (h : f.Filled Hash s) (hnumbers : ∀ v ∈ f.visits, 0 ≤ v.2 ∧ v.2 < f.nNumbers Hash) (b : NewBucket) :
    (s.vvNew b).size = ((List.range f.vNew.length).filter fun k => decide (f.InNew Hash b k)).length := by
  have hinj : Function.Injective fun k : Nat => (k : Int) := fun a b h => Int.ofNat_inj.mp h
  rw [size_of_mem_iff ((List.nodup_range.filter _).map hinj) fun n => ?_, List.length_map]
  rw [List.mem_map]
  constructor
  · intro hn
    obtain ⟨hpos, hlt⟩ := mem_vvNew_lt h hnumbers hn
    have hcast : (n.toNat : Int) = n := Int.toNat_of_nonneg hpos
    refine ⟨n.toNat, List.mem_filter.mpr ⟨List.mem_range.mpr (by omega), decide_eq_true ?_⟩, hcast⟩
    rw [← mem_vvNew_iff h b n.toNat, hcast]
    exact hn
  · rintro ⟨k, hk, rfl⟩
    obtain ⟨-, hin⟩ := List.mem_filter.mp hk
    exact (mem_vvNew_iff h b k).mpr (of_decide_eq_true hin)

/-- The entries of a file that is checked have no address twice. -/
theorem addresses_of_checked (h : f.Filled Hash s) (hc : s.Checked) :
    ((f.entries Hash).map fun i => i.toCNetAddr).Nodup := by
  have hfind : ∀ (k : Nat) i, (f.entries Hash)[k]? = some i → s.mapAddr.lookup i.toCNetAddr = some (k : Int) := by
    intro k i hi
    have hentry := h.entry (k : Int) i (Int.natCast_nonneg k) (by rw [Int.toNat_natCast]; exact hi)
    have hok := (hc.entries _ _ hentry).mapAddr
    obtain ⟨n, hn⟩ := Option.isSome_iff_exists.mp (h.known i (List.mem_of_getElem? hi))
    have hok : (s.mapAddr.lookup i.toCNetAddr).getD 0 = (k : Int) := hok
    rw [hn] at hok ⊢
    exact congrArg some hok
  rw [List.nodup_iff_getElem?_ne_getElem?]
  intro j k hjk hk heq
  rw [List.length_map] at hk
  rw [List.getElem?_map, List.getElem?_map, List.getElem?_eq_getElem hk, List.getElem?_eq_getElem (by omega)] at heq
  have heq := Option.some.inj heq
  dsimp only at heq
  have hj := hfind j _ (List.getElem?_eq_getElem (by omega))
  have hk := hfind k _ (List.getElem?_eq_getElem hk)
  rw [heq, hk] at hj
  have := Int.ofNat_inj.mp (Option.some.inj hj)
  omega

/-- And its numbers are those of entries. -/
theorem numbers_of_checked (h : f.Filled Hash s) (hc : s.Checked) :
    ∀ v ∈ f.visits, 0 ≤ v.2 ∧ v.2 < f.nNumbers Hash := by
  rintro ⟨b, n⟩ hv
  have hin : 0 ≤ n ∧ n < (f.entries Hash).length := by
    by_contra hout
    have hother := h.other n hout
    rw [if_neg (places_ne_nil hv)] at hother
    obtain ⟨info, hinfo, hpos⟩ := hother
    have hplace := (hc.entries n info hinfo).place.1
    rw [hpos] at hplace
    exact absurd hplace (by decide)
  rw [nNumbers]
  split
  · rename_i hours
    refine ⟨hin.1, ?_⟩
    by_contra hlt
    -- a tried entry with a reference
    have hk : f.vNew.length ≤ n.toNat := by
      have : ¬ n < f.vNew.length := hlt
      omega
    have hlt : n.toNat < (f.entries Hash).length := by omega
    have hget := List.getElem?_eq_getElem hlt
    have hentry := h.entry n _ hin.1 hget
    rw [getElem?_entries_kept hk] at hget
    obtain ⟨info, hinfo, heq⟩ := Option.map_eq_some_iff.mp hget
    rw [← heq] at hentry
    have hzero := ((hc.entries n _ hentry).tried rfl).2
    have hplaced : ((placed f.visits n).length : Int) = 0 := by
      rw [refs, if_pos hours] at hzero
      exact hzero
    have hnil : placed f.visits n = [] := List.length_eq_zero_iff.mp (Int.ofNat_eq_zero.mp hplaced)
    rw [placed, List.take_eq_nil_iff] at hnil
    rcases hnil with hfour | hnil
    · exact absurd hfour (by decide)
    · exact places_ne_nil hv hnil
  · exact hin

/-- The references of an entry are as many as its buckets exactly if these are different. -/
theorem copies_eq_iff (h : f.Filled Hash s) (hours : f.Ours) (n : Int) :
    (copies s.vvNew n : Int) = (placed f.visits n).length ↔ (placed f.visits n).Nodup := by
  have hcopies : copies s.vvNew n = (placed f.visits n).toFinset.card := by
    unfold copies
    congr 1
    ext b
    rw [Finset.mem_filter, h.vvNew, if_pos hours, List.mem_toFinset, and_iff_right (Finset.mem_univ b)]
  rw [hcopies, Int.ofNat_inj, List.card_toFinset]
  exact ⟨fun heq => List.dedup_eq_self.mp ((List.dedup_sublist _).eq_of_length heq),
    fun hnd => congrArg List.length (List.dedup_eq_self.mpr hnd)⟩

/-- WHAT PASSES THE CHECK WAS SAFE. -/
theorem safe_of_checked (hf : f.Fits) (hbuckets : f.vvNew.length ≤ ADDRMAN_NEW_BUCKET_COUNT) (h : f.Filled Hash s)
    (hc : s.Checked) (hroom : ∀ b, (s.vvNew b).size ≤ ADDRMAN_NEW_BUCKET_SIZE) : f.Safe Hash := by
  have hnumbers := numbers_of_checked h hc
  refine ⟨addresses_of_checked h hc, fun i hi => ?_, fun i hi => ?_, hbuckets, hnumbers, fun hours k hk => ?_,
    fun b => ?_⟩
  · obtain ⟨k, hk⟩ := List.mem_iff_getElem?.mp hi
    have hlt := (List.getElem?_eq_some_iff.mp hk).1
    have hentry := h.entry (k : Int) (counted f.vvNew.length i) (Int.natCast_nonneg k) (by
      rw [Int.toNat_natCast, getElem?_entries_new hlt, hk]
      rfl)
    have hok := (hc.entries _ _ hentry).nLastSuccess
    rw [← (counted_fields i f.vvNew.length).2.1]
    exact hok
  · obtain ⟨k, hk⟩ := List.mem_iff_getElem?.mp hi
    have hget : (f.entries Hash)[f.vNew.length + k]? = some (tried i) := by
      rw [getElem?_entries_kept (Nat.le_add_right _ _), Nat.add_sub_cancel_left, hk]
      rfl
    have hentry := h.entry ((f.vNew.length + k : Nat) : Int) (tried i) (Int.natCast_nonneg _) (by
      rw [Int.toNat_natCast]
      exact hget)
    have hok := hc.entries _ _ hentry
    have hpos : 0 ≤ i.nLastSuccess := hok.nLastSuccess
    have hne : i.nLastSuccess ≠ 0 := (hok.tried rfl).1
    omega
  · obtain ⟨i, hi⟩ : ∃ i, f.vNew[k]? = some i := ⟨_, List.getElem?_eq_getElem hk⟩
    have hentry := h.entry (k : Int) (counted f.vvNew.length i) (Int.natCast_nonneg k) (by
      rw [Int.toNat_natCast, getElem?_entries_new hk, hi]
      rfl)
    rw [refs, if_pos hours] at hentry
    have huntried : (counted f.vvNew.length i).fInTried = false :=
      (counted_fields i f.vvNew.length).1.trans (hf.vNew i (List.mem_of_getElem? hi)).fInTried
    have hone : 1 ≤ ((placed f.visits k).length : Int) := ((hc.entries _ _ hentry).untried huntried).1
    refine ⟨fun hnil => ?_, (copies_eq_iff h hours k).mp ?_⟩
    · rw [placed, hnil, List.take_nil] at hone
      exact absurd hone (by decide)
    · rw [hc.refs k, hentry]
      show (if (counted f.vvNew.length i).fInTried = true then 0 else ((placed f.visits k).length : Int)) = _
      rw [huntried]
      rfl
  · rw [← size_vvNew h hnumbers]
    exact hroom b

/-- In a file that is sound every number is that of an entry. -/
theorem info_of_sound (h : f.Filled Hash s) (hsound : f.Sound Hash) {n : Int} {info : CAddrInfo}
    (hinfo : s.mapInfo[n]? = some info) :
    0 ≤ n ∧ ∃ i, (f.entries Hash)[n.toNat]? = some i ∧ info = { i with nRandomPos := n, nRefCount := f.refs n i } := by
  by_cases hn : 0 ≤ n ∧ n < (f.entries Hash).length
  · have hget := List.getElem?_eq_getElem (show n.toNat < (f.entries Hash).length by omega)
    have hentry := h.entry n _ hn.1 hget
    rw [hinfo] at hentry
    exact ⟨hn.1, _, hget, Option.some.inj hentry⟩
  · have hother := h.other n hn
    split at hother
    · rw [hinfo] at hother
      cases hother
    · rename_i hplaces
      obtain ⟨b, hb⟩ := List.exists_mem_of_ne_nil _ hplaces
      have hlt := hsound.numbers _ (mem_visits_of_places hb)
      have hall : f.nNumbers Hash ≤ (f.entries Hash).length := by
        rw [nNumbers, length_entries]
        split
        · omega
        · omega
      exact absurd ⟨hlt.1, by have := hlt.2; omega⟩ hn

/-- A new entry, or a tried one. -/
theorem entries_cases {k : Nat} {i : CAddrInfo} (hi : (f.entries Hash)[k]? = some i) :
    (k < f.vNew.length ∧ ∃ info, f.vNew[k]? = some info ∧ i = counted f.vvNew.length info) ∨
    (f.vNew.length ≤ k ∧ ∃ info, (f.kept Hash)[k - f.vNew.length]? = some info ∧ i = tried info) := by
  rcases Nat.lt_or_ge k f.vNew.length with hlt | hge
  · rw [getElem?_entries_new hlt] at hi
    obtain ⟨info, hinfo, rfl⟩ := Option.map_eq_some_iff.mp hi
    exact Or.inl ⟨hlt, info, hinfo, rfl⟩
  · rw [getElem?_entries_kept hge] at hi
    obtain ⟨info, hinfo, rfl⟩ := Option.map_eq_some_iff.mp hi
    exact Or.inr ⟨hge, info, hinfo, rfl⟩

theorem mem_numbersIn {nKey : List UInt8} {k : Nat} {kept : List CAddrInfo} {b : TriedBucket} {n : Int} :
    n ∈ numbersIn Hash nKey k kept b ↔
      ∃ j info, kept[j]? = some info ∧ n = (k + j : Nat) ∧ getTriedBucket Hash nKey info.toCService = b := by
  rw [numbersIn, List.mem_map]
  constructor
  · rintro ⟨⟨info, j⟩, hmem, rfl⟩
    obtain ⟨hmem, hb⟩ := List.mem_filter.mp hmem
    obtain ⟨hle, hget⟩ := List.mk_mem_zipIdx_iff_le_and_getElem?_sub.mp hmem
    exact ⟨j - k, info, hget, by rw [Nat.add_sub_cancel' hle], of_decide_eq_true hb⟩
  · rintro ⟨j, info, hget, rfl, hb⟩
    refine ⟨(info, k + j), List.mem_filter.mpr ⟨?_, decide_eq_true hb⟩, rfl⟩
    rw [List.mk_mem_zipIdx_iff_le_and_getElem?_sub, Nat.add_sub_cancel_left]
    exact ⟨Nat.le_add_right k j, hget⟩

theorem nodup_numbersIn {nKey : List UInt8} {k : Nat} {kept : List CAddrInfo} {b : TriedBucket} :
    (numbersIn Hash nKey k kept b).Nodup := by
  have hsub : ((kept.zipIdx k).filter fun p => decide (getTriedBucket Hash nKey p.1.toCService = b)).map Prod.snd
      |>.Sublist ((kept.zipIdx k).map Prod.snd) := List.filter_sublist.map _
  have hnd : ((kept.zipIdx k).map Prod.snd).Nodup := by
    rw [List.zipIdx_map_snd]
    exact List.nodup_range'
  have hmap := (hnd.sublist hsub).map (f := fun j : Nat => (j : Int)) fun a b h => Int.ofNat_inj.mp h
  rw [List.map_map] at hmap
  exact hmap

theorem sum_inBucket {nKey : List UInt8} (l : List CAddrInfo) : ∑ b, (inBucket Hash nKey b l).length = l.length := by
  induction l with
  | nil => exact Finset.sum_const_zero
  | cons info l ih =>
    have hcons : ∀ b, (inBucket Hash nKey b (info :: l)).length =
        (inBucket Hash nKey b l).length + if getTriedBucket Hash nKey info.toCService = b then 1 else 0 := by
      intro b
      rw [inBucket, List.filter_cons]
      by_cases hb : getTriedBucket Hash nKey info.toCService = b
      · rw [if_pos (decide_eq_true hb), if_pos hb, List.length_cons]
        rfl
      · rw [if_neg (by rw [decide_eq_false hb]; decide), if_neg hb]
        rfl
    rw [Finset.sum_congr rfl fun b _ => hcons b, Finset.sum_add_distrib, ih, Finset.sum_ite_eq, if_pos (Finset.mem_univ _),
      List.length_cons]

theorem addr_of_sound (h : f.Filled Hash s) (hsound : f.Sound Hash) (a : CNetAddr) (n : Int) :
    s.mapAddr.lookup a = some n ↔ ∃ info : CAddrInfo, s.mapInfo[n]? = some info ∧ info.toCNetAddr = a := by
  constructor
  · intro hlookup
    obtain ⟨hn, i, hi, rfl⟩ := h.lookup a n hlookup
    exact ⟨_, h.entry n i hn hi, rfl⟩
  · rintro ⟨info, hinfo, rfl⟩
    obtain ⟨hn, i, hi, rfl⟩ := info_of_sound h hsound hinfo
    obtain ⟨m, hm⟩ := Option.isSome_iff_exists.mp (h.known i (List.mem_of_getElem? hi))
    obtain ⟨hm0, j, hj, heq⟩ := h.lookup _ m hm
    -- the address is that of one entry only
    have hsame : m.toNat = n.toNat := by
      have hlt : m.toNat < ((f.entries Hash).map fun i => i.toCNetAddr).length := by
        rw [List.length_map]
        exact (List.getElem?_eq_some_iff.mp hj).1
      refine (List.getElem?_inj hlt hsound.addresses).mp ?_
      rw [List.getElem?_map, List.getElem?_map, hj, hi]
      exact congrArg some heq
    have hmn : m = n := by omega
    show s.mapAddr.lookup i.toCNetAddr = some n
    rw [hm, hmn]

theorem positioned_of_sound (h : f.Filled Hash s) (hsound : f.Sound Hash) :
    Positioned s.vRandom fun n : Int => (s.mapInfo[n]?).map (·.nRandomPos) := by
  intro n i
  rw [h.random, List.getElem?_map, Option.map_eq_some_iff, Option.map_eq_some_iff]
  constructor
  · rintro ⟨info, hinfo, rfl⟩
    obtain ⟨hn, i, hi, rfl⟩ := info_of_sound h hsound hinfo
    refine ⟨hn, n.toNat, ?_, Int.toNat_of_nonneg hn⟩
    exact List.getElem?_range (List.getElem?_eq_some_iff.mp hi).1
  · rintro ⟨hi, k, hk, rfl⟩
    obtain ⟨hlt, heq⟩ := List.getElem?_eq_some_iff.mp hk
    rw [List.getElem_range] at heq
    rw [List.length_range] at hlt
    have hget := List.getElem?_eq_getElem (show (k : Int).toNat < (f.entries Hash).length by omega)
    refine ⟨_, h.entry (k : Int) _ (Int.natCast_nonneg k) hget, ?_⟩
    show (k : Int) = i
    omega

/-- An entry that was tried is in no new bucket. -/
theorem placed_of_tried (hsound : f.Sound Hash) (hours : f.Ours) {n : Int} (hn : (f.vNew.length : Int) ≤ n) :
    placed f.visits n = [] := by
  by_contra hne
  obtain ⟨b, hb⟩ := List.exists_mem_of_ne_nil _ hne
  have hlt := (hsound.numbers _ (mem_visits_of_places (List.mem_of_mem_take hb))).2
  rw [nNumbers, if_pos hours] at hlt
  have hlt : n < f.vNew.length := hlt
  omega

theorem refs_of_sound (hf : f.Fits) (h : f.Filled Hash s) (hsound : f.Sound Hash) {n : Int} {i : CAddrInfo}
    (hn : 0 ≤ n) (hi : (f.entries Hash)[n.toNat]? = some i) : f.refs n i = (copies s.vvNew n : Int) := by
  by_cases hours : f.Ours
  · rw [refs, if_pos hours]
    refine ((copies_eq_iff h hours n).mpr ?_).symm
    rcases entries_cases hi with ⟨hlt, -⟩ | ⟨hge, -⟩
    · have hnd := (hsound.named hours n.toNat hlt).2
      rw [Int.toNat_of_nonneg hn] at hnd
      exact hnd
    · rw [placed_of_tried hsound hours (by omega)]
      exact List.nodup_nil
  · have hU : (f.vvNew.length : Int) ≠ ADDRMAN_NEW_BUCKET_COUNT := fun h => hours (Int.ofNat_inj.mp h)
    rw [refs, if_neg hours]
    rcases entries_cases hi with ⟨hlt, info, hinfo, rfl⟩ | ⟨hge, info, hinfo, rfl⟩
    · -- it is in the bucket it has with its own source
      have hone : copies s.vvNew n = 1 := by
        have hfilter : (Finset.univ.filter fun b => n ∈ s.vvNew b) = {ownBucket Hash f.nKey info} := by
          ext b
          rw [Finset.mem_filter, h.vvNew, if_neg hours, Finset.mem_singleton, and_iff_right (Finset.mem_univ b),
            and_iff_right hn, hinfo]
          constructor
          · rintro ⟨i, hi, rfl⟩
            cases hi
            rfl
          · rintro rfl
            exact ⟨info, rfl, rfl⟩
        unfold copies
        rw [hfilter, Finset.card_singleton]
      have hzero := (hf.vNew info (List.mem_of_getElem? hinfo)).nRefCount
      rw [hone, counted, if_pos hU]
      show info.nRefCount + 1 = 1
      rw [hzero]
      rfl
    · have hnone : copies s.vvNew n = 0 := by
        refine copies_eq_zero.mpr fun b hb => ?_
        have hlt := (mem_vvNew_lt h hsound.numbers hb).2
        omega
      rw [hnone]
      exact (hf.vTried info (mem_vTried_of_mem_kept (List.mem_of_getElem? hinfo))).nRefCount

theorem mem_vvTried_of_sound (hf : f.Fits) (h : f.Filled Hash s) (hsound : f.Sound Hash) (b : TriedBucket) (n : Int) :
    n ∈ s.vvTried b ↔ ∃ info : CAddrInfo, s.mapInfo[n]? = some info ∧ info.fInTried = true ∧
      getTriedBucket Hash s.nKey info.toCService = b := by
  rw [h.vvTried, mem_numbersIn, h.nKey]
  constructor
  · rintro ⟨j, info, hinfo, rfl, hb⟩
    refine ⟨_, h.entry _ (tried info) (Int.natCast_nonneg _) ?_, rfl, hb⟩
    rw [Int.toNat_natCast, getElem?_entries_kept (Nat.le_add_right _ _), Nat.add_sub_cancel_left, hinfo]
    rfl
  · rintro ⟨info, hinfo, htried, hb⟩
    obtain ⟨hn, i, hi, rfl⟩ := info_of_sound h hsound hinfo
    rcases entries_cases hi with ⟨-, info, hget, rfl⟩ | ⟨hge, info, hget, rfl⟩
    · have hfalse := (hf.vNew info (List.mem_of_getElem? hget)).fInTried
      have htrue : (counted f.vvNew.length info).fInTried = true := htried
      rw [(counted_fields info f.vvNew.length).1, hfalse] at htrue
      cases htrue
    · exact ⟨n.toNat - f.vNew.length, info, hget, by omega, hb⟩

theorem nTried_of_filled (h : f.Filled Hash s) : s.nTried = ((∑ b, (s.vvTried b).length : Nat) : Int) := by
  have hlength : ∀ b, (s.vvTried b).length = (inBucket Hash f.nKey b (f.kept Hash)).length := by
    intro b
    rw [h.vvTried, length_numbersIn]
  have hsum : ∑ b, (s.vvTried b).length = (f.kept Hash).length :=
    (Finset.sum_congr rfl fun b _ => hlength b).trans (sum_inBucket (f.kept Hash))
  rw [h.nTried, hsum]

/-- WHAT IS SOUND FITS TOGETHER. -/
theorem tied_of_sound (hf : f.Fits) (h : f.Filled Hash s) (hsound : f.Sound Hash) : s.Tied Hash where
  addr := addr_of_sound h hsound
  random := positioned_of_sound h hsound
  refs n info hinfo := by
    obtain ⟨hn, i, hi, rfl⟩ := info_of_sound h hsound hinfo
    exact refs_of_sound hf h hsound hn hi
  untried b n hn := by
    obtain ⟨hpos, hlt⟩ := mem_vvNew_lt h hsound.numbers hn
    have hlt : n.toNat < f.vNew.length := by omega
    have hget := List.getElem?_eq_getElem hlt
    refine ⟨_, h.entry n _ hpos (by rw [getElem?_entries_new hlt, hget]; rfl), ?_⟩
    exact (counted_fields _ _).1.trans (hf.vNew _ (List.mem_of_getElem? hget)).fInTried
  tried := mem_vvTried_of_sound hf h hsound
  triedNodup b := by
    rw [h.vvTried]
    exact nodup_numbersIn
  nTried := nTried_of_filled h
  count := by
    rw [h.random, List.length_map, List.length_range, h.nTried, h.nNew, length_entries]
    omega

theorem refs_le_of_sound (hf : f.Fits) (hsound : f.Sound Hash) {n : Int} {i : CAddrInfo}
    (hi : (f.entries Hash)[n.toNat]? = some i) :
    f.refs n i ≤ ADDRMAN_NEW_BUCKETS_PER_ADDRESS ∧ (i.fInTried = false → 0 ≤ n → 1 ≤ f.refs n i) := by
  by_cases hours : f.Ours
  · rw [refs, if_pos hours]
    refine ⟨?_, fun huntried hn => ?_⟩
    · have hle : (placed f.visits n).length ≤ 4 := List.length_take_le _ _
      show ((placed f.visits n).length : Int) ≤ 4
      omega
    · rcases entries_cases hi with ⟨hlt, -⟩ | ⟨-, info, -, rfl⟩
      · have hne := (hsound.named hours n.toNat hlt).1
        rw [Int.toNat_of_nonneg hn] at hne
        have hpos : 0 < (placed f.visits n).length := by
          rw [List.length_pos_iff, placed, Ne, List.take_eq_nil_iff]
          rintro (hfour | hnil)
          · exact absurd hfour (by decide)
          · exact hne hnil
        omega
      · cases huntried
  · have hU : (f.vvNew.length : Int) ≠ ADDRMAN_NEW_BUCKET_COUNT := fun h => hours (Int.ofNat_inj.mp h)
    rw [refs, if_neg hours]
    rcases entries_cases hi with ⟨-, info, hinfo, rfl⟩ | ⟨-, info, hinfo, rfl⟩
    · have hone : (counted f.vvNew.length info).nRefCount = 1 := by
        rw [counted, if_pos hU]
        show info.nRefCount + 1 = 1
        rw [(hf.vNew info (List.mem_of_getElem? hinfo)).nRefCount]
        rfl
      rw [hone]
      exact ⟨by decide, fun _ _ => Int.le_refl 1⟩
    · have hzero : (tried info).nRefCount = 0 :=
        (hf.vTried info (mem_vTried_of_mem_kept (List.mem_of_getElem? hinfo))).nRefCount
      rw [hzero]
      refine ⟨by decide, fun huntried => ?_⟩
      cases huntried

theorem dated_of_sound (hf : f.Fits) (hsound : f.Sound Hash) {i : CAddrInfo} (hi : i ∈ f.entries Hash) : i.Dated := by
  rcases List.mem_append.mp hi with hi | hi
  · obtain ⟨info, hinfo, rfl⟩ := List.mem_map.mp hi
    obtain ⟨hflag, hsuccess, htry, -⟩ := counted_fields info f.vvNew.length
    have hdisk := hf.vNew info hinfo
    refine ⟨?_, ?_, fun htried => ?_⟩
    · rw [htry, hdisk.nLastTry]
    · rw [hsuccess]
      exact hsound.newTimes info hinfo
    · rw [hflag, hdisk.fInTried] at htried
      cases htried
  · obtain ⟨info, hinfo, rfl⟩ := List.mem_map.mp hi
    have hdisk := hf.vTried info (mem_vTried_of_mem_kept hinfo)
    have hpos := hsound.keptTimes info hinfo
    refine ⟨?_, hpos.le, fun _ => ?_⟩
    · show 0 ≤ info.nLastTry
      rw [hdisk.nLastTry]
    · show info.nLastSuccess ≠ 0
      omega

/-- WHAT IS SOUND PASSES THE CHECK. -/
theorem checked_of_sound (hf : f.Fits) (h : f.Filled Hash s) (hsound : f.Sound Hash) : s.Checked := by
  have hheld : Held s := by
    intro n info hinfo huntried
    obtain ⟨hn, i, hi, rfl⟩ := info_of_sound h hsound hinfo
    obtain ⟨hle, hone⟩ := refs_le_of_sound hf hsound hi
    exact ⟨hone huntried hn, hle⟩
  refine ((tied_of_sound hf h hsound).checked_iff hheld).mpr fun n info hinfo => ?_
  obtain ⟨-, i, hi, rfl⟩ := info_of_sound h hsound hinfo
  obtain ⟨htry, hsuccess, htried⟩ := dated_of_sound hf hsound (List.mem_of_getElem? hi)
  exact ⟨htry, hsuccess, htried⟩

/-- READING AN ADDRESS FILE keeps within the tables, and ends in a state that passes the check and has no bucket and
    no entry beyond its limit, EXACTLY IF the file is safe. -/
theorem unserialize_iff (Hash : List UInt8 → Uint256) (f : PeersFile) (hf : f.Fits) (nVersion : UInt32)
    (rest : List UInt8) (c : Bool) :
    (∃ s r, (CAddrMan.unserialize Hash).run ⟨f.serialize nVersion ++ rest, c⟩ = some (some s, r) ∧
      s.check = .ok () ∧ (∀ b, (s.vvNew b).size ≤ ADDRMAN_NEW_BUCKET_SIZE) ∧
      ∀ (n : Int) (info : CAddrInfo), s.mapInfo[n]? = some info →
        info.nRefCount ≤ ADDRMAN_NEW_BUCKETS_PER_ADDRESS) ↔ f.Safe Hash := by
  obtain ⟨hfew, hmany⟩ := run_unserialize Hash hf nVersion rest c
  have hfilled := @loaded_filled Hash f hf
  constructor
  · rintro ⟨s, r, hrun, hcheck, hroom, -⟩
    rcases Nat.lt_or_ge ADDRMAN_NEW_BUCKET_COUNT f.vvNew.length with hgt | hle
    · obtain ⟨r', hnone⟩ := hmany hgt
      rw [hnone] at hrun
      cases hrun
    · rw [hfew hle] at hrun
      cases hrun
      exact safe_of_checked hf hle hfilled (check_eq_ok.mp hcheck) hroom
  · intro hsafe
    have hsound := hsafe.sound
    refine ⟨_, _, hfew hsafe.buckets, check_eq_ok.mpr (checked_of_sound hf hfilled hsound), fun b => ?_,
      fun n info hinfo => ?_⟩
    · rw [size_vvNew hfilled hsound.numbers]
      exact hsafe.room b
    · obtain ⟨-, i, hi, rfl⟩ := info_of_sound hfilled hsound hinfo
      exact (refs_le_of_sound hf hsound hi).1

end Final

/-! ## Files that are not -/

/-- 8.8.0.k, heard of from 8.8.8.8. -/
def host (k : UInt8) : CAddrInfo :=
  CAddrInfo.ofAddress
    ⟨⟨⟨⟨#[0, 0, 0, 0, 0, 0, 0, 0, 0, 0, 0xff, 0xff, 8, 8, 0, k], rfl⟩⟩, 15714⟩, NODE_NETWORK, 1400000000, 0⟩
    someHost.toCNetAddr

theorem fits_zero : FitsInt 8 0 ∧ FitsInt 4 0 := by decide

theorem host_onDisk (k : UInt8) : (host k).OnDisk := ⟨rfl, rfl, rfl, rfl, fits_zero.1, fits_zero.2⟩

/-- One bucket more than ours. -/
def moreBuckets : PeersFile := ⟨[], [], [], List.replicate 257 []⟩

/-- One bucket, with the number of no entry. -/
def strayNumber : PeersFile := ⟨[], [], [], [[7]]⟩

/-- Without buckets, and one entry of a group more than a bucket takes. -/
def oneGroup : PeersFile := ⟨[], (List.range 65).map fun k => host (UInt8.ofNat k), [], []⟩

theorem moreBuckets_fits : moreBuckets.Fits where
  nKey := Nat.zero_le _
  nNew := by decide
  nTried := by decide
  nUBuckets := by decide +kernel
  vNew := fun info h => absurd h List.not_mem_nil
  vTried := fun info h => absurd h List.not_mem_nil
  vvNew := by
    intro vNew h
    rw [List.eq_of_mem_replicate h]
    exact ⟨by decide, fun n hn => absurd hn List.not_mem_nil⟩

theorem strayNumber_fits : strayNumber.Fits where
  nKey := Nat.zero_le _
  nNew := by decide
  nTried := by decide
  nUBuckets := by decide
  vNew := fun info h => absurd h List.not_mem_nil
  vTried := fun info h => absurd h List.not_mem_nil
  vvNew := by decide

theorem oneGroup_fits : oneGroup.Fits where
  nKey := Nat.zero_le _
  nNew := by decide
  nTried := by decide
  nUBuckets := by decide
  vNew := by
    intro info h
    obtain ⟨k, -, rfl⟩ := List.mem_map.mp h
    exact host_onDisk _
  vTried := fun info h => absurd h List.not_mem_nil
  vvNew := fun vNew h => absurd h List.not_mem_nil

/-- The bucket depends on the groups only. -/
theorem getNewBucket_congr (Hash : List UInt8 → Uint256) (nKey : List UInt8) {a a' : CNetAddr} (src : CNetAddr)
    (h : a.getGroup = a'.getGroup) : getNewBucket Hash nKey a src = getNewBucket Hash nKey a' src := by
  unfold getNewBucket
  simp only [h]

theorem getGroup_host : ∀ k < 65, (host (UInt8.ofNat k)).toCNetAddr.getGroup = (host 0).toCNetAddr.getGroup := by
  decide

/-- A file with another number of buckets is read out of range, or into tables that do not pass the check, or
    into a bucket that is overfull. -/
theorem otherBuckets_unsafe :
    (∀ Hash nVersion, ∃ r, (CAddrMan.unserialize Hash).run ⟨moreBuckets.serialize nVersion ++ [], true⟩ =
      some (none, r)) ∧
    (∀ Hash nVersion, ∃ s r, (CAddrMan.unserialize Hash).run ⟨strayNumber.serialize nVersion ++ [], true⟩ =
      some (some s, r) ∧ s.check ≠ .ok ()) ∧
    ∀ Hash nVersion, ∃ s r b, (CAddrMan.unserialize Hash).run ⟨oneGroup.serialize nVersion ++ [], true⟩ =
      some (some s, r) ∧ ADDRMAN_NEW_BUCKET_SIZE < (s.vvNew b).size := by
  refine ⟨fun Hash nVersion => ?_, fun Hash nVersion => ?_, fun Hash nVersion => ?_⟩
  · exact (run_unserialize Hash moreBuckets_fits nVersion [] true).2 (by decide +kernel)
  · refine ⟨_, _, (run_unserialize Hash strayNumber_fits nVersion [] true).1 (by decide), fun hcheck => ?_⟩
    have hnumbers := numbers_of_checked (loaded_filled strayNumber_fits) (check_eq_ok.mp hcheck)
    have hlt : (7 : Int) < (strayNumber.nNumbers Hash : Nat) := (hnumbers _ List.mem_cons_self).2
    have hzero : strayNumber.nNumbers Hash = 0 := rfl
    rw [hzero] at hlt
    exact absurd hlt (by decide)
  · refine ⟨_, _, ownBucket Hash [] (host 0), (run_unserialize Hash oneGroup_fits nVersion [] true).1 (by decide), ?_⟩
    have hnumbers : ∀ v ∈ oneGroup.visits, 0 ≤ v.2 ∧ v.2 < oneGroup.nNumbers Hash :=
      fun v hv => absurd hv List.not_mem_nil
    rw [size_vvNew (loaded_filled oneGroup_fits) hnumbers]
    have hall : ∀ k ∈ List.range 65, decide (oneGroup.InNew Hash (ownBucket Hash [] (host 0)) k) = true := by
      intro k hk
      have hlt := List.mem_range.mp hk
      have hget : oneGroup.vNew[k]? = some (host (UInt8.ofNat k)) := by
        show ((List.range 65).map fun k => host (UInt8.ofNat k))[k]? = _
        rw [List.getElem?_map, List.getElem?_range hlt]
        rfl
      refine decide_eq_true ?_
      rw [InNew, if_neg (by decide), hget]
      exact congrArg some (getNewBucket_congr Hash [] someHost.toCNetAddr (getGroup_host k hlt))
    have hlength : oneGroup.vNew.length = 65 := by
      show ((List.range 65).map _).length = 65
      rw [List.length_map, List.length_range]
    rw [hlength, List.filter_eq_self.mpr hall, List.length_range]
    decide

/-- A new entry and a tried one, and three buckets. -/
def twoHosts : PeersFile := ⟨[], [host 1], [{ host 2 with nLastSuccess := 1400000000 }], [[0], [], [1]]⟩

theorem twoHosts_fits : twoHosts.Fits where
  nKey := Nat.zero_le _
  nNew := by decide
  nTried := by decide
  nUBuckets := by decide
  vNew := by
    intro info h
    rw [List.mem_singleton.mp h]
    exact host_onDisk 1
  vTried := by
    intro info h
    rw [List.mem_singleton.mp h]
    exact ⟨rfl, rfl, rfl, rfl, by decide, fits_zero.2⟩
  vvNew := by decide

theorem twoHosts_safe : twoHosts.Safe fun _ => 0 where
  addresses := by decide
  newTimes := by decide
  keptTimes := by decide
  buckets := by decide
  numbers := by decide
  named := fun h => absurd h (by decide)
  room b := (List.length_filter_le _ _).trans (by decide)

theorem twoHosts_read : ∃ s r, (CAddrMan.unserialize fun _ => 0).run ⟨twoHosts.serialize 60006 ++ [], true⟩ =
      some (some s, r) ∧
    s.check = .ok () ∧ (∀ b, (s.vvNew b).size ≤ ADDRMAN_NEW_BUCKET_SIZE) ∧
    ∀ (n : Int) (info : CAddrInfo), s.mapInfo[n]? = some info → info.nRefCount ≤ ADDRMAN_NEW_BUCKETS_PER_ADDRESS :=
  (unserialize_iff (fun _ => 0) twoHosts twoHosts_fits 60006 [] true).mpr twoHosts_safe

end PeersFile

end Silkcoin
