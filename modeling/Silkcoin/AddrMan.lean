/-
  The ADDRESS MANAGER (addrman.h, addrman.cpp): its five linked containers, and the calls that change them.

  An address that was heard of goes into up to four of the 256 `new` buckets, one that was connected to
  into one of the 64 `tried` buckets.  `mapInfo` holds the entries by number, `mapAddr` finds the number of
  an address, and `vRandom` holds all numbers in random order; every entry knows its place there, the
  number of buckets that refer to it, and whether it was tried.  `ShrinkNew` makes room in a full `new`
  bucket, and `MakeTried` moves an entry over, back in exchange for an older one if its bucket is full.

  A call is given the numbers it draws (`rand`) and the times it reads from the clock, in their order.  It
  ends in `none` where an `assert` of the source fails, or where it uses a number that has no entry.
  The two comparisons of `Select` that are made in floating point are given from outside.
  `check` is `Check_`, with the code it returns.
-/
import Silkcoin.NetAddr
import Silkcoin.Amount
import Silkcoin.Lib.Store
import Silkcoin.Lib.Buckets
import Silkcoin.Lib.Positions
import Mathlib.Data.Finset.Sort

namespace Silkcoin

open BatchStore Validation Buckets Std

def ADDRMAN_NEW_BUCKETS_PER_ADDRESS : Int := 4
def ADDRMAN_TRIED_ENTRIES_INSPECT_ON_EVICT : Nat := 4
def ADDRMAN_HORIZON_DAYS : Int := 30
def ADDRMAN_RETRIES : Int := 3
def ADDRMAN_MAX_FAILURES : Int := 10
def ADDRMAN_MIN_FAIL_DAYS : Int := 7
def ADDRMAN_GETADDR_MAX_PCT : Nat := 23
def ADDRMAN_GETADDR_MAX : Nat := 2500

/-- `GetRandInt`, of what the generator gives. -/
def getRandInt (nRand nMax : Nat) : Nat := if nMax = 0 then 0 else nRand % nMax

/-! ## Entries -/

structure CAddrInfo extends CAddress where
  source : CNetAddr
  nLastSuccess : Int
  nAttempts : Int
  nRefCount : Int
  fInTried : Bool
  nRandomPos : Int
deriving DecidableEq, Repr

namespace CAddrInfo

def ofAddress (addrIn : CAddress) (addrSource : CNetAddr) : CAddrInfo where
  toCAddress := { addrIn with nLastTry := 0 }
  source := addrSource
  nLastSuccess := 0
  nAttempts := 0
  nRefCount := 0
  fInTried := false
  nRandomPos := -1

/-- `nTime`, as it is compared with an `int64_t`. -/
def seen (a : CAddress) : Int := a.nTime.toNat

def isTerrible (info : CAddrInfo) (nNow : Int) : Bool :=
  if info.nLastTry ≠ 0 ∧ info.nLastTry ≥ int64 (nNow - 60) then false
  else if seen info.toCAddress > int64 (nNow + 10 * 60) then true
  else if info.nTime = 0 ∨ int64 (nNow - seen info.toCAddress) > ADDRMAN_HORIZON_DAYS * 86400 then true
  else if info.nLastSuccess = 0 ∧ info.nAttempts ≥ ADDRMAN_RETRIES then true
  else decide (int64 (nNow - info.nLastSuccess) > ADDRMAN_MIN_FAIL_DAYS * 86400 ∧
    info.nAttempts ≥ ADDRMAN_MAX_FAILURES)

end CAddrInfo

/-! ## The containers -/

structure CAddrMan where
  nKey : List UInt8
  nIdCount : Int
  mapInfo : ExtTreeMap Int CAddrInfo
  mapAddr : StdMap CNetAddr Int
  vRandom : List Int
  nTried : Int
  vvTried : TriedBucket → List Int
  nNew : Int
  vvNew : NewBucket → ExtTreeSet Int

namespace CAddrMan

/-- What the constructor makes. -/
def empty (nKey : List UInt8) : CAddrMan :=
  ⟨nKey, 0, ∅, ∅, [], 0, fun _ => [], 0, fun _ => ∅⟩

variable (Hash : List UInt8 → Uint256) (s : CAddrMan)

def setInfo (nId : Int) (info : CAddrInfo) : CAddrMan := { s with mapInfo := s.mapInfo.insert nId info }

def insertNew (nUBucket : NewBucket) (nId : Int) : CAddrMan :=
  { s with vvNew := Function.update s.vvNew nUBucket ((s.vvNew nUBucket).insert nId) }

def eraseNew (nUBucket : NewBucket) (nId : Int) : CAddrMan :=
  { s with vvNew := Function.update s.vvNew nUBucket ((s.vvNew nUBucket).erase nId) }

def setTried (nKBucket : TriedBucket) (vTried : List Int) : CAddrMan :=
  { s with vvTried := Function.update s.vvTried nKBucket vTried }

def find (addr : CNetAddr) : Option (Int × CAddrInfo) := do
  let nId ← s.mapAddr.lookup addr
  let info ← s.mapInfo[nId]?
  return (nId, info)

/-- The new entry has the number `nIdCount`. -/
def create (addr : CAddress) (addrSource : CNetAddr) : CAddrMan :=
  { s with
    nIdCount := s.nIdCount + 1
    mapInfo := s.mapInfo.insert s.nIdCount
      { CAddrInfo.ofAddress addr addrSource with nRandomPos := s.vRandom.length }
    mapAddr := s.mapAddr.insert addr.toCNetAddr s.nIdCount
    vRandom := s.vRandom ++ [s.nIdCount] }

/-- A negative position is a large one as an `unsigned int`. -/
def swapRandom (nRndPos1 nRndPos2 : Int) : Option CAddrMan :=
  if nRndPos1 = nRndPos2 then some s
  else if 0 ≤ nRndPos1 ∧ 0 ≤ nRndPos2 then do
    let nId1 ← s.vRandom[nRndPos1.toNat]?
    let nId2 ← s.vRandom[nRndPos2.toNat]?
    let info1 ← s.mapInfo[nId1]?
    let info2 ← s.mapInfo[nId2]?
    return { s with
      mapInfo := (s.mapInfo.insert nId1 { info1 with nRandomPos := nRndPos2 }).insert nId2
        { info2 with nRandomPos := nRndPos1 }
      vRandom := (s.vRandom.set nRndPos1.toNat nId2).set nRndPos2.toNat nId1 }
  else none

/-! ## Making room in a new bucket -/

/-- The entry that stands last in `vRandom` is deleted. -/
def deleteLast (nId : Int) (addr : CNetAddr) : CAddrMan :=
  { s with
    vRandom := s.vRandom.dropLast
    mapAddr := s.mapAddr.erase addr
    mapInfo := s.mapInfo.erase nId
    nNew := s.nNew - 1 }

/-- One reference less, and the entry is deleted with the last. -/
def dropReference (nId : Int) : Option CAddrMan := do
  let info ← s.mapInfo[nId]?
  let s := s.setInfo nId { info with nRefCount := info.nRefCount - 1 }
  if info.nRefCount - 1 = 0 then do
    let s ← s.swapRandom info.nRandomPos ((s.vRandom.length : Int) - 1)
    return s.deleteLast nId info.toCNetAddr
  else return s

/-- The first loop of `ShrinkNew`; the clock is read for every entry it comes to. -/
def firstTerrible (clock : Nat → Int) : Nat → List Int → Option (Option Int)
  | _, [] => some none
  | i, nId :: vNew => do
    let info ← s.mapInfo[nId]?
    if info.isTerrible (clock i) then return some nId else firstTerrible clock (i + 1) vNew

/-- The second loop: of the entries at the places `n`, the one not seen for the longest time. -/
def oldestAmong (n : List Nat) : Nat → Int → List Int → Option Int
  | _, nOldest, [] => some nOldest
  | nI, nOldest, nId :: vNew =>
    if nI ∈ n then do
      let info ← s.mapInfo[nId]?
      if nOldest = -1 then oldestAmong n (nI + 1) nId vNew
      else do
        let oldest ← s.mapInfo[nOldest]?
        oldestAmong n (nI + 1) (if info.nTime < oldest.nTime then nId else nOldest) vNew
    else oldestAmong n (nI + 1) nOldest vNew

def shrinkNew (clock : Nat → Int) (rand : Nat → Nat) (nUBucket : NewBucket) : Option (CAddrMan × Int) := do
  let terrible ← s.firstTerrible clock 0 (s.vvNew nUBucket).toList
  match terrible with
  | some nId => do
    let s ← s.dropReference nId
    return (s.eraseNew nUBucket nId, 0)
  | none => do
    let size := (s.vvNew nUBucket).size
    let n := [getRandInt (rand 0) size, getRandInt (rand 1) size, getRandInt (rand 2) size, getRandInt (rand 3) size]
    let nOldest ← s.oldestAmong n 0 (-1) (s.vvNew nUBucket).toList
    let s ← s.dropReference nOldest
    return (s.eraseNew nUBucket nOldest, 1)

/-! ## Moving an entry to the tried table -/

/-- One round of `SelectTried`: the bucket, the oldest so far, and the position it was drawn from. -/
def inspect (rand : Nat → Nat) (r : List Int × Int × Int) (i : Nat) : Option (List Int × Int × Int) := do
  let (vTried, nOldest, nOldestPos) := r
  let nPos := getRandInt (rand i) (vTried.length - i) + i
  let nTemp ← vTried[nPos]?
  let first ← vTried[i]?
  let vTried := (vTried.set nPos first).set i nTemp
  let info ← s.mapInfo[nTemp]?
  if nOldest = -1 then return (vTried, nTemp, (nPos : Int))
  else do
    let oldest ← s.mapInfo[nOldest]?
    if info.nLastSuccess < oldest.nLastSuccess then return (vTried, nTemp, (nPos : Int))
    else return (vTried, nOldest, nOldestPos)

def selectTried (rand : Nat → Nat) (nKBucket : TriedBucket) : Option (CAddrMan × Int) := do
  let rounds := min ADDRMAN_TRIED_ENTRIES_INSPECT_ON_EVICT (s.vvTried nKBucket).length
  let (vTried, _, nOldestPos) ← (List.range rounds).foldlM (s.inspect rand) (s.vvTried nKBucket, -1, -1)
  return (s.setTried nKBucket vTried, nOldestPos)

/-- The entry goes out of all new buckets, with one reference less for each. -/
def eraseAllNew (nId : Int) : CAddrMan :=
  { s with vvNew := fun b => (s.vvNew b).erase nId, nNew := s.nNew - 1 }

/-- An entry that was tried goes back to a new bucket: to its own one if there is place, otherwise to the
    one that was just made free. -/
def evict (nIdOld : Int) (infoOld : CAddrInfo) (nOrigin : NewBucket) : CAddrMan :=
  let nUBucket := getNewBucket Hash s.nKey infoOld.toCNetAddr infoOld.source
  let s := s.setInfo nIdOld { infoOld with fInTried := false, nRefCount := 1 }
  let vNew := if (s.vvNew nUBucket).size < ADDRMAN_NEW_BUCKET_SIZE then nUBucket else nOrigin
  { s.insertNew vNew nIdOld with nNew := s.nNew + 1 }

/-- An entry takes the place of one in its bucket. -/
def replaceTried (rand : Nat → Nat) (nId : Int) (info : CAddrInfo) (nKBucket : TriedBucket) (nOrigin : NewBucket) :
    Option CAddrMan := do
  let (s, nPos) ← s.selectTried rand nKBucket
  guard (0 ≤ nPos)
  let nIdOld ← (s.vvTried nKBucket)[nPos.toNat]?
  let infoOld ← s.mapInfo[nIdOld]?
  let s := s.evict Hash nIdOld infoOld nOrigin
  -- the place in the bucket is written over, so that `nTried` stays
  return (s.setTried nKBucket ((s.vvTried nKBucket).set nPos.toNat nId)).setInfo nId { info with fInTried := true }

def makeTried (rand : Nat → Nat) (nId : Int) (nOrigin : NewBucket) : Option CAddrMan := do
  guard (nId ∈ s.vvNew nOrigin)
  let info ← s.mapInfo[nId]?
  let info := { info with nRefCount := info.nRefCount - copies s.vvNew nId }
  let s := (s.eraseAllNew nId).setInfo nId info
  guard (info.nRefCount = 0)
  let nKBucket := getTriedBucket Hash s.nKey info.toCService
  if (s.vvTried nKBucket).length < ADDRMAN_TRIED_BUCKET_SIZE then
    return { (s.setTried nKBucket (s.vvTried nKBucket ++ [nId])).setInfo nId { info with fInTried := true } with
      nTried := s.nTried + 1 }
  else s.replaceTried Hash rand nId info nKBucket nOrigin

/-- The first bucket with the entry, from a random one on. -/
def bucketFrom (nRnd : Nat) (nId : Int) : Option NewBucket :=
  ((List.range ADDRMAN_NEW_BUCKET_COUNT).map fun n =>
    (⟨(n + nRnd) % ADDRMAN_NEW_BUCKET_COUNT, Nat.mod_lt _ (by decide)⟩ : NewBucket)).find?
      fun nB => decide (nId ∈ s.vvNew nB)

/-! ## The calls -/

def good (rand : Nat → Nat) (addr : CService) (nTime : Int) : Option CAddrMan :=
  match s.find addr.toCNetAddr with
  | none => some s
  | some (nId, info) =>
    if info.toCService ≠ addr then some s
    else
      let s := s.setInfo nId
        { info with nLastSuccess := nTime, nLastTry := nTime, nTime := UInt32.ofInt nTime, nAttempts := 0 }
      if info.fInTried then some s
      else match s.bucketFrom (getRandInt (rand 0) ADDRMAN_NEW_BUCKET_COUNT) nId with
        | none => some s
        | some nUBucket => s.makeTried Hash (fun k => rand (k + 1)) nId nUBucket

/-- The end of `Add_`: one more bucket that refers to the entry, if it is not there yet. -/
def enterNew (clock : Nat → Int) (rand : Nat → Nat) (nId : Int) (source : CNetAddr) : Option CAddrMan := do
  let info ← s.mapInfo[nId]?
  let nUBucket := getNewBucket Hash s.nKey info.toCNetAddr source
  if nId ∈ s.vvNew nUBucket then return s
  else do
    let s := s.setInfo nId { info with nRefCount := info.nRefCount + 1 }
    if (s.vvNew nUBucket).size = ADDRMAN_NEW_BUCKET_SIZE then do
      let (s, _) ← s.shrinkNew clock rand nUBucket
      return s.insertNew nUBucket nId
    else return s.insertNew nUBucket nId

/-- An address that is known: `nTime` is updated periodically, and services are added. -/
def seenAgain (info : CAddrInfo) (addr : CAddress) (nTimePenalty nNow : Int) : CAddrInfo :=
  let fCurrentlyOnline := decide (int64 (nNow - CAddrInfo.seen addr) < 24 * 60 * 60)
  let nUpdateInterval : Int := if fCurrentlyOnline then 60 * 60 else 24 * 60 * 60
  let fUpdate := addr.nTime ≠ 0 ∧ (info.nTime = 0 ∨ CAddrInfo.seen info.toCAddress <
    int64 (int64 (CAddrInfo.seen addr - nUpdateInterval) - nTimePenalty))
  { info with
    nTime := if fUpdate then UInt32.ofInt (max 0 (int64 (CAddrInfo.seen addr - nTimePenalty))) else info.nTime
    nServices := info.nServices ||| addr.nServices }

def add (clock : Nat → Int) (rand : Nat → Nat) (addr : CAddress) (source : CNetAddr) (nTimePenalty : Int) :
    Option (CAddrMan × Bool) :=
  if !addr.isRoutable then some (s, false)
  else match s.find addr.toCNetAddr with
    | some (nId, info) =>
      let info := seenAgain info addr nTimePenalty (clock 0)
      let s := s.setInfo nId info
      let nFactor := 2 ^ info.nRefCount.toNat
      if addr.nTime = 0 ∨ (info.nTime ≠ 0 ∧ addr.nTime ≤ info.nTime) then some (s, false)
      else if info.fInTried then some (s, false)
      else if info.nRefCount = ADDRMAN_NEW_BUCKETS_PER_ADDRESS then some (s, false)
      else if nFactor > 1 ∧ getRandInt (rand 0) nFactor ≠ 0 then some (s, false)
      else do
        let s ← s.enterNew Hash (fun k => clock (k + 1)) (fun k => rand (k + 1)) nId source
        return (s, false)
    | none => do
      let nId := s.nIdCount
      let s := s.create addr source
      let info ← s.mapInfo[nId]?
      let s := s.setInfo nId
        { info with nTime := UInt32.ofInt (max 0 (int64 (CAddrInfo.seen info.toCAddress - nTimePenalty))) }
      let s := { s with nNew := s.nNew + 1 }
      let s ← s.enterNew Hash clock rand nId source
      return (s, true)

def attempt (addr : CService) (nTime : Int) : CAddrMan :=
  match s.find addr.toCNetAddr with
  | none => s
  | some (nId, info) =>
    if info.toCService ≠ addr then s
    else s.setInfo nId { info with nLastTry := nTime, nAttempts := info.nAttempts + 1 }

def connected (addr : CService) (nTime : Int) : CAddrMan :=
  match s.find addr.toCNetAddr with
  | none => s
  | some (nId, info) =>
    if info.toCService ≠ addr then s
    else s.setInfo nId { info with
      nTime := if int64 (nTime - CAddrInfo.seen info.toCAddress) > 20 * 60 then UInt32.ofInt nTime else info.nTime }

/-- What `CAddress()` makes. -/
def noAddress : CAddress := ⟨⟨⟨Vector.replicate 16 0⟩, 0⟩, NODE_NETWORK, 100000000, 0⟩

/-- The rounds of `Select_`: a bucket, a place in it, and whether its chance is enough this time.  The loop
    has no end of its own; `some none` is that the numbers given did not end it. -/
def selectFrom (bucket : Nat → List Int) : List (Nat × Nat × Bool) → Option (Option CAddress)
  | [] => some none
  | (nBucket, nRand, fChance) :: rounds =>
    if bucket nBucket = [] then selectFrom bucket rounds
    else do
      let nId ← (bucket nBucket)[getRandInt nRand (bucket nBucket).length]?
      let info ← s.mapInfo[nId]?
      if fChance then return some info.toCAddress else selectFrom bucket rounds

def select (fTried : Bool) (rounds : List (Nat × Nat × Bool)) : Option (Option CAddress) :=
  if s.vRandom.length = 0 then some (some noAddress)
  else if fTried then
    s.selectFrom (fun n => s.vvTried ⟨n % ADDRMAN_TRIED_BUCKET_COUNT, Nat.mod_lt _ (by decide)⟩) rounds
  else s.selectFrom (fun n => (s.vvNew ⟨n % ADDRMAN_NEW_BUCKET_COUNT, Nat.mod_lt _ (by decide)⟩).toList) rounds

/-- One round of `GetAddr_`. -/
def getAddrAt (rand : Nat → Nat) (r : CAddrMan × List CAddress) (n : Nat) : Option (CAddrMan × List CAddress) := do
  let nRndPos := getRandInt (rand n) (r.1.vRandom.length - n) + n
  let s ← r.1.swapRandom n nRndPos
  let nId ← s.vRandom[n]?
  let info ← s.mapInfo[nId]?
  return (s, r.2 ++ [info.toCAddress])

def getAddr (rand : Nat → Nat) : Option (CAddrMan × List CAddress) :=
  let nNodes := min (ADDRMAN_GETADDR_MAX_PCT * s.vRandom.length / 100) ADDRMAN_GETADDR_MAX
  (List.range nNodes).foldlM (getAddrAt rand) (s, [])

end CAddrMan

/-- A call from outside, with the random choices and the times it is given.  Several addresses are added
    one by one. -/
inductive AddrCall where
  | add (clock : Nat → Int) (rand : Nat → Nat) (addr : CAddress) (source : CNetAddr) (nTimePenalty : Int)
  | good (rand : Nat → Nat) (addr : CService) (nTime : Int)
  | attempt (addr : CService) (nTime : Int)
  | connected (addr : CService) (nTime : Int)
  | select (fTried : Bool) (rounds : List (Nat × Nat × Bool))
  | getAddr (rand : Nat → Nat)

/-- The time given is one of a clock that counts from 1970. -/
def AddrCall.Timed : AddrCall → Prop
  | .good _ _ nTime => 0 < nTime
  | .attempt _ nTime => 0 ≤ nTime
  | _ => True

namespace CAddrMan

variable (Hash : List UInt8 → Uint256) (s : CAddrMan)

def step : AddrCall → Option CAddrMan
  | .add clock rand addr source nTimePenalty => (s.add Hash clock rand addr source nTimePenalty).map Prod.fst
  | .good rand addr nTime => s.good Hash rand addr nTime
  | .attempt addr nTime => some (s.attempt addr nTime)
  | .connected addr nTime => some (s.connected addr nTime)
  | .select fTried rounds => (s.select fTried rounds).map fun _ => s
  | .getAddr rand => (s.getAddr rand).map Prod.fst

def run (calls : List AddrCall) : Option CAddrMan := calls.foldlM (step Hash) s

/-! ## The consistency check -/

/-- What the first loop of `Check_` notes of an entry: among the tried ones, or with its references. -/
def noteInfo (tables : ExtTreeSet Int × ExtTreeMap Int Int) (n : Int) (info : CAddrInfo) :
    Except Int (ExtTreeSet Int × ExtTreeMap Int Int) :=
  if info.fInTried then do
    require (info.nLastSuccess ≠ 0) (-1)
    require (info.nRefCount = 0) (-2)
    return (tables.1.insert n, tables.2)
  else do
    require (¬ (info.nRefCount < 0 ∨ info.nRefCount > ADDRMAN_NEW_BUCKETS_PER_ADDRESS)) (-3)
    require (info.nRefCount ≠ 0) (-4)
    return (tables.1, tables.2.insert n info.nRefCount)

/-- One entry.  An address that `mapAddr` does not have counts as number 0, as with `operator[]`. -/
def checkInfo (tables : ExtTreeSet Int × ExtTreeMap Int Int) (e : Int × CAddrInfo) :
    Except Int (ExtTreeSet Int × ExtTreeMap Int Int) := do
  let tables ← noteInfo tables e.1 e.2
  require ((s.mapAddr.lookup e.2.toCNetAddr).getD 0 = e.1) (-5)
  require (0 ≤ e.2.nRandomPos ∧ e.2.nRandomPos < s.vRandom.length ∧
    s.vRandom[e.2.nRandomPos.toNat]? = some e.1) (-14)
  require (0 ≤ e.2.nLastTry) (-6)
  require (0 ≤ e.2.nLastSuccess) (-8)
  return tables

/-- `Check_`: `.ok ()` is 0, an error is the code returned. -/
def check : Except Int Unit := do
  require ((s.vRandom.length : Int) = s.nTried + s.nNew) (-7)
  let (setTried, mapNew) ← s.mapInfo.toList.foldlM s.checkInfo (∅, ∅)
  require ((setTried.size : Int) = s.nTried) (-9)
  require ((mapNew.size : Int) = s.nNew) (-10)
  let setTried ← strikeOut (-11) setTried ((List.finRange ADDRMAN_TRIED_BUCKET_COUNT).flatMap s.vvTried)
  let mapNew ← countDown (-12) mapNew ((List.finRange ADDRMAN_NEW_BUCKET_COUNT).flatMap fun b => (s.vvNew b).toList)
  require (setTried.size = 0) (-13)
  require (mapNew.size = 0) (-15)

end CAddrMan

end Silkcoin
