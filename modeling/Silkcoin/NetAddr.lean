/-
  Network addresses (netbase.h, protocol.h), and the BUCKETS of the address manager they fall into.

  An address is 16 bytes; an IPv4 address is one with the prefix `pchIPv4`, and the private and other
  special ranges are told by their first bytes.  `GetGroup` is the part of an address that makes two of
  them neighbours: the bucket of a new entry depends on the groups of the address and of its source only,
  the bucket of a tried one on the address, the port and the group.  The hash is given from outside.
-/
import Silkcoin.Serialize

namespace Silkcoin

open Codec

def NODE_NETWORK : UInt64 := 1

/-! ## Addresses -/

structure CNetAddr where
  ip : Vector UInt8 16
deriving DecidableEq, Repr

structure CService extends CNetAddr where
  port : UInt16
deriving DecidableEq, Repr

structure CAddress extends CService where
  nServices : UInt64
  nTime : UInt32
  /-- In memory only. -/
  nLastTry : Int
deriving DecidableEq, Repr

/-- `enum Network`, up to `NET_MAX`. -/
def NET_UNROUTABLE : UInt8 := 0
def NET_IPV4 : UInt8 := 1
def NET_IPV6 : UInt8 := 2
def NET_TOR : UInt8 := 3
def NET_I2P : UInt8 := 4

def pchIPv4 : List UInt8 := [0, 0, 0, 0, 0, 0, 0, 0, 0, 0, 0xff, 0xff]
def pchOnionCat : List UInt8 := [0xFD, 0x87, 0xD8, 0x7E, 0xEB, 0x43]
def pchGarliCat : List UInt8 := [0xFD, 0x60, 0xDB, 0x4D, 0xDD, 0xB5]

namespace CNetAddr

variable (a : CNetAddr)

/-- `memcmp` with the first bytes. -/
def hasPrefix (pch : List UInt8) : Bool := decide (a.ip.toList.take pch.length = pch)

/-- Counted from the end. -/
def getByte (n : Nat) : UInt8 := a.ip.toList.getD (15 - n) 0

def isIPv4 : Bool := a.hasPrefix pchIPv4

def isRFC1918 : Bool :=
  a.isIPv4 && (a.getByte 3 == 10 || (a.getByte 3 == 192 && a.getByte 2 == 168) ||
    (a.getByte 3 == 172 && decide (16 ≤ a.getByte 2) && decide (a.getByte 2 ≤ 31)))

def isRFC3927 : Bool := a.isIPv4 && (a.getByte 3 == 169 && a.getByte 2 == 254)

def isRFC3849 : Bool :=
  a.getByte 15 == 0x20 && a.getByte 14 == 0x01 && a.getByte 13 == 0x0D && a.getByte 12 == 0xB8

def isRFC3964 : Bool := a.getByte 15 == 0x20 && a.getByte 14 == 0x02

def isRFC6052 : Bool := a.hasPrefix [0, 0x64, 0xFF, 0x9B, 0, 0, 0, 0, 0, 0, 0, 0]

def isRFC4380 : Bool :=
  a.getByte 15 == 0x20 && a.getByte 14 == 0x01 && a.getByte 13 == 0 && a.getByte 12 == 0

def isRFC4862 : Bool := a.hasPrefix [0xFE, 0x80, 0, 0, 0, 0, 0, 0]

def isRFC4193 : Bool := a.getByte 15 &&& 0xFE == 0xFC

def isRFC6145 : Bool := a.hasPrefix [0, 0, 0, 0, 0, 0, 0, 0, 0xFF, 0xFF, 0, 0]

def isRFC4843 : Bool :=
  a.getByte 15 == 0x20 && a.getByte 14 == 0x01 && a.getByte 13 == 0x00 && (a.getByte 12 &&& 0xF0) == 0x10

def isTor : Bool := a.hasPrefix pchOnionCat

def isI2P : Bool := a.hasPrefix pchGarliCat

/-- The loopback of IPv4 and of IPv6. -/
def isLocal : Bool :=
  (a.isIPv4 && (a.getByte 3 == 127 || a.getByte 3 == 0)) ||
    a.hasPrefix [0, 0, 0, 0, 0, 0, 0, 0, 0, 0, 0, 0, 0, 0, 0, 1]

def isValid : Bool :=
  -- an address of a garbled `addr` message, shifted by three bytes
  !a.hasPrefix (pchIPv4.drop 3) && !a.hasPrefix (List.replicate 16 0) && !a.isRFC3849 &&
    !(a.isIPv4 && (decide (a.ip.toList.drop 12 = List.replicate 4 0xff) ||
      decide (a.ip.toList.drop 12 = List.replicate 4 0)))

def isRoutable : Bool :=
  a.isValid && !(a.isRFC1918 || a.isRFC3927 || a.isRFC4862 || (a.isRFC4193 && !a.isTor && !a.isI2P) ||
    a.isRFC4843 || a.isLocal)

/-- The class of the group, its bits and where they begin.  Teredo addresses are not among them. -/
def groupClass : UInt8 × Nat × Nat :=
  -- a local address is not routable, so that the first assignment of the source is written over
  if !a.isRoutable then (NET_UNROUTABLE, 0, 0)
  else if a.isIPv4 || a.isRFC6145 || a.isRFC6052 then (NET_IPV4, 16, 12)
  else if a.isRFC3964 then (NET_IPV4, 16, 2)
  else if a.isTor then (NET_TOR, 4, 6)
  else if a.isI2P then (NET_I2P, 4, 6)
  else if a.getByte 15 == 0x20 && a.getByte 14 == 0x11 && a.getByte 13 == 0x04 && a.getByte 12 == 0x70 then
    (NET_IPV6, 36, 0)
  else (NET_IPV6, 32, 0)

/-- Two connections are never made to addresses of one group. -/
def getGroup : List UInt8 :=
  if a.isRoutable && !(a.isIPv4 || a.isRFC6145 || a.isRFC6052) && !a.isRFC3964 && a.isRFC4380 then
    [NET_IPV4, a.getByte 3 ^^^ 0xFF, a.getByte 2 ^^^ 0xFF]
  else
    let (nClass, nBits, nStartByte) := a.groupClass
    nClass :: (List.range (nBits / 8)).map (fun i => a.getByte (15 - (nStartByte + i))) ++
      if nBits % 8 > 0 then
        [a.getByte (15 - (nStartByte + nBits / 8)) ||| UInt8.ofNat ((1 <<< (nBits % 8)) - 1)]
      else []

end CNetAddr

/-- Address and port, the port with its high byte first. -/
def CService.getKey (s : CService) : List UInt8 :=
  s.ip.toList ++ [UInt8.ofNat (s.port.toNat / 0x100), UInt8.ofNat (s.port.toNat &&& 0x0FF)]

/-! ## On disk -/

/-- `FLATDATA(ip)`. -/
def CNetAddr.serialize (a : CNetAddr) : List UInt8 := a.ip.toList

def CNetAddr.unserialize : Reader CNetAddr := do
  let bytes ← readBytes 16
  return ⟨Vector.ofFn fun i => bytes.getD i.val 0⟩

theorem CNetAddr.unserialize_lawful :
    Lawful (fun _ => True) CNetAddr.serialize CNetAddr.unserialize := by
  refine (readBytes_lawful 16).iso (fun bytes => (⟨Vector.ofFn fun i => bytes.getD i.val 0⟩ : CNetAddr))
    (fun a : CNetAddr => a.ip.toList) (fun a _ => ⟨Vector.length_toList, ?_⟩) (fun bytes hlen => ⟨trivial, ?_⟩)
  · obtain ⟨ip⟩ := a
    congr 1
    ext i hi
    rw [Vector.getElem_ofFn]
    simp [List.getD_eq_getElem?_getD, hi]
  · apply List.ext_getElem
    · rw [Vector.length_toList, hlen]
    · intro i h₁ h₂
      simp [List.getD_eq_getElem?_getD, h₂]

/-- `htons`: the high byte first. -/
def toBE16 (n : UInt16) : List UInt8 := [UInt8.ofNat (n.toNat / 256), UInt8.ofNat n.toNat]

def readBE16 : Reader UInt16 := do
  let bytes ← readBytes 2
  return UInt16.ofNat (256 * (bytes.getD 0 0).toNat + (bytes.getD 1 0).toNat)

theorem readBE16_lawful : Lawful (fun _ => True) toBE16 readBE16 := by
  refine (readBytes_lawful 2).iso
    (fun bytes => UInt16.ofNat (256 * (bytes.getD 0 0).toNat + (bytes.getD 1 0).toNat)) toBE16
    (fun n _ => ⟨rfl, ?_⟩) (fun bytes hlen => ⟨trivial, ?_⟩)
  · have hn := n.toNat_lt
    apply UInt16.toNat_inj.mp
    show (UInt16.ofNat (256 * (UInt8.ofNat (n.toNat / 256)).toNat + (UInt8.ofNat n.toNat).toNat)).toNat = n.toNat
    rw [UInt16.toNat_ofNat', UInt8.toNat_ofNat', UInt8.toNat_ofNat']
    omega
  · match bytes, hlen with
    | [x, y], _ =>
      have hx := x.toNat_lt
      have hy := y.toNat_lt
      show [UInt8.ofNat ((UInt16.ofNat (256 * x.toNat + y.toNat)).toNat / 256),
        UInt8.ofNat (UInt16.ofNat (256 * x.toNat + y.toNat)).toNat] = [x, y]
      rw [UInt16.toNat_ofNat']
      congr 1
      · apply UInt8.toNat_inj.mp
        rw [UInt8.toNat_ofNat']
        omega
      · congr 1
        apply UInt8.toNat_inj.mp
        rw [UInt8.toNat_ofNat']
        omega

def CService.serialize (s : CService) : List UInt8 := s.toCNetAddr.serialize ++ toBE16 s.port

def CService.unserialize : Reader CService := do
  let a ← CNetAddr.unserialize
  let port ← readBE16
  return ⟨a, port⟩

theorem CService.unserialize_lawful : Lawful (fun _ => True) CService.serialize CService.unserialize := by
  refine CNetAddr.unserialize_lawful.field CService.toCNetAddr (fun _ _ => trivial) fun a _ => ?_
  refine readBE16_lawful.iso (CService.mk a) CService.port ?_ ?_
  · rintro ⟨_, port⟩ ⟨-, rfl⟩
    exact ⟨trivial, rfl⟩
  · intro port _
    exact ⟨⟨trivial, rfl⟩, rfl⟩

/-! ## Buckets -/

def ADDRMAN_TRIED_BUCKET_COUNT : Nat := 64
def ADDRMAN_TRIED_BUCKET_SIZE : Nat := 64
def ADDRMAN_NEW_BUCKET_COUNT : Nat := 256
def ADDRMAN_NEW_BUCKET_SIZE : Nat := 64
def ADDRMAN_TRIED_BUCKETS_PER_GROUP : Nat := 4
def ADDRMAN_NEW_BUCKETS_PER_SOURCE_GROUP : Nat := 32

abbrev TriedBucket := Fin ADDRMAN_TRIED_BUCKET_COUNT
abbrev NewBucket := Fin ADDRMAN_NEW_BUCKET_COUNT

/-- `uint256::Get64`. -/
def get64 (h : Uint256) : Nat := h.toNat % 2 ^ 64

section

variable (Hash : List UInt8 → Uint256) (nKey : List UInt8)

def getTriedBucket (s : CService) : TriedBucket :=
  let hash1 := get64 (Hash (writeByteVector nKey ++ writeByteVector s.getKey))
  let hash2 := get64 (Hash (writeByteVector nKey ++ writeByteVector s.getGroup ++
    toLE 8 (hash1 % ADDRMAN_TRIED_BUCKETS_PER_GROUP)))
  ⟨hash2 % ADDRMAN_TRIED_BUCKET_COUNT, Nat.mod_lt _ (by decide)⟩

def getNewBucket (a src : CNetAddr) : NewBucket :=
  let hash1 := get64 (Hash (writeByteVector nKey ++ writeByteVector a.getGroup ++ writeByteVector src.getGroup))
  let hash2 := get64 (Hash (writeByteVector nKey ++ writeByteVector src.getGroup ++
    toLE 8 (hash1 % ADDRMAN_NEW_BUCKETS_PER_SOURCE_GROUP)))
  ⟨hash2 % ADDRMAN_NEW_BUCKET_COUNT, Nat.mod_lt _ (by decide)⟩

end

end Silkcoin
