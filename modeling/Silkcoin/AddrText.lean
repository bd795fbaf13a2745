/-
  ADDRESSES AS TEXT: `ToStringIPPort`, and the way back through `SplitHostPort` and `SetSpecial`.

  An address of Tor or I2P is printed as its last ten bytes in base 32 and a suffix that says which network it
  is of; any other is printed and read by the system (`Resolver`), an IPv6 address in brackets, since it has
  colons of its own.  Splitting off the port and putting it on agree for every text of a host
  (`splitHostPort_text`), and the decoder gives the ten bytes back (`setSpecial_toStringIP`).

  But the branch of `SetSpecial` for I2P puts the prefix of TOR in front of them.  So the way back leads home
  just for the addresses that are none of I2P (`lookupNumeric_toStringIPPort_iff`).
-/
import Silkcoin.NetAddr
import Silkcoin.MapValue
import Silkcoin.Base64
import Silkcoin.Lib.CString

namespace Silkcoin

open Decimal CString

/-! ## Splitting off the port -/

/-- `in.find_last_of(':')` -/
def findLastColon : List UInt8 → Option Nat
  | [] => none
  | c :: rest =>
    match findLastColon rest with
    | some i => some (i + 1)
    | none => if c = 58 then some 0 else none

/-- `strtol` in base ten: the number, and what `endp` points to. -/
def strtol (psz : List UInt8) : Int × List UInt8 :=
  let text := psz.dropWhile isSpace
  let digits := if text.head? = some 45 ∨ text.head? = some 43 then text.tail else text
  if digits.takeWhile isDigit = [] then (0, psz)
  else if text.head? = some 45 then (max (-2 ^ 63) (-(value 0 digits : Nat)), digits.dropWhile isDigit)
  else (min (2 ^ 63 - 1) (value 0 digits : Nat), digits.dropWhile isDigit)

/-- The colon that separates a port, and what is before it.  The port is left as it is where there is none;
    an `int` takes the low half of the `long`. -/
def splitPort (text : List UInt8) (portOut : Int) : Int × List UInt8 :=
  match findLastColon text with
  | none => (portOut, text)
  | some colon =>
    let fBracketed := text.head? = some 91 ∧ text.getD (colon - 1) 0 = 93
    let fMultiColon := colon = 0 ∨ findLastColon (text.take colon) ≠ none
    if colon = 0 ∨ fBracketed ∨ ¬fMultiColon then
      let r := strtol (cStr (text.drop (colon + 1)))
      let n := (BitVec.ofInt 32 r.1).toInt
      if r.2 = [] ∧ n ≥ 0 then (if n > 0 ∧ n < 0x10000 then n else portOut, text.take colon)
      else (portOut, text)
    else (portOut, text)

def splitHostPort (text : List UInt8) (portOut : Int) : Int × List UInt8 :=
  let split := splitPort text portOut
  let text := split.2
  if text ≠ [] ∧ text.head? = some 91 ∧ text.getLast? = some 93 then
    (split.1, (text.drop 1).take (text.length - 2))
  else (split.1, text)

/-! ## What the system prints and reads -/

/-- An address as the system takes it. -/
inductive SockAddr where
  | inet (sin_addr : Vector UInt8 4)
  | inet6 (sin6_addr : Vector UInt8 16)
deriving DecidableEq

/-- `getnameinfo` with `NI_NUMERICHOST`, and `getaddrinfo` with or without name lookup. -/
structure Resolver where
  getnameinfo : SockAddr → Option (List UInt8)
  getaddrinfo : Bool → List UInt8 → Option (List SockAddr)

/-- The characters of a numeric address: digits, letters of hexadecimal numbers, points, and in an IPv6
    address colons. -/
def SockAddr.isNumeric : SockAddr → UInt8 → Bool
  | .inet _, c => isDigit c || c == 46
  | .inet6 _, c => isDigit c || (97 ≤ c && c ≤ 102) || c == 46 || c == 58

/-- The system prints this address as a number, and reads from it this address first. -/
def Resolver.Inverts (R : Resolver) (sockaddr : SockAddr) : Prop :=
  ∃ name, R.getnameinfo sockaddr = some name ∧ (∀ c ∈ name, sockaddr.isNumeric c = true) ∧
    ∃ more, R.getaddrinfo false name = some (sockaddr :: more)

/-! ## Addresses -/

namespace CNetAddr

/-- `CNetAddr(sin_addr)` and `CNetAddr(sin6_addr)` -/
def ofSockAddr : SockAddr → CNetAddr
  | .inet sin_addr => ⟨⟨(pchIPv4 ++ sin_addr.toList).toArray, by simp [pchIPv4]⟩⟩
  | .inet6 sin6_addr => ⟨sin6_addr⟩

/-- Six bytes and ten. -/
def ofParts (pch : List UInt8) (vchAddr : List UInt8) : CNetAddr :=
  ⟨Vector.ofFn fun i => (pch ++ vchAddr).getD i.val 0⟩

def isIPv6 (a : CNetAddr) : Bool := !a.isIPv4 && !a.isTor && !a.isI2P

def getNetwork (a : CNetAddr) : UInt8 :=
  if !a.isRoutable then NET_UNROUTABLE
  else if a.isIPv4 then NET_IPV4
  else if a.isTor then NET_TOR
  else if a.isI2P then NET_I2P
  else NET_IPV6

/-- `CService::GetSockAddr`, without the port. -/
def getSockAddr (a : CNetAddr) : Option SockAddr :=
  if a.isIPv4 then some (.inet (Vector.ofFn fun i => a.ip.toList.getD (12 + i.val) 0))
  else if a.isIPv6 then some (.inet6 a.ip)
  else none

def onionSuffix : List UInt8 := ascii ".onion"
def i2pSuffix : List UInt8 := ascii ".oc.b32.i2p"

/-- The address if the name is one of Tor or I2P; both branches copy `pchOnionCat`. -/
def setSpecial (strName : List UInt8) : Option CNetAddr :=
  if strName.length > 6 ∧ strName.drop (strName.length - 6) = onionSuffix then
    let vchAddr := (decodeBase32 (strName.take (strName.length - 6))).1
    if vchAddr.length ≠ 16 - 6 then none else some (ofParts pchOnionCat vchAddr)
  else if strName.length > 11 ∧ strName.drop (strName.length - 11) = i2pSuffix then
    let vchAddr := (decodeBase32 (strName.take (strName.length - 11))).1
    if vchAddr.length ≠ 16 - 6 then none else some (ofParts pchOnionCat vchAddr)
  else none

/-- `%x` of two bytes. -/
def hexGroup (hi lo : UInt8) : List UInt8 :=
  (Nat.toDigits 16 (hi.toNat <<< 8 ||| lo.toNat)).map fun c => UInt8.ofNat c.toNat

/-- What is printed where the system does not. -/
def plainText (a : CNetAddr) : List UInt8 :=
  if a.isIPv4 then
    [46].intercalate [decimal (a.getByte 3).toNat, decimal (a.getByte 2).toNat, decimal (a.getByte 1).toNat,
      decimal (a.getByte 0).toNat]
  else
    [58].intercalate ((List.range 8).map fun i => hexGroup (a.getByte (15 - 2 * i)) (a.getByte (14 - 2 * i)))

def toStringIP (R : Resolver) (a : CNetAddr) : List UInt8 :=
  if a.isTor then encodeBase32 (a.ip.toList.drop 6) ++ onionSuffix
  else if a.isI2P then encodeBase32 (a.ip.toList.drop 6) ++ i2pSuffix
  else (a.getSockAddr.bind R.getnameinfo).getD a.plainText

end CNetAddr

namespace CService

def toStringIPPort (R : Resolver) (s : CService) : List UInt8 :=
  if s.isIPv4 || s.isTor || s.isI2P then s.toStringIP R ++ 58 :: decimal s.port.toNat
  else 91 :: s.toStringIP R ++ 93 :: 58 :: decimal s.port.toNat

/-- `LookupIntern` for one solution, without name lookup. -/
def lookupIntern (R : Resolver) (pszName : List UInt8) : Option CNetAddr :=
  match CNetAddr.setSpecial pszName with
  | some addr => some addr
  | none => (R.getaddrinfo false pszName).bind fun aiRes => aiRes.head?.map CNetAddr.ofSockAddr

/-- `LookupNumeric`; the service takes the low half of the port. -/
def lookupNumeric (R : Resolver) (pszName : List UInt8) (portDefault : Int) : Option CService :=
  if cStr pszName = [] then none
  else
    let split := splitHostPort (cStr pszName) portDefault
    (lookupIntern R (cStr split.2)).map fun addr => ⟨addr, UInt16.ofNat (split.1 % 0x10000).toNat⟩

end CService

/-! ## Splitting off what was put on -/

theorem findLastColon_eq_none : ∀ {text : List UInt8}, 58 ∉ text → findLastColon text = none
  | [], _ => rfl
  | c :: rest, h => by
    have hc : c ≠ 58 := fun hc => h (hc ▸ List.mem_cons_self)
    rw [findLastColon, findLastColon_eq_none fun hrest => h (List.mem_cons_of_mem c hrest)]
    simp [hc]

/-- The last colon is the one that none comes after. -/
theorem findLastColon_append {host rest : List UInt8} (h : 58 ∉ rest) :
    findLastColon (host ++ 58 :: rest) = some host.length := by
  induction host with
  | nil =>
    rw [List.nil_append, findLastColon, findLastColon_eq_none h]
    rfl
  | cons c host ih =>
    rw [List.cons_append, findLastColon, ih]
    rfl

theorem decimal_digits (n : Nat) : AllDigits (decimal n) := allDigits_digits n n

theorem isDigit_iff {c : UInt8} : isDigit c = true ↔ 48 ≤ c.toNat ∧ c.toNat ≤ 57 := decide_eq_true_iff

/-- A digit is no other character. -/
theorem ne_of_isDigit {c : UInt8} (h : isDigit c = true) : c ≠ 0 ∧ c ≠ 43 ∧ c ≠ 45 ∧ c ≠ 58 ∧ isSpace c = false := by
  rw [isDigit_iff] at h
  refine ⟨?_, ?_, ?_, ?_, ?_⟩
  · rintro rfl
    exact absurd h (by decide)
  · rintro rfl
    exact absurd h (by decide)
  · rintro rfl
    exact absurd h (by decide)
  · rintro rfl
    exact absurd h (by decide)
  · apply decide_eq_false
    rintro (rfl | hspace)
    · exact absurd h (by decide)
    · omega

theorem strtol_decimal {n : Nat} (h : n < 2 ^ 63) : strtol (decimal n) = ((n : Int), []) := by
  obtain ⟨d, hd, l, hl⟩ := decimal_eq_cons n
  have hall := decimal_digits n
  have hval := value_decimal n
  have hfirst := ne_of_isDigit (isDigit_digit hd)
  have htake : (decimal n).takeWhile isDigit = decimal n := List.takeWhile_eq_self_iff.mpr hall
  have hdrop : (decimal n).dropWhile isDigit = [] := List.dropWhile_eq_nil_iff.mpr hall
  have hspace : (decimal n).dropWhile isSpace = decimal n := by
    rw [hl]
    exact List.dropWhile_cons_of_neg (by rw [hfirst.2.2.2.2]; decide)
  have hminus : ¬(decimal n).head? = some 45 := by
    rw [hl]
    intro heq
    exact hfirst.2.2.1 (Option.some.inj heq)
  have hplus : ¬(decimal n).head? = some 43 := by
    rw [hl]
    intro heq
    exact hfirst.2.1 (Option.some.inj heq)
  have hne : ¬decimal n = [] := by
    rw [hl]
    exact List.cons_ne_nil _ _
  unfold strtol
  dsimp only
  rw [hspace, if_neg (not_or.mpr ⟨hminus, hplus⟩), htake, if_neg hne, if_neg hminus, hdrop, hval]
  congr 1
  omega

/-- A text ending in a port is split before it, if its colon is the only one or comes after a bracket. -/
theorem splitPort_port {host : List UInt8} {port : Nat} (hport : 0 < port) (hlt : port < 65536)
    (hhost : 58 ∉ host ∨ host.head? = some 91 ∧ host.getLast? = some 93) (portOut : Int) :
    splitPort (host ++ 58 :: decimal port) portOut = ((port : Int), host) := by
  have hcolon : 58 ∉ decimal port := fun hmem => (ne_of_isDigit (decimal_digits port 58 hmem)).2.2.2.1 rfl
  have hlast : findLastColon (host ++ 58 :: decimal port) = some host.length := findLastColon_append hcolon
  have htake : (host ++ 58 :: decimal port).take host.length = host := List.take_left
  have hdrop : (host ++ 58 :: decimal port).drop (host.length + 1) = decimal port := by
    rw [← List.drop_drop, List.drop_left, List.drop_one, List.tail_cons]
  have hclean : cStr (decimal port) = decimal port :=
    cStr_eq_self fun c hc => (ne_of_isDigit (decimal_digits port c hc)).1
  have hint : (BitVec.ofInt 32 (port : Int)).toInt = port := by
    rw [BitVec.toInt_ofInt, Int.bmod_eq_of_le (by omega) (by omega)]
  have htaken : host.length = 0 ∨
      ((host ++ 58 :: decimal port).head? = some 91 ∧ (host ++ 58 :: decimal port).getD (host.length - 1) 0 = 93) ∨
      ¬(host.length = 0 ∨ findLastColon host ≠ none) := by
    cases host with
    | nil => exact Or.inl rfl
    | cons c host =>
      right
      rcases hhost with hno | ⟨hfirst, hend⟩
      · right
        rw [findLastColon_eq_none hno]
        simp
      · left
        refine ⟨hfirst, ?_⟩
        rw [List.getLast?_eq_getElem?] at hend
        rw [List.getD_eq_getElem?_getD, List.getElem?_append_left (by simp), hend, Option.getD_some]
  unfold splitPort
  rw [hlast]
  dsimp only
  rw [htake, hdrop, hclean, strtol_decimal (by omega), if_pos htaken]
  dsimp only
  rw [hint, if_pos ⟨rfl, by omega⟩, if_pos ⟨by omega, by omega⟩]

/-- A host without brackets. -/
theorem splitHostPort_plain {host : List UInt8} {port : Nat} (hport : 0 < port) (hlt : port < 65536)
    (hcolon : 58 ∉ host) (hbracket : 91 ∉ host) (portOut : Int) :
    splitHostPort (host ++ 58 :: decimal port) portOut = ((port : Int), host) := by
  unfold splitHostPort
  rw [splitPort_port hport hlt (Or.inl hcolon)]
  dsimp only
  rw [if_neg]
  rintro ⟨-, hhead, -⟩
  exact hbracket (List.mem_of_mem_head? hhead)

/-- A host in brackets may have colons. -/
theorem splitHostPort_bracketed {host : List UInt8} {port : Nat} (hport : 0 < port) (hlt : port < 65536)
    (portOut : Int) :
    splitHostPort (91 :: host ++ 93 :: 58 :: decimal port) portOut = ((port : Int), host) := by
  have htext : 91 :: host ++ 93 :: 58 :: decimal port = (91 :: host ++ [93]) ++ 58 :: decimal port := by simp
  have hlast : (91 :: host ++ [93]).getLast? = some 93 := List.getLast?_concat
  unfold splitHostPort
  rw [htext, splitPort_port hport hlt (Or.inr ⟨rfl, hlast⟩)]
  dsimp only
  rw [if_pos ⟨by simp, rfl, hlast⟩]
  simp

/-! ## The special networks -/

namespace CNetAddr

theorem toList_ofParts {pch vchAddr : List UInt8} (hpch : pch.length = 6) (hlen : vchAddr.length = 10) :
    (ofParts pch vchAddr).ip.toList = pch ++ vchAddr := by
  apply List.ext_getElem
  · rw [Vector.length_toList, List.length_append, hpch, hlen]
  · intro i h₁ h₂
    simp [ofParts, List.getD_eq_getElem?_getD, List.getElem?_eq_getElem h₂]

/-- An address with this prefix is its prefix and the ten bytes after it. -/
theorem eq_ofParts {a : CNetAddr} {pch : List UInt8} (hpch : pch.length = 6) (h : a.hasPrefix pch = true) :
    a = ofParts pch (a.ip.toList.drop 6) := by
  have hlen : a.ip.toList.length = 16 := Vector.length_toList
  have htake : a.ip.toList.take 6 = pch := by
    have heq := of_decide_eq_true h
    rwa [hpch] at heq
  have hlist : a.ip.toList = (ofParts pch (a.ip.toList.drop 6)).ip.toList := by
    rw [toList_ofParts hpch (by rw [List.length_drop, hlen]), ← htake, List.take_append_drop]
  cases a
  congr 1
  exact Vector.toList_inj.mp hlist

/-- The text of ten bytes is read back. -/
theorem decodeBase32_encodeBase32 (x : List UInt8) : (decodeBase32 (encodeBase32 x)).1 = x := by
  rw [Alphabet.decode_encode alphabet32_sound encodeBase32_texts decodeBase32_texts]

/-- The letters of base 32 and its padding are no colons, no brackets and no terminators. -/
theorem ne_of_mem_encodeBase32 {x : List UInt8} {c : UInt8} (h : c ∈ encodeBase32 x) :
    c ≠ 0 ∧ c ≠ 58 ∧ c ≠ 91 := by
  obtain ⟨ds, p, htext, hds, -, -, -⟩ := encodeBase32_texts x
  rw [htext] at h
  rcases List.mem_append.mp h with h | h
  · obtain ⟨d, hd, rfl⟩ := List.mem_map.mp h
    rw [alphabet32_letter (hds d hd)]
    have hletters : ∀ d < 32, UInt8.ofNat (letter32 d) ≠ 0 ∧ UInt8.ofNat (letter32 d) ≠ 58
        ∧ UInt8.ofNat (letter32 d) ≠ 91 := by decide
    exact hletters d (hds d hd)
  · rw [(List.mem_replicate.mp h).2]
    decide

theorem encodeBase32_ne_nil {x : List UInt8} (h : x ≠ []) : encodeBase32 x ≠ [] := by
  intro hnil
  have hback := decodeBase32_encodeBase32 x
  rw [hnil] at hback
  exact h hback.symm

/-- What a name with the suffix of Tor is read as. -/
theorem setSpecial_onion {x : List UInt8} (hlen : x.length = 10) :
    setSpecial (encodeBase32 x ++ onionSuffix) = some (ofParts pchOnionCat x) := by
  have hne : encodeBase32 x ≠ [] := encodeBase32_ne_nil (by rintro rfl; cases hlen)
  have hpos := List.length_pos_iff.mpr hne
  have hsuffix : onionSuffix.length = 6 := by decide
  have hlength : (encodeBase32 x ++ onionSuffix).length - 6 = (encodeBase32 x).length := by
    rw [List.length_append, hsuffix, Nat.add_sub_cancel]
  have hlong : (encodeBase32 x ++ onionSuffix).length > 6 := by
    rw [List.length_append, hsuffix]
    omega
  unfold setSpecial
  rw [hlength, List.drop_left, List.take_left, if_pos ⟨hlong, rfl⟩, decodeBase32_encodeBase32,
    if_neg (by rw [hlen]; decide)]

/-- A name with the suffix of I2P is read as an address of TOR. -/
theorem setSpecial_i2p {x : List UInt8} (hlen : x.length = 10) :
    setSpecial (encodeBase32 x ++ i2pSuffix) = some (ofParts pchOnionCat x) := by
  have hne : encodeBase32 x ≠ [] := encodeBase32_ne_nil (by rintro rfl; cases hlen)
  have hpos := List.length_pos_iff.mpr hne
  have hsuffix : i2pSuffix.length = 11 := by decide
  have hlength : (encodeBase32 x ++ i2pSuffix).length - 11 = (encodeBase32 x).length := by
    rw [List.length_append, hsuffix, Nat.add_sub_cancel]
  have hlong : (encodeBase32 x ++ i2pSuffix).length > 11 := by
    rw [List.length_append, hsuffix]
    omega
  have hother : (encodeBase32 x ++ i2pSuffix).drop ((encodeBase32 x ++ i2pSuffix).length - 6) ≠ onionSuffix := by
    have hsplit : (encodeBase32 x ++ i2pSuffix).length - 6 = (encodeBase32 x).length + 5 := by
      rw [List.length_append, hsuffix]
      rfl
    rw [hsplit, List.drop_length_add_append]
    decide
  unfold setSpecial
  rw [if_neg (fun h => hother h.2), hlength, List.drop_left, List.take_left, if_pos ⟨hlong, rfl⟩,
    decodeBase32_encodeBase32, if_neg (by rw [hlen]; decide)]

/-- A numeric address is none of the special ones: their suffixes have an `o` or a `p`. -/
theorem setSpecial_numeric {sockaddr : SockAddr} {name : List UInt8}
    (h : ∀ c ∈ name, sockaddr.isNumeric c = true) : setSpecial name = none := by
  have hletters : sockaddr.isNumeric 111 = false ∧ sockaddr.isNumeric 112 = false := by
    cases sockaddr <;> exact ⟨rfl, rfl⟩
  have honion : name.drop (name.length - 6) ≠ onionSuffix := by
    intro heq
    have hmem : (111 : UInt8) ∈ name.drop (name.length - 6) := by
      rw [heq]
      decide
    have hnum := h 111 (List.mem_of_mem_drop hmem)
    rw [hletters.1] at hnum
    cases hnum
  have hi2p : name.drop (name.length - 11) ≠ i2pSuffix := by
    intro heq
    have hmem : (112 : UInt8) ∈ name.drop (name.length - 11) := by
      rw [heq]
      decide
    have hnum := h 112 (List.mem_of_mem_drop hmem)
    rw [hletters.2] at hnum
    cases hnum
  unfold setSpecial
  rw [if_neg (fun h => honion h.2), if_neg (fun h => hi2p h.2)]

/-- The prefixes exclude one another. -/
theorem hasPrefix_unique {a : CNetAddr} {pch pch' : List UInt8} (h : a.hasPrefix pch = true)
    (h' : a.hasPrefix pch' = true) : pch.take pch'.length = pch'.take pch.length := by
  have htake := of_decide_eq_true h
  have htake' := of_decide_eq_true h'
  rw [← htake, ← htake', List.take_take, List.take_take, List.length_take, List.length_take]
  congr 1
  omega

theorem eq_of_toList {a b : CNetAddr} (h : a.ip.toList = b.ip.toList) : a = b := by
  cases a
  cases b
  congr 1
  exact Vector.toList_inj.mp h

/-- The system's form of an address is that address. -/
theorem ofSockAddr_getSockAddr {a : CNetAddr} {sockaddr : SockAddr} (h : a.getSockAddr = some sockaddr) :
    ofSockAddr sockaddr = a := by
  have hlen : a.ip.toList.length = 16 := Vector.length_toList
  unfold getSockAddr at h
  split at h
  · rename_i hv4
    obtain rfl := Option.some.inj h
    have htake : a.ip.toList.take 12 = pchIPv4 := of_decide_eq_true hv4
    have hdrop : (Vector.ofFn fun i : Fin 4 => a.ip.toList.getD (12 + i.val) 0).toList
        = a.ip.toList.drop 12 := by
      apply List.ext_getElem
      · rw [Vector.length_toList, List.length_drop, hlen]
      · intro i h₁ h₂
        rw [List.length_drop, hlen] at h₂
        have hi : 12 + i < 16 := by omega
        simp [List.getD_eq_getElem?_getD, hi]
    apply eq_of_toList
    show pchIPv4 ++ (Vector.ofFn fun i : Fin 4 => a.ip.toList.getD (12 + i.val) 0).toList = a.ip.toList
    rw [hdrop, ← htake, List.take_append_drop]
  · split at h
    · obtain rfl := Option.some.inj h
      rfl
    · cases h

/-- An address of neither network is one for the system. -/
theorem getSockAddr_isSome {a : CNetAddr} (htor : a.isTor = false) (hi2p : a.isI2P = false) :
    ∃ sockaddr, a.getSockAddr = some sockaddr ∧ (a.isIPv4 = true → ∃ sin_addr, sockaddr = .inet sin_addr) := by
  unfold getSockAddr isIPv6
  rw [htor, hi2p]
  cases hv4 : a.isIPv4 with
  | true => exact ⟨_, rfl, fun _ => ⟨_, rfl⟩⟩
  | false => exact ⟨_, rfl, fun h => by cases h⟩

end CNetAddr

/-! ## There and back -/

namespace CService

open CNetAddr

variable {R : Resolver} {s : CService}

/-- A service whose text splits into `host` and its port is looked up as `host`. -/
theorem lookupNumeric_eq {host : List UInt8} {portDefault : Int} (htext : ∀ c ∈ s.toStringIPPort R, c ≠ 0)
    (hhost : ∀ c ∈ host, c ≠ 0)
    (hsplit : splitHostPort (s.toStringIPPort R) portDefault = ((s.port.toNat : Int), host)) :
    lookupNumeric R (s.toStringIPPort R) portDefault = (lookupIntern R host).map fun addr => ⟨addr, s.port⟩ := by
  have hport : UInt16.ofNat ((s.port.toNat : Int) % 0x10000).toNat = s.port := by
    apply UInt16.toNat_inj.mp
    have hlt := s.port.toNat_lt
    rw [UInt16.toNat_ofNat']
    omega
  have hne : s.toStringIPPort R ≠ [] := by
    unfold toStringIPPort
    split <;> simp
  unfold lookupNumeric
  rw [cStr_eq_self htext, if_neg hne, hsplit]
  dsimp only
  rw [cStr_eq_self hhost, hport]

theorem ne_zero_of_mem_port {c : UInt8} (h : c ∈ 58 :: decimal s.port.toNat) : c ≠ 0 := by
  rcases List.mem_cons.mp h with rfl | h
  · decide
  · exact (ne_of_isDigit (decimal_digits _ c h)).1

/-- A service whose host has no colon and no bracket in it. -/
theorem lookupNumeric_plain {host : List UInt8} (hport : s.port ≠ 0)
    (htext : s.toStringIPPort R = host ++ 58 :: decimal s.port.toNat)
    (hhost : ∀ c ∈ host, c ≠ 0 ∧ c ≠ 58 ∧ c ≠ 91) (portDefault : Int) :
    splitHostPort (s.toStringIPPort R) portDefault = ((s.port.toNat : Int), host) ∧
      lookupNumeric R (s.toStringIPPort R) portDefault = (lookupIntern R host).map fun addr => ⟨addr, s.port⟩ := by
  have hpos : 0 < s.port.toNat := by
    rcases Nat.eq_zero_or_pos s.port.toNat with hzero | hpos
    · exact absurd (UInt16.toNat_inj.mp hzero) hport
    · exact hpos
  have hsplit : splitHostPort (s.toStringIPPort R) portDefault = ((s.port.toNat : Int), host) := by
    rw [htext]
    exact splitHostPort_plain hpos s.port.toNat_lt (fun h => (hhost 58 h).2.1 rfl)
      (fun h => (hhost 91 h).2.2 rfl) portDefault
  refine ⟨hsplit, lookupNumeric_eq ?_ (fun c hc => (hhost c hc).1) hsplit⟩
  intro c hc
  rw [htext] at hc
  rcases List.mem_append.mp hc with hc | hc
  · exact (hhost c hc).1
  · exact ne_zero_of_mem_port hc

/-- The names of the two networks have no colon and no bracket in them. -/
theorem ne_of_mem_special {x suffix : List UInt8}
    (hsuffix : (suffix.all fun c => decide (c ≠ 0 ∧ c ≠ 58 ∧ c ≠ 91)) = true) {c : UInt8}
    (h : c ∈ encodeBase32 x ++ suffix) : c ≠ 0 ∧ c ≠ 58 ∧ c ≠ 91 := by
  rcases List.mem_append.mp h with h | h
  · exact ne_of_mem_encodeBase32 h
  · exact of_decide_eq_true (List.all_eq_true.mp hsuffix c h)

theorem length_payload (a : CNetAddr) : (a.ip.toList.drop 6).length = 10 := by
  rw [List.length_drop, Vector.length_toList]

theorem lookupNumeric_tor (hport : s.port ≠ 0) (htor : s.isTor = true) (portDefault : Int) :
    splitHostPort (s.toStringIPPort R) portDefault = ((s.port.toNat : Int), s.toStringIP R)
    ∧ setSpecial (s.toStringIP R) = some s.toCNetAddr
    ∧ lookupNumeric R (s.toStringIPPort R) portDefault = some s := by
  have hname : s.toStringIP R = encodeBase32 (s.ip.toList.drop 6) ++ onionSuffix := by
    unfold toStringIP
    rw [if_pos htor]
  have hspecial : setSpecial (s.toStringIP R) = some s.toCNetAddr := by
    rw [hname, setSpecial_onion (length_payload _)]
    exact congrArg some (eq_ofParts rfl htor).symm
  have htext : s.toStringIPPort R = s.toStringIP R ++ 58 :: decimal s.port.toNat := by
    unfold toStringIPPort
    rw [if_pos (by simp [htor])]
  obtain ⟨hsplit, hlookup⟩ := lookupNumeric_plain hport htext
    (fun c hc => ne_of_mem_special (by decide) (hname ▸ hc)) portDefault
  refine ⟨hsplit, hspecial, ?_⟩
  rw [hlookup, lookupIntern, hspecial]
  rfl

theorem not_isTor_of_isI2P {a : CNetAddr} (h : a.isI2P = true) : a.isTor = false := by
  rw [← Bool.not_eq_true]
  intro htor
  exact absurd (hasPrefix_unique h htor) (by decide)

/-- The way back leads to the service of TOR with the same payload. -/
theorem lookupNumeric_i2p (hport : s.port ≠ 0) (hi2p : s.isI2P = true) (portDefault : Int) :
    splitHostPort (s.toStringIPPort R) portDefault = ((s.port.toNat : Int), s.toStringIP R)
    ∧ setSpecial (s.toStringIP R) = some (ofParts pchOnionCat (s.ip.toList.drop 6))
    ∧ lookupNumeric R (s.toStringIPPort R) portDefault =
        some ⟨ofParts pchOnionCat (s.ip.toList.drop 6), s.port⟩ := by
  have hname : s.toStringIP R = encodeBase32 (s.ip.toList.drop 6) ++ i2pSuffix := by
    unfold toStringIP
    rw [if_neg (by rw [not_isTor_of_isI2P hi2p]; decide), if_pos hi2p]
  have hspecial : setSpecial (s.toStringIP R) = some (ofParts pchOnionCat (s.ip.toList.drop 6)) := by
    rw [hname, setSpecial_i2p (length_payload _)]
  have htext : s.toStringIPPort R = s.toStringIP R ++ 58 :: decimal s.port.toNat := by
    unfold toStringIPPort
    rw [if_pos (by simp [hi2p])]
  obtain ⟨hsplit, hlookup⟩ := lookupNumeric_plain hport htext
    (fun c hc => ne_of_mem_special (by decide) (hname ▸ hc)) portDefault
  refine ⟨hsplit, hspecial, ?_⟩
  rw [hlookup, lookupIntern, hspecial]
  rfl

theorem isTor_ofParts (x : List UInt8) (hlen : x.length = 10) : (ofParts pchOnionCat x).isTor = true := by
  unfold isTor hasPrefix
  rw [toList_ofParts rfl hlen]
  exact decide_eq_true (List.take_left' rfl)

theorem ne_of_isNumeric {sockaddr : SockAddr} {c : UInt8} (h : sockaddr.isNumeric c = true) :
    c ≠ 0 ∧ c ≠ 91 ∧ (∀ sin_addr, sockaddr = .inet sin_addr → c ≠ 58) := by
  refine ⟨?_, ?_, ?_⟩
  · rintro rfl
    cases sockaddr <;> cases h
  · rintro rfl
    cases sockaddr <;> cases h
  · rintro sin_addr rfl rfl
    cases h

/-- What the system prints, it reads. -/
theorem lookupNumeric_system (hport : s.port ≠ 0) (htor : s.isTor = false) (hi2p : s.isI2P = false)
    (hR : ∀ sockaddr, s.getSockAddr = some sockaddr → R.Inverts sockaddr) (portDefault : Int) :
    lookupNumeric R (s.toStringIPPort R) portDefault = some s := by
  obtain ⟨sockaddr, hsock, hv4⟩ := getSockAddr_isSome htor hi2p
  obtain ⟨name, hname, hnumeric, more, hread⟩ := hR sockaddr hsock
  have htextIP : s.toStringIP R = name := by
    unfold toStringIP
    rw [if_neg (by rw [htor]; decide), if_neg (by rw [hi2p]; decide), hsock, Option.bind_some, hname,
      Option.getD_some]
  have hintern : lookupIntern R name = some s.toCNetAddr := by
    unfold lookupIntern
    rw [setSpecial_numeric hnumeric, hread]
    exact congrArg some (ofSockAddr_getSockAddr hsock)
  have hpos : 0 < s.port.toNat := by
    rcases Nat.eq_zero_or_pos s.port.toNat with hzero | hpos
    · exact absurd (UInt16.toNat_inj.mp hzero) hport
    · exact hpos
  cases hfour : s.isIPv4 with
  | true =>
    obtain ⟨sin_addr, hinet⟩ := hv4 hfour
    have htext : s.toStringIPPort R = name ++ 58 :: decimal s.port.toNat := by
      unfold toStringIPPort
      rw [htextIP, if_pos (by simp [hfour])]
    have hhost : ∀ c ∈ name, c ≠ 0 ∧ c ≠ 58 ∧ c ≠ 91 := by
      intro c hc
      obtain ⟨hzero, hbracket, hcolon⟩ := ne_of_isNumeric (hnumeric c hc)
      exact ⟨hzero, hcolon sin_addr hinet, hbracket⟩
    rw [(lookupNumeric_plain hport htext hhost portDefault).2, hintern]
    rfl
  | false =>
    have htext : s.toStringIPPort R = 91 :: name ++ 93 :: 58 :: decimal s.port.toNat := by
      unfold toStringIPPort
      rw [htextIP, if_neg (by simp [hfour, htor, hi2p])]
    have hzero : ∀ c ∈ name, c ≠ 0 := fun c hc => (ne_of_isNumeric (hnumeric c hc)).1
    have hsplit : splitHostPort (s.toStringIPPort R) portDefault = ((s.port.toNat : Int), name) := by
      rw [htext]
      exact splitHostPort_bracketed hpos s.port.toNat_lt portDefault
    rw [lookupNumeric_eq ?_ hzero hsplit, hintern]
    · rfl
    · intro c hc
      rw [htext] at hc
      rcases List.mem_append.mp hc with hc | hc
      · rcases List.mem_cons.mp hc with rfl | hc
        · decide
        · exact hzero c hc
      · rcases List.mem_cons.mp hc with rfl | hc
        · decide
        · exact ne_zero_of_mem_port hc

/-- **There and back.**  What is printed for a service is read as that service just when it is none of I2P;
    and so it is for `SplitHostPort` and `SetSpecial` alone, on the text of a service of the two networks. -/
theorem lookupNumeric_toStringIPPort_iff (R : Resolver) (s : CService) (hport : s.port ≠ 0)
    (hR : ∀ sockaddr, s.getSockAddr = some sockaddr → R.Inverts sockaddr) (portDefault : Int) :
    ((∃ s', lookupNumeric R (s.toStringIPPort R) portDefault = some s' ∧ s' = s ∧ s'.getNetwork = s.getNetwork)
      ↔ s.isI2P = false)
    ∧ (s.isTor = true ∨ s.isI2P = true →
        ((∃ a, setSpecial (splitHostPort (s.toStringIPPort R) portDefault).2 = some a ∧ a = s.toCNetAddr
            ∧ (splitHostPort (s.toStringIPPort R) portDefault).1 = s.port.toNat ∧ a.getNetwork = s.getNetwork)
          ↔ s.isI2P = false)) := by
  have hother : s.isI2P = true → ofParts pchOnionCat (s.ip.toList.drop 6) ≠ s.toCNetAddr := by
    intro hi2p heq
    have htor := isTor_ofParts _ (length_payload s.toCNetAddr)
    rw [heq, not_isTor_of_isI2P hi2p] at htor
    cases htor
  constructor
  · constructor
    · rintro ⟨s', hlookup, rfl, -⟩
      rw [← Bool.not_eq_true]
      intro hi2p
      rw [(lookupNumeric_i2p hport hi2p portDefault).2.2] at hlookup
      exact hother hi2p (congrArg CService.toCNetAddr (Option.some.inj hlookup))
    · intro hi2p
      refine ⟨s, ?_, rfl, rfl⟩
      cases htor : s.isTor with
      | true => exact (lookupNumeric_tor hport htor portDefault).2.2
      | false => exact lookupNumeric_system hport htor hi2p hR portDefault
  · intro hspecial
    constructor
    · rintro ⟨a, hset, rfl, -, -⟩
      rw [← Bool.not_eq_true]
      intro hi2p
      obtain ⟨hsplit, hread, -⟩ := lookupNumeric_i2p (R := R) hport hi2p portDefault
      rw [hsplit, hread] at hset
      exact hother hi2p (Option.some.inj hset)
    · intro hi2p
      have htor : s.isTor = true := hspecial.resolve_right (by rw [hi2p]; decide)
      obtain ⟨hsplit, hread, -⟩ := lookupNumeric_tor (R := R) hport htor portDefault
      rw [hsplit]
      exact ⟨s.toCNetAddr, hread, rfl, rfl, rfl⟩

/-- A system that knows one address. -/
def oneAddress : Resolver where
  getnameinfo sockaddr := if sockaddr = .inet #v[5, 6, 7, 8] then some (ascii "5.6.7.8") else none
  getaddrinfo _ name := if name = ascii "5.6.7.8" then some [.inet #v[5, 6, 7, 8]] else none

def service5678 : CService := ⟨ofSockAddr (.inet #v[5, 6, 7, 8]), 22381⟩

theorem lookupNumeric_toStringIPPort_iff_inet : service5678.toStringIPPort oneAddress = ascii "5.6.7.8:22381"
    ∧ lookupNumeric oneAddress (ascii "5.6.7.8:22381") 0 = some service5678
    ∧ ((∃ s', lookupNumeric oneAddress (service5678.toStringIPPort oneAddress) 0 = some s' ∧ s' = service5678
        ∧ s'.getNetwork = service5678.getNetwork) ↔ service5678.isI2P = false) := by
  refine ⟨by decide, by decide, (lookupNumeric_toStringIPPort_iff oneAddress service5678 (by decide) ?_ 0).1⟩
  intro sockaddr hsock
  obtain rfl : SockAddr.inet #v[5, 6, 7, 8] = sockaddr := by
    have hservice5678 : service5678.getSockAddr = some (.inet #v[5, 6, 7, 8]) := by decide
    rw [hservice5678] at hsock
    exact Option.some.inj hsock
  exact ⟨ascii "5.6.7.8", by decide, List.all_eq_true.mp (by decide), [], by decide⟩

/-- The text of an I2P address is read as one of Tor. -/
theorem lookupNumeric_swaps : ¬ ∀ (R : Resolver) (s : CService) (portDefault : Int), s.port ≠ 0 →
    s.isTor = true ∨ s.isI2P = true →
    ∃ a, setSpecial (splitHostPort (s.toStringIPPort R) portDefault).2 = some a ∧ a = s.toCNetAddr
      ∧ (splitHostPort (s.toStringIPPort R) portDefault).1 = s.port.toNat ∧ a.getNetwork = s.getNetwork := by
  intro h
  obtain ⟨a, hset, ha, -, -⟩ := h oneAddress ⟨ofParts pchGarliCat [1, 2, 3, 4, 5, 6, 7, 8, 9, 10], 4567⟩ 0
    (by decide) (Or.inr (by decide))
  have htext : (⟨ofParts pchGarliCat [1, 2, 3, 4, 5, 6, 7, 8, 9, 10], 4567⟩ : CService).toStringIPPort oneAddress
      = ascii "aebagbafaydqqcik.oc.b32.i2p:4567" := by decide
  have hread : setSpecial (splitHostPort (ascii "aebagbafaydqqcik.oc.b32.i2p:4567") 0).2
      = some (ofParts pchOnionCat [1, 2, 3, 4, 5, 6, 7, 8, 9, 10]) := by decide
  rw [htext, hread] at hset
  rw [← Option.some.inj hset] at ha
  exact absurd ha (by decide)

end CService

end Silkcoin
