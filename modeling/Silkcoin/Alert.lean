/-
  ALERTS: signed messages to all users, and how one cancels another.

  An alert cancels those with a number up to its `nCancel` and those in its `setCancel`, as long as it is in
  effect.  `ProcessAlert` goes through the map twice.  First the new alert CANCELS what it can, and what is
  no longer in effect goes too; only then is it looked up if one of those left cancels the new alert, which
  is refused if so.

  1. A refused alert has cancelled others just when something cancels it that it does not cancel itself
     (`processAlert_false_iff`).
  2. The number `INT_MAX` is for the alert that says the key is compromised.  Its own shape is checked, but
     nobody looks at what OTHER alerts cancel: it stays, and nothing else comes in, as long as no alert
     cancels that number or has it (`final_stays`).
-/
import Silkcoin.MapValue
import Mathlib.Data.Finset.Dedup

namespace Silkcoin

open Codec Std

/-! ## Messages -/

structure CUnsignedAlert where
  nVersion : Int
  nRelayUntil : Int
  nExpiration : Int
  nID : Int
  nCancel : Int
  setCancel : Finset Int
  nMinVer : Int
  nMaxVer : Int
  setSubVer : Finset (List UInt8)
  nPriority : Int
  strComment : List UInt8
  strStatusBar : List UInt8
  strReserved : List UInt8
deriving DecidableEq

structure CAlert extends CUnsignedAlert where
  vchMsg : List UInt8
  vchSig : List UInt8
deriving DecidableEq

/-- A `std::set`: its size, and what is put into it. -/
def readSet {α : Type} [DecidableEq α] (get : Reader α) : Reader (Finset α) := do
  let nSize ← readCompactSize
  let v ← readAll get nSize
  return v.toFinset

def CUnsignedAlert.unserialize : Reader CUnsignedAlert := do
  let nVersion ← readLEInt 4
  let nRelayUntil ← readLEInt 8
  let nExpiration ← readLEInt 8
  let nID ← readLEInt 4
  let nCancel ← readLEInt 4
  let setCancel ← readSet (readLEInt 4)
  let nMinVer ← readLEInt 4
  let nMaxVer ← readLEInt 4
  let setSubVer ← readSet readString
  let nPriority ← readLEInt 4
  let strComment ← readString
  let strStatusBar ← readString
  let strReserved ← readString
  return ⟨nVersion, nRelayUntil, nExpiration, nID, nCancel, setCancel, nMinVer, nMaxVer, setSubVer, nPriority,
    strComment, strStatusBar, strReserved⟩

/-- The code behind signatures. -/
structure AlertKey where
  /-- is `vchSig` the alert key's signature of the hash of `vchMsg`? -/
  verify : List UInt8 → List UInt8 → Bool
  hash : List UInt8 → Uint256

/-- `INT_MAX` -/
def maxInt : Int := 2147483647

namespace CAlert

section

variable (K : AlertKey) (nNow : Int) (alert : CAlert)

/-- The alert with the fields its message says; `none` if reading the message throws. -/
def checkSignature : Option (Bool × CAlert) :=
  if K.verify alert.vchMsg alert.vchSig then
    (CUnsignedAlert.unserialize.run ⟨alert.vchMsg, true⟩).map fun r =>
      (true, { alert with toCUnsignedAlert := r.1 })
  else some (false, alert)

def isInEffect : Bool := decide (nNow < alert.nExpiration)

def cancels (other : CAlert) : Bool :=
  if alert.isInEffect nNow then decide (other.nID ≤ alert.nCancel) || decide (other.nID ∈ alert.setCancel)
  else false

/-- The message that is defined for the number `INT_MAX`. -/
def isFinal : Bool :=
  decide (alert.nExpiration = maxInt ∧ alert.nCancel = maxInt - 1 ∧ alert.nMinVer = 0 ∧ alert.nMaxVer = maxInt ∧
    alert.setSubVer = ∅ ∧ alert.nPriority = maxInt ∧
    alert.strStatusBar = ascii "URGENT: Alert key compromised, upgrade required")

end

/-! ## Processing -/

abbrev Alerts := ExtTreeMap Uint256 CAlert

/-- The first loop: what the alert cancels, and what is no longer in effect, is erased. -/
def cancelPrevious (nNow : Int) (alert : CAlert) (mapAlerts : Alerts) : Alerts :=
  mapAlerts.filter fun _ other => !(alert.cancels nNow other) && other.isInEffect nNow

/-- The second loop. -/
def alreadyCancelled (nNow : Int) (alert : CAlert) (mapAlerts : Alerts) : Bool :=
  mapAlerts.toList.any fun e => e.2.cancels nNow alert

/-- The result and the alerts that are left; `none` if there is an exception. -/
def processAlert (K : AlertKey) (nNow : Int) (mapAlerts : Alerts) (alert : CAlert) : Option (Bool × Alerts) :=
  (alert.checkSignature K).bind fun r =>
    let alert := r.2
    if r.1 = false then some (false, mapAlerts)
    else if alert.isInEffect nNow = false then some (false, mapAlerts)
    else if alert.nID = maxInt ∧ alert.isFinal = false then some (false, mapAlerts)
    else
      let mapAlerts := cancelPrevious nNow alert mapAlerts
      if alreadyCancelled nNow alert mapAlerts then some (false, mapAlerts)
      else some (true, mapAlerts.insertIfNew (K.hash alert.vchMsg) alert)

/-! ## What it does -/

variable {K : AlertKey} {nNow : Int} {alert a : CAlert} {mapAlerts : Alerts}

/-- What comes to the two loops. -/
structure Admitted (K : AlertKey) (nNow : Int) (alert a : CAlert) : Prop where
  signature : alert.checkSignature K = some (true, a)
  inEffect : a.isInEffect nNow = true
  final : a.nID = maxInt → a.isFinal = true

theorem processAlert_of_admitted (h : Admitted K nNow alert a) : processAlert K nNow mapAlerts alert =
    if alreadyCancelled nNow a (cancelPrevious nNow a mapAlerts) then
      some (false, cancelPrevious nNow a mapAlerts)
    else some (true, (cancelPrevious nNow a mapAlerts).insertIfNew (K.hash a.vchMsg) a) := by
  unfold processAlert
  rw [h.signature, Option.bind_some]
  dsimp only
  rw [if_neg Bool.noConfusion, if_neg (by rw [h.inEffect]; exact Bool.noConfusion), if_neg]
  rintro ⟨hid, hshape⟩
  rw [h.final hid] at hshape
  cases hshape

/-- Anything else is refused as it is. -/
theorem processAlert_of_not_admitted (h : ∀ a, ¬ Admitted K nNow alert a) {r : Bool × Alerts}
    (hr : processAlert K nNow mapAlerts alert = some r) : r = (false, mapAlerts) := by
  unfold processAlert at hr
  obtain ⟨⟨fValid, a⟩, hsig, hr⟩ := Option.bind_eq_some_iff.mp hr
  dsimp only at hr
  split at hr
  · exact (Option.some.inj hr).symm
  · rename_i hvalid
    split at hr
    · exact (Option.some.inj hr).symm
    · rename_i heffect
      split at hr
      · exact (Option.some.inj hr).symm
      · rename_i hfinal
        have hvalid : fValid = true := by cases fValid <;> simp_all
        subst hvalid
        refine absurd ⟨hsig, (Bool.not_eq_false _).mp heffect, fun hid => ?_⟩ (h a)
        by_contra hshape
        exact hfinal ⟨hid, (Bool.not_eq_true _).mp hshape⟩

theorem getElem?_cancelPrevious {hash : Uint256} {other : CAlert} :
    (cancelPrevious nNow a mapAlerts)[hash]? = some other ↔
      mapAlerts[hash]? = some other ∧ a.cancels nNow other = false ∧ other.isInEffect nNow = true := by
  unfold cancelPrevious
  rw [ExtTreeMap.getElem?_filter', Option.filter_eq_some_iff, Bool.and_eq_true, Bool.not_eq_true']

theorem alreadyCancelled_iff : alreadyCancelled nNow a mapAlerts = true ↔
    ∃ (hash : Uint256) (other : CAlert), mapAlerts[hash]? = some other ∧ other.cancels nNow a = true := by
  unfold alreadyCancelled
  rw [List.any_eq_true]
  constructor
  · rintro ⟨e, he, hcancels⟩
    exact ⟨e.1, e.2, ExtTreeMap.mem_toList_iff_getElem?_eq_some.mp he, hcancels⟩
  · rintro ⟨hash, other, hother, hcancels⟩
    exact ⟨(hash, other), ExtTreeMap.mem_toList_iff_getElem?_eq_some.mpr hother, hcancels⟩

theorem isInEffect_of_cancels {other : CAlert} (h : a.cancels nNow other = true) : a.isInEffect nNow = true := by
  unfold cancels at h
  split at h
  · assumption
  · cases h

/-- **A refused alert.**  It leaves the alerts in effect as they were just when it cancels none of them, or
    nothing that it does not cancel cancels it. -/
theorem processAlert_false_iff (K : AlertKey) (nNow : Int) (mapAlerts : Alerts) (alert : CAlert) :
    (∀ left, processAlert K nNow mapAlerts alert = some (false, left) →
      (∀ (hash : Uint256) (other : CAlert), mapAlerts[hash]? = some other → other.isInEffect nNow = true →
        left[hash]? = some other) ∧
      ∀ (hash : Uint256) (other : CAlert), left[hash]? = some other → mapAlerts[hash]? = some other) ↔
    ∀ a, Admitted K nNow alert a →
      (∃ (hash : Uint256) (other : CAlert), mapAlerts[hash]? = some other ∧ other.cancels nNow a = true ∧
        a.cancels nNow other = false) →
      ∀ (hash : Uint256) (other : CAlert), mapAlerts[hash]? = some other → other.isInEffect nNow = true →
        a.cancels nNow other = false := by
  constructor
  · rintro h a hadmitted ⟨hash₁, other₁, hother₁, hcancels, hnot⟩ hash other hother heffect
    have hcancelled : alreadyCancelled nNow a (cancelPrevious nNow a mapAlerts) = true :=
      alreadyCancelled_iff.mpr ⟨hash₁, other₁,
        getElem?_cancelPrevious.mpr ⟨hother₁, hnot, isInEffect_of_cancels hcancels⟩, hcancels⟩
    have hrun := @processAlert_of_admitted K nNow alert a mapAlerts hadmitted
    rw [if_pos hcancelled] at hrun
    exact (getElem?_cancelPrevious.mp ((h _ hrun).1 hash other hother heffect)).2.1
  · intro h left hleft
    by_cases hany : ∃ a, Admitted K nNow alert a
    · obtain ⟨a, hadmitted⟩ := hany
      rw [processAlert_of_admitted hadmitted] at hleft
      split at hleft
      · rename_i hcancelled
        cases hleft
        obtain ⟨hash₁, other₁, hother₁, hcancels⟩ := alreadyCancelled_iff.mp hcancelled
        obtain ⟨hother₁, hnot, -⟩ := getElem?_cancelPrevious.mp hother₁
        have hnone := h a hadmitted ⟨hash₁, other₁, hother₁, hcancels, hnot⟩
        refine ⟨fun hash other hother heffect => ?_, fun hash other hother => (getElem?_cancelPrevious.mp hother).1⟩
        exact getElem?_cancelPrevious.mpr ⟨hother, hnone hash other hother heffect, heffect⟩
      · cases hleft
    · have hsame := processAlert_of_not_admitted (fun a ha => hany ⟨a, ha⟩) hleft
      cases hsame
      exact ⟨fun _ _ h _ => h, fun _ _ h => h⟩

/-! ## Every sequence of alerts -/

/-- One alert after the other, each with the time it comes at; an exception changes nothing. -/
def step (K : AlertKey) (mapAlerts : Alerts) (call : Int × CAlert) : Alerts :=
  match processAlert K call.1 mapAlerts call.2 with
  | none => mapAlerts
  | some r => r.2

def run (K : AlertKey) (mapAlerts : Alerts) (calls : List (Int × CAlert)) : Alerts := calls.foldl (step K) mapAlerts

theorem checkSignature_spec (h : alert.checkSignature K = some (true, a)) :
    a.vchMsg = alert.vchMsg ∧ (∃ s, CUnsignedAlert.unserialize.run ⟨alert.vchMsg, true⟩ =
      some (a.toCUnsignedAlert, s)) ∧ a.nID ≤ maxInt := by
  unfold checkSignature at h
  split at h
  · obtain ⟨⟨u, s⟩, hread, heq⟩ := Option.map_eq_some_iff.mp h
    obtain rfl : { alert with toCUnsignedAlert := u } = a := congrArg Prod.snd heq
    refine ⟨rfl, ⟨s, hread⟩, ?_⟩
    unfold CUnsignedAlert.unserialize at hread
    obtain ⟨nVersion, s₁, -, hread⟩ := run_bind_eq_some.mp hread
    obtain ⟨nRelayUntil, s₂, -, hread⟩ := run_bind_eq_some.mp hread
    obtain ⟨nExpiration, s₃, -, hread⟩ := run_bind_eq_some.mp hread
    obtain ⟨nID, s₄, hid, hread⟩ := run_bind_eq_some.mp hread
    obtain ⟨nCancel, s₅, -, hread⟩ := run_bind_eq_some.mp hread
    obtain ⟨setCancel, s₆, -, hread⟩ := run_bind_eq_some.mp hread
    obtain ⟨nMinVer, s₇, -, hread⟩ := run_bind_eq_some.mp hread
    obtain ⟨nMaxVer, s₈, -, hread⟩ := run_bind_eq_some.mp hread
    obtain ⟨setSubVer, s₉, -, hread⟩ := run_bind_eq_some.mp hread
    obtain ⟨nPriority, s₁₀, -, hread⟩ := run_bind_eq_some.mp hread
    obtain ⟨strComment, s₁₁, -, hread⟩ := run_bind_eq_some.mp hread
    obtain ⟨strStatusBar, s₁₂, -, hread⟩ := run_bind_eq_some.mp hread
    obtain ⟨strReserved, s₁₃, -, hread⟩ := run_bind_eq_some.mp hread
    obtain ⟨rfl, -⟩ := run_pure_eq_some.mp hread
    have hfits := ((readLEInt_lawful 4).get_fits _ _ _ hid).2
    unfold maxInt
    show nID ≤ _
    norm_num at hfits
    omega
  · cases h

/-- What the map of alerts has: each under the hash of its message, and as its message says. -/
def Filed (K : AlertKey) (hash : Uint256) (other : CAlert) : Prop :=
  hash = K.hash other.vchMsg ∧
    ∃ s, CUnsignedAlert.unserialize.run ⟨other.vchMsg, true⟩ = some (other.toCUnsignedAlert, s)

/-- ONE ALERT: all that it can do to the map. -/
theorem processAlert_cases {r : Bool × Alerts} (h : processAlert K nNow mapAlerts alert = some r) :
    r = (false, mapAlerts) ∨ ∃ a, Admitted K nNow alert a ∧
      ((alreadyCancelled nNow a (cancelPrevious nNow a mapAlerts) = true ∧
          r = (false, cancelPrevious nNow a mapAlerts)) ∨
        (alreadyCancelled nNow a (cancelPrevious nNow a mapAlerts) = false ∧
          r = (true, (cancelPrevious nNow a mapAlerts).insertIfNew (K.hash a.vchMsg) a))) := by
  by_cases hany : ∃ a, Admitted K nNow alert a
  · obtain ⟨a, hadmitted⟩ := hany
    refine .inr ⟨a, hadmitted, ?_⟩
    rw [processAlert_of_admitted hadmitted] at h
    split at h
    · rename_i hcancelled
      exact .inl ⟨hcancelled, (Option.some.inj h).symm⟩
    · rename_i hfree
      exact .inr ⟨(Bool.not_eq_true _).mp hfree, (Option.some.inj h).symm⟩
  · exact .inl (processAlert_of_not_admitted (fun a ha => hany ⟨a, ha⟩) h)

theorem getElem?_insertIfNew_some {m : Alerts} {k hash : Uint256} {other : CAlert}
    (h : (m.insertIfNew k a)[hash]? = some other) : m[hash]? = some other ∨ (hash = k ∧ other = a) := by
  rw [ExtTreeMap.getElem?_insertIfNew] at h
  split at h
  · rename_i hk
    exact .inr ⟨(LawfulEqCmp.compare_eq_iff_eq.mp hk.1).symm, (Option.some.inj h).symm⟩
  · exact .inl h

/-- In every run from the start all alerts are filed, and they are ones that came in. -/
theorem filed_of_run (K : AlertKey) (calls : List (Int × CAlert)) :
    ∀ hash other, (run K ∅ calls)[hash]? = some other →
      Filed K hash other ∧ ∃ call ∈ calls, other.vchMsg = call.2.vchMsg := by
  induction calls using List.reverseRecOn with
  | nil =>
    intro hash other h
    have hnone : (run K ∅ [])[hash]? = none := ExtTreeMap.getElem?_empty
    rw [hnone] at h
    cases h
  | append_singleton calls call ih =>
    intro hash other h
    have hold : (run K ∅ calls)[hash]? = some other →
        Filed K hash other ∧ ∃ c ∈ calls ++ [call], other.vchMsg = c.2.vchMsg := by
      intro hother
      obtain ⟨hfiled, c, hc, hmsg⟩ := ih hash other hother
      exact ⟨hfiled, c, List.mem_append_left _ hc, hmsg⟩
    have hrun : run K ∅ (calls ++ [call]) = step K (run K ∅ calls) call := List.foldl_concat ..
    rw [hrun, step] at h
    split at h
    · exact hold h
    · rename_i r hr
      rcases processAlert_cases hr with rfl | ⟨a, hadmitted, ⟨-, rfl⟩ | ⟨-, rfl⟩⟩
      · exact hold h
      · exact hold (getElem?_cancelPrevious.mp h).1
      · rcases getElem?_insertIfNew_some h with h | ⟨rfl, rfl⟩
        · exact hold (getElem?_cancelPrevious.mp h).1
        · obtain ⟨hmsg, hread, -⟩ := checkSignature_spec hadmitted.signature
          refine ⟨⟨rfl, ?_⟩, call, List.mem_append_right _ (List.mem_singleton_self _), hmsg⟩
          rw [hmsg]
          exact hread

/-- The alert of a message is in the map. -/
def Holds (K : AlertKey) (mapAlerts : Alerts) (final : CAlert) : Prop :=
  ∃ kept : CAlert, mapAlerts[K.hash final.vchMsg]? = some kept ∧ kept.vchMsg = final.vchMsg ∧
    kept.toCUnsignedAlert = final.toCUnsignedAlert

/-- The alert does not touch the number `INT_MAX`: it neither cancels it nor has it, unless it is the
    one that is there. -/
def Harmless (K : AlertKey) (final alert : CAlert) : Prop :=
  ∀ b, alert.checkSignature K = some (true, b) →
    b.nCancel < maxInt ∧ maxInt ∉ b.setCancel ∧ (b.nID = maxInt → alert.vchMsg = final.vchMsg)

/-- ONE ALERT, where the final one is there. -/
theorem holds_step {final : CAlert} (hid : final.nID = maxInt) (hcancel : final.nCancel = maxInt - 1)
    (hexpires : final.nExpiration = maxInt) (hnow : nNow < maxInt) (hholds : Holds K mapAlerts final)
    (hharmless : Harmless K final alert) {r : Bool × Alerts} (hr : processAlert K nNow mapAlerts alert = some r) :
    Holds K r.2 final ∧ (alert.vchMsg ≠ final.vchMsg → r.1 = false) := by
  obtain ⟨kept, hkept, hmsg, hfields⟩ := hholds
  have heffect : kept.isInEffect nNow = true := by
    unfold isInEffect
    rw [hfields, hexpires]
    exact decide_eq_true hnow
  rcases processAlert_cases hr with rfl | ⟨a, hadmitted, hcases⟩
  · exact ⟨⟨kept, hkept, hmsg, hfields⟩, fun _ => rfl⟩
  · obtain ⟨hlt, hset, hnumber⟩ := hharmless a hadmitted.signature
    have hnot : a.cancels nNow kept = false := by
      unfold cancels
      rw [if_pos hadmitted.inEffect, hfields, hid, decide_eq_false hset, Bool.or_false]
      exact decide_eq_false (by omega)
    have hleft : (cancelPrevious nNow a mapAlerts)[K.hash final.vchMsg]? = some kept :=
      getElem?_cancelPrevious.mpr ⟨hkept, hnot, heffect⟩
    rcases hcases with ⟨-, rfl⟩ | ⟨hfree, rfl⟩
    · exact ⟨⟨kept, hleft, hmsg, hfields⟩, fun _ => rfl⟩
    · obtain ⟨hown, -, hle⟩ := checkSignature_spec hadmitted.signature
      have hsame : a.nID = maxInt := by
        by_contra hne
        -- anything else is cancelled by the final alert
        have hcancelled : alreadyCancelled nNow a (cancelPrevious nNow a mapAlerts) = true := by
          refine alreadyCancelled_iff.mpr ⟨_, kept, hleft, ?_⟩
          unfold cancels
          rw [if_pos heffect, hfields, hcancel, decide_eq_true (by omega), Bool.true_or]
        rw [hfree] at hcancelled
        cases hcancelled
      refine ⟨⟨kept, ?_, hmsg, hfields⟩, fun hne => absurd (hnumber hsame) hne⟩
      have hthere : K.hash final.vchMsg ∈ cancelPrevious nNow a mapAlerts :=
        ExtTreeMap.mem_iff_isSome_getElem?.mpr (by rw [hleft]; rfl)
      rw [ExtTreeMap.getElem?_insertIfNew, if_neg]
      · exact hleft
      · rintro ⟨hk, hnew⟩
        rw [hown, hnumber hsame] at hnew
        exact hnew hthere

/-- **THE FINAL ALERT.**  Once an alert with the number `INT_MAX` was accepted, in whatever run from the start,
    it stays, and every other alert is refused, in every further run of alerts that do not touch its number
    at times when it is in effect. -/
theorem final_stays (K : AlertKey) (earlier later : List (Int × CAlert)) (nNow : Int) (final a : CAlert)
    (left : Alerts) (hhash : ∀ call ∈ earlier, K.hash call.2.vchMsg = K.hash final.vchMsg →
      call.2.vchMsg = final.vchMsg)
    (haccepted : processAlert K nNow (run K ∅ earlier) final = some (true, left))
    (hread : final.checkSignature K = some (true, a)) (hid : a.nID = maxInt)
    (hnow : ∀ call ∈ later, call.1 < maxInt) (hharmless : ∀ call ∈ later, Harmless K a call.2) :
    Holds K (run K left later) a ∧
    ∀ calls call rest, later = calls ++ call :: rest → call.2.vchMsg ≠ final.vchMsg →
      ∀ r, processAlert K call.1 (run K left calls) call.2 = some r → r.1 = false := by
  obtain ⟨hown, ⟨s, hfields⟩, -⟩ := checkSignature_spec hread
  rcases processAlert_cases haccepted with hf | ⟨b, hadmitted, ⟨-, hf⟩ | ⟨-, hleft⟩⟩
  · cases hf
  · cases hf
  obtain rfl : a = b := by
    have hsame := hread.symm.trans hadmitted.signature
    exact congrArg Prod.snd (Option.some.inj hsame)
  have hshape : a.nExpiration = maxInt ∧ a.nCancel = maxInt - 1 := by
    have hfinal := of_decide_eq_true (hadmitted.final hid)
    exact ⟨hfinal.1, hfinal.2.1⟩
  have hstart : Holds K left a := by
    obtain rfl : left = _ := congrArg Prod.snd hleft
    unfold Holds
    rw [ExtTreeMap.getElem?_insertIfNew]
    split
    · exact ⟨a, rfl, rfl, rfl⟩
    · rename_i hold
      have hmem : K.hash a.vchMsg ∈ cancelPrevious nNow a (run K ∅ earlier) := by
        by_contra hnew
        exact hold ⟨LawfulEqCmp.compare_eq_iff_eq.mpr rfl, hnew⟩
      obtain ⟨kept, hkept⟩ := Option.isSome_iff_exists.mp (ExtTreeMap.mem_iff_isSome_getElem?.mp hmem)
      -- an earlier alert under the same hash has the same message
      obtain ⟨⟨hkey, s', hread'⟩, call, hcall, hmsg⟩ :=
        filed_of_run K earlier _ _ (getElem?_cancelPrevious.mp hkept).1
      have hsame : kept.vchMsg = a.vchMsg := by
        rw [hmsg, hown]
        refine hhash call hcall ?_
        rw [← hmsg, ← hown, hkey]
      refine ⟨kept, hkept, hsame, ?_⟩
      rw [hsame, hown, hfields] at hread'
      exact (congrArg Prod.fst (Option.some.inj hread')).symm
  have hstays : ∀ calls, calls <+: later → Holds K (run K left calls) a := by
    intro calls
    induction calls using List.reverseRecOn with
    | nil => exact fun _ => hstart
    | append_singleton calls call ih =>
      intro hprefix
      have hcall : call ∈ later := hprefix.subset (List.mem_append_right _ (List.mem_singleton_self _))
      have hholds := ih ((List.prefix_append calls [call]).trans hprefix)
      have hrun : run K left (calls ++ [call]) = step K (run K left calls) call := List.foldl_concat ..
      rw [hrun, step]
      split
      · exact hholds
      · rename_i r hr
        exact (holds_step hid hshape.2 hshape.1 (hnow call hcall) hholds (hharmless call hcall) hr).1
  refine ⟨hstays later List.prefix_rfl, ?_⟩
  rintro calls call rest rfl hother r hr
  have hcall : call ∈ calls ++ call :: rest := List.mem_append_right _ List.mem_cons_self
  have hholds := hstays calls (List.prefix_append _ _)
  refine (holds_step hid hshape.2 hshape.1 (hnow call hcall) hholds (hharmless call hcall) hr).2 ?_
  rw [hown]
  exact hother

/-! ## Alerts of the test network -/

namespace TestNet

/-- A message to all versions without comments. -/
def message (nExpiration nID nCancel : Int) (setCancel : List Int) (nPriority : Int) (strStatusBar : List UInt8) :
    List UInt8 :=
  toLEInt 4 1 ++ toLEInt 8 nExpiration ++ toLEInt 8 nExpiration ++ toLEInt 4 nID ++ toLEInt 4 nCancel ++
    writeVector (toLEInt 4) setCancel ++ toLEInt 4 0 ++ toLEInt 4 maxInt ++ [0] ++ toLEInt 4 nPriority ++ [0] ++
    writeByteVector strStatusBar ++ [0]

def signed (nExpiration nID nCancel : Int) (setCancel : List Int) (nPriority : Int) (strStatusBar : List UInt8)
    (vchSig : List UInt8) : CAlert where
  nVersion := 1
  nRelayUntil := nExpiration
  nExpiration := nExpiration
  nID := nID
  nCancel := nCancel
  setCancel := setCancel.toFinset
  nMinVer := 0
  nMaxVer := maxInt
  setSubVer := ∅
  nPriority := nPriority
  strComment := []
  strStatusBar := strStatusBar
  strReserved := []
  vchMsg := message nExpiration nID nCancel setCancel nPriority strStatusBar
  vchSig := vchSig

/-- The bytes of a number, the highest first. -/
def bytesBE (k n : Nat) : List UInt8 := (toLE k n).reverse

def final : CAlert := signed maxInt maxInt (maxInt - 1) [] maxInt
  (ascii "URGENT: Alert key compromised, upgrade required")
  (bytesBE 70
    0x30440220367ec716e9e33c64aa755380f6aa5cdb04979ca4223fdce87f3713c8e7c745a802206afbd81cffef5ab3bb6fc3870928cb3cf5ca19bcd044aad6bab8118e6b3123fd)

def override : CAlert := signed 1700000000 1 maxInt [] 100 (ascii "All is well")
  (bytesBE 70
    0x304402202801a85a759e97354d6441b964eddb6c4260b978ff5024a8b58042790e0b06f102204cbe7a0e75340f5bb5240717f817c6b1f22172dd8ef903d8a6e23c24ed42055e)

def fifth : CAlert := signed 1700000000 5 0 [10] 100 (ascii "Upgrade")
  (bytesBE 70
    0x304402206af7f34d08484319c16f8b6ee49f99d48be494fa1a9a18888779223baece38f5022032ad3144d5bbecabd55fca5628e217be724da0bb07d25672d9b8f07bc28b3052)

def third : CAlert := signed 1700000000 3 0 [] 100 (ascii "Wait")
  (bytesBE 71
    0x3045022100fbe497ae85e50738454b7f15fe0624d7dc0a9bc08378f0870b935e661a0f8efd02207ff8a3b5abb5b09704668af5eb5ce0fb593de97d00bb43cb86f19f9e941acecb)

def tenth : CAlert := signed 1700000000 10 3 [] 100 (ascii "All is well")
  (bytesBE 70
    0x3044022069cc589b7d495e1ac8851ecd4d7118d10b1a6a7b92418fa2c2718718e286033502203d5449fbd7f70942245fab4aac7ed59636822060c23d2df6c3fdc678c657cfac)

/-- The key of the test network, on these five messages. -/
def key : AlertKey where
  verify vchMsg vchSig := [final, override, fifth, third, tenth].any fun alert =>
    decide (alert.vchMsg = vchMsg ∧ alert.vchSig = vchSig)
  hash vchMsg :=
    if vchMsg = final.vchMsg then 0xaedd693580ccf5ee30b78838c4308e77c9ddea7a8497cba463d667212ec6b74e
    else if vchMsg = override.vchMsg then 0xb629809bacc18a8c056bb12b97f76a4cf3965f05df9a5377521537705ad983af
    else if vchMsg = fifth.vchMsg then 0x6cae2811226fd44e4306d6ccc7a7e1f81cd592041274ec055a2bc51417bb907c
    else if vchMsg = third.vchMsg then 0x47ad3e29265815f5238d7766ef983a181f3231ecd22c55dc88f0801f0775c860
    else if vchMsg = tenth.vchMsg then 0xf0e9c5062116a59dfd353eb7691fa0d48f7435d5a69529e4d11cdbeee5f0af65
    else 0

theorem signatures : ∀ alert ∈ [final, override, fifth, third, tenth],
    alert.checkSignature key = some (true, alert) := by decide +kernel

end TestNet

open TestNet

/-- The fifth alert cancels the tenth and not the third, and the tenth cancels the third. -/
theorem processAlert_cancels : ¬ ∀ (nNow : Int) (mapAlerts : Alerts) (alert : CAlert) (left : Alerts),
    processAlert key nNow mapAlerts alert = some (false, left) →
    ∀ (hash : Uint256) (other : CAlert), mapAlerts[hash]? = some other → other.isInEffect nNow = true →
      left[hash]? = some other := by
  intro h
  have hadmitted : Admitted key 1600000000 tenth tenth :=
    ⟨signatures tenth (by decide), by decide, fun hid => absurd hid (by decide)⟩
  obtain ⟨hcancelled, hthere, heffect, hgone⟩ :
      alreadyCancelled 1600000000 tenth (cancelPrevious 1600000000 tenth
        (run key ∅ [(1600000000, fifth), (1600000000, third)])) = true ∧
      (run key ∅ [(1600000000, fifth), (1600000000, third)])[key.hash third.vchMsg]? = some third ∧
      third.isInEffect 1600000000 = true ∧ tenth.cancels 1600000000 third = true := by decide +kernel
  have hrun := @processAlert_of_admitted key 1600000000 tenth tenth
    (run key ∅ [(1600000000, fifth), (1600000000, third)]) hadmitted
  rw [if_pos hcancelled] at hrun
  have hleft := h _ _ _ _ hrun _ _ hthere heffect
  rw [(getElem?_cancelPrevious.mp hleft).2.1] at hgone
  cases hgone

/-- An alert that cancels up to `INT_MAX` cancels the final one. -/
theorem final_overridden : ¬ ∀ (nNow : Int) (earlier later : List (Int × CAlert)) (final a : CAlert) (left : Alerts),
    processAlert key nNow (run key ∅ earlier) final = some (true, left) →
    final.checkSignature key = some (true, a) → a.nID = maxInt → (∀ call ∈ later, call.1 < maxInt) →
    Holds key (run key left later) a := by
  intro h
  have hadmitted : Admitted key 1600000000 final final :=
    ⟨signatures final (by decide), by decide, fun _ => by decide⟩
  have hrun := @processAlert_of_admitted key 1600000000 final final (run key ∅ []) hadmitted
  rw [if_neg (by decide)] at hrun
  obtain ⟨kept, hkept, -⟩ := h _ [] [(1600000001, override)] _ _ _ hrun (signatures final (by decide)) rfl (by decide)
  have hgone : ((run key ((cancelPrevious 1600000000 final (run key ∅ [])).insertIfNew (key.hash final.vchMsg) final)
      [(1600000001, override)])[key.hash final.vchMsg]?).isSome = false := by decide +kernel
  rw [hkept] at hgone
  cases hgone

/-- It cancels the fifth alert, and then the tenth and the fifth again are refused. -/
theorem final_stays_fifth : ∃ left,
    processAlert key 1600000000 (run key ∅ [(1500000000, fifth)]) final = some (true, left) ∧
    Holds key (run key left [(1600000001, tenth), (1600000002, fifth)]) final := by
  have hadmitted : Admitted key 1600000000 final final :=
    ⟨signatures final (by decide), by decide, fun _ => by decide⟩
  have hrun := @processAlert_of_admitted key 1600000000 final final (run key ∅ [(1500000000, fifth)]) hadmitted
  rw [if_neg (by decide +kernel)] at hrun
  refine ⟨_, hrun, (final_stays key [(1500000000, fifth)] [(1600000001, tenth), (1600000002, fifth)] 1600000000
    final final _ ?_ hrun (signatures final (by decide)) rfl (by decide) ?_).1⟩
  · intro call hcall hhash
    rw [List.mem_singleton.mp hcall] at hhash
    exact absurd hhash (by decide)
  · intro call hcall b hb
    rcases List.mem_pair.mp hcall with rfl | rfl
    · rw [signatures tenth (by decide)] at hb
      cases hb
      decide
    · rw [signatures fifth (by decide)] at hb
      cases hb
      decide

end CAlert

end Silkcoin
