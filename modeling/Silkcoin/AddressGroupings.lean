/-
  `GetAddressGroupings`: the addresses of the wallet that somebody must think belong together.

  The first pass collects groups: of every transaction whose first input is ours, the addresses of all its
  inputs and its change; and every address of ours alone.  The second merges groups that overlap, with a
  set of pointers to groups, and a map from each address to its group.

  1. THE MERGE is right: whatever the order of the groups and wherever `new` puts them, what the pointers
     stand for are the connected components (`Pointers`, `mergeGroups_spec`).
  2. THE FIRST PASS is not: it looks for the output behind EVERY input of such a transaction with
     `mapWallet[..]` and `vout[..]`.  A transaction of ours may have inputs of others.  Then an empty record
     is put into the wallet, and an output is read that it does not have.
  3. So the groupings are what they should be EXACTLY IF the wallet has the outputs behind all of these inputs,
     and each of these transactions has an address to group (`getAddressGroupings_iff`).
-/
import Silkcoin.WalletBalance
import Silkcoin.SignSignature
import Silkcoin.Lib.Components
import Mathlib.Order.Lattice.Nat

namespace Silkcoin

open BatchStore Grouping Standard

/-- A wallet's addresses, one of the groups. -/
abbrev Addresses := Finset CTxDestination

/-! ## The first pass -/

/-- `CWalletTx()` -/
def CWalletTx.null (nTime : UInt32) : CWalletTx := ofTx ⟨1, nTime, [], [], 0⟩

namespace CachedWallet

section Collect

variable (C : KeyPrimitives) (nTime : UInt32)

/-- `mapWallet[hash]`: what is not there is put in. -/
def recordAt (w : CachedWallet) (hash : Uint256) : CachedWallet × CWalletTx :=
  match w.mapWallet.lookup hash with
  | some wtx => (w, wtx)
  | none => ({ w with mapWallet := w.mapWallet.insert hash (.null nTime) }, .null nTime)

/-- `IsChange`: an address of ours that is not in the address book. -/
def isChange (w : CachedWallet) (txout : CTxOut) : Bool :=
  match extractDestination C txout.scriptPubKey with
  | some address => w.keystore.isMineDestination address && decide (address ∉ w.mapAddressBook)
  | none => false

/-- The addresses of the inputs.  An output that is not there ends it, with the wallet as it is then. -/
def groupInputs : List CTxIn → CachedWallet → Addresses → Except CachedWallet (CachedWallet × Addresses)
  | [], w, grouping => .ok (w, grouping)
  | txin :: vin, w, grouping =>
    let (w, prev) := w.recordAt nTime txin.prevout.hash
    match prev.tx.vout[txin.prevout.n.toNat]? with
    | none => .error w
    | some txout =>
      match extractDestination C txout.scriptPubKey with
      | none => groupInputs vin w grouping
      | some address => groupInputs vin w (insert address grouping)

/-- The addresses of the change; the first input's record is looked up again for each. -/
def groupChange (first : CTxIn) : List CTxOut → CachedWallet → Addresses → CachedWallet × Addresses
  | [], w, grouping => (w, grouping)
  | txout :: vout, w, grouping =>
    if w.isChange C txout then
      let (w, _) := w.recordAt nTime first.prevout.hash
      match extractDestination C txout.scriptPubKey with
      | none => groupChange first vout w grouping
      | some address => groupChange first vout w (insert address grouping)
    else groupChange first vout w grouping

/-- Each address of ours by itself. -/
def groupLone (w : CachedWallet) : List CTxOut → Finset Addresses → Finset Addresses
  | [], groupings => groupings
  | txout :: vout, groupings =>
    if w.isMineOut txout then
      match extractDestination C txout.scriptPubKey with
      | none => groupLone w vout groupings
      | some address => groupLone w vout (insert {address} groupings)
    else groupLone w vout groupings

/-- One record. -/
def groupRecord (wtx : CWalletTx) (w : CachedWallet) (groupings : Finset Addresses) :
    Except CachedWallet (CachedWallet × Finset Addresses) :=
  match wtx.tx.vin with
  | [] => .ok (w, w.groupLone C wtx.tx.vout groupings)
  | first :: vin =>
    if (w.ownOutput first.prevout).isSome then
      match groupInputs C nTime (first :: vin) w ∅ with
      | .error w => .error w
      | .ok (w, grouping) =>
        let (w, grouping) := groupChange C nTime first wtx.tx.vout w grouping
        .ok (w, w.groupLone C wtx.tx.vout (insert grouping groupings))
    else .ok (w, w.groupLone C wtx.tx.vout groupings)

/-- The records, in the order the map has them. -/
def collectGroupings : List CWalletTx → CachedWallet → Finset Addresses →
    Except CachedWallet (CachedWallet × Finset Addresses)
  | [], w, groupings => .ok (w, groupings)
  | wtx :: records, w, groupings =>
    match groupRecord C nTime wtx w groupings with
    | .error w => .error w
    | .ok (w, groupings) => collectGroupings records w groupings

end Collect

end CachedWallet

/-! ## The second pass -/

/-- Where a group lies. -/
abbrev GroupPtr := Nat

/-- The groups that lie somewhere, `uniqueGroupings`, and `setmap`. -/
structure Pointers where
  heap : GroupPtr → Option Addresses
  uniqueGroupings : Finset GroupPtr
  setmap : CTxDestination → Option GroupPtr

namespace Pointers

def empty : Pointers := ⟨fun _ => none, ∅, fun _ => none⟩

variable (alloc : Finset GroupPtr → GroupPtr) (m : Pointers)

def hits (grouping : Addresses) : Finset GroupPtr := grouping.biUnion fun address => (m.setmap address).toFinset

/-- What a pointer points to. -/
def group (p : GroupPtr) : Addresses := (m.heap p).getD ∅

/-- One group; a hit group that was deleted ends it.  `alloc` is where `new` puts a group when these are
    alive. -/
def mergeGroup (grouping : Addresses) : Option Pointers :=
  let hits := m.hits grouping
  if ∀ hit ∈ hits, (m.heap hit).isSome then
    let p := alloc m.uniqueGroupings
    let merged := grouping ∪ hits.biUnion m.group
    some
      { heap := fun q => if q = p then some merged else if q ∈ hits then none else m.heap q
        uniqueGroupings := insert p (m.uniqueGroupings \ hits)
        setmap := fun element => if element ∈ merged then some p else m.setmap element }
  else none

/-- The sets that are returned. -/
def result : Option (Finset Addresses) :=
  if ∀ p ∈ m.uniqueGroupings, (m.heap p).isSome then some (m.uniqueGroupings.image m.group) else none

end Pointers

def mergeGroups (alloc : Finset GroupPtr → GroupPtr) : List Addresses → Pointers → Option Pointers
  | [], m => some m
  | grouping :: groupings, m => (m.mergeGroup alloc grouping).bind (mergeGroups alloc groupings)

/-- The wallet's records in some order, and the order in which a set of groups is gone through.  Where
    memory is read that is not there, it ends with the wallet as it is then. -/
def CachedWallet.getAddressGroupings (C : KeyPrimitives) (nTime : UInt32) (alloc : Finset GroupPtr → GroupPtr)
    (order : Finset Addresses → List Addresses) (records : List CWalletTx) (w : CachedWallet) :
    Except CachedWallet (CachedWallet × Finset Addresses) :=
  match collectGroupings C nTime records w ∅ with
  | .error w => .error w
  | .ok (w, groupings) =>
    match (mergeGroups alloc (order groupings) .empty).bind Pointers.result with
    | none => .error w
    | some ret => .ok (w, ret)

/-! ## The merge -/

namespace Pointers

variable {alloc : Finset GroupPtr → GroupPtr} {m : Pointers} {gs : Set Addresses} {grouping : Addresses}

/-- THE POINTERS ARE RIGHT: what is in `uniqueGroupings` is alive, and an address points to the group it
    is in. -/
structure Right (m : Pointers) (gs : Set Addresses) : Prop where
  alive : ∀ p ∈ m.uniqueGroupings, (m.heap p).isSome
  setmap : ∀ a p, m.setmap a = some p ↔ p ∈ m.uniqueGroupings ∧ a ∈ m.group p
  components : Components gs (m.uniqueGroupings.image m.group)

theorem right_empty : empty.Right ∅ := by
  refine ⟨fun p hp => absurd hp (Finset.notMem_empty p), fun a p => ⟨fun h => ?_, fun h => ?_⟩, ?_⟩
  · cases h
  · exact absurd h.1 (Finset.notMem_empty p)
  · exact components_empty

theorem mem_hits (h : m.Right gs) {p : GroupPtr} :
    p ∈ m.hits grouping ↔ p ∈ m.uniqueGroupings ∧ ∃ a, a ∈ grouping ∧ a ∈ m.group p := by
  rw [hits, Finset.mem_biUnion]
  constructor
  · rintro ⟨a, ha, hp⟩
    obtain ⟨hlive, hmem⟩ := (h.setmap a p).mp (Option.mem_toFinset.mp hp)
    exact ⟨hlive, a, ha, hmem⟩
  · rintro ⟨hlive, a, ha, hmem⟩
    exact ⟨a, ha, Option.mem_toFinset.mpr ((h.setmap a p).mpr ⟨hlive, hmem⟩)⟩

/-- A pointer is hit if its group is. -/
theorem group_mem_hitBy (h : m.Right gs) {p : GroupPtr} (hp : p ∈ m.uniqueGroupings) :
    m.group p ∈ hitBy grouping (m.uniqueGroupings.image m.group) ↔ p ∈ m.hits grouping := by
  rw [mem_hitBy, mem_hits h, Finset.mem_image]
  exact ⟨fun hhit => ⟨hp, hhit.2⟩, fun hhit => ⟨⟨p, hp, rfl⟩, hhit.2⟩⟩

/-- ONE GROUP is merged. -/
theorem mergeGroup_right (halloc : ∀ live, alloc live ∉ live) (h : m.Right gs) :
    ∃ m', m.mergeGroup alloc grouping = some m' ∧ m'.Right (insert grouping gs) := by
  have halive : ∀ hit ∈ m.hits grouping, (m.heap hit).isSome := fun hit hhit =>
    h.alive hit ((mem_hits h).mp hhit).1
  have hmerged : grouping ∪ (m.hits grouping).biUnion m.group = union grouping (m.uniqueGroupings.image m.group) := by
    ext a
    rw [mem_union, Finset.mem_union, Finset.mem_biUnion]
    apply or_congr_right
    constructor
    · rintro ⟨p, hp, ha⟩
      exact ⟨_, (group_mem_hitBy h ((mem_hits h).mp hp).1).mpr hp, ha⟩
    · rintro ⟨S, hS, ha⟩
      obtain ⟨p, hp, rfl⟩ := Finset.mem_image.mp (mem_hitBy.mp hS).1
      exact ⟨p, (group_mem_hitBy h hp).mp hS, ha⟩
  have hfresh : alloc m.uniqueGroupings ∉ m.uniqueGroupings := halloc _
  unfold mergeGroup
  dsimp only
  rw [if_pos halive, hmerged]
  refine ⟨_, rfl, ?_⟩
  generalize alloc m.uniqueGroupings = p at hfresh
  generalize hm : (⟨fun q => if q = p then some (union grouping (m.uniqueGroupings.image m.group))
      else if q ∈ m.hits grouping then none else m.heap q,
    insert p (m.uniqueGroupings \ m.hits grouping),
    fun element => if element ∈ union grouping (m.uniqueGroupings.image m.group) then some p
      else m.setmap element⟩ : Pointers) = m'
  have hnew : m'.heap p = some (union grouping (m.uniqueGroupings.image m.group)) := by
    rw [← hm]
    exact if_pos rfl
  have hgroup : m'.group p = union grouping (m.uniqueGroupings.image m.group) := by
    rw [group, hnew]
    rfl
  have hold : ∀ q ∈ m.uniqueGroupings, q ∉ m.hits grouping → m'.heap q = m.heap q := by
    intro q hq hnot
    rw [← hm]
    dsimp only
    rw [if_neg (fun heq : q = p => hfresh (heq ▸ hq)), if_neg hnot]
  have hsame : ∀ q ∈ m.uniqueGroupings, q ∉ m.hits grouping → m'.group q = m.group q := by
    intro q hq hnot
    rw [group, hold q hq hnot]
    rfl
  have hunique : ∀ q, q ∈ m'.uniqueGroupings ↔ q = p ∨ (q ∈ m.uniqueGroupings ∧ q ∉ m.hits grouping) := by
    intro q
    rw [← hm, Finset.mem_insert, Finset.mem_sdiff]
  constructor
  · intro q hq
    rcases (hunique q).mp hq with rfl | ⟨hq, hnot⟩
    · rw [hnew]
      rfl
    · rw [hold q hq hnot]
      exact h.alive q hq
  · intro a q
    have hset : m'.setmap a = if a ∈ union grouping (m.uniqueGroupings.image m.group) then some p
        else m.setmap a := by rw [← hm]
    rw [hset]
    split
    · -- its group was hit, or it came with the new one
      rename_i hin
      constructor
      · rintro ⟨⟩
        exact ⟨(hunique p).mpr (Or.inl rfl), hgroup ▸ hin⟩
      · rintro ⟨hq, ha⟩
        rcases (hunique q).mp hq with rfl | ⟨hq, hnot⟩
        · rfl
        · rw [hsame q hq hnot] at ha
          have hpart := Finset.mem_image_of_mem m.group hq
          exact absurd hin (notMem_union h.components hpart
            (fun hhit => hnot ((group_mem_hitBy h hq).mp hhit)) ha)
    · rename_i hout
      rw [h.setmap a q]
      constructor
      · rintro ⟨hq, ha⟩
        have hnot : q ∉ m.hits grouping := fun hhit =>
          hout (mem_union.mpr (Or.inr ⟨_, (group_mem_hitBy h hq).mpr hhit, ha⟩))
        exact ⟨(hunique q).mpr (Or.inr ⟨hq, hnot⟩), (hsame q hq hnot).symm ▸ ha⟩
      · rintro ⟨hq, ha⟩
        rcases (hunique q).mp hq with rfl | ⟨hq, hnot⟩
        · exact absurd (hgroup ▸ ha) hout
        · exact ⟨hq, hsame q hq hnot ▸ ha⟩
  · have himage : m'.uniqueGroupings.image m'.group = absorb grouping (m.uniqueGroupings.image m.group) := by
      ext S
      rw [mem_absorb, Finset.mem_image]
      constructor
      · rintro ⟨q, hq, rfl⟩
        rcases (hunique q).mp hq with rfl | ⟨hq, hnot⟩
        · exact Or.inl hgroup
        · rw [hsame q hq hnot]
          exact Or.inr ⟨Finset.mem_image_of_mem m.group hq, fun hhit => hnot ((group_mem_hitBy h hq).mp hhit)⟩
      · rintro (rfl | ⟨hS, hnot⟩)
        · exact ⟨p, (hunique p).mpr (Or.inl rfl), hgroup⟩
        · obtain ⟨q, hq, rfl⟩ := Finset.mem_image.mp hS
          have hnot : q ∉ m.hits grouping := fun hhit => hnot ((group_mem_hitBy h hq).mpr hhit)
          exact ⟨q, (hunique q).mpr (Or.inr ⟨hq, hnot⟩), hsame q hq hnot⟩
    rw [himage]
    exact h.components.absorb

theorem mergeGroups_right (halloc : ∀ live, alloc live ∉ live) : ∀ (groupings : List Addresses) (m : Pointers)
    (gs : Set Addresses), m.Right gs →
    ∃ m', mergeGroups alloc groupings m = some m' ∧ m'.Right (gs ∪ {g | g ∈ groupings}) := by
  intro groupings
  induction groupings with
  | nil =>
    intro m gs h
    have hnone : gs ∪ {g | g ∈ ([] : List Addresses)} = gs := by simp
    exact ⟨m, rfl, hnone.symm ▸ h⟩
  | cons grouping groupings ih =>
    intro m gs h
    obtain ⟨m₁, hm₁, h₁⟩ := @mergeGroup_right alloc m gs grouping halloc h
    obtain ⟨m₂, hm₂, h₂⟩ := ih m₁ _ h₁
    have hall : insert grouping gs ∪ {g | g ∈ groupings} = gs ∪ {g | g ∈ grouping :: groupings} := by
      ext g
      simp only [Set.mem_union, Set.mem_insert_iff, Set.mem_ofPred_eq, List.mem_cons]
      tauto
    refine ⟨m₂, ?_, hall ▸ h₂⟩
    rw [mergeGroups, hm₁]
    exact hm₂

end Pointers

/-- THE SECOND PASS returns the components of the groups it is given, in whatever order. -/
theorem mergeGroups_spec {alloc : Finset GroupPtr → GroupPtr} (halloc : ∀ live, alloc live ∉ live)
    (groupings : List Addresses) :
    ∃ ret, (mergeGroups alloc groupings .empty).bind Pointers.result = some ret ∧
      Components {g | g ∈ groupings} ret := by
  obtain ⟨m, hm, h⟩ := Pointers.mergeGroups_right halloc groupings .empty ∅ Pointers.right_empty
  rw [Set.empty_union] at h
  refine ⟨_, ?_, h.components⟩
  rw [hm]
  exact if_pos h.alive

/-! ## What there is to collect -/

namespace CachedWallet

section Collected

variable (C : KeyPrimitives) (w : CachedWallet)

/-- The output behind an input, as far as the wallet has it. -/
def spentOutput (txin : CTxIn) : Option CTxOut :=
  (w.mapWallet.lookup txin.prevout.hash).bind fun prev => prev.tx.vout[txin.prevout.n.toNat]?

def inputAddress (txin : CTxIn) : Option CTxDestination :=
  (w.spentOutput txin).bind fun txout => extractDestination C txout.scriptPubKey

def changeAddress (txout : CTxOut) : Option CTxDestination :=
  if w.isChange C txout then extractDestination C txout.scriptPubKey else none

def loneAddress (txout : CTxOut) : Option CTxDestination :=
  if w.isMineOut txout then extractDestination C txout.scriptPubKey else none

/-- `vin.size() > 0 && IsMine(vin[0])` -/
def FirstMine (wtx : CWalletTx) : Prop := ∃ first ∈ wtx.tx.vin.head?, (w.ownOutput first.prevout).isSome = true

/-- The addresses of the inputs, with those of the change. -/
def inputsAndChange (wtx : CWalletTx) : Addresses :=
  (wtx.tx.vin.filterMap (w.inputAddress C)).toFinset ∪ (wtx.tx.vout.filterMap (w.changeAddress C)).toFinset

/-- What a record has to group. -/
def Groups (wtx : CWalletTx) (grouping : Addresses) : Prop :=
  (w.FirstMine wtx ∧ grouping = w.inputsAndChange C wtx) ∨
    ∃ txout ∈ wtx.tx.vout, ∃ address, w.loneAddress C txout = some address ∧ grouping = {address}

/-- THE GROUPS of a wallet. -/
def groupings : Set Addresses :=
  {grouping | ∃ hash wtx, w.mapWallet.lookup hash = some wtx ∧ w.Groups C wtx grouping}

/-- The wallet has the outputs behind the inputs that are looked up. -/
def InputsRecorded (wtx : CWalletTx) : Prop :=
  w.FirstMine wtx → ∀ txin ∈ wtx.tx.vin, (w.spentOutput txin).isSome = true

end Collected

section Collect

variable {C : KeyPrimitives} {nTime : UInt32} {w : CachedWallet}

theorem recordAt_of_lookup {hash : Uint256} {wtx : CWalletTx} (h : w.mapWallet.lookup hash = some wtx) :
    w.recordAt nTime hash = (w, wtx) := by
  rw [recordAt, h]

theorem groupInputs_ok (vin : List CTxIn) (grouping : Addresses)
    (h : ∀ txin ∈ vin, (w.spentOutput txin).isSome = true) : groupInputs C nTime vin w grouping =
      .ok (w, grouping ∪ (vin.filterMap (w.inputAddress C)).toFinset) := by
  induction vin generalizing grouping with
  | nil =>
    rw [groupInputs]
    simp
  | cons txin vin ih =>
    obtain ⟨txout, htxout⟩ := Option.isSome_iff_exists.mp (h txin List.mem_cons_self)
    obtain ⟨prev, hprev, hout⟩ := Option.bind_eq_some_iff.mp htxout
    have haddress : w.inputAddress C txin = extractDestination C txout.scriptPubKey := by
      rw [inputAddress, htxout]
      rfl
    have hrest := fun grouping => ih grouping fun txin htxin => h txin (List.mem_cons_of_mem _ htxin)
    rw [groupInputs, recordAt_of_lookup hprev]
    dsimp only
    rw [hout]
    dsimp only
    cases hextract : extractDestination C txout.scriptPubKey with
    | none =>
      dsimp only
      rw [hrest, List.filterMap_cons_none (haddress.trans hextract)]
    | some address =>
      dsimp only
      rw [hrest, List.filterMap_cons_some (haddress.trans hextract), List.toFinset_cons, Finset.insert_union,
        Finset.union_insert]

theorem groupInputs_error (vin : List CTxIn) (grouping : Addresses) {bad : CTxIn} (hbad : bad ∈ vin)
    (h : w.spentOutput bad = none) : ∃ w', groupInputs C nTime vin w grouping = .error w' := by
  induction vin generalizing grouping with
  | nil => cases hbad
  | cons txin vin ih =>
    rw [groupInputs]
    by_cases hsome : (w.spentOutput txin).isSome = true
    · obtain ⟨txout, htxout⟩ := Option.isSome_iff_exists.mp hsome
      obtain ⟨prev, hprev, hout⟩ := Option.bind_eq_some_iff.mp htxout
      rw [recordAt_of_lookup hprev]
      dsimp only
      rw [hout]
      dsimp only
      have hbad : bad ∈ vin := by
        rcases List.mem_cons.mp hbad with rfl | hbad
        · rw [h] at hsome
          cases hsome
        · exact hbad
      cases extractDestination C txout.scriptPubKey with
      | none => exact ih grouping hbad
      | some address => exact ih _ hbad
    · -- an empty record has no outputs either
      have hnone : ((w.recordAt nTime txin.prevout.hash).2).tx.vout[txin.prevout.n.toNat]? = none := by
        rw [spentOutput] at hsome
        rw [recordAt]
        cases hprev : w.mapWallet.lookup txin.prevout.hash with
        | none => rfl
        | some prev =>
          rw [hprev] at hsome
          exact Option.not_isSome_iff_eq_none.mp hsome
      dsimp only
      rw [hnone]
      exact ⟨_, rfl⟩

theorem groupChange_eq {first : CTxIn} (vout : List CTxOut) (grouping : Addresses)
    (h : (w.mapWallet.lookup first.prevout.hash).isSome = true) : groupChange C nTime first vout w grouping =
      (w, grouping ∪ (vout.filterMap (w.changeAddress C)).toFinset) := by
  obtain ⟨prev, hprev⟩ := Option.isSome_iff_exists.mp h
  induction vout generalizing grouping with
  | nil =>
    rw [groupChange]
    simp
  | cons txout vout ih =>
    rw [groupChange, recordAt_of_lookup hprev]
    by_cases hchange : w.isChange C txout = true
    · have haddress : w.changeAddress C txout = extractDestination C txout.scriptPubKey := if_pos hchange
      rw [if_pos hchange]
      dsimp only
      cases hextract : extractDestination C txout.scriptPubKey with
      | none =>
        dsimp only
        rw [ih, List.filterMap_cons_none (haddress.trans hextract)]
      | some address =>
        dsimp only
        rw [ih, List.filterMap_cons_some (haddress.trans hextract), List.toFinset_cons, Finset.insert_union,
          Finset.union_insert]
    · have haddress : w.changeAddress C txout = none := if_neg hchange
      rw [if_neg hchange, ih, List.filterMap_cons_none haddress]

theorem mem_groupLone (vout : List CTxOut) (gs : Finset Addresses) (grouping : Addresses) :
    grouping ∈ groupLone C w vout gs ↔
      grouping ∈ gs ∨ ∃ txout ∈ vout, ∃ address, w.loneAddress C txout = some address ∧ grouping = {address} := by
  induction vout generalizing gs with
  | nil => simp [groupLone]
  | cons txout vout ih =>
    rw [groupLone, List.exists_mem_cons_iff]
    by_cases hmine : w.isMineOut txout = true
    · have haddress : w.loneAddress C txout = extractDestination C txout.scriptPubKey := if_pos hmine
      rw [if_pos hmine, haddress]
      cases hextract : extractDestination C txout.scriptPubKey with
      | none =>
        dsimp only
        rw [ih]
        simp
      | some address =>
        dsimp only
        rw [ih, Finset.mem_insert]
        simp only [Option.some.injEq, exists_eq_left']
        tauto
    · have haddress : w.loneAddress C txout = none := if_neg hmine
      rw [if_neg hmine, ih, haddress]
      simp

/-- What is ours is there. -/
theorem lookup_of_ownOutput {prevout : COutPoint} (h : (w.ownOutput prevout).isSome = true) :
    (w.mapWallet.lookup prevout.hash).isSome = true := by
  rw [CWallet.ownOutput] at h
  cases hprev : w.mapWallet.lookup prevout.hash with
  | none =>
    rw [hprev] at h
    cases h
  | some prev => rfl

/-- ONE RECORD: its groups are collected, and the wallet stays as it is. -/
theorem groupRecord_ok {wtx : CWalletTx} (gs : Finset Addresses) (h : w.InputsRecorded wtx) :
    ∃ gs', groupRecord C nTime wtx w gs = .ok (w, gs') ∧
      ∀ grouping, grouping ∈ gs' ↔ grouping ∈ gs ∨ w.Groups C wtx grouping := by
  have hlone : ∀ grouping, ¬ w.FirstMine wtx →
      (grouping ∈ groupLone C w wtx.tx.vout gs ↔ grouping ∈ gs ∨ w.Groups C wtx grouping) := by
    intro grouping hnot
    rw [mem_groupLone, Groups]
    exact or_congr_right (or_iff_right fun hmine => hnot hmine.1).symm
  unfold groupRecord
  split
  · rename_i hnil
    refine ⟨_, rfl, fun grouping => hlone grouping ?_⟩
    rintro ⟨first, hfirst, -⟩
    rw [hnil] at hfirst
    cases hfirst
  · rename_i first vin hvin
    by_cases hmine : (w.ownOutput first.prevout).isSome = true
    · have hfirst : w.FirstMine wtx := ⟨first, by rw [hvin]; rfl, hmine⟩
      have hrecorded := h hfirst
      rw [hvin] at hrecorded
      rw [if_pos hmine, groupInputs_ok (first :: vin) ∅ hrecorded]
      dsimp only
      rw [groupChange_eq wtx.tx.vout _ (lookup_of_ownOutput hmine)]
      refine ⟨_, rfl, fun grouping => ?_⟩
      have hgroup : ∅ ∪ ((first :: vin).filterMap (w.inputAddress C)).toFinset ∪
          (wtx.tx.vout.filterMap (w.changeAddress C)).toFinset = w.inputsAndChange C wtx := by
        rw [Finset.empty_union, inputsAndChange, hvin]
      rw [mem_groupLone, hgroup, Finset.mem_insert, Groups, and_iff_right hfirst]
      tauto
    · rw [if_neg hmine]
      refine ⟨_, rfl, fun grouping => hlone grouping ?_⟩
      rintro ⟨first', hfirst, hmine'⟩
      rw [hvin] at hfirst
      cases hfirst
      exact hmine hmine'

theorem groupRecord_error {wtx : CWalletTx} (gs : Finset Addresses) (h : ¬ w.InputsRecorded wtx) :
    ∃ w', groupRecord C nTime wtx w gs = .error w' := by
  obtain ⟨⟨first, hfirst, hmine⟩, bad, hbad, hnone⟩ :
      w.FirstMine wtx ∧ ∃ bad ∈ wtx.tx.vin, w.spentOutput bad = none := by
    rw [InputsRecorded] at h
    push Not at h
    obtain ⟨hfirst, bad, hbad, hnone⟩ := h
    exact ⟨hfirst, bad, hbad, Option.not_isSome_iff_eq_none.mp hnone⟩
  unfold groupRecord
  split
  · rename_i hnil
    rw [hnil] at hbad
    cases hbad
  · rename_i first' vin hvin
    rw [hvin] at hfirst hbad
    cases hfirst
    obtain ⟨w', hw'⟩ := @groupInputs_error C nTime w _ ∅ bad hbad hnone
    rw [if_pos hmine, hw']
    exact ⟨w', rfl⟩

/-- THE FIRST PASS collects the groups of all the records, if it does not look for what is not there. -/
theorem collectGroupings_ok (records : List CWalletTx) (gs : Finset Addresses)
    (h : ∀ wtx ∈ records, w.InputsRecorded wtx) :
    ∃ gs', collectGroupings C nTime records w gs = .ok (w, gs') ∧
      ∀ grouping, grouping ∈ gs' ↔ grouping ∈ gs ∨ ∃ wtx ∈ records, w.Groups C wtx grouping := by
  induction records generalizing gs with
  | nil => exact ⟨gs, rfl, fun grouping => by simp⟩
  | cons wtx records ih =>
    obtain ⟨gs₁, hgs₁, hmem₁⟩ := @groupRecord_ok C nTime w wtx gs (h wtx List.mem_cons_self)
    obtain ⟨gs₂, hgs₂, hmem₂⟩ := ih gs₁ fun wtx hwtx => h wtx (List.mem_cons_of_mem _ hwtx)
    refine ⟨gs₂, ?_, fun grouping => ?_⟩
    · rw [collectGroupings, hgs₁]
      exact hgs₂
    · rw [hmem₂, hmem₁, List.exists_mem_cons_iff, or_assoc]

theorem collectGroupings_error (records : List CWalletTx) (gs : Finset Addresses) {bad : CWalletTx}
    (hbad : bad ∈ records) (h : ¬ w.InputsRecorded bad) :
    ∃ w', collectGroupings C nTime records w gs = .error w' := by
  induction records generalizing gs with
  | nil => cases hbad
  | cons wtx records ih =>
    rw [collectGroupings]
    by_cases hwtx : w.InputsRecorded wtx
    · obtain ⟨gs₁, hgs₁, -⟩ := @groupRecord_ok C nTime w wtx gs hwtx
      rw [hgs₁]
      rcases List.mem_cons.mp hbad with rfl | hbad
      · exact absurd hwtx h
      · exact ih gs₁ hbad
    · obtain ⟨w', hw'⟩ := @groupRecord_error C nTime w wtx gs hwtx
      rw [hw']
      exact ⟨w', rfl⟩

end Collect

end CachedWallet

/-- `GetAddressGroupings` is what it should be EXACTLY IF the wallet has the outputs behind the inputs of every
    transaction whose first input is ours, and something to group for each. -/
theorem getAddressGroupings_iff (C : KeyPrimitives) (nTime : UInt32) (w : CachedWallet)
    (alloc : Finset GroupPtr → GroupPtr) (halloc : ∀ live, alloc live ∉ live)
    (order : Finset Addresses → List Addresses) (horder : ∀ gs, (order gs).toFinset = gs)
    (records : List CWalletTx) (hrecords : records.Perm (w.mapWallet.entries.map Sigma.snd)) :
    (∃ ret, w.getAddressGroupings C nTime alloc order records = .ok (w, ret) ∧ (∀ S ∈ ret, S.Nonempty) ∧
      (∀ S ∈ ret, ∀ T ∈ ret, S ≠ T → Disjoint S T) ∧
      ∀ a b, (∃ S ∈ ret, a ∈ S ∧ b ∈ S) ↔ Chained (w.groupings C) a b) ↔
    ∀ hash wtx, w.mapWallet.lookup hash = some wtx → w.FirstMine wtx →
      (∀ txin ∈ wtx.tx.vin, (w.spentOutput txin).isSome = true) ∧ (w.inputsAndChange C wtx).Nonempty := by
  have hmem : ∀ wtx, wtx ∈ records ↔ ∃ hash, w.mapWallet.lookup hash = some wtx := by
    intro wtx
    rw [hrecords.mem_iff, List.mem_map]
    constructor
    · rintro ⟨⟨hash, wtx'⟩, hentry, rfl⟩
      exact ⟨hash, AList.mem_lookup_iff.mpr hentry⟩
    · rintro ⟨hash, hlookup⟩
      exact ⟨⟨hash, wtx⟩, AList.mem_lookup_iff.mp hlookup, rfl⟩
  by_cases hall : ∀ wtx ∈ records, w.InputsRecorded wtx
  · -- both passes end, with the components of the groups
    obtain ⟨gs, hgs, hgroups⟩ := @CachedWallet.collectGroupings_ok C nTime w records ∅ hall
    obtain ⟨ret, hret, hcomponents⟩ := mergeGroups_spec halloc (order gs)
    have hset : {g | g ∈ order gs} = w.groupings C := by
      ext g
      have hfin : g ∈ order gs ↔ g ∈ gs := by rw [← List.mem_toFinset, horder gs]
      rw [Set.mem_ofPred_eq, hfin, hgroups g]
      constructor
      · rintro (hnone | ⟨wtx, hwtx, hg⟩)
        · exact absurd hnone (Finset.notMem_empty g)
        · obtain ⟨hash, hlookup⟩ := (hmem wtx).mp hwtx
          exact ⟨hash, wtx, hlookup, hg⟩
      · rintro ⟨hash, wtx, hlookup, hg⟩
        exact Or.inr ⟨wtx, (hmem wtx).mpr ⟨hash, hlookup⟩, hg⟩
    rw [hset] at hcomponents
    have hrun : w.getAddressGroupings C nTime alloc order records = .ok (w, ret) := by
      rw [CachedWallet.getAddressGroupings, hgs]
      dsimp only
      rw [hret]
    have hdisjoint : ∀ S ∈ ret, ∀ T ∈ ret, S ≠ T → Disjoint S T := by
      intro S hS T hT hne
      rw [Finset.disjoint_left]
      exact fun a haS haT => hne (hcomponents.disjoint S hS T hT a haS haT)
    constructor
    · rintro ⟨ret', hret', hnonempty, -⟩ hash wtx hlookup hmine
      rw [hrun] at hret'
      cases hret'
      refine ⟨hall wtx ((hmem wtx).mpr ⟨hash, hlookup⟩) hmine, ?_⟩
      rw [Finset.nonempty_iff_ne_empty]
      intro hempty
      have hin : ∅ ∈ w.groupings C := ⟨hash, wtx, hlookup, Or.inl ⟨hmine, hempty.symm⟩⟩
      exact absurd (hnonempty ∅ (hcomponents.empty.mpr hin)) Finset.not_nonempty_empty
    · intro hgood
      refine ⟨ret, hrun, fun S hS => ?_, hdisjoint, hcomponents.chained⟩
      rw [Finset.nonempty_iff_ne_empty]
      rintro rfl
      obtain ⟨hash, wtx, hlookup, ⟨hmine, hempty⟩ | ⟨-, -, address, -, hempty⟩⟩ := hcomponents.empty.mp hS
      · exact absurd (hgood hash wtx hlookup hmine).2 (hempty ▸ Finset.not_nonempty_empty)
      · exact absurd hempty.symm (Finset.singleton_ne_empty address)
  · -- an output that is not there is looked for
    push Not at hall
    obtain ⟨bad, hbad, hnot⟩ := hall
    obtain ⟨hash, hlookup⟩ := (hmem bad).mp hbad
    constructor
    · rintro ⟨ret, hret, -⟩
      obtain ⟨w', hw'⟩ := @CachedWallet.collectGroupings_error C nTime w records ∅ bad hbad hnot
      rw [CachedWallet.getAddressGroupings, hw'] at hret
      cases hret
    · intro hgood
      exact absurd (fun hmine => (hgood hash bad hlookup hmine).1) hnot

namespace Grouped

def wallet (mapWallet : StdMap Uint256 CWalletTx) : CachedWallet where
  isMine := Nested.wallet.isMine Nested.primitives.toKeyPrimitives
  nMinimumInputValue := 0
  mapWallet := mapWallet
  nOrderPosNext := 0
  acentries := []
  keystore := Nested.wallet
  mapAddressBook := []
  fConfChange := false
  vtxPrev := fun _ => []
  cache := fun _ => CreditCache.dirty

/-- A payment by somebody else. -/
def paid (scriptPubKey : CScript) : CWalletTx :=
  CWalletTx.ofTx ⟨1, 1400000000, [⟨⟨7, 0⟩, [], 0xffffffff⟩], [⟨COIN, scriptPubKey⟩], 0⟩

def spending (prevouts : List COutPoint) : CWalletTx :=
  CWalletTx.ofTx ⟨1, 1400000100, prevouts.map fun prevout => ⟨prevout, [], 0xffffffff⟩, [⟨COIN, [OP_1]⟩], 0⟩

/-- An output of ours, and what spends it. -/
def spent (scriptPubKey : CScript) (prevouts : List COutPoint) : CachedWallet :=
  wallet ((AList.insert 1 (paid scriptPubKey) ∅).insert 2 (spending prevouts))

/-- Together with an input of somebody else. -/
def mixed : CachedWallet := spent Nested.redeem [⟨1, 0⟩, ⟨9, 0⟩]

/-- One of one, with our key: ours, but not at an address. -/
def bare : CachedWallet :=
  spent ([OP_1] ++ (33 :: CCryptoKeyStore.TwoKeys.pubKey1) ++ [OP_1, OP_CHECKMULTISIG]) [⟨1, 0⟩]

def own : CachedWallet := spent Nested.redeem [⟨1, 0⟩]

def records (w : CachedWallet) : List CWalletTx := w.mapWallet.entries.map Sigma.snd

set_option maxRecDepth 4000 in
theorem collect_mixed : CachedWallet.collectGroupings Nested.primitives.toKeyPrimitives 1400000200 (records mixed)
    mixed ∅ = .error { mixed with mapWallet := mixed.mapWallet.insert 9 (.null 1400000200) } := rfl

set_option maxRecDepth 4000 in
theorem collect_bare : CachedWallet.collectGroupings Nested.primitives.toKeyPrimitives 1400000200 (records bare)
    bare ∅ = .ok (bare, {∅}) := rfl

/-- An empty record is put into the wallet, and read out of range; and an empty set is returned. -/
theorem mixed_misread :
    (∀ alloc order, mixed.getAddressGroupings Nested.primitives.toKeyPrimitives 1400000200 alloc order
      (records mixed) = .error { mixed with mapWallet := mixed.mapWallet.insert 9 (.null 1400000200) }) ∧
    ∀ alloc order, (∀ live, alloc live ∉ live) → (∀ gs, (order gs).toFinset = gs) →
      ∃ ret, bare.getAddressGroupings Nested.primitives.toKeyPrimitives 1400000200 alloc order (records bare) =
        .ok (bare, ret) ∧ ∅ ∈ ret := by
  refine ⟨fun alloc order => ?_, fun alloc order halloc horder => ?_⟩
  · rw [CachedWallet.getAddressGroupings, collect_mixed]
  obtain ⟨ret, hret, hcomponents⟩ := mergeGroups_spec halloc (order {∅})
  refine ⟨ret, ?_, hcomponents.empty.mpr ?_⟩
  · rw [CachedWallet.getAddressGroupings, collect_bare]
    dsimp only
    rw [hret]
  · show ∅ ∈ order {∅}
    rw [← List.mem_toFinset, horder]
    exact Finset.mem_singleton_self ∅

/-- Where nothing else lies. -/
def next (live : Finset GroupPtr) : GroupPtr := live.sup id + 1

theorem next_notMem (live : Finset GroupPtr) : next live ∉ live := by
  intro hmem
  have hle : live.sup id + 1 ≤ live.sup id := Finset.le_sup (f := id) hmem
  exact absurd hle (Nat.not_succ_le_self _)

theorem own_grouped : ∃ ret,
    own.getAddressGroupings Nested.primitives.toKeyPrimitives 1400000200 next Finset.toList (records own) =
      .ok (own, ret) ∧ (∀ S ∈ ret, S.Nonempty) ∧ (∀ S ∈ ret, ∀ T ∈ ret, S ≠ T → Disjoint S T) ∧
      ∀ a b, (∃ S ∈ ret, a ∈ S ∧ b ∈ S) ↔ Chained (own.groupings Nested.primitives.toKeyPrimitives) a b := by
  refine (getAddressGroupings_iff Nested.primitives.toKeyPrimitives 1400000200 own next next_notMem Finset.toList
    Finset.toList_toFinset (records own) (List.Perm.refl _)).mpr ?_
  intro hash wtx hlookup hmine
  have hentry : (⟨hash, wtx⟩ : (_ : Uint256) × CWalletTx) ∈
      [⟨2, spending [⟨1, 0⟩]⟩, ⟨1, paid Nested.redeem⟩] := AList.mem_lookup_iff.mp hlookup
  rcases List.mem_cons.mp hentry with heq | hentry
  · cases heq
    refine ⟨by decide, .keyID 0xef1c351778f0e58d73a2e50ec7ddde11a25072fc, ?_⟩
    decide
  · cases List.mem_singleton.mp hentry
    obtain ⟨first, hfirst, hmine⟩ := hmine
    cases hfirst
    cases hmine

end Grouped

end Silkcoin
