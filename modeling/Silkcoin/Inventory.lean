/-
  INVENTORY: what a node tells a peer it has.

  An item to be told is PUSHED to the peer's waiting list, unless the peer knows it.  `SendMessages` goes
  through the list: what became known is dropped, a transaction may have to WAIT for a trickle round (three
  of four do, and our own), and the rest is sent in messages of at most 1000 and known from then on.

  The only memory is `setInventoryKnown`, which forgets its oldest element when full.  While it has room, it
  holds what was SENT and what the peer ANNOUNCED, and no more; an item pushed waits or is known
  (`Relayed.kept`).  The coin is the same for an item all through a round, so nothing both waits and is sent
  (`Relayed.apart`).  Over a whole run, each item is told exactly once (`CNode.run_relays`).
-/
import Silkcoin.Mruset
import Mathlib.Data.Finset.Card

namespace Silkcoin

/-! ## Items -/

/-- `hash` is a `uint256`. -/
structure CInv where
  type : Int
  hash : Nat
deriving DecidableEq

def MSG_TX : Int := 1

/-- What the inventory part of `SendMessages` is called with: the hash function, the salt (drawn once), and
    whether the transaction of a hash is found and is our own. -/
structure SendRound where
  Hash : Nat → Nat
  fSendTrickle : Bool
  hashSalt : Nat
  fFromMe : Nat → Bool

/-- One in four is told to all at once, but never our own. -/
def SendRound.fTrickleWait (round : SendRound) (inv : CInv) : Bool :=
  let hashRand := round.Hash (inv.hash ^^^ round.hashSalt)
  if hashRand &&& 3 ≠ 0 then true else round.fFromMe inv.hash

/-- `inv` is left for a later round. -/
def SendRound.Waits (round : SendRound) (inv : CInv) : Prop :=
  inv.type = MSG_TX ∧ round.fSendTrickle = false ∧ round.fTrickleWait inv = true

instance (round : SendRound) (inv : CInv) : Decidable (round.Waits inv) := by
  unfold SendRound.Waits
  infer_instance

/-! ## The peer -/

/-- What of a peer concerns inventory; `vSend` are the `inv` messages pushed to it. -/
structure CNode where
  setInventoryKnown : Mruset CInv
  vInventoryToSend : List CInv
  vSend : List (List CInv)

/-- The state inside `SendMessages`: the batch `vInv` that is being filled, and who waits. -/
structure InvBatch where
  setInventoryKnown : Mruset CInv
  vInv : List CInv
  vInvWait : List CInv
  vSend : List (List CInv)

namespace CNode

def new (nMaxSize : Nat) : CNode := ⟨(Mruset.new 0).max_size nMaxSize, [], []⟩

def addInventoryKnown (node : CNode) (inv : CInv) : CNode :=
  { node with setInventoryKnown := (node.setInventoryKnown.insert inv).1 }

def pushInventory (node : CNode) (inv : CInv) : CNode :=
  if node.setInventoryKnown.count inv then node
  else { node with vInventoryToSend := node.vInventoryToSend ++ [inv] }

/-- The body of the loop over `vInventoryToSend`. -/
def sendInv (round : SendRound) (b : InvBatch) (inv : CInv) : InvBatch :=
  if b.setInventoryKnown.count inv then b
  else if round.Waits inv then { b with vInvWait := b.vInvWait ++ [inv] }
  else
    let ret := b.setInventoryKnown.insert inv
    let b := { b with setInventoryKnown := ret.1 }
    if ret.2 then
      let b := { b with vInv := b.vInv ++ [inv] }
      if b.vInv.length ≥ 1000 then { b with vSend := b.vSend ++ [b.vInv], vInv := [] } else b
    else b

/-- The loop. -/
def sendInvs (node : CNode) (round : SendRound) : InvBatch :=
  node.vInventoryToSend.foldl (sendInv round) ⟨node.setInventoryKnown, [], [], node.vSend⟩

/-- The inventory part of `SendMessages`. -/
def sendMessages (node : CNode) (round : SendRound) : CNode :=
  let b := node.sendInvs round
  { setInventoryKnown := b.setInventoryKnown
    vInventoryToSend := b.vInvWait
    vSend := if b.vInv.isEmpty then b.vSend else b.vSend ++ [b.vInv] }

end CNode

/-- What happens to the inventory of a peer; each holds `cs_inventory` throughout. -/
inductive InvEvent where
  | push (inv : CInv)
  | addKnown (inv : CInv)
  | send (round : SendRound)

def CNode.step (node : CNode) : InvEvent → CNode
  | .push inv => node.pushInventory inv
  | .addKnown inv => node.addInventoryKnown inv
  | .send round => node.sendMessages round

/-- A peer from the start, with the size of `setInventoryKnown`. -/
def CNode.run (nMaxSize : Nat) (events : List InvEvent) : CNode := events.foldl CNode.step (CNode.new nMaxSize)

/-- The items an event is about. -/
def InvEvent.items : InvEvent → List CInv
  | .push inv => [inv]
  | .addKnown inv => [inv]
  | .send _ => []

/-! ## One item of a round -/

namespace InvBatch

/-- All sent so far, the open batch included. -/
def told (b : InvBatch) : List CInv := b.vSend.flatten ++ b.vInv

/-- The open batch is not full, and no message was larger than 1000. -/
structure Small (b : InvBatch) : Prop where
  vInv : b.vInv.length < 1000
  vSend : ∀ v ∈ b.vSend, v.length ≤ 1000

/-- An item that is neither known nor to wait is TOLD, once. -/
theorem sendInv_told {round : SendRound} {b : InvBatch} {inv : CInv} (hb : b.setInventoryKnown.Synced)
    (hroom : b.setInventoryKnown.Room) (hknown : inv ∉ b.setInventoryKnown.set) (hwait : ¬round.Waits inv)
    (hsmall : b.Small) :
    (CNode.sendInv round b inv).setInventoryKnown = (b.setInventoryKnown.insert inv).1
      ∧ (CNode.sendInv round b inv).told = b.told ++ [inv]
      ∧ (CNode.sendInv round b inv).vInvWait = b.vInvWait ∧ (CNode.sendInv round b inv).Small := by
  have hnew : (b.setInventoryKnown.insert inv).2 = true := by rw [Mruset.insert_room hb hroom hknown]
  have hlen : (b.vInv ++ [inv]).length = b.vInv.length + 1 := by simp
  have hopen := hsmall.vInv
  unfold CNode.sendInv
  rw [if_neg (mt Mruset.count_iff.mp hknown), if_neg hwait]
  dsimp only
  rw [if_pos hnew]
  by_cases hfull : (b.vInv ++ [inv]).length ≥ 1000
  · -- the batch is full: it goes out, and an empty one is opened
    rw [if_pos hfull]
    refine ⟨rfl, ?_, rfl, ?_, ?_⟩
    · simp [told]
    · exact Nat.zero_lt_succ _
    · intro v hv
      rcases List.mem_append.mp hv with hv | hv
      · exact hsmall.vSend v hv
      · rw [List.mem_singleton.mp hv]
        omega
  · rw [if_neg hfull]
    refine ⟨rfl, ?_, rfl, ?_, hsmall.vSend⟩
    · simp [told]
    · show (b.vInv ++ [inv]).length < 1000
      omega

end InvBatch

/-! ## What holds in every state of a run -/

/-- Inside a round, with `rest` still to go through: the items are among `items`, `pushed` was pushed, and
    `announced` came from the peer. -/
structure Relayed (round : SendRound) (items : Finset CInv) (pushed announced : CInv → Prop)
    (rest : List CInv) (b : InvBatch) : Prop where
  synced : b.setInventoryKnown.Synced
  room : b.setInventoryKnown.nMaxSize = 0 ∨ items.card ≤ b.setInventoryKnown.nMaxSize
  within : b.setInventoryKnown.set ⊆ items
  rest_within : ∀ inv ∈ rest, inv ∈ items
  wait_within : ∀ inv ∈ b.vInvWait, inv ∈ items
  known_iff (inv : CInv) : inv ∈ b.setInventoryKnown.set ↔ inv ∈ b.told ∨ announced inv
  nodup : b.told.Nodup
  kept (inv : CInv) : pushed inv → inv ∈ rest ∨ inv ∈ b.vInvWait ∨ inv ∈ b.setInventoryKnown.set
  waits : ∀ inv ∈ b.vInvWait, round.Waits inv
  apart : ∀ inv ∈ b.vInvWait, inv ∉ b.told
  small : b.Small

namespace Relayed

variable {round : SendRound} {items : Finset CInv} {pushed announced : CInv → Prop} {rest : List CInv}
  {b : InvBatch} {inv : CInv}

/-- An item still unknown fits in. -/
theorem hasRoom (h : Relayed round items pushed announced rest b) (hitem : inv ∈ items)
    (hknown : inv ∉ b.setInventoryKnown.set) : b.setInventoryKnown.Room := by
  rcases h.room with hzero | hle
  · exact Or.inl hzero
  · right
    have hlt := Finset.card_lt_card ((Finset.ssubset_iff_of_subset h.within).mpr ⟨inv, hitem, hknown⟩)
    omega

theorem sendInv (h : Relayed round items pushed announced (inv :: rest) b) :
    Relayed round items pushed announced rest (CNode.sendInv round b inv) := by
  have hitem : inv ∈ items := h.rest_within inv List.mem_cons_self
  have hrest : ∀ y ∈ rest, y ∈ items := fun y hy => h.rest_within y (List.mem_cons_of_mem inv hy)
  by_cases hknown : inv ∈ b.setInventoryKnown.set
  · -- the peer knows it already
    have hstep : CNode.sendInv round b inv = b := by
      unfold CNode.sendInv
      rw [if_pos (Mruset.count_iff.mpr hknown)]
    rw [hstep]
    refine { h with rest_within := hrest, kept := ?_ }
    intro y hy
    rcases h.kept y hy with hy | hy
    · rcases List.mem_cons.mp hy with rfl | hy
      · exact Or.inr (Or.inr hknown)
      · exact Or.inl hy
    · exact Or.inr hy
  by_cases hwait : round.Waits inv
  · have hstep : CNode.sendInv round b inv = { b with vInvWait := b.vInvWait ++ [inv] } := by
      unfold CNode.sendInv
      rw [if_neg (mt Mruset.count_iff.mp hknown), if_pos hwait]
    have hmem (y : CInv) : y ∈ b.vInvWait ++ [inv] ↔ y ∈ b.vInvWait ∨ y = inv := by simp
    rw [hstep]
    refine { h with rest_within := hrest, wait_within := ?_, kept := ?_, waits := ?_, apart := ?_
                    small := ⟨h.small.vInv, h.small.vSend⟩ }
    · intro y hy
      rcases (hmem y).mp hy with hy | rfl
      · exact h.wait_within y hy
      · exact hitem
    · intro y hy
      rcases h.kept y hy with hy | hy | hy
      · rcases List.mem_cons.mp hy with rfl | hy
        · exact Or.inr (Or.inl ((hmem y).mpr (Or.inr rfl)))
        · exact Or.inl hy
      · exact Or.inr (Or.inl ((hmem y).mpr (Or.inl hy)))
      · exact Or.inr (Or.inr hy)
    · intro y hy
      rcases (hmem y).mp hy with hy | rfl
      · exact h.waits y hy
      · exact hwait
    · intro y hy
      rcases (hmem y).mp hy with hy | rfl
      · exact h.apart y hy
      · intro htold
        exact hknown ((h.known_iff y).mpr (Or.inl htold))
  · have hroom := h.hasRoom hitem hknown
    obtain ⟨hset, htold, hwaits, hsmall⟩ :=
      InvBatch.sendInv_told h.synced hroom hknown hwait h.small
    have hmem (y : CInv) : y ∈ b.told ++ [inv] ↔ y ∈ b.told ∨ y = inv := by simp
    have hins (y : CInv) : y ∈ (CNode.sendInv round b inv).setInventoryKnown.set
        ↔ y = inv ∨ y ∈ b.setInventoryKnown.set := by
      rw [hset, Mruset.mem_insert_room h.synced hroom]
    constructor
    · rw [hset]
      exact h.synced.insert inv
    · rw [hset, Mruset.nMaxSize_insert]
      exact h.room
    · intro y hy
      rcases (hins y).mp hy with rfl | hy
      · exact hitem
      · exact h.within hy
    · exact hrest
    · rw [hwaits]
      exact h.wait_within
    · intro y
      rw [hins, htold, hmem, h.known_iff]
      tauto
    · rw [htold]
      apply List.nodup_append.mpr
      refine ⟨h.nodup, List.nodup_singleton inv, ?_⟩
      intro y hy z hz
      rw [List.mem_singleton.mp hz]
      rintro rfl
      exact hknown ((h.known_iff y).mpr (Or.inl hy))
    · intro y hy
      rw [hwaits, hins]
      rcases h.kept y hy with hy | hy | hy
      · rcases List.mem_cons.mp hy with rfl | hy
        · exact Or.inr (Or.inr (Or.inl rfl))
        · exact Or.inl hy
      · exact Or.inr (Or.inl hy)
      · exact Or.inr (Or.inr (Or.inr hy))
    · rw [hwaits]
      exact h.waits
    · -- whoever waits lost the coin that `inv` won
      rw [hwaits]
      intro y hy hy'
      rw [htold, hmem] at hy'
      rcases hy' with hy' | rfl
      · exact h.apart y hy hy'
      · exact hwait (h.waits y hy)
    · exact hsmall

/-- The whole round. -/
theorem foldl (h : Relayed round items pushed announced rest b) :
    Relayed round items pushed announced [] (rest.foldl (CNode.sendInv round) b) := by
  induction rest generalizing b with
  | nil => exact h
  | cons inv rest ih => exact ih h.sendInv

end Relayed

/-- Between rounds: what waits is `vInventoryToSend`, and it was not sent. -/
structure CNode.Tells (items : Finset CInv) (pushed announced : CInv → Prop) (node : CNode) : Prop where
  synced : node.setInventoryKnown.Synced
  room : node.setInventoryKnown.nMaxSize = 0 ∨ items.card ≤ node.setInventoryKnown.nMaxSize
  within : node.setInventoryKnown.set ⊆ items
  pending_within : ∀ inv ∈ node.vInventoryToSend, inv ∈ items
  known_iff (inv : CInv) : inv ∈ node.setInventoryKnown.set ↔ inv ∈ node.vSend.flatten ∨ announced inv
  nodup : node.vSend.flatten.Nodup
  kept (inv : CInv) : pushed inv → inv ∈ node.vInventoryToSend ∨ inv ∈ node.setInventoryKnown.set
  apart : ∀ inv ∈ node.vInventoryToSend, inv ∉ node.vSend.flatten
  small : ∀ v ∈ node.vSend, v.length ≤ 1000

namespace CNode

variable {items : Finset CInv} {pushed announced : CInv → Prop} {node : CNode} {inv : CInv}

theorem tells_new {nMaxSize : Nat} (hroom : nMaxSize = 0 ∨ items.card ≤ nMaxSize) :
    (new nMaxSize).Tells items (fun _ => False) (fun _ => False) := by
  have hempty : (Mruset.new 0 : Mruset CInv).max_size nMaxSize = Mruset.new nMaxSize := by
    by_cases hzero : nMaxSize = 0
    · subst hzero
      rfl
    · simp [Mruset.max_size, Mruset.new, Mruset.shrink]
  have hnew : new nMaxSize = ⟨Mruset.new nMaxSize, [], []⟩ := by rw [new, hempty]
  rw [hnew]
  constructor
  · exact Mruset.synced_new nMaxSize
  · exact hroom
  · exact Finset.empty_subset items
  · intro inv hinv
    cases hinv
  · intro inv
    simp [Mruset.new]
  · exact List.nodup_nil
  · intro inv hfalse
    exact hfalse.elim
  · intro inv hinv
    cases hinv
  · intro v hv
    cases hv

theorem Tells.addInventoryKnown (h : node.Tells items pushed announced) (hitem : inv ∈ items) :
    (node.addInventoryKnown inv).Tells items pushed (fun y => announced y ∨ y = inv) := by
  by_cases hknown : inv ∈ node.setInventoryKnown.set
  · have hstep : node.addInventoryKnown inv = node := by
      unfold CNode.addInventoryKnown
      rw [Mruset.insert_of_mem hknown]
    rw [hstep]
    refine { h with known_iff := ?_ }
    intro y
    rw [h.known_iff]
    constructor
    · rintro (hy | hy)
      · exact Or.inl hy
      · exact Or.inr (Or.inl hy)
    · rintro (hy | hy | rfl)
      · exact Or.inl hy
      · exact Or.inr hy
      · exact (h.known_iff y).mp hknown
  · have hroom : node.setInventoryKnown.Room := by
      rcases h.room with hzero | hle
      · exact Or.inl hzero
      · right
        have hlt := Finset.card_lt_card ((Finset.ssubset_iff_of_subset h.within).mpr ⟨inv, hitem, hknown⟩)
        omega
    have hins (y : CInv) : y ∈ (node.addInventoryKnown inv).setInventoryKnown.set
        ↔ y = inv ∨ y ∈ node.setInventoryKnown.set := Mruset.mem_insert_room h.synced hroom y
    constructor
    · exact h.synced.insert inv
    · show (node.setInventoryKnown.insert inv).1.nMaxSize = 0
        ∨ items.card ≤ (node.setInventoryKnown.insert inv).1.nMaxSize
      rw [Mruset.nMaxSize_insert]
      exact h.room
    · intro y hy
      rcases (hins y).mp hy with rfl | hy
      · exact hitem
      · exact h.within hy
    · exact h.pending_within
    · intro y
      rw [hins, h.known_iff]
      show y = inv ∨ y ∈ node.vSend.flatten ∨ announced y ↔ y ∈ node.vSend.flatten ∨ announced y ∨ y = inv
      tauto
    · exact h.nodup
    · intro y hy
      rw [hins]
      rcases h.kept y hy with hy | hy
      · exact Or.inl hy
      · exact Or.inr (Or.inr hy)
    · exact h.apart
    · exact h.small

theorem Tells.pushInventory (h : node.Tells items pushed announced) (hitem : inv ∈ items) :
    (node.pushInventory inv).Tells items (fun y => pushed y ∨ y = inv) announced := by
  by_cases hknown : inv ∈ node.setInventoryKnown.set
  · have hstep : node.pushInventory inv = node := by
      unfold CNode.pushInventory
      rw [if_pos (Mruset.count_iff.mpr hknown)]
    rw [hstep]
    refine { h with kept := ?_ }
    rintro y (hy | rfl)
    · exact h.kept y hy
    · exact Or.inr hknown
  · have hstep : node.pushInventory inv = { node with vInventoryToSend := node.vInventoryToSend ++ [inv] } := by
      unfold CNode.pushInventory
      rw [if_neg (mt Mruset.count_iff.mp hknown)]
    have hmem (y : CInv) : y ∈ node.vInventoryToSend ++ [inv] ↔ y ∈ node.vInventoryToSend ∨ y = inv := by simp
    rw [hstep]
    refine { h with pending_within := ?_, kept := ?_, apart := ?_ }
    · intro y hy
      rcases (hmem y).mp hy with hy | rfl
      · exact h.pending_within y hy
      · exact hitem
    · rintro y (hy | rfl)
      · rcases h.kept y hy with hy | hy
        · exact Or.inl ((hmem y).mpr (Or.inl hy))
        · exact Or.inr hy
      · exact Or.inl ((hmem y).mpr (Or.inr rfl))
    · intro y hy
      rcases (hmem y).mp hy with hy | rfl
      · exact h.apart y hy
      · intro hsent
        exact hknown ((h.known_iff y).mpr (Or.inl hsent))

/-- The last batch goes out, if there is anything in it. -/
theorem flatten_vSend (node : CNode) (round : SendRound) :
    (node.sendMessages round).vSend.flatten = (node.sendInvs round).told := by
  unfold sendMessages InvBatch.told
  cases hv : (node.sendInvs round).vInv with
  | nil => simp [hv]
  | cons inv vInv => simp [hv]

theorem Tells.sendMessages (h : node.Tells items pushed announced) (round : SendRound) :
    (node.sendMessages round).Tells items pushed announced
      ∧ ∀ inv ∈ (node.sendMessages round).vInventoryToSend, round.Waits inv := by
  have hstart : Relayed round items pushed announced node.vInventoryToSend
      ⟨node.setInventoryKnown, [], [], node.vSend⟩ := by
    have htold : (⟨node.setInventoryKnown, [], [], node.vSend⟩ : InvBatch).told = node.vSend.flatten :=
      List.append_nil _
    constructor
    · exact h.synced
    · exact h.room
    · exact h.within
    · exact h.pending_within
    · intro inv hinv
      cases hinv
    · rw [htold]
      exact h.known_iff
    · rw [htold]
      exact h.nodup
    · intro inv hinv
      rcases h.kept inv hinv with hinv | hinv
      · exact Or.inl hinv
      · exact Or.inr (Or.inr hinv)
    · intro inv hinv
      cases hinv
    · intro inv hinv
      cases hinv
    · exact ⟨Nat.zero_lt_succ _, h.small⟩
  have hend : Relayed round items pushed announced [] (node.sendInvs round) := hstart.foldl
  constructor
  · constructor
    · exact hend.synced
    · exact hend.room
    · exact hend.within
    · exact hend.wait_within
    · intro inv
      rw [flatten_vSend]
      exact hend.known_iff inv
    · rw [flatten_vSend]
      exact hend.nodup
    · intro inv hinv
      rcases hend.kept inv hinv with hnil | hinv
      · cases hnil
      · exact hinv
    · intro inv hinv
      rw [flatten_vSend]
      exact hend.apart inv hinv
    · intro v hv
      unfold CNode.sendMessages at hv
      dsimp only at hv
      split at hv
      · exact hend.small.vSend v hv
      · rcases List.mem_append.mp hv with hv | hv
        · exact hend.small.vSend v hv
        · rw [List.mem_singleton.mp hv]
          have := hend.small.vInv
          omega
  · exact hend.waits

/-! ## Whole runs -/

/-- What a run pushed and what it announced. -/
theorem run_tells {nMaxSize : Nat} {events : List InvEvent}
    (hroom : nMaxSize = 0 ∨ items.card ≤ nMaxSize) (hitems : ∀ e ∈ events, ∀ inv ∈ e.items, inv ∈ items) :
    (run nMaxSize events).Tells items (fun inv => .push inv ∈ events) (fun inv => .addKnown inv ∈ events) := by
  induction events using List.reverseRecOn with
  | nil => simpa [run] using tells_new hroom
  | append_singleton events e ih =>
    have htells := ih (fun e' he' => hitems e' (List.mem_append_left [e] he'))
    have hrun : run nMaxSize (events ++ [e]) = (run nMaxSize events).step e := by simp [run]
    have hsub := hitems e (by simp)
    rw [hrun]
    cases e with
    | push inv =>
      have hitem : inv ∈ items := hsub inv (List.mem_singleton_self inv)
      simpa [CNode.step] using htells.pushInventory hitem
    | addKnown inv =>
      have hitem : inv ∈ items := hsub inv (List.mem_singleton_self inv)
      simpa [CNode.step] using htells.addInventoryKnown hitem
    | send round => simpa [CNode.step] using (htells.sendMessages round).1

/-- Every item pushed and never announced WAITS, or was sent in EXACTLY ONE message and once in it; a trickle
    round leaves nothing waiting; and no message has more than 1000 items. -/
theorem run_relays (nMaxSize : Nat) (events : List InvEvent)
    (hroom : nMaxSize = 0 ∨ (events.flatMap InvEvent.items).toFinset.card ≤ nMaxSize) :
    (∀ inv, .push inv ∈ events → .addKnown inv ∉ events →
      let node := run nMaxSize events
      (inv ∈ node.vInventoryToSend ∧ inv ∉ node.vSend.flatten)
        ∨ (inv ∉ node.vInventoryToSend ∧ node.vSend.flatten.count inv = 1))
    ∧ (∀ round : SendRound, round.fSendTrickle = true →
        ((run nMaxSize events).sendMessages round).vInventoryToSend = [])
    ∧ ∀ vInv ∈ (run nMaxSize events).vSend, vInv.length ≤ 1000 := by
  have htells : (run nMaxSize events).Tells (events.flatMap InvEvent.items).toFinset
      (fun inv => .push inv ∈ events) (fun inv => .addKnown inv ∈ events) := by
    apply run_tells hroom
    intro e he inv hinv
    exact List.mem_toFinset.mpr (List.mem_flatMap.mpr ⟨e, he, hinv⟩)
  refine ⟨?_, ?_, htells.small⟩
  · intro inv hpush hannounced
    show (inv ∈ (run nMaxSize events).vInventoryToSend ∧ inv ∉ (run nMaxSize events).vSend.flatten) ∨
      (inv ∉ (run nMaxSize events).vInventoryToSend ∧ (run nMaxSize events).vSend.flatten.count inv = 1)
    by_cases hwait : inv ∈ (run nMaxSize events).vInventoryToSend
    · exact Or.inl ⟨hwait, htells.apart inv hwait⟩
    · right
      refine ⟨hwait, List.count_eq_one_of_mem htells.nodup ?_⟩
      rcases htells.kept inv hpush with hinv | hinv
      · exact absurd hinv hwait
      · rcases (htells.known_iff inv).mp hinv with hsent | hinv
        · exact hsent
        · exact absurd hinv hannounced
  · intro round htrickle
    apply List.eq_nil_iff_forall_not_mem.mpr
    intro inv hinv
    obtain ⟨-, hlate, -⟩ := (htells.sendMessages round).2 inv hinv
    rw [htrickle] at hlate
    cases hlate

/-- A block pushed twice and a transaction the peer announces meanwhile, with the default send buffer. -/
theorem run_relays_block :
    let events : List InvEvent := [.push ⟨2, 7⟩, .push ⟨1, 8⟩, .addKnown ⟨1, 8⟩, .push ⟨2, 7⟩,
      .send ⟨fun _ => 0, true, 5, fun _ => false⟩]
    (events.flatMap InvEvent.items).toFinset.card ≤ 10000
    ∧ (run 10000 events).vSend = [[⟨2, 7⟩]]
    ∧ ∀ inv, .push inv ∈ events → .addKnown inv ∉ events →
        let node := run 10000 events
        (inv ∈ node.vInventoryToSend ∧ inv ∉ node.vSend.flatten)
          ∨ (inv ∉ node.vInventoryToSend ∧ node.vSend.flatten.count inv = 1) :=
  ⟨by decide, by decide, (run_relays 10000 _ (Or.inr (by decide))).1⟩

end CNode

end Silkcoin
