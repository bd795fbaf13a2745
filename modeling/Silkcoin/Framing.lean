/-
  FRAMING DOES NOT DEPEND ON THE CHUNKS in which a stream arrives.

  Two levels:

  1. The code's: a `CDataStream` with its read position, erased from the front and inserted into.
  2. A reader of bytes (`frameReader`): a step skips a header, or hands out a message, or waits.

  The loop of `ProcessMessages` follows the reader round by round (`body_follows`, `loop_follows`), so it
  ends, and it never reads beyond the buffer.  The reader does not depend on how the stream is cut, and
  it reads back what `PushMessage` writes (`frameReader_encodes`).  So neither does the code, whatever
  `ProcessMessage` does (`processMessages_framing`).
-/
import Silkcoin.Messages
import Silkcoin.Lib.Validation

namespace Silkcoin

open Incremental Validation CMessageHeader

/-! ## The reader behind it -/

section Frame

variable (hash : List UInt8 → Uint256) (fTestNet : Bool)

/-- The header in the first bytes. -/
def headerOf (b : List UInt8) : CMessageHeader where
  pchMessageStart := b.take 4
  pchCommand := (b.drop 4).take COMMAND_SIZE
  nMessageSize := numberOf ((b.drop MESSAGE_SIZE_OFFSET).take 4)
  nChecksum := numberOf ((b.drop CHECKSUM_OFFSET).take 4)

/-- A step with the start mark in front. -/
def frameAt (b : List UInt8) : Option (Option Message × List UInt8) :=
  if b.length < nHeaderSize then none
  else
    let hdr := headerOf b
    let rest := b.drop nHeaderSize
    let nMessageSize := hdr.nMessageSize.toNat
    if hdr.isValid fTestNet = false then some (none, rest)
    else if nMessageSize > rest.length then none
    else if checksumOf hash (rest.take nMessageSize) ≠ hdr.nChecksum then some (none, rest)
    else some (some (hdr.getCommand, rest.take nMessageSize), rest.drop nMessageSize)

def frameStep (b : List UInt8) : Option (Option Message × List UInt8) :=
  frameAt hash fTestNet (b.drop (search (pchMessageStart fTestNet) b))

/-- What `ProcessMessages` leaves in the buffer when it waits: all from the start mark on, or the last
    bytes, where the mark or the header may have begun. -/
def frameKeep (b : List UInt8) : List UInt8 :=
  if (b.drop (search (pchMessageStart fTestNet) b)).length < nHeaderSize
  then b.drop (b.length - nHeaderSize) else b.drop (search (pchMessageStart fTestNet) b)

variable {hash fTestNet} {b c : List UInt8} {x : Option Message × List UInt8}

theorem length_pchMessageStart : (pchMessageStart fTestNet).length = 4 := by
  cases fTestNet
  · rfl
  · rfl

theorem headerOf_append (hb : nHeaderSize ≤ b.length) : headerOf (b ++ c) = headerOf b := by
  have hdrop : ∀ i n, i + n ≤ nHeaderSize → ((b ++ c).drop i).take n = (b.drop i).take n := by
    intro i n hin
    rw [List.drop_append_of_le_length (by omega), List.take_append_of_le_length]
    rw [List.length_drop]
    omega
  unfold headerOf
  rw [hdrop 4 COMMAND_SIZE (by decide), hdrop MESSAGE_SIZE_OFFSET 4 (by decide),
    hdrop CHECKSUM_OFFSET 4 (by decide), show (b ++ c).take 4 = b.take 4 from hdrop 0 4 (by decide)]

/-- A step uses up the header at least. -/
theorem frameAt_shrinks (h : frameAt hash fTestNet b = some x) :
    x.2.length + nHeaderSize ≤ b.length := by
  unfold frameAt at h
  split at h
  · cases h
  · have hrest : (b.drop nHeaderSize).length = b.length - nHeaderSize := List.length_drop
    dsimp only at h
    split at h
    · cases h
      dsimp only
      omega
    · split at h
      · cases h
      · split at h
        · cases h
          dsimp only
          omega
        · cases h
          dsimp only
          rw [List.length_drop]
          omega

theorem frameAt_append (c : List UInt8) (h : frameAt hash fTestNet b = some x) :
    frameAt hash fTestNet (b ++ c) = some (x.1, x.2 ++ c) := by
  unfold frameAt at h
  split at h
  · cases h
  · rename_i hb
    have hb : nHeaderSize ≤ b.length := by omega
    have hrest : (b ++ c).drop nHeaderSize = b.drop nHeaderSize ++ c := List.drop_append_of_le_length hb
    unfold frameAt
    rw [if_neg (by rw [List.length_append]; omega), headerOf_append hb, hrest]
    dsimp only at h ⊢
    split at h
    · rename_i hvalid
      cases h
      rw [if_pos hvalid]
    · rename_i hvalid
      rw [if_neg hvalid]
      split at h
      · cases h
      · rename_i hsize
        have hsize : (headerOf b).nMessageSize.toNat ≤ (b.drop nHeaderSize).length := by omega
        rw [if_neg (by rw [List.length_append]; omega), List.take_append_of_le_length hsize,
          List.drop_append_of_le_length hsize]
        split at h
        · rename_i hsum
          cases h
          rw [if_pos hsum]
        · rename_i hsum
          cases h
          rw [if_neg hsum]

/-- Bytes before the mark make no difference. -/
theorem frameStep_drop {k : Nat} (hk : k ≤ search (pchMessageStart fTestNet) b) :
    frameStep hash fTestNet (b.drop k) = frameStep hash fTestNet b := by
  unfold frameStep
  rw [List.drop_drop, add_comm, search_drop hk]

/-- The mark is where it was, if a header was behind it. -/
theorem search_append_mark (c : List UInt8)
    (h : ¬ (b.drop (search (pchMessageStart fTestNet) b)).length < nHeaderSize) :
    search (pchMessageStart fTestNet) (b ++ c) = search (pchMessageStart fTestNet) b := by
  rw [List.length_drop] at h
  have hsize : nHeaderSize = 24 := rfl
  refine search_append ?_ (by omega)
  rw [length_pchMessageStart]
  omega

theorem frameStep_shrinks (h : frameStep hash fTestNet b = some x) : x.2.length < b.length := by
  have hx := frameAt_shrinks h
  have hsize : nHeaderSize = 24 := rfl
  rw [List.length_drop] at hx
  omega

/-- More bytes behind do not change a step. -/
theorem frameStep_append (c : List UInt8) (h : frameStep hash fTestNet b = some x) :
    frameStep hash fTestNet (b ++ c) = some (x.1, x.2 ++ c) := by
  have hb : ¬ (b.drop (search (pchMessageStart fTestNet) b)).length < nHeaderSize := by
    have hx := frameAt_shrinks h
    omega
  unfold frameStep
  rw [search_append_mark c hb, List.drop_append_of_le_length search_le_length]
  exact frameAt_append c h

/-- What is kept is enough to go on with. -/
theorem frameStep_keep (c : List UInt8) :
    frameStep hash fTestNet (frameKeep fTestNet b ++ c) = frameStep hash fTestNet (b ++ c) := by
  unfold frameKeep
  split
  · rename_i hb
    rw [List.length_drop] at hb
    have hlate : b.length < search (pchMessageStart fTestNet) (b ++ c) + nHeaderSize :=
      lt_search_append (by rw [length_pchMessageStart]; decide) (by omega)
    rw [← List.drop_append_of_le_length (Nat.sub_le ..)]
    exact frameStep_drop (by omega)
  · rename_i hb
    rw [← List.drop_append_of_le_length search_le_length]
    exact frameStep_drop (search_append_mark c hb).ge

theorem frameKeep_suffix (b : List UInt8) : frameKeep fTestNet b <:+ b := by
  unfold frameKeep
  split
  · exact List.drop_suffix ..
  · exact List.drop_suffix ..

variable (hash fTestNet)

/-- The reader of messages. -/
def frameReader : Reader UInt8 Message where
  step := frameStep hash fTestNet
  keep := frameKeep fTestNet
  shrinks := frameStep_shrinks
  stable := frameStep_append
  resume c _ := frameStep_keep c
  keeps := frameKeep_suffix

end Frame

/-! ## The loop follows the reader -/

section Follow

variable {σ : Type} {hash : List UInt8 → Uint256} {fTestNet : Bool} {sendBufferFull : σ → Bool}
  {processMessage : σ → Message → Processed σ} {c : Connection σ}

/-- The header is read off the front. -/
theorem unserialize_ok {s : CDataStream} (h : nHeaderSize ≤ s.size) :
    ∃ s', unserialize s = .ok (headerOf s.unread, s') ∧ s'.unread = s.unread.drop nHeaderSize := by
  have hsize : nHeaderSize = 24 := rfl
  have hlength : ∀ {s s' : CDataStream} {n : Nat}, s'.unread = s.unread.drop n →
      s'.size = s.size - n := by
    intro s s' n hs
    rw [← CDataStream.length_unread, hs, List.length_drop, CDataStream.length_unread]
  obtain ⟨s₁, hread₁, hs₁⟩ := CDataStream.read_ok (s := s) (n := 4) (by omega)
  have h₁ := hlength hs₁
  obtain ⟨s₂, hread₂, hs₂⟩ := CDataStream.read_ok (s := s₁) (n := COMMAND_SIZE)
    (by rw [h₁]; unfold COMMAND_SIZE; omega)
  have h₂ := hlength hs₂
  obtain ⟨s₃, hread₃, hs₃⟩ := CDataStream.read_ok (s := s₂) (n := 4)
    (by rw [h₂, h₁]; unfold COMMAND_SIZE; omega)
  have h₃ := hlength hs₃
  obtain ⟨s₄, hread₄, hs₄⟩ := CDataStream.read_ok (s := s₃) (n := 4)
    (by rw [h₃, h₂, h₁]; unfold COMMAND_SIZE; omega)
  have hu₂ : s₂.unread = s.unread.drop MESSAGE_SIZE_OFFSET := by
    rw [hs₂, hs₁, List.drop_drop]; rfl
  have hu₃ : s₃.unread = s.unread.drop CHECKSUM_OFFSET := by
    rw [hs₃, hu₂, List.drop_drop]; rfl
  refine ⟨s₄, ?_, ?_⟩
  · rw [hs₁] at hread₂
    rw [hu₂] at hread₃
    rw [hu₃] at hread₄
    unfold unserialize
    simp only [hread₁, hread₂, hread₃, hread₄, ok_bind]
    rfl
  · rw [hs₄, hu₃, List.drop_drop]; rfl

/-- **One round** of the loop takes a step of the reader, or leaves with what the reader keeps. -/
theorem body_follows (hsend : ∀ node, sendBufferFull node = false) :
    ∃ j, processMessagesBody hash fTestNet sendBufferFull processMessage c = .ok j ∧
      match frameStep hash fTestNet c.vRecv.unread with
      | none => ∃ vRecv, j = .leave { c with vRecv := vRecv } ∧
          vRecv.unread = frameKeep fTestNet c.vRecv.unread
      | some (none, rest) => ∃ vRecv, j = .next { c with vRecv := vRecv } ∧ vRecv.unread = rest
      | some (some message, rest) => ∃ vRecv : CDataStream,
          let s := c.toSession.process processMessage message
          j = (if s.fShutdown then .quit ⟨s, vRecv⟩ else .next ⟨s, vRecv⟩) ∧
            vRecv.unread = if c.fSocket && !s.fSocket then [] else rest := by
  have hu := CDataStream.length_unread c.vRecv
  have hsize : c.vRecv.size = c.vRecv.vch.length - c.vRecv.nReadPos := rfl
  have hpos := c.vRecv.pos_le
  -- what is behind the mark
  have hbehind : c.vRecv.end.val - (c.vRecv.search (pchMessageStart fTestNet)).val =
      (c.vRecv.unread.drop (search (pchMessageStart fTestNet) c.vRecv.unread)).length := by
    rw [List.length_drop]
    show c.vRecv.vch.length - (c.vRecv.nReadPos + _) = _
    omega
  unfold processMessagesBody frameStep frameAt
  rw [hsend, if_neg Bool.false_ne_true]
  dsimp only
  rw [hbehind]
  by_cases hb : (c.vRecv.unread.drop (search (pchMessageStart fTestNet) c.vRecv.unread)).length <
    nHeaderSize
  · rw [if_pos hb, if_pos hb]
    unfold frameKeep
    rw [if_pos hb]
    split
    · rename_i h
      refine ⟨_, rfl, _, rfl, ?_⟩
      rw [CDataStream.unread_erase_begin]
      congr 1
      show c.vRecv.vch.length - nHeaderSize - c.vRecv.nReadPos = _
      omega
    · rename_i h
      refine ⟨_, rfl, c.vRecv, rfl, ?_⟩
      rw [Nat.sub_eq_zero_of_le (by omega), List.drop_zero]
  · rw [if_neg hb, if_neg hb]
    -- the mark is in front now
    have hfront : (c.vRecv.erase c.vRecv.begin (c.vRecv.search (pchMessageStart fTestNet))).unread =
        c.vRecv.unread.drop (search (pchMessageStart fTestNet) c.vRecv.unread) := by
      rw [CDataStream.unread_erase_begin]
      congr 1
      exact Nat.add_sub_cancel_left ..
    generalize c.vRecv.erase c.vRecv.begin (c.vRecv.search (pchMessageStart fTestNet)) = v at hfront ⊢
    have hkeep : frameKeep fTestNet c.vRecv.unread = v.unread := by
      unfold frameKeep
      rw [if_neg hb, hfront]
    rw [← hfront] at hb ⊢
    rw [hkeep]
    obtain ⟨v', hread, hrest⟩ := unserialize_ok (s := v) (by
      rw [← CDataStream.length_unread]
      omega)
    simp only [hread, ok_bind]
    rw [← hrest]
    have hu' := CDataStream.length_unread v'
    by_cases hvalid : (headerOf v.unread).isValid fTestNet = false
    · rw [if_pos hvalid, hvalid, if_pos (show (!false) = true from rfl)]
      exact ⟨_, rfl, v', rfl, rfl⟩
    · have hmax : ¬ (headerOf v.unread).nMessageSize > MAX_SIZE := by
        unfold CMessageHeader.isValid at hvalid
        simp only [Bool.and_eq_false_iff, Bool.not_eq_false', not_or] at hvalid
        simpa using hvalid.2
      rw [if_neg hvalid, if_neg (by simpa using hvalid), if_neg hmax, ← hu']
      by_cases hmore : (headerOf v.unread).nMessageSize.toNat > v'.unread.length
      · rw [if_pos hmore, if_pos hmore]
        refine ⟨_, rfl, _, rfl, ?_⟩
        rw [CDataStream.unread_insert_begin, hrest, List.take_append_drop]
      · rw [if_neg hmore, if_neg hmore]
        by_cases hsum : checksumOf hash (v'.unread.take (headerOf v.unread).nMessageSize.toNat) ≠
          (headerOf v.unread).nChecksum
        · rw [if_pos hsum, if_pos hsum]
          exact ⟨_, rfl, v', rfl, rfl⟩
        · rw [if_neg hsum, if_neg hsum]
          have henough : (headerOf v.unread).nMessageSize.toNat ≤ v'.size := by omega
          obtain ⟨v'', hignore, hlast⟩ := CDataStream.skip_ok "CDataStream::ignore() : end of data" henough
          rw [show v'.ignore (headerOf v.unread).nMessageSize.toNat = .ok v'' from hignore, ok_bind, ← hlast]
          dsimp only
          generalize c.toSession.process processMessage _ = s
          refine ⟨if s.fShutdown = true then .quit ⟨s, if (c.fSocket && !s.fSocket) = true then v''.clear
            else v''⟩ else .next ⟨s, if (c.fSocket && !s.fSocket) = true then v''.clear else v''⟩, ?_, _,
            rfl, ?_⟩
          · split
            · rfl
            · rfl
          · split
            · rfl
            · rfl

/-- Nothing more is dispatched on the connection. -/
def Session.halted (s : Session σ) : Bool := !s.fSocket || s.fShutdown

/-- The code's state and the reader's: the bytes agree while the connection is in use, and there are none
    once the socket is closed. -/
structure Agrees (c : Connection σ) (x : Session σ × List UInt8) : Prop where
  session : c.toSession = x.1
  unread : x.1.halted = false → c.vRecv.unread = x.2
  closed : x.1.fSocket = false → c.vRecv.unread = []

theorem frameStep_nil : frameStep hash fTestNet [] = none := rfl

/-- With nothing unread the loop ends. -/
theorem loop_nil (hsend : ∀ node, sendBufferFull node = false) {n : Nat} (h : c.vRecv.unread = []) :
    ∃ c', processMessagesLoop hash fTestNet sendBufferFull processMessage (n + 1) c = .ok c' ∧
      c'.toSession = c.toSession ∧ c'.vRecv.unread = [] := by
  obtain ⟨j, hbody, hj⟩ : ∃ j, processMessagesBody hash fTestNet sendBufferFull processMessage c =
    .ok j ∧ _ := body_follows hsend
  rw [h, frameStep_nil] at hj
  obtain ⟨vRecv, rfl, hunread⟩ := hj
  refine ⟨{ c with vRecv := vRecv.compact }, ?_, rfl, hunread⟩
  unfold processMessagesLoop
  rw [hbody]; rfl

/-- **The loop** ends, and it has done what the reader does. -/
theorem loop_follows (hsend : ∀ node, sendBufferFull node = false) {n : Nat}
    (hc : c.toSession.halted = false) (hn : c.vRecv.unread.length < n) :
    ∃ c', processMessagesLoop hash fTestNet sendBufferFull processMessage n c = .ok c' ∧
      Agrees c' ((frameReader hash fTestNet).drain (Session.process processMessage) Session.halted n
        c.toSession c.vRecv.unread) := by
  induction n generalizing c with
  | zero => exact absurd hn (Nat.not_lt_zero _)
  | succ n ih =>
    obtain ⟨j, hbody, hj⟩ : ∃ j, processMessagesBody hash fTestNet sendBufferFull processMessage c =
      .ok j ∧ _ := body_follows hsend
    have hopen : c.fSocket = true := by
      unfold Session.halted at hc
      simpa using (Bool.or_eq_false_iff.mp hc).1
    unfold processMessagesLoop
    rw [hbody, ok_bind, Reader.drain_succ, show (frameReader hash fTestNet).step c.vRecv.unread =
      frameStep hash fTestNet c.vRecv.unread from rfl]
    cases hstep : frameStep hash fTestNet c.vRecv.unread with
    | none =>
      rw [hstep] at hj
      obtain ⟨vRecv, rfl, hunread⟩ := hj
      exact ⟨{ c with vRecv := vRecv.compact }, rfl, rfl, fun _ => hunread,
        fun h => absurd (hopen.symm.trans h) Bool.noConfusion⟩
    | some x =>
      obtain ⟨message, rest⟩ := x
      have hlt : rest.length < c.vRecv.unread.length := (frameReader hash fTestNet).shrinks hstep
      rw [hstep] at hj
      cases message with
      | none =>
        obtain ⟨vRecv, rfl, rfl⟩ := hj
        exact ih hc (show vRecv.unread.length < n by omega)
      | some message =>
        obtain ⟨vRecv, rfl, hunread⟩ := hj
        dsimp only
        generalize c.toSession.process processMessage message = s at hunread ⊢
        rw [hopen, Bool.true_and] at hunread
        have hclosed : s.fSocket = false → vRecv.unread = [] := fun h => by
          rw [hunread, h]; rfl
        cases hdown : s.fShutdown with
        | true =>
          have hhalted : s.halted = true := by
            unfold Session.halted
            rw [hdown, Bool.or_true]
          rw [if_pos hhalted]
          exact ⟨⟨s, vRecv⟩, rfl, rfl, fun h => absurd (hhalted.symm.trans h) Bool.noConfusion, hclosed⟩
        | false =>
          cases hsocket : s.fSocket with
          | false =>
            have hhalted : s.halted = true := by
              unfold Session.halted
              rw [hsocket]; rfl
            rw [if_pos hhalted]
            obtain ⟨n, rfl⟩ : ∃ k, n = k + 1 := ⟨n - 1, by omega⟩
            obtain ⟨c', hloop, hsession, hnil⟩ : ∃ c', processMessagesLoop hash fTestNet sendBufferFull
              processMessage (n + 1) ⟨s, vRecv⟩ = .ok c' ∧ _ := loop_nil hsend (hclosed hsocket)
            exact ⟨c', hloop, hsession, fun h => absurd (hhalted.symm.trans h) Bool.noConfusion,
              fun _ => hnil⟩
          | true =>
            have hhalted : s.halted = false := by
              unfold Session.halted
              rw [hsocket, hdown]; rfl
            rw [hhalted, if_neg Bool.false_ne_true]
            have hrest : vRecv.unread = rest := by rw [hunread, hsocket]; rfl
            rw [← hrest] at hlt ⊢
            exact ih (c := ⟨s, vRecv⟩) hhalted (show vRecv.unread.length < n by omega)

/-- **A chunk**: what the code does with it is what the reader does with it. -/
theorem receive_follows (hsend : ∀ node, sendBufferFull node = false) {x : Session σ × List UInt8}
    (h : Agrees c x) (chunk : List UInt8) :
    ∃ c', receive hash fTestNet sendBufferFull processMessage c chunk = .ok c' ∧
      Agrees c' ((frameReader hash fTestNet).receive (Session.process processMessage) Session.halted x
        chunk) := by
  obtain ⟨s, b⟩ := x
  obtain ⟨hsession, hunread, hclosed⟩ := h
  dsimp only at hsession hunread hclosed
  subst hsession
  unfold receive
  cases hsocket : c.fSocket with
  | false =>
    have hhalted : c.toSession.halted = true := by
      unfold Session.halted
      rw [hsocket]; rfl
    rw [Reader.receive_halted hhalted]
    have hagrees : Agrees c (c.toSession, b) :=
      ⟨rfl, fun h => absurd (hhalted.symm.trans h) Bool.noConfusion, hclosed⟩
    refine ⟨c, ?_, hagrees⟩
    dsimp only
    rw [if_neg Bool.false_ne_true]
    split
    · rfl
    · unfold processMessages
      exact if_pos (CDataStream.empty_iff.mpr (hclosed hsocket))
  | true =>
    dsimp only
    rw [if_pos rfl]
    cases hdown : c.fShutdown with
    | true =>
      have hhalted : c.toSession.halted = true := by
        unfold Session.halted
        rw [hdown, Bool.or_true]
      rw [Reader.receive_halted hhalted]
      exact ⟨{ c with vRecv := c.vRecv.write chunk }, rfl, rfl,
        fun h => absurd (hhalted.symm.trans h) Bool.noConfusion,
        fun h => absurd (hsocket.symm.trans h) Bool.noConfusion⟩
    | false =>
      have hhalted : c.toSession.halted = false := by
        unfold Session.halted
        rw [hsocket, hdown]; rfl
      rw [Reader.receive_running hhalted, if_neg Bool.false_ne_true, ← hunread hhalted,
        ← CDataStream.unread_write]
      generalize c.vRecv.write chunk = v
      unfold processMessages
      split
      · rename_i hempty
        have hnil : v.unread = [] := CDataStream.empty_iff.mp hempty
        rw [hnil]
        exact ⟨_, rfl, rfl, fun _ => hnil, fun _ => hnil⟩
      · rw [show v.size = v.unread.length from (CDataStream.length_unread v).symm]
        exact loop_follows (c := { c with vRecv := v }) hsend hhalted (Nat.lt_succ_self _)

/-- All chunks, one after the other. -/
theorem receiveAll_follows (hsend : ∀ node, sendBufferFull node = false) (chunks : List (List UInt8))
    {x : Session σ × List UInt8} (h : Agrees c x) :
    ∃ c', chunks.foldlM (receive hash fTestNet sendBufferFull processMessage) c = .ok c' ∧
      Agrees c' (chunks.foldl ((frameReader hash fTestNet).receive (Session.process processMessage)
        Session.halted) x) := by
  induction chunks generalizing c x with
  | nil => exact ⟨c, rfl, h⟩
  | cons chunk chunks ih =>
    obtain ⟨c₁, hstep, h₁⟩ := receive_follows hsend h chunk
    obtain ⟨c₂, hrun, h₂⟩ := ih h₁
    refine ⟨c₂, ?_, h₂⟩
    rw [List.foldlM_cons, hstep]
    exact hrun

end Follow

/-! ## What `BeginMessage` and `EndMessage` write -/

section Write

variable {hash : List UInt8 → Uint256} {fTestNet : Bool}

/-- A command as the callers give it, and a payload that a peer takes. -/
structure WithinLimits (message : Message) : Prop where
  short : message.1.length ≤ COMMAND_SIZE
  printable : ∀ c ∈ message.1, 0x20 ≤ c ∧ c ≤ 0x7E
  size : message.2.length ≤ MAX_SIZE.toNat

variable (hash fTestNet)

/-- The header of a finished message. -/
def finishedHeader (message : Message) : CMessageHeader :=
  { ofCommand fTestNet message.1 (UInt32.ofNat message.2.length) with
    nChecksum := checksumOf hash message.2 }

def frame (message : Message) : List UInt8 := (finishedHeader hash fTestNet message).serialize ++ message.2

variable {hash fTestNet}

theorem takeWhile_printable {command : List UInt8} (h : ∀ c ∈ command, 0x20 ≤ c ∧ c ≤ 0x7E) (n : Nat) :
    (command ++ List.replicate n 0).takeWhile (fun c => c != 0) = command := by
  induction command with
  | nil =>
    cases n with
    | zero => rfl
    | succ n => rfl
  | cons c command ih =>
    obtain ⟨hc, hrest⟩ := List.forall_mem_cons.mp h
    have hne : (c != 0) = true := by
      rw [bne_iff_ne]
      rintro rfl
      exact absurd hc.1 (by decide)
    rw [List.cons_append, List.takeWhile_cons_of_pos (p := fun c => c != 0) hne, ih hrest]

theorem strncpy_eq {command : List UInt8} (h : ∀ c ∈ command, 0x20 ≤ c ∧ c ≤ 0x7E) {n : Nat}
    (hn : command.length ≤ n) :
    strncpy command n = command ++ List.replicate (n - command.length) 0 := by
  have htake := takeWhile_printable h 0
  rw [List.replicate_zero, List.append_nil] at htake
  unfold strncpy
  rw [htake, List.take_of_length_le hn]

theorem commandOk_strncpy {command : List UInt8} (h : ∀ c ∈ command, 0x20 ≤ c ∧ c ≤ 0x7E) (n : Nat) :
    commandOk (command ++ List.replicate n 0) = true := by
  induction command with
  | nil =>
    cases n with
    | zero => rfl
    | succ n =>
      show (if (0 : UInt8) = 0 then (List.replicate n 0).all fun c => c == (0 : UInt8) else _) = true
      rw [if_pos rfl, List.all_eq_true]
      intro c hc
      rw [List.eq_of_mem_replicate hc]; rfl
  | cons c command ih =>
    obtain ⟨hc, hrest⟩ := List.forall_mem_cons.mp h
    have hne : c ≠ 0 := by
      rintro rfl
      exact absurd hc.1 (by decide)
    show (if c = 0 then _ else _ && commandOk (command ++ List.replicate n 0)) = true
    rw [if_neg hne, ih hrest, Bool.and_true]
    simpa using hc

theorem length_strncpy (command : List UInt8) (n : Nat) : (strncpy command n).length = n := by
  unfold strncpy
  rw [List.length_append, List.length_replicate, List.length_take]
  omega

/-- The command that was written is read. -/
theorem getCommand_finished {message : Message} (h : WithinLimits message) :
    (finishedHeader hash fTestNet message).getCommand = message.1 := by
  have hcommand := strncpy_eq h.printable h.short
  unfold CMessageHeader.getCommand
  show (if (strncpy message.1 COMMAND_SIZE).getLast? = some 0 then _ else strncpy message.1 COMMAND_SIZE) =
    message.1
  split
  · show (strncpy message.1 COMMAND_SIZE).takeWhile _ = _
    rw [hcommand, takeWhile_printable h.printable]
  · rename_i hlast
    rw [hcommand] at hlast ⊢
    cases hn : COMMAND_SIZE - message.1.length with
    | zero => exact List.append_nil _
    | succ n =>
      rw [hn, List.replicate_succ', ← List.append_assoc, List.getLast?_concat] at hlast
      exact absurd rfl hlast

theorem isValid_finished {message : Message} (h : WithinLimits message) :
    (finishedHeader hash fTestNet message).isValid fTestNet = true := by
  have hcommand := strncpy_eq h.printable h.short
  have hsize : ¬ UInt32.ofNat message.2.length > MAX_SIZE := by
    have hle := h.size
    show ¬ MAX_SIZE < UInt32.ofNat message.2.length
    rw [UInt32.lt_iff_toNat_lt, UInt32.toNat_ofNat']
    have := Nat.mod_le message.2.length (2 ^ 32)
    omega
  unfold CMessageHeader.isValid
  show (pchMessageStart fTestNet == pchMessageStart fTestNet &&
    commandOk (strncpy message.1 COMMAND_SIZE) && !decide (UInt32.ofNat message.2.length > MAX_SIZE)) = true
  rw [hcommand, commandOk_strncpy h.printable, decide_eq_false hsize]
  simp

theorem headerOf_serialize {hdr : CMessageHeader} (hstart : hdr.pchMessageStart.length = 4)
    (hcommand : hdr.pchCommand.length = COMMAND_SIZE) (b : List UInt8) :
    headerOf (hdr.serialize ++ b) = hdr ∧ (hdr.serialize ++ b).drop nHeaderSize = b := by
  obtain ⟨start, command, nMessageSize, nChecksum⟩ := hdr
  dsimp only at hstart hcommand
  have hlength : (start ++ command).length = MESSAGE_SIZE_OFFSET := by
    rw [List.length_append, hstart, hcommand]; rfl
  have h₄ : (⟨start, command, nMessageSize, nChecksum⟩ : CMessageHeader).serialize ++ b =
      start ++ (command ++ (bytesOf nMessageSize ++ (bytesOf nChecksum ++ b))) := by
    unfold serialize
    simp only [List.append_assoc]
  have h₁₆ : start ++ (command ++ (bytesOf nMessageSize ++ (bytesOf nChecksum ++ b))) =
      (start ++ command) ++ (bytesOf nMessageSize ++ (bytesOf nChecksum ++ b)) :=
    (List.append_assoc ..).symm
  have h₂₀ : (start ++ command) ++ (bytesOf nMessageSize ++ (bytesOf nChecksum ++ b)) =
      (start ++ command ++ bytesOf nMessageSize) ++ (bytesOf nChecksum ++ b) :=
    (List.append_assoc ..).symm
  have hlength₂₀ : (start ++ command ++ bytesOf nMessageSize).length = CHECKSUM_OFFSET := by
    rw [List.length_append, hlength]; rfl
  rw [h₄]
  constructor
  · unfold headerOf
    rw [List.take_left' hstart, List.drop_left' hstart, List.take_left' hcommand, h₁₆,
      List.drop_left' hlength, List.take_left' (length_bytesOf _), h₂₀, List.drop_left' hlength₂₀,
      List.take_left' (length_bytesOf _), numberOf_bytesOf, numberOf_bytesOf]
  · rw [h₁₆, h₂₀, ← List.append_assoc]
    exact List.drop_left' (by rw [List.length_append, hlength₂₀]; rfl)

theorem prefix_frame (message : Message) : pchMessageStart fTestNet <+: frame hash fTestNet message := by
  refine ⟨strncpy message.1 COMMAND_SIZE ++ bytesOf (UInt32.ofNat message.2.length) ++
    bytesOf (checksumOf hash message.2) ++ message.2, ?_⟩
  show _ = pchMessageStart fTestNet ++ strncpy message.1 COMMAND_SIZE ++
    bytesOf (UInt32.ofNat message.2.length) ++ bytesOf (checksumOf hash message.2) ++ message.2
  simp only [List.append_assoc]

/-- The mark is at the front of everything that begins with a header's worth of a frame. -/
theorem search_of_frame {message : Message} {b c d : List UInt8} (hb : nHeaderSize ≤ b.length)
    (h : b ++ c = frame hash fTestNet message ++ d) : search (pchMessageStart fTestNet) b = 0 := by
  refine search_of_prefix ?_ (List.ne_nil_of_length_pos (lt_of_lt_of_le (by decide) hb))
  have hmark : pchMessageStart fTestNet <+: b ++ c := by
    rw [h]
    exact (prefix_frame message).trans (List.prefix_append _ _)
  refine List.prefix_of_prefix_length_le hmark (List.prefix_append _ _) ?_
  rw [length_pchMessageStart]
  exact le_trans (by decide) hb

theorem headerOf_frame (message : Message) (b : List UInt8) :
    headerOf (frame hash fTestNet message ++ b) = finishedHeader hash fTestNet message ∧
      (frame hash fTestNet message ++ b).drop nHeaderSize = message.2 ++ b := by
  unfold frame
  rw [List.append_assoc]
  exact headerOf_serialize length_pchMessageStart (length_strncpy _ _) _

theorem nHeaderSize_le_frame (message : Message) (b : List UInt8) :
    nHeaderSize ≤ (frame hash fTestNet message ++ b).length := by
  have hstart : (pchMessageStart fTestNet).length = 4 := length_pchMessageStart
  have hcommand := length_strncpy message.1 COMMAND_SIZE
  show nHeaderSize ≤ ((pchMessageStart fTestNet ++ strncpy message.1 COMMAND_SIZE ++
    bytesOf (UInt32.ofNat message.2.length) ++ bytesOf (checksumOf hash message.2) ++ message.2) ++
      b).length
  simp only [List.length_append, hstart, hcommand, length_bytesOf]
  unfold nHeaderSize CHECKSUM_OFFSET MESSAGE_SIZE_OFFSET
  omega

/-- **Reading back**: a frame at the front of any stream is one step, with its message. -/
theorem frameReader_encodes :
    (frameReader hash fTestNet).Encodes WithinLimits (frame hash fTestNet) where
  step {message} c h := by
    have hb : nHeaderSize ≤ (frame hash fTestNet message ++ c).length := nHeaderSize_le_frame message c
    obtain ⟨hheader, hrest⟩ : headerOf (frame hash fTestNet message ++ c) = _ ∧ _ :=
      headerOf_frame message c
    have hsize : (UInt32.ofNat message.2.length).toNat = message.2.length := by
      rw [UInt32.toNat_ofNat', Nat.mod_eq_of_lt]
      exact lt_of_le_of_lt h.size (by decide)
    show frameStep hash fTestNet (frame hash fTestNet message ++ c) = _
    unfold frameStep frameAt
    rw [search_of_frame (c := []) hb (by rw [List.append_nil]), List.drop_zero, if_neg (by omega), hheader,
      hrest]
    dsimp only
    rw [isValid_finished h, if_neg (by simp)]
    show (if (UInt32.ofNat message.2.length).toNat > (message.2 ++ c).length then _ else
      if checksumOf hash ((message.2 ++ c).take (UInt32.ofNat message.2.length).toNat) ≠
        checksumOf hash message.2 then _ else some (some ((finishedHeader hash fTestNet message).getCommand,
          (message.2 ++ c).take (UInt32.ofNat message.2.length).toNat),
          (message.2 ++ c).drop (UInt32.ofNat message.2.length).toNat)) = _
    rw [hsize, List.take_left, List.drop_left, getCommand_finished h, if_neg (by
      rw [List.length_append]; omega), if_neg (by simp)]
  keep {message b c} h hb hc := by
    show frameKeep fTestNet b = b
    unfold frameKeep
    by_cases hlength : b.length < nHeaderSize
    · rw [if_pos (by rw [List.length_drop]; omega), Nat.sub_eq_zero_of_le (by omega), List.drop_zero]
    · rw [search_of_frame (d := []) (by omega) (by rw [hb, List.append_nil]), List.drop_zero,
        if_neg hlength]

/-! ### The sender -/

theorem overwrite_middle {A B B' C : List UInt8} (hlength : B'.length = B.length) :
    (A ++ B ++ C).take A.length ++ B' ++ (A ++ B ++ C).drop (A.length + B'.length) = A ++ B' ++ C := by
  rw [List.append_assoc A B C, List.take_left, ← List.append_assoc A B C, hlength, ← List.length_append,
    List.drop_left]

/-- **`PushMessage`** puts a frame behind what is in the send buffer. -/
theorem pushMessage_unread {b : SendBuffer} (hb : b.nHeaderStart = -1) (message : Message) :
    (b.pushMessage hash fTestNet message).vSend.unread = b.vSend.unread ++ frame hash fTestNet message ∧
      (b.pushMessage hash fTestNet message).nHeaderStart = -1 := by
  -- the bytes up to the size, and the four that the size will take
  let front := b.vSend.unread ++ pchMessageStart fTestNet ++ strncpy message.1 COMMAND_SIZE
  have hfront : front.length = b.vSend.size + MESSAGE_SIZE_OFFSET := by
    show (b.vSend.unread ++ pchMessageStart fTestNet ++ strncpy message.1 COMMAND_SIZE).length = _
    rw [List.length_append, List.length_append, CDataStream.length_unread, length_pchMessageStart,
      length_strncpy]
    rfl
  have hheader : (ofCommand fTestNet message.1 0).serialize =
      pchMessageStart fTestNet ++ strncpy message.1 COMMAND_SIZE ++ bytesOf 0 ++ bytesOf 0 := rfl
  let nMessageStart := (b.vSend.write (ofCommand fTestNet message.1 0).serialize).size
  let vSend := (b.vSend.write (ofCommand fTestNet message.1 0).serialize).write message.2
  have hvSend : vSend.unread = front ++ bytesOf 0 ++ (bytesOf 0 ++ message.2) := by
    show CDataStream.unread (CDataStream.write _ _) = _
    rw [CDataStream.unread_write, CDataStream.unread_write, hheader]
    simp only [front, List.append_assoc]
  have hstart : nMessageStart = front.length + 8 := by
    show CDataStream.size _ = _
    rw [← CDataStream.length_unread, CDataStream.unread_write, hheader]
    simp only [front, List.length_append, length_bytesOf]
    omega
  have hsize : vSend.size - nMessageStart = message.2.length := by
    rw [← CDataStream.length_unread, hvSend, hstart]
    simp only [List.length_append, length_bytesOf]
    omega
  let nSize := UInt32.ofNat message.2.length
  let vSend₁ := vSend.overwrite (b.vSend.size + MESSAGE_SIZE_OFFSET) (bytesOf nSize)
  have hvSend₁ : vSend₁.unread = front ++ bytesOf nSize ++ (bytesOf 0 ++ message.2) := by
    show CDataStream.unread (CDataStream.overwrite _ _ _) = _
    rw [CDataStream.unread_overwrite, hvSend, ← hfront]
    exact overwrite_middle rfl
  have hpayload : vSend₁.unread.drop nMessageStart = message.2 := by
    rw [hvSend₁, hstart, ← List.append_assoc]
    refine List.drop_left' ?_
    simp only [List.length_append, length_bytesOf]
  let nChecksum := checksumOf hash message.2
  have hpush : b.pushMessage hash fTestNet message =
      ⟨vSend₁.overwrite (b.vSend.size + CHECKSUM_OFFSET) (bytesOf nChecksum), -1, -1⟩ := by
    have hbegin : b.beginMessage fTestNet message.1 =
        ⟨b.vSend.write (ofCommand fTestNet message.1 0).serialize, b.vSend.size, nMessageStart⟩ := by
      unfold SendBuffer.beginMessage
      rw [if_neg (by rw [hb]; simp)]
    unfold SendBuffer.pushMessage
    rw [hbegin]
    unfold SendBuffer.write SendBuffer.endMessage
    rw [if_neg Bool.false_ne_true, if_neg (by dsimp only; omega)]
    dsimp only
    rw [Int.toNat_natCast, Int.toNat_natCast]
    show SendBuffer.mk (CDataStream.overwrite (CDataStream.overwrite vSend _ (bytesOf (UInt32.ofNat
      (vSend.size - nMessageStart)))) _ _) _ _ = _
    rw [hsize]
    show SendBuffer.mk (vSend₁.overwrite _ (bytesOf (checksumOf hash (vSend₁.unread.drop nMessageStart))))
      _ _ = _
    rw [hpayload]
  rw [hpush]
  refine ⟨?_, rfl⟩
  have hfront₁ : (front ++ bytesOf nSize).length = b.vSend.size + CHECKSUM_OFFSET := by
    rw [List.length_append, hfront]; rfl
  show CDataStream.unread (CDataStream.overwrite _ _ _) = _
  rw [CDataStream.unread_overwrite, hvSend₁, ← hfront₁, ← List.append_assoc,
    overwrite_middle (show (bytesOf nChecksum).length = (bytesOf 0).length from rfl)]
  show front ++ bytesOf nSize ++ bytesOf nChecksum ++ message.2 = b.vSend.unread ++
    (pchMessageStart fTestNet ++ strncpy message.1 COMMAND_SIZE ++ bytesOf nSize ++ bytesOf nChecksum ++
      message.2)
  simp only [front, List.append_assoc]

theorem foldl_pushMessage_unread (messages : List Message) {b : SendBuffer} (hb : b.nHeaderStart = -1) :
    (messages.foldl (fun b message => b.pushMessage hash fTestNet message) b).vSend.unread =
      b.vSend.unread ++ (messages.map (frame hash fTestNet)).flatten := by
  induction messages generalizing b with
  | nil => exact (List.append_nil _).symm
  | cons message messages ih =>
    obtain ⟨hunread, hb'⟩ : (b.pushMessage hash fTestNet message).vSend.unread = _ ∧ _ :=
      pushMessage_unread hb message
    rw [List.foldl_cons, ih hb', hunread, List.map_cons, List.flatten_cons, List.append_assoc]

end Write

/-! ## Cuts and messages -/

section Framing

variable {σ : Type} {hash : List UInt8 → Uint256} {fTestNet : Bool} {sendBufferFull : σ → Bool}
  {processMessage : σ → Message → Processed σ}

/-- What is dispatched one message after the other: a part from the front, and all of it if the
    connection stays in use. -/
theorem deliver_dispatched {s : Session σ} (messages : List Message) :
    ∃ done rest, messages = done ++ rest ∧
      (deliver (Session.process processMessage) Session.halted s messages).dispatched =
        s.dispatched ++ done ∧
      ((deliver (Session.process processMessage) Session.halted s messages).halted = false →
        rest = []) := by
  induction messages generalizing s with
  | nil => exact ⟨[], [], rfl, (List.append_nil _).symm, fun _ => rfl⟩
  | cons message messages ih =>
    have hcons : deliver (Session.process processMessage) Session.halted s (message :: messages) =
        if (s.process processMessage message).halted then s.process processMessage message
        else deliver (Session.process processMessage) Session.halted (s.process processMessage message)
          messages := rfl
    rw [hcons]
    split
    · rename_i hhalted
      exact ⟨[message], messages, rfl, rfl, fun h => absurd (hhalted.symm.trans h) Bool.noConfusion⟩
    · obtain ⟨done, rest, rfl, hdispatched, hall⟩ := ih (s := s.process processMessage message)
      refine ⟨message :: done, rest, rfl, ?_, hall⟩
      rw [hdispatched]
      show s.dispatched ++ [message] ++ done = _
      rw [List.append_assoc]; rfl

/-- However a stream is cut, the same session comes out of it. -/
theorem receiveAll_cut (hsend : ∀ node, sendBufferFull node = false) (node : σ)
    {chunks chunks' : List (List UInt8)} (hflatten : chunks.flatten = chunks'.flatten) : ∃ c c',
    chunks.foldlM (receive hash fTestNet sendBufferFull processMessage) (Connection.fresh node) = .ok c ∧
    chunks'.foldlM (receive hash fTestNet sendBufferFull processMessage) (Connection.fresh node) =
      .ok c' ∧ c.toSession = c'.toSession := by
  have hagrees : Agrees (Connection.fresh node) ((Connection.fresh node).toSession, []) :=
    ⟨rfl, fun _ => rfl, fun _ => rfl⟩
  obtain ⟨c, hrun, hc⟩ : ∃ c, chunks.foldlM (receive hash fTestNet sendBufferFull processMessage) _ =
    .ok c ∧ _ := receiveAll_follows hsend chunks hagrees
  obtain ⟨c', hrun', hc'⟩ : ∃ c', chunks'.foldlM (receive hash fTestNet sendBufferFull
    processMessage) _ = .ok c' ∧ _ := receiveAll_follows hsend chunks' hagrees
  refine ⟨c, c', hrun, hrun', ?_⟩
  rw [hc.session, hc'.session, Reader.foldl_receive_state, Reader.foldl_receive_state, hflatten]

/-- A stream of written messages is dispatched message by message. -/
theorem receiveAll_written (hsend : ∀ node, sendBufferFull node = false) (node : σ)
    {messages : List Message} (hlimits : ∀ message ∈ messages, WithinLimits message)
    {chunks : List (List UInt8)} (hflatten : chunks.flatten = (messages.foldl (fun b message =>
      b.pushMessage hash fTestNet message) SendBuffer.fresh).vSend.unread) : ∃ c,
    chunks.foldlM (receive hash fTestNet sendBufferFull processMessage) (Connection.fresh node) = .ok c ∧
    c.toSession = deliver (Session.process processMessage) Session.halted
      (Connection.fresh node).toSession messages ∧ (c.halted = false → c.vRecv.unread = []) := by
  have hagrees : Agrees (Connection.fresh node) ((Connection.fresh node).toSession, []) :=
    ⟨rfl, fun _ => rfl, fun _ => rfl⟩
  have hrunning : (Connection.fresh node).toSession.halted = false := rfl
  obtain ⟨c, hrun, hc⟩ : ∃ c, chunks.foldlM (receive hash fTestNet sendBufferFull processMessage) _ =
    .ok c ∧ _ := receiveAll_follows hsend chunks hagrees
  rw [foldl_pushMessage_unread messages rfl] at hflatten
  obtain ⟨hdeliver, hnil⟩ := frameReader_encodes.foldl_receive hrunning hlimits hflatten
  refine ⟨c, hrun, hc.session.trans hdeliver, fun hhalted => ?_⟩
  rw [hc.unread (by rw [← hc.session]; exact hhalted)]
  exact hnil (by rw [← hdeliver, ← hc.session]; exact hhalted)

/-- **Framing.**  While the send buffer is never full: two ways to cut one stream dispatch the same
    messages.  A stream of written messages is dispatched message by message, up to the first one with
    which the connection or the node is done; if there is none, they are all dispatched and no byte is
    left over. -/
theorem processMessages_framing (hsend : ∀ node, sendBufferFull node = false) (node : σ) :
    (∀ chunks chunks' : List (List UInt8), chunks.flatten = chunks'.flatten → ∃ c c',
      chunks.foldlM (receive hash fTestNet sendBufferFull processMessage) (Connection.fresh node) =
        .ok c ∧
      chunks'.foldlM (receive hash fTestNet sendBufferFull processMessage) (Connection.fresh node) =
        .ok c' ∧ c.dispatched = c'.dispatched) ∧
    ∀ messages : List Message, (∀ message ∈ messages, WithinLimits message) →
      ∀ chunks : List (List UInt8), chunks.flatten = (messages.foldl (fun b message =>
        b.pushMessage hash fTestNet message) SendBuffer.fresh).vSend.unread → ∃ c,
      chunks.foldlM (receive hash fTestNet sendBufferFull processMessage) (Connection.fresh node) =
        .ok c ∧
      c.toSession = deliver (Session.process processMessage) Session.halted
        (Connection.fresh node).toSession messages ∧ c.dispatched <+: messages ∧
      (c.fSocket = true → c.fShutdown = false → c.dispatched = messages ∧ c.vRecv.empty = true) := by
  constructor
  · intro chunks chunks' hflatten
    obtain ⟨c, c', hrun, hrun', hsame⟩ := receiveAll_cut hsend node hflatten
    exact ⟨c, c', hrun, hrun', by rw [hsame]⟩
  · intro messages hlimits chunks hflatten
    obtain ⟨c, hrun, hsession, hnil⟩ := receiveAll_written hsend node hlimits hflatten
    obtain ⟨done, rest, rfl, hdispatched, hall⟩ : ∃ done rest, messages = done ++ rest ∧
      (deliver (Session.process processMessage) Session.halted (Connection.fresh node).toSession
        messages).dispatched = [] ++ done ∧ _ := deliver_dispatched messages
    rw [← hsession] at hdispatched hall
    refine ⟨c, hrun, hsession, ?_, fun hsocket hdown => ?_⟩
    · rw [hdispatched]
      exact List.prefix_append done rest
    · have hhalted : c.toSession.halted = false := by
        unfold Session.halted
        rw [hsocket, hdown]; rfl
      rw [hall hhalted, List.append_nil]
      exact ⟨hdispatched, CDataStream.empty_iff.mpr (hnil hhalted)⟩

end Framing

/-! ## A hundred messages, and one more -/

/- Before its version, every message counts against a peer. -/
namespace Unversioned

/-- "verack", without a payload. -/
def verack : Message := ([0x76, 0x65, 0x72, 0x61, 0x63, 0x6b], [])

/-- "ping", with a nonce. -/
def ping : Message := ([0x70, 0x69, 0x6e, 0x67], [1, 2, 3, 4, 5, 6, 7, 8])

/-- The hashes of the two payloads. -/
def hash (payload : List UInt8) : Uint256 :=
  if payload = [] then 0x56944c5d3f98413ef45cf54545538103cc9f298e0575820ad3591376e2e0f65d
  else if payload = ping.2 then 0x5a29f8789d5891ce6363a820548830c0243631c031cdb4ed44b1892294fa0225
  else 0

/-- The default `-banscore`.  No version message is sent here. -/
def processMessage : Peer → Message → Processed Peer :=
  processUnversioned 100 fun pfrom _ => ⟨pfrom, false, false⟩

def sendBufferFull (_ : Peer) : Bool := false

theorem withinLimits : WithinLimits verack ∧ WithinLimits ping := by
  constructor <;> constructor <;> decide +kernel

/-- One message more than it takes to be banned. -/
def veracks : List Message := List.replicate 101 verack

/-- The last one is not dispatched, in one chunk. -/
theorem veracks_not_dispatched : (∀ message ∈ veracks, WithinLimits message) ∧ ∃ c,
    [(veracks.foldl (fun b message => b.pushMessage hash false message)
      SendBuffer.fresh).vSend.unread].foldlM (receive hash false sendBufferFull processMessage)
      (Connection.fresh ⟨false, 0⟩) = .ok c ∧ c.dispatched ≠ veracks := by
  have hlimits : ∀ message ∈ veracks, WithinLimits message := by
    intro message hmem
    rw [List.eq_of_mem_replicate hmem]
    exact withinLimits.1
  have hflatten : ∀ stream : List UInt8, [stream].flatten = stream := fun stream => List.append_nil _
  obtain ⟨c, hrun, hsession, -⟩ := @receiveAll_written Peer hash false sendBufferFull processMessage
    (fun _ => rfl) ⟨false, 0⟩ veracks hlimits _ (hflatten _)
  refine ⟨hlimits, c, hrun, fun h => ?_⟩
  have hlength : (deliver (Session.process processMessage) Session.halted
      (Connection.fresh (⟨false, 0⟩ : Peer)).toSession veracks).dispatched.length = 100 := by
    decide +kernel
  rw [← hsession, h] at hlength
  exact absurd hlength (by decide)

/-- Two messages, cut in the second header. -/
def stream : List UInt8 := ([verack, ping].foldl (fun b message => b.pushMessage hash false message)
  SendBuffer.fresh).vSend.unread

theorem processMessages_framing_ping : ∃ c c',
    [stream.take 30, stream.drop 30].foldlM (receive hash false sendBufferFull processMessage)
      (Connection.fresh ⟨false, 0⟩) = .ok c ∧
    [stream].foldlM (receive hash false sendBufferFull processMessage)
      (Connection.fresh ⟨false, 0⟩) = .ok c' ∧
    c.dispatched = c'.dispatched ∧ c'.dispatched = [verack, ping] ∧ c'.vRecv.empty = true := by
  obtain ⟨hcut, hwritten⟩ := @processMessages_framing Peer hash false sendBufferFull processMessage
    (fun _ => rfl) ⟨false, 0⟩
  obtain ⟨c, c', hrun, hrun', hsame⟩ := hcut [stream.take 30, stream.drop 30] [stream]
    (by decide)
  have hlimits : ∀ message ∈ [verack, ping], WithinLimits message :=
    List.forall_mem_cons.mpr ⟨withinLimits.1, List.forall_mem_singleton.mpr withinLimits.2⟩
  obtain ⟨c'', hrun'', hsession, -, hall⟩ := hwritten [verack, ping] hlimits [stream] (List.append_nil _)
  obtain rfl : c' = c'' := Except.ok.inj (hrun'.symm.trans hrun'')
  have hopen : c'.fSocket = true ∧ c'.fShutdown = false := by
    rw [hsession]
    decide
  obtain ⟨hdispatched, hempty⟩ := hall hopen.1 hopen.2
  exact ⟨c, c', hrun, hrun', hsame, hdispatched, hempty⟩

end Unversioned

end Silkcoin
