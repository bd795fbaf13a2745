/-
  `CDataStream` AS A QUEUE OF BYTES, with its `unsigned int`.

  The stream is a vector and a position; front insertions and erasures move the position instead of the
  bytes, and whoever reaches the end clears the vector.  The QUEUE (`ByteQueue`) has no position.  It is
  the list of bytes still to be read, and beside it the bytes `Rewind` may still put back.

  Two things break the picture.  `stream << stream` goes through `Serialize`, which writes the WHOLE
  vector, the bytes that have been read included; `+=` appends what is unread.  And the position is a
  32-bit number beside a vector that may be longer, so additions to it can wrap (`CDataStream32`).

  `run_refines`: in every run that keeps clear of both (`RunFits`) stream and queue give the same replies
  and hold the same bytes.
-/
import Silkcoin.DataStream

namespace Silkcoin

/-- A stream whose position is an `unsigned int`. -/
structure CDataStream32 extends CDataStream where
  pos_lt : nReadPos < 4294967296

/-- The calls; places are counted from `begin()`. -/
inductive StreamOp where
  | write (bytes : List UInt8)
  | read (nSize : Nat)
  | ignore (nSize : Nat)
  | insert (it : Nat) (bytes : List UInt8)
  | insertFill (it n : Nat) (x : UInt8)
  | eraseOne (it : Nat)
  | erase (first last : Nat)
  | clear
  | rewind (n : Nat)
  | compact
  /-- `+=` -/
  | append (b : CDataStream)
  /-- `<<` -/
  | shiftLeft (b : CDataStream)

/-- What a call gives back. -/
inductive StreamReply where
  | done
  | bytes (pch : List UInt8)
  | flag (b : Bool)
  | thrown (e : Thrown)
deriving DecidableEq, Repr

/-! ## The stream -/

namespace CDataStream32

def new : CDataStream32 := ⟨CDataStream.new, by decide⟩

/-- The vector changes behind the position. -/
def withVch (s : CDataStream32) (vch : List UInt8) (h : s.nReadPos ≤ vch.length) : CDataStream32 :=
  ⟨⟨vch, s.nReadPos, h⟩, s.pos_lt⟩

/-- The position goes to `nReadPos`, which is in the vector. -/
def withPos (s : CDataStream32) (nReadPos : Nat) (h : nReadPos % 4294967296 ≤ s.vch.length) :
    CDataStream32 :=
  ⟨⟨s.vch, nReadPos % 4294967296, h⟩, Nat.mod_lt _ (by decide)⟩

/-- The new position of `read` and `ignore`, a sum of two 32-bit numbers. -/
def skip (s : CDataStream32) (nSize : Nat) (what : String) : Except Thrown CDataStream32 :=
  if h : s.vch.length ≤ (s.nReadPos + nSize) % 4294967296 then
    if s.vch.length < (s.nReadPos + nSize) % 4294967296 then .error (.failure what) else .ok new
  else .ok (s.withPos (s.nReadPos + nSize) (by omega))

/-- `read`; a `memcpy` beyond the vector has no defined result. -/
def read (s : CDataStream32) (nSize : Nat) : Option (StreamReply × CDataStream32) :=
  match s.skip nSize "CDataStream::read() : end of data" with
  | .error e => some (.thrown e, s)
  | .ok s' =>
    if s.nReadPos + nSize > s.vch.length then none else some (.bytes (s.unread.take nSize), s')

def ignore (s : CDataStream32) (nSize : Nat) : StreamReply × CDataStream32 :=
  match s.skip nSize "CDataStream::ignore() : end of data" with
  | .error e => (.thrown e, s)
  | .ok s' => (.done, s')

/-- `insert(it, first, last)`; the length is cut to 32 bits to see if there is room at the front. -/
def insert (s : CDataStream32) (it : Nat) (bytes : List UInt8) : Option CDataStream32 :=
  if hit : s.size < it then none
  else if hroom : it = 0 ∧ bytes.length % 4294967296 ≤ s.nReadPos then
    if hmem : s.vch.length < s.nReadPos - bytes.length % 4294967296 + bytes.length then none
    else some
      ⟨⟨s.vch.take (s.nReadPos - bytes.length % 4294967296) ++ bytes ++
          s.vch.drop (s.nReadPos - bytes.length % 4294967296 + bytes.length),
        s.nReadPos - bytes.length % 4294967296, by
          rw [List.length_append, List.length_append, List.length_take]
          omega⟩,
        lt_of_le_of_lt (Nat.sub_le _ _) s.pos_lt⟩
  else some (s.withVch (s.vch.take (s.nReadPos + it) ++ bytes ++ s.vch.drop (s.nReadPos + it)) (by
    have hpos := s.pos_le
    rw [List.length_append, List.length_append, List.length_take]
    omega))

/-- `insert(it, n, x)`, which leaves the position alone. -/
def insertFill (s : CDataStream32) (it n : Nat) (x : UInt8) : Option CDataStream32 :=
  if s.size < it then none
  else some (s.withVch
    (s.vch.take (s.nReadPos + it) ++ List.replicate n x ++ s.vch.drop (s.nReadPos + it)) (by
      have hpos := s.pos_le
      rw [List.length_append, List.length_append, List.length_take]
      omega))

/-- `erase(it)`. -/
def eraseOne (s : CDataStream32) (it : Nat) : Option CDataStream32 :=
  if hit : s.size ≤ it then none
  else if it = 0 then
    if h : s.vch.length ≤ (s.nReadPos + 1) % 4294967296 then some new
    else some (s.withPos (s.nReadPos + 1) (by omega))
  else some (s.withVch (s.vch.take (s.nReadPos + it) ++ s.vch.drop (s.nReadPos + (it + 1))) (by
    unfold CDataStream.size at hit
    rw [List.length_append, List.length_take, List.length_drop]
    omega))

/-- `erase(first, last)`. -/
def erase (s : CDataStream32) (first last : Nat) : Option CDataStream32 :=
  if h : last < first ∨ s.size < last then none
  else if first = 0 then
    if last = s.size then some new
    else some (s.withPos (s.nReadPos + last) (by
      have hpos := s.pos_le
      have hmod := Nat.mod_le (s.nReadPos + last) 4294967296
      unfold CDataStream.size at h
      omega))
  else some (s.withVch (s.vch.take (s.nReadPos + first) ++ s.vch.drop (s.nReadPos + last)) (by
    have hpos := s.pos_le
    unfold CDataStream.size at h
    rw [List.length_append, List.length_take, List.length_drop]
    omega))

def rewind (s : CDataStream32) (n : Nat) : Bool × CDataStream32 :=
  if n > s.nReadPos then (false, s)
  else (true, ⟨⟨s.vch, s.nReadPos - n, le_trans (Nat.sub_le _ _) s.pos_le⟩,
    lt_of_le_of_lt (Nat.sub_le _ _) s.pos_lt⟩)

def write (s : CDataStream32) (bytes : List UInt8) : CDataStream32 :=
  s.withVch (s.vch ++ bytes) (by
    have hpos := s.pos_le
    rw [List.length_append]
    omega)

/-- `operator+=`: from `b.begin()` to `b.end()`. -/
def append (s : CDataStream32) (b : CDataStream) : CDataStream32 := s.write b.unread

/-- `operator<<` of a stream: `Serialize` hands the vector of `b` to `write`, and its length as an `int`,
    which must not be negative. -/
def shiftLeft (s : CDataStream32) (b : CDataStream) : Option CDataStream32 :=
  if b.vch = [] then some s
  else if 2147483648 ≤ b.vch.length % 4294967296 then none
  else some (s.write (b.vch.take (b.vch.length % 4294967296)))

/-- One call.  There is no result where the source steps outside the vector or fails an assertion. -/
def step (s : CDataStream32) : StreamOp → Option (StreamReply × CDataStream32)
  | .write bytes => some (.done, s.write bytes)
  | .read nSize => s.read nSize
  | .ignore nSize => some (s.ignore nSize)
  | .insert it bytes => (s.insert it bytes).map fun s' => (.done, s')
  | .insertFill it n x => (s.insertFill it n x).map fun s' => (.done, s')
  | .eraseOne it => (s.eraseOne it).map fun s' => (.done, s')
  | .erase first last => (s.erase first last).map fun s' => (.done, s')
  | .clear => some (.done, new)
  | .rewind n => some (.flag (s.rewind n).1, (s.rewind n).2)
  | .compact => some (.done, ⟨s.compact, (by decide : 0 < 4294967296)⟩)
  | .append b => some (.done, s.append b)
  | .shiftLeft b => (s.shiftLeft b).map fun s' => (.done, s')

/-- A run of calls, with what each gave back. -/
def run (s : CDataStream32) : List StreamOp → Option (List StreamReply × CDataStream32)
  | [] => some ([], s)
  | op :: ops => do
    let (reply, s) ← s.step op
    let (replies, s) ← run s ops
    return (reply :: replies, s)

end CDataStream32

/-! ## The queue -/

/-- The bytes still to be read, and those that `Rewind` can put back. -/
structure ByteQueue where
  kept : List UInt8
  unread : List UInt8
deriving DecidableEq

namespace ByteQueue

def new : ByteQueue := ⟨[], []⟩

/-- Bytes leave at the front; with the last of them nothing is kept. -/
def consume (q : ByteQueue) (n : Nat) : ByteQueue :=
  if n = q.unread.length then new else ⟨q.kept ++ q.unread.take n, q.unread.drop n⟩

/-- Bytes come in at some place. -/
def put (q : ByteQueue) (it : Nat) (bytes : List UInt8) : ByteQueue :=
  ⟨q.kept, q.unread.take it ++ bytes ++ q.unread.drop it⟩

/-- What is put in at the front may take the place of what is kept. -/
def putFront (q : ByteQueue) (bytes : List UInt8) : ByteQueue :=
  ⟨if bytes.length ≤ q.kept.length then q.kept.take (q.kept.length - bytes.length) else q.kept,
    bytes ++ q.unread⟩

/-- Bytes are taken out. -/
def remove (q : ByteQueue) (first last : Nat) : ByteQueue :=
  if first = 0 then q.consume last else ⟨q.kept, q.unread.take first ++ q.unread.drop last⟩

/-- One call: what it does to a queue of bytes. -/
def step (q : ByteQueue) : StreamOp → Option (StreamReply × ByteQueue)
  | .write bytes => some (.done, q.put q.unread.length bytes)
  | .read nSize =>
    if q.unread.length < nSize then
      some (.thrown (.failure "CDataStream::read() : end of data"), q)
    else some (.bytes (q.unread.take nSize), q.consume nSize)
  | .ignore nSize =>
    if q.unread.length < nSize then
      some (.thrown (.failure "CDataStream::ignore() : end of data"), q)
    else some (.done, q.consume nSize)
  | .insert it bytes =>
    if q.unread.length < it then none
    else some (.done, if it = 0 then q.putFront bytes else q.put it bytes)
  | .insertFill it n x =>
    if q.unread.length < it then none else some (.done, q.put it (List.replicate n x))
  | .eraseOne it => if q.unread.length ≤ it then none else some (.done, q.remove it (it + 1))
  | .erase first last =>
    if last < first ∨ q.unread.length < last then none else some (.done, q.remove first last)
  | .clear => some (.done, new)
  | .rewind n =>
    if n > q.kept.length then some (.flag false, q)
    else some (.flag true, ⟨q.kept.take (q.kept.length - n),
      q.kept.drop (q.kept.length - n) ++ q.unread⟩)
  | .compact => some (.done, ⟨[], q.unread⟩)
  | .append b => some (.done, q.put q.unread.length b.unread)
  | .shiftLeft b => some (.done, q.put q.unread.length b.unread)

def run (q : ByteQueue) : List StreamOp → Option (List StreamReply × ByteQueue)
  | [] => some ([], q)
  | op :: ops => do
    let (reply, q) ← q.step op
    let (replies, q) ← run q ops
    return (reply :: replies, q)

end ByteQueue

/-! ## One call -/

/-- The stream without its position. -/
def CDataStream.asQueue (s : CDataStream) : ByteQueue := ⟨s.vch.take s.nReadPos, s.unread⟩

/-- A stream with its vector cut at the position. -/
structure CDataStream.Shows (s : CDataStream) (q : ByteQueue) : Prop where
  vch : s.vch = q.kept ++ q.unread
  nReadPos : s.nReadPos = q.kept.length

namespace CDataStream.Shows

variable {s : CDataStream} {q : ByteQueue}

theorem asQueue_eq (h : s.Shows q) : s.asQueue = q := by
  obtain ⟨kept, unread⟩ := q
  unfold CDataStream.asQueue CDataStream.unread
  rw [h.vch, h.nReadPos, List.take_left, List.drop_left]

theorem self (s : CDataStream) : s.Shows s.asQueue := by
  constructor
  · exact (List.take_append_drop _ _).symm
  · show s.nReadPos = (s.vch.take s.nReadPos).length
    rw [List.length_take, Nat.min_eq_left s.pos_le]

theorem unread_eq (h : s.Shows q) : s.unread = q.unread := by
  rw [← h.asQueue_eq]
  rfl

theorem size_eq (h : s.Shows q) : s.size = q.unread.length := by
  rw [← CDataStream.length_unread, h.unread_eq]

theorem length_vch (h : s.Shows q) : s.vch.length = q.kept.length + q.unread.length := by
  rw [h.vch, List.length_append]

/-- The vector up to a place among the unread bytes, and from there on. -/
theorem take_vch (h : s.Shows q) (it : Nat) :
    s.vch.take (s.nReadPos + it) = q.kept ++ q.unread.take it := by
  rw [h.vch, h.nReadPos, List.take_append, List.take_of_length_le (Nat.le_add_right _ _),
    Nat.add_sub_cancel_left]

theorem drop_vch (h : s.Shows q) (it : Nat) : s.vch.drop (s.nReadPos + it) = q.unread.drop it := by
  rw [h.vch, h.nReadPos, List.drop_append, List.drop_eq_nil_of_le (Nat.le_add_right _ _),
    List.nil_append, Nat.add_sub_cancel_left]

end CDataStream.Shows

/-- What the 32-bit arithmetic and `<<` ask of a call. -/
def StreamOp.Fits (s : CDataStream32) : StreamOp → Prop
  | .read nSize | .ignore nSize => s.nReadPos + nSize < 4294967296
  | .insert it bytes => it = 0 → bytes.length < 4294967296 ∨ s.nReadPos < bytes.length % 4294967296
  | .eraseOne it => it = 0 → s.nReadPos + 1 < 4294967296
  | .erase first last => first = 0 → last = s.size ∨ s.nReadPos + last < 4294967296
  | .shiftLeft b => b.nReadPos = 0 ∧ b.vch.length < 2147483648
  | _ => True

namespace CDataStream32

variable {s : CDataStream32} {q : ByteQueue}

theorem shows_new : new.Shows ByteQueue.new := ⟨rfl, rfl⟩

/-- The position moves on by `n`, and does not wrap. -/
theorem withPos_shows (hs : s.Shows q) {n : Nat} (hn : n ≤ q.unread.length)
    (hfits : s.nReadPos + n < 4294967296) (h : (s.nReadPos + n) % 4294967296 ≤ s.vch.length) :
    (s.withPos (s.nReadPos + n) h).Shows ⟨q.kept ++ q.unread.take n, q.unread.drop n⟩ := by
  constructor
  · show s.vch = q.kept ++ q.unread.take n ++ q.unread.drop n
    rw [List.append_assoc, List.take_append_drop]
    exact hs.vch
  · show (s.nReadPos + n) % 4294967296 = (q.kept ++ q.unread.take n).length
    rw [Nat.mod_eq_of_lt hfits, List.length_append, List.length_take, hs.nReadPos]
    omega

/-- The vector changes behind the position. -/
theorem withVch_shows (hs : s.Shows q) {unread : List UInt8} {vch : List UInt8}
    (hvch : vch = q.kept ++ unread) (h : s.nReadPos ≤ vch.length) :
    (s.withVch vch h).Shows ⟨q.kept, unread⟩ :=
  ⟨hvch, hs.nReadPos⟩

theorem put_shows (hs : s.Shows q) (it : Nat) (bytes : List UInt8)
    (h : s.nReadPos ≤
      (s.vch.take (s.nReadPos + it) ++ bytes ++ s.vch.drop (s.nReadPos + it)).length) :
    (s.withVch (s.vch.take (s.nReadPos + it) ++ bytes ++ s.vch.drop (s.nReadPos + it)) h).Shows
      (q.put it bytes) := by
  apply withVch_shows hs
  rw [hs.take_vch, hs.drop_vch, List.append_assoc, List.append_assoc, List.append_assoc]

/-- `read` and `ignore`: an exception if there is not enough, else the bytes leave the queue. -/
theorem skip_shows (hs : s.Shows q) {nSize : Nat} (hfits : s.nReadPos + nSize < 4294967296)
    (what : String) :
    (q.unread.length < nSize → s.skip nSize what = .error (.failure what)) ∧
    (nSize ≤ q.unread.length → ∃ s', s.skip nSize what = .ok s' ∧ s'.Shows (q.consume nSize)) := by
  have hlength := hs.length_vch
  have hpos := hs.nReadPos
  have hmod := Nat.mod_eq_of_lt hfits
  constructor
  · intro hmore
    unfold skip
    rw [dif_pos (by omega), if_pos (by omega)]
  · intro hle
    unfold skip ByteQueue.consume
    split
    · -- the last byte is read
      rename_i hend
      refine ⟨new, if_neg (by omega), ?_⟩
      rw [if_pos (by omega)]
      exact shows_new
    · rename_i hmiddle
      refine ⟨_, rfl, ?_⟩
      rw [if_neg (by omega)]
      exact withPos_shows hs hle hfits _

theorem read_shows (hs : s.Shows q) {nSize : Nat} (hfits : s.nReadPos + nSize < 4294967296) :
    (s.read nSize).map (fun r => (r.1, r.2.asQueue)) = q.step (.read nSize) := by
  obtain ⟨hmore, henough⟩ := skip_shows hs hfits "CDataStream::read() : end of data"
  unfold read
  show _ = if _ then _ else _
  by_cases hsize : q.unread.length < nSize
  · rw [hmore hsize, if_pos hsize]
    show some (_, s.asQueue) = _
    rw [hs.asQueue_eq]
  · obtain ⟨s', hskip, hs'⟩ := henough (not_lt.1 hsize)
    have hlength := hs.length_vch
    have hpos := hs.nReadPos
    rw [hskip, if_neg hsize]
    dsimp only
    rw [if_neg (by omega)]
    show some (StreamReply.bytes (s.unread.take nSize), s'.asQueue) = _
    rw [hs.unread_eq, hs'.asQueue_eq]

theorem ignore_shows (hs : s.Shows q) {nSize : Nat} (hfits : s.nReadPos + nSize < 4294967296) :
    some ((s.ignore nSize).1, (s.ignore nSize).2.asQueue) = q.step (.ignore nSize) := by
  obtain ⟨hmore, henough⟩ := skip_shows hs hfits "CDataStream::ignore() : end of data"
  unfold ignore
  show _ = if _ then _ else _
  by_cases hsize : q.unread.length < nSize
  · rw [hmore hsize, if_pos hsize, ← hs.asQueue_eq]
  · obtain ⟨s', hskip, hs'⟩ := henough (not_lt.1 hsize)
    rw [hskip, if_neg hsize, ← hs'.asQueue_eq]

theorem insert_shows (hs : s.Shows q) {it : Nat} {bytes : List UInt8}
    (hfits : it = 0 → bytes.length < 4294967296 ∨ s.nReadPos < bytes.length % 4294967296) :
    (s.insert it bytes).map (fun s' => (StreamReply.done, s'.asQueue)) = q.step (.insert it bytes) := by
  have hlength := hs.length_vch
  have hpos := hs.nReadPos
  have hsize := hs.size_eq
  unfold insert
  show _ = if _ then _ else _
  by_cases hit : q.unread.length < it
  · rw [dif_pos (by omega), if_pos hit]
    rfl
  rw [dif_neg (by omega), if_neg hit]
  by_cases hroom : it = 0 ∧ bytes.length % 4294967296 ≤ s.nReadPos
  · -- the bytes take the place of what is kept
    obtain ⟨rfl, hless⟩ := hroom
    have hlt : bytes.length < 4294967296 := by
      rcases hfits rfl with hlt | hlt
      · exact hlt
      · omega
    have hmod := Nat.mod_eq_of_lt hlt
    rw [dif_pos ⟨rfl, hless⟩, dif_neg (by omega), if_pos rfl]
    have hshows : ∀ h h', (⟨⟨s.vch.take (s.nReadPos - bytes.length % 4294967296) ++ bytes ++
        s.vch.drop (s.nReadPos - bytes.length % 4294967296 + bytes.length),
        s.nReadPos - bytes.length % 4294967296, h⟩, h'⟩ : CDataStream32).Shows (q.putFront bytes) := by
      intro h h'
      unfold ByteQueue.putFront
      rw [if_pos (by omega)]
      constructor
      · show _ ++ bytes ++ _ = _ ++ (bytes ++ q.unread)
        rw [hmod, Nat.sub_add_cancel (by omega), ← List.append_assoc]
        have hdrop := hs.drop_vch 0
        rw [Nat.add_zero, List.drop_zero] at hdrop
        rw [hdrop, hs.vch, List.take_append_of_le_length (by omega), hpos]
      · show s.nReadPos - bytes.length % 4294967296 = _
        rw [hmod, List.length_take]
        omega
    show some (StreamReply.done, _) = _
    rw [(hshows _ _).asQueue_eq]
  · rw [dif_neg hroom]
    show some (StreamReply.done, _) = _
    rw [(put_shows hs it bytes _).asQueue_eq]
    by_cases hzero : it = 0
    · subst it
      rw [if_pos rfl]
      unfold ByteQueue.putFront
      rw [if_neg (fun hle => hroom ⟨rfl, le_trans (Nat.mod_le _ _) (by omega)⟩)]
      rfl
    · rw [if_neg hzero]

theorem insertFill_shows (hs : s.Shows q) (it n : Nat) (x : UInt8) :
    (s.insertFill it n x).map (fun s' => (StreamReply.done, s'.asQueue)) = q.step (.insertFill it n x) := by
  have hsize := hs.size_eq
  unfold insertFill
  show _ = if _ then _ else _
  by_cases hit : q.unread.length < it
  · rw [if_pos (by omega), if_pos hit]
    rfl
  · rw [if_neg (by omega), if_neg hit]
    show some (StreamReply.done, _) = _
    rw [(put_shows hs it _ _).asQueue_eq]

/-- What is not at the front is cut out of the vector. -/
theorem cut_shows (hs : s.Shows q) {first : Nat} (hfirst : first ≠ 0) (last : Nat)
    (h : s.nReadPos ≤ (s.vch.take (s.nReadPos + first) ++ s.vch.drop (s.nReadPos + last)).length) :
    (s.withVch (s.vch.take (s.nReadPos + first) ++ s.vch.drop (s.nReadPos + last)) h).Shows
      (q.remove first last) := by
  unfold ByteQueue.remove
  rw [if_neg hfirst]
  apply withVch_shows hs
  rw [hs.take_vch, hs.drop_vch, List.append_assoc]

theorem eraseOne_shows (hs : s.Shows q) {it : Nat} (hfits : it = 0 → s.nReadPos + 1 < 4294967296) :
    (s.eraseOne it).map (fun s' => (StreamReply.done, s'.asQueue)) = q.step (.eraseOne it) := by
  have hsize := hs.size_eq
  have hlength := hs.length_vch
  have hpos := hs.nReadPos
  unfold eraseOne
  show _ = if _ then _ else _
  by_cases hit : q.unread.length ≤ it
  · rw [dif_pos (by omega), if_pos hit]
    rfl
  rw [dif_neg (by omega), if_neg hit]
  by_cases hzero : it = 0
  · subst it
    have hmod := Nat.mod_eq_of_lt (hfits rfl)
    have hremove : q.remove 0 (0 + 1) = q.consume 1 := if_pos rfl
    rw [if_pos rfl, hremove]
    unfold ByteQueue.consume
    split
    · rename_i hend
      rw [if_pos (by omega)]
      show some (StreamReply.done, new.asQueue) = _
      rw [shows_new.asQueue_eq]
    · rename_i hmiddle
      rw [if_neg (by omega)]
      show some (StreamReply.done, _) = _
      rw [(withPos_shows hs (by omega) (hfits rfl) _).asQueue_eq]
  · rw [if_neg hzero]
    show some (StreamReply.done, _) = _
    rw [(cut_shows hs hzero (it + 1) _).asQueue_eq]

theorem erase_shows (hs : s.Shows q) {first last : Nat}
    (hfits : first = 0 → last = s.size ∨ s.nReadPos + last < 4294967296) :
    (s.erase first last).map (fun s' => (StreamReply.done, s'.asQueue)) = q.step (.erase first last) := by
  have hsize := hs.size_eq
  unfold erase
  show _ = if _ then _ else _
  by_cases hplaces : last < first ∨ q.unread.length < last
  · rw [dif_pos (by omega), if_pos hplaces]
    rfl
  rw [dif_neg (by omega), if_neg hplaces]
  by_cases hzero : first = 0
  · subst first
    have hremove : q.remove 0 last = q.consume last := if_pos rfl
    rw [if_pos rfl, hremove]
    unfold ByteQueue.consume
    split
    · rename_i hend
      rw [if_pos (by omega)]
      show some (StreamReply.done, new.asQueue) = _
      rw [shows_new.asQueue_eq]
    · rename_i hmiddle
      rw [if_neg (by omega)]
      have hlt : s.nReadPos + last < 4294967296 := by
        rcases hfits rfl with hend | hlt
        · exact absurd hend hmiddle
        · exact hlt
      show some (StreamReply.done, _) = _
      rw [(withPos_shows hs (by omega) hlt _).asQueue_eq]
  · rw [if_neg hzero]
    show some (StreamReply.done, _) = _
    rw [(cut_shows hs hzero last _).asQueue_eq]

theorem rewind_shows (hs : s.Shows q) (n : Nat) :
    some (StreamReply.flag (s.rewind n).1, (s.rewind n).2.asQueue) = q.step (.rewind n) := by
  have hpos := hs.nReadPos
  unfold rewind
  show _ = if _ then _ else _
  by_cases hn : n > q.kept.length
  · rw [if_pos (by omega), if_pos hn, ← hs.asQueue_eq]
  · rw [if_neg (by omega), if_neg hn]
    have hshows : ∀ h h', (⟨⟨s.vch, s.nReadPos - n, h⟩, h'⟩ : CDataStream32).Shows
        ⟨q.kept.take (q.kept.length - n), q.kept.drop (q.kept.length - n) ++ q.unread⟩ := by
      intro h h'
      constructor
      · show s.vch = _ ++ (_ ++ _)
        rw [← List.append_assoc, List.take_append_drop]
        exact hs.vch
      · show s.nReadPos - n = _
        rw [List.length_take]
        omega
    show some (StreamReply.flag true, _) = _
    rw [(hshows _ _).asQueue_eq]

theorem write_shows (hs : s.Shows q) (bytes : List UInt8) :
    (s.write bytes).Shows (q.put q.unread.length bytes) := by
  unfold ByteQueue.put
  rw [List.take_length, List.drop_length, List.append_nil]
  apply withVch_shows hs
  rw [hs.vch, List.append_assoc]

theorem compact_shows (hs : s.Shows q) : s.compact.Shows ⟨[], q.unread⟩ :=
  ⟨hs.unread_eq, rfl⟩

/-- `<<` of a stream nothing has been read of is `+=`. -/
theorem shiftLeft_eq_append (s : CDataStream32) {b : CDataStream} (hpos : b.nReadPos = 0)
    (hlength : b.vch.length < 2147483648) : s.shiftLeft b = some (s.append b) := by
  have hunread : b.unread = b.vch := by
    unfold CDataStream.unread
    rw [hpos, List.drop_zero]
  have hmod : b.vch.length % 4294967296 = b.vch.length := Nat.mod_eq_of_lt (by omega)
  unfold shiftLeft append
  rw [hunread, hmod]
  by_cases hempty : b.vch = []
  · rw [if_pos hempty, hempty]
    have hself : s.write [] = s := by
      unfold write withVch
      congr 2
      exact List.append_nil _
    rw [hself]
  · rw [if_neg hempty, if_neg (by omega), List.take_length]

/-- ONE CALL: stream and queue give the same reply and hold the same bytes. -/
theorem step_shows (hs : s.Shows q) {op : StreamOp} (hfits : op.Fits s) :
    (s.step op).map (fun r => (r.1, r.2.asQueue)) = q.step op := by
  cases op with
  | write bytes =>
    show some (StreamReply.done, (s.write bytes).asQueue) = _
    rw [(write_shows hs bytes).asQueue_eq]
    rfl
  | read nSize => exact read_shows hs hfits
  | ignore nSize => exact ignore_shows hs hfits
  | insert it bytes =>
    rw [← insert_shows hs hfits]
    exact Option.map_map _ _ _
  | insertFill it n x =>
    rw [← insertFill_shows hs it n x]
    exact Option.map_map _ _ _
  | eraseOne it =>
    rw [← eraseOne_shows hs hfits]
    exact Option.map_map _ _ _
  | erase first last =>
    rw [← erase_shows hs hfits]
    exact Option.map_map _ _ _
  | clear => rfl
  | rewind n => exact rewind_shows hs n
  | compact =>
    show some (StreamReply.done, s.compact.asQueue) = _
    rw [(compact_shows hs).asQueue_eq]
    rfl
  | append b =>
    show some (StreamReply.done, (s.write b.unread).asQueue) = _
    rw [(write_shows hs b.unread).asQueue_eq]
    rfl
  | shiftLeft b =>
    obtain ⟨hpos, hlength⟩ := hfits
    show Option.map _ ((s.shiftLeft b).map _) = _
    rw [shiftLeft_eq_append s hpos hlength]
    show some (StreamReply.done, (s.write b.unread).asQueue) = _
    rw [(write_shows hs b.unread).asQueue_eq]
    rfl

/-! ## A run -/

/-- Every call of the run keeps to the conditions, in the state it finds. -/
def RunFits : CDataStream32 → List StreamOp → Prop
  | _, [] => True
  | s, op :: ops => op.Fits s ∧ ∀ reply s', s.step op = some (reply, s') → RunFits s' ops

instance (s : CDataStream32) : ∀ op : StreamOp, Decidable (op.Fits s)
  | .read _ | .ignore _ => inferInstanceAs (Decidable (_ < _))
  | .insert _ _ => inferInstanceAs (Decidable (_ → _ ∨ _))
  | .eraseOne _ => inferInstanceAs (Decidable (_ → _ < _))
  | .erase _ _ => inferInstanceAs (Decidable (_ → _ ∨ _))
  | .shiftLeft _ => inferInstanceAs (Decidable (_ ∧ _))
  | .write _ | .insertFill _ _ _ | .clear | .rewind _ | .compact | .append _ =>
    inferInstanceAs (Decidable True)

instance RunFits.decidable : ∀ (ops : List StreamOp) (s : CDataStream32), Decidable (RunFits s ops)
  | [], _ => isTrue trivial
  | op :: ops, s =>
    have : Decidable (∀ reply s', s.step op = some (reply, s') → RunFits s' ops) :=
      match s.step op with
      | none => isTrue fun _ _ h => nomatch h
      | some (reply, s') =>
        have := RunFits.decidable ops s'
        decidable_of_iff (RunFits s' ops)
          ⟨fun h _ _ heq => (Prod.mk.inj (Option.some.inj heq)).2 ▸ h, fun h => h reply s' rfl⟩
    inferInstanceAs (Decidable (_ ∧ _))

end CDataStream32

/-- THE STREAM IS A QUEUE in every run whose calls keep to the conditions: the same replies, the same
    bytes still to be read and kept for `Rewind`, and no result where the queue has none. -/
theorem CDataStream32.run_refines (ops : List StreamOp) (s : CDataStream32) (hfits : RunFits s ops) :
    (s.run ops).map (fun r => (r.1, r.2.asQueue)) = s.asQueue.run ops := by
  induction ops generalizing s with
  | nil => rfl
  | cons op ops ih =>
    have hstep := step_shows (CDataStream.Shows.self s.toCDataStream) hfits.1
    rw [CDataStream32.run, ByteQueue.run, ← hstep]
    rcases hone : s.step op with _ | ⟨reply, s'⟩
    · rfl
    · have hrest := ih s' (hfits.2 reply s' hone)
      show Option.map _ ((s'.run ops).bind _) = (s'.asQueue.run ops).bind _
      rw [← hrest]
      cases s'.run ops <;> rfl

/-! ## A stream half read -/

namespace HalfRead

open CDataStream32

/-- Two bytes, of which one has been read. -/
def stream : CDataStream := ⟨[7, 8], 1, by decide⟩

/-- Front insertion, `Rewind` and `+=`: after them four bytes are left to be read. -/
theorem run_refines_calls :
    (new.run [.write [1, 2, 3], .read 2, .insert 0 [9], .rewind 1, .ignore 1, .append stream,
      .compact, .rewind 1, .read 4]).map (fun r => (r.1, r.2.asQueue)) =
    some ([.done, .bytes [1, 2], .done, .flag true, .done, .done, .done, .flag false,
      .thrown (.failure "CDataStream::read() : end of data")], ⟨[], [9, 3, 8]⟩) := by
  rw [run_refines _ new (by decide)]
  rfl

/-- `+=` appends the one unread byte, as the queue does; `<<` appends the byte that was read, too. -/
theorem shiftLeft_repeats :
    (new.run [.append stream]).map (fun r => r.2.unread) = some [8] ∧
    (new.asQueue.run [.shiftLeft stream]).map (fun r => r.2.unread) = some [8] ∧
    (new.run [.shiftLeft stream]).map (fun r => r.2.unread) = some [7, 8] :=
  ⟨rfl, rfl, rfl⟩

end HalfRead

end Silkcoin
