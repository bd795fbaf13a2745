/-
  `CDataStream` of serialize.h: a vector of bytes and a read position.

  The vector keeps what is read already, so that it can be put back; what counts is the UNREAD part.
  Iterators are positions between `begin` and `end` (`Iterator`), so none of the calls can leave the
  vector.  Each call comes with one lemma that says what it does to the unread part.
-/
import Silkcoin.Lib.Incremental
import Silkcoin.Bignum

namespace Silkcoin

/-- What ends a call before its time. -/
inductive Thrown where
  | failure (what : String)
  /-- The model's bound on the rounds of a loop. -/
  | rounds
  deriving DecidableEq, Repr

structure CDataStream where
  vch : List UInt8
  nReadPos : Nat
  pos_le : nReadPos ≤ vch.length
  deriving DecidableEq

namespace CDataStream

/-- The bytes still to be read. -/
def unread (s : CDataStream) : List UInt8 := s.vch.drop s.nReadPos

def size (s : CDataStream) : Nat := s.vch.length - s.nReadPos

def empty (s : CDataStream) : Bool := s.vch.length == s.nReadPos

/-- A place from `begin()` to `end()`. -/
abbrev Iterator (s : CDataStream) : Type := { i : Nat // s.nReadPos ≤ i ∧ i ≤ s.vch.length }

def «begin» (s : CDataStream) : s.Iterator := ⟨s.nReadPos, le_refl _, s.pos_le⟩

def «end» (s : CDataStream) : s.Iterator := ⟨s.vch.length, s.pos_le, le_refl _⟩

def new : CDataStream := ⟨[], 0, le_refl 0⟩

def clear (_ : CDataStream) : CDataStream := new

/-- Where the bytes are found first, or `end()`. -/
def search (s : CDataStream) (bytes : List UInt8) : s.Iterator :=
  ⟨s.nReadPos + Incremental.search bytes s.unread, Nat.le_add_right _ _, by
    have hle : Incremental.search bytes s.unread ≤ s.unread.length := Incremental.search_le_length
    have hpos := s.pos_le
    rw [show s.unread.length = s.vch.length - s.nReadPos from List.length_drop] at hle
    omega⟩

/-- `erase(first, last)`.  From the front it only moves the read position. -/
def erase (s : CDataStream) (first last : s.Iterator) : CDataStream :=
  if first.val = s.nReadPos then
    if last.val = s.vch.length then new else ⟨s.vch, last.val, last.property.2⟩
  else
    ⟨s.vch.take first.val ++ s.vch.drop last.val, s.nReadPos, by
      have hfirst := first.property
      rw [List.length_append, List.length_take, List.length_drop]
      omega⟩

/-- `insert(it, first, last)`.  At the front there may be room in what has been read. -/
def insert (s : CDataStream) (it : s.Iterator) (bytes : List UInt8) : CDataStream :=
  if it.val = s.nReadPos ∧ bytes.length ≤ s.nReadPos then
    ⟨s.vch.take (s.nReadPos - bytes.length) ++ bytes ++ s.vch.drop s.nReadPos,
      s.nReadPos - bytes.length, by
      have hpos := s.pos_le
      rw [List.length_append, List.length_append, List.length_take, List.length_drop]
      omega⟩
  else
    ⟨s.vch.take it.val ++ bytes ++ s.vch.drop it.val, s.nReadPos, by
      have hit := it.property
      rw [List.length_append, List.length_append, List.length_take, List.length_drop]
      omega⟩

/-- Move the read position on; at the end the vector is emptied. -/
def skip (s : CDataStream) (nSize : Nat) (what : String) : Except Thrown CDataStream :=
  if h : s.vch.length ≤ s.nReadPos + nSize then
    if s.vch.length < s.nReadPos + nSize then .error (.failure what) else .ok new
  else .ok ⟨s.vch, s.nReadPos + nSize, by omega⟩

def read (s : CDataStream) (nSize : Nat) : Except Thrown (List UInt8 × CDataStream) :=
  return (s.unread.take nSize, ← s.skip nSize "CDataStream::read() : end of data")

def ignore (s : CDataStream) (nSize : Nat) : Except Thrown CDataStream :=
  s.skip nSize "CDataStream::ignore() : end of data"

/-- Write to the end. -/
def write (s : CDataStream) (bytes : List UInt8) : CDataStream :=
  ⟨s.vch ++ bytes, s.nReadPos, by
    rw [List.length_append]
    exact Nat.le_add_right_of_le s.pos_le⟩

def compact (s : CDataStream) : CDataStream := ⟨s.vch.drop s.nReadPos, 0, Nat.zero_le _⟩

/-- `resize(n)` to fewer bytes. -/
def resize (s : CDataStream) (n : Nat) : CDataStream :=
  ⟨s.vch.take (n + s.nReadPos), s.nReadPos, by
    have hpos := s.pos_le
    rw [List.length_take]
    omega⟩

/-- `memcpy` over the unread bytes from the `n`-th on. -/
def overwrite (s : CDataStream) (n : Nat) (bytes : List UInt8) : CDataStream :=
  ⟨s.vch.take (s.nReadPos + n) ++ bytes ++ s.vch.drop (s.nReadPos + n + bytes.length), s.nReadPos, by
    have hpos := s.pos_le
    rw [List.length_append, List.length_append, List.length_take, List.length_drop]
    omega⟩

/-! ## What the calls do to the unread part -/

variable {s s' : CDataStream}

@[simp] theorem unread_new : new.unread = [] := rfl

@[simp] theorem length_unread (s : CDataStream) : s.unread.length = s.size := List.length_drop

theorem empty_iff : s.empty = true ↔ s.unread = [] := by
  have hpos := s.pos_le
  unfold empty
  rw [beq_iff_eq, ← List.length_eq_zero_iff, length_unread]
  unfold size
  omega

theorem unread_erase_begin (last : s.Iterator) :
    (s.erase s.begin last).unread = s.unread.drop (last.val - s.nReadPos) := by
  have hlast := last.property
  have hdrop : s.vch.drop last.val = s.unread.drop (last.val - s.nReadPos) := by
    unfold unread
    rw [List.drop_drop]
    congr 1
    omega
  rw [← hdrop]
  unfold erase
  rw [if_pos (show s.begin.val = s.nReadPos from rfl)]
  split
  · rename_i hend
    rw [hend, List.drop_length]; rfl
  · rfl

theorem unread_insert_begin (bytes : List UInt8) :
    (s.insert s.begin bytes).unread = bytes ++ s.unread := by
  have hpos := s.pos_le
  unfold insert
  split
  · rename_i hroom
    show List.drop (s.nReadPos - bytes.length) (List.take (s.nReadPos - bytes.length) s.vch ++ bytes ++
      s.unread) = _
    rw [List.append_assoc, List.drop_append_of_le_length (by rw [List.length_take]; omega),
      List.drop_take, Nat.sub_self, List.take_zero, List.nil_append]
  · show List.drop s.nReadPos (List.take s.nReadPos s.vch ++ bytes ++ s.unread) = _
    rw [List.append_assoc, List.drop_append_of_le_length (by rw [List.length_take]; omega),
      List.drop_take, Nat.sub_self, List.take_zero, List.nil_append]

/-- Where there is enough, `skip` succeeds. -/
theorem skip_ok {n : Nat} (what : String) (h : n ≤ s.size) :
    ∃ s', s.skip n what = .ok s' ∧ s'.unread = s.unread.drop n := by
  have hpos := s.pos_le
  unfold size at h
  unfold skip
  split
  · refine ⟨new, if_neg (by omega), ?_⟩
    rw [List.drop_eq_nil_of_le (by rw [length_unread]; unfold size; omega)]
    rfl
  · refine ⟨_, rfl, ?_⟩
    show s.vch.drop (s.nReadPos + n) = (s.vch.drop s.nReadPos).drop n
    rw [List.drop_drop]

theorem read_ok {n : Nat} (h : n ≤ s.size) :
    ∃ s', s.read n = .ok (s.unread.take n, s') ∧ s'.unread = s.unread.drop n := by
  obtain ⟨s', hskip, hunread⟩ := skip_ok "CDataStream::read() : end of data" h
  refine ⟨s', ?_, hunread⟩
  unfold read
  rw [hskip]; rfl

@[simp] theorem unread_write (s : CDataStream) (bytes : List UInt8) :
    (s.write bytes).unread = s.unread ++ bytes :=
  List.drop_append_of_le_length s.pos_le

@[simp] theorem unread_compact (s : CDataStream) : s.compact.unread = s.unread := rfl

theorem unread_overwrite (n : Nat) (bytes : List UInt8) :
    (s.overwrite n bytes).unread =
      s.unread.take n ++ bytes ++ s.unread.drop (n + bytes.length) := by
  have hpos := s.pos_le
  show List.drop s.nReadPos (List.take (s.nReadPos + n) s.vch ++ bytes ++
    s.vch.drop (s.nReadPos + n + bytes.length)) = _
  rw [List.append_assoc, List.drop_append_of_le_length (by rw [List.length_take]; omega), List.drop_take,
    Nat.add_sub_cancel_left, ← List.append_assoc]
  unfold unread
  rw [List.drop_drop, Nat.add_assoc]

end CDataStream

end Silkcoin
