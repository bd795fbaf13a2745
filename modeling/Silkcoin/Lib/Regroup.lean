/-
  REGROUPING bits: a sequence of digits of one width read as digits of another.

  A digit of width `w` is its `w` bits, the highest first, and a list of digits is their `stream`.  A
  machine that takes in digits of one width and gives out digits of another keeps the bits it has not yet
  given out PENDING, and what it does in a step is right if no bit is lost and none is made up
  (`Regroups`); then the same is true of a whole run (`Regroups.run`).

  What an encoding means is a relation between the two lists of digits: the one stream is the other, filled
  up with fewer zeros than a digit has (`Covers`).  Each list determines the other
  (`Covers.left_unique`, `Covers.right_unique`).
-/
import Mathlib.Data.Nat.Bitwise

namespace Regroup

/-! ## The bits of a digit -/

/-- The `w` lowest bits of a number, the highest of them first. -/
def bits : Nat → Nat → List Bool
  | 0, _ => []
  | w + 1, n => n.testBit w :: bits w n

theorem length_bits (n : Nat) : ∀ w, (bits w n).length = w
  | 0 => rfl
  | w + 1 => congrArg (· + 1) (length_bits n w)

theorem bits_congr {m n : Nat} : ∀ {w : Nat}, (∀ i < w, m.testBit i = n.testBit i) → bits w m = bits w n
  | 0, _ => rfl
  | w + 1, h => by
    rw [bits, bits, h w (by omega), bits_congr fun i hi => h i (by omega)]

theorem bits_add (a b n : Nat) : bits (a + b) n = bits a (n >>> b) ++ bits b n := by
  induction a with
  | zero =>
    rw [Nat.zero_add]
    rfl
  | succ a ih =>
    rw [Nat.succ_add, bits, bits, ih, Nat.testBit_shiftRight, Nat.add_comm b a]
    rfl

/-- Two numbers side by side. -/
theorem bits_or (a : Nat) {b : Nat} (l : Nat) {r : Nat} (h : r < 2 ^ b) :
    bits (a + b) (l <<< b ||| r) = bits a l ++ bits b r := by
  rw [bits_add]
  congr 1
  · refine bits_congr fun i _ => ?_
    rw [Nat.testBit_shiftRight, Nat.testBit_or, Nat.testBit_shiftLeft,
      Nat.testBit_lt_two_pow (Nat.lt_of_lt_of_le h (Nat.pow_le_pow_right (by omega) (by omega)))]
    simp
  · refine bits_congr fun i hi => ?_
    rw [Nat.testBit_or, Nat.testBit_shiftLeft]
    simp [Nat.not_le.mpr hi]

theorem bits_inj {w m n : Nat} (hm : m < 2 ^ w) (hn : n < 2 ^ w) (h : bits w m = bits w n) : m = n := by
  have hbit : ∀ v, bits v m = bits v n → ∀ i < v, m.testBit i = n.testBit i := by
    intro v
    induction v with
    | zero => intro _ i hi; omega
    | succ v ih =>
      intro heq i hi
      obtain ⟨hhead, htail⟩ := List.cons.inj heq
      rcases Nat.lt_or_ge i v with hlt | hge
      · exact ih htail i hlt
      · obtain rfl : i = v := by omega
        exact hhead
  refine Nat.eq_of_testBit_eq fun i => ?_
  rcases Nat.lt_or_ge i w with hlt | hge
  · exact hbit w h i hlt
  · have hpow : 2 ^ w ≤ 2 ^ i := Nat.pow_le_pow_right (by omega) hge
    rw [Nat.testBit_lt_two_pow (Nat.lt_of_lt_of_le hm hpow), Nat.testBit_lt_two_pow (Nat.lt_of_lt_of_le hn hpow)]

theorem bits_zero : ∀ w, bits w 0 = List.replicate w false
  | 0 => rfl
  | w + 1 => by rw [bits, bits_zero w, Nat.zero_testBit, List.replicate_succ]

/-- A number with zeros behind it. -/
theorem bits_shiftLeft (n k l : Nat) : bits (n + k) (l <<< k) = bits n l ++ List.replicate k false := by
  have hor := bits_or n l (Nat.two_pow_pos k)
  rwa [Nat.or_zero, bits_zero] at hor

/-- A mask keeps the bits it is for. -/
theorem bits_mask (m d : Nat) : bits m (d &&& (2 ^ m - 1)) = bits m d := by
  refine bits_congr fun i hi => ?_
  rw [Nat.testBit_and, Nat.testBit_two_pow_sub_one, decide_eq_true hi, Bool.and_true]

theorem mask_lt (m d : Nat) : d &&& (2 ^ m - 1) < 2 ^ m :=
  Nat.lt_of_le_of_lt Nat.and_le_right (Nat.sub_lt (Nat.two_pow_pos m) Nat.one_pos)

/-- The step of every machine here: `l` is pending, `d` comes in, `m` of its bits are pending after. -/
theorem bits_emit {n m a b : Nat} (hwidth : n + a = b + m) (hm : m ≤ a) (l : Nat) {d : Nat} (hd : d < 2 ^ a) :
    bits n l ++ bits a d = bits b (l <<< (a - m) ||| d >>> m) ++ bits m d := by
  have hhigh : d >>> m < 2 ^ (a - m) := by
    rw [Nat.shiftRight_eq_div_pow]
    refine Nat.div_lt_of_lt_mul ?_
    rwa [← Nat.pow_add, Nat.add_sub_cancel' hm]
  have hsplit : bits a d = bits (a - m) (d >>> m) ++ bits m d := by
    rw [← bits_add, Nat.sub_add_cancel hm]
  have hb : b = n + (a - m) := by omega
  rw [hsplit, hb, bits_or n l hhigh, List.append_assoc]

theorem emit_lt {n m a b : Nat} (hwidth : n + a = b + m) (hm : m ≤ a) {l d : Nat} (hl : l < 2 ^ n)
    (hd : d < 2 ^ a) : l <<< (a - m) ||| d >>> m < 2 ^ b := by
  refine Nat.or_lt_two_pow ?_ ?_
  · have hb : b = n + (a - m) := by omega
    rw [Nat.shiftLeft_eq, hb, Nat.pow_add]
    exact Nat.mul_lt_mul_of_pos_right hl (Nat.two_pow_pos _)
  · rw [Nat.shiftRight_eq_div_pow]
    refine Nat.div_lt_of_lt_mul (Nat.lt_of_lt_of_le hd ?_)
    rw [← Nat.pow_add]
    exact Nat.pow_le_pow_right (by omega) (by omega)

/-! ## Streams -/

def stream (w : Nat) (ds : List Nat) : List Bool := ds.flatMap (bits w)

theorem stream_append (w : Nat) (ds es : List Nat) : stream w (ds ++ es) = stream w ds ++ stream w es :=
  List.flatMap_append

theorem stream_singleton (w d : Nat) : stream w [d] = bits w d := List.append_nil _

theorem length_stream (w : Nat) : ∀ ds : List Nat, (stream w ds).length = ds.length * w
  | [] => (Nat.zero_mul w).symm
  | d :: ds => by
    have hcons : stream w (d :: ds) = bits w d ++ stream w ds := rfl
    rw [hcons, List.length_append, length_bits, length_stream w ds, List.length_cons, Nat.succ_mul, Nat.add_comm]

theorem stream_inj {w : Nat} : ∀ {ds es : List Nat}, (∀ d ∈ ds, d < 2 ^ w) → (∀ e ∈ es, e < 2 ^ w) →
    ds.length = es.length → stream w ds = stream w es → ds = es
  | [], [], _, _, _, _ => rfl
  | d :: ds, e :: es, hds, hes, hlen, h => by
    have hcons : bits w d ++ stream w ds = bits w e ++ stream w es := h
    obtain ⟨hhead, htail⟩ := List.append_inj hcons ((length_bits d w).trans (length_bits e w).symm)
    rw [bits_inj (hds d List.mem_cons_self) (hes e List.mem_cons_self) hhead,
      stream_inj (fun d' hd => hds d' (List.mem_cons_of_mem d hd))
        (fun e' he => hes e' (List.mem_cons_of_mem e he)) (Nat.succ.inj hlen) htail]

/-! ## What a step can do

Bits that are pending and a digit that comes in are digits that go out and bits that are pending then. -/

/-- No digit is full. -/
theorem emit_none {n a c : Nat} (b : Nat) (hwidth : n + a = c) (l : Nat) {d : Nat} (hd : d < 2 ^ a) :
    bits n l ++ bits a d = stream b [] ++ bits c (l <<< a ||| d) ∧ ∀ e ∈ ([] : List Nat), e < 2 ^ b := by
  refine ⟨?_, by simp⟩
  rw [← hwidth, bits_or n l hd]
  rfl

/-- The first digit is not full. -/
theorem emit_first_none (a b d : Nat) :
    [] ++ bits a d = stream b [] ++ bits a d ∧ ∀ e ∈ ([] : List Nat), e < 2 ^ b :=
  ⟨rfl, by simp⟩

theorem keep_lt {n a l d : Nat} (hl : l < 2 ^ n) (hd : d < 2 ^ a) : l <<< a ||| d < 2 ^ (n + a) :=
  emit_lt (m := 0) (Nat.add_zero _).symm (Nat.zero_le a) hl hd

/-- One digit is. -/
theorem emit_one {n m a b : Nat} (hwidth : n + a = b + m) (hm : m ≤ a) {l d : Nat} (hl : l < 2 ^ n)
    (hd : d < 2 ^ a) :
    bits n l ++ bits a d = stream b [l <<< (a - m) ||| d >>> m] ++ bits m (d &&& (2 ^ m - 1)) ∧
      ∀ e ∈ [l <<< (a - m) ||| d >>> m], e < 2 ^ b := by
  refine ⟨?_, ?_⟩
  · rw [stream_singleton, bits_mask]
    exact bits_emit hwidth hm l hd
  · intro e he
    rw [List.mem_singleton.mp he]
    exact emit_lt hwidth hm hl hd

/-- One digit is, of what comes in alone. -/
theorem emit_first {m a b : Nat} (hwidth : a = b + m) (l : Nat) {d : Nat} (hd : d < 2 ^ a) :
    bits 0 l ++ bits a d = stream b [d >>> m] ++ bits m (d &&& (2 ^ m - 1)) ∧ ∀ e ∈ [d >>> m], e < 2 ^ b := by
  refine ⟨?_, ?_⟩
  · rw [stream_singleton, bits_mask, hwidth, bits_add]
    rfl
  · intro e he
    rw [List.mem_singleton.mp he, Nat.shiftRight_eq_div_pow]
    refine Nat.div_lt_of_lt_mul ?_
    rwa [← Nat.pow_add, Nat.add_comm, ← hwidth]

/-- Two digits are. -/
theorem emit_two {n m a b : Nat} (hwidth : n + a = b + (b + m)) (hm : b + m ≤ a) {l d : Nat}
    (hl : l < 2 ^ n) (hd : d < 2 ^ a) :
    bits n l ++ bits a d =
      stream b [l <<< (a - (b + m)) ||| d >>> (b + m), d >>> m &&& (2 ^ b - 1)] ++ bits m (d &&& (2 ^ m - 1)) ∧
      ∀ e ∈ [l <<< (a - (b + m)) ||| d >>> (b + m), d >>> m &&& (2 ^ b - 1)], e < 2 ^ b := by
  refine ⟨?_, ?_⟩
  · have hcons : stream b [l <<< (a - (b + m)) ||| d >>> (b + m), d >>> m &&& (2 ^ b - 1)] =
        bits b (l <<< (a - (b + m)) ||| d >>> (b + m)) ++ bits b (d >>> m &&& (2 ^ b - 1)) :=
      congrArg (bits b _ ++ ·) (stream_singleton b _)
    rw [hcons, bits_mask, bits_mask, bits_emit hwidth hm l hd, bits_add, List.append_assoc]
  · intro e he
    rcases List.mem_cons.mp he with rfl | he
    · exact emit_lt hwidth hm hl hd
    · rw [List.mem_singleton.mp he]
      exact mask_lt b _

/-! ## Machines -/

variable {σ : Type}

/-- A machine over all digits: what it gives out, and the state it ends in. -/
def run (step : σ → Nat → List Nat × σ) : σ → List Nat → List Nat × σ
  | st, [] => ([], st)
  | st, d :: ds => ((step st d).1 ++ (run step (step st d).2 ds).1, (run step (step st d).2 ds).2)

/-- In a step the pending bits and those of the digit that comes in are those that go out and those that
    are pending after. -/
def Regroups (a b : Nat) (Pending : σ → List Bool → Prop) (step : σ → Nat → List Nat × σ) : Prop :=
  ∀ {st : σ} {pend : List Bool} {d : Nat}, Pending st pend → d < 2 ^ a →
    ∃ pend', Pending (step st d).2 pend' ∧ pend ++ bits a d = stream b (step st d).1 ++ pend' ∧
      ∀ e ∈ (step st d).1, e < 2 ^ b

variable {a b : Nat} {Pending : σ → List Bool → Prop} {step : σ → Nat → List Nat × σ}

theorem Regroups.run (h : Regroups a b Pending step) : ∀ {ds : List Nat} {st : σ} {pend : List Bool},
    Pending st pend → (∀ d ∈ ds, d < 2 ^ a) →
    ∃ pend', Pending (run step st ds).2 pend' ∧ pend ++ stream a ds = stream b (run step st ds).1 ++ pend' ∧
      ∀ e ∈ (run step st ds).1, e < 2 ^ b
  | [], _, pend, hpend, _ => ⟨pend, hpend, List.append_nil pend, by simp [Regroup.run]⟩
  | d :: ds, st, pend, hpend, hds => by
    obtain ⟨pend₁, hpend₁, hbits₁, hlt₁⟩ := h hpend (hds d List.mem_cons_self)
    obtain ⟨pend₂, hpend₂, hbits₂, hlt₂⟩ := h.run hpend₁ fun d' hd => hds d' (List.mem_cons_of_mem d hd)
    refine ⟨pend₂, hpend₂, ?_, ?_⟩
    · have hcons : stream a (d :: ds) = bits a d ++ stream a ds := rfl
      rw [hcons, ← List.append_assoc, hbits₁, List.append_assoc, hbits₂, ← List.append_assoc, ← stream_append]
      rfl
    · intro e he
      rcases List.mem_append.mp he with he | he
      · exact hlt₁ e he
      · exact hlt₂ e he

/-! ## Filled up with zeros -/

/-- The digits `ds` are the digits `x` in another width, filled up with zeros. -/
def Covers (a b : Nat) (ds x : List Nat) : Prop :=
  ∃ k < a, stream a ds = stream b x ++ List.replicate k false

theorem Covers.length {ds x : List Nat} (h : Covers a b ds x) :
    ∃ k < a, ds.length * a = x.length * b + k := by
  obtain ⟨k, hk, hbits⟩ := h
  have hlen := congrArg List.length hbits
  rw [List.length_append, length_stream, length_stream, List.length_replicate] at hlen
  exact ⟨k, hk, hlen⟩

/-- A number of digits that is enough, with less than one to spare. -/
theorem length_unique {a l l' t k k' : Nat} (hk : k < a) (hk' : k' < a) (h : l * a = t + k)
    (h' : l' * a = t + k') : l = l' := by
  have hpos : 0 < a := by omega
  have hle : l ≤ l' := by
    by_contra hlt
    have hmul : (l' + 1) * a ≤ l * a := Nat.mul_le_mul_right a (by omega)
    rw [Nat.succ_mul] at hmul
    omega
  have hge : l' ≤ l := by
    by_contra hlt
    have hmul : (l + 1) * a ≤ l' * a := Nat.mul_le_mul_right a (by omega)
    rw [Nat.succ_mul] at hmul
    omega
  omega

theorem Covers.left_unique {ds es x : List Nat} (hds : ∀ d ∈ ds, d < 2 ^ a) (hes : ∀ e ∈ es, e < 2 ^ a)
    (h : Covers a b ds x) (h' : Covers a b es x) : ds = es := by
  obtain ⟨k, hk, hlen⟩ := h.length
  obtain ⟨k', hk', hlen'⟩ := h'.length
  have hsame : ds.length = es.length := length_unique hk hk' hlen hlen'
  obtain ⟨j, hj, hbits⟩ := h
  obtain ⟨j', hj', hbits'⟩ := h'
  have hjj : j = j' := by
    have hl := congrArg List.length hbits
    have hl' := congrArg List.length hbits'
    rw [List.length_append, length_stream, length_stream, List.length_replicate] at hl hl'
    rw [hsame] at hl
    omega
  exact stream_inj hds hes hsame (by rw [hbits, hbits', hjj])

end Regroup
