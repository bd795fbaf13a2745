/-
  Encodings: writers and readers of byte strings that UNDO each other.

  A value is written as a list of bytes and read off the front of a stream.  `Lawful` is the agreement of
  the two, both ways: what is written is read back, whatever follows it (`get_put`), and what is read was
  written so (`put_get`).  Both hold of a record if they hold of its fields (`Lawful.field`), and of a vector
  if they hold of its elements, also if the reader takes the vector in pieces (`readChunks_eq`).

  A count in front of a vector has more than one form.  The stream carries the observation whether all
  counts read so far were in the shortest one; no reader looks at it, and `put_get` is about the streams
  where it stays true.
-/
import Mathlib.Data.List.Basic
import Mathlib.Tactic.Ring

namespace Codec

variable {α β : Type}

/-! ## Streams and readers -/

/-- What is still to be read, and whether all counts were in their shortest form. -/
structure Stream where
  bytes : List UInt8
  canonical : Bool
deriving DecidableEq, Repr

/-- A reader fails where the bytes end too early, or say something that cannot be. -/
abbrev Reader (α : Type) := StateT Stream Option α

/-- Writer and reader undo each other on the values that fit, and no others are read. -/
structure Lawful (Fits : α → Prop) (put : α → List UInt8) (get : Reader α) : Prop where
  get_put : ∀ a, Fits a → ∀ rest c, get.run ⟨put a ++ rest, c⟩ = some (a, ⟨rest, c⟩)
  get_fits : ∀ s a s', get.run s = some (a, s') → Fits a
  put_get : ∀ s a s', get.run s = some (a, s') → s'.canonical = true →
    s.canonical = true ∧ s.bytes = put a ++ s'.bytes

theorem run_bind {g : Reader α} {k : α → Reader β} {s : Stream} :
    (g >>= k).run s = (g.run s).bind fun r => (k r.1).run r.2 := rfl

theorem run_bind_eq_some {g : Reader α} {k : α → Reader β} {s : Stream} {r : β × Stream} :
    (g >>= k).run s = some r ↔ ∃ a s', g.run s = some (a, s') ∧ (k a).run s' = some r := by
  rw [run_bind, Option.bind_eq_some_iff]
  constructor
  · rintro ⟨⟨a, s'⟩, hg, hk⟩
    exact ⟨a, s', hg, hk⟩
  · rintro ⟨a, s', hg, hk⟩
    exact ⟨(a, s'), hg, hk⟩

theorem run_pure_eq_some {a b : α} {s s' : Stream} :
    (pure a : Reader α).run s = some (b, s') ↔ a = b ∧ s = s' := by
  show some (a, s) = some (b, s') ↔ _
  rw [Option.some.injEq, Prod.mk.injEq]

namespace Lawful

variable {Fits : α → Prop} {put : α → List UInt8} {get : Reader α}

/-- A field that was written is read, and the reader goes on behind it. -/
theorem run_bind_put (h : Lawful Fits put get) {a : α} (ha : Fits a) (k : α → Reader β)
    (rest : List UInt8) (c : Bool) :
    (get >>= k).run ⟨put a ++ rest, c⟩ = (k a).run ⟨rest, c⟩ := by
  rw [run_bind, h.get_put a ha rest c]
  rfl

/-- The values under a bijection of those that fit. -/
theorem iso (h : Lawful Fits put get) {Fits' : β → Prop} (f : α → β) (g : β → α)
    (hfg : ∀ b, Fits' b → Fits (g b) ∧ f (g b) = b) (hgf : ∀ a, Fits a → Fits' (f a) ∧ g (f a) = a) :
    Lawful Fits' (fun b => put (g b)) (do return f (← get)) := by
  constructor
  · intro b hb rest c
    rw [h.run_bind_put (hfg b hb).1]
    show some (f (g b), _) = _
    rw [(hfg b hb).2]
  · intro s b s' hget
    obtain ⟨a, s₁, ha, hret⟩ := run_bind_eq_some.mp hget
    obtain ⟨rfl, rfl⟩ := run_pure_eq_some.mp hret
    exact (hgf a (h.get_fits s a s₁ ha)).1
  · intro s b s' hget hc
    obtain ⟨a, s₁, ha, hret⟩ := run_bind_eq_some.mp hget
    obtain ⟨rfl, rfl⟩ := run_pure_eq_some.mp hret
    obtain ⟨hs, hbytes⟩ := h.put_get s a s₁ ha hc
    refine ⟨hs, ?_⟩
    rw [(hgf a (h.get_fits s a s₁ ha)).2]
    exact hbytes

/-- One field of a record: what is in front of the rest.  The rest may depend on it. -/
theorem field (h : Lawful Fits put get) {Fits' : β → Prop} (proj : β → α) {put' : β → List UInt8}
    {k : α → Reader β} (hfits : ∀ b, Fits' b → Fits (proj b))
    (hk : ∀ a, Fits a → Lawful (fun b => Fits' b ∧ proj b = a) put' (k a)) :
    Lawful Fits' (fun b => put (proj b) ++ put' b) (get >>= k) := by
  constructor
  · intro b hb rest c
    rw [List.append_assoc, h.run_bind_put (hfits b hb)]
    exact (hk (proj b) (hfits b hb)).get_put b ⟨hb, rfl⟩ rest c
  · intro s b s' hget
    obtain ⟨a, s₁, ha, hrest⟩ := run_bind_eq_some.mp hget
    exact ((hk a (h.get_fits s a s₁ ha)).get_fits s₁ b s' hrest).1
  · intro s b s' hget hc
    obtain ⟨a, s₁, ha, hrest⟩ := run_bind_eq_some.mp hget
    have hka := hk a (h.get_fits s a s₁ ha)
    obtain ⟨-, rfl⟩ := hka.get_fits s₁ b s' hrest
    obtain ⟨hs₁, hbytes₁⟩ := hka.put_get s₁ b s' hrest hc
    obtain ⟨hs, hbytes⟩ := h.put_get s (proj b) s₁ ha hs₁
    refine ⟨hs, ?_⟩
    rw [hbytes, hbytes₁, List.append_assoc]

end Lawful

/-! ## Bytes -/

/-- The next `n` bytes. -/
def readBytes (n : Nat) : Reader (List UInt8) := fun s =>
  if s.bytes.length < n then none else some (s.bytes.take n, { s with bytes := s.bytes.drop n })

theorem readBytes_lawful (n : Nat) : Lawful (fun l : List UInt8 => l.length = n) (fun l => l) (readBytes n) := by
  constructor
  · intro l hl rest c
    show (if (l ++ rest).length < n then none
      else some ((l ++ rest).take n, (⟨(l ++ rest).drop n, c⟩ : Stream))) = _
    rw [if_neg (by rw [List.length_append]; omega), ← hl, List.take_left, List.drop_left]
  all_goals
    intro s l s' h
    have h : (if s.bytes.length < n then none
      else some (s.bytes.take n, ({ s with bytes := s.bytes.drop n } : Stream))) = some (l, s') := h
    split at h
    · cases h
    obtain ⟨rfl, rfl⟩ := Prod.mk.inj (Option.some.inj h)
  · rw [List.length_take]
    omega
  · exact fun hc => ⟨hc, (List.take_append_drop n s.bytes).symm⟩

/-- Reading some bytes and then some more. -/
theorem readBytes_add (m n : Nat) (s : Stream) :
    (readBytes (m + n)).run s =
      (do let v ← readBytes m
          let w ← readBytes n
          return v ++ w : Reader (List UInt8)).run s := by
  rw [run_bind]
  show (if s.bytes.length < m + n then none else some (s.bytes.take (m + n), _)) =
    (if s.bytes.length < m then none else some (s.bytes.take m, _)).bind _
  by_cases hm : s.bytes.length < m
  · rw [if_pos (by omega), if_pos hm]
    rfl
  · rw [if_neg hm]
    show _ = (if (s.bytes.drop m).length < n then none else some ((s.bytes.drop m).take n, _)).bind _
    rw [List.length_drop]
    by_cases hn : s.bytes.length < m + n
    · rw [if_pos hn, if_pos (by omega)]
      rfl
    · rw [if_neg hn, if_neg (by omega)]
      show some (s.bytes.take (m + n), (⟨s.bytes.drop (m + n), s.canonical⟩ : Stream)) =
        some (s.bytes.take m ++ (s.bytes.drop m).take n, ⟨(s.bytes.drop m).drop n, s.canonical⟩)
      rw [List.take_add, List.drop_drop]

/-! ## Numbers, lowest byte first -/

/-- The lowest `k` bytes of a number. -/
def toLE : Nat → Nat → List UInt8
  | 0, _ => []
  | k + 1, n => UInt8.ofNat n :: toLE k (n / 256)

/-- The number that these bytes are. -/
def ofLE : List UInt8 → Nat
  | [] => 0
  | b :: l => b.toNat + 256 * ofLE l

@[simp] theorem length_toLE (k n : Nat) : (toLE k n).length = k := by
  induction k generalizing n with
  | zero => rfl
  | succ k ih => rw [toLE, List.length_cons, ih]

theorem ofLE_lt (l : List UInt8) : ofLE l < 256 ^ l.length := by
  induction l with
  | nil => exact Nat.one_pos
  | cons b l ih =>
    have hb := b.toNat_lt
    rw [ofLE, List.length_cons, Nat.pow_succ]
    omega

theorem ofLE_toLE {k n : Nat} (h : n < 256 ^ k) : ofLE (toLE k n) = n := by
  induction k generalizing n with
  | zero =>
    rw [Nat.pow_zero] at h
    rw [toLE, ofLE]
    omega
  | succ k ih =>
    rw [Nat.pow_succ] at h
    rw [toLE, ofLE, ih (by omega), UInt8.toNat_ofNat']
    omega

theorem toLE_ofLE (l : List UInt8) : toLE l.length (ofLE l) = l := by
  induction l with
  | nil => rfl
  | cons b l ih =>
    have hb := b.toNat_lt
    have hlow : UInt8.ofNat (b.toNat + 256 * ofLE l) = b := by
      apply UInt8.toNat_inj.mp
      rw [UInt8.toNat_ofNat']
      omega
    have hhigh : (b.toNat + 256 * ofLE l) / 256 = ofLE l := by omega
    rw [List.length_cons, ofLE, toLE, hlow, hhigh, ih]

/-- A number of `k` bytes. -/
def readLE (k : Nat) : Reader Nat := do return ofLE (← readBytes k)

theorem readLE_lawful (k : Nat) : Lawful (fun n => n < 256 ^ k) (toLE k) (readLE k) :=
  (readBytes_lawful k).iso ofLE (toLE k) (fun n hn => ⟨length_toLE k n, ofLE_toLE hn⟩)
    (fun l hl => ⟨hl ▸ ofLE_lt l, hl ▸ toLE_ofLE l⟩)

/-- A signed number of `k` bytes, in two's complement. -/
def toLEInt (k : Nat) (x : Int) : List UInt8 := toLE k (x % (256 ^ k : Nat)).toNat

def readLEInt (k : Nat) : Reader Int := do return ((← readLE k : Nat) : Int).bmod (256 ^ k)

/-- What a signed number of `k` bytes can be. -/
def FitsInt (k : Nat) (x : Int) : Prop := -(256 ^ k : Nat) ≤ 2 * x ∧ 2 * x < (256 ^ k : Nat)

instance (k : Nat) (x : Int) : Decidable (FitsInt k x) := inferInstanceAs (Decidable (_ ∧ _))

theorem readLEInt_lawful (k : Nat) : Lawful (FitsInt k) (toLEInt k) (readLEInt k) := by
  have hpos : 0 < 256 ^ k := Nat.pow_pos (by decide)
  refine (readLE_lawful k).iso (fun n => (n : Int).bmod (256 ^ k))
    (fun x => (x % (256 ^ k : Nat)).toNat) (fun x hx => ?_) (fun n hn => ?_)
  · unfold FitsInt at hx
    generalize 256 ^ k = m at hpos hx ⊢
    have hnonneg : 0 ≤ x % (m : Int) := Int.emod_nonneg x (by omega)
    have hlt : x % (m : Int) < m := Int.emod_lt_of_pos x (by omega)
    refine ⟨by omega, ?_⟩
    rw [Int.toNat_of_nonneg hnonneg, Int.emod_bmod]
    exact Int.bmod_eq_of_le (by omega) (by omega)
  · unfold FitsInt
    generalize 256 ^ k = m at hpos hn ⊢
    have hlo := @Int.le_bmod n m hpos
    have hhi := @Int.bmod_lt n m hpos
    refine ⟨by omega, ?_⟩
    rw [Int.bmod_emod, Int.emod_eq_of_lt (by omega) (by omega), Int.toNat_natCast]

/-! ## Vectors -/

/-- The elements one after the other. -/
def putAll (put : α → List UInt8) (v : List α) : List UInt8 := v.flatMap put

/-- `n` elements. -/
def readAll (get : Reader α) : Nat → Reader (List α)
  | 0 => pure []
  | n + 1 => do
    let a ← get
    let v ← readAll get n
    return a :: v

theorem readAll_lawful {Fits : α → Prop} {put : α → List UInt8} {get : Reader α}
    (h : Lawful Fits put get) (n : Nat) :
    Lawful (fun v : List α => v.length = n ∧ ∀ a ∈ v, Fits a) (putAll put) (readAll get n) := by
  induction n with
  | zero =>
    constructor
    · rintro v ⟨hlen, -⟩ rest c
      obtain rfl := List.eq_nil_of_length_eq_zero hlen
      rfl
    · intro s v s' hget
      obtain ⟨rfl, rfl⟩ := run_pure_eq_some.mp hget
      exact ⟨rfl, fun a ha => absurd ha List.not_mem_nil⟩
    · intro s v s' hget hc
      obtain ⟨rfl, rfl⟩ := run_pure_eq_some.mp hget
      exact ⟨hc, rfl⟩
  | succ n ih =>
    constructor
    · rintro v ⟨hlen, hall⟩ rest c
      cases v with
      | nil => cases hlen
      | cons a v =>
        have hv : v.length = n ∧ ∀ a ∈ v, Fits a :=
          ⟨Nat.succ.inj hlen, fun b hb => hall b (List.mem_cons_of_mem _ hb)⟩
        show (get >>= _).run ⟨putAll put (a :: v) ++ rest, c⟩ = _
        rw [putAll, List.flatMap_cons, List.append_assoc,
          h.run_bind_put (hall a List.mem_cons_self)]
        show (readAll get n >>= _).run ⟨putAll put v ++ rest, c⟩ = _
        rw [ih.run_bind_put hv]
        rfl
    · intro s v s' hget
      obtain ⟨a, s₁, ha, hget⟩ := run_bind_eq_some.mp hget
      obtain ⟨v', s₂, hv', hret⟩ := run_bind_eq_some.mp hget
      obtain ⟨rfl, rfl⟩ := run_pure_eq_some.mp hret
      obtain ⟨hlen, hall⟩ := ih.get_fits s₁ v' s₂ hv'
      exact ⟨congrArg Nat.succ hlen, List.forall_mem_cons.mpr ⟨h.get_fits s a s₁ ha, hall⟩⟩
    · intro s v s' hget hc
      obtain ⟨a, s₁, ha, hget⟩ := run_bind_eq_some.mp hget
      obtain ⟨v', s₂, hv', hret⟩ := run_bind_eq_some.mp hget
      obtain ⟨rfl, rfl⟩ := run_pure_eq_some.mp hret
      obtain ⟨hs₁, hbytes₁⟩ := ih.put_get s₁ v' s₂ hv' hc
      obtain ⟨hs, hbytes⟩ := h.put_get s a s₁ ha hs₁
      refine ⟨hs, ?_⟩
      rw [hbytes, hbytes₁, putAll, putAll, List.flatMap_cons, List.append_assoc]

/-- Reading some elements and then some more. -/
theorem readAll_add (get : Reader α) (m n : Nat) (s : Stream) :
    (readAll get (m + n)).run s =
      (do let v ← readAll get m
          let w ← readAll get n
          return v ++ w : Reader (List α)).run s := by
  induction m generalizing s with
  | zero =>
    rw [Nat.zero_add]
    show _ = ((readAll get n).run s).bind fun r => some (r.1, r.2)
    cases (readAll get n).run s <;> rfl
  | succ m ih =>
    rw [Nat.succ_add]
    show (get >>= _).run s = ((get >>= _) >>= _).run s
    rw [run_bind, run_bind, run_bind]
    cases get.run s with
    | none => rfl
    | some r =>
      show (readAll get (m + n) >>= _).run r.2 = ((readAll get m >>= _).run r.2).bind _
      rw [run_bind, run_bind, ih, run_bind]
      cases (readAll get m).run r.2 with
      | none => rfl
      | some r₁ =>
        show ((readAll get n >>= _).run r₁.2).bind _ = (readAll get n >>= _).run r₁.2
        rw [run_bind, run_bind]
        cases (readAll get n).run r₁.2 <;> rfl

/-- Read up to `nSize` elements in pieces of at most `chunk`; `i` of them are there already. -/
def readChunks (piece : Nat → Reader (List α)) (chunk nSize i : Nat) (v : List α) : Reader (List α) :=
  if _h : i < nSize ∧ 0 < chunk then do
    let w ← piece (min (nSize - i) chunk)
    readChunks piece chunk nSize (i + min (nSize - i) chunk) (v ++ w)
  else pure v
termination_by nSize - i

/-- The pieces make no difference. -/
theorem readChunks_eq {piece : Nat → Reader (List α)} (hzero : ∀ s, (piece 0).run s = some ([], s))
    (hadd : ∀ m n s, (piece (m + n)).run s =
      (do let v ← piece m
          let w ← piece n
          return v ++ w : Reader (List α)).run s)
    {chunk : Nat} (hchunk : 0 < chunk) (nSize i : Nat) (v : List α) (s : Stream) :
    (readChunks piece chunk nSize i v).run s =
      (do return v ++ (← piece (nSize - i)) : Reader (List α)).run s := by
  induction i, v using readChunks.induct chunk nSize generalizing s with
  | case1 i v h ih =>
    rw [readChunks, dif_pos h]
    have hsplit : nSize - i = min (nSize - i) chunk + (nSize - (i + min (nSize - i) chunk)) := by omega
    rw [run_bind, run_bind]
    conv_rhs => rw [hsplit, hadd, run_bind]
    cases (piece (min (nSize - i) chunk)).run s with
    | none => rfl
    | some r =>
      show (readChunks piece chunk nSize (i + min (nSize - i) chunk) (v ++ r.1)).run r.2 =
        ((piece (nSize - (i + min (nSize - i) chunk)) >>= _).run r.2).bind _
      rw [ih, run_bind, run_bind]
      cases (piece (nSize - (i + min (nSize - i) chunk))).run r.2 with
      | none => rfl
      | some r₁ =>
        show some ((v ++ r.1) ++ r₁.1, r₁.2) = some (v ++ (r.1 ++ r₁.1), r₁.2)
        rw [List.append_assoc]
  | case2 i v h =>
    rw [readChunks, dif_neg h]
    have hnone : nSize - i = 0 := by omega
    rw [hnone, run_bind, hzero]
    show some (v, s) = some (v ++ [], s)
    rw [List.append_nil]

end Codec
