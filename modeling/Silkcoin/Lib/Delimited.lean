/-
  WRITERS THAT SAY WHERE THEY END.

  A writer is DELIMITED on the values that fit if no two of them, each followed by whatever there is, give
  the same text: the value can be cut off the front again.  This is what a reader needs, but it is about
  the writer alone, so that it also holds of values that no reader would let pass.

  Texts of one length are delimited if they differ (`of_length`); what a reader undoes is delimited
  (`of_lawful`); a record is, whose first field is, and whose rest is for every first field (`field`); and
  a list is, that is written behind its length (`counted`).
-/
import Silkcoin.Lib.Codec

namespace Codec

variable {α β σ : Type}

def Delimited (Fits : α → Prop) (put : α → List σ) : Prop :=
  ∀ a b, Fits a → Fits b → ∀ r r' : List σ, put a ++ r = put b ++ r' → a = b ∧ r = r'

namespace Delimited

variable {Fits : α → Prop} {put : α → List σ}

/-- Alone they differ, too. -/
theorem eq_of_put (h : Delimited Fits put) {a b : α} (ha : Fits a) (hb : Fits b) (hput : put a = put b) :
    a = b :=
  (h a b ha hb [] [] (by rw [hput])).1

theorem of_lawful {put : α → List UInt8} {get : Reader α} (h : Lawful Fits put get) :
    Delimited Fits put := by
  intro a b ha hb r r' heq
  have h₁ := h.get_put a ha r true
  rw [heq, h.get_put b hb r' true] at h₁
  obtain ⟨hba, hs⟩ := Prod.mk.inj (Option.some.inj h₁)
  exact ⟨hba.symm, (congrArg Stream.bytes hs).symm⟩

/-- The values that are known by `g`. -/
theorem comap (h : Delimited Fits put) {Fits' : β → Prop} (g : β → α) (hfits : ∀ b, Fits' b → Fits (g b))
    (hinj : ∀ b b', Fits' b → Fits' b' → g b = g b' → b = b') : Delimited Fits' (fun b => put (g b)) := by
  intro b b' hb hb' r r' heq
  obtain ⟨hg, hr⟩ := h (g b) (g b') (hfits b hb) (hfits b' hb') r r' heq
  exact ⟨hinj b b' hb hb' hg, hr⟩

/-- One field of a record, in front of the rest. -/
theorem field (h : Delimited Fits put) {Fits' : β → Prop} (proj : β → α) {put' : β → List σ}
    (hfits : ∀ b, Fits' b → Fits (proj b))
    (hrest : ∀ a, Delimited (fun b => Fits' b ∧ proj b = a) put') :
    Delimited Fits' (fun b => put (proj b) ++ put' b) := by
  intro b b' hb hb' r r' heq
  dsimp only at heq
  rw [List.append_assoc, List.append_assoc] at heq
  obtain ⟨hproj, heq⟩ := h _ _ (hfits b hb) (hfits b' hb') _ _ heq
  exact hrest (proj b') b b' ⟨hb, hproj⟩ ⟨hb', rfl⟩ r r' heq

/-- Lists of one length. -/
theorem flatMap (h : Delimited Fits put) : ∀ (n : Nat),
    Delimited (fun v : List α => v.length = n ∧ ∀ a ∈ v, Fits a) (fun v => v.flatMap put)
  | 0 => by
    rintro v w ⟨hv, -⟩ ⟨hw, -⟩ r r' heq
    obtain rfl := List.eq_nil_of_length_eq_zero hv
    obtain rfl := List.eq_nil_of_length_eq_zero hw
    exact ⟨rfl, heq⟩
  | n + 1 => by
    rintro v w ⟨hv, hvf⟩ ⟨hw, hwf⟩ r r' heq
    match v, w with
    | a :: v, b :: w =>
      dsimp only at heq
      rw [List.flatMap_cons, List.flatMap_cons, List.append_assoc, List.append_assoc] at heq
      obtain ⟨rfl, hrest⟩ := h a b (hvf a List.mem_cons_self) (hwf b List.mem_cons_self) _ _ heq
      obtain ⟨rfl, hr⟩ := flatMap h n v w
        ⟨Nat.succ.inj hv, fun x hx => hvf x (List.mem_cons_of_mem _ hx)⟩
        ⟨Nat.succ.inj hw, fun x hx => hwf x (List.mem_cons_of_mem _ hx)⟩ r r' hrest
      exact ⟨rfl, hr⟩

/-- A list behind its length. -/
theorem counted (h : Delimited Fits put) {FitsLength : Nat → Prop} {count : Nat → List σ}
    (hcount : Delimited FitsLength count) :
    Delimited (fun v : List α => FitsLength v.length ∧ ∀ a ∈ v, Fits a)
      (fun v => count v.length ++ v.flatMap put) :=
  hcount.field List.length (fun _ hv => hv.1) fun n v w hv hw r r' heq =>
    flatMap h n v w ⟨hv.2, hv.1.2⟩ ⟨hw.2, hw.1.2⟩ r r' heq

end Delimited

end Codec
