/-
**Numbers as the names of properties.**

A property of an object can be addressed by a number; its key is the text of the number then.  The
text of a number reads as the number, so different numbers have different texts, and numbers that
are equal have one text if they are the same double.  There is one case where they are not: the two
zeros are equal, but one is written with a sign.  They address different properties.

Main definitions:

* `Scriptlet.Store.property` — the property of an object that a number addresses;
* `Scriptlet.Number.OppositeZeros` — the two zeros.

Main results:

* `Scriptlet.Number.beq_iff_eq_or` — numbers are equal if they are the same, or the two zeros;
* `Scriptlet.Number.text_eq_iff` — which numbers have one text;
* `Scriptlet.numbers_as_keys` — **which numbers address the same property**.
-/

import Scriptlet.Proofs.Eval.Identity
import Scriptlet.Proofs.Eval.Vocabulary
import Scriptlet.Proofs.Number.ReadBack

set_option relaxedAutoImplicit false
set_option autoImplicit false

namespace Scriptlet

/-! ### Numbers that are equal -/

namespace Number

open Float.Model

variable {x y : Float}

/-- **The two zeros**, with and without a sign. -/
def OppositeZeros (x y : Float) : Prop := (x = 0 ∧ y = -0) ∨ (x = -0 ∧ y = 0)

/-- What is a number is packed as it is unpacked. -/
theorem ofModel_pack_unpack (h : x.isNaN = false) : Float.ofModel (.pack x.toModel.unpack) = x := by
  rcases unpack_cases x with ⟨s, hx⟩ | ⟨s, m, q, hm, -, hx⟩ | ⟨s, hx⟩ | hx
  · rw [hx.1]
    exact hx.2
  · rw [hx.1]
    exact hx.2
  · rw [hx]
    exact (isPackedAs_of_infinity hx).2
  · have htrue : x.isNaN = true := congrArg UnpackedFloat.isNaN hx
    rw [h] at htrue
    cases htrue

theorem zero_eq_nearest : (0 : Float) = nearest 0 :=
  Decimal.toFloat_of_nonneg (n := 0) (e := 0) (Or.inl (Nat.zero_le _))

/-- What is packed from a zero. -/
theorem pack_zero (s : UnpackedFloat.Sign) : Float.ofModel (.pack (.zero s)) = signed s 0 := by
  rw [zero_eq_nearest]
  cases s <;> rfl

theorem unpack_signed_zero (s : UnpackedFloat.Sign) :
    (signed s 0).toModel.unpack = .zero s := by
  rw [zero_eq_nearest]
  cases s <;> rfl

/-- The two zeros are what zeros with different signs are. -/
theorem oppositeZeros_iff : OppositeZeros x y ↔ ∃ s, x = signed s 0 ∧ y = signed (-s) 0 := by
  constructor
  · rintro (h | h)
    · exact ⟨.positive, h⟩
    · exact ⟨.negative, h⟩
  · rintro ⟨s, h⟩
    cases s with
    | positive => exact Or.inl h
    | negative => exact Or.inr h

/-- The two zeros are not the same. -/
theorem OppositeZeros.ne (h : OppositeZeros x y) : x ≠ y := by
  obtain ⟨s, rfl, rfl⟩ := oppositeZeros_iff.1 h
  intro hsame
  have hunpack := congrArg (fun z : Float => z.toModel.unpack) hsame
  rw [unpack_signed_zero, unpack_signed_zero] at hunpack
  cases s <;> cases hunpack

/-- **Numbers are equal if they are the same, or the two zeros.** -/
theorem beq_iff_eq_or (hx : x.isNaN = false) (hy : y.isNaN = false) :
    (x == y) = true ↔ x = y ∨ OppositeZeros x y := by
  rw [beq_iff, ← isNaN_eq_false_iff, and_iff_right hx, oppositeZeros_iff]
  constructor
  · intro hweight
    by_cases hunpack : x.toModel.unpack = y.toModel.unpack
    · exact Or.inl (by rw [← ofModel_pack_unpack hx, hunpack, ofModel_pack_unpack hy])
    · -- what is unpacked differs by the sign of a zero
      rw [weight, weight] at hweight
      split at hweight
      · next s hs =>
        split at hweight
        · next t ht =>
          rw [hs, ht] at hunpack
          have hsign : t = -s := by cases s <;> cases t <;> first | rfl | exact absurd rfl hunpack
          refine Or.inr ⟨s, ?_, ?_⟩
          · rw [← ofModel_pack_unpack hx, hs, pack_zero]
          · rw [← ofModel_pack_unpack hy, ht, pack_zero, hsign]
        · next hnot => exact absurd hweight.symm (hnot .positive)
      · next hnot =>
        split at hweight
        · exact absurd hweight (hnot .positive)
        · exact absurd hweight hunpack
  · rintro (rfl | ⟨s, rfl, rfl⟩)
    · rfl
    · rw [weight, weight, unpack_signed_zero, unpack_signed_zero]

/-- **Which numbers have one text**: those that are equal, but for the two zeros. -/
theorem text_eq_iff (hx : x.isNaN = false) (hy : y.isNaN = false) :
    text x = text y ↔ (x == y) = true ∧ ¬ OppositeZeros x y := by
  rw [text_inj hx hy, beq_iff_eq_or hx hy]
  constructor
  · rintro rfl
    exact ⟨Or.inl rfl, fun h => h.ne rfl⟩
  · rintro ⟨hsame | hzeros, hnot⟩
    · exact hsame
    · exact absurd hzeros hnot

end Number

/-! ### Properties -/

/-- The property of an object that a number addresses; null, if there is none. -/
def Store.property (store : Store) (i : Nat) (x : Float) : Value :=
  ((store.object i).find? (Number.text x)).getD .null

/-- **Which numbers address the same property.**  A number addresses the property of an object that
is named by its text.  Two numbers address the same property, in one object or in all, if and only
if they are equal and not the two zeros; what is stored under any others is kept apart. -/
theorem numbers_as_keys {x y : Float} (hx : x.isNaN = false) (hy : y.isNaN = false) :
    (∀ calls scope a b i z first second third,
      ((a : Expr).eval calls scope).run first = (.ok (.object i), second) →
      ((b : Expr).eval calls scope).run second = (.ok (.number z), third) →
      ((Expr.index a b).eval calls scope).run first = (.ok (third.store.property i z), third)) ∧
    (Number.text x = Number.text y ↔
      (Value.number x).same (.number y) = true ∧ ¬ Number.OppositeZeros x y) ∧
    ((∀ store i, Store.property store i x = store.property i y) ↔
      (Value.number x).same (.number y) = true ∧ ¬ Number.OppositeZeros x y) ∧
    (¬ ((Value.number x).same (.number y) = true ∧ ¬ Number.OppositeZeros x y) →
      ∀ (properties : Table Value) (u v : Value),
        let both := (properties.insert (Number.text x) u).insert (Number.text y) v
        both.find? (Number.text x) = some u ∧ both.find? (Number.text y) = some v) := by
  have hkey : Number.text x = Number.text y ↔
      (Value.number x).same (.number y) = true ∧ ¬ Number.OppositeZeros x y :=
    Number.text_eq_iff hx hy
  refine ⟨fun calls scope a b i z first second third ha hb => Expr.run_index_number ha hb, hkey,
    ?_, fun hother properties u v => ?_⟩
  · rw [← hkey]
    constructor
    · intro h
      by_contra hne
      let properties : Table Value := Table.empty.insert (Number.text x) (.boolean true)
      have hsame := h { Store.empty with objects := #[properties] } 0
      have hleft : properties.find? (Number.text x) = some (.boolean true) := by
        rw [Table.find?_insert, if_pos rfl]
      have hright : properties.find? (Number.text y) = none := by
        rw [Table.find?_insert, if_neg hne, Table.find?_empty]
      change (properties.find? (Number.text x)).getD .null
        = (properties.find? (Number.text y)).getD .null at hsame
      rw [hleft, hright] at hsame
      cases hsame
    · intro h store i
      rw [Store.property, h, Store.property]
  · have hne : Number.text y ≠ Number.text x := fun h => hother (hkey.1 h.symm)
    intro both
    rw [Table.find?_insert, Table.find?_insert, Table.find?_insert, if_neg hne, if_pos rfl,
      if_pos rfl]
    exact ⟨rfl, rfl⟩

/-- One and a half are two names. -/
theorem numbers_as_keys_half :
    (1 : Float).isNaN = false ∧ (0.5 : Float).isNaN = false ∧
      ∀ (properties : Table Value) (u v : Value),
        ((properties.insert (Number.text 1) u).insert (Number.text 0.5) v).find? (Number.text 1)
          = some u := by
  have hone : (1 : Float).isNaN = false := by decide +kernel
  have hhalf : (0.5 : Float).isNaN = false := by decide +kernel
  have hother : ¬ ((Value.number 1).same (.number 0.5) = true ∧ ¬ Number.OppositeZeros 1 0.5) := by
    have hdiffer : (Value.number 1).same (.number 0.5) = false := by decide +kernel
    rw [hdiffer]
    exact fun h => Bool.false_ne_true h.1
  obtain ⟨-, -, -, hapart⟩ := numbers_as_keys hone hhalf
  exact ⟨hone, hhalf, fun properties u v => (hapart hother properties u v).1⟩

/-- **The two zeros are two names**, though they are equal. -/
theorem zeros_are_two_keys :
    let entries : List Entry := [.pair "0" (.number 1), .pair "-0" (.number 2)]
    let zero : Expr := .number 0
    let minusZero : Expr := .binary .multiply (.number 0) (.number (-1))
    let read (key : Expr) :=
      (((Expr.index (.object entries) key).eval (callWithin 0) 0).run (Machine.empty none)).1
    (0 : Float).isNaN = false ∧ (0 * -1 : Float).isNaN = false ∧
      (Value.number 0).same (.number (0 * -1)) = true ∧
      Number.text 0 ≠ Number.text (0 * -1) ∧
      read zero = .ok (.number 1) ∧ read minusZero = .ok (.number 2) := by
  refine ⟨by decide +kernel, by decide +kernel, by decide +kernel, by decide +kernel, ?_, ?_⟩
  · rfl
  · rfl

end Scriptlet
