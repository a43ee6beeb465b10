/-
**Which numbers are written as words.**

A property can be addressed by a number, whose text is the key then.  The keys of objects are words,
so what matters is which numbers are written as words.  A finite number is written with a digit or a
point, and a negative one with a sign; that leaves two that are not finite.

Main results:

* `Scriptlet.Number.exists_uncased_of_text` — the text of any other number has a character that is
  in no word;
* `Scriptlet.Number.isWord_text_iff` — **only positive infinity and what is not a number are written
  as words**;
* `Scriptlet.Number.text_ne_of_isWord` — so no other word is the text of a number.
-/

import Mathlib.Tactic.ByContra
import Scriptlet.Proofs.Number.Whole
import Scriptlet.Proofs.Syntax.Pieces

set_option relaxedAutoImplicit false
set_option autoImplicit false

namespace Scriptlet.Number

open Float.Model Float.Model.UnpackedFloat

/-! ### What is not finite -/

/-- What is unpacked as infinite is packed again as it was. -/
theorem isPackedAs_of_infinity {x : Float} {s : Sign} (h : x.toModel.unpack = .infinity s) :
    IsPackedAs x (.infinity s) := by
  obtain ⟨s', e, v, hbits⟩ :
      ∃ s' e v, packComponents .binary64 s' e v = x.toModel.toBits.toBitVec :=
    ⟨_, _, _, packComponents_unpack _⟩
  have hunpack : UnpackedFloat.unpack .binary64 (packComponents .binary64 s' e v) = .infinity s :=
    (congrArg (UnpackedFloat.unpack .binary64) hbits).trans h
  rw [UnpackedFloat.unpack] at hunpack
  simp only [unpackExponent_packComponents, unpackMantissa_packComponents,
    unpackSign_packComponents, ofBitVec_toBitVec] at hunpack
  by_cases hones : e = -1#11
  · rw [if_pos hones] at hunpack
    split at hunpack
    · next hv =>
      cases hunpack
      refine isPackedAs_of_bits h ?_
      rw [← hbits, hones, hv]
      rfl
    · cases hunpack
  · rw [if_neg hones] at hunpack
    split at hunpack
    · split at hunpack <;> cases hunpack
    · cases hunpack

/-- **Positive infinity** is one double. -/
theorem eq_of_unpack_eq_infinity {x : Float} (h : x.toModel.unpack = .infinity .positive) :
    x = 1.0 / 0.0 := (isPackedAs_of_infinity h).2.symm

/-! ### Characters that are in no word -/

theorem isCased_of_isDigit {c : Char} (h : Decimal.isDigit c = true) : isCased c = false := by
  have hdigit := CharClass.of_eq_digit_iff.2 h
  cases hcased : isCased c with
  | false => rfl
  | true =>
      rw [CharClass.of_eq_letter_iff.2 hcased] at hdigit
      cases hdigit

/-- The positional layout shows a digit or a point. -/
theorem exists_uncased_of_positional (d : Decimal) : ∃ c ∈ d.positional, isCased c = false := by
  rw [Decimal.positional]
  split
  · obtain ⟨c, hc⟩ := List.exists_mem_of_ne_nil _ (Nat.toDigits_ne_nil (n := d.digits) (b := 10))
    exact ⟨c, List.mem_append_left _ hc, isCased_of_isDigit (isDigit_of_mem_toDigits hc)⟩
  · exact ⟨'.', List.mem_append_right _ List.mem_cons_self, by decide +kernel⟩

/-- **The text of a number** that is neither positive infinity nor not a number has a character that
is in no word: a digit, a point or a sign. -/
theorem exists_uncased_of_text {x : Float} (hnan : x.isNaN = false) (hinf : x ≠ 1.0 / 0.0) :
    ∃ c ∈ (text x).toList, isCased c = false := by
  rw [text, write, String.toList_ofList]
  cases hunpack : x.toModel.unpack with
  | notANumber =>
      have htrue : x.isNaN = true := congrArg UnpackedFloat.isNaN hunpack
      rw [hnan] at htrue
      cases htrue
  | infinity s =>
      cases s with
      | positive => exact absurd (eq_of_unpack_eq_infinity hunpack) hinf
      | negative => exact ⟨'-', List.mem_cons_self, by decide +kernel⟩
  | zero s => exact ⟨'0', List.mem_append_right _ List.mem_cons_self, by decide +kernel⟩
  | finite s m q hm =>
      obtain ⟨c, hc, hcased⟩ := exists_uncased_of_positional (Decimal.shortest x.abs m q)
      exact ⟨c, List.mem_append_right _ hc, hcased⟩

/-- What is not a number is written as a word. -/
theorem text_of_isNaN {x : Float} (h : x.isNaN = true) : text x = "NaN" := by
  cases hunpack : x.toModel.unpack with
  | notANumber =>
      rw [text, write, hunpack]
      exact String.ofList_toList
  | _ =>
      have hfalse : x.isNaN = false := congrArg UnpackedFloat.isNaN hunpack
      rw [h] at hfalse
      cases hfalse

/-- Positive infinity is written as a word. -/
theorem text_infinity : text (1.0 / 0.0) = "inf" := by
  have hunpack : (1.0 / 0.0 : Float).toModel.unpack = .infinity .positive := rfl
  rw [text, write, hunpack]
  exact String.ofList_toList

/-- **Only positive infinity and what is not a number are written as words.** -/
theorem isWord_text_iff {x : Float} : IsWord (text x) ↔ x.isNaN = true ∨ x = 1.0 / 0.0 := by
  constructor
  · intro h
    by_contra hneither
    rw [not_or, Bool.not_eq_true] at hneither
    obtain ⟨c, hc, hcased⟩ := exists_uncased_of_text hneither.1 hneither.2
    rw [h.2.1 c hc] at hcased
    cases hcased
  · rintro (h | rfl)
    · rw [text_of_isNaN h]
      exact ⟨by decide, List.all_eq_true.1 (by decide), by decide, by decide, by decide⟩
    · rw [text_infinity]
      exact ⟨by decide, List.all_eq_true.1 (by decide), by decide, by decide, by decide⟩

/-- The text of a number is no word, but for the two that there are. -/
theorem text_ne_of_isWord {n : String} (h : IsWord n) (hnan : n ≠ "NaN") (hinf : n ≠ "inf")
    (x : Float) : text x ≠ n := by
  rintro rfl
  rcases isWord_text_iff.1 h with htrue | rfl
  · exact hnan (text_of_isNaN htrue)
  · exact hinf text_infinity

end Scriptlet.Number
