/-
**The text of a number reads as that number.**

A number is written as the shortest decimal that reads back, in positional notation: with digits
behind a point if it has a fraction, and otherwise with zeros at the end.  The notation is read as
the decimal again.  So every number that is not finite, too large or too small is among those that
are read from their own texts, and two numbers with one text are the same double.

Main results:

* `Scriptlet.Decimal.read_positional` — positional notation is read as the decimal, or as one that
  is the same double;
* `Scriptlet.Number.read_text` — **the text of a number reads as that number**;
* `Scriptlet.Number.text_inj` — **numbers with one text are the same**.
-/

import Scriptlet.Proofs.Number.Quotients
import Scriptlet.Proofs.Number.Words

set_option relaxedAutoImplicit false
set_option autoImplicit false

namespace Scriptlet

open Float.Model Float.Model.UnpackedFloat

/-! ### Magnitudes -/

namespace Number

variable {x : Float} {s : Sign} {m : Nat} {q : Int} {hm : 0 < m}

/-- What is too large is packed as infinite. -/
theorem le_of_isPackedAs (hx : IsPackedAs x (.finite s m q hm)) : q ≤ 971 := by
  by_contra hhigh
  have hfits : 2 ^ Format.binary64.exponentBits ≤ (q + 1075).toNat + 1 := by
    have hsize : 2 ^ Format.binary64.exponentBits = 2048 := rfl
    omega
  have hpack : UnpackedFloat.pack .binary64 (.finite s m q hm)
      = UnpackedFloat.pack .binary64 (.infinity s) := by
    rw [UnpackedFloat.pack, UnpackedFloat.pack]
    dsimp only
    rw [biased_eq, if_pos hfits]
  have hmodel : Float.Model.pack (.finite s m q hm) = .pack (.infinity s) := by
    rw [Float.Model.pack, Float.Model.pack, Float.Model.mk.injEq, hpack]
  have hunpack := hx.1
  rw [← hx.2, hmodel] at hunpack
  cases s <;> cases hunpack

/-- What is packed as a double is unpacked again, with either sign. -/
theorem unpack_pack_of_isPackedAs (hx : IsPackedAs x (.finite s m q hm))
    (htarget : targetOf m q = q) (t : Sign) :
    (Float.Model.pack (.finite t m q hm)).unpack = .finite t m q hm := by
  have hhigh := le_of_isPackedAs hx
  have hbounds : -1074 ≤ q ∧ (m.log2 = 52 ∨ m.log2 < 52 ∧ q = -1074) := by
    rw [targetOf_eq] at htarget
    omega
  obtain ⟨hlow, hlog | ⟨hlog, rfl⟩⟩ := hbounds
  · exact unpack_pack t hm hlog hlow hhigh
  · have hdigits : (BitVec.ofNat 52 m).toNat = m := by
      have hlt := (Nat.log2_lt (Nat.ne_of_gt hm)).1 hlog
      rw [BitVec.toNat_ofNat]
      omega
    rw [Float.Model.pack, Float.Model.unpack]
    dsimp only
    rw [pack_subnormal t hm hlog, unpack_subnormal t (by omega)]
    congr 1

/-- The magnitude of a double with digits has the same digits. -/
theorem isPackedAs_abs (hx : IsPackedAs x (.finite s m q hm)) (htarget : targetOf m q = q) :
    IsPackedAs x.abs (.finite .positive m q hm) := by
  have habs : x.abs = .ofModel (.pack x.toModel.unpack.abs) := rfl
  rw [hx.1] at habs
  refine ⟨?_, habs.symm⟩
  rw [habs]
  exact unpack_pack_of_isPackedAs hx htarget .positive

/-- A number with a sign. -/
def signed (s : Sign) (x : Float) : Float :=
  match s with
  | .positive => x
  | .negative => -x

theorem signed_abs (hx : IsPackedAs x (.finite s m q hm)) (htarget : targetOf m q = q) :
    signed s x.abs = x := by
  have habs := isPackedAs_abs hx htarget
  cases s with
  | positive => exact habs.2.symm.trans hx.2
  | negative =>
      have hneg : -x.abs = .ofModel (.pack x.abs.toModel.unpack.neg) := rfl
      rw [signed, hneg, habs.1]
      exact hx.2

end Number

/-! ### Positional notation -/

namespace Decimal

/-- **Digits around a point** are read as a decimal with as many places as there are digits behind
the point. -/
theorem read_fraction {front back : List Char} (hne : front ≠ [])
    (hfront : ∀ c ∈ front, isDigit c = true) (hback : ∀ c ∈ back, isDigit c = true) :
    read (front ++ '.' :: back) = some ⟨valueOf (front ++ back), -(back.length : Int)⟩ := by
  have hpoint : isDigit '.' = false := by decide
  have htake : (front ++ '.' :: back).takeWhile isDigit = front := by
    rw [List.takeWhile_append_of_pos hfront, List.takeWhile_cons_of_neg (by simp [hpoint]),
      List.append_nil]
  have hdrop : (front ++ '.' :: back).dropWhile isDigit = '.' :: back := by
    rw [List.dropWhile_append_of_pos hfront, List.dropWhile_cons_of_neg (by simp [hpoint])]
  have htake' : back.takeWhile isDigit = back := List.takeWhile_eq_self_iff.2 hback
  have hdrop' : back.dropWhile isDigit = [] := List.dropWhile_eq_nil_iff.2 hback
  simp [read, htake, hdrop, htake', hdrop', hne, readExponent]

/-- Zeros in front of digits do not count. -/
theorem valueOf_zeros_append (zeros n : Nat) :
    valueOf (List.replicate zeros '0' ++ Nat.toDigits 10 n) = n := by
  have hvalue : valueOf (List.replicate zeros '0' ++ Nat.toDigits 10 n)
      = Nat.ofDigitChars 10 (List.replicate zeros '0' ++ Nat.toDigits 10 n) 0 := rfl
  rw [hvalue, Nat.ofDigitChars_append, Nat.ofDigitChars_replicate_zero, Nat.mul_zero,
    Nat.ofDigitChars_ten_toDigits]

/-- The first of some digits in front of anything. -/
theorem exists_cons_of_isDigit {cs : List Char} (hne : cs ≠ [])
    (h : ∀ c ∈ cs, isDigit c = true) (rest : List Char) :
    ∃ c cs', cs ++ rest = c :: cs' ∧ isDigit c = true := by
  cases cs with
  | nil => exact absurd rfl hne
  | cons c cs => exact ⟨c, cs ++ rest, rfl, h c List.mem_cons_self⟩

/-- **Positional notation** begins with a digit, and is read as the double of the decimal. -/
theorem read_positional {d : Decimal} (hd : d.toFloat ≠ 1.0 / 0.0) :
    (∃ c cs, d.positional = c :: cs ∧ isDigit c = true) ∧
      (read d.positional).map toFloat = some d.toFloat := by
  obtain ⟨n, e⟩ := d
  rw [positional]
  dsimp only
  split
  · next he =>
    -- zeros take the place of the power of ten
    obtain ⟨zeros, rfl⟩ := Int.eq_ofNat_of_zero_le he
    have hdigits : ∀ c ∈ Number.scaledDigits n zeros, isDigit c = true := fun _ hc =>
      Number.isDigit_of_mem_scaledDigits hc
    have hne : Number.scaledDigits n zeros ≠ [] := by simp [Number.scaledDigits]
    have hsmall : zeros ≤ 2048 ∨ n = 0 := by
      by_contra hlarge
      exact hd (toFloat_of_large (by omega) (by omega))
    have hread := Number.decimal_read_digits hne hdigits
    obtain ⟨c, cs, hcons, hc⟩ := exists_cons_of_isDigit hne hdigits []
    rw [List.append_nil] at hcons
    refine ⟨⟨c, cs, hcons, hc⟩, ?_⟩
    change (read (Number.scaledDigits n zeros)).map toFloat = _
    rw [hread, Option.map_some, Number.valueOf_scaledDigits,
      toFloat_of_nonneg (Or.inl (Nat.zero_le _)), toFloat_of_nonneg hsmall, Nat.pow_zero,
      Nat.mul_one]
  · next he =>
    -- zeros fill the places up to the point, which stands in front of the last digits
    obtain ⟨zeros, hzeros⟩ : ∃ zeros, zeros = e.natAbs + 1 - (digitRow ⟨n, e⟩).length := ⟨_, rfl⟩
    obtain ⟨row, hrow⟩ : ∃ row, row = List.replicate zeros '0' ++ digitRow ⟨n, e⟩ := ⟨_, rfl⟩
    have hdigits : ∀ c ∈ row, isDigit c = true := by
      intro c hc
      rw [hrow] at hc
      rcases List.mem_append.1 hc with hc | hc
      · rw [(List.mem_replicate.1 hc).2]
        decide
      · exact Number.isDigit_of_mem_toDigits hc
    have hlong : e.natAbs + 1 ≤ row.length := by
      rw [hrow, List.length_append, List.length_replicate]
      omega
    have hne : row.take (row.length - e.natAbs) ≠ [] := by
      refine List.ne_nil_of_length_pos ?_
      rw [List.length_take]
      omega
    have hfront : ∀ c ∈ row.take (row.length - e.natAbs), isDigit c = true := fun c hc =>
      hdigits c (List.mem_of_mem_take hc)
    have hback : ∀ c ∈ row.drop (row.length - e.natAbs), isDigit c = true := fun c hc =>
      hdigits c (List.mem_of_mem_drop hc)
    have hread := read_fraction hne hfront hback
    have hplaces : -((row.drop (row.length - e.natAbs)).length : Int) = e := by
      rw [List.length_drop]
      omega
    have hvalue : valueOf row = n := hrow ▸ valueOf_zeros_append zeros n
    rw [List.take_append_drop, hplaces, hvalue] at hread
    rw [← hzeros, ← hrow, hread]
    exact ⟨exists_cons_of_isDigit hne hfront _, rfl⟩

end Decimal

/-! ### Texts -/

namespace Number

theorem ne_of_isDigit {c other : Char} (h : Decimal.isDigit c = true)
    (hother : Decimal.isDigit other = false) : c ≠ other := by
  rintro rfl
  rw [h] at hother
  cases hother

/-- A magnitude that begins with no sign can be given one. -/
theorem read_signed {s : Sign} {c : Char} {cs : List Char} {x : Float} (hminus : c ≠ '-')
    (hplus : c ≠ '+') (h : readMagnitude (c :: cs) = some x) :
    read (String.ofList (signText s ++ c :: cs)) = some (signed s x) := by
  rw [read, String.toList_ofList]
  cases s with
  | positive =>
      rw [signText, List.nil_append]
      split
      · next heq => exact absurd (List.cons.inj heq).1 hminus
      · next heq => exact absurd (List.cons.inj heq).1 hplus
      · exact h
  | negative =>
      change (readMagnitude (c :: cs)).map _ = _
      rw [h]
      rfl

/-- **The text of a number reads as that number.** -/
theorem read_text {x : Float} (h : x.isNaN = false) : read (text x) = some x := by
  rw [text, write]
  rcases unpack_cases x with ⟨s, hx⟩ | ⟨s, m, q, hm, htarget, hx⟩ | ⟨s, hx⟩ | hx
  · rw [hx.1]
    have hzero : readMagnitude ['0'] = some (nearest 0) := rfl
    have hread := read_signed (s := s) (by decide) (by decide) hzero
    have hsigned : signed s (nearest 0) = x := by
      rw [← hx.2]
      cases s <;> rfl
    rw [← hsigned]
    exact hread
  · have habs := isPackedAs_abs hx htarget
    have hshortest := Decimal.toFloat_shortest habs htarget
    have hfinite : (Decimal.shortest x.abs m q).toFloat ≠ 1.0 / 0.0 := by
      intro hinf
      have hunpack := habs.1
      rw [← hshortest, hinf] at hunpack
      cases hunpack
    obtain ⟨⟨c, cs, hcons, hdigit⟩, hread⟩ := Decimal.read_positional hfinite
    rw [hx.1]
    dsimp only
    rw [hcons] at hread ⊢
    have hmagnitude : readMagnitude (c :: cs) = some x.abs := by
      rw [readMagnitude_of_isDigit ⟨c, List.mem_cons_self, hdigit⟩, hread, hshortest]
    rw [read_signed (ne_of_isDigit hdigit (by decide)) (ne_of_isDigit hdigit (by decide))
      hmagnitude, signed_abs hx htarget]
  · rw [hx]
    have hname : readMagnitude ['i', 'n', 'f'] = some (1.0 / 0.0) := rfl
    have hsigned : signed s (1.0 / 0.0) = x := by
      rw [← (isPackedAs_of_infinity hx).2]
      cases s <;> rfl
    rw [← hsigned]
    exact read_signed (by decide) (by decide) hname
  · have htrue : x.isNaN = true := congrArg UnpackedFloat.isNaN hx
    rw [h] at htrue
    cases htrue

/-- **Numbers with one text are the same.** -/
theorem text_inj {x y : Float} (hx : x.isNaN = false) (hy : y.isNaN = false) :
    text x = text y ↔ x = y := by
  constructor
  · intro h
    have hread := read_text hx
    rw [h, read_text hy] at hread
    exact (Option.some.inj hread).symm
  · exact congrArg text

end Number

end Scriptlet
