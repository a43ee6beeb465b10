/-
**The bits of a double.**

A double is stored as a sign, an exponent and the digits behind the first one, in 64 bits.  Taking
the bits apart and putting them together again changes nothing; so a double is given by its sign,
its digits and its power of two, and what is packed with 53 digits is unpacked with the same ones.

Main definitions:

* `Scriptlet.Number.targetOf` — the power of two that the digits of a double are scaled by;
* `Scriptlet.Number.IsPackedAs` — what a double is unpacked to, and packed from.

Main results:

* `Scriptlet.Number.packComponents_unpack` — the bits of a double are made of its components;
* `Scriptlet.Number.unpack_pack` — what is packed with 53 digits is unpacked with the same ones;
* `Scriptlet.Number.unpack_cases` — **what a double is**, and that it is packed as it is unpacked.
-/

import Mathlib
import Scriptlet.Number.Decimal

set_option relaxedAutoImplicit false
set_option autoImplicit false

namespace Scriptlet.Number

open Float.Model Float.Model.UnpackedFloat

/-! ### Components -/

theorem toBitVec_ofBitVec (v : BitVec 1) : (Sign.ofBitVec v).toBitVec = v := by
  rw [Sign.ofBitVec]
  split
  · next h => exact h.symm
  · next h => exact ((BitVec.eq_zero_or_eq_one v).resolve_left h).symm

theorem ofBitVec_toBitVec (s : Sign) : Sign.ofBitVec s.toBitVec = s := by
  cases s <;> rfl

/-- **The bits of a double are made of its components.** -/
theorem packComponents_unpack (b : BitVec Format.binary64.numBits) :
    packComponents .binary64 (Sign.ofBitVec (unpackSign b)) (unpackExponent b) (unpackMantissa b)
      = b := by
  apply BitVec.eq_of_getLsbD_eq
  intro i hi
  have hi : i < 64 := hi
  rw [packComponents, toBitVec_ofBitVec, BitVec.getLsbD_append, BitVec.getLsbD_append]
  simp only [unpackSign, unpackExponent, unpackMantissa, BitVec.getLsbD_cast,
    BitVec.getLsbD_extractLsb]
  split
  · next hmantissa =>
    -- a bit of the digits
    have hmantissa : i < 52 := hmantissa
    simp [hmantissa]
  · next hmantissa =>
    have hmantissa : ¬ i < 52 := hmantissa
    split
    · next hexponent =>
      have hexponent : i - 52 < 11 := hexponent
      have hindex : 52 + (i - 52) = i := by omega
      rw [hindex]
      simp [hexponent]
    · next hexponent =>
      -- the bit of the sign
      have hexponent : ¬ i - 52 < 11 := hexponent
      have hindex : 52 + 11 + (i - 52 - 11) = i := by omega
      have hsign : i - 52 - 11 < 52 + 11 - (52 + 11) + 1 := by omega
      rw [hindex]
      simp [hsign]

theorem unpackSign_packComponents (s : Sign) (e : BitVec 11) (v : BitVec 52) :
    unpackSign (packComponents .binary64 s e v) = s.toBitVec := by
  change (s.toBitVec ++ e ++ v).extractLsb' 63 1 = s.toBitVec
  rw [BitVec.extractLsb'_append_eq_of_le (by decide),
    BitVec.extractLsb'_append_eq_of_le (by decide)]
  exact BitVec.extractLsb'_eq_self

/-! ### Packing and unpacking -/

/-- The first digit, which is not stored, in front of the others. -/
theorem toNat_append_one (v : BitVec 52) : (1#1 ++ v).toNat = 2 ^ 52 + v.toNat := by
  rw [BitVec.toNat_append, ← Nat.shiftLeft_add_eq_or_of_lt v.isLt]
  rfl

theorem log2_add_two_pow {n : Nat} (h : n < 2 ^ 52) : (2 ^ 52 + n).log2 = 52 :=
  (Nat.log2_eq_iff (by omega)).2 ⟨by omega, by omega⟩

/-- The exponent that is stored. -/
theorem biased_eq (q : Int) : q + Format.binary64.exponentBias
    + Format.binary64.mantissaBitsWithoutImplicit = q + 1075 := by
  have hbias : (Format.binary64.exponentBias : Int) = 1023 := rfl
  rw [hbias]
  norm_num
  omega

/-- What is unpacked with all of its digits. -/
theorem unpack_normal (s : Sign) {e : BitVec 11} (v : BitVec 52) (hzero : e ≠ 0#11)
    (hones : e ≠ -1#11) : UnpackedFloat.unpack .binary64 (packComponents .binary64 s e v)
      = .finite s (2 ^ 52 + v.toNat) (e.toNat - 1075) (by omega) := by
  rw [UnpackedFloat.unpack]
  simp only [unpackExponent_packComponents, unpackMantissa_packComponents,
    unpackSign_packComponents, ofBitVec_toBitVec]
  rw [if_neg hones, if_neg hzero]
  simp only [toNat_append_one]
  rfl

/-- What is unpacked with fewer digits. -/
theorem unpack_subnormal (s : Sign) {v : BitVec 52} (h : 0 < v.toNat) :
    UnpackedFloat.unpack .binary64 (packComponents .binary64 s 0#11 v)
      = .finite s v.toNat (-1074) h := by
  have hv : v ≠ 0#52 := by
    rintro rfl
    cases h
  rw [UnpackedFloat.unpack]
  simp only [unpackExponent_packComponents, unpackMantissa_packComponents,
    unpackSign_packComponents, ofBitVec_toBitVec]
  rw [if_neg (by decide), if_true, dif_neg hv]
  rfl

/-- What is packed with all of its digits. -/
theorem pack_normal (s : Sign) {m : Nat} (hm : 0 < m) {q : Int} (hlog : m.log2 = 52)
    (hlow : -1074 ≤ q) (hhigh : q ≤ 971) : UnpackedFloat.pack .binary64 (.finite s m q hm)
      = packComponents .binary64 s (BitVec.ofNat 11 (q + 1075).toNat) (BitVec.ofNat 52 m) := by
  have hfits : ¬ 2 ^ Format.binary64.exponentBits ≤ (q + 1075).toNat + 1 := by
    have hsize : 2 ^ Format.binary64.exponentBits = 2048 := rfl
    omega
  rw [UnpackedFloat.pack]
  dsimp only
  rw [biased_eq, if_neg hfits, if_pos (by rw [hlog]; rfl)]

/-- What is packed with fewer digits. -/
theorem pack_subnormal (s : Sign) {m : Nat} (hm : 0 < m) (hlog : m.log2 < 52) :
    UnpackedFloat.pack .binary64 (.finite s m (-1074) hm)
      = packComponents .binary64 s 0#11 (BitVec.ofNat 52 m) := by
  have hdigits : ¬ m.log2 + 1 = Format.binary64.mantissaBits := by
    have hbits : Format.binary64.mantissaBits = 53 := rfl
    omega
  rw [UnpackedFloat.pack]
  dsimp only
  rw [biased_eq, if_neg (by decide), if_neg hdigits]

/-- The digits behind the first one. -/
theorem toNat_ofNat_add {m : Nat} (hlow : 2 ^ 52 ≤ m) (hhigh : m < 2 ^ 53) :
    2 ^ 52 + (BitVec.ofNat 52 m).toNat = m := by
  rw [BitVec.toNat_ofNat]
  omega

/-- **What is packed with 53 digits is unpacked with the same ones.** -/
theorem unpack_pack (s : Sign) {m : Nat} (hm : 0 < m) {q : Int} (hlog : m.log2 = 52)
    (hlow : -1074 ≤ q) (hhigh : q ≤ 971) :
    (Float.Model.pack (.finite s m q hm)).unpack = .finite s m q hm := by
  obtain ⟨hle, hlt⟩ := (Nat.log2_eq_iff (Nat.ne_of_gt hm)).1 hlog
  have hexponent : (BitVec.ofNat 11 (q + 1075).toNat).toNat = (q + 1075).toNat := by
    rw [BitVec.toNat_ofNat]
    omega
  have hzero : BitVec.ofNat 11 (q + 1075).toNat ≠ 0#11 := by
    intro h
    have := congrArg BitVec.toNat h
    rw [hexponent] at this
    simp at this
    omega
  have hones : BitVec.ofNat 11 (q + 1075).toNat ≠ -1#11 := by
    intro h
    have := congrArg BitVec.toNat h
    rw [hexponent] at this
    simp at this
    omega
  rw [Float.Model.pack, Float.Model.unpack]
  dsimp only
  rw [pack_normal s hm hlog hlow hhigh, unpack_normal _ _ hzero hones]
  congr 1
  · exact toNat_ofNat_add hle hlt
  · rw [hexponent]
    omega

/-! ### The digits of a double -/

/-- The exponent of the double nearest to `m * 2 ^ q`. -/
def targetOf (m : Nat) (q : Int) : Int := Format.binary64.targetExponent (totalExponent m q)

theorem targetOf_eq (m : Nat) (q : Int) : targetOf m q = max (m.log2 + q - 52) (-1074) := by
  rw [targetOf, Format.targetExponent, totalExponent, Format.minExponent, Format.mantissaBits]
  norm_num
  omega

/-- What is packed as the double. -/
def IsPackedAs (x : Float) (u : UnpackedFloat) : Prop :=
  x.toModel.unpack = u ∧ Float.ofModel (.pack u) = x

theorem isPackedAs_of_bits {x : Float} {u : UnpackedFloat} (hunpack : x.toModel.unpack = u)
    (hpack : UnpackedFloat.pack .binary64 u = x.toModel.toBits.toBitVec) : IsPackedAs x u := by
  obtain ⟨⟨bits, hvalid⟩⟩ := x
  refine ⟨hunpack, congrArg Float.ofModel ?_⟩
  rw [Float.Model.pack, Float.Model.mk.injEq, hpack]

/-- **What a double is**: zero, or it has 53 digits, or fewer with the least power of two; or else
it is infinite or not a number.  Zeros and doubles with digits are packed as they are unpacked. -/
theorem unpack_cases (x : Float) : (∃ s, IsPackedAs x (.zero s)) ∨
    (∃ s m q hm, targetOf m q = q ∧ IsPackedAs x (.finite s m q hm)) ∨
      (∃ s, x.toModel.unpack = .infinity s) ∨ x.toModel.unpack = .notANumber := by
  obtain ⟨s, e, v, hbits⟩ :
      ∃ s e v, packComponents .binary64 s e v = x.toModel.toBits.toBitVec :=
    ⟨_, _, _, packComponents_unpack _⟩
  have hunpack : x.toModel.unpack
      = UnpackedFloat.unpack .binary64 (packComponents .binary64 s e v) := by
    rw [hbits]
    rfl
  by_cases hzero : e = 0#11
  · subst hzero
    by_cases hv : v.toNat = 0
    · -- no digits at all
      obtain rfl : v = 0#52 := BitVec.eq_of_toNat_eq hv
      refine Or.inl ⟨s, isPackedAs_of_bits ?_ hbits⟩
      rw [hunpack]
      cases s <;> rfl
    · rw [unpack_subnormal s (Nat.pos_of_ne_zero hv)] at hunpack
      have hlog : v.toNat.log2 < 52 := (Nat.log2_lt hv).2 v.isLt
      refine Or.inr (Or.inl ⟨_, _, _, _, ?_, isPackedAs_of_bits hunpack ?_⟩)
      · rw [targetOf_eq]
        omega
      · rw [pack_subnormal _ _ hlog, BitVec.ofNat_toNat, BitVec.setWidth_eq, hbits]
  · by_cases hones : e = -1#11
    · rw [hones, UnpackedFloat.unpack] at hunpack
      simp only [unpackExponent_packComponents, if_true] at hunpack
      split at hunpack
      · exact Or.inr (Or.inr (Or.inl ⟨_, hunpack⟩))
      · exact Or.inr (Or.inr (Or.inr hunpack))
    · rw [unpack_normal s v hzero hones] at hunpack
      have hlog := log2_add_two_pow v.isLt
      have hlow : e.toNat ≠ 0 := fun h => hzero (BitVec.eq_of_toNat_eq h)
      have hhigh : e.toNat ≠ 2047 := fun h => hones (BitVec.eq_of_toNat_eq h)
      have hsize : e.toNat < 2 ^ 11 := e.isLt
      have hdigits : v.toNat < 2 ^ 52 := v.isLt
      refine Or.inr (Or.inl ⟨_, _, _, _, ?_, isPackedAs_of_bits hunpack ?_⟩)
      · rw [targetOf_eq]
        omega
      · have hexponent : BitVec.ofNat 11 ((e.toNat : Int) - 1075 + 1075).toNat = e := by
          rw [Int.sub_add_cancel, Int.toNat_natCast, BitVec.ofNat_toNat, BitVec.setWidth_eq]
        have hmantissa : BitVec.ofNat 52 (2 ^ 52 + v.toNat) = v := by
          refine BitVec.eq_of_toNat_eq ?_
          rw [BitVec.toNat_ofNat]
          omega
        rw [pack_normal _ _ hlog (by omega) (by omega), hexponent, hmantissa, hbits]

end Scriptlet.Number
