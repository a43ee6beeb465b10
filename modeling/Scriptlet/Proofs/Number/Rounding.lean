/-
**Rounding depends on the value alone.**

A double is made of an exact number by dropping bits that do not fit.  The exact number is given as
a natural number times a power of two, in one of many ways; zeros at the end of the natural number
can be traded for the power of two.  What is made of it does not depend on that.  So a decimal
without a fraction is read as the double nearest to its value, however its digits and its power of
ten share the work.

Main definitions:

* `Scriptlet.Number.rounded` — the double nearest to `m * 2 ^ q`, unpacked;
* `Scriptlet.Number.nearest` — **the double nearest to a natural number**;
* `Scriptlet.Number.IsBinary` — a natural number that is a double.

Main results:

* `Scriptlet.Number.rounded_mul_two_pow` — **zeros at the end are traded for the power of two**;
* `Scriptlet.Number.mul_of_isBinary` — the product of two doubles is the double nearest to it;
* `Scriptlet.Decimal.toFloat_of_nonneg` — **a decimal without a fraction is the double nearest to
  its value**.
-/

import Mathlib.Tactic.Ring
import Scriptlet.Proofs.Number.Packing

set_option relaxedAutoImplicit false
set_option autoImplicit false

namespace Scriptlet.Number

open Float.Model Float.Model.UnpackedFloat

/-! ### Dropping bits -/

theorem shiftRight_add (em : ExtendedMantissa) (j k : Nat) : em >>> (j + k) = em >>> j >>> k := by
  induction k with
  | zero => rfl
  | succ k ih =>
      change ExtendedMantissa.shiftRightOne (em >>> (j + k)) = _
      rw [ih]
      rfl

/-- Dropping zeros leaves nothing behind. -/
theorem shiftRight_mul_two_pow (m k : Nat) :
    ExtendedMantissa.ofMantissaAndAccuracy (m * 2 ^ k) .exact >>> k
      = ExtendedMantissa.ofMantissaAndAccuracy m .exact := by
  induction k generalizing m with
  | zero => rw [Nat.pow_zero, Nat.mul_one]; rfl
  | succ k ih =>
      change ExtendedMantissa.shiftRightOne
        (ExtendedMantissa.ofMantissaAndAccuracy (m * 2 ^ (k + 1)) .exact >>> k) = _
      have hpow : m * 2 ^ (k + 1) = m * 2 * 2 ^ k := by ring
      rw [hpow, ih]
      simp [ExtendedMantissa.ofMantissaAndAccuracy, ExtendedMantissa.shiftRightOne]

theorem log2_mul_two_pow {m : Nat} (hm : 0 < m) (k : Nat) : (m * 2 ^ k).log2 = m.log2 + k := by
  rw [Nat.log2_eq_iff (Nat.ne_of_gt (Nat.mul_pos hm (Nat.two_pow_pos k)))]
  obtain ⟨hle, hlt⟩ := (Nat.log2_eq_iff (Nat.ne_of_gt hm)).1 (Eq.refl m.log2)
  constructor
  · rw [Nat.pow_add]
    exact Nat.mul_le_mul_right _ hle
  · rw [Nat.add_right_comm, Nat.pow_add]
    exact Nat.mul_lt_mul_of_pos_right hlt (Nat.two_pow_pos k)

theorem targetOf_mul_two_pow {m : Nat} (hm : 0 < m) (k : Nat) (q : Int) :
    targetOf (m * 2 ^ k) q = targetOf m (q + k) := by
  rw [targetOf_eq, targetOf_eq, log2_mul_two_pow hm]
  omega

/-- Zeros at the end are dropped first, if that much is dropped. -/
theorem roundWithAccuracy_mul_two_pow {m : Nat} (hm : 0 < m) (k : Nat) {q : Int}
    (hq : q + k ≤ targetOf m (q + k)) :
    roundWithAccuracy .binary64 .positive (m * 2 ^ k) q .exact
      = roundWithAccuracy .binary64 .positive m (q + k) .exact := by
  have hshift : shiftToTargetExponent .binary64 (m * 2 ^ k) q .exact
      = shiftToTargetExponent .binary64 m (q + k) .exact := by
    have htarget := targetOf_mul_two_pow hm k q
    rw [targetOf, targetOf] at htarget
    rw [targetOf] at hq
    rw [shiftToTargetExponent, shiftToTargetExponent, htarget, shiftToExponent, shiftToExponent]
    have hamount : (Format.binary64.targetExponent (totalExponent m (q + k)) - q).toNat
        = k + (Format.binary64.targetExponent (totalExponent m (q + k)) - (q + k)).toNat := by
      omega
    rw [hamount, shiftRight_add, shiftRight_mul_two_pow]
    congr 1
    push_cast
    ring
  rw [roundWithAccuracy, roundWithAccuracy, hshift]

/-! ### The nearest double -/

/-- The double nearest to `m * 2 ^ q`, unpacked. -/
def rounded (m : Nat) (q : Int) : UnpackedFloat := UnpackedFloat.round .binary64 .positive m q

/-- **The double nearest to a natural number.** -/
def nearest (n : Nat) : Float := .ofModel (.pack (rounded n 0))

theorem rounded_eq (m : Nat) (q : Int) :
    rounded m q = roundWithAccuracy .binary64 .positive (m * 2 ^ (q - targetOf m q).toNat)
      (q - (q - targetOf m q).toNat) .exact := by
  rw [rounded, UnpackedFloat.round, decreaseExponent, Nat.shiftLeft_eq]
  rfl

/-- If nothing has to be added at the end, nothing is. -/
theorem rounded_of_le {m : Nat} {q : Int} (h : q ≤ targetOf m q) :
    rounded m q = roundWithAccuracy .binary64 .positive m q .exact := by
  rw [rounded_eq, Int.toNat_of_nonpos (by omega), Nat.pow_zero, Nat.mul_one]
  simp

/-- **Zeros at the end are traded for the power of two.** -/
theorem rounded_mul_two_pow {m : Nat} (hm : 0 < m) (k : Nat) (q : Int) :
    rounded (m * 2 ^ k) q = rounded m (q + k) := by
  rw [rounded_eq, rounded_eq, targetOf_mul_two_pow hm]
  generalize htarget : targetOf m (q + k) = t
  rcases le_total t q with hle | hle
  · -- zeros are added on both sides
    have hamount : (q + k - t).toNat = k + (q - t).toNat := by omega
    rw [hamount, Nat.pow_add, Nat.mul_assoc]
    congr 1
    omega
  · -- on the left, what is too much is dropped
    rw [Int.toNat_of_nonpos (by omega : q - t ≤ 0), Nat.pow_zero, Nat.mul_one]
    obtain ⟨j, hj⟩ : ∃ j : Nat, (q + k - t).toNat + j = k := ⟨k - (q + k - t).toNat, by omega⟩
    have hsplit : m * 2 ^ k = m * 2 ^ (q + k - t).toNat * 2 ^ j := by
      rw [Nat.mul_assoc, ← Nat.pow_add, hj]
    have hpos : 0 < m * 2 ^ (q + k - t).toNat := Nat.mul_pos hm (Nat.two_pow_pos _)
    have hexponent : q - ((0 : Nat) : Int) + j = q + k - (q + k - t).toNat := by
      rw [← hj]
      push_cast
      omega
    rw [hsplit, roundWithAccuracy_mul_two_pow hpos, hexponent]
    rw [hexponent, targetOf_mul_two_pow hm]
    have hback : q + k - ((q + k - t).toNat : Int) + (q + k - t).toNat = q + k := by omega
    rw [hback, htarget]
    omega

/-- A double is the double nearest to itself. -/
theorem rounded_of_eq {m : Nat} (hm : 0 < m) {q : Int} (h : targetOf m q = q) :
    rounded m q = .finite .positive m q hm := by
  have hshift : shiftToTargetExponent .binary64 m q .exact = (⟨m, false, false⟩, q) := by
    rw [targetOf] at h
    rw [shiftToTargetExponent, h, shiftToExponent, Int.sub_self]
    simp [ExtendedMantissa.ofMantissaAndAccuracy]
    rfl
  have hrounded : (⟨m, false, false⟩ : ExtendedMantissa).roundedMantissa = m := rfl
  rw [rounded_of_le (Int.le_of_eq h.symm), roundWithAccuracy, hshift]
  dsimp only
  rw [hrounded, hshift]
  exact dif_neg (Nat.ne_of_gt hm)

/-! ### Natural numbers that are doubles -/

/-- **A natural number is a double**, with 53 digits and a power of two. -/
structure IsBinary (n m : Nat) (q : Int) : Prop where
  /-- There are 53 digits. -/
  log2_eq : m.log2 = 52
  /-- The last digit may stand behind the point. -/
  low : -52 ≤ q
  /-- The number is not too large. -/
  high : q ≤ 971
  /-- The digits and the power of two make the number. -/
  value : m * 2 ^ (q + 52).toNat = n * 2 ^ 52

namespace IsBinary

variable {n m : Nat} {q : Int}

theorem pos (h : IsBinary n m q) : 0 < m := by
  have hlog := h.log2_eq
  rcases Nat.eq_zero_or_pos m with rfl | hm
  · simp at hlog
  · exact hm

theorem value_pos (h : IsBinary n m q) : 0 < n := by
  have hvalue := h.value
  rcases Nat.eq_zero_or_pos n with rfl | hn
  · have := Nat.mul_pos h.pos (Nat.two_pow_pos (q + 52).toNat)
    omega
  · exact hn

theorem targetOf_eq (h : IsBinary n m q) : targetOf m q = q := by
  have hlog := h.log2_eq
  have hlow := h.low
  rw [Number.targetOf_eq]
  omega

/-- The double nearest to the number is the number. -/
theorem rounded_eq (h : IsBinary n m q) : rounded n 0 = .finite .positive m q h.pos := by
  have hlow := h.low
  have hexponent : (-52 : Int) + (q + 52).toNat = q := by omega
  have hzero : (-52 : Int) + (52 : Nat) = 0 := by norm_num
  calc rounded n 0 = rounded (n * 2 ^ 52) (-52) := by
        rw [rounded_mul_two_pow h.value_pos, hzero]
    _ = rounded (m * 2 ^ (q + 52).toNat) (-52) := by rw [h.value]
    _ = rounded m q := by rw [rounded_mul_two_pow h.pos, hexponent]
    _ = .finite .positive m q h.pos := rounded_of_eq h.pos h.targetOf_eq

theorem unpack_nearest (h : IsBinary n m q) :
    (nearest n).toModel.unpack = .finite .positive m q h.pos := by
  rw [nearest, h.rounded_eq]
  exact unpack_pack .positive h.pos h.log2_eq (by have := h.low; omega) h.high

/-- A number with a power of two is a double as the number is. -/
theorem mul_two_pow (h : IsBinary n m q) {k : Nat} (hk : q + k ≤ 971) :
    IsBinary (n * 2 ^ k) m (q + k) := by
  have hlow := h.low
  refine ⟨h.log2_eq, by omega, hk, ?_⟩
  have hexponent : (q + k + 52).toNat = (q + 52).toNat + k := by omega
  calc m * 2 ^ (q + k + 52).toNat = m * 2 ^ (q + 52).toNat * 2 ^ k := by
        rw [hexponent, Nat.pow_add, Nat.mul_assoc]
    _ = n * 2 ^ k * 2 ^ 52 := by rw [h.value, Nat.mul_right_comm]

end IsBinary

/-- A number with no more than 53 digits is a double. -/
theorem exists_isBinary {n : Nat} (hn : 0 < n) (h : n < 2 ^ 53) :
    ∃ m q, IsBinary n m q ∧ q ≤ 0 := by
  have hlog : n.log2 < 53 := (Nat.log2_lt (Nat.ne_of_gt hn)).2 h
  refine ⟨n * 2 ^ (52 - n.log2), n.log2 - 52, ⟨?_, by omega, by omega, ?_⟩, by omega⟩
  · rw [log2_mul_two_pow hn]
    omega
  · rw [Nat.mul_assoc, ← Nat.pow_add]
    congr 2
    omega

/-- **The product of two doubles is the double nearest to it.** -/
theorem mul_of_isBinary {a b m m' : Nat} {q q' : Int} (h : IsBinary a m q)
    (h' : IsBinary b m' q') : nearest a * nearest b = nearest (a * b) := by
  have hlow := h.low
  have hlow' := h'.low
  have hpos : 0 < m * m' := Nat.mul_pos h.pos h'.pos
  have htarget : q + q' ≤ targetOf (m * m') (q + q') := by
    have hle : 2 ^ 104 ≤ m * m' := by
      have hm := (Nat.le_log2 (Nat.ne_of_gt h.pos)).1 (Nat.le_of_eq h.log2_eq.symm)
      have hm' := (Nat.le_log2 (Nat.ne_of_gt h'.pos)).1 (Nat.le_of_eq h'.log2_eq.symm)
      calc 2 ^ 104 = 2 ^ 52 * 2 ^ 52 := by norm_num
        _ ≤ m * m' := Nat.mul_le_mul hm hm'
    have hlog := (Nat.le_log2 (Nat.ne_of_gt hpos)).2 hle
    rw [targetOf_eq]
    omega
  have hproduct : rounded (m * m') (q + q') = rounded (a * b) 0 := by
    have hexponent : (-104 : Int) + ((q + 52).toNat + (q' + 52).toNat : Nat) = q + q' := by
      push_cast
      omega
    have hzero : (-104 : Int) + (104 : Nat) = 0 := by norm_num
    have hvalue : m * m' * 2 ^ ((q + 52).toNat + (q' + 52).toNat) = a * b * 2 ^ 104 := by
      calc m * m' * 2 ^ ((q + 52).toNat + (q' + 52).toNat)
          = m * 2 ^ (q + 52).toNat * (m' * 2 ^ (q' + 52).toNat) := by ring
        _ = a * b * 2 ^ 104 := by rw [h.value, h'.value]; ring
    calc rounded (m * m') (q + q')
        = rounded (m * m' * 2 ^ ((q + 52).toNat + (q' + 52).toNat)) (-104) := by
          rw [rounded_mul_two_pow hpos, hexponent]
      _ = rounded (a * b) 0 := by
          rw [hvalue, rounded_mul_two_pow (Nat.mul_pos h.value_pos h'.value_pos), hzero]
  have hmul : nearest a * nearest b = .ofModel (.pack (UnpackedFloat.mul .binary64
      (nearest a).toModel.unpack (nearest b).toModel.unpack)) := rfl
  rw [hmul, h.unpack_nearest, h'.unpack_nearest, nearest, ← hproduct, rounded_of_le htarget]
  rfl

/-! ### Decimals without a fraction -/

/-- The double of a natural number that is small enough. -/
theorem toFloat_toUInt64 {n : Nat} (h : n < 2 ^ 53) : n.toUInt64.toFloat = nearest n := by
  have hsize : n.toUInt64.toNat = n := by
    rw [Nat.toUInt64, UInt64.toNat_ofNat']
    omega
  have hfloat : n.toUInt64.toFloat
      = .ofModel (.pack (normalize .binary64 n.toUInt64.toNat 0 .positive)) := rfl
  rw [hfloat, hsize, Float.Model.UnpackedFloat.normalize]
  rcases Nat.eq_zero_or_pos n with rfl | hn
  · rfl
  · have hcompare : compare (n : Int) 0 = .gt := Int.compare_eq_gt.2 (by omega)
    rw [hcompare]
    rfl

/-- The powers of ten that are doubles. -/
theorem powersOfTen_eq :
    ∀ e : Fin 23, Float.exactlyRepresentablePowersOfTen[e] = nearest (10 ^ e.val) := by
  decide +kernel

theorem exists_isBinary_powerOfTen {e : Nat} (he : e ≤ 22) : ∃ m q, IsBinary (10 ^ e) m q := by
  have hfive : 5 ^ e < 2 ^ 53 :=
    Nat.lt_of_le_of_lt (Nat.pow_le_pow_right (by decide) he) (by norm_num)
  obtain ⟨m, q, hbinary, hq⟩ := exists_isBinary (Nat.pow_pos (by decide)) hfive
  have hten : 10 ^ e = 5 ^ e * 2 ^ e := by rw [← Nat.mul_pow]
  exact ⟨m, q + e, hten ▸ hbinary.mul_two_pow (by omega)⟩

/-- A number that is small enough times a small power of ten. -/
theorem nearest_mul_powerOfTen {n e : Nat} (hn : n < 2 ^ 53) (he : e ≤ 22) :
    nearest n * nearest (10 ^ e) = nearest (n * 10 ^ e) := by
  obtain ⟨m', q', hpower⟩ := exists_isBinary_powerOfTen he
  rcases Nat.eq_zero_or_pos n with rfl | hpos
  · have hmul : nearest 0 * nearest (10 ^ e) = .ofModel (.pack (UnpackedFloat.mul .binary64
        (nearest 0).toModel.unpack (nearest (10 ^ e)).toModel.unpack)) := rfl
    have hzero : (nearest 0).toModel.unpack = .zero .positive := rfl
    rw [hmul, hpower.unpack_nearest, hzero, Nat.zero_mul]
    rfl
  · obtain ⟨m, q, hbinary, -⟩ := exists_isBinary hpos hn
    exact mul_of_isBinary hbinary hpower

/-- A number times a power of ten that is not too large, by exact arithmetic. -/
theorem ofScientific_eq {n e : Nat} (he : e ≤ 2048 ∨ n = 0) :
    Float.ofModel (Float.Model.ofScientific n e) = nearest (n * 10 ^ e) := by
  rw [Float.Model.ofScientific, UnpackedFloat.ofScientific]
  rcases Nat.eq_zero_or_pos n with rfl | hn
  · rw [dif_pos rfl, Nat.zero_mul]
    rfl
  · have he : e ≤ 2048 := he.resolve_right (Nat.ne_of_gt hn)
    have hlarge : ¬ (e : Int) > 2 ^ Format.binary64.exponentBits := by
      have hsize : (2 : Int) ^ Format.binary64.exponentBits = 2048 := rfl
      omega
    have hsmall : ¬ (e : Int) < -((2 ^ Format.binary64.exponentBits : Int) + n.log2) := by
      have hsize : (2 : Int) ^ Format.binary64.exponentBits = 2048 := rfl
      omega
    rw [dif_neg (Nat.ne_of_gt hn), if_neg hlarge, if_neg hsmall, if_pos (Int.natCast_nonneg e)]
    have hpos : 0 < n * 10 ^ e := Nat.mul_pos hn (Nat.pow_pos (by decide))
    have hvalue : n <<< Format.binary64.mantissaBits * 10 ^ (e : Int).toNat
        = n * 10 ^ e * 2 ^ 53 := by
      have hbits : Format.binary64.mantissaBits = 53 := rfl
      rw [hbits, Nat.shiftLeft_eq, Int.toNat_natCast]
      ring
    have hexponent : -(Format.binary64.mantissaBits : Int) + 0 = -53 := rfl
    have hzero : (-53 : Int) + (53 : Nat) = 0 := by norm_num
    have htarget : (-53 : Int) ≤ targetOf (n * 10 ^ e * 2 ^ 53) (-53) := by
      rw [targetOf_eq, log2_mul_two_pow hpos]
      omega
    rw [UnpackedFloat.mul]
    simp only [hvalue, hexponent]
    rw [nearest, ← hzero, ← rounded_mul_two_pow hpos, rounded_of_le htarget]
    rfl

end Scriptlet.Number

namespace Scriptlet.Decimal

open Scriptlet.Number

/-- **A decimal without a fraction is the double nearest to its value.** -/
theorem toFloat_of_nonneg {n e : Nat} (he : e ≤ 2048 ∨ n = 0) :
    (⟨n, e⟩ : Decimal).toFloat = nearest (n * 10 ^ e) := by
  have hnonneg : ¬ (e : Int) < 0 := by omega
  rw [toFloat, Float.ofScientific]
  simp only [hnonneg, decide_false, Int.natAbs_natCast]
  split
  · next hsmall =>
    have hpower := powersOfTen_eq ⟨e, by omega⟩
    have hproduct := nearest_mul_powerOfTen hsmall.1 hsmall.2
    rw [if_neg Bool.false_ne_true, toFloat_toUInt64 hsmall.1, ← hproduct]
    exact congrArg (nearest n * ·) hpower
  · rw [if_neg Bool.false_ne_true]
    exact ofScientific_eq he

/-- A decimal that is too large is infinite. -/
theorem toFloat_of_large {n e : Nat} (hn : n ≠ 0) (he : 2048 < e) :
    (⟨n, e⟩ : Decimal).toFloat = .ofModel (.pack (.infinity .positive)) := by
  have hnonneg : ¬ (e : Int) < 0 := by omega
  have hlarge : (e : Int) > 2 ^ Float.Model.Format.binary64.exponentBits := by
    have hsize : (2 : Int) ^ Float.Model.Format.binary64.exponentBits = 2048 := rfl
    omega
  rw [toFloat, Float.ofScientific]
  simp only [hnonneg, decide_false, Int.natAbs_natCast]
  rw [dif_neg (by omega), if_neg Bool.false_ne_true, Float.Model.ofScientific,
    Float.Model.UnpackedFloat.ofScientific, dif_neg hn]
  exact congrArg (Float.ofModel ∘ Float.Model.pack) (if_pos hlarge)

end Scriptlet.Decimal
