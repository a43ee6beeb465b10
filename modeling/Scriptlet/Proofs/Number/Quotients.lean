/-
**The shortest decimal reads back.**

A decimal with a fraction is read by a division: its digits are divided by a power of ten.  The
exact decimal of a double is such a quotient.  It is a double, namely that one, and a quotient that
is a double is not rounded; so the exact decimal reads back, and with it the shortest one does.

Main results:

* `Scriptlet.Number.div_eq` — **a quotient that is a double is not rounded**;
* `Scriptlet.Decimal.toFloat_ofBinary` — the exact decimal of a double reads back;
* `Scriptlet.Decimal.toFloat_shortest` — **the shortest decimal of a double reads back**.
-/

import Scriptlet.Proofs.Number.Whole

set_option relaxedAutoImplicit false
set_option autoImplicit false

namespace Scriptlet.Number

open Float.Model Float.Model.UnpackedFloat

/-! ### Quotients -/

/-- A product has no more digits than its factors together. -/
theorem log2_mul_le {a b : Nat} (ha : 0 < a) (hb : 0 < b) :
    (a * b).log2 ≤ a.log2 + b.log2 + 1 := by
  obtain ⟨-, halt⟩ := (Nat.log2_eq_iff (Nat.ne_of_gt ha)).1 (Eq.refl a.log2)
  obtain ⟨-, hblt⟩ := (Nat.log2_eq_iff (Nat.ne_of_gt hb)).1 (Eq.refl b.log2)
  refine Nat.le_of_lt_succ ((Nat.log2_lt (Nat.ne_of_gt (Nat.mul_pos ha hb))).2 ?_)
  calc a * b < 2 ^ (a.log2 + 1) * 2 ^ (b.log2 + 1) := Nat.mul_lt_mul'' halt hblt
    _ = 2 ^ (a.log2 + b.log2 + 1 + 1) := by ring

/-- What is divided by something that goes into it has no remainder. -/
theorem divCore_eq {m₁ m₂ m k : Nat} {e₁ e₂ t : Int} (hm₂ : 0 < m₂)
    (ht : t = min (e₁ - e₂)
      (Format.binary64.targetExponent (totalExponent m₁ e₁ - totalExponent m₂ e₂)))
    (h : m₁ * 2 ^ (e₁ - e₂ - t).toNat = m * 2 ^ k * m₂) :
    divCore .binary64 m₁ e₁ m₂ e₂ = (m * 2 ^ k, t, .exact) := by
  rw [divCore, ← ht, Nat.shiftLeft_eq, h, Nat.mul_div_cancel _ hm₂, Nat.mul_mod_left]
  rfl

/-- **A quotient that is a double is not rounded.**  The two numbers are given by their digits and
powers of two, and so is the double that is their quotient. -/
theorem div_eq {m₁ m₂ m i j : Nat} {e₁ e₂ q : Int} (hm₁ : 0 < m₁) (hm₂ : 0 < m₂) (hm : 0 < m)
    (htarget : targetOf m q = q) (hvalue : m₁ * 2 ^ i = m * m₂ * 2 ^ j)
    (hexponent : e₁ - e₂ + j = q + i) :
    UnpackedFloat.div .binary64 (.finite .positive m₁ e₁ hm₁) (.finite .positive m₂ e₂ hm₂)
      = .finite .positive m q hm := by
  obtain ⟨t, ht⟩ : ∃ t, t = min (e₁ - e₂)
      (Format.binary64.targetExponent (totalExponent m₁ e₁ - totalExponent m₂ e₂)) := ⟨_, rfl⟩
  -- the division goes at least as far as the quotient has digits
  have hfar : t ≤ q := by
    have hlow : -1074 ≤ q ∧ (m.log2 : Int) ≤ 52 := by
      rw [targetOf_eq] at htarget
      omega
    have hlog : m₁.log2 + i = (m * m₂).log2 + j := by
      rw [← log2_mul_two_pow hm₁, hvalue, log2_mul_two_pow (Nat.mul_pos hm hm₂)]
    have hproduct := log2_mul_le hm hm₂
    rw [ht, Format.targetExponent, totalExponent, totalExponent, Format.minExponent,
      Format.mantissaBits]
    norm_num
    omega
  obtain ⟨k, hk⟩ : ∃ k : Nat, t + k = q := ⟨(q - t).toNat, by omega⟩
  have hexact : m₁ * 2 ^ (e₁ - e₂ - t).toNat = m * 2 ^ k * m₂ := by
    have hpowers : j + (e₁ - e₂ - t).toNat = k + i := by omega
    refine Nat.eq_of_mul_eq_mul_right (Nat.two_pow_pos i) ?_
    calc m₁ * 2 ^ (e₁ - e₂ - t).toNat * 2 ^ i
        = m₁ * 2 ^ i * 2 ^ (e₁ - e₂ - t).toNat := by ring
      _ = m * m₂ * 2 ^ (j + (e₁ - e₂ - t).toNat) := by rw [hvalue]; ring
      _ = m * 2 ^ k * m₂ * 2 ^ i := by rw [hpowers]; ring
  have hle : t + k ≤ targetOf m (t + k) := by rw [hk, htarget]
  calc UnpackedFloat.div .binary64 (.finite .positive m₁ e₁ hm₁) (.finite .positive m₂ e₂ hm₂)
      = roundWithAccuracy .binary64 .positive (m * 2 ^ k) t .exact := by
        rw [UnpackedFloat.div, divCore_eq hm₂ ht hexact]
        rfl
    _ = roundWithAccuracy .binary64 .positive m q .exact := by
        rw [roundWithAccuracy_mul_two_pow hm k hle, hk]
    _ = .finite .positive m q hm := by
        rw [← rounded_of_le (Int.le_of_eq htarget.symm), rounded_of_eq hm htarget]

/-- The quotient of two natural numbers that are doubles, if it is a double. -/
theorem nearest_div {a b k m' m'' m : Nat} {q' q'' q : Int} (ha : IsBinary a m' q')
    (hb : IsBinary b m'' q'') (hm : 0 < m) (htarget : targetOf m q = q) (hq : q = -(k : Int))
    (hvalue : a * 2 ^ k = m * b) :
    nearest a / nearest b = .ofModel (.pack (.finite .positive m q hm)) := by
  have hlow := ha.low
  have hlow' := hb.low
  have hdiv : nearest a / nearest b = .ofModel (.pack (UnpackedFloat.div .binary64
      (nearest a).toModel.unpack (nearest b).toModel.unpack)) := rfl
  have hdigits : m' * 2 ^ ((q' + 52).toNat + k) = m * m'' * 2 ^ (q'' + 52).toNat := by
    calc m' * 2 ^ ((q' + 52).toNat + k) = m' * 2 ^ (q' + 52).toNat * 2 ^ k := by ring
      _ = a * 2 ^ k * 2 ^ 52 := by rw [ha.value]; ring
      _ = m * (b * 2 ^ 52) := by rw [hvalue]; ring
      _ = m * m'' * 2 ^ (q'' + 52).toNat := by rw [← hb.value]; ring
  rw [hdiv, ha.unpack_nearest, hb.unpack_nearest,
    div_eq ha.pos hb.pos hm htarget hdigits (by omega)]

/-- A number over a power of ten, by exact arithmetic. -/
theorem ofScientific_neg_eq {n k m : Nat} {q : Int} (hn : 0 < n) (hm : 0 < m)
    (htarget : targetOf m q = q) (hk : 0 < k) (hq : q = -(k : Int))
    (hvalue : n * 2 ^ k = m * 10 ^ k) :
    Float.ofModel (Float.Model.ofScientific n (-(k : Int)))
      = .ofModel (.pack (.finite .positive m q hm)) := by
  have hlow : -1074 ≤ q := by
    rw [targetOf_eq] at htarget
    omega
  have hsize : (2 : Int) ^ Format.binary64.exponentBits = 2048 := rfl
  have hlarge : ¬ -(k : Int) > 2 ^ Format.binary64.exponentBits := by omega
  have hsmall : ¬ -(k : Int) < -((2 ^ Format.binary64.exponentBits : Int) + n.log2) := by omega
  have hneg : ¬ 0 ≤ -(k : Int) := by omega
  have hpower : (-(-(k : Int))).toNat = k := by omega
  rw [Float.Model.ofScientific, UnpackedFloat.ofScientific, dif_neg (Nat.ne_of_gt hn),
    if_neg hlarge, if_neg hsmall, if_neg hneg]
  have hdigits : n * 2 ^ k = m * 10 ^ (-(-(k : Int))).toNat * 2 ^ 0 := by
    rw [hpower, hvalue, Nat.pow_zero, Nat.mul_one]
  rw [div_eq hn (Nat.pow_pos (by decide)) hm htarget hdigits (by omega)]

end Scriptlet.Number

namespace Scriptlet.Decimal

open Float.Model Float.Model.UnpackedFloat Scriptlet.Number

variable {x : Float} {m : Nat} {q : Int} {hm : 0 < m}

/-! ### Decimals of doubles -/

/-- A decimal with a fraction, if its value is a double. -/
theorem toFloat_of_neg {n k : Nat} (hk : 0 < k) (hn : 0 < n) (htarget : targetOf m q = q)
    (hq : q = -(k : Int)) (hvalue : n * 2 ^ k = m * 10 ^ k) :
    (⟨n, -(k : Int)⟩ : Decimal).toFloat = .ofModel (.pack (.finite .positive m q hm)) := by
  have hneg : -(k : Int) < 0 := by omega
  rw [toFloat, Float.ofScientific]
  simp only [hneg, decide_true, Int.natAbs_neg, Int.natAbs_natCast]
  split
  · next hsmall =>
    -- digits and power of ten are doubles, and are divided
    obtain ⟨m', q', hdigits, -⟩ := exists_isBinary hn hsmall.1
    obtain ⟨m'', q'', hpower⟩ := exists_isBinary_powerOfTen hsmall.2
    have hten := powersOfTen_eq ⟨k, by omega⟩
    have hdiv := nearest_div hdigits hpower hm htarget hq hvalue
    rw [if_pos trivial, toFloat_toUInt64 hsmall.1, ← hdiv]
    exact congrArg (nearest n / ·) hten
  · rw [if_pos trivial, Int.negOfNat_eq]
    exact ofScientific_neg_eq hn hm htarget hk hq hvalue

/-- **The exact decimal of a double reads back.** -/
theorem toFloat_ofBinary (hx : IsPackedAs x (.finite .positive m q hm))
    (htarget : targetOf m q = q) : (ofBinary m q).toFloat = x := by
  rw [ofBinary]
  split
  · next hq =>
    have hrounded : rounded (m * 2 ^ q.toNat) 0 = .finite .positive m q hm := by
      rw [rounded_mul_two_pow hm, Int.zero_add, Int.toNat_of_nonneg hq, rounded_of_eq hm htarget]
    have hnearest := toFloat_of_nonneg (n := m * 2 ^ q.toNat) (e := 0) (Or.inl (Nat.zero_le _))
    rw [Nat.pow_zero, Nat.mul_one, nearest, hrounded, hx.2] at hnearest
    exact hnearest
  · next hq =>
    obtain ⟨k, rfl⟩ : ∃ k : Nat, q = -(k : Int) := ⟨(-q).toNat, by omega⟩
    have hpower : (-(-(k : Int))).toNat = k := by omega
    have hvalue : m * 5 ^ k * 2 ^ k = m * 10 ^ k := by rw [Nat.mul_assoc, ← Nat.mul_pow]
    have hpos : 0 < m * 5 ^ k := Nat.mul_pos hm (Nat.pow_pos (by decide))
    have hread : (⟨m * 5 ^ k, -(k : Int)⟩ : Decimal).toFloat
        = .ofModel (.pack (.finite .positive m (-(k : Int)) hm)) :=
      toFloat_of_neg (by omega) hpos htarget rfl hvalue
    rw [hpower]
    exact hread.trans hx.2

/-- **The shortest decimal of a double reads back.** -/
theorem toFloat_shortest (hx : IsPackedAs x (.finite .positive m q hm))
    (htarget : targetOf m q = q) : (shortest x m q).toFloat = x := by
  have hexact := toFloat_ofBinary hx htarget
  rcases coarsest_reads_back x (ofBinary m q) (Nat.toDigits 10 (ofBinary m q).digits).length with
    hreads | hsame
  · exact readsBackAs_iff.1 hreads
  · exact (congrArg toFloat hsame).trans hexact

end Scriptlet.Decimal
