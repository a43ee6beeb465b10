/-
**Whole numbers are written with digits, and read again.**

The text of a whole number is the digits of a decimal that reads back, and zeros behind them.  The
search for that decimal never gets as far as a fraction: the number itself is a neighbour on the
grid of the whole numbers.

Main definitions:

* `Scriptlet.Number.IsWhole` — **the whole numbers**: finite, not negative, without a fraction.

Main results:

* `Scriptlet.Decimal.coarsest_of_reads_back` — the search ends on the first grid where it can;
* `Scriptlet.Decimal.shortest_of_isWhole` — the shortest decimal of a whole number is whole;
* `Scriptlet.Number.text_of_isWhole` — **the text of a whole number is digits, and reads as the
  number**.
-/

import Mathlib.Data.List.TakeWhile
import Scriptlet.Number.Notation
import Scriptlet.Proofs.Number.Rounding

set_option relaxedAutoImplicit false
set_option autoImplicit false

namespace Scriptlet

open Float.Model Float.Model.UnpackedFloat

/-! ### Whole numbers -/

namespace Number

/-- **The number is whole**: finite, not negative, also not negative zero, and without a
fraction. -/
def IsWhole (x : Float) : Prop :=
  match x.toModel.unpack with
  | .zero .positive => True
  | .finite .positive m q _ => 2 ^ (-q).toNat ∣ m
  | _ => False

instance : DecidablePred IsWhole := fun x => by
  unfold IsWhole
  split <;> infer_instance

/-- **A whole number is zero, or a natural number that is a double.** -/
theorem IsWhole.cases {x : Float} (h : IsWhole x) :
    (x.toModel.unpack = .zero .positive ∧ nearest 0 = x) ∨
      ∃ m q hm n, IsPackedAs x (.finite .positive m q hm) ∧
        m * 2 ^ q.toNat = n * 2 ^ (-q).toNat ∧ 0 < n ∧ nearest n = x := by
  rw [IsWhole] at h
  rcases unpack_cases x with ⟨s, hx⟩ | ⟨s, m, q, hm, htarget, hx⟩ | ⟨s, hx⟩ | hx
  · rw [hx.1] at h
    cases s with
    | positive => exact Or.inl hx
    | negative => exact absurd h id
  · rw [hx.1] at h
    cases s with
    | positive =>
        obtain ⟨n, hn⟩ : ∃ n, m * 2 ^ q.toNat = n * 2 ^ (-q).toNat :=
          ⟨_, (Nat.div_mul_cancel (Dvd.dvd.mul_right h _)).symm⟩
        have hpos : 0 < n := by
          refine Nat.pos_of_mul_pos_right (b := 2 ^ (-q).toNat) ?_
          rw [← hn]
          exact Nat.mul_pos hm (Nat.two_pow_pos _)
        have hrounded : rounded n 0 = rounded m q := by
          calc rounded n 0 = rounded (n * 2 ^ (-q).toNat) (-(-q).toNat) := by
                rw [rounded_mul_two_pow hpos]
                congr 1
                omega
            _ = rounded m q := by
                rw [← hn, rounded_mul_two_pow hm]
                congr 1
                omega
        refine Or.inr ⟨m, q, hm, n, hx, hn, hpos, ?_⟩
        rw [nearest, hrounded, rounded_of_eq hm htarget, hx.2]
    | negative => exact absurd h id
  · rw [hx] at h
    exact absurd h id
  · rw [hx] at h
    exact absurd h id

end Number

/-! ### The shortest decimal -/

namespace Decimal

variable {x : Float} {d : Decimal}

theorem exponent_of_mem_neighbours {k : Nat} {c : Decimal} (h : c ∈ d.neighbours k) :
    c.exponent = d.exponent + k := by
  rw [neighbours] at h
  split at h <;> simp only [List.mem_cons, List.not_mem_nil, or_false] at h <;>
    rcases h with rfl | rfl <;> rfl

/-- The search ends on no finer grid than it started from. -/
theorem exponent_le_coarsest (k : Nat) : d.exponent ≤ (coarsest x d k).exponent := by
  induction k with
  | zero => exact Int.le_refl _
  | succ k ih =>
      rw [coarsest]
      split
      · next c hc =>
        rw [exponent_of_mem_neighbours (List.mem_of_find?_eq_some hc)]
        omega
      · exact ih

/-- **The search ends on the first grid where it can.** -/
theorem coarsest_of_reads_back {j : Nat} {c : Decimal} (hc : c ∈ d.neighbours (j + 1))
    (hreads : readsBackAs x c = true) {k : Nat} (hk : j + 1 ≤ k) :
    readsBackAs x (coarsest x d k) = true ∧
      d.exponent + (j + 1 : Nat) ≤ (coarsest x d k).exponent := by
  induction k with
  | zero => exact absurd hk (Nat.not_succ_le_zero j)
  | succ k ih =>
      rw [coarsest]
      split
      · next c' hc' =>
        rw [exponent_of_mem_neighbours (List.mem_of_find?_eq_some hc')]
        exact ⟨List.find?_some hc', by omega⟩
      · next hnone =>
        refine ih (Nat.le_of_lt_succ (Nat.lt_of_le_of_ne hk fun hsame => ?_))
        obtain rfl : j = k := Nat.succ.inj hsame
        exact absurd hreads (List.find?_eq_none.1 hnone c hc)

theorem readsBackAs_iff {c : Decimal} : readsBackAs x c = true ↔ c.toFloat = x := by
  rw [readsBackAs, beq_iff_eq]
  constructor
  · intro h
    obtain ⟨⟨bits, hvalid⟩⟩ := x
    generalize c.toFloat = y at h
    obtain ⟨⟨bits', hvalid'⟩⟩ := y
    obtain rfl : bits' = bits := h
    rfl
  · intro h
    rw [h]

/-- The exact decimal of a whole number has zeros behind the point only. -/
theorem ofBinary_eq {m n : Nat} {q : Int} (h : m * 2 ^ q.toNat = n * 2 ^ (-q).toNat) :
    ofBinary m q = ⟨n * 10 ^ (-q).toNat, -(-q).toNat⟩ := by
  rw [ofBinary]
  split
  · next hq =>
    have hzero : (-q).toNat = 0 := by omega
    rw [hzero, Nat.pow_zero, Nat.mul_one] at h
    rw [hzero, Nat.pow_zero, Nat.mul_one, ← h]
    rfl
  · next hq =>
    have hzero : q.toNat = 0 := by omega
    have hexponent : -((-q).toNat : Int) = q := by omega
    rw [hzero, Nat.pow_zero, Nat.mul_one] at h
    rw [hexponent, h, Nat.mul_assoc]
    congr 2
    exact (Nat.mul_pow 2 5 _).symm

/-- A number is a neighbour of itself on the grid of the whole numbers. -/
theorem whole_mem_neighbours (n k : Nat) :
    (⟨n, (0 : Nat)⟩ : Decimal) ∈ neighbours ⟨n * 10 ^ k, -(k : Nat)⟩ k := by
  have hunit : 0 < Nat.pow 10 k := Nat.pow_pos (by decide)
  have hmod : n * 10 ^ k % Nat.pow 10 k = 0 := Nat.mul_mod_left _ _
  have hdiv : n * 10 ^ k / Nat.pow 10 k = n := Nat.mul_div_cancel _ hunit
  have hexponent : -(k : Int) + k = (0 : Nat) := by omega
  rw [neighbours]
  dsimp only
  rw [hmod, hdiv, hexponent, if_pos (by omega)]
  exact List.mem_cons_self

/-- What has zeros at the end has more digits than these. -/
theorem le_length_toDigits {n : Nat} (hn : 0 < n) (k : Nat) :
    k ≤ (Nat.toDigits 10 (n * 10 ^ k)).length := by
  rcases Nat.eq_zero_or_pos k with rfl | hk
  · exact Nat.zero_le _
  · by_contra hshort
    have hlt := (Nat.length_toDigits_le_iff (by decide) hk).1 (Nat.le_of_lt (Nat.not_le.1 hshort))
    exact absurd hlt (Nat.not_lt.2 (Nat.le_mul_of_pos_left _ hn))

/-- **The shortest decimal of a whole number is whole**, and reads back. -/
theorem shortest_of_isWhole {m n : Nat} {q : Int} (h : m * 2 ^ q.toNat = n * 2 ^ (-q).toNat)
    (hn : 0 < n) (hx : Number.nearest n = x) :
    ∃ digits zeros : Nat, shortest x m q = ⟨digits, zeros⟩ ∧
      (⟨digits, zeros⟩ : Decimal).toFloat = x := by
  have hwhole : (⟨n, (0 : Nat)⟩ : Decimal).toFloat = x := by
    rw [toFloat_of_nonneg (Or.inl (Nat.zero_le _)), Nat.pow_zero, Nat.mul_one, hx]
  suffices hboth : readsBackAs x (shortest x m q) = true ∧ 0 ≤ (shortest x m q).exponent by
    obtain ⟨hreads, hexponent⟩ := hboth
    obtain ⟨zeros, hzeros⟩ := Int.eq_ofNat_of_zero_le hexponent
    have hsame : shortest x m q = ⟨(shortest x m q).digits, zeros⟩ := by
      rw [← hzeros]
    exact ⟨_, _, hsame, hsame ▸ readsBackAs_iff.1 hreads⟩
  rw [shortest, ofBinary_eq h]
  cases hj : (-q).toNat with
  | zero =>
      -- the search starts from the number itself
      have hexact : (⟨n * 10 ^ 0, -(0 : Nat)⟩ : Decimal) = ⟨n, (0 : Nat)⟩ := by simp
      rw [hexact]
      refine ⟨?_, exponent_le_coarsest _⟩
      rcases coarsest_reads_back x ⟨n, (0 : Nat)⟩ (Nat.toDigits 10 n).length with hreads | hsame
      · exact hreads
      · rw [hsame, readsBackAs_iff, hwhole]
  | succ j =>
      -- the number is a neighbour of the exact decimal, on the grid of the whole numbers
      obtain ⟨hreads, hexponent⟩ := coarsest_of_reads_back (whole_mem_neighbours n (j + 1))
        (readsBackAs_iff.2 hwhole) (le_length_toDigits hn (j + 1))
      refine ⟨hreads, Int.le_trans ?_ hexponent⟩
      dsimp only
      omega

end Decimal

/-! ### Texts -/

namespace Number

theorem toLower_of_isDigit {c : Char} (h : Decimal.isDigit c = true) : c.toLower = c := by
  have hhigh : c.val ≤ '9'.val := by
    rw [Decimal.isDigit, Bool.and_eq_true, decide_eq_true_eq, decide_eq_true_eq] at h
    exact h.2
  rw [Char.toLower, dif_neg]
  rintro ⟨hlow, -⟩
  exact absurd (UInt32.le_trans hlow hhigh) (by decide)

/-- What has a digit in it is no name. -/
theorem readMagnitude_of_isDigit {cs : List Char} (h : ∃ c ∈ cs, Decimal.isDigit c = true) :
    readMagnitude cs = (Decimal.read cs).map Decimal.toFloat := by
  obtain ⟨c, hc, hdigit⟩ := h
  have hmem : c ∈ (String.ofList (cs.map Char.toLower)).toList := by
    rw [String.toList_ofList]
    exact List.mem_map.2 ⟨c, hc, toLower_of_isDigit hdigit⟩
  have hname : ∀ {name : String}, name.toList.any Decimal.isDigit = false →
      String.ofList (cs.map Char.toLower) ≠ name := by
    rintro _ hnone rfl
    exact absurd hdigit (List.any_eq_false.1 hnone c hmem)
  rw [readMagnitude, if_neg, if_neg (hname (by decide))]
  exact not_or.2 ⟨hname (by decide), hname (by decide)⟩

/-- A row of digits is a decimal without a fraction. -/
theorem decimal_read_digits {cs : List Char} (hne : cs ≠ [])
    (h : ∀ c ∈ cs, Decimal.isDigit c = true) :
    Decimal.read cs = some ⟨Decimal.valueOf cs, (0 : Nat)⟩ := by
  have htake : cs.takeWhile Decimal.isDigit = cs := List.takeWhile_eq_self_iff.2 h
  have hdrop : cs.dropWhile Decimal.isDigit = [] := List.dropWhile_eq_nil_iff.2 h
  rw [Decimal.read, htake, hdrop]
  simp [hne, Decimal.readExponent]

/-- **A row of digits is read as its value.** -/
theorem read_digits {cs : List Char} (hne : cs ≠ [])
    (h : ∀ c ∈ cs, Decimal.isDigit c = true) :
    read (String.ofList cs) = some (nearest (Decimal.valueOf cs)) := by
  have hmagnitude : readMagnitude cs = some (nearest (Decimal.valueOf cs)) := by
    obtain ⟨c, hc⟩ := List.exists_mem_of_ne_nil cs hne
    rw [readMagnitude_of_isDigit ⟨c, hc, h c hc⟩, decimal_read_digits hne h, Option.map_some,
      Decimal.toFloat_of_nonneg (Or.inl (Nat.zero_le _)), Nat.pow_zero, Nat.mul_one]
  rw [read, String.toList_ofList]
  split
  · exact absurd (h '-' List.mem_cons_self) (by decide)
  · exact absurd (h '+' List.mem_cons_self) (by decide)
  · exact hmagnitude

theorem isDigit_of_mem_toDigits {n : Nat} {c : Char} (h : c ∈ Nat.toDigits 10 n) :
    Decimal.isDigit c = true := by
  have hdigit := Nat.isDigit_of_mem_toDigits (by decide) (by decide) h
  exact hdigit

/-- The digits of a number, and zeros behind them. -/
def scaledDigits (n zeros : Nat) : List Char := Nat.toDigits 10 n ++ List.replicate zeros '0'

theorem isDigit_of_mem_scaledDigits {n zeros : Nat} {c : Char} (h : c ∈ scaledDigits n zeros) :
    Decimal.isDigit c = true := by
  rcases List.mem_append.1 h with h | h
  · exact isDigit_of_mem_toDigits h
  · rw [(List.mem_replicate.1 h).2]
    decide

theorem valueOf_scaledDigits (n zeros : Nat) :
    Decimal.valueOf (scaledDigits n zeros) = n * 10 ^ zeros := by
  have hvalue : Decimal.valueOf (scaledDigits n zeros)
      = Nat.ofDigitChars 10 (Nat.toDigits 10 n ++ List.replicate zeros '0') 0 := rfl
  rw [hvalue, Nat.ofDigitChars_append, Nat.ofDigitChars_ten_toDigits,
    Nat.ofDigitChars_replicate_zero, Nat.mul_comm]

/-- **The text of a whole number** is the digits of its shortest decimal, and zeros. -/
theorem exists_text_eq {x : Float} (h : IsWhole x) :
    ∃ n zeros, text x = String.ofList (scaledDigits n zeros) ∧ nearest (n * 10 ^ zeros) = x := by
  rw [text, write]
  rcases h.cases with ⟨hzero, hx⟩ | ⟨m, q, hm, n, hpacked, hvalue, hn, hx⟩
  · refine ⟨0, 0, ?_, hx⟩
    rw [hzero]
    rfl
  · obtain ⟨digits, zeros, hshortest, hreads⟩ := Decimal.shortest_of_isWhole hvalue hn hx
    have habs : x.abs = x := by
      have hmodel : x.abs = .ofModel (.pack x.toModel.unpack.abs) := rfl
      rw [hmodel, hpacked.1]
      exact hpacked.2
    refine ⟨digits, zeros, ?_, ?_⟩
    · rw [hpacked.1]
      dsimp only
      rw [habs, hshortest, Decimal.positional, if_pos (Int.natCast_nonneg zeros)]
      rfl
    · by_cases hzeros : zeros ≤ 2048 ∨ digits = 0
      · rw [← Decimal.toFloat_of_nonneg hzeros, hreads]
      · -- a decimal that is too large is infinite, and so does not read back
        have hlarge := Decimal.toFloat_of_large (n := digits) (e := zeros) (by omega) (by omega)
        rw [hreads] at hlarge
        have hunpack := hpacked.1
        rw [hlarge] at hunpack
        cases hunpack

/-- **The text of a whole number is digits, and reads as the number.** -/
theorem text_of_isWhole {x : Float} (h : IsWhole x) : text x ≠ "" ∧
    (∀ c ∈ (text x).toList, Decimal.isDigit c = true) ∧ read (text x) = some x := by
  obtain ⟨n, zeros, htext, hx⟩ := exists_text_eq h
  have hne : scaledDigits n zeros ≠ [] := by simp [scaledDigits]
  rw [htext, Ne, ← String.toList_eq_nil_iff, String.toList_ofList]
  refine ⟨hne, fun c hc => isDigit_of_mem_scaledDigits hc, ?_⟩
  rw [read_digits hne fun c hc => isDigit_of_mem_scaledDigits hc, valueOf_scaledDigits, hx]

end Number

end Scriptlet
