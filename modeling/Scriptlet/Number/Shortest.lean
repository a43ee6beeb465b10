/-
**The shortest decimal that reads back as a given double.**

Between two neighbouring doubles there are infinitely many decimals, and a number is written as
the shortest of those that read back as it.  The search starts from the exact decimal value and
walks over ever finer grids, multiples of a power of ten: on the first grid where one of the two
neighbours of the value reads back as the double, the nearer such neighbour is taken.

Main definitions:

* `Scriptlet.Decimal.neighbours` — the two grid points around a decimal, the nearer one first;
* `Scriptlet.Decimal.coarsest` — the search over the grids;
* `Scriptlet.Decimal.shortest` — **the decimal a positive double is written as**.

Main results:

* `Scriptlet.Decimal.coarsest_reads_back` — what the search returns reads back as the double it
  was started for, or is the exact decimal it was started from.
-/

import Scriptlet.Number.Decimal

set_option relaxedAutoImplicit false
set_option autoImplicit false

namespace Scriptlet.Decimal

/-! ### Grids of powers of ten -/

/-- The multiples of `10 ^ (d.exponent + k)` just below and just above `d`, the nearer one first;
of two equally near the upper one. -/
def neighbours (d : Decimal) (k : Nat) : List Decimal :=
  let unit := Nat.pow 10 k
  let below : Decimal := ⟨d.digits / unit, d.exponent + k⟩
  let above : Decimal := ⟨d.digits / unit + 1, d.exponent + k⟩
  if 2 * (d.digits % unit) < unit then [below, above] else [above, below]

/-- Whether a decimal reads back as the double `x`. -/
def readsBackAs (x : Float) (d : Decimal) : Bool := d.toFloat.toBits == x.toBits

/-! ### The search -/

/-- The neighbour of `d` on the coarsest grid, from `10 ^ k` downwards, that reads back as `x`;
`d` itself when there is none. -/
def coarsest (x : Float) (d : Decimal) : Nat → Decimal
  | 0 => d
  | k + 1 =>
      match (d.neighbours (k + 1)).find? (readsBackAs x) with
      | some c => c
      | none => coarsest x d k

/-- The search ends with a decimal that reads back as the double, or with the decimal it was
started from. -/
theorem coarsest_reads_back (x : Float) (d : Decimal) (k : Nat) :
    readsBackAs x (coarsest x d k) = true ∨ coarsest x d k = d := by
  induction k with
  | zero => exact Or.inr rfl
  | succ k ih =>
      rw [coarsest]
      split
      · next c h => exact Or.inl (List.find?_some h)
      · exact ih

/-- **The shortest decimal that reads back as the positive double** `m * 2 ^ q`, and of those the
nearest.  The coarsest grid that can matter has one point more than zero below the value. -/
def shortest (x : Float) (m : Nat) (q : Int) : Decimal :=
  let exact := ofBinary m q
  coarsest x exact (Nat.toDigits 10 exact.digits).length

end Scriptlet.Decimal
