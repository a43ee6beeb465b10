/-
**The remainder of a division of doubles.**

The remainder of `x` by `y` is exact: both magnitudes are whole multiples of one power of two, the
remainder of the two multiples is again such a multiple, and it is a double.  The sign is that of
`x`, also where the remainder is zero.

Main definitions:

* `Scriptlet.Number.remainderMagnitude` — the remainder of two positive doubles;
* `Scriptlet.Number.remainder` — **the remainder of two doubles**.
-/

import Scriptlet.Number.Decimal

set_option relaxedAutoImplicit false
set_option autoImplicit false

namespace Scriptlet.Number

open Float.Model

/-- The remainder of `m * 2 ^ q` by `n * 2 ^ r`, computed on the smaller of the two powers of
two. -/
def remainderMagnitude (m : Nat) (q : Int) (n : Nat) (r : Int) : Float :=
  let unit := min q r
  let rest := m * Nat.pow 2 (q - unit).toNat % (n * Nat.pow 2 (r - unit).toNat)
  (Decimal.ofBinary rest unit).toFloat

/-- **The remainder of two doubles**, exact and with the sign of the first.  It is not a number
when the first is infinite, the second is zero, or one of them is not a number; an infinite second
one leaves the first as it is. -/
def remainder (x y : Float) : Float :=
  match x.toModel.unpack, y.toModel.unpack with
  | .finite s m q _, .finite _ n r _ =>
      let magnitude := remainderMagnitude m q n r
      match s with
      | .positive => magnitude
      | .negative => -magnitude
  | .finite .., .infinity _ => x
  | .zero _, .finite .. => x
  | .zero _, .infinity _ => x
  | _, _ => 0.0 / 0.0

end Scriptlet.Number
