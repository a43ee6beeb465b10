/-
**How numbers are written.**

A number has two texts.  The plain one is what scripts print and what names the property that a
number addresses: positional notation at any magnitude, without a point where there is no
fraction.  The detailed one is used in outlines of trees and values: it always shows a point, and
it changes to a power of ten outside a middle range of magnitudes.

Main definitions:

* `Scriptlet.Decimal.positional`, `Scriptlet.Decimal.scientific` — the two layouts of a decimal;
* `Scriptlet.Number.text` — **the plain text of a number**;
* `Scriptlet.Number.detail` — the detailed text.
-/

import Scriptlet.Number.Shortest

set_option relaxedAutoImplicit false
set_option autoImplicit false

namespace Scriptlet

namespace Decimal

/-! ### Layouts of a decimal -/

/-- The digits of a decimal with nothing before, between or after them. -/
def digitRow (d : Decimal) : List Char := Nat.toDigits 10 d.digits

/-- Positional notation: zeros fill the places up to the point, and the point stands only before
a fraction, never first. -/
def positional (d : Decimal) : List Char :=
  if 0 ≤ d.exponent then d.digitRow ++ List.replicate d.exponent.toNat '0'
  else
    let places := d.exponent.natAbs
    let row := List.replicate (places + 1 - d.digitRow.length) '0' ++ d.digitRow
    row.take (row.length - places) ++ '.' :: row.drop (row.length - places)

/-- The power of ten of the first digit. -/
def leadingExponent (d : Decimal) : Int := d.exponent + (d.digitRow.length - 1 : Nat)

/-- Scientific notation: one digit, a point before the others if there are any, and the power of
ten. -/
def scientific (d : Decimal) : List Char :=
  let fraction := d.digitRow.drop 1
  d.digitRow.take 1 ++ (if fraction.isEmpty then [] else '.' :: fraction) ++
    'e' :: (toString d.leadingExponent).toList

end Decimal

namespace Number

open Float.Model

/-! ### Texts of a number -/

/-- The sign that is written before a magnitude. -/
def signText : UnpackedFloat.Sign → List Char
  | .positive => []
  | .negative => ['-']

/-- Writes a number, given the text of zero and the layout of the positive decimals. -/
def write (zero : List Char) (layout : Decimal → List Char) (x : Float) : String :=
  String.ofList <|
    match x.toModel.unpack with
    | .notANumber => "NaN".toList
    | .infinity s => signText s ++ "inf".toList
    | .zero s => signText s ++ zero
    | .finite s m q _ => signText s ++ layout (Decimal.shortest x.abs m q)

/-- **The plain text of a number**: the shortest decimal that reads back, in positional
notation. -/
def text (x : Float) : String := write ['0'] Decimal.positional x

/-- The layout of the detailed text: positional, with a point in any case, for magnitudes from
`10 ^ (-4)` up to but not including `10 ^ 16`, and scientific for all others. -/
def detailLayout (d : Decimal) : List Char :=
  if d.leadingExponent < -4 ∨ 16 ≤ d.leadingExponent then d.scientific
  else if 0 ≤ d.exponent then d.positional ++ ['.', '0']
  else d.positional

/-- The detailed text of a number, which always shows that it is a double. -/
def detail (x : Float) : String := write ['0', '.', '0'] detailLayout x

end Number

end Scriptlet
