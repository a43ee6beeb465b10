/-
**Decimals, and the doubles nearest to them.**

A number in a script is a double, but it is written and read in base ten.  This module holds the
exact decimals in between: a natural number scaled by a power of ten.  Every finite double is such
a decimal, and every decimal has one nearest double.

Main definitions:

* `Scriptlet.Decimal` — a natural number times a power of ten;
* `Scriptlet.Decimal.toFloat` — **the nearest double**, a tie going to the even significand;
* `Scriptlet.Decimal.ofBinary` — the decimal that equals `m * 2 ^ q`;
* `Scriptlet.Decimal.read` — the grammar of decimal numerals;
* `Scriptlet.Number.read` — the numerals with a sign, together with the names of the infinities
  and of the double that is not a number.

Main results:

* `Scriptlet.Decimal.valueOf_append` — the value of a row of digits, piece by piece.
-/

set_option relaxedAutoImplicit false
set_option autoImplicit false

namespace Scriptlet

/-- The non-negative number `digits * 10 ^ exponent`. -/
structure Decimal where
  /-- The digits, read as one natural number. -/
  digits : Nat
  /-- The power of ten by which they are scaled. -/
  exponent : Int
deriving DecidableEq, Repr

namespace Decimal

/-! ### Decimals and doubles -/

/-- **The double nearest to a decimal.**  Of two that are equally near the one with the even
significand is taken, and what is too large for a finite double is infinite. -/
def toFloat (d : Decimal) : Float :=
  Float.ofScientific d.digits (decide (d.exponent < 0)) d.exponent.natAbs

/-- The decimal that equals `m * 2 ^ q`: a negative power of two is a power of five over a power
of ten. -/
def ofBinary (m : Nat) (q : Int) : Decimal :=
  if 0 ≤ q then ⟨m * Nat.pow 2 q.toNat, 0⟩ else ⟨m * Nat.pow 5 (-q).toNat, q⟩

/-! ### Rows of digits -/

/-- The ASCII digits, the only ones a numeral is made of. -/
def isDigit (c : Char) : Bool := '0' ≤ c && c ≤ '9'

/-- The value of a row of digits. -/
def valueOf (cs : List Char) : Nat :=
  cs.foldl (fun n c => 10 * n + (c.toNat - '0'.toNat)) 0

theorem foldl_digits (cs : List Char) (n : Nat) :
    cs.foldl (fun n c => 10 * n + (c.toNat - '0'.toNat)) n
      = n * Nat.pow 10 cs.length + valueOf cs := by
  induction cs generalizing n with
  | nil => exact (Nat.mul_one n).symm
  | cons c cs ih =>
      have hpow : Nat.pow 10 (cs.length + 1) = Nat.pow 10 cs.length * 10 := rfl
      simp only [List.foldl_cons, valueOf, List.length_cons]
      rw [ih, ih (10 * 0 + _), hpow, Nat.add_mul, Nat.add_mul]
      simp only [Nat.mul_zero, Nat.zero_mul, Nat.zero_add]
      rw [← Nat.add_assoc]
      congr 2
      rw [Nat.mul_comm (Nat.pow 10 cs.length), ← Nat.mul_assoc, Nat.mul_comm n 10]

/-- The value of a row of digits is the value of its front, moved up, and of its back. -/
theorem valueOf_append (cs ds : List Char) :
    valueOf (cs ++ ds) = valueOf cs * Nat.pow 10 ds.length + valueOf ds := by
  rw [valueOf, List.foldl_append, foldl_digits]
  rfl

/-! ### Numerals -/

/-- Reads the power of ten behind the digits: nothing at all, or the letter `e`, a sign that may
be missing, and digits up to the end. -/
def readExponent : List Char → Option Int
  | [] => some 0
  | c :: rest =>
      if c = 'e' ∨ c = 'E' then
        let (negative, digits) : Bool × List Char :=
          match rest with
          | '-' :: digits => (true, digits)
          | '+' :: digits => (false, digits)
          | digits => (false, digits)
        if digits.isEmpty || !digits.all isDigit then none
        else some (if negative then -(valueOf digits : Int) else valueOf digits)
      else none

/-- Reads a numeral without a sign: digits with at most one point among or around them, at least
one digit, and a power of ten. -/
def read (cs : List Char) : Option Decimal :=
  let whole := cs.takeWhile isDigit
  let (fraction, rest) : List Char × List Char :=
    match cs.dropWhile isDigit with
    | '.' :: rest => (rest.takeWhile isDigit, rest.dropWhile isDigit)
    | rest => ([], rest)
  if whole.isEmpty && fraction.isEmpty then none
  else (readExponent rest).map fun e => ⟨valueOf (whole ++ fraction), e - fraction.length⟩

end Decimal

namespace Number

/-- Reads a number without a sign: a numeral, or the name of infinity or of the double that is
not a number, in letters of either case. -/
def readMagnitude (cs : List Char) : Option Float :=
  let name := String.ofList (cs.map Char.toLower)
  if name = "inf" ∨ name = "infinity" then some (1.0 / 0.0)
  else if name = "nan" then some (0.0 / 0.0)
  else (Decimal.read cs).map Decimal.toFloat

/-- **Reads the text of a number**: one sign or none, then a magnitude, with nothing before,
between or after. -/
def read (text : String) : Option Float :=
  match text.toList with
  | '-' :: cs => (readMagnitude cs).map fun x => -x
  | '+' :: cs => readMagnitude cs
  | cs => readMagnitude cs

end Number

end Scriptlet
