/-
**The binary operators.**

Scripts know five operators, all of them on numbers.  Division by zero is that of doubles, and the
remainder is the exact one of `Scriptlet.Number.remainder`.

Main definitions:

* `Scriptlet.Operator` — the operators;
* `Scriptlet.Operator.symbol`, `Scriptlet.Operator.ofSymbol?` — how they are written;
* `Scriptlet.Operator.apply` — **what they compute**.

Main results:

* `Scriptlet.Operator.ofSymbol?_eq_some_iff` — a text names an operator exactly when it is its
  symbol.
-/

import Scriptlet.Number.Remainder

set_option relaxedAutoImplicit false
set_option autoImplicit false

namespace Scriptlet

/-- The binary operators. -/
inductive Operator where
  | add
  | subtract
  | multiply
  | divide
  | modulo
deriving DecidableEq, Repr

namespace Operator

/-- The symbol of an operator. -/
def symbol : Operator → String
  | .add => "+"
  | .subtract => "-"
  | .multiply => "*"
  | .divide => "/"
  | .modulo => "%"

/-- The name of an operator, as outlines show it. -/
def name : Operator → String
  | .add => "Add"
  | .subtract => "Subtract"
  | .multiply => "Multiply"
  | .divide => "Divide"
  | .modulo => "Modulo"

/-- All operators. -/
def all : List Operator := [.add, .subtract, .multiply, .divide, .modulo]

/-- The operator that is written with a symbol. -/
def ofSymbol? (symbol : String) : Option Operator := all.find? fun op => op.symbol = symbol

/-- A text names an operator exactly when it is its symbol. -/
theorem ofSymbol?_eq_some_iff {symbol : String} {op : Operator} :
    ofSymbol? symbol = some op ↔ symbol = op.symbol := by
  constructor
  · intro h
    have := List.find?_some h
    exact (of_decide_eq_true this).symm
  · rintro rfl
    cases op <;> rfl

/-- **What an operator computes.** -/
def apply : Operator → Float → Float → Float
  | .add, x, y => x + y
  | .subtract, x, y => x - y
  | .multiply, x, y => x * y
  | .divide, x, y => x / y
  | .modulo, x, y => Number.remainder x y

end Operator

end Scriptlet
