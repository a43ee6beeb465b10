/-
**Values.**

A value is plain data, an object, or a function.  Objects are known by a number, the place where
they were created; a function of a script knows the scope that it was declared in; a native
function is one of a few that a host can provide.

Main definitions:

* `Scriptlet.Action`, `Scriptlet.Native` — native functions;
* `Scriptlet.Closure` — functions of a script;
* `Scriptlet.Value` — **the values**, and `Scriptlet.Value.typeName`, the names of their types;
* `Scriptlet.Value.same` — whether two values are equal;
* `Scriptlet.Value.combine` — **what a binary operator makes of two values**.
-/

import Scriptlet.Syntax.Tree
import Scriptlet.Table

set_option relaxedAutoImplicit false
set_option autoImplicit false

namespace Scriptlet

/-! ### Functions -/

/-- What a native function does with its arguments, in the scope that it is called from. -/
inductive Action where
  /-- Writes the arguments as a line of output. -/
  | print
  /-- Counts the arguments. -/
  | count
  /-- Returns the last argument. -/
  | last
  /-- Looks a name up. -/
  | lookUp (name : String)
  /-- Declares a constant with the first argument. -/
  | declare (name : String)
deriving DecidableEq, Repr

/-- A native function. -/
structure Native where
  /-- The number that tells it from all others. -/
  id : Nat
  /-- Its name. -/
  name : String
  /-- What it does. -/
  action : Action
deriving DecidableEq, Repr

/-- A function of a script, as its declaration made it. -/
structure Closure where
  /-- Its name. -/
  name : String
  /-- The names of its parameters. -/
  parameters : List String
  /-- Its statements. -/
  body : List Stmt
  /-- The scope that it was declared in. -/
  scope : Nat

/-! ### Values -/

/-- **The values.** -/
inductive Value where
  | null
  | number (value : Float)
  | boolean (value : Bool)
  | object (id : Nat)
  | native (function : Native)
  | function (function : Closure)

namespace Value

instance : Inhabited Value := ⟨.null⟩

/-- The name of the type of a value. -/
def typeName : Value → String
  | .null => "null"
  | .number _ => "number"
  | .boolean _ => "boolean"
  | .object _ => "object"
  | .native _ => "native-function"
  | .function _ => "function"

/-- Whether a value is null. -/
def isNull : Value → Bool
  | .null => true
  | _ => false

/-- The number that a value is, if it is one. -/
def number? : Value → Option Float
  | .number x => some x
  | _ => none

/-- Whether two values are equal: plain data by what it is, objects and native functions by their
numbers, and functions by the scope and the name that they were declared with, since a scope
declares a name at most once. -/
def same : Value → Value → Bool
  | .null, .null => true
  | .number x, .number y => x == y
  | .boolean a, .boolean b => a == b
  | .object i, .object j => i == j
  | .native f, .native g => f.id == g.id
  | .function f, .function g => f.scope == g.scope && f.name == g.name
  | _, _ => false

/-- **What a binary operator makes of two values**: a number of two numbers, and null of anything
else. -/
def combine (op : Operator) : Value → Value → Value
  | .number x, .number y => .number (op.apply x y)
  | _, _ => .null

end Value

end Scriptlet
