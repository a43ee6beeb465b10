/-
**Running programs.**

Expressions and statements are evaluated in a scope, by recursion on the syntax tree.  Only a call
of a function leaves the tree: it goes on with the body of the function, in a new scope inside the
one that the function was declared in.  How deeply calls may be nested is limited, and a run that
goes deeper ends without a result; what a run does within the limit does not depend on it.

Main definitions:

* `Scriptlet.Action.perform` — what the native functions do;
* `Scriptlet.Expr.eval`, `Scriptlet.Stmt.eval`, `Scriptlet.evalBlock` — **evaluation in a scope**,
  given the meaning of calls;
* `Scriptlet.callWithin` — **a call of a function**, down to a given depth of calls;
* `Scriptlet.Program.eval` — a program, down to a given depth of calls.
-/

import Scriptlet.Eval.Machine

set_option relaxedAutoImplicit false
set_option autoImplicit false

namespace Scriptlet

/-! ### Native functions -/

/-- What a native function does with its arguments, called from a scope. -/
def Action.perform (action : Action) (arguments : List Value) (scope : Nat) : Eval Value :=
  match action with
  | .print => do
      let store := (← get).store
      Eval.write (String.intercalate " " (arguments.map fun v => v.text store))
      return .null
  | .count => return .number (Float.ofNat arguments.length)
  | .last => return arguments.getLast?.getD .null
  | .lookUp name => Eval.lookUp scope name
  | .declare name => Eval.declare scope name (arguments.head?.getD .null) true

/-! ### Names, keys and properties -/

/-- The name that is assigned to. -/
def targetName (target : Expr) : Eval String :=
  match target.name? with
  | some name => return name
  | none => Eval.fail (.targetNotName target)

/-- The name of a property after a point. -/
def propertyName (property : Expr) : Eval String :=
  match property.name? with
  | some name => return name
  | none => Eval.fail (.propertyNotName property)

/-- The name of a computed property: the text of a number. -/
def keyText : Value → Eval String
  | .number x => return Number.text x
  | value => Eval.fail (.keyNotNumber value.typeName)

/-- The property of a value; null, if it is an object without that property. -/
def propertyOf (value : Value) (key : String) : Eval Value :=
  match value with
  | .object id => do return ((← get).store.object id).find? key |>.getD .null
  | value => Eval.fail (.notAnObject key value.typeName)

/-! ### Evaluation -/

/-- The meaning of calls of functions. -/
abbrev Calls := Closure → List Value → Eval Value

/-- Calls a value with arguments, from a scope. -/
def callValue (calls : Calls) (scope : Nat) (callee : Value) (arguments : List Value) :
    Eval Value :=
  match callee with
  | .native f => do
      Eval.log (.callingNative f.name arguments.length)
      f.action.perform arguments scope
  | .function f => calls f arguments
  | value => do Eval.fail (.notAFunction (← Eval.textOf value))

mutual

/-- **The value of an expression in a scope.** -/
def Expr.eval (calls : Calls) (scope : Nat) : Expr → Eval Value
  | .number x => return .number x
  | .name n => Eval.lookUp scope n
  | .binary op left right => do
      let a ← left.eval calls scope
      let b ← right.eval calls scope
      return a.combine op b
  | .assign target value => do
      let n ← targetName target
      let v ← value.eval calls scope
      Eval.assign scope n v
  | .call callee arguments => do
      let f ← callee.eval calls scope
      let vs ← evalArguments calls scope arguments
      callValue calls scope f vs
  | .dot object property => do
      let v ← object.eval calls scope
      let key ← propertyName property
      propertyOf v key
  | .index object property => do
      let v ← object.eval calls scope
      let k ← property.eval calls scope
      let key ← keyText k
      propertyOf v key
  | .object entries => do
      let properties ← evalEntries calls scope entries
      Eval.allocate (Table.ofList properties)
  | .function f parameters body =>
      Eval.declare scope f (.function ⟨f, parameters, body, scope⟩) true

/-- The values of arguments, from left to right. -/
def evalArguments (calls : Calls) (scope : Nat) : List Expr → Eval (List Value)
  | [] => return []
  | e :: es => do
      let v ← e.eval calls scope
      let vs ← evalArguments calls scope es
      return v :: vs

/-- The keys and values of entries, from left to right. -/
def evalEntries (calls : Calls) (scope : Nat) : List Entry → Eval (List (String × Value))
  | [] => return []
  | .shorthand key :: entries => do
      let v ← Eval.lookUp scope key
      let vs ← evalEntries calls scope entries
      return (key, v) :: vs
  | .pair key value :: entries => do
      let v ← value.eval calls scope
      let vs ← evalEntries calls scope entries
      return (key, v) :: vs

end

/-- **The value of a statement in a scope**: that of the expression, or of the variable that is
declared. -/
def Stmt.eval (calls : Calls) (scope : Nat) : Stmt → Eval Value
  | .declare constant n none => Eval.declare scope n .null constant
  | .declare constant n (some value) => do
      let v ← value.eval calls scope
      Eval.declare scope n v constant
  | .expr expression => expression.eval calls scope

/-- **The value of the last of some statements**, or a given value if there are none. -/
def evalBlock (calls : Calls) (scope : Nat) : Value → List Stmt → Eval Value
  | last, [] => return last
  | _, statement :: statements => do
      let v ← statement.eval calls scope
      evalBlock calls scope v statements

/-! ### Calls -/

/-- Declares parameters in a scope, in order; where no argument is left they are null. -/
def bindParameters (scope : Nat) : List String → List Value → Eval Unit
  | [], _ => return ()
  | parameter :: parameters, arguments => do
      let _ ← Eval.declare scope parameter (arguments.head?.getD .null) false
      bindParameters scope parameters arguments.tail

/-- **A call of a function**: its statements, in a new scope where its parameters are bound.  Calls
may be nested down to a given depth. -/
def callWithin : (depth : Nat) → Calls
  | 0, _, _ => throw .tooDeep
  | depth + 1, f, arguments => do
      Eval.log (.calling f.name arguments.length)
      let scope ← Eval.enter f.scope
      bindParameters scope f.parameters arguments
      evalBlock (callWithin depth) scope .null f.body

/-- The value of a program in a scope. -/
def Program.eval (depth : Nat) (scope : Nat) (program : Program) : Eval Value :=
  evalBlock (callWithin depth) scope .null program.body

end Scriptlet
