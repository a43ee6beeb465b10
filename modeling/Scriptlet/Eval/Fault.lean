/-
**What can go wrong while a script runs.**

Main definitions:

* `Scriptlet.EvalError` — the causes, with `Scriptlet.EvalError.message`, their wording;
* `Scriptlet.EvalError.isAboutName` — the errors about names and their bindings;
* `Scriptlet.Fault` — how a run ends without a value.
-/

import Scriptlet.Syntax.Tree

set_option relaxedAutoImplicit false
set_option autoImplicit false

namespace Scriptlet

/-- **The errors of a run**, by their causes. -/
inductive EvalError where
  /-- A name is declared in a scope that binds it already. -/
  | redeclared (name : String)
  /-- No scope binds a name. -/
  | unbound (name : String)
  /-- A value is assigned to a constant. -/
  | constantAssigned (name : String)
  /-- A value that is not a function is called; its text is kept. -/
  | notAFunction (text : String)
  /-- A value is assigned to an expression that is not a name. -/
  | targetNotName (target : Expr)
  /-- The expression after a point is not a name. -/
  | propertyNotName (property : Expr)
  /-- The computed name of a property is not a number, but of another type. -/
  | keyNotNumber (typeName : String)
  /-- A property is read of a value that is not an object, but of another type. -/
  | notAnObject (key typeName : String)
  /-- The output takes no more lines. -/
  | sinkClosed

namespace EvalError

/-- The wording of an error. -/
def message : EvalError → String
  | .redeclared name =>
      "cannot declare variable '" ++ name ++ "' as it already exists in this scope"
  | .unbound name => "cannot resolve '" ++ name ++ "' as it does not exist"
  | .constantAssigned name =>
      "cannot reassign to variable '" ++ name ++ "' declared constant"
  | .notAFunction text => "cannot call value that is not a function: " ++ text
  | .targetNotName target =>
      "invalid left-hand side in assignment expression: " ++ target.kindName
  | .propertyNotName property =>
      "invalid member access: expected identifier after '.', found " ++ property.kindName
  | .keyNotNumber typeName =>
      "invalid member access: cannot use " ++ typeName ++ " as a property key"
  | .notAnObject key typeName =>
      "invalid member access: cannot read property '" ++ key ++ "' of " ++ typeName
  | .sinkClosed => "failed to write output: sink closed"

/-- Whether an error is about a name: one that cannot be found, declared or assigned to. -/
def isAboutName : EvalError → Bool
  | .redeclared _ | .unbound _ | .constantAssigned _ => true
  | _ => false

end EvalError

/-- **How a run ends without a value**: with an error, or because calls were nested more deeply
than was allowed. -/
inductive Fault where
  | error (error : EvalError)
  | tooDeep

end Scriptlet
