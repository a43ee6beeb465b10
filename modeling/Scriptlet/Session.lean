/-
**Running sources.**

A source is read into tokens, parsed and evaluated in a scope; what an earlier source declared
there stays visible to later ones.  The scope that scripts start in binds the truth values, null
and the function that prints, all of them constants.

Main definitions:

* `Scriptlet.RunError` — why running a source failed;
* `Scriptlet.run` — **runs a source in a scope**;
* `Scriptlet.Machine.start` — a fresh state with the scope that scripts start in;
* `Scriptlet.callFromHost` — calls a value without a script.
-/

import Scriptlet.Eval.Evaluate
import Scriptlet.Syntax.Grammar

set_option relaxedAutoImplicit false
set_option autoImplicit false

namespace Scriptlet

/-! ### Errors -/

/-- **Why running a source failed**: while parsing it, while evaluating it, or because its calls
were nested too deeply. -/
inductive RunError where
  | reading (error : SyntaxError)
  | running (error : EvalError)
  | tooDeep

/-- The wording of an error. -/
def RunError.text : RunError → String
  | .reading error => "parse error: " ++ error.text
  | .running error => "runtime error: " ++ error.message
  | .tooDeep => "runtime error: calls are nested too deeply"

/-- What a run that ended without a value means for the source. -/
def Fault.toRunError : Fault → RunError
  | .error e => .running e
  | .tooDeep => .tooDeep

/-! ### Running a source -/

/-- Reads a source into a program, leaving the events of that behind. -/
def loadProgram (source : String) (machine : Machine) : Except SyntaxError Program × Machine :=
  let read := scan source
  let events := machine.events ++ read.events.toArray
  match Program.ofTokens read.tokens with
  | .ok program =>
      (.ok program, { machine with events := events.push (.parsed program.body.length) })
  | .error error => (.error error, { machine with events := events })

/-- **Runs a source in a scope**, with calls nested down to a given depth. -/
def run (depth scope : Nat) (source : String) (machine : Machine) :
    Except RunError Value × Machine :=
  match loadProgram source machine with
  | (.error error, machine) => (.error (.reading error), machine)
  | (.ok program, machine) =>
      let (result, machine) := (program.eval depth scope).run machine
      (result.mapError Fault.toRunError, machine)

/-- Calls a value from a scope without a script.  A native function does what it does; nothing
announces that. -/
def callFromHost (depth scope : Nat) (callee : Value) (arguments : List Value) : Eval Value :=
  match callee with
  | .native f => f.action.perform arguments scope
  | value => callValue (callWithin depth) scope value arguments

/-! ### Where scripts start -/

/-- The constants of the scope that scripts start in. -/
def startConstants (print : Native) : List (String × Value) :=
  [("true", .boolean true), ("false", .boolean false), ("null", .null), ("print", .native print)]

/-- Adds a scope to a store in which scripts can start. -/
def Store.newStart (store : Store) : Nat × Store :=
  let (print, store) := store.newNative "print" .print
  store.newRoot (startConstants print)

/-- **A fresh state** with the scope that scripts start in; the output takes so many lines. -/
def Machine.start (room : Option Nat) : Nat × Machine :=
  let (scope, store) := Store.empty.newStart
  (scope, { Machine.empty room with store := store })

/-- How deeply calls may be nested, unless a host decides otherwise. -/
def defaultDepth : Nat := 10000

end Scriptlet
