/-
**The state of a run, and its steps.**

A run works on a store, writes lines to an output and leaves a trail of events.  The output may
take only so many lines; the line after the last one is refused, and the run fails.  What was done
before a failure stays done.

Main definitions:

* `Scriptlet.Machine` — the state;
* `Scriptlet.Eval` — **computations that change the state and may fail**;
* `Scriptlet.Eval.lookUp`, `Scriptlet.Eval.declare`, `Scriptlet.Eval.assign`,
  `Scriptlet.Eval.enter`, `Scriptlet.Eval.allocate`, `Scriptlet.Eval.write`,
  `Scriptlet.Eval.log` — the steps that a run is made of.
-/

import Scriptlet.Eval.Display
import Scriptlet.Event

set_option relaxedAutoImplicit false
set_option autoImplicit false

namespace Scriptlet

/-- **The state of a run.** -/
structure Machine where
  /-- The scopes and objects. -/
  store : Store
  /-- The lines that were written. -/
  output : Array String
  /-- The events so far. -/
  events : Array Event
  /-- How many more lines the output takes; without a number, any. -/
  room : Option Nat

/-- The state before anything was run. -/
def Machine.empty (room : Option Nat) : Machine := ⟨.empty, #[], #[], room⟩

/-- **A computation** that changes the state, also when it fails. -/
abbrev Eval (α : Type) := ExceptT Fault (StateM Machine) α

namespace Eval

variable {α : Type}

/-- Fails with an error. -/
def fail (error : EvalError) : Eval α := throw (.error error)

/-- Asks the store. -/
def ask (question : Store → Except EvalError α) : Eval α := do
  match question (← get).store with
  | .ok answer => return answer
  | .error error => fail error

/-- Changes the store, if that is possible. -/
def change (step : Store → Except EvalError Store) : Eval Unit := do
  let machine ← get
  match step machine.store with
  | .ok store => set { machine with store := store }
  | .error error => fail error

/-- Creates something in the store. -/
def create (step : Store → α × Store) : Eval α :=
  modifyGet fun machine =>
    let (made, store) := step machine.store
    (made, { machine with store := store })

/-- The value of a name. -/
def lookUp (scope : Nat) (name : String) : Eval Value := ask fun store => store.lookUp scope name

/-- Declares a name and returns its value. -/
def declare (scope : Nat) (name : String) (value : Value) (constant : Bool) : Eval Value := do
  change fun store => store.declare scope name value constant
  return value

/-- Assigns to a name, in the scope that it means, and returns the value. -/
def assign (scope : Nat) (name : String) (value : Value) : Eval Value := do
  let owner ← ask fun store => store.resolve scope name
  change fun store => store.assign owner name value
  return value

/-- Creates a scope inside another one. -/
def enter (parent : Nat) : Eval Nat := create fun store => store.newScope (some parent)

/-- Creates an object. -/
def allocate (properties : Table Value) : Eval Value :=
  create fun store => (store.newObject properties).map Value.object id

/-- The text of a value. -/
def textOf (value : Value) : Eval String := do return value.text (← get).store

/-- Leaves an event behind. -/
def log (event : Event) : Eval Unit :=
  modify fun machine => { machine with events := machine.events.push event }

/-- Writes a line, if there is room for it. -/
def write (line : String) : Eval Unit := do
  let machine ← get
  match machine.room with
  | some 0 => fail .sinkClosed
  | room => set { machine with output := machine.output.push line, room := room.map (· - 1) }

end Eval

end Scriptlet
