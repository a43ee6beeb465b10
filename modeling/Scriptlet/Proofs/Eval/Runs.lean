/-
**What the parts of a run do.**

A computation is run on a state and gives a result together with the state after it.  Here that is
written out for each of the parts that runs are made of, and for one part after another, so that no
proof about runs has to look inside the monad.

Main definitions:

* `Scriptlet.Eval.OnStore` — computations that work on the store alone.

Main results:

* `Scriptlet.Eval.run_bind` — **one computation after another**: the second one starts in the state
  that the first one left, unless the first one failed;
* `Scriptlet.Eval.run_ask`, `Scriptlet.Eval.run_change`, `Scriptlet.Eval.run_create`,
  `Scriptlet.Eval.run_log`, `Scriptlet.Eval.run_write`, `Scriptlet.Eval.run_print` — the single
  parts.
-/

import Scriptlet.Eval.Evaluate

set_option relaxedAutoImplicit false
set_option autoImplicit false

namespace Scriptlet.Eval

variable {α β : Type}

/-- **One computation after another.** -/
theorem run_bind (m : Eval α) (f : α → Eval β) (machine : Machine) :
    (m >>= f).run machine
      = match m.run machine with
        | (.ok a, machine') => (f a).run machine'
        | (.error fault, machine') => (.error fault, machine') := by
  change ExceptT.bindCont f (m.run machine).1 (m.run machine).2 = _
  rcases m.run machine with ⟨_ | _, _⟩ <;> rfl

theorem run_pure (a : α) (machine : Machine) :
    (pure a : Eval α).run machine = (.ok a, machine) := rfl

theorem run_fail (error : EvalError) (machine : Machine) :
    (fail error : Eval α).run machine = (.error (.error error), machine) := rfl

theorem run_get (machine : Machine) :
    (get : Eval Machine).run machine = (.ok machine, machine) := rfl

/-- A question changes nothing. -/
theorem run_ask (question : Store → Except EvalError α) (machine : Machine) :
    (ask question).run machine = ((question machine.store).mapError Fault.error, machine) := by
  rw [ask, run_bind, run_get]
  dsimp only
  cases question machine.store <;> rfl

/-- A change that is not possible changes nothing. -/
theorem run_change (step : Store → Except EvalError Store) (machine : Machine) :
    (change step).run machine
      = match step machine.store with
        | .ok store => (.ok (), { machine with store := store })
        | .error error => (.error (.error error), machine) := by
  rw [change, run_bind, run_get]
  dsimp only
  cases step machine.store <;> rfl

theorem run_create (step : Store → α × Store) (machine : Machine) :
    (create step).run machine
      = (.ok (step machine.store).1, { machine with store := (step machine.store).2 }) := rfl

theorem run_log (event : Event) (machine : Machine) :
    (log event).run machine
      = (.ok (), { machine with events := machine.events.push event }) := rfl

/-- A line is written only where there is room for it. -/
theorem run_write (line : String) (machine : Machine) :
    (write line).run machine
      = if machine.room = some 0 then (.error (.error .sinkClosed), machine)
        else
          (.ok (),
            { machine with
              output := machine.output.push line
              room := machine.room.map (· - 1) }) := by
  rw [write, run_bind, run_get]
  dsimp only
  split
  · next h => rw [if_pos h]; rfl
  · next h => rw [if_neg h]; rfl

/-- The line that is written when values are printed: their texts, with blanks between them. -/
def printedLine (store : Store) (arguments : List Value) : String :=
  String.intercalate " " (arguments.map fun v => v.text store)

/-- Printing writes one line, if there is room for it. -/
theorem run_print (arguments : List Value) (scope : Nat) (machine : Machine) :
    (Action.print.perform arguments scope).run machine
      = if machine.room = some 0 then (.error (.error .sinkClosed), machine)
        else
          (.ok .null,
            { machine with
              output := machine.output.push (printedLine machine.store arguments)
              room := machine.room.map (· - 1) }) := by
  have h : Action.print.perform arguments scope = get >>= fun machine =>
      write (printedLine machine.store arguments) >>= fun _ => pure .null := rfl
  rw [h, run_bind, run_get]
  dsimp only
  rw [run_bind, run_write]
  by_cases hroom : machine.room = some 0
  · rw [if_pos hroom, if_pos hroom]
  · rw [if_neg hroom, if_neg hroom]
    rfl

/-! ### Computations on the store alone -/

/-- **The computation works on the store alone**: what it makes of it does not depend on the output
and the events, and these stay as they are. -/
def OnStore (m : Eval α) : Prop :=
  ∀ machine other : Machine, m.run { other with store := machine.store }
    = ((m.run machine).1, { other with store := (m.run machine).2.store })

theorem OnStore.bind {m : Eval α} {f : α → Eval β} (hm : OnStore m) (hf : ∀ a, OnStore (f a)) :
    OnStore (m >>= f) := by
  intro machine other
  rw [run_bind, run_bind, hm machine other]
  rcases m.run machine with ⟨result, middle⟩
  cases result with
  | error fault => rfl
  | ok a => exact hf a middle other

theorem onStore_pure (a : α) : OnStore (pure a : Eval α) := fun _ _ => rfl

theorem onStore_fail (error : EvalError) : OnStore (fail error : Eval α) := fun _ _ => rfl

theorem onStore_ask (question : Store → Except EvalError α) : OnStore (ask question) := by
  intro machine other
  rw [run_ask, run_ask]

theorem onStore_change (step : Store → Except EvalError Store) : OnStore (change step) := by
  intro machine other
  rw [run_change, run_change]
  dsimp only
  cases step machine.store with
  | error error => rfl
  | ok store => rfl

theorem onStore_create (step : Store → α × Store) : OnStore (create step) := fun _ _ => rfl

theorem onStore_textOf (v : Value) : OnStore (textOf v) := fun _ _ => rfl

theorem onStore_lookUp (scope : Nat) (name : String) : OnStore (lookUp scope name) :=
  onStore_ask _

theorem onStore_declare (scope : Nat) (name : String) (value : Value) (constant : Bool) :
    OnStore (declare scope name value constant) :=
  (onStore_change _).bind fun _ => onStore_pure _

theorem onStore_assign (scope : Nat) (name : String) (value : Value) :
    OnStore (assign scope name value) :=
  (onStore_ask _).bind fun _ => (onStore_change _).bind fun _ => onStore_pure _

theorem onStore_propertyOf (value : Value) (key : String) : OnStore (propertyOf value key) := by
  unfold propertyOf
  split
  · exact fun _ _ => rfl
  · exact onStore_fail _

theorem onStore_targetName (target : Expr) : OnStore (targetName target) := by
  unfold targetName
  split
  · exact onStore_pure _
  · exact onStore_fail _

theorem onStore_propertyName (property : Expr) : OnStore (propertyName property) := by
  unfold propertyName
  split
  · exact onStore_pure _
  · exact onStore_fail _

theorem onStore_keyText (key : Value) : OnStore (keyText key) := by
  unfold keyText
  split
  · exact onStore_pure _
  · exact onStore_fail _

theorem onStore_bindParameters (scope : Nat) (parameters : List String) (arguments : List Value) :
    OnStore (bindParameters scope parameters arguments) := by
  induction parameters generalizing arguments with
  | nil => exact onStore_pure _
  | cons parameter parameters ih =>
      have hdeclare := onStore_declare scope parameter (arguments.head?.getD .null) false
      exact hdeclare.bind fun _ => ih _

end Scriptlet.Eval
