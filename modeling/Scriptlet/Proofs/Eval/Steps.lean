/-
**What a run can do to the store.**

However long a run is and however it ends, it changes the store by a few operations only: it
declares and assigns names, and it creates scopes, objects and native functions.  An operation that
fails changes nothing.  So whatever these operations preserve is preserved by every run, and by
every sequence of what a host can do between runs.

Main definitions:

* `Scriptlet.Store.Step`, `Scriptlet.Store.Steps` — **the steps of a store**, and sequences of them;
* `Scriptlet.Eval.Stepwise` — computations that change the store by steps;
* `Scriptlet.Machine.Move`, `Scriptlet.Machine.Moves` — what a host can do, runs included.

Main results:

* `Scriptlet.stepwise_expr`, `Scriptlet.stepwise_block`, `Scriptlet.stepwise_callWithin` —
  **evaluation is stepwise**;
* `Scriptlet.Machine.Moves.steps` — whatever a host does, the store only makes steps.
-/

import Mathlib.Logic.Relation
import Scriptlet.Proofs.Eval.Runs
import Scriptlet.Session

set_option relaxedAutoImplicit false
set_option autoImplicit false

namespace Scriptlet

/-! ### Steps of a store -/

/-- **One step of a store**: an operation on names that succeeds, or the creation of something. -/
inductive Store.Step : Store → Store → Prop
  /-- A name is declared. -/
  | declare {store store' : Store} {s : Nat} {name : String} {value : Value} {constant : Bool}
      (h : store.declare s name value constant = .ok store') : Step store store'
  /-- A name is assigned to. -/
  | assign {store store' : Store} {s : Nat} {name : String} {value : Value}
      (h : store.assign s name value = .ok store') : Step store store'
  /-- A scope is created, with or without one around it. -/
  | newScope (store : Store) (parent : Option Nat) : Step store (store.newScope parent).2
  /-- A scope of constants is created. -/
  | newRoot (store : Store) (constants : List (String × Value)) :
      Step store (store.newRoot constants).2
  /-- An object is created. -/
  | newObject (store : Store) (properties : Table Value) : Step store (store.newObject properties).2
  /-- A native function is created. -/
  | newNative (store : Store) (name : String) (action : Action) :
      Step store (store.newNative name action).2

/-- Any number of steps. -/
abbrev Store.Steps : Store → Store → Prop := Relation.ReflTransGen Store.Step

/-! ### Stepwise computations -/

namespace Eval

variable {α β : Type}

/-- However the computation ends, it has changed the store by steps. -/
def Stepwise (m : Eval α) : Prop :=
  ∀ machine : Machine, Store.Steps machine.store (m.run machine).2.store

/-- A computation that leaves the store alone. -/
theorem stepwise_of_store_eq {m : Eval α}
    (h : ∀ machine : Machine, (m.run machine).2.store = machine.store) : Stepwise m := by
  intro machine
  rw [h machine]

theorem stepwise_pure (a : α) : Stepwise (pure a) := stepwise_of_store_eq fun _ => rfl

theorem stepwise_fail (error : EvalError) : Stepwise (fail error : Eval α) :=
  stepwise_of_store_eq fun _ => rfl

theorem stepwise_get : Stepwise (get : Eval Machine) := stepwise_of_store_eq fun _ => rfl

theorem stepwise_log (event : Event) : Stepwise (log event) := stepwise_of_store_eq fun _ => rfl

theorem stepwise_ask (question : Store → Except EvalError α) : Stepwise (ask question) :=
  stepwise_of_store_eq fun machine => by rw [run_ask]

theorem stepwise_write (line : String) : Stepwise (write line) :=
  stepwise_of_store_eq fun machine => by rw [run_write]; split <;> rfl

theorem stepwise_change {step : Store → Except EvalError Store}
    (h : ∀ {store store'}, step store = .ok store' → Store.Step store store') :
    Stepwise (change step) := by
  intro machine
  rw [run_change]
  cases hstep : step machine.store with
  | error error => exact .refl
  | ok store => exact .single (h hstep)

theorem stepwise_create {step : Store → α × Store}
    (h : ∀ store, Store.Step store (step store).2) : Stepwise (create step) :=
  fun machine => .single (h machine.store)

/-- **One stepwise computation after another**, also when the first one fails. -/
theorem Stepwise.bind {m : Eval α} {f : α → Eval β} (hm : Stepwise m)
    (hf : ∀ a, Stepwise (f a)) : Stepwise (m >>= f) := by
  intro machine
  have hfirst := hm machine
  rw [run_bind]
  rcases hrun : m.run machine with ⟨fault | a, machine'⟩
  · rwa [hrun] at hfirst
  · rw [hrun] at hfirst
    exact hfirst.trans (hf a machine')

theorem stepwise_lookUp (scope : Nat) (name : String) : Stepwise (lookUp scope name) :=
  stepwise_ask _

theorem stepwise_declare (scope : Nat) (name : String) (value : Value) (constant : Bool) :
    Stepwise (declare scope name value constant) :=
  (stepwise_change .declare).bind fun _ => stepwise_pure _

theorem stepwise_assign (scope : Nat) (name : String) (value : Value) :
    Stepwise (assign scope name value) :=
  (stepwise_ask _).bind fun _ => (stepwise_change .assign).bind fun _ => stepwise_pure _

theorem stepwise_enter (parent : Nat) : Stepwise (enter parent) :=
  stepwise_create fun store => .newScope store _

theorem stepwise_allocate (properties : Table Value) : Stepwise (allocate properties) :=
  stepwise_create fun store => .newObject store properties

end Eval

open Eval

/-! ### Evaluation is stepwise -/

theorem stepwise_perform (action : Action) (arguments : List Value) (scope : Nat) :
    Stepwise (action.perform arguments scope) := by
  cases action with
  | print => exact stepwise_get.bind fun _ => (stepwise_write _).bind fun _ => stepwise_pure _
  | count => exact stepwise_pure _
  | last => exact stepwise_pure _
  | lookUp name => exact stepwise_lookUp scope name
  | declare name => exact stepwise_declare scope name _ true

theorem stepwise_targetName (target : Expr) : Stepwise (targetName target) := by
  rw [targetName]
  split
  · exact stepwise_pure _
  · exact stepwise_fail _

theorem stepwise_propertyName (property : Expr) : Stepwise (propertyName property) := by
  rw [propertyName]
  split
  · exact stepwise_pure _
  · exact stepwise_fail _

theorem stepwise_keyText (value : Value) : Stepwise (keyText value) := by
  cases value with
  | number x => exact stepwise_pure _
  | _ => exact stepwise_fail _

theorem stepwise_propertyOf (value : Value) (key : String) : Stepwise (propertyOf value key) := by
  cases value with
  | object id => exact stepwise_get.bind fun _ => stepwise_pure _
  | _ => exact stepwise_fail _

section Evaluation

variable {calls : Calls}

theorem stepwise_callValue (hc : ∀ f arguments, Stepwise (calls f arguments)) (scope : Nat)
    (callee : Value) (arguments : List Value) :
    Stepwise (callValue calls scope callee arguments) := by
  have htext : Stepwise (textOf callee) := stepwise_get.bind fun _ => stepwise_pure _
  cases callee with
  | native f => exact (stepwise_log _).bind fun _ => stepwise_perform f.action arguments scope
  | function f => exact hc f arguments
  | _ => exact htext.bind fun _ => stepwise_fail _

mutual

/-- **The evaluation of an expression is stepwise**, if calls are. -/
theorem stepwise_expr (hc : ∀ f arguments, Stepwise (calls f arguments)) (scope : Nat)
    (e : Expr) : Stepwise (e.eval calls scope) := by
  cases e with
  | number x => exact stepwise_pure _
  | name n => exact stepwise_lookUp scope n
  | binary op left right =>
      exact (stepwise_expr hc scope left).bind fun _ => (stepwise_expr hc scope right).bind fun _ =>
        stepwise_pure _
  | assign target value =>
      exact (stepwise_targetName target).bind fun _ => (stepwise_expr hc scope value).bind fun _ =>
        stepwise_assign scope _ _
  | call callee arguments =>
      exact (stepwise_expr hc scope callee).bind fun _ =>
        (stepwise_arguments hc scope arguments).bind fun _ => stepwise_callValue hc scope _ _
  | dot object property =>
      exact (stepwise_expr hc scope object).bind fun _ =>
        (stepwise_propertyName property).bind fun _ => stepwise_propertyOf _ _
  | index object property =>
      exact (stepwise_expr hc scope object).bind fun _ =>
        (stepwise_expr hc scope property).bind fun _ =>
          (stepwise_keyText _).bind fun _ => stepwise_propertyOf _ _
  | object entries =>
      exact (stepwise_entries hc scope entries).bind fun _ => stepwise_allocate _
  | function f parameters body => exact stepwise_declare scope f _ true

theorem stepwise_arguments (hc : ∀ f arguments, Stepwise (calls f arguments)) (scope : Nat)
    (es : List Expr) : Stepwise (evalArguments calls scope es) := by
  cases es with
  | nil => exact stepwise_pure _
  | cons e es =>
      exact (stepwise_expr hc scope e).bind fun _ => (stepwise_arguments hc scope es).bind fun _ =>
        stepwise_pure _

theorem stepwise_entries (hc : ∀ f arguments, Stepwise (calls f arguments)) (scope : Nat)
    (entries : List Entry) : Stepwise (evalEntries calls scope entries) := by
  cases entries with
  | nil => exact stepwise_pure _
  | cons entry entries =>
      cases entry with
      | shorthand key =>
          exact (stepwise_lookUp scope key).bind fun _ =>
            (stepwise_entries hc scope entries).bind fun _ => stepwise_pure _
      | pair key value =>
          exact (stepwise_expr hc scope value).bind fun _ =>
            (stepwise_entries hc scope entries).bind fun _ => stepwise_pure _

end

theorem stepwise_stmt (hc : ∀ f arguments, Stepwise (calls f arguments)) (scope : Nat)
    (statement : Stmt) : Stepwise (statement.eval calls scope) := by
  cases statement with
  | declare constant n value =>
      cases value with
      | none => exact stepwise_declare scope n .null constant
      | some value =>
          exact (stepwise_expr hc scope value).bind fun _ => stepwise_declare scope n _ constant
  | expr e => exact stepwise_expr hc scope e

/-- **The evaluation of statements is stepwise**, if calls are. -/
theorem stepwise_block (hc : ∀ f arguments, Stepwise (calls f arguments)) (scope : Nat)
    (last : Value) (statements : List Stmt) :
    Stepwise (evalBlock calls scope last statements) := by
  induction statements generalizing last with
  | nil => exact stepwise_pure _
  | cons statement statements ih =>
      exact (stepwise_stmt hc scope statement).bind fun v => ih v

end Evaluation

theorem stepwise_bindParameters (scope : Nat) (parameters : List String) (arguments : List Value) :
    Stepwise (bindParameters scope parameters arguments) := by
  induction parameters generalizing arguments with
  | nil => exact stepwise_pure _
  | cons parameter parameters ih =>
      exact (stepwise_declare scope parameter _ false).bind fun _ => ih arguments.tail

/-- **Calls are stepwise**, by induction on how deeply they may be nested. -/
theorem stepwise_callWithin (depth : Nat) (f : Closure) (arguments : List Value) :
    Stepwise (callWithin depth f arguments) := by
  induction depth generalizing f arguments with
  | zero => exact stepwise_of_store_eq fun _ => rfl
  | succ depth ih =>
      exact (stepwise_log _).bind fun _ => (stepwise_enter f.scope).bind fun scope =>
        (stepwise_bindParameters scope f.parameters arguments).bind fun _ =>
          stepwise_block ih scope .null f.body

/-! ### What a host can do -/

/-- **What a host can do to the state**: create values and scopes, declare and assign names, call a
value, and run a program in a scope, with calls nested down to any depth. -/
inductive Machine.Move : Machine → Machine → Prop
  /-- One step of the store. -/
  | step {machine : Machine} {store : Store} (h : machine.store.Step store) :
      Move machine { machine with store := store }
  /-- A program is evaluated, to whatever end. -/
  | eval (machine : Machine) (program : Program) (depth scope : Nat) :
      Move machine ((program.eval depth scope).run machine).2
  /-- A value is called, to whatever end. -/
  | call (machine : Machine) (callee : Value) (arguments : List Value) (depth scope : Nat) :
      Move machine ((callFromHost depth scope callee arguments).run machine).2

/-- Anything that a host can do, in any order. -/
abbrev Machine.Moves : Machine → Machine → Prop := Relation.ReflTransGen Machine.Move

theorem Machine.Move.steps {earlier later : Machine} (h : earlier.Move later) :
    earlier.store.Steps later.store := by
  cases h with
  | step h => exact .single h
  | eval program depth scope =>
      exact stepwise_block (stepwise_callWithin depth) scope .null program.body earlier
  | call callee arguments depth scope =>
      cases callee with
      | native f => exact stepwise_perform f.action arguments scope earlier
      | _ => exact stepwise_callValue (stepwise_callWithin depth) scope _ arguments earlier

/-- **Whatever a host does, the store only makes steps.** -/
theorem Machine.Moves.steps {earlier later : Machine} (h : earlier.Moves later) :
    earlier.store.Steps later.store := by
  induction h with
  | refl => exact .refl
  | tail _ h ih => exact ih.trans h.steps

end Scriptlet
