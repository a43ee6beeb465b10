/-
**What happens in a run, step by step.**

A run is more than the state that it ends in.  Its trail lists what happens on the way: which piece
of the program is evaluated next, in which scope and in the body of which function, which functions
are declared, and the state at each of these moments.  The trail is found by recursion on the syntax
tree, along the evaluation, and it misses no state of the store: from each noted store to the next
one there is at most one step.

How deep a piece of a program is inside function declarations can be told in two ways, from the text
and from the trail: in the trail a function is inside the one whose body declared it.

Main definitions:

* `Scriptlet.Code` — pieces of a program, and `Scriptlet.Occurs`, where they are in the text;
* `Scriptlet.Note` — what happens at a moment, with the state of that moment;
* `Scriptlet.Expr.trail`, `Scriptlet.Stmt.trail`, `Scriptlet.blockTrail`, `Scriptlet.callTrail`,
  `Scriptlet.Program.trail` — **what happens in a run**;
* `Scriptlet.sessionTrail` — what happens in one program after another;
* `Scriptlet.Nested` — how deep a function is inside others, by the trail;
* `Scriptlet.Leads` — stores that follow each other by single steps.
-/

import Scriptlet.Proofs.Eval.Walks

set_option relaxedAutoImplicit false
set_option autoImplicit false

namespace Scriptlet

/-! ### Pieces of a program -/

/-- **A piece of a program** that can be evaluated. -/
inductive Code where
  | stmt (statement : Stmt)
  | expr (expression : Expr)

/-- The name that an entry of an object is about. -/
def Entry.key : Entry → String
  | .shorthand key => key
  | .pair key _ => key

/-- The names that a piece of a program gives to something: to a variable, to a function and its
parameters, or to properties. -/
def Code.names : Code → List String
  | .stmt (.declare _ n _) => [n]
  | .expr (.function f parameters _) => f :: parameters
  | .expr (.object entries) => entries.map Entry.key
  | _ => []

/-- One piece of a program is a part of another, without a function declaration in between. -/
inductive Part : Code → Code → Prop
  | expression (e : Expr) : Part (.stmt (.expr e)) (.expr e)
  | initial (constant : Bool) (n : String) (e : Expr) :
      Part (.stmt (.declare constant n (some e))) (.expr e)
  | left (op : Operator) (a b : Expr) : Part (.expr (.binary op a b)) (.expr a)
  | right (op : Operator) (a b : Expr) : Part (.expr (.binary op a b)) (.expr b)
  | target (a b : Expr) : Part (.expr (.assign a b)) (.expr a)
  | assigned (a b : Expr) : Part (.expr (.assign a b)) (.expr b)
  | callee (a : Expr) (es : List Expr) : Part (.expr (.call a es)) (.expr a)
  | argument {a e : Expr} {es : List Expr} (h : e ∈ es) : Part (.expr (.call a es)) (.expr e)
  | object (a b : Expr) : Part (.expr (.dot a b)) (.expr a)
  | property (a b : Expr) : Part (.expr (.dot a b)) (.expr b)
  | indexed (a b : Expr) : Part (.expr (.index a b)) (.expr a)
  | index (a b : Expr) : Part (.expr (.index a b)) (.expr b)
  | held {key : String} {e : Expr} {entries : List Entry} (h : Entry.pair key e ∈ entries) :
      Part (.expr (.object entries)) (.expr e)

/-- **Where a piece of a program is in the text**: in one of some programs, inside a number of
function declarations. -/
inductive Occurs (programs : List Program) : Nat → Code → Prop
  /-- A statement of a program is inside none. -/
  | top {p : Program} {statement : Stmt} (hp : p ∈ programs) (h : statement ∈ p.body) :
      Occurs programs 0 (.stmt statement)
  /-- A part of a piece is inside as many. -/
  | part {d : Nat} {c c' : Code} (h : Occurs programs d c) (hc : Part c c') :
      Occurs programs d c'
  /-- A statement of the body of a function is inside one more than its declaration. -/
  | body {d : Nat} {f : String} {parameters : List String} {body : List Stmt} {statement : Stmt}
      (h : Occurs programs d (.expr (.function f parameters body))) (hs : statement ∈ body) :
      Occurs programs (d + 1) (.stmt statement)

/-! ### Notes -/

/-- **What happens** at a moment of a run. -/
inductive Happening where
  /-- A piece of a program is to be evaluated in a scope; it is in the body of a function, or in no
  function. -/
  | visit (code : Code) (within : Option Closure) (scope : Nat)
  /-- A function was declared, in the body of another one or in none. -/
  | declared (f : Closure) (within : Option Closure)
  /-- The store was changed in some other way. -/
  | changed

/-- **A note**: what happens, and the state at that moment. -/
structure Note where
  /-- What happens. -/
  what : Happening
  /-- The state of the run. -/
  state : Machine

/-- What happens from a state on. -/
abbrev Trail := Machine → List Note

namespace Trail

variable {α : Type}

/-- Nothing happens. -/
def nothing : Trail := fun _ => []

/-- Something happens first. -/
def first (what : Happening) (trail : Trail) : Trail := fun machine =>
  ⟨what, machine⟩ :: trail machine

/-- A computation changes the store. -/
def change (m : Eval α) : Trail := fun machine => [⟨.changed, (m.run machine).2⟩]

theorem change_of_run {m : Eval α} {machine last : Machine} {result : Except Fault α}
    (h : m.run machine = (result, last)) : change m machine = [⟨.changed, last⟩] := by
  rw [change, h]

/-- What happens in a computation and, if it ends with a value, in what goes on with that. -/
def andThen (front : Trail) (m : Eval α) (back : α → Trail) : Trail := fun machine =>
  front machine ++
    match m.run machine with
    | (.ok a, machine') => back a machine'
    | (.error _, _) => []

/-- A function is declared by a computation, if that succeeds. -/
def declaring (f : Closure) (within : Option Closure) (m : Eval α) : Trail := fun machine =>
  match m.run machine with
  | (.ok _, machine') => [⟨.declared f within, machine'⟩]
  | (.error _, _) => []

section Runs

variable {front : Trail} {m : Eval α} {back : α → Trail} {machine last : Machine}

/-- If a computation fails nothing happens after it. -/
theorem andThen_of_error {fault : Fault} (h : m.run machine = (.error fault, last)) :
    front.andThen m back machine = front machine := by
  simp only [andThen, h, List.append_nil]

/-- If a computation ends with a value, what happens after it starts from there. -/
theorem andThen_of_ok {a : α} (h : m.run machine = (.ok a, last)) :
    front.andThen m back machine = front machine ++ back a last := by
  simp only [andThen, h]

/-- Nothing may happen after a computation. -/
theorem andThen_nothing : (front.andThen m fun _ => .nothing) = front := by
  funext machine
  unfold andThen nothing
  split <;> exact List.append_nil _

theorem declaring_of_error {f : Closure} {within : Option Closure} {fault : Fault}
    (h : m.run machine = (.error fault, last)) : declaring f within m machine = [] := by
  rw [declaring, h]

theorem declaring_of_ok {f : Closure} {within : Option Closure} {a : α}
    (h : m.run machine = (.ok a, last)) :
    declaring f within m machine = [⟨.declared f within, last⟩] := by
  rw [declaring, h]

end Runs

end Trail

/-! ### The trail of a run -/

/-- What happens in a native function. -/
def Action.trail (action : Action) (arguments : List Value) (scope : Nat) : Trail :=
  match action with
  | .declare _ => .change (action.perform arguments scope)
  | _ => .nothing

/-- What happens when a value is called from a scope, given what happens in calls of functions. -/
def valueTrail (inCalls : Closure → List Value → Trail) (scope : Nat) (callee : Value)
    (arguments : List Value) : Trail :=
  match callee with
  | .native f =>
      Trail.nothing.andThen (Eval.log (.callingNative f.name arguments.length)) fun _ =>
        f.action.trail arguments scope
  | .function f => inCalls f arguments
  | _ => .nothing

section Trees

variable (calls : Calls) (inCalls : Closure → List Value → Trail) (within : Option Closure)
  (scope : Nat)

mutual

/-- **What happens while an expression is evaluated** in a scope. -/
def Expr.trail : Expr → Trail
  | .number x => Trail.nothing.first (.visit (.expr (.number x)) within scope)
  | .name n => Trail.nothing.first (.visit (.expr (.name n)) within scope)
  | .binary op left right =>
      (left.trail.andThen (left.eval calls scope) fun _ => right.trail).first
        (.visit (.expr (.binary op left right)) within scope)
  | .assign target value =>
      (Trail.nothing.andThen (targetName target) fun n =>
        value.trail.andThen (value.eval calls scope) fun v =>
          .change (Eval.assign scope n v)).first
        (.visit (.expr (.assign target value)) within scope)
  | .call callee arguments =>
      (callee.trail.andThen (callee.eval calls scope) fun f =>
        (argumentTrail arguments).andThen (evalArguments calls scope arguments) fun vs =>
          valueTrail inCalls scope f vs).first
        (.visit (.expr (.call callee arguments)) within scope)
  | .dot object property =>
      object.trail.first (.visit (.expr (.dot object property)) within scope)
  | .index object property =>
      (object.trail.andThen (object.eval calls scope) fun _ => property.trail).first
        (.visit (.expr (.index object property)) within scope)
  | .object entries =>
      ((entryTrail entries).andThen (evalEntries calls scope entries) fun properties =>
        .change (Eval.allocate (Table.ofList properties))).first
        (.visit (.expr (.object entries)) within scope)
  | .function f parameters body =>
      (Trail.declaring ⟨f, parameters, body, scope⟩ within
        (Eval.declare scope f (.function ⟨f, parameters, body, scope⟩) true)).first
        (.visit (.expr (.function f parameters body)) within scope)

/-- What happens while arguments are evaluated. -/
def argumentTrail : List Expr → Trail
  | [] => .nothing
  | e :: es => e.trail.andThen (e.eval calls scope) fun _ => argumentTrail es

/-- What happens while entries are evaluated. -/
def entryTrail : List Entry → Trail
  | [] => .nothing
  | .shorthand key :: entries =>
      Trail.nothing.andThen (Eval.lookUp scope key) fun _ => entryTrail entries
  | .pair _ value :: entries =>
      value.trail.andThen (value.eval calls scope) fun _ => entryTrail entries

end

/-- What happens in a statement. -/
def Stmt.trail : Stmt → Trail
  | .declare constant n none =>
      (Trail.change (Eval.declare scope n .null constant)).first
        (.visit (.stmt (.declare constant n none)) within scope)
  | .declare constant n (some value) =>
      ((value.trail calls inCalls within scope).andThen (value.eval calls scope) fun v =>
        .change (Eval.declare scope n v constant)).first
        (.visit (.stmt (.declare constant n (some value))) within scope)
  | .expr expression =>
      (expression.trail calls inCalls within scope).first
        (.visit (.stmt (.expr expression)) within scope)

/-- What happens in statements. -/
def blockTrail : List Stmt → Trail
  | [] => .nothing
  | statement :: statements =>
      (statement.trail calls inCalls within scope).andThen (statement.eval calls scope) fun _ =>
        blockTrail statements

end Trees

/-- What happens when parameters are declared. -/
def parameterTrail (scope : Nat) : List String → List Value → Trail
  | [], _ => .nothing
  | parameter :: parameters, arguments =>
      let declared := Eval.declare scope parameter (arguments.head?.getD .null) false
      (Trail.change declared).andThen declared fun _ =>
        parameterTrail scope parameters arguments.tail

/-- **What happens in a call of a function**: its body is evaluated in a new scope. -/
def callTrail : (depth : Nat) → Closure → List Value → Trail
  | 0, _, _ => .nothing
  | depth + 1, f, arguments =>
      Trail.nothing.andThen (Eval.log (.calling f.name arguments.length)) fun _ =>
        (Trail.change (Eval.enter f.scope)).andThen (Eval.enter f.scope) fun scope =>
          (parameterTrail scope f.parameters arguments).andThen
            (bindParameters scope f.parameters arguments) fun _ =>
              blockTrail (callWithin depth) (callTrail depth) (some f) scope f.body

/-- **What happens in a program** that is evaluated in a scope. -/
def Program.trail (depth scope : Nat) (program : Program) : Trail :=
  blockTrail (callWithin depth) (callTrail depth) none scope program.body

/-- **What happens in programs** that are evaluated in a scope one after another, each with calls
nested down to a depth of its own, to whatever end. -/
def sessionTrail (scope : Nat) : List (Nat × Program) → Trail
  | [] => .nothing
  | (depth, program) :: runs => fun machine =>
      program.trail depth scope machine
        ++ sessionTrail scope runs ((program.eval depth scope).run machine).2

/-- The state after programs that are evaluated in a scope one after another. -/
def afterSession (scope : Nat) : List (Nat × Program) → Machine → Machine
  | [], machine => machine
  | (depth, program) :: runs, machine =>
      afterSession scope runs ((program.eval depth scope).run machine).2

/-! ### How deep functions are inside others -/

/-- **How deep the body of a function is inside function declarations**, by what was noted: one
deeper than the body that declared the function.  What is in the body of no function is inside
none. -/
inductive Nested (notes : List Note) : Option Closure → Nat → Prop
  | outermost : Nested notes none 0
  | inside {f : Closure} {within : Option Closure} {state : Machine} {d : Nat}
      (h : ⟨.declared f within, state⟩ ∈ notes) (hd : Nested notes within d) :
      Nested notes (some f) (d + 1)

theorem Nested.mono {notes notes' : List Note} {within : Option Closure} {d : Nat}
    (h : Nested notes within d) (hsub : notes ⊆ notes') : Nested notes' within d := by
  induction h with
  | outermost => exact .outermost
  | inside h _ ih => exact .inside (hsub h) ih

/-! ### Stores that follow each other -/

/-- **From one store to another** by way of those that were noted, at most one step each. -/
inductive Leads : Store → List Note → Store → Prop
  /-- There is nothing on the way. -/
  | done (store : Store) : Leads store [] store
  /-- The store is noted. -/
  | same {note : Note} {notes : List Note} {store : Store}
      (rest : Leads note.state.store notes store) :
      Leads note.state.store (note :: notes) store
  /-- The store makes one step, and is noted. -/
  | step {earlier later : Store} {note : Note} {notes : List Note}
      (h : earlier.Step note.state.store) (rest : Leads note.state.store notes later) :
      Leads earlier (note :: notes) later

namespace Leads

theorem append {a b c : Store} {front back : List Note} (h : Leads a front b)
    (h' : Leads b back c) : Leads a (front ++ back) c := by
  induction h with
  | done => exact h'
  | same _ ih => exact .same (ih h')
  | step hstep _ ih => exact .step hstep (ih h')

theorem steps {a b : Store} {notes : List Note} (h : Leads a notes b) : a.Steps b := by
  induction h with
  | done => exact .refl
  | same _ ih => exact ih
  | step hstep _ ih => exact .head hstep ih

/-- Every noted store goes on to the last one. -/
theorem steps_of_mem {a b : Store} {notes : List Note} (h : Leads a notes b) {note : Note}
    (hnote : note ∈ notes) : note.state.store.Steps b := by
  induction h with
  | done => cases hnote
  | same rest ih =>
      rcases List.mem_cons.1 hnote with rfl | hnote
      · exact rest.steps
      · exact ih hnote
  | step _ rest ih =>
      rcases List.mem_cons.1 hnote with rfl | hnote
      · exact rest.steps
      · exact ih hnote

end Leads

end Scriptlet
