/-
**What a function is called with.**

A call creates a scope inside the one that the function was declared in, and declares the parameters
there one after the other, taking an argument for each as long as there are any.  The parameters and
the arguments are two lists of unrelated lengths, and any of the declarations can fail, so that a
scope may be left half filled.  The invariant of this loop is what the scope binds: the parameters
so far, each to the argument at its place, and nothing else.  So the one thing that can go wrong is
a name that stands in the list of parameters twice, wherever that is.

Main definitions:

* `Scriptlet.Store.bindEach` — names bound one after the other, as the loop does it;
* `Scriptlet.FirstRepeated` — the first name of a list that stands further in front as well;
* `Scriptlet.Machine.Entered` — one scope more, and nothing else.

Main results:

* `Scriptlet.Store.binding?_bindEach` — **what the loop binds**, place by place;
* `Scriptlet.run_bindParameters`, `Scriptlet.run_bindParameters_of_firstRepeated` — how the loop
  ends;
* `Scriptlet.call_binds_parameters` — **calls bind parameters by their places**, and all that can
  go wrong before the first statement is a repeated parameter.
-/

import Scriptlet.Proofs.Eval.Sequence
import Scriptlet.Proofs.Eval.Walks

set_option relaxedAutoImplicit false
set_option autoImplicit false

namespace Scriptlet

/-! ### Repeated names -/

/-- **The first name of a list that stands further in front as well**: no name does in front of
it. -/
def FirstRepeated (names : List String) (name : String) : Prop :=
  ∃ front back, names = front ++ name :: back ∧ front.Nodup ∧ name ∈ front

/-- There is one first repeated name at most. -/
theorem FirstRepeated.unique {names : List String} {name other : String}
    (h : FirstRepeated names name) (h' : FirstRepeated names other) : name = other := by
  obtain ⟨front, back, rfl, hfront, hname⟩ := h
  obtain ⟨front', back', heq, hfront', hother⟩ := h'
  rcases List.append_eq_append_iff.1 heq with ⟨between, rfl, hrest⟩ | ⟨between, rfl, hrest⟩
  · cases between with
    | nil => exact (List.cons.inj hrest).1
    | cons first between =>
        obtain rfl := (List.cons.inj hrest).1
        exact absurd rfl ((List.nodup_append.1 hfront').2.2 _ hname _ List.mem_cons_self)
  · cases between with
    | nil => exact (List.cons.inj hrest).1.symm
    | cons first between =>
        obtain rfl := (List.cons.inj hrest).1
        exact absurd rfl ((List.nodup_append.1 hfront).2.2 _ hother _ List.mem_cons_self)

/-- As long as no name was repeated, the next names repeat none either, or there is a first one. -/
theorem nodup_append_or_firstRepeated {front : List String} (h : front.Nodup)
    (rest : List String) :
    (front ++ rest).Nodup ∨ ∃ name, FirstRepeated (front ++ rest) name := by
  induction rest generalizing front with
  | nil => exact Or.inl (by rwa [List.append_nil])
  | cons name rest ih =>
      by_cases hname : name ∈ front
      · exact Or.inr ⟨name, front, rest, rfl, h, hname⟩
      · have hfront : (front ++ [name]).Nodup := by
          refine List.nodup_append.2 ⟨h, List.nodup_singleton name, fun a ha b hb => ?_⟩
          rw [List.mem_singleton.1 hb]
          exact ne_of_mem_of_not_mem ha hname
        have hrest := ih hfront
        rwa [List.append_assoc, List.singleton_append] at hrest

/-- Either no name of a list is repeated or there is a first one that is. -/
theorem nodup_or_firstRepeated (names : List String) :
    names.Nodup ∨ ∃ name, FirstRepeated names name :=
  nodup_append_or_firstRepeated List.nodup_nil names

/-! ### Names bound one after the other -/

namespace Store

/-- **Names bound in a scope one after the other**, each to the argument at its place, or to null
where no argument is left; none of them is a constant. -/
def bindEach (s : Nat) : List String → List Value → Store → Store
  | [], _, store => store
  | name :: names, arguments, store =>
      bindEach s names arguments.tail (store.bind s name ⟨arguments.head?.getD .null, false⟩)

variable (s : Nat) (names : List String) (arguments : List Value) (store : Store)

/-- No scope is made. -/
@[simp] theorem size_bindEach :
    (bindEach s names arguments store).scopes.size = store.scopes.size := by
  induction names generalizing arguments store with
  | nil => rfl
  | cons name names ih => rw [bindEach, ih, size_bind]

@[simp] theorem objects_bindEach : (bindEach s names arguments store).objects = store.objects := by
  induction names generalizing arguments store with
  | nil => rfl
  | cons name names ih => rw [bindEach, ih, bind]

@[simp] theorem natives_bindEach : (bindEach s names arguments store).natives = store.natives := by
  induction names generalizing arguments store with
  | nil => rfl
  | cons name names ih => rw [bindEach, ih, bind]

@[simp] theorem parent_bindEach (t : Nat) :
    ((bindEach s names arguments store).scope t).parent = (store.scope t).parent := by
  induction names generalizing arguments store with
  | nil => rfl
  | cons name names ih => rw [bindEach, ih, parent_bind]

variable {s names}

/-- Other scopes are not concerned. -/
theorem scope_bindEach_of_ne {t : Nat} (h : s ≠ t) :
    (bindEach s names arguments store).scope t = store.scope t := by
  induction names generalizing arguments store with
  | nil => rfl
  | cons name names ih => rw [bindEach, ih, scope_bind, if_neg fun hs => h hs.1]

/-- Other names are not concerned. -/
theorem binding?_bindEach_of_notMem {other : String} (h : other ∉ names) :
    (bindEach s names arguments store).binding? s other = store.binding? s other := by
  induction names generalizing arguments store with
  | nil => rfl
  | cons name names ih =>
      obtain ⟨hne, hrest⟩ := not_or.1 (List.mem_cons.not.1 h)
      rw [bindEach, ih _ _ hrest, binding?_bind, if_neg fun hs => hne hs.2.symm]

/-- **What is bound in the end**: each name to the argument at its place, if no name is repeated. -/
theorem binding?_bindEach (hs : s < store.scopes.size) (hnodup : names.Nodup) {i : Nat}
    {name : String} (hname : names[i]? = some name) :
    (bindEach s names arguments store).binding? s name
      = some ⟨arguments[i]?.getD .null, false⟩ := by
  induction names generalizing i arguments store with
  | nil => cases hname
  | cons first names ih =>
      obtain ⟨hfirst, hrest⟩ := List.nodup_cons.1 hnodup
      rw [bindEach]
      cases i with
      | zero =>
          obtain rfl : first = name := by simpa using hname
          rw [binding?_bindEach_of_notMem _ _ hfirst, binding?_bind, if_pos ⟨⟨rfl, hs⟩, rfl⟩,
            List.head?_eq_getElem?]
      | succ i =>
          rw [ih _ _ (by simpa using hs) hrest (by simpa using hname), List.getElem?_tail]

/-- A name that is among those bound is bound in the end. -/
theorem binding?_bindEach_ne_none (hs : s < store.scopes.size) (hnodup : names.Nodup)
    {name : String} (h : name ∈ names) :
    (bindEach s names arguments store).binding? s name ≠ none := by
  obtain ⟨i, hi⟩ := List.mem_iff_getElem?.1 h
  rw [binding?_bindEach _ _ hs hnodup hi]
  exact Option.some_ne_none _

end Store

/-! ### The loop over the parameters -/

/-- The parameters behind others take the arguments that those have left. -/
theorem bindParameters_append (scope : Nat) (front rest : List String) (arguments : List Value) :
    bindParameters scope (front ++ rest) arguments
      = bindParameters scope front arguments >>= fun _ =>
          bindParameters scope rest (arguments.drop front.length) := by
  induction front generalizing arguments with
  | nil => rfl
  | cons name front ih =>
      simp only [List.cons_append, bindParameters, ih, bind_assoc, List.length_cons,
        List.drop_tail]

/-- **Parameters that are not repeated are bound**, all of them, in a scope that does not bind them
yet. -/
theorem run_bindParameters {scope : Nat} {parameters : List String} (arguments : List Value)
    {machine : Machine} (hnodup : parameters.Nodup)
    (hfree : ∀ name ∈ parameters, machine.store.binding? scope name = none) :
    (bindParameters scope parameters arguments).run machine
      = (.ok (), { machine with store := machine.store.bindEach scope parameters arguments }) := by
  induction parameters generalizing arguments machine with
  | nil => rfl
  | cons name parameters ih =>
      obtain ⟨hname, hrest⟩ := List.nodup_cons.1 hnodup
      have hdeclare : machine.store.declare scope name (arguments.head?.getD .null) false = .ok _ :=
        Store.declare_eq_ok.2 ⟨hfree name List.mem_cons_self, rfl⟩
      rw [bindParameters, Eval.run_bind, Eval.run_declare, hdeclare]
      refine ih arguments.tail hrest fun other hother => ?_
      have hne : name ≠ other := fun h => hname (h ▸ hother)
      rw [Store.binding?_bind, if_neg fun h => hne h.2]
      exact hfree other (List.mem_cons_of_mem _ hother)

/-- **The first repeated parameter ends the loop**: those in front of it are bound, and nothing else
is. -/
theorem run_bindParameters_of_firstRepeated {scope : Nat} {front : List String} {name : String}
    (back : List String) (arguments : List Value) {machine : Machine}
    (hscope : scope < machine.store.scopes.size) (hnodup : front.Nodup) (hname : name ∈ front)
    (hfree : ∀ other ∈ front, machine.store.binding? scope other = none) :
    (bindParameters scope (front ++ name :: back) arguments).run machine
      = (.error (.error (.redeclared name)),
        { machine with store := machine.store.bindEach scope front arguments }) := by
  have hbound := Store.binding?_bindEach_ne_none arguments machine.store hscope hnodup hname
  rw [bindParameters_append, Eval.run_bind, run_bindParameters arguments hnodup hfree]
  dsimp only
  rw [bindParameters, Eval.run_bind, Eval.run_declare, Store.declare, Store.contains,
    if_pos (Option.isSome_iff_ne_none.2 hbound)]

/-! ### Calls -/

/-- The value of one statement is that of the statement. -/
theorem evalBlock_singleton (calls : Calls) (scope : Nat) (last : Value) (statement : Stmt) :
    evalBlock calls scope last [statement] = statement.eval calls scope := by
  simp only [evalBlock, bind_pure]

/-- **One scope more**, inside a given one: an event says why, and nothing else is different. -/
structure Machine.Entered (before : Machine) (event : Event) (parent : Nat) (after : Machine) :
    Prop where
  /-- The event is the last one. -/
  events : after.events = before.events.push event
  /-- Nothing was written. -/
  output : after.output = before.output
  /-- The output takes as many more lines. -/
  room : after.room = before.room
  /-- There are the same objects. -/
  objects : after.store.objects = before.store.objects
  /-- There are the same native functions. -/
  natives : after.store.natives = before.store.natives
  /-- There is one scope more. -/
  size : after.store.scopes.size = before.store.scopes.size + 1
  /-- It is inside the given one. -/
  parent : (after.store.scope before.store.scopes.size).parent = some parent
  /-- The scopes that there were are as they were. -/
  scope_eq : ∀ s < before.store.scopes.size, after.store.scope s = before.store.scope s

/-- The state in which a call binds its parameters. -/
def Machine.entering (machine : Machine) (event : Event) (parent : Nat) : Machine :=
  { machine with
    store := (machine.store.newScope (some parent)).2
    events := machine.events.push event }

/-- Nothing is bound in the scope of a call before the parameters are. -/
theorem Machine.binding?_entering (machine : Machine) (event : Event) (parent : Nat)
    (name : String) :
    (machine.entering event parent).store.binding? machine.store.scopes.size name = none := by
  rw [entering, Store.binding?, Store.scope_newScope, if_pos rfl, Table.find?_empty]

/-- The state of a call that has bound some names in its scope. -/
def Machine.entered (machine : Machine) (event : Event) (parent : Nat) (names : List String)
    (arguments : List Value) : Machine :=
  { machine.entering event parent with
    store := (machine.entering event parent).store.bindEach machine.store.scopes.size names
      arguments }

/-- A call that has bound some names in its scope has done nothing else. -/
theorem Machine.entered_entered (machine : Machine) (event : Event) (parent : Nat)
    (names : List String) (arguments : List Value) :
    machine.Entered event parent (machine.entered event parent names arguments) where
  events := rfl
  output := rfl
  room := rfl
  objects := Store.objects_bindEach ..
  natives := Store.natives_bindEach ..
  size := by rw [entered, Store.size_bindEach, entering, Store.size_newScope]
  parent := by rw [entered, Store.parent_bindEach, entering, Store.scope_newScope, if_pos rfl]
  scope_eq s hs := by
    rw [entered, Store.scope_bindEach_of_ne _ _ (Nat.ne_of_gt hs), entering,
      Store.scope_newScope, if_neg (Nat.ne_of_lt hs)]

/-- A call binds the parameters in a new scope, and goes on with the statements there. -/
theorem run_callWithin (depth : Nat) (f : Closure) (arguments : List Value) (machine : Machine) :
    (callWithin (depth + 1) f arguments).run machine
      = (bindParameters machine.store.scopes.size f.parameters arguments >>= fun _ =>
          evalBlock (callWithin depth) machine.store.scopes.size .null f.body).run
            (machine.entering (.calling f.name arguments.length) f.scope) := rfl

/-- **Calls bind parameters by their places.**

If a parameter is repeated, wherever that is and however many arguments there are, then the call
fails because of the first one that is, and whatever the statements of the function are; nothing
was written, no object was made and no scope that there was is different.

If no parameter is repeated, then the statements are run in a new scope inside the one that the
function was declared in.  It binds each parameter to the argument at its place, or to null where
there is none, and nothing else, and none of them is a constant; all else is as it was.  The call
ends as the statements end, with the value of the last one, or with null if there are none. -/
theorem call_binds_parameters (depth : Nat) (f : Closure) (arguments : List Value)
    (machine : Machine) :
    let called := (callWithin (depth + 1) f arguments).run machine
    let fresh := machine.store.scopes.size
    let event := Event.calling f.name arguments.length
    (¬ f.parameters.Nodup → ∃ name stop, FirstRepeated f.parameters name ∧
      called = (.error (.error (.redeclared name)), stop) ∧
      (∀ body, (callWithin (depth + 1) { f with body := body } arguments).run machine = called) ∧
      machine.Entered event f.scope stop) ∧
    (f.parameters.Nodup → ∃ ready, machine.Entered event f.scope ready ∧
      (∀ (i : Nat) (name : String), f.parameters[i]? = some name →
        ready.store.binding? fresh name = some ⟨arguments[i]?.getD .null, false⟩) ∧
      (∀ name, name ∉ f.parameters → ready.store.binding? fresh name = none) ∧
      called = (evalBlock (callWithin depth) fresh .null f.body).run ready ∧
      (f.body = [] → called = (.ok .null, ready)) ∧
      ∀ statements last, f.body = statements ++ [last] →
        called = (do
          let _ ← evalBlock (callWithin depth) fresh .null statements
          last.eval (callWithin depth) fresh).run ready) := by
  intro called fresh event
  have hfresh : fresh < (machine.entering event f.scope).store.scopes.size := by
    rw [Machine.entering, Store.size_newScope]
    exact Nat.lt_succ_self fresh
  have hnone := machine.binding?_entering event f.scope
  refine ⟨fun hrepeated => ?_, fun hnodup => ?_⟩
  · obtain ⟨name, front, back, hnames, hfront, hname⟩ :=
      (nodup_or_firstRepeated f.parameters).resolve_left hrepeated
    have hloop := run_bindParameters_of_firstRepeated back arguments hfresh hfront hname
      fun other _ => hnone other
    rw [← hnames] at hloop
    -- The loop has failed before the statements, which may be any.
    have hfails : ∀ body,
        (callWithin (depth + 1) { f with body := body } arguments).run machine
          = (.error (.error (.redeclared name)),
            machine.entered event f.scope front arguments) := by
      intro body
      have hcall := run_callWithin depth { f with body := body } arguments machine
      rw [Eval.run_bind] at hcall
      dsimp only at hcall
      rwa [hloop] at hcall
    exact ⟨name, _, ⟨front, back, hnames, hfront, hname⟩, hfails f.body,
      fun body => (hfails body).trans (hfails f.body).symm,
      machine.entered_entered event f.scope front arguments⟩
  · have hcalled : called = (evalBlock (callWithin depth) fresh .null f.body).run
        (machine.entered event f.scope f.parameters arguments) := by
      have hcall := run_callWithin depth f arguments machine
      rwa [Eval.run_bind, run_bindParameters arguments hnodup fun name _ => hnone name] at hcall
    refine ⟨_, machine.entered_entered event f.scope f.parameters arguments,
      fun i name hname => Store.binding?_bindEach arguments _ hfresh hnodup hname,
      fun name hname => ?_, hcalled, fun hbody => ?_, fun statements last hbody => ?_⟩
    · rw [Machine.entered, Store.binding?_bindEach_of_notMem _ _ hname]
      exact hnone name
    · rw [hcalled, hbody]
      rfl
    · rw [hcalled, hbody, evalBlock_append]
      simp only [evalBlock_singleton]

/-- A function of three parameters, the last of which is the first one again, is never run; one of
two parameters, called with one argument, has null for the second one. -/
theorem call_binds_parameters_pair :
    (∃ stop, ((callWithin 1 ⟨"f", ["a", "b", "a"], [.expr (.name "b")], 0⟩ []).run
      (Machine.start none).2) = (.error (.error (.redeclared "a")), stop)) ∧
    ∃ stop, ((callWithin 1 ⟨"f", ["a", "b"], [.expr (.name "b")], 0⟩ [.boolean true]).run
      (Machine.start none).2) = (.ok .null, stop) := by
  constructor
  · obtain ⟨name, stop, hname, hcalled, -⟩ :=
      (call_binds_parameters 0 ⟨"f", ["a", "b", "a"], [.expr (.name "b")], 0⟩ []
        (Machine.start none).2).1 (by decide)
    obtain rfl := hname.unique ⟨["a", "b"], [], rfl, by decide, by decide⟩
    exact ⟨stop, hcalled⟩
  · obtain ⟨ready, -, hbound, -, -, -, hlast⟩ :=
      (call_binds_parameters 0 ⟨"f", ["a", "b"], [.expr (.name "b")], 0⟩ [.boolean true]
        (Machine.start none).2).2 (by decide)
    refine ⟨ready, (hlast [] (.expr (.name "b")) rfl).trans ?_⟩
    have hnull := Store.lookUp_of_binding? (hbound 1 "b" rfl)
    change (Eval.lookUp _ "b").run ready = _
    rw [Eval.lookUp, Eval.run_ask, hnull]
    rfl

end Scriptlet
