/-
**Programs written in another way.**

A program can be written with other names, and a key that stands for the variable of its name can be
written with that variable as its value.  Functions of a store hold parts of programs, and scopes
and objects hold names, so a store is written in another way along with the programs that it came
from.  Here that is done for all that a run is about, and the operations on names are seen to go
through: what they make of a store that is rewritten is what they make of the store, rewritten.

Main definitions:

* `Scriptlet.Rewriting` — **another way to write programs**;
* `Scriptlet.Rewriting.expr`, `Scriptlet.Rewriting.program` — programs;
* `Scriptlet.Rewriting.value`, `Scriptlet.Rewriting.store`, `Scriptlet.Rewriting.machine` —
  **values, stores and states**;
* `Scriptlet.Rewriting.error`, `Scriptlet.Rewriting.outcome` — errors, and how something ends.

Main results:

* `Scriptlet.Rewriting.find?_table`, `Scriptlet.Rewriting.table_ofList` — maps from names;
* `Scriptlet.Rewriting.lookUp_store`, `Scriptlet.Rewriting.declare_store`,
  `Scriptlet.Rewriting.assign_store` — **the operations on names**.
-/

import Mathlib.Logic.Function.Basic
import Scriptlet.Eval.Machine
import Scriptlet.Proofs.Eval.Scopes

set_option relaxedAutoImplicit false
set_option autoImplicit false

namespace Scriptlet

/-- **Another way to write programs**: other names, and keys alone that are written with a value or
not. -/
structure Rewriting where
  /-- What a name becomes. -/
  name : String → String
  /-- Different names stay different. -/
  injective : Function.Injective name
  /-- A number is written as before, so that it names the same property. -/
  name_text : ∀ x : Float, name (Number.text x) = Number.text x
  /-- Whether a key alone gets the variable of its name as its value. -/
  spelled : Bool

namespace Rewriting

variable (r : Rewriting)

/-! ### Programs -/

/-- A key alone. -/
def shorthand (key : String) : Entry :=
  if r.spelled then .pair (r.name key) (.name (r.name key)) else .shorthand (r.name key)

mutual

/-- **An expression, rewritten.** -/
def expr : Expr → Expr
  | .number x => .number x
  | .name n => .name (r.name n)
  | .binary op left right => .binary op (expr left) (expr right)
  | .assign target value => .assign (expr target) (expr value)
  | .call callee arguments => .call (expr callee) (exprs arguments)
  | .dot object property => .dot (expr object) (expr property)
  | .index object property => .index (expr object) (expr property)
  | .object es => .object (entries es)
  | .function f parameters body => .function (r.name f) (parameters.map r.name) (stmts body)

/-- Expressions, rewritten. -/
def exprs : List Expr → List Expr
  | [] => []
  | e :: es => expr e :: exprs es

/-- Entries of an object, rewritten. -/
def entries : List Entry → List Entry
  | [] => []
  | e :: es => entry e :: entries es

/-- An entry of an object, rewritten. -/
def entry : Entry → Entry
  | .shorthand key => r.shorthand key
  | .pair key value => .pair (r.name key) (expr value)

/-- Statements, rewritten. -/
def stmts : List Stmt → List Stmt
  | [] => []
  | s :: ss => stmt s :: stmts ss

/-- A statement, rewritten. -/
def stmt : Stmt → Stmt
  | .declare constant n none => .declare constant (r.name n) none
  | .declare constant n (some value) => .declare constant (r.name n) (some (expr value))
  | .expr e => .expr (expr e)

end

/-- **A program, rewritten.** -/
def program (p : Program) : Program := ⟨r.stmts p.body⟩

/-- The name that an expression consists of is rewritten with it. -/
theorem name?_expr (e : Expr) : (r.expr e).name? = e.name?.map r.name := by
  cases e <;> simp only [expr, Expr.name?, Option.map_none, Option.map_some]

/-- An expression is called the same in a message. -/
theorem kindName_expr (e : Expr) : (r.expr e).kindName = e.kindName := by
  cases e <;> simp only [expr, Expr.kindName]

/-! ### Values, stores and states -/

/-- A function, with its statements rewritten. -/
def closure (f : Closure) : Closure :=
  ⟨r.name f.name, f.parameters.map r.name, r.stmts f.body, f.scope⟩

/-- What a native function does; the name that it is about, if there is one, is rewritten. -/
def action : Action → Action
  | .lookUp n => .lookUp (r.name n)
  | .declare n => .declare (r.name n)
  | a => a

/-- A native function, which is shown under the name that its host has given to it. -/
def native (f : Native) : Native := { f with action := r.action f.action }

/-- **A value, rewritten.** -/
def value : Value → Value
  | .native f => .native (r.native f)
  | .function f => .function (r.closure f)
  | v => v

/-- What a name is bound to, rewritten. -/
def binding (b : Binding) : Binding := ⟨r.value b.value, b.constant⟩

/-- Names and what is stored under them, rewritten. -/
def row {α β : Type} (f : α → β) (entry : String × α) : String × β := (r.name entry.1, f entry.2)

/-- A map from names, rewritten. -/
def table {α β : Type} (f : α → β) (t : Table α) : Table β :=
  Table.ofList (t.entries.map (r.row f))

/-- A scope, rewritten. -/
def scope (s : Scope) : Scope := ⟨r.table r.binding s.bindings, s.parent⟩

/-- **A store, rewritten.** -/
def store (s : Store) : Store :=
  ⟨s.scopes.map r.scope, s.objects.map (r.table r.value), s.natives⟩

/-- An event, rewritten. -/
def event : Event → Event
  | .calling f n => .calling (r.name f) n
  | e => e

/-- **The state of a run, rewritten**; the lines that were written stay as they are. -/
def machine (m : Machine) : Machine :=
  { m with store := r.store m.store, events := m.events.map r.event }

/-- **An error, rewritten.** -/
def error : EvalError → EvalError
  | .redeclared n => .redeclared (r.name n)
  | .unbound n => .unbound (r.name n)
  | .constantAssigned n => .constantAssigned (r.name n)
  | .targetNotName e => .targetNotName (r.expr e)
  | .propertyNotName e => .propertyNotName (r.expr e)
  | .notAnObject key typeName => .notAnObject (r.name key) typeName
  | e => e

/-- How something ends, rewritten. -/
def outcome {α β : Type} (f : α → β) : Except EvalError α → Except EvalError β
  | .ok a => .ok (f a)
  | .error e => .error (r.error e)

theorem value_combine (op : Operator) (v w : Value) :
    r.value (v.combine op w) = (r.value v).combine op (r.value w) := by
  cases v <;> cases w <;> rfl

/-! ### Maps from names -/

section Tables

variable {α β : Type} (f : α → β)

theorem lookup_map_row (n : String) (es : List (String × α)) :
    (es.map (r.row f)).lookup (r.name n) = (es.lookup n).map f := by
  induction es with
  | nil => rfl
  | cons e es ih =>
      obtain ⟨key, v⟩ := e
      rw [List.map_cons, row, List.lookup_cons, List.lookup_cons, ih]
      by_cases h : n = key
      · simp [h]
      · have hname : r.name n ≠ r.name key := fun heq => h (r.injective heq)
        rw [beq_false_of_ne h, beq_false_of_ne hname]

theorem lookup_map_row_of_ne {other : String} (h : ∀ n, r.name n ≠ other)
    (es : List (String × α)) : (es.map (r.row f)).lookup other = none := by
  refine List.lookup_eq_none_iff.2 fun e he => ?_
  obtain ⟨e', -, rfl⟩ := List.mem_map.1 he
  exact bne_iff_ne.2 (h e'.1).symm

/-- What is stored under the names of a map that is made of entries, rewritten. -/
theorem find?_ofList_map_row (n : String) (es : List (String × α)) :
    (Table.ofList (es.map (r.row f))).find? (r.name n) = ((Table.ofList es).find? n).map f := by
  rw [Table.find?_ofList, Table.find?_ofList, ← List.map_reverse, lookup_map_row]

theorem ofList_entries (t : Table α) : Table.ofList t.entries = t :=
  Table.ext_find? fun n => by rw [Table.find?, Table.entries_ofList t.increasing, Table.find?]

/-- **What a map holds under a name that is rewritten.** -/
theorem find?_table (t : Table α) (n : String) :
    (r.table f t).find? (r.name n) = (t.find? n).map f := by
  rw [table, find?_ofList_map_row, ofList_entries]

theorem find?_table_of_ne (t : Table α) {other : String} (h : ∀ n, r.name n ≠ other) :
    (r.table f t).find? other = none := by
  rw [table, Table.find?_ofList, ← List.map_reverse, r.lookup_map_row_of_ne f h]

/-- A map is known by what it holds under names that are rewritten, if it holds nothing else. -/
theorem table_eq {t : Table α} {u : Table β}
    (h : ∀ n, u.find? (r.name n) = (t.find? n).map f)
    (hother : ∀ other, (∀ n, r.name n ≠ other) → u.find? other = none) : r.table f t = u := by
  refine Table.ext_find? fun n => ?_
  by_cases hn : ∃ k, r.name k = n
  · obtain ⟨k, rfl⟩ := hn
    rw [find?_table, h]
  · rw [r.find?_table_of_ne f t (not_exists.1 hn), hother n (not_exists.1 hn)]

/-- A map of entries. -/
theorem table_ofList (es : List (String × α)) :
    r.table f (Table.ofList es) = Table.ofList (es.map (r.row f)) := by
  refine r.table_eq f (fun n => r.find?_ofList_map_row f n es) fun other h => ?_
  rw [Table.find?_ofList, ← List.map_reverse, r.lookup_map_row_of_ne f h]

theorem table_insert (t : Table α) (n : String) (v : α) :
    r.table f (t.insert n v) = (r.table f t).insert (r.name n) (f v) := by
  refine r.table_eq f (fun k => ?_) fun other h => ?_
  · rw [Table.find?_insert, Table.find?_insert, find?_table]
    by_cases hn : n = k
    · rw [if_pos hn, if_pos (congrArg r.name hn), Option.map_some]
    · rw [if_neg hn, if_neg fun heq => hn (r.injective heq)]
  · rw [Table.find?_insert, if_neg (h n), r.find?_table_of_ne f t h]

end Tables

/-! ### Looking at a store -/

theorem scope_store (s : Store) (k : Nat) : (r.store s).scope k = r.scope (s.scope k) := by
  simp only [Store.scope, store, Array.getD_eq_getD_getElem?, Array.getElem?_map]
  cases s.scopes[k]? <;> rfl

theorem object_store (s : Store) (i : Nat) :
    (r.store s).object i = r.table r.value (s.object i) := by
  simp only [Store.object, store, Array.getD_eq_getD_getElem?, Array.getElem?_map]
  cases s.objects[i]? <;> rfl

theorem binding?_store (s : Store) (k : Nat) (n : String) :
    (r.store s).binding? k (r.name n) = (s.binding? k n).map r.binding := by
  rw [Store.binding?, scope_store]
  exact r.find?_table r.binding _ n

theorem contains_store (s : Store) (k : Nat) (n : String) :
    (r.store s).contains k (r.name n) = s.contains k n := by
  rw [Store.contains, binding?_store, Option.isSome_map]
  rfl

theorem chainFrom_store (s : Store) (steps k : Nat) :
    (r.store s).chainFrom steps k = s.chainFrom steps k := by
  induction steps generalizing k with
  | zero => rfl
  | succ steps ih =>
      have hparent : ((r.store s).scope k).parent = (s.scope k).parent := by
        rw [scope_store]
        rfl
      rw [Store.chainFrom, Store.chainFrom, hparent]
      simp only [ih]

/-- Scopes have the same ancestors. -/
theorem chain_store (s : Store) (k : Nat) : (r.store s).chain k = s.chain k :=
  r.chainFrom_store s k k

/-! ### Operations on names -/

/-- **Looking a name up.** -/
theorem lookUp_store (s : Store) (k : Nat) (n : String) :
    (r.store s).lookUp k (r.name n) = r.outcome r.value (s.lookUp k n) := by
  have hfound : ∀ ks : List Nat, (ks.findSome? fun owner => (r.store s).binding? owner (r.name n))
      = (ks.findSome? fun owner => s.binding? owner n).map r.binding := by
    intro ks
    induction ks with
    | nil => rfl
    | cons k ks ih =>
        rw [List.findSome?_cons, List.findSome?_cons, binding?_store, ih]
        cases s.binding? k n <;> rfl
  rw [Store.lookUp, Store.lookUp, chain_store, hfound]
  cases (s.chain k).findSome? fun owner => s.binding? owner n <;> rfl

/-- The scope that a name means. -/
theorem resolve_store (s : Store) (k : Nat) (n : String) :
    (r.store s).resolve k (r.name n) = r.outcome id (s.resolve k n) := by
  rw [Store.resolve, Store.resolve, chain_store]
  simp only [contains_store]
  cases (s.chain k).find? fun owner => s.contains owner n <;> rfl

/-- Making a binding. -/
theorem store_bind (s : Store) (k : Nat) (n : String) (b : Binding) :
    r.store (s.bind k n b) = (r.store s).bind k (r.name n) (r.binding b) := by
  have hscopes : (s.scopes.modify k fun scope =>
        { scope with bindings := scope.bindings.insert n b }).map r.scope
      = (s.scopes.map r.scope).modify k fun scope =>
        { scope with bindings := scope.bindings.insert (r.name n) (r.binding b) } := by
    refine Array.ext (by simp) fun i hi hi' => ?_
    simp only [Array.getElem_map, Array.getElem_modify]
    split
    · rw [scope, table_insert]
      rfl
    · rfl
  simp only [store, Store.bind, hscopes]

/-- **Declaring a name.** -/
theorem declare_store (s : Store) (k : Nat) (n : String) (v : Value) (constant : Bool) :
    (r.store s).declare k (r.name n) (r.value v) constant
      = r.outcome r.store (s.declare k n v constant) := by
  rw [Store.declare, Store.declare, contains_store]
  split
  · rfl
  · exact congrArg Except.ok (r.store_bind s k n ⟨v, constant⟩).symm

/-- **Assigning to a name.** -/
theorem assign_store (s : Store) (k : Nat) (n : String) (v : Value) :
    (r.store s).assign k (r.name n) (r.value v) = r.outcome r.store (s.assign k n v) := by
  rw [Store.assign, Store.assign, chain_store]
  induction s.chain k with
  | nil => rfl
  | cons owner owners ih =>
      rw [Store.assignAlong, Store.assignAlong, binding?_store]
      cases s.binding? owner n with
      | none => exact ih
      | some b =>
          dsimp only [Option.map_some, binding]
          split
          · rfl
          · exact congrArg Except.ok (r.store_bind s owner n ⟨v, false⟩).symm

/-- Creating a scope. -/
theorem newScope_store (s : Store) (parent : Option Nat) :
    (r.store s).newScope parent = ((s.newScope parent).1, r.store (s.newScope parent).2) := by
  simp only [Store.newScope, store, Array.size_map, Array.map_push]
  rfl

/-- Creating an object. -/
theorem newObject_store (s : Store) (properties : Table Value) :
    (r.store s).newObject (r.table r.value properties)
      = ((s.newObject properties).1, r.store (s.newObject properties).2) := by
  simp only [Store.newObject, store, Array.size_map, Array.map_push]

end Rewriting

end Scriptlet
