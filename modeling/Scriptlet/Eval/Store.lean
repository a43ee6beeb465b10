/-
**Scopes and objects.**

The store holds all scopes and objects that were ever created, each at the place where it was
created.  A scope binds names and may have a parent, which is older; a name means what the nearest
scope on the way up binds it to.  Objects are never changed.

Main definitions:

* `Scriptlet.Binding`, `Scriptlet.Scope`, `Scriptlet.Store` — **the store**;
* `Scriptlet.Store.chain` — a scope and its ancestors, from the nearest to the farthest;
* `Scriptlet.Store.resolve`, `Scriptlet.Store.lookUp`, `Scriptlet.Store.assign`,
  `Scriptlet.Store.declare` — **the operations on names**;
* `Scriptlet.Store.newScope`, `Scriptlet.Store.newRoot`, `Scriptlet.Store.newObject`,
  `Scriptlet.Store.newNative` — what creates something.
-/

import Scriptlet.Eval.Fault
import Scriptlet.Eval.Value

set_option relaxedAutoImplicit false
set_option autoImplicit false

namespace Scriptlet

/-- What a name is bound to. -/
structure Binding where
  /-- The value. -/
  value : Value
  /-- Whether the value can never be replaced. -/
  constant : Bool

/-- **A scope**: its bindings, and the scope around it. -/
structure Scope where
  /-- The bindings of the scope itself. -/
  bindings : Table Binding
  /-- The scope that is asked for the names that this one does not bind. -/
  parent : Option Nat

instance : Inhabited Scope := ⟨⟨.empty, none⟩⟩

/-- **The store**: scopes and objects, each known by its place. -/
structure Store where
  /-- The scopes, the older ones first. -/
  scopes : Array Scope
  /-- The objects, the older ones first. -/
  objects : Array (Table Value)
  /-- How many native functions there are. -/
  natives : Nat

namespace Store

/-- The store without anything in it. -/
def empty : Store := ⟨#[], #[], 0⟩

/-! ### Looking at a store -/

/-- A scope; where there is none, one that binds nothing. -/
def scope (store : Store) (s : Nat) : Scope := store.scopes.getD s default

/-- What a scope itself binds a name to. -/
def binding? (store : Store) (s : Nat) (name : String) : Option Binding :=
  (store.scope s).bindings.find? name

/-- Whether a scope itself binds a name. -/
def contains (store : Store) (s : Nat) (name : String) : Bool := (store.binding? s name).isSome

/-- Whether a scope itself binds a name to a constant. -/
def isConstant (store : Store) (s : Nat) (name : String) : Bool :=
  match store.binding? s name with
  | some binding => binding.constant
  | none => false

/-- A scope and its ancestors, as long as each parent is older, for a given number of steps. -/
def chainFrom (store : Store) : (steps : Nat) → Nat → List Nat
  | 0, s => [s]
  | steps + 1, s =>
      match (store.scope s).parent with
      | some parent => if parent < s then s :: store.chainFrom steps parent else [s]
      | none => [s]

/-- **A scope and its ancestors**, from the nearest to the farthest.  Each is older than the one
before, so there are no more of them than the place of the first one tells. -/
def chain (store : Store) (s : Nat) : List Nat := store.chainFrom s s

/-- The properties of an object; where there is no object, none. -/
def object (store : Store) (id : Nat) : Table Value := store.objects.getD id default

/-! ### Names -/

/-- **The scope that a name means**: the nearest one that binds it. -/
def resolve (store : Store) (s : Nat) (name : String) : Except EvalError Nat :=
  match (store.chain s).find? fun owner => store.contains owner name with
  | some owner => .ok owner
  | none => .error (.unbound name)

/-- **The value of a name**, in the nearest scope that binds it. -/
def lookUp (store : Store) (s : Nat) (name : String) : Except EvalError Value :=
  match (store.chain s).findSome? fun owner => store.binding? owner name with
  | some binding => .ok binding.value
  | none => .error (.unbound name)

/-- Binds a name in a scope, in place of what it was bound to. -/
def bind (store : Store) (s : Nat) (name : String) (binding : Binding) : Store :=
  { store with
    scopes := store.scopes.modify s fun scope =>
      { scope with bindings := scope.bindings.insert name binding } }

/-- Assigns to a name in the first of some scopes that binds it. -/
def assignAlong (store : Store) (name : String) (value : Value) :
    List Nat → Except EvalError Store
  | [] => .error (.unbound name)
  | s :: rest =>
      match store.binding? s name with
      | none => store.assignAlong name value rest
      | some binding =>
          if binding.constant then .error (.constantAssigned name)
          else .ok (store.bind s name ⟨value, false⟩)

/-- **Assigns to a name**, in the nearest scope that binds it. -/
def assign (store : Store) (s : Nat) (name : String) (value : Value) :
    Except EvalError Store :=
  store.assignAlong name value (store.chain s)

/-- **Declares a name** in a scope, which must not bind it already; what is further out does not
matter. -/
def declare (store : Store) (s : Nat) (name : String) (value : Value) (constant : Bool) :
    Except EvalError Store :=
  if store.contains s name then .error (.redeclared name)
  else .ok (store.bind s name ⟨value, constant⟩)

/-! ### Creation -/

/-- Creates a scope without bindings. -/
def newScope (store : Store) (parent : Option Nat) : Nat × Store :=
  (store.scopes.size, { store with scopes := store.scopes.push ⟨.empty, parent⟩ })

/-- Creates a scope without a parent that binds names to constants. -/
def newRoot (store : Store) (constants : List (String × Value)) : Nat × Store :=
  let bindings := Table.ofList (constants.map fun entry => (entry.1, ⟨entry.2, true⟩))
  (store.scopes.size, { store with scopes := store.scopes.push ⟨bindings, none⟩ })

/-- Creates an object. -/
def newObject (store : Store) (properties : Table Value) : Nat × Store :=
  (store.objects.size, { store with objects := store.objects.push properties })

/-- Creates a native function. -/
def newNative (store : Store) (name : String) (action : Action) : Native × Store :=
  (⟨store.natives, name, action⟩, { store with natives := store.natives + 1 })

end Store

end Scriptlet
