/-
**What can be reached in a store.**

A scope refers to the scope around it and to what its names are bound to; an object refers to what
it holds; and a value refers to the place of an object or, if it is a function, to the scope that it
was declared in.  What can be reached from some places is what one comes to by following these
references.

Main definitions:

* `Scriptlet.Place` — the places of scopes and objects;
* `Scriptlet.Store.Points` — **what a place refers to**;
* `Scriptlet.Store.Reached` — **what can be reached** from some places;
* `Scriptlet.Store.WellFormed` — references lead somewhere, scopes are inside older ones, and
  objects hold older ones.

Main results:

* `Scriptlet.Store.Reached.of_closed` — nothing outside a closed set is reached from inside it;
* `Scriptlet.Store.WellFormed.declare`, `Scriptlet.Store.WellFormed.assign`,
  `Scriptlet.Store.WellFormed.newScope`, `Scriptlet.Store.WellFormed.newRoot`,
  `Scriptlet.Store.WellFormed.newObject`, `Scriptlet.Store.WellFormed.newNative`,
  `Scriptlet.Store.WellFormed.newStart` — **what a host does with values that there are keeps a
  store well-formed**.
-/

import Mathlib.Tactic.ByContra
import Scriptlet.Proofs.Eval.Scopes
import Scriptlet.Session

set_option relaxedAutoImplicit false
set_option autoImplicit false

namespace Scriptlet

/-! ### Places and references -/

/-- A place of a store: that of a scope, or that of an object. -/
inductive Place where
  | scope (s : Nat)
  | object (i : Nat)
deriving DecidableEq, Repr

/-- The place that a value refers to: an object to its own, and a function to the scope that it was
declared in. -/
def Value.place? : Value → Option Place
  | .object i => some (.object i)
  | .function f => some (.scope f.scope)
  | _ => none

namespace Store

/-- There is something at the place. -/
def Has (store : Store) : Place → Prop
  | .scope s => s < store.scopes.size
  | .object i => i < store.objects.size

instance (store : Store) (p : Place) : Decidable (store.Has p) :=
  match p with
  | .scope s => inferInstanceAs (Decidable (s < store.scopes.size))
  | .object i => inferInstanceAs (Decidable (i < store.objects.size))

theorem Has.mono {store store' : Store} (hscopes : store.scopes.size ≤ store'.scopes.size)
    (hobjects : store.objects.size ≤ store'.objects.size) {p : Place} (h : store.Has p) :
    store'.Has p := by
  cases p with
  | scope s => exact Nat.lt_of_lt_of_le h hscopes
  | object i => exact Nat.lt_of_lt_of_le h hobjects

/-- **What a place refers to.** -/
inductive Points (store : Store) : Place → Place → Prop
  /-- A scope refers to the one around it. -/
  | parent {s t : Nat} (h : (store.scope s).parent = some t) : Points store (.scope s) (.scope t)
  /-- A scope refers to what its names are bound to. -/
  | bound {s : Nat} {name : String} {b : Binding} {p : Place}
      (h : store.binding? s name = some b) (hp : b.value.place? = some p) :
      Points store (.scope s) p
  /-- An object refers to what it holds. -/
  | held {i : Nat} {key : String} {v : Value} {p : Place}
      (h : (store.object i).find? key = some v) (hp : v.place? = some p) :
      Points store (.object i) p

/-- **What can be reached** from some places. -/
inductive Reached (store : Store) (roots : Place → Prop) : Place → Prop
  /-- The places themselves. -/
  | root {p : Place} (h : roots p) : Reached store roots p
  /-- What a place refers to that is reached. -/
  | step {p q : Place} (h : Reached store roots p) (hpq : store.Points p q) :
      Reached store roots q

/-- Nothing outside a closed set is reached from inside it. -/
theorem Reached.of_closed {store : Store} {roots known : Place → Prop}
    (hroots : ∀ p, roots p → known p)
    (hclosed : ∀ p q, known p → store.Points p q → known q) {p : Place}
    (h : store.Reached roots p) : known p := by
  induction h with
  | root h => exact hroots _ h
  | step _ hpq ih => exact hclosed _ _ ih hpq

/-- From a place that refers to nothing, nothing else is reached. -/
theorem Reached.eq_of_not_points {store : Store} {root p : Place}
    (hroot : ∀ q, ¬ store.Points root q) (h : store.Reached (· = root) p) : p = root :=
  h.of_closed (fun _ hp => hp) fun _ _ hp hpq => absurd (hp ▸ hpq) (hroot _)

/-! ### Stores that hold together -/

theorem object_of_size_le {store : Store} {i : Nat} (h : store.objects.size ≤ i) :
    store.object i = .empty := by
  rw [object, Array.getD, dif_neg (Nat.not_lt.2 h)]
  rfl

/-- An object that is created concerns no other object. -/
theorem object_newObject (store : Store) (properties : Table Value) (i : Nat) :
    (store.newObject properties).2.object i
      = if i = store.objects.size then properties else store.object i := by
  simp only [newObject, object, Array.getD_eq_getD_getElem?, Array.getElem?_push]
  split <;> rfl

/-- Only what there is refers to anything. -/
theorem Points.has {store : Store} {p q : Place} (h : store.Points p q) : store.Has p := by
  cases h with
  | @parent s t h =>
      by_contra hs
      rw [scope_of_size_le (Nat.not_lt.1 hs)] at h
      cases h
  | bound h _ => exact lt_size_of_binding? h
  | @held i key v p h _ =>
      by_contra hi
      rw [object_of_size_le (Nat.not_lt.1 hi)] at h
      cases h

/-- **The store holds together**: references lead somewhere, scopes are inside older ones, and
objects hold older ones. -/
structure WellFormed (store : Store) : Prop where
  /-- References lead somewhere. -/
  has : ∀ {p q : Place}, store.Points p q → store.Has q
  /-- Scopes are inside older ones. -/
  parent_lt : ∀ {s t : Nat}, (store.scope s).parent = some t → t < s
  /-- Objects hold older ones. -/
  held_lt : ∀ {i j : Nat} {key : String}, (store.object i).find? key = some (.object j) → j < i

/-- What the value refers to is there. -/
def Holds (store : Store) (v : Value) : Prop := ∀ p, v.place? = some p → store.Has p

theorem wellFormed_empty : empty.WellFormed := by
  refine ⟨fun h => ?_, fun {s t} h => ?_, fun {i j key} h => ?_⟩
  · exact absurd h.has (by cases h <;> exact Nat.not_lt_zero _)
  · rw [scope_of_size_le (Nat.zero_le s)] at h
    cases h
  · rw [object_of_size_le (Nat.zero_le i)] at h
    cases h

namespace WellFormed

variable {store : Store}

/-- A value that there is may be bound to a name. -/
theorem bind (h : store.WellFormed) {s : Nat} {name : String} {b : Binding}
    (hb : store.Holds b.value) : (store.bind s name b).WellFormed := by
  refine ⟨fun {p q} hpq => ?_, fun hparent => ?_, h.held_lt⟩
  · suffices hq : store.Has q from hq.mono (by simp) (by exact Nat.le_refl _)
    cases hpq with
    | parent hparent => exact h.has (.parent ((parent_bind ..).symm.trans hparent))
    | bound hbound hp =>
        rw [binding?_bind] at hbound
        split at hbound
        · obtain rfl := Option.some_inj.1 hbound
          exact hb _ hp
        · exact h.has (.bound hbound hp)
    | held hheld hp => exact h.has (.held hheld hp)
  · exact h.parent_lt ((parent_bind ..).symm.trans hparent)

/-- A value that there is may be declared. -/
theorem declare (h : store.WellFormed) {store' : Store} {s : Nat} {name : String} {v : Value}
    {constant : Bool} (hv : store.Holds v)
    (hdeclare : store.declare s name v constant = .ok store') : store'.WellFormed := by
  obtain ⟨-, rfl⟩ := declare_eq_ok.1 hdeclare
  exact h.bind hv

/-- A value that there is may be assigned. -/
theorem assign (h : store.WellFormed) {store' : Store} {s : Nat} {name : String} {v : Value}
    (hv : store.Holds v) (hassign : store.assign s name v = .ok store') : store'.WellFormed := by
  obtain ⟨owner, -, old, -, rfl⟩ := assign_eq_ok hassign
  exact h.bind hv

/-- A scope may be created, around it one that there is, with values that there are. -/
theorem pushScope (h : store.WellFormed) {scope : Scope}
    (hparent : ∀ t, scope.parent = some t → t < store.scopes.size)
    (hbindings : ∀ name b, scope.bindings.find? name = some b → store.Holds b.value) :
    WellFormed { store with scopes := store.scopes.push scope } := by
  have hscope : ∀ s, ({ store with scopes := store.scopes.push scope } : Store).scope s
      = if s = store.scopes.size then scope else store.scope s := by
    intro s
    simp only [Store.scope, Array.getD_eq_getD_getElem?, Array.getElem?_push]
    split <;> rfl
  refine ⟨fun {p q} hpq => ?_, fun {s t} hp => ?_, h.held_lt⟩
  · suffices hq : store.Has q from hq.mono (by simp) (by exact Nat.le_refl _)
    cases hpq with
    | parent hp =>
        rw [hscope] at hp
        split at hp
        · exact hparent _ hp
        · exact h.has (.parent hp)
    | bound hb hp =>
        rw [binding?, hscope] at hb
        split at hb
        · exact hbindings _ _ hb _ hp
        · exact h.has (.bound hb hp)
    | held hheld hp => exact h.has (.held hheld hp)
  · rw [hscope] at hp
    split at hp
    · next hs => exact hs ▸ hparent _ hp
    · exact h.parent_lt hp

/-- A scope may be created inside one that there is. -/
theorem newScope (h : store.WellFormed) {parent : Option Nat}
    (hparent : ∀ t, parent = some t → t < store.scopes.size) :
    (store.newScope parent).2.WellFormed := by
  refine h.pushScope hparent fun name b hb => ?_
  cases hb

/-- A scope of constants may be created of values that there are. -/
theorem newRoot (h : store.WellFormed) {constants : List (String × Value)}
    (hvalues : ∀ entry ∈ constants, store.Holds entry.2) :
    (store.newRoot constants).2.WellFormed := by
  refine h.pushScope (fun t ht => ?_) fun name b hb => ?_
  · cases ht
  · obtain ⟨entry, hentry, heq⟩ := List.mem_map.1 (Table.mem_of_find?_ofList hb)
    cases heq
    exact hvalues entry hentry

/-- An object may be created of values that there are. -/
theorem newObject (h : store.WellFormed) {properties : Table Value}
    (hvalues : ∀ key v, properties.find? key = some v → store.Holds v) :
    (store.newObject properties).2.WellFormed := by
  refine ⟨fun {p q} hpq => ?_, h.parent_lt, fun {i j key} hheld => ?_⟩
  · suffices hq : store.Has q from hq.mono (by exact Nat.le_refl _) (by simp [Store.newObject])
    cases hpq with
    | parent hp => exact h.has (.parent hp)
    | bound hb hp => exact h.has (.bound hb hp)
    | held hheld hp =>
        rw [object_newObject] at hheld
        split at hheld
        · exact hvalues _ _ hheld _ hp
        · exact h.has (.held hheld hp)
  · rw [object_newObject] at hheld
    split at hheld
    · next hi => exact hi ▸ hvalues _ _ hheld _ rfl
    · exact h.held_lt hheld

theorem newNative (h : store.WellFormed) (name : String) (action : Action) :
    (store.newNative name action).2.WellFormed := by
  refine ⟨fun {p q} hpq => ?_, h.parent_lt, h.held_lt⟩
  have hpq' : store.Points p q := by
    cases hpq with
    | parent hp => exact .parent hp
    | bound hb hp => exact .bound hb hp
    | held hheld hp => exact .held hheld hp
  exact (h.has hpq').mono (Nat.le_refl _) (Nat.le_refl _)

/-- A scope in which scripts can start may be added. -/
theorem newStart (h : store.WellFormed) : store.newStart.2.WellFormed := by
  refine (h.newNative "print" .print).newRoot fun entry hentry p hp => ?_
  simp only [startConstants, List.mem_cons, List.not_mem_nil, or_false] at hentry
  rcases hentry with rfl | rfl | rfl | rfl <;> cases hp

end WellFormed

/-- A scope in which scripts can start refers to nothing. -/
theorem not_points_of_startConstants {store : Store} {s : Nat} {print : Native}
    (h : store.scope s
      = ⟨Table.ofList ((startConstants print).map fun entry => (entry.1, ⟨entry.2, true⟩)), none⟩)
    (p : Place) : ¬ store.Points (.scope s) p := by
  intro hp
  cases hp with
  | parent hparent =>
      rw [h] at hparent
      cases hparent
  | bound hb hp =>
      rw [binding?, h] at hb
      have hmem := Table.mem_of_find?_ofList hb
      simp only [startConstants, List.map_cons, List.map_nil, List.mem_cons, List.not_mem_nil,
        or_false, Prod.mk.injEq] at hmem
      rcases hmem with ⟨-, rfl⟩ | ⟨-, rfl⟩ | ⟨-, rfl⟩ | ⟨-, rfl⟩ <;> cases hp

end Store

end Scriptlet
