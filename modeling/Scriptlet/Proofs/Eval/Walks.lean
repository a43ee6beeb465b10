/-
**Names are sought from scope to scope.**

To look a name up, to assign to it and to find out which scope it means, one goes from a scope to
the one around it, until some scope binds the name or there is no scope around any more.  These are
three walks, each written for itself.  Here they are brought together: they end, they end in the
same scope, and what they do there concerns one binding and nothing else.

Main definitions:

* `Scriptlet.Store.Layered` — every scope is inside an older one;
* `Scriptlet.Store.Lineage` — **a scope and the scopes around it**;
* `Scriptlet.Store.Walk` — a walk for a name, with the number of scopes that are looked at;
* `Scriptlet.Store.Nearest` — the nearest scope that binds a name;
* `Scriptlet.Store.EndsAt` — where the operations on names end;
* `Scriptlet.Store.Rebound` — one binding is made, and all else stays as it is;
* `Scriptlet.Eval.assignFrom` — assignment without asking first which scope the name means.

Main results:

* `Scriptlet.Store.Layered.lineage` — the scopes around a scope are finitely many and known;
* `Scriptlet.Store.Lineage.walk`, `Scriptlet.Store.Layered.walk` — **walks end**, after no more
  scopes than there are, and the operations on names with them;
* `Scriptlet.Store.nearest_cases` — where all three operations end up;
* `Scriptlet.Eval.names_agree` — **the operations on names agree**, and change their target only.
-/

import Scriptlet.Proofs.Eval.Locality
import Scriptlet.Proofs.Eval.Permanence

set_option relaxedAutoImplicit false
set_option autoImplicit false

namespace Scriptlet

namespace Store

/-! ### The scopes around a scope -/

/-- **A scope and the scopes around it**, from the nearest to the farthest, which is inside no
other. -/
inductive Lineage (store : Store) : Nat → List Nat → Prop
  /-- A scope that is inside no other. -/
  | root {s : Nat} (h : (store.scope s).parent = none) : Lineage store s [s]
  /-- A scope inside another one. -/
  | inside {s t : Nat} {around : List Nat} (h : (store.scope s).parent = some t)
      (ht : Lineage store t around) : Lineage store s (s :: around)

/-- **Every scope is inside an older one**, or inside none.  A scope is put into one that there is
already, and never moved. -/
def Layered (store : Store) : Prop := ∀ {s t : Nat}, (store.scope s).parent = some t → t < s

variable {store : Store}

/-- Every scope that a host or a run has made is inside an older one. -/
theorem Built.layered (h : store.Built) : store.Layered := h.wellFormed.parent_lt

theorem Lineage.unique {s : Nat} {scopes others : List Nat} (h : store.Lineage s scopes)
    (h' : store.Lineage s others) : scopes = others := by
  induction h generalizing others with
  | root hnone =>
      cases h' with
      | root => rfl
      | inside hsome => rw [hnone] at hsome; cases hsome
  | inside hsome _ ih =>
      cases h' with
      | root hnone => rw [hnone] at hsome; cases hsome
      | inside hsome' ht =>
          rw [hsome, Option.some_inj] at hsome'
          subst hsome'
          rw [ih ht]

/-- Steps to spare do not make a chain longer. -/
theorem Layered.lineage_chainFrom (h : store.Layered) {steps s : Nat} (hs : s ≤ steps) :
    store.Lineage s (store.chainFrom steps s) := by
  induction steps generalizing s with
  | zero =>
      obtain rfl := Nat.le_zero.1 hs
      cases hp : (store.scope 0).parent with
      | none => exact .root hp
      | some t => exact absurd (h hp) (Nat.not_lt_zero t)
  | succ steps ih =>
      cases hp : (store.scope s).parent with
      | none =>
          rw [chainFrom_of_parent_eq_none hp]
          exact .root hp
      | some t =>
          have hlt : t < s := h hp
          rw [chainFrom_of_parent_lt hp hlt]
          exact .inside hp (ih (by omega))

/-- **The scopes around a scope are finitely many**, and they are those of its chain. -/
theorem Layered.lineage (h : store.Layered) (s : Nat) : store.Lineage s (store.chain s) :=
  h.lineage_chainFrom (Nat.le_refl s)

/-- On the way from a scope to those around it, each is older than all before it. -/
theorem Layered.pairwise_of_lineage (h : store.Layered) {s : Nat} {scopes : List Nat}
    (hs : store.Lineage s scopes) : (∀ t ∈ scopes, t ≤ s) ∧ scopes.Pairwise (· > ·) := by
  induction hs with
  | root => exact ⟨fun t ht => Nat.le_of_eq (List.mem_singleton.1 ht), List.pairwise_singleton _ _⟩
  | inside hp _ ih =>
      have hlt : ∀ u ∈ _, u < _ := fun u hu => Nat.lt_of_le_of_lt (ih.1 u hu) (h hp)
      refine ⟨fun u hu => ?_, List.pairwise_cons.2 ⟨hlt, ih.2⟩⟩
      rcases List.mem_cons.1 hu with rfl | hu
      · exact Nat.le_refl _
      · exact Nat.le_of_lt (hlt u hu)

/-- The chain of a scope goes on with that of the scope around it. -/
theorem Layered.chain_of_parent (h : store.Layered) {s t : Nat}
    (hp : (store.scope s).parent = some t) : store.chain s = s :: store.chain t :=
  (h.lineage s).unique (.inside hp (h.lineage t))

/-! ### Walks -/

/-- **A walk for a name** from a scope outwards: how many scopes are looked at, and which one is
found to bind the name, if any does. -/
inductive Walk (store : Store) (name : String) : Nat → Nat → Option Nat → Prop
  /-- The scope binds the name. -/
  | found {s : Nat} (h : store.contains s name = true) : Walk store name s 1 (some s)
  /-- It does not, and there is no scope around it. -/
  | lost {s : Nat} (h : store.contains s name = false) (hp : (store.scope s).parent = none) :
      Walk store name s 1 none
  /-- It does not, and the walk goes on in the scope around it. -/
  | outwards {s t looked : Nat} {owner : Option Nat} (h : store.contains s name = false)
      (hp : (store.scope s).parent = some t) (ht : Walk store name t looked owner) :
      Walk store name s (looked + 1) owner

/-- **Walks end**, after no more scopes than there are around the first one. -/
theorem Lineage.walk {s : Nat} {scopes : List Nat} (h : store.Lineage s scopes) (name : String) :
    ∃ looked ≤ scopes.length,
      store.Walk name s looked (scopes.find? fun owner => store.contains owner name) := by
  induction h with
  | @root s hnone =>
      refine ⟨1, Nat.le_refl 1, ?_⟩
      cases hc : store.contains s name with
      | true => rw [List.find?_cons, hc]; exact .found hc
      | false => rw [List.find?_cons, hc]; exact .lost hc hnone
  | @inside s t around hsome _ ih =>
      cases hc : store.contains s name with
      | true =>
          rw [List.find?_cons, hc]
          exact ⟨1, by simp, .found hc⟩
      | false =>
          rw [List.find?_cons, hc]
          obtain ⟨looked, hle, hwalk⟩ := ih
          exact ⟨looked + 1, Nat.succ_le_succ hle, .outwards hc hsome hwalk⟩

/-! ### The nearest scope that binds a name -/

theorem binding?_eq_none_iff {s : Nat} {name : String} :
    store.binding? s name = none ↔ ¬ store.contains s name := by
  rw [contains, Option.not_isSome_iff_eq_none]

/-- **The nearest scope that binds a name**: it is one of the chain, and none before it does. -/
def Nearest (store : Store) (s : Nat) (name : String) (owner : Nat) : Prop :=
  ∃ near far, store.chain s = near ++ owner :: far ∧ store.contains owner name ∧
    ∀ t ∈ near, ¬ store.contains t name

theorem resolve_eq_ok_iff_nearest {s owner : Nat} {name : String} :
    store.resolve s name = .ok owner ↔ store.Nearest s name owner := by
  rw [resolve_eq_ok, List.find?_eq_some_iff_append]
  constructor
  · rintro ⟨hc, near, far, hchain, hnear⟩
    exact ⟨near, far, hchain, hc, fun t ht => by simpa using hnear t ht⟩
  · rintro ⟨near, far, hchain, hc, hnear⟩
    exact ⟨hc, near, far, hchain, fun t ht => by simpa using hnear t ht⟩

/-- Scopes that do not bind a name are passed over by an assignment to it. -/
theorem assignAlong_append {name : String} {near far : List Nat}
    (h : ∀ t ∈ near, store.binding? t name = none) (value : Value) :
    store.assignAlong name value (near ++ far) = store.assignAlong name value far := by
  induction near with
  | nil => rfl
  | cons s near ih =>
      rw [List.cons_append, assignAlong, h s List.mem_cons_self]
      exact ih fun t ht => h t (List.mem_cons_of_mem _ ht)

/-- An assignment in a scope that binds the name. -/
theorem assignAlong_of_binding? {owner : Nat} {name : String} {b : Binding}
    (h : store.binding? owner name = some b) (value : Value) (far : List Nat) :
    store.assignAlong name value (owner :: far)
      = if b.constant then .error (.constantAssigned name)
        else .ok (store.bind owner name ⟨value, false⟩) := by
  rw [assignAlong, h]

/-- An assignment from a scope that binds the name is an assignment in it. -/
theorem assign_of_binding? {owner : Nat} {name : String} {b : Binding}
    (h : store.binding? owner name = some b) (value : Value) :
    store.assign owner name value
      = if b.constant then .error (.constantAssigned name)
        else .ok (store.bind owner name ⟨value, false⟩) := by
  obtain ⟨rest, hchain⟩ := store.chain_eq_cons owner
  rw [assign, hchain, assignAlong_of_binding? h]

/-- Where no scope of the chain binds the name, all three operations fail in the same way. -/
theorem unbound_of_forall {s : Nat} {name : String}
    (h : ∀ t ∈ store.chain s, store.binding? t name = none) :
    store.resolve s name = .error (.unbound name) ∧
      store.lookUp s name = .error (.unbound name) ∧
        ∀ value, store.assign s name value = .error (.unbound name) := by
  refine ⟨?_, ?_, fun value => ?_⟩
  · have hfind : (store.chain s).find? (fun owner => store.contains owner name) = none :=
      List.find?_eq_none.2 fun t ht => binding?_eq_none_iff.1 (h t ht)
    rw [resolve, hfind]
  · have hfind : (store.chain s).findSome? (fun owner => store.binding? owner name) = none :=
      List.findSome?_eq_none_iff.2 h
    rw [lookUp, hfind]
  · have halong : store.assignAlong name value (store.chain s ++ [])
        = store.assignAlong name value [] := assignAlong_append h value
    rwa [List.append_nil] at halong

/-- Where a scope of the chain is the first to bind the name, all three operations end up there. -/
theorem bound_of_append {s owner : Nat} {name : String} {near far : List Nat} {b : Binding}
    (hchain : store.chain s = near ++ owner :: far)
    (hnear : ∀ t ∈ near, store.binding? t name = none)
    (hb : store.binding? owner name = some b) :
    store.resolve s name = .ok owner ∧ store.lookUp s name = .ok b.value ∧
      ∀ value, store.assign s name value = store.assign owner name value := by
  refine ⟨resolve_eq_ok_iff_nearest.2 ⟨near, far, hchain, contains_iff.2 ⟨b, hb⟩, fun t ht =>
    binding?_eq_none_iff.1 (hnear t ht)⟩, ?_, fun value => ?_⟩
  · have hfind : near.findSome? (fun owner => store.binding? owner name) = none :=
      List.findSome?_eq_none_iff.2 hnear
    rw [lookUp, hchain, List.findSome?_append, hfind, List.findSome?_cons, hb]
    rfl
  · rw [assign, hchain, assignAlong_append hnear, assignAlong_of_binding? hb,
      assign_of_binding? hb]

/-- **Where the operations on names end up**: either no scope of the chain binds the name and all of
them fail, or they end up in the nearest scope that does. -/
theorem nearest_cases (store : Store) (s : Nat) (name : String) :
    ((∀ t ∈ store.chain s, store.binding? t name = none) ∧
      store.resolve s name = .error (.unbound name) ∧
        store.lookUp s name = .error (.unbound name) ∧
          ∀ value, store.assign s name value = .error (.unbound name)) ∨
    ∃ owner b, store.binding? owner name = some b ∧ store.resolve s name = .ok owner ∧
      store.lookUp s name = .ok b.value ∧
        ∀ value, store.assign s name value = store.assign owner name value := by
  cases hfind : (store.chain s).find? fun owner => store.contains owner name with
  | none =>
      have hnone : ∀ t ∈ store.chain s, store.binding? t name = none := fun t ht =>
        binding?_eq_none_iff.2 (List.find?_eq_none.1 hfind t ht)
      exact Or.inl ⟨hnone, unbound_of_forall hnone⟩
  | some owner =>
      obtain ⟨hc, near, far, hchain, hnear⟩ := List.find?_eq_some_iff_append.1 hfind
      obtain ⟨b, hb⟩ := contains_iff.1 hc
      have hnone : ∀ t ∈ near, store.binding? t name = none := fun t ht =>
        binding?_eq_none_iff.2 (by simpa using hnear t ht)
      exact Or.inr ⟨owner, b, hb, bound_of_append hchain hnone hb⟩

/-- **Where the operations on names end**, given the scope that the walk for the name finds: they do
what they do from there, and if no scope is found they fail. -/
structure EndsAt (store : Store) (s : Nat) (name : String) (owner : Option Nat) : Prop where
  resolve : store.resolve s name = owner.elim (.error (.unbound name)) .ok
  lookUp : store.lookUp s name
    = owner.elim (.error (.unbound name)) fun t => store.lookUp t name
  assign : ∀ value, store.assign s name value
    = owner.elim (.error (.unbound name)) fun t => store.assign t name value

/-- **The operations on names end**, after no more scopes than the chain has. -/
theorem Layered.walk (h : store.Layered) (s : Nat) (name : String) :
    ∃ looked ≤ (store.chain s).length, ∃ owner,
      store.Walk name s looked owner ∧ store.EndsAt s name owner := by
  obtain ⟨looked, hle, hwalk⟩ := (h.lineage s).walk name
  refine ⟨looked, hle, _, hwalk, ?_⟩
  rcases store.nearest_cases s name with
    ⟨hnone, hresolve, hlookUp, hassign⟩ | ⟨owner, b, hb, hresolve, hlookUp, hassign⟩
  · have hfind : (store.chain s).find? (fun owner => store.contains owner name) = none :=
      List.find?_eq_none.2 fun t ht => binding?_eq_none_iff.1 (hnone t ht)
    rw [hfind]
    exact ⟨hresolve, hlookUp, hassign⟩
  · rw [resolve_eq_ok.1 hresolve]
    exact ⟨hresolve, hlookUp.trans (lookUp_of_binding? hb).symm, hassign⟩

theorem resolve_eq_error {s : Nat} {name : String} {error : EvalError}
    (h : store.resolve s name = .error error) :
    error = .unbound name ∧ ∀ t ∈ store.chain s, ¬ store.contains t name := by
  rcases store.nearest_cases s name with ⟨hnone, hresolve, -⟩ | ⟨owner, b, -, hresolve, -⟩
  · rw [hresolve, Except.error.injEq] at h
    exact ⟨h.symm, fun t ht => binding?_eq_none_iff.1 (hnone t ht)⟩
  · rw [hresolve] at h
    cases h

/-- Looking a name up fails where and as asking for its scope does. -/
theorem lookUp_eq_error_iff {s : Nat} {name : String} {error : EvalError} :
    store.lookUp s name = .error error ↔ store.resolve s name = .error error := by
  rcases store.nearest_cases s name with
    ⟨-, hresolve, hlookUp, -⟩ | ⟨owner, b, -, hresolve, hlookUp, -⟩
  · rw [hresolve, hlookUp]
    constructor <;> rintro ⟨⟩ <;> rfl
  · rw [hresolve, hlookUp]
    constructor <;> rintro ⟨⟩

/-- **What the operations make of the nearest scope** that binds a name. -/
theorem of_resolve_eq_ok {s owner : Nat} {name : String} (h : store.resolve s name = .ok owner) :
    ∃ b, store.binding? owner name = some b ∧ store.lookUp s name = .ok b.value ∧
      ∀ value, store.assign s name value = store.assign owner name value := by
  rcases store.nearest_cases s name with ⟨-, hresolve, -⟩ | ⟨owner', b, hb, hresolve, hrest⟩
  · rw [hresolve] at h
    cases h
  · rw [hresolve, Except.ok.injEq] at h
    exact ⟨b, h ▸ hb, hrest.1, h ▸ hrest.2⟩

/-- An assignment fails for want of a binding where asking for the scope does. -/
theorem assign_eq_unbound_iff {s : Nat} {name : String} {value : Value} :
    store.assign s name value = .error (.unbound name)
      ↔ store.resolve s name = .error (.unbound name) := by
  rcases store.nearest_cases s name with
    ⟨-, hresolve, -, hassign⟩ | ⟨owner, b, hb, hresolve, -, hassign⟩
  · rw [hresolve, hassign]
    exact ⟨fun _ => rfl, fun _ => rfl⟩
  · rw [hresolve, hassign, assign_of_binding? hb]
    constructor
    · intro h
      split at h <;> cases h
    · intro h
      cases h

/-! ### One binding is made -/

/-- **One binding is made**, and all else stays as it is: all other bindings, the scopes around
scopes, the objects and the native functions. -/
structure Rebound (store store' : Store) (s : Nat) (name : String) (b : Binding) : Prop where
  /-- The binding. -/
  binding : store'.binding? s name = some b
  /-- All other bindings stay, those of the same name in other scopes among them. -/
  others : ∀ t other, ¬ (t = s ∧ other = name) →
    store'.binding? t other = store.binding? t other
  /-- The scopes around scopes stay. -/
  parents : ∀ t, (store'.scope t).parent = (store.scope t).parent
  /-- There are no more scopes than before. -/
  size : store'.scopes.size = store.scopes.size
  /-- The objects stay. -/
  objects : store'.objects = store.objects
  /-- There are no more native functions than before. -/
  natives : store'.natives = store.natives

theorem rebound_bind {s : Nat} (hs : s < store.scopes.size) (name : String) (b : Binding) :
    store.Rebound (store.bind s name b) s name b where
  binding := by rw [binding?_bind, if_pos ⟨⟨rfl, hs⟩, rfl⟩]
  others t other hne := by
    rw [binding?_bind, if_neg]
    rintro ⟨⟨rfl, -⟩, rfl⟩
    exact hne ⟨rfl, rfl⟩
  parents t := parent_bind ..
  size := size_bind ..
  objects := rfl
  natives := rfl

/-- What is a constant afterwards: what was made so, and all else as before. -/
theorem Rebound.isConstant {store' : Store} {s : Nat} {name : String} {b : Binding}
    (h : store.Rebound store' s name b) (t : Nat) (other : String) :
    store'.isConstant t other
      = if t = s ∧ other = name then b.constant else store.isConstant t other := by
  by_cases hsame : t = s ∧ other = name
  · obtain ⟨rfl, rfl⟩ := hsame
    rw [if_pos ⟨rfl, rfl⟩, isConstant_of_binding? h.binding]
  · rw [if_neg hsame, Store.isConstant, h.others t other hsame, Store.isConstant]

/-- The walk for the name ends where it did, since no scope comes to bind the name that did not. -/
theorem Rebound.lookUp {store' : Store} {s owner : Nat} {name : String} {b : Binding}
    (h : store.Rebound store' owner name b) (hnearest : store.resolve s name = .ok owner) :
    store'.lookUp s name = .ok b.value := by
  obtain ⟨near, far, hchain, hc, hnear⟩ := resolve_eq_ok_iff_nearest.1 hnearest
  have hchain' : store'.chain s = near ++ owner :: far := by
    rw [chain_congr fun t _ => h.parents t, hchain]
  have hnear' : ∀ t ∈ near, store'.binding? t name = none := by
    intro t ht
    have hne : ¬ (t = owner ∧ name = name) := by
      rintro ⟨rfl, -⟩
      exact hnear t ht hc
    rw [h.others t name hne]
    exact binding?_eq_none_iff.2 (hnear t ht)
  exact (bound_of_append hchain' hnear' h.binding).2.1

/-- **An assignment that succeeds** makes one binding, in the nearest scope that bound the name, and
not to a constant. -/
theorem rebound_of_assign {store' : Store} {s : Nat} {name : String} {value : Value}
    (h : store.assign s name value = .ok store') :
    ∃ owner, store.resolve s name = .ok owner ∧ store.isConstant owner name = false ∧
      store.Rebound store' owner name ⟨value, false⟩ := by
  rcases store.nearest_cases s name with
    ⟨-, -, -, hassign⟩ | ⟨owner, b, hb, hresolve, -, hassign⟩
  · rw [hassign] at h
    cases h
  · rw [hassign, assign_of_binding? hb] at h
    split at h
    · cases h
    · next hconstant =>
      obtain rfl := Except.ok.inj h
      refine ⟨owner, hresolve, ?_, rebound_bind (lt_size_of_binding? hb) name _⟩
      rw [isConstant_of_binding? hb]
      exact Bool.not_eq_true _ ▸ hconstant

/-- **A declaration that succeeds** makes one binding, in the scope itself. -/
theorem rebound_of_declare {store' : Store} {s : Nat} (hs : s < store.scopes.size) {name : String}
    {value : Value} {constant : Bool} (h : store.declare s name value constant = .ok store') :
    store.Rebound store' s name ⟨value, constant⟩ := by
  obtain ⟨-, rfl⟩ := declare_eq_ok.1 h
  exact rebound_bind hs name _

end Store

/-! ### The operations of a run -/

namespace Eval

/-- Assigns to a name from a scope, without asking first which scope the name means, and returns the
value. -/
def assignFrom (scope : Nat) (name : String) (value : Value) : Eval Value := do
  change fun store => store.assign scope name value
  return value

section Results

variable {α : Type} {step : Store → Except EvalError Store} {a result : α} {fault : Fault}
  {machine later : Machine}

/-- A change of the store that is made to return something. -/
theorem run_change_pure (step : Store → Except EvalError Store) (a : α) (machine : Machine) :
    (change step >>= fun _ => pure a).run machine
      = match step machine.store with
        | .ok store => (.ok a, { machine with store := store })
        | .error error => (.error (.error error), machine) := by
  rw [run_bind, run_change]
  cases step machine.store <;> rfl

/-- A change that succeeds changes the store and nothing else. -/
theorem change_pure_eq_ok
    (h : (change step >>= fun _ => pure a).run machine = (.ok result, later)) :
    a = result ∧ ∃ store, step machine.store = .ok store ∧
      { machine with store := store } = later := by
  rw [run_change_pure] at h
  cases hstep : step machine.store with
  | error error => rw [hstep] at h; cases h
  | ok store => rw [hstep] at h; cases h; exact ⟨rfl, store, rfl, rfl⟩

/-- A change that fails leaves the state as it is. -/
theorem change_pure_eq_error
    (h : (change step >>= fun _ => pure a).run machine = (.error fault, later)) :
    later = machine := by
  rw [run_change_pure] at h
  cases hstep : step machine.store with
  | error error => rw [hstep] at h; cases h; rfl
  | ok store => rw [hstep] at h; cases h

end Results

theorem run_assignFrom (scope : Nat) (name : String) (value : Value) (machine : Machine) :
    (assignFrom scope name value).run machine
      = match machine.store.assign scope name value with
        | .ok store => (.ok value, { machine with store := store })
        | .error error => (.error (.error error), machine) := run_change_pure _ value machine

theorem run_declare (scope : Nat) (name : String) (value : Value) (constant : Bool)
    (machine : Machine) :
    (declare scope name value constant).run machine
      = match machine.store.declare scope name value constant with
        | .ok store => (.ok value, { machine with store := store })
        | .error error => (.error (.error error), machine) := run_change_pure _ value machine

/-- **Asking first makes no difference**: an assignment in the scope that the name means does what
an assignment from a scope inside it does. -/
theorem run_assign (scope : Nat) (name : String) (value : Value) (machine : Machine) :
    (assign scope name value).run machine = (assignFrom scope name value).run machine := by
  rw [assign, run_bind, run_ask, run_assignFrom]
  rcases machine.store.nearest_cases scope name with
    ⟨-, hresolve, -, hassign⟩ | ⟨owner, b, -, hresolve, -, hassign⟩
  · rw [hresolve, hassign]
    rfl
  · rw [hresolve, hassign]
    exact run_assignFrom owner name value machine

/-- **The operations on names agree**, and change their target only.

From a scope of a store in which scopes are inside older ones, as in all that a host builds: the
scopes that are sought through are those around the scope, and finitely many.  The scope that the
name means is the nearest that binds it; if there is none, then asking for the scope, looking the
name up and assigning to it fail in the same way, and only then do they fail in that way.  Otherwise
the value of the name is what that scope binds it to, and an assignment from either scope, asking
first or not, does the same: it fails if the name is bound to a constant there, and only then.  An
assignment that succeeds, and a declaration that does, yield the value, which the name has from then
on; nothing but that one binding is new.  A declaration fails if the scope itself binds the name,
and only then.  Whatever fails leaves the state as it is. -/
theorem names_agree {machine : Machine} (hlayered : machine.store.Layered) {s : Nat}
    (hs : s < machine.store.scopes.size) (name : String) (value : Value) (constant : Bool) :
    let store := machine.store
    store.Lineage s (store.chain s) ∧
    (∀ owner, store.resolve s name = .ok owner ↔ store.Nearest s name owner) ∧
    (∀ error, store.resolve s name = .error error →
      error = .unbound name ∧ ∀ t ∈ store.chain s, ¬ store.contains t name) ∧
    (∀ error, store.lookUp s name = .error error ↔ store.resolve s name = .error error) ∧
    (store.assign s name value = .error (.unbound name)
      ↔ store.resolve s name = .error (.unbound name)) ∧
    (∀ owner, store.resolve s name = .ok owner →
      (∃ b, store.binding? owner name = some b ∧ store.lookUp s name = .ok b.value) ∧
      (assignFrom s name value).run machine = (assignFrom owner name value).run machine ∧
      (assign s name value).run machine = (assignFrom owner name value).run machine ∧
      (store.isConstant owner name →
        ((assignFrom s name value).run machine).1
          = .error (.error (.constantAssigned name))) ∧
      (¬ store.isConstant owner name →
        ((assignFrom s name value).run machine).1 = .ok value)) ∧
    (∀ result later, (assignFrom s name value).run machine = (.ok result, later) →
      result = value ∧ later.store.lookUp s name = .ok value ∧
      later = { machine with store := later.store } ∧
      (∃ owner, store.resolve s name = .ok owner ∧
        store.Rebound later.store owner name ⟨value, false⟩) ∧
      ∀ t other, later.store.isConstant t other = store.isConstant t other) ∧
    (∀ result later, (declare s name value constant).run machine = (.ok result, later) →
      result = value ∧ later.store.lookUp s name = .ok value ∧
      later = { machine with store := later.store } ∧
      store.Rebound later.store s name ⟨value, constant⟩ ∧
      ∀ t other, later.store.isConstant t other
        = if t = s ∧ other = name then constant else store.isConstant t other) ∧
    (store.contains s name →
      (declare s name value constant).run machine
        = (.error (.error (.redeclared name)), machine)) ∧
    (¬ store.contains s name →
      ((declare s name value constant).run machine).1 = .ok value) ∧
    (∀ fault later, (declare s name value constant).run machine = (.error fault, later) ∨
      (assignFrom s name value).run machine = (.error fault, later) ∨
      (assign s name value).run machine = (.error fault, later) → later = machine) := by
  intro store
  refine ⟨hlayered.lineage s, fun owner => Store.resolve_eq_ok_iff_nearest,
    fun error => Store.resolve_eq_error, fun error => Store.lookUp_eq_error_iff,
    Store.assign_eq_unbound_iff, fun owner howner => ?_, fun result later hrun => ?_,
    fun result later hrun => ?_, fun hbound => ?_, fun hfree => ?_, fun fault later hrun => ?_⟩
  · obtain ⟨b, hb, hlookUp, hassign⟩ := Store.of_resolve_eq_ok howner
    have hsame : (assignFrom s name value).run machine
        = (assignFrom owner name value).run machine := by
      rw [run_assignFrom, run_assignFrom, hassign]
    refine ⟨⟨b, hb, hlookUp⟩, hsame, (run_assign ..).trans hsame, fun hconstant => ?_,
      fun hconstant => ?_⟩
    · rw [Store.isConstant_of_binding? hb] at hconstant
      rw [hsame, run_assignFrom, Store.assign_of_binding? hb, if_pos hconstant]
    · rw [Store.isConstant_of_binding? hb] at hconstant
      rw [hsame, run_assignFrom, Store.assign_of_binding? hb, if_neg hconstant]
  · obtain ⟨rfl, store', hassign, rfl⟩ := change_pure_eq_ok hrun
    obtain ⟨owner, hresolve, hconstant, hrebound⟩ := Store.rebound_of_assign hassign
    refine ⟨rfl, hrebound.lookUp hresolve, rfl, ⟨owner, hresolve, hrebound⟩, fun t other => ?_⟩
    -- the flag of the one binding is made anew, but as it was
    rw [hrebound.isConstant]
    split
    · next hsame =>
      obtain ⟨rfl, rfl⟩ := hsame
      exact hconstant.symm
    · rfl
  · obtain ⟨rfl, store', hdeclare, rfl⟩ := change_pure_eq_ok hrun
    have hrebound := Store.rebound_of_declare hs hdeclare
    exact ⟨rfl, Store.lookUp_of_binding? hrebound.binding, rfl, hrebound, hrebound.isConstant⟩
  · rw [run_declare, Store.declare, if_pos hbound]
  · rw [run_declare, Store.declare, if_neg hfree]
  · rcases hrun with hrun | hrun | hrun
    · exact change_pure_eq_error hrun
    · exact change_pure_eq_error hrun
    · exact change_pure_eq_error ((run_assign ..).symm.trans hrun)

/-- Of three scopes inside one another the outer two bind `x`, and the outermost the constant `c`.
From the innermost one an assignment to `x` concerns the scope in the middle, and one to `c`
fails. -/
theorem names_agree_shadowed :
    let store : Store :=
      ⟨#[⟨Table.ofList [("c", ⟨.null, true⟩), ("x", ⟨.null, false⟩)], none⟩,
        ⟨Table.ofList [("x", ⟨.boolean true, false⟩)], some 0⟩, ⟨.empty, some 1⟩], #[], 0⟩
    let machine : Machine := { Machine.empty none with store := store }
    store.Layered ∧ 2 < store.scopes.size ∧ store.Nearest 2 "x" 1 ∧
      (assign 2 "x" .null).run machine = (assignFrom 1 "x" .null).run machine ∧
      ((assignFrom 2 "c" .null).run machine).1 = .error (.error (.constantAssigned "c")) := by
  intro store machine
  have hlayered : store.Layered := by
    intro s t h
    match s with
    | 0 => cases h
    | 1 => cases h; decide
    | 2 => cases h; decide
    | s + 3 =>
        rw [Store.scope_of_size_le (show 3 ≤ s + 3 by omega)] at h
        cases h
  have hsize : 2 < store.scopes.size := by decide
  have hx := @names_agree machine hlayered 2 hsize "x" .null false
  have hc := @names_agree machine hlayered 2 hsize "c" .null false
  have hresolve : store.resolve 2 "x" = .ok 1 := by rfl
  exact ⟨hlayered, hsize, (hx.2.1 1).1 hresolve, (hx.2.2.2.2.2.1 1 hresolve).2.2.1,
    (hc.2.2.2.2.2.1 0 rfl).2.2.2.1 rfl⟩

end Eval

end Scriptlet
