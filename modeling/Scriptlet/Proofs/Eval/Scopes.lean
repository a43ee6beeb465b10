/-
**What the operations on names do to the scopes.**

For each operation of `Scriptlet.Eval.Store`: when it succeeds, and what every scope of the new
store is.  A binding that is made concerns one name in one scope, a scope that is created concerns
no other scope, and the ancestors of a scope are settled when the scope is created.

Main results:

* `Scriptlet.Store.binding?_bind`, `Scriptlet.Store.parent_bind` — making a binding;
* `Scriptlet.Store.declare_eq_ok`, `Scriptlet.Store.assign_eq_ok` — **when names can be declared
  and assigned to, and what becomes of the store**;
* `Scriptlet.Store.scope_newScope`, `Scriptlet.Store.scope_newRoot` — creating scopes;
* `Scriptlet.Store.chain_congr` — the ancestors of a scope depend on the parents of old scopes.
-/

import Scriptlet.Eval.Store

set_option relaxedAutoImplicit false
set_option autoImplicit false

namespace Scriptlet.Store

/-! ### Looking at a store -/

theorem scope_of_size_le {store : Store} {s : Nat} (h : store.scopes.size ≤ s) :
    store.scope s = ⟨.empty, none⟩ := by
  rw [scope, Array.getD, dif_neg (Nat.not_lt.2 h)]
  rfl

/-- Only scopes that exist bind anything. -/
theorem lt_size_of_binding? {store : Store} {s : Nat} {name : String} {b : Binding}
    (h : store.binding? s name = some b) : s < store.scopes.size := by
  by_cases hs : s < store.scopes.size
  · exact hs
  · rw [binding?, scope_of_size_le (Nat.not_lt.1 hs)] at h
    simp at h

theorem contains_iff {store : Store} {s : Nat} {name : String} :
    store.contains s name ↔ ∃ b, store.binding? s name = some b := by
  rw [contains, Option.isSome_iff_exists]

theorem isConstant_iff {store : Store} {s : Nat} {name : String} :
    store.isConstant s name ↔ ∃ b, store.binding? s name = some b ∧ b.constant = true := by
  rw [isConstant]
  cases store.binding? s name <;> simp

theorem isConstant_of_binding? {store : Store} {s : Nat} {name : String} {b : Binding}
    (h : store.binding? s name = some b) : store.isConstant s name = b.constant := by
  rw [isConstant, h]

/-! ### Making a binding -/

@[simp] theorem size_bind (store : Store) (s : Nat) (name : String) (b : Binding) :
    (store.bind s name b).scopes.size = store.scopes.size := by
  simp [bind]

theorem scope_bind (store : Store) (s t : Nat) (name : String) (b : Binding) :
    (store.bind s name b).scope t
      = if s = t ∧ s < store.scopes.size then
          { store.scope t with bindings := (store.scope t).bindings.insert name b }
        else store.scope t := by
  by_cases ht : t < store.scopes.size
  · by_cases hst : s = t <;> simp [scope, bind, Array.getD, Array.getElem_modify, ht, hst]
  · rw [scope_of_size_le (by simpa using ht), scope_of_size_le (Nat.not_lt.1 ht), if_neg]
    rintro ⟨rfl, h⟩
    exact ht h

@[simp] theorem parent_bind (store : Store) (s t : Nat) (name : String) (b : Binding) :
    ((store.bind s name b).scope t).parent = (store.scope t).parent := by
  rw [scope_bind]
  split <;> rfl

/-- A new binding concerns one name in one scope. -/
theorem binding?_bind (store : Store) (s t : Nat) (name other : String) (b : Binding) :
    (store.bind s name b).binding? t other
      = if (s = t ∧ s < store.scopes.size) ∧ name = other then some b
        else store.binding? t other := by
  rw [binding?, scope_bind]
  by_cases hs : s = t ∧ s < store.scopes.size
  · obtain ⟨rfl, hlt⟩ := hs
    by_cases hname : name = other <;> simp [hlt, hname, binding?]
  · simp [hs, binding?]

/-! ### Declaring and assigning -/

/-- **A name can be declared** where it is not bound. -/
theorem declare_eq_ok {store store' : Store} {s : Nat} {name : String} {value : Value}
    {constant : Bool} :
    store.declare s name value constant = .ok store' ↔
      store.binding? s name = none ∧ store.bind s name ⟨value, constant⟩ = store' := by
  rw [declare, contains]
  cases store.binding? s name <;> simp

theorem assignAlong_eq_ok {store store' : Store} {name : String} {value : Value}
    {scopes : List Nat} (h : store.assignAlong name value scopes = .ok store') :
    ∃ owner ∈ scopes, ∃ old, store.binding? owner name = some ⟨old, false⟩ ∧
      store.bind owner name ⟨value, false⟩ = store' := by
  induction scopes with
  | nil => simp [assignAlong] at h
  | cons s scopes ih =>
      rw [assignAlong] at h
      cases hb : store.binding? s name with
      | none =>
          simp only [hb] at h
          obtain ⟨owner, howner, hrest⟩ := ih h
          exact ⟨owner, List.mem_cons_of_mem _ howner, hrest⟩
      | some b =>
          obtain ⟨old, constant⟩ := b
          cases constant with
          | true => simp [hb] at h
          | false =>
              simp only [hb, Bool.false_eq_true, if_false, Except.ok.injEq] at h
              exact ⟨s, List.mem_cons_self, old, hb, h⟩

/-- **A name that was assigned to** was bound, and not to a constant. -/
theorem assign_eq_ok {store store' : Store} {s : Nat} {name : String} {value : Value}
    (h : store.assign s name value = .ok store') :
    ∃ owner ∈ store.chain s, ∃ old, store.binding? owner name = some ⟨old, false⟩ ∧
      store.bind owner name ⟨value, false⟩ = store' := assignAlong_eq_ok h

/-! ### Creating scopes -/

theorem size_newScope (store : Store) (parent : Option Nat) :
    (store.newScope parent).2.scopes.size = store.scopes.size + 1 := Array.size_push _

theorem size_newRoot (store : Store) (constants : List (String × Value)) :
    (store.newRoot constants).2.scopes.size = store.scopes.size + 1 := Array.size_push _

/-- A scope that is created concerns no other scope. -/
theorem scope_newScope (store : Store) (parent : Option Nat) (s : Nat) :
    (store.newScope parent).2.scope s
      = if s = store.scopes.size then ⟨.empty, parent⟩ else store.scope s := by
  simp only [newScope, scope, Array.getD_eq_getD_getElem?, Array.getElem?_push]
  split <;> rfl

theorem scope_newRoot (store : Store) (constants : List (String × Value)) (s : Nat) :
    (store.newRoot constants).2.scope s
      = if s = store.scopes.size then
          ⟨Table.ofList (constants.map fun entry => (entry.1, ⟨entry.2, true⟩)), none⟩
        else store.scope s := by
  simp only [newRoot, scope, Array.getD_eq_getD_getElem?, Array.getElem?_push]
  split <;> rfl

/-! ### Ancestors -/

theorem chainFrom_eq_cons (store : Store) (steps s : Nat) :
    ∃ rest, store.chainFrom steps s = s :: rest := by
  cases steps with
  | zero => exact ⟨[], rfl⟩
  | succ steps =>
      rw [chainFrom]
      split
      · split
        · exact ⟨_, rfl⟩
        · exact ⟨[], rfl⟩
      · exact ⟨[], rfl⟩

/-- A scope without a parent has no ancestors. -/
theorem chainFrom_of_parent_eq_none {store : Store} {steps s : Nat}
    (h : (store.scope s).parent = none) : store.chainFrom steps s = [s] := by
  cases steps with
  | zero => rfl
  | succ steps => rw [chainFrom, h]

/-- The ancestors of a scope are its parent and the ancestors of that. -/
theorem chainFrom_of_parent_lt {store : Store} {steps s parent : Nat}
    (h : (store.scope s).parent = some parent) (hlt : parent < s) :
    store.chainFrom (steps + 1) s = s :: store.chainFrom steps parent := by
  rw [chainFrom, h]
  exact if_pos hlt

/-- A scope comes first among itself and its ancestors. -/
theorem chain_eq_cons (store : Store) (s : Nat) : ∃ rest, store.chain s = s :: rest :=
  store.chainFrom_eq_cons s s

/-- Where there is no scope there are no ancestors. -/
theorem chain_of_size_le {store : Store} {s : Nat} (h : store.scopes.size ≤ s) :
    store.chain s = [s] := by
  cases s with
  | zero => rfl
  | succ s => rw [chain, chainFrom, scope_of_size_le h]

theorem le_of_mem_chainFrom {store : Store} {steps s t : Nat}
    (h : t ∈ store.chainFrom steps s) : t ≤ s := by
  induction steps generalizing s with
  | zero => exact Nat.le_of_eq (List.mem_singleton.1 h)
  | succ steps ih =>
      rw [chainFrom] at h
      split at h
      · split at h
        · next hlt =>
          rcases List.mem_cons.1 h with rfl | h
          · exact Nat.le_refl _
          · exact Nat.le_of_lt (Nat.lt_of_le_of_lt (ih h) hlt)
        · exact Nat.le_of_eq (List.mem_singleton.1 h)
      · exact Nat.le_of_eq (List.mem_singleton.1 h)

/-- Ancestors are older. -/
theorem le_of_mem_chain {store : Store} {s t : Nat} (h : t ∈ store.chain s) : t ≤ s :=
  le_of_mem_chainFrom h

theorem chainFrom_congr {store store' : Store} {steps s : Nat}
    (h : ∀ t ≤ s, (store'.scope t).parent = (store.scope t).parent) :
    store'.chainFrom steps s = store.chainFrom steps s := by
  induction steps generalizing s with
  | zero => rfl
  | succ steps ih =>
      rw [chainFrom, chainFrom, h s (Nat.le_refl s)]
      split
      · split
        · next hlt => rw [ih fun t ht => h t (by omega)]
        · rfl
      · rfl

/-- The ancestors of a scope depend on the parents of scopes that are no younger. -/
theorem chain_congr {store store' : Store} {s : Nat}
    (h : ∀ t ≤ s, (store'.scope t).parent = (store.scope t).parent) :
    store'.chain s = store.chain s := chainFrom_congr h

end Scriptlet.Store
