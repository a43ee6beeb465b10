/-
**Bindings are permanent, and constants are immutable.**

A scope never loses a binding, and a binding to a constant never changes.  What a name means can
change all the same: a nearer scope may come to bind it, but only because somebody declares it
there.

Everything follows from what one step of the store can do, since `Scriptlet.Proofs.Eval.Steps`
reduces runs and hosts to steps.

Main definitions:

* `Scriptlet.Store.Keeps` — a later store keeps what an earlier one bound;
* `Scriptlet.Store.Declared` — a name was declared in a scope between two stores.

Main results:

* `Scriptlet.Store.Step.keeps`, `Scriptlet.Store.Steps.keeps` — steps keep bindings;
* `Scriptlet.Store.Steps.declared` — what is newly bound was declared;
* `Scriptlet.Store.Steps.resolve_eq_ok` — a name goes on to mean the same scope, or a nearer one
  where it was declared;
* `Scriptlet.Machine.Moves.bindings_permanent` — **bindings are permanent and constants are
  immutable**, whatever is run and whatever a host does.
-/

import Scriptlet.Proofs.Eval.Scopes
import Scriptlet.Proofs.Eval.Steps

set_option relaxedAutoImplicit false
set_option autoImplicit false

namespace Scriptlet

namespace Store

/-! ### Keeping bindings -/

/-- **A later store keeps an earlier one**: its scopes with the scopes around them, and what they
bind, a constant with its value. -/
structure Keeps (earlier later : Store) : Prop where
  /-- Scopes stay. -/
  size_le : earlier.scopes.size ≤ later.scopes.size
  /-- The scope around a scope stays the same. -/
  parent_eq : ∀ s < earlier.scopes.size, (later.scope s).parent = (earlier.scope s).parent
  /-- What is bound stays bound, a constant to the same value. -/
  binding : ∀ {s : Nat} {name : String} {b : Binding}, earlier.binding? s name = some b →
    ∃ value, later.binding? s name = some ⟨value, b.constant⟩ ∧
      (b.constant = true → value = b.value)

namespace Keeps

theorem refl (store : Store) : Keeps store store :=
  ⟨Nat.le_refl _, fun _ _ => rfl, fun h => ⟨_, h, fun _ => rfl⟩⟩

theorem trans {a b c : Store} (hab : Keeps a b) (hbc : Keeps b c) : Keeps a c := by
  refine ⟨Nat.le_trans hab.size_le hbc.size_le, fun s hs => ?_, fun h => ?_⟩
  · rw [hbc.parent_eq s (Nat.lt_of_lt_of_le hs hab.size_le), hab.parent_eq s hs]
  · obtain ⟨v, hv, hconst⟩ := hab.binding h
    obtain ⟨w, hw, hconst'⟩ := hbc.binding hv
    exact ⟨w, hw, fun hc => (hconst' hc).trans (hconst hc)⟩

/-- Nothing is done to the scopes that there were. -/
theorem of_scope_eq {earlier later : Store} (hsize : earlier.scopes.size ≤ later.scopes.size)
    (h : ∀ s < earlier.scopes.size, later.scope s = earlier.scope s) : Keeps earlier later := by
  refine ⟨hsize, fun s hs => by rw [h s hs], fun {s name b} hb => ?_⟩
  have hs := lt_size_of_binding? hb
  exact ⟨b.value, by rw [binding?, h s hs]; exact hb, fun _ => rfl⟩

/-- A binding is made where there was none, or in place of one that was no constant. -/
theorem bind {store : Store} {s : Nat} {name : String} {b : Binding}
    (h : ∀ old, store.binding? s name = some old → old.constant = false ∧ b.constant = false) :
    Keeps store (store.bind s name b) := by
  refine ⟨by simp, by simp, fun {t other old} hold => ?_⟩
  rw [binding?_bind]
  split
  · next hsame =>
    obtain ⟨⟨rfl, -⟩, rfl⟩ := hsame
    obtain ⟨hconst, hconst'⟩ := h old hold
    refine ⟨b.value, ?_, fun hc => ?_⟩
    · rw [hconst, ← hconst']
    · rw [hconst] at hc
      cases hc
  · exact ⟨old.value, hold, fun _ => rfl⟩

end Keeps

/-- What a step does to scopes: it declares a name, it assigns to one, or it leaves the scopes that
there were alone. -/
theorem Step.scopes_cases {store store' : Store} (h : store.Step store') :
    (∃ s name value constant, store.declare s name value constant = .ok store') ∨
      (∃ s name value, store.assign s name value = .ok store') ∨
        (store.scopes.size ≤ store'.scopes.size ∧
          ∀ s < store.scopes.size, store'.scope s = store.scope s) := by
  cases h with
  | declare h => exact Or.inl ⟨_, _, _, _, h⟩
  | assign h => exact Or.inr (Or.inl ⟨_, _, _, h⟩)
  | newScope parent =>
      refine Or.inr (Or.inr ⟨by rw [size_newScope]; omega, fun s hs => ?_⟩)
      rw [scope_newScope, if_neg (Nat.ne_of_lt hs)]
  | newRoot constants =>
      refine Or.inr (Or.inr ⟨by rw [size_newRoot]; omega, fun s hs => ?_⟩)
      rw [scope_newRoot, if_neg (Nat.ne_of_lt hs)]
  | newObject properties => exact Or.inr (Or.inr ⟨Nat.le_refl _, fun _ _ => rfl⟩)
  | newNative name action => exact Or.inr (Or.inr ⟨Nat.le_refl _, fun _ _ => rfl⟩)

/-- **One step keeps all bindings.** -/
theorem Step.keeps {store store' : Store} (h : store.Step store') : Keeps store store' := by
  rcases h.scopes_cases with ⟨s, name, value, constant, h⟩ | ⟨s, name, value, h⟩ | ⟨hsize, h⟩
  · obtain ⟨hnone, rfl⟩ := declare_eq_ok.1 h
    exact .bind fun old hold => by rw [hnone] at hold; cases hold
  · obtain ⟨owner, -, value, hsome, rfl⟩ := assign_eq_ok h
    refine .bind fun old hold => ?_
    rw [hsome, Option.some_inj] at hold
    exact ⟨by rw [← hold], rfl⟩
  · exact .of_scope_eq hsize h

/-- **Steps keep all bindings.** -/
theorem Steps.keeps {earlier later : Store} (h : earlier.Steps later) : Keeps earlier later := by
  induction h with
  | refl => exact .refl _
  | tail _ h ih => exact ih.trans h.keeps

/-! ### New bindings -/

/-- Somewhere on the way from one store to another the name was declared in the scope. -/
def Declared (earlier later : Store) (s : Nat) (name : String) : Prop :=
  ∃ before after value constant, earlier.Steps before ∧
    before.declare s name value constant = .ok after ∧ after.Steps later

/-- A step after which a scope that existed binds a name for the first time declares it there. -/
theorem Step.declare_of_binding? {store store' : Store} (h : store.Step store') {s : Nat}
    {name : String} (hs : s < store.scopes.size) (hnone : store.binding? s name = none)
    (hsome : store'.binding? s name ≠ none) :
    ∃ value constant, store.declare s name value constant = .ok store' := by
  rcases h.scopes_cases with ⟨t, other, value, constant, h⟩ | ⟨t, other, value, h⟩ | ⟨-, h⟩
  · obtain ⟨-, rfl⟩ := declare_eq_ok.1 h
    rw [binding?_bind] at hsome
    split at hsome
    · next hsame =>
      obtain ⟨⟨rfl, -⟩, rfl⟩ := hsame
      exact ⟨value, constant, h⟩
    · exact absurd hnone hsome
  · obtain ⟨owner, -, value, hbound, rfl⟩ := assign_eq_ok h
    rw [binding?_bind] at hsome
    split at hsome
    · next hsame =>
      obtain ⟨⟨rfl, -⟩, rfl⟩ := hsame
      rw [hnone] at hbound
      cases hbound
    · exact absurd hnone hsome
  · rw [binding?, h s hs] at hsome
    exact absurd hnone hsome

/-- **What is newly bound was declared.** -/
theorem Steps.declared {earlier later : Store} (h : earlier.Steps later) {s : Nat} {name : String}
    (hs : s < earlier.scopes.size) (hnone : earlier.binding? s name = none)
    (hsome : later.binding? s name ≠ none) : Declared earlier later s name := by
  induction h with
  | refl => exact absurd hnone hsome
  | @tail mid last hsteps hstep ih =>
      -- either the last step declares the name, or it was declared before
      by_cases hmid : mid.binding? s name = none
      · have hs' : s < mid.scopes.size := Nat.lt_of_lt_of_le hs (Steps.keeps hsteps).size_le
        obtain ⟨value, constant, hdeclare⟩ := hstep.declare_of_binding? hs' hmid hsome
        exact ⟨mid, last, value, constant, hsteps, hdeclare, .refl⟩
      · obtain ⟨before, after, value, constant, h₁, h₂, h₃⟩ := ih hmid
        exact ⟨before, after, value, constant, h₁, h₂, h₃.tail hstep⟩

/-! ### What names mean -/

theorem resolve_eq_ok {store : Store} {s owner : Nat} {name : String} :
    store.resolve s name = .ok owner ↔
      (store.chain s).find? (fun t => store.contains t name) = some owner := by
  rw [resolve]
  split
  · next h => rw [h]; simp
  · next h => rw [h]; simp

/-- Names mean something only in scopes that exist. -/
theorem lt_size_of_resolve {store : Store} {s owner : Nat} {name : String}
    (h : store.resolve s name = .ok owner) : s < store.scopes.size := by
  by_cases hs : s < store.scopes.size
  · exact hs
  · have hfind := Store.resolve_eq_ok.1 h
    have hbound := List.find?_some hfind
    rw [chain_of_size_le (Nat.not_lt.1 hs)] at hfind
    obtain rfl := List.mem_singleton.1 (List.mem_of_find?_eq_some hfind)
    obtain ⟨b, hb⟩ := contains_iff.1 hbound
    exact lt_size_of_binding? hb

/-- The ancestors of a scope stay the same. -/
theorem Keeps.chain_eq {earlier later : Store} (h : Keeps earlier later) {s : Nat}
    (hs : s < earlier.scopes.size) : later.chain s = earlier.chain s :=
  chain_congr fun t ht => h.parent_eq t (Nat.lt_of_le_of_lt ht hs)

theorem Keeps.contains {earlier later : Store} (h : Keeps earlier later) {s : Nat} {name : String}
    (hbound : earlier.contains s name) : later.contains s name := by
  obtain ⟨b, hb⟩ := contains_iff.1 hbound
  obtain ⟨value, hvalue, -⟩ := h.binding hb
  exact contains_iff.2 ⟨_, hvalue⟩

/-- **A name goes on to mean the same scope**, or a nearer one where it was declared. -/
theorem Steps.resolve_eq_ok {earlier later : Store} (h : earlier.Steps later) {s owner : Nat}
    {name : String} (hresolve : earlier.resolve s name = .ok owner) :
    ∃ owner', later.resolve s name = .ok owner' ∧
      (owner' = owner ∨
        [owner', owner].Sublist (later.chain s) ∧ Declared earlier later owner' name) := by
  obtain ⟨howner, near, far, hchain, hnear⟩ :=
    List.find?_eq_some_iff_append.1 (Store.resolve_eq_ok.1 hresolve)
  have hkeeps := Steps.keeps h
  have hs : s < earlier.scopes.size := lt_size_of_resolve hresolve
  have hlater : later.chain s = near ++ owner :: far := by rw [hkeeps.chain_eq hs, hchain]
  -- the scopes in front of the owner did not bind the name, but one of them may do so now
  cases hfind : near.find? (fun t => later.contains t name) with
  | none =>
      refine ⟨owner, Store.resolve_eq_ok.2 ?_, Or.inl rfl⟩
      rw [hlater, List.find?_append, hfind, List.find?_cons, hkeeps.contains howner]
      rfl
  | some owner' =>
      refine ⟨owner', Store.resolve_eq_ok.2 ?_, Or.inr ⟨?_, ?_⟩⟩
      · rw [hlater, List.find?_append, hfind]
        rfl
      · have hmem : owner' ∈ near := List.mem_of_find?_eq_some hfind
        rw [hlater]
        exact (List.singleton_sublist.2 hmem).append (List.singleton_sublist.2 List.mem_cons_self)
      · have hmem : owner' ∈ near := List.mem_of_find?_eq_some hfind
        have hbound := List.find?_some hfind
        have hle : owner' ≤ s := le_of_mem_chain (by rw [hchain]; simp [hmem])
        have hnone : earlier.binding? owner' name = none := by
          simpa [Store.contains] using hnear owner' hmem
        obtain ⟨b, hb⟩ := contains_iff.1 hbound
        exact Steps.declared h (Nat.lt_of_le_of_lt hle hs) hnone (by rw [hb]; simp)

/-! ### Where scripts start -/

/-- The scope that scripts start in binds its names to constants. -/
theorem binding?_newStart {store : Store} {name : String} {value : Value}
    (h : (name, value) ∈ startConstants (store.newNative "print" .print).1) :
    store.newStart.2.binding? store.newStart.1 name = some ⟨value, true⟩ := by
  have hscope : store.newStart.2.scope store.newStart.1
      = ⟨Table.ofList ((startConstants (store.newNative "print" .print).1).map fun entry =>
          (entry.1, ⟨entry.2, true⟩)), none⟩ :=
    (scope_newRoot _ _ _).trans (if_pos rfl)
  rw [binding?, hscope]
  simp only [startConstants, List.mem_cons, List.not_mem_nil, or_false, Prod.mk.injEq] at h
  rcases h with ⟨rfl, rfl⟩ | ⟨rfl, rfl⟩ | ⟨rfl, rfl⟩ | ⟨rfl, rfl⟩ <;>
    simp [startConstants, Table.ofList]

/-- What a scope binds itself is what a name means in it. -/
theorem lookUp_of_binding? {store : Store} {s : Nat} {name : String} {b : Binding}
    (h : store.binding? s name = some b) : store.lookUp s name = .ok b.value := by
  obtain ⟨rest, hchain⟩ := store.chain_eq_cons s
  rw [lookUp, hchain, List.findSome?_cons, h]

end Store

/-! ### Permanence -/

/-- **Bindings are permanent and constants are immutable.**  Whatever a host does and whatever is
run, to whatever end: what a scope binds it goes on to bind, as a constant or not as before; what is
flagged as a constant is bound, and to the same value ever after; a name that means a scope goes on
to mean it, unless it comes to mean a nearer one where it was declared in the meantime; and the
names of the scope that scripts start in keep their values. -/
theorem Machine.Moves.bindings_permanent {earlier later : Machine} (h : earlier.Moves later) :
    (∀ s name, earlier.store.contains s name →
      later.store.contains s name ∧
        later.store.isConstant s name = earlier.store.isConstant s name) ∧
    (∀ s name, earlier.store.isConstant s name →
      earlier.store.contains s name ∧
        later.store.binding? s name = earlier.store.binding? s name) ∧
    (∀ s name owner, earlier.store.resolve s name = .ok owner →
      ∃ owner', later.store.resolve s name = .ok owner' ∧
        (owner' = owner ∨
          [owner', owner].Sublist (later.store.chain s) ∧
            earlier.store.Declared later.store owner' name)) ∧
    (∀ store : Store, earlier.store = store.newStart.2 →
      ∀ name value, (name, value) ∈ startConstants (store.newNative "print" .print).1 →
        later.store.lookUp store.newStart.1 name = .ok value) := by
  have hsteps := h.steps
  have hkeeps := Store.Steps.keeps hsteps
  refine ⟨fun s name hbound => ?_, fun s name hconstant => ?_, fun s name owner hresolve => ?_,
    fun store hstore name value hname => ?_⟩
  · obtain ⟨b, hb⟩ := Store.contains_iff.1 hbound
    obtain ⟨value, hvalue, -⟩ := hkeeps.binding hb
    refine ⟨Store.contains_iff.2 ⟨_, hvalue⟩, ?_⟩
    rw [Store.isConstant_of_binding? hvalue, Store.isConstant_of_binding? hb]
  · obtain ⟨b, hb, hconst⟩ := Store.isConstant_iff.1 hconstant
    obtain ⟨value, hvalue, hsame⟩ := hkeeps.binding hb
    refine ⟨Store.contains_iff.2 ⟨b, hb⟩, ?_⟩
    rw [hvalue, hb, hsame hconst]
  · exact Store.Steps.resolve_eq_ok hsteps hresolve
  · have hb := Store.binding?_newStart hname
    rw [← hstore] at hb
    obtain ⟨value', hvalue, hsame⟩ := hkeeps.binding hb
    rw [Store.lookUp_of_binding? hvalue, hsame rfl]

/-- After `let x = null; true = x`, which fails, the name `true` means what it always does. -/
theorem Machine.Moves.bindings_permanent_start :
    let program : Program :=
      ⟨[.declare false "x" (some (.name "null")), .expr (.assign (.name "true") (.name "x"))]⟩
    let later := ((program.eval 1 0).run (Machine.start none).2).2
    (Machine.start none).2.Moves later ∧ later.store.lookUp 0 "true" = .ok (.boolean true) := by
  refine ⟨.single (.eval ..), ?_⟩
  exact (bindings_permanent (.single (.eval ..))).2.2.2 Store.empty rfl "true" (.boolean true)
    List.mem_cons_self

end Scriptlet
