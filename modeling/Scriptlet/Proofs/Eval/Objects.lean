/-
**Objects never change, and never hold themselves.**

An object is made of values that are there, so it holds older objects only, and it stays as it was
made.  There are cycles all the same: an object may hold a function, and the scope of the function
may bind the object.  But texts do not go into scopes.  So the text of a value goes no deeper than
there are objects, it is the same however deep one would go, and it is the same later on.

Main definitions:

* `Scriptlet.Value.NestedWithin` — how many objects there are inside each other in a value;
* `Scriptlet.Store.HoldsObject` — an object directly holds another one;
* `Scriptlet.Machine.Evaluation`, `Scriptlet.Machine.Evaluations` — programs are evaluated one after
  another.

Main results:

* `Scriptlet.Store.Grows.exists_newObject` — an object was made as it is;
* `Scriptlet.Store.WellFormed.nestedWithin` — no value is deeper than there are objects;
* `Scriptlet.Value.NestedWithin.shown_eq` — values are shown the same, however deep and whenever;
* `Scriptlet.objects_permanent` — **objects never change and never form cycles**, and what is shown
  of values never changes either.
-/

import Scriptlet.Proofs.Eval.Growth

set_option relaxedAutoImplicit false
set_option autoImplicit false

namespace Scriptlet

/-! ### How objects are made -/

/-- **An object was made as it is**, at its place, by a store that had no more objects than that. -/
theorem Store.Grows.exists_newObject {start store : Store} (h : start.Grows store) {i : Nat}
    (hi : i < store.objects.size) (hstart : start.objects.size ≤ i) :
    ∃ before : Store, start.Grows before ∧ before.objects.size = i ∧
      (before.newObject (store.object i)).2.Grows store := by
  induction h with
  | refl => exact absurd hi (Nat.not_lt.2 hstart)
  | @tail mid last hgrows hgrowth ih =>
      by_cases hmid : i < mid.objects.size
      · obtain ⟨before, hbefore, hsize, hafter⟩ := ih hmid
        rw [← hgrowth.object_eq hmid] at hafter
        exact ⟨before, hbefore, hsize, hafter.tail hgrowth⟩
      · -- the last operation has made the object
        rcases hgrowth.objects_cases with hsame | ⟨properties, -, rfl⟩
        · rw [hsame] at hi
          exact absurd hi hmid
        · have hsize : mid.objects.size = i := by
            have : i < mid.objects.size + 1 := by simpa [Store.newObject] using hi
            omega
          refine ⟨mid, hgrows, hsize, ?_⟩
          rw [Store.object_newObject, if_pos hsize.symm]

/-- An object directly holds another one. -/
def Store.HoldsObject (store : Store) (i j : Nat) : Prop :=
  ∃ key, (store.object i).find? key = some (.object j)

/-- Objects are inside each other in the order of their age. -/
theorem Store.WellFormed.lt_of_transGen {store : Store} (h : store.WellFormed) {i j : Nat}
    (hij : Relation.TransGen store.HoldsObject i j) : j < i := by
  induction hij with
  | single hij =>
      obtain ⟨key, hheld⟩ := hij
      exact h.held_lt hheld
  | tail _ hjk ih =>
      obtain ⟨key, hheld⟩ := hjk
      exact Nat.lt_trans (h.held_lt hheld) ih

/-! ### Objects inside each other -/

/-- **A value has no more than so many objects inside each other**: it is no object, or there is one
less in all that it holds. -/
inductive Value.NestedWithin (store : Store) : Nat → Value → Prop
  /-- What is no object holds nothing. -/
  | plain {depth : Nat} {v : Value} (h : ∀ i, v ≠ .object i) : NestedWithin store depth v
  /-- An object is around what it holds. -/
  | object {depth i : Nat}
      (h : ∀ key v, (store.object i).find? key = some v → NestedWithin store depth v) :
      NestedWithin store (depth + 1) (.object i)

/-- An object has only older ones inside. -/
theorem Store.WellFormed.nestedWithin_object {store : Store} (h : store.WellFormed)
    {depth i : Nat} (hi : i < depth) : (Value.object i).NestedWithin store depth := by
  induction depth generalizing i with
  | zero => exact absurd hi (Nat.not_lt_zero i)
  | succ depth ih =>
      refine .object fun key v hv => ?_
      cases v with
      | object j => exact ih (Nat.lt_of_lt_of_le (h.held_lt hv) (Nat.le_of_lt_succ hi))
      | _ => exact .plain nofun

/-- **No value is deeper than there are objects.** -/
theorem Store.WellFormed.nestedWithin {store : Store} (h : store.WellFormed) {v : Value}
    (hv : store.Holds v) : v.NestedWithin store store.objects.size := by
  cases v with
  | object i => exact h.nestedWithin_object (hv (.object i) rfl)
  | _ => exact .plain nofun

/-- **Values are shown the same, however deep and whenever**: in two stores where the objects of the
first are the same, down to any depths that are enough. -/
theorem Value.NestedWithin.shown_eq {store later : Store} (hstore : store.WellFormed)
    (hobjects : ∀ i < store.objects.size, later.object i = store.object i) {depth depth' : Nat}
    {v : Value} (h : v.NestedWithin store depth) (h' : v.NestedWithin later depth')
    (hv : store.Holds v) :
    v.textWithin later depth' = v.textWithin store depth ∧
      v.outlineWithin later depth' = v.outlineWithin store depth := by
  induction h generalizing depth' with
  | @plain depth v hplain =>
      cases v with
      | object i => exact absurd rfl (hplain i)
      | _ => simp only [textWithin, outlineWithin, and_self]
  | @object depth i hheld ih =>
      cases h' with
      | plain hplain => exact absurd rfl (hplain i)
      | @object depth' _ hheld' =>
          have hsame : later.object i = store.object i := hobjects i (hv (.object i) rfl)
          have hshown : ∀ p ∈ (store.object i).entries,
              p.2.textWithin later depth' = p.2.textWithin store depth ∧
                p.2.outlineWithin later depth' = p.2.outlineWithin store depth := by
            intro p hp
            have hfound := Table.find?_of_mem hp
            exact ih p.1 p.2 hfound (hheld' p.1 p.2 (hsame ▸ hfound))
              (hstore.holds_of_held hfound)
          rw [textWithin, textWithin, outlineWithin, outlineWithin, hsame]
          constructor
          · exact congrArg objectText
              (List.map_congr_left fun p hp => congrArg (p.1, ·) (hshown p hp).1)
          · have hentries : (store.object i).entries.map
                (fun p => (p.1, outlineWithin later depth' p.2))
                  = (store.object i).entries.map fun p => (p.1, outlineWithin store depth p.2) :=
              List.map_congr_left fun p hp => congrArg (p.1, ·) (hshown p hp).2
            rw [hentries]

/-- How deep one goes does not matter, if it is deep enough. -/
theorem Value.NestedWithin.shown_eq_text {store : Store} (hstore : store.WellFormed) {depth : Nat}
    {v : Value} (h : v.NestedWithin store depth) (hv : store.Holds v) :
    v.textWithin store depth = v.text store ∧ v.outlineWithin store depth = v.outline store :=
  (hstore.nestedWithin hv).shown_eq hstore (fun _ _ => rfl) h hv

/-- **The text of an object is made of the texts of what it holds**, and so is the outline; no depth
is in the way. -/
theorem Store.WellFormed.shown_object {store : Store} (h : store.WellFormed) {i : Nat}
    (hi : i < store.objects.size) :
    (Value.object i).text store
        = Value.objectText ((store.object i).entries.map fun p => (p.1, p.2.text store)) ∧
      (Value.object i).outline store = .tuple "Object"
        [.map ((store.object i).entries.map fun p => (p.1, p.2.outline store))] := by
  obtain ⟨depth, hdepth⟩ : ∃ depth, store.objects.size = depth + 1 :=
    ⟨store.objects.size - 1, by omega⟩
  have hshown : ∀ p ∈ (store.object i).entries, p.2.textWithin store depth = p.2.text store ∧
      p.2.outlineWithin store depth = p.2.outline store := by
    intro p hp
    have hheld := Table.find?_of_mem hp
    refine Value.NestedWithin.shown_eq_text h ?_ (h.holds_of_held hheld)
    cases hvalue : p.2 with
    | object j =>
        rw [hvalue] at hheld
        exact h.nestedWithin_object (Nat.lt_of_lt_of_le (h.held_lt hheld) (by omega))
    | _ => exact .plain nofun
  rw [Value.text, Value.outline, hdepth, Value.textWithin, Value.outlineWithin]
  constructor
  · exact congrArg Value.objectText
      (List.map_congr_left fun p hp => congrArg (p.1, ·) (hshown p hp).1)
  · have hentries : (store.object i).entries.map (fun p => (p.1, p.2.outlineWithin store depth))
        = (store.object i).entries.map fun p => (p.1, p.2.outline store) :=
      List.map_congr_left fun p hp => congrArg (p.1, ·) (hshown p hp).2
    rw [hentries]

/-! ### Programs one after another -/

/-- **A program is evaluated**, to whatever end, in a scope that there is. -/
inductive Machine.Evaluation : Machine → Machine → Prop
  | program (machine : Machine) (p : Program) (depth : Nat) {s : Nat}
      (hs : machine.store.Has (.scope s)) :
      Evaluation machine ((p.eval depth s).run machine).2

/-- Any number of programs are evaluated. -/
abbrev Machine.Evaluations : Machine → Machine → Prop := Relation.ReflTransGen Machine.Evaluation

theorem Machine.Evaluations.grows {machine later : Machine} (h : machine.Evaluations later)
    (hmachine : machine.store.WellFormed) : machine.store.Grows later.store := by
  induction h with
  | refl => exact .refl
  | tail _ h ih =>
      cases h with
      | program p depth hs => exact ih.trans (p.eval_grows depth (ih.wellFormed hmachine) hs).1

theorem Machine.wellFormed_start (room : Option Nat) : (Machine.start room).2.store.WellFormed :=
  Store.wellFormed_empty.newStart

/-- **Objects never change and never form cycles.**

Programs that are evaluated one after another, each to whatever end, only make the store grow that
scripts start in, operation by operation.  In every store on the way: an object is what it was made
as, and no object is inside itself, not even through others.  No value is deeper than there are
objects; so its text and its outline end, and are the same however deep one would go.  And in every
store that comes of this one, objects are the same, and values are shown the same. -/
theorem objects_permanent (room : Option Nat) :
    let start := (Machine.start room).2
    (∀ machine : Machine, start.Evaluations machine → start.store.Grows machine.store ∧
      (∀ later, machine.Evaluations later → machine.store.Grows later.store) ∧
      ∀ (p : Program) (depth s : Nat) (v : Value), machine.store.Has (.scope s) →
        ((p.eval depth s).run machine).1 = .ok v →
          ((p.eval depth s).run machine).2.store.Holds v) ∧
    ∀ store : Store, start.store.Grows store →
      (∀ s name v, store.lookUp s name = .ok v → store.Holds v) ∧
      (∀ i key v, (store.object i).find? key = some v → store.Holds v) ∧
      (∀ i < store.objects.size, ∃ before : Store, start.store.Grows before ∧
        before.objects.size = i ∧ (before.newObject (store.object i)).2.Grows store) ∧
      (∀ i j, store.HoldsObject i j → j < i) ∧
      (∀ i, ¬ Relation.TransGen store.HoldsObject i i) ∧
      (∀ v, store.Holds v → v.NestedWithin store store.objects.size ∧
        ∀ depth, v.NestedWithin store depth → v.textWithin store depth = v.text store ∧
          v.outlineWithin store depth = v.outline store) ∧
      (∀ i < store.objects.size,
        (Value.object i).text store
            = Value.objectText ((store.object i).entries.map fun p => (p.1, p.2.text store)) ∧
          (Value.object i).outline store = .tuple "Object"
            [.map ((store.object i).entries.map fun p => (p.1, p.2.outline store))]) ∧
      ∀ later : Store, store.Grows later →
        (∀ i < store.objects.size, later.object i = store.object i) ∧
        ∀ v, store.Holds v → v.text later = v.text store ∧ v.outline later = v.outline store := by
  intro start
  have hstart : start.store.WellFormed := Machine.wellFormed_start room
  refine ⟨fun machine hmachine => ?_, fun store hgrows => ?_⟩
  · have hgrows := hmachine.grows hstart
    have hwellFormed := hgrows.wellFormed hstart
    exact ⟨hgrows, fun later hlater => hlater.grows hwellFormed,
      fun p depth s v hs hv => (p.eval_grows depth hwellFormed hs).2 v hv⟩
  · have hstore := hgrows.wellFormed hstart
    refine ⟨fun s name v => hstore.holds_of_lookUp, fun i key v => hstore.holds_of_held,
      fun i hi => hgrows.exists_newObject hi (Nat.zero_le i),
      fun i j hij => hstore.lt_of_transGen (.single hij),
      fun i hi => Nat.lt_irrefl i (hstore.lt_of_transGen hi),
      fun v hv => ⟨hstore.nestedWithin hv, fun depth h => h.shown_eq_text hstore hv⟩,
      fun i hi => hstore.shown_object hi, fun later hlater => ?_⟩
    refine ⟨fun i hi => hlater.object_eq hi, fun v hv => ?_⟩
    exact (hstore.nestedWithin hv).shown_eq hstore (fun i hi => hlater.object_eq hi)
      ((hlater.wellFormed hstore).nestedWithin (hlater.holds hv)) hv

/-- An object that holds a function whose scope binds the object: one comes from the scope to the
object and back, and the text of the object is the same whatever happens. -/
theorem objects_permanent_capture :
    let start := (Machine.start none).2
    let p : Program := ⟨[.expr (.function "f" [] []),
      .declare false "o" (some (.object [.shorthand "f"]))]⟩
    let machine := ((p.eval 0 0).run start).2
    start.Evaluations machine ∧ machine.store.Points (.scope 0) (.object 0) ∧
      machine.store.Points (.object 0) (.scope 0) ∧ machine.store.Holds (.object 0) ∧
      (Value.object 0).NestedWithin machine.store 1 ∧
      ∀ later, machine.Evaluations later →
        (Value.object 0).text later.store = (Value.object 0).text machine.store := by
  intro start p machine
  have hevaluations : start.Evaluations machine := .single (.program start p 0 (by decide))
  have hholds : machine.store.Holds (.object 0) := fun q hq => Option.some_inj.1 hq ▸ by decide
  obtain ⟨hruns, hstores⟩ := objects_permanent none
  obtain ⟨hgrows, hlater, -⟩ := hruns machine hevaluations
  obtain ⟨-, -, -, -, -, hnested, -, hshown⟩ := hstores machine.store hgrows
  have hbound : machine.store.binding? 0 "o" = some ⟨.object 0, false⟩ := rfl
  have hheld : (machine.store.object 0).find? "f" = some (.function ⟨"f", [], [], 0⟩) := rfl
  exact ⟨hevaluations, .bound hbound rfl, .held hheld rfl, hholds, (hnested _ hholds).1,
    fun later h => ((hshown later.store (hlater later h)).2 _ hholds).1⟩

end Scriptlet
