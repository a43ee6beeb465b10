/-
**Evaluation works with values that there are.**

A store grows by the operations on names and by what creates something, each with values that refer
to what is there already.  A store that grows goes on to hold together, it loses nothing, and its
objects stay as they are.  Evaluation only makes a store grow: a value that it binds, holds or
returns was looked up, read from an object, or made before.

Main definitions:

* `Scriptlet.Store.Growth`, `Scriptlet.Store.Grows` — **a store grows**, by one operation and by any
  number of them;
* `Scriptlet.growing` — the correspondence of a run with itself, in the store that it has come to.

Main results:

* `Scriptlet.Store.Grows.wellFormed`, `Scriptlet.Store.Grows.has`,
  `Scriptlet.Store.Grows.object_eq` — what growth preserves;
* `Scriptlet.growing_sound` — the single steps of a run make the store grow;
* `Scriptlet.Program.eval_grows` — **evaluation makes the store grow**, and what it returns is
  there.
-/

import Scriptlet.Proofs.Eval.Correspondence
import Scriptlet.Proofs.Eval.Reach
import Scriptlet.Proofs.Eval.Permanence

set_option relaxedAutoImplicit false
set_option autoImplicit false

namespace Scriptlet

/-! ### Growth -/

namespace Store

/-- **A store grows by one operation**, with values that are there. -/
inductive Growth : Store → Store → Prop
  /-- A name is declared. -/
  | declare {store store' : Store} {s : Nat} {name : String} {v : Value} {constant : Bool}
      (hv : store.Holds v) (h : store.declare s name v constant = .ok store') :
      Growth store store'
  /-- A name is assigned to. -/
  | assign {store store' : Store} {s : Nat} {name : String} {v : Value} (hv : store.Holds v)
      (h : store.assign s name v = .ok store') : Growth store store'
  /-- A scope is created, with or without one around it. -/
  | newScope {store : Store} {parent : Option Nat}
      (hparent : ∀ t, parent = some t → store.Has (.scope t)) :
      Growth store (store.newScope parent).2
  /-- A scope of constants is created. -/
  | newRoot {store : Store} {constants : List (String × Value)}
      (hvalues : ∀ entry ∈ constants, store.Holds entry.2) :
      Growth store (store.newRoot constants).2
  /-- An object is created. -/
  | newObject {store : Store} {properties : Table Value}
      (hvalues : ∀ key v, properties.find? key = some v → store.Holds v) :
      Growth store (store.newObject properties).2
  /-- A native function is created. -/
  | newNative (store : Store) (name : String) (action : Action) :
      Growth store (store.newNative name action).2

/-- **A store grows**, by any number of operations. -/
abbrev Grows : Store → Store → Prop := Relation.ReflTransGen Growth

variable {store later : Store}

theorem Growth.step (h : store.Growth later) : store.Step later := by
  cases h with
  | declare _ h => exact .declare h
  | assign _ h => exact .assign h
  | newScope _ => exact .newScope _ _
  | newRoot _ => exact .newRoot _ _
  | newObject _ => exact .newObject _ _
  | newNative name action => exact .newNative _ name action

/-- One operation keeps a store well-formed. -/
theorem Growth.wellFormed (h : store.Growth later) (hstore : store.WellFormed) :
    later.WellFormed := by
  cases h with
  | declare hv h => exact hstore.declare hv h
  | assign hv h => exact hstore.assign hv h
  | newScope hparent => exact hstore.newScope hparent
  | newRoot hvalues => exact hstore.newRoot hvalues
  | newObject hvalues => exact hstore.newObject hvalues
  | newNative name action => exact hstore.newNative name action

/-- **What an operation does to objects**: nothing, or it creates one of values that are there. -/
theorem Growth.objects_cases (h : store.Growth later) : later.objects = store.objects ∨
    ∃ properties : Table Value, (∀ key v, properties.find? key = some v → store.Holds v) ∧
      later = (store.newObject properties).2 := by
  cases h with
  | declare _ h =>
      obtain ⟨-, rfl⟩ := declare_eq_ok.1 h
      exact Or.inl rfl
  | assign _ h =>
      obtain ⟨owner, -, old, -, rfl⟩ := assign_eq_ok h
      exact Or.inl rfl
  | newScope _ => exact Or.inl rfl
  | newRoot _ => exact Or.inl rfl
  | newObject hvalues => exact Or.inr ⟨_, hvalues, rfl⟩
  | newNative name action => exact Or.inl rfl

theorem Growth.objects_size_le (h : store.Growth later) :
    store.objects.size ≤ later.objects.size := by
  rcases h.objects_cases with h | ⟨properties, -, rfl⟩
  · exact Nat.le_of_eq (congrArg Array.size h).symm
  · simp [Store.newObject]

/-- One operation leaves the objects that there are as they are. -/
theorem Growth.object_eq (h : store.Growth later) {i : Nat} (hi : i < store.objects.size) :
    later.object i = store.object i := by
  rcases h.objects_cases with h | ⟨properties, -, rfl⟩
  · rw [object, object, h]
  · rw [object_newObject, if_neg (Nat.ne_of_lt hi)]

namespace Grows

/-- **A store that grows goes on to hold together.** -/
theorem wellFormed (h : store.Grows later) (hstore : store.WellFormed) : later.WellFormed := by
  induction h with
  | refl => exact hstore
  | tail _ h ih => exact h.wellFormed ih

theorem objects_size_le (h : store.Grows later) : store.objects.size ≤ later.objects.size := by
  induction h with
  | refl => exact Nat.le_refl _
  | tail _ h ih => exact Nat.le_trans ih h.objects_size_le

/-- **A store that grows loses nothing.** -/
theorem has (h : store.Grows later) {p : Place} (hp : store.Has p) : later.Has p := by
  have hsteps : store.Steps later := Relation.ReflTransGen.mono (fun _ _ => Growth.step) _ _ h
  exact hp.mono hsteps.keeps.size_le h.objects_size_le

theorem holds (h : store.Grows later) {v : Value} (hv : store.Holds v) : later.Holds v :=
  fun p hp => h.has (hv p hp)

/-- **The objects of a store that grows stay as they are.** -/
theorem object_eq (h : store.Grows later) {i : Nat} (hi : i < store.objects.size) :
    later.object i = store.object i := by
  induction h with
  | refl => rfl
  | tail hgrows h ih =>
      rw [h.object_eq (Nat.lt_of_lt_of_le hi (objects_size_le hgrows)), ih]

end Grows

/-! ### Values that are there -/

/-- What a name is bound to is there. -/
theorem WellFormed.holds_of_lookUp (h : store.WellFormed) {s : Nat} {name : String} {v : Value}
    (hv : store.lookUp s name = .ok v) : store.Holds v := by
  rw [lookUp] at hv
  split at hv
  · next b hb =>
    cases hv
    obtain ⟨owner, -, hbound⟩ := List.exists_of_findSome?_eq_some hb
    exact fun p hp => h.has (.bound hbound hp)
  · cases hv

/-- What an object holds is there. -/
theorem WellFormed.holds_of_held (h : store.WellFormed) {i : Nat} {key : String} {v : Value}
    (hv : (store.object i).find? key = some v) : store.Holds v :=
  fun _ hp => h.has (.held hv hp)

end Store

/-! ### Runs -/

/-- **A run corresponds to itself** in the store that it has come to, with the places that are
there. -/
def growing : Correspondence where
  World := Store
  order := { le := Store.Grows, le_refl := fun _ => .refl, le_trans := fun _ _ _ => .trans }
  scope w s t := s = t ∧ w.Has (.scope s)
  object w i j := i = j ∧ w.Has (.object i)
  scope_mono h hs := ⟨hs.1, Store.Grows.has h hs.2⟩
  object_mono h hi := ⟨hi.1, Store.Grows.has h hi.2⟩
  state w a b := a = b ∧ a.store = w ∧ w.WellFormed

section Growing

variable {α : Type} {w : Store}

/-- A value corresponds to itself if it is there. -/
theorem growing_values_iff {v v' : Value} : growing.Values w v v' ↔ v = v' ∧ w.Holds v := by
  constructor
  · intro h
    cases h with
    | object h =>
        obtain ⟨rfl, hi⟩ := h
        exact ⟨rfl, fun p hp => Option.some_inj.1 hp ▸ hi⟩
    | function h =>
        obtain ⟨rfl, hs⟩ := h
        exact ⟨rfl, fun p hp => Option.some_inj.1 hp ▸ hs⟩
    | _ => exact ⟨rfl, nofun⟩
  · rintro ⟨rfl, h⟩
    cases v with
    | null => exact .null
    | number x => exact .number x
    | boolean b => exact .boolean b
    | object i => exact .object ⟨rfl, h _ rfl⟩
    | native f => exact .native f
    | function f => exact .function ⟨rfl, h _ rfl⟩

/-- A computation matches itself if it makes every store grow that holds together. -/
theorem growing_matches {R : Store → α → α → Prop} {m : Eval α}
    (h : ∀ machine : Machine, machine.store = w → w.WellFormed →
      w.Grows (m.run machine).2.store ∧
        ∀ a, (m.run machine).1 = .ok a → R (m.run machine).2.store a a) :
    growing.Matches w R m m := by
  rintro machine _ ⟨rfl, hw, hwellFormed⟩
  obtain ⟨hgrows, hresult⟩ := h machine hw hwellFormed
  refine ⟨_, hgrows, ⟨rfl, rfl, hgrows.wellFormed hwellFormed⟩, ?_⟩
  generalize (m.run machine).1 = result at hresult
  cases result with
  | error fault => exact .error fault
  | ok a => exact .ok (hresult a rfl)

/-- Asking the store matches if the answer is there. -/
theorem growing_ask {R : Store → α → α → Prop} {question : Store → Except EvalError α}
    (h : w.WellFormed → ∀ a, question w = .ok a → R w a a) :
    growing.Matches w R (Eval.ask question) (Eval.ask question) := by
  refine growing_matches fun machine hw hwellFormed => ?_
  subst hw
  rw [Eval.run_ask]
  refine ⟨.refl, fun a ha => h hwellFormed a ?_⟩
  dsimp only at ha
  cases hquestion : question machine.store with
  | error error =>
      rw [hquestion] at ha
      cases ha
  | ok a' =>
      rw [hquestion] at ha
      cases ha
      rfl

/-- Changing the store matches if the change makes it grow. -/
theorem growing_change {step : Store → Except EvalError Store}
    (h : ∀ store, step w = .ok store → w.Growth store) :
    growing.Matches w (fun _ _ _ => True) (Eval.change step) (Eval.change step) := by
  refine growing_matches fun machine hw _ => ?_
  subst hw
  rw [Eval.run_change]
  cases hstep : step machine.store with
  | error error => exact ⟨.refl, fun _ _ => trivial⟩
  | ok store => exact ⟨.single (h store hstep), fun _ _ => trivial⟩

/-- **The single steps of a run make the store grow.** -/
theorem growing_sound : growing.Sound where
  lookUp name hs := by
    obtain ⟨rfl, -⟩ := hs
    exact growing_ask fun hw v hv => growing_values_iff.2 ⟨rfl, hw.holds_of_lookUp hv⟩
  declare name constant hs hv := by
    obtain ⟨rfl, -⟩ := hs
    obtain ⟨rfl, hholds⟩ := growing_values_iff.1 hv
    exact (growing_change fun store h => .declare hholds h).bind fun w' _ _ hw _ =>
      .pure (hv.mono hw)
  assign name hs hv := by
    obtain ⟨rfl, -⟩ := hs
    obtain ⟨rfl, hholds⟩ := growing_values_iff.1 hv
    refine (growing_ask (R := fun _ => Eq) fun _ _ _ => rfl).bind fun w₁ owner _ hw₁ howner => ?_
    subst howner
    exact (growing_change fun store h => .assign (Store.Grows.holds hw₁ hholds) h).bind
      fun w₂ _ _ hw₂ _ => .pure ((hv.mono hw₁).mono hw₂)
  enter {w s t} hs := by
    obtain ⟨rfl, hs⟩ := hs
    refine growing_matches fun machine hw _ => ?_
    subst hw
    refine ⟨.single (.newScope fun t ht => Option.some_inj.1 ht ▸ hs), fun inner hinner => ?_⟩
    cases hinner
    exact ⟨rfl, by simp [Eval.enter, Eval.run_create, Store.Has, Store.newScope]⟩
  allocate {w ps qs} hps := by
    have hsame : ps = qs := List.forall₂_eq_eq_eq ▸ hps.imp fun _ _ hpq =>
      Prod.ext hpq.1 (growing_values_iff.1 hpq.2).1
    subst hsame
    refine growing_matches fun machine hw _ => ?_
    subst hw
    refine ⟨.single (.newObject fun key v hv => ?_), fun made hmade => ?_⟩
    · have hmem := List.forall₂_same.1 hps _ (Table.mem_of_find?_ofList hv)
      exact (growing_values_iff.1 hmem.2).2
    · cases hmade
      exact .object ⟨rfl, by simp [Eval.allocate, Eval.run_create, Store.Has, Store.newObject]⟩
  property {w i j} key hi := by
    obtain ⟨rfl, -⟩ := hi
    refine growing_matches fun machine hw hwellFormed => ?_
    subst hw
    refine ⟨.refl, fun v hv => growing_values_iff.2 ⟨rfl, ?_⟩⟩
    cases hv
    cases hfound : (machine.store.object i).find? key with
    | none => exact fun _ hp => by cases hp
    | some v => exact hwellFormed.holds_of_held hfound
  textOf hv := by
    obtain ⟨rfl, -⟩ := growing_values_iff.1 hv
    exact growing_matches fun machine hw _ => ⟨hw ▸ .refl, fun _ _ => rfl⟩
  print {w vs vs'} s t hvs := by
    have hsame : vs = vs' :=
      List.forall₂_eq_eq_eq ▸ hvs.imp fun _ _ hv => (growing_values_iff.1 hv).1
    subst hsame
    refine growing_matches fun machine hw _ => ?_
    subst hw
    rw [Eval.run_print]
    split
    · exact ⟨.refl, fun _ hresult => by cases hresult⟩
    · refine ⟨.refl, fun _ hresult => ?_⟩
      cases hresult
      exact .null
  log event := growing_matches fun machine hw _ => ⟨hw ▸ .refl, fun _ _ => trivial⟩

end Growing

/-- **Evaluation makes the store grow**, however it ends, and what it returns is there. -/
theorem Program.eval_grows (p : Program) (depth : Nat) {s : Nat} {machine : Machine}
    (hmachine : machine.store.WellFormed) (hs : machine.store.Has (.scope s)) :
    machine.store.Grows ((p.eval depth s).run machine).2.store ∧
      ∀ v, ((p.eval depth s).run machine).1 = .ok v →
        ((p.eval depth s).run machine).2.store.Holds v := by
  have hmatches := growing_sound.program (w := machine.store) depth ⟨rfl, hs⟩ p
  obtain ⟨w, hgrows, ⟨-, rfl, -⟩, hends⟩ := hmatches machine machine ⟨rfl, rfl, hmachine⟩
  refine ⟨hgrows, fun v hv => ?_⟩
  rw [hv] at hends
  cases hends with
  | ok hvalue => exact (growing_values_iff.1 hvalue).2

end Scriptlet
