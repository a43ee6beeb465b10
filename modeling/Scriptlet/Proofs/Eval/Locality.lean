/-
**Evaluation is local to what it can reach.**

A program that is evaluated in a scope sees and changes only what can be reached from that scope,
and what it creates itself; and a call of a function only what can be reached from the scope that
the function was declared in and from the arguments.  So programs and functions that share no scope
never influence each other.

Main definitions:

* `Scriptlet.Twins.runs` — the correspondence of runs in two stores with a part in common;
* `Scriptlet.Eval.Same` — a computation does the same from two states;
* `Scriptlet.Eval.LocalTo` — **a computation is local** to what some places can reach;
* `Scriptlet.Store.Built` — the stores that a host and its runs build.

Main results:

* `Scriptlet.Twins.sound` — no step of a run leaves the common part of two stores;
* `Scriptlet.Eval.StaysIn.localTo` — what stays in the common part of two stores is local;
* `Scriptlet.Eval.LocalTo.same_after` — what is local does the same after anything else that is
  local and shares no scope with it;
* `Scriptlet.Program.eval_localTo`, `Scriptlet.callWithin_localTo`,
  `Scriptlet.callFromHost_localTo` — programs and calls are local;
* `Scriptlet.Store.Built.wellFormed` — what a host builds holds together;
* `Scriptlet.evaluation_local` — **evaluation is local**.
-/

import Scriptlet.Proofs.Eval.Lockstep

set_option relaxedAutoImplicit false
set_option autoImplicit false

namespace Scriptlet

/-! ### Runs in lockstep -/

namespace Twins

variable {α : Type} {c : Twins} {w : Nat × Nat} {before before' : Array String}

/-- **The correspondence of the two runs**: the stores are in lockstep, the same lines were written
since the start, and there is room for as many more. -/
def runs (c : Twins) (before before' : Array String) : Correspondence where
  toPairing := c.pairing
  state w a b := c.Lockstep w a.store b.store ∧ a.room = b.room ∧
    ∃ lines : Array String, a.output = before ++ lines ∧ b.output = before' ++ lines

theorem matches_ask {R : Nat × Nat → α → α → Prop} {question question' : Store → Except EvalError α}
    (h : ∀ x y, c.Lockstep w x y → Ends (R w) (question x) (question' y)) :
    (c.runs before before').Matches w R (Eval.ask question) (Eval.ask question') := by
  refine .of_run fun a b hab => ?_
  rw [Eval.run_ask, Eval.run_ask]
  exact ⟨hab, (h _ _ hab.1).mapError _⟩

theorem matches_change {step step' : Store → Except EvalError Store}
    (h : ∀ x y, c.Lockstep w x y → Ends (c.Lockstep w) (step x) (step' y)) :
    (c.runs before before').Matches w (fun _ _ _ => True) (Eval.change step)
      (Eval.change step') := by
  refine .of_run fun a b hab => ?_
  rw [Eval.run_change, Eval.run_change]
  have hends := h _ _ hab.1
  generalize step a.store = result, step' b.store = result' at hends
  cases hends with
  | error error => exact ⟨hab, .error _⟩
  | ok hstores => exact ⟨⟨hstores, hab.2⟩, .ok trivial⟩

theorem matches_create {R : Nat × Nat → α → α → Prop} {step step' : Store → α × Store}
    (h : ∀ x y, c.Lockstep w x y → ∃ w', w ≤ w' ∧ c.Lockstep w' (step x).2 (step' y).2 ∧
      R w' (step x).1 (step' y).1) :
    (c.runs before before').Matches w R (Eval.create step) (Eval.create step') := by
  intro a b hab
  obtain ⟨w', hw, hstores, hmade⟩ := h _ _ hab.1
  rw [Eval.run_create, Eval.run_create]
  exact ⟨w', hw, ⟨hstores, hab.2⟩, .ok hmade⟩

/-- **No step of a run leaves the common part.** -/
theorem sound : (c.runs before before').Sound where
  lookUp name hs := by
    obtain ⟨hs, rfl⟩ := hs
    exact matches_ask fun x y h => h.lookUp hs name
  declare name constant hs hv := by
    obtain ⟨hs, rfl⟩ := hs
    refine (matches_change fun x y h => h.declare hs hv name constant).bind fun w' _ _ hw _ => ?_
    exact .pure (hv.mono hw)
  assign name hs hv := by
    obtain ⟨hs, rfl⟩ := hs
    refine (matches_ask (R := c.pairing.scope) fun x y h => h.resolve hs name).bind ?_
    rintro w₁ owner _ hw₁ ⟨howner, rfl⟩
    refine (matches_change fun x y h => h.assign howner (hv.mono hw₁) name).bind ?_
    exact fun w₂ _ _ hw₂ _ => .pure ((hv.mono hw₁).mono hw₂)
  enter {w s t} hs := by
    obtain ⟨hs, rfl⟩ := hs
    refine matches_create fun x y h => ?_
    exact ⟨(w.1 + 1, w.2), ⟨Nat.le_succ _, Nat.le_refl _⟩, h.newScope hs, h.scope_size⟩
  allocate {w ps qs} hps := by
    refine matches_create fun x y h => ?_
    exact ⟨(w.1, w.2 + 1), ⟨Nat.le_refl _, Nat.le_succ _⟩, h.newObject hps,
      .object h.object_size⟩
  property key hi := by
    obtain ⟨hi, rfl⟩ := hi
    refine .of_run fun a b hab => ⟨hab, .ok ?_⟩
    have hheld := hab.1.held hi key
    generalize (a.store.object _).find? key = found, (b.store.object _).find? key = found' at hheld
    cases hheld with
    | none => exact .null
    | some hv => exact hv
  textOf hv := by
    refine .of_run fun a b hab => ⟨hab, .ok ?_⟩
    exact hab.1.text_eq hv
  print {w vs vs'} s t hvs := by
    refine .of_run fun a b hab => ?_
    obtain ⟨hstores, hroom, lines, hlines, hlines'⟩ := hab
    rw [Eval.run_print, Eval.run_print, hroom, hstores.printedLine_eq hvs]
    split
    · exact ⟨⟨hstores, hroom, lines, hlines, hlines'⟩, .error _⟩
    · refine ⟨⟨hstores, rfl, lines.push (Eval.printedLine b.store vs'), ?_, ?_⟩, .ok .null⟩
      · rw [hlines, Array.append_push]
      · rw [hlines', Array.append_push]
  log event := .of_run fun a b hab => ⟨hab, .ok trivial⟩

/-- Two computations that match, from states with the two stores: how they end. -/
theorem exists_lockstep {m : Eval Value}
    (hm : ∀ before before', (c.runs before before').Matches (0, 0) c.Values m m) {a b : Machine}
    (ha : a.store = c.first) (hb : b.store = c.second) (hroom : a.room = b.room) :
    ∃ w, c.Lockstep w (m.run a).2.store (m.run b).2.store ∧
      Ends (c.Values w) (m.run a).1 (m.run b).1 ∧
      ∃ lines : Array String, (m.run a).2.output = a.output ++ lines ∧
        (m.run b).2.output = b.output ++ lines := by
  have hstart : (c.runs a.output b.output).state (0, 0) a b := by
    refine ⟨?_, hroom, #[], ?_, ?_⟩
    · rw [ha, hb]
      exact .start
    · rw [Array.append_empty]
    · rw [Array.append_empty]
  obtain ⟨w, -, ⟨hstores, -, hlines⟩, hends⟩ := hm a.output b.output a b hstart
  exact ⟨w, hstores, hends, hlines⟩

end Twins

/-! ### Local computations -/

/-- The store holds together, and the places are there. -/
structure Store.Offers (store : Store) (roots : Place → Prop) : Prop where
  /-- The store holds together. -/
  wellFormed : store.WellFormed
  /-- The places are there. -/
  has : ∀ {p : Place}, roots p → store.Has p

theorem Store.Offers.has_of_reached {store : Store} {roots : Place → Prop} (h : store.Offers roots)
    {p : Place} (hp : store.Reached roots p) : store.Has p := by
  induction hp with
  | root hp => exact h.has hp
  | step _ hpq _ => exact h.wellFormed.has hpq

/-- The stores are the same in a part. -/
structure Store.Agrees (a b : Store) (part : Place → Prop) : Prop where
  /-- The scopes of the part are the same. -/
  scope_eq : ∀ {s : Nat}, part (.scope s) → b.scope s = a.scope s
  /-- The objects of the part are the same. -/
  object_eq : ∀ {i : Nat}, part (.object i) → b.object i = a.object i

theorem Store.Agrees.points {a b : Store} {part : Place → Prop} (h : a.Agrees b part)
    {p q : Place} (hp : part p) (hpq : a.Points p q) : b.Points p q := by
  cases hpq with
  | parent hparent => exact .parent ((congrArg Scope.parent (h.scope_eq hp)).trans hparent)
  | bound hb hq =>
      rename_i s name bound
      have hb' : b.binding? s name = some bound := by
        rw [binding?, h.scope_eq hp]
        exact hb
      exact .bound hb' hq
  | held hheld hq =>
      rw [← h.object_eq hp] at hheld
      exact .held hheld hq

namespace Eval

/-- What is at hand when a computation has ended: the places that it started from, and the place
that its result refers to. -/
def AtHand (roots : Place → Prop) (result : Except Fault Value) (p : Place) : Prop :=
  roots p ∨ ∃ v, result = .ok v ∧ v.place? = some p

/-- **The computation does the same from two states**, up to the numbers of the places that it
creates: it ends with the same value or the same error, it writes the same lines, and it leaves the
same behind wherever one comes to from the places that it started from and from its result. -/
structure Same (m : Eval Value) (roots : Place → Prop) (a b : Machine) : Prop where
  /-- The results are the same. -/
  result : (m.run b).1 = (m.run a).1.map (a.store.relocation b.store).value
  /-- The same lines are written. -/
  output : ∃ lines : Array String, (m.run a).2.output = a.output ++ lines ∧
    (m.run b).2.output = b.output ++ lines
  /-- The scopes around scopes are the same. -/
  parent : ∀ {s : Nat}, (m.run a).2.store.Reached (AtHand roots (m.run a).1) (.scope s) →
    ((m.run b).2.store.scope ((a.store.relocation b.store).scope s)).parent
      = ((m.run a).2.store.scope s).parent.map (a.store.relocation b.store).scope
  /-- Names are bound to the same values. -/
  binding : ∀ {s : Nat}, (m.run a).2.store.Reached (AtHand roots (m.run a).1) (.scope s) →
    ∀ name, (m.run b).2.store.binding? ((a.store.relocation b.store).scope s) name
      = ((m.run a).2.store.binding? s name).map fun bound =>
          { bound with value := (a.store.relocation b.store).value bound.value }
  /-- Objects hold the same values. -/
  held : ∀ {i : Nat}, (m.run a).2.store.Reached (AtHand roots (m.run a).1) (.object i) →
    ∀ key, ((m.run b).2.store.object ((a.store.relocation b.store).object i)).find? key
      = (((m.run a).2.store.object i).find? key).map (a.store.relocation b.store).value

/-- **The computation is local** to what can be reached from some places, in every store that
offers them. -/
structure LocalTo (m : Eval Value) (roots : Place → Prop) : Prop where
  /-- The store goes on to hold together, and to offer what it offered. -/
  wellFormed : ∀ {a : Machine}, a.store.Offers roots → (m.run a).2.store.WellFormed ∧
    ∀ p, a.store.Has p → (m.run a).2.store.Has p
  /-- A scope that is not reached stays as it is. -/
  scope_eq : ∀ {a : Machine}, a.store.Offers roots → ∀ s, a.store.Has (.scope s) →
    ¬ a.store.Reached roots (.scope s) → (m.run a).2.store.scope s = a.store.scope s
  /-- An object stays as it is. -/
  object_eq : ∀ {a : Machine}, a.store.Offers roots → ∀ i, a.store.Has (.object i) →
    (m.run a).2.store.object i = a.store.object i
  /-- What was there before and is reached afterwards, also from the result, was reached before. -/
  reached : ∀ {a : Machine}, a.store.Offers roots → ∀ p, a.store.Has p →
    (m.run a).2.store.Reached (AtHand roots (m.run a).1) p → a.store.Reached roots p
  /-- In a store that is the same wherever the places reach, the computation does the same. -/
  same : ∀ {a b : Machine}, a.store.Offers roots → b.store.Offers roots → a.room = b.room →
    a.store.Agrees b.store (a.store.Reached roots) → m.Same roots a b

end Eval

namespace Twins

/-- A store and itself, with all that is there in common. -/
def ofWellFormed (store : Store) (h : store.WellFormed) : Twins where
  first := store
  second := store
  shared := store.Has
  wellFormed := h
  has_first hp := hp
  has_second hp := hp
  closed _ hpq := h.has hpq
  scope_eq _ := rfl
  object_eq _ := rfl

/-- **Stores that agree on what some places reach** have that in common. -/
def ofAgrees {a b : Store} {roots : Place → Prop} (ha : a.Offers roots) (hb : b.Offers roots)
    (h : a.Agrees b (a.Reached roots)) : Twins where
  first := a
  second := b
  shared := a.Reached roots
  wellFormed := ha.wellFormed
  has_first hp := ha.has_of_reached hp
  has_second hp := by
    induction hp with
    | root hp => exact hb.has hp
    | step hp hpq _ => exact hb.wellFormed.has (h.points hp hpq)
  closed hp hpq := .step hp hpq
  scope_eq hp := h.scope_eq hp
  object_eq hp := h.object_eq hp

/-- The whole of a store goes on to hold together. -/
theorem wellFormed_of_lockstep {store x y : Store} {hstore : store.WellFormed} {w : Nat × Nat}
    (h : (ofWellFormed store hstore).Lockstep w x y) :
    x.WellFormed ∧ ∀ p, store.Has p → x.Has p := by
  have hknown : ∀ p, x.Has p → (ofWellFormed store hstore).Known w p := by
    intro p hp
    by_cases hold : store.Has p
    · exact known_of_shared hold
    · cases p with
      | scope s => exact Or.inr ⟨Nat.not_lt.1 hold, Nat.lt_of_lt_of_eq hp h.scopes_size.1⟩
      | object i => exact Or.inr ⟨Nat.not_lt.1 hold, Nat.lt_of_lt_of_eq hp h.objects_size.1⟩
  refine ⟨⟨fun hpq => ?_, fun hparent => ?_, fun hheld => ?_⟩, fun p hp => ?_⟩
  · exact h.known_has (h.known_of_points (hknown _ hpq.has) hpq)
  · have hrel := h.parents (hknown _ (Store.Points.parent hparent).has)
    rw [hparent] at hrel
    obtain ⟨_, _, _, hlt⟩ := exists_of_rel_some hrel
    exact hlt
  · exact h.held_lt (hknown _ (Store.Points.held hheld rfl).has) hheld
  · exact h.known_has (known_of_shared hp)

variable {c : Twins} {w : Nat × Nat} {x y : Store}

/-- What is at hand and all that is reached from there is known. -/
theorem Lockstep.known_of_reached (h : c.Lockstep w x y) {roots : Place → Prop}
    (hroots : ∀ p, roots p → c.shared p) {result result' : Except Fault Value}
    (hends : Ends (c.Values w) result result') {p : Place}
    (hp : x.Reached (Eval.AtHand roots result) p) : c.Known w p := by
  refine Store.Reached.of_closed (fun q hq => ?_) (fun q r hq hqr => h.known_of_points hq hqr) hp
  rcases hq with hq | ⟨v, rfl, hv⟩
  · exact known_of_shared (hroots q hq)
  · cases hends with
    | ok hvalues => exact hvalues.known hv

end Twins

namespace Eval

variable {m : Eval Value} {roots : Place → Prop}

/-- The computation stays in the common part of two stores, if it starts there. -/
def StaysIn (m : Eval Value) (roots : Place → Prop) : Prop :=
  ∀ (c : Twins) (before before' : Array String), (∀ p, roots p → c.shared p) →
    (c.runs before before').Matches (0, 0) c.Values m m

/-- What stays in a common part does the same in two stores that agree. -/
theorem StaysIn.same (hm : m.StaysIn roots) {a b : Machine} (ha : a.store.Offers roots)
    (hb : b.store.Offers roots) (hroom : a.room = b.room)
    (h : a.store.Agrees b.store (a.store.Reached roots)) : m.Same roots a b := by
  let c := Twins.ofAgrees ha hb h
  obtain ⟨w, hstores, hends, hlines⟩ :=
    c.exists_lockstep (hm c · · fun _ => .root) (a := a) (b := b) rfl rfl hroom
  have hknown := fun p => hstores.known_of_reached (fun _ => .root) hends (p := p)
  constructor
  case result => exact hends.eq_map fun _ _ hv => hv.eq_value
  case output => exact hlines
  case parent =>
    intro s hs
    exact eq_map_of_rel (hstores.parents (hknown _ hs)) fun _ _ hp => hp.1.2.symm
  case binding =>
    intro s hs name
    refine eq_map_of_rel (hstores.bindings (hknown _ hs) name) fun bound bound' hb => ?_
    obtain ⟨value, constant⟩ := bound
    obtain ⟨value', constant'⟩ := bound'
    obtain ⟨rfl, hv⟩ : constant = constant' ∧ c.Values w value value' := hb
    exact congrArg (Binding.mk · constant) hv.eq_value
  case held =>
    intro i hi key
    exact eq_map_of_rel (hstores.held (hknown _ hi) key) fun _ _ hv => hv.eq_value

/-- **What stays in a common part is local.** -/
theorem StaysIn.localTo (hm : m.StaysIn roots) : m.LocalTo roots := by
  -- A store agrees with itself, so that the run in it is in lockstep with itself.
  have hself : ∀ {a : Machine} (ha : a.store.Offers roots), ∃ w,
      (Twins.ofAgrees ha ha ⟨fun _ => rfl, fun _ => rfl⟩).Lockstep w (m.run a).2.store
          (m.run a).2.store ∧
        ∀ p, (m.run a).2.store.Reached (AtHand roots (m.run a).1) p →
          (Twins.ofAgrees ha ha ⟨fun _ => rfl, fun _ => rfl⟩).Known w p := by
    intro a ha
    let c := Twins.ofAgrees ha ha ⟨fun _ => rfl, fun _ => rfl⟩
    obtain ⟨w, hstores, hends, -⟩ :=
      c.exists_lockstep (hm c · · fun _ => .root) (a := a) (b := a) rfl rfl rfl
    exact ⟨w, hstores, fun p hp => hstores.known_of_reached (fun _ => .root) hends hp⟩
  constructor
  case wellFormed =>
    intro a ha
    let c := Twins.ofWellFormed a.store ha.wellFormed
    obtain ⟨w, hstores, -⟩ :=
      c.exists_lockstep (hm c · · fun _ hp => ha.has hp) (a := a) (b := a) rfl rfl rfl
    exact Twins.wellFormed_of_lockstep hstores
  case scope_eq =>
    intro a ha s hs hnot
    obtain ⟨w, hstores, -⟩ := hself ha
    exact hstores.scope_eq hs hnot
  case object_eq =>
    intro a ha i hi
    obtain ⟨w, hstores, -⟩ := hself ha
    exact hstores.object_eq hi
  case reached =>
    intro a ha p hp hreached
    obtain ⟨w, -, hknown⟩ := hself ha
    exact (hknown p hreached).shared hp
  case same => exact fun ha hb hroom h => hm.same ha hb hroom h

/-- **What is local does the same after anything else that is local**, if the two share no scope. -/
theorem LocalTo.same_after {m' : Eval Value} {roots' : Place → Prop} (hm : m.LocalTo roots)
    (hm' : m'.LocalTo roots') {a b : Machine} (ha : a.store.Offers roots)
    (ha' : a.store.Offers roots')
    (hdisjoint : ∀ s, a.store.Reached roots (.scope s) → ¬ a.store.Reached roots' (.scope s))
    (hstore : b.store = (m.run a).2.store) (hroom : b.room = a.room) : m'.Same roots' a b := by
  obtain ⟨hwellFormed, hhas⟩ := hm.wellFormed ha
  have hb' : b.store.Offers roots' := by
    rw [hstore]
    exact ⟨hwellFormed, fun hp => hhas _ (ha'.has hp)⟩
  refine hm'.same ha' hb' hroom.symm ⟨fun {s} hs => ?_, fun {i} hi => ?_⟩
  · rw [hstore]
    exact hm.scope_eq ha s (ha'.has_of_reached hs) fun hs' => hdisjoint s hs' hs
  · rw [hstore]
    exact hm.object_eq ha i (ha'.has_of_reached hi)

end Eval

/-! ### Evaluation -/

/-- A program is local to what can be reached from its scope. -/
theorem Program.eval_localTo (p : Program) (depth s : Nat) :
    (p.eval depth s).LocalTo (· = .scope s) := by
  refine Eval.StaysIn.localTo fun c before before' hroots => ?_
  have hs := hroots _ rfl
  exact Twins.sound.program depth ⟨Or.inl hs, Twins.relocation_scope hs⟩ p

/-- The places that a call starts from: the scope that the function was declared in, and the places
that the arguments refer to. -/
def Closure.Roots (f : Closure) (arguments : List Value) (p : Place) : Prop :=
  p = .scope f.scope ∨ ∃ v ∈ arguments, v.place? = some p

/-- A call is local to what can be reached from the scope of the function and the arguments. -/
theorem callWithin_localTo (f : Closure) (arguments : List Value) (depth : Nat) :
    (callWithin depth f arguments).LocalTo (f.Roots arguments) := by
  refine Eval.StaysIn.localTo fun c before before' hroots => ?_
  have hs := hroots _ (Or.inl rfl)
  refine Twins.sound.callWithin depth _ f.name f.parameters f.body f.scope f.scope _ _
    ⟨Or.inl hs, Twins.relocation_scope hs⟩ (List.forall₂_same.2 fun v hv => ?_)
  exact Twins.values_self fun p hp => hroots p (Or.inr ⟨v, hv, hp⟩)

/-- A call from a host is local to what can be reached from the scope that it is made from, from
the value that is called, and from the arguments. -/
theorem callFromHost_localTo (callee : Value) (arguments : List Value) (depth scope : Nat) :
    (callFromHost depth scope callee arguments).LocalTo fun p =>
      p = .scope scope ∨ ∃ v ∈ callee :: arguments, v.place? = some p := by
  refine Eval.StaysIn.localTo fun c before before' hroots => ?_
  have hscope := hroots _ (Or.inl rfl)
  have hs : (c.runs before before').scope (0, 0) scope scope :=
    ⟨Or.inl hscope, Twins.relocation_scope hscope⟩
  have hvalues : ∀ v ∈ callee :: arguments, c.Values (0, 0) v v := fun v hv =>
    Twins.values_self fun p hp => hroots p (Or.inr ⟨v, hv, hp⟩)
  have hcallee := hvalues callee List.mem_cons_self
  have harguments : List.Forall₂ (c.Values (0, 0)) arguments arguments :=
    List.forall₂_same.2 fun v hv => hvalues v (List.mem_cons_of_mem _ hv)
  cases callee with
  | native f => exact Twins.sound.perform f.action hs harguments
  | _ => exact Twins.sound.callValue (Twins.sound.callWithin depth) hs hcallee harguments

/-- **A store that a host builds**: it creates scopes, objects and native functions, declares and
assigns names, runs programs and calls values, each time with values that there are. -/
inductive Store.Built : Store → Prop
  | empty : Built .empty
  | declare {store store' : Store} {s : Nat} {name : String} {v : Value} {constant : Bool}
      (h : Built store) (hv : store.Holds v)
      (hdeclare : store.declare s name v constant = .ok store') : Built store'
  | assign {store store' : Store} {s : Nat} {name : String} {v : Value} (h : Built store)
      (hv : store.Holds v) (hassign : store.assign s name v = .ok store') : Built store'
  | newScope {store : Store} {parent : Option Nat} (h : Built store)
      (hparent : ∀ t, parent = some t → store.Has (.scope t)) : Built (store.newScope parent).2
  | newRoot {store : Store} {constants : List (String × Value)} (h : Built store)
      (hvalues : ∀ entry ∈ constants, store.Holds entry.2) : Built (store.newRoot constants).2
  | newObject {store : Store} {properties : Table Value} (h : Built store)
      (hvalues : ∀ key v, properties.find? key = some v → store.Holds v) :
      Built (store.newObject properties).2
  | newNative {store : Store} (h : Built store) (name : String) (action : Action) :
      Built (store.newNative name action).2
  | eval {machine : Machine} (h : Built machine.store) (p : Program) (depth : Nat) {s : Nat}
      (hs : machine.store.Has (.scope s)) : Built ((p.eval depth s).run machine).2.store
  | call {machine : Machine} (h : Built machine.store) {callee : Value} {arguments : List Value}
      (depth : Nat) {s : Nat} (hs : machine.store.Has (.scope s))
      (hvalues : ∀ v ∈ callee :: arguments, machine.store.Holds v) :
      Built ((callFromHost depth s callee arguments).run machine).2.store

/-- **What a host builds holds together.** -/
theorem Store.Built.wellFormed {store : Store} (h : store.Built) : store.WellFormed := by
  induction h with
  | empty => exact wellFormed_empty
  | declare _ hv hdeclare ih => exact ih.declare hv hdeclare
  | assign _ hv hassign ih => exact ih.assign hv hassign
  | newScope _ hparent ih => exact ih.newScope hparent
  | newRoot _ hvalues ih => exact ih.newRoot hvalues
  | newObject _ hvalues ih => exact ih.newObject hvalues
  | newNative _ name action ih => exact ih.newNative name action
  | eval _ p depth hs ih => exact ((p.eval_localTo depth _).wellFormed ⟨ih, fun hp => hp ▸ hs⟩).1
  | call _ depth hs hvalues ih =>
      refine ((callFromHost_localTo _ _ depth _).wellFormed ⟨ih, ?_⟩).1
      rintro p (rfl | ⟨v, hv, hp⟩)
      · exact hs
      · exact hvalues v hv p hp

/-- **Evaluation is local to what it can reach.**

In every store that holds together, as all do that a host builds, a program is local to what can be
reached from its scope, and a call of a function to what can be reached from the scope of the
function and from the arguments: scopes that are not reached and objects stay as they are; what was
there and can be reached afterwards, from the same places or from the result, could be reached
before; and in every other store that is the same in what can be reached, the program or the call
has the same result or the same error and writes the same lines, up to the numbers of the places
that it creates.

So two programs, or two functions, that share no scope never influence each other: the one does
after the other what it would have done before. -/
theorem evaluation_local :
    (∀ (p : Program) (depth s : Nat), (p.eval depth s).LocalTo (· = .scope s)) ∧
    (∀ (f : Closure) (arguments : List Value) (depth : Nat),
      (callWithin depth f arguments).LocalTo (f.Roots arguments)) ∧
    (∀ (p q : Program) (depth depth' s t : Nat) (a b : Machine), a.store.Offers (· = .scope s) →
      a.store.Offers (· = .scope t) →
      (∀ u, a.store.Reached (· = .scope s) (.scope u) →
        ¬ a.store.Reached (· = .scope t) (.scope u)) →
      b.store = ((p.eval depth s).run a).2.store → b.room = a.room →
        (q.eval depth' t).Same (· = .scope t) a b) ∧
    ∀ (f g : Closure) (vs ws : List Value) (depth depth' : Nat) (a b : Machine),
      a.store.Offers (f.Roots vs) → a.store.Offers (g.Roots ws) →
      (∀ u, a.store.Reached (f.Roots vs) (.scope u) → ¬ a.store.Reached (g.Roots ws) (.scope u)) →
      b.store = ((callWithin depth f vs).run a).2.store → b.room = a.room →
        (callWithin depth' g ws).Same (g.Roots ws) a b := by
  refine ⟨Program.eval_localTo, callWithin_localTo, ?_, ?_⟩
  · intro p q depth depth' s t a b hs ht hdisjoint hstore hroom
    exact (p.eval_localTo depth s).same_after (q.eval_localTo depth' t) hs ht hdisjoint hstore hroom
  · intro f g vs ws depth depth' a b hf hg hdisjoint hstore hroom
    exact (callWithin_localTo f vs depth).same_after (callWithin_localTo g ws depth') hf hg
      hdisjoint hstore hroom

/-- Two scopes in which scripts can start: what is printed in the one does not depend on what was
declared in the other. -/
theorem evaluation_local_starts :
    let store := Store.empty.newStart.2.newStart.2
    let a : Machine := { Machine.empty none with store := store }
    let p : Program := ⟨[.declare false "x" (some (.name "true"))]⟩
    let q : Program := ⟨[.expr (.call (.name "print") [.name "false"])]⟩
    store.Offers (· = .scope 0) ∧ store.Offers (· = .scope 1) ∧
      (q.eval 1 1).Same (· = .scope 1) a { a with store := ((p.eval 1 0).run a).2.store } := by
  intro store a p q
  have hwellFormed : store.WellFormed := Store.wellFormed_empty.newStart.newStart
  have hfirst : store.Offers (· = .scope 0) := ⟨hwellFormed, fun hp => hp ▸ by decide⟩
  have hsecond : store.Offers (· = .scope 1) := ⟨hwellFormed, fun hp => hp ▸ by decide⟩
  refine ⟨hfirst, hsecond, evaluation_local.2.2.1 p q 1 1 0 1 a _ hfirst hsecond ?_ rfl rfl⟩
  intro u hu hu'
  have hzero := hu.eq_of_not_points (Store.not_points_of_startConstants rfl)
  have hone := hu'.eq_of_not_points (Store.not_points_of_startConstants rfl)
  cases hzero.symm.trans hone

end Scriptlet
