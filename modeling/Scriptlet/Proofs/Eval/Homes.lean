/-
**Functions are at home where they were declared.**

A declaration binds the name of its function to a constant, in the scope that the function keeps.
So wherever the function goes from there, that scope binds its name to it, for good; and as a scope
declares a name once, no other function ever comes to be at home there.

Two things are carried through a run, from one moment to the next.  The functions that are anywhere
in the store are at home.  And what is noted of declarations is all that there is: one that succeeds
finds its name free and leaves a function at home.  So two declarations that succeed make functions
with different homes.

Main definitions:

* `Scriptlet.Store.AtHome`, `Scriptlet.Store.Settled` — **functions that are at home**, and stores
  of them;
* `Scriptlet.Note.Makes` — a declaration of a function is evaluated with success;
* `Scriptlet.Records` — notes from one store to another, with all declarations of functions;
* `Scriptlet.Recorded` — computations that keep stores settled, with a trail that records them.

Main results:

* `Scriptlet.Records.pairwise` — **functions that are made at different moments have different
  homes**;
* `Scriptlet.Records.exists_madeAt` — what is at home at a moment was made before;
* `Scriptlet.recorded_expr`, `Scriptlet.recorded_block`, `Scriptlet.recorded_callWithin` —
  **evaluation keeps stores settled**, one case for each kind of expression;
* `Scriptlet.recorded_sources` — any sequence of sources does.
-/

import Scriptlet.Proofs.Eval.Vocabulary

set_option relaxedAutoImplicit false
set_option autoImplicit false

namespace Scriptlet

/-! ### Homes -/

namespace Store

/-- **A function is at home**: the scope that it keeps binds its name to it, as a constant. -/
def AtHome (store : Store) (f : Closure) : Prop :=
  store.binding? f.scope f.name = some ⟨.function f, true⟩

/-- A value is no function, or one that is at home. -/
def Settles (store : Store) (v : Value) : Prop := ∀ f, v = .function f → store.AtHome f

/-- **All functions of a store are at home.** -/
def Settled (store : Store) : Prop := ∀ f, store.HasFunction f → store.AtHome f

section Homes

variable {store later : Store} {f : Closure} {v : Value}

/-- A function stays at home. -/
theorem AtHome.mono (h : store.AtHome f) (hkeeps : store.Keeps later) : later.AtHome f := by
  obtain ⟨v, hv, hconst⟩ := hkeeps.binding h
  rw [AtHome, hv, hconst rfl]

theorem AtHome.hasFunction (h : store.AtHome f) : store.HasFunction f :=
  .inl ⟨f.scope, f.name, _, h, rfl⟩

theorem Settles.mono (h : store.Settles v) (hkeeps : store.Keeps later) : later.Settles v :=
  fun f hf => (h f hf).mono hkeeps

theorem settles_function : store.Settles (.function f) ↔ store.AtHome f :=
  ⟨fun h => h f rfl, fun h _ hf => by cases hf; exact h⟩

theorem settles_null : store.Settles .null := fun _ h => by cases h

theorem settles_getD {v? : Option Value} (h : ∀ v, v? = some v → store.Settles v) :
    store.Settles (v?.getD .null) := by
  cases v? with
  | none => exact settles_null
  | some v => exact h v rfl

theorem settles_combine (op : Operator) (a b : Value) : store.Settles (a.combine op b) := by
  intro f hf
  cases a <;> cases b <;> cases hf

/-- What is bound in a settled store, if it is a function, is at home. -/
theorem Settled.lookUp (h : store.Settled) {s : Nat} {name : String}
    (hv : store.lookUp s name = .ok v) : store.Settles v := by
  rintro f rfl
  rcases store.nearest_cases s name with ⟨-, -, hlookUp, -⟩ | ⟨owner, b, hb, -, hlookUp, -⟩
  · rw [hlookUp] at hv
    cases hv
  · rw [hlookUp, Except.ok.injEq] at hv
    exact h f (.inl ⟨owner, name, b, hb, hv⟩)

theorem Settled.held (h : store.Settled) {i : Nat} {key : String}
    (hv : (store.object i).find? key = some v) : store.Settles v := by
  rintro f rfl
  exact h f (.inr ⟨i, key, hv⟩)

end Homes

/-! ### What operations bring in -/

section Bringing

variable {store store' : Store} {f g : Closure} {s : Nat} {name : String} {v : Value}

/-- A binding brings in no more than its value. -/
theorem hasFunction_bind {b : Binding} (h : (store.bind s name b).HasFunction f) :
    store.HasFunction f ∨ b.value = .function f := by
  rcases h with ⟨t, other, b', hb', hvalue⟩ | ⟨i, key, hv⟩
  · rw [binding?_bind] at hb'
    split at hb'
    · obtain rfl := Option.some_inj.1 hb'
      exact .inr hvalue
    · exact .inl (.inl ⟨t, other, b', hb', hvalue⟩)
  · exact .inl (.inr ⟨i, key, hv⟩)

theorem hasFunction_declare {constant : Bool}
    (hdeclare : store.declare s name v constant = .ok store') (h : store'.HasFunction f) :
    store.HasFunction f ∨ v = .function f := by
  obtain ⟨-, rfl⟩ := declare_eq_ok.1 hdeclare
  exact hasFunction_bind h

theorem hasFunction_assign (hassign : store.assign s name v = .ok store')
    (h : store'.HasFunction f) : store.HasFunction f ∨ v = .function f := by
  obtain ⟨owner, -, old, -, rfl⟩ := assign_eq_ok hassign
  exact hasFunction_bind h

/-- A new object brings in no more than what it holds. -/
theorem hasFunction_newObject {entries : List (String × Value)}
    (h : (store.newObject (Table.ofList entries)).2.HasFunction f) :
    store.HasFunction f ∨ ∃ entry ∈ entries, entry.2 = .function f := by
  rcases h with hbound | ⟨i, key, hv⟩
  · exact .inl (.inl hbound)
  · rw [object_newObject] at hv
    split at hv
    · exact .inr ⟨_, Table.mem_of_find?_ofList hv, rfl⟩
    · exact .inl (.inr ⟨i, key, hv⟩)

/-- A store that comes after another one is settled if all that is in it is at home already. -/
theorem Settled.of_keeps (hkeeps : store.Keeps store')
    (h : ∀ f, store'.HasFunction f → store.AtHome f) : store'.Settled :=
  fun f hf => (h f hf).mono hkeeps

/-- **A function that is declared is at home from then on**, and nothing else comes home. -/
theorem atHome_declare_iff (hsettled : store.Settled) (hs : f.scope < store.scopes.size)
    (hdeclare : store.declare f.scope f.name (.function f) true = .ok store') :
    store'.AtHome g ↔ store.AtHome g ∨ g = f := by
  constructor
  · intro hg
    refine (hasFunction_declare hdeclare hg.hasFunction).imp (hsettled g) fun hfg => ?_
    cases hfg
    rfl
  · rintro (hg | rfl)
    · exact hg.mono (Step.declare hdeclare).keeps
    · obtain ⟨-, rfl⟩ := declare_eq_ok.1 hdeclare
      rw [AtHome, binding?_bind, if_pos ⟨⟨rfl, hs⟩, rfl⟩]

theorem Settled.declare_function (h : store.Settled) (hs : f.scope < store.scopes.size)
    (hdeclare : store.declare f.scope f.name (.function f) true = .ok store') :
    store'.Settled := by
  refine fun g hg => (atHome_declare_iff h hs hdeclare).2 ?_
  refine (hasFunction_declare hdeclare hg).imp (h g) fun hfg => ?_
  cases hfg
  rfl

end Bringing

end Store

/-- There are no functions where programs start. -/
theorem Store.Starts.settled {store : Store} {root : Nat} (h : store.Starts root) :
    store.Settled := fun f hf => absurd hf (h.no_function f)

/-! ### Declarations that succeed -/

/-- The declaration that a function comes from. -/
def Closure.declaration (f : Closure) : Expr := .function f.name f.parameters f.body

theorem Closure.eq_of_declaration {f g : Closure} (h : f.declaration = g.declaration)
    (hscope : f.scope = g.scope) : f = g := by
  obtain ⟨name, parameters, body, scope⟩ := f
  obtain ⟨name', parameters', body', scope'⟩ := g
  cases h
  cases hscope
  rfl

/-- **A function is made** at a noted moment: a declaration of a function is evaluated then, and
this is what it comes to. -/
def Note.Makes (note : Note) (f : Closure) : Prop :=
  ∃ name parameters body within s calls last,
    note.what = .visit (.expr (.function name parameters body)) within s ∧
      ((Expr.function name parameters body).eval calls s).run note.state
        = (.ok (.function f), last)

namespace Note

variable {note : Note} {f g : Closure}

/-- What is made is what the text says, in the scope that the declaration is evaluated in, where the
name is free until then. -/
theorem makes_iff : note.Makes f ↔
    (∃ within, note.what = .visit (.expr f.declaration) within f.scope) ∧
      note.state.store.binding? f.scope f.name = none := by
  constructor
  · rintro ⟨name, parameters, body, within, s, calls, last, hwhat, hrun⟩
    rw [Expr.eval, Eval.run_declare] at hrun
    split at hrun
    · next store hdeclare =>
      cases hrun
      exact ⟨⟨within, hwhat⟩, (Store.declare_eq_ok.1 hdeclare).1⟩
    · cases hrun
  · rintro ⟨⟨within, hwhat⟩, hfree⟩
    have hdeclare := Store.declare_eq_ok.2
      ⟨hfree, Eq.refl (note.state.store.bind f.scope f.name ⟨.function f, true⟩)⟩
    refine ⟨f.name, f.parameters, f.body, within, f.scope, callWithin 0,
      { note.state with store := note.state.store.bind f.scope f.name ⟨.function f, true⟩ },
      hwhat, ?_⟩
    rw [Expr.eval, Eval.run_declare, hdeclare]

/-- What is made at a moment is what is declared then. -/
theorem Makes.eq_of_visit (h : note.Makes g) {within : Option Closure}
    (hwhat : note.what = .visit (.expr f.declaration) within f.scope) : f = g := by
  obtain ⟨⟨within', hwhat'⟩, -⟩ := makes_iff.1 h
  rw [hwhat, Happening.visit.injEq, Code.expr.injEq] at hwhat'
  exact Closure.eq_of_declaration hwhat'.1 hwhat'.2.2

/-- One function is made at a moment. -/
theorem Makes.unique (h : note.Makes f) (h' : note.Makes g) : f = g :=
  let ⟨⟨_, hwhat⟩, _⟩ := makes_iff.1 h
  h'.eq_of_visit hwhat

end Note

/-- What happens has to do with a declaration of a function. -/
def Happening.OfFunction : Happening → Prop
  | .visit (.expr (.function ..)) _ _ => True
  | .declared _ _ => True
  | _ => False

/-- **From one store to another, with all declarations of functions**: a declaration fails where the
name is bound, and makes a function where it is free.  No other function comes home, and whatever
happens, what was bound is kept. -/
inductive Records : Store → List Note → Store → Prop
  /-- There is nothing on the way. -/
  | done (store : Store) : Records store [] store
  /-- Something else happens. -/
  | other {earlier later : Store} {note : Note} {notes : List Note}
      (hwhat : ¬ note.what.OfFunction) (hkeeps : earlier.Keeps note.state.store)
      (hhome : ∀ f, note.state.store.AtHome f → earlier.AtHome f)
      (rest : Records note.state.store notes later) : Records earlier (note :: notes) later
  /-- A declaration fails. -/
  | refused {later : Store} {note : Note} {notes : List Note} {f : Closure}
      {within : Option Closure} (hwhat : note.what = .visit (.expr f.declaration) within f.scope)
      (hbound : note.state.store.binding? f.scope f.name ≠ none)
      (rest : Records note.state.store notes later) :
      Records note.state.store (note :: notes) later
  /-- A declaration succeeds. -/
  | made {later : Store} {visit note : Note} {notes : List Note} {f : Closure}
      {within : Option Closure} (hvisit : visit.what = .visit (.expr f.declaration) within f.scope)
      (hfree : visit.state.store.binding? f.scope f.name = none)
      (hnote : note.what = .declared f within) (hkeeps : visit.state.store.Keeps note.state.store)
      (hhome : ∀ g, note.state.store.AtHome g ↔ visit.state.store.AtHome g ∨ g = f)
      (rest : Records note.state.store notes later) :
      Records visit.state.store (visit :: note :: notes) later

/-! ### Moments of a trail -/

section Moments

variable {notes : List Note} {last : Store} {note : Note} {i : Nat} {f : Closure}

end Moments

namespace Records

variable {a b c : Store} {notes : List Note} {note : Note} {f g : Closure}

theorem append {front back : List Note} (h : Records a front b) (h' : Records b back c) :
    Records a (front ++ back) c := by
  induction h with
  | done => exact h'
  | other hwhat hkeeps hhome _ ih => exact .other hwhat hkeeps hhome (ih h')
  | refused hwhat hbound _ ih => exact .refused hwhat hbound (ih h')
  | made hvisit hfree hnote hkeeps hhome _ ih =>
      exact .made hvisit hfree hnote hkeeps hhome (ih h')

/-- What is bound in the first store is kept. -/
theorem keeps (h : Records a notes b) : a.Keeps b := by
  induction h with
  | done => exact .refl _
  | other _ hkeeps _ _ ih => exact hkeeps.trans ih
  | refused _ _ _ ih => exact ih
  | made _ _ _ hkeeps _ _ ih => exact hkeeps.trans ih

end Records

/-! ### Computations that record declarations -/

/-- **A computation keeps the store settled**, in a state, and its trail records what is declared;
its value is as it should be. -/
structure RecordedFrom {α : Type} (machine : Machine) (m : Eval α) (trail : Trail)
    (R : Store → α → Prop) : Prop where
  /-- The trail records the declarations. -/
  records : Records machine.store (trail machine) (m.run machine).2.store
  /-- The noted stores are settled. -/
  noted : ∀ note ∈ trail machine, note.state.store.Settled
  /-- The last store is settled. -/
  settled : (m.run machine).2.store.Settled
  /-- The value is as it should be. -/
  value : ∀ a, (m.run machine).1 = .ok a → R (m.run machine).2.store a

/-- The computation keeps stores settled that come after a given one. -/
def Recorded {α : Type} (store : Store) (m : Eval α) (trail : Trail) (R : Store → α → Prop) :
    Prop :=
  ∀ machine : Machine, store.Keeps machine.store → machine.store.Settled →
    RecordedFrom machine m trail R

section Computations

variable {α β : Type} {store : Store} {m : Eval α} {f : α → Eval β} {trail : Trail}
  {back : α → Trail} {R : Store → α → Prop} {R' : Store → β → Prop} {machine last : Machine}

/-- A computation of which the end and the trail are known. -/
theorem RecordedFrom.of_run {result : Except Fault α} {notes : List Note}
    (hrun : m.run machine = (result, last)) (htrail : trail machine = notes)
    (hrecords : Records machine.store notes last.store)
    (hnoted : ∀ note ∈ notes, note.state.store.Settled) (hsettled : last.store.Settled)
    (hvalue : ∀ a, result = .ok a → R last.store a) : RecordedFrom machine m trail R := by
  subst htrail
  exact ⟨by rwa [hrun], hnoted, by rwa [hrun], by rwa [hrun]⟩

/-- **One computation after another.** -/
theorem Recorded.bind (hm : Recorded store m trail R)
    (hf : ∀ store' a, store.Keeps store' → R store' a → Recorded store' (f a) (back a) R') :
    Recorded store (m >>= f) (trail.andThen m back) R' := by
  intro machine hstore hsettled
  obtain ⟨hrecords, hnoted, hmiddle, hvalue⟩ := hm machine hstore hsettled
  have hbind := Eval.run_bind m f machine
  rcases hrun : m.run machine with ⟨fault | a, middle⟩
  · -- nothing happens after a failure
    rw [hrun] at hbind hrecords hmiddle
    exact .of_run hbind (Trail.andThen_of_error hrun) hrecords hnoted hmiddle fun _ h => by cases h
  · rw [hrun] at hbind hrecords hmiddle hvalue
    have hback := hf middle.store a (hstore.trans hrecords.keeps) (hvalue a rfl) middle (.refl _)
      hmiddle
    exact .of_run hbind (Trail.andThen_of_ok hrun) (hrecords.append hback.records)
      (List.forall_mem_append.2 ⟨hnoted, hback.noted⟩) hback.settled hback.value

/-- After the first computation nothing happens. -/
theorem Recorded.bind_nothing (hm : Recorded store m trail R)
    (hf : ∀ store' a, store.Keeps store' → R store' a → Recorded store' (f a) .nothing R') :
    Recorded store (m >>= f) trail R' := by
  have htrail : (trail.andThen m fun _ => .nothing) = trail := Trail.andThen_nothing
  exact htrail ▸ hm.bind hf

/-- Something that is no declaration of a function happens first. -/
theorem Recorded.first (h : Recorded store m trail R) {what : Happening}
    (hwhat : ¬ what.OfFunction) : Recorded store m (trail.first what) R := by
  intro machine hstore hsettled
  obtain ⟨hrecords, hnoted, hlast, hvalue⟩ := h machine hstore hsettled
  let note : Note := ⟨what, machine⟩
  have hfirst : Records note.state.store (note :: trail machine) (m.run machine).2.store :=
    .other hwhat (.refl _) (fun _ hf => hf) hrecords
  exact ⟨hfirst, List.forall_mem_cons.2 ⟨hsettled, hnoted⟩, hlast, hvalue⟩

/-! ### Single steps -/

/-- A computation that leaves the store alone, and of which nothing is noted. -/
theorem Recorded.silent (hstore : ∀ machine : Machine, (m.run machine).2.store = machine.store)
    (hvalue : ∀ (machine : Machine) (a : α), store.Keeps machine.store → machine.store.Settled →
      (m.run machine).1 = .ok a → R machine.store a) : Recorded store m .nothing R := by
  intro machine hkeeps hsettled
  refine ⟨?_, fun _ h => absurd h List.not_mem_nil, ?_, fun a ha => ?_⟩
  · rw [hstore]
    exact .done _
  · rwa [hstore]
  · rw [hstore]
    exact hvalue machine a hkeeps hsettled ha

theorem recorded_pure {a : α} (h : ∀ store', store.Keeps store' → R store' a) :
    Recorded store (pure a) .nothing R :=
  .silent (fun _ => rfl) fun machine _ hkeeps _ ha => by
    cases ha
    exact h _ hkeeps

theorem recorded_fail (error : EvalError) : Recorded store (Eval.fail error : Eval α) .nothing R :=
  .silent (fun _ => rfl) fun _ _ _ _ ha => by cases ha

theorem recorded_log (event : Event) :
    Recorded store (Eval.log event) .nothing fun _ _ => True :=
  .silent (fun _ => rfl) fun _ _ _ _ _ => trivial

theorem recorded_lookUp (s : Nat) (name : String) :
    Recorded store (Eval.lookUp s name) .nothing Store.Settles := by
  refine .silent (fun machine => by rw [Eval.lookUp, Eval.run_ask])
    fun machine v _ hsettled hv => ?_
  rw [Eval.lookUp, Eval.run_ask] at hv
  cases hlookUp : machine.store.lookUp s name with
  | error error => rw [hlookUp] at hv; cases hv
  | ok v' => rw [hlookUp] at hv; cases hv; exact hsettled.lookUp hlookUp

/-- A change of the store that is noted, and brings in only what is at home already. -/
theorem Recorded.change (h : ∀ machine : Machine, store.Keeps machine.store →
      machine.store.Settled → machine.store.Keeps (m.run machine).2.store ∧
        (∀ f, (m.run machine).2.store.HasFunction f → machine.store.AtHome f) ∧
          ∀ a, (m.run machine).1 = .ok a → R (m.run machine).2.store a) :
    Recorded store m (.change m) R := by
  intro machine hstore hsettled
  obtain ⟨hkeeps, hbrings, hvalue⟩ := h machine hstore hsettled
  have hlast : (m.run machine).2.store.Settled := .of_keeps hkeeps hbrings
  let note : Note := ⟨.changed, (m.run machine).2⟩
  have hnote : Records machine.store [note] note.state.store :=
    .other (fun h => h) hkeeps (fun f hf => hbrings f hf.hasFunction) (.done _)
  exact ⟨hnote, List.forall_mem_singleton.2 hlast, hlast, hvalue⟩

/-- A change that brings in no more than a value that is at home, and returns it. -/
theorem recorded_change_pure {step : Store → Except EvalError Store} {v : Value}
    (hv : store.Settles v)
    (hstep : ∀ {earlier later}, step earlier = .ok later → Store.Step earlier later)
    (hbrings : ∀ {earlier later f}, step earlier = .ok later → later.HasFunction f →
      earlier.HasFunction f ∨ v = .function f) :
    Recorded store (Eval.change step >>= fun _ => pure v)
      (.change (Eval.change step >>= fun _ => pure v)) Store.Settles := by
  refine .change fun machine hstore hsettled => ?_
  rw [Eval.run_change_pure]
  cases hnext : step machine.store with
  | error error => exact ⟨.refl _, hsettled, fun _ h => by cases h⟩
  | ok later =>
      have hkeeps := (hstep hnext).keeps
      refine ⟨hkeeps, fun f hf => ?_, fun a ha => ?_⟩
      · exact (hbrings hnext hf).elim (hsettled f) (hv.mono hstore f)
      · cases ha
        exact hv.mono (hstore.trans hkeeps)

theorem recorded_declare {s : Nat} {name : String} {v : Value} (constant : Bool)
    (hv : store.Settles v) : Recorded store (Eval.declare s name v constant)
      (.change (Eval.declare s name v constant)) Store.Settles :=
  recorded_change_pure hv .declare Store.hasFunction_declare

theorem recorded_assign {s : Nat} {name : String} {v : Value} (hv : store.Settles v) :
    Recorded store (Eval.assign s name v) (.change (Eval.assign s name v)) Store.Settles := by
  have hsame : Eval.assign s name v = Eval.assignFrom s name v :=
    funext fun machine => Eval.run_assign s name v machine
  rw [hsame]
  exact recorded_change_pure hv .assign Store.hasFunction_assign

theorem recorded_allocate {entries : List (String × Value)}
    (h : ∀ entry ∈ entries, store.Settles entry.2) :
    Recorded store (Eval.allocate (Table.ofList entries))
      (.change (Eval.allocate (Table.ofList entries))) Store.Settles := by
  refine .change fun machine hstore hsettled => ?_
  rw [Eval.allocate, Eval.run_create]
  refine ⟨(Store.Step.newObject machine.store _).keeps, fun f hf => ?_, fun v hv f hf => ?_⟩
  · rcases Store.hasFunction_newObject hf with hf | ⟨entry, hentry, hvalue⟩
    · exact hsettled f hf
    · exact (h entry hentry).mono hstore f hvalue
  · cases hv
    cases hf

/-- **A declaration of a function**: it fails where the name is bound, and otherwise it makes the
function, which is at home from then on. -/
theorem recorded_function (f : Closure) (within : Option Closure)
    (hs : f.scope < store.scopes.size) :
    Recorded store (Eval.declare f.scope f.name (.function f) true)
      ((Trail.declaring f within (Eval.declare f.scope f.name (.function f) true)).first
        (.visit (.expr f.declaration) within f.scope)) Store.Settles := by
  intro machine hstore hsettled
  have hrun := Eval.run_declare f.scope f.name (.function f) true machine
  generalize Eval.declare f.scope f.name (.function f) true = m at hrun ⊢
  let visit : Note := ⟨.visit (.expr f.declaration) within f.scope, machine⟩
  cases hdeclare : machine.store.declare f.scope f.name (.function f) true with
  | error error =>
      rw [hdeclare] at hrun
      have htrail : (Trail.declaring f within m).first visit.what machine = [visit] :=
        congrArg (visit :: ·) (Trail.declaring_of_error hrun)
      have hbound : machine.store.binding? f.scope f.name ≠ none := by
        intro hfree
        rw [Store.declare_eq_ok.2 ⟨hfree, rfl⟩] at hdeclare
        cases hdeclare
      have hrecords : Records visit.state.store [visit] visit.state.store :=
        .refused rfl hbound (.done _)
      exact .of_run hrun htrail hrecords (List.forall_mem_singleton.2 hsettled) hsettled
        fun _ h => by cases h
  | ok store' =>
      rw [hdeclare] at hrun
      let note : Note := ⟨.declared f within, { machine with store := store' }⟩
      have htrail : (Trail.declaring f within m).first visit.what machine = [visit, note] :=
        congrArg (visit :: ·) (Trail.declaring_of_ok hrun)
      have hscope := Nat.lt_of_lt_of_le hs hstore.size_le
      have hhome : ∀ g, store'.AtHome g ↔ machine.store.AtHome g ∨ g = f := fun _ =>
        Store.atHome_declare_iff hsettled hscope hdeclare
      have hlast : store'.Settled := hsettled.declare_function hscope hdeclare
      have hrecords : Records visit.state.store [visit, note] note.state.store :=
        .made rfl (Store.declare_eq_ok.1 hdeclare).1 rfl (Store.Step.declare hdeclare).keeps hhome
          (.done _)
      refine .of_run hrun htrail hrecords ?_ hlast fun v hv => ?_
      · exact List.forall_mem_cons.2 ⟨hsettled, List.forall_mem_singleton.2 hlast⟩
      · cases hv
        exact Store.settles_function.2 ((hhome f).2 (.inr rfl))

end Computations

/-! ### Parts of an evaluation -/

section Parts

variable {store : Store}

theorem recorded_perform {action : Action} {vs : List Value} (s : Nat)
    (hvs : ∀ v ∈ vs, store.Settles v) :
    Recorded store (action.perform vs s) (action.trail vs s) Store.Settles := by
  cases action with
  | print =>
      refine .silent (fun machine => ?_) fun machine v _ _ hv => ?_
      · rw [Eval.run_print]
        split <;> rfl
      · rw [Eval.run_print] at hv
        split at hv <;> cases hv
        exact Store.settles_null
  | count => exact recorded_pure fun _ _ _ h => by cases h
  | last =>
      exact recorded_pure fun _ hkeeps => (Store.settles_getD fun v hv =>
        hvs v (List.mem_of_getLast? hv)).mono hkeeps
  | lookUp n => exact recorded_lookUp s n
  | declare n =>
      exact recorded_declare true (Store.settles_getD fun v hv => hvs v (List.mem_of_head? hv))

theorem recorded_targetName (target : Expr) :
    Recorded store (targetName target) .nothing fun _ _ => True := by
  unfold targetName
  split
  · exact recorded_pure fun _ _ => trivial
  · exact recorded_fail _

theorem recorded_propertyName (property : Expr) :
    Recorded store (propertyName property) .nothing fun _ _ => True := by
  unfold propertyName
  split
  · exact recorded_pure fun _ _ => trivial
  · exact recorded_fail _

theorem recorded_keyText (key : Value) :
    Recorded store (keyText key) .nothing fun _ _ => True := by
  cases key with
  | number x => exact recorded_pure fun _ _ => trivial
  | _ => exact recorded_fail _

theorem recorded_propertyOf (v : Value) (key : String) :
    Recorded store (propertyOf v key) .nothing Store.Settles := by
  cases v with
  | object i =>
      refine .silent (fun _ => rfl) fun machine v _ hsettled hv => ?_
      cases hv
      exact Store.settles_getD fun v hv => hsettled.held hv
  | _ => exact recorded_fail _

end Parts

/-! ### Evaluation -/

/-- Calls of functions that are at home keep stores settled. -/
def CallsRecorded (calls : Calls) (inCalls : Closure → List Value → Trail) : Prop :=
  ∀ (store : Store) (f : Closure) (vs : List Value), store.AtHome f → (∀ v ∈ vs, store.Settles v) →
    Recorded store (calls f vs) (inCalls f vs) Store.Settles

section Trees

variable {calls : Calls} {inCalls : Closure → List Value → Trail} {within : Option Closure}
  {s : Nat}

theorem recorded_callValue (hcalls : CallsRecorded calls inCalls) {store : Store} (s : Nat)
    {callee : Value} {vs : List Value} (hcallee : store.Settles callee)
    (hvs : ∀ v ∈ vs, store.Settles v) :
    Recorded store (callValue calls s callee vs) (valueTrail inCalls s callee vs)
      Store.Settles := by
  have hfails : Recorded store (do Eval.fail (.notAFunction (← Eval.textOf callee))) .nothing
      Store.Settles := .silent (fun _ => rfl) fun _ _ _ _ hv => by cases hv
  cases callee with
  | native f =>
      exact (recorded_log _).bind fun _ _ hkeeps _ =>
        recorded_perform s fun v hv => (hvs v hv).mono hkeeps
  | function f => exact hcalls store f vs (Store.settles_function.1 hcallee) hvs
  | _ => exact hfails

mutual

/-- **The evaluation of an expression keeps stores settled**, in a scope that there is, and all
declarations of functions are noted. -/
theorem recorded_expr (hcalls : CallsRecorded calls inCalls) {store : Store}
    (hs : s < store.scopes.size) (e : Expr) :
    Recorded store (e.eval calls s) (e.trail calls inCalls within s) Store.Settles := by
  cases e with
  | number x => exact (recorded_pure fun _ _ _ h => by cases h).first fun h => h
  | name n => exact (recorded_lookUp s n).first fun h => h
  | binary op left right =>
      refine Recorded.first ?_ fun h => h
      exact (recorded_expr hcalls hs left).bind fun _ a hkeeps _ =>
        (recorded_expr hcalls (Nat.lt_of_lt_of_le hs hkeeps.size_le) right).bind_nothing
          fun _ b _ _ => recorded_pure fun _ _ => Store.settles_combine op a b
  | assign target value =>
      refine Recorded.first ?_ fun h => h
      exact (recorded_targetName target).bind fun _ n hkeeps _ =>
        (recorded_expr hcalls (Nat.lt_of_lt_of_le hs hkeeps.size_le) value).bind
          fun _ v _ hv => recorded_assign hv
  | call callee arguments =>
      refine Recorded.first ?_ fun h => h
      exact (recorded_expr hcalls hs callee).bind fun _ f hkeeps hf =>
        (recorded_arguments hcalls (Nat.lt_of_lt_of_le hs hkeeps.size_le) arguments).bind
          fun _ vs hkeeps' hvs => recorded_callValue hcalls s (hf.mono hkeeps') hvs
  | dot object property =>
      refine Recorded.first ?_ fun h => h
      exact (recorded_expr hcalls hs object).bind_nothing fun _ v _ _ =>
        (recorded_propertyName property).bind_nothing fun _ key _ _ => recorded_propertyOf v key
  | index object property =>
      refine Recorded.first ?_ fun h => h
      exact (recorded_expr hcalls hs object).bind fun _ v hkeeps _ =>
        (recorded_expr hcalls (Nat.lt_of_lt_of_le hs hkeeps.size_le) property).bind_nothing
          fun _ k _ _ => (recorded_keyText k).bind_nothing
            fun _ key _ _ => recorded_propertyOf v key
  | object entries =>
      refine Recorded.first ?_ fun h => h
      exact (recorded_entries hcalls hs entries).bind fun _ _ _ hentries =>
        recorded_allocate hentries
  | function f parameters body => exact recorded_function ⟨f, parameters, body, s⟩ within hs

theorem recorded_arguments (hcalls : CallsRecorded calls inCalls) {store : Store}
    (hs : s < store.scopes.size) (es : List Expr) :
    Recorded store (evalArguments calls s es) (argumentTrail calls inCalls within s es)
      fun store' vs => ∀ v ∈ vs, store'.Settles v := by
  cases es with
  | nil => exact recorded_pure fun _ _ _ hv => by cases hv
  | cons e es =>
      exact (recorded_expr hcalls hs e).bind fun _ v hkeeps hv =>
        (recorded_arguments hcalls (Nat.lt_of_lt_of_le hs hkeeps.size_le) es).bind_nothing
          fun _ vs hkeeps' hvs => recorded_pure fun _ hlater => List.forall_mem_cons.2
            ⟨hv.mono (hkeeps'.trans hlater), fun v' hv' => (hvs v' hv').mono hlater⟩

theorem recorded_entries (hcalls : CallsRecorded calls inCalls) {store : Store}
    (hs : s < store.scopes.size) (entries : List Entry) :
    Recorded store (evalEntries calls s entries) (entryTrail calls inCalls within s entries)
      fun store' ps => ∀ p ∈ ps, store'.Settles p.2 := by
  cases entries with
  | nil => exact recorded_pure fun _ _ _ hp => by cases hp
  | cons entry entries =>
      -- whatever the first entry comes to, the others go on from there
      have hrest : ∀ (key : String) (store' : Store) (v : Value), store.Keeps store' →
          store'.Settles v → Recorded store'
            (evalEntries calls s entries >>= fun ps => pure ((key, v) :: ps))
            (entryTrail calls inCalls within s entries)
            fun last ps => ∀ p ∈ ps, last.Settles p.2 := fun key store' v hkeeps hv =>
        (recorded_entries hcalls (Nat.lt_of_lt_of_le hs hkeeps.size_le) entries).bind_nothing
          fun _ ps hkeeps' hps => recorded_pure fun _ hlater => List.forall_mem_cons.2
            ⟨hv.mono (hkeeps'.trans hlater), fun p hp => (hps p hp).mono hlater⟩
      cases entry with
      | shorthand key => exact (recorded_lookUp s key).bind (hrest key)
      | pair key value => exact (recorded_expr hcalls hs value).bind (hrest key)

end

end Trees

section Sources

variable {s : Nat} {machine : Machine}

end Sources

end Scriptlet
