/-
**Everything in a run comes from the text.**

What a run evaluates is a piece of the programs, and what it puts into the store comes from there:
a function from a declaration, a name and a key from where they are written.  A function keeps the
scope that it was declared in, wherever it goes; so whoever calls it, its body is evaluated inside
that scope.

This is kept by every step of a run.  What is said about a moment is said of the notes up to then
and of the store, and it stays true as more is noted.

Main definitions:

* `Scriptlet.Origin` — the programs that are run, the scope they are run in, and names;
* `Scriptlet.World` — what was noted so far, and a store;
* `Scriptlet.Origin.Declared`, `Scriptlet.Origin.Known` — functions and values that come from the
  programs;
* `Scriptlet.Origin.Sound` — **stores in which everything comes from the programs**;
* `Scriptlet.Origin.Seated`, `Scriptlet.Origin.Written` — the scope and the text that belong to the
  body of a function;
* `Scriptlet.Origin.Account` — notes that lead from a sound store to a sound store;
* `Scriptlet.Origin.Traces` — computations that keep stores sound, with their trail.

Main results:

* `Scriptlet.Origin.Sound.declare`, `Scriptlet.Origin.Sound.assign`,
  `Scriptlet.Origin.Sound.newScope`, `Scriptlet.Origin.Sound.newObject` — what keeps a store sound;
* `Scriptlet.Origin.Traces.bind` — one computation after another;
* `Scriptlet.Origin.traces_declare`, `Scriptlet.Origin.traces_assign`,
  `Scriptlet.Origin.traces_enter`, `Scriptlet.Origin.traces_allocate`,
  `Scriptlet.Origin.traces_declare_function` — **the single steps of a run keep stores sound**.
-/

import Mathlib.Order.Basic
import Scriptlet.Proofs.Eval.Reach
import Scriptlet.Proofs.Eval.Trail

set_option relaxedAutoImplicit false
set_option autoImplicit false

namespace Scriptlet

/-! ### Where everything comes from -/

/-- **Where everything comes from**: programs, the scope that they are run in, and the names that
there may be, those of the programs among them. -/
structure Origin where
  /-- The programs. -/
  programs : List Program
  /-- The scope that the programs are run in. -/
  root : Nat
  /-- The names that there may be. -/
  Named : String → Prop
  /-- The names of the programs are among them. -/
  named : ∀ {d : Nat} {c : Code}, Occurs programs d c → ∀ n ∈ c.names, Named n

/-- **How far a run has come**: what was noted, and the store. -/
structure World where
  /-- What was noted. -/
  notes : List Note
  /-- The store. -/
  store : Store

/-- Worlds go on: more is noted, and the store keeps what it had. -/
instance : Preorder World where
  le w w' := w.notes ⊆ w'.notes ∧ w.store.Keeps w'.store
  le_refl w := ⟨List.Subset.refl _, .refl _⟩
  le_trans _ _ _ h h' := ⟨List.Subset.trans h.1 h'.1, h.2.trans h'.2⟩

namespace Origin

variable (o : Origin)

/-- **A function that was declared** by a piece of the programs. -/
def Declared (w : World) (f : Closure) : Prop :=
  (∃ within state d, ⟨.declared f within, state⟩ ∈ w.notes ∧ Nested w.notes within d ∧
    Occurs o.programs d (.expr (.function f.name f.parameters f.body))) ∧
  f.scope < w.store.scopes.size

/-- **A value that comes from the programs**: a function that was declared, a native function that
gives no other names, or what refers to no scope. -/
def Known (w : World) : Value → Prop
  | .function f => o.Declared w f
  | .native f => ∀ n, f.action = .declare n → o.Named n
  | _ => True

/-- **The store holds together**, and everything in it comes from the programs. -/
structure Sound (w : World) : Prop where
  /-- There is the scope that the programs are run in. -/
  root_lt : o.root < w.store.scopes.size
  /-- It is inside no other. -/
  root_parent : (w.store.scope o.root).parent = none
  /-- All other scopes are inside older ones. -/
  inside : ∀ s < w.store.scopes.size, s ≠ o.root →
    ∃ t < s, (w.store.scope s).parent = some t
  /-- What is bound comes from the programs. -/
  bound : ∀ {s : Nat} {name : String} {b : Binding}, w.store.binding? s name = some b →
    o.Named name ∧ o.Known w b.value
  /-- What objects hold comes from the programs. -/
  held : ∀ {i : Nat} {key : String} {v : Value}, (w.store.object i).find? key = some v →
    o.Named key ∧ o.Known w v

/-- **A scope for the body of a function**: it is directly inside the scope of the function.  What
is in the body of no function belongs in the scope that programs are run in. -/
def Seated (w : World) (within : Option Closure) (s : Nat) : Prop :=
  s < w.store.scopes.size ∧
    match within with
    | none => s = o.root
    | some f => (w.store.scope s).parent = some f.scope

/-- **A piece of the programs**, inside as many function declarations as was noted. -/
def Written (w : World) (within : Option Closure) (c : Code) : Prop :=
  ∃ d, Nested w.notes within d ∧ Occurs o.programs d c

/-- What happens fits: pieces of programs are evaluated in scopes where they belong. -/
def Fits (w : World) : Happening → Prop
  | .visit c within s => o.Seated w within s ∧ o.Written w within c
  | .declared f within =>
      o.Seated w within f.scope ∧
        o.Written w within (.expr (.function f.name f.parameters f.body))
  | .changed => True

/-- What was noted is right: the store is sound, and what happens fits. -/
def Good (notes : List Note) (note : Note) : Prop :=
  o.Sound ⟨notes, note.state.store⟩ ∧ o.Fits ⟨notes, note.state.store⟩ note.what

variable {o}

/-! ### Later worlds -/

section Later

variable {w w' : World}

theorem Declared.mono {f : Closure} (h : o.Declared w f) (hw : w ≤ w') : o.Declared w' f := by
  obtain ⟨⟨within, state, d, hnote, hd, hoccurs⟩, hscope⟩ := h
  exact ⟨⟨within, state, d, hw.1 hnote, hd.mono hw.1, hoccurs⟩,
    Nat.lt_of_lt_of_le hscope hw.2.size_le⟩

theorem Known.mono {v : Value} (h : o.Known w v) (hw : w ≤ w') : o.Known w' v := by
  cases v with
  | function f => exact Declared.mono h hw
  | _ => exact h

/-- A sound store is sound whatever else is noted. -/
theorem Sound.mono {notes notes' : List Note} {store : Store} (h : o.Sound ⟨notes, store⟩)
    (hsub : notes ⊆ notes') : o.Sound ⟨notes', store⟩ := by
  have hw : (⟨notes, store⟩ : World) ≤ ⟨notes', store⟩ := ⟨hsub, .refl _⟩
  exact ⟨h.root_lt, h.root_parent, h.inside, fun hb => (h.bound hb).imp_right (·.mono hw),
    fun hv => (h.held hv).imp_right (·.mono hw)⟩

theorem Seated.mono {within : Option Closure} {s : Nat} (h : o.Seated w within s) (hw : w ≤ w') :
    o.Seated w' within s := by
  refine ⟨Nat.lt_of_lt_of_le h.1 hw.2.size_le, ?_⟩
  cases within with
  | none => exact h.2
  | some f => exact (hw.2.parent_eq s h.1).trans h.2

/-- A scope that there was already was where it is. -/
theorem Seated.of_le {within : Option Closure} {s : Nat} (h : o.Seated w' within s) (hw : w ≤ w')
    (hs : s < w.store.scopes.size) : o.Seated w within s := by
  refine ⟨hs, ?_⟩
  cases within with
  | none => exact h.2
  | some f => exact (hw.2.parent_eq s hs).symm.trans h.2

theorem Written.mono {within : Option Closure} {c : Code} (h : o.Written w within c)
    (hw : w ≤ w') : o.Written w' within c :=
  let ⟨d, hd, hoccurs⟩ := h
  ⟨d, hd.mono hw.1, hoccurs⟩

theorem Fits.mono {what : Happening} (h : o.Fits w what) (hw : w ≤ w') : o.Fits w' what := by
  cases what with
  | visit c within s => exact ⟨h.1.mono hw, h.2.mono hw⟩
  | declared f within => exact ⟨h.1.mono hw, h.2.mono hw⟩
  | _ => trivial

theorem Good.mono {notes notes' : List Note} {note : Note} (h : o.Good notes note)
    (hsub : notes ⊆ notes') : o.Good notes' note :=
  ⟨h.1.mono hsub, h.2.mono ⟨hsub, .refl _⟩⟩

end Later

/-! ### Pieces of pieces -/

section Written

variable {w : World} {within : Option Closure}

theorem Written.part {c c' : Code} (h : o.Written w within c) (hc : Part c c') :
    o.Written w within c' :=
  let ⟨d, hd, hoccurs⟩ := h
  ⟨d, hd, hoccurs.part hc⟩

theorem Written.named {c : Code} (h : o.Written w within c) {n : String} (hn : n ∈ c.names) :
    o.Named n :=
  let ⟨_, _, hoccurs⟩ := h
  o.named hoccurs n hn

/-- The body of a function that was declared is written one deeper than the declaration. -/
theorem Declared.written {f : Closure} (h : o.Declared w f) {statement : Stmt}
    (hs : statement ∈ f.body) : o.Written w (some f) (.stmt statement) :=
  let ⟨⟨_, _, d, hnote, hd, hoccurs⟩, _⟩ := h
  ⟨d + 1, .inside hnote hd, hoccurs.body hs⟩

theorem Declared.named {f : Closure} (h : o.Declared w f) {n : String}
    (hn : n ∈ f.name :: f.parameters) : o.Named n :=
  let ⟨⟨_, _, _, _, _, hoccurs⟩, _⟩ := h
  o.named hoccurs n hn

/-- A declaration that is noted declares its function. -/
theorem Fits.declared {f : Closure} (h : o.Fits w (.declared f within)) {state : Machine}
    (hnote : ⟨.declared f within, state⟩ ∈ w.notes) : o.Declared w f :=
  let ⟨hseated, d, hd, hoccurs⟩ := h
  ⟨⟨within, state, d, hnote, hd, hoccurs⟩, hseated.1⟩

end Written

/-! ### What keeps a store sound -/

namespace Sound

variable {notes : List Note} {store : Store}

theorem layered {w : World} (h : o.Sound w) : w.store.Layered := by
  intro s t hp
  by_cases hs : s < w.store.scopes.size
  · have hne : s ≠ o.root := by
      rintro rfl
      rw [h.root_parent] at hp
      cases hp
    obtain ⟨t', hlt, hp'⟩ := h.inside s hs hne
    rw [hp, Option.some_inj] at hp'
    exact hp' ▸ hlt
  · rw [Store.scope_of_size_le (Nat.not_lt.1 hs)] at hp
    cases hp

/-- A known value may be bound to a name that there may be. -/
theorem bind (h : o.Sound ⟨notes, store⟩) {s : Nat} {name : String} {b : Binding}
    (hkeeps : store.Keeps (store.bind s name b)) (hname : o.Named name)
    (hb : o.Known ⟨notes, store⟩ b.value) : o.Sound ⟨notes, store.bind s name b⟩ := by
  have hw : (⟨notes, store⟩ : World) ≤ ⟨notes, store.bind s name b⟩ := ⟨List.Subset.refl _, hkeeps⟩
  refine ⟨?_, ?_, fun t ht hne => ?_, fun {t other b'} hb' => ?_,
    fun hv => (h.held hv).imp_right (·.mono hw)⟩
  · rw [Store.size_bind]
    exact h.root_lt
  · rw [Store.parent_bind]
    exact h.root_parent
  · rw [Store.size_bind] at ht
    rw [Store.parent_bind]
    exact h.inside t ht hne
  · rw [Store.binding?_bind] at hb'
    split at hb'
    · next hsame =>
      obtain rfl := Option.some_inj.1 hb'
      exact ⟨hsame.2 ▸ hname, hb.mono hw⟩
    · exact (h.bound hb').imp_right (·.mono hw)

theorem declare (h : o.Sound ⟨notes, store⟩) {store' : Store} {s : Nat} {name : String} {v : Value}
    {constant : Bool} (hname : o.Named name) (hv : o.Known ⟨notes, store⟩ v)
    (hdeclare : store.declare s name v constant = .ok store') : o.Sound ⟨notes, store'⟩ := by
  have hkeeps := (Store.Step.declare hdeclare).keeps
  obtain ⟨-, rfl⟩ := Store.declare_eq_ok.1 hdeclare
  exact h.bind hkeeps hname hv

theorem assign (h : o.Sound ⟨notes, store⟩) {store' : Store} {s : Nat} {name : String} {v : Value}
    (hv : o.Known ⟨notes, store⟩ v) (hassign : store.assign s name v = .ok store') :
    o.Sound ⟨notes, store'⟩ := by
  have hkeeps := (Store.Step.assign hassign).keeps
  obtain ⟨owner, -, old, hold, rfl⟩ := Store.assign_eq_ok hassign
  exact h.bind hkeeps (h.bound hold).1 hv

/-- A scope may be created inside one that there is. -/
theorem newScope (h : o.Sound ⟨notes, store⟩) {t : Nat} (ht : t < store.scopes.size) :
    o.Sound ⟨notes, (store.newScope (some t)).2⟩ := by
  have hw : (⟨notes, store⟩ : World) ≤ ⟨notes, (store.newScope (some t)).2⟩ :=
    ⟨List.Subset.refl _, (Store.Step.newScope store (some t)).keeps⟩
  refine ⟨?_, ?_, fun s hs hne => ?_, fun {s name b} hb => ?_,
    fun hv => (h.held hv).imp_right (·.mono hw)⟩
  · rw [Store.size_newScope]
    exact Nat.lt_succ_of_lt h.root_lt
  · rw [Store.scope_newScope, if_neg (Nat.ne_of_lt h.root_lt)]
    exact h.root_parent
  · rw [Store.size_newScope] at hs
    rw [Store.scope_newScope]
    split
    · next hlast => exact ⟨t, hlast ▸ ht, rfl⟩
    · next hlast => exact h.inside s (show s < store.scopes.size by omega) hne
  · rw [Store.binding?, Store.scope_newScope] at hb
    split at hb
    · cases hb
    · exact (h.bound hb).imp_right (·.mono hw)

/-- An object may be created of known values. -/
theorem newObject (h : o.Sound ⟨notes, store⟩) {entries : List (String × Value)}
    (hentries : ∀ entry ∈ entries, o.Named entry.1 ∧ o.Known ⟨notes, store⟩ entry.2) :
    o.Sound ⟨notes, (store.newObject (Table.ofList entries)).2⟩ := by
  have hw : (⟨notes, store⟩ : World) ≤ ⟨notes, (store.newObject (Table.ofList entries)).2⟩ :=
    ⟨List.Subset.refl _, (Store.Step.newObject store _).keeps⟩
  refine ⟨h.root_lt, h.root_parent, h.inside, fun hb => (h.bound hb).imp_right (·.mono hw),
    fun {i key v} hv => ?_⟩
  rw [Store.object_newObject] at hv
  split at hv
  · exact (hentries _ (Table.mem_of_find?_ofList hv)).imp_right (·.mono hw)
  · exact (h.held hv).imp_right (·.mono hw)

/-- What a name means is known. -/
theorem lookUp {w : World} (h : o.Sound w) {s : Nat} {name : String} {v : Value}
    (hv : w.store.lookUp s name = .ok v) : o.Known w v := by
  rcases w.store.nearest_cases s name with ⟨-, -, hlookUp, -⟩ | ⟨owner, b, hb, -, hlookUp, -⟩
  · rw [hlookUp] at hv
    cases hv
  · rw [hlookUp, Except.ok.injEq] at hv
    exact hv ▸ (h.bound hb).2

end Sound

/-! ### Computations that keep stores sound -/

/-- What stands after a point in the text, and is not a name. -/
def Blamed (o : Origin) (e : Expr) : Prop :=
  e.name? = none ∧ ∃ d a, Occurs o.programs d (.expr (.dot a e))

/-- **From a sound store to a sound store**: what is noted on the way leads from the one to the
other, and is right. -/
structure Account (o : Origin) (notes : List Note) (earlier : Store) (new : List Note)
    (later : Store) : Prop where
  /-- The notes lead to the last store. -/
  leads : Leads earlier new later
  /-- What is noted is right. -/
  good : ∀ note ∈ new, o.Good (notes ++ new) note
  /-- The last store is sound. -/
  sound : o.Sound ⟨notes ++ new, later⟩

/-- **A computation keeps the store sound**, in a state: its trail accounts for what it does, and
its value is as it should be.  If it fails because of what stands after a point, then this is in the
text. -/
structure Traced {α : Type} (o : Origin) (notes : List Note) (machine : Machine) (m : Eval α)
    (trail : Trail) (R : World → α → Prop) : Prop where
  /-- The trail accounts for what the computation does. -/
  account : o.Account notes machine.store (trail machine) (m.run machine).2.store
  /-- The value is as it should be. -/
  value : ∀ a, (m.run machine).1 = .ok a →
    R ⟨notes ++ trail machine, (m.run machine).2.store⟩ a
  /-- What is not a name after a point stands in the text. -/
  blame : ∀ e, (m.run machine).1 = .error (.error (.propertyNotName e)) → o.Blamed e

/-- The computation keeps stores sound, from a world on. -/
def Traces {α : Type} (o : Origin) (w : World) (m : Eval α) (trail : Trail)
    (R : World → α → Prop) : Prop :=
  ∀ (notes : List Note) (machine : Machine), w ≤ ⟨notes, machine.store⟩ →
    o.Sound ⟨notes, machine.store⟩ → o.Traced notes machine m trail R

namespace Account

variable {notes : List Note} {earlier later : Store} {new : List Note} {note : Note}

/-- Nothing is noted where nothing is done. -/
theorem nil {store : Store} (h : o.Sound ⟨notes, store⟩) : o.Account notes store [] store :=
  ⟨.done store, nofun, h.mono (List.subset_append_left _ _)⟩

/-- Something that fits is noted, and nothing is done. -/
theorem same (h : o.Sound ⟨notes, note.state.store⟩)
    (hfits : o.Fits ⟨notes ++ [note], note.state.store⟩ note.what) :
    o.Account notes note.state.store [note] note.state.store := by
  have hnoted := h.mono (List.subset_append_left notes [note])
  refine ⟨.same (.done _), fun note' hnote => ?_, hnoted⟩
  obtain rfl := List.mem_singleton.1 hnote
  exact ⟨hnoted, hfits⟩

/-- One step is noted. -/
theorem step (hstep : earlier.Step note.state.store)
    (h : o.Sound ⟨notes ++ [note], note.state.store⟩)
    (hfits : o.Fits ⟨notes ++ [note], note.state.store⟩ note.what) :
    o.Account notes earlier [note] note.state.store := by
  refine ⟨.step hstep (.done _), fun note' hnote => ?_, h⟩
  obtain rfl := List.mem_singleton.1 hnote
  exact ⟨h, hfits⟩

/-- **One account after another.** -/
theorem append {front back : List Note} {middle : Store} (h : o.Account notes earlier front middle)
    (h' : o.Account (notes ++ front) middle back later) :
    o.Account notes earlier (front ++ back) later := by
  refine ⟨h.leads.append h'.leads, fun note hnote => ?_, ?_⟩
  · rw [← List.append_assoc]
    rcases List.mem_append.1 hnote with hnote | hnote
    · exact (h.good note hnote).mono (List.subset_append_left _ _)
    · exact h'.good note hnote
  · rw [← List.append_assoc]
    exact h'.sound

/-- What is accounted for only makes a world go on. -/
theorem le (h : o.Account notes earlier new later) :
    (⟨notes, earlier⟩ : World) ≤ ⟨notes ++ new, later⟩ :=
  ⟨List.subset_append_left _ _, h.leads.steps.keeps⟩

end Account

section Traces

variable {α β : Type} {w : World} {m : Eval α} {f : α → Eval β} {trail : Trail} {back : α → Trail}
  {R : World → α → Prop} {R' : World → β → Prop} {notes new : List Note}
  {machine middle last : Machine}

/-- A computation of which the end and the trail are known. -/
theorem Traced.of_run {result : Except Fault α} (hrun : m.run machine = (result, last))
    (htrail : trail machine = new) (h : o.Account notes machine.store new last.store)
    (hvalue : ∀ a, result = .ok a → R ⟨notes ++ new, last.store⟩ a)
    (hblame : ∀ e, result = .error (.error (.propertyNotName e)) → o.Blamed e) :
    o.Traced notes machine m trail R := by
  subst htrail
  exact ⟨by rw [hrun]; exact h, by rw [hrun]; exact hvalue, by rw [hrun]; exact hblame⟩

/-- What is accounted for up to the end of a computation. -/
theorem Traced.account_of_run {result : Except Fault α} (h : o.Traced notes machine m trail R)
    (hrun : m.run machine = (result, last)) :
    o.Account notes machine.store (trail machine) last.store := by
  have haccount := h.account
  rwa [hrun] at haccount

/-- If the first computation fails nothing happens after it. -/
theorem Traced.bind_error {fault : Fault} (h : o.Traced notes machine m trail R)
    (hrun : m.run machine = (.error fault, middle)) :
    o.Traced notes machine (m >>= f) (trail.andThen m back) R' := by
  have htrail : trail.andThen m back machine = trail machine := Trail.andThen_of_error hrun
  have hbind : (m >>= f).run machine = (.error fault, middle) := by rw [Eval.run_bind, hrun]
  refine .of_run hbind htrail (h.account_of_run hrun) nofun fun e he => h.blame e ?_
  cases he
  rw [hrun]

/-- If the first computation ends with a value, what comes after it starts from there. -/
theorem Traced.bind_ok {a : α} (h : o.Traced notes machine m trail R)
    (hrun : m.run machine = (.ok a, middle))
    (h' : o.Traced (notes ++ trail machine) middle (f a) (back a) R') :
    o.Traced notes machine (m >>= f) (trail.andThen m back) R' := by
  have htrail : trail.andThen m back machine = trail machine ++ back a middle :=
    Trail.andThen_of_ok hrun
  have hbind : (m >>= f).run machine = (f a).run middle := by rw [Eval.run_bind, hrun]
  refine .of_run hbind htrail ((h.account_of_run hrun).append h'.account) ?_ h'.blame
  rw [← List.append_assoc]
  exact h'.value

/-- **One computation after another.** -/
theorem Traces.bind (hm : o.Traces w m trail R)
    (hf : ∀ w' a, w ≤ w' → R w' a → o.Traces w' (f a) (back a) R') :
    o.Traces w (m >>= f) (trail.andThen m back) R' := by
  intro notes machine hw hsound
  have h := hm notes machine hw hsound
  rcases hrun : m.run machine with ⟨fault | a, middle⟩
  · exact h.bind_error hrun
  · have haccount := h.account_of_run hrun
    have hvalue := h.value a (by rw [hrun])
    rw [hrun] at hvalue
    exact h.bind_ok hrun
      (hf _ a (le_trans hw haccount.le) hvalue _ middle (le_refl _) haccount.sound)

/-- After the first computation nothing happens. -/
theorem Traces.bind_nothing (hm : o.Traces w m trail R)
    (hf : ∀ w' a, w ≤ w' → R w' a → o.Traces w' (f a) .nothing R') :
    o.Traces w (m >>= f) trail R' := by
  have htrail : (trail.andThen m fun _ => .nothing) = trail := Trail.andThen_nothing
  exact htrail ▸ hm.bind hf

/-- Something that fits happens first. -/
theorem Traces.first {what : Happening} (h : o.Traces w m trail R) (hfits : o.Fits w what) :
    o.Traces w m (trail.first what) R := by
  intro notes machine hw hsound
  have hnoted : (⟨notes, machine.store⟩ : World)
      ≤ ⟨notes ++ [⟨what, machine⟩], machine.store⟩ := ⟨List.subset_append_left _ _, .refl _⟩
  have hw' := le_trans hw hnoted
  have hrest := h _ machine hw' (hsound.mono hnoted.1)
  have hfirst : o.Account notes machine.store [⟨what, machine⟩] machine.store :=
    Account.same hsound (hfits.mono hw')
  have hvalue := hrest.value
  rw [List.append_assoc] at hvalue
  exact ⟨hfirst.append hrest.account, hvalue, hrest.blame⟩

/-! ### Single steps -/

/-- A computation that leaves the store alone, and of which nothing is noted. -/
theorem Traces.silent (hstore : ∀ machine : Machine, (m.run machine).2.store = machine.store)
    (hvalue : ∀ (w' : World) (machine : Machine) (a : α), w ≤ w' → o.Sound w' →
      machine.store = w'.store → (m.run machine).1 = .ok a → R w' a)
    (hblame : ∀ (machine : Machine) (e : Expr),
      (m.run machine).1 = .error (.error (.propertyNotName e)) → o.Blamed e) :
    o.Traces w m .nothing R := by
  intro notes machine hw hsound
  refine ⟨?_, fun a ha => ?_, hblame machine⟩
  · rw [hstore]
    exact .nil hsound
  · rw [hstore, Trail.nothing, List.append_nil]
    exact hvalue _ machine a hw hsound rfl ha

theorem traces_pure {a : α} (h : ∀ w', w ≤ w' → R w' a) : o.Traces w (pure a) .nothing R := by
  refine .silent (fun _ => rfl) (fun w' machine b hw _ _ hb => ?_) fun _ _ he => by cases he
  cases hb
  exact h w' hw

theorem traces_fail {error : EvalError} (h : ∀ e, error = .propertyNotName e → o.Blamed e) :
    o.Traces w (Eval.fail error) .nothing R := by
  refine .silent (fun _ => rfl) (fun _ _ _ _ _ _ ha => by cases ha) fun _ e he => h e ?_
  cases he
  rfl

theorem traces_log (event : Event) : o.Traces w (Eval.log event) .nothing fun _ _ => True :=
  .silent (fun _ => rfl) (fun _ _ _ _ _ _ _ => trivial) fun _ _ he => by cases he

/-- What a name means is known. -/
theorem traces_lookUp (scope : Nat) (name : String) :
    o.Traces w (Eval.lookUp scope name) .nothing o.Known := by
  refine .silent (fun machine => by rw [Eval.lookUp, Eval.run_ask])
    (fun w' machine v _ hsound hstore hv => ?_) fun machine e he => ?_
  · rw [Eval.lookUp, Eval.run_ask, hstore] at hv
    cases hlookUp : w'.store.lookUp scope name with
    | error error => rw [hlookUp] at hv; cases hv
    | ok v' => rw [hlookUp] at hv; cases hv; exact hsound.lookUp hlookUp
  · rw [Eval.lookUp, Eval.run_ask] at he
    cases hlookUp : machine.store.lookUp scope name with
    | ok v => rw [hlookUp] at he; cases he
    | error error =>
        obtain ⟨rfl, -⟩ := Store.resolve_eq_error (Store.lookUp_eq_error_iff.1 hlookUp)
        rw [hlookUp] at he
        cases he

/-- A change of the store that is made to return something. -/
theorem traces_change_pure {step : Store → Except EvalError Store} {a : α}
    (hstep : ∀ {store store'}, step store = .ok store' → Store.Step store store')
    (hsound : ∀ {notes store store'}, w ≤ ⟨notes, store⟩ → o.Sound ⟨notes, store⟩ →
      step store = .ok store' → o.Sound ⟨notes, store'⟩)
    (hvalue : ∀ w', w ≤ w' → R w' a)
    (hblame : ∀ store e, step store ≠ .error (.propertyNotName e)) :
    o.Traces w (Eval.change step >>= fun _ => pure a)
      (.change (Eval.change step >>= fun _ => pure a)) R := by
  intro notes machine hw hstart
  have hrun := Eval.run_change_pure step a machine
  cases hnext : step machine.store with
  | error error =>
      rw [hnext] at hrun
      have hfits : o.Fits ⟨notes ++ [⟨.changed, machine⟩], machine.store⟩ .changed := trivial
      have haccount : o.Account notes machine.store [⟨.changed, machine⟩] machine.store :=
        .same hstart hfits
      refine .of_run hrun (Trail.change_of_run hrun) haccount nofun fun e he => ?_
      cases he
      exact absurd hnext (hblame _ _)
  | ok store =>
      rw [hnext] at hrun
      have haccount : o.Account notes machine.store [⟨.changed, { machine with store := store }⟩]
          store := .step (hstep hnext)
        ((hsound hw hstart hnext).mono (List.subset_append_left _ _)) trivial
      refine .of_run hrun (Trail.change_of_run hrun) haccount (fun b hb => ?_)
        fun _ he => by cases he
      cases hb
      exact hvalue _ (le_trans hw haccount.le)

/-- Declaring a name with a known value. -/
theorem traces_declare {scope : Nat} {name : String} {v : Value} (constant : Bool)
    (hname : o.Named name) (hv : o.Known w v) :
    o.Traces w (Eval.declare scope name v constant) (.change (Eval.declare scope name v constant))
      o.Known := by
  refine traces_change_pure .declare
    (fun hw hsound => hsound.declare hname (hv.mono hw)) (fun w' hw => hv.mono hw)
    fun store e he => ?_
  rw [Store.declare] at he
  split at he <;> cases he

/-- Assigning a known value to a name. -/
theorem traces_assign {scope : Nat} {name : String} {v : Value} (hv : o.Known w v) :
    o.Traces w (Eval.assign scope name v) (.change (Eval.assign scope name v)) o.Known := by
  have hsame : Eval.assign scope name v = Eval.assignFrom scope name v :=
    funext fun machine => Eval.run_assign scope name v machine
  rw [hsame]
  refine traces_change_pure .assign (fun hw hsound => hsound.assign (hv.mono hw))
    (fun w' hw => hv.mono hw) fun store e he => ?_
  rcases store.nearest_cases scope name with ⟨-, -, -, hassign⟩ | ⟨owner, b, hb, -, -, hassign⟩
  · rw [hassign] at he
    cases he
  · rw [hassign, Store.assign_of_binding? hb] at he
    split at he <;> cases he

/-- Creating something that keeps the store sound. -/
theorem traces_create {step : Store → α × Store}
    (hstep : ∀ store, Store.Step store (step store).2)
    (hsound : ∀ {notes store}, w ≤ ⟨notes, store⟩ → o.Sound ⟨notes, store⟩ →
      o.Sound ⟨notes, (step store).2⟩)
    (hvalue : ∀ {notes store}, w ≤ ⟨notes, store⟩ → R ⟨notes, (step store).2⟩ (step store).1) :
    o.Traces w (Eval.create step) (.change (Eval.create step)) R := by
  intro notes machine hw hstart
  have hrun := Eval.run_create step machine
  have haccount : o.Account notes machine.store
      [⟨.changed, { machine with store := (step machine.store).2 }⟩] (step machine.store).2 :=
    .step (hstep machine.store) ((hsound hw hstart).mono (List.subset_append_left _ _)) trivial
  refine .of_run hrun (Trail.change_of_run hrun) haccount (fun a ha => ?_) fun _ he => by cases he
  cases ha
  exact hvalue (le_trans hw ⟨List.subset_append_left _ _, .refl _⟩)

/-- Entering a function: a scope for its body is created. -/
theorem traces_enter {f : Closure} (hf : f.scope < w.store.scopes.size) :
    o.Traces w (Eval.enter f.scope) (.change (Eval.enter f.scope))
      fun w' s => o.Seated w' (some f) s := by
  refine traces_create (fun store => .newScope store _)
    (fun hw hsound => hsound.newScope (Nat.lt_of_lt_of_le hf hw.2.size_le))
    fun {notes store} _ => ⟨?_, ?_⟩
  · change store.scopes.size < (store.newScope (some f.scope)).2.scopes.size
    rw [Store.size_newScope]
    exact Nat.lt_succ_self _
  · change ((store.newScope (some f.scope)).2.scope store.scopes.size).parent = some f.scope
    rw [Store.scope_newScope, if_pos rfl]

/-- Creating an object of known values. -/
theorem traces_allocate {entries : List (String × Value)}
    (h : ∀ entry ∈ entries, o.Named entry.1 ∧ o.Known w entry.2) :
    o.Traces w (Eval.allocate (Table.ofList entries))
      (.change (Eval.allocate (Table.ofList entries))) o.Known := by
  refine traces_create (fun store => .newObject store _) (fun hw hsound => ?_) fun _ => trivial
  exact hsound.newObject fun entry hentry => (h entry hentry).imp_right (·.mono hw)

/-- Declaring a function: from then on it comes from its declaration, which is noted. -/
theorem traces_declare_function {within : Option Closure} (f : Closure)
    (hseated : o.Seated w within f.scope)
    (hwritten : o.Written w within (.expr (.function f.name f.parameters f.body))) :
    o.Traces w (Eval.declare f.scope f.name (.function f) true)
      (.declaring f within (Eval.declare f.scope f.name (.function f) true)) o.Known := by
  intro notes machine hw hsound
  have hrun := Eval.run_declare f.scope f.name (.function f) true machine
  generalize Eval.declare f.scope f.name (.function f) true = m at hrun ⊢
  cases hdeclare : machine.store.declare f.scope f.name (.function f) true with
  | error error =>
      rw [hdeclare] at hrun
      have htrail : Trail.declaring f within m machine = [] := Trail.declaring_of_error hrun
      refine .of_run hrun htrail (.nil hsound) nofun fun e he => ?_
      cases he
      rw [Store.declare] at hdeclare
      split at hdeclare <;> cases hdeclare
  | ok store =>
      rw [hdeclare] at hrun
      let note : Note := ⟨.declared f within, { machine with store := store }⟩
      have htrail : Trail.declaring f within m machine = [note] := Trail.declaring_of_ok hrun
      have hnoted : (⟨notes, machine.store⟩ : World) ≤ ⟨notes ++ [note], machine.store⟩ :=
        ⟨List.subset_append_left _ _, .refl _⟩
      have hfits : o.Fits ⟨notes ++ [note], machine.store⟩ (.declared f within) :=
        ⟨hseated.mono (le_trans hw hnoted), hwritten.mono (le_trans hw hnoted)⟩
      have hdeclared : o.Known ⟨notes ++ [note], machine.store⟩ (.function f) :=
        hfits.declared (List.mem_append_right notes List.mem_cons_self)
      have hlast : o.Sound ⟨notes ++ [note], store⟩ :=
        (hsound.mono hnoted.1).declare (hwritten.named List.mem_cons_self) hdeclared hdeclare
      have hstep : machine.store.Step store := .declare hdeclare
      have hlater : (⟨notes ++ [note], machine.store⟩ : World) ≤ ⟨notes ++ [note], store⟩ :=
        ⟨List.Subset.refl _, hstep.keeps⟩
      have haccount : o.Account notes machine.store [note] store :=
        .step hstep hlast (hfits.mono hlater)
      refine .of_run hrun htrail haccount (fun a ha => ?_) fun _ he => by cases he
      cases ha
      exact hdeclared.mono hlater

end Traces

end Origin

end Scriptlet
