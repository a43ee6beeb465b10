/-
**How deep scopes are follows the text, not the calls.**

A call creates a scope, and calls may be nested as deep as one likes, but the scope is inside the
one that the function was declared in, not inside the one that it was called from.  So there are as
many scopes around a piece of a program as there are function declarations around it in the text,
and one more, whoever calls its function and however the function got there.

Main definitions:

* `Scriptlet.Store.HasFunction` — a function is somewhere in the store;
* `Scriptlet.Store.Starts` — a store that programs can start from.

Main results:

* `Scriptlet.length_chain_of_nested` — the chain of a scope is as long as the nesting tells;
* `Scriptlet.scopes_follow_text` — **how deep scopes are follows the text**, at every moment of any
  sequence of programs.
-/

import Mathlib
import Scriptlet.Proofs.Eval.Sourced

set_option relaxedAutoImplicit false
set_option autoImplicit false

namespace Scriptlet

/-! ### Where programs start -/

/-- **A function is in the store**: bound to a name, or held by an object. -/
def Store.HasFunction (store : Store) (f : Closure) : Prop :=
  (∃ s name b, store.binding? s name = some b ∧ b.value = .function f) ∨
    ∃ i key, (store.object i).find? key = some (.function f)

/-- **A store that programs can start from**: there is one scope that is inside no other, where they
are run, and no function of a program is there yet. -/
structure Store.Starts (store : Store) (root : Nat) : Prop where
  /-- There is the scope. -/
  root_lt : root < store.scopes.size
  /-- It is inside no other. -/
  root_parent : (store.scope root).parent = none
  /-- All other scopes are inside older ones. -/
  inside : ∀ s < store.scopes.size, s ≠ root → ∃ t < s, (store.scope s).parent = some t
  /-- There are no functions. -/
  no_function : ∀ f, ¬ store.HasFunction f

/-- What is bound in a fresh state are the constants that scripts start with. -/
theorem Machine.mem_startConstants (room : Option Nat) {s : Nat} {name : String} {b : Binding}
    (hb : (Machine.start room).2.store.binding? s name = some b) :
    (name, b.value) ∈ startConstants ⟨0, "print", .print⟩ := by
  have hscope : (Machine.start room).2.store.scope 0
      = ⟨Table.ofList ((startConstants ⟨0, "print", .print⟩).map fun entry =>
          (entry.1, ⟨entry.2, true⟩)), none⟩ := rfl
  have hsize : (Machine.start room).2.store.scopes.size = 1 := rfl
  obtain rfl : s = 0 := Nat.lt_one_iff.1 (hsize ▸ Store.lt_size_of_binding? hb)
  rw [Store.binding?, hscope] at hb
  obtain ⟨entry, hentry, hbound⟩ := List.mem_map.1 (Table.mem_of_find?_ofList hb)
  cases hbound
  exact hentry

/-- Programs can start from the scope that is there for them. -/
theorem Machine.starts_start (room : Option Nat) :
    (Machine.start room).2.store.Starts (Machine.start room).1 := by
  refine ⟨Nat.zero_lt_one, rfl, fun s hs hne => ?_, fun f hf => ?_⟩
  · exact absurd (Nat.lt_one_iff.1 hs) hne
  · rcases hf with ⟨s, name, b, hb, hvalue⟩ | ⟨i, key, hv⟩
    · have hmem := Machine.mem_startConstants room hb
      rw [hvalue] at hmem
      simp [startConstants] at hmem
    · cases hv

/-- The functions of a sound store were declared. -/
theorem Origin.Sound.declared {o : Origin} {w : World} (h : o.Sound w) {f : Closure}
    (hf : w.store.HasFunction f) : o.Declared w f := by
  rcases hf with ⟨s, name, b, hb, hvalue⟩ | ⟨i, key, hv⟩
  · have hknown := (h.bound hb).2
    rw [hvalue] at hknown
    exact hknown
  · exact (h.held hv).2

/-- Programs that start from such a store: any names will do. -/
def Origin.ofRuns (root : Nat) (runs : List (Nat × Program)) : Origin where
  programs := runs.map Prod.snd
  root := root
  Named := fun _ => True
  named := fun _ _ _ => trivial

theorem Store.Starts.sound {store : Store} {root : Nat} (h : store.Starts root)
    (runs : List (Nat × Program)) : (Origin.ofRuns root runs).Sound ⟨[], store⟩ := by
  have hknown : ∀ v : Value, (∀ f, v ≠ .function f) →
      (Origin.ofRuns root runs).Known ⟨[], store⟩ v := by
    intro v hv
    cases v with
    | function f => exact absurd rfl (hv f)
    | native f => exact fun _ _ => trivial
    | _ => trivial
  exact ⟨h.root_lt, h.root_parent, h.inside,
    fun hb => ⟨trivial, hknown _ fun f hf => h.no_function f (.inl ⟨_, _, _, hb, hf⟩)⟩,
    fun hv => ⟨trivial, hknown _ fun f hf => h.no_function f (.inr ⟨_, _, hf ▸ hv⟩)⟩⟩

/-! ### Scopes around scopes -/

section Chains

variable {o : Origin}

/-- Every scope of a sound store is, in the end, inside the one that programs are run in. -/
theorem Origin.Sound.getLast?_of_lineage {w : World} (h : o.Sound w) {s : Nat} {scopes : List Nat}
    (hlineage : w.store.Lineage s scopes) (hs : s < w.store.scopes.size) :
    scopes.getLast? = some o.root := by
  induction hlineage with
  | @root s hnone =>
      by_cases hroot : s = o.root
      · exact hroot ▸ rfl
      · obtain ⟨t, -, hp⟩ := h.inside s hs hroot
        rw [hnone] at hp
        cases hp
  | inside hp _ ih =>
      have hlt := h.layered hp
      rw [List.getLast?_cons, ih (Nat.lt_trans hlt hs)]
      rfl

/-- **The chain of a scope is as long as the nesting tells**: a scope for the body of a function is
directly inside the one that the function was declared in, and that is a scope for the body that
declared it. -/
theorem length_chain_of_nested {notes : List Note} {store : Store} (h : o.Sound ⟨notes, store⟩)
    (hnotes : ∀ {f within state}, ⟨.declared f within, state⟩ ∈ notes →
      o.Seated ⟨notes, store⟩ within f.scope)
    {within : Option Closure} {d : Nat} (hd : Nested notes within d) {s : Nat}
    (hs : o.Seated ⟨notes, store⟩ within s) : (store.chain s).length = d + 1 := by
  induction hd generalizing s with
  | outermost =>
      obtain rfl : s = o.root := hs.2
      rw [Store.chain, Store.chainFrom_of_parent_eq_none h.root_parent]
      rfl
  | inside hnote _ ih =>
      rw [Store.Layered.chain_of_parent h.layered hs.2, List.length_cons, ih (hnotes hnote)]

end Chains

/-! ### Sequences of programs -/

section Sessions

variable {o : Origin} {machine : Machine} {runs : List (Nat × Program)}

/-- What is noted of a scope in which something belongs is true at every moment. -/
theorem seated_of_mem (hruns : ∀ run ∈ runs, run.2 ∈ o.programs)
    (hstart : o.Sound ⟨[], machine.store⟩) {f : Closure} {within : Option Closure}
    {state : Machine} (hnote : ⟨.declared f within, state⟩ ∈ sessionTrail o.root runs machine) :
    o.Seated ⟨sessionTrail o.root runs machine, (afterSession o.root runs machine).store⟩ within
      f.scope := by
  have haccount := Origin.account_session hruns hstart
  exact (haccount.good _ hnote).2.1.mono
    ⟨List.Subset.refl _, (haccount.leads.steps_of_mem hnote).keeps⟩

/-- At every moment of a session the chain of a scope is as long as the nesting tells. -/
theorem length_chain_of_mem (hruns : ∀ run ∈ runs, run.2 ∈ o.programs)
    (hstart : o.Sound ⟨[], machine.store⟩) {note : Note}
    (hnote : note ∈ sessionTrail o.root runs machine) {within : Option Closure} {d s : Nat}
    (hd : Nested (sessionTrail o.root runs machine) within d)
    (hs : o.Seated ⟨sessionTrail o.root runs machine, note.state.store⟩ within s) :
    (note.state.store.chain s).length = d + 1 := by
  have haccount := Origin.account_session hruns hstart
  have hkeeps := (haccount.leads.steps_of_mem hnote).keeps
  rw [← hkeeps.chain_eq hs.1]
  exact length_chain_of_nested haccount.sound (seated_of_mem hruns hstart) hd
    (hs.mono ⟨List.Subset.refl _, hkeeps⟩)

end Sessions

/-- **How deep scopes are follows the text, not the calls.**

Let programs be evaluated one after another in a scope, each to whatever end.  The trail of that
misses no store, and at every moment of it the following holds.  The scopes around a scope are
finitely many, each is older than the one before, and the last is the one that the programs are
evaluated in.  A function that is anywhere in the store was declared, by a piece of the programs;
if that is inside `d` function declarations, then the function keeps a scope with a chain of `d + 1`
scopes.  And a piece of a program that is inside `d` function declarations is evaluated in a scope
with a chain of `d + 1` scopes; so looking a name up there, assigning to it and asking which scope
it means end, after at most `d + 1` scopes. -/
theorem scopes_follow_text {machine : Machine} {root : Nat} (hstart : machine.store.Starts root)
    (runs : List (Nat × Program)) :
    let notes := sessionTrail root runs machine
    let programs := runs.map Prod.snd
    Leads machine.store notes (afterSession root runs machine).store ∧
    ∀ note ∈ notes,
      (∀ s < note.state.store.scopes.size, ∃ scopes, note.state.store.Lineage s scopes ∧
        scopes.Pairwise (· > ·) ∧ scopes.getLast? = some root) ∧
      (∀ f, note.state.store.HasFunction f →
        (∃ within state d, ⟨.declared f within, state⟩ ∈ notes ∧ Nested notes within d ∧
          Occurs programs d (.expr (.function f.name f.parameters f.body))) ∧
        ∀ within state d, ⟨.declared f within, state⟩ ∈ notes → Nested notes within d →
          (note.state.store.chain f.scope).length = d + 1) ∧
      (∀ c within s, note.what = .visit c within s →
        (∃ d, Nested notes within d ∧ Occurs programs d c) ∧
        ∀ d, Nested notes within d → (note.state.store.chain s).length = d + 1 ∧
          ∀ name, ∃ looked ≤ d + 1, ∃ owner,
            note.state.store.Walk name s looked owner ∧ note.state.store.EndsAt s name owner) := by
  intro notes programs
  let o := Origin.ofRuns root runs
  have hruns : ∀ run ∈ runs, run.2 ∈ o.programs := fun _ hrun => List.mem_map_of_mem hrun
  have hsound : o.Sound ⟨[], machine.store⟩ := hstart.sound runs
  obtain ⟨hleads, hgood, -⟩ := Origin.account_session hruns hsound
  refine ⟨hleads, fun note hnote => ?_⟩
  obtain ⟨hstore, hfits⟩ := hgood note hnote
  have hlayered : note.state.store.Layered := hstore.layered
  refine ⟨fun s hs => ?_, fun f hf => ?_, fun c within s hvisit => ?_⟩
  · have hlineage := hlayered.lineage s
    exact ⟨_, hlineage, (hlayered.pairwise_of_lineage hlineage).2,
      hstore.getLast?_of_lineage hlineage hs⟩
  · have hdeclared : o.Declared ⟨notes, note.state.store⟩ f := hstore.declared hf
    refine ⟨hdeclared.1, fun within state d hnote' hd => ?_⟩
    -- the function is in this store, so its scope is there as well, and has not moved since
    have hseated : o.Seated ⟨notes, note.state.store⟩ within f.scope :=
      (seated_of_mem hruns hsound hnote').of_le
        ⟨List.Subset.refl _, (hleads.steps_of_mem hnote).keeps⟩ hdeclared.2
    exact length_chain_of_mem hruns hsound hnote hd hseated
  · rw [hvisit] at hfits
    refine ⟨hfits.2, fun d hd => ?_⟩
    have hlength := length_chain_of_mem hruns hsound hnote hd hfits.1
    exact ⟨hlength, fun name => hlength ▸ hlayered.walk s name⟩

/-- In `fn f() { fn g() { f } }; let o = { k: f() }; o.k()` the body of `g` is inside two function
declarations, and is evaluated in a scope with two more around it, though `g` got out of `f` and
into an object and is called from the outermost scope. -/
theorem scopes_follow_text_escaped :
    let p : Program :=
      ⟨[.expr (.function "f" [] [.expr (.function "g" [] [.expr (.name "f")])]),
        .declare false "o" (some (.object [.pair "k" (.call (.name "f") [])])),
        .expr (.call (.dot (.name "o") (.name "k")) [])]⟩
    let machine := (Machine.start none).2
    let notes := sessionTrail 0 [(2, p)] machine
    machine.store.Starts 0 ∧ ∃ note ∈ notes, ∃ g s,
      note.what = .visit (.expr (.name "f")) (some g) s ∧ Nested notes (some g) 2 ∧
        note.state.store.chain s = [2, 1, 0] := by
  intro p machine notes
  have hstart : machine.store.Starts 0 := Machine.starts_start none
  have hlast : notes.getLast?.map (fun note => (note.what, note.state.store.chain 2))
      = some (.visit (.expr (.name "f")) (some ⟨"g", [], [.expr (.name "f")], 1⟩) 2, [2, 1, 0]) :=
    by cbv
  obtain ⟨note, hnote, hfound⟩ := Option.map_eq_some_iff.1 hlast
  obtain ⟨hwhat, hchain⟩ := Prod.mk.inj hfound
  have hmem : note ∈ notes := List.mem_of_getLast? hnote
  obtain ⟨⟨d, hd, -⟩, hlength⟩ := ((scopes_follow_text hstart [(2, p)]).2 note hmem).2.2 _ _ _ hwhat
  have hd2 : d = 2 := by
    have hlength := (hlength d hd).1
    rw [hchain] at hlength
    exact (Nat.succ.inj hlength).symm
  exact ⟨hstart, note, hmem, _, 2, hwhat, hd2 ▸ hd, hchain⟩

end Scriptlet
