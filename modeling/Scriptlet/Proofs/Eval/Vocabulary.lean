/-
**Names and keys are words.**

What a source can name is a word: the scanner makes names of words only, and the parser puts names
nowhere else.  A run takes all names and keys that there are from the text of its programs.  So in
whatever state sources leave behind, everything is named by words; and what no word can be is never
found, and what is not a name never stands after a point.

Main definitions:

* `Scriptlet.sourcesTrail`, `Scriptlet.afterSources` — what happens in sources that are run one
  after another, and what they leave behind;
* `Scriptlet.Store.Worded` — **all names and keys of a store are words**.

Main results:

* `Scriptlet.wellFormed_of_occurs` — pieces of well formed programs are well formed;
* `Scriptlet.Origin.account_sources` — everything comes from the sources;
* `Scriptlet.Origin.run_ne_propertyNotName` — no source fails for want of a name after a point;
* `Scriptlet.sources_worded` — **names and keys are words**, some errors never occur, and a number
  addresses no property, unless it is written as a word.
-/

import Scriptlet.Proofs.Eval.Nesting
import Scriptlet.Proofs.Eval.Sequence
import Scriptlet.Proofs.Number.Words
import Scriptlet.Proofs.Syntax.Literals
import Scriptlet.Proofs.Syntax.Numerals
import Scriptlet.Proofs.Syntax.WellFormed

set_option relaxedAutoImplicit false
set_option autoImplicit false

namespace Scriptlet

/-! ### Pieces of well formed programs -/

/-- A well formed piece of a program. -/
def Code.WellFormed : Code → Prop
  | .stmt statement => statement.WellFormed
  | .expr expression => expression.WellFormed

theorem wellFormed_of_mem_stmts {statements : List Stmt} (h : WellFormedStmts statements)
    {s : Stmt} (hs : s ∈ statements) : s.WellFormed := by
  induction statements with
  | nil => cases hs
  | cons s' statements ih =>
      rcases List.mem_cons.1 hs with rfl | hs
      · exact h.1
      · exact ih h.2 hs

theorem wellFormed_of_mem_exprs {es : List Expr} (h : WellFormedExprs es) {e : Expr}
    (he : e ∈ es) : e.WellFormed := by
  induction es with
  | nil => cases he
  | cons e' es ih =>
      rcases List.mem_cons.1 he with rfl | he
      · exact h.1
      · exact ih h.2 he

theorem wellFormed_of_mem_entries {entries : List Entry} (h : WellFormedEntries entries)
    {entry : Entry} (he : entry ∈ entries) : entry.WellFormed := by
  induction entries with
  | nil => cases he
  | cons entry' entries ih =>
      rcases List.mem_cons.1 he with rfl | he
      · exact h.1
      · exact ih h.2 he

theorem Part.wellFormed {c c' : Code} (hc : Part c c') (h : c.WellFormed) : c'.WellFormed := by
  cases hc with
  | expression e => exact h
  | initial constant n e => exact h.2
  | left op a b => exact h.1
  | right op a b => exact h.2
  | target a b => exact h.1
  | assigned a b => exact h.2
  | callee a es => exact h.1
  | argument he => exact wellFormed_of_mem_exprs h.2 he
  | object a b => exact h.1
  | property a b => exact h.2.2
  | indexed a b => exact h.1
  | index a b => exact h.2
  | held he => exact (wellFormed_of_mem_entries h he).2

/-- **Pieces of well formed programs are well formed.** -/
theorem wellFormed_of_occurs {programs : List Program} (hprograms : ∀ p ∈ programs, p.WellFormed)
    {d : Nat} {c : Code} (h : Occurs programs d c) : c.WellFormed := by
  induction h with
  | top hp hs => exact wellFormed_of_mem_stmts (hprograms _ hp) hs
  | part _ hc ih => exact hc.wellFormed ih
  | body _ hs ih => exact wellFormed_of_mem_stmts ih.2.2 hs

/-- The names of a well formed piece are words. -/
theorem Code.WellFormed.isWord {c : Code} (h : c.WellFormed) {n : String} (hn : n ∈ c.names) :
    IsWord n := by
  cases c with
  | stmt statement =>
      cases statement with
      | declare constant name value =>
          obtain rfl := List.mem_singleton.1 hn
          cases value with
          | none => exact h.2
          | some value => exact h.1
      | expr e => cases hn
  | expr e =>
      cases e with
      | function f parameters body =>
          rcases List.mem_cons.1 hn with rfl | hn
          · exact h.1
          · exact h.2.1 n hn
      | object entries =>
          obtain ⟨entry, hentry, rfl⟩ := List.mem_map.1 hn
          have hword := wellFormed_of_mem_entries h hentry
          cases entry with
          | shorthand key => exact hword
          | pair key value => exact hword.1
      | _ => cases hn

/-! ### Sources, one after another -/

/-- The programs that some sources are. -/
def programsOf (sources : List (Nat × String)) : List Program :=
  sources.filterMap fun source => (Program.ofSource source.2).toOption

theorem mem_programsOf {sources : List (Nat × String)} {p : Program} :
    p ∈ programsOf sources ↔ ∃ source ∈ sources, Program.ofSource source.2 = .ok p := by
  rw [programsOf, List.mem_filterMap]
  refine exists_congr fun source => and_congr_right fun _ => ?_
  cases Program.ofSource source.2 with
  | ok q => simp [Except.toOption]
  | error error => simp [Except.toOption]

theorem Program.wellFormed_of_ofSource {source : String} {p : Program}
    (h : Program.ofSource source = .ok p) : p.WellFormed := by
  rw [Program.ofSource, Program.ofTokens] at h
  cases hread : Program.readTokens (scan source).tokens with
  | error report =>
      rw [hread] at h
      cases h
  | ok q =>
      rw [hread] at h
      cases h
      exact Program.wellFormed_of_readTokens hread

theorem Program.wellFormed_of_mem_programsOf {sources : List (Nat × String)} {p : Program}
    (h : p ∈ programsOf sources) : p.WellFormed :=
  let ⟨_, _, hparse⟩ := mem_programsOf.1 h
  Program.wellFormed_of_ofSource hparse

/-- **What happens in a source** that is run in a scope; if it is not parsed, nothing. -/
def sourceTrail (depth scope : Nat) (source : String) : Trail := fun machine =>
  match loadProgram source machine with
  | (.ok program, start) => program.trail depth scope start
  | (.error _, _) => []

theorem sourceTrail_of_loadProgram {source : String} {p : Program} {machine start : Machine}
    (h : loadProgram source machine = (.ok p, start)) (depth scope : Nat) :
    sourceTrail depth scope source machine = p.trail depth scope start := by
  unfold sourceTrail
  rw [h]

theorem sourceTrail_of_loadProgram_error {source : String} {error : SyntaxError}
    {machine start : Machine} (h : loadProgram source machine = (.error error, start))
    (depth scope : Nat) : sourceTrail depth scope source machine = [] := by
  unfold sourceTrail
  rw [h]

/-- What happens in sources that are run in a scope one after another, each with calls nested down
to a depth of its own, to whatever end. -/
def sourcesTrail (scope : Nat) : List (Nat × String) → Trail
  | [] => .nothing
  | (depth, source) :: sources => fun machine =>
      sourceTrail depth scope source machine
        ++ sourcesTrail scope sources (run depth scope source machine).2

/-- The state after sources that are run in a scope one after another. -/
def afterSources (scope : Nat) : List (Nat × String) → Machine → Machine
  | [], machine => machine
  | (depth, source) :: sources, machine =>
      afterSources scope sources (run depth scope source machine).2

namespace Origin

variable {o : Origin} {notes : List Note} {machine : Machine}

/-- **A source keeps the store sound** if it is one of the programs, or none at all; and if it fails
because of what stands after a point, then this is in the text. -/
theorem account_source {source : String}
    (hsource : ∀ p, Program.ofSource source = .ok p → p ∈ o.programs) (depth : Nat)
    (hsound : o.Sound ⟨notes, machine.store⟩) :
    o.Account notes machine.store (sourceTrail depth o.root source machine)
        (run depth o.root source machine).2.store ∧
      ∀ e, (run depth o.root source machine).1 = .error (.running (.propertyNotName e)) →
        o.Blamed e := by
  cases hparse : Program.ofSource source with
  | error error =>
      obtain ⟨start, hstart, hload⟩ := exists_loadProgram_eq_error hparse machine
      rw [run_of_loadProgram_error hload, sourceTrail_of_loadProgram_error hload]
      refine ⟨?_, fun _ h => by cases h⟩
      rw [hstart.store]
      exact .nil hsound
  | ok p =>
      obtain ⟨start, hstart, hload⟩ := exists_loadProgram_eq hparse machine
      rw [← hstart.store] at hsound ⊢
      rw [run_of_loadProgram hload, sourceTrail_of_loadProgram hload]
      have hp := hsource p hparse
      have h := traces_program hp depth hsound.root_lt notes start (le_refl _) hsound
      refine ⟨h.account, fun e he => h.blame e ?_⟩
      rcases hresult : ((p.eval depth o.root).run start).1 with fault | v
      · rw [hresult] at he
        cases fault with
        | error error =>
            cases he
            rfl
        | tooDeep => cases he
      · rw [hresult] at he
        cases he

/-- **Everything comes from the sources**, at every moment of any sequence of them. -/
theorem account_sources {sources : List (Nat × String)} (hsources : programsOf sources ⊆ o.programs)
    (hsound : o.Sound ⟨notes, machine.store⟩) :
    o.Account notes machine.store (sourcesTrail o.root sources machine)
      (afterSources o.root sources machine).store := by
  induction sources generalizing notes machine with
  | nil => exact .nil hsound
  | cons source sources ih =>
      obtain ⟨depth, source⟩ := source
      have hsource : ∀ p, Program.ofSource source = .ok p → p ∈ o.programs := fun p hparse =>
        hsources (mem_programsOf.2 ⟨_, List.mem_cons_self, hparse⟩)
      have hrest : programsOf sources ⊆ o.programs := fun p hp =>
        let ⟨s, hs, hparse⟩ := mem_programsOf.1 hp
        hsources (mem_programsOf.2 ⟨s, List.mem_cons_of_mem _ hs, hparse⟩)
      have h := (account_source hsource depth hsound).1
      exact h.append (ih hrest h.sound)

/-- **Everything in a run of sources comes from them**, and the names that there may be are
words. -/
def ofSources (sources : List (Nat × String)) : Origin where
  programs := programsOf sources
  root := 0
  Named := IsWord
  named hoccurs _ hn :=
    (wellFormed_of_occurs (fun _ => Program.wellFormed_of_mem_programsOf) hoccurs).isWord hn

/-- Sources can start in the scope that is there for them: its names are words. -/
theorem sound_start (room : Option Nat) (sources : List (Nat × String)) :
    (ofSources sources).Sound ⟨[], (Machine.start room).2.store⟩ := by
  have hstart : (Machine.start room).2.store.Starts 0 := Machine.starts_start room
  refine ⟨hstart.root_lt, hstart.root_parent, hstart.inside, fun {s name b} hb => ?_,
    fun hv => by cases hv⟩
  have hmem := Machine.mem_startConstants room hb
  simp only [startConstants, List.mem_cons, List.not_mem_nil, or_false, Prod.mk.injEq] at hmem
  rcases hmem with ⟨rfl, hvalue⟩ | ⟨rfl, hvalue⟩ | ⟨rfl, hvalue⟩ | ⟨rfl, hvalue⟩
  · exact ⟨isWord_constant (by decide), hvalue ▸ trivial⟩
  · exact ⟨isWord_constant (by decide), hvalue ▸ trivial⟩
  · exact ⟨isWord_constant (by decide), hvalue ▸ trivial⟩
  · refine ⟨⟨by decide, List.all_eq_true.1 (by decide), by decide, by decide, by decide⟩, ?_⟩
    rw [hvalue]
    exact fun _ h => by cases h

/-- Running a source fails while it is parsed only if parsing it fails. -/
theorem ofSource_of_run_eq_reading {depth scope : Nat} {source : String} {error : SyntaxError}
    (h : (run depth scope source machine).1 = .error (.reading error)) :
    Program.ofSource source = .error error := by
  cases hparse : Program.ofSource source with
  | error error' =>
      obtain ⟨start, -, hload⟩ := exists_loadProgram_eq_error hparse machine
      rw [run_of_loadProgram_error hload] at h
      cases h
      rfl
  | ok p =>
      obtain ⟨start, -, hload⟩ := exists_loadProgram_eq hparse machine
      rw [run_of_loadProgram hload] at h
      rcases hresult : ((p.eval depth scope).run start).1 with fault | v
      · rw [hresult] at h
        cases fault <;> cases h
      · rw [hresult] at h
        cases h

/-- What stands after a point in a source is a name. -/
theorem not_blamed_ofSources {sources : List (Nat × String)} {e : Expr} :
    ¬ (ofSources sources).Blamed e := by
  rintro ⟨hname, d, a, hoccurs⟩
  have hdot : (Code.expr (.dot a e)).WellFormed :=
    wellFormed_of_occurs (fun _ => Program.wellFormed_of_mem_programsOf) hoccurs
  have hsome : e.name?.isSome := hdot.2.1
  rw [hname] at hsome
  cases hsome

/-- **No source fails because of what stands after a point**, whatever sources were run before. -/
theorem run_ne_propertyNotName (room : Option Nat) (sources : List (Nat × String)) (depth : Nat)
    (source : String) (e : Expr) :
    (run depth 0 source (afterSources 0 sources (Machine.start room).2)).1
      ≠ .error (.running (.propertyNotName e)) := by
  intro h
  let o := ofSources (sources ++ [(depth, source)])
  have hsources : programsOf sources ⊆ o.programs := fun p hp =>
    let ⟨earlier, hearlier, hparse⟩ := mem_programsOf.1 hp
    mem_programsOf.2 ⟨earlier, List.mem_append_left _ hearlier, hparse⟩
  have hsource : ∀ p, Program.ofSource source = .ok p → p ∈ o.programs := fun p hparse =>
    mem_programsOf.2 ⟨_, List.mem_append_right _ List.mem_cons_self, hparse⟩
  have haccount := account_sources hsources (sound_start room _)
  exact not_blamed_ofSources ((account_source hsource depth haccount.sound).2 e h)

end Origin

/-! ### Names and keys -/

/-- **All names and keys of a store are words**, and so are the names of functions and of their
parameters. -/
structure Store.Worded (store : Store) : Prop where
  /-- The names that are bound. -/
  bound : ∀ {s name b}, store.binding? s name = some b → IsWord name
  /-- The keys of objects. -/
  held : ∀ {i key v}, (store.object i).find? key = some v → IsWord key
  /-- The names of functions and parameters. -/
  function : ∀ {f}, store.HasFunction f → IsWord f.name ∧ ∀ p ∈ f.parameters, IsWord p

theorem Origin.Sound.worded {sources : List (Nat × String)} {w : World}
    (h : (ofSources sources).Sound w) : w.store.Worded := by
  refine ⟨fun hb => (h.bound hb).1, fun hv => (h.held hv).1, fun {f} hf => ?_⟩
  have hdeclared : (ofSources sources).Declared w f := h.declared hf
  exact ⟨hdeclared.named List.mem_cons_self,
    fun p hp => hdeclared.named (List.mem_cons_of_mem _ hp)⟩

/-- **A number that is not written as a word is the key of nothing.** -/
theorem Store.Worded.find?_text {store : Store} (h : store.Worded) {x : Float}
    (hnan : x.isNaN = false) (hinf : x ≠ 1.0 / 0.0) (i : Nat) :
    (store.object i).find? (Number.text x) = none := by
  cases hfind : (store.object i).find? (Number.text x) with
  | none => rfl
  | some v =>
      rcases Number.isWord_text_iff.1 (h.held hfind) with htrue | heq
      · rw [hnan] at htrue
        cases htrue
      · exact absurd heq hinf

/-- Reading a property that is addressed by a number. -/
theorem Expr.run_index_number {calls : Calls} {scope : Nat} {a b : Expr} {i : Nat} {x : Float}
    {first second third : Machine} (ha : (a.eval calls scope).run first = (.ok (.object i), second))
    (hb : (b.eval calls scope).run second = (.ok (.number x), third)) :
    ((Expr.index a b).eval calls scope).run first
      = (.ok (((third.store.object i).find? (Number.text x)).getD .null), third) := by
  rw [Expr.eval, Eval.run_bind, ha]
  dsimp only
  rw [Eval.run_bind, hb]
  rfl

/-- **Names and keys are words, and some failures cannot happen.**

Let sources be run one after another in the scope that is there for them, each to whatever end.  The
trail of that misses no store; in every store on the way, and in the last one, all names and keys
are words.  No source that is run then is refused because of a numeral, nor does it fail because
there is no name after a point.  And only positive infinity and what is not a number are written as
words; so wherever a property is addressed by an expression on the way, and that comes to any other
number, no property is found, and the result is null. -/
theorem sources_worded (room : Option Nat) (sources : List (Nat × String)) :
    let start := (Machine.start room).2
    let notes := sourcesTrail 0 sources start
    let last := afterSources 0 sources start
    Leads start.store notes last.store ∧
    (∀ note ∈ notes, note.state.store.Worded) ∧ last.store.Worded ∧
    (∀ depth source error, (run depth 0 source last).1 = .error error →
      (∀ e, error ≠ .running (.propertyNotName e)) ∧
      ∀ e, error = .reading e → ∀ text, e.message ≠ (Complaint.numeral text).message) ∧
    (∀ x : Float, IsWord (Number.text x) ↔ x.isNaN = true ∨ x = 1.0 / 0.0) ∧
    ∀ note ∈ notes, ∀ a b within s, note.what = .visit (.expr (.index a b)) within s →
      ∀ depth i x second third,
        (a.eval (callWithin depth) s).run note.state = (.ok (.object i), second) →
        (b.eval (callWithin depth) s).run second = (.ok (.number x), third) →
        x.isNaN = false → x ≠ 1.0 / 0.0 →
        (third.store.object i).find? (Number.text x) = none ∧
          ((Expr.index a b).eval (callWithin depth) s).run note.state = (.ok .null, third) := by
  intro start notes last
  have hstart := Origin.sound_start room
  have haccount : (Origin.ofSources sources).Account [] start.store notes last.store :=
    Origin.account_sources (List.Subset.refl _) (hstart sources)
  refine ⟨haccount.leads, fun note hnote => (haccount.good note hnote).1.worded,
    haccount.sound.worded, fun depth source error herror => ?_, fun _ => Number.isWord_text_iff,
    fun note hnote a b within s hvisit depth i x second third ha hb hnan hinf => ?_⟩
  · refine ⟨fun e he => ?_, fun e he text => ?_⟩
    · subst he
      exact Origin.run_ne_propertyNotName room sources depth source e herror
    · subst he
      exact Program.message_ne_of_ofSource (Origin.ofSource_of_run_eq_reading herror) text
  · obtain ⟨hsound, hfits⟩ := haccount.good note hnote
    rw [hvisit] at hfits
    obtain ⟨hseated, hwritten⟩ := hfits
    have hcalls := Origin.traces_callWithin (Origin.ofSources sources) depth
    have hfirst := (Origin.traces_expr hcalls hseated a (hwritten.part (.indexed a b)) _ _
      (le_refl _) hsound).account_of_run ha
    have hsecond := (Origin.traces_expr hcalls (hseated.mono hfirst.le) b
      ((hwritten.part (.index a b)).mono hfirst.le) _ _ (le_refl _) hfirst.sound).account_of_run hb
    have hnone := hsecond.sound.worded.find?_text hnan hinf i
    refine ⟨hnone, ?_⟩
    rw [Expr.run_index_number ha hb, hnone]
    rfl

/-- Infinity is written as a word, so it finds the property of that name; one finds nothing. -/
example :
    ((run 0 0 "let o = { inf: true }; o[1 / 0]" (Machine.start none).2).1,
      (run 0 0 "let o = { inf: true }; o[1]" (Machine.start none).2).1) matches
        (.ok (.boolean true), .ok .null) := by
  decide +kernel

end Scriptlet
