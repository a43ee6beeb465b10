/-
**One script after another.**

Running a script leaves a trail of events, which no script can see: what a run does to the store and
to the output, and how it ends, does not depend on the events in front of it.  So the statements of
one script, behind those of another one, are run as the second script is run after the first.
Together with what is known about parsing, a script may be cut behind a semicolon, and its two parts
may be run one after the other.

Main definitions:

* `Scriptlet.Machine.Alike` — states that differ in their events only;
* `Scriptlet.unrecorded` — the correspondence of runs that differ in their events only.

Main results:

* `Scriptlet.Program.eval_alike` — **events are not seen**;
* `Scriptlet.evalBlock_append` — statements behind others;
* `Scriptlet.run_append` — **running two parts of a script**.
-/

import Mathlib
import Scriptlet.Proofs.Eval.Correspondence
import Scriptlet.Proofs.Syntax.Splitting
import Scriptlet.Session

set_option relaxedAutoImplicit false
set_option autoImplicit false

namespace Scriptlet

/-! ### States that differ in their events -/

/-- The states differ in their events only. -/
structure Machine.Alike (a b : Machine) : Prop where
  /-- The stores are the same. -/
  store : a.store = b.store
  /-- The same lines were written. -/
  output : a.output = b.output
  /-- The output takes as many more lines. -/
  room : a.room = b.room

namespace Machine.Alike

theorem refl (a : Machine) : a.Alike a := ⟨rfl, rfl, rfl⟩

theorem symm {a b : Machine} (h : a.Alike b) : b.Alike a :=
  ⟨h.store.symm, h.output.symm, h.room.symm⟩

theorem trans {a b c : Machine} (h : a.Alike b) (h' : b.Alike c) : a.Alike c :=
  ⟨h.store.trans h'.store, h.output.trans h'.output, h.room.trans h'.room⟩

end Machine.Alike

/-- **The correspondence of runs that differ in their events only**: all else is the same. -/
def unrecorded : Correspondence where
  World := Unit
  order := inferInstance
  scope _ s t := s = t
  object _ i j := i = j
  state _ a b := a.Alike b
  scope_mono _ h := h
  object_mono _ h := h

namespace unrecorded

theorem values_refl (v : Value) : unrecorded.Values () v v := by
  cases v with
  | null => exact .null
  | number x => exact .number x
  | boolean b => exact .boolean b
  | object i => exact .object (c := unrecorded.toPairing) rfl
  | native f => exact .native f
  | function f => exact .function (c := unrecorded.toPairing) rfl

theorem eq_of_values {v v' : Value} (h : unrecorded.Values () v v') : v = v' := by
  cases h with
  | object h => exact congrArg Value.object h
  | function h =>
      cases h
      rfl
  | _ => rfl

theorem eq_of_list {vs vs' : List Value} (h : List.Forall₂ (unrecorded.Values ()) vs vs') :
    vs = vs' := by
  induction h with
  | nil => rfl
  | cons hv _ ih => rw [eq_of_values hv, ih]

theorem eq_of_entries {ps qs : List (String × Value)} (h : unrecorded.Entries () ps qs) :
    ps = qs := by
  induction h with
  | nil => rfl
  | cons hp _ ih => rw [Prod.ext hp.1 (eq_of_values hp.2), ih]

variable {α β : Type}

/-- The computation does not see the events. -/
def Blind (m : Eval α) : Prop :=
  ∀ a b : Machine, a.Alike b →
    (m.run a).2.Alike (m.run b).2 ∧ (m.run a).1 = (m.run b).1

theorem Blind.matches {m : Eval α} (h : Blind m) {R : unrecorded.World → α → α → Prop}
    (hR : ∀ a, R () a a) : unrecorded.Matches () R m m := by
  refine .of_run fun a b hab => ?_
  obtain ⟨hstate, hresult⟩ := h a b hab
  refine ⟨hstate, ?_⟩
  rw [hresult]
  cases (m.run b).1 with
  | error fault => exact .error fault
  | ok value => exact .ok (hR value)

/-- What works on the store alone does not see the events. -/
theorem blind_of_onStore {m : Eval α} (h : Eval.OnStore m) : Blind m := by
  intro a b hab
  obtain ⟨hstore, houtput, hroom⟩ := hab
  have ha : m.run a = ((m.run b).1, { a with store := (m.run b).2.store }) := by
    have hother := h b a
    rwa [← hstore] at hother
  have hb : m.run b = ((m.run b).1, { b with store := (m.run b).2.store }) := h b b
  rw [ha, hb]
  exact ⟨⟨rfl, houtput, hroom⟩, rfl⟩

theorem blind_print (vs : List Value) (s : Nat) : Blind (Action.print.perform vs s) := by
  intro a b hab
  rw [Eval.run_print, Eval.run_print, hab.room, hab.store]
  split
  · exact ⟨hab, rfl⟩
  · refine ⟨⟨rfl, ?_, rfl⟩, rfl⟩
    rw [hab.output]

/-- **No step of a run sees the events.** -/
theorem sound : unrecorded.Sound where
  lookUp name h := by
    cases h
    exact (blind_of_onStore (Eval.onStore_lookUp _ name)).matches values_refl
  declare name constant h hv := by
    cases h
    cases eq_of_values hv
    exact (blind_of_onStore (Eval.onStore_declare _ name _ constant)).matches values_refl
  assign name h hv := by
    cases h
    cases eq_of_values hv
    exact (blind_of_onStore (Eval.onStore_assign _ name _)).matches values_refl
  enter h := by
    cases h
    exact (blind_of_onStore (Eval.onStore_create _)).matches fun _ => rfl
  allocate h := by
    cases eq_of_entries h
    exact (blind_of_onStore (Eval.onStore_create _)).matches values_refl
  property key h := by
    cases h
    exact (blind_of_onStore (Eval.onStore_propertyOf _ key)).matches values_refl
  textOf h := by
    cases eq_of_values h
    exact (blind_of_onStore (Eval.onStore_textOf _)).matches (R := fun _ => Eq) fun _ => rfl
  print s t h := by
    cases eq_of_list h
    exact (blind_print _ s).matches values_refl
  log event := by
    refine .of_run fun a b hab => ?_
    exact ⟨⟨hab.store, hab.output, hab.room⟩, .ok trivial⟩

end unrecorded

/-- **Events are not seen**: from states that differ in their events only, a program ends in the
same way, in states that differ in their events only. -/
theorem Program.eval_alike (p : Program) (depth scope : Nat) {a b : Machine} (h : a.Alike b) :
    ((p.eval depth scope).run a).1 = ((p.eval depth scope).run b).1 ∧
      ((p.eval depth scope).run a).2.Alike ((p.eval depth scope).run b).2 := by
  obtain ⟨_, _, hstate, hends⟩ :=
    unrecorded.sound.program (w := ()) depth (rfl : unrecorded.scope () scope scope) p a b h
  exact ⟨hends.eq fun _ _ => unrecorded.eq_of_values, hstate⟩

/-! ### Statements behind others -/

/-- Statements behind others start where those have ended, with their value. -/
theorem evalBlock_append (calls : Calls) (scope : Nat) (last : Value) (ss ts : List Stmt) :
    evalBlock calls scope last (ss ++ ts)
      = evalBlock calls scope last ss >>= fun v => evalBlock calls scope v ts := by
  induction ss generalizing last with
  | nil => rfl
  | cons s ss ih =>
      simp only [List.cons_append, evalBlock, bind_assoc, ih]

/-- The value in front of statements is that of none of them. -/
theorem evalBlock_of_ne_nil (calls : Calls) (scope : Nat) (last last' : Value) {ts : List Stmt}
    (h : ts ≠ []) : evalBlock calls scope last ts = evalBlock calls scope last' ts := by
  cases ts with
  | nil => exact absurd rfl h
  | cons t ts => rfl

/-- **A program in two parts** is run as the one part and, if that ends with a value, the other. -/
theorem Program.eval_append (p q : Program) (depth scope : Nat) :
    (p.append q).eval depth scope = p.eval depth scope >>= fun v =>
      if q.body = [] then pure v else q.eval depth scope := by
  unfold Program.eval Program.append
  rw [evalBlock_append]
  refine congrArg _ (funext fun v => ?_)
  split
  · next h => rw [h, evalBlock]
  · next h => exact evalBlock_of_ne_nil _ _ _ _ h

/-- The two parts, from states that differ in their events: if the first part fails, then it is all
that runs, and otherwise the second part runs behind it, if there is any. -/
theorem Program.eval_append_alike (p q : Program) (depth scope : Nat) {a b : Machine}
    (h : a.Alike b) :
    (∀ fault, ((p.eval depth scope).run b).1 = .error fault →
      (((p.append q).eval depth scope).run a).1 = .error fault ∧
        (((p.append q).eval depth scope).run a).2.Alike ((p.eval depth scope).run b).2) ∧
    ∀ value, ((p.eval depth scope).run b).1 = .ok value →
      ∀ c : Machine, c.Alike ((p.eval depth scope).run b).2 →
        (((p.append q).eval depth scope).run a).1
            = (if q.body = [] then .ok value else ((q.eval depth scope).run c).1) ∧
          (((p.append q).eval depth scope).run a).2.Alike ((q.eval depth scope).run c).2 := by
  obtain ⟨hresult, hstate⟩ := p.eval_alike depth scope h
  rw [Program.eval_append, Eval.run_bind]
  rcases hrun : (p.eval depth scope).run a with ⟨result, a'⟩
  rcases hrun' : (p.eval depth scope).run b with ⟨result', b'⟩
  rw [hrun, hrun'] at hresult hstate
  obtain rfl : result = result' := hresult
  refine ⟨fun fault hfault => ?_, fun value hvalue c hc => ?_⟩
  · obtain rfl : result = .error fault := hfault
    exact ⟨rfl, hstate⟩
  · obtain rfl : result = .ok value := hvalue
    have halike : a'.Alike c := hstate.trans hc.symm
    dsimp only
    by_cases hnone : q.body = []
    · rw [if_pos hnone, if_pos hnone]
      refine ⟨rfl, ?_⟩
      -- The second part has no statements, so that it changes nothing.
      unfold Program.eval
      rw [hnone]
      exact halike
    · rw [if_neg hnone, if_neg hnone]
      exact q.eval_alike depth scope halike

/-! ### Scripts in two parts -/

/-- A source that is parsed is loaded as its program, up to the events of reading it. -/
theorem exists_loadProgram_eq {source : String} {p : Program} (h : Program.ofSource source = .ok p)
    (machine : Machine) : ∃ start, start.Alike machine ∧
      loadProgram source machine = (.ok p, start) := by
  unfold Program.ofSource at h
  refine ⟨{ machine with
      events := (machine.events ++ (scan source).events.toArray).push (.parsed p.body.length) },
    ⟨rfl, rfl, rfl⟩, ?_⟩
  unfold loadProgram
  dsimp only
  rw [h]

/-- Running a source that is loaded as a program. -/
theorem run_of_loadProgram {source : String} {p : Program} {machine start : Machine}
    (h : loadProgram source machine = (.ok p, start)) (depth scope : Nat) :
    run depth scope source machine
      = (((p.eval depth scope).run start).1.mapError Fault.toRunError,
        ((p.eval depth scope).run start).2) := by
  unfold run
  rw [h]
  dsimp only
  rcases (p.eval depth scope).run start with ⟨result, stop⟩
  rfl

/-- A source that is not parsed leaves nothing but the events of reading it. -/
theorem exists_loadProgram_eq_error {source : String} {error : SyntaxError}
    (h : Program.ofSource source = .error error) (machine : Machine) :
    ∃ start, start.Alike machine ∧ loadProgram source machine = (.error error, start) := by
  unfold Program.ofSource at h
  refine ⟨{ machine with events := machine.events ++ (scan source).events.toArray },
    ⟨rfl, rfl, rfl⟩, ?_⟩
  unfold loadProgram
  dsimp only
  rw [h]

/-- Running a source that is not parsed. -/
theorem run_of_loadProgram_error {source : String} {error : SyntaxError} {machine start : Machine}
    (h : loadProgram source machine = (.error error, start)) (depth scope : Nat) :
    run depth scope source machine = (.error (.reading error), start) := by
  unfold run
  rw [h]

/-- **Running two parts of a script**, cut behind the end of the first part or behind a semicolon
that is its last token.

The whole is parsed exactly when the second part is, as the statements of the first part and those
of the second; if the second part is no script, then the whole fails with the same error, further
back by the bytes of the first part.  And it is run, in any scope and any state, as the first part
and then, only if that ends with a value, the second part in the state that the first one left: the
store, the lines that were written and the result are the same, where the value of the first part
counts if there are no statements in the second. -/
theorem run_append {a b : String} {p : Program} (ha : Program.ofSource a = .ok p)
    (hend : ∀ tok ∈ (scan a).tokens.dropLast.getLast?, tok.kind = .semicolon) :
    (Program.ofSource (a ++ b)
      = match Program.ofSource b with
        | .ok q => .ok ⟨p.body ++ q.body⟩
        | .error error => .error { error with span := error.span.shift a.utf8ByteSize }) ∧
    ∀ q, Program.ofSource b = .ok q → ∀ depth scope machine,
      let first := run depth scope a machine
      let second := run depth scope b first.2
      let whole := run depth scope (a ++ b) machine
      (∀ error, first.1 = .error error →
        whole.1 = .error error ∧ whole.2.Alike first.2) ∧
      ∀ value, first.1 = .ok value →
        whole.1 = (if q.body = [] then .ok value else second.1) ∧ whole.2.Alike second.2 := by
  have hparse := Program.ofSource_append (b := b) ha hend
  refine ⟨?_, fun q hq depth scope machine => ?_⟩
  · rw [hparse]
    cases Program.ofSource b <;> rfl
  have hwhole : Program.ofSource (a ++ b) = .ok (p.append q) := by
    rw [hparse, hq]
    rfl
  obtain ⟨start, hstart, hload⟩ := exists_loadProgram_eq ha machine
  obtain ⟨start', hstart', hload'⟩ := exists_loadProgram_eq hwhole machine
  obtain ⟨start₂, hstart₂, hload₂⟩ :=
    exists_loadProgram_eq hq ((p.eval depth scope).run start).2
  obtain ⟨hfail, hreturn⟩ :=
    p.eval_append_alike q depth scope (hstart'.trans hstart.symm)
  rw [run_of_loadProgram hload, run_of_loadProgram hload']
  dsimp only
  rw [run_of_loadProgram hload₂]
  cases hresult : ((p.eval depth scope).run start).1 with
  | error fault =>
      obtain ⟨heq, halike⟩ := hfail fault hresult
      rw [heq]
      refine ⟨fun error herror => ⟨herror, halike⟩, fun value hvalue => ?_⟩
      cases hvalue
  | ok value =>
      obtain ⟨heq, halike⟩ := hreturn value hresult start₂ hstart₂
      refine ⟨fun error herror => ?_, fun value' hvalue => ?_⟩
      · cases herror
      obtain rfl : value = value' := Except.ok.inj hvalue
      refine ⟨?_, halike⟩
      rw [heq]
      split <;> rfl

/-- A declaration and, behind its semicolon, the name it declares. -/
theorem run_append_declaration :
    Program.ofSource ("let x;" ++ "x") = .ok ⟨[.declare false "x" none, .expr (.name "x")]⟩ ∧
      ∀ depth scope machine value, (run depth scope "let x;" machine).1 = .ok value →
        (run depth scope ("let x;" ++ "x") machine).1
          = (run depth scope "x" (run depth scope "let x;" machine).2).1 := by
  have hfirst : Program.ofSource "let x;" = .ok ⟨[.declare false "x" none]⟩ := by cbv
  have hsecond : Program.ofSource "x" = .ok ⟨[.expr (.name "x")]⟩ := by cbv
  have hend : ∀ tok ∈ (scan "let x;").tokens.dropLast.getLast?, tok.kind = .semicolon := by
    decide +kernel
  obtain ⟨hboth, hrun⟩ := run_append (b := "x") hfirst hend
  rw [hsecond] at hboth
  refine ⟨hboth, fun depth scope machine value hvalue => ?_⟩
  exact ((hrun _ hsecond depth scope machine).2 value hvalue).1

end Scriptlet
