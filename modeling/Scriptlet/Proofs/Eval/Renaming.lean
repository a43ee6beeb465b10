/-
**No name is special.**

The names of variables, functions, parameters and properties can be replaced by other ones, in a
program and in all that a store holds, as long as different names stay different.  Then nothing is
captured and nothing is missed: the run takes the same course.  It ends with the same value, up to
names, and leaves the same store behind, up to names.

One kind of name is given: a property can be addressed by a number, and is named by the text of it
then.  So the texts of numbers have to stay as they are.  And objects and functions show names in
their texts, so that what is printed is the same if it is neither.  Native functions keep the name
that they are shown with; the one that looks up or declares a name does that with the other name.

Main definitions:

* `Scriptlet.Rewriting.ofNames` — other names, and nothing else;
* `Scriptlet.Value.showsNames` — objects and functions, whose texts show names.

Main results:

* `Scriptlet.Rewriting.text_of_not_showsNames` — which values keep their texts;
* `Scriptlet.no_name_is_special` — **a program under other names**.
-/

import Mathlib.Logic.Equiv.Basic
import Scriptlet.Proofs.Eval.Rewritten
import Scriptlet.Proofs.Number.Words

set_option relaxedAutoImplicit false
set_option autoImplicit false

namespace Scriptlet

/-- Whether the text of a value shows names: those of properties, or of a function and its
parameters. -/
def Value.showsNames : Value → Bool
  | .object _ | .function _ => true
  | _ => false

namespace Rewriting

/-- **Other names**, and nothing else is written in another way. -/
def ofNames (name : String → String) (hinjective : Function.Injective name)
    (htext : ∀ x : Float, name (Number.text x) = Number.text x) : Rewriting :=
  ⟨name, hinjective, htext, false⟩

variable {r : Rewriting}

/-- **Values that show no names keep their texts.** -/
theorem text_of_not_showsNames {v : Value} (h : v.showsNames = false) (s : Store) :
    (r.value v).text (r.store s) = v.text s := by
  cases v with
  | object i => cases h
  | function f => cases h
  | _ => simp only [Value.text, value, native, Value.textWithin]

/-- Something is too deep exactly when it is, rewritten. -/
theorem Ends.tooDeep_iff {α β : Type} {f : α → β} {ending : Except Fault α}
    {ending' : Except Fault β} (h : r.Ends f ending ending') :
    ending' = .error .tooDeep ↔ ending = .error .tooDeep := by
  cases h <;> simp

/-- What ends with a value ends with that value, rewritten. -/
theorem Ends.eq_ok {α β : Type} {f : α → β} {a : α} {ending : Except Fault β}
    (h : r.Ends f (.ok a) ending) : ending = .ok (f a) := by
  cases h
  rfl

end Rewriting

/-- **No name is special.**  Under other names, on a state where names are replaced too, a program
ends as it does under its own: with the same value, or with the same error, where names are
replaced, or too deep.  It leaves the same store and the same events behind, with names replaced,
and if no value that is printed shows names, the output is the same. -/
theorem no_name_is_special (name : String → String) (hinjective : Function.Injective name)
    (htext : ∀ x : Float, name (Number.text x) = Number.text x) (p : Program)
    (depth scope : Nat) (machine : Machine) :
    let r := Rewriting.ofNames name hinjective htext
    let plain := (p.eval depth scope).run machine
    let renamed := ((r.program p).eval depth scope).run (r.machine machine)
    r.Ends r.value plain.1 renamed.1 ∧
      (renamed.1 = .error .tooDeep ↔ plain.1 = .error .tooDeep) ∧
      renamed.2.store = r.store plain.2.store ∧
      renamed.2.events = plain.2.events.map r.event ∧
      renamed.2.room = plain.2.room ∧
      ((∀ printing ∈ p.printings depth scope machine,
          ∀ v ∈ printing.arguments, v.showsNames = false) →
        renamed.2.output = plain.2.output) := by
  intro r plain renamed
  obtain ⟨hends, htwin, houtput⟩ :=
    r.mirrors_program p depth scope machine (r.machine machine) (r.twin_machine machine)
  refine ⟨hends, hends.tooDeep_iff, htwin.store, htwin.events, htwin.room, fun hplain => ?_⟩
  refine houtput (fun printing hprinting v hv => ?_) rfl
  exact Rewriting.text_of_not_showsNames (hplain printing hprinting v hv) printing.state.store

/-- Two names can be swapped. -/
theorem no_name_is_special_swapped :
    let swap : String → String := Equiv.swap "x" "y"
    let p : Program := ⟨[.declare true "x" none, .expr (.object [.shorthand "x"])]⟩
    let q : Program := ⟨[.declare true "y" none, .expr (.object [.shorthand "y"])]⟩
    let machine : Machine := { Machine.empty none with store := (Store.empty.newScope none).2 }
    ∃ (hinjective : Function.Injective swap)
      (htext : ∀ x : Float, swap (Number.text x) = Number.text x),
      let r := Rewriting.ofNames swap hinjective htext
      r.program p = q ∧
        ((q.eval 0 0).run (r.machine machine)).1 = .ok (.object 0) ∧
        ((q.eval 0 0).run (r.machine machine)).2.store
          = r.store ((p.eval 0 0).run machine).2.store := by
  intro swap p q machine
  have hx : IsWord "x" :=
    ⟨by decide, List.all_eq_true.1 (by decide), by decide, by decide, by decide⟩
  have hy : IsWord "y" :=
    ⟨by decide, List.all_eq_true.1 (by decide), by decide, by decide, by decide⟩
  have htext : ∀ x : Float, swap (Number.text x) = Number.text x := fun x =>
    Equiv.swap_apply_of_ne_of_ne (Number.text_ne_of_isWord hx (by decide) (by decide) x)
      (Number.text_ne_of_isWord hy (by decide) (by decide) x)
  have hinjective : Function.Injective swap := (Equiv.swap "x" "y").injective
  refine ⟨hinjective, htext, ?_⟩
  intro r
  obtain ⟨hends, -, hstore, -⟩ := no_name_is_special swap hinjective htext p 0 0 machine
  have hprogram : r.program p = q := rfl
  have hplain : ((p.eval 0 0).run machine).1 = .ok (.object 0) := rfl
  rw [hplain] at hends
  exact ⟨hprogram, hends.eq_ok, hstore⟩

end Scriptlet
