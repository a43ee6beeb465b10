/-
**An output that fails cuts a run short.**

A run that prints more lines than its output takes fails at the first line that is too many.  Up to
there it is the run that it would have been with an output that takes everything, and nothing is
done afterwards: no statement, no argument and no call goes on.

To say where a run is cut, the states in which it prints are listed.  They are found by recursion on
the syntax tree, from the run whose output takes everything.

Main definitions:

* `Scriptlet.Printing` — what is printed, with the state of the run at that moment;
* `Scriptlet.Expr.printings`, `Scriptlet.Stmt.printings`, `Scriptlet.blockPrintings`,
  `Scriptlet.callPrintings`, `Scriptlet.Program.printings` — **what is printed in a run**;
* `Scriptlet.Eval.CutFrom`, `Scriptlet.Eval.CutAt` — computations that are cut where they print.

Main results:

* `Scriptlet.Eval.CutAt.bind` — one computation after another;
* `Scriptlet.cutAt_expr`, `Scriptlet.cutAt_block`, `Scriptlet.cutAt_callWithin` — evaluation is cut
  where it prints;
* `Scriptlet.Program.eval_cut` — **an output that fails cuts a run short**.
-/

import Scriptlet.Proofs.Eval.Runs
import Scriptlet.Session

set_option relaxedAutoImplicit false
set_option autoImplicit false

namespace Scriptlet

/-! ### What is printed in a run -/

/-- What is printed, and the state of the run at that moment. -/
structure Printing where
  /-- The state in which it is printed. -/
  state : Machine
  /-- The values that are printed. -/
  arguments : List Value

/-- The line that is printed. -/
def Printing.line (printing : Printing) : String :=
  Eval.printedLine printing.state.store printing.arguments

/-- What is printed from a state on. -/
abbrev Printings := Machine → List Printing

/-- Nothing is printed. -/
def Printings.nothing : Printings := fun _ => []

/-- What is printed by a computation and, if it ends with a value, by what goes on with that. -/
def Printings.andThen {α : Type} (front : Printings) (m : Eval α) (back : α → Printings) :
    Printings := fun machine =>
  front machine ++
    match m.run machine with
    | (.ok a, machine') => back a machine'
    | (.error _, _) => []

/-- What is printed by a native function. -/
def Action.printings (action : Action) (arguments : List Value) : Printings :=
  match action with
  | .print => fun machine => [⟨machine, arguments⟩]
  | _ => .nothing

/-- What is printed when a value is called, given what is printed in calls of functions. -/
def valuePrintings (inCalls : Closure → List Value → Printings) (callee : Value)
    (arguments : List Value) : Printings :=
  match callee with
  | .native f =>
      Printings.nothing.andThen (Eval.log (.callingNative f.name arguments.length)) fun _ =>
        f.action.printings arguments
  | .function f => inCalls f arguments
  | _ => .nothing

section Trees

variable (calls : Calls) (inCalls : Closure → List Value → Printings) (scope : Nat)

mutual

/-- **What is printed while an expression is evaluated.** -/
def Expr.printings : Expr → Printings
  | .number _ => .nothing
  | .name _ => .nothing
  | .binary _ left right =>
      left.printings.andThen (left.eval calls scope) fun _ => right.printings
  | .assign target value =>
      Printings.nothing.andThen (targetName target) fun _ => value.printings
  | .call callee arguments =>
      callee.printings.andThen (callee.eval calls scope) fun f =>
        (argumentPrintings arguments).andThen (evalArguments calls scope arguments) fun vs =>
          valuePrintings inCalls f vs
  | .dot object _ => object.printings
  | .index object property =>
      object.printings.andThen (object.eval calls scope) fun _ => property.printings
  | .object entries => entryPrintings entries
  | .function _ _ _ => .nothing

/-- What is printed while arguments are evaluated. -/
def argumentPrintings : List Expr → Printings
  | [] => .nothing
  | e :: es => e.printings.andThen (e.eval calls scope) fun _ => argumentPrintings es

/-- What is printed while entries are evaluated. -/
def entryPrintings : List Entry → Printings
  | [] => .nothing
  | .shorthand key :: entries =>
      Printings.nothing.andThen (Eval.lookUp scope key) fun _ => entryPrintings entries
  | .pair _ value :: entries =>
      value.printings.andThen (value.eval calls scope) fun _ => entryPrintings entries

end

/-- What is printed by a statement. -/
def Stmt.printings : Stmt → Printings
  | .declare _ _ none => .nothing
  | .declare _ _ (some value) => value.printings calls inCalls scope
  | .expr expression => expression.printings calls inCalls scope

/-- What is printed by statements. -/
def blockPrintings : List Stmt → Printings
  | [] => .nothing
  | statement :: statements =>
      (statement.printings calls inCalls scope).andThen (statement.eval calls scope) fun _ =>
        blockPrintings statements

end Trees

/-- **What is printed in a call of a function.** -/
def callPrintings : (depth : Nat) → Closure → List Value → Printings
  | 0, _, _ => .nothing
  | depth + 1, f, arguments =>
      Printings.nothing.andThen (Eval.log (.calling f.name arguments.length)) fun _ =>
        Printings.nothing.andThen (Eval.enter f.scope) fun scope =>
          Printings.nothing.andThen (bindParameters scope f.parameters arguments) fun _ =>
            blockPrintings (callWithin depth) (callPrintings depth) scope f.body

/-- **What is printed by a program.** -/
def Program.printings (depth scope : Nat) (program : Program) : Printings :=
  blockPrintings (callWithin depth) (callPrintings depth) scope program.body

/-! ### Computations that are cut where they print -/

namespace Eval

variable {α β : Type}

/-- **The computation is cut where it prints**, from a state whose output takes everything: with
room for all that it prints it does the same, and otherwise it stops where there is no more room, in
the state of that moment.  The output at each moment is what was there before, with the lines that
were printed. -/
structure CutFrom (m : Eval α) (machine : Machine) (printings : List Printing) : Prop where
  /-- The output goes on to take everything. -/
  room : (m.run machine).2.room = none
  /-- The lines that are printed are put out. -/
  output : (m.run machine).2.output.toList
    = machine.output.toList ++ printings.map Printing.line
  /-- At each moment the lines that were printed so far have been put out. -/
  output_at : ∀ {n : Nat} {printing : Printing}, printings[n]? = some printing →
    printing.state.output.toList
      = machine.output.toList ++ (printings.take n).map Printing.line
  /-- With room enough all is the same. -/
  enough : ∀ {n : Nat}, printings.length ≤ n → m.run { machine with room := some n }
    = ((m.run machine).1, { (m.run machine).2 with room := some (n - printings.length) })
  /-- Without, the computation is cut at the first line that is too many. -/
  short : ∀ {n : Nat} {printing : Printing}, printings[n]? = some printing →
    m.run { machine with room := some n }
      = (.error (.error .sinkClosed), { printing.state with room := some 0 })

/-- The computation is cut where it prints, wherever it starts. -/
def CutAt (m : Eval α) (printings : Printings) : Prop :=
  ∀ machine : Machine, machine.room = none → CutFrom m machine (printings machine)

/-- What works on the store alone prints nothing. -/
theorem OnStore.cutAt {m : Eval α} (h : OnStore m) : CutAt m .nothing := by
  intro machine hroom
  have hself : m.run machine
      = ((m.run machine).1, { machine with store := (m.run machine).2.store }) :=
    h machine machine
  refine ⟨?_, ?_, fun hsome => ?_, fun {n} _ => ?_, fun hsome => ?_⟩
  · rw [hself]
    exact hroom
  · rw [hself]
    exact (List.append_nil _).symm
  · cases hsome
  · rw [h machine { machine with room := some n }, hself]
    rfl
  · cases hsome

theorem cutAt_throw (fault : Fault) : CutAt (throw fault : Eval α) .nothing :=
  OnStore.cutAt fun _ _ => rfl

theorem cutAt_log (event : Event) : CutAt (log event) .nothing := by
  intro machine hroom
  refine ⟨hroom, (List.append_nil _).symm, fun hsome => ?_, fun _ => rfl, fun hsome => ?_⟩
  · cases hsome
  · cases hsome

section Bind

variable {m : Eval α} {f : α → Eval β} {machine middle : Machine} {front back : List Printing}

/-- If the first computation fails there is nothing after it. -/
theorem CutFrom.bind_error {fault : Fault} (h : CutFrom m machine front)
    (hrun : m.run machine = (.error fault, middle)) : CutFrom (m >>= f) machine front := by
  have hbind : (m >>= f).run machine = (.error fault, middle) := by rw [run_bind, hrun]
  obtain ⟨hroom, houtput, houtput_at, henough, hshort⟩ := h
  rw [hrun] at hroom houtput
  refine ⟨?_, ?_, houtput_at, fun hn => ?_, fun hn => ?_⟩
  · rw [hbind]
    exact hroom
  · rw [hbind]
    exact houtput
  · rw [run_bind, henough hn, hbind, hrun]
  · rw [run_bind, hshort hn]

/-- If the first computation ends with a value, then either it is cut, or what comes after it. -/
theorem CutFrom.bind_ok {a : α} (h : CutFrom m machine front)
    (hrun : m.run machine = (.ok a, middle)) (h' : CutFrom (f a) middle back) :
    CutFrom (m >>= f) machine (front ++ back) := by
  have hbind : (m >>= f).run machine = (f a).run middle := by rw [run_bind, hrun]
  have houtput := h.output
  rw [hrun] at houtput
  refine ⟨?_, ?_, fun {n printing} hn => ?_, fun {n} hn => ?_, fun {n printing} hn => ?_⟩
  · rw [hbind]
    exact h'.room
  · rw [hbind, h'.output, houtput, List.map_append, List.append_assoc]
  · -- the moment is one of the first computation, or one of what comes after it
    rcases Nat.lt_or_ge n front.length with hlt | hge
    · rw [List.getElem?_append_left hlt] at hn
      rw [List.take_append_of_le_length (Nat.le_of_lt hlt)]
      exact h.output_at hn
    · rw [List.getElem?_append_right hge] at hn
      rw [h'.output_at hn, houtput, List.take_append, List.take_of_length_le hge,
        List.map_append, List.append_assoc]
  · rw [List.length_append] at hn
    rw [run_bind, h.enough (by omega), hrun, hbind]
    dsimp only
    rw [h'.enough (by omega), List.length_append, Nat.sub_sub]
  · -- the first computation is cut already, or it leaves room for some lines after it
    rcases Nat.lt_or_ge n front.length with hlt | hge
    · rw [List.getElem?_append_left hlt] at hn
      rw [run_bind, h.short hn]
    · rw [List.getElem?_append_right hge] at hn
      rw [run_bind, h.enough hge, hrun]
      exact h'.short hn

end Bind

/-- **One computation after another** is cut where either of them is. -/
theorem CutAt.bind {m : Eval α} {f : α → Eval β} {front : Printings} {back : α → Printings}
    (hm : CutAt m front) (hf : ∀ a, CutAt (f a) (back a)) :
    CutAt (m >>= f) (front.andThen m back) := by
  intro machine hroom
  have hfront := hm machine hroom
  unfold Printings.andThen
  rcases hrun : m.run machine with ⟨result, middle⟩
  cases result with
  | error fault =>
      rw [List.append_nil]
      exact hfront.bind_error hrun
  | ok a =>
      have hmiddle := hfront.room
      rw [hrun] at hmiddle
      exact hfront.bind_ok hrun (hf a middle hmiddle)

/-- Nothing is printed after the first computation. -/
theorem CutAt.bind_onStore {m : Eval α} {f : α → Eval β} {front : Printings} (hm : CutAt m front)
    (hf : ∀ a, OnStore (f a)) : CutAt (m >>= f) front := by
  intro machine hroom
  have h := hm.bind (fun a => (hf a).cutAt) machine hroom
  unfold Printings.andThen Printings.nothing at h
  rcases hrun : m.run machine with ⟨_ | _, _⟩ <;> rw [hrun, List.append_nil] at h <;> exact h

end Eval

/-! ### Evaluation -/

/-- Printing is cut where it prints. -/
theorem cutAt_print (arguments : List Value) (scope : Nat) :
    Eval.CutAt (Action.print.perform arguments scope) (Action.print.printings arguments) := by
  intro machine hroom
  have hrun := Eval.run_print arguments scope machine
  rw [hroom, if_neg (by simp)] at hrun
  have hmoment : ∀ {n printing}, (Action.print.printings arguments machine)[n]? = some printing →
      n = 0 ∧ printing = ⟨machine, arguments⟩ := by
    intro n printing hn
    cases n with
    | zero => exact ⟨rfl, (Option.some_inj.1 hn).symm⟩
    | succ n => cases hn
  refine ⟨?_, ?_, fun {n printing} hn => ?_, fun {n} hn => ?_, fun {n printing} hn => ?_⟩
  · rw [hrun]
    rfl
  · rw [hrun]
    exact Array.toList_push
  · obtain ⟨rfl, rfl⟩ := hmoment hn
    exact (List.append_nil _).symm
  · have hpos : n ≠ 0 := Nat.ne_of_gt hn
    rw [Eval.run_print, hrun, if_neg (by simpa using hpos)]
    rfl
  · obtain ⟨rfl, rfl⟩ := hmoment hn
    rw [Eval.run_print, if_pos rfl]

theorem cutAt_perform (action : Action) (arguments : List Value) (scope : Nat) :
    Eval.CutAt (action.perform arguments scope) (action.printings arguments) := by
  cases action with
  | print => exact cutAt_print arguments scope
  | count => exact (Eval.onStore_pure _).cutAt
  | last => exact (Eval.onStore_pure _).cutAt
  | lookUp name => exact (Eval.onStore_lookUp scope name).cutAt
  | declare name => exact Eval.OnStore.cutAt (Eval.onStore_declare _ _ _ _)

/-- Calls are cut where they print. -/
def CallsCut (calls : Calls) (inCalls : Closure → List Value → Printings) : Prop :=
  ∀ f arguments, Eval.CutAt (calls f arguments) (inCalls f arguments)

section Trees

variable {calls : Calls} {inCalls : Closure → List Value → Printings}

theorem cutAt_callValue (hcalls : CallsCut calls inCalls) (scope : Nat) (callee : Value)
    (arguments : List Value) :
    Eval.CutAt (callValue calls scope callee arguments)
      (valuePrintings inCalls callee arguments) := by
  cases callee with
  | native f => exact (Eval.cutAt_log _).bind fun _ => cutAt_perform f.action arguments scope
  | function f => exact hcalls f arguments
  | _ => exact ((Eval.onStore_textOf _).bind fun _ => Eval.onStore_fail _).cutAt

mutual

/-- **The evaluation of an expression is cut where it prints.** -/
theorem cutAt_expr (hcalls : CallsCut calls inCalls) (scope : Nat) (e : Expr) :
    Eval.CutAt (e.eval calls scope) (e.printings calls inCalls scope) := by
  cases e with
  | number x => exact (Eval.onStore_pure _).cutAt
  | name n => exact (Eval.onStore_lookUp scope n).cutAt
  | binary op left right =>
      exact (cutAt_expr hcalls scope left).bind fun _ =>
        (cutAt_expr hcalls scope right).bind_onStore fun _ => Eval.onStore_pure _
  | assign target value =>
      exact (Eval.onStore_targetName target).cutAt.bind fun n =>
        (cutAt_expr hcalls scope value).bind_onStore fun v => Eval.onStore_assign scope n v
  | call callee arguments =>
      exact (cutAt_expr hcalls scope callee).bind fun f =>
        (cutAt_arguments hcalls scope arguments).bind fun vs =>
          cutAt_callValue hcalls scope f vs
  | dot object property =>
      exact (cutAt_expr hcalls scope object).bind_onStore fun v =>
        (Eval.onStore_propertyName property).bind fun key => Eval.onStore_propertyOf v key
  | index object property =>
      exact (cutAt_expr hcalls scope object).bind fun v =>
        (cutAt_expr hcalls scope property).bind_onStore fun k =>
          (Eval.onStore_keyText k).bind fun key => Eval.onStore_propertyOf v key
  | object entries =>
      exact (cutAt_entries hcalls scope entries).bind_onStore fun _ => Eval.onStore_create _
  | function f parameters body => exact Eval.OnStore.cutAt (Eval.onStore_declare _ _ _ _)

theorem cutAt_arguments (hcalls : CallsCut calls inCalls) (scope : Nat) (es : List Expr) :
    Eval.CutAt (evalArguments calls scope es) (argumentPrintings calls inCalls scope es) := by
  cases es with
  | nil => exact (Eval.onStore_pure _).cutAt
  | cons e es =>
      exact (cutAt_expr hcalls scope e).bind fun _ =>
        (cutAt_arguments hcalls scope es).bind_onStore fun _ => Eval.onStore_pure _

theorem cutAt_entries (hcalls : CallsCut calls inCalls) (scope : Nat) (entries : List Entry) :
    Eval.CutAt (evalEntries calls scope entries) (entryPrintings calls inCalls scope entries) := by
  cases entries with
  | nil => exact (Eval.onStore_pure _).cutAt
  | cons entry entries =>
      cases entry with
      | shorthand key =>
          exact (Eval.onStore_lookUp scope key).cutAt.bind fun _ =>
            (cutAt_entries hcalls scope entries).bind_onStore fun _ => Eval.onStore_pure _
      | pair key value =>
          exact (cutAt_expr hcalls scope value).bind fun _ =>
            (cutAt_entries hcalls scope entries).bind_onStore fun _ => Eval.onStore_pure _

end

theorem cutAt_stmt (hcalls : CallsCut calls inCalls) (scope : Nat) (statement : Stmt) :
    Eval.CutAt (statement.eval calls scope) (statement.printings calls inCalls scope) := by
  cases statement with
  | declare constant n value =>
      cases value with
      | none => exact Eval.OnStore.cutAt (Eval.onStore_declare _ _ _ _)
      | some value =>
          exact (cutAt_expr hcalls scope value).bind_onStore fun v =>
            Eval.onStore_declare scope n v constant
  | expr e => exact cutAt_expr hcalls scope e

/-- **The evaluation of statements is cut where it prints.** -/
theorem cutAt_block (hcalls : CallsCut calls inCalls) (scope : Nat) (last : Value)
    (statements : List Stmt) :
    Eval.CutAt (evalBlock calls scope last statements)
      (blockPrintings calls inCalls scope statements) := by
  induction statements generalizing last with
  | nil => exact (Eval.onStore_pure _).cutAt
  | cons statement statements ih => exact (cutAt_stmt hcalls scope statement).bind fun v => ih v

end Trees

/-- **Calls are cut where they print**, by induction on how deeply they may be nested. -/
theorem cutAt_callWithin (depth : Nat) : CallsCut (callWithin depth) (callPrintings depth) := by
  induction depth with
  | zero => exact fun _ _ => Eval.cutAt_throw _
  | succ depth ih =>
      intro f arguments
      exact (Eval.cutAt_log _).bind fun _ => (Eval.onStore_create _).cutAt.bind fun scope =>
        (Eval.onStore_bindParameters scope f.parameters arguments).cutAt.bind fun _ =>
          cutAt_block ih scope .null f.body

/-! ### Programs -/

/-- **An output that fails cuts a run short.**

From a state whose output takes everything, a run of a program puts out the lines that it prints.
With an output that takes only some lines: if there are no more of them than it takes, the run has
the same result, the same output and leaves the same state behind; otherwise it fails because of
the output, in the state in which the first line that is too many would have been printed, and there
the lines before that one are the output.  So nothing at all is done after the failure. -/
theorem Program.eval_cut (p : Program) (depth scope : Nat) {machine : Machine}
    (hroom : machine.room = none) (n : Nat) :
    let whole := (p.eval depth scope).run machine
    let cut := (p.eval depth scope).run { machine with room := some n }
    let printings := p.printings depth scope machine
    whole.2.output.toList = machine.output.toList ++ printings.map Printing.line ∧
    (printings.length ≤ n →
      cut = (whole.1, { whole.2 with room := some (n - printings.length) })) ∧
    ∀ h : n < printings.length,
      cut = (.error (.error .sinkClosed), { printings[n].state with room := some 0 }) ∧
        cut.2.output.toList
          = machine.output.toList ++ (printings.take n).map Printing.line := by
  intro whole cut printings
  have hcut := cutAt_block (cutAt_callWithin depth) scope .null p.body machine hroom
  refine ⟨hcut.output, hcut.enough, fun hlt => ?_⟩
  have hsome : printings[n]? = some printings[n] := List.getElem?_eq_getElem hlt
  have hshort : cut = _ := hcut.short hsome
  refine ⟨hshort, ?_⟩
  rw [hshort]
  exact hcut.output_at hsome

/-- Of two lines that are printed, an output that takes one gets the first; the second call fails,
and the declaration behind it is not reached. -/
theorem Program.eval_cut_second :
    let p : Program :=
      ⟨[.expr (.call (.name "print") [.name "true"]), .expr (.call (.name "print") [.name "null"]),
        .declare false "x" none]⟩
    let machine := (Machine.start none).2
    let cut := (p.eval 1 0).run { machine with room := some 1 }
    machine.room = none ∧ cut.1 = .error (.error .sinkClosed) ∧ cut.2.output.toList = ["true"] ∧
      cut.2.store.contains 0 "x" = false := by
  intro p machine cut
  have hprinted : (p.printings 1 0 machine).map Printing.line = ["true", "null"] := by
    decide +kernel
  have hlength : 1 < (p.printings 1 0 machine).length := by
    rw [← List.length_map (f := Printing.line), hprinted]
    decide
  have hstore : (p.printings 1 0 machine)[1]?.map (·.state.store.contains 0 "x")
      = some false := by decide +kernel
  rw [List.getElem?_eq_getElem hlength] at hstore
  obtain ⟨hcut, houtput⟩ := (p.eval_cut 1 0 (rfl : machine.room = none) 1).2.2 hlength
  have hcut : cut = _ := hcut
  refine ⟨rfl, ?_, ?_, ?_⟩
  · rw [hcut]
  · rw [houtput, List.map_take, hprinted]
    rfl
  · rw [hcut]
    exact Option.some_inj.1 hstore

end Scriptlet
