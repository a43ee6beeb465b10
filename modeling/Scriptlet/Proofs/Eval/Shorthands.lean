/-
**A key alone is only notation.**

A key that stands alone in an object can be written with the variable of its name as its value,
here, in all that is nested in the program, and in the functions that a store holds.  Then no key
stands alone any more, and the program does what it did before: it ends with the same value or with
the same error, having printed the same and left the same store behind, up to the way in which the
functions are written.

Main definitions:

* `Scriptlet.Rewriting.spelling` — **keys alone get their variables as values**;
* `Scriptlet.Expr.isExplicit`, `Scriptlet.Program.isExplicit` — no key stands alone;
* `Scriptlet.Rewriting.result` — how a run ends, rewritten.

Main results:

* `Scriptlet.Rewriting.isExplicit_program`, `Scriptlet.Rewriting.spelling_program_eq` — what is
  written, and that nothing else is changed;
* `Scriptlet.Rewriting.spelling_text` — values keep their texts;
* `Scriptlet.shorthand_is_notation` — **a key alone is only notation**.
-/

import Scriptlet.Proofs.Eval.Rewritten

set_option relaxedAutoImplicit false
set_option autoImplicit false

namespace Scriptlet

/-! ### Programs without keys alone -/

mutual

/-- No key stands alone in an expression. -/
def Expr.isExplicit : Expr → Bool
  | .number _ | .name _ => true
  | .binary _ left right => left.isExplicit && right.isExplicit
  | .assign target value => target.isExplicit && value.isExplicit
  | .call callee arguments => callee.isExplicit && areExplicit arguments
  | .dot object property => object.isExplicit && property.isExplicit
  | .index object property => object.isExplicit && property.isExplicit
  | .object entries => entriesExplicit entries
  | .function _ _ body => stmtsExplicit body

/-- No key stands alone in some expressions. -/
def areExplicit : List Expr → Bool
  | [] => true
  | e :: es => e.isExplicit && areExplicit es

/-- All entries have values, and no key stands alone in these. -/
def entriesExplicit : List Entry → Bool
  | [] => true
  | e :: es => e.isExplicit && entriesExplicit es

/-- An entry has a value, and no key stands alone in it. -/
def Entry.isExplicit : Entry → Bool
  | .shorthand _ => false
  | .pair _ value => value.isExplicit

/-- No key stands alone in some statements. -/
def stmtsExplicit : List Stmt → Bool
  | [] => true
  | s :: ss => s.isExplicit && stmtsExplicit ss

/-- No key stands alone in a statement. -/
def Stmt.isExplicit : Stmt → Bool
  | .declare _ _ none => true
  | .declare _ _ (some value) => value.isExplicit
  | .expr e => e.isExplicit

end

/-- No key stands alone in a program. -/
def Program.isExplicit (p : Program) : Bool := stmtsExplicit p.body

namespace Rewriting

/-! ### Spelling keys out -/

/-- **Keys alone get their variables as values**, and all names stay as they are. -/
def spelling : Rewriting := ⟨id, Function.injective_id, fun _ => rfl, true⟩

mutual

theorem isExplicit_expr (e : Expr) : (spelling.expr e).isExplicit = true := by
  cases e with
  | number x => rfl
  | name n => rfl
  | binary op left right =>
      rw [expr, Expr.isExplicit, isExplicit_expr left, isExplicit_expr right, Bool.and_self]
  | assign target value =>
      rw [expr, Expr.isExplicit, isExplicit_expr target, isExplicit_expr value, Bool.and_self]
  | call callee arguments =>
      rw [expr, Expr.isExplicit, isExplicit_expr callee, isExplicit_exprs arguments, Bool.and_self]
  | dot object property =>
      rw [expr, Expr.isExplicit, isExplicit_expr object, isExplicit_expr property, Bool.and_self]
  | index object property =>
      rw [expr, Expr.isExplicit, isExplicit_expr object, isExplicit_expr property, Bool.and_self]
  | object es => rw [expr, Expr.isExplicit, isExplicit_entries es]
  | function f parameters body => rw [expr, Expr.isExplicit, isExplicit_stmts body]

theorem isExplicit_exprs (es : List Expr) : areExplicit (spelling.exprs es) = true := by
  cases es with
  | nil => rfl
  | cons e es =>
      rw [exprs, areExplicit, isExplicit_expr e, isExplicit_exprs es, Bool.and_self]

theorem isExplicit_entries (es : List Entry) : entriesExplicit (spelling.entries es) = true := by
  cases es with
  | nil => rfl
  | cons e es =>
      rw [entries, entriesExplicit, isExplicit_entry e, isExplicit_entries es, Bool.and_self]

theorem isExplicit_entry (e : Entry) : (spelling.entry e).isExplicit = true := by
  cases e with
  | shorthand key => rfl
  | pair key value => rw [entry, Entry.isExplicit, isExplicit_expr value]

theorem isExplicit_stmts (ss : List Stmt) : stmtsExplicit (spelling.stmts ss) = true := by
  cases ss with
  | nil => rfl
  | cons s ss =>
      rw [stmts, stmtsExplicit, isExplicit_stmt s, isExplicit_stmts ss, Bool.and_self]

theorem isExplicit_stmt (s : Stmt) : (spelling.stmt s).isExplicit = true := by
  cases s with
  | declare constant n value =>
      cases value with
      | none => rfl
      | some value => rw [stmt, Stmt.isExplicit, isExplicit_expr value]
  | expr e => rw [stmt, Stmt.isExplicit, isExplicit_expr e]

end

/-- **No key stands alone any more.** -/
theorem isExplicit_program (p : Program) : (spelling.program p).isExplicit = true :=
  isExplicit_stmts p.body

mutual

theorem spelling_expr_eq {e : Expr} (h : e.isExplicit = true) : spelling.expr e = e := by
  cases e with
  | number x => rfl
  | name n => rfl
  | binary op left right =>
      obtain ⟨hleft, hright⟩ := Bool.and_eq_true_iff.1 h
      rw [expr, spelling_expr_eq hleft, spelling_expr_eq hright]
  | assign target value =>
      obtain ⟨htarget, hvalue⟩ := Bool.and_eq_true_iff.1 h
      rw [expr, spelling_expr_eq htarget, spelling_expr_eq hvalue]
  | call callee arguments =>
      obtain ⟨hcallee, harguments⟩ := Bool.and_eq_true_iff.1 h
      rw [expr, spelling_expr_eq hcallee, spelling_exprs_eq harguments]
  | dot object property =>
      obtain ⟨hobject, hproperty⟩ := Bool.and_eq_true_iff.1 h
      rw [expr, spelling_expr_eq hobject, spelling_expr_eq hproperty]
  | index object property =>
      obtain ⟨hobject, hproperty⟩ := Bool.and_eq_true_iff.1 h
      rw [expr, spelling_expr_eq hobject, spelling_expr_eq hproperty]
  | object es => rw [expr, spelling_entries_eq h]
  | function f parameters body =>
      have hnames : parameters.map spelling.name = parameters := List.map_id parameters
      rw [expr, spelling_stmts_eq h, hnames]
      rfl

theorem spelling_exprs_eq {es : List Expr} (h : areExplicit es = true) :
    spelling.exprs es = es := by
  cases es with
  | nil => rfl
  | cons e es =>
      obtain ⟨he, hes⟩ := Bool.and_eq_true_iff.1 h
      rw [exprs, spelling_expr_eq he, spelling_exprs_eq hes]

theorem spelling_entries_eq {es : List Entry} (h : entriesExplicit es = true) :
    spelling.entries es = es := by
  cases es with
  | nil => rfl
  | cons e es =>
      obtain ⟨he, hes⟩ := Bool.and_eq_true_iff.1 h
      cases e with
      | shorthand key => cases he
      | pair key value =>
          rw [entries, entry, spelling_expr_eq he, spelling_entries_eq hes]
          rfl

theorem spelling_stmts_eq {ss : List Stmt} (h : stmtsExplicit ss = true) :
    spelling.stmts ss = ss := by
  cases ss with
  | nil => rfl
  | cons s ss =>
      obtain ⟨hs, hss⟩ := Bool.and_eq_true_iff.1 h
      rw [stmts, spelling_stmt_eq hs, spelling_stmts_eq hss]

theorem spelling_stmt_eq {s : Stmt} (h : s.isExplicit = true) : spelling.stmt s = s := by
  cases s with
  | declare constant n value =>
      cases value with
      | none => rfl
      | some value =>
          rw [stmt, spelling_expr_eq h]
          rfl
  | expr e => rw [stmt, spelling_expr_eq h]

end

/-- **Nothing else is changed**: a program without keys alone stays as it is. -/
theorem spelling_program_eq {p : Program} (h : p.isExplicit = true) : spelling.program p = p := by
  rw [program, spelling_stmts_eq h]

/-! ### Texts -/

/-- A map has the same names in the same order. -/
theorem spelling_entries_table {α β : Type} (f : α → β) (t : Table α) :
    (spelling.table f t).entries = t.entries.map fun entry => (entry.1, f entry.2) := by
  have hincreasing : Increasing (t.entries.map (spelling.row f)) :=
    List.pairwise_map.2 t.increasing
  exact Table.entries_ofList hincreasing

theorem spelling_textWithin (s : Store) (depth : Nat) (v : Value) :
    (spelling.value v).textWithin (spelling.store s) depth = v.textWithin s depth := by
  induction depth generalizing v with
  | zero =>
      cases v with
      | function f => simp only [value, closure, Value.textWithin, spelling, id_eq, List.map_id_fun]
      | _ => rfl
  | succ depth ih =>
      cases v with
      | object i =>
          simp only [value, Value.textWithin, object_store, spelling_entries_table, List.map_map]
          congr 1
          exact List.map_congr_left fun entry _ => congrArg (Prod.mk entry.1) (ih entry.2)
      | function f => simp only [value, closure, Value.textWithin, spelling, id_eq, List.map_id_fun]
      | _ => rfl

/-- **Values keep their texts.** -/
theorem spelling_text (s : Store) (v : Value) :
    (spelling.value v).text (spelling.store s) = v.text s := by
  have hsize : (spelling.store s).objects.size = s.objects.size := Array.size_map
  rw [Value.text, hsize]
  exact spelling_textWithin s s.objects.size v

/-- Events stay as they are. -/
theorem spelling_event (e : Event) : spelling.event e = e := by
  cases e <;> rfl

/-- Errors keep their wording, and what they are about is called the same. -/
theorem spelling_message (e : EvalError) : (spelling.error e).message = e.message := by
  cases e with
  | targetNotName target => exact congrArg (_ ++ ·) (spelling.kindName_expr target)
  | propertyNotName property => exact congrArg (_ ++ ·) (spelling.kindName_expr property)
  | _ => rfl

/-! ### Runs -/

variable (r : Rewriting)

/-- How a run ends, rewritten. -/
def result : Except Fault Value → Except Fault Value
  | .ok v => .ok (r.value v)
  | .error (.error e) => .error (.error (r.error e))
  | .error .tooDeep => .error .tooDeep

theorem result_eq_tooDeep {ending : Except Fault Value} :
    r.result ending = .error .tooDeep ↔ ending = .error .tooDeep := by
  rcases ending with (e | _) | v <;> simp [result]

/-- What is called and is no function has its text when it is spelled out. -/
theorem Ends.eq_result {ending ending' : Except Fault Value}
    (h : spelling.Ends spelling.value ending ending') : ending' = spelling.result ending := by
  cases h with
  | ok v => rfl
  | error e => rfl
  | notAFunction s v =>
      rw [spelling_text]
      rfl
  | tooDeep => rfl

end Rewriting

open Rewriting in
/-- **A key alone is only notation.**  Run with all its keys spelled out, on a state whose functions
are spelled out as well, a program ends with the same value or with the same error, which is worded
in the same way, or both runs are too deep; and it leaves the same state behind, up to the spelling
of functions.  The events and all that is printed are the same altogether. -/
theorem shorthand_is_notation (p : Program) (depth scope : Nat) (machine : Machine) :
    let plain := (p.eval depth scope).run machine
    let spelled := ((spelling.program p).eval depth scope).run (spelling.machine machine)
    (spelling.program p).isExplicit = true ∧
      spelled.1 = spelling.result plain.1 ∧
      (spelled.1 = .error .tooDeep ↔ plain.1 = .error .tooDeep) ∧
      (∀ e : EvalError, (spelling.error e).message = e.message) ∧
      spelled.2.store = spelling.store plain.2.store ∧
      spelled.2.output = plain.2.output ∧
      spelled.2.events = plain.2.events ∧
      spelled.2.room = plain.2.room := by
  intro plain spelled
  obtain ⟨hends, htwin, houtput⟩ :=
    mirrors_program p depth scope machine (spelling.machine machine) (twin_machine machine)
  have hresult : spelled.1 = spelling.result plain.1 := hends.eq_result
  have hdeep : spelled.1 = .error .tooDeep ↔ plain.1 = .error .tooDeep := by
    rw [hresult, result_eq_tooDeep]
  have hkeeps : ∀ printing ∈ p.printings depth scope machine, spelling.Keeps printing :=
    fun printing _ v _ => spelling_text printing.state.store v
  have hevents : plain.2.events.map spelling.event = plain.2.events := by
    rw [funext spelling_event]
    exact Array.map_id' _
  exact ⟨isExplicit_program p, hresult, hdeep, spelling_message, htwin.store,
    houtput hkeeps rfl, htwin.events.trans hevents, htwin.room⟩

end Scriptlet
