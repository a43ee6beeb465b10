/-
**Running programs that are written in another way.**

A program that is rewritten, run on a store that is rewritten, does step by step what the program
does on the store.  The functions in the store were rewritten with it, so that a call goes on with
the same statements, rewritten; and where a name is looked up, declared or assigned to, the other
name means the same there.

What is put out may differ, since the texts of objects and functions show names.  It is the same if
what is printed has the same text when it is rewritten.

Main definitions:

* `Scriptlet.Rewriting.Ends` — something ends as something else does, rewritten;
* `Scriptlet.Rewriting.Twin` — a state that is another one, rewritten, but for the output;
* `Scriptlet.Rewriting.Keeps` — what is printed has the same text when it is rewritten;
* `Scriptlet.Rewriting.Mirrors` — **a computation does what another one does, rewritten**.

Main results:

* `Scriptlet.Rewriting.Mirrors.bind` — one computation after another;
* `Scriptlet.Rewriting.mirrors_expr`, `Scriptlet.Rewriting.mirrors_block`,
  `Scriptlet.Rewriting.mirrors_callWithin` — **evaluation**;
* `Scriptlet.Rewriting.mirrors_program` — a program.
-/

import Scriptlet.Proofs.Eval.Printings
import Scriptlet.Proofs.Eval.Rewriting

set_option relaxedAutoImplicit false
set_option autoImplicit false

namespace Scriptlet.Rewriting

variable {α β γ δ : Type} {r : Rewriting}

/-! ### Computations that do the same, rewritten -/

variable (r) in
/-- **Something ends as something else does, rewritten.**  What is called and is no function leaves
its text behind, which is that of the value, rewritten. -/
inductive Ends (f : α → β) : Except Fault α → Except Fault β → Prop
  | ok (a : α) : Ends f (.ok a) (.ok (f a))
  | error (e : EvalError) : Ends f (.error (.error e)) (.error (.error (r.error e)))
  | notAFunction (s : Store) (v : Value) :
      Ends f (.error (.error (.notAFunction (v.text s))))
        (.error (.error (.notAFunction ((r.value v).text (r.store s)))))
  | tooDeep : Ends f (.error .tooDeep) (.error .tooDeep)

variable (r) in
/-- The second state is the first one, rewritten, but for the output. -/
structure Twin (a b : Machine) : Prop where
  /-- The store is rewritten. -/
  store : b.store = r.store a.store
  /-- The events are rewritten. -/
  events : b.events = a.events.map r.event
  /-- The output takes as many more lines. -/
  room : b.room = a.room

variable (r) in
/-- What is printed has the same text when it is rewritten. -/
def Keeps (printing : Printing) : Prop :=
  ∀ v ∈ printing.arguments,
    (r.value v).text (r.store printing.state.store) = v.text printing.state.store

variable (r) in
/-- **The second computation does what the first one does, rewritten**; and it puts out the same, if
all that is printed keeps its text. -/
def Mirrors (f : α → β) (m : Eval α) (printings : Printings) (m' : Eval β) : Prop :=
  ∀ a b : Machine, r.Twin a b →
    r.Ends f (m.run a).1 (m'.run b).1 ∧ r.Twin (m.run a).2 (m'.run b).2 ∧
      ((∀ printing ∈ printings a, r.Keeps printing) → b.output = a.output →
        (m'.run b).2.output = (m.run a).2.output)

/-- Computations that put nothing out. -/
theorem Mirrors.of_run {f : α → β} {m : Eval α} {m' : Eval β}
    (h : ∀ a b : Machine, r.Twin a b → r.Ends f (m.run a).1 (m'.run b).1 ∧
      r.Twin (m.run a).2 (m'.run b).2 ∧ (m.run a).2.output = a.output ∧
        (m'.run b).2.output = b.output) : r.Mirrors f m .nothing m' := by
  intro a b htwin
  obtain ⟨hends, hstate, houtput, houtput'⟩ := h a b htwin
  refine ⟨hends, hstate, fun _ hsame => ?_⟩
  rw [houtput, houtput', hsame]

/-- **One computation after another.** -/
theorem Mirrors.bind {f : α → β} {g : γ → δ} {m : Eval α} {m' : Eval β} {k : α → Eval γ}
    {k' : β → Eval δ} {front : Printings} {back : α → Printings} (hm : r.Mirrors f m front m')
    (hk : ∀ a, r.Mirrors g (k a) (back a) (k' (f a))) :
    r.Mirrors g (m >>= k) (front.andThen m back) (m' >>= k') := by
  intro a b htwin
  obtain ⟨hends, hstate, houtput⟩ := hm a b htwin
  rw [Eval.run_bind, Eval.run_bind]
  unfold Printings.andThen
  rcases hrun : m.run a with ⟨result, a'⟩
  rcases hrun' : m'.run b with ⟨result', b'⟩
  rw [hrun, hrun'] at hends hstate houtput
  cases hends with
  | ok v =>
      obtain ⟨hends, hlast, hbehind⟩ := hk v a' b' hstate
      refine ⟨hends, hlast, fun hkeeps hsame => ?_⟩
      have hfront := houtput (fun p hp => hkeeps p (List.mem_append_left _ hp)) hsame
      exact hbehind (fun p hp => hkeeps p (List.mem_append_right _ hp)) hfront
  | error e =>
      refine ⟨.error e, hstate, fun hkeeps hsame => houtput (fun p hp => ?_) hsame⟩
      exact hkeeps p (List.mem_append_left _ hp)
  | notAFunction s v =>
      refine ⟨.notAFunction s v, hstate, fun hkeeps hsame => houtput (fun p hp => ?_) hsame⟩
      exact hkeeps p (List.mem_append_left _ hp)
  | tooDeep =>
      refine ⟨.tooDeep, hstate, fun hkeeps hsame => houtput (fun p hp => ?_) hsame⟩
      exact hkeeps p (List.mem_append_left _ hp)

/-- Nothing is printed after the first computation. -/
theorem Mirrors.bind_silent {f : α → β} {g : γ → δ} {m : Eval α} {m' : Eval β} {k : α → Eval γ}
    {k' : β → Eval δ} {front : Printings} (hm : r.Mirrors f m front m')
    (hk : ∀ a, r.Mirrors g (k a) .nothing (k' (f a))) :
    r.Mirrors g (m >>= k) front (m' >>= k') := by
  have hnone : front.andThen m (fun _ => .nothing) = front := by
    funext machine
    unfold Printings.andThen Printings.nothing
    rcases m.run machine with ⟨_ | _, _⟩ <;> exact List.append_nil _
  exact hnone ▸ hm.bind hk

/-! ### Single steps -/

theorem mirrors_pure (f : α → β) (a : α) : r.Mirrors f (pure a) .nothing (pure (f a)) :=
  .of_run fun _ _ htwin => ⟨.ok a, htwin, rfl, rfl⟩

theorem mirrors_fail (f : α → β) (e : EvalError) :
    r.Mirrors f (Eval.fail e) .nothing (Eval.fail (r.error e)) :=
  .of_run fun _ _ htwin => ⟨.error e, htwin, rfl, rfl⟩

theorem mirrors_tooDeep (f : α → β) :
    r.Mirrors f (throw .tooDeep) .nothing (throw .tooDeep) :=
  .of_run fun _ _ htwin => ⟨.tooDeep, htwin, rfl, rfl⟩

/-- Questions that have the same answers, rewritten. -/
theorem mirrors_ask {f : α → β} {question : Store → Except EvalError α}
    {question' : Store → Except EvalError β}
    (h : ∀ s, question' (r.store s) = r.outcome f (question s)) :
    r.Mirrors f (Eval.ask question) .nothing (Eval.ask question') := by
  refine .of_run fun a b htwin => ?_
  rw [Eval.run_ask, Eval.run_ask, htwin.store, h]
  cases question a.store with
  | ok answer => exact ⟨.ok answer, htwin, rfl, rfl⟩
  | error e => exact ⟨.error e, htwin, rfl, rfl⟩

/-- Changes that make the same of a store, rewritten. -/
theorem mirrors_change {step step' : Store → Except EvalError Store}
    (h : ∀ s, step' (r.store s) = r.outcome r.store (step s)) :
    r.Mirrors id (Eval.change step) .nothing (Eval.change step') := by
  refine .of_run fun a b htwin => ?_
  rw [Eval.run_change, Eval.run_change, htwin.store, h]
  cases step a.store with
  | ok s => exact ⟨.ok (), ⟨rfl, htwin.events, htwin.room⟩, rfl, rfl⟩
  | error e => exact ⟨.error e, htwin, rfl, rfl⟩

/-- What is created in a store is created, rewritten, in the other one. -/
theorem mirrors_create {f : α → β} {step : Store → α × Store} {step' : Store → β × Store}
    (h : ∀ s, step' (r.store s) = (f (step s).1, r.store (step s).2)) :
    r.Mirrors f (Eval.create step) .nothing (Eval.create step') := by
  refine .of_run fun a b htwin => ?_
  rw [Eval.run_create, Eval.run_create, htwin.store, h]
  exact ⟨.ok _, ⟨rfl, htwin.events, htwin.room⟩, rfl, rfl⟩

theorem mirrors_log (event : Event) :
    r.Mirrors id (Eval.log event) .nothing (Eval.log (r.event event)) := by
  refine .of_run fun a b htwin => ?_
  rw [Eval.run_log, Eval.run_log]
  refine ⟨.ok (), ⟨htwin.store, ?_, htwin.room⟩, rfl, rfl⟩
  rw [htwin.events, Array.map_push]

theorem mirrors_lookUp (s : Nat) (n : String) :
    r.Mirrors r.value (Eval.lookUp s n) .nothing (Eval.lookUp s (r.name n)) :=
  mirrors_ask fun store => r.lookUp_store store s n

theorem mirrors_declare (s : Nat) (n : String) (v : Value) (constant : Bool) :
    r.Mirrors r.value (Eval.declare s n v constant) .nothing
      (Eval.declare s (r.name n) (r.value v) constant) :=
  (mirrors_change fun store => r.declare_store store s n v constant).bind_silent fun _ =>
    mirrors_pure r.value v

theorem mirrors_assign (s : Nat) (n : String) (v : Value) :
    r.Mirrors r.value (Eval.assign s n v) .nothing (Eval.assign s (r.name n) (r.value v)) :=
  (mirrors_ask fun store => r.resolve_store store s n).bind_silent fun owner =>
    (mirrors_change fun store => r.assign_store store owner n v).bind_silent fun _ =>
      mirrors_pure r.value v

theorem mirrors_enter (s : Nat) : r.Mirrors id (Eval.enter s) .nothing (Eval.enter s) :=
  mirrors_create fun store => r.newScope_store store (some s)

theorem mirrors_allocate (properties : List (String × Value)) :
    r.Mirrors r.value (Eval.allocate (Table.ofList properties)) .nothing
      (Eval.allocate (Table.ofList (properties.map (r.row r.value)))) := by
  refine mirrors_create fun store => ?_
  rw [← r.table_ofList r.value, newObject_store]
  rfl

theorem mirrors_targetName (target : Expr) :
    r.Mirrors r.name (targetName target) .nothing (targetName (r.expr target)) := by
  unfold targetName
  rw [name?_expr]
  cases target.name? with
  | none => exact mirrors_fail r.name (.targetNotName target)
  | some n => exact mirrors_pure r.name n

theorem mirrors_propertyName (property : Expr) :
    r.Mirrors r.name (propertyName property) .nothing (propertyName (r.expr property)) := by
  unfold propertyName
  rw [name?_expr]
  cases property.name? with
  | none => exact mirrors_fail r.name (.propertyNotName property)
  | some n => exact mirrors_pure r.name n

/-- A number names the same property. -/
theorem mirrors_keyText (v : Value) :
    r.Mirrors r.name (keyText v) .nothing (keyText (r.value v)) := by
  cases v with
  | number x =>
      have hpure := mirrors_pure (r := r) r.name (Number.text x)
      rw [r.name_text] at hpure
      exact hpure
  | _ => exact mirrors_fail r.name (.keyNotNumber _)

theorem mirrors_propertyOf (v : Value) (key : String) :
    r.Mirrors r.value (propertyOf v key) .nothing (propertyOf (r.value v) (r.name key)) := by
  cases v with
  | object i =>
      refine .of_run fun a b htwin => ?_
      have hfound : ((b.store.object i).find? (r.name key)).getD .null
          = r.value (((a.store.object i).find? key).getD .null) := by
        rw [htwin.store, object_store, find?_table]
        cases (a.store.object i).find? key <;> rfl
      refine ⟨?_, htwin, rfl, rfl⟩
      change r.Ends r.value (.ok _) (.ok (((b.store.object i).find? (r.name key)).getD .null))
      rw [hfound]
      exact .ok _
  | _ => exact mirrors_fail r.value (.notAnObject key _)

/-- A value that is no function leaves its text behind when it is called. -/
theorem mirrors_notAFunction (v : Value) :
    r.Mirrors r.value (do Eval.fail (.notAFunction (← Eval.textOf v))) .nothing
      (do Eval.fail (.notAFunction (← Eval.textOf (r.value v)))) := by
  refine .of_run fun a b htwin => ⟨?_, htwin, rfl, rfl⟩
  change r.Ends r.value (.error (.error (.notAFunction (v.text a.store))))
    (.error (.error (.notAFunction ((r.value v).text b.store))))
  rw [htwin.store]
  exact .notAFunction a.store v

/-- **Printing** puts out the same line, if all values keep their texts. -/
theorem mirrors_print (vs : List Value) (s : Nat) :
    r.Mirrors r.value (Action.print.perform vs s) (Action.print.printings vs)
      (Action.print.perform (vs.map r.value) s) := by
  intro a b htwin
  rw [Eval.run_print, Eval.run_print, htwin.room]
  split
  · exact ⟨.error .sinkClosed, htwin, fun _ hsame => hsame⟩
  · refine ⟨.ok Value.null, ⟨htwin.store, htwin.events, rfl⟩, fun hkeeps hsame => ?_⟩
    have htexts : (vs.map r.value).map (fun v => v.text b.store)
        = vs.map fun v => v.text a.store := by
      rw [List.map_map, htwin.store]
      exact List.map_congr_left (hkeeps ⟨a, vs⟩ List.mem_cons_self)
    dsimp only
    rw [hsame, Eval.printedLine, Eval.printedLine, htexts]

theorem mirrors_perform (action : Action) (vs : List Value) (s : Nat) :
    r.Mirrors r.value (action.perform vs s) (action.printings vs)
      ((r.action action).perform (vs.map r.value) s) := by
  cases action with
  | print => exact mirrors_print vs s
  | count =>
      change r.Mirrors r.value (pure _) .nothing (pure (.number (Float.ofNat _)))
      rw [List.length_map]
      exact mirrors_pure r.value _
  | last =>
      change r.Mirrors r.value (pure _) .nothing (pure ((vs.map r.value).getLast?.getD .null))
      have hlast : (vs.map r.value).getLast?.getD .null = r.value (vs.getLast?.getD .null) := by
        rw [List.getLast?_map]
        cases vs.getLast? <;> rfl
      rw [hlast]
      exact mirrors_pure r.value _
  | lookUp n => exact mirrors_lookUp s n
  | declare n =>
      change r.Mirrors r.value _ .nothing
        (Eval.declare s (r.name n) ((vs.map r.value).head?.getD .null) true)
      have hhead : (vs.map r.value).head?.getD .null = r.value (vs.head?.getD .null) := by
        cases vs <;> rfl
      rw [hhead]
      exact mirrors_declare s n _ true

theorem mirrors_bindParameters (s : Nat) (parameters : List String) (vs : List Value) :
    r.Mirrors id (bindParameters s parameters vs) .nothing
      (bindParameters s (parameters.map r.name) (vs.map r.value)) := by
  induction parameters generalizing vs with
  | nil => exact mirrors_pure id ()
  | cons parameter parameters ih =>
      have hhead : (vs.map r.value).head?.getD .null = r.value (vs.head?.getD .null) := by
        cases vs <;> rfl
      rw [List.map_cons, bindParameters, bindParameters, hhead, ← List.map_tail]
      exact (mirrors_declare s parameter _ false).bind_silent fun _ => ih vs.tail

/-! ### Evaluation -/

variable (r) in
/-- Calls of a function and of the function, rewritten, do the same, rewritten. -/
def CallsMirror (calls : Calls) (inCalls : Closure → List Value → Printings) (calls' : Calls) :
    Prop :=
  ∀ f vs, r.Mirrors r.value (calls f vs) (inCalls f vs) (calls' (r.closure f) (vs.map r.value))

section Trees

variable {calls calls' : Calls} {inCalls : Closure → List Value → Printings}

theorem mirrors_callValue (hcalls : r.CallsMirror calls inCalls calls') (s : Nat) (v : Value)
    (vs : List Value) :
    r.Mirrors r.value (callValue calls s v vs) (valuePrintings inCalls v vs)
      (callValue calls' s (r.value v) (vs.map r.value)) := by
  cases v with
  | native f =>
      have hlog := mirrors_log (r := r) (.callingNative f.name vs.length)
      unfold callValue valuePrintings
      dsimp only [value, native]
      rw [List.length_map]
      exact hlog.bind fun _ => mirrors_perform f.action vs s
  | function f => exact hcalls f vs
  | null => exact mirrors_notAFunction .null
  | number x => exact mirrors_notAFunction (.number x)
  | boolean b => exact mirrors_notAFunction (.boolean b)
  | object i => exact mirrors_notAFunction (.object i)

mutual

/-- **The evaluation of an expression that is rewritten.** -/
theorem mirrors_expr (hcalls : r.CallsMirror calls inCalls calls') (s : Nat) (e : Expr) :
    r.Mirrors r.value (e.eval calls s) (e.printings calls inCalls s)
      ((r.expr e).eval calls' s) := by
  cases e with
  | number x => exact mirrors_pure r.value (.number x)
  | name n => exact mirrors_lookUp s n
  | binary op left right =>
      refine (mirrors_expr hcalls s left).bind fun v =>
        (mirrors_expr hcalls s right).bind_silent fun w => ?_
      rw [← value_combine]
      exact mirrors_pure r.value _
  | assign target value =>
      exact (mirrors_targetName target).bind fun n =>
        (mirrors_expr hcalls s value).bind_silent fun v => mirrors_assign s n v
  | call callee arguments =>
      exact (mirrors_expr hcalls s callee).bind fun f =>
        (mirrors_arguments hcalls s arguments).bind fun vs => mirrors_callValue hcalls s f vs
  | dot object property =>
      exact (mirrors_expr hcalls s object).bind_silent fun v =>
        (mirrors_propertyName property).bind_silent fun key => mirrors_propertyOf v key
  | index object property =>
      exact (mirrors_expr hcalls s object).bind fun v =>
        (mirrors_expr hcalls s property).bind_silent fun k =>
          (mirrors_keyText k).bind_silent fun key => mirrors_propertyOf v key
  | object es =>
      exact (mirrors_entries hcalls s es).bind_silent fun properties =>
        mirrors_allocate properties
  | function f parameters body =>
      exact mirrors_declare s f (.function ⟨f, parameters, body, s⟩) true

theorem mirrors_arguments (hcalls : r.CallsMirror calls inCalls calls') (s : Nat)
    (es : List Expr) : r.Mirrors (List.map r.value) (evalArguments calls s es)
      (argumentPrintings calls inCalls s es) (evalArguments calls' s (r.exprs es)) := by
  cases es with
  | nil => exact mirrors_pure (List.map r.value) []
  | cons e es =>
      exact (mirrors_expr hcalls s e).bind fun v =>
        (mirrors_arguments hcalls s es).bind_silent fun vs =>
          mirrors_pure (List.map r.value) (v :: vs)

/-- A key alone may be written with its variable: that is what is looked up for it anyway. -/
theorem mirrors_entries (hcalls : r.CallsMirror calls inCalls calls') (s : Nat)
    (es : List Entry) : r.Mirrors (List.map (r.row r.value)) (evalEntries calls s es)
      (entryPrintings calls inCalls s es) (evalEntries calls' s (r.entries es)) := by
  cases es with
  | nil => exact mirrors_pure (List.map (r.row r.value)) []
  | cons e es =>
      cases e with
      | shorthand key =>
          have hrest : r.Mirrors (List.map (r.row r.value))
              (evalEntries calls s (.shorthand key :: es))
              (entryPrintings calls inCalls s (.shorthand key :: es))
              (do
                let v ← Eval.lookUp s (r.name key)
                let vs ← evalEntries calls' s (r.entries es)
                return (r.name key, v) :: vs) :=
            (mirrors_lookUp s key).bind fun v =>
              (mirrors_entries hcalls s es).bind_silent fun vs =>
                mirrors_pure (List.map (r.row r.value)) ((key, v) :: vs)
          rw [entries, entry, shorthand]
          split
          · exact hrest
          · exact hrest
      | pair key value =>
          exact (mirrors_expr hcalls s value).bind fun v =>
            (mirrors_entries hcalls s es).bind_silent fun vs =>
              mirrors_pure (List.map (r.row r.value)) ((key, v) :: vs)

end

theorem mirrors_stmt (hcalls : r.CallsMirror calls inCalls calls') (s : Nat) (statement : Stmt) :
    r.Mirrors r.value (statement.eval calls s) (statement.printings calls inCalls s)
      ((r.stmt statement).eval calls' s) := by
  cases statement with
  | declare constant n value =>
      cases value with
      | none => exact mirrors_declare s n .null constant
      | some value =>
          exact (mirrors_expr hcalls s value).bind_silent fun v => mirrors_declare s n v constant
  | expr e => exact mirrors_expr hcalls s e

/-- **The evaluation of statements that are rewritten.** -/
theorem mirrors_block (hcalls : r.CallsMirror calls inCalls calls') (s : Nat) (last : Value)
    (statements : List Stmt) :
    r.Mirrors r.value (evalBlock calls s last statements)
      (blockPrintings calls inCalls s statements)
      (evalBlock calls' s (r.value last) (r.stmts statements)) := by
  induction statements generalizing last with
  | nil => exact mirrors_pure r.value last
  | cons statement statements ih =>
      exact (mirrors_stmt hcalls s statement).bind fun v => ih v

end Trees

/-- **Calls of functions that are rewritten**, by induction on how deeply they may be nested. -/
theorem mirrors_callWithin (depth : Nat) :
    r.CallsMirror (callWithin depth) (callPrintings depth) (callWithin depth) := by
  induction depth with
  | zero => exact fun _ _ => mirrors_tooDeep r.value
  | succ depth ih =>
      intro f vs
      change r.Mirrors r.value _ _ (do
        Eval.log (.calling (r.name f.name) (vs.map r.value).length)
        let s ← Eval.enter f.scope
        bindParameters s (f.parameters.map r.name) (vs.map r.value)
        evalBlock (callWithin depth) s .null (r.stmts f.body))
      rw [List.length_map]
      exact (mirrors_log (.calling f.name vs.length)).bind fun _ =>
        (mirrors_enter f.scope).bind fun s =>
          (mirrors_bindParameters s f.parameters vs).bind fun _ => mirrors_block ih s .null f.body

/-- **A program that is rewritten**, in a state that is rewritten. -/
theorem mirrors_program (p : Program) (depth s : Nat) :
    r.Mirrors r.value (p.eval depth s) (p.printings depth s) ((r.program p).eval depth s) :=
  mirrors_block (mirrors_callWithin depth) s .null p.body

/-- A state, rewritten, but for its output. -/
theorem twin_machine (m : Machine) : r.Twin m (r.machine m) := ⟨rfl, rfl, rfl⟩

end Scriptlet.Rewriting
