/-
**A run keeps to what it came from.**

The single steps of a run keep the store sound, as `Scriptlet.Proofs.Eval.Provenance` shows.  Here
that is carried through the syntax tree and through calls, to whole programs and to sequences of
them: at every moment everything comes from the programs, and every piece of a program is evaluated
in a scope where it belongs.

Main definitions:

* `Scriptlet.Origin.CallsTraced` — calls of functions that keep stores sound.

Main results:

* `Scriptlet.Origin.traces_expr`, `Scriptlet.Origin.traces_block` — evaluation keeps stores sound,
  one case for each kind of expression;
* `Scriptlet.Origin.traces_callWithin` — calls do, however deeply they are nested;
* `Scriptlet.Origin.account_session` — **everything comes from the programs**, at every moment of
  any sequence of them.
-/

import Scriptlet.Proofs.Eval.Provenance

set_option relaxedAutoImplicit false
set_option autoImplicit false

namespace Scriptlet

namespace Origin

variable {o : Origin}

/-! ### Parts of an evaluation -/

section Parts

variable {w : World}

theorem known_null : o.Known w .null := trivial

theorem known_head {vs : List Value} (h : ∀ v ∈ vs, o.Known w v) :
    o.Known w (vs.head?.getD .null) := by
  cases vs with
  | nil => trivial
  | cons v vs => exact h v List.mem_cons_self

theorem known_getLast {vs : List Value} (h : ∀ v ∈ vs, o.Known w v) :
    o.Known w (vs.getLast?.getD .null) := by
  cases hlast : vs.getLast? with
  | none => trivial
  | some v => exact h v (List.mem_of_getLast? hlast)

theorem known_combine (op : Operator) (a b : Value) : o.Known w (a.combine op b) := by
  cases a <;> cases b <;> trivial

theorem traces_perform {action : Action} {vs : List Value} (scope : Nat)
    (haction : ∀ n, action = .declare n → o.Named n) (hvs : ∀ v ∈ vs, o.Known w v) :
    o.Traces w (action.perform vs scope) (action.trail vs scope) o.Known := by
  cases action with
  | print =>
      refine .silent (fun machine => ?_) (fun w' machine v _ _ _ hv => ?_) fun machine e he => ?_
      · rw [Eval.run_print]
        split <;> rfl
      · rw [Eval.run_print] at hv
        split at hv <;> cases hv
        trivial
      · rw [Eval.run_print] at he
        split at he <;> cases he
  | count => exact traces_pure fun _ _ => trivial
  | last => exact traces_pure fun _ hw => (known_getLast hvs).mono hw
  | lookUp n => exact traces_lookUp scope n
  | declare n => exact traces_declare true (haction n rfl) (known_head hvs)

theorem traces_targetName (target : Expr) :
    o.Traces w (targetName target) .nothing fun _ _ => True := by
  unfold targetName
  split
  · exact traces_pure fun _ _ => trivial
  · exact traces_fail fun e he => by cases he

/-- What stands after a point in the text is to blame if it is not a name. -/
theorem traces_propertyName {within : Option Closure} {a property : Expr}
    (h : o.Written w within (.expr (.dot a property))) :
    o.Traces w (propertyName property) .nothing fun _ _ => True := by
  unfold propertyName
  split
  · exact traces_pure fun _ _ => trivial
  · next hname =>
    obtain ⟨d, -, hoccurs⟩ := h
    refine traces_fail fun e he => ?_
    cases he
    exact ⟨hname, d, a, hoccurs⟩

theorem traces_keyText (key : Value) : o.Traces w (keyText key) .nothing fun _ _ => True := by
  cases key with
  | number x => exact traces_pure fun _ _ => trivial
  | _ => exact traces_fail fun e he => by cases he

/-- A property of an object is known. -/
theorem traces_propertyOf (value : Value) (key : String) :
    o.Traces w (propertyOf value key) .nothing o.Known := by
  cases value with
  | object i =>
      refine .silent (fun _ => rfl) (fun w' machine v _ hsound hstore hv => ?_)
        fun _ _ he => by cases he
      cases hv
      rw [hstore]
      cases hfind : (w'.store.object i).find? key with
      | none => trivial
      | some v => exact (hsound.held hfind).2
  | _ => exact traces_fail fun e he => by cases he

end Parts

/-! ### Evaluation -/

/-- Calls of functions that come from the programs keep stores sound. -/
def CallsTraced (o : Origin) (calls : Calls) (inCalls : Closure → List Value → Trail) : Prop :=
  ∀ (w : World) (f : Closure) (vs : List Value), o.Declared w f → (∀ v ∈ vs, o.Known w v) →
    o.Traces w (calls f vs) (inCalls f vs) o.Known

section Trees

variable {calls : Calls} {inCalls : Closure → List Value → Trail} {within : Option Closure}
  {scope : Nat}

theorem traces_callValue (hcalls : o.CallsTraced calls inCalls) {w : World} (scope : Nat)
    {callee : Value} {vs : List Value} (hcallee : o.Known w callee) (hvs : ∀ v ∈ vs, o.Known w v) :
    o.Traces w (callValue calls scope callee vs) (valueTrail inCalls scope callee vs) o.Known := by
  have hfails : o.Traces w (do Eval.fail (.notAFunction (← Eval.textOf callee))) .nothing o.Known :=
    .silent (fun _ => rfl) (fun _ _ _ _ _ _ hv => by cases hv) fun _ _ he => by cases he
  cases callee with
  | native f =>
      exact (traces_log _).bind fun w' _ hw _ =>
        traces_perform scope hcallee fun v hv => (hvs v hv).mono hw
  | function f => exact hcalls w f vs hcallee hvs
  | _ => exact hfails

mutual

/-- **The evaluation of an expression keeps stores sound**, in a scope where it belongs. -/
theorem traces_expr (hcalls : o.CallsTraced calls inCalls) {w : World}
    (hseated : o.Seated w within scope) (e : Expr) (he : o.Written w within (.expr e)) :
    o.Traces w (e.eval calls scope) (e.trail calls inCalls within scope) o.Known := by
  cases e with
  | number x => exact (traces_pure fun _ _ => trivial).first ⟨hseated, he⟩
  | name n => exact (traces_lookUp scope n).first ⟨hseated, he⟩
  | binary op left right =>
      refine Traces.first ?_ ⟨hseated, he⟩
      exact (traces_expr hcalls hseated left (he.part (.left ..))).bind fun w₁ a hw₁ _ =>
        (traces_expr hcalls (hseated.mono hw₁) right ((he.part (.right ..)).mono hw₁)).bind_nothing
          fun _ b _ _ => traces_pure fun _ _ => known_combine op a b
  | assign target value =>
      refine Traces.first ?_ ⟨hseated, he⟩
      exact (traces_targetName target).bind fun w₁ n hw₁ _ =>
        (traces_expr hcalls (hseated.mono hw₁) value ((he.part (.assigned ..)).mono hw₁)).bind
          fun _ v _ hv => traces_assign hv
  | call callee arguments =>
      refine Traces.first ?_ ⟨hseated, he⟩
      exact (traces_expr hcalls hseated callee (he.part (.callee ..))).bind fun w₁ f hw₁ hf =>
        (traces_arguments hcalls (hseated.mono hw₁) arguments fun e hmem =>
          (he.part (.argument hmem)).mono hw₁).bind fun w₂ vs hw₂ hvs =>
            traces_callValue hcalls scope (hf.mono hw₂) hvs
  | dot object property =>
      refine Traces.first ?_ ⟨hseated, he⟩
      exact (traces_expr hcalls hseated object (he.part (.object ..))).bind_nothing
        fun w₁ v hw₁ _ => (traces_propertyName (he.mono hw₁)).bind_nothing
          fun _ key _ _ => traces_propertyOf v key
  | index object property =>
      refine Traces.first ?_ ⟨hseated, he⟩
      have hproperty := he.part (.index ..)
      exact (traces_expr hcalls hseated object (he.part (.indexed ..))).bind fun w₁ v hw₁ _ =>
        (traces_expr hcalls (hseated.mono hw₁) property (hproperty.mono hw₁)).bind_nothing
          fun _ k _ _ => (traces_keyText k).bind_nothing fun _ key _ _ => traces_propertyOf v key
  | object entries =>
      refine Traces.first ?_ ⟨hseated, he⟩
      have hkeys : ∀ entry ∈ entries, o.Named entry.key := fun entry hentry =>
        he.named (List.mem_map_of_mem hentry)
      exact (traces_entries hcalls hseated entries hkeys fun key e hmem =>
        he.part (.held hmem)).bind fun _ _ _ hproperties => traces_allocate hproperties
  | function f parameters body =>
      exact Traces.first (traces_declare_function ⟨f, parameters, body, scope⟩ hseated he)
        ⟨hseated, he⟩

theorem traces_arguments (hcalls : o.CallsTraced calls inCalls) {w : World}
    (hseated : o.Seated w within scope) (es : List Expr)
    (hes : ∀ e ∈ es, o.Written w within (.expr e)) :
    o.Traces w (evalArguments calls scope es) (argumentTrail calls inCalls within scope es)
      fun w' vs => ∀ v ∈ vs, o.Known w' v := by
  cases es with
  | nil => exact traces_pure fun _ _ _ hv => by cases hv
  | cons e es =>
      exact (traces_expr hcalls hseated e (hes e List.mem_cons_self)).bind fun w₁ v hw₁ hv =>
        (traces_arguments hcalls (hseated.mono hw₁) es fun e' hmem =>
          (hes e' (List.mem_cons_of_mem _ hmem)).mono hw₁).bind_nothing fun w₂ vs hw₂ hvs =>
            traces_pure fun w₃ hw₃ => List.forall_mem_cons.2
              ⟨hv.mono (le_trans hw₂ hw₃), fun v' hv' => (hvs v' hv').mono hw₃⟩

theorem traces_entries (hcalls : o.CallsTraced calls inCalls) {w : World}
    (hseated : o.Seated w within scope) (entries : List Entry)
    (hkeys : ∀ entry ∈ entries, o.Named entry.key)
    (hes : ∀ key e, Entry.pair key e ∈ entries → o.Written w within (.expr e)) :
    o.Traces w (evalEntries calls scope entries) (entryTrail calls inCalls within scope entries)
      fun w' ps => ∀ p ∈ ps, o.Named p.1 ∧ o.Known w' p.2 := by
  cases entries with
  | nil => exact traces_pure fun _ _ _ hp => by cases hp
  | cons entry entries =>
      obtain ⟨hkey, hkeys'⟩ := List.forall_mem_cons.1 hkeys
      cases entry with
      | shorthand key =>
          exact (traces_lookUp scope key).bind fun w₁ v hw₁ hv =>
            (traces_entries hcalls (hseated.mono hw₁) entries hkeys' fun key' e hmem =>
              (hes key' e (List.mem_cons_of_mem _ hmem)).mono hw₁).bind_nothing
                fun w₂ ps hw₂ hps => traces_pure fun w₃ hw₃ => List.forall_mem_cons.2
                  ⟨⟨hkey, hv.mono (le_trans hw₂ hw₃)⟩,
                    fun p hp => (hps p hp).imp_right (·.mono hw₃)⟩
      | pair key value =>
          exact (traces_expr hcalls hseated value (hes key value List.mem_cons_self)).bind
            fun w₁ v hw₁ hv =>
              (traces_entries hcalls (hseated.mono hw₁) entries hkeys' fun key' e hmem =>
                (hes key' e (List.mem_cons_of_mem _ hmem)).mono hw₁).bind_nothing
                  fun w₂ ps hw₂ hps => traces_pure fun w₃ hw₃ => List.forall_mem_cons.2
                    ⟨⟨hkey, hv.mono (le_trans hw₂ hw₃)⟩,
                      fun p hp => (hps p hp).imp_right (·.mono hw₃)⟩

end

theorem traces_stmt (hcalls : o.CallsTraced calls inCalls) {w : World}
    (hseated : o.Seated w within scope) {statement : Stmt}
    (hs : o.Written w within (.stmt statement)) :
    o.Traces w (statement.eval calls scope) (statement.trail calls inCalls within scope)
      o.Known := by
  cases statement with
  | declare constant n value =>
      have hname : o.Named n := hs.named List.mem_cons_self
      cases value with
      | none => exact (traces_declare constant hname known_null).first ⟨hseated, hs⟩
      | some value =>
          refine Traces.first ?_ ⟨hseated, hs⟩
          exact (traces_expr hcalls hseated value (hs.part (.initial ..))).bind fun _ v _ hv =>
            traces_declare constant hname hv
  | expr e =>
      exact (traces_expr hcalls hseated e (hs.part (.expression e))).first ⟨hseated, hs⟩

/-- **The evaluation of statements keeps stores sound**, in a scope where they belong. -/
theorem traces_block (hcalls : o.CallsTraced calls inCalls) {w : World}
    (hseated : o.Seated w within scope) {last : Value} (hlast : o.Known w last)
    {statements : List Stmt} (hs : ∀ s ∈ statements, o.Written w within (.stmt s)) :
    o.Traces w (evalBlock calls scope last statements)
      (blockTrail calls inCalls within scope statements) o.Known := by
  induction statements generalizing w last with
  | nil => exact traces_pure fun _ hw => hlast.mono hw
  | cons statement statements ih =>
      exact (traces_stmt hcalls hseated (hs _ List.mem_cons_self)).bind fun w₁ v hw₁ hv =>
        ih (hseated.mono hw₁) hv fun s hmem => (hs s (List.mem_cons_of_mem _ hmem)).mono hw₁

end Trees

theorem traces_bindParameters (scope : Nat) {parameters : List String} {w : World}
    {vs : List Value} (hnames : ∀ n ∈ parameters, o.Named n) (hvs : ∀ v ∈ vs, o.Known w v) :
    o.Traces w (bindParameters scope parameters vs) (parameterTrail scope parameters vs)
      fun _ _ => True := by
  induction parameters generalizing w vs with
  | nil => exact traces_pure fun _ _ => trivial
  | cons parameter parameters ih =>
      obtain ⟨hname, hnames⟩ := List.forall_mem_cons.1 hnames
      exact (traces_declare false hname (known_head hvs)).bind fun w₁ _ hw₁ _ =>
        ih hnames fun v hv => (hvs v (List.mem_of_mem_tail hv)).mono hw₁

/-- **Calls keep stores sound**, by induction on how deeply they may be nested: the body of a
function belongs in any scope that is created inside the one of the function. -/
theorem traces_callWithin (o : Origin) (depth : Nat) :
    o.CallsTraced (callWithin depth) (callTrail depth) := by
  induction depth with
  | zero =>
      exact fun w f vs _ _ => .silent (fun _ => rfl) (fun _ _ _ _ _ _ hv => by cases hv)
        fun _ _ he => by cases he
  | succ depth ih =>
      intro w f vs hf hvs
      exact (traces_log _).bind fun w₁ _ hw₁ _ =>
        (traces_enter (hf.mono hw₁).2).bind fun w₂ scope hw₂ hseated =>
          (traces_bindParameters scope (fun n hn => hf.named (List.mem_cons_of_mem _ hn))
            fun v hv => (hvs v hv).mono (le_trans hw₁ hw₂)).bind fun w₃ _ hw₃ _ =>
              traces_block ih (hseated.mono hw₃) known_null fun s hs =>
                (hf.written hs).mono (le_trans hw₁ (le_trans hw₂ hw₃))

/-- A program keeps stores sound, in the scope that programs are run in. -/
theorem traces_program {w : World} {p : Program} (hp : p ∈ o.programs) (depth : Nat)
    (hroot : o.root < w.store.scopes.size) :
    o.Traces w (p.eval depth o.root) (p.trail depth o.root) o.Known :=
  traces_block (traces_callWithin o depth) ⟨hroot, rfl⟩ known_null fun _ hs =>
    ⟨0, .outermost, .top hp hs⟩

/-- **Everything comes from the programs**, at every moment of any sequence of them: the trail
accounts for what they do, from one sound store to another. -/
theorem account_session {runs : List (Nat × Program)} (hruns : ∀ run ∈ runs, run.2 ∈ o.programs)
    {notes : List Note} {machine : Machine} (hsound : o.Sound ⟨notes, machine.store⟩) :
    o.Account notes machine.store (sessionTrail o.root runs machine)
      (afterSession o.root runs machine).store := by
  induction runs generalizing notes machine with
  | nil => exact .nil hsound
  | cons run runs ih =>
      obtain ⟨depth, p⟩ := run
      obtain ⟨hp, hruns⟩ := List.forall_mem_cons.1 hruns
      have h := (traces_program hp depth hsound.root_lt notes machine (le_refl _) hsound).account
      exact h.append (ih hruns h.sound)

end Origin

end Scriptlet
