/-
**Two runs of the same program.**

Two runs of a program do the same step by step, if what they start with corresponds and if each
single step keeps it so.  What corresponds is left open here: scopes to scopes, objects to objects,
and states to states.  Runs create scopes and objects, so more and more of them correspond as the
runs go on; the worlds of a correspondence tell how far that has come.

Main definitions:

* `Scriptlet.Pairing`, `Scriptlet.Correspondence` — **what corresponds**;
* `Scriptlet.Pairing.Values` — values that correspond: the same data, and functions and objects at
  places that correspond;
* `Scriptlet.Correspondence.Matches` — two computations end in the same way, in states that
  correspond again;
* `Scriptlet.Correspondence.Sound` — the single steps match.

Main results:

* `Scriptlet.Correspondence.Matches.bind` — one step after another;
* `Scriptlet.Correspondence.Sound.expr`, `Scriptlet.Correspondence.Sound.block`,
  `Scriptlet.Correspondence.Sound.callWithin` — **evaluation matches if the single steps do**.
-/

import Mathlib.Data.List.Forall2
import Mathlib.Order.Basic
import Scriptlet.Proofs.Eval.Runs

set_option relaxedAutoImplicit false
set_option autoImplicit false

namespace Scriptlet

/-! ### What corresponds -/

/-- **Which places correspond in two runs**, in a world that tells how far the runs have come. -/
structure Pairing where
  /-- The worlds; a later one is greater. -/
  World : Type
  /-- Worlds are ordered. -/
  order : Preorder World
  /-- Scopes that correspond. -/
  scope : World → Nat → Nat → Prop
  /-- Objects that correspond. -/
  object : World → Nat → Nat → Prop
  /-- Scopes correspond from then on. -/
  scope_mono : ∀ {w w' : World} {s t : Nat}, w ≤ w' → scope w s t → scope w' s t
  /-- Objects correspond from then on. -/
  object_mono : ∀ {w w' : World} {i j : Nat}, w ≤ w' → object w i j → object w' i j

attribute [instance] Pairing.order

/-- **What corresponds in two runs**: places and states. -/
structure Correspondence extends Pairing where
  /-- States that correspond. -/
  state : World → Machine → Machine → Prop

namespace Pairing

variable {c : Pairing}

/-- **Values that correspond.** -/
inductive Values (c : Pairing) (w : c.World) : Value → Value → Prop
  | null : Values c w .null .null
  | number (x : Float) : Values c w (.number x) (.number x)
  | boolean (b : Bool) : Values c w (.boolean b) (.boolean b)
  | native (f : Native) : Values c w (.native f) (.native f)
  | object {i j : Nat} (h : c.object w i j) : Values c w (.object i) (.object j)
  | function {name : String} {parameters : List String} {body : List Stmt} {s t : Nat}
      (h : c.scope w s t) :
      Values c w (.function ⟨name, parameters, body, s⟩) (.function ⟨name, parameters, body, t⟩)

/-- Keys with values that correspond. -/
def Entries (c : Pairing) (w : c.World) (ps qs : List (String × Value)) : Prop :=
  List.Forall₂ (fun p q => p.1 = q.1 ∧ c.Values w p.2 q.2) ps qs

theorem Values.mono {w w' : c.World} {v v' : Value} (h : c.Values w v v') (hw : w ≤ w') :
    c.Values w' v v' := by
  cases h with
  | null => exact .null
  | number x => exact .number x
  | boolean b => exact .boolean b
  | native f => exact .native f
  | object h => exact .object (c.object_mono hw h)
  | function h => exact .function (c.scope_mono hw h)

/-- An operator makes the same of values that correspond, since it makes data of data. -/
theorem Values.combine {w : c.World} {a a' b b' : Value} (ha : c.Values w a a')
    (hb : c.Values w b b') (op : Operator) : c.Values w (a.combine op b) (a'.combine op b') := by
  cases ha <;> cases hb <;> first | exact .number _ | exact .null

theorem values_getD_head? {w : c.World} {vs vs' : List Value}
    (h : List.Forall₂ (c.Values w) vs vs') :
    c.Values w (vs.head?.getD .null) (vs'.head?.getD .null) := by
  cases h with
  | nil => exact .null
  | cons h _ => exact h

theorem values_getD_getLast? {w : c.World} {vs vs' : List Value}
    (h : List.Forall₂ (c.Values w) vs vs') :
    c.Values w (vs.getLast?.getD .null) (vs'.getLast?.getD .null) := by
  induction h with
  | nil => exact .null
  | @cons v v' vs vs' h hmore ih =>
      cases hmore with
      | nil => exact h
      | cons _ _ => simpa [List.getLast?_cons_cons] using ih

theorem mono_values {w w' : c.World} {vs vs' : List Value} (h : List.Forall₂ (c.Values w) vs vs')
    (hw : w ≤ w') : List.Forall₂ (c.Values w') vs vs' := h.imp fun _ _ hv => hv.mono hw

end Pairing

/-! ### Computations that match -/

/-- Two computations end in the same way: with values that are related, or with the same error. -/
inductive Ends {ε α β : Type} (R : α → β → Prop) : Except ε α → Except ε β → Prop
  | ok {a : α} {b : β} (h : R a b) : Ends R (.ok a) (.ok b)
  | error (error : ε) : Ends R (.error error) (.error error)

/-- Ends are equal if values that are related are. -/
theorem Ends.eq {ε α : Type} {R : α → α → Prop} {x y : Except ε α} (h : Ends R x y)
    (hR : ∀ a b, R a b → a = b) : x = y := by
  cases h with
  | ok hab => exact congrArg Except.ok (hR _ _ hab)
  | error error => rfl

/-- The one end is the other one, mapped, if that is so for values that are related. -/
theorem Ends.eq_map {ε α β : Type} {R : α → β → Prop} {f : α → β} {x : Except ε α}
    {y : Except ε β} (h : Ends R x y) (hR : ∀ a b, R a b → b = f a) : y = x.map f := by
  cases h with
  | ok hab => exact congrArg Except.ok (hR _ _ hab)
  | error error => rfl

theorem Ends.mapError {ε ε' α β : Type} {R : α → β → Prop} {x : Except ε α} {y : Except ε β}
    (h : Ends R x y) (f : ε → ε') : Ends R (x.mapError f) (y.mapError f) := by
  cases h with
  | ok hab => exact .ok hab
  | error error => exact .error _

namespace Correspondence

variable {α β γ δ : Type} {c : Correspondence}

/-- **Two computations match** in a world: from states that correspond they end in the same way, in
states that correspond in a later world. -/
def Matches (c : Correspondence) (w : c.World) (R : c.World → α → β → Prop) (m : Eval α)
    (m' : Eval β) : Prop :=
  ∀ machine machine' : Machine, c.state w machine machine' → ∃ w', w ≤ w' ∧
    c.state w' (m.run machine).2 (m'.run machine').2 ∧
      Ends (R w') (m.run machine).1 (m'.run machine').1

namespace Matches

variable {w : c.World} {R : c.World → α → β → Prop} {R' : c.World → γ → δ → Prop}

/-- Results that are related at once. -/
theorem of_run {m : Eval α} {m' : Eval β}
    (h : ∀ machine machine' : Machine, c.state w machine machine' →
      c.state w (m.run machine).2 (m'.run machine').2 ∧
        Ends (R w) (m.run machine).1 (m'.run machine').1) : c.Matches w R m m' :=
  fun machine machine' hstate => ⟨w, le_refl w, h machine machine' hstate⟩

theorem pure {a : α} {b : β} (h : R w a b) : c.Matches w R (Pure.pure a) (Pure.pure b) :=
  of_run fun _ _ hstate => ⟨hstate, .ok h⟩

theorem throw (fault : Fault) : c.Matches w R (MonadExcept.throw fault) (MonadExcept.throw fault) :=
  of_run fun _ _ hstate => ⟨hstate, .error fault⟩

theorem fail (error : EvalError) : c.Matches w R (Eval.fail error) (Eval.fail error) :=
  throw (.error error)

/-- **One step after another.** -/
theorem bind {m : Eval α} {m' : Eval β} {f : α → Eval γ} {f' : β → Eval δ}
    (hm : c.Matches w R m m')
    (hf : ∀ w' a b, w ≤ w' → R w' a b → c.Matches w' R' (f a) (f' b)) :
    c.Matches w R' (m >>= f) (m' >>= f') := by
  intro machine machine' hstate
  obtain ⟨w', hw, hstate', hends⟩ := hm machine machine' hstate
  rw [Eval.run_bind, Eval.run_bind]
  rcases hrun : m.run machine with ⟨result, middle⟩
  rcases hrun' : m'.run machine' with ⟨result', middle'⟩
  rw [hrun, hrun'] at hstate' hends
  cases hends with
  | error fault => exact ⟨w', hw, hstate', .error fault⟩
  | ok hab =>
      obtain ⟨w'', hw', hfinal⟩ := hf w' _ _ hw hab middle middle' hstate'
      exact ⟨w'', le_trans hw hw', hfinal⟩

end Matches

/-! ### The single steps -/

/-- **The single steps match**: those on names, those that create something, those that look at an
object, and those that write. -/
structure Sound (c : Correspondence) : Prop where
  /-- Names are looked up. -/
  lookUp : ∀ {w : c.World} {s t : Nat} (name : String), c.scope w s t →
    c.Matches w c.Values (Eval.lookUp s name) (Eval.lookUp t name)
  /-- Names are declared. -/
  declare : ∀ {w : c.World} {s t : Nat} {v v' : Value} (name : String) (constant : Bool),
    c.scope w s t → c.Values w v v' →
      c.Matches w c.Values (Eval.declare s name v constant) (Eval.declare t name v' constant)
  /-- Names are assigned to. -/
  assign : ∀ {w : c.World} {s t : Nat} {v v' : Value} (name : String),
    c.scope w s t → c.Values w v v' →
      c.Matches w c.Values (Eval.assign s name v) (Eval.assign t name v')
  /-- Scopes are created. -/
  enter : ∀ {w : c.World} {s t : Nat}, c.scope w s t →
    c.Matches w c.scope (Eval.enter s) (Eval.enter t)
  /-- Objects are created. -/
  allocate : ∀ {w : c.World} {ps qs : List (String × Value)}, c.Entries w ps qs →
    c.Matches w c.Values (Eval.allocate (Table.ofList ps)) (Eval.allocate (Table.ofList qs))
  /-- Properties are read. -/
  property : ∀ {w : c.World} {i j : Nat} (key : String), c.object w i j →
    c.Matches w c.Values (propertyOf (.object i) key) (propertyOf (.object j) key)
  /-- Texts of values are asked for. -/
  textOf : ∀ {w : c.World} {v v' : Value}, c.Values w v v' →
    c.Matches w (fun _ => Eq) (Eval.textOf v) (Eval.textOf v')
  /-- Values are printed. -/
  print : ∀ {w : c.World} {vs vs' : List Value} (s t : Nat), List.Forall₂ (c.Values w) vs vs' →
    c.Matches w c.Values (Action.print.perform vs s) (Action.print.perform vs' t)
  /-- Events are left behind. -/
  log : ∀ {w : c.World} (event : Event),
    c.Matches w (fun _ _ _ => True) (Eval.log event) (Eval.log event)

/-- Calls match: functions that correspond, with arguments that correspond. -/
def CallsMatch (c : Correspondence) (calls calls' : Calls) : Prop :=
  ∀ (w : c.World) (name : String) (parameters : List String) (body : List Stmt) (s t : Nat)
    (vs vs' : List Value), c.scope w s t → List.Forall₂ (c.Values w) vs vs' →
      c.Matches w c.Values (calls ⟨name, parameters, body, s⟩ vs)
        (calls' ⟨name, parameters, body, t⟩ vs')

/-! ### Evaluation -/

namespace Sound

variable {calls calls' : Calls} {w : c.World} {s t : Nat}

theorem perform (hc : c.Sound) (action : Action) {vs vs' : List Value} (hs : c.scope w s t)
    (hvs : List.Forall₂ (c.Values w) vs vs') :
    c.Matches w c.Values (action.perform vs s) (action.perform vs' t) := by
  cases action with
  | print => exact hc.print s t hvs
  | count =>
      change c.Matches w c.Values (Pure.pure _) (Pure.pure _)
      rw [hvs.length_eq]
      exact .pure (.number _)
  | last => exact .pure (Pairing.values_getD_getLast? hvs)
  | lookUp name => exact hc.lookUp name hs
  | declare name => exact hc.declare name true hs (Pairing.values_getD_head? hvs)

theorem propertyOf (hc : c.Sound) {v v' : Value} (key : String) (hv : c.Values w v v') :
    c.Matches w c.Values (Scriptlet.propertyOf v key) (Scriptlet.propertyOf v' key) := by
  cases hv with
  | object h => exact hc.property key h
  | _ => exact .fail _

theorem callValue (hc : c.Sound) (hcalls : c.CallsMatch calls calls') {v v' : Value}
    {vs vs' : List Value} (hs : c.scope w s t) (hv : c.Values w v v')
    (hvs : List.Forall₂ (c.Values w) vs vs') :
    c.Matches w c.Values (Scriptlet.callValue calls s v vs)
      (Scriptlet.callValue calls' t v' vs') := by
  cases hv with
  | native f =>
      unfold Scriptlet.callValue
      rw [hvs.length_eq]
      exact (hc.log _).bind fun w' _ _ hw _ =>
        hc.perform f.action (c.scope_mono hw hs) (Pairing.mono_values hvs hw)
  | function h => exact hcalls _ _ _ _ _ _ _ _ h hvs
  | null => exact (hc.textOf .null).bind fun _ _ _ _ h => h ▸ .fail _
  | number x => exact (hc.textOf (.number x)).bind fun _ _ _ _ h => h ▸ .fail _
  | boolean b => exact (hc.textOf (.boolean b)).bind fun _ _ _ _ h => h ▸ .fail _
  | object h => exact (hc.textOf (.object h)).bind fun _ _ _ _ h => h ▸ .fail _

mutual

/-- **The evaluation of an expression matches** in scopes that correspond, if calls match. -/
theorem expr (hc : c.Sound) (hcalls : c.CallsMatch calls calls') {w : c.World} {s t : Nat}
    (hs : c.scope w s t) (e : Expr) :
    c.Matches w c.Values (e.eval calls s) (e.eval calls' t) := by
  cases e with
  | number x => exact .pure (.number x)
  | name n => exact hc.lookUp n hs
  | binary op left right =>
      exact (expr hc hcalls hs left).bind fun _ a a' hw ha =>
        (expr hc hcalls (c.scope_mono hw hs) right).bind fun _ b b' hw' hb =>
          .pure ((ha.mono hw').combine hb op)
  | assign target value =>
      have htarget : c.Matches w (fun _ => Eq) (targetName target) (targetName target) := by
        unfold targetName
        split
        · exact .pure rfl
        · exact .fail _
      refine htarget.bind fun w₁ n n' hw hn => ?_
      subst hn
      exact (expr hc hcalls (c.scope_mono hw hs) value).bind fun w₂ v v' hw' hv =>
        hc.assign n (c.scope_mono hw' (c.scope_mono hw hs)) hv
  | call callee arguments =>
      exact (expr hc hcalls hs callee).bind fun w₁ f f' hw hf =>
        (exprs hc hcalls (c.scope_mono hw hs) arguments).bind fun w₂ vs vs' hw' hvs =>
          hc.callValue hcalls (c.scope_mono hw' (c.scope_mono hw hs)) (hf.mono hw') hvs
  | dot object property =>
      refine (expr hc hcalls hs object).bind fun w₁ v v' hw hv => ?_
      have hproperty : c.Matches w₁ (fun _ => Eq) (propertyName property)
          (propertyName property) := by
        unfold propertyName
        split
        · exact .pure rfl
        · exact .fail _
      refine hproperty.bind fun w₂ key key' hw' hkey => ?_
      subst hkey
      exact hc.propertyOf key (hv.mono hw')
  | index object property =>
      refine (expr hc hcalls hs object).bind fun w₁ v v' hw hv => ?_
      refine (expr hc hcalls (c.scope_mono hw hs) property).bind fun w₂ k k' hw' hk => ?_
      have hkeyText : c.Matches w₂ (fun _ => Eq) (keyText k) (keyText k') := by
        cases hk with
        | number x => exact .pure rfl
        | _ => exact .fail _
      refine hkeyText.bind fun w₃ key key' hw'' hkey => ?_
      subst hkey
      exact hc.propertyOf key ((hv.mono hw').mono hw'')
  | object es =>
      exact (entries hc hcalls hs es).bind fun w₁ ps qs hw hps => hc.allocate hps
  | function f parameters body => exact hc.declare f true hs (.function hs)

theorem exprs (hc : c.Sound) (hcalls : c.CallsMatch calls calls') {w : c.World} {s t : Nat}
    (hs : c.scope w s t) (es : List Expr) : c.Matches w (fun w => List.Forall₂ (c.Values w))
      (evalArguments calls s es) (evalArguments calls' t es) := by
  cases es with
  | nil => exact .pure .nil
  | cons e es =>
      exact (expr hc hcalls hs e).bind fun w₁ v v' hw hv =>
        (exprs hc hcalls (c.scope_mono hw hs) es).bind fun w₂ vs vs' hw' hvs =>
          .pure (.cons (hv.mono hw') hvs)

theorem entries (hc : c.Sound) (hcalls : c.CallsMatch calls calls') {w : c.World} {s t : Nat}
    (hs : c.scope w s t) (es : List Entry) :
    c.Matches w c.Entries (evalEntries calls s es) (evalEntries calls' t es) := by
  cases es with
  | nil => exact .pure .nil
  | cons e es =>
      cases e with
      | shorthand key =>
          exact (hc.lookUp key hs).bind fun w₁ v v' hw hv =>
            (entries hc hcalls (c.scope_mono hw hs) es).bind fun w₂ vs vs' hw' hvs =>
              .pure (.cons ⟨rfl, hv.mono hw'⟩ hvs)
      | pair key value =>
          exact (expr hc hcalls hs value).bind fun w₁ v v' hw hv =>
            (entries hc hcalls (c.scope_mono hw hs) es).bind fun w₂ vs vs' hw' hvs =>
              .pure (.cons ⟨rfl, hv.mono hw'⟩ hvs)

end

theorem stmt (hc : c.Sound) (hcalls : c.CallsMatch calls calls') (hs : c.scope w s t)
    (statement : Stmt) :
    c.Matches w c.Values (statement.eval calls s) (statement.eval calls' t) := by
  cases statement with
  | declare constant n value =>
      cases value with
      | none => exact hc.declare n constant hs .null
      | some value =>
          exact (hc.expr hcalls hs value).bind fun w' v v' hw hv =>
            hc.declare n constant (c.scope_mono hw hs) hv
  | expr e => exact hc.expr hcalls hs e

/-- **The evaluation of statements matches** in scopes that correspond, if calls match. -/
theorem block (hc : c.Sound) (hcalls : c.CallsMatch calls calls') (hs : c.scope w s t)
    {last last' : Value} (hlast : c.Values w last last') (statements : List Stmt) :
    c.Matches w c.Values (evalBlock calls s last statements)
      (evalBlock calls' t last' statements) := by
  induction statements generalizing w last last' with
  | nil => exact .pure hlast
  | cons statement statements ih =>
      exact (hc.stmt hcalls hs statement).bind fun w' v v' hw hv =>
        ih (c.scope_mono hw hs) hv

theorem bindParameters (hc : c.Sound) (hs : c.scope w s t) (parameters : List String)
    {vs vs' : List Value} (hvs : List.Forall₂ (c.Values w) vs vs') :
    c.Matches w (fun _ _ _ => True) (Scriptlet.bindParameters s parameters vs)
      (Scriptlet.bindParameters t parameters vs') := by
  induction parameters generalizing w vs vs' with
  | nil => exact .pure trivial
  | cons parameter parameters ih =>
      refine (hc.declare parameter false hs (Pairing.values_getD_head? hvs)).bind ?_
      intro w' _ _ hw _
      refine ih (c.scope_mono hw hs) (Pairing.mono_values ?_ hw)
      cases hvs with
      | nil => exact .nil
      | cons _ hvs => exact hvs

/-- **Calls match**, by induction on how deeply they may be nested. -/
theorem callWithin (hc : c.Sound) (depth : Nat) :
    c.CallsMatch (Scriptlet.callWithin depth) (Scriptlet.callWithin depth) := by
  induction depth with
  | zero => exact fun _ _ _ _ _ _ _ _ _ _ => .throw _
  | succ depth ih =>
      intro w name parameters body s t vs vs' hs hvs
      unfold Scriptlet.callWithin
      dsimp only
      rw [hvs.length_eq]
      refine (hc.log _).bind fun w₁ _ _ hw₁ _ => ?_
      refine (hc.enter (c.scope_mono hw₁ hs)).bind fun w₂ inner inner' hw₂ hinner => ?_
      refine (hc.bindParameters hinner parameters
        (Pairing.mono_values (Pairing.mono_values hvs hw₁) hw₂)).bind fun w₃ _ _ hw₃ _ => ?_
      exact hc.block ih (c.scope_mono hw₃ hinner) .null body

/-- **The evaluation of a program matches** in scopes that correspond. -/
theorem program (hc : c.Sound) (depth : Nat) (hs : c.scope w s t) (p : Program) :
    c.Matches w c.Values (p.eval depth s) (p.eval depth t) :=
  hc.block (hc.callWithin depth) hs .null p.body

end Sound

end Correspondence

end Scriptlet
