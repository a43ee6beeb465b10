/-
**How values are shown.**

A value has a text, which scripts print, and an outline, which shows what kind of value it is.  An
object is shown with its properties in the order of their names, one inside the other; an object
holds only objects that are older, so there are no more of them inside each other than there are
objects.

Main definitions:

* `Scriptlet.Value.textWithin`, `Scriptlet.Value.outlineWithin` — the text and the outline, down to
  a given depth of objects;
* `Scriptlet.Value.text` — **the text of a value**;
* `Scriptlet.Value.outline` — **the outline of a value**.
-/

import Scriptlet.Eval.Store
import Scriptlet.Number.Notation
import Scriptlet.Text.Outline

set_option relaxedAutoImplicit false
set_option autoImplicit false

namespace Scriptlet.Value

/-! ### Texts -/

/-- The text of an object with the texts of its properties. -/
def objectText (properties : List (String × String)) : String :=
  if properties.isEmpty then "\x7b\x7d"
  else
    "\x7b " ++ String.intercalate ", " (properties.map fun p => p.1 ++ ": " ++ p.2) ++ " \x7d"

/-- The text of a value, down to a given depth of objects. -/
def textWithin (store : Store) : (depth : Nat) → Value → String
  | _, .null => "null"
  | _, .number x => Number.text x
  | _, .boolean b => if b then "true" else "false"
  | _, .native f => f.name ++ "() \x7b [native code] \x7d"
  | _, .function f =>
      "fn " ++ f.name ++ "(" ++ String.intercalate ", " f.parameters ++ ") \x7b ... \x7d"
  | 0, .object _ => objectText []
  | depth + 1, .object id =>
      objectText ((store.object id).entries.map fun p => (p.1, textWithin store depth p.2))

/-- **The text of a value.** -/
def text (store : Store) (value : Value) : String := textWithin store store.objects.size value

/-! ### Outlines -/

/-- The outline of a value, down to a given depth of objects. -/
def outlineWithin (store : Store) : (depth : Nat) → Value → Outline
  | _, .null => .atom "Null"
  | _, .number x => .tuple "Number" [.atom (Number.detail x)]
  | _, .boolean b => .tuple "Boolean" [.atom (if b then "true" else "false")]
  | _, .native f => .openRecord "NativeFunction" [("name", .text f.name)]
  | _, .function f =>
      .openRecord "Function"
        [("name", .text f.name), ("parameters", .list (f.parameters.map .text))]
  | 0, .object _ => .tuple "Object" [.map []]
  | depth + 1, .object id =>
      .tuple "Object"
        [.map ((store.object id).entries.map fun p => (p.1, outlineWithin store depth p.2))]

/-- **The outline of a value.** -/
def outline (store : Store) (value : Value) : Outline :=
  outlineWithin store store.objects.size value

end Scriptlet.Value
