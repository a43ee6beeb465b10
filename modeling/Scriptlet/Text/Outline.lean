/-
**Outlines: nested data laid out for reading.**

Syntax trees and values are shown as outlines: atoms, and groups of outlines between brackets.
An outline is written in one of two layouts, on a single line, or with every item of a group on a
line of its own, four columns further in than the group.

Main definitions:

* `Scriptlet.Outline` — the outlines;
* `Scriptlet.Outline.tuple`, `Scriptlet.Outline.record`, `Scriptlet.Outline.openRecord`,
  `Scriptlet.Outline.list`, `Scriptlet.Outline.map` — the kinds of groups;
* `Scriptlet.Outline.compact` — **the layout on one line**;
* `Scriptlet.Outline.indented` — **the layout with a line for each item**.
-/

import Scriptlet.Text.Quoted

set_option relaxedAutoImplicit false
set_option autoImplicit false

namespace Scriptlet

/-- The brackets around a group; those of a record are set off by blanks. -/
inductive Bracket where
  | round
  | square
  | curly
  | record
deriving DecidableEq, Repr

namespace Bracket

/-- The text that opens a group, up to where a line may end. -/
def opening : Bracket → String
  | .round => "("
  | .square => "["
  | .curly => "\x7b"
  | .record => " \x7b"

/-- The text that closes a group. -/
def closing : Bracket → String
  | .round => ")"
  | .square => "]"
  | .curly => "\x7d"
  | .record => "\x7d"

/-- The blank between the brackets and the items, when all stand on one line. -/
def padding : Bracket → String
  | .record => " "
  | _ => ""

end Bracket

/-- An outline: an atom, or a group with a name, brackets, labelled items and a flag that tells
whether more items exist than are shown. -/
inductive Outline where
  | atom (text : String)
  | group (name : String) (bracket : Bracket) (items : List (String × Outline)) (more : Bool)

namespace Outline

/-! ### Groups -/

/-- A name with its arguments. -/
def tuple (name : String) (items : List Outline) : Outline :=
  .group name .round (items.map fun item => ("", item)) false

/-- A name with its named fields. -/
def record (name : String) (fields : List (String × Outline)) : Outline :=
  .group name .record (fields.map fun field => (field.1 ++ ": ", field.2)) false

/-- A name with some of its named fields. -/
def openRecord (name : String) (fields : List (String × Outline)) : Outline :=
  .group name .record (fields.map fun field => (field.1 ++ ": ", field.2)) true

/-- A sequence. -/
def list (items : List Outline) : Outline :=
  .group "" .square (items.map fun item => ("", item)) false

/-- A map from quoted keys. -/
def map (entries : List (String × Outline)) : Outline :=
  .group "" .curly (entries.map fun entry => (quote entry.1 ++ ": ", entry.2)) false

/-- A value that may be missing. -/
def optional : Option Outline → Outline
  | none => .atom "None"
  | some item => tuple "Some" [item]

/-- Text between quotes. -/
def text (s : String) : Outline := .atom (quote s)

/-! ### Layout on one line -/

mutual

/-- **The layout on one line.** -/
def compact : Outline → String
  | .atom text => text
  | .group name bracket items more =>
      let parts := compactItems items ++ if more then [".."] else []
      if parts.isEmpty then name ++ bracket.opening ++ bracket.closing
      else name ++ bracket.opening ++ bracket.padding ++ String.intercalate ", " parts ++
        bracket.padding ++ bracket.closing

/-- The items of a group, each on one line. -/
def compactItems : List (String × Outline) → List String
  | [] => []
  | (label, item) :: items => (label ++ compact item) :: compactItems items

end

/-! ### Layout with a line for each item -/

/-- The blanks in front of a line. -/
def indentation (depth : Nat) : String := String.ofList (List.replicate (4 * depth) ' ')

mutual

/-- **The layout with a line for each item**, in a group that is itself `depth` groups deep. -/
def indented (depth : Nat) : Outline → String
  | .atom text => text
  | .group name bracket items more =>
      if items.isEmpty && !more then name ++ bracket.opening ++ bracket.closing
      else name ++ bracket.opening ++ "\n" ++ indentedItems (depth + 1) items ++
        (if more then indentation (depth + 1) ++ "..\n" else "") ++
        indentation depth ++ bracket.closing

/-- The items of a group, each on a line of its own and followed by a comma. -/
def indentedItems (depth : Nat) : List (String × Outline) → String
  | [] => ""
  | (label, item) :: items =>
      indentation depth ++ label ++ indented depth item ++ ",\n" ++ indentedItems depth items

end

end Outline

end Scriptlet
