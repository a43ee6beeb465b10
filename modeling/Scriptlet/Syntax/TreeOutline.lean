/-
**Outlines of syntax trees.**

Every node of a tree is shown with the name of its kind and all of its parts.

Main definitions:

* `Scriptlet.Expr.outline`, `Scriptlet.Stmt.outline` — the outlines of the trees;
* `Scriptlet.Program.outline` — **the outline of a program**.
-/

import Scriptlet.Number.Notation
import Scriptlet.Syntax.Tree
import Scriptlet.Text.Outline

set_option relaxedAutoImplicit false
set_option autoImplicit false

namespace Scriptlet

/-- A truth value in an outline. -/
def Outline.bool (b : Bool) : Outline := .atom (if b then "true" else "false")

mutual

/-- The outline of an expression. -/
def Expr.outline : Expr → Outline
  | .number x => .tuple "NumericLiteral" [.atom (Number.detail x)]
  | .name n => .tuple "Identifier" [.text n]
  | .binary op left right =>
      .record "Binary"
        [("left", left.outline), ("operator", .atom op.name), ("right", right.outline)]
  | .assign target value =>
      .record "Assignment" [("target", target.outline), ("value", value.outline)]
  | .call callee arguments =>
      .record "Call" [("callee", callee.outline), ("arguments", .list (exprOutlines arguments))]
  | .dot object property =>
      .record "Member"
        [("object", object.outline), ("property", property.outline), ("computed", .bool false)]
  | .index object property =>
      .record "Member"
        [("object", object.outline), ("property", property.outline), ("computed", .bool true)]
  | .object entries => .tuple "Object" [.list (entryOutlines entries)]
  | .function name parameters body =>
      .tuple "FunctionDeclaration"
        [.record "FunctionDeclaration"
          [("name", .text name), ("parameters", .list (parameters.map .text)),
            ("body", .list (stmtOutlines body))]]

/-- The outlines of a list of expressions. -/
def exprOutlines : List Expr → List Outline
  | [] => []
  | e :: es => e.outline :: exprOutlines es

/-- The outlines of the entries of an object. -/
def entryOutlines : List Entry → List Outline
  | [] => []
  | .shorthand key :: entries =>
      .record "Property" [("key", .text key), ("value", .optional none)] :: entryOutlines entries
  | .pair key value :: entries =>
      .record "Property" [("key", .text key), ("value", .optional (some value.outline))]
        :: entryOutlines entries

/-- The outlines of a list of statements. -/
def stmtOutlines : List Stmt → List Outline
  | [] => []
  | s :: ss => s.outline :: stmtOutlines ss

/-- The outline of a statement. -/
def Stmt.outline : Stmt → Outline
  | .declare constant name none =>
      .record "VariableDeclaration"
        [("name", .text name), ("value", .optional none), ("constant", .bool constant)]
  | .declare constant name (some value) =>
      .record "VariableDeclaration"
        [("name", .text name), ("value", .optional (some value.outline)),
          ("constant", .bool constant)]
  | .expr expression => .tuple "Expression" [expression.outline]

end

/-- **The outline of a program.** -/
def Program.outline (program : Program) : Outline :=
  .record "Program" [("body", .list (stmtOutlines program.body))]

end Scriptlet
