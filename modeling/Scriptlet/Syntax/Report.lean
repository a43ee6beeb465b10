/-
**Reports of failed parses.**

A parser that tries several ways to go on fails in several ways.  Of two reports the one that got
further is kept; of two that got equally far the first is kept, and it takes over what the second
one expected.  So the report that is left in the end stands at the furthest token that any attempt
reached, and lists what the attempts expected there.

Main definitions:

* `Scriptlet.Expectation`, `Scriptlet.Complaint`, `Scriptlet.Report` — **the reports**;
* `Scriptlet.Report.furthest`, `Scriptlet.Report.merge` — which of two reports is kept;
* `Scriptlet.SyntaxError` — what a caller is told, and its text;
* `Scriptlet.Report.toError` — **the error of a report**, with the expectations sorted.

Main results:

* `Scriptlet.Report.merge_assoc` — reports may be merged in any grouping.
-/

import Scriptlet.Syntax.Token
import Scriptlet.Syntax.Tree
import Scriptlet.Table

set_option relaxedAutoImplicit false
set_option autoImplicit false

namespace Scriptlet

/-! ### What was expected, and what is wrong -/

/-- What could have stood at a place: a token of some kind, or an operator. -/
inductive Expectation where
  | kind (kind : Token.Kind)
  | operator (operator : Operator)
deriving DecidableEq, Repr

/-- The expectation in a message. -/
def Expectation.describe : Expectation → String
  | .kind k => k.describe
  | .operator op => "'" ++ op.symbol ++ "'"

/-- What is wrong: a token that cannot stand where it stands, or something that was read and is
not allowed. -/
inductive Complaint where
  /-- A token, or the end of the tokens, that cannot stand there. -/
  | unexpected
  /-- A parameter that is not a name. -/
  | parameter (found : Expr)
  /-- A property after a point that is not a name. -/
  | property (found : Expr)
  /-- A number token that is not the text of a number. -/
  | numeral (text : String)

/-- The complaint as a message. -/
def Complaint.message : Complaint → String
  | .unexpected => "unexpected token"
  | .parameter found => "function parameters must be identifiers, found " ++ found.kindName
  | .property found =>
      "cannot use dot operator without right hand side being an identifier, found " ++
        found.kindName
  | .numeral text => "invalid numeric literal '" ++ text ++ "'"

/-! ### Reports -/

/-- **A report of a failed attempt.**  Its place is given by the number of tokens that were left,
so a smaller number is further on. -/
structure Report where
  /-- The number of tokens from the place of the failure to the end. -/
  left : Nat
  /-- The bytes that the report is about. -/
  span : Span
  /-- What is wrong. -/
  complaint : Complaint
  /-- The token that could not stand there, if there was one. -/
  found : Option Token
  /-- What could have stood there. -/
  expected : List Expectation

/-- The union of two lists of expectations. -/
def joinExpected (xs ys : List Expectation) : List Expectation :=
  xs ++ ys.filter fun y => !xs.contains y

theorem joinExpected_assoc (xs ys zs : List Expectation) :
    joinExpected (joinExpected xs ys) zs = joinExpected xs (joinExpected ys zs) := by
  simp only [joinExpected, List.append_assoc, List.filter_append, List.filter_filter]
  congr 2
  refine List.filter_congr fun z _ => ?_
  by_cases hx : z ∈ xs <;> by_cases hy : z ∈ ys <;> simp [hx, hy]

namespace Report

/-- Of two reports the one that got further; of two that got equally far the first, with the
expectations of both. -/
def furthest (a b : Report) : Report :=
  if a.left < b.left then a
  else if b.left < a.left then b
  else { a with expected := joinExpected a.expected b.expected }

theorem furthest_left (a b : Report) : (a.furthest b).left = min a.left b.left := by
  grind [furthest]

theorem furthest_assoc (a b c : Report) :
    (a.furthest b).furthest c = a.furthest (b.furthest c) := by
  grind [furthest, joinExpected_assoc]

/-- Merges two reports that may be missing; on a tie the later one is kept. -/
def merge : Option Report → Option Report → Option Report
  | none, b => b
  | some a, none => some a
  | some a, some b => some (b.furthest a)

@[simp] theorem none_merge (b : Option Report) : merge none b = b := rfl

@[simp] theorem merge_none (a : Option Report) : merge a none = a := by cases a <;> rfl

/-- Reports may be merged in any grouping. -/
theorem merge_assoc (a b c : Option Report) : merge (merge a b) c = merge a (merge b c) := by
  cases a <;> cases b <;> cases c <;> simp [merge, furthest_assoc]

/-- A report, after another one that was remembered. -/
def after (report : Report) : Option Report → Report
  | none => report
  | some missed => report.furthest missed

end Report

/-! ### Errors -/

/-- **The error of a failed parse.** -/
structure SyntaxError where
  /-- What is wrong. -/
  message : String
  /-- The token that was found, if the error is about one. -/
  found : Option String
  /-- What could have stood there. -/
  expected : List String
  /-- The bytes that the error is about. -/
  span : Span
deriving DecidableEq, Repr

/-- The text of an error: what is wrong, where, what was found, and what was expected if that is
known. -/
def SyntaxError.text (error : SyntaxError) : String :=
  error.message ++ " at " ++ error.span.text ++ ", found " ++ error.found.getD "end of input" ++
    if error.expected.isEmpty then ""
    else ", expecting " ++ String.intercalate " or " error.expected

/-- **The error of a report**: the expectations are described, each once and in byte order. -/
def Report.toError (report : Report) : SyntaxError where
  message := report.complaint.message
  found := report.found.map Token.describe
  expected :=
    (Table.ofList (report.expected.map fun e => (e.describe, ()))).entries.map Prod.fst
  span := report.span

end Scriptlet
