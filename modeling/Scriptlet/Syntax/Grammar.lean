/-
**The grammar of scripts.**

The grammar has layers: an expression is an assignment or an operation; operations bind more and
more tightly from sums over products, calls and accesses to the innermost expressions; and those
hold expressions and statements again, between brackets.  Each layer is a parser that is built from
parsers for the statements and expressions one level further in.

What stands further in is always behind a token of its own, so there are never more levels than
tokens.  `Scriptlet.Grammar.statement` and `Scriptlet.Grammar.expression` are the parsers that
allow for a given number of levels.

Main definitions:

* `Scriptlet.Grammar.statement`, `Scriptlet.Grammar.expression` — statements and expressions that
  are nested no deeper than a given number of levels;
* `Scriptlet.Grammar.program` — a program up to the end of the input;
* `Scriptlet.Program.ofTokens`, `Scriptlet.Program.ofSource` — **from tokens, or from a source, to
  a program**.
-/

import Scriptlet.Syntax.Lexeme
import Scriptlet.Syntax.Parser

set_option relaxedAutoImplicit false
set_option autoImplicit false

namespace Scriptlet

namespace Grammar

open Scriptlet.Parser

/-! ### Innermost expressions -/

/-- A name. -/
def name : Parser String := do
  let word ← token .identifier
  return word.text

/-- A number; its text has to read as one. -/
def number : Parser Float :=
  checked (token .number) fun digits =>
    match Number.read digits.text with
    | some value => .ok value
    | none => .error (.numeral digits.text)

/-- Something between two tokens. -/
def between {α : Type} (opening closing : Token.Kind) (inner : Parser α) : Parser α := do
  let _ ← token opening
  let value ← inner
  let _ ← token closing
  return value

/-- Expressions between parentheses, separated by commas. -/
def arguments (expression : Parser Expr) : Parser (List Expr) :=
  between .openParen .closeParen (separated expression .comma false)

/-- The names that expressions consist of; the first that is not a name is complained about. -/
def parameterNames : List Expr → Except Complaint (List String)
  | [] => .ok []
  | e :: es =>
      match e.name? with
      | some n => (parameterNames es).map (n :: ·)
      | none => .error (.parameter e)

/-- The parameters of a function: arguments that are names. -/
def parameters (expression : Parser Expr) : Parser (List String) :=
  checked (arguments expression) parameterNames

/-- Statements between braces. -/
def block (statement : Parser Stmt) : Parser (List Stmt) :=
  between .openBrace .closeBrace (many statement)

/-- The declaration of a function. -/
def function (statement : Parser Stmt) (expression : Parser Expr) : Parser Expr := do
  let _ ← token .fnWord
  let f ← name
  let ps ← parameters expression
  let body ← block statement
  return .function f ps body

/-- The innermost expressions: a name, a number, an expression between parentheses, or the
declaration of a function. -/
def primary (statement : Parser Stmt) (expression : Parser Expr) : Parser Expr :=
  orElse (.name <$> name) <|
    orElse (.number <$> number) <|
      orElse (between .openParen .closeParen expression) <|
        function statement expression

/-! ### Accesses and calls -/

/-- An access to a property: the property after a point, or between brackets. -/
inductive Access where
  | dot (property : Expr)
  | index (property : Expr)

/-- The expression that accesses a property of an object. -/
def Access.apply (object : Expr) : Access → Expr
  | .dot property => .dot object property
  | .index property => .index object property

/-- A point and an innermost expression, which has to be a name. -/
def dotAccess (statement : Parser Stmt) (expression : Parser Expr) : Parser Access :=
  checked (token .dot *> primary statement expression) fun property =>
    if property.name?.isSome then .ok (.dot property) else .error (.property property)

/-- An expression between brackets. -/
def indexAccess (expression : Parser Expr) : Parser Access :=
  .index <$> between .openBracket .closeBracket expression

/-- An innermost expression with the accesses behind it. -/
def member (statement : Parser Stmt) (expression : Parser Expr) : Parser Expr := do
  let object ← primary statement expression
  let accesses ← many (orElse (dotAccess statement expression) (indexAccess expression))
  return accesses.foldl Access.apply object

/-- A member with the lists of arguments behind it. -/
def call (statement : Parser Stmt) (expression : Parser Expr) : Parser Expr := do
  let callee ← member statement expression
  let calls ← many (arguments expression)
  return calls.foldl .call callee

/-! ### Operations -/

/-- Operands with some operators between them, grouped from the left. -/
def chain (allowed : List Operator) (operand : Parser Expr) : Parser Expr := do
  let first ← operand
  let more ← many do
    let op ← operator allowed
    let right ← operand
    return (op, right)
  return more.foldl (fun left step => .binary step.1 left step.2) first

/-- Calls with multiplications and divisions between them. -/
def product (statement : Parser Stmt) (expression : Parser Expr) : Parser Expr :=
  chain [.multiply, .divide, .modulo] (call statement expression)

/-- Products with additions and subtractions between them. -/
def sum (statement : Parser Stmt) (expression : Parser Expr) : Parser Expr :=
  chain [.add, .subtract] (product statement expression)

/-! ### Objects and assignments -/

/-- An entry of an object: a key, and possibly a colon and a value. -/
def entry (expression : Parser Expr) : Parser Entry := do
  let key ← name
  match ← optional (token .colon *> expression) with
  | some value => return .pair key value
  | none => return .shorthand key

/-- Entries between braces, separated by commas, the last of which may stand behind the last
entry. -/
def object (expression : Parser Expr) : Parser Expr :=
  .object <$> between .openBrace .closeBrace (separated (entry expression) .comma true)

/-- An expression, given the ones further in: an object or a sum, and possibly a value that is
assigned to it. -/
def expressionLayer (statement : Parser Stmt) (expression : Parser Expr) : Parser Expr := do
  let target ← orElse (object expression) (sum statement expression)
  match ← optional (token .equals *> expression) with
  | some value => return .assign target value
  | none => return target

/-! ### Statements -/

/-- The declaration of a variable, with or without a value. -/
def letStatement (expression : Parser Expr) : Parser Stmt := do
  let _ ← token .letWord
  let n ← name
  let value ← optional (token .equals *> expression)
  let _ ← token .semicolon
  return .declare false n value

/-- The declaration of a constant. -/
def constStatement (expression : Parser Expr) : Parser Stmt := do
  let _ ← token .constWord
  let n ← name
  let _ ← token .equals
  let value ← expression
  let _ ← token .semicolon
  return .declare true n (some value)

/-- An expression as a statement; a semicolon may follow. -/
def expressionStatement (expression : Parser Expr) : Parser Stmt := do
  let e ← expression
  let _ ← optional (token .semicolon)
  return .expr e

/-- A statement, given the expressions in it. -/
def statementLayer (expression : Parser Expr) : Parser Stmt :=
  orElse (letStatement expression) <|
    orElse (constStatement expression) <|
      expressionStatement expression

/-! ### Levels -/

mutual

/-- **A statement** that is nested less than `levels` deep. -/
def statement : (levels : Nat) → Parser Stmt
  | 0 => stuck
  | levels + 1 => statementLayer (expressionLayer (statement levels) (expression levels))

/-- **An expression** that is nested less than `levels` deep. -/
def expression : (levels : Nat) → Parser Expr
  | 0 => stuck
  | levels + 1 => expressionLayer (statement levels) (expression levels)

end

/-- A program: statements up to the end of the input, and nothing behind it. -/
def program (levels : Nat) : Parser Program := do
  let body ← many (statement levels)
  let _ ← token .endOfInput
  finish
  return ⟨body⟩

end Grammar

/-! ### Parsing -/

/-- The offset of the end of the input, as the last token has it. -/
def endOffset (tokens : List Token) : Nat := (tokens.getLast?.map fun t => t.span.stop).getD 0

/-- Parses tokens; there are as many levels as could be needed. -/
def Program.readTokens (tokens : List Token) : Except Report Program :=
  (Grammar.program (tokens.length + 1) (endOffset tokens) (.ofList tokens)).map Parsed.value

/-- **From tokens to a program.** -/
def Program.ofTokens (tokens : List Token) : Except SyntaxError Program :=
  (Program.readTokens tokens).mapError Report.toError

/-- **From a source to a program.** -/
def Program.ofSource (source : String) : Except SyntaxError Program :=
  Program.ofTokens (scan source).tokens

end Scriptlet
