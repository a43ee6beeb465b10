/-
**What a parser tries.**

A parser tries other parsers on its way, one after another and one inside the other.  Here that is
written down: which layer of the grammar was tried, how many tokens were left then, how many are
left behind what it read if it succeeded, and what it tried itself.

A parser is watched along with what it does: each way to build a parser from others tells what it
tries from what they try, and is the way it was as far as reading is concerned.  So the grammar that
is watched reads what the grammar reads.  Where a bound on levels or on rounds ends something, that
is written down as well.

Main definitions:

* `Scriptlet.Watched.Layer`, `Scriptlet.Call` — **what was tried**;
* `Scriptlet.Watched` — a parser, and what it tries;
* `Scriptlet.Watched.enter` — a layer of the grammar is entered;
* `Scriptlet.Watched.statement`, `Scriptlet.Watched.expression`, `Scriptlet.Watched.program` — the
  grammar, watched;
* `Scriptlet.Program.call` — **what is tried to read tokens as a program**.

Main results:

* `Scriptlet.Watched.parser_program` — **the grammar that is watched reads what the grammar reads**.
-/

import Scriptlet.Syntax.Grammar

set_option relaxedAutoImplicit false
set_option autoImplicit false

namespace Scriptlet

/-! ### What was tried -/

/-- The layers of the grammar, from single tokens to programs.  What ends because a bound is used up
has a layer of its own. -/
inductive Watched.Layer where
  | token | number | between | arguments | parameters | block | function | primary
  | dotAccess | indexAccess | member | call | operation | product | sum
  | marked | entry | another | object | expression
  | letStatement | constStatement | expressionStatement | statement | program
  | cut
deriving DecidableEq, Repr

/-- **Something that was tried.** -/
structure Call where
  /-- The layer that was entered. -/
  layer : Watched.Layer
  /-- How many tokens were left then. -/
  left : Nat
  /-- How many are left behind what was read; none, if nothing could be. -/
  ended : Option Nat
  /-- What was tried for that, in order. -/
  inner : List Call

/-- **A parser, and what it tries** where it is used. -/
structure Watched (α : Type) where
  /-- The parser. -/
  parser : Parser α
  /-- What it tries, in order. -/
  calls : Nat → Remaining → List Call

namespace Watched

variable {α β : Type}

/-! ### Ways to build parsers -/

/-- How many tokens are left behind what was read. -/
def ended : Except Report (Parsed α) → Option Nat
  | .ok result => some result.rest.count
  | .error _ => none

/-- Nothing is tried. -/
def quiet (p : Parser α) : Watched α := ⟨p, fun _ _ => []⟩

/-- What is written down for a layer of the grammar. -/
def callOf (layer : Watched.Layer) (w : Watched α) (eoi : Nat) (input : Remaining) : Call :=
  ⟨layer, input.count, ended (w.parser eoi input), w.calls eoi input⟩

/-- **A layer of the grammar is entered.** -/
def enter (layer : Watched.Layer) (w : Watched α) : Watched α :=
  ⟨w.parser, fun eoi input => [callOf layer w eoi input]⟩

/-- What is tried after a parser, if that succeeds. -/
def next (result : Except Report (Parsed α)) (calls : α → Remaining → List Call) : List Call :=
  match result with
  | .ok first => calls first.value first.rest
  | .error _ => []

instance : Monad Watched where
  pure value := quiet (pure value)
  bind w f :=
    ⟨w.parser >>= fun value => (f value).parser, fun eoi input =>
      w.calls eoi input ++ next (w.parser eoi input) fun value rest => (f value).calls eoi rest⟩

/-- One token. -/
def token (kind : Token.Kind) : Watched Token := enter .token (quiet (Parser.token kind))

/-- One of some operators. -/
def operator (allowed : List Operator) : Watched Operator :=
  enter .token (quiet (Parser.operator allowed))

/-- No levels are left. -/
def stuck : Watched α := enter .cut (quiet Parser.stuck)

/-- What one parser reads, or else what another one does. -/
def orElse (v w : Watched α) : Watched α :=
  ⟨Parser.orElse v.parser w.parser, fun eoi input =>
    v.calls eoi input ++
      match v.parser eoi input with
      | .ok _ => []
      | .error _ => w.calls eoi input⟩

/-- What a parser reads, or nothing. -/
def optional (w : Watched α) : Watched (Option α) := ⟨Parser.optional w.parser, w.calls⟩

/-- What a parser reads must pass a check. -/
def checked (w : Watched α) (check : α → Except Complaint β) : Watched β :=
  ⟨Parser.checked w.parser check, w.calls⟩

/-- What is tried to read values one after another, at most a given number of times. -/
def roundCalls (w : Watched α) (eoi : Nat) : Nat → Remaining → List Call
  | 0, input => [⟨.cut, input.count, none, []⟩]
  | rounds + 1, input =>
      w.calls eoi input ++ next (w.parser eoi input) fun _ rest => roundCalls w eoi rounds rest

/-- Values one after another. -/
def many (w : Watched α) : Watched (List α) :=
  ⟨Parser.many w.parser, fun eoi input => roundCalls w eoi (input.count + 1) input⟩

/-- How many tokens are left behind a separator and another value.  If there is no value, the
separator is read only where that is allowed. -/
def anotherEnded (item : Watched α) (separator : Token.Kind) (trailing : Bool) (eoi : Nat)
    (input : Remaining) : Option Nat :=
  match Parser.token separator eoi input with
  | .error _ => none
  | .ok mark =>
      match item.parser eoi mark.rest with
      | .error _ => if trailing then some mark.rest.count else none
      | .ok first => some first.rest.count

/-- What is tried to read another value behind a separator. -/
def anotherCall (item : Watched α) (separator : Token.Kind) (trailing : Bool) (eoi : Nat)
    (input : Remaining) : Call :=
  ⟨.another, input.count, anotherEnded item separator trailing eoi input,
    (token separator).calls eoi input ++
      next (Parser.token separator eoi input) fun _ rest => item.calls eoi rest⟩

/-- What is tried to read values behind separators, at most a given number of times. -/
def separatedCalls (item : Watched α) (separator : Token.Kind) (trailing : Bool) (eoi : Nat) :
    Nat → Remaining → List Call
  | 0, input => [⟨.cut, input.count, none, []⟩]
  | rounds + 1, input =>
      anotherCall item separator trailing eoi input ::
        next (Parser.token separator eoi input) fun _ rest =>
          next (item.parser eoi rest) fun _ rest' =>
            separatedCalls item separator trailing eoi rounds rest'

/-- Values with separators between them, possibly none at all. -/
def separated (item : Watched α) (separator : Token.Kind) (trailing : Bool) : Watched (List α) :=
  ⟨Parser.separated item.parser separator trailing, fun eoi input =>
    item.calls eoi input ++ next (item.parser eoi input) fun _ rest =>
      separatedCalls item separator trailing eoi (input.count + 1) rest⟩

/-! ### Expressions -/

/-- A name. -/
def name : Watched String := do
  let word ← token .identifier
  return word.text

/-- A number. -/
def number : Watched Float :=
  enter .number <| checked (token .number) fun digits =>
    match Number.read digits.text with
    | some value => .ok value
    | none => .error (.numeral digits.text)

/-- Something between two tokens. -/
def between (opening closing : Token.Kind) (inner : Watched α) : Watched α := do
  let _ ← token opening
  let value ← inner
  let _ ← token closing
  return value

/-- A token of a kind, and an expression behind it. -/
def marked (kind : Token.Kind) (expression : Watched Expr) : Watched Expr :=
  enter .marked (token kind *> expression)

/-- Expressions between parentheses. -/
def arguments (expression : Watched Expr) : Watched (List Expr) :=
  enter .arguments (between .openParen .closeParen (separated expression .comma false))

/-- The parameters of a function. -/
def parameters (expression : Watched Expr) : Watched (List String) :=
  enter .parameters (checked (arguments expression) Grammar.parameterNames)

/-- Statements between braces. -/
def block (statement : Watched Stmt) : Watched (List Stmt) :=
  enter .block (between .openBrace .closeBrace (many statement))

/-- The declaration of a function. -/
def function (statement : Watched Stmt) (expression : Watched Expr) : Watched Expr :=
  enter .function do
    let _ ← token .fnWord
    let f ← name
    let ps ← parameters expression
    let body ← block statement
    return .function f ps body

/-- The innermost expressions. -/
def primary (statement : Watched Stmt) (expression : Watched Expr) : Watched Expr :=
  enter .primary <|
    orElse (.name <$> name) <|
      orElse (.number <$> number) <|
        orElse (enter .between (between .openParen .closeParen expression)) <|
          function statement expression

/-- A point and an innermost expression. -/
def dotAccess (statement : Watched Stmt) (expression : Watched Expr) : Watched Grammar.Access :=
  enter .dotAccess <| checked (token .dot *> primary statement expression) fun property =>
    if property.name?.isSome then .ok (.dot property) else .error (.property property)

/-- An expression between brackets. -/
def indexAccess (expression : Watched Expr) : Watched Grammar.Access :=
  enter .indexAccess (.index <$> between .openBracket .closeBracket expression)

/-- An innermost expression with the accesses behind it. -/
def member (statement : Watched Stmt) (expression : Watched Expr) : Watched Expr :=
  enter .member do
    let object ← primary statement expression
    let accesses ← many (orElse (dotAccess statement expression) (indexAccess expression))
    return accesses.foldl Grammar.Access.apply object

/-- A member with the lists of arguments behind it. -/
def call (statement : Watched Stmt) (expression : Watched Expr) : Watched Expr :=
  enter .call do
    let callee ← member statement expression
    let calls ← many (arguments expression)
    return calls.foldl .call callee

/-- An operator and the operand behind it. -/
def operation (allowed : List Operator) (operand : Watched Expr) : Watched (Operator × Expr) :=
  enter .operation do
    let op ← operator allowed
    let right ← operand
    return (op, right)

/-- Operands with some operators between them. -/
def chain (layer : Watched.Layer) (allowed : List Operator) (operand : Watched Expr) :
    Watched Expr :=
  enter layer do
    let first ← operand
    let more ← many (operation allowed operand)
    return more.foldl (fun left step => .binary step.1 left step.2) first

/-- Calls with multiplications and divisions between them. -/
def product (statement : Watched Stmt) (expression : Watched Expr) : Watched Expr :=
  chain .product [.multiply, .divide, .modulo] (call statement expression)

/-- Products with additions and subtractions between them. -/
def sum (statement : Watched Stmt) (expression : Watched Expr) : Watched Expr :=
  chain .sum [.add, .subtract] (product statement expression)

/-- An entry of an object. -/
def entry (expression : Watched Expr) : Watched Entry :=
  enter .entry do
    let key ← name
    match ← optional (marked .colon expression) with
    | some value => return .pair key value
    | none => return .shorthand key

/-- Entries between braces. -/
def object (expression : Watched Expr) : Watched Expr :=
  enter .object <|
    .object <$> between .openBrace .closeBrace (separated (entry expression) .comma true)

/-- An expression, given the ones further in. -/
def expressionLayer (statement : Watched Stmt) (expression : Watched Expr) : Watched Expr :=
  enter .expression do
    let target ← orElse (object expression) (sum statement expression)
    match ← optional (marked .equals expression) with
    | some value => return .assign target value
    | none => return target

/-! ### Statements and programs -/

/-- The declaration of a variable. -/
def letStatement (expression : Watched Expr) : Watched Stmt :=
  enter .letStatement do
    let _ ← token .letWord
    let n ← name
    let value ← optional (marked .equals expression)
    let _ ← token .semicolon
    return .declare false n value

/-- The declaration of a constant. -/
def constStatement (expression : Watched Expr) : Watched Stmt :=
  enter .constStatement do
    let _ ← token .constWord
    let n ← name
    let _ ← token .equals
    let value ← expression
    let _ ← token .semicolon
    return .declare true n (some value)

/-- An expression as a statement. -/
def expressionStatement (expression : Watched Expr) : Watched Stmt :=
  enter .expressionStatement do
    let e ← expression
    let _ ← optional (token .semicolon)
    return .expr e

/-- A statement, given the expressions in it. -/
def statementLayer (expression : Watched Expr) : Watched Stmt :=
  enter .statement <|
    orElse (letStatement expression) <|
      orElse (constStatement expression) <|
        expressionStatement expression

mutual

/-- A statement that is nested less than `levels` deep. -/
def statement : (levels : Nat) → Watched Stmt
  | 0 => stuck
  | levels + 1 => statementLayer (expressionLayer (statement levels) (expression levels))

/-- An expression that is nested less than `levels` deep. -/
def expression : (levels : Nat) → Watched Expr
  | 0 => stuck
  | levels + 1 => expressionLayer (statement levels) (expression levels)

end

/-- **A program.** -/
def program (levels : Nat) : Watched Program := do
  let body ← many (statement levels)
  let _ ← token .endOfInput
  quiet Parser.finish
  return ⟨body⟩

/-! ### The grammar -/

/-- Parsers that go on in the same way are the same. -/
theorem bind_congr {p : Parser α} {f g : α → Parser β} (h : ∀ value, f value = g value) :
    p >>= f = p >>= g := by rw [funext h]

theorem parser_entry (e : Watched Expr) : (entry e).parser = Grammar.entry e.parser :=
  bind_congr fun _ => bind_congr fun value => by cases value <;> rfl

theorem parser_object (e : Watched Expr) : (object e).parser = Grammar.object e.parser := by
  rw [Grammar.object, ← parser_entry]
  rfl

theorem parser_expressionLayer (s : Watched Stmt) (e : Watched Expr) :
    (expressionLayer s e).parser = Grammar.expressionLayer s.parser e.parser := by
  rw [Grammar.expressionLayer, ← parser_object]
  exact bind_congr fun _ => bind_congr fun value => by cases value <;> rfl

/-- Statements and expressions are read as they are without being watched. -/
theorem parser_levels (levels : Nat) :
    (statement levels).parser = Grammar.statement levels ∧
      (expression levels).parser = Grammar.expression levels := by
  induction levels with
  | zero => exact ⟨rfl, rfl⟩
  | succ levels ih =>
      have hexpression : (expressionLayer (statement levels) (expression levels)).parser
          = Grammar.expression (levels + 1) := by
        rw [Grammar.expression, ← ih.1, ← ih.2, parser_expressionLayer]
      refine ⟨?_, hexpression⟩
      rw [Grammar.statement, ← Grammar.expression, ← hexpression]
      rfl

/-- **The grammar that is watched reads what the grammar reads.** -/
theorem parser_program (levels : Nat) : (program levels).parser = Grammar.program levels := by
  rw [Grammar.program, ← (parser_levels levels).1]
  rfl

end Watched

/-- **What is tried to read tokens as a program.** -/
def Program.call (tokens : List Token) : Call :=
  Watched.callOf .program (Watched.program (tokens.length + 1)) (endOffset tokens)
    (.ofList tokens)

end Scriptlet
