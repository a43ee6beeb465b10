/-
**Syntax trees.**

A program is a list of statements; a statement declares a variable or is an expression.

Main definitions:

* `Scriptlet.Expr`, `Scriptlet.Entry`, `Scriptlet.Stmt` — **the trees**;
* `Scriptlet.Program` — a list of statements;
* `Scriptlet.Expr.kindName` — what an expression is called in a message;
* `Scriptlet.Program.same` — whether two programs are the same, numbers being compared as numbers.
-/

import Scriptlet.Syntax.Operator

set_option relaxedAutoImplicit false
set_option autoImplicit false

namespace Scriptlet

/-! ### The trees -/

mutual

/-- **Expressions.** -/
inductive Expr where
  /-- A number. -/
  | number (value : Float)
  /-- A variable. -/
  | name (name : String)
  /-- A binary operation. -/
  | binary (operator : Operator) (left right : Expr)
  /-- An assignment to a target, which only a name can be. -/
  | assign (target value : Expr)
  /-- A call. -/
  | call (callee : Expr) (arguments : List Expr)
  /-- The property of an object that is named after a point, which only a name can do. -/
  | dot (object property : Expr)
  /-- The property of an object whose name is computed. -/
  | index (object property : Expr)
  /-- An object, given by its entries. -/
  | object (entries : List Entry)
  /-- The declaration of a function. -/
  | function (name : String) (parameters : List String) (body : List Stmt)

/-- Entries of an object. -/
inductive Entry where
  /-- A key alone, which stands for the variable of that name. -/
  | shorthand (key : String)
  /-- A key with its value. -/
  | pair (key : String) (value : Expr)

/-- **Statements.** -/
inductive Stmt where
  /-- The declaration of a variable, constant or not, with or without a value. -/
  | declare (constant : Bool) (name : String) (value : Option Expr)
  /-- An expression. -/
  | expr (expression : Expr)

end

/-- **A program**: statements, run in order. -/
structure Program where
  /-- The statements. -/
  body : List Stmt

/-! ### Descriptions -/

namespace Expr

/-- What an expression is called in a message. -/
def kindName : Expr → String
  | .number _ => "numeric literal"
  | .name _ => "identifier"
  | .binary .. => "binary expression"
  | .assign .. => "assignment expression"
  | .call .. => "call expression"
  | .dot .. | .index .. => "member expression"
  | .object _ => "object literal"
  | .function .. => "function declaration"

/-- The name that an expression consists of, if it is one. -/
def name? : Expr → Option String
  | .name n => some n
  | _ => none

end Expr

/-! ### Sameness -/

mutual

/-- Whether two expressions are the same; numbers are compared as numbers, so the two zeros are
the same and what is not a number differs from itself. -/
def Expr.same : Expr → Expr → Bool
  | .number x, .number y => x == y
  | .name a, .name b => a == b
  | .binary op a b, .binary op' a' b' => decide (op = op') && a.same a' && b.same b'
  | .assign a b, .assign a' b' => a.same a' && b.same b'
  | .call a as, .call b bs => a.same b && sameExprs as bs
  | .dot a b, .dot a' b' => a.same a' && b.same b'
  | .index a b, .index a' b' => a.same a' && b.same b'
  | .object as, .object bs => sameEntries as bs
  | .function f ps body, .function g qs body' => f == g && ps == qs && sameStmts body body'
  | _, _ => false

/-- Whether two lists of expressions are the same. -/
def sameExprs : List Expr → List Expr → Bool
  | [], [] => true
  | a :: as, b :: bs => a.same b && sameExprs as bs
  | _, _ => false

/-- Whether two lists of entries are the same. -/
def sameEntries : List Entry → List Entry → Bool
  | [], [] => true
  | a :: as, b :: bs => a.same b && sameEntries as bs
  | _, _ => false

/-- Whether two entries are the same. -/
def Entry.same : Entry → Entry → Bool
  | .shorthand k, .shorthand l => k == l
  | .pair k a, .pair l b => k == l && a.same b
  | _, _ => false

/-- Whether two lists of statements are the same. -/
def sameStmts : List Stmt → List Stmt → Bool
  | [], [] => true
  | a :: as, b :: bs => a.same b && sameStmts as bs
  | _, _ => false

/-- Whether two statements are the same. -/
def Stmt.same : Stmt → Stmt → Bool
  | .declare c n none, .declare d m none => c == d && n == m
  | .declare c n (some a), .declare d m (some b) => c == d && n == m && a.same b
  | .expr a, .expr b => a.same b
  | _, _ => false

end

/-- Whether two programs are the same. -/
def Program.same (p q : Program) : Bool := sameStmts p.body q.body

end Scriptlet
