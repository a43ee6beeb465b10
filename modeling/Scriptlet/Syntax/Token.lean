/-
**Tokens.**

A token is a classified piece of a source: its kind, its text and the bytes it covers.

Main definitions:

* `Scriptlet.Span` — a range of bytes of a source;
* `Scriptlet.Token.Kind` — the kinds of tokens, with the words that describe them in messages;
* `Scriptlet.Token.Kind.keyword?` — the words that are not names;
* `Scriptlet.Token` — **the tokens**, and `Scriptlet.Token.describe`, which names one in a message.
-/

import Scriptlet.Syntax.Operator
import Scriptlet.Text.Quoted

set_option relaxedAutoImplicit false
set_option autoImplicit false

namespace Scriptlet

/-! ### Spans -/

/-- A range of bytes of a source, from `start` up to but not including `stop`. -/
structure Span where
  /-- The offset of the first byte. -/
  start : Nat
  /-- The offset behind the last byte. -/
  stop : Nat
deriving DecidableEq, Repr

namespace Span

/-- A range in a message: both offsets. -/
def text (span : Span) : String := toString span.start ++ ".." ++ toString span.stop

/-- The range, further back by a number of bytes. -/
def shift (bytes : Nat) (span : Span) : Span := ⟨span.start + bytes, span.stop + bytes⟩

end Span

/-! ### Kinds of tokens -/

/-- The kinds of tokens. -/
inductive Token.Kind where
  | number
  | identifier
  | equals
  | comma
  | colon
  | openParen
  | closeParen
  | semicolon
  | operator
  | openBrace
  | closeBrace
  | openBracket
  | closeBracket
  | dot
  | letWord
  | constWord
  | fnWord
  | endOfInput
deriving DecidableEq, Repr

namespace Token.Kind

/-- The kind in a message. -/
def describe : Token.Kind → String
  | .number => "number"
  | .identifier => "identifier"
  | .equals => "'='"
  | .comma => "','"
  | .colon => "':'"
  | .openParen => "'('"
  | .closeParen => "')'"
  | .semicolon => "';'"
  | .operator => "operator"
  | .openBrace => "'\x7b'"
  | .closeBrace => "'\x7d'"
  | .openBracket => "'['"
  | .closeBracket => "']'"
  | .dot => "'.'"
  | .letWord => "'let'"
  | .constWord => "'const'"
  | .fnWord => "'fn'"
  | .endOfInput => "end of input"

/-- The name of a kind, as listings of tokens show it. -/
def name : Token.Kind → String
  | .number => "Number"
  | .identifier => "Identifier"
  | .equals => "Equals"
  | .comma => "Comma"
  | .colon => "Colon"
  | .openParen => "OpenParen"
  | .closeParen => "CloseParen"
  | .semicolon => "Semicolon"
  | .operator => "BinaryOperator"
  | .openBrace => "OpenBrace"
  | .closeBrace => "CloseBrace"
  | .openBracket => "OpenBracket"
  | .closeBracket => "CloseBracket"
  | .dot => "Dot"
  | .letWord => "Let"
  | .constWord => "Const"
  | .fnWord => "Fn"
  | .endOfInput => "EndOfInput"

/-- All kinds of tokens. -/
def all : List Token.Kind :=
  [.number, .identifier, .equals, .comma, .colon, .openParen, .closeParen, .semicolon, .operator,
    .openBrace, .closeBrace, .openBracket, .closeBracket, .dot, .letWord, .constWord, .fnWord,
    .endOfInput]

/-- The kind with a given name. -/
def ofName? (name : String) : Option Token.Kind := all.find? fun kind => kind.name = name

/-- The keyword that a word is, if it is one. -/
def keyword? (word : String) : Option Token.Kind :=
  if word = "let" then some .letWord
  else if word = "const" then some .constWord
  else if word = "fn" then some .fnWord
  else none

/-- The kind of a word: its keyword, or else a name. -/
def ofWord (word : String) : Token.Kind := (keyword? word).getD .identifier

end Token.Kind

/-! ### Tokens -/

/-- **A token**: its kind, its text, and where it stands. -/
structure Token where
  /-- The kind of the token. -/
  kind : Token.Kind
  /-- The text of the token. -/
  text : String
  /-- The bytes that the token covers. -/
  span : Span
deriving DecidableEq, Repr

namespace Token

/-- Whether a token is the operator with a given symbol. -/
def isOperator (token : Token) (symbol : String) : Bool :=
  token.kind = .operator && token.text = symbol

/-- The operator that a token is, if it is one. -/
def operator? (token : Token) : Option Operator :=
  if token.kind = .operator then Operator.ofSymbol? token.text else none

/-- The token in a message: the end of the input by its name, a number or a name with its kind,
any other token by its text alone. -/
def describe (token : Token) : String :=
  match token.kind with
  | .endOfInput => "end of input"
  | .number | .identifier => token.kind.describe ++ " '" ++ token.text ++ "'"
  | _ => "'" ++ token.text ++ "'"

/-- The token, further back by a number of bytes. -/
def shift (bytes : Nat) (token : Token) : Token := { token with span := token.span.shift bytes }

/-- A line of a listing of tokens. -/
def listing (token : Token) : String :=
  token.kind.name ++ " " ++ quote token.text ++ " " ++ token.span.text

end Token

end Scriptlet
