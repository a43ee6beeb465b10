/-
**From characters to tokens.**

A source is cut into lexemes without losing a character.  A lexeme is a run of cased characters,
a run of digits, or one character of any other class.  Runs are as long as possible, so the cut is
found from the right: each character either joins the run that starts behind it or stands alone.
Words, numbers and marks are tokens; blanks are dropped silently, and every other character is
skipped and reported by its offset.

Main definitions:

* `Scriptlet.CharClass` — the classes of characters;
* `Scriptlet.Lexeme`, `Scriptlet.lexemes` — **the pieces of a source**;
* `Scriptlet.Scan`, `Scriptlet.scan` — **the tokens of a source** and the offsets of the characters
  that were skipped.

Main results:

* `Scriptlet.text_lexemes` — the lexemes of a source are the source, cut into pieces;
* `Scriptlet.lexemes_append` — cutting the parts of a source and gluing the pieces is cutting the
  source.
-/

import Scriptlet.Syntax.Token
import Scriptlet.Text.Cased

set_option relaxedAutoImplicit false
set_option autoImplicit false

namespace Scriptlet

/-! ### Classes of characters -/

/-- The classes of characters: what names are made of, digits, the characters that are tokens
alone, blanks, and all others. -/
inductive CharClass where
  | letter
  | digit
  | mark (kind : Token.Kind)
  | blank
  | unknown
deriving DecidableEq, Repr

namespace CharClass

/-- The kind of token that a character is by itself. -/
def markKind? : Char → Option Token.Kind
  | '(' => some .openParen
  | ')' => some .closeParen
  | '\x7b' => some .openBrace
  | '\x7d' => some .closeBrace
  | '[' => some .openBracket
  | ']' => some .closeBracket
  | '=' => some .equals
  | ';' => some .semicolon
  | ':' => some .colon
  | ',' => some .comma
  | '.' => some .dot
  | '+' => some .operator
  | '-' => some .operator
  | '*' => some .operator
  | '/' => some .operator
  | '%' => some .operator
  | _ => none

/-- Whether a character is a blank: a space, a tab, a line feed or a carriage return. -/
def isBlank (c : Char) : Bool := c = ' ' || c = '\t' || c = '\r' || c = '\n'

/-- The class of a character. -/
def of (c : Char) : CharClass :=
  if Decimal.isDigit c then .digit
  else if isBlank c then .blank
  else match markKind? c with
    | some kind => .mark kind
    | none => if isCased c then .letter else .unknown

/-- Whether neighbouring characters of a class belong to one piece. -/
def joins : CharClass → Bool
  | .letter | .digit => true
  | _ => false

end CharClass

/-! ### Lexemes -/

/-- A piece of a source: characters of one class. -/
structure Lexeme where
  /-- The class of the characters. -/
  sort : CharClass
  /-- The characters. -/
  chars : List Char
deriving DecidableEq, Repr

namespace Lexeme

/-- The text of a piece. -/
def text (piece : Lexeme) : String := String.ofList piece.chars

/-- The number of bytes of a piece. -/
def size (piece : Lexeme) : Nat := piece.text.utf8ByteSize

/-- The kind of token that a piece is; blanks and unknown characters are none. -/
def kind? (piece : Lexeme) : Option Token.Kind :=
  match piece.sort with
  | .letter => some (Token.Kind.ofWord piece.text)
  | .digit => some .number
  | .mark kind => some kind
  | .blank | .unknown => none

end Lexeme

/-- Puts a character in front of the pieces of a source: it joins the first piece if both belong
to one run. -/
def pushChar (c : Char) : List Lexeme → List Lexeme
  | [] => [⟨CharClass.of c, [c]⟩]
  | piece :: pieces =>
      if CharClass.of c = piece.sort ∧ piece.sort.joins = true then
        ⟨piece.sort, c :: piece.chars⟩ :: pieces
      else ⟨CharClass.of c, [c]⟩ :: piece :: pieces

/-- **The pieces of a source.** -/
def lexemes (chars : List Char) : List Lexeme := chars.foldr pushChar []

/-- The text of a list of pieces. -/
def joinedText (pieces : List Lexeme) : List Char := pieces.flatMap Lexeme.chars

theorem joinedText_pushChar (c : Char) (pieces : List Lexeme) :
    joinedText (pushChar c pieces) = c :: joinedText pieces := by
  cases pieces with
  | nil => rfl
  | cons piece pieces =>
      rw [pushChar]
      split <;> rfl

/-- The pieces of a source are the source, cut into pieces. -/
theorem text_lexemes (chars : List Char) : joinedText (lexemes chars) = chars := by
  induction chars with
  | nil => rfl
  | cons c chars ih => rw [lexemes, List.foldr_cons, joinedText_pushChar, ← lexemes, ih]

/-- Cutting a source that starts with some text is pushing that text onto the pieces of the
rest. -/
theorem lexemes_append (front back : List Char) :
    lexemes (front ++ back) = front.foldr pushChar (lexemes back) := by
  rw [lexemes, List.foldr_append, ← lexemes]

/-! ### Tokens of a source -/

/-- What reading a source into tokens yields. -/
structure Scan where
  /-- The tokens, the last of them the end of the input. -/
  tokens : List Token
  /-- The offsets of the characters that were skipped. -/
  skipped : List Nat
deriving DecidableEq, Repr

namespace Scan

/-- Reads a piece at an offset, in front of what was read behind it. -/
def push (offset : Nat) (piece : Lexeme) (scan : Scan) : Scan :=
  match piece.kind? with
  | some kind =>
      { scan with tokens := ⟨kind, piece.text, offset, offset + piece.size⟩ :: scan.tokens }
  | none =>
      if piece.sort = .unknown then { scan with skipped := offset :: scan.skipped } else scan

/-- Reads pieces from an offset on. -/
def ofLexemes (offset : Nat) : List Lexeme → Scan
  | [] => ⟨[⟨.endOfInput, "", offset, offset⟩], []⟩
  | piece :: pieces => push offset piece (ofLexemes (offset + piece.size) pieces)

end Scan

/-- **Reads a source into tokens.**  This never fails. -/
def scan (source : String) : Scan := Scan.ofLexemes 0 (lexemes source.toList)

end Scriptlet
