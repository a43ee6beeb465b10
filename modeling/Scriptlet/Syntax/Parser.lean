/-
**Parsers that remember how far other ways got.**

A parser reads a value off the front of a list of tokens.  When it succeeds it also hands on the
furthest report among the ways that it tried and did not take; if a later step fails no further
on, what those ways expected belongs into the report of the failure.  When it fails nothing has
been read.

Main definitions:

* `Scriptlet.Remaining` — the tokens that are left, and their number;
* `Scriptlet.Parser` — **the parsers**, a monad in which each step starts where the one before it
  ended;
* `Scriptlet.Parser.token`, `Scriptlet.Parser.operator` — parsers of one token;
* `Scriptlet.Parser.orElse`, `Scriptlet.Parser.optional`, `Scriptlet.Parser.many`,
  `Scriptlet.Parser.separated` — alternatives and repetition;
* `Scriptlet.Parser.checked` — what was read must pass a check.

Main results:

* `Scriptlet.Parser.bind_assoc`, `Scriptlet.Parser.pure_bind`, `Scriptlet.Parser.bind_pure` — the
  steps of a parser may be grouped in any way.
-/

import Scriptlet.Syntax.Report

set_option relaxedAutoImplicit false
set_option autoImplicit false

namespace Scriptlet

/-! ### Tokens that are left -/

/-- The tokens that are left, and their number, which reports and repetitions ask for again and
again. -/
structure Remaining where
  /-- The tokens. -/
  tokens : List Token
  /-- Their number. -/
  count : Nat
  /-- The number is that of the tokens. -/
  count_eq : count = tokens.length

namespace Remaining

/-- Tokens with their number. -/
def ofList (tokens : List Token) : Remaining := ⟨tokens, tokens.length, rfl⟩

/-- What is left is known by its tokens. -/
theorem eq_ofList (input : Remaining) : input = ofList input.tokens := by
  obtain ⟨tokens, count, rfl⟩ := input
  rfl

/-- The first token, and what is left behind it. -/
def next? : Remaining → Option (Token × Remaining)
  | ⟨[], _, _⟩ => none
  | ⟨token :: tokens, count, h⟩ => some (token, ⟨tokens, count - 1, by rw [h]; rfl⟩)

@[simp] theorem next?_nil : (ofList []).next? = none := rfl

@[simp] theorem next?_cons (token : Token) (tokens : List Token) :
    (ofList (token :: tokens)).next? = some (token, ofList tokens) := rfl

end Remaining

/-! ### Parsers -/

/-- What a parser that succeeded yields. -/
structure Parsed (α : Type) where
  /-- The value that was read. -/
  value : α
  /-- The tokens behind it. -/
  rest : Remaining
  /-- The furthest report among the ways that were not taken. -/
  missed : Option Report

/-- **A parser**: from the offset of the end of the input and the tokens that are left, what was
read or why nothing could be. -/
def Parser (α : Type) := Nat → Remaining → Except Report (Parsed α)

namespace Parser

variable {α β γ : Type}

/-! ### Steps -/

/-- The parser that reads nothing. -/
protected def pure (value : α) : Parser α := fun _ input => .ok ⟨value, input, none⟩

/-- One parser after another: what the first one missed is remembered, also when the second one
fails. -/
protected def bind (p : Parser α) (f : α → Parser β) : Parser β := fun eoi input =>
  match p eoi input with
  | .error report => .error report
  | .ok first =>
      match f first.value eoi first.rest with
      | .error report => .error (report.after first.missed)
      | .ok second => .ok ⟨second.value, second.rest, Report.merge first.missed second.missed⟩

instance : Monad Parser where
  pure := Parser.pure
  bind := Parser.bind

theorem bind_def (p : Parser α) (f : α → Parser β) (eoi : Nat) (input : Remaining) :
    (p >>= f) eoi input
      = match p eoi input with
        | .error report => .error report
        | .ok first =>
            match f first.value eoi first.rest with
            | .error report => .error (report.after first.missed)
            | .ok second =>
                .ok ⟨second.value, second.rest, Report.merge first.missed second.missed⟩ := rfl

theorem pure_def (value : α) (eoi : Nat) (input : Remaining) :
    (pure value : Parser α) eoi input = .ok ⟨value, input, none⟩ := rfl

theorem pure_bind (value : α) (f : α → Parser β) : (pure value >>= f) = f value := by
  funext eoi input
  rw [bind_def, pure_def]
  simp only [Report.none_merge, Report.after]
  cases f value eoi input <;> rfl

theorem bind_pure (p : Parser α) : (p >>= pure) = p := by
  funext eoi input
  rw [bind_def]
  cases p eoi input with
  | error report => rfl
  | ok first => simp [pure_def]

theorem after_after (report : Report) (a b : Option Report) :
    (report.after b).after a = report.after (Report.merge a b) := by
  cases a <;> cases b <;> simp [Report.after, Report.merge, Report.furthest_assoc]

/-- The steps of a parser may be grouped in any way. -/
theorem bind_assoc (p : Parser α) (f : α → Parser β) (g : β → Parser γ) :
    (p >>= f >>= g) = (p >>= fun value => f value >>= g) := by
  funext eoi input
  simp only [bind_def]
  cases p eoi input with
  | error report => rfl
  | ok first =>
      dsimp only
      cases f first.value eoi first.rest with
      | error report => rfl
      | ok second =>
          dsimp only
          cases g second.value eoi second.rest with
          | error report => simp [after_after]
          | ok third => simp [Report.merge_assoc]

/-! ### One token -/

/-- The report that what is left cannot stand where it stands. -/
def unexpected (eoi : Nat) (input : Remaining) (expected : List Expectation) : Report :=
  match input.next? with
  | none => ⟨0, ⟨eoi, eoi⟩, .unexpected, none, []⟩
  | some (token, _) => ⟨input.count, token.span, .unexpected, some token, expected⟩

/-- Reads one token, if it is of use; the expectations are what could be. -/
def satisfy (use : Token → Option α) (expected : List Expectation) : Parser α :=
  fun eoi input =>
    match input.next? with
    | none => .error (unexpected eoi input expected)
    | some (token, rest) =>
        match use token with
        | some value => .ok ⟨value, rest, none⟩
        | none => .error (unexpected eoi input expected)

/-- Reads a token of a kind. -/
def token (kind : Token.Kind) : Parser Token :=
  satisfy (fun token => if token.kind = kind then some token else none) [.kind kind]

/-- Reads one of some operators. -/
def operator (allowed : List Operator) : Parser Operator :=
  satisfy (fun token => token.operator?.filter fun op => allowed.contains op)
    (allowed.map .operator)

/-- Reads nothing, where nothing is left. -/
def finish : Parser Unit := fun eoi input =>
  match input.next? with
  | none => .ok ⟨(), input, none⟩
  | some _ => .error (unexpected eoi input [])

/-- Reads nothing and fails. -/
def stuck : Parser α := fun eoi input => .error (unexpected eoi input [])

/-! ### Alternatives -/

/-- Reads what the first parser reads, or else what the second one does.  If both fail the report
that got further counts; if the second one succeeds the report of the first is forgotten. -/
def orElse (p q : Parser α) : Parser α := fun eoi input =>
  match p eoi input with
  | .ok first => .ok first
  | .error report =>
      match q eoi input with
      | .ok second => .ok second
      | .error report' => .error (report.furthest report')

/-- Reads what a parser reads, or nothing; then its report is remembered. -/
def optional (p : Parser α) : Parser (Option α) := fun eoi input =>
  match p eoi input with
  | .ok first => .ok { first with value := some first.value }
  | .error report => .ok ⟨none, input, some report⟩

/-! ### Repetition -/

/-- What is read in front of more of the same. -/
def prepend (first : Parsed α) (more : Parsed (List α)) : Parsed (List α) :=
  ⟨first.value :: more.value, more.rest, Report.merge first.missed more.missed⟩

/-- Reads values one after another, at most a given number, until the parser fails. -/
def upTo (p : Parser α) (eoi : Nat) : Nat → Remaining → Parsed (List α)
  | 0, input => ⟨[], input, none⟩
  | count + 1, input =>
      match p eoi input with
      | .error report => ⟨[], input, some report⟩
      | .ok first => prepend first (upTo p eoi count first.rest)

/-- Reads values one after another until the parser fails; its last report is remembered.  There
are no more values than tokens, since a value takes at least one token. -/
def many (p : Parser α) : Parser (List α) := fun eoi input =>
  .ok (upTo p eoi (input.count + 1) input)

/-- Reads values behind separators, at most a given number, as long as a separator and a value
follow.  A separator without a value behind it is read only where that is allowed. -/
def separatedUpTo (item : Parser α) (separator : Token.Kind) (trailing : Bool) (eoi : Nat) :
    Nat → Remaining → Parsed (List α)
  | 0, input => ⟨[], input, none⟩
  | count + 1, input =>
      match token separator eoi input with
      | .error report => ⟨[], input, some report⟩
      | .ok mark =>
          match item eoi mark.rest with
          | .error report => ⟨[], if trailing then mark.rest else input, some report⟩
          | .ok first =>
              prepend first (separatedUpTo item separator trailing eoi count first.rest)

/-- Reads values with separators between them, possibly none at all; a last separator may stand
behind the values where that is allowed. -/
def separated (item : Parser α) (separator : Token.Kind) (trailing : Bool) : Parser (List α) :=
  fun eoi input =>
    match item eoi input with
    | .error report => .ok ⟨[], input, some report⟩
    | .ok first =>
        .ok (prepend first
          (separatedUpTo item separator trailing eoi (input.count + 1) first.rest))

/-! ### Checks -/

/-- The bytes from the first to the last of some tokens. -/
def coveredSpan (tokens : List Token) : Span :=
  match tokens.head?, tokens.getLast? with
  | some first, some last => ⟨first.span.start, last.span.stop⟩
  | _, _ => ⟨0, 0⟩

/-- Reads a value that must pass a check.  A complaint is about all tokens of the value, and stands
behind them. -/
def checked (p : Parser α) (check : α → Except Complaint β) : Parser β := fun eoi input =>
  match p eoi input with
  | .error report => .error report
  | .ok first =>
      match check first.value with
      | .ok value => .ok { first with value := value }
      | .error complaint =>
          let read := input.tokens.take (input.count - first.rest.count)
          .error ⟨first.rest.count, coveredSpan read, complaint, none, []⟩

end Parser

end Scriptlet
