/-
**Events of a run.**

Reading and running a script leaves a trail of events: characters that were skipped, what was read,
and the calls that were made.

Main definitions:

* `Scriptlet.Event` — the events;
* `Scriptlet.Event.line` — an event as a line of a log: its level, its message and its fields;
* `Scriptlet.Scan.events` — the events of reading a source into tokens.
-/

import Scriptlet.Syntax.Lexeme

set_option relaxedAutoImplicit false
set_option autoImplicit false

namespace Scriptlet

/-- The events of a run. -/
inductive Event where
  /-- A character was skipped. -/
  | skipped (offset : Nat)
  /-- A source was read into tokens. -/
  | tokenized (count : Nat)
  /-- Tokens were read into a program. -/
  | parsed (statements : Nat)
  /-- A native function is about to be called. -/
  | callingNative (name : String) (arguments : Nat)
  /-- A function is about to be called. -/
  | calling (name : String) (arguments : Nat)
deriving DecidableEq, Repr

/-- An event as a line of a log. -/
def Event.line : Event → String
  | .skipped offset => "warn unrecognized character found in source offset=" ++ toString offset
  | .tokenized count => "debug tokenized source count=" ++ toString count
  | .parsed statements => "debug parsed program statements=" ++ toString statements
  | .callingNative name arguments =>
      "trace calling native function name=" ++ name ++ " args=" ++ toString arguments
  | .calling name arguments =>
      "trace calling function name=" ++ name ++ " args=" ++ toString arguments

/-- The events of reading a source: every skipped character, then the number of tokens. -/
def Scan.events (scan : Scan) : List Event :=
  scan.skipped.map .skipped ++ [.tokenized scan.tokens.length]

end Scriptlet
