/-
**What is reported of a source that is no script.**

The error of a failed parse is put together from the reports of many attempts.  It is coherent all
the same.  It is about an unexpected token, with what could stand there, or about something that was
read as it should be and is not allowed; and it covers just that token, or just the tokens of what
is not allowed.

Main definitions:

* `Scriptlet.IsBoundary`, `Scriptlet.Span.Within` — spans between the characters of a source;
* `Scriptlet.SyntaxError.ReasonIn` — **the errors that there are**, with what they are about.

Main results:

* `Scriptlet.Program.reasonIn_of_error` — every error is about something among the tokens;
* `Scriptlet.Program.error_coherent` — **the errors of sources are coherent**.
-/

import Scriptlet.Proofs.Syntax.Numerals

set_option relaxedAutoImplicit false
set_option autoImplicit false

namespace Scriptlet

open Scriptlet.Parser Scriptlet.Grammar

/-! ### Spans in a source -/

/-- An offset between two characters of a source, or at one of its ends. -/
def IsBoundary (source : String) (offset : Nat) : Prop :=
  ∃ front back, source = front ++ back ∧ offset = front.utf8ByteSize

/-- **A span within a source**, from one boundary to another one that is not in front of it. -/
structure Span.Within (span : Span) (source : String) : Prop where
  /-- The span does not stop in front of its start. -/
  le : span.start ≤ span.stop
  /-- It stops in the source. -/
  stop_le : span.stop ≤ source.utf8ByteSize
  /-- It starts between two characters. -/
  start : IsBoundary source span.start
  /-- It stops between two characters. -/
  stop : IsBoundary source span.stop

theorem Span.Cuts.within {span : Span} {source front text back : String}
    (h : span.Cuts source front text back) : span.Within source where
  le := by
    rw [h.start_eq, h.stop_eq]
    omega
  stop_le := by
    rw [h.source_eq, h.stop_eq, String.utf8ByteSize_append, String.utf8ByteSize_append]
    omega
  start := ⟨front, text ++ back, by rw [h.source_eq, String.append_assoc], h.start_eq⟩
  stop := ⟨front ++ text, back, h.source_eq, by rw [h.stop_eq, String.utf8ByteSize_append]⟩

section Tokens

variable {source : String}

/-- The tokens of a source are within it. -/
theorem within_of_mem_scan {tok : Token} (h : tok ∈ (scan source).tokens) :
    tok.span.Within source := by
  rw [tokens_scan] at h
  rcases List.mem_append.1 h with h | h
  · obtain ⟨o, piece, hplace, -, -, -, hspan⟩ := exists_place_of_mem h
    obtain ⟨front, back, hcuts⟩ := exists_cuts hplace
    rw [hspan]
    exact hcuts.within
  · have hcuts : tok.span.Cuts source source "" "" := by
      rw [List.mem_singleton.1 h]
      exact ⟨by simp, rfl, by simp⟩
    exact hcuts.within

/-- The tokens of a source stand in order. -/
theorem pairwise_start_scan :
    (scan source).tokens.Pairwise fun a b => a.span.start ≤ b.span.start := by
  rw [tokens_scan]
  refine List.pairwise_append.2 ⟨pairwise_tokens.imp fun h => by omega,
    List.pairwise_singleton _ _, fun a ha b hb => ?_⟩
  have hwithin : a.span.Within source := by
    refine within_of_mem_scan ?_
    rw [tokens_scan]
    exact List.mem_append_left _ ha
  rw [List.mem_singleton.1 hb]
  exact Nat.le_trans hwithin.le hwithin.stop_le

/-- From the start of one token to the stop of a later one. -/
theorem within_of_append {front mid back : List Token} {a b : Token}
    (h : (scan source).tokens = front ++ (a :: mid ++ b :: back)) :
    (Span.mk a.span.start b.span.stop).Within source := by
  have ha : a.span.Within source := within_of_mem_scan (h ▸ by simp)
  have hb : b.span.Within source := within_of_mem_scan (h ▸ by simp)
  have hordered : (scan source).tokens.Pairwise fun a b => a.span.start ≤ b.span.start :=
    pairwise_start_scan
  rw [h, List.pairwise_append, List.cons_append, List.pairwise_cons] at hordered
  have hle : a.span.start ≤ b.span.start := hordered.2.1.1 b (by simp)
  exact ⟨Nat.le_trans hle hb.le, hb.stop_le, ha.start, hb.stop⟩

end Tokens

/-! ### Errors -/

/-- **The errors that there are**, with what they are about among some tokens. -/
inductive SyntaxError.ReasonIn (tokens : List Token) : SyntaxError → Prop
  /-- A token cannot stand where it stands; something else could. -/
  | unexpected {tok : Token} {expected : List String} (htok : tok ∈ tokens)
      (hexpected : expected ≠ []) :
      ReasonIn tokens ⟨"unexpected token", some tok.describe, expected, tok.span⟩
  /-- A parameter is no name: the first of some arguments between parentheses that is none. -/
  | parameter {front mid back : List Token} {o c : Token} {es : List Expr} {e : Expr}
      {expected : List String} (htokens : tokens = front ++ (o :: mid ++ c :: back))
      (ho : o.kind = .openParen) (hc : c.kind = .closeParen)
      (hes : Derives .arguments (o :: mid ++ c :: back) back es)
      (he : es.find? (·.name?.isNone) = some e) :
      ReasonIn tokens ⟨"function parameters must be identifiers, found " ++ e.kindName, none,
        expected, ⟨o.span.start, c.span.stop⟩⟩
  /-- What is behind a point is no name. -/
  | property {front mid back : List Token} {d last : Token} {e : Expr} {expected : List String}
      (htokens : tokens = front ++ (d :: mid ++ last :: back)) (hd : d.kind = .dot)
      (he : Derives .primary (mid ++ last :: back) back e) (hname : e.name? = none) :
      ReasonIn tokens ⟨"cannot use dot operator without right hand side being an identifier, found "
        ++ e.kindName, none, expected, ⟨d.span.start, last.span.stop⟩⟩

/-- Only the last token is the end of the input. -/
theorem kind_ne_endOfInput {source : String} {tok : Token}
    (h : tok ∈ (placed 0 (lexemes source.toList)).filterMap tokenAt) :
    tok.kind ≠ .endOfInput := by
  intro hend
  have hkind := kind_of_place h
  rw [hend, if_neg (by decide)] at hkind
  rcases hkind with hnumber | ⟨c, -, hmark⟩
  · cases hnumber
  · exact (CharClass.of_markKind? hmark).2.2 rfl

/-- A report about a token is about the one at which it stands, and it expects something there. -/
theorem exists_of_unexpected {source : String} {report : Report}
    (h : anyProgram (endOffset (scan source).tokens) (.ofList (scan source).tokens)
      = .error report) (hcomplaint : report.complaint = .unexpected) :
    ∃ tok ∈ (scan source).tokens, report.found = some tok ∧ report.span = tok.span ∧
      report.expected ≠ [] := by
  rw [tokens_scan] at h ⊢
  obtain ⟨hfits, hle⟩ := fits_of_error (fun tok => kind_ne_endOfInput) rfl h
  have hpos : 0 < report.left := by
    have hbarrier := hfits.barrier _ (Or.inl rfl) (List.suffix_append _ _)
    rw [hcomplaint] at hbarrier
    exact hbarrier.resolve_right id
  obtain ⟨front, tok, back, hsplit, hleft⟩ := exists_split hpos hle
  exact ⟨tok, by rw [hsplit]; simp,
    hfits.found tok back (by rw [hsplit]; exact List.suffix_append _ _) hleft hcomplaint⟩

/-- **Every error is about something among the tokens.** -/
theorem Program.reasonIn_of_error {source : String} {error : SyntaxError}
    (h : Program.ofSource source = .error error) : error.ReasonIn (scan source).tokens := by
  obtain ⟨report, hrun, rfl, hfounded⟩ := Program.founded_of_error h
  cases hfounded with
  | unexpected left span found expected =>
      obtain ⟨tok, htok, hfound, hspan, hexpected⟩ := exists_of_unexpected hrun rfl
      obtain rfl : found = some tok := hfound
      obtain rfl : span = tok.span := hspan
      refine .unexpected htok fun hnone => ?_
      obtain ⟨e, he⟩ := List.exists_mem_of_ne_nil _ hexpected
      have hmem := Report.mem_expected_toError.2 ⟨e, he, rfl⟩
      rw [Report.toError, hnone] at hmem
      cases hmem
  | parameter left expected htokens ho hc hes he => exact .parameter htokens ho hc hes he
  | property left expected htokens hd he hname => exact .property htokens hd he hname
  | numeral left expected htok hkind hread =>
      exact absurd rfl (Report.Founded.complaint_ne_numeral
        (.numeral left expected htok hkind hread) _)

/-! ### Messages -/

/-- Texts that begin differently are different. -/
theorem append_ne_append {a b : String} (n : Nat) (ha : n ≤ a.toList.length)
    (hb : n ≤ b.toList.length) (hne : a.toList.take n ≠ b.toList.take n) (s t : String) :
    a ++ s ≠ b ++ t := by
  intro h
  have htake := congrArg (fun text => text.toList.take n) h
  rw [String.toList_append, String.toList_append, List.take_append_of_le_length ha,
    List.take_append_of_le_length hb] at htake
  exact hne htake

/-- The beginnings of messages. -/
def SyntaxError.openings : List String :=
  ["unexpected token", "function parameters must be identifiers, found ",
    "cannot use dot operator without right hand side being an identifier, found "]

/-- Every message begins in one of these ways. -/
theorem SyntaxError.ReasonIn.exists_opening {tokens : List Token} {error : SyntaxError}
    (h : error.ReasonIn tokens) :
    ∃ front ∈ SyntaxError.openings, ∃ rest, error.message = front ++ rest := by
  cases h with
  | unexpected => exact ⟨_, .head _, "", String.append_empty.symm⟩
  | parameter => exact ⟨_, .tail _ (.head _), _, rfl⟩
  | property => exact ⟨_, .tail _ (.tail _ (.head _)), _, rfl⟩

/-- No message begins in another way. -/
theorem SyntaxError.ReasonIn.message_ne {tokens : List Token} {error : SyntaxError}
    (h : error.ReasonIn tokens) (other text : String)
    (hother : ∀ front ∈ SyntaxError.openings, 3 ≤ front.toList.length ∧
      3 ≤ other.toList.length ∧ front.toList.take 3 ≠ other.toList.take 3) :
    error.message ≠ other ++ text := by
  obtain ⟨front, hfront, rest, hmessage⟩ := h.exists_opening
  obtain ⟨hfront, hlength, hne⟩ := hother front hfront
  rw [hmessage]
  exact append_ne_append 3 hfront hlength hne rest text

/-- A token is found just where it is unexpected. -/
theorem SyntaxError.ReasonIn.found_eq_none_iff {tokens : List Token} {error : SyntaxError}
    (h : error.ReasonIn tokens) : error.found = none ↔ error.message ≠ "unexpected token" := by
  cases h with
  | unexpected => exact ⟨fun h => (by cases h), fun h => absurd rfl h⟩
  | parameter =>
      exact ⟨fun _ => append_ne (show _ = some 'f' by decide) (show _ = some 'u' by decide)
        (by decide), fun _ => rfl⟩
  | property =>
      exact ⟨fun _ => append_ne (show _ = some 'c' by decide) (show _ = some 'u' by decide)
        (by decide), fun _ => rfl⟩

/-- What an error is about is within the source. -/
theorem SyntaxError.ReasonIn.within {source : String} {error : SyntaxError}
    (h : error.ReasonIn (scan source).tokens) : error.span.Within source := by
  cases h with
  | unexpected htok => exact within_of_mem_scan htok
  | parameter htokens => exact within_of_append htokens
  | property htokens => exact within_of_append htokens

/-- What is expected is in order. -/
theorem Program.pairwise_expected_of_error {source : String} {error : SyntaxError}
    (h : Program.ofSource source = .error error) : error.expected.Pairwise (· < ·) := by
  obtain ⟨report, -, rfl, -⟩ := Program.founded_of_error h
  exact report.pairwise_expected_toError

/-- **The errors of sources are coherent.**

An error is about an unexpected token, and then it says which one it is and covers it, and something
else could stand there; or it is about the first of some arguments between parentheses that is no
name, or about an innermost expression behind a point that is none, and then it covers the tokens
from the parenthesis or the point on, and says of which kind the expression is.  It complains of
nothing else.  In any case it covers the source from one boundary between characters to another
one, and what could stand there is in order, each once. -/
theorem Program.error_coherent {source : String} {error : SyntaxError}
    (h : Program.ofSource source = .error error) :
    error.ReasonIn (scan source).tokens ∧
      (error.found = none ↔ error.message ≠ "unexpected token") ∧
      (∀ text, error.message ≠ "invalid numeric literal" ++ text) ∧
      (∀ text, error.message ≠ "unclosed delimiter" ++ text) ∧
      (∀ text, error.message ≠ "unknown parse failure" ++ text) ∧
      error.span.Within source ∧ error.expected.Pairwise (· < ·) := by
  have hreason := Program.reasonIn_of_error h
  exact ⟨hreason, hreason.found_eq_none_iff, fun text => hreason.message_ne _ text (by decide),
    fun text => hreason.message_ne _ text (by decide),
    fun text => hreason.message_ne _ text (by decide), hreason.within,
    Program.pairwise_expected_of_error h⟩

/-- An assignment among the parameters of a function is what the error is about. -/
theorem Program.error_coherent_parameter :
    let error : SyntaxError :=
      ⟨"function parameters must be identifiers, found assignment expression", none, [], ⟨4, 14⟩⟩
    Program.ofSource "fn f(a, b = c) {}" = .error error ∧
      error.ReasonIn (scan "fn f(a, b = c) {}").tokens := by
  intro error
  have hrun : (match Program.ofSource "fn f(a, b = c) {}" with
      | .ok _ => none
      | .error found => some found) = some error := by decide +kernel
  cases h : Program.ofSource "fn f(a, b = c) {}" with
  | ok program => rw [h] at hrun; cases hrun
  | error found =>
      rw [h] at hrun
      obtain rfl := Option.some_inj.1 hrun
      exact ⟨rfl, (Program.error_coherent h).1⟩

end Scriptlet
