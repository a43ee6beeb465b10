/-
**What parsers start with.**

Most parsers of the grammar start with a few kinds of tokens only.  In front of any other token they
fail at once, and the report stands at that token.  The ways of a choice start with different kinds,
so at most one of them gets past the first token.

Main definitions:

* `Scriptlet.Parser.Stops` — a parser fails on some tokens;
* `Scriptlet.Parser.Starts` — **which kinds of tokens a parser can start with**.

Main results:

* `Scriptlet.Grammar.starts_anyExpression`, `Scriptlet.Grammar.starts_anyStatement` — what
  expressions and statements start with.
-/

import Scriptlet.Proofs.Syntax.Soundness

set_option relaxedAutoImplicit false
set_option autoImplicit false

namespace Scriptlet

namespace Parser

variable {α β : Type}

/-! ### How parsers fail -/

/-- The parser fails on the tokens. -/
def Stops (p : Parser α) (tokens : List Token) : Prop :=
  ∀ eoi, ∃ report, p eoi (.ofList tokens) = .error report

theorem orElse_of_ok {p q : Parser α} {eoi : Nat} {input : Remaining} {first : Parsed α}
    (hp : p eoi input = .ok first) : orElse p q eoi input = .ok first := by rw [orElse, hp]

theorem orElse_of_error {p q : Parser α} {eoi : Nat} {input : Remaining} {report : Report}
    {second : Parsed α} (hp : p eoi input = .error report) (hq : q eoi input = .ok second) :
    orElse p q eoi input = .ok second := by rw [orElse, hp, hq]

theorem orElse_of_errors {p q : Parser α} {eoi : Nat} {input : Remaining} {a b : Report}
    (hp : p eoi input = .error a) (hq : q eoi input = .error b) :
    orElse p q eoi input = .error (a.furthest b) := by rw [orElse, hp, hq]

theorem satisfy_eq_error {use : Token → Option α} {expected : List Expectation} {eoi : Nat}
    {input : Remaining} {report : Report}
    (h : satisfy use expected eoi input = .error report) :
    report = unexpected eoi input expected := by
  rw [satisfy] at h
  split at h
  · exact (Except.error.inj h).symm
  · split at h
    · cases h
    · exact (Except.error.inj h).symm

/-- A token that is not of use is reported with what it could have been. -/
theorem satisfy_of_none {use : Token → Option α} {expected : List Expectation} {eoi : Nat}
    {tok : Token} {tokens : List Token} (h : use tok = none) :
    satisfy use expected eoi (.ofList (tok :: tokens))
      = .error ⟨tokens.length + 1, tok.span, .unexpected, some tok, expected⟩ := by
  simp only [satisfy, Remaining.next?_cons, h]
  rfl

/-- A token that is required and is not there. -/
theorem token_of_headKind_ne {kind : Token.Kind} {eoi : Nat} {tokens : List Token}
    (h : headKind tokens ≠ some kind) :
    token kind eoi (.ofList tokens)
      = .error (unexpected eoi (.ofList tokens) [.kind kind]) := by
  obtain ⟨report, hreport⟩ : ∃ report, token kind eoi (.ofList tokens) = .error report :=
    token_error h
  rw [hreport, satisfy_eq_error hreport]

/-! ### What parsers start with -/

/-- The parser starts with some kinds of tokens only: in front of others it fails at once. -/
def Starts (kinds : List Token.Kind) (p : Parser α) : Prop :=
  ∀ eoi tokens, Clear kinds tokens →
    ∃ report, p eoi (.ofList tokens) = .error report ∧ report.left = tokens.length

theorem unexpected_left (eoi : Nat) (tokens : List Token) (expected : List Expectation) :
    (unexpected eoi (.ofList tokens) expected).left = tokens.length := by
  cases tokens <;> rfl

namespace Starts

variable {kinds kinds' : List Token.Kind}

theorem stops {p : Parser α} (h : Starts kinds p) {tokens : List Token}
    (hclear : Clear kinds tokens) : Stops p tokens := fun eoi =>
  let ⟨report, hreport, _⟩ := h eoi tokens hclear
  ⟨report, hreport⟩

theorem mono {p : Parser α} (h : Starts kinds p) (hsub : kinds ⊆ kinds') : Starts kinds' p :=
  fun eoi tokens hclear => h eoi tokens (hclear.mono hsub)

theorem satisfy {use : Token → Option α} {expected : List Expectation}
    (h : ∀ tok value, use tok = some value → tok.kind ∈ kinds) :
    Starts kinds (satisfy use expected) := by
  intro eoi tokens hclear
  refine ⟨unexpected eoi (.ofList tokens) expected, ?_, unexpected_left _ _ _⟩
  cases tokens with
  | nil => rfl
  | cons tok tokens =>
      cases hu : use tok with
      | none => simp only [Parser.satisfy, Remaining.next?_cons, hu]
      | some value => exact absurd rfl (hclear _ (h _ _ hu))

theorem token (kind : Token.Kind) : Starts [kind] (token kind) := by
  refine .satisfy fun tok value h => ?_
  split at h
  · next hkind => exact hkind ▸ List.mem_singleton_self _
  · cases h

theorem operator (allowed : List Operator) : Starts [.operator] (operator allowed) := by
  refine .satisfy fun tok op h => ?_
  rw [Grammar.kind_of_operator? (Option.filter_eq_some_iff.1 h).1]
  exact List.mem_singleton_self _

theorem bind {p : Parser α} (h : Starts kinds p) (f : α → Parser β) : Starts kinds (p >>= f) := by
  intro eoi tokens hclear
  obtain ⟨report, hreport, hleft⟩ := h eoi tokens hclear
  exact ⟨report, bind_of_error hreport, hleft⟩

theorem checked {p : Parser α} (h : Starts kinds p) (check : α → Except Complaint β) :
    Starts kinds (checked p check) := by
  intro eoi tokens hclear
  obtain ⟨report, hreport, hleft⟩ := h eoi tokens hclear
  exact ⟨report, by rw [Parser.checked, hreport], hleft⟩

theorem orElse {p q : Parser α} (hp : Starts kinds p) (hq : Starts kinds' q) :
    Starts (kinds ++ kinds') (orElse p q) := by
  intro eoi tokens hclear
  obtain ⟨a, ha, hleft⟩ := hp eoi tokens (hclear.mono (List.subset_append_left _ _))
  obtain ⟨b, hb, hleft'⟩ := hq eoi tokens (hclear.mono (List.subset_append_right _ _))
  exact ⟨_, orElse_of_errors ha hb, by rw [Report.furthest_left]; omega⟩

end Starts

end Parser

namespace Grammar

open Scriptlet.Parser

/-! ### What the parsers of the grammar start with -/

section Starting

theorem starts_between {α : Type} (opening closing : Token.Kind) (inner : Parser α) :
    Starts [opening] (between opening closing inner) := (Starts.token opening).bind _

theorem starts_operation (allowed : List Operator) (operand : Parser Expr) :
    Starts [.operator] (operation allowed operand) := (Starts.operator allowed).bind _

variable (s : Parser Stmt) (e : Parser Expr)

theorem starts_function : Starts [.fnWord] (function s e) := (Starts.token _).bind _

theorem starts_primary : Starts Symbol.primary.firsts (primary s e) :=
  (((Starts.token _).bind _).bind _).orElse <|
    (((Starts.token _).checked _).bind _).orElse <|
      (starts_between _ _ _).orElse (starts_function s e)

theorem starts_dotAccess : Starts [.dot] (dotAccess s e) := ((Starts.token _).bind _).checked _

theorem starts_indexAccess : Starts [.openBracket] (indexAccess e) := (starts_between _ _ _).bind _

theorem starts_object : Starts [.openBrace] (object e) := (starts_between _ _ _).bind _

theorem starts_sum : Starts Symbol.sum.firsts (sum s e) :=
  ((((starts_primary s e).bind _).bind _).bind _).bind _

theorem starts_anyExpression : Starts Symbol.expression.firsts anyExpression := by
  rw [anyExpression_eq]
  exact ((starts_object _).orElse (starts_sum _ _)).bind _

theorem starts_letStatement : Starts [.letWord] (letStatement e) := (Starts.token _).bind _

theorem starts_constStatement : Starts [.constWord] (constStatement e) := (Starts.token _).bind _

theorem starts_anyStatement : Starts Symbol.statement.firsts anyStatement := by
  rw [anyStatement_eq]
  exact (starts_letStatement _).orElse <|
    (starts_constStatement _).orElse (starts_anyExpression.bind _)

end Starting

end Grammar

end Scriptlet
