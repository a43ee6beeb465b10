/-
**Parsers do not look at where tokens stand.**

The offsets of tokens only end up in reports: no parser decides anything by them.  So if all offsets
are moved by some function, be it further back by a number of bytes or all to the same place, then a
parser reads the same values, leaves the same tokens and reports the same, with moved offsets.

A parser that returns tokens returns moved tokens; that is why parsers are compared up to a function
of their values.

Main definitions:

* `Scriptlet.Token.move`, `Scriptlet.Report.move`, `Scriptlet.SyntaxError.move` — offsets moved by
  a function;
* `Scriptlet.Parser.Follows` — **a parser does on moved tokens what another one does**.

Main results:

* `Scriptlet.Grammar.moves_program` — the parser of programs follows itself;
* `Scriptlet.Program.ofTokens_move` — **moved tokens are the same program, or the same error with
  moved offsets**.
-/

import Scriptlet.Proofs.Syntax.Depth

set_option relaxedAutoImplicit false
set_option autoImplicit false

namespace Scriptlet

/-! ### Moved offsets -/

/-- The range with both offsets moved. -/
def Span.move (f : Nat → Nat) (span : Span) : Span := ⟨f span.start, f span.stop⟩

/-- The token at another place. -/
def Token.move (f : Nat → Nat) (tok : Token) : Token := { tok with span := tok.span.move f }

@[simp] theorem Token.move_kind (f : Nat → Nat) (tok : Token) : (tok.move f).kind = tok.kind := rfl

@[simp] theorem Token.move_text (f : Nat → Nat) (tok : Token) : (tok.move f).text = tok.text := rfl

@[simp] theorem Token.move_operator? (f : Nat → Nat) (tok : Token) :
    (tok.move f).operator? = tok.operator? := rfl

/-- The error with its offsets moved. -/
def SyntaxError.move (f : Nat → Nat) (error : SyntaxError) : SyntaxError :=
  { error with span := error.span.move f }

namespace Report

/-- The report with its offsets moved. -/
def move (f : Nat → Nat) (report : Report) : Report :=
  { report with span := report.span.move f, found := report.found.map (Token.move f) }

variable (f : Nat → Nat)

theorem move_furthest (a b : Report) :
    (a.furthest b).move f = (a.move f).furthest (b.move f) := by
  have ha : (a.move f).left = a.left := rfl
  have hb : (b.move f).left = b.left := rfl
  rw [furthest, furthest, ha, hb]
  split
  · rfl
  · split <;> rfl

theorem move_merge (a b : Option Report) :
    (merge a b).map (move f) = merge (a.map (move f)) (b.map (move f)) := by
  cases a with
  | none => simp
  | some a =>
      cases b with
      | none => simp
      | some b => simp [merge, move_furthest]

theorem move_after (report : Report) (missed : Option Report) :
    (report.after missed).move f = (report.move f).after (missed.map (move f)) := by
  cases missed with
  | none => rfl
  | some missed => exact move_furthest f report missed

/-- The error of a moved report. -/
theorem toError_move (report : Report) : (report.move f).toError = report.toError.move f := by
  have hfound : (report.found.map (Token.move f)).map Token.describe
      = report.found.map Token.describe := by
    cases report.found <;> rfl
  simp only [toError, SyntaxError.move, move, hfound]

end Report

namespace Parser

variable {α β γ δ : Type} {f : Nat → Nat}

/-! ### Parsers that follow -/

/-- What was read, with moved offsets. -/
def moveParsed (f : Nat → Nat) (act : α → β) (result : Parsed α) : Parsed β :=
  ⟨act result.value, .ofList (result.rest.tokens.map (Token.move f)),
    result.missed.map (Report.move f)⟩

/-- The end of a run, with moved offsets. -/
def moveRun (f : Nat → Nat) (act : α → β) :
    Except Report (Parsed α) → Except Report (Parsed β)
  | .error report => .error (report.move f)
  | .ok result => .ok (moveParsed f act result)

/-- **The parser `q` does on moved tokens what `p` does**, and `act` tells its value. -/
def Follows (f : Nat → Nat) (act : α → β) (p : Parser α) (q : Parser β) : Prop :=
  ∀ eoi tokens, q (f eoi) (.ofList (tokens.map (Token.move f)))
    = moveRun f act (p eoi (.ofList tokens))

/-- A parser without tokens in its value follows itself. -/
abbrev Moves (f : Nat → Nat) (p : Parser α) : Prop := Follows f id p p

theorem Follows.at_input {act : α → β} {p : Parser α} {q : Parser β} (h : Follows f act p q)
    (eoi : Nat) (input : Remaining) :
    q (f eoi) (.ofList (input.tokens.map (Token.move f))) = moveRun f act (p eoi input) := by
  rw [h eoi input.tokens, ← input.eq_ofList]

theorem unexpected_move (eoi : Nat) (tokens : List Token) (expected : List Expectation) :
    unexpected (f eoi) (.ofList (tokens.map (Token.move f))) expected
      = (unexpected eoi (.ofList tokens) expected).move f := by
  cases tokens with
  | nil => rfl
  | cons tok tokens => simp [unexpected, Report.move, Token.move, count_ofList]

theorem coveredSpan_move {tokens : List Token} (h : tokens ≠ []) :
    coveredSpan (tokens.map (Token.move f)) = (coveredSpan tokens).move f := by
  cases tokens with
  | nil => exact absurd rfl h
  | cons tok tokens =>
      simp only [coveredSpan, List.getLast?_map, List.head?_map, List.head?_cons, Option.map_some]
      rw [List.getLast?_eq_some_getLast h]
      rfl

namespace Follows

theorem pure (act : α → β) (value : α) : Follows f act (pure value) (pure (act value)) :=
  fun _ _ => rfl

theorem bind {act : α → β} {act' : γ → δ} {p : Parser α} {q : Parser β} {g : α → Parser γ}
    {h : β → Parser δ} (hp : Follows f act p q)
    (hg : ∀ value, Follows f act' (g value) (h (act value))) :
    Follows f act' (p >>= g) (q >>= h) := by
  intro eoi tokens
  have hp := hp eoi tokens
  rw [bind_def, bind_def, hp]
  cases p eoi (.ofList tokens) with
  | error report => rfl
  | ok first =>
      simp only [moveRun, moveParsed]
      rw [(hg first.value).at_input]
      cases g first.value eoi first.rest with
      | error report => simp [moveRun, Report.move_after]
      | ok second => simp [moveRun, moveParsed, Report.move_merge]

theorem satisfy {act : α → β} {use : Token → Option α} {use' : Token → Option β}
    {expected : List Expectation} (h : ∀ tok, use' (tok.move f) = (use tok).map act) :
    Follows f act (satisfy use expected) (satisfy use' expected) := by
  intro eoi tokens
  rw [Parser.satisfy, Parser.satisfy, unexpected_move]
  cases tokens with
  | nil => rfl
  | cons tok tokens =>
      simp only [List.map_cons, Remaining.next?_cons, h]
      cases use tok with
      | none => rfl
      | some value => rfl

/-- A token of a kind is read as a moved token. -/
theorem token (kind : Token.Kind) :
    Follows f (Token.move f) (token kind) (token kind) := by
  refine satisfy fun tok => ?_
  by_cases htok : tok.kind = kind <;> simp [htok]

theorem orElse {act : α → β} {p q : Parser α} {p' q' : Parser β} (hp : Follows f act p p')
    (hq : Follows f act q q') : Follows f act (orElse p q) (orElse p' q') := by
  intro eoi tokens
  rw [Parser.orElse, Parser.orElse, hp eoi tokens, hq eoi tokens]
  cases p eoi (.ofList tokens) with
  | ok first => rfl
  | error report =>
      cases q eoi (.ofList tokens) with
      | ok second => rfl
      | error report' => simp [moveRun, Report.move_furthest]

theorem optional {act : α → β} {p : Parser α} {q : Parser β} (h : Follows f act p q) :
    Follows f (Option.map act) (optional p) (optional q) := by
  intro eoi tokens
  rw [Parser.optional, Parser.optional, h eoi tokens]
  cases p eoi (.ofList tokens) <;> rfl

/-- A check that does not look at offsets either, behind a parser that reads something. -/
theorem checked {act : α → β} {act' : γ → δ} {p : Parser α} {q : Parser β}
    {check : α → Except Complaint γ} {check' : β → Except Complaint δ} (h : Follows f act p q)
    (hp : Advances p) (hcheck : ∀ value, check' (act value) = (check value).map act') :
    Follows f act' (checked p check) (checked q check') := by
  intro eoi tokens
  rw [Parser.checked, Parser.checked, h eoi tokens]
  cases hrun : p eoi (.ofList tokens) with
  | error report => rfl
  | ok first =>
      simp only [moveRun, moveParsed, hcheck]
      cases check first.value with
      | ok value => rfl
      | error complaint =>
          have hlt := hp _ _ _ hrun
          rw [count_ofList] at hlt
          have hread : tokens.take (tokens.length - first.rest.count) ≠ [] := by
            intro hnil
            rw [List.take_eq_nil_iff] at hnil
            rcases hnil with hnil | hnil
            · omega
            · rw [hnil] at hlt
              exact absurd hlt (Nat.not_lt_zero _)
          simp only [Except.map, count_ofList, List.length_map, ← first.rest.count_eq]
          simp only [Remaining.ofList, ← List.map_take, coveredSpan_move hread]
          rfl

end Follows

/-! ### Parsers that follow themselves -/

namespace Moves

variable {p : Parser α}

theorem pure (value : α) : Moves f (pure value : Parser α) := Follows.pure id value

theorem bind {g : α → Parser β} (hp : Moves f p) (hg : ∀ value, Moves f (g value)) :
    Moves f (p >>= g) := Follows.bind hp hg

theorem map (hp : Moves f p) (g : α → β) : Moves f (g <$> p) := hp.bind fun _ => pure _

/-- A step behind a token of which only the kind and the text are used. -/
theorem behind {kind : Token.Kind} {g : Token → Parser β} (hg : ∀ tok, Moves f (g tok))
    (hsame : ∀ tok, g (tok.move f) = g tok) : Moves f (token kind >>= g) :=
  (Follows.token kind).bind fun tok => by rw [hsame]; exact hg tok

theorem marked (hp : Moves f p) (kind : Token.Kind) : Moves f (token kind *> p) :=
  behind (fun _ => hp) fun _ => rfl

theorem operator (allowed : List Operator) : Moves f (operator allowed) :=
  Follows.satisfy fun tok => by simp

theorem finish : Moves f finish := by
  intro eoi tokens
  rw [Parser.finish, Parser.finish, unexpected_move]
  cases tokens <;> rfl

theorem stuck : Moves f (stuck : Parser α) :=
  fun eoi tokens => congrArg Except.error (unexpected_move eoi tokens [])

theorem optional (hp : Moves f p) : Moves f (optional p) := by
  have h := Follows.optional hp
  rwa [Option.map_id] at h

theorem checked {check : α → Except Complaint β} (h : Moves f p) (hp : Advances p) :
    Moves f (checked p check) :=
  Follows.checked h hp fun value => by cases hcheck : check value <;> simp [Except.map, hcheck]

theorem many (hp : Moves f p) : Moves f (many p) := by
  have hrounds : ∀ eoi rounds tokens, upTo p (f eoi) rounds (.ofList (tokens.map (Token.move f)))
      = moveParsed f id (upTo p eoi rounds (.ofList tokens)) := by
    intro eoi rounds
    induction rounds with
    | zero => intro tokens; rfl
    | succ rounds ih =>
        intro tokens
        rw [upTo, upTo, hp eoi tokens]
        cases p eoi (.ofList tokens) with
        | error report => rfl
        | ok first =>
            simp only [moveRun, moveParsed]
            rw [ih, ← first.rest.eq_ofList]
            simp [prepend, moveParsed, Report.move_merge]
  intro eoi tokens
  simp only [Parser.many, moveRun, hrounds, count_ofList, List.length_map]

theorem items {item : Parser α} (hitem : Moves f item) (separator : Token.Kind) :
    Moves f (items item separator) :=
  hitem.bind fun _ => (hitem.marked separator).many.bind fun _ => pure _

theorem manyTrailing {item : Parser α} (hitem : Moves f item) (separator : Token.Kind) :
    Moves f (manyTrailing item separator) :=
  (hitem.marked separator).many.bind fun _ =>
    (Follows.token separator).optional.bind fun _ => pure _

theorem separated {item : Parser α} (hitem : Moves f item) (hadv : NonGrowing item)
    (separator : Token.Kind) (trailing : Bool) : Moves f (separated item separator trailing) := by
  cases trailing with
  | false =>
      rw [separated_eq hadv]
      exact (hitem.items separator).optional.map _
  | true =>
      rw [separated_trailing_eq hadv]
      exact (hitem.bind fun _ => (hitem.manyTrailing separator).bind fun _ => pure _).optional.map _

end Moves

end Parser

/-! ### The grammar -/

namespace Grammar

open Scriptlet.Parser

variable {f : Nat → Nat}

theorem moves_name : Moves f name := .behind (fun _ => .pure _) fun _ => rfl

theorem moves_number : Moves f number :=
  (Follows.token .number).checked (advances_token _) fun tok => by
    rw [Token.move_text]
    cases Number.read tok.text <;> rfl

theorem moves_between {α : Type} {inner : Parser α} (hinner : Moves f inner)
    (opening closing : Token.Kind) : Moves f (between opening closing inner) :=
  .behind (fun _ => hinner.bind fun _ => .behind (fun _ => .pure _) fun _ => rfl) fun _ => rfl

section Layers

variable {statement : Parser Stmt} {expression : Parser Expr}
  (hs : Moves f statement) (he : Moves f expression)
  (as : Advances statement) (ae : Advances expression)

include he ae in
theorem moves_arguments : Moves f (arguments expression) :=
  moves_between (he.separated ae.nonGrowing _ _) _ _

include hs he ae in
theorem moves_function : Moves f (function statement expression) := by
  have hparameters : Moves f (parameters expression) :=
    (moves_arguments he ae).checked (advances_arguments ae)
  have hblock : Moves f (block statement) := moves_between hs.many _ _
  exact .behind (fun _ => moves_name.bind fun _ => hparameters.bind fun _ => hblock.bind fun _ =>
    .pure _) fun _ => rfl

include hs he ae in
theorem moves_primary : Moves f (primary statement expression) :=
  (moves_name.map _).orElse <| (moves_number.map _).orElse <|
    (moves_between he _ _).orElse (moves_function hs he ae)

include hs he as ae in
theorem moves_access :
    Moves f (orElse (dotAccess statement expression) (indexAccess expression)) := by
  have hproperty : Moves f (token .dot *> primary statement expression) :=
    (moves_primary hs he ae).marked _
  have hadv : Advances (token .dot *> primary statement expression) :=
    (advances_token _).bind fun _ => (advances_primary as ae).nonGrowing
  exact Follows.orElse (hproperty.checked hadv) ((moves_between he _ _).map _)

include hs he as ae in
theorem moves_call : Moves f (call statement expression) := by
  have hmember : Moves f (member statement expression) :=
    (moves_primary hs he ae).bind fun _ => (moves_access hs he as ae).many.bind fun _ => .pure _
  exact hmember.bind fun _ => (moves_arguments he ae).many.bind fun _ => .pure _

theorem moves_chain {operand : Parser Expr} (h : Moves f operand) (allowed : List Operator) :
    Moves f (chain allowed operand) := by
  have hstep : Moves f (operation allowed operand) :=
    (Moves.operator allowed).bind fun _ => h.bind fun _ => .pure _
  exact h.bind fun _ => hstep.many.bind fun _ => .pure _

include he ae in
theorem moves_object : Moves f (object expression) := by
  have hentry : Moves f (entry expression) :=
    moves_name.bind fun _ => (he.marked _).optional.bind fun value => by
      cases value <;> exact .pure _
  exact (moves_between (hentry.separated (advances_entry ae).nonGrowing _ _) _ _).map _

include hs he as ae in
theorem moves_expressionLayer : Moves f (expressionLayer statement expression) := by
  have hsum : Moves f (sum statement expression) :=
    moves_chain (moves_chain (moves_call hs he as ae) _) _
  exact (Follows.orElse (moves_object he ae) hsum).bind fun _ =>
    (he.marked _).optional.bind fun value => by cases value <;> exact .pure _

include he in
theorem moves_statementLayer : Moves f (statementLayer expression) := by
  have hend : ∀ s : Stmt, Moves f (token .semicolon >>= fun _ => pure s) := fun _ =>
    .behind (fun _ => .pure _) fun _ => rfl
  have hlet : Moves f (letStatement expression) :=
    .behind (fun _ => moves_name.bind fun _ => (he.marked _).optional.bind fun _ => hend _)
      fun _ => rfl
  have hconst : Moves f (constStatement expression) :=
    .behind (fun _ => moves_name.bind fun _ => .behind (fun _ => he.bind fun _ => hend _)
      fun _ => rfl) fun _ => rfl
  have hexpression : Moves f (expressionStatement expression) :=
    he.bind fun _ => (Follows.token .semicolon).optional.bind fun _ => Moves.pure _
  exact Follows.orElse hlet (Follows.orElse hconst hexpression)

end Layers

theorem moves_levels (levels : Nat) :
    Moves f (statement levels) ∧ Moves f (expression levels) := by
  induction levels with
  | zero => exact ⟨.stuck, .stuck⟩
  | succ levels ih =>
      have he : Moves f (expression (levels + 1)) :=
        moves_expressionLayer ih.1 ih.2 (advances_statement levels) (advances_expression levels)
      exact ⟨moves_statementLayer he, he⟩

/-- **Programs are parsed without regard to offsets.** -/
theorem moves_program (levels : Nat) : Moves f (program levels) :=
  (moves_levels levels).1.many.bind fun _ =>
    .behind (fun _ => Moves.finish.bind fun _ => .pure _) fun _ => rfl

end Grammar

/-! ### Moved tokens of a program -/

theorem endOffset_move (f : Nat → Nat) {tokens : List Token} (h : tokens ≠ []) :
    endOffset (tokens.map (Token.move f)) = f (endOffset tokens) := by
  rw [endOffset, endOffset, List.getLast?_map, List.getLast?_eq_some_getLast h]
  rfl

/-- **Moved tokens** are the same program, or they have the same error with moved offsets. -/
theorem Program.ofTokens_move (f : Nat → Nat) {tokens : List Token} (h : tokens ≠ []) :
    Program.ofTokens (tokens.map (Token.move f))
      = (Program.ofTokens tokens).mapError (SyntaxError.move f) := by
  have hrun := Grammar.moves_program (f := f) (tokens.length + 1) (endOffset tokens) tokens
  rw [Program.ofTokens, Program.ofTokens, Program.readTokens, Program.readTokens,
    endOffset_move f h, List.length_map, hrun]
  cases Grammar.program (tokens.length + 1) (endOffset tokens) (.ofList tokens) with
  | ok result => rfl
  | error report => exact congrArg Except.error (report.toError_move f)

end Scriptlet
