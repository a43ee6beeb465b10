/-
**The grammar without a bound on its depth.**

`Scriptlet.Syntax.Grammar` builds the parsers of statements and expressions level by level, and a
parser with `levels` levels gives up on what is nested more deeply.  Each level stands behind a
token of its own, so on an input of fewer tokens than levels nothing is ever given up: all parsers
with enough levels agree.  What they agree on are the parsers of this module, which have no levels
and satisfy the equations of the grammar.

Main definitions:

* `Scriptlet.Parser.AgreeBelow` — two parsers do the same on short inputs;
* `Scriptlet.Grammar.anyExpression`, `Scriptlet.Grammar.anyStatement` — **expressions and
  statements of any depth**.

Main results:

* `Scriptlet.Grammar.advances_statement`, `Scriptlet.Grammar.advances_expression` — statements and
  expressions consume tokens;
* `Scriptlet.Grammar.expression_agree`, `Scriptlet.Grammar.statement_agree` — **more levels than
  tokens are enough levels**;
* `Scriptlet.Grammar.anyExpression_eq`, `Scriptlet.Grammar.anyStatement_eq` — the parsers of any
  depth satisfy the equations of the grammar;
* `Scriptlet.Program.readTokens_eq` — programs are read by the parsers of any depth.
-/

import Scriptlet.Proofs.Syntax.Progress
import Scriptlet.Syntax.Grammar

set_option relaxedAutoImplicit false
set_option autoImplicit false

namespace Scriptlet

/-! ### The grammar consumes tokens -/

namespace Grammar

open Scriptlet.Parser

section Advancing

variable {statement : Parser Stmt} {expression : Parser Expr}

theorem advances_name : Advances name := (advances_token _).map _

theorem advances_number : Advances number := (advances_token _).checked _

theorem advances_between {α : Type} {inner : Parser α} (hinner : NonGrowing inner)
    (opening closing : Token.Kind) : Advances (between opening closing inner) :=
  (advances_token _).bind fun _ => hinner.bind fun _ =>
    (advances_token _).nonGrowing.bind fun _ => nonGrowing_pure _

theorem nonGrowing_items {α : Type} {item : Parser α} (hitem : NonGrowing item)
    (separator : Token.Kind) : NonGrowing (items item separator) :=
  hitem.bind fun _ => (NonGrowing.many (advances_separator_item hitem separator)).bind fun _ =>
    nonGrowing_pure _

theorem nonGrowing_manyTrailing {α : Type} {item : Parser α} (hitem : NonGrowing item)
    (separator : Token.Kind) : NonGrowing (manyTrailing item separator) :=
  (NonGrowing.many (advances_separator_item hitem separator)).bind fun _ =>
    (advances_token separator).nonGrowing.optional.bind fun _ => nonGrowing_pure _

theorem nonGrowing_separated {α : Type} {item : Parser α} (hitem : NonGrowing item)
    (separator : Token.Kind) (trailing : Bool) :
    NonGrowing (separated item separator trailing) := by
  cases trailing with
  | false =>
      rw [separated_eq hitem]
      exact (nonGrowing_items hitem separator).optional.map _
  | true =>
      rw [separated_trailing_eq hitem]
      exact (hitem.bind fun _ => (nonGrowing_manyTrailing hitem separator).bind fun _ =>
        nonGrowing_pure _).optional.map _

theorem advances_arguments (he : Advances expression) : Advances (arguments expression) :=
  advances_between (nonGrowing_separated he.nonGrowing _ _) _ _

theorem advances_parameters (he : Advances expression) : Advances (parameters expression) :=
  (advances_arguments he).checked _

theorem advances_block (hs : Advances statement) : Advances (block statement) :=
  advances_between (NonGrowing.many hs) _ _

theorem advances_function (hs : Advances statement) (he : Advances expression) :
    Advances (function statement expression) :=
  (advances_token _).bind fun _ => advances_name.nonGrowing.bind fun _ =>
    (advances_parameters he).nonGrowing.bind fun _ =>
      (advances_block hs).nonGrowing.bind fun _ => nonGrowing_pure _

theorem advances_primary (hs : Advances statement) (he : Advances expression) :
    Advances (primary statement expression) :=
  (advances_name.map _).orElse <| (advances_number.map _).orElse <|
    (advances_between he.nonGrowing _ _).orElse (advances_function hs he)

theorem advances_dotAccess (hs : Advances statement) (he : Advances expression) :
    Advances (dotAccess statement expression) :=
  Advances.checked ((advances_token _).bind fun _ => (advances_primary hs he).nonGrowing) _

theorem advances_indexAccess (he : Advances expression) : Advances (indexAccess expression) :=
  (advances_between he.nonGrowing _ _).map _

theorem advances_access (hs : Advances statement) (he : Advances expression) :
    Advances (orElse (dotAccess statement expression) (indexAccess expression)) :=
  (advances_dotAccess hs he).orElse (advances_indexAccess he)

theorem advances_member (hs : Advances statement) (he : Advances expression) :
    Advances (member statement expression) :=
  (advances_primary hs he).bind fun _ =>
    (NonGrowing.many (advances_access hs he)).bind fun _ => nonGrowing_pure _

theorem advances_call (hs : Advances statement) (he : Advances expression) :
    Advances (call statement expression) :=
  (advances_member hs he).bind fun _ =>
    (NonGrowing.many (advances_arguments he)).bind fun _ => nonGrowing_pure _

/-- An operator with the operand behind it. -/
def operation (allowed : List Operator) (operand : Parser Expr) : Parser (Operator × Expr) := do
  let op ← operator allowed
  let right ← operand
  return (op, right)

theorem advances_operation {operand : Parser Expr} (ho : Advances operand)
    (allowed : List Operator) : Advances (operation allowed operand) :=
  (advances_operator _).bind fun _ => ho.nonGrowing.bind fun _ => nonGrowing_pure _

theorem advances_chain {operand : Parser Expr} (ho : Advances operand)
    (allowed : List Operator) : Advances (chain allowed operand) :=
  ho.bind fun _ => (NonGrowing.many (advances_operation ho allowed)).bind fun _ =>
    nonGrowing_pure _

theorem advances_product (hs : Advances statement) (he : Advances expression) :
    Advances (product statement expression) := advances_chain (advances_call hs he) _

theorem advances_sum (hs : Advances statement) (he : Advances expression) :
    Advances (sum statement expression) := advances_chain (advances_product hs he) _

theorem nonGrowing_marked (he : Advances expression) (kind : Token.Kind) :
    NonGrowing (optional (token kind *> expression)) :=
  NonGrowing.optional ((advances_token kind).bind fun _ => he.nonGrowing).nonGrowing

theorem advances_entry (he : Advances expression) : Advances (entry expression) :=
  advances_name.bind fun _ => (nonGrowing_marked he _).bind fun value => by
    cases value <;> exact nonGrowing_pure _

theorem advances_object (he : Advances expression) : Advances (object expression) :=
  (advances_between (nonGrowing_separated (advances_entry he).nonGrowing _ _) _ _).map _

theorem advances_expressionLayer (hs : Advances statement) (he : Advances expression) :
    Advances (expressionLayer statement expression) :=
  ((advances_object he).orElse (advances_sum hs he)).bind fun _ =>
    (nonGrowing_marked he _).bind fun value => by cases value <;> exact nonGrowing_pure _

theorem advances_letStatement (he : Advances expression) : Advances (letStatement expression) :=
  (advances_token _).bind fun _ => advances_name.nonGrowing.bind fun _ =>
    (nonGrowing_marked he _).bind fun _ =>
      (advances_token _).nonGrowing.bind fun _ => nonGrowing_pure _

theorem advances_constStatement (he : Advances expression) :
    Advances (constStatement expression) :=
  (advances_token _).bind fun _ => advances_name.nonGrowing.bind fun _ =>
    (advances_token _).nonGrowing.bind fun _ => he.nonGrowing.bind fun _ =>
      (advances_token _).nonGrowing.bind fun _ => nonGrowing_pure _

theorem advances_expressionStatement (he : Advances expression) :
    Advances (expressionStatement expression) :=
  he.bind fun _ => (advances_token _).nonGrowing.optional.bind fun _ => nonGrowing_pure _

theorem advances_statementLayer (he : Advances expression) :
    Advances (statementLayer expression) :=
  (advances_letStatement he).orElse <|
    (advances_constStatement he).orElse (advances_expressionStatement he)

end Advancing

theorem advances_levels (levels : Nat) :
    Advances (statement levels) ∧ Advances (expression levels) := by
  induction levels with
  | zero => exact ⟨advances_stuck, advances_stuck⟩
  | succ levels ih =>
      have he : Advances (expression (levels + 1)) := advances_expressionLayer ih.1 ih.2
      exact ⟨advances_statementLayer he, he⟩

/-- A statement consumes tokens. -/
theorem advances_statement (levels : Nat) : Advances (statement levels) :=
  (advances_levels levels).1

/-- An expression consumes tokens. -/
theorem advances_expression (levels : Nat) : Advances (expression levels) :=
  (advances_levels levels).2

end Grammar

/-! ### Agreement on short inputs -/

namespace Parser

variable {α β : Type} {n : Nat}

/-- Two parsers do the same on all inputs of fewer than `n` tokens. -/
def AgreeBelow (n : Nat) (p q : Parser α) : Prop :=
  ∀ eoi input, input.count < n → p eoi input = q eoi input

namespace AgreeBelow

theorem refl (p : Parser α) : AgreeBelow n p p := fun _ _ _ => rfl

theorem mono {m : Nat} {p q : Parser α} (h : AgreeBelow n p q) (hm : m ≤ n) :
    AgreeBelow m p q := fun eoi input hlt => h eoi input (by omega)

theorem bind {p q : Parser α} {f g : α → Parser β} (h : AgreeBelow n p q) (hp : NonGrowing p)
    (hf : ∀ value, AgreeBelow n (f value) (g value)) : AgreeBelow n (p >>= f) (q >>= g) := by
  intro eoi input hlt
  cases hp₁ : p eoi input with
  | error report => rw [bind_of_error hp₁, bind_of_error (h eoi input hlt ▸ hp₁)]
  | ok first =>
      have hle := hp _ _ _ hp₁
      rw [bind_of_ok hp₁, bind_of_ok (h eoi input hlt ▸ hp₁), hf _ _ _ (by omega)]

/-- Behind a token, agreement on shorter inputs is enough. -/
theorem bind_token {f g : Token → Parser β} (kind : Token.Kind)
    (hf : ∀ value, AgreeBelow n (f value) (g value)) :
    AgreeBelow (n + 1) (token kind >>= f) (token kind >>= g) := by
  intro eoi input hlt
  cases hp₁ : token kind eoi input with
  | error report => rw [bind_of_error hp₁, bind_of_error hp₁]
  | ok first =>
      have hless := advances_token kind _ _ _ hp₁
      rw [bind_of_ok hp₁, bind_of_ok hp₁, hf _ _ _ (by omega)]

theorem map {p q : Parser α} (h : AgreeBelow n p q) (hp : NonGrowing p) (f : α → β) :
    AgreeBelow n (f <$> p) (f <$> q) := h.bind hp fun _ => refl _

theorem orElse {p p' q q' : Parser α} (hp : AgreeBelow n p p') (hq : AgreeBelow n q q') :
    AgreeBelow n (orElse p q) (orElse p' q') := by
  intro eoi input hlt
  simp only [Parser.orElse, hp eoi input hlt, hq eoi input hlt]

theorem optional {p q : Parser α} (h : AgreeBelow n p q) :
    AgreeBelow n (optional p) (optional q) := by
  intro eoi input hlt
  simp only [Parser.optional, h eoi input hlt]

theorem checked {p q : Parser α} (h : AgreeBelow n p q) (check : α → Except Complaint β) :
    AgreeBelow n (checked p check) (checked q check) := by
  intro eoi input hlt
  simp only [Parser.checked, h eoi input hlt]

theorem upTo {p q : Parser α} (h : AgreeBelow n p q) (hp : NonGrowing p) (eoi : Nat) :
    ∀ (rounds : Nat) (input : Remaining), input.count < n →
      upTo p eoi rounds input = upTo q eoi rounds input := by
  intro rounds
  induction rounds with
  | zero => intro input _; rfl
  | succ rounds ih =>
      intro input hlt
      rw [Parser.upTo, Parser.upTo, ← h eoi input hlt]
      cases hp₁ : p eoi input with
      | error report => rfl
      | ok first =>
          have hle := hp _ _ _ hp₁
          simp only [ih first.rest (by omega)]

theorem many {p q : Parser α} (h : AgreeBelow n p q) (hp : NonGrowing p) :
    AgreeBelow n (many p) (many q) := by
  intro eoi input hlt
  simp only [Parser.many, h.upTo hp eoi _ input hlt]

theorem items {p q : Parser α} (h : AgreeBelow n p q) (hp : NonGrowing p)
    (separator : Token.Kind) : AgreeBelow n (items p separator) (items q separator) := by
  have hitem : AgreeBelow n (token separator *> p) (token separator *> q) :=
    (AgreeBelow.bind_token separator fun _ => h).mono (Nat.le_succ n)
  have hadv := advances_separator_item hp separator
  exact h.bind hp fun _ => (hitem.many hadv.nonGrowing).bind (.many hadv) fun _ => refl _

theorem manyTrailing {p q : Parser α} (h : AgreeBelow n p q) (hp : NonGrowing p)
    (separator : Token.Kind) :
    AgreeBelow n (manyTrailing p separator) (manyTrailing q separator) := by
  have hitem : AgreeBelow n (token separator *> p) (token separator *> q) :=
    (AgreeBelow.bind_token separator fun _ => h).mono (Nat.le_succ n)
  have hadv := advances_separator_item hp separator
  exact (hitem.many hadv.nonGrowing).bind (.many hadv) fun _ => refl _

theorem separated {p q : Parser α} (h : AgreeBelow n p q) (hp : NonGrowing p)
    (hq : NonGrowing q) (separator : Token.Kind) (trailing : Bool) :
    AgreeBelow n (separated p separator trailing) (separated q separator trailing) := by
  cases trailing with
  | false =>
      rw [separated_eq hp, separated_eq hq]
      exact (h.items hp separator).optional.map
        (Grammar.nonGrowing_items hp separator).optional _
  | true =>
      have hmany := Grammar.nonGrowing_manyTrailing hp separator
      rw [separated_trailing_eq hp, separated_trailing_eq hq]
      refine (AgreeBelow.optional ?_).map (NonGrowing.optional ?_) _
      · exact h.bind hp fun _ => (h.manyTrailing hp separator).bind hmany fun _ => refl _
      · exact hp.bind fun _ => hmany.bind fun _ => nonGrowing_pure _

end AgreeBelow

end Parser

/-! ### Enough levels -/

namespace Grammar

open Scriptlet.Parser

section Agreeing

variable {n : Nat} {s s' : Parser Stmt} {e e' : Parser Expr}

theorem agree_between {α : Type} {p q : Parser α} (h : AgreeBelow n p q) (hp : NonGrowing p)
    (opening closing : Token.Kind) :
    AgreeBelow (n + 1) (between opening closing p) (between opening closing q) :=
  .bind_token _ fun _ => h.bind hp fun _ => .refl _

variable (hs : AgreeBelow n s s') (he : AgreeBelow n e e')
  (as : Advances s) (ae : Advances e) (ae' : Advances e')

include he ae ae' in
theorem agree_arguments : AgreeBelow (n + 1) (arguments e) (arguments e') :=
  agree_between (he.separated ae.nonGrowing ae'.nonGrowing _ _)
    (nonGrowing_separated ae.nonGrowing _ _) _ _

include hs he as ae ae' in
theorem agree_function : AgreeBelow (n + 1) (function s e) (function s' e') := by
  refine .bind_token _ fun _ => (AgreeBelow.refl _).bind advances_name.nonGrowing fun _ => ?_
  refine AgreeBelow.bind (.mono ((agree_arguments he ae ae').checked _) (Nat.le_succ n))
    (advances_parameters ae).nonGrowing fun _ => ?_
  exact AgreeBelow.bind
    ((agree_between (hs.many as.nonGrowing) (.many as) _ _).mono (Nat.le_succ n))
    (advances_block as).nonGrowing fun _ => .refl _

include hs he as ae ae' in
theorem agree_primary : AgreeBelow (n + 1) (primary s e) (primary s' e') :=
  (AgreeBelow.refl _).orElse <| (AgreeBelow.refl _).orElse <|
    (agree_between he ae.nonGrowing _ _).orElse (agree_function hs he as ae ae')

include hs he as ae ae' in
theorem agree_access :
    AgreeBelow (n + 1) (orElse (dotAccess s e) (indexAccess e))
      (orElse (dotAccess s' e') (indexAccess e')) := by
  refine AgreeBelow.orElse (AgreeBelow.checked ?_ _) ?_
  · exact (AgreeBelow.bind_token _ fun _ => agree_primary hs he as ae ae').mono (Nat.le_succ _)
  · exact (agree_between he ae.nonGrowing _ _).map
      (advances_between ae.nonGrowing _ _).nonGrowing _

include hs he as ae ae' in
theorem agree_call : AgreeBelow (n + 1) (call s e) (call s' e') := by
  have hmember : AgreeBelow (n + 1) (member s e) (member s' e') :=
    (agree_primary hs he as ae ae').bind (advances_primary as ae).nonGrowing fun _ =>
      ((agree_access hs he as ae ae').many (advances_access as ae).nonGrowing).bind
        (.many (advances_access as ae)) fun _ => .refl _
  exact hmember.bind (advances_member as ae).nonGrowing fun _ =>
    ((agree_arguments he ae ae').many (advances_arguments ae).nonGrowing).bind
      (.many (advances_arguments ae)) fun _ => .refl _

theorem agree_chain {p q : Parser Expr} (h : AgreeBelow n p q) (hp : Advances p)
    (allowed : List Operator) : AgreeBelow n (chain allowed p) (chain allowed q) := by
  have hop : AgreeBelow n (operation allowed p) (operation allowed q) :=
    (AgreeBelow.refl _).bind (advances_operator _).nonGrowing fun _ =>
      h.bind hp.nonGrowing fun _ => .refl _
  have hadv := advances_operation hp allowed
  exact h.bind hp.nonGrowing fun _ =>
    (hop.many hadv.nonGrowing).bind (.many hadv) fun _ => .refl _

theorem agree_marked (h : AgreeBelow n e e') (kind : Token.Kind) :
    AgreeBelow (n + 1) (optional (token kind *> e)) (optional (token kind *> e')) :=
  (AgreeBelow.bind_token kind fun _ => h).optional

include he ae ae' in
theorem agree_object : AgreeBelow (n + 1) (object e) (object e') := by
  have hentry : AgreeBelow n (entry e) (entry e') :=
    (AgreeBelow.refl _).bind advances_name.nonGrowing fun _ =>
      ((agree_marked he _).mono (Nat.le_succ n)).bind (nonGrowing_marked ae _) fun _ => .refl _
  have hadv := (advances_entry ae).nonGrowing
  exact (agree_between (hentry.separated hadv (advances_entry ae').nonGrowing _ _)
    (nonGrowing_separated hadv _ _) _ _).map
    (advances_between (nonGrowing_separated hadv _ _) _ _).nonGrowing _

include hs he as ae ae' in
theorem agree_expressionLayer :
    AgreeBelow (n + 1) (expressionLayer s e) (expressionLayer s' e') := by
  have hsum : AgreeBelow (n + 1) (sum s e) (sum s' e') :=
    agree_chain (agree_chain (agree_call hs he as ae ae') (advances_call as ae) _)
      (advances_product as ae) _
  exact ((agree_object he ae ae').orElse hsum).bind
    ((advances_object ae).orElse (advances_sum as ae)).nonGrowing fun _ =>
      (agree_marked he _).bind (nonGrowing_marked ae _) fun _ => .refl _

theorem agree_statementLayer (h : AgreeBelow n e e') (hp : Advances e) :
    AgreeBelow n (statementLayer e) (statementLayer e') := by
  refine AgreeBelow.orElse ?_ (AgreeBelow.orElse ?_ ?_)
  · exact (AgreeBelow.refl _).bind (advances_token _).nonGrowing fun _ =>
      (AgreeBelow.refl _).bind advances_name.nonGrowing fun _ =>
        ((agree_marked h _).mono (Nat.le_succ n)).bind (nonGrowing_marked hp _) fun _ => .refl _
  · exact (AgreeBelow.refl _).bind (advances_token _).nonGrowing fun _ =>
      (AgreeBelow.refl _).bind advances_name.nonGrowing fun _ =>
        (AgreeBelow.refl _).bind (advances_token _).nonGrowing fun _ =>
          h.bind hp.nonGrowing fun _ => .refl _
  · exact h.bind hp.nonGrowing fun _ => .refl _

end Agreeing

theorem agree_levels (n : Nat) : ∀ m, n ≤ m →
    AgreeBelow n (statement n) (statement m) ∧ AgreeBelow n (expression n) (expression m) := by
  induction n with
  | zero => exact fun m _ => ⟨fun _ _ h => by omega, fun _ _ h => by omega⟩
  | succ n ih =>
      intro m hm
      obtain ⟨m, rfl⟩ : ∃ k, m = k + 1 := ⟨m - 1, by omega⟩
      obtain ⟨hs, he⟩ := ih m (by omega)
      -- a layer reads a token before it comes back to the levels below
      have hlayer : AgreeBelow (n + 1) (expression (n + 1)) (expression (m + 1)) :=
        agree_expressionLayer hs he (advances_statement n) (advances_expression n)
          (advances_expression m)
      exact ⟨agree_statementLayer hlayer (advances_expression (n + 1)), hlayer⟩

/-- **More levels than tokens are enough levels**, for expressions. -/
theorem expression_agree {n m eoi : Nat} {input : Remaining} (hn : input.count < n)
    (hm : input.count < m) : expression n eoi input = expression m eoi input := by
  rcases Nat.le_total n m with h | h
  · exact (agree_levels n m h).2 eoi input hn
  · exact ((agree_levels m n h).2 eoi input hm).symm

/-- **More levels than tokens are enough levels**, for statements. -/
theorem statement_agree {n m eoi : Nat} {input : Remaining} (hn : input.count < n)
    (hm : input.count < m) : statement n eoi input = statement m eoi input := by
  rcases Nat.le_total n m with h | h
  · exact (agree_levels n m h).1 eoi input hn
  · exact ((agree_levels m n h).1 eoi input hm).symm

/-! ### Any depth -/

/-- **An expression of any depth.** -/
def anyExpression : Parser Expr := fun eoi input => expression (input.count + 1) eoi input

/-- **A statement of any depth.** -/
def anyStatement : Parser Stmt := fun eoi input => statement (input.count + 1) eoi input

theorem advances_anyExpression : Advances anyExpression :=
  fun eoi input => advances_expression (input.count + 1) eoi input

theorem advances_anyStatement : Advances anyStatement :=
  fun eoi input => advances_statement (input.count + 1) eoi input

theorem agree_anyExpression (n : Nat) : AgreeBelow n (expression n) anyExpression :=
  fun _ _ h => expression_agree h (Nat.lt_succ_self _)

theorem agree_anyStatement (n : Nat) : AgreeBelow n (statement n) anyStatement :=
  fun _ _ h => statement_agree h (Nat.lt_succ_self _)

/-- An expression of any depth is built from statements and expressions of any depth. -/
theorem anyExpression_eq : anyExpression = expressionLayer anyStatement anyExpression := by
  funext eoi input
  exact agree_expressionLayer (agree_anyStatement _) (agree_anyExpression _)
    (advances_statement _) (advances_expression _) advances_anyExpression eoi input
    (Nat.lt_succ_self _)

/-- A statement of any depth is built from expressions of any depth. -/
theorem anyStatement_eq : anyStatement = statementLayer anyExpression := by
  funext eoi input
  exact agree_statementLayer (agree_anyExpression (input.count + 1)) (advances_expression _) eoi
    input (Nat.lt_succ_self _)

/-- A program whose statements are of any depth. -/
def anyProgram : Parser Program := do
  let body ← many anyStatement
  let _ ← token .endOfInput
  finish
  return ⟨body⟩

theorem program_agree (n : Nat) : AgreeBelow n (program n) anyProgram :=
  ((agree_anyStatement n).many (advances_statement n).nonGrowing).bind
    (.many (advances_statement n)) fun _ => .refl _

end Grammar

/-- **Programs are read by the parsers of any depth.** -/
theorem Program.readTokens_eq (tokens : List Token) :
    Program.readTokens tokens
      = (Grammar.anyProgram (endOffset tokens) (.ofList tokens)).map Parsed.value := by
  have h := Grammar.program_agree (tokens.length + 1) (endOffset tokens) (.ofList tokens)
    (Nat.lt_succ_self _)
  simp only [Program.readTokens, h]

end Scriptlet
