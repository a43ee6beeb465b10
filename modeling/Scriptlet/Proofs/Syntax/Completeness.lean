/-
**What is derived is parsed.**

The parsers choose in a fixed order and repeat for as long as they can, so they find a derivation
only if no other choice and no further round gets in its way.  The order is harmless because the
alternatives of the grammar begin with different tokens.  The repetitions are harmless because of
what can stand behind a symbol in a program: never a token with which the symbol would go on.

The proof is by induction on the derivation.  For a symbol that is read by a loop it shows that
whatever the loop does behind the derivation, it does it to the tree of the derivation.

Main definitions:

* `Scriptlet.Parser.Reads` — a parser reads a value off some tokens;
* `Scriptlet.Parser.Continues` — a loop of a parser takes up a value that was read;
* `Scriptlet.Grammar.Symbol.goesOn` — the tokens with which a symbol would go on;
* `Scriptlet.Grammar.Complete` — what a derivation of a symbol means for its parser.

Main results:

* `Scriptlet.Grammar.complete_of_derives` — **what is derived is read**;
* `Scriptlet.Program.ofTokens_eq_ok_iff` — **parsing decides derivability**.
-/

import Scriptlet.Proofs.Syntax.Starts

set_option relaxedAutoImplicit false
set_option autoImplicit false

namespace Scriptlet

namespace Parser

variable {α β γ : Type}

/-! ### Parsers on given tokens -/

/-- The parser reads a value off the tokens and leaves the rest. -/
def Reads (p : Parser α) (tokens rest : List Token) (value : α) : Prop :=
  ∀ eoi, ∃ missed, p eoi (.ofList tokens) = .ok ⟨value, .ofList rest, missed⟩

theorem stops_token {kind : Token.Kind} {tokens : List Token} (h : headKind tokens ≠ some kind) :
    Stops (token kind) tokens := fun _ => token_error h

theorem Stops.bind {p : Parser α} {f : α → Parser β} {tokens : List Token} (h : Stops p tokens) :
    Stops (p >>= f) tokens := fun eoi => bind_error (h eoi)

theorem Stops.orElse {p q : Parser α} {tokens : List Token} (hp : Stops p tokens)
    (hq : Stops q tokens) : Stops (orElse p q) tokens := fun eoi => orElse_error (hp eoi) (hq eoi)

theorem Stops.checked {p : Parser α} {check : α → Except Complaint β} {tokens : List Token}
    (h : Stops p tokens) : Stops (checked p check) tokens := fun eoi => checked_error (h eoi)

namespace Reads

variable {tokens mid rest : List Token}

theorem pure (value : α) : Reads (pure value) tokens tokens value := fun _ => ⟨none, rfl⟩

theorem token {kind : Token.Kind} {tok : Token} (h : tok.kind = kind) :
    Reads (token kind) (tok :: rest) rest tok := fun _ => ⟨none, token_of_kind h⟩

theorem bind {p : Parser α} {f : α → Parser β} {v : α} {w : β} (hp : Reads p tokens mid v)
    (hf : Reads (f v) mid rest w) : Reads (p >>= f) tokens rest w := by
  intro eoi
  obtain ⟨missed, hp⟩ := hp eoi
  obtain ⟨missed', hf⟩ := hf eoi
  exact ⟨_, by rw [bind_of_ok hp, hf, keep_ok]⟩

theorem map {p : Parser α} {v : α} (h : Reads p tokens rest v) (f : α → β) :
    Reads (f <$> p) tokens rest (f v) := h.bind (.pure _)

theorem marked {p : Parser α} {kind : Token.Kind} {tok : Token} {v : α} (h : Reads p mid rest v)
    (htok : tok.kind = kind) : Reads (Parser.token kind *> p) (tok :: mid) rest v :=
  (token htok).bind h

/-- A step behind a token. -/
theorem behind {kind : Token.Kind} {f : Token → Parser β} {tok : Token} {w : β}
    (htok : tok.kind = kind) (hf : Reads (f tok) mid rest w) :
    Reads (Parser.token kind >>= f) (tok :: mid) rest w := (token htok).bind hf

theorem orElse_left {p q : Parser α} {v : α} (h : Reads p tokens rest v) :
    Reads (orElse p q) tokens rest v := by
  intro eoi
  obtain ⟨missed, h⟩ := h eoi
  exact ⟨missed, by rw [orElse, h]⟩

theorem orElse_right {p q : Parser α} {v : α} (hp : Stops p tokens)
    (hq : Reads q tokens rest v) : Reads (orElse p q) tokens rest v := by
  intro eoi
  obtain ⟨report, hp⟩ := hp eoi
  obtain ⟨missed, hq⟩ := hq eoi
  exact ⟨missed, by rw [orElse, hp, hq]⟩

theorem checked {p : Parser α} {check : α → Except Complaint β} {v : α} {w : β}
    (h : Reads p tokens rest v) (hcheck : check v = .ok w) :
    Reads (checked p check) tokens rest w := by
  intro eoi
  obtain ⟨missed, h⟩ := h eoi
  exact ⟨missed, checked_of_ok h hcheck⟩

theorem optional_some {p : Parser α} {v : α} (h : Reads p tokens rest v) :
    Reads (optional p) tokens rest (some v) := by
  intro eoi
  obtain ⟨missed, h⟩ := h eoi
  exact ⟨missed, optional_of_ok h⟩

theorem optional_none {p : Parser α} (h : Stops p tokens) :
    Reads (optional p) tokens tokens none := by
  intro eoi
  obtain ⟨report, h⟩ := h eoi
  exact ⟨some report, optional_of_error h⟩

theorem many_nil {p : Parser α} (hp : Advances p) (h : Stops p tokens) :
    Reads (many p) tokens tokens [] := by
  intro eoi
  obtain ⟨report, h⟩ := h eoi
  exact ⟨some report, (ManyRun.stop h).many_eq hp⟩

theorem many_cons {p : Parser α} (hp : Advances p) {v : α} {vs : List α}
    (h : Reads p tokens mid v) (hmore : Reads (many p) mid rest vs) :
    Reads (many p) tokens rest (v :: vs) := by
  intro eoi
  obtain ⟨missed, h⟩ := h eoi
  obtain ⟨missed', hmore⟩ := hmore eoi
  exact ⟨_, (ManyRun.step h (manyRun_of_many hp hmore)).many_eq hp⟩

/-- One value. -/
theorem items_one {item : Parser α} (hitem : NonGrowing item) {separator : Token.Kind} {v : α}
    (h : Reads item tokens rest v) (hstop : Stops (Parser.token separator *> item) rest) :
    Reads (items item separator) tokens rest [v] :=
  h.bind ((many_nil (advances_separator_item hitem separator) hstop).bind (.pure _))

/-- A value in front of others. -/
theorem items_cons {item : Parser α} (hitem : NonGrowing item) {separator : Token.Kind}
    {sep : Token} {v : α} {vs : List α} (h : Reads item tokens (sep :: mid) v)
    (hsep : sep.kind = separator) (hmore : Reads (items item separator) mid rest vs) :
    Reads (items item separator) tokens rest (v :: vs) := by
  refine h.bind (f := fun first => _) (Reads.bind (v := vs) ?_ (.pure _))
  intro eoi
  obtain ⟨missed, hmore⟩ := hmore eoi
  obtain ⟨first, second, h₁, h₂, hresult⟩ := bind_eq_ok hmore
  obtain ⟨more, h₃, rfl⟩ := bind_return_eq_ok h₂
  have hadv := advances_separator_item hitem separator
  have hstep : (Parser.token separator *> item) eoi (.ofList (sep :: mid)) = .ok first := by
    rw [seqRight_def, bind_of_ok (token_of_kind hsep), keep_none, h₁]
  refine ⟨Report.merge first.missed more.missed, ?_⟩
  rw [(ManyRun.step hstep (manyRun_of_many hadv h₃)).many_eq hadv]
  simp only [Parsed.mk.injEq] at hresult
  rw [prepend, hresult.1, hresult.2.1]

end Reads

/-! ### Loops that go on -/

/-- Whatever the loop reads behind the derived tokens, the parser makes of it and the value what
the steps make of them. -/
def Continues (p : Parser β) (step : Parser γ) (apply : β → γ → β) (tokens rest : List Token)
    (value : β) : Prop :=
  ∀ eoi more, ManyRun step eoi (.ofList rest) more →
    ∃ missed, p eoi (.ofList tokens) = .ok ⟨more.value.foldl apply value, more.rest, missed⟩

namespace Continues

variable {p : Parser β} {step : Parser γ} {apply : β → γ → β} {tokens mid rest : List Token}

/-- The loop behind a first value. -/
theorem first {q : Parser β} (hadv : Advances step) {v : β} (h : Reads q tokens rest v) :
    Continues (q >>= fun first => many step >>= fun more => pure (more.foldl apply first)) step
      apply tokens rest v := by
  intro eoi more hrun
  obtain ⟨missed, h⟩ := h eoi
  exact ⟨_, by rw [bind_of_ok h, bind_of_ok (hrun.many_eq hadv), pure_def, keep_ok, keep_ok]⟩

/-- One more round of the loop. -/
theorem next {v : β} {w : γ} (h : Continues p step apply tokens mid v)
    (hw : Reads step mid rest w) :
    Continues p step apply tokens rest (apply v w) := by
  intro eoi more hrun
  obtain ⟨missed, hw⟩ := hw eoi
  exact h eoi _ (.step hw hrun)

/-- The end of the loop. -/
theorem reads {v : β} (h : Continues p step apply tokens rest v) (hstop : Stops step rest) :
    Reads p tokens rest v := by
  intro eoi
  obtain ⟨report, hstop⟩ := hstop eoi
  exact h eoi _ (.stop hstop)

end Continues

end Parser

namespace Grammar

open Scriptlet.Parser

/-! ### What the small parsers read -/

theorem reads_name {n : Token} {rest : List Token} (h : n.kind = .identifier) :
    Reads name (n :: rest) rest n.text := (Reads.token h).map _

theorem reads_between {α : Type} {opening closing : Token.Kind} {inner : Parser α} {o c : Token}
    {tokens rest : List Token} {v : α} (ho : o.kind = opening)
    (h : Reads inner tokens (c :: rest) v) (hc : c.kind = closing) :
    Reads (between opening closing inner) (o :: tokens) rest v :=
  .behind ho <| h.bind <| .behind hc <| .pure _

theorem reads_operator {allowed : List Operator} {tok : Token} {rest : List Token} {op : Operator}
    (hop : tok.operator? = some op) (hmem : op ∈ allowed) :
    Reads (operator allowed) (tok :: rest) rest op :=
  fun _ => ⟨none, satisfy_of_some (by simp [hop, hmem])⟩

theorem reads_operation {allowed : List Operator} {operand : Parser Expr} {tok : Token}
    {op : Operator} {tokens rest : List Token} {e : Expr} (hop : tok.operator? = some op)
    (hmem : op ∈ allowed) (h : Reads operand tokens rest e) :
    Reads (operation allowed operand) (tok :: tokens) rest (op, e) :=
  (reads_operator hop hmem).bind <| h.bind <| .pure _

theorem parameterNames_map_name (ps : List String) : parameterNames (ps.map .name) = .ok ps := by
  induction ps with
  | nil => rfl
  | cons p ps ih => simp [parameterNames, Expr.name?, ih, Except.map]

/-! ### Where the parsers of the grammar fail -/

theorem stops_between {α : Type} {opening closing : Token.Kind} {inner : Parser α}
    {tokens : List Token} (h : headKind tokens ≠ some opening) :
    Stops (between opening closing inner) tokens := (stops_token h).bind

theorem stops_expression {tokens : List Token} (h : Clear Symbol.expression.firsts tokens) :
    Stops anyExpression tokens := starts_anyExpression.stops h

theorem stops_statement {tokens : List Token} (h : Clear Symbol.statement.firsts tokens) :
    Stops anyStatement tokens := starts_anyStatement.stops h

theorem stops_object {tokens : List Token} (h : headKind tokens ≠ some .openBrace) :
    Stops (object anyExpression) tokens := (stops_between h).bind

theorem stops_access {tokens : List Token} (h : Clear [.dot, .openBracket] tokens) :
    Stops (orElse (dotAccess anyStatement anyExpression) (indexAccess anyExpression)) tokens :=
  ((starts_dotAccess _ _).orElse (starts_indexAccess _)).stops h

theorem stops_operation {allowed : List Operator} {operand : Parser Expr} {tokens : List Token}
    (h : headKind tokens ≠ some .operator) : Stops (operation allowed operand) tokens :=
  Stops.bind fun _ => operator_error h

/-- An operator that is not among the allowed ones. -/
theorem stops_operation_cons {allowed : List Operator} {operand : Parser Expr} {tok : Token}
    {op : Operator} {tokens : List Token} (hop : tok.operator? = some op) (hmem : op ∉ allowed) :
    Stops (operation allowed operand) (tok :: tokens) := by
  refine Stops.bind fun eoi => ?_
  cases hp : operator allowed eoi (.ofList (tok :: tokens)) with
  | error report => exact ⟨report, rfl⟩
  | ok result =>
      obtain ⟨tok', tokens', op', htokens, hop', hmem', -⟩ := operator_eq_ok hp
      cases htokens
      rw [hop, Option.some_inj] at hop'
      exact absurd (hop' ▸ hmem') hmem

theorem stops_marked {α : Type} {kind : Token.Kind} {p : Parser α} {tokens : List Token}
    (h : headKind tokens ≠ some kind) : Stops (token kind *> p) tokens := (stops_token h).bind

theorem stops_behind {α : Type} {kind : Token.Kind} {p : Parser α} {tok : Token}
    {tokens : List Token} (htok : tok.kind = kind) (h : Stops p tokens) :
    Stops (token kind *> p) (tok :: tokens) := by
  intro eoi
  obtain ⟨report, h⟩ := h eoi
  exact ⟨report, by rw [seqRight_def, bind_of_ok (token_of_kind htok), keep_none, h]⟩

theorem stops_name {tokens : List Token} (h : headKind tokens ≠ some .identifier) :
    Stops name tokens := (stops_token h).bind

/-! ### Lists and statements -/

theorem reads_no_expressions {tokens : List Token} (h : Clear Symbol.expression.firsts tokens) :
    Reads (separated anyExpression .comma false) tokens tokens [] := by
  rw [separated_eq advances_anyExpression.nonGrowing]
  exact (Reads.optional_none (stops_expression h).bind).map _

theorem reads_expressions {tokens rest : List Token} {es : List Expr}
    (h : Reads (items anyExpression .comma) tokens rest es) :
    Reads (separated anyExpression .comma false) tokens rest es := by
  rw [separated_eq advances_anyExpression.nonGrowing]
  exact h.optional_some.map _

theorem reads_no_entries {c : Token} {rest : List Token} (hc : c.kind = .closeBrace) :
    Reads (separated (entry anyExpression) .comma true) (c :: rest) (c :: rest) [] := by
  have hname : Stops name (c :: rest) := stops_name (by simp [hc])
  rw [separated_trailing_eq (advances_entry advances_anyExpression).nonGrowing]
  exact (Reads.optional_none hname.bind.bind).map _

/-- Entries, and possibly one more comma. -/
theorem reads_entries {tokens mid rest : List Token} {es : List Entry} {last : Option Token}
    (h : Reads (items (entry anyExpression) .comma) tokens mid es)
    (hlast : Reads (optional (token .comma)) mid rest last) :
    Reads (separated (entry anyExpression) .comma true) tokens rest es := by
  rw [separated_trailing_eq (advances_entry advances_anyExpression).nonGrowing]
  refine (Reads.optional_some (v := es) fun eoi => ?_).map _
  obtain ⟨missed, h⟩ := h eoi
  obtain ⟨missed', hlast⟩ := hlast eoi
  obtain ⟨first, second, h₁, h₂, hresult⟩ := bind_eq_ok h
  obtain ⟨more, h₃, rfl⟩ := bind_return_eq_ok h₂
  simp only [Parsed.mk.injEq] at hresult
  rw [hresult.2.1] at hlast
  exact ⟨_, by
    rw [bind_of_ok h₁, bind_of_ok (manyTrailing_of_many h₃ hlast), pure_def, hresult.1]; rfl⟩

theorem reads_object {o c : Token} {tokens rest : List Token} {es : List Entry}
    (ho : o.kind = .openBrace)
    (h : Reads (separated (entry anyExpression) .comma true) tokens (c :: rest) es)
    (hc : c.kind = .closeBrace) : Reads (object anyExpression) (o :: tokens) rest (.object es) :=
  (reads_between ho h hc).map _

theorem reads_expressionStatement {tokens mid rest : List Token} {e : Expr} {semi : Option Token}
    (he : Derives .expression tokens mid e) (h : Reads anyExpression tokens mid e)
    (hsemi : Reads (optional (token .semicolon)) mid rest semi) :
    Reads anyStatement tokens rest (.expr e) := by
  have hclear : Clear [.letWord, .constWord] tokens := he.clear (by decide) (by decide)
  rw [anyStatement_eq]
  exact .orElse_right (stops_token (hclear _ (by decide))).bind <|
    .orElse_right (stops_token (hclear _ (by decide))).bind <|
      h.bind <| hsemi.bind <| .pure _

/-! ### Completeness -/

/-- The kinds of tokens with which a symbol would go on. -/
def Symbol.goesOn : Symbol → List Token.Kind
  | .statements =>
      [.letWord, .constWord, .openBrace, .identifier, .number, .openParen, .fnWord, .dot,
        .openBracket, .operator, .equals, .semicolon]
  | .statement => [.dot, .openBracket, .operator, .equals, .semicolon]
  | .expression => [.dot, .openBracket, .operator, .equals]
  | .target => [.dot, .openBracket, .operator]
  | .entries | .entry => [.dot, .openBracket, .operator, .equals, .colon]
  | .expressions => [.dot, .openBracket, .operator, .equals, .comma]
  | .sum | .product | .call | .calls => [.dot, .openBracket]
  | .arguments | .member | .primary => []

/-- What a derivation of a symbol means for the parser of the symbol. -/
def Complete : (s : Symbol) → List Token → List Token → s.Tree → Prop
  | .statements, tokens, rest, ss => Reads (many anyStatement) tokens rest ss
  | .statement, tokens, rest, s => Reads anyStatement tokens rest s
  | .expression, tokens, rest, e => Reads anyExpression tokens rest e
  | .target, tokens, rest, e =>
      Reads (orElse (object anyExpression) (sum anyStatement anyExpression)) tokens rest e
  | .entries, tokens, rest, es =>
      Stops (token .comma *> entry anyExpression) rest →
        Reads (items (entry anyExpression) .comma) tokens rest es
  | .entry, tokens, rest, e => Reads (entry anyExpression) tokens rest e
  | .sum, tokens, rest, e =>
      Stops (operation [.multiply, .divide, .modulo] (call anyStatement anyExpression)) rest →
        Continues (sum anyStatement anyExpression)
          (operation [.add, .subtract] (product anyStatement anyExpression))
          (fun left step => .binary step.1 left step.2) tokens rest e
  | .product, tokens, rest, e =>
      Continues (product anyStatement anyExpression)
        (operation [.multiply, .divide, .modulo] (call anyStatement anyExpression))
        (fun left step => .binary step.1 left step.2) tokens rest e
  | .call, tokens, rest, e => Reads (call anyStatement anyExpression) tokens rest e
  | .calls, tokens, rest, e =>
      Continues (call anyStatement anyExpression) (arguments anyExpression) .call tokens rest e
  | .arguments, tokens, rest, es => Reads (arguments anyExpression) tokens rest es
  | .expressions, tokens, rest, es => Reads (items anyExpression .comma) tokens rest es
  | .member, tokens, rest, e =>
      Continues (member anyStatement anyExpression)
        (orElse (dotAccess anyStatement anyExpression) (indexAccess anyExpression))
        Access.apply tokens rest e
  | .primary, tokens, rest, e => Reads (primary anyStatement anyExpression) tokens rest e

/-- **What is derived is read**, where nothing follows with which the symbol would go on. -/
theorem complete_of_derives {s : Symbol} {tokens rest : List Token} {tree : s.Tree}
    (h : Derives s tokens rest tree) :
    Clear s.goesOn rest → Complete s tokens rest tree := by
  have hexpression : Advances anyExpression := advances_anyExpression
  have hentry : Advances (entry anyExpression) := advances_entry hexpression
  -- on the derivation: what a rule puts behind a part of it is nothing that the part goes on with
  induction h with
  | noStatement tokens =>
      intro hclear
      exact .many_nil advances_anyStatement (stops_statement (hclear.mono (by decide)))
  | @moreStatements tokens mid rest s ss hfirst hmore ih₁ ih₂ =>
      intro hclear
      refine .many_cons advances_anyStatement (ih₁ ?_) (ih₂ hclear)
      -- behind a statement stands the next one, or what stands behind all of them
      cases hmore with
      | noStatement _ => exact hclear.mono (by decide)
      | moreStatements hnext _ => exact hnext.clear (by decide) (by decide)
  | letBare hl hn hsemi =>
      intro _
      change Reads anyStatement _ _ _
      rw [anyStatement_eq]
      exact .orElse_left <| .behind hl <| (reads_name hn).bind <|
        (Reads.optional_none (stops_marked (by simp [hsemi]))).bind <| .behind hsemi <| .pure _
  | letValue hl hn heq _ hsemi ih =>
      intro _
      have hvalue : Reads anyExpression _ _ _ := ih (clear_cons hsemi (by decide))
      change Reads anyStatement _ _ _
      rw [anyStatement_eq]
      exact .orElse_left <| .behind hl <| (reads_name hn).bind <|
        (hvalue.marked heq).optional_some.bind <| .behind hsemi <| .pure _
  | constValue hc hn heq _ hsemi ih =>
      intro _
      have hvalue : Reads anyExpression _ _ _ := ih (clear_cons hsemi (by decide))
      change Reads anyStatement _ _ _
      rw [anyStatement_eq]
      exact .orElse_right (stops_token (by simp [hc])).bind <| .orElse_left <| .behind hc <|
        (reads_name hn).bind <| .behind heq <| hvalue.bind <| .behind hsemi <| .pure _
  | bareExpr he ih =>
      intro hclear
      have hvalue : Reads anyExpression _ _ _ := ih (hclear.mono (by decide))
      exact reads_expressionStatement he hvalue <|
        Reads.optional_none (stops_token (hclear _ (by decide)))
  | endedExpr he hsemi ih =>
      intro _
      have hvalue : Reads anyExpression _ _ _ := ih (clear_cons hsemi (by decide))
      exact reads_expressionStatement he hvalue (Reads.token hsemi).optional_some
  | unassigned _ ih =>
      intro hclear
      have htarget : Reads (orElse (object anyExpression) (sum anyStatement anyExpression)) _ _ _ :=
        ih (hclear.mono (by decide))
      change Reads anyExpression _ _ _
      rw [anyExpression_eq]
      exact htarget.bind <|
        (Reads.optional_none (stops_marked (hclear _ (by decide)))).bind <| .pure _
  | assign _ heq _ ih₁ ih₂ =>
      intro hclear
      have htarget : Reads (orElse (object anyExpression) (sum anyStatement anyExpression)) _ _ _ :=
        ih₁ (clear_cons heq (by decide))
      have hvalue : Reads anyExpression _ _ _ := ih₂ hclear
      change Reads anyExpression _ _ _
      rw [anyExpression_eq]
      exact htarget.bind <| (hvalue.marked heq).optional_some.bind <| .pure _
  | emptyObject ho hc =>
      intro _
      exact .orElse_left (reads_object ho (reads_no_entries hc) hc)
  | object ho _ hc ih =>
      intro _
      have hentries := ih (clear_cons hc (by decide)) (stops_marked (by simp [hc]))
      exact .orElse_left (reads_object ho (reads_entries hentries
        (.optional_none (stops_token (by simp [hc])))) hc)
  | @objectTrailing o comma c tokens rest es ho _ hcomma hc ih =>
      intro _
      have hname : Stops name (c :: rest) := stops_name (by simp [hc])
      -- the last comma is not taken for one in front of an entry
      have hstop : Stops (token .comma *> entry anyExpression) (comma :: c :: rest) :=
        stops_behind hcomma hname.bind
      have hentries := ih (clear_cons hcomma (by decide)) hstop
      exact .orElse_left (reads_object ho (reads_entries hentries
        (Reads.token hcomma).optional_some) hc)
  | sumTarget he ih =>
      intro hclear
      have hoperator := hclear .operator (by decide)
      have hsum := ih (hclear.mono (by decide)) (stops_operation hoperator)
      have hbrace : Clear [.openBrace] _ := he.clear (by decide) (by decide)
      exact .orElse_right (stops_object (hbrace _ (List.mem_singleton_self _)))
        (hsum.reads (stops_operation hoperator))
  | lastEntry _ ih =>
      intro hclear hstop
      exact .items_one hentry.nonGrowing (ih hclear) hstop
  | moreEntries _ hcomma _ ih₁ ih₂ =>
      intro hclear hstop
      exact .items_cons hentry.nonGrowing (ih₁ (clear_cons hcomma (by decide))) hcomma
        (ih₂ hclear hstop)
  | shorthand hk =>
      intro hclear
      exact (reads_name hk).bind <|
        (Reads.optional_none (stops_marked (hclear _ (by decide)))).bind <| .pure _
  | pair hk hcolon _ ih =>
      intro hclear
      have hvalue : Reads anyExpression _ _ _ := ih (hclear.mono (by decide))
      exact (reads_name hk).bind <| (hvalue.marked hcolon).optional_some.bind <| .pure _
  | oneProduct _ ih =>
      intro hclear hstop
      exact .first (advances_operation (advances_product advances_anyStatement hexpression) _)
        ((ih hclear).reads hstop)
  | @add tok op tokens mid rest a b _ htok hmem _ ih₁ ih₂ =>
      intro hclear hstop
      have hkind := kind_of_operator? htok
      -- the product on the left ends in front of the operator, since it is none of a product
      have hleft := ih₁ (clear_cons hkind (by decide))
        (stops_operation_cons htok (by revert hmem; cases op <;> decide))
      exact hleft.next (reads_operation htok hmem ((ih₂ hclear).reads hstop))
  | oneCall _ ih =>
      intro hclear
      exact .first (advances_operation (advances_call advances_anyStatement hexpression) _)
        (ih hclear)
  | multiply _ htok hmem _ ih₁ ih₂ =>
      intro hclear
      have hleft := ih₁ (clear_cons (kind_of_operator? htok) (by decide))
      exact hleft.next (reads_operation htok hmem (ih₂ hclear))
  | allCalls _ hhead ih =>
      intro hclear
      exact (ih hclear).reads (stops_between hhead)
  | uncalled _ ih =>
      intro hclear
      exact .first (advances_arguments hexpression)
        ((ih (hclear.mono (by decide))).reads (stops_access hclear))
  | applied _ hargs ih₁ ih₂ =>
      intro _
      exact (ih₁ (hargs.clear (by decide) (by decide))).next (ih₂ nofun)
  | noArguments ho hc =>
      intro _
      exact reads_between ho (reads_no_expressions (clear_cons hc (by decide))) hc
  | someArguments ho _ hc ih =>
      intro _
      exact reads_between ho (reads_expressions (ih (clear_cons hc (by decide)))) hc
  | lastExpression _ ih =>
      intro hclear
      exact .items_one hexpression.nonGrowing (ih (hclear.mono (by decide)))
        (stops_marked (hclear _ (by decide)))
  | moreExpressions _ hcomma _ ih₁ ih₂ =>
      intro hclear
      exact .items_cons hexpression.nonGrowing (ih₁ (clear_cons hcomma (by decide))) hcomma
        (ih₂ hclear)
  | onePrimary _ ih =>
      intro _
      exact .first (advances_access advances_anyStatement hexpression) (ih nofun)
  | dot _ hd _ ih₁ ih₂ =>
      intro _
      have hproperty : Reads (primary anyStatement anyExpression) _ _ _ := ih₂ nofun
      exact (ih₁ nofun).next (.orElse_left ((hproperty.marked hd).checked rfl))
  | index _ hb _ hc ih₁ ih₂ =>
      intro _
      have hproperty : Reads anyExpression _ _ _ := ih₂ (clear_cons hc (by decide))
      exact (ih₁ nofun).next <| .orElse_right (stops_token (by simp [hb])).bind.checked <|
        (reads_between hb hproperty hc).map _
  | name hn =>
      intro _
      exact .orElse_left ((reads_name hn).map _)
  | number hn hx =>
      intro _
      exact .orElse_right (stops_name (by simp [hn])).bind <| .orElse_left <|
        ((Reads.token hn).checked (by simp [hx])).map _
  | parenthesized ho _ hc ih =>
      intro _
      have hvalue : Reads anyExpression _ _ _ := ih (clear_cons hc (by decide))
      exact .orElse_right (stops_name (by simp [ho])).bind <|
        .orElse_right (stops_token (by simp [ho])).checked.bind <| .orElse_left <|
          reads_between ho hvalue hc
  | function hf hn _ ho _ hc ih₁ ih₂ =>
      intro _
      have hparameters : Reads (parameters anyExpression) _ _ _ :=
        Reads.checked (ih₁ nofun) (parameterNames_map_name _)
      have hbody : Reads (block anyStatement) _ _ _ :=
        reads_between ho (ih₂ (clear_cons hc (by decide))) hc
      exact .orElse_right (stops_name (by simp [hf])).bind <|
        .orElse_right (stops_token (by simp [hf])).checked.bind <|
          .orElse_right (stops_between (by simp [hf])) <|
            .behind hf <| (reads_name hn).bind <| hparameters.bind <| hbody.bind <| .pure _

end Grammar

/-- What is a program is parsed. -/
theorem Program.readTokens_of_derivable {tokens : List Token} {program : Program}
    (h : program.Derivable tokens) : Program.readTokens tokens = .ok program := by
  obtain ⟨last, hlast, hbody⟩ := h
  have hstatements : Parser.Reads (Parser.many Grammar.anyStatement) tokens [last] program.body :=
    Grammar.complete_of_derives hbody (clear_cons hlast (by decide))
  have hprogram : Parser.Reads Grammar.anyProgram tokens [] program :=
    hstatements.bind <| .behind hlast <| (show Parser.Reads Parser.finish [] [] () from
      fun _ => ⟨none, rfl⟩).bind <| .pure _
  obtain ⟨missed, hprogram⟩ := hprogram (endOffset tokens)
  rw [Program.readTokens_eq, hprogram]
  rfl

/-- **Parsing decides derivability.**  Tokens are parsed to a program exactly when they have a
derivation with that program, and no tokens have derivations with different programs. -/
theorem Program.ofTokens_eq_ok_iff (tokens : List Token) :
    (∀ program, Program.ofTokens tokens = .ok program ↔ program.Derivable tokens) ∧
      ∀ p q : Program, p.Derivable tokens → q.Derivable tokens → p = q := by
  refine ⟨fun program => ⟨fun h => ?_, fun h => ?_⟩, fun p q hp hq => ?_⟩
  · cases hread : Program.readTokens tokens with
    | error report => rw [Program.ofTokens, hread] at h; cases h
    | ok program' =>
        rw [Program.ofTokens, hread] at h
        cases h
        exact Program.derivable_of_readTokens hread
  · rw [Program.ofTokens, Program.readTokens_of_derivable h]
    rfl
  · have hp := Program.readTokens_of_derivable hp
    rw [Program.readTokens_of_derivable hq] at hp
    exact (Except.ok.inj hp).symm

end Scriptlet
