/-
**What is parsed is derived.**

Whatever a parser of the grammar reads has a derivation, with one exception.  Arguments that begin
but cannot be read to their end stop a call at their parenthesis, and that is not where a call of
the grammar may stop.  Such a parenthesis is an orphan: no statement can be read there either, so
it stays where it is until something else than a parenthesis is required, and the parse fails.

The proof is by induction on the number of tokens.  The loops of the grammar group from the left,
so for them the proof is about a tree that has been read so far and what the rounds of the loop
make of it.

Main definitions:

* `Scriptlet.Grammar.Orphan` — a parenthesis at which arguments cannot be read;
* `Scriptlet.Grammar.ReadsBelow` — on short inputs, what a parser reads is derived or stops at an
  orphan.

Main results:

* `Scriptlet.Grammar.Orphan.statement_error` — no statement begins at an orphan;
* `Scriptlet.Grammar.derives_any` — what is read as a statement or as an expression is one, or stops
  at an orphan;
* `Scriptlet.Program.derivable_of_readTokens` — **what is parsed is a program**.
-/

import Scriptlet.Proofs.Syntax.Depth
import Scriptlet.Proofs.Syntax.Derivation

set_option relaxedAutoImplicit false
set_option autoImplicit false

namespace Scriptlet

namespace Parser

variable {α β : Type}

/-! ### Where nothing can be read -/

theorem token_error {kind : Token.Kind} {eoi : Nat} {input : Remaining}
    (h : headKind input.tokens ≠ some kind) : ∃ report, token kind eoi input = .error report := by
  cases hp : token kind eoi input with
  | error report => exact ⟨report, rfl⟩
  | ok result =>
      obtain ⟨tok, tokens, rfl, htok, -⟩ := token_eq_ok hp
      exact absurd (congrArg some htok) h

theorem bind_error {p : Parser α} {f : α → Parser β} {eoi : Nat} {input : Remaining}
    (h : ∃ report, p eoi input = .error report) :
    ∃ report, (p >>= f) eoi input = .error report :=
  let ⟨report, hreport⟩ := h
  ⟨report, bind_of_error hreport⟩

theorem orElse_error {p q : Parser α} {eoi : Nat} {input : Remaining}
    (hp : ∃ report, p eoi input = .error report) (hq : ∃ report, q eoi input = .error report) :
    ∃ report, orElse p q eoi input = .error report := by
  obtain ⟨report, hp⟩ := hp
  obtain ⟨report', hq⟩ := hq
  exact ⟨_, by rw [orElse, hp, hq]⟩

theorem checked_error {p : Parser α} {check : α → Except Complaint β} {eoi : Nat}
    {input : Remaining} (hp : ∃ report, p eoi input = .error report) :
    ∃ report, checked p check eoi input = .error report := by
  obtain ⟨report, hp⟩ := hp
  exact ⟨report, by rw [checked, hp]⟩

/-- A repetition stops at once where the parser fails. -/
theorem ManyRun.eq_of_error {p : Parser α} {eoi : Nat} {input : Remaining}
    {result : Parsed (List α)} (hrun : ManyRun p eoi input result)
    (h : ∃ report, p eoi input = .error report) : result.value = [] ∧ result.rest = input := by
  obtain ⟨report, h⟩ := h
  cases hrun with
  | stop _ => exact ⟨rfl, rfl⟩
  | step h' _ => rw [h] at h'; cases h'

end Parser

namespace Grammar

open Scriptlet.Parser

/-! ### What the small parsers read -/

theorem name_eq_ok {eoi : Nat} {input : Remaining} {result : Parsed String}
    (h : name eoi input = .ok result) :
    ∃ n tokens, input = .ofList (n :: tokens) ∧ n.kind = .identifier ∧
      result = ⟨n.text, .ofList tokens, none⟩ := by
  obtain ⟨first, h₁, rfl⟩ := map_eq_ok h
  obtain ⟨n, tokens, rfl, hn, rfl⟩ := token_eq_ok h₁
  exact ⟨n, tokens, rfl, hn, rfl⟩

theorem between_eq_ok {α : Type} {opening closing : Token.Kind} {inner : Parser α} {eoi : Nat}
    {input : Remaining} {result : Parsed α}
    (h : between opening closing inner eoi input = .ok result) :
    ∃ o tokens first c rest, input = .ofList (o :: tokens) ∧ o.kind = opening ∧
      inner eoi (.ofList tokens) = .ok first ∧ first.rest = .ofList (c :: rest) ∧
        c.kind = closing ∧ result = ⟨first.value, .ofList rest, first.missed⟩ := by
  obtain ⟨mark, more, h₁, h₂, rfl⟩ := bind_eq_ok h
  obtain ⟨o, tokens, rfl, ho, rfl⟩ := token_eq_ok h₁
  obtain ⟨first, last, h₃, h₄, rfl⟩ := bind_eq_ok h₂
  obtain ⟨mark, h₅, rfl⟩ := bind_return_eq_ok h₄
  obtain ⟨c, rest, hrest, hc, rfl⟩ := token_eq_ok h₅
  exact ⟨o, tokens, first, c, rest, rfl, ho, h₃, hrest, hc, by simp⟩

/-- A mark with a value behind it that may be missing. -/
theorem marked_eq_ok {α : Type} {kind : Token.Kind} {p : Parser α} {eoi : Nat} {input : Remaining}
    {result : Parsed (Option α)} (h : optional (token kind *> p) eoi input = .ok result) :
    (result.value = none ∧ result.rest = input) ∨
      ∃ tok tokens first, input = .ofList (tok :: tokens) ∧ tok.kind = kind ∧
        p eoi (.ofList tokens) = .ok first ∧ result.value = some first.value ∧
          result.rest = first.rest := by
  rcases optional_eq_ok h with ⟨report, -, rfl⟩ | ⟨second, h₁, rfl⟩
  · exact Or.inl ⟨rfl, rfl⟩
  · obtain ⟨mark, first, h₂, h₃, rfl⟩ := bind_eq_ok h₁
    obtain ⟨tok, tokens, rfl, htok, rfl⟩ := token_eq_ok h₂
    exact Or.inr ⟨tok, tokens, first, rfl, htok, h₃, rfl, rfl⟩

theorem operator_eq_ok {allowed : List Operator} {eoi : Nat} {input : Remaining}
    {result : Parsed Operator} (h : operator allowed eoi input = .ok result) :
    ∃ tok tokens op, input = .ofList (tok :: tokens) ∧ tok.operator? = some op ∧ op ∈ allowed ∧
      result = ⟨op, .ofList tokens, none⟩ := by
  obtain ⟨tok, tokens, op, rfl, hop, rfl⟩ := satisfy_eq_ok h
  obtain ⟨hop, hmem⟩ := Option.filter_eq_some_iff.1 hop
  exact ⟨tok, tokens, op, rfl, hop, by simpa using hmem, rfl⟩

theorem kind_of_operator? {tok : Token} {op : Operator} (h : tok.operator? = some op) :
    tok.kind = .operator := by
  rw [Token.operator?] at h
  split at h
  · next hkind => exact hkind
  · cases h

theorem operator_error {allowed : List Operator} {eoi : Nat} {input : Remaining}
    (h : headKind input.tokens ≠ some .operator) :
    ∃ report, operator allowed eoi input = .error report := by
  cases hp : operator allowed eoi input with
  | error report => exact ⟨report, rfl⟩
  | ok result =>
      obtain ⟨tok, tokens, op, rfl, hop, -⟩ := operator_eq_ok hp
      exact absurd (congrArg some (kind_of_operator? hop)) h

theorem operation_eq_ok {allowed : List Operator} {operand : Parser Expr} {eoi : Nat}
    {input : Remaining} {result : Parsed (Operator × Expr)}
    (h : operation allowed operand eoi input = .ok result) :
    ∃ tok tokens op right, input = .ofList (tok :: tokens) ∧ tok.operator? = some op ∧
      op ∈ allowed ∧ operand eoi (.ofList tokens) = .ok right ∧
        result = ⟨(op, right.value), right.rest, right.missed⟩ := by
  obtain ⟨first, second, h₁, h₂, rfl⟩ := bind_eq_ok h
  obtain ⟨tok, tokens, op, rfl, hop, hmem, rfl⟩ := operator_eq_ok h₁
  obtain ⟨right, h₃, rfl⟩ := bind_return_eq_ok h₂
  exact ⟨tok, tokens, op, right, rfl, hop, hmem, h₃, by simp⟩

theorem parameterNames_eq_ok {es : List Expr} {ps : List String}
    (h : parameterNames es = .ok ps) : es = ps.map .name := by
  induction es generalizing ps with
  | nil => rw [parameterNames, Except.ok.injEq] at h; rw [← h]; rfl
  | cons e es ih =>
      rw [parameterNames] at h
      cases e with
      | name n =>
          simp only [Expr.name?] at h
          cases hes : parameterNames es with
          | error complaint => simp [hes, Except.map] at h
          | ok names =>
              simp only [hes, Except.map, Except.ok.injEq] at h
              rw [← h, ih hes]
              rfl
      | _ => simp [Expr.name?] at h

/-! ### Orphans -/

/-- A parenthesis at which arguments cannot be read. -/
def Orphan (eoi : Nat) (input : Remaining) : Prop :=
  headKind input.tokens = some .openParen ∧
    ∃ report, arguments anyExpression eoi input = .error report

theorem Orphan.headKind_ne {eoi : Nat} {input : Remaining} (h : Orphan eoi input)
    {kind : Token.Kind} (hkind : kind ≠ .openParen) : headKind input.tokens ≠ some kind := by
  rw [h.1]
  exact fun e => hkind (Option.some_inj.1 e).symm

/-- In front of anything but a parenthesis there is no orphan. -/
theorem of_or_orphan {G : Prop} {eoi : Nat} {tok : Token} {tokens : List Token}
    {kind : Token.Kind} (h : G ∨ Orphan eoi (.ofList (tok :: tokens))) (htok : tok.kind = kind)
    (hkind : kind ≠ .openParen) : G :=
  h.resolve_right fun ho => ho.headKind_ne hkind (congrArg some htok)

/-- One expression between parentheses would be arguments. -/
theorem Orphan.between_error {eoi : Nat} {input : Remaining} (h : Orphan eoi input) :
    ∃ report, between .openParen .closeParen anyExpression eoi input = .error report := by
  cases hp : between .openParen .closeParen anyExpression eoi input with
  | error report => exact ⟨report, rfl⟩
  | ok result =>
      -- the list that consists of this expression would end at the same parenthesis
      exfalso
      obtain ⟨o, tokens, first, c, rest, rfl, ho, h₁, hrest, hc, -⟩ := between_eq_ok hp
      obtain ⟨report, hsep⟩ : ∃ report, token .comma eoi first.rest = .error report :=
        token_error (by rw [hrest]; simp [Remaining.ofList, hc])
      have hadv := advances_separator_item advances_anyExpression.nonGrowing .comma
      have hstop : ManyRun (token .comma *> anyExpression) eoi first.rest
          ⟨[], first.rest, some report⟩ := .stop (bind_of_error hsep)
      have hitems : items anyExpression .comma eoi (.ofList tokens)
          = .ok ⟨[first.value], first.rest, Report.merge first.missed (some report)⟩ := by
        rw [items, bind_of_ok h₁, bind_of_ok (hstop.many_eq hadv), pure_def]
        simp
      have hlist := map_of_ok (f := fun values : Option (List Expr) => values.getD [])
        (optional_of_ok hitems)
      rw [← separated_eq advances_anyExpression.nonGrowing] at hlist
      obtain ⟨report', hargs⟩ := h.2
      rw [arguments, between, bind_of_ok (token_of_kind ho), bind_of_ok hlist] at hargs
      dsimp only at hargs
      rw [hrest, bind_of_ok (token_of_kind hc), pure_def] at hargs
      simp at hargs

/-- Expressions begin with a few kinds of tokens only, and a parenthesis has to be closed. -/
theorem expression_error {eoi : Nat} {input : Remaining}
    (h : Clear [.openBrace, .identifier, .number, .fnWord] input.tokens)
    (hbetween : ∃ report, between .openParen .closeParen anyExpression eoi input = .error report) :
    ∃ report, anyExpression eoi input = .error report := by
  have hname : ∃ report, name eoi input = .error report :=
    bind_error (token_error (h _ (by decide)))
  have hnumber : ∃ report, number eoi input = .error report :=
    checked_error (token_error (h _ (by decide)))
  have hfunction : ∃ report, function anyStatement anyExpression eoi input = .error report :=
    bind_error (token_error (h _ (by decide)))
  have hobject : ∃ report, object anyExpression eoi input = .error report :=
    bind_error (bind_error (token_error (h _ (by decide))))
  have hprimary : ∃ report, primary anyStatement anyExpression eoi input = .error report :=
    orElse_error (bind_error hname) <| orElse_error (bind_error hnumber) <|
      orElse_error hbetween hfunction
  have hcall : ∃ report, call anyStatement anyExpression eoi input = .error report :=
    bind_error (bind_error hprimary)
  rw [anyExpression_eq]
  exact bind_error (orElse_error hobject (bind_error (bind_error hcall)))

/-- Statements begin with a keyword or as expressions do. -/
theorem statement_error {eoi : Nat} {input : Remaining}
    (h : Clear [.letWord, .constWord] input.tokens)
    (hexpression : ∃ report, anyExpression eoi input = .error report) :
    ∃ report, anyStatement eoi input = .error report := by
  rw [anyStatement_eq]
  exact orElse_error (bind_error (token_error (h _ (by decide)))) <|
    orElse_error (bind_error (token_error (h _ (by decide)))) (bind_error hexpression)

/-- **No statement begins at an orphan.** -/
theorem Orphan.statement_error {eoi : Nat} {input : Remaining} (h : Orphan eoi input) :
    ∃ report, anyStatement eoi input = .error report :=
  Grammar.statement_error (clear_of_headKind h.1 (by decide)) <|
    expression_error (clear_of_headKind h.1 (by decide)) h.between_error

/-! ### Parsers that read what is derived -/

/-- On inputs of fewer than `n` tokens, what the parser reads is derived, or it stops at an
orphan. -/
def ReadsBelow {α : Type} (n : Nat) (G : List Token → List Token → α → Prop) (p : Parser α) :
    Prop :=
  ∀ eoi input result, input.count < n → p eoi input = .ok result →
    G input.tokens result.rest.tokens result.value ∨ Orphan eoi result.rest

section Layers

variable {n : Nat} (hs : ReadsBelow n (Derives .statement) anyStatement)
  (he : ReadsBelow n (Derives .expression) anyExpression)

include he in
/-- An expression in front of anything but a parenthesis. -/
theorem derives_of_closed {eoi : Nat} {tokens : List Token} {result : Parsed Expr} {c : Token}
    {rest : List Token} {kind : Token.Kind} (hn : tokens.length < n)
    (h : anyExpression eoi (.ofList tokens) = .ok result)
    (hrest : result.rest = .ofList (c :: rest)) (hc : c.kind = kind) (hkind : kind ≠ .openParen) :
    Derives .expression tokens (c :: rest) result.value := by
  have hd := he _ (.ofList tokens) _ hn h
  rw [hrest] at hd
  exact of_or_orphan hd hc hkind

/-- Values with commas in front of them, behind a first value. -/
theorem derives_items {α : Type} {G : List Token → List Token → α → Prop}
    {L : List Token → List Token → List α → Prop} {item : Parser α} {eoi : Nat}
    (hitem : ReadsBelow n G item) (hadv : NonGrowing item)
    (hlast : ∀ {tokens rest e}, G tokens rest e → L tokens rest [e])
    (hmore : ∀ {comma tokens mid rest e es}, G tokens (comma :: mid) e → comma.kind = .comma →
      L mid rest es → L tokens rest (e :: es))
    {mid : Remaining} {more : Parsed (List α)} (hrun : ManyRun (token .comma *> item) eoi mid more)
    (hn : mid.count < n) {tokens : List Token} {e : α}
    (he : G tokens mid.tokens e ∨ Orphan eoi mid) :
    L tokens more.rest.tokens (e :: more.value) ∨ Orphan eoi more.rest := by
  induction hrun generalizing tokens e with
  | stop _ => exact he.imp_left hlast
  | step hstep _ ih =>
      obtain ⟨mark, value, h₁, h₂, rfl⟩ := bind_eq_ok hstep
      obtain ⟨comma, rest, rfl, hcomma, rfl⟩ := token_eq_ok h₁
      have hlt : rest.length < n := Nat.lt_of_succ_lt hn
      have hle := hadv _ _ _ h₂
      have he := of_or_orphan he hcomma (by decide)
      exact (ih (Nat.lt_of_le_of_lt hle hlt) (hitem _ _ _ hlt h₂)).imp_left (hmore he hcomma)

include he in
theorem derives_arguments : ∀ eoi input result, input.count ≤ n →
    arguments anyExpression eoi input = .ok result →
      Derives .arguments input.tokens result.rest.tokens result.value := by
  intro eoi input result hn h
  obtain ⟨o, tokens, first, c, rest, rfl, ho, h₁, hrest, hc, rfl⟩ := between_eq_ok h
  have hlt : tokens.length < n := hn
  rw [separated_eq advances_anyExpression.nonGrowing] at h₁
  obtain ⟨values, h₂, rfl⟩ := map_eq_ok h₁
  rcases optional_eq_ok h₂ with ⟨report, -, rfl⟩ | ⟨seq, h₃, rfl⟩
  · dsimp only at hrest
    cases hrest
    exact .noArguments ho hc
  · obtain ⟨value, r, h₄, h₅, rfl⟩ := bind_eq_ok h₃
    obtain ⟨more, h₆, rfl⟩ := bind_return_eq_ok h₅
    have hadv := advances_separator_item advances_anyExpression.nonGrowing .comma
    have hvalue := advances_anyExpression _ _ _ h₄
    dsimp only at hrest
    have hd := derives_items (L := Derives .expressions) he advances_anyExpression.nonGrowing
      .lastExpression .moreExpressions (manyRun_of_many hadv h₆) (Nat.lt_trans hvalue hlt)
      (he _ _ _ hlt h₄)
    rw [hrest] at hd
    exact .someArguments ho (of_or_orphan hd hc (by decide)) hc

include hs in
theorem derives_statements : ReadsBelow n (Derives .statements) (many anyStatement) := by
  intro eoi input result hn h
  induction manyRun_of_many advances_anyStatement h with
  | stop _ => exact Or.inl (.noStatement _)
  | step hfirst hmore ih =>
      have hlt := advances_anyStatement _ _ _ hfirst
      rcases hs _ _ _ hn hfirst with hd | ho
      · exact (ih (Nat.lt_trans hlt hn) (hmore.many_eq advances_anyStatement)).imp_left
          (.moreStatements hd)
      · -- nothing can be read at an orphan, so it is where the repetition stops
        have hstop := hmore.eq_of_error ho.statement_error
        exact Or.inr (by rw [prepend, hstop.2]; exact ho)

include hs he in
theorem derives_function : ∀ eoi input result, input.count ≤ n →
    function anyStatement anyExpression eoi input = .ok result →
      Derives .primary input.tokens result.rest.tokens result.value := by
  intro eoi input result hn h
  obtain ⟨mark, r₁, h₁, h₂, rfl⟩ := bind_eq_ok h
  obtain ⟨f, tokens, rfl, hf, rfl⟩ := token_eq_ok h₁
  obtain ⟨mark, r₂, h₃, h₄, rfl⟩ := bind_eq_ok h₂
  obtain ⟨n', tokens, hn₀, hname, rfl⟩ := name_eq_ok h₃
  cases hn₀
  obtain ⟨ps, r₃, h₅, h₆, rfl⟩ := bind_eq_ok h₄
  obtain ⟨args, names, h₇, hnames, rfl⟩ := checked_eq_ok h₅
  obtain ⟨body, h₈, rfl⟩ := bind_return_eq_ok h₆
  obtain ⟨o, inner, block, c, rest, ho₀, ho, h₁₀, hrest, hc, rfl⟩ := between_eq_ok h₈
  have hlt : tokens.length + 2 ≤ n := hn
  have hargs := derives_arguments he _ (.ofList tokens) _ (show tokens.length ≤ n by omega) h₇
  have hcount := advances_arguments advances_anyExpression _ _ _ h₇
  dsimp only at ho₀
  rw [parameterNames_eq_ok hnames, ho₀] at hargs
  rw [ho₀] at hcount
  simp only [count_ofList, List.length_cons] at hcount
  have hbody := derives_statements hs _ (.ofList inner) _ (show inner.length < n by omega) h₁₀
  rw [hrest] at hbody
  exact .function hf hname hargs ho (of_or_orphan hbody hc (by decide)) hc

include hs he in
theorem derives_primary : ∀ eoi input result, input.count ≤ n →
    primary anyStatement anyExpression eoi input = .ok result →
      Derives .primary input.tokens result.rest.tokens result.value := by
  intro eoi input result hn h
  rcases orElse_eq_ok h with h | h
  · obtain ⟨first, h₁, rfl⟩ := map_eq_ok h
    obtain ⟨n, tokens, rfl, hn, rfl⟩ := name_eq_ok h₁
    exact .name hn
  rcases orElse_eq_ok h with h | h
  · obtain ⟨first, h₁, rfl⟩ := map_eq_ok h
    obtain ⟨digits, x, h₂, hx, rfl⟩ := checked_eq_ok h₁
    obtain ⟨n, tokens, rfl, hn, rfl⟩ := token_eq_ok h₂
    dsimp only at hx
    cases hread : Number.read n.text with
    | none => simp [hread] at hx
    | some y =>
        simp only [hread, Except.ok.injEq] at hx
        exact .number hn (hx ▸ hread)
  rcases orElse_eq_ok h with h | h
  · obtain ⟨o, tokens, first, c, rest, rfl, ho, h₁, hrest, hc, rfl⟩ := between_eq_ok h
    have hfirst := derives_of_closed he hn h₁ hrest hc (by decide)
    exact .parenthesized ho hfirst hc
  · exact derives_function hs he _ _ _ hn h

include hs he in
/-- What is read behind a member makes it a longer member. -/
theorem derives_accesses {eoi : Nat} {tokens : List Token} {object : Expr} {mid : Remaining}
    {accesses : Parsed (List Access)} (hn : mid.count ≤ n)
    (hobject : Derives .member tokens mid.tokens object)
    (hrun : ManyRun (orElse (dotAccess anyStatement anyExpression) (indexAccess anyExpression)) eoi
      mid accesses) :
    Derives .member tokens accesses.rest.tokens (accesses.value.foldl Access.apply object) := by
  induction hrun generalizing object with
  | stop _ => exact hobject
  | step h _ ih =>
      have hlt := advances_access advances_anyStatement advances_anyExpression _ _ _ h
      refine ih (by omega) ?_
      rcases orElse_eq_ok h with h | h
      · obtain ⟨second, access, h₁, hcheck, rfl⟩ := checked_eq_ok h
        obtain ⟨mark, property, h₂, h₃, rfl⟩ := bind_eq_ok h₁
        obtain ⟨d, tokens, rfl, hd, rfl⟩ := token_eq_ok h₂
        have hproperty := derives_primary hs he _ (.ofList tokens) _ (Nat.le_of_succ_le hn) h₃
        dsimp only at hcheck hproperty ⊢
        cases hvalue : property.value with
        | name p =>
            rw [hvalue] at hcheck hproperty
            cases hcheck
            exact .dot hobject hd hproperty
        | _ => rw [hvalue] at hcheck; cases hcheck
      · obtain ⟨property, h₁, rfl⟩ := map_eq_ok h
        obtain ⟨b, tokens, first, c, rest, rfl, hb, h₂, hrest, hc, rfl⟩ := between_eq_ok h₁
        have hfirst := derives_of_closed he hn h₂ hrest hc (by decide)
        exact .index hobject hb hfirst hc

include hs he in
theorem derives_member : ∀ eoi input result, input.count ≤ n →
    member anyStatement anyExpression eoi input = .ok result →
      Derives .member input.tokens result.rest.tokens result.value := by
  intro eoi input result hn h
  obtain ⟨object, r₁, h₁, h₂, rfl⟩ := bind_eq_ok h
  obtain ⟨accesses, h₃, rfl⟩ := bind_return_eq_ok h₂
  have hlt := advances_primary advances_anyStatement advances_anyExpression _ _ _ h₁
  exact derives_accesses hs he (by omega) (.onePrimary (derives_primary hs he _ _ _ hn h₁))
    (manyRun_of_many (advances_access advances_anyStatement advances_anyExpression) h₃)

include he in
/-- What is read behind calls makes them longer, and at the end no arguments can be read. -/
theorem derives_calls {eoi : Nat} {tokens : List Token} {callee : Expr} {mid : Remaining}
    {calls : Parsed (List (List Expr))} (hn : mid.count ≤ n)
    (hcallee : Derives .calls tokens mid.tokens callee)
    (hrun : ManyRun (arguments anyExpression) eoi mid calls) :
    Derives .call tokens calls.rest.tokens (calls.value.foldl .call callee) ∨
      Orphan eoi calls.rest := by
  induction hrun generalizing callee with
  | @stop input report h =>
      by_cases hhead : headKind input.tokens = some .openParen
      · exact Or.inr ⟨hhead, report, h⟩
      · exact Or.inl (.allCalls hcallee hhead)
  | step h _ ih =>
      have hlt := advances_arguments advances_anyExpression _ _ _ h
      exact ih (by omega) (.applied hcallee (derives_arguments he _ _ _ hn h))

include hs he in
theorem derives_call :
    ReadsBelow (n + 1) (Derives .call) (call anyStatement anyExpression) := by
  intro eoi input result hn h
  obtain ⟨callee, r₁, h₁, h₂, rfl⟩ := bind_eq_ok h
  obtain ⟨calls, h₃, rfl⟩ := bind_return_eq_ok h₂
  have hlt := advances_member advances_anyStatement advances_anyExpression _ _ _ h₁
  exact derives_calls he (by omega) (.uncalled (derives_member hs he _ _ _ (by omega) h₁))
    (manyRun_of_many (advances_arguments advances_anyExpression) h₃)

/-- A chain of operations, given what one operation adds to what was read. -/
theorem derives_chain {m : Nat} {H G : List Token → List Token → Expr → Prop}
    {operand : Parser Expr} {allowed : List Operator} (ho : ReadsBelow m H operand)
    (hadv : Advances operand) (hone : ∀ {tokens rest e}, H tokens rest e → G tokens rest e)
    (hstep : ∀ {tok op tokens mid rest a b}, G tokens (tok :: mid) a →
      tok.operator? = some op → op ∈ allowed → H mid rest b → G tokens rest (.binary op a b)) :
    ReadsBelow m G (chain allowed operand) := by
  intro eoi input result hn h
  obtain ⟨first, r₁, h₁, h₂, rfl⟩ := bind_eq_ok h
  obtain ⟨more, h₃, rfl⟩ := bind_return_eq_ok h₂
  have hrun := manyRun_of_many (advances_operation hadv allowed) h₃
  have hfirst := (ho _ _ _ hn h₁).imp_left hone
  have hlt := Nat.lt_trans (hadv _ _ _ h₁) hn
  clear h h₂ h₃
  dsimp only
  -- on the rounds of the loop, for any operand on the left that was read so far
  generalize first.value = left at hfirst
  generalize first.rest = mid at hrun hfirst hlt
  induction hrun generalizing left with
  | stop _ => exact hfirst
  | step hop _ ih =>
      have hcount := advances_operation hadv allowed _ _ _ hop
      obtain ⟨tok, tokens, op, right, rfl, htok, hmem, h₅, rfl⟩ := operation_eq_ok hop
      have hlt' : tokens.length < m := Nat.lt_of_succ_lt hlt
      have hfirst := of_or_orphan hfirst (kind_of_operator? htok) (by decide)
      refine ih (.binary op left right.value) ?_ (Nat.lt_trans hcount hlt)
      exact (ho _ _ _ hlt' h₅).imp_left (hstep hfirst htok hmem)

include hs he in
theorem derives_sum : ReadsBelow (n + 1) (Derives .sum) (sum anyStatement anyExpression) := by
  have hadv := advances_call advances_anyStatement advances_anyExpression
  have hproduct : ReadsBelow (n + 1) (Derives .product) (product anyStatement anyExpression) :=
    derives_chain (derives_call hs he) hadv .oneCall .multiply
  exact derives_chain hproduct (advances_chain hadv _) .oneProduct .add

include he in
/-- A mark with an expression behind it that may be missing. -/
theorem derives_marked {kind : Token.Kind} {eoi : Nat} {input : Remaining}
    {result : Parsed (Option Expr)} (hn : input.count ≤ n)
    (h : optional (token kind *> anyExpression) eoi input = .ok result) :
    (result.value = none ∧ result.rest = input) ∨
      ∃ tok tokens e, input = .ofList (tok :: tokens) ∧ tok.kind = kind ∧ result.value = some e ∧
        (Derives .expression tokens result.rest.tokens e ∨ Orphan eoi result.rest) := by
  rcases marked_eq_ok h with h | ⟨tok, tokens, first, rfl, htok, h₁, hvalue, hrest⟩
  · exact Or.inl h
  · refine Or.inr ⟨tok, tokens, first.value, rfl, htok, hvalue, ?_⟩
    rw [hrest]
    exact he _ (.ofList tokens) _ hn h₁

include he in
theorem derives_entry : ReadsBelow (n + 1) (Derives .entry) (entry anyExpression) := by
  intro eoi input result hn h
  obtain ⟨key, r₁, h₁, h₂, rfl⟩ := bind_eq_ok h
  obtain ⟨k, tokens, rfl, hk, rfl⟩ := name_eq_ok h₁
  have hcount : tokens.length < n := Nat.lt_of_succ_lt_succ hn
  obtain ⟨value, last, h₃, h₄, rfl⟩ := bind_eq_ok h₂
  rcases derives_marked he (Nat.le_of_lt hcount) h₃ with
    ⟨hvalue, hrest⟩ | ⟨colon, tokens, v, htokens, hcolon, hvalue, hd⟩
  · rw [hvalue] at h₄
    obtain rfl := pure_eq_ok h₄
    dsimp only at hrest ⊢
    rw [hrest]
    exact Or.inl (.shorthand hk)
  · rw [hvalue] at h₄
    obtain rfl := pure_eq_ok h₄
    cases htokens
    exact hd.imp_left (.pair hk hcolon)

include he in
theorem derives_object : ∀ eoi input result, input.count ≤ n →
    object anyExpression eoi input = .ok result →
      Derives .target input.tokens result.rest.tokens result.value := by
  intro eoi input result hn h
  obtain ⟨entries, h₁, rfl⟩ := map_eq_ok h
  obtain ⟨o, tokens, first, c, rest, rfl, ho, h₂, hrest, hc, rfl⟩ := between_eq_ok h₁
  have hlt : tokens.length < n := hn
  have hentry := advances_entry advances_anyExpression
  rw [separated_trailing_eq hentry.nonGrowing] at h₂
  obtain ⟨values, h₃, rfl⟩ := map_eq_ok h₂
  rcases optional_eq_ok h₃ with ⟨report, -, rfl⟩ | ⟨seq, h₄, rfl⟩
  · dsimp only at hrest
    cases hrest
    exact .emptyObject ho hc
  · obtain ⟨value, r, h₅, h₆, rfl⟩ := bind_eq_ok h₄
    obtain ⟨more, h₇, rfl⟩ := bind_return_eq_ok h₆
    obtain ⟨items, r, h₈, h₉, rfl⟩ := bind_eq_ok h₇
    obtain ⟨mark, h₁₀, rfl⟩ := bind_return_eq_ok h₉
    have hadv := advances_separator_item hentry.nonGrowing .comma
    have hvalue := hentry _ _ _ h₅
    have hentries := derives_items (L := Derives .entries) (derives_entry he) hentry.nonGrowing
      .lastEntry .moreEntries (manyRun_of_many hadv h₈)
      (Nat.lt_succ_of_lt (Nat.lt_trans hvalue hlt))
      (derives_entry he _ _ _ (Nat.lt_succ_of_lt hlt) h₅)
    dsimp only at hrest ⊢
    -- there may be one more comma in front of the brace
    rcases optional_eq_ok h₁₀ with ⟨report, -, rfl⟩ | ⟨comma, h₁₁, rfl⟩
    · dsimp only at hrest
      rw [hrest] at hentries
      exact .object ho (of_or_orphan hentries hc (by decide)) hc
    · obtain ⟨comma, rest', hitems, hcomma, rfl⟩ := token_eq_ok h₁₁
      cases hrest
      rw [hitems] at hentries
      exact .objectTrailing ho (of_or_orphan hentries hcomma (by decide)) hcomma hc

include hs he in
theorem derives_expressionLayer :
    ReadsBelow (n + 1) (Derives .expression) (expressionLayer anyStatement anyExpression) := by
  intro eoi input result hn h
  obtain ⟨target, r₁, h₁, h₂, rfl⟩ := bind_eq_ok h
  have htarget : Derives .target input.tokens target.rest.tokens target.value ∨
      Orphan eoi target.rest := by
    rcases orElse_eq_ok h₁ with h₁ | h₁
    · exact Or.inl (derives_object he _ _ _ (Nat.le_of_lt_succ hn) h₁)
    · exact (derives_sum hs he _ _ _ hn h₁).imp_left .sumTarget
  have hlt : target.rest.count < input.count :=
    (advances_object advances_anyExpression).orElse
      (advances_sum advances_anyStatement advances_anyExpression) _ _ _ h₁
  obtain ⟨value, last, h₃, h₄, rfl⟩ := bind_eq_ok h₂
  rcases derives_marked he (by omega) h₃ with
    ⟨hvalue, hrest⟩ | ⟨eq, tokens, v, htokens, heq, hvalue, hd⟩
  · rw [hvalue] at h₄
    obtain rfl := pure_eq_ok h₄
    dsimp only at hrest ⊢
    rw [hrest]
    exact htarget.imp_left .unassigned
  · rw [hvalue] at h₄
    obtain rfl := pure_eq_ok h₄
    rw [htokens] at htarget
    exact hd.imp_left (.assign (of_or_orphan htarget heq (by decide)) heq)

include he in
theorem derives_letStatement : ReadsBelow n (Derives .statement) (letStatement anyExpression) := by
  intro eoi input result hn h
  obtain ⟨mark, r₁, h₁, h₂, rfl⟩ := bind_eq_ok h
  obtain ⟨l, tokens, rfl, hl, rfl⟩ := token_eq_ok h₁
  obtain ⟨mark, r₂, h₃, h₄, rfl⟩ := bind_eq_ok h₂
  obtain ⟨name, tokens, hname₀, hname, rfl⟩ := name_eq_ok h₃
  cases hname₀
  obtain ⟨value, r₃, h₅, h₆, rfl⟩ := bind_eq_ok h₄
  obtain ⟨mark, h₇, rfl⟩ := bind_return_eq_ok h₆
  obtain ⟨semi, rest, hsemi₀, hsemi, rfl⟩ := token_eq_ok h₇
  have hlt : tokens.length + 2 < n := hn
  rcases derives_marked he (show tokens.length ≤ n by omega) h₅ with
    ⟨hvalue, hrest⟩ | ⟨eq, tokens, v, htokens, heq, hvalue, hd⟩
  · rw [hsemi₀] at hrest
    cases hrest
    dsimp only
    rw [hvalue]
    exact Or.inl (.letBare hl hname hsemi)
  · dsimp only at htokens ⊢
    cases htokens
    rw [hsemi₀] at hd
    rw [hvalue]
    exact Or.inl (.letValue hl hname heq (of_or_orphan hd hsemi (by decide)) hsemi)

include he in
theorem derives_constStatement :
    ReadsBelow n (Derives .statement) (constStatement anyExpression) := by
  intro eoi input result hn h
  obtain ⟨mark, r₁, h₁, h₂, rfl⟩ := bind_eq_ok h
  obtain ⟨c, tokens, rfl, hc, rfl⟩ := token_eq_ok h₁
  obtain ⟨mark, r₂, h₃, h₄, rfl⟩ := bind_eq_ok h₂
  obtain ⟨name, tokens, hname₀, hname, rfl⟩ := name_eq_ok h₃
  cases hname₀
  obtain ⟨mark, r₃, h₅, h₆, rfl⟩ := bind_eq_ok h₄
  obtain ⟨eq, tokens, heq₀, heq, rfl⟩ := token_eq_ok h₅
  cases heq₀
  obtain ⟨value, r₄, h₇, h₈, rfl⟩ := bind_eq_ok h₆
  obtain ⟨mark, h₉, rfl⟩ := bind_return_eq_ok h₈
  obtain ⟨semi, rest, hsemi₀, hsemi, rfl⟩ := token_eq_ok h₉
  have hlt : tokens.length + 3 < n := hn
  have hvalue := derives_of_closed he (show tokens.length < n by omega) h₇ hsemi₀ hsemi (by decide)
  exact Or.inl (.constValue hc hname heq hvalue hsemi)

include he in
theorem derives_expressionStatement :
    ReadsBelow n (Derives .statement) (expressionStatement anyExpression) := by
  intro eoi input result hn h
  obtain ⟨e, r₁, h₁, h₂, rfl⟩ := bind_eq_ok h
  obtain ⟨mark, h₃, rfl⟩ := bind_return_eq_ok h₂
  have hd := he _ _ _ hn h₁
  rcases optional_eq_ok h₃ with ⟨report, -, rfl⟩ | ⟨semi, h₄, rfl⟩
  · exact hd.imp_left .bareExpr
  · obtain ⟨semi, rest, hrest, hsemi, rfl⟩ := token_eq_ok h₄
    rw [hrest] at hd
    exact Or.inl (.endedExpr (of_or_orphan hd hsemi (by decide)) hsemi)

include he in
theorem derives_statementLayer :
    ReadsBelow n (Derives .statement) (statementLayer anyExpression) := by
  intro eoi input result hn h
  rcases orElse_eq_ok h with h | h
  · exact derives_letStatement he _ _ _ hn h
  rcases orElse_eq_ok h with h | h
  · exact derives_constStatement he _ _ _ hn h
  · exact derives_expressionStatement he _ _ _ hn h

end Layers

/-- **What is read as a statement or as an expression is one, or stops at an orphan.** -/
theorem derives_any (n : Nat) :
    ReadsBelow n (Derives .statement) anyStatement ∧
      ReadsBelow n (Derives .expression) anyExpression := by
  induction n with
  | zero => exact ⟨fun _ _ _ h => by omega, fun _ _ _ h => by omega⟩
  | succ n ih =>
      have he : ReadsBelow (n + 1) (Derives .expression) anyExpression := by
        rw [anyExpression_eq]
        exact derives_expressionLayer ih.1 ih.2
      refine ⟨?_, he⟩
      rw [anyStatement_eq]
      exact derives_statementLayer he

end Grammar

/-- **What is parsed is a program.** -/
theorem Program.derivable_of_readTokens {tokens : List Token} {program : Program}
    (h : Program.readTokens tokens = .ok program) : program.Derivable tokens := by
  rw [Program.readTokens_eq] at h
  obtain ⟨result, hresult, rfl⟩ : ∃ result, Grammar.anyProgram (endOffset tokens)
      (.ofList tokens) = .ok result ∧ result.value = program := by
    cases hp : Grammar.anyProgram (endOffset tokens) (.ofList tokens) with
    | error report => rw [hp] at h; cases h
    | ok result => rw [hp] at h; exact ⟨result, rfl, Except.ok.inj h⟩
  obtain ⟨body, r₁, h₁, h₂, rfl⟩ := Parser.bind_eq_ok hresult
  obtain ⟨mark, r₂, h₃, h₄, rfl⟩ := Parser.bind_eq_ok h₂
  obtain ⟨last, rest, hlast₀, hlast, rfl⟩ := Parser.token_eq_ok h₃
  obtain ⟨mark, h₅, rfl⟩ := Parser.bind_return_eq_ok h₄
  have hrest : rest = [] := by
    cases rest with
    | nil => rfl
    | cons tok tokens => simp [Parser.finish] at h₅
  refine ⟨last, hlast, ?_⟩
  have hbody := Grammar.derives_statements (Grammar.derives_any _).1 _ (.ofList tokens) _
    (Nat.lt_succ_self _) h₁
  rw [hlast₀, hrest] at hbody
  exact Grammar.of_or_orphan hbody hlast (by decide)

end Scriptlet
