/-
**Scripts in two parts.**

A script can be cut behind a semicolon that ends a statement.  The statements in front of the cut
are read in the same way whatever stands behind it, and nothing that was tried on them has looked
past the semicolon.  So the two parts together are read as the statements of the first part and the
statements of the second, or they fail as the second part does alone.

Main definitions:

* `Scriptlet.Grammar.Unended` — tokens that end with no semicolon;
* `Scriptlet.Grammar.ReadsOff` — a parser reads a value without a look at what is behind it.

Main results:

* `Scriptlet.Grammar.Derives.exists_front` — **derivations in front of other tokens**;
* `Scriptlet.Grammar.readsOff_statement` — **a statement that ends with a semicolon is read in front
  of all tokens**;
* `Scriptlet.Program.readTokens_append`, `Scriptlet.Program.ofSource_append` — **parsing two parts
  of a script**.
-/

import Scriptlet.Proofs.Syntax.Cuts
import Scriptlet.Proofs.Syntax.Expectations
import Scriptlet.Proofs.Syntax.Lookahead
import Scriptlet.Proofs.Syntax.Moved

set_option relaxedAutoImplicit false
set_option autoImplicit false

namespace Scriptlet

/-! ### Derivations in front of other tokens -/

theorem headKind_append {rest rest' : List Token} (h : headKind rest' = headKind rest)
    (front : List Token) : headKind (front ++ rest') = headKind (front ++ rest) := by
  cases front with
  | nil => exact h
  | cons tok front => rfl

namespace Grammar

open Scriptlet.Parser

/-- **A derivation holds in front of other tokens as well**, if the first of them is of the same
kind. -/
theorem Derives.exists_front {s : Symbol} {tokens rest : List Token} {tree : s.Tree}
    (h : Derives s tokens rest tree) : ∃ front, tokens = front ++ rest ∧
      ∀ rest', headKind rest' = headKind rest → Derives s (front ++ rest') rest' tree := by
  induction h with
  | noStatement tokens => exact ⟨[], rfl, fun rest' _ => .noStatement rest'⟩
  | letBare hl hn hsemi => exact ⟨[_, _, _], rfl, fun _ _ => .letBare hl hn hsemi⟩
  | emptyObject ho hc => exact ⟨[_, _], rfl, fun _ _ => .emptyObject ho hc⟩
  | shorthand hk => exact ⟨[_], rfl, fun _ _ => .shorthand hk⟩
  | noArguments ho hc => exact ⟨[_, _], rfl, fun _ _ => .noArguments ho hc⟩
  | name hn => exact ⟨[_], rfl, fun _ _ => .name hn⟩
  | number hn hx => exact ⟨[_], rfl, fun _ _ => .number hn hx⟩
  -- one part, and nothing in front of it or behind it
  | bareExpr _ ih | unassigned _ ih | sumTarget _ ih | lastEntry _ ih | oneProduct _ ih
  | oneCall _ ih | uncalled _ ih | lastExpression _ ih | onePrimary _ ih =>
      obtain ⟨front, rfl, ih⟩ := ih
      refine ⟨front, rfl, fun rest' hrest => ?_⟩
      constructor
      exact ih rest' hrest
  | allCalls _ hhead ih =>
      obtain ⟨front, rfl, ih⟩ := ih
      exact ⟨front, rfl, fun rest' hrest => .allCalls (ih rest' hrest) (hrest ▸ hhead)⟩
  -- one part between tokens
  | @letValue l n eq semi _ _ _ hl hn heq _ hsemi ih =>
      obtain ⟨front, rfl, ih⟩ := ih
      refine ⟨l :: n :: eq :: (front ++ [semi]), by simp, fun rest' _ => ?_⟩
      simpa using Derives.letValue hl hn heq (ih (semi :: rest') rfl) hsemi
  | @constValue c n eq semi _ _ _ hc hn heq _ hsemi ih =>
      obtain ⟨front, rfl, ih⟩ := ih
      refine ⟨c :: n :: eq :: (front ++ [semi]), by simp, fun rest' _ => ?_⟩
      simpa using Derives.constValue hc hn heq (ih (semi :: rest') rfl) hsemi
  | @endedExpr semi _ _ _ _ hsemi ih =>
      obtain ⟨front, rfl, ih⟩ := ih
      refine ⟨front ++ [semi], by simp, fun rest' _ => ?_⟩
      simpa using Derives.endedExpr (ih (semi :: rest') rfl) hsemi
  | @object o c _ _ _ ho _ hc ih =>
      obtain ⟨front, rfl, ih⟩ := ih
      refine ⟨o :: (front ++ [c]), by simp, fun rest' _ => ?_⟩
      simpa using Derives.object ho (ih (c :: rest') rfl) hc
  | @objectTrailing o comma c _ _ _ ho _ hcomma hc ih =>
      obtain ⟨front, rfl, ih⟩ := ih
      refine ⟨o :: (front ++ [comma, c]), by simp, fun rest' _ => ?_⟩
      simpa using Derives.objectTrailing ho (ih (comma :: c :: rest') rfl) hcomma hc
  | @pair k colon _ _ _ hk hcolon _ ih =>
      obtain ⟨front, rfl, ih⟩ := ih
      exact ⟨k :: colon :: front, rfl, fun rest' hrest => .pair hk hcolon (ih rest' hrest)⟩
  | @someArguments o c _ _ _ ho _ hc ih =>
      obtain ⟨front, rfl, ih⟩ := ih
      refine ⟨o :: (front ++ [c]), by simp, fun rest' _ => ?_⟩
      simpa using Derives.someArguments ho (ih (c :: rest') rfl) hc
  | @parenthesized o c _ _ _ ho _ hc ih =>
      obtain ⟨front, rfl, ih⟩ := ih
      refine ⟨o :: (front ++ [c]), by simp, fun rest' _ => ?_⟩
      simpa using Derives.parenthesized ho (ih (c :: rest') rfl) hc
  -- two parts
  | moreStatements _ _ ih₁ ih₂ =>
      obtain ⟨front, rfl, ih₁⟩ := ih₁
      obtain ⟨back, rfl, ih₂⟩ := ih₂
      refine ⟨front ++ back, by simp, fun rest' hrest => ?_⟩
      simpa using Derives.moreStatements (ih₁ _ (headKind_append hrest back)) (ih₂ rest' hrest)
  | @assign eq _ _ _ _ _ _ heq _ ih₁ ih₂ =>
      obtain ⟨front, rfl, ih₁⟩ := ih₁
      obtain ⟨back, rfl, ih₂⟩ := ih₂
      refine ⟨front ++ eq :: back, by simp, fun rest' hrest => ?_⟩
      simpa using Derives.assign (ih₁ (eq :: (back ++ rest')) rfl) heq (ih₂ rest' hrest)
  | @moreEntries comma _ _ _ _ _ _ hcomma _ ih₁ ih₂ =>
      obtain ⟨front, rfl, ih₁⟩ := ih₁
      obtain ⟨back, rfl, ih₂⟩ := ih₂
      refine ⟨front ++ comma :: back, by simp, fun rest' hrest => ?_⟩
      simpa using Derives.moreEntries (ih₁ (comma :: (back ++ rest')) rfl) hcomma (ih₂ rest' hrest)
  | @add tok _ _ _ _ _ _ _ hop hmem _ ih₁ ih₂ =>
      obtain ⟨front, rfl, ih₁⟩ := ih₁
      obtain ⟨back, rfl, ih₂⟩ := ih₂
      refine ⟨front ++ tok :: back, by simp, fun rest' hrest => ?_⟩
      simpa using Derives.add (ih₁ (tok :: (back ++ rest')) rfl) hop hmem (ih₂ rest' hrest)
  | @multiply tok _ _ _ _ _ _ _ hop hmem _ ih₁ ih₂ =>
      obtain ⟨front, rfl, ih₁⟩ := ih₁
      obtain ⟨back, rfl, ih₂⟩ := ih₂
      refine ⟨front ++ tok :: back, by simp, fun rest' hrest => ?_⟩
      simpa using Derives.multiply (ih₁ (tok :: (back ++ rest')) rfl) hop hmem (ih₂ rest' hrest)
  | applied _ _ ih₁ ih₂ =>
      obtain ⟨front, rfl, ih₁⟩ := ih₁
      obtain ⟨back, rfl, ih₂⟩ := ih₂
      refine ⟨front ++ back, by simp, fun rest' hrest => ?_⟩
      simpa using Derives.applied (ih₁ _ (headKind_append hrest back)) (ih₂ rest' hrest)
  | @moreExpressions comma _ _ _ _ _ _ hcomma _ ih₁ ih₂ =>
      obtain ⟨front, rfl, ih₁⟩ := ih₁
      obtain ⟨back, rfl, ih₂⟩ := ih₂
      refine ⟨front ++ comma :: back, by simp, fun rest' hrest => ?_⟩
      simpa using
        Derives.moreExpressions (ih₁ (comma :: (back ++ rest')) rfl) hcomma (ih₂ rest' hrest)
  | @dot d _ _ _ _ _ _ hd _ ih₁ ih₂ =>
      obtain ⟨front, rfl, ih₁⟩ := ih₁
      obtain ⟨back, rfl, ih₂⟩ := ih₂
      refine ⟨front ++ d :: back, by simp, fun rest' hrest => ?_⟩
      simpa using Derives.dot (ih₁ (d :: (back ++ rest')) rfl) hd (ih₂ rest' hrest)
  | @index b c _ _ _ _ _ _ hb _ hc ih₁ ih₂ =>
      obtain ⟨front, rfl, ih₁⟩ := ih₁
      obtain ⟨back, rfl, ih₂⟩ := ih₂
      refine ⟨front ++ b :: (back ++ [c]), by simp, fun rest' _ => ?_⟩
      simpa using Derives.index (ih₁ (b :: (back ++ c :: rest')) rfl) hb (ih₂ (c :: rest') rfl) hc
  | @function f n o c _ _ _ _ _ hf hn _ ho _ hc ih₁ ih₂ =>
      obtain ⟨front, rfl, ih₁⟩ := ih₁
      obtain ⟨back, rfl, ih₂⟩ := ih₂
      refine ⟨f :: n :: (front ++ o :: (back ++ [c])), by simp, fun rest' _ => ?_⟩
      simpa using
        Derives.function hf hn (ih₁ (o :: (back ++ c :: rest')) rfl) ho (ih₂ (c :: rest') rfl) hc

theorem Derives.elsewhere {s : Symbol} {front rest : List Token} {tree : s.Tree}
    (h : Derives s (front ++ rest) rest tree) (rest' : List Token)
    (hrest : headKind rest' = headKind rest) : Derives s (front ++ rest') rest' tree := by
  obtain ⟨front', hfront, h⟩ := h.exists_front
  exact List.append_cancel_right hfront ▸ h rest' hrest

/-! ### Ends of derivations -/

/-- The last token in front of `rest` is no semicolon. -/
def Unended (rest tokens : List Token) : Prop :=
  ∃ front tok, tokens = front ++ tok :: rest ∧ tok.kind ≠ .semicolon

theorem unended_cons {rest : List Token} {tok : Token} {kind : Token.Kind} (htok : tok.kind = kind)
    (hkind : kind ≠ .semicolon) : Unended rest (tok :: rest) := ⟨[], tok, rfl, htok ▸ hkind⟩

theorem Unended.append {rest tokens : List Token} (h : Unended rest tokens) (front : List Token) :
    Unended rest (front ++ tokens) := by
  obtain ⟨back, tok, rfl, htok⟩ := h
  exact ⟨front ++ back, tok, (List.append_assoc _ _ _).symm, htok⟩

theorem Unended.cons {rest tokens : List Token} (h : Unended rest tokens) (tok : Token) :
    Unended rest (tok :: tokens) := h.append [tok]

/-- What is in front of the last part of a derivation does not matter. -/
theorem Unended.behind {s : Symbol} {tokens mid rest : List Token} {tree : s.Tree}
    (h : Unended rest mid) (hfirst : Derives s tokens mid tree) : Unended rest tokens := by
  obtain ⟨front, rfl, -⟩ := hfirst.exists_front
  exact h.append front

/-- **No expression, and no part of one, ends with a semicolon.** -/
theorem Derives.unended {s : Symbol} {tokens rest : List Token} {tree : s.Tree}
    (h : Derives s tokens rest tree) : s ∈ [.statements, .statement] ∨ Unended rest tokens := by
  induction h with
  | noStatement | moreStatements | letBare | letValue | constValue | bareExpr | endedExpr =>
      exact Or.inl (by simp)
  | unassigned _ ih | sumTarget _ ih | lastEntry _ ih | oneProduct _ ih | oneCall _ ih
  | allCalls _ _ ih | uncalled _ ih | lastExpression _ ih | onePrimary _ ih =>
      exact Or.inr (ih.resolve_left (by simp))
  -- the last token is that of a name or a number, or one that closes
  | emptyObject _ hc | noArguments _ hc => exact Or.inr ((unended_cons hc (by simp)).cons _)
  | shorthand h | name h | number h => exact Or.inr (unended_cons h (by simp))
  | object _ h hc | someArguments _ h hc | parenthesized _ h hc =>
      exact Or.inr (((unended_cons hc (by simp)).behind h).cons _)
  | objectTrailing _ h _ hc => exact Or.inr ((((unended_cons hc (by simp)).cons _).behind h).cons _)
  | index h₁ _ h₂ hc => exact Or.inr ((((unended_cons hc (by simp)).behind h₂).cons _).behind h₁)
  | function _ _ h₁ _ h₂ hc =>
      exact Or.inr (((((unended_cons hc (by simp)).behind h₂).cons _).behind h₁).cons _ |>.cons _)
  -- the last token is that of the last part
  | pair _ _ _ ih => exact Or.inr (((ih.resolve_left (by simp)).cons _).cons _)
  | assign h _ _ _ ih | moreEntries h _ _ _ ih | add h _ _ _ _ ih | multiply h _ _ _ _ ih
  | moreExpressions h _ _ _ ih | dot h _ _ _ ih =>
      exact Or.inr (((ih.resolve_left (by simp)).cons _).behind h)
  | applied h _ _ ih => exact Or.inr ((ih.resolve_left (by simp)).behind h)


/-! ### Statements that end with a semicolon -/

/-- The parser reads a value off the tokens, and all that it misses stands in front of the last
token that it reads, or at it. -/
def ReadsOff {α : Type} (p : Parser α) (tokens rest : List Token) (value : α) : Prop :=
  ∀ eoi, ∃ missed, p eoi (.ofList tokens) = .ok ⟨value, .ofList rest, missed⟩ ∧
    ∀ report ∈ missed, rest.length < report.left

namespace ReadsOff

variable {α : Type} {p q : Parser α} {tokens rest : List Token} {value : α}

theorem of_tidy (h : Reads p tokens rest value) (hp : ∀ n, Tidy n 1 Whole p) :
    ReadsOff p tokens rest value := by
  intro eoi
  obtain ⟨missed, h⟩ := h eoi
  have htidy := hp (tokens.length + 1) eoi (.ofList tokens) _ (Nat.lt_succ_self _) h
  exact ⟨missed, h, htidy.2.resolve_left id⟩

theorem orElse_left (h : ReadsOff p tokens rest value) :
    ReadsOff (orElse p q) tokens rest value := by
  intro eoi
  obtain ⟨missed, h, hmissed⟩ := h eoi
  exact ⟨missed, orElse_of_ok h, hmissed⟩

theorem orElse_right (hp : Stops p tokens) (h : ReadsOff q tokens rest value) :
    ReadsOff (orElse p q) tokens rest value := by
  intro eoi
  obtain ⟨report, hp⟩ := hp eoi
  obtain ⟨missed, h, hmissed⟩ := h eoi
  exact ⟨missed, orElse_of_error hp h, hmissed⟩

end ReadsOff

theorem readsOff_letStatement {tokens rest : List Token} {s : Stmt}
    (h : Reads (letStatement anyExpression) tokens rest s) :
    ReadsOff anyStatement tokens rest s := by
  rw [anyStatement_eq]
  exact (ReadsOff.of_tidy h fun n => tidy_letStatement (tidy_any n).2).orElse_left

theorem readsOff_constStatement {tokens rest : List Token} {s : Stmt}
    (hhead : headKind tokens ≠ some .letWord)
    (h : Reads (constStatement anyExpression) tokens rest s) :
    ReadsOff anyStatement tokens rest s := by
  rw [anyStatement_eq]
  exact .orElse_right (stops_token hhead).bind
    (ReadsOff.of_tidy h fun n => tidy_constStatement (tidy_any n).2).orElse_left

/-- An expression does not look past a semicolon behind it. -/
theorem readsOff_endedExpr {semi : Token} {tokens rest : List Token} {e : Expr}
    (he : Derives .expression tokens (semi :: rest) e) (hsemi : semi.kind = .semicolon) :
    ReadsOff anyStatement tokens rest (.expr e) := by
  have hclear : Clear [.letWord, .constWord] tokens := he.clear (by simp) (by simp [Symbol.firsts])
  rw [anyStatement_eq]
  refine .orElse_right (stops_token (hclear _ (by simp))).bind <|
    .orElse_right (stops_token (hclear _ (by simp))).bind fun eoi => ?_
  obtain ⟨missed, h⟩ : ∃ missed, anyExpression eoi (.ofList tokens)
      = .ok ⟨e, .ofList (semi :: rest), missed⟩ :=
    complete_of_derives he (clear_cons hsemi (by simp [Symbol.goesOn])) eoi
  have htidy := ((tidy_any _).2 eoi (.ofList tokens) _ (Nat.lt_succ_self _) h).2
  refine ⟨missed, ?_, htidy.resolve_left fun htorn => ?_⟩
  · rw [expressionStatement, bind_of_ok h, bind_of_ok (optional_of_ok (token_of_kind hsemi)),
      pure_def]
    simp
  · have hne : Clear [.semicolon] (semi :: rest) := htorn.clear (by decide)
    exact hne .semicolon (by simp) (congrArg some hsemi)

/-- **A statement that ends with a semicolon** is read in front of all tokens, and what is behind
the semicolon is not looked at. -/
theorem readsOff_statement {front rest : List Token} {s : Stmt}
    (h : Derives .statement (front ++ rest) rest s) (hend : ¬ Unended rest (front ++ rest))
    (rest' : List Token) : ReadsOff anyStatement (front ++ rest') rest' s := by
  generalize htokens : front ++ rest = tokens at h hend
  have hvalue : ∀ {semi : Token} {more : List Token} {e : Expr}, semi.kind = .semicolon →
      Derives .expression (more ++ semi :: rest) (semi :: rest) e →
        Reads anyExpression (more ++ semi :: rest') (semi :: rest') e :=
    fun hsemi he => complete_of_derives (he.elsewhere (_ :: rest') rfl)
      (clear_cons hsemi (by simp [Symbol.goesOn]))
  cases h with
  | @letBare l n semi _ hl hn hsemi =>
      obtain rfl : front = [l, n, semi] := List.append_cancel_right htokens
      refine readsOff_letStatement ?_
      exact .behind hl <| (reads_name hn).bind <|
        (Reads.optional_none (stops_marked (by simp [hsemi]))).bind <| .behind hsemi <| .pure _
  | @letValue l n eq semi _ _ e hl hn heq he hsemi =>
      obtain ⟨more, rfl, -⟩ := he.exists_front
      obtain rfl : front = l :: n :: eq :: (more ++ [semi]) :=
        List.append_cancel_right (by simpa using htokens)
      refine readsOff_letStatement ?_
      have hread : Reads (letStatement anyExpression) (l :: n :: eq :: (more ++ semi :: rest'))
          rest' (.declare false n.text (some e)) :=
        .behind hl <| (reads_name hn).bind <| ((hvalue hsemi he).marked heq).optional_some.bind <|
          .behind hsemi <| .pure _
      simpa using hread
  | @constValue c n eq semi _ _ e hc hn heq he hsemi =>
      obtain ⟨more, rfl, -⟩ := he.exists_front
      obtain rfl : front = c :: n :: eq :: (more ++ [semi]) :=
        List.append_cancel_right (by simpa using htokens)
      refine readsOff_constStatement (by simp [hc]) ?_
      have hread : Reads (constStatement anyExpression) (c :: n :: eq :: (more ++ semi :: rest'))
          rest' (.declare true n.text (some e)) :=
        .behind hc <| (reads_name hn).bind <| .behind heq <| (hvalue hsemi he).bind <|
          .behind hsemi <| .pure _
      simpa using hread
  | bareExpr he => exact absurd (he.unended.resolve_left (by simp)) hend
  | @endedExpr semi _ _ e he hsemi =>
      obtain ⟨more, rfl, -⟩ := he.exists_front
      obtain rfl : front = more ++ [semi] := List.append_cancel_right (by simpa using htokens)
      have hread := readsOff_endedExpr (he.elsewhere (semi :: rest') rfl) hsemi
      simpa using hread

/-! ### Statements in front of others -/

/-- A repetition that yields something has read something. -/
theorem exists_first_of_run {α : Type} {p : Parser α} {eoi : Nat} {input : Remaining}
    {result : Parsed (List α)} (h : ManyRun p eoi input result) (hne : result.value ≠ []) :
    ∃ first, p eoi input = .ok first := by
  cases h with
  | stop _ => exact absurd rfl hne
  | step h _ => exact ⟨_, h⟩

/-- A semicolon at the end is the last token. -/
theorem not_unended {front rest : List Token}
    (hend : ∀ tok ∈ front.getLast?, tok.kind = .semicolon) : ¬ Unended rest (front ++ rest) := by
  rintro ⟨more, tok, heq, htok⟩
  have hfront : front = more ++ [tok] :=
    List.append_cancel_right (by simpa using heq)
  exact htok (hend tok (by simp [hfront]))

theorem Derives.eq_of_nil {tokens rest : List Token} (h : Derives .statements tokens rest []) :
    tokens = rest := by
  cases h
  rfl

/-- A statement in front of another one does not look past its first token. -/
theorem read_statement_between {front rest : List Token} {s : Stmt}
    (h : Derives .statement (front ++ rest) rest s) (rest' : List Token)
    (hhead : headKind rest' = headKind rest) {eoi : Nat}
    (hnext : ∃ next, anyStatement eoi (.ofList rest') = .ok next) :
    ∃ missed, anyStatement eoi (.ofList (front ++ rest')) = .ok ⟨s, .ofList rest', missed⟩ ∧
      ∀ report ∈ missed, rest'.length ≤ report.left := by
  obtain ⟨next, hnext⟩ := hnext
  obtain ⟨kind, hkind, hrest⟩ := starts_anyStatement.exists_kind (Or.inl ⟨next, hnext⟩)
  have hdisjoint : ∀ kind ∈ Symbol.statement.firsts, kind ∉ Symbol.statement.goesOn := by decide
  have hread : Reads anyStatement (front ++ rest') rest' s :=
    complete_of_derives (h.elsewhere rest' hhead) (clear_of_headKind hrest (hdisjoint kind hkind))
  obtain ⟨missed, hread⟩ := hread eoi
  have htidy := ((tidy_any _).1 eoi _ _ (Nat.lt_succ_self _) hread).2
  refine ⟨missed, hread, htidy.resolve_left fun htorn => ?_⟩
  -- where a statement breaks off no other one begins
  obtain ⟨report, hreport⟩ := halts_anyStatement (by decide) _ _ htorn
  rw [hreport] at hnext
  cases hnext

/-- **Statements in front of other tokens**: those that end with a semicolon are read first, and
then what is behind them is, as it would be alone. -/
theorem run_statements_append {tokens front rest : List Token} {ss : List Stmt}
    (h : Derives .statements tokens rest ss) (htokens : tokens = front ++ rest)
    (hend : ∀ tok ∈ front.getLast?, tok.kind = .semicolon) {eoi : Nat} {back : List Token}
    {more : Parsed (List Stmt)} (hmore : ManyRun anyStatement eoi (.ofList back) more) :
    ∃ missed, ManyRun anyStatement eoi (.ofList (front ++ back))
        ⟨ss ++ more.value, more.rest, Report.merge missed more.missed⟩ ∧
      ∀ report ∈ missed, back.length < report.left := by
  induction ss generalizing tokens front with
  | nil =>
      obtain rfl := h.eq_of_nil
      obtain rfl : front = [] := List.append_left_eq_self.1 htokens.symm
      exact ⟨none, hmore, nofun⟩
  | cons s ss ih =>
      obtain ⟨mid, h₁, h₂⟩ : ∃ mid, Derives .statement tokens mid s ∧
          Derives .statements mid rest ss := by
        cases h with
        | moreStatements h₁ h₂ => exact ⟨_, h₁, h₂⟩
      obtain ⟨first, rfl, -⟩ := h₁.exists_front
      obtain ⟨left, rfl, -⟩ := h₂.exists_front
      obtain rfl : front = first ++ left :=
        List.append_cancel_right (by simpa using htokens.symm)
      have hlast : ∀ tok ∈ left.getLast?, tok.kind = .semicolon := by
        intro tok htok
        exact hend tok (by simp [List.getLast?_append, Option.mem_def.1 htok])
      obtain ⟨missed', hrun, hmissed'⟩ := ih h₂ rfl hlast
      -- the first statement ends with the semicolon, or the next one is behind it
      obtain ⟨missed, hread, hmissed⟩ : ∃ missed,
          anyStatement eoi (.ofList (first ++ (left ++ back)))
            = .ok ⟨s, .ofList (left ++ back), missed⟩ ∧
          ∀ report ∈ missed, back.length < report.left := by
        cases left with
        | nil => exact readsOff_statement h₁ (not_unended (by simpa using hend)) back eoi
        | cons tok left =>
            have hss : ss ≠ [] := by
              rintro rfl
              have hlength := congrArg List.length h₂.eq_of_nil
              simp only [List.length_append, List.length_cons] at hlength
              omega
            obtain ⟨missed, hread, hmissed⟩ := read_statement_between h₁ (tok :: left ++ back) rfl
              (exists_first_of_run hrun (by simp [hss]))
            refine ⟨missed, hread, fun report hreport => ?_⟩
            have := hmissed report hreport
            simp only [List.cons_append, List.length_cons, List.length_append] at this
            omega
      refine ⟨Report.merge missed missed', ?_, ?_⟩
      · rw [List.append_assoc, Report.merge_assoc]
        exact .step hread hrun
      · exact Report.merge_forall (fun a b ha hb => by rw [Report.furthest_left]; omega)
          hmissed hmissed'

/-! ### Programs -/

/-- The end of a program does not depend on the statements in front of it. -/
theorem ending_append (ss ts : List Stmt) (eoi : Nat) (input : Remaining) :
    ending (ss ++ ts) eoi input
      = ((fun program => ⟨ss ++ program.body⟩) <$> ending ts) eoi input := by
  have hending : ∀ body, ending body
      = (token .endOfInput >>= fun _ => finish) >>= fun _ => pure ⟨body⟩ :=
    fun body => (bind_assoc _ _ _).symm
  have hpure : (fun _ : Unit => (pure ⟨ss ++ ts⟩ : Parser Program))
      = fun _ => pure (⟨ts⟩ : Program) >>= fun program => pure ⟨ss ++ program.body⟩ :=
    funext fun _ => (pure_bind _ _).symm
  have hmap : (fun program : Program => (⟨ss ++ program.body⟩ : Program)) <$> ending ts
      = ending (ss ++ ts) := by
    rw [hending ts, hending (ss ++ ts)]
    exact (bind_assoc _ _ _).trans (congrArg _ hpure.symm)
  rw [hmap]

end Grammar

/-- A report that got further than what was remembered stays as it is. -/
theorem Report.after_of_lt {report : Report} {missed : Option Report}
    (h : ∀ other ∈ missed, report.left < other.left) : report.after missed = report := by
  cases missed with
  | none => rfl
  | some other => rw [after, furthest, if_pos (h other rfl)]

theorem Report.after_left_le (report : Report) (missed : Option Report) :
    (report.after missed).left ≤ report.left := by
  cases missed with
  | none => exact Nat.le_refl _
  | some other =>
      rw [after, furthest_left]
      exact Nat.min_le_left _ _

theorem endOffset_append (front : List Token) {back : List Token} (h : back ≠ []) :
    endOffset (front ++ back) = endOffset back := by
  rw [endOffset, endOffset, List.getLast?_append, List.getLast?_eq_some_getLast h]
  rfl

/-- The program of two parts: the statements of one, and then those of the other. -/
def Program.append (p q : Program) : Program := ⟨p.body ++ q.body⟩

open Scriptlet.Parser Scriptlet.Grammar in
/-- **Parsing two parts of a script.**  Behind statements that end with a semicolon, tokens are read
as they are alone, and a failure reports the same. -/
theorem Program.readTokens_append {front back : List Token} {last : Token} {p : Program}
    (h : Program.readTokens (front ++ [last]) = .ok p)
    (hend : ∀ tok ∈ front.getLast?, tok.kind = .semicolon) (hback : back ≠ []) :
    Program.readTokens (front ++ back) = (Program.readTokens back).map p.append := by
  obtain ⟨last', -, hbody⟩ := Program.derivable_of_readTokens h
  obtain ⟨front', hfront, -⟩ := hbody.exists_front
  obtain ⟨rfl, hlast⟩ := List.append_inj' hfront rfl
  rw [hlast] at hbody
  obtain ⟨more, hmore, hrun⟩ := many_run advances_anyStatement (endOffset back) (.ofList back)
  obtain ⟨missed, hrun', hmissed⟩ := run_statements_append hbody rfl hend hrun
  have hle : more.rest.count ≤ back.length :=
    NonGrowing.many advances_anyStatement _ _ more hmore
  rw [Program.readTokens_eq, Program.readTokens_eq, endOffset_append _ hback, anyProgram_eq,
    bind_of_ok hmore, bind_of_ok (hrun'.many_eq advances_anyStatement), ending_append]
  rw [more.rest.eq_ofList]
  have hwithin := within_ending (more.rest.tokens.length + 1) more.value (endOffset back)
    more.rest.tokens (Nat.lt_succ_self _)
  cases hending : ending more.value (endOffset back) (.ofList more.rest.tokens) with
  | ok result =>
      rw [map_of_ok hending]
      rfl
  | error report =>
      rw [map_def, bind_of_error hending, keep_error, keep_error, ← after_after,
        Report.after_of_lt]
      · rfl
      · intro other hother
        have hleft := hwithin.left_le report (by rw [hending]; rfl)
        have := hmissed other hother
        have := report.after_left_le more.missed
        rw [← more.rest.count_eq] at hleft
        omega

/-! ### Sources -/

/-- A text whose last token is a mark, if it has any, ends with no run that could go on. -/
theorem joins_of_getLast? {chars : List Char} {c : Char} (hc : chars.getLast? = some c)
    (hjoins : (CharClass.of c).joins = true) : ∃ tok,
      (Scan.ofLexemes 0 (lexemes chars)).tokens.dropLast.getLast? = some tok ∧
        tok.kind ≠ .semicolon := by
  have hlast := getLast?_lexemes chars
  rw [hc, Option.map_some, Option.map_eq_some_iff] at hlast
  obtain ⟨piece, hpiece, hsort⟩ := hlast
  obtain ⟨front, hfront⟩ := List.getLast?_eq_some_iff.1 hpiece
  obtain ⟨kind, hkind, hne⟩ : ∃ kind, piece.kind? = some kind ∧ kind ≠ .semicolon := by
    rw [Lexeme.kind?, hsort]
    cases hclass : CharClass.of c with
    | letter =>
        refine ⟨_, rfl, ?_⟩
        unfold Token.Kind.ofWord Token.Kind.keyword?
        grind
    | digit => exact ⟨_, rfl, by decide⟩
    | _ => rw [hclass] at hjoins; cases hjoins
  -- the last piece is the last token
  let offset := 0 + (front.map Lexeme.size).sum
  have htokens : (Scan.ofLexemes offset [piece]).tokens
      = [⟨kind, piece.text, offset, offset + piece.size⟩,
        ⟨.endOfInput, "", offset + piece.size, offset + piece.size⟩] := by
    simp [Scan.ofLexemes, Scan.push, hkind]
  refine ⟨⟨kind, piece.text, offset, offset + piece.size⟩, ?_, hne⟩
  rw [hfront, Scan.ofLexemes_append, Scan.before, htokens,
    List.dropLast_append_of_ne_nil (List.cons_ne_nil _ _)]
  simp

/-- Behind a semicolon a source can be cut. -/
theorem divided_of_semicolon {a b : String}
    (hend : ∀ tok ∈ (scan a).tokens.dropLast.getLast?, tok.kind = .semicolon) :
    Divided a.toList b.toList := by
  refine divided_of_getLast? fun c hc => ?_
  cases hjoins : (CharClass.of c).joins with
  | false => rfl
  | true =>
      obtain ⟨tok, htok, hne⟩ := joins_of_getLast? hc hjoins
      exact absurd (hend tok htok) hne

/-- **Parsing two parts of a script**, from their sources: behind a first part that is a script and
ends with a semicolon, the second part is parsed as it is alone, and its error is the same apart
from where it stands. -/
theorem Program.ofSource_append {a b : String} {p : Program} (ha : Program.ofSource a = .ok p)
    (hend : ∀ tok ∈ (scan a).tokens.dropLast.getLast?, tok.kind = .semicolon) :
    Program.ofSource (a ++ b)
      = ((Program.ofSource b).mapError (SyntaxError.move (· + a.utf8ByteSize))).map p.append := by
  have hb : (scan b).tokens ≠ [] := Scan.tokens_ne_nil _ _
  have ha' : (scan a).tokens ≠ [] := Scan.tokens_ne_nil _ _
  have hsplit : (scan a).tokens = (scan a).tokens.dropLast ++ [(scan a).tokens.getLast ha'] :=
    (List.dropLast_concat_getLast ha').symm
  have hread : Program.readTokens ((scan a).tokens.dropLast ++ [(scan a).tokens.getLast ha'])
      = .ok p := by
    rw [← hsplit]
    rw [Program.ofSource, Program.ofTokens] at ha
    cases hread : Program.readTokens (scan a).tokens with
    | ok q => rw [hread] at ha; cases ha; rfl
    | error report => rw [hread] at ha; cases ha
  have hmoved : ((scan b).shift a.utf8ByteSize).tokens ≠ [] := by simpa [Scan.shift] using hb
  rw [Program.ofSource, scan_append (divided_of_semicolon hend), Scan.before, Program.ofTokens,
    Program.readTokens_append hread hend hmoved]
  have hmove := Program.ofTokens_move (· + a.utf8ByteSize) hb
  rw [Program.ofSource, ← hmove, Program.ofTokens]
  change (((Program.readTokens ((scan b).shift a.utf8ByteSize).tokens).map _).mapError _)
    = ((Program.readTokens ((scan b).shift a.utf8ByteSize).tokens).mapError _).map _
  cases Program.readTokens ((scan b).shift a.utf8ByteSize).tokens <;> rfl

end Scriptlet
