/-
**How far a parser looks.**

A parser that succeeds has tried other ways on its way, and remembers the furthest of their reports.
These reports do not stand behind what it has read: what it leaves, it has not looked past.  There
is one exception.  An option or a repetition can begin with its next part and break off in the midst
of it, and then the tokens of that part are left although they were looked at.  What is left in this
way begins with a token that the parser would have gone on with, or with an orphan, and no parser
that comes next in the grammar can read it.

Main definitions:

* `Scriptlet.Parser.Tidy` — **a parser that does not look behind what it reads**, unless it breaks
  off;
* `Scriptlet.Parser.Halts`, `Scriptlet.Parser.Carries`, `Scriptlet.Parser.Shows` — what the parts of
  a parser do in front of what another part breaks off at;
* `Scriptlet.Grammar.GoesOn` — what statements and expressions can break off at.

Main results:

* `Scriptlet.Parser.Tidy.bind`, `Scriptlet.Parser.Tidy.many` — the combinators hand the property on;
* `Scriptlet.Grammar.tidy_any` — **statements and expressions are tidy**;
* `Scriptlet.Grammar.tidy_letStatement`, `Scriptlet.Grammar.tidy_constStatement` — declarations do
  not even look behind their semicolon.
-/

import Scriptlet.Proofs.Syntax.Guarded

set_option relaxedAutoImplicit false
set_option autoImplicit false

namespace Scriptlet

/-! ### The kinds of tokens that are expected -/

/-- The kind of the tokens that are what was expected. -/
def Expectation.tokenKind : Expectation → Token.Kind
  | .kind k => k
  | .operator _ => .operator

theorem Expectation.Wants.kind_eq {e : Expectation} {tok : Token} (h : e.Wants tok) :
    tok.kind = e.tokenKind := by
  cases e with
  | kind k => exact h.1
  | operator op => exact Grammar.kind_of_operator? h

namespace Parser

variable {α β : Type}

/-! ### Tidy parsers -/

/-- **A parser that does not look behind what it reads**, on inputs of fewer than `n` tokens: what
it has missed stands at least `margin` tokens in front of the end of what it read, unless it breaks
off, and then `torn` holds of what is left. -/
def Tidy (n margin : Nat) (torn : Nat → Remaining → Prop) (p : Parser α) : Prop :=
  ∀ eoi input result, input.count < n → p eoi input = .ok result →
    result.rest.count + margin ≤ input.count ∧
      (torn eoi result.rest ∨ ∀ report ∈ result.missed, result.rest.count + margin ≤ report.left)

/-- The parser fails on all of some inputs. -/
def Halts (torn : Nat → Remaining → Prop) (p : Parser α) : Prop :=
  ∀ eoi input, torn eoi input → ∃ report, p eoi input = .error report

/-- If `torn` holds of what the parser is given, then `torn'` holds of what it leaves. -/
def Carries (torn torn' : Nat → Remaining → Prop) (p : Parser α) : Prop :=
  ∀ eoi input result, torn eoi input → p eoi input = .ok result → torn' eoi result.rest

/-- The parser fails behind the first token only if `torn` holds of its input. -/
def Shows (torn : Nat → Remaining → Prop) (p : Parser α) : Prop :=
  ∀ eoi input report, p eoi input = .error report → torn eoi input ∨ input.count ≤ report.left

/-- Nothing is broken off. -/
def Whole : Nat → Remaining → Prop := fun _ _ => False

variable {n m margin : Nat} {torn torn' torn'' : Nat → Remaining → Prop}

/-! ### In front of what is torn -/

theorem carries_whole (p : Parser α) : Carries Whole torn p := fun _ _ _ => False.elim

namespace Halts

theorem bind {p : Parser α} (h : Halts torn p) (f : α → Parser β) : Halts torn (p >>= f) :=
  fun eoi input htorn => bind_error (h eoi input htorn)

theorem carries {p : Parser α} (h : Halts torn p) : Carries torn torn' p := by
  intro eoi input result htorn hp
  obtain ⟨report, hreport⟩ := h eoi input htorn
  rw [hreport] at hp
  cases hp

end Halts

namespace Carries

theorem pure (value : α) (h : ∀ eoi rest, torn eoi rest → torn' eoi rest) :
    Carries torn torn' (pure value) := by
  intro eoi input result htorn hp
  obtain rfl := pure_eq_ok hp
  exact h _ _ htorn

theorem bind {p : Parser α} {f : α → Parser β} (hp : Carries torn torn' p)
    (hf : ∀ value, Carries torn' torn'' (f value)) : Carries torn torn'' (p >>= f) := by
  intro eoi input result htorn h
  obtain ⟨first, second, h₁, h₂, rfl⟩ := bind_eq_ok h
  exact hf _ _ _ second (hp _ _ _ htorn h₁) h₂

theorem optional {p : Parser α} (h : Halts torn p) : Carries torn torn (optional p) := by
  intro eoi input result htorn hp
  obtain ⟨report, hreport⟩ := h eoi input htorn
  rw [optional_of_error hreport, Except.ok.injEq] at hp
  exact hp ▸ htorn

theorem many {p : Parser α} (hadv : Advances p) (h : Halts torn p) :
    Carries torn torn (many p) := by
  intro eoi input result htorn hp
  obtain ⟨report, hreport⟩ := h eoi input htorn
  rw [(ManyRun.stop hreport).many_eq hadv, Except.ok.injEq] at hp
  exact hp ▸ htorn

end Carries

theorem Shows.mono {p : Parser α} (h : Shows torn p)
    (hsub : ∀ eoi rest, torn eoi rest → torn' eoi rest) : Shows torn' p :=
  fun eoi input report hp => (h eoi input report hp).imp_left (hsub _ _)

/-- A parser of one token does not look behind it. -/
theorem shows_satisfy (use : Token → Option α) (expected : List Expectation) :
    Shows torn (satisfy use expected) := by
  intro eoi input report h
  rw [satisfy_eq_error h, input.eq_ofList, unexpected_left]
  exact Or.inr (Nat.le_refl _)

/-! ### The combinators -/

/-- Merged reports stand as far in front of the end as both do. -/
theorem le_left_of_merge {count : Nat} {a b : Option Report}
    (ha : ∀ report ∈ a, count ≤ report.left) (hb : ∀ report ∈ b, count ≤ report.left) :
    ∀ report ∈ Report.merge a b, count ≤ report.left := by
  refine Report.merge_forall (fun r s hr hs => ?_) ha hb
  rw [Report.furthest_left]
  exact Nat.le_min.2 ⟨hr, hs⟩

namespace Tidy

theorem mono {p : Parser α} (h : Tidy n margin torn p) (hm : m ≤ n)
    (hsub : ∀ eoi rest, torn eoi rest → torn' eoi rest) : Tidy m margin torn' p :=
  fun eoi input result hlt hp =>
    (h eoi input result (by omega) hp).imp_right (Or.imp_left (hsub _ _))

/-- A parser that ends with a token breaks nothing off. -/
theorem relax {p : Parser α} (h : Tidy n 1 Whole p) : Tidy n 0 torn p := by
  intro eoi input result hlt hp
  obtain ⟨hle, hmissed⟩ := h eoi input result hlt hp
  have hmissed := hmissed.resolve_left id
  exact ⟨Nat.le_of_succ_le hle,
    Or.inr fun report hreport => Nat.le_of_succ_le (hmissed report hreport)⟩

theorem zero {p : Parser α} : Tidy 0 margin torn p := fun _ _ _ hlt => by omega

theorem pure (value : α) : Tidy n 0 torn (pure value) := by
  intro eoi input result hlt hp
  obtain rfl := pure_eq_ok hp
  exact ⟨Nat.le_refl _, Or.inr nofun⟩

theorem satisfy (use : Token → Option α) (expected : List Expectation) :
    Tidy n 1 torn (satisfy use expected) := by
  intro eoi input result hlt hp
  obtain ⟨tok, tokens, value, rfl, -, rfl⟩ := satisfy_eq_ok hp
  exact ⟨Nat.le_refl _, Or.inr nofun⟩

/-- A sequence of steps is tidy if its second step cannot read what its first one breaks off at. -/
theorem step {p : Parser α} {f : α → Parser β} (hp : Tidy n 0 torn p)
    (hf : ∀ eoi input first, input.count < n → p eoi input = .ok first →
      Tidy (first.rest.count + 1) margin torn' (f first.value))
    (hcarries : ∀ value, Carries torn torn' (f value)) : Tidy n margin torn' (p >>= f) := by
  intro eoi input result hlt h
  obtain ⟨first, second, h₁, h₂, rfl⟩ := bind_eq_ok h
  obtain ⟨hle, hmissed⟩ := hp _ _ _ hlt h₁
  obtain ⟨hle', hmissed'⟩ := hf _ _ _ hlt h₁ _ _ second (Nat.lt_succ_self _) h₂
  refine ⟨Nat.le_trans hle' hle, ?_⟩
  rcases hmissed with htorn | hmissed
  · exact Or.inl (hcarries _ _ _ second htorn h₂)
  · exact hmissed'.imp_right
      (le_left_of_merge fun report hreport => Nat.le_trans hle' (hmissed report hreport))

theorem bind {p : Parser α} {f : α → Parser β} (hp : Tidy n 0 torn p)
    (hf : ∀ value, Tidy n margin torn' (f value))
    (hcarries : ∀ value, Carries torn torn' (f value)) : Tidy n margin torn' (p >>= f) := by
  refine hp.step (fun eoi input first hlt h => ?_) hcarries
  have hle := (hp eoi input first hlt h).1
  exact (hf first.value).mono (by omega) fun _ _ => id

/-- A step behind one that breaks nothing off. -/
theorem andThen {p : Parser α} {f : α → Parser β} (hp : Tidy n 1 Whole p)
    (hf : ∀ value, Tidy n margin torn (f value)) : Tidy n margin torn (p >>= f) :=
  hp.relax.bind hf fun _ => carries_whole _

/-- Behind a token, inputs are shorter. -/
theorem behind {use : Token → Option α} {expected : List Expectation} {f : α → Parser β}
    (hf : ∀ value, Tidy n margin torn (f value)) :
    Tidy (n + 1) margin torn (Parser.satisfy use expected >>= f) := by
  have htoken : Tidy (n + 1) 1 Whole (Parser.satisfy use expected) := satisfy use expected
  refine htoken.relax.step (fun eoi input first hlt h => ?_) fun _ => carries_whole _
  have hle := (htoken eoi input first hlt h).1
  exact (hf first.value).mono (by omega) fun _ _ => id

theorem map {p : Parser α} (h : Tidy n margin torn p) (f : α → β) :
    Tidy n margin torn (f <$> p) := by
  intro eoi input result hlt hp
  obtain ⟨first, h₁, rfl⟩ := map_eq_ok hp
  exact h eoi input first hlt h₁

theorem checked {p : Parser α} (h : Tidy n margin torn p) (check : α → Except Complaint β) :
    Tidy n margin torn (checked p check) := by
  intro eoi input result hlt hp
  obtain ⟨first, value, h₁, -, rfl⟩ := checked_eq_ok hp
  exact h eoi input first hlt h₁

/-- The report of the first way is forgotten when the second one succeeds. -/
theorem orElse {p q : Parser α} (hp : Tidy n margin torn p) (hq : Tidy n margin torn q) :
    Tidy n margin torn (orElse p q) := by
  intro eoi input result hlt h
  rcases orElse_eq_ok h with h | h
  · exact hp eoi input result hlt h
  · exact hq eoi input result hlt h

theorem optional {p : Parser α} (hp : Tidy n 0 torn p) (hshows : Shows torn p) :
    Tidy n 0 torn (optional p) := by
  intro eoi input result hlt h
  rcases optional_eq_ok h with ⟨report, h₁, rfl⟩ | ⟨first, h₁, rfl⟩
  · refine ⟨Nat.le_refl _, (hshows eoi input report h₁).imp_right fun hleft => ?_⟩
    rintro _ ⟨⟩
    exact hleft
  · exact hp eoi input first hlt h₁

/-- A repetition is tidy if a round cannot begin where the one before it breaks off. -/
theorem many {p : Parser α} (hadv : Advances p) (hp : Tidy n 0 torn p) (hhalts : Halts torn p)
    (hsub : ∀ eoi rest, torn eoi rest → torn' eoi rest) (hshows : Shows torn' p) :
    Tidy n 0 torn' (many p) := by
  intro eoi input result hlt h
  -- on the rounds of the repetition
  induction manyRun_of_many hadv h with
  | @stop input report h₁ =>
      refine ⟨Nat.le_refl _, (hshows eoi input report h₁).imp_right fun hleft => ?_⟩
      rintro _ ⟨⟩
      exact hleft
  | @step input first more h₁ hmore ih =>
      obtain ⟨hle, hfirst⟩ := hp eoi input first hlt h₁
      obtain ⟨hle', hmissed⟩ := ih (by omega) (hmore.many_eq hadv)
      refine ⟨Nat.le_trans hle' hle, ?_⟩
      rcases hfirst with htorn | hfirst
      · -- the next round fails, so what is left is what this one breaks off at
        obtain ⟨report, hreport⟩ := hhalts eoi _ htorn
        rw [hmore.det (.stop hreport)]
        exact Or.inl (hsub _ _ htorn)
      · exact hmissed.imp_right
          (le_left_of_merge fun report hreport => Nat.le_trans hle' (hfirst report hreport))

/-- A repetition whose rounds break nothing off. -/
theorem manyWhole {p : Parser α} (hadv : Advances p) (hp : Tidy n 1 Whole p)
    (hshows : Shows torn p) : Tidy n 0 torn (Parser.many p) :=
  .many hadv hp.relax (fun _ _ => False.elim) (fun _ _ => False.elim) hshows

/-- Behind a repetition with separators one more separator may stand.  Where the item behind a
separator fails, that separator is read, and what is left is where the item failed. -/
theorem manyTrailing {item : Parser α} {separator : Token.Kind} (hitem : Tidy n 0 torn item)
    (hadv : NonGrowing item) (hhalts : Halts torn (Parser.token separator))
    (hsub : ∀ eoi rest, torn eoi rest → torn' eoi rest) (hshows : Shows torn' item) :
    Tidy n 0 torn' (manyTrailing item separator) := by
  have hadv' := advances_separator_item hadv separator
  have hround : Tidy n 0 torn (Parser.token separator *> item) :=
    (behind fun _ => hitem).mono (Nat.le_succ n) fun _ _ => id
  -- on the rounds of the repetition, with the option behind them
  have hrun : ∀ eoi input more last, ManyRun (Parser.token separator *> item) eoi input more →
      input.count < n → Parser.optional (Parser.token separator) eoi more.rest = .ok last →
        last.rest.count ≤ input.count ∧ (torn' eoi last.rest ∨
          ∀ report ∈ Report.merge more.missed last.missed, last.rest.count ≤ report.left) := by
    intro eoi input more last hmore hlt hlast
    induction hmore with
    | @stop input report h =>
        rcases optional_eq_ok hlast with ⟨report', h', rfl⟩ | ⟨mark, h', rfl⟩
        · -- there is no separator
          rw [seqRight_def, bind_of_error h', Except.error.injEq] at h
          subst h
          have hshows : Shows Whole (Parser.token separator) := shows_satisfy _ _
          have hleft := (hshows _ _ _ h').resolve_left id
          refine ⟨Nat.le_refl _, Or.inr (le_left_of_merge ?_ ?_)⟩ <;> rintro _ ⟨⟩ <;> exact hleft
        · -- there is one, and no item behind it
          obtain ⟨tok, tokens, rfl, -, rfl⟩ := token_eq_ok h'
          rw [seqRight_def, bind_of_ok h', keep_none] at h
          refine ⟨Nat.le_succ _, (hshows _ _ _ h).imp_right fun hleft => ?_⟩
          rintro _ ⟨⟩
          exact hleft
    | @step input first more h hmore ih =>
        obtain ⟨hle, hfirst⟩ := hround _ _ _ hlt h
        obtain ⟨hle', hmissed⟩ := ih (by omega) hlast
        refine ⟨Nat.le_trans hle' hle, ?_⟩
        rcases hfirst with htorn | hfirst
        · -- there is no separator where the item breaks off
          obtain ⟨report, hreport⟩ := hhalts _ _ htorn
          rw [hmore.det (.stop (bind_of_error hreport))] at hlast
          have hlast := Except.ok.inj ((optional_of_error hreport).symm.trans hlast)
          exact Or.inl (hlast ▸ hsub _ _ htorn)
        · refine hmissed.imp_right fun hmissed => ?_
          rw [prepend, Report.merge_assoc]
          exact le_left_of_merge
            (fun report hreport => Nat.le_trans hle' (hfirst report hreport)) hmissed
  intro eoi input result hlt h
  obtain ⟨more, second, h₁, h₂, rfl⟩ := bind_eq_ok h
  obtain ⟨last, h₃, rfl⟩ := bind_return_eq_ok h₂
  exact hrun _ _ _ _ (manyRun_of_many hadv' h₁) hlt h₃

end Tidy

end Parser

namespace Grammar

open Scriptlet.Parser

/-! ### What is broken off at -/

/-- What is left begins with something wanted, or with an orphan. -/
def GoesOn (wanted : List Expectation) (eoi : Nat) (input : Remaining) : Prop :=
  (∃ tok more, input = .ofList (tok :: more) ∧ ∃ e ∈ wanted, e.Wants tok) ∨ Orphan eoi input

namespace GoesOn

variable {wanted wanted' : List Expectation}

theorem mono (hsub : wanted ⊆ wanted') (eoi : Nat) (input : Remaining)
    (h : GoesOn wanted eoi input) : GoesOn wanted' eoi input :=
  h.imp_left fun ⟨tok, more, hinput, e, he, hwants⟩ => ⟨tok, more, hinput, e, hsub he, hwants⟩

/-- What is left begins neither with another kind of token nor with an end of arguments. -/
theorem clear {kinds : List Token.Kind} {eoi : Nat} {input : Remaining}
    (h : GoesOn wanted eoi input)
    (hkinds : ∀ kind ∈ kinds, kind ∉ Token.Kind.openParen :: wanted.map Expectation.tokenKind) :
    Clear kinds input.tokens := by
  rcases h with ⟨tok, more, rfl, e, he, hwants⟩ | horphan
  · refine clear_of_headKind (congrArg some hwants.kind_eq) fun hmem => hkinds _ hmem ?_
    exact List.mem_cons_of_mem _ (List.mem_map_of_mem he)
  · exact clear_of_headKind horphan.1 fun hmem => hkinds _ hmem List.mem_cons_self

end GoesOn

theorem goesOn_cons {wanted : List Expectation} {e : Expectation} {eoi : Nat} {tok : Token}
    {more : List Token} (hwants : e.Wants tok) (he : e ∈ wanted) :
    GoesOn wanted eoi (.ofList (tok :: more)) := Or.inl ⟨tok, more, rfl, e, he, hwants⟩

section Breaking

variable {α : Type} {wanted : List Expectation}

/-- A parser that starts with other kinds of tokens fails. -/
theorem halts_of_starts {kinds : List Token.Kind} {p : Parser α} (hp : Starts kinds p)
    (hkinds : ∀ kind ∈ kinds, kind ∉ Token.Kind.openParen :: wanted.map Expectation.tokenKind) :
    Halts (GoesOn wanted) p := by
  intro eoi input h
  rw [input.eq_ofList]
  exact hp.stops (h.clear hkinds) eoi

/-- A parser that breaks off begins with a token that it can start with. -/
theorem shows_of_starts {kinds : List Token.Kind} {p : Parser α} (hp : Starts kinds p)
    (hkinds : ∀ kind ∈ kinds, .kind kind ∈ wanted ∧ kind ≠ .operator) :
    Shows (GoesOn wanted) p := by
  intro eoi input report h
  by_cases hle : input.count ≤ report.left
  · exact Or.inr hle
  · rw [input.eq_ofList] at h ⊢
    have hpasses : Report.Passes (reported (p eoi (.ofList input.tokens))) input.tokens.length := by
      rw [h, reported_error, Report.passes_some, ← input.count_eq]
      omega
    obtain ⟨kind, hkind, hhead⟩ := hp.exists_kind (Or.inr hpasses)
    cases htokens : input.tokens with
    | nil => rw [htokens] at hhead; cases hhead
    | cons tok more =>
        rw [htokens] at hhead
        exact Or.inl (goesOn_cons (e := .kind kind)
          ⟨Option.some_inj.1 hhead, (hkinds kind hkind).2⟩ (hkinds kind hkind).1)

/-- Arguments break off at an orphan. -/
theorem shows_arguments : Shows (GoesOn wanted) (arguments anyExpression) := by
  intro eoi input report h
  by_cases hhead : headKind input.tokens = some .openParen
  · exact Or.inl (Or.inr ⟨hhead, report, h⟩)
  · obtain ⟨report', h', hleft⟩ := starts_between .openParen .closeParen
      (separated anyExpression .comma false) eoi input.tokens
      (fun kind hkind => List.mem_singleton.1 hkind ▸ hhead)
    rw [← input.eq_ofList] at h'
    rw [arguments, h', Except.error.injEq] at h
    exact Or.inr (Nat.le_of_eq (by rw [← h, hleft, input.count_eq]))

/-- Arguments do not begin at an orphan, or with anything but a parenthesis. -/
theorem halts_arguments (hwanted : .openParen ∉ wanted.map Expectation.tokenKind) :
    Halts (GoesOn wanted) (arguments anyExpression) := by
  rintro eoi input (⟨tok, more, rfl, e, he, hwants⟩ | horphan)
  · refine bind_error (token_error fun hhead => hwanted ?_)
    have hkind : tok.kind = .openParen := Option.some_inj.1 hhead
    exact hkind ▸ hwants.kind_eq ▸ List.mem_map_of_mem he
  · exact horphan.2

/-- No statement begins at an orphan, or with anything but the token of a statement. -/
theorem halts_anyStatement
    (hwanted : ∀ e ∈ wanted, e.tokenKind ∉ Symbol.statement.firsts) :
    Halts (GoesOn wanted) anyStatement := by
  rintro eoi input (⟨tok, more, rfl, e, he, hwants⟩ | horphan)
  · refine stops_statement (clear_cons rfl fun hmem => hwanted e he ?_) eoi
    exact hwants.kind_eq ▸ hmem
  · exact horphan.statement_error

/-- An operation breaks off at one of its operators. -/
theorem shows_operation {allowed : List Operator} {operand : Parser Expr}
    (hallowed : ∀ op ∈ allowed, .operator op ∈ wanted) :
    Shows (GoesOn wanted) (operation allowed operand) := by
  intro eoi input report h
  cases hop : operator allowed eoi input with
  | error report' =>
      rw [operation, bind_of_error hop, Except.error.injEq] at h
      exact h ▸ shows_satisfy _ _ _ _ _ hop
  | ok first =>
      obtain ⟨tok, more, op, rfl, htok, hmem, -⟩ := operator_eq_ok hop
      exact Or.inl (goesOn_cons (e := .operator op) htok (hallowed op hmem))

/-- An operation does not begin with another operator. -/
theorem halts_operation {allowed : List Operator} {operand : Parser Expr}
    (hallowed : ∀ op ∈ allowed, .operator op ∉ wanted) :
    Halts (GoesOn wanted) (operation allowed operand) := by
  rintro eoi input (⟨tok, more, rfl, e, he, hwants⟩ | horphan)
  · cases hop : operator allowed eoi (.ofList (tok :: more)) with
    | error report => exact ⟨report, bind_of_error hop⟩
    | ok first =>
        obtain ⟨tok', more', op, htokens, htok, hmem, -⟩ := operator_eq_ok hop
        cases htokens
        have hwants' : (Expectation.operator op).Wants tok := htok
        exact absurd (hwants.unique hwants' ▸ he) (hallowed op hmem)
  · exact bind_error (operator_error (horphan.headKind_ne (by decide)))

end Breaking

/-! ### The rules of the grammar -/

/-- What the accesses of a member can break off at. -/
def accessMarks : List Expectation := [.kind .dot, .kind .openBracket]

/-- What a product can break off at. -/
def productMarks : List Expectation :=
  accessMarks ++ [Operator.multiply, .divide, .modulo].map .operator

/-- What a sum can break off at. -/
def sumMarks : List Expectation := productMarks ++ [Operator.add, .subtract].map .operator

/-- What an expression can break off at. -/
def expressionMarks : List Expectation := sumMarks ++ [.kind .equals]

/-- What an entry can break off at. -/
def entryMarks : List Expectation := expressionMarks ++ [.kind .colon]

section Rules

variable {α : Type} {n : Nat} {torn : Nat → Remaining → Prop} {wanted : List Expectation}

theorem tidy_name : Tidy n 1 Whole name := (Tidy.satisfy _ _).map _

theorem tidy_number : Tidy n 1 Whole number := (Tidy.satisfy _ _).checked _

theorem tidy_between {opening closing : Token.Kind} {inner : Parser α}
    (h : Tidy n 0 (GoesOn wanted) inner)
    (hclosing : closing ∉ Token.Kind.openParen :: wanted.map Expectation.tokenKind) :
    Tidy (n + 1) 1 Whole (between opening closing inner) := by
  refine .behind fun _ => h.bind (fun value => ?_) fun value => ?_
  · exact (Tidy.satisfy _ _).map fun _ => value
  · exact ((halts_of_starts (Starts.token closing) (by simpa using hclosing)).bind _).carries

/-- A mark with an expression behind it that may be missing. -/
theorem tidy_marked {kind : Token.Kind} {p : Parser α} (h : Tidy n 0 (GoesOn wanted) p)
    (hkind : kind ≠ .operator) :
    Tidy (n + 1) 0 (GoesOn (wanted ++ [.kind kind])) (optional (token kind *> p)) := by
  have hmarked : Tidy (n + 1) 0 (GoesOn (wanted ++ [.kind kind])) (token kind *> p) :=
    .behind fun _ => h.mono (Nat.le_refl n) (GoesOn.mono (List.subset_append_left _ _))
  exact hmarked.optional (shows_of_starts ((Starts.token kind).bind _) (by simpa using hkind))

/-- A mark is not read where an expression breaks off. -/
theorem carries_marked {kind : Token.Kind} {p : Parser α}
    (hkind : kind ∉ Token.Kind.openParen :: wanted.map Expectation.tokenKind) :
    Carries (GoesOn wanted) (GoesOn wanted) (optional (token kind *> p)) :=
  .optional ((halts_of_starts (Starts.token kind) (by simpa using hkind)).bind _)

theorem tidy_chain {allowed : List Operator} {operand : Parser Expr} (hadv : Advances operand)
    (h : Tidy n 0 (GoesOn wanted) operand) (hallowed : ∀ op ∈ allowed, .operator op ∉ wanted) :
    Tidy n 0 (GoesOn (wanted ++ allowed.map .operator)) (chain allowed operand) := by
  have hsub : wanted ⊆ wanted ++ allowed.map .operator := List.subset_append_left _ _
  have hhalts : Halts (GoesOn wanted) (operation allowed operand) := halts_operation hallowed
  have hoperation : Tidy n 0 (GoesOn wanted) (operation allowed operand) :=
    Tidy.andThen (Tidy.satisfy _ _) fun op => h.map fun right => (op, right)
  have hmore : Tidy n 0 (GoesOn (wanted ++ allowed.map .operator))
      (many (operation allowed operand)) :=
    .many (advances_operation hadv _) hoperation hhalts (GoesOn.mono hsub)
      (shows_operation fun op hop => List.mem_append_right _ (List.mem_map_of_mem hop))
  refine h.bind (fun first => hmore.map _) fun first => ?_
  exact (Carries.many (advances_operation hadv _) hhalts).bind fun _ =>
    .pure _ (GoesOn.mono hsub)

/-! ### Rules that come back to expressions and statements -/

variable (hs : Tidy n 0 (GoesOn expressionMarks) anyStatement)
  (he : Tidy n 0 (GoesOn expressionMarks) anyExpression)

include he in
theorem tidy_arguments : Tidy (n + 1) 1 Whole (arguments anyExpression) := by
  have hadv := advances_anyExpression.nonGrowing
  have hround : Tidy n 0 (GoesOn expressionMarks) (token .comma *> anyExpression) :=
    (Tidy.behind fun _ => he).mono (Nat.le_succ n) fun _ _ => id
  have hhalts : Halts (GoesOn expressionMarks) (token .comma *> anyExpression) :=
    (halts_of_starts (Starts.token .comma) (by decide)).bind _
  -- the list may break off at a comma, and at the first token if it begins an expression
  let listMarks := expressionMarks ++ .kind .comma :: Symbol.expression.firsts.map .kind
  have hsub : expressionMarks ⊆ listMarks := List.subset_append_left _ _
  have hitems : Tidy n 0 (GoesOn listMarks) (items anyExpression .comma) := by
    refine he.bind (fun first => Tidy.map (.many (advances_separator_item hadv _) hround hhalts
      (GoesOn.mono hsub) ?_) _) fun first => ?_
    · exact shows_of_starts ((Starts.token .comma).bind _) (by decide)
    · exact (Carries.many (advances_separator_item hadv _) hhalts).bind fun _ =>
        .pure _ (GoesOn.mono hsub)
  rw [arguments, separated_eq hadv]
  refine tidy_between ((hitems.optional ?_).map _) (by decide)
  exact shows_of_starts (starts_anyExpression.bind _) (by decide)

include hs in
theorem tidy_block : Tidy (n + 1) 1 Whole (block anyStatement) := by
  have hlist : Tidy n 0 (GoesOn (expressionMarks ++ Symbol.statement.firsts.map .kind))
      (many anyStatement) :=
    .many advances_anyStatement hs (halts_anyStatement (by decide))
      (GoesOn.mono (List.subset_append_left _ _)) (shows_of_starts starts_anyStatement (by decide))
  exact tidy_between hlist (by decide)

include hs he in
theorem tidy_function : Tidy (n + 1) 1 Whole (function anyStatement anyExpression) := by
  have hparameters : Tidy n 1 Whole (parameters anyExpression) :=
    (((tidy_arguments he).mono (Nat.le_succ n) fun _ _ => id).checked _)
  have hblock : Tidy n 1 Whole (block anyStatement) :=
    (tidy_block hs).mono (Nat.le_succ n) fun _ _ => id
  exact .behind fun _ => tidy_name.andThen fun f => hparameters.andThen fun ps =>
    hblock.map fun body => Expr.function f ps body

include hs he in
theorem tidy_primary : Tidy (n + 1) 1 Whole (primary anyStatement anyExpression) :=
  (tidy_name.map _).orElse <| (tidy_number.map _).orElse <|
    (tidy_between he (by decide)).orElse (tidy_function hs he)

include hs he in
theorem tidy_access : Tidy (n + 1) 1 Whole
    (orElse (dotAccess anyStatement anyExpression) (indexAccess anyExpression)) := by
  have hproperty : Tidy (n + 1) 1 Whole (token .dot *> primary anyStatement anyExpression) :=
    (Tidy.behind fun _ => tidy_primary hs he).mono (Nat.le_succ _) fun _ _ => id
  exact (hproperty.checked _).orElse ((tidy_between he (by decide)).map _)

include hs he in
theorem tidy_member : Tidy (n + 1) 0 (GoesOn accessMarks) (member anyStatement anyExpression) := by
  have haccesses : Tidy (n + 1) 0 (GoesOn accessMarks)
      (many (orElse (dotAccess anyStatement anyExpression) (indexAccess anyExpression))) :=
    .manyWhole (advances_access advances_anyStatement advances_anyExpression) (tidy_access hs he)
      (shows_of_starts ((starts_dotAccess _ _).orElse (starts_indexAccess _)) (by decide))
  exact (tidy_primary hs he).andThen fun object =>
    haccesses.map fun accesses => accesses.foldl Access.apply object

include hs he in
theorem tidy_call : Tidy (n + 1) 0 (GoesOn accessMarks) (call anyStatement anyExpression) := by
  have hadv : Advances (arguments anyExpression) := advances_arguments advances_anyExpression
  have hcalls : Tidy (n + 1) 0 (GoesOn accessMarks) (many (arguments anyExpression)) :=
    .manyWhole hadv (tidy_arguments he) shows_arguments
  refine (tidy_member hs he).bind (fun callee => hcalls.map _) fun callee => ?_
  exact (Carries.many hadv (halts_arguments (by decide))).bind fun _ => .pure _ fun _ _ => id

include he in
theorem tidy_entry : Tidy n 0 (GoesOn entryMarks) (entry anyExpression) := by
  have hvalue : Tidy n 0 (GoesOn entryMarks) (optional (token .colon *> anyExpression)) :=
    (tidy_marked he (by decide)).mono (Nat.le_succ n) fun _ _ => id
  refine tidy_name.andThen fun key => hvalue.bind (fun value => ?_) fun value => ?_
  · cases value <;> exact .pure _
  · cases value <;> exact .pure _ fun _ _ => id

include he in
theorem tidy_object : Tidy (n + 1) 1 Whole (object anyExpression) := by
  have hadv := (advances_entry advances_anyExpression).nonGrowing
  have hstarts : Starts [.identifier] (entry anyExpression) :=
    ((Starts.token .identifier).bind _).bind _
  -- the list may break off where an entry begins
  let listMarks := entryMarks ++ [.kind .identifier]
  have hsub : entryMarks ⊆ listMarks := List.subset_append_left _ _
  have hcomma : Halts (GoesOn entryMarks) (token .comma) :=
    halts_of_starts (Starts.token .comma) (by decide)
  have hmore : Tidy n 0 (GoesOn listMarks) (manyTrailing (entry anyExpression) .comma) :=
    .manyTrailing (tidy_entry he) hadv hcomma (GoesOn.mono hsub)
      (shows_of_starts hstarts (by decide))
  have hlist : Tidy n 0 (GoesOn listMarks) (separated (entry anyExpression) .comma true) := by
    rw [separated_trailing_eq hadv]
    refine (Tidy.optional ((tidy_entry he).bind (fun first => hmore.map _) fun first => ?_)
      ?_).map _
    · refine Carries.bind ?_ fun _ => .pure _ (GoesOn.mono hsub)
      exact (Carries.many (advances_separator_item hadv _) (hcomma.bind _)).bind fun _ =>
        (Carries.optional hcomma).bind fun _ => .pure _ fun _ _ => id
    · exact shows_of_starts (hstarts.bind _) (by decide)
  exact (tidy_between hlist (by decide)).map _

include hs he in
theorem tidy_expressionLayer :
    Tidy (n + 1) 0 (GoesOn expressionMarks) (expressionLayer anyStatement anyExpression) := by
  have has := advances_anyStatement
  have hae := advances_anyExpression
  have hproduct : Tidy (n + 1) 0 (GoesOn productMarks) (product anyStatement anyExpression) :=
    tidy_chain (advances_call has hae) (tidy_call hs he) (by decide)
  have hsum : Tidy (n + 1) 0 (GoesOn sumMarks) (sum anyStatement anyExpression) :=
    tidy_chain (advances_product has hae) hproduct (by decide)
  have htarget := (tidy_object he).relax.orElse hsum
  have hvalue : Tidy (n + 1) 0 (GoesOn expressionMarks)
      (optional (token .equals *> anyExpression)) :=
    (tidy_marked he (by decide)).mono (Nat.le_refl _) (GoesOn.mono (by decide))
  refine htarget.bind (fun target => hvalue.bind (fun value => ?_) fun value => ?_) fun target => ?_
  · cases value <;> exact .pure _
  · cases value <;> exact .pure _ fun _ _ => id
  · refine (carries_marked (by decide)).bind fun value => ?_
    cases value <;> exact .pure _ (GoesOn.mono (List.subset_append_left _ _))

include he in
/-- The declaration of a variable is not looked behind. -/
theorem tidy_letStatement : Tidy n 1 Whole (letStatement anyExpression) := by
  have hvalue : Tidy n 0 (GoesOn expressionMarks) (optional (token .equals *> anyExpression)) :=
    (tidy_marked he (by decide)).mono (Nat.le_succ n) (GoesOn.mono (by decide))
  refine Tidy.andThen (Tidy.satisfy _ _) fun _ => tidy_name.andThen fun f => hvalue.bind
    (fun value => (Tidy.satisfy _ _).map fun _ => Stmt.declare false f value) fun value => ?_
  exact ((halts_of_starts (Starts.token .semicolon) (by decide)).bind _).carries

include he in
/-- The declaration of a constant is not looked behind. -/
theorem tidy_constStatement : Tidy n 1 Whole (constStatement anyExpression) := by
  refine Tidy.andThen (Tidy.satisfy _ _) fun _ => tidy_name.andThen fun f =>
    Tidy.andThen (Tidy.satisfy _ _) fun _ => he.bind (fun value =>
      (Tidy.satisfy _ _).map fun _ => Stmt.declare true f (some value)) fun value => ?_
  exact ((halts_of_starts (Starts.token .semicolon) (by decide)).bind _).carries

include he in
theorem tidy_statementLayer :
    Tidy n 0 (GoesOn expressionMarks) (statementLayer anyExpression) := by
  have hended : Tidy n 0 (GoesOn expressionMarks) (optional (token .semicolon)) :=
    Tidy.optional (Tidy.satisfy _ _).relax (shows_satisfy _ _)
  refine (tidy_letStatement he).relax.orElse ((tidy_constStatement he).relax.orElse ?_)
  refine he.bind (fun e => hended.map fun _ => Stmt.expr e) fun e => ?_
  have hsemicolon : Halts (GoesOn expressionMarks) (token .semicolon) :=
    halts_of_starts (Starts.token .semicolon) (by decide)
  exact (Carries.optional hsemicolon).bind fun _ => .pure _ fun _ _ => id

end Rules

/-- **Statements and expressions are tidy.** -/
theorem tidy_any (n : Nat) : Tidy n 0 (GoesOn expressionMarks) anyStatement ∧
    Tidy n 0 (GoesOn expressionMarks) anyExpression := by
  induction n with
  | zero => exact ⟨.zero, .zero⟩
  | succ n ih =>
      have he : Tidy (n + 1) 0 (GoesOn expressionMarks) anyExpression := by
        rw [anyExpression_eq]
        exact tidy_expressionLayer ih.1 ih.2
      refine ⟨?_, he⟩
      rw [anyStatement_eq]
      exact tidy_statementLayer he

end Grammar

end Scriptlet
