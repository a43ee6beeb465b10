/-
**The parsers of the grammar predict.**

A parser predicts when its reports fit the tokens, when it is steady, and when what it expects can
be gone on with.  Steps, choices and repetitions of parsers that predict do so too, so the grammar
is gone through once, rule by rule.  The accesses and functions stand apart: they refuse what is not
a name, and they are compared with parsers that read the same and refuse nothing.

The rules are gone through for inputs of fewer than `n` tokens.  Each rule reads a token before it
comes back to expressions and statements, so these are known to predict on what is left.

Main definitions:

* `Scriptlet.Parser.Predictive` — **a parser that predicts**, behind one that goes on with some
  kinds of tokens.

Main results:

* `Scriptlet.Grammar.predictive_any` — **statements and expressions predict**.
-/

import Scriptlet.Proofs.Syntax.Completable

set_option relaxedAutoImplicit false
set_option autoImplicit false

namespace Scriptlet

namespace Parser

open Grammar (barrierKinds)

variable {α β : Type}

/-! ### Parsers that predict -/

/-- **A parser that predicts** on inputs of fewer than `n` tokens.  It goes on with `kinds`, and it
can be brought to its end behind a parser that goes on with `after`. -/
structure Predictive (n : Nat) (after kinds : List Token.Kind) (p : Parser α) : Prop where
  /-- What the parser reports fits its input. -/
  guarded : GuardedBelow n p
  /-- Only a token that is wanted makes a difference. -/
  steady : Steady n p
  /-- What is expected can be gone on with. -/
  completable : Completable n kinds p
  /-- The parser can be brought to its end. -/
  ends : Ends after kinds p

namespace Predictive

variable {n m : Nat} {after mid kinds kinds' starts starts' : List Token.Kind}

theorem mono {p : Parser α} (h : Predictive n after kinds p) (hm : m ≤ n) (hsub : kinds ⊆ kinds') :
    Predictive m after kinds' p :=
  ⟨h.guarded.mono hm, h.steady.mono hm, h.completable.mono hm hsub, h.ends.mono hsub⟩

/-- There are no inputs of fewer than no tokens. -/
theorem zero {p : Parser α} (h : Ends after kinds p) : Predictive 0 after kinds p :=
  ⟨fun _ _ hn => by omega, fun _ _ _ _ _ _ _ hn => by omega, fun _ _ _ _ _ hn => by omega, h⟩

/-- A parser that goes on with more kinds of tokens. -/
theorem more {p : Parser α} (h : Predictive n after kinds p) (hsub : kinds ⊆ kinds') :
    Predictive n after kinds' p := h.mono (Nat.le_refl n) hsub

theorem pure (value : α) (hsub : after ⊆ kinds) : Predictive n after kinds (pure value) :=
  ⟨.pure value, .pure value, .pure value, .pure value hsub⟩

theorem token {kind : Token.Kind} (hafter : kind ∉ after)
    (hkind : kind ∉ .operator :: barrierKinds) : Predictive n after kinds (token kind) :=
  have hne : kind ≠ .operator := fun h => hkind (h ▸ List.mem_cons_self)
  ⟨.token hkind, .token hne, .token hne, .token hafter⟩

theorem operator {op : Operator} {ops : List Operator} (hafter : .operator ∉ after) :
    Predictive n after kinds (operator (op :: ops)) := by
  have htok : (⟨.operator, op.symbol, ⟨0, 0⟩⟩ : Token).operator? = some op :=
    Operator.ofSymbol?_eq_some_iff.2 rfl
  exact ⟨.operator (List.cons_ne_nil _ _), .operator _, .operator _,
    .one ⟨.operator, op.symbol, ⟨0, 0⟩⟩ hafter fun _ =>
      Grammar.reads_operator htok List.mem_cons_self⟩

theorem number (hafter : .number ∉ after) : Predictive n after kinds Grammar.number := by
  obtain ⟨value, hreads⟩ := exists_reads_number
  exact ⟨.number, .number, .number, .one _ hafter hreads⟩

/-- The steps of a parser, when each of them predicts on what is left for it. -/
theorem step {p : Parser α} {f : α → Parser β} (hp : Predictive n after mid p)
    (hends : ∀ value, Ends mid kinds (f value))
    (hf : Behind n p fun m value => Predictive m mid kinds (f value)) :
    Predictive n after kinds (p >>= f) where
  guarded := hp.guarded.bind fun eoi tokens value rest missed hn h =>
    (hf eoi tokens value rest missed hn h).guarded
  steady := hp.steady.bind hp.guarded.within fun eoi tokens value rest missed hn h =>
    have hf := hf eoi tokens value rest missed hn h
    ⟨hf.guarded.within, hf.steady⟩
  completable := hp.completable.bind hp.guarded.within hp.steady hends
    fun eoi tokens value rest missed hn h =>
      have hf := hf eoi tokens value rest missed hn h
      ⟨hf.guarded.within, hf.completable⟩
  ends := hp.ends.bind hends

/-- The steps of a parser. -/
theorem bind {p : Parser α} {f : α → Parser β} (hp : Predictive n after mid p)
    (hf : ∀ value, Predictive n mid kinds (f value)) : Predictive n after kinds (p >>= f) := by
  refine hp.step (fun value => (hf value).ends) fun eoi tokens value rest missed hn h => ?_
  have hrest := ((hp.guarded eoi tokens hn).suffix _ _ _ h).length_le
  exact (hf value).mono (by omega) (List.Subset.refl _)

theorem map {p : Parser α} (hp : Predictive n after kinds p) (f : α → β) :
    Predictive n after kinds (f <$> p) := hp.bind fun _ => .pure _ (List.Subset.refl _)

/-- What is behind a token is known on shorter inputs. -/
theorem behind {kind : Token.Kind} {f : Token → Parser β} (hafter : kind ∉ after)
    (hkind : kind ∉ .operator :: barrierKinds) (hf : ∀ tok, Predictive n [] kinds (f tok)) :
    Predictive (n + 1) after kinds (Parser.token kind >>= f) := by
  refine (Predictive.token hafter hkind).step (fun tok => (hf tok).ends)
    fun eoi tokens tok rest missed hn h => ?_
  have hlt : rest.length < tokens.length := advances_token kind _ _ _ h
  exact (hf tok).mono (by omega) (List.Subset.refl _)

theorem orElse {p q : Parser α} (hp : Predictive n after kinds p) (hq : Predictive n after kinds q)
    (hadv : Advances q) (hps : Starts starts p) (hqs : Starts starts' q)
    (hdisjoint : ∀ kind ∈ starts', kind ∉ starts) : Predictive n after kinds (orElse p q) :=
  ⟨hp.guarded.orElse hq.guarded, hp.steady.orElse hq.steady hadv hps hqs hdisjoint,
    hp.completable.orElse hq.completable hps hqs hdisjoint, hp.ends.orElse⟩

theorem optional {p : Parser α} (hp : Predictive n mid kinds p) (hps : Starts starts p)
    (hsub : starts ⊆ kinds) (hafter : after ⊆ kinds) : Predictive n after kinds (optional p) :=
  ⟨hp.guarded.optional, hp.steady.optional, hp.completable.optional, .optional hafter hps hsub⟩

/-- A repetition, by induction on the number of tokens: each round leaves fewer of them. -/
theorem many {p : Parser α} (hadv : Advances p) (hp : Predictive n mid kinds p)
    (hps : Starts starts p) (hsub : starts ⊆ kinds) (hafter : after ⊆ kinds) :
    Predictive n after kinds (many p) := by
  have hends : ∀ after, after ⊆ kinds → Ends after kinds (Parser.many p) :=
    fun after hafter => .many hadv hafter hps hsub
  induction n generalizing after with
  | zero => exact .zero (hends after hafter)
  | succ n ih =>
      rw [many_eq hadv]
      -- the steps are a round, which may be missing, and the other rounds
      refine (hp.optional hps hsub hafter).step (fun first => ?_)
        fun eoi tokens first rest missed hn h => ?_
      · cases first with
        | none => exact .pure _ (List.Subset.refl _)
        | some value =>
            exact (hends kinds (List.Subset.refl _)).bind fun _ => .pure _ (List.Subset.refl _)
      · cases first with
        | none => exact .pure _ (List.Subset.refl _)
        | some value =>
            have hlt : rest.length < tokens.length := optional_some_lt hadv h
            have hmore := ih (hp.mono (Nat.le_succ n) (List.Subset.refl _)) (List.Subset.refl kinds)
            exact (hmore.mono (by omega) (List.Subset.refl _)).map _

/-- A parser that judges what is behind a token. -/
theorem judged {kind : Token.Kind} {f : Token → Parser (Except Complaint β)} {p : Parser β}
    (hp : Judges (Parser.token kind >>= f) p) (hkind : kind ∉ [.operator, .endOfInput])
    (hrefused : Grammar.RefusedBy kind p) (hf : ∀ tok, Predictive n [] kinds (f tok))
    (hends : Ends after kinds p) : Predictive (n + 1) after kinds p := by
  have hne : kind ≠ .operator := fun h => hkind (by simp [h])
  have hbehind : ∀ {Q : Nat → Token → Prop}, (∀ m tok, m ≤ n → Q m tok) →
      Behind (n + 1) (Parser.token kind) Q := by
    intro Q hQ eoi tokens tok rest missed hn h
    have hlt : rest.length < tokens.length := advances_token kind _ _ _ h
    exact hQ _ tok (by omega)
  have hwithin : ∀ m tok, m ≤ n → WithinBelow m (f tok) :=
    fun m tok hm => ((hf tok).guarded.mono hm).within
  exact {
    guarded := .judged hp (fun h => hkind (by simp [h])) hrefused fun tok => (hf tok).guarded
    steady := .judged hp hrefused <| (Steady.token hne).bind (.satisfy _ _) <| hbehind
      fun m tok hm => ⟨hwithin m tok hm, (hf tok).steady.mono hm⟩
    completable := .judged hp hrefused <| (Completable.token hne).bind (.satisfy _ _) (.token hne)
      (fun tok => (hf tok).ends) <| hbehind fun m tok hm =>
        ⟨hwithin m tok hm, (hf tok).completable.mono hm (List.Subset.refl _)⟩
    ends := hends }

end Predictive

/-! ### Judging -/

variable {γ : Type}

/-- Reads a value and goes on with what a check makes of it, or yields the complaint about it. -/
def settled (p : Parser α) (check : α → Except Complaint β) (f : β → Parser γ) :
    Parser (Except Complaint γ) := do
  match check (← p) with
  | .ok value => .ok <$> f value
  | .error complaint => return .error complaint

theorem judges_settled {p : Parser α} {check : α → Except Complaint β} {f : β → Parser γ}
    (hadv : Advances p) (hown : ∀ value complaint, check value = .error complaint → complaint.Own) :
    Judges (settled p check f) (checked p check >>= f) := by
  intro eoi tokens
  rcases run_cases p eoi tokens with ⟨report, hp⟩ | ⟨value, rest, missed, hp⟩
  · exact Or.inl ⟨report, bind_of_error hp, bind_of_error (by rw [checked, hp])⟩
  cases hcheck : check value with
  | error complaint =>
      have hsettled : settled p check f eoi (.ofList tokens)
          = .ok ⟨.error complaint, .ofList rest, missed⟩ := by
        rw [settled, bind_of_ok hp, hcheck]
        dsimp only
        rw [pure_def, keep_ok, Report.merge_none]
      have hchecked : ∃ span, checked p check eoi (.ofList tokens)
          = .error ⟨rest.length, span, complaint, none, []⟩ := by
        simp only [checked, hp, hcheck]
        exact ⟨_, rfl⟩
      obtain ⟨span, hchecked⟩ := hchecked
      exact Or.inr (Or.inr ⟨complaint, rest, missed, _, hsettled, bind_of_error hchecked,
        hown value complaint hcheck, hadv _ _ _ hp, rfl⟩)
  | ok result =>
      have hchecked := bind_of_ok (f := f) (checked_of_ok hp hcheck)
      have hsettled : settled p check f eoi (.ofList tokens)
          = keep missed ((Except.ok <$> f result) eoi (.ofList rest)) := by
        rw [settled, bind_of_ok hp, hcheck]
      rcases run_cases (f result) eoi rest with ⟨report, hf⟩ | ⟨value', rest', missed', hf⟩
      · rw [map_def, bind_of_error hf, keep_error] at hsettled
        rw [hf, keep_error] at hchecked
        exact Or.inl ⟨_, hsettled, hchecked⟩
      · rw [map_of_ok hf, keep_ok] at hsettled
        rw [hf, keep_ok] at hchecked
        exact Or.inr (Or.inl ⟨_, _, _, hsettled, hchecked⟩)

/-- What is judged behind a token is judged with the token in front of it. -/
theorem Judges.behind {kind : Token.Kind} {q : Token → Parser (Except Complaint β)}
    {p : Token → Parser β} (h : ∀ tok, Judges (q tok) (p tok)) :
    Judges (token kind >>= q) (token kind >>= p) := by
  intro eoi tokens
  cases htoken : token kind eoi (.ofList tokens) with
  | error report => exact Or.inl ⟨report, bind_of_error htoken, bind_of_error htoken⟩
  | ok result =>
      obtain ⟨tok, rest, htokens, htok, rfl⟩ := token_eq_ok htoken
      cases htokens
      rw [bind_of_ok htoken, bind_of_ok htoken, keep_none, keep_none]
      rcases h tok eoi rest with h | h | ⟨complaint, rest', missed, report, h₁, h₂, hown, hlt, h₃⟩
      · exact Or.inl h
      · exact Or.inr (Or.inl h)
      · exact Or.inr (Or.inr ⟨complaint, rest', missed, report, h₁, h₂, hown,
          Nat.lt_succ_of_lt hlt, h₃⟩)

theorem Predictive.settled {n : Nat} {after mid kinds : List Token.Kind} {p : Parser α}
    {check : α → Except Complaint β} {f : β → Parser γ} (hp : Predictive n after mid p)
    (hf : ∀ value, Predictive n mid kinds (f value)) (hsub : mid ⊆ kinds) :
    Predictive n after kinds (settled p check f) := by
  refine hp.bind fun value => ?_
  split
  · exact (hf _).map _
  · exact .pure _ hsub

end Parser

namespace Grammar

open Scriptlet.Parser

/-! ### Accesses and functions -/

theorem own_of_parameterNames (es : List Expr) (complaint : Complaint)
    (h : parameterNames es = .error complaint) : complaint.Own := by
  induction es with
  | nil => cases h
  | cons e es ih =>
      rw [parameterNames] at h
      cases hname : e.name? with
      | none =>
          rw [hname] at h
          cases h
          exact trivial
      | some n =>
          rw [hname] at h
          cases hes : parameterNames es with
          | error complaint' =>
              rw [hes] at h
              cases h
              exact ih hes
          | ok ps =>
              rw [hes] at h
              cases h

section Judging

variable {s : Parser Stmt} {e : Parser Expr}

/-- What is behind a point, with the complaint about it if it is no name. -/
def property (statement : Parser Stmt) (expression : Parser Expr) :
    Parser (Except Complaint Access) :=
  settled (primary statement expression)
    (fun property => if property.name?.isSome then .ok (.dot property)
      else .error (.property property)) pure

theorem judges_dotAccess (as : Advances s) (ae : Advances e) :
    Judges (token .dot >>= fun _ => property s e) (dotAccess s e) := by
  have hadv : Advances (token .dot *> primary s e) :=
    (advances_token _).bind fun _ => (advances_primary as ae).nonGrowing
  have h : Judges (settled (token .dot *> primary s e) _ pure) (dotAccess s e >>= pure) :=
    judges_settled hadv fun value complaint h => by
      split at h
      · cases h
      · cases h
        exact trivial
  rwa [bind_pure, settled, seqRight_def, bind_assoc] at h

/-- What is behind the word of a function; if its parameters are not names there is a complaint
instead of a body. -/
def declaration (statement : Parser Stmt) (expression : Parser Expr) :
    Parser (Except Complaint Expr) := do
  let f ← name
  settled (arguments expression) parameterNames fun ps => do
    let body ← block statement
    return .function f ps body

theorem judges_function (ae : Advances e) :
    Judges (token .fnWord >>= fun _ => declaration s e) (function s e) := by
  refine .behind fun _ => ?_
  rw [declaration, name, bind_assoc, bind_assoc]
  refine .behind fun word => ?_
  rw [pure_bind, pure_bind]
  exact judges_settled (advances_arguments ae) own_of_parameterNames

end Judging

/-! ### The rules of the grammar -/

/-- The kinds of tokens with which a symbol goes on, and opening parentheses. -/
def Symbol.more (s : Symbol) : List Token.Kind := .openParen :: s.goesOn

section Rules

/-! ### Parsers that can be brought to their ends -/

/-- A token of a kind. -/
def sample (kind : Token.Kind) : Token := ⟨kind, "", ⟨0, 0⟩⟩

theorem ends_anyExpression : Ends [] Symbol.expression.more anyExpression := by
  refine ⟨[sample .identifier], .name "", fun tail hclear => ⟨nofun, ?_⟩⟩
  have hname : Derives .expression (sample .identifier :: tail) tail (.name "") :=
    .unassigned <| .sumTarget <| .oneProduct <| .oneCall <|
      .allCalls (.uncalled (.onePrimary (.name rfl))) (hclear _ (by decide))
  exact complete_of_derives hname (hclear.mono (by decide))

theorem ends_anyStatement : Ends [] Symbol.statement.more anyStatement := by
  refine ⟨[sample .identifier], .expr (.name ""), fun tail hclear => ⟨nofun, ?_⟩⟩
  have hname : Derives .statement (sample .identifier :: tail) tail (.expr (.name "")) :=
    .bareExpr <| .unassigned <| .sumTarget <| .oneProduct <| .oneCall <|
      .allCalls (.uncalled (.onePrimary (.name rfl))) (hclear _ (by decide))
  exact complete_of_derives hname (hclear.mono (by decide))

theorem ends_dotAccess : Ends [] [] (dotAccess anyStatement anyExpression) := by
  refine ⟨[sample .dot, sample .identifier], .dot (.name ""), fun tail _ => ⟨nofun, ?_⟩⟩
  have hproperty : Reads (primary anyStatement anyExpression) (sample .identifier :: tail) tail
      (.name "") := .orElse_left ((reads_name rfl).map _)
  have hmarked : Reads (token .dot *> primary anyStatement anyExpression)
      (sample .dot :: sample .identifier :: tail) tail (.name "") := hproperty.marked rfl
  exact hmarked.checked rfl

theorem ends_function : Ends [] [] (function anyStatement anyExpression) := by
  refine ⟨[.fnWord, .identifier, .openParen, .closeParen, .openBrace, .closeBrace].map sample,
    .function "" [] [], fun tail _ => ⟨nofun, ?_⟩⟩
  have harguments : ∀ rest, Reads (arguments anyExpression)
      (sample .openParen :: sample .closeParen :: rest) rest [] := fun rest =>
    have hclear : Clear Symbol.expression.firsts (sample .closeParen :: rest) :=
      clear_cons rfl (by decide)
    reads_between rfl (reads_no_expressions hclear) rfl
  have hparameters : ∀ rest, Reads (parameters anyExpression)
      (sample .openParen :: sample .closeParen :: rest) rest [] :=
    fun rest => (harguments rest).checked rfl
  have hbody : Reads (block anyStatement) (sample .openBrace :: sample .closeBrace :: tail) tail
      [] :=
    have hclear : Clear Symbol.statement.firsts (sample .closeBrace :: tail) :=
      clear_cons rfl (by decide)
    reads_between rfl (.many_nil advances_anyStatement (stops_statement hclear)) rfl
  exact .behind rfl <| (reads_name rfl).bind <| (hparameters _).bind <| hbody.bind <|
    .pure _

/-! ### Rules of tokens -/

variable {n : Nat}

theorem predictive_name : Predictive n [] [] name := (Predictive.token (by simp) (by decide)).map _

theorem predictive_between {α : Type} {kinds : List Token.Kind} {opening closing : Token.Kind}
    {inner : Parser α} (h : Predictive n [] kinds inner) (hclosing : closing ∉ kinds)
    (hkinds : ∀ kind ∈ [opening, closing], kind ∉ .operator :: barrierKinds) :
    Predictive (n + 1) [] [] (between opening closing inner) :=
  .behind (by simp) (hkinds _ (by simp)) fun _ => h.bind fun _ =>
    (Predictive.token hclosing (hkinds _ (by simp))).bind fun _ => .pure _ (List.Subset.refl _)

/-- A mark with something behind it that may be missing. -/
theorem predictive_marked {α : Type} {after kinds : List Token.Kind} {mark : Token.Kind}
    {p : Parser α} (h : Predictive n [] kinds p) (hmark : mark ∉ .operator :: barrierKinds)
    (hmem : mark ∈ kinds) (hafter : after ⊆ kinds) :
    Predictive (n + 1) after kinds (optional (token mark *> p)) := by
  have hmarked : Predictive (n + 1) [] kinds (token mark *> p) :=
    .behind (by simp) hmark fun _ => h
  exact hmarked.optional ((Starts.token mark).bind _) (by simp [hmem]) hafter

theorem predictive_items {α : Type} {kinds : List Token.Kind} {item : Parser α}
    (h : Predictive n [] kinds item) (hadv : NonGrowing item) :
    Predictive n [] (.comma :: kinds) (items item .comma) := by
  have hitem : Predictive n [] (.comma :: kinds) (token .comma *> item) :=
    (Predictive.behind (by simp) (by decide) fun _ => h.more (by simp)).mono (Nat.le_succ n)
      (List.Subset.refl _)
  refine h.bind fun first => ?_
  exact (hitem.many (advances_separator_item hadv .comma) ((Starts.token .comma).bind _) (by simp)
    (by simp)).bind fun _ => .pure _ (List.Subset.refl _)

theorem predictive_manyTrailing {α : Type} {kinds : List Token.Kind} {item : Parser α}
    (h : Predictive n [] kinds item) (hadv : NonGrowing item) :
    Predictive n kinds (.comma :: kinds) (manyTrailing item .comma) := by
  have hitem : Predictive n [] (.comma :: kinds) (token .comma *> item) :=
    (Predictive.behind (by simp) (by decide) fun _ => h.more (by simp)).mono (Nat.le_succ n)
      (List.Subset.refl _)
  have hcomma : Predictive n [] (.comma :: kinds) (token .comma) :=
    .token (by simp) (by decide)
  exact (hitem.many (advances_separator_item hadv .comma) ((Starts.token .comma).bind _) (by simp)
    (by simp)).bind fun _ => (hcomma.optional (Starts.token .comma) (by simp)
      (List.Subset.refl _)).bind fun _ => .pure _ (List.Subset.refl _)

/-! ### Rules that come back to expressions and statements -/

variable (hs : Predictive n [] Symbol.statement.more anyStatement)
  (he : Predictive n [] Symbol.expression.more anyExpression)

include he in
theorem predictive_arguments : Predictive (n + 1) [] [] (arguments anyExpression) := by
  have hadv := advances_anyExpression.nonGrowing
  have hitems := (predictive_items he hadv).more (List.subset_append_left _
    Symbol.expression.firsts)
  have hlist : Predictive n [] (.comma :: Symbol.expression.more ++ Symbol.expression.firsts)
      (separated anyExpression .comma false) := by
    rw [separated_eq hadv]
    exact (hitems.optional (starts_anyExpression.bind _) (List.subset_append_right _ _)
      (List.nil_subset _)).map _
  exact predictive_between hlist (by decide) (by decide)

include hs in
theorem predictive_block : Predictive (n + 1) [] [] (block anyStatement) := by
  have hs : Predictive n [] Symbol.statements.goesOn anyStatement := hs.more (by decide)
  exact predictive_between (hs.many advances_anyStatement starts_anyStatement (by decide)
    (List.nil_subset _)) (by decide) (by decide)

include hs he in
theorem predictive_function :
    Predictive (n + 1) [] [] (function anyStatement anyExpression) := by
  have hdeclaration : Predictive n [] [] (declaration anyStatement anyExpression) :=
    predictive_name.bind fun _ =>
      ((predictive_arguments he).mono (Nat.le_succ n) (List.Subset.refl _)).settled (fun _ =>
        ((predictive_block hs).mono (Nat.le_succ n) (List.Subset.refl _)).bind fun _ =>
          .pure _ (List.Subset.refl _)) (List.Subset.refl _)
  exact .judged (judges_function advances_anyExpression) (by decide) refusedBy_function
    (fun _ => hdeclaration) ends_function

include hs he in
theorem predictive_primary : Predictive (n + 1) [] [] (primary anyStatement anyExpression) := by
  have hnumber : Predictive (n + 1) [] [] number := .number (by simp)
  have hbetween : Predictive (n + 1) [] [] (between .openParen .closeParen anyExpression) :=
    predictive_between he (by decide) (by decide)
  have hstarts := starts_function anyStatement anyExpression
  have has := advances_anyStatement
  have hae := advances_anyExpression
  refine (predictive_name.map _).orElse ?_ ?_ (((Starts.token .identifier).bind _).bind _)
    ((((Starts.token .number).checked _).bind _).orElse ((starts_between _ _ _).orElse hstarts))
    (by decide)
  · refine (hnumber.map _).orElse ?_ ?_ (((Starts.token .number).checked _).bind _)
      ((starts_between _ _ _).orElse hstarts) (by decide)
    · exact hbetween.orElse (predictive_function hs he) (advances_function has hae)
        (starts_between _ _ _) hstarts (by decide)
    · exact (advances_between hae.nonGrowing _ _).orElse (advances_function has hae)
  · exact (advances_number.map _).orElse <|
      (advances_between hae.nonGrowing _ _).orElse (advances_function has hae)

include hs he in
theorem predictive_access : Predictive (n + 1) [] []
    (orElse (dotAccess anyStatement anyExpression) (indexAccess anyExpression)) := by
  have hproperty : Predictive n [] [] (property anyStatement anyExpression) :=
    ((predictive_primary hs he).mono (Nat.le_succ n) (List.Subset.refl _)).settled
      (fun _ => .pure _ (List.Subset.refl _)) (List.Subset.refl _)
  have hdot : Predictive (n + 1) [] [] (dotAccess anyStatement anyExpression) :=
    .judged (judges_dotAccess advances_anyStatement advances_anyExpression) (by decide)
      refusedBy_dotAccess (fun _ => hproperty) ends_dotAccess
  exact hdot.orElse ((predictive_between he (by decide) (by decide)).map _)
    (advances_indexAccess advances_anyExpression) (starts_dotAccess _ _) (starts_indexAccess _)
    (by decide)

include hs he in
theorem predictive_call :
    Predictive (n + 1) [] Symbol.expression.more (call anyStatement anyExpression) := by
  have has := advances_anyStatement
  have hae := advances_anyExpression
  have haccess := (predictive_access hs he).more (List.nil_subset Symbol.expression.more)
  have harguments := (predictive_arguments he).more (List.nil_subset Symbol.expression.more)
  have hmember : Predictive (n + 1) [] Symbol.expression.more
      (member anyStatement anyExpression) :=
    (predictive_primary hs he).bind fun _ =>
      (haccess.many (advances_access has hae)
        ((starts_dotAccess _ _).orElse (starts_indexAccess _)) (by decide)
        (List.nil_subset _)).bind fun _ => .pure _ (List.Subset.refl _)
  exact hmember.bind fun _ => (harguments.many (advances_arguments hae) (starts_between _ _ _)
    (by decide) (List.Subset.refl _)).bind fun _ => .pure _ (List.Subset.refl _)

theorem predictive_chain {operand : Parser Expr} {op : Operator} {ops : List Operator}
    (h : Predictive n [] Symbol.expression.more operand) (hadv : Advances operand) :
    Predictive n [] Symbol.expression.more (chain (op :: ops) operand) := by
  have hoperation : Predictive n [] Symbol.expression.more (operation (op :: ops) operand) :=
    (Predictive.operator (by simp)).bind fun _ => h.bind fun _ => .pure _ (List.Subset.refl _)
  exact h.bind fun _ => (hoperation.many (advances_operation hadv _) (starts_operation _ _)
    (by decide) (List.Subset.refl _)).bind fun _ => .pure _ (List.Subset.refl _)

include he in
theorem predictive_entry : Predictive n [] Symbol.entry.more (entry anyExpression) := by
  have he : Predictive n [] Symbol.entry.more anyExpression := he.more (by decide)
  refine predictive_name.bind fun key => ?_
  refine ((predictive_marked he (by decide) (by decide) (List.nil_subset _)).mono (Nat.le_succ n)
    (List.Subset.refl _)).bind fun value => ?_
  cases value <;> exact .pure _ (List.Subset.refl _)

include he in
theorem predictive_object : Predictive (n + 1) [] [] (object anyExpression) := by
  have hentry := predictive_entry he
  have hadv := (advances_entry advances_anyExpression).nonGrowing
  have hentries := (hentry.bind fun first => (predictive_manyTrailing hentry hadv).bind fun more =>
    .pure (first :: more) (List.Subset.refl _)).more (List.subset_append_left _
      Symbol.entry.firsts)
  have hlist : Predictive n [] (.comma :: Symbol.entry.more ++ Symbol.entry.firsts)
      (separated (entry anyExpression) .comma true) := by
    rw [separated_trailing_eq hadv]
    exact (hentries.optional ((((Starts.token .identifier).bind _).bind _).bind _)
      (List.subset_append_right _ _) (List.nil_subset _)).map _
  exact (predictive_between hlist (by decide) (by decide)).map _

include hs he in
theorem predictive_expressionLayer : Predictive (n + 1) [] Symbol.expression.more
    (expressionLayer anyStatement anyExpression) := by
  have has := advances_anyStatement
  have hae := advances_anyExpression
  have hproduct : Predictive (n + 1) [] Symbol.expression.more
      (product anyStatement anyExpression) :=
    predictive_chain (predictive_call hs he) (advances_call has hae)
  have hsum : Predictive (n + 1) [] Symbol.expression.more (sum anyStatement anyExpression) :=
    predictive_chain hproduct (advances_product has hae)
  have hobject := (predictive_object he).more (List.nil_subset Symbol.expression.more)
  refine (hobject.orElse hsum (advances_sum has hae) (starts_object _) (starts_sum _ _)
    (by decide)).bind fun target => ?_
  refine (predictive_marked he (by decide) (by decide) (List.Subset.refl _)).bind fun value => ?_
  cases value <;> exact .pure _ (List.Subset.refl _)

include he in
theorem predictive_statementLayer :
    Predictive n [] Symbol.statement.more (statementLayer anyExpression) := by
  have hae := advances_anyExpression
  have hmarked : Predictive n [] Symbol.expression.more
      (optional (token .equals *> anyExpression)) :=
    (predictive_marked he (by decide) (by decide) (List.nil_subset _)).mono (Nat.le_succ n)
      (List.Subset.refl _)
  have hsemicolon : Predictive n Symbol.expression.more [] (token .semicolon) :=
    .token (by decide) (by decide)
  have hlet : Predictive n [] [] (letStatement anyExpression) :=
    (Predictive.token (by simp) (by decide)).bind fun _ => predictive_name.bind fun _ =>
      hmarked.bind fun _ => hsemicolon.bind fun _ => .pure _ (List.Subset.refl _)
  have hconst : Predictive n [] [] (constStatement anyExpression) :=
    (Predictive.token (by simp) (by decide)).bind fun _ => predictive_name.bind fun _ =>
      (Predictive.token (by simp) (by decide)).bind fun _ => he.bind fun _ =>
        hsemicolon.bind fun _ => .pure _ (List.Subset.refl _)
  have hended : Predictive n Symbol.statement.more Symbol.statement.more
      (optional (token .semicolon)) := by
    have hsemicolon : Predictive n [] Symbol.statement.more (token .semicolon) :=
      .token (by simp) (by decide)
    exact hsemicolon.optional (Starts.token _) (by decide) (List.Subset.refl _)
  have hexpression : Predictive n [] Symbol.statement.more (expressionStatement anyExpression) :=
    (he.more (by decide)).bind fun _ => hended.bind fun _ => .pure _ (List.Subset.refl _)
  refine (hlet.more (List.nil_subset _)).orElse ((hconst.more (List.nil_subset _)).orElse
    hexpression (advances_expressionStatement hae) (starts_constStatement _)
      (starts_anyExpression.bind _) (by decide)) ?_ (starts_letStatement _)
        ((starts_constStatement _).orElse (starts_anyExpression.bind _)) (by decide)
  exact (advances_constStatement hae).orElse (advances_expressionStatement hae)

/-- **Statements and expressions predict.** -/
theorem predictive_any (n : Nat) : Predictive n [] Symbol.statement.more anyStatement ∧
    Predictive n [] Symbol.expression.more anyExpression := by
  induction n with
  | zero =>
      exact ⟨.zero ends_anyStatement, .zero ends_anyExpression⟩
  | succ n ih =>
      -- a layer reads a token before it comes back to statements and expressions
      have he : Predictive (n + 1) [] Symbol.expression.more anyExpression := by
        rw [anyExpression_eq]
        exact predictive_expressionLayer ih.1 ih.2
      refine ⟨?_, he⟩
      rw [anyStatement_eq]
      exact predictive_statementLayer he

/-- A repetition of statements predicts. -/
theorem predictive_statements (n : Nat) :
    Predictive n [] Symbol.statements.goesOn (many anyStatement) :=
  ((predictive_any n).1.more (by decide)).many advances_anyStatement starts_anyStatement
    (by decide) (List.nil_subset _)

end Rules

end Grammar

end Scriptlet
