/-
**What a report says about the tokens.**

A report stands at one of the tokens that were given, or behind them.  A report of an unexpected
token is about the token where it stands; it lists something that could stand there, and nothing
that the token is.

No parser gets past a few tokens on its way to a report.  These are the end of the input, which only
a program reads, and a point or the word of a function behind which the parse fails with a
complaint of its own: only one parser reads such a token, and that one complains.

Main definitions:

* `Scriptlet.Grammar.Refused`, `Scriptlet.Grammar.Barrier` — what is complained about, and all that
  no parser gets past;
* `Scriptlet.Report.Fits` — **what a report on some tokens says about them**;
* `Scriptlet.Parser.Within`, `Scriptlet.Parser.Guarded` — runs whose reports stand on the tokens,
  and runs whose reports fit them;
* `Scriptlet.Parser.Judges` — a parser that refuses some of what another one reads.

Main results:

* `Scriptlet.Parser.WithinBelow.bind`, `Scriptlet.Parser.GuardedBelow.bind` — the steps of a parser
  hand these properties on.
-/

import Scriptlet.Proofs.Syntax.Reported

set_option relaxedAutoImplicit false
set_option autoImplicit false

namespace Scriptlet

namespace Grammar

open Scriptlet.Parser

/-! ### Barriers -/

/-- The parser reads what it should, and complains about it. -/
def Refuses {α : Type} (p : Parser α) (eoi : Nat) (tokens : List Token) : Prop :=
  ∃ report, p eoi (.ofList tokens) = .error report ∧ report.complaint.Own

/-- An access or a function that is complained about. -/
def Refused (eoi : Nat) (tokens : List Token) : Prop :=
  (headKind tokens = some .dot ∧ Refuses (dotAccess anyStatement anyExpression) eoi tokens) ∨
    (headKind tokens = some .fnWord ∧ Refuses (function anyStatement anyExpression) eoi tokens)

/-- The parser is the one that refuses what is complained about behind a kind of token. -/
def RefusedBy {α : Type} (kind : Token.Kind) (p : Parser α) : Prop :=
  ∀ eoi tokens, headKind tokens = some kind → (Refused eoi tokens ↔ Refuses p eoi tokens)

theorem refusedBy_dotAccess : RefusedBy .dot (dotAccess anyStatement anyExpression) := by
  intro eoi tokens hhead
  rw [Refused, hhead]
  exact ⟨fun h => h.elim And.right fun h => (by cases h.1), fun h => Or.inl ⟨rfl, h⟩⟩

theorem refusedBy_function : RefusedBy .fnWord (function anyStatement anyExpression) := by
  intro eoi tokens hhead
  rw [Refused, hhead]
  exact ⟨fun h => h.elim (fun h => (by cases h.1)) And.right, fun h => Or.inr ⟨rfl, h⟩⟩

/-- Tokens that no parser gets past: the end of the input, and what is complained about. -/
def Barrier (eoi : Nat) (tokens : List Token) : Prop :=
  headKind tokens = some .endOfInput ∨ Refused eoi tokens

/-- The kinds of tokens that a barrier begins with. -/
def barrierKinds : List Token.Kind := [.endOfInput, .dot, .fnWord]

theorem Barrier.exists_kind {eoi : Nat} {tokens : List Token} (h : Barrier eoi tokens) :
    ∃ kind ∈ barrierKinds, headKind tokens = some kind := by
  rcases h with h | ⟨h, -⟩ | ⟨h, -⟩ <;> exact ⟨_, by simp [barrierKinds], h⟩

/-- What is complained about does not begin with the end of the input. -/
theorem Refused.headKind_ne {eoi : Nat} {tokens : List Token} (h : Refused eoi tokens) :
    headKind tokens ≠ some .endOfInput := by
  rcases h with ⟨h, -⟩ | ⟨h, -⟩ <;> rw [h] <;> decide

/-- A barrier behind a token that begins none. -/
theorem Barrier.suffix_of_cons {eoi : Nat} {tok : Token} {tokens barrier : List Token}
    (h : Barrier eoi barrier) (hsuffix : barrier <:+ tok :: tokens)
    (htok : tok.kind ∉ barrierKinds) : barrier <:+ tokens := by
  rcases List.suffix_cons_iff.1 hsuffix with rfl | hsuffix
  · obtain ⟨kind, hkind, hhead⟩ := h.exists_kind
    cases hhead
    exact absurd hkind htok
  · exact hsuffix

end Grammar

/-! ### What reports say -/

open Grammar (Barrier barrierKinds)

/-- A report on some tokens: it stands at a barrier at the latest, or is a complaint; and what it
expects at a token, the token is not. -/
structure Report.Fits (eoi : Nat) (tokens : List Token) (report : Report) : Prop where
  /-- No report but a complaint gets past a barrier. -/
  barrier : ∀ barrier, Barrier eoi barrier → barrier <:+ tokens →
    barrier.length ≤ report.left ∨ report.complaint.Own
  /-- The token at which the report stands is not what is expected there. -/
  unwanted : ∀ tok rest, tok :: rest <:+ tokens → report.left = rest.length + 1 →
    ∀ e ∈ report.expected, ¬ e.Wants tok
  /-- An unexpected token is the one at which the report stands. -/
  found : ∀ tok rest, tok :: rest <:+ tokens → report.left = rest.length + 1 →
    report.complaint = .unexpected →
      report.found = some tok ∧ report.span = tok.span ∧ report.expected ≠ []

namespace Report.Fits

variable {eoi : Nat} {tokens rest : List Token}

theorem furthest (a b : Report) (ha : Fits eoi tokens a) (hb : Fits eoi tokens b) :
    Fits eoi tokens (a.furthest b) where
  barrier := by
    intro barrier hbarrier hsuffix
    have ha := ha.barrier barrier hbarrier hsuffix
    have hb := hb.barrier barrier hbarrier hsuffix
    rcases furthest_cases a b with ⟨expected, h, -⟩ | ⟨expected, h, -⟩ <;> rw [h] <;> assumption
  unwanted := by
    intro tok more hsuffix hleft e he
    rw [furthest_left] at hleft
    rcases mem_expected_furthest.1 he with ⟨he, hle⟩ | ⟨he, hle⟩
    · exact ha.unwanted tok more hsuffix (by omega) e he
    · exact hb.unwanted tok more hsuffix (by omega) e he
  found := by
    intro tok more hsuffix hleft hcomplaint
    have hsub : ∀ e, e ∈ (a.furthest b).expected → (a.furthest b).expected ≠ [] :=
      fun e he hnil => by rw [hnil] at he; cases he
    rcases furthest_cases a b with ⟨expected, h, hle⟩ | ⟨expected, h, hle⟩
    · rw [h] at hleft hcomplaint
      obtain ⟨hfound, hspan, hne⟩ := ha.found tok more hsuffix hleft hcomplaint
      obtain ⟨e, he⟩ := List.exists_mem_of_ne_nil _ hne
      have hne := hsub e (mem_expected_furthest.2 (Or.inl ⟨he, hle⟩))
      rw [h] at hne ⊢
      exact ⟨hfound, hspan, hne⟩
    · rw [h] at hleft hcomplaint
      obtain ⟨hfound, hspan, hne⟩ := hb.found tok more hsuffix hleft hcomplaint
      obtain ⟨e, he⟩ := List.exists_mem_of_ne_nil _ hne
      have hne := hsub e (mem_expected_furthest.2 (Or.inr ⟨he, hle⟩))
      rw [h] at hne ⊢
      exact ⟨hfound, hspan, hne⟩

/-- A report that expects nothing, since it is about something that was read. -/
theorem of_complaint {report : Report}
    (hbarrier : ∀ barrier, Barrier eoi barrier → barrier <:+ tokens →
      barrier.length ≤ report.left ∨ report.complaint.Own)
    (hexpected : report.expected = []) (hcomplaint : report.complaint ≠ .unexpected) :
    Fits eoi tokens report where
  barrier := hbarrier
  unwanted := by
    intro tok more _ _ e he
    rw [hexpected] at he
    cases he
  found := fun _ _ _ _ h => absurd h hcomplaint

/-- A report on the tokens behind those that were read, unless a barrier was and it is a
complaint. -/
theorem of_suffix {report : Report} (h : Fits eoi rest report) (hle : report.left ≤ rest.length)
    (hrest : rest <:+ tokens)
    (hkeeps : ∀ barrier, Barrier eoi barrier → barrier <:+ tokens →
      barrier <:+ rest ∨ report.complaint.Own) : Fits eoi tokens report where
  barrier barrier hbarrier hsuffix := by
    rcases hkeeps barrier hbarrier hsuffix with hrest | hown
    · exact h.barrier barrier hbarrier hrest
    · exact Or.inr hown
  unwanted tok more hsuffix hleft :=
    h.unwanted tok more (List.suffix_of_suffix_length_le hsuffix hrest (by simp; omega)) hleft
  found tok more hsuffix hleft :=
    h.found tok more (List.suffix_of_suffix_length_le hsuffix hrest (by simp; omega)) hleft

end Report.Fits

namespace Parser

variable {α β : Type}

/-! ### Where reports stand -/

/-- A run on some tokens reports something about them, and leaves an end of them. -/
structure Within (tokens : List Token) (outcome : Except Report (Parsed α)) : Prop where
  /-- The report stands at a token or behind all of them. -/
  left_le : ∀ report ∈ reported outcome, report.left ≤ tokens.length
  /-- What is left is what is behind the tokens that were read. -/
  suffix : ∀ value rest missed, outcome = .ok ⟨value, .ofList rest, missed⟩ → rest <:+ tokens

/-- On inputs of fewer than `n` tokens, the runs of the parser are within their inputs. -/
def WithinBelow (n : Nat) (p : Parser α) : Prop :=
  ∀ eoi tokens, tokens.length < n → Within tokens (p eoi (.ofList tokens))

/-- What is left behind a short run, and the value of it, are so that something holds of them. -/
def Behind (n : Nat) (p : Parser α) (Q : Nat → α → Prop) : Prop :=
  ∀ eoi tokens value rest missed, tokens.length < n →
    p eoi (.ofList tokens) = .ok ⟨value, .ofList rest, missed⟩ → Q (rest.length + 1) value

/-- A failure leaves nothing. -/
theorem Within.error {tokens : List Token} {report : Report} (hleft : report.left ≤ tokens.length) :
    Within tokens (.error report : Except Report (Parsed α)) where
  left_le := by
    rintro report' ⟨⟩
    exact hleft
  suffix := by
    intro value rest missed h
    cases h

theorem Within.keep {tokens rest : List Token} {value : α} {missed : Option Report}
    {outcome : Except Report (Parsed β)} (h : Within tokens (.ok ⟨value, .ofList rest, missed⟩))
    (hmore : Within rest outcome) : Within tokens (keep missed outcome) where
  left_le := by
    have hrest := h.suffix _ _ _ rfl
    rw [reported_keep]
    refine Report.merge_forall (fun a b ha hb => ?_) h.left_le fun report hreport => ?_
    · rw [Report.furthest_left]
      omega
    · exact Nat.le_trans (hmore.left_le report hreport) hrest.length_le
  suffix := by
    intro value' rest' missed' heq
    obtain ⟨missed'', heq⟩ := keep_eq_ok heq
    exact (hmore.suffix _ _ _ heq).trans (h.suffix _ _ _ rfl)

namespace WithinBelow

variable {n : Nat}

theorem pure (value : α) : WithinBelow n (pure value) := by
  intro eoi tokens _
  refine ⟨fun report h => ?_, ?_⟩
  · cases h
  · rintro value rest missed ⟨⟩
    exact List.suffix_refl _

theorem satisfy (use : Token → Option α) (expected : List Expectation) :
    WithinBelow n (satisfy use expected) := by
  intro eoi tokens _
  cases hp : Parser.satisfy use expected eoi (.ofList tokens) with
  | error report =>
      exact .error (Nat.le_of_eq (by rw [satisfy_eq_error hp, unexpected_left]))
  | ok result =>
      obtain ⟨tok, tokens', value, htokens, -, rfl⟩ := satisfy_eq_ok hp
      cases htokens
      refine ⟨fun report h => ?_, ?_⟩
      · cases h
      · rintro value' rest missed ⟨⟩
        exact List.suffix_cons _ _

theorem finish : WithinBelow n finish := by
  rintro eoi ⟨⟩ _
  · exact pure () eoi [] (Nat.lt_succ_self 0)
  · exact .error (Nat.le_refl _)

theorem bind {p : Parser α} {f : α → Parser β} (hp : WithinBelow n p)
    (hf : Behind n p fun m value => WithinBelow m (f value)) : WithinBelow n (p >>= f) := by
  intro eoi tokens hn
  have hrun := hp eoi tokens hn
  rcases bind_cases p f eoi tokens with ⟨report, h₁, h₂⟩ | ⟨value, rest, missed, h₁, h₂⟩
  · rw [h₁] at hrun
    exact h₂ ▸ .error (hrun.left_le report rfl)
  · rw [h₁] at hrun
    exact h₂ ▸ hrun.keep (hf eoi tokens value rest missed hn h₁ eoi rest (Nat.lt_succ_self _))

end WithinBelow

/-! ### Parsers that judge -/

/-- The parser `p` takes what `q` reads, and refuses what `q` reads with a complaint. -/
def Judges (q : Parser (Except Complaint β)) (p : Parser β) : Prop :=
  ∀ eoi tokens,
    (∃ report, q eoi (.ofList tokens) = .error report ∧ p eoi (.ofList tokens) = .error report) ∨
    (∃ value rest missed, q eoi (.ofList tokens) = .ok ⟨.ok value, .ofList rest, missed⟩ ∧
      p eoi (.ofList tokens) = .ok ⟨value, .ofList rest, missed⟩) ∨
    ∃ complaint rest missed report,
      q eoi (.ofList tokens) = .ok ⟨.error complaint, .ofList rest, missed⟩ ∧
        p eoi (.ofList tokens) = .error report ∧ report.complaint.Own ∧
          report.left < tokens.length ∧ report.expected = []

theorem Judges.error_of_headKind {kind : Token.Kind} {f : Token → Parser (Except Complaint β)}
    {p : Parser β} (hp : Judges (token kind >>= f) p) {tokens : List Token}
    (h : headKind tokens ≠ some kind) (eoi : Nat) :
    p eoi (.ofList tokens) = .error (unexpected eoi (.ofList tokens) [.kind kind]) := by
  have hq : (token kind >>= f) eoi (.ofList tokens) = .error _ :=
    bind_of_error (token_of_headKind_ne h)
  rcases hp eoi tokens with ⟨report, hq', hp⟩ | ⟨value, rest, missed, hq', -⟩ |
      ⟨complaint, rest, missed, report, hq', -⟩ <;> rw [hq] at hq'
  · rw [hp, Except.error.inj hq']
  · cases hq'
  · cases hq'

/-- What a judging parser refuses behind the first token begins with its token. -/
theorem Judges.headKind_eq {kind : Token.Kind} {f : Token → Parser (Except Complaint β)}
    {p : Parser β} (hp : Judges (token kind >>= f) p) {eoi : Nat} {tokens : List Token}
    {report : Report} (h : p eoi (.ofList tokens) = .error report)
    (hleft : report.left < tokens.length) : headKind tokens = some kind := by
  refine Classical.byContradiction fun hne => ?_
  rw [hp.error_of_headKind hne, Except.error.injEq] at h
  rw [← h, unexpected_left] at hleft
  exact Nat.lt_irrefl _ hleft

/-! ### What is said there -/

/-- A run on some tokens reports what fits them, and reads no barrier. -/
structure Guarded (eoi : Nat) (tokens : List Token) (outcome : Except Report (Parsed α)) : Prop
    extends Within tokens outcome where
  /-- The report fits the tokens. -/
  fits : ∀ report ∈ reported outcome, report.Fits eoi tokens
  /-- A barrier is left. -/
  keeps : ∀ value rest missed, outcome = .ok ⟨value, .ofList rest, missed⟩ →
    ∀ barrier, Barrier eoi barrier → barrier <:+ tokens → barrier <:+ rest

/-- On inputs of fewer than `n` tokens, the runs of the parser are guarded. -/
def GuardedBelow (n : Nat) (p : Parser α) : Prop :=
  ∀ eoi tokens, tokens.length < n → Guarded eoi tokens (p eoi (.ofList tokens))

theorem fits_unexpected {eoi : Nat} {tokens : List Token} {expected : List Expectation}
    (hwants : ∀ tok rest, tokens = tok :: rest → ∀ e ∈ expected, ¬ e.Wants tok)
    (hne : expected ≠ []) : (unexpected eoi (.ofList tokens) expected).Fits eoi tokens := by
  -- a report of this kind stands at the first token
  have hfirst : ∀ tok rest, tok :: rest <:+ tokens →
      (unexpected eoi (.ofList tokens) expected).left = rest.length + 1 → tokens = tok :: rest := by
    intro tok rest hsuffix hleft
    rw [unexpected_left] at hleft
    exact (hsuffix.eq_of_length (by simp [hleft])).symm
  refine ⟨fun barrier _ hsuffix => Or.inl ?_, fun tok rest hsuffix hleft => ?_,
    fun tok rest hsuffix hleft _ => ?_⟩
  · rw [unexpected_left]
    exact hsuffix.length_le
  · obtain rfl := hfirst tok rest hsuffix hleft
    exact hwants tok rest rfl
  · obtain rfl := hfirst tok rest hsuffix hleft
    exact ⟨rfl, rfl, hne⟩

namespace Guarded

variable {eoi : Nat} {tokens rest : List Token}

theorem error {report : Report} (hleft : report.left ≤ tokens.length)
    (hfits : report.Fits eoi tokens) :
    Guarded eoi tokens (.error report : Except Report (Parsed α)) where
  toWithin := .error hleft
  fits := by
    rintro report' ⟨⟩
    exact hfits
  keeps := by
    intro value rest missed h
    cases h

/-- A failure is passed on. -/
theorem rethrow {report : Report}
    (h : Guarded eoi tokens (.error report : Except Report (Parsed α))) :
    Guarded eoi tokens (.error report : Except Report (Parsed β)) :=
  error (h.left_le _ rfl) (h.fits _ rfl)

/-- A value is replaced. -/
theorem revalue {value : α} {value' : β} {left : List Token} {missed : Option Report}
    (h : Guarded eoi tokens (.ok ⟨value, .ofList left, missed⟩)) :
    Guarded eoi tokens (.ok ⟨value', .ofList left, missed⟩) where
  left_le := h.left_le
  suffix := by
    rintro value'' rest missed' ⟨⟩
    exact h.suffix _ _ _ rfl
  fits := h.fits
  keeps := by
    rintro value'' rest missed' ⟨⟩
    exact h.keeps _ _ _ rfl

theorem keep {value : α} {missed : Option Report} {outcome : Except Report (Parsed β)}
    (h : Guarded eoi tokens (.ok ⟨value, .ofList rest, missed⟩))
    (hmore : Guarded eoi rest outcome) : Guarded eoi tokens (keep missed outcome) where
  toWithin := h.toWithin.keep hmore.toWithin
  fits := by
    rw [reported_keep]
    refine Report.merge_forall Report.Fits.furthest h.fits fun report hreport => ?_
    exact (hmore.fits report hreport).of_suffix (hmore.left_le report hreport)
      (h.suffix _ _ _ rfl) fun barrier hb hs => Or.inl (h.keeps _ _ _ rfl barrier hb hs)
  keeps := by
    intro value' rest' missed' heq barrier hbarrier hsuffix
    obtain ⟨missed'', heq⟩ := keep_eq_ok heq
    exact hmore.keeps _ _ _ heq barrier hbarrier (h.keeps _ _ _ rfl barrier hbarrier hsuffix)

/-- A run behind the first token, which begins no barrier that is read. -/
theorem behind {tok : Token} {outcome : Except Report (Parsed α)} (h : Guarded eoi rest outcome)
    (hkeeps : ∀ barrier, Barrier eoi barrier → barrier <:+ tok :: rest → barrier <:+ rest) :
    Guarded eoi (tok :: rest) outcome where
  left_le := fun report hreport => Nat.le_succ_of_le (h.left_le report hreport)
  suffix := by
    intro value rest' missed heq
    exact (h.suffix _ _ _ heq).trans (List.suffix_cons _ _)
  fits := by
    intro report hreport
    exact (h.fits report hreport).of_suffix (h.left_le report hreport) (List.suffix_cons _ _)
      fun barrier hb hs => Or.inl (hkeeps barrier hb hs)
  keeps := by
    intro value rest' missed heq barrier hb hs
    exact h.keeps _ _ _ heq barrier hb (hkeeps barrier hb hs)

/-- A token of another kind is unexpected. -/
theorem of_headKind_ne {kind : Token.Kind} (h : headKind tokens ≠ some kind) :
    Guarded eoi tokens
      (.error (unexpected eoi (.ofList tokens) [.kind kind]) : Except Report (Parsed α)) := by
  refine error (Nat.le_of_eq (unexpected_left _ _ _)) (fits_unexpected ?_ (by simp))
  rintro tok rest rfl e he hwants
  rw [List.mem_singleton.1 he] at hwants
  exact h (congrArg some hwants.1)

/-- A run that reads nothing more than another one. -/
theorem remember {value : β} {report : Option Report} {outcome : Except Report (Parsed α)}
    (h : Guarded eoi tokens outcome) (hreport : reported outcome = report) :
    Guarded eoi tokens (.ok ⟨value, .ofList tokens, report⟩) where
  left_le := hreport ▸ h.left_le
  suffix := by
    rintro value' rest missed ⟨⟩
    exact List.suffix_refl _
  fits := hreport ▸ h.fits
  keeps := by
    rintro value' rest missed ⟨⟩ barrier _ hsuffix
    exact hsuffix

end Guarded

namespace GuardedBelow

variable {n m : Nat}

theorem within {p : Parser α} (h : GuardedBelow n p) : WithinBelow n p :=
  fun eoi tokens hn => (h eoi tokens hn).toWithin

theorem mono {p : Parser α} (h : GuardedBelow n p) (hm : m ≤ n) : GuardedBelow m p :=
  fun eoi tokens hn => h eoi tokens (by omega)

theorem pure (value : α) : GuardedBelow n (pure value) := by
  intro eoi tokens hn
  refine ⟨WithinBelow.pure value eoi tokens hn, fun report h => ?_, ?_⟩
  · cases h
  · rintro value' rest missed ⟨⟩ barrier _ hsuffix
    exact hsuffix

theorem satisfy {use : Token → Option α} {expected : List Expectation}
    (hkind : ∀ tok value, use tok = some value → tok.kind ∉ barrierKinds)
    (hwants : ∀ tok, use tok = none → ∀ e ∈ expected, ¬ e.Wants tok) (hne : expected ≠ []) :
    GuardedBelow n (satisfy use expected) := by
  intro eoi tokens hn
  have hwithin := WithinBelow.satisfy use expected eoi tokens hn
  cases hp : Parser.satisfy use expected eoi (.ofList tokens) with
  | error report =>
      refine .error (hwithin.left_le _ (by rw [hp]; rfl)) ?_
      rw [satisfy_eq_error hp]
      refine fits_unexpected ?_ hne
      rintro tok rest rfl
      refine hwants tok ?_
      cases hu : use tok with
      | none => rfl
      | some value => rw [satisfy_of_some hu] at hp; cases hp
  | ok result =>
      rw [hp] at hwithin
      obtain ⟨tok, tokens', value, htokens, hu, rfl⟩ := satisfy_eq_ok hp
      cases htokens
      refine ⟨hwithin, fun report h => ?_, ?_⟩
      · cases h
      · rintro value' rest missed ⟨⟩ barrier hbarrier hsuffix
        exact hbarrier.suffix_of_cons hsuffix (hkind tok value hu)

theorem token {kind : Token.Kind} (hkind : kind ∉ .operator :: barrierKinds) :
    GuardedBelow n (token kind) := by
  refine .satisfy (fun tok value h => ?_) (fun tok h e he hwants => ?_) (by simp)
  · split at h
    · next htok => exact fun hmem => hkind (List.mem_cons_of_mem _ (htok ▸ hmem))
    · cases h
  · rw [List.mem_singleton.1 he] at hwants
    simp [hwants.1] at h

theorem operator {allowed : List Operator} (hne : allowed ≠ []) :
    GuardedBelow n (operator allowed) := by
  refine .satisfy (fun tok op h => ?_) (fun tok h e he hwants => ?_) (by simpa using hne)
  · rw [Grammar.kind_of_operator? (Option.filter_eq_some_iff.1 h).1]
    decide
  · obtain ⟨op, hop, rfl⟩ := List.mem_map.1 he
    simp [show tok.operator? = some op from hwants, hop] at h

theorem bind {p : Parser α} {f : α → Parser β} (hp : GuardedBelow n p)
    (hf : Behind n p fun m value => GuardedBelow m (f value)) : GuardedBelow n (p >>= f) := by
  intro eoi tokens hn
  have hrun := hp eoi tokens hn
  rcases bind_cases p f eoi tokens with ⟨report, h₁, h₂⟩ | ⟨value, rest, missed, h₁, h₂⟩
  · rw [h₁] at hrun
    exact h₂ ▸ hrun.rethrow
  · rw [h₁] at hrun
    exact h₂ ▸ hrun.keep (hf eoi tokens value rest missed hn h₁ eoi rest (Nat.lt_succ_self _))

theorem orElse {p q : Parser α} (hp : GuardedBelow n p) (hq : GuardedBelow n q) :
    GuardedBelow n (orElse p q) := by
  intro eoi tokens hn
  have hrun := hp eoi tokens hn
  have hrun' := hq eoi tokens hn
  cases h₁ : p eoi (.ofList tokens) with
  | ok first => exact orElse_of_ok h₁ ▸ h₁ ▸ hrun
  | error a =>
      rw [h₁] at hrun
      cases h₂ : q eoi (.ofList tokens) with
      | ok second => exact orElse_of_error h₁ h₂ ▸ h₂ ▸ hrun'
      | error b =>
          rw [h₂] at hrun'
          rw [orElse_of_errors h₁ h₂]
          refine .error ?_ (.furthest _ _ (hrun.fits _ rfl) (hrun'.fits _ rfl))
          have := hrun.left_le _ rfl
          rw [Report.furthest_left]
          omega

theorem optional {p : Parser α} (hp : GuardedBelow n p) : GuardedBelow n (optional p) := by
  intro eoi tokens hn
  have hrun := hp eoi tokens hn
  rcases run_cases p eoi tokens with ⟨report, h⟩ | ⟨value, rest, missed, h⟩
  · exact optional_of_error h ▸ hrun.remember (by rw [h]; rfl)
  · rw [h] at hrun
    have hpure : GuardedBelow (rest.length + 1) (Pure.pure (some value)) := .pure _
    have hkeep := hrun.keep (hpure eoi rest (Nat.lt_succ_self _))
    rw [pure_def, keep_ok, Report.merge_none] at hkeep
    exact optional_of_ok h ▸ hkeep

theorem number : GuardedBelow n Grammar.number := by
  intro eoi tokens _
  by_cases hhead : headKind tokens = some .number
  · cases tokens with
    | nil => cases hhead
    | cons tok rest =>
        have htok : tok.kind = .number := Option.some_inj.1 hhead
        rw [Grammar.number_of_kind htok]
        refine .behind ?_ fun barrier hbarrier hsuffix =>
          hbarrier.suffix_of_cons hsuffix (htok ▸ by decide)
        cases Number.read tok.text with
        | some x => exact pure x eoi rest (Nat.lt_succ_self _)
        | none =>
            exact .error (Nat.le_refl _)
              (.of_complaint (fun barrier _ hs => Or.inl hs.length_le) rfl Complaint.noConfusion)
  · exact Grammar.number_of_headKind_ne hhead ▸ .of_headKind_ne hhead

/-- A parser that judges what is behind a token. -/
theorem judged {kind : Token.Kind} {f : Token → Parser (Except Complaint β)} {p : Parser β}
    (hp : Judges (Parser.token kind >>= f) p) (hkind : kind ≠ .endOfInput)
    (hrefused : Grammar.RefusedBy kind p) (hf : ∀ tok, GuardedBelow n (f tok)) :
    GuardedBelow (n + 1) p := by
  intro eoi tokens hn
  by_cases hhead : headKind tokens = some kind
  · obtain ⟨tok, rest, rfl, htok⟩ : ∃ tok rest, tokens = tok :: rest ∧ tok.kind = kind := by
      cases tokens with
      | nil => cases hhead
      | cons tok rest => exact ⟨tok, rest, rfl, Option.some_inj.1 hhead⟩
    -- a barrier at the first token is one that `p` itself complains about
    have hbarrier : ∀ barrier, Barrier eoi barrier → barrier <:+ tok :: rest →
        Grammar.Refuses p eoi (tok :: rest) ∨ barrier <:+ rest := by
      intro barrier hb hs
      rcases List.suffix_cons_iff.1 hs with rfl | hs
      · refine Or.inl ((hrefused eoi _ hhead).1 (hb.resolve_left fun hend => ?_))
        exact hkind (Option.some_inj.1 (hhead.symm.trans hend))
      · exact Or.inr hs
    have hrun := hf tok eoi rest (Nat.lt_of_succ_lt_succ hn)
    have hbind : (Parser.token kind >>= f) eoi (.ofList (tok :: rest))
        = f tok eoi (.ofList rest) := by rw [bind_of_ok (token_of_kind htok), keep_none]
    rcases hp eoi (tok :: rest) with ⟨report, hq, h⟩ | ⟨value, rest', missed, hq, h⟩ |
        ⟨complaint, rest', missed, report, hq, h, hown, hleft, hexpected⟩
    · rw [← hbind, hq] at hrun
      have hle := hrun.left_le _ rfl
      refine h ▸ .error (Nat.le_succ_of_le hle)
        ((hrun.fits _ rfl).of_suffix hle (List.suffix_cons _ _) fun barrier hb hs => ?_)
      rcases hbarrier barrier hb hs with ⟨report', h', hown⟩ | hs
      · rw [h, Except.error.injEq] at h'
        exact Or.inr (h' ▸ hown)
      · exact Or.inl hs
    · rw [← hbind, hq] at hrun
      refine h ▸ .behind hrun.revalue fun barrier hb hs => ?_
      rcases hbarrier barrier hb hs with ⟨report', h', -⟩ | hs
      · rw [h] at h'
        cases h'
      · exact hs
    · refine h ▸ .error (Nat.le_of_lt hleft)
        (.of_complaint (fun _ _ _ => Or.inr hown) hexpected fun hcomplaint => ?_)
      rw [hcomplaint] at hown
      exact hown.elim
  · exact hp.error_of_headKind hhead eoi ▸ .of_headKind_ne hhead

end GuardedBelow

end Parser

end Scriptlet
