/-
**What is expected can be gone on with.**

Whatever a run of a parser expects at some token can be put there, and there are tokens to go on
with behind it, so that the parser gets through, or something of its own is complained about.  A
step is completed with the tokens that bring it to its end and with others that bring the steps
behind it to theirs.

The tokens that end one step must not be taken for more of the step before it.  So each parser has a
list of kinds of tokens that it would go on with, and it gets through only in front of others.

Main definitions:

* `Scriptlet.Parser.Ends` — a parser gets through with tokens of its own, behind one that would go
  on with some kinds of tokens;
* `Scriptlet.Parser.Blocked`, `Scriptlet.Parser.Finishes` — a parser gets through, or something is
  complained about;
* `Scriptlet.Parser.Completable` — **what the parser expects can be gone on with**.

Main results:

* `Scriptlet.Parser.Completable.bind` — a sequence of steps goes on with what its steps expect.
-/

import Scriptlet.Proofs.Syntax.Steady

set_option relaxedAutoImplicit false
set_option autoImplicit false

namespace Scriptlet

theorem Clear.nil (kinds : List Token.Kind) : Clear kinds [] := fun _ _ h => by cases h

namespace Parser

variable {α β : Type}

/-! ### Ends -/

/-- Behind a parser that goes on with the kinds `after`, there are tokens off which the parser reads
a value, in front of all that it does not go on with itself. -/
def Ends (after kinds : List Token.Kind) (p : Parser α) : Prop :=
  ∃ tokens value, ∀ tail, Clear kinds tail →
    Clear after (tokens ++ tail) ∧ Reads p (tokens ++ tail) tail value

namespace Ends

variable {after mid kinds kinds' : List Token.Kind}

theorem pure (value : α) (h : after ⊆ kinds) : Ends after kinds (pure value) :=
  ⟨[], value, fun _ hclear => ⟨hclear.mono h, .pure value⟩⟩

theorem bind {p : Parser α} {f : α → Parser β} (hp : Ends after mid p)
    (hf : ∀ value, Ends mid kinds (f value)) : Ends after kinds (p >>= f) := by
  obtain ⟨tokens, value, hp⟩ := hp
  obtain ⟨tokens', value', hf⟩ := hf value
  refine ⟨tokens ++ tokens', value', fun tail hclear => ?_⟩
  obtain ⟨hmid, hreads'⟩ := hf tail hclear
  obtain ⟨hafter, hreads⟩ := hp _ hmid
  rw [List.append_assoc]
  exact ⟨hafter, hreads.bind hreads'⟩

theorem mono {p : Parser α} (h : Ends after kinds p) (hsub : kinds ⊆ kinds') :
    Ends after kinds' p :=
  let ⟨tokens, value, h⟩ := h
  ⟨tokens, value, fun tail hclear => h tail (hclear.mono hsub)⟩

/-- One token, of a kind that the parser in front does not go on with. -/
theorem one {p : Parser α} (tok : Token) {value : α} (hkind : tok.kind ∉ after)
    (h : ∀ tail, Reads p (tok :: tail) tail value) : Ends after kinds p :=
  ⟨[tok], value, fun tail _ => ⟨clear_cons rfl hkind, h tail⟩⟩

/-- Nothing, which the parser also reads. -/
theorem nothing {p : Parser α} {value : α} (hafter : after ⊆ kinds)
    (h : ∀ tokens, Clear kinds tokens → Reads p tokens tokens value) : Ends after kinds p :=
  ⟨[], value, fun tail hclear => ⟨hclear.mono hafter, h tail hclear⟩⟩

theorem token {kind : Token.Kind} (hkind : kind ∉ after) : Ends after kinds (token kind) :=
  one ⟨kind, "", ⟨0, 0⟩⟩ hkind fun _ => .token rfl

theorem orElse {p q : Parser α} (hp : Ends after kinds p) : Ends after kinds (orElse p q) :=
  let ⟨tokens, value, hp⟩ := hp
  ⟨tokens, value, fun tail hclear => (hp tail hclear).imp_right Reads.orElse_left⟩

theorem optional {p : Parser α} (hafter : after ⊆ kinds) (hp : Starts kinds' p)
    (hsub : kinds' ⊆ kinds) : Ends after kinds (optional p) :=
  nothing hafter fun _ hclear => .optional_none (hp.stops (hclear.mono hsub))

theorem many {p : Parser α} (hadv : Advances p) (hafter : after ⊆ kinds) (hp : Starts kinds' p)
    (hsub : kinds' ⊆ kinds) : Ends after kinds (many p) :=
  nothing hafter fun _ hclear => .many_nil hadv (hp.stops (hclear.mono hsub))

end Ends

/-! ### Getting through -/

/-- A run reports something behind what is complained about. -/
def Blocked (p : Parser α) (tokens : List Token) : Prop :=
  ∀ eoi, ∃ refused, Grammar.Refused eoi refused ∧ refused <:+ tokens ∧
    Report.Passes (reported (p eoi (.ofList tokens))) refused.length

/-- The parser reads a value off the tokens, in front of all that it does not go on with, or it is
blocked on them. -/
def Finishes (kinds : List Token.Kind) (p : Parser α) (tokens : List Token) : Prop :=
  (∃ value, ∀ tail, Clear kinds tail → Reads p (tokens ++ tail) tail value) ∨ Blocked p tokens

theorem Blocked.bind {p : Parser α} {tokens : List Token} (h : Blocked p tokens)
    (f : α → Parser β) : Blocked (p >>= f) tokens := by
  intro eoi
  obtain ⟨refused, hrefused, hsuffix, hpasses⟩ := h eoi
  refine ⟨refused, hrefused, hsuffix, ?_⟩
  rcases bind_cases p f eoi tokens with ⟨report, h₁, h₂⟩ | ⟨value, rest, missed, h₁, h₂⟩
  · rw [h₁] at hpasses
    exact h₂ ▸ hpasses
  · rw [h₁] at hpasses
    rw [h₂, reported_keep]
    exact Report.passes_merge.2 (Or.inl hpasses)

/-- What is blocked behind a step is blocked. -/
theorem Blocked.behind {p : Parser α} {f : α → Parser β} {tokens rest : List Token} {value : α}
    (hp : Reads p tokens rest value) (hsuffix : rest <:+ tokens) (h : Blocked (f value) rest) :
    Blocked (p >>= f) tokens := by
  intro eoi
  obtain ⟨missed, hp⟩ := hp eoi
  obtain ⟨refused, hrefused, hs, hpasses⟩ := h eoi
  refine ⟨refused, hrefused, hs.trans hsuffix, ?_⟩
  rw [reported_bind hp]
  exact Report.passes_merge.2 (Or.inr hpasses)

/-- A parser that is blocked starts with the first of the tokens. -/
theorem Blocked.exists_kind {kinds : List Token.Kind} {p : Parser α} {tokens : List Token}
    (h : Blocked p tokens) (hp : Starts kinds p) : ∃ kind ∈ kinds, headKind tokens = some kind := by
  obtain ⟨refused, -, hsuffix, report, hreport, hlt⟩ := h 0
  exact hp.exists_kind (Or.inr ⟨report, hreport, Nat.lt_of_lt_of_le hlt hsuffix.length_le⟩)

theorem Reads.exists_kind {kinds : List Token.Kind} {p : Parser α} {tokens rest : List Token}
    {value : α} (h : Reads p tokens rest value) (hp : Starts kinds p) :
    ∃ kind ∈ kinds, headKind tokens = some kind :=
  let ⟨_, h⟩ := h 0
  hp.exists_kind (Or.inl ⟨_, h⟩)

namespace Finishes

variable {mid kinds kinds' starts starts' : List Token.Kind} {tokens : List Token}

theorem mono {p : Parser α} (h : Finishes kinds p tokens) (hsub : kinds ⊆ kinds') :
    Finishes kinds' p tokens :=
  h.imp_left fun ⟨value, h⟩ => ⟨value, fun tail hclear => h tail (hclear.mono hsub)⟩

/-- A first step is finished by the tokens that end the steps behind it. -/
theorem bind {p : Parser α} {f : α → Parser β} (h : Finishes mid p tokens)
    (hf : ∀ value, Ends mid kinds (f value)) :
    ∃ more, Finishes kinds (p >>= f) (tokens ++ more) := by
  rcases h with ⟨value, h⟩ | h
  · obtain ⟨more, value', hf⟩ := hf value
    refine ⟨more, Or.inl ⟨value', fun tail hclear => ?_⟩⟩
    obtain ⟨hmid, hreads⟩ := hf tail hclear
    rw [List.append_assoc]
    exact (h _ hmid).bind hreads
  · exact ⟨[], Or.inr (by rw [List.append_nil]; exact h.bind f)⟩

theorem orElse_left {p q : Parser α} (h : Finishes kinds p tokens) (hp : Starts starts p)
    (hq : Starts starts' q) (hdisjoint : ∀ kind ∈ starts, kind ∉ starts') :
    Finishes kinds (orElse p q) tokens := by
  rcases h with ⟨value, h⟩ | h
  · exact Or.inl ⟨value, fun tail hclear => (h tail hclear).orElse_left⟩
  · refine Or.inr fun eoi => ?_
    obtain ⟨kind, hkind, hhead⟩ := h.exists_kind hp
    obtain ⟨b, hb⟩ := hq.stops (clear_of_headKind hhead (hdisjoint kind hkind)) eoi
    obtain ⟨refused, hrefused, hsuffix, hpasses⟩ := h eoi
    refine ⟨refused, hrefused, hsuffix, ?_⟩
    cases hrun : p eoi (.ofList tokens) with
    | ok first => rwa [orElse_of_ok hrun, ← hrun]
    | error a =>
        rw [hrun] at hpasses
        rw [orElse_of_errors hrun hb]
        exact (Report.passes_merge (b := some a) (a := some b)).2 (Or.inr hpasses)

theorem orElse_right {p q : Parser α} (h : Finishes kinds q tokens) (hp : Starts starts p)
    (hq : Starts starts' q) (hdisjoint : ∀ kind ∈ starts', kind ∉ starts) :
    Finishes kinds (orElse p q) tokens := by
  rcases h with ⟨value, h⟩ | h
  · refine Or.inl ⟨value, fun tail hclear => ?_⟩
    have hreads := h tail hclear
    obtain ⟨kind, hkind, hhead⟩ := hreads.exists_kind hq
    exact hreads.orElse_right (hp.stops (clear_of_headKind hhead (hdisjoint kind hkind)))
  · refine Or.inr fun eoi => ?_
    obtain ⟨kind, hkind, hhead⟩ := h.exists_kind hq
    obtain ⟨a, ha⟩ := hp.stops (clear_of_headKind hhead (hdisjoint kind hkind)) eoi
    obtain ⟨refused, hrefused, hsuffix, hpasses⟩ := h eoi
    refine ⟨refused, hrefused, hsuffix, ?_⟩
    cases hrun : q eoi (.ofList tokens) with
    | ok second => rwa [orElse_of_error ha hrun, ← hrun]
    | error b =>
        rw [hrun] at hpasses
        rw [orElse_of_errors ha hrun]
        exact (Report.passes_merge (b := some a) (a := some b)).2 (Or.inl hpasses)

theorem optional {p : Parser α} (h : Finishes kinds p tokens) :
    Finishes kinds (optional p) tokens := by
  rcases h with ⟨value, h⟩ | h
  · exact Or.inl ⟨some value, fun tail hclear => (h tail hclear).optional_some⟩
  · exact Or.inr fun eoi => by rw [reported_optional]; exact h eoi

end Finishes

/-! ### Going on with what is expected -/

/-- **What the parser expects at a token can be gone on with**, if nothing in front of the token is
complained about. -/
def Completable (n : Nat) (kinds : List Token.Kind) (p : Parser α) : Prop :=
  ∀ eoi front x xs e, (front ++ x :: xs).length < n → Unrefused eoi front (x :: xs) →
    Report.Lists (reported (p eoi (.ofList (front ++ x :: xs)))) (xs.length + 1) e →
      ∃ tok more, e.Wants tok ∧ Finishes kinds p (front ++ tok :: more)

/-- There is a number. -/
theorem exists_reads_number : ∃ value, ∀ tail,
    Reads Grammar.number (⟨.number, "0", ⟨0, 0⟩⟩ :: tail) tail value := by
  obtain ⟨value, hread⟩ : ∃ value, Number.read "0" = some value := ⟨_, rfl⟩
  exact ⟨value, fun tail eoi => ⟨none, by rw [Grammar.number_of_kind rfl, hread]⟩⟩

/-- A parser of one token expects something there only at the first token. -/
theorem eq_nil_of_lists {eoi : Nat} {front xs : List Token} {x : Token}
    {expected : List Expectation} {e : Expectation}
    (h : Report.Lists (some (unexpected eoi (.ofList (front ++ x :: xs)) expected))
      (xs.length + 1) e) : front = [] ∧ e ∈ expected := by
  rw [Report.lists_some, unexpected_left] at h
  obtain ⟨hleft, he⟩ := h
  have hfront : front = [] := by
    simp only [List.length_append, List.length_cons] at hleft
    exact List.length_eq_zero_iff.1 (by omega)
  subst hfront
  exact ⟨rfl, he⟩

namespace Completable

variable {n m : Nat} {mid kinds kinds' starts starts' : List Token.Kind}

theorem mono {p : Parser α} (h : Completable n kinds p) (hm : m ≤ n) (hsub : kinds ⊆ kinds') :
    Completable m kinds' p := by
  intro eoi front x xs e hn hclean hlists
  obtain ⟨tok, more, hwants, hfinishes⟩ := h eoi front x xs e (by omega) hclean hlists
  exact ⟨tok, more, hwants, hfinishes.mono hsub⟩

theorem pure (value : α) : Completable n kinds (pure value) :=
  fun _ _ _ _ e _ _ h => absurd h (Report.lists_none _ e)

theorem finish : Completable n kinds finish := by
  intro eoi front x xs e _ _ h
  cases front <;> exact absurd (Report.lists_some.1 h).2 (List.not_mem_nil)

theorem satisfy {use : Token → Option α} {expected : List Expectation}
    (h : ∀ e ∈ expected, ∃ tok value, e.Wants tok ∧ use tok = some value) :
    Completable n kinds (satisfy use expected) := by
  intro eoi front x xs e _ _ hlists
  cases hrun : Parser.satisfy use expected eoi (.ofList (front ++ x :: xs)) with
  | ok result =>
      obtain ⟨_, _, _, _, _, rfl⟩ := satisfy_eq_ok hrun
      rw [hrun] at hlists
      exact absurd hlists (Report.lists_none _ e)
  | error report =>
      rw [hrun, satisfy_eq_error hrun, reported_error] at hlists
      obtain ⟨rfl, he⟩ := eq_nil_of_lists hlists
      obtain ⟨tok, value, hwants, hu⟩ := h e he
      exact ⟨tok, [], hwants, Or.inl ⟨value, fun _ _ _ => ⟨none, satisfy_of_some hu⟩⟩⟩

theorem token {kind : Token.Kind} (hkind : kind ≠ .operator) :
    Completable n kinds (token kind) := by
  refine .satisfy fun e he => ⟨⟨kind, "", ⟨0, 0⟩⟩, _, ?_, if_pos rfl⟩
  rw [List.mem_singleton.1 he]
  exact ⟨rfl, hkind⟩

theorem operator (allowed : List Operator) : Completable n kinds (operator allowed) := by
  refine .satisfy fun e he => ?_
  obtain ⟨op, hop, rfl⟩ := List.mem_map.1 he
  have htok : (⟨.operator, op.symbol, ⟨0, 0⟩⟩ : Token).operator? = some op :=
    Operator.ofSymbol?_eq_some_iff.2 rfl
  exact ⟨_, op, htok, by simp [htok, hop]⟩

theorem number : Completable n kinds Grammar.number := by
  intro eoi front x xs e _ _ hlists
  obtain ⟨value, hreads⟩ := exists_reads_number
  by_cases hhead : headKind (front ++ x :: xs) = some .number
  · obtain ⟨tok, rest, htokens⟩ : ∃ tok rest, front ++ x :: xs = tok :: rest := by
      cases front <;> exact ⟨_, _, rfl⟩
    rw [htokens] at hhead hlists
    rw [Grammar.number_of_kind (Option.some_inj.1 hhead)] at hlists
    cases hx : Number.read tok.text <;> rw [hx] at hlists
    · exact absurd (Report.lists_some.1 hlists).2 (List.not_mem_nil)
    · exact absurd hlists (Report.lists_none _ e)
  · rw [Grammar.number_of_headKind_ne hhead, reported_error] at hlists
    obtain ⟨rfl, he⟩ := eq_nil_of_lists hlists
    rw [List.mem_singleton.1 he]
    exact ⟨⟨.number, "0", ⟨0, 0⟩⟩, [], ⟨rfl, by decide⟩, Or.inl ⟨value, fun tail _ => hreads tail⟩⟩

/-- **A sequence of steps goes on with what its steps expect.**  What a later step expects, and the
first one does not, makes no difference to the first step. -/
theorem bind {p : Parser α} {f : α → Parser β} (hp : Completable n mid p)
    (hwithin : WithinBelow n p) (hsteady : Steady n p) (hends : ∀ value, Ends mid kinds (f value))
    (hf : Behind n p fun m value => WithinBelow m (f value) ∧ Completable m kinds (f value)) :
    Completable n kinds (p >>= f) := by
  intro eoi front x xs e hn hclean hlists
  have hp := hp eoi front x xs e hn hclean
  have hsteady := fun ys tok eoi' => hsteady eoi eoi' front x xs tok ys hn hclean
  -- what the first step expects is gone on with by all steps
  have hfirst : Report.Lists (reported (p eoi (.ofList (front ++ x :: xs)))) (xs.length + 1) e →
      ∃ tok more, e.Wants tok ∧ Finishes kinds (p >>= f) (front ++ tok :: more) := by
    intro hlists
    obtain ⟨tok, more, hwants, hfinishes⟩ := hp hlists
    obtain ⟨more', hfinishes⟩ := hfinishes.bind hends
    exact ⟨tok, more ++ more', hwants, by rwa [List.append_assoc, List.cons_append] at hfinishes⟩
  rcases bind_cases p f eoi (front ++ x :: xs) with
    ⟨report, h₁, h₂⟩ | ⟨value, rest, missed, h₁, h₂⟩
  · rw [h₂] at hlists
    exact hfirst (h₁ ▸ hlists)
  · by_cases hmissed : Report.Lists missed (xs.length + 1) e
    · exact hfirst (h₁ ▸ hmissed)
    have hpasses := hlists.not_passes
    rw [h₂, reported_keep] at hlists hpasses
    rw [Report.passes_merge, not_or] at hpasses
    have hlists := (Report.lists_of_lists_merge hlists).resolve_left hmissed
    -- a later step expects it, so it stands behind all that the first step has read
    obtain ⟨hwithin', hf⟩ := hf eoi _ value rest missed hn h₁
    have hsuffix := (hwithin eoi _ hn).suffix _ _ _ h₁
    have hle : (x :: xs).length ≤ rest.length := by
      obtain ⟨report, hreport, hleft, -⟩ := hlists
      have := (hwithin' eoi rest (Nat.lt_succ_self _)).left_le report hreport
      simp only [List.length_cons]
      omega
    obtain ⟨front', rfl⟩ := eq_append_of_suffix hsuffix hle
    obtain ⟨tok, more, hwants, hfinishes⟩ :=
      hf eoi front' x xs e (Nat.lt_succ_self _) (hclean.of_suffix hsuffix) hlists
    -- the first step does not want the new token, so it still reads the same in front of it
    have hreads : ∀ ys, Reads p (front ++ tok :: ys) (front' ++ tok :: ys) value := by
      intro ys eoi'
      rw [h₁] at hsteady
      rcases hsteady ys tok eoi' ⟨hpasses.1, by rintro _ _ _ ⟨⟩; exact hle⟩ with
        hagree | ⟨e', he', hwants'⟩
      · obtain ⟨front'', missed', hfront, hrun, -⟩ := hagree.of_ok
        obtain rfl := List.append_cancel_right hfront
        exact ⟨missed', hrun⟩
      · exact absurd (hwants'.unique hwants ▸ he') hmissed
    refine ⟨tok, more, hwants, ?_⟩
    rcases hfinishes with ⟨value', hfinishes⟩ | hblocked
    · refine Or.inl ⟨value', fun tail hclear => ?_⟩
      have hmore := hfinishes tail hclear
      rw [List.append_assoc, List.cons_append] at hmore ⊢
      exact (hreads _).bind hmore
    · refine Or.inr (.behind (hreads more) ?_ hblocked)
      obtain ⟨read, hread⟩ := hsuffix
      refine ⟨read, ?_⟩
      rw [← List.append_assoc] at hread ⊢
      rw [List.append_cancel_right hread]

theorem orElse {p q : Parser α} (hp : Completable n kinds p) (hq : Completable n kinds q)
    (hps : Starts starts p) (hqs : Starts starts' q) (hdisjoint : ∀ kind ∈ starts', kind ∉ starts) :
    Completable n kinds (orElse p q) := by
  intro eoi front x xs e hn hclean hlists
  have hdisjoint' : ∀ kind ∈ starts, kind ∉ starts' := fun kind h h' => hdisjoint kind h' h
  have hleft : Report.Lists (reported (p eoi (.ofList (front ++ x :: xs)))) (xs.length + 1) e →
      ∃ tok more, e.Wants tok ∧ Finishes kinds (Parser.orElse p q) (front ++ tok :: more) :=
    fun h =>
      let ⟨tok, more, hwants, h⟩ := hp eoi front x xs e hn hclean h
      ⟨tok, more, hwants, h.orElse_left hps hqs hdisjoint'⟩
  have hright : Report.Lists (reported (q eoi (.ofList (front ++ x :: xs)))) (xs.length + 1) e →
      ∃ tok more, e.Wants tok ∧ Finishes kinds (Parser.orElse p q) (front ++ tok :: more) :=
    fun h =>
      let ⟨tok, more, hwants, h⟩ := hq eoi front x xs e hn hclean h
      ⟨tok, more, hwants, h.orElse_right hps hqs hdisjoint⟩
  cases h₁ : p eoi (.ofList (front ++ x :: xs)) with
  | ok first =>
      rw [orElse_of_ok h₁] at hlists
      exact hleft (h₁ ▸ hlists)
  | error a =>
      cases h₂ : q eoi (.ofList (front ++ x :: xs)) with
      | ok second =>
          rw [orElse_of_error h₁ h₂] at hlists
          exact hright (h₂ ▸ hlists)
      | error b =>
          rw [orElse_of_errors h₁ h₂] at hlists
          rcases Report.lists_of_lists_merge (a := some b) (b := some a) hlists with h | h
          · exact hright (h₂ ▸ h)
          · exact hleft (h₁ ▸ h)

theorem optional {p : Parser α} (hp : Completable n kinds p) :
    Completable n kinds (optional p) := by
  intro eoi front x xs e hn hclean hlists
  rw [reported_optional] at hlists
  obtain ⟨tok, more, hwants, h⟩ := hp eoi front x xs e hn hclean hlists
  exact ⟨tok, more, hwants, h.optional⟩

/-- A parser that judges what another one reads: what it refuses then is complained about. -/
theorem judged {kind : Token.Kind} {f : Token → Parser (Except Complaint β)} {p : Parser β}
    (hp : Judges (Parser.token kind >>= f) p) (hrefused : Grammar.RefusedBy kind p)
    (hq : Completable n kinds (Parser.token kind >>= f)) : Completable n kinds p := by
  intro eoi front x xs e hn hclean hlists
  -- a complaint expects nothing, so what is expected is so without the judgement
  have hlists' : Report.Lists (reported ((Parser.token kind >>= f) eoi
      (.ofList (front ++ x :: xs)))) (xs.length + 1) e := by
    rcases hp eoi (front ++ x :: xs) with ⟨a, hrun, h⟩ | ⟨_, _, _, hrun, h⟩ |
        ⟨_, _, _, report, -, h, -, -, hexpected⟩ <;> rw [h] at hlists
    · exact hrun ▸ hlists
    · exact hrun ▸ hlists
    · rw [reported_error, Report.lists_some, hexpected] at hlists
      exact absurd hlists.2 List.not_mem_nil
  obtain ⟨tok, more, hwants, hfinishes⟩ := hq eoi front x xs e hn hclean hlists'
  refine ⟨tok, more, hwants, ?_⟩
  generalize front ++ tok :: more = tokens at hfinishes
  -- and what is read without it may be complained about, which blocks the parser
  have hblocked : ∀ eoi report, p eoi (.ofList tokens) = .error report → report.complaint.Own →
      report.left < tokens.length → ∃ refused, Grammar.Refused eoi refused ∧ refused <:+ tokens ∧
        Report.Passes (reported (p eoi (.ofList tokens))) refused.length := by
    intro eoi report h hown hleft
    exact ⟨tokens, (hrefused eoi tokens (hp.headKind_eq h hleft)).2 ⟨report, h, hown⟩,
      List.suffix_refl _, report, by rw [h]; rfl, hleft⟩
  rcases hfinishes with ⟨outcome, hreads⟩ | hblocks
  · cases outcome with
    | ok value =>
        refine Or.inl ⟨value, fun tail hclear eoi => ?_⟩
        obtain ⟨missed, hrun⟩ := hreads tail hclear eoi
        rcases hp eoi (tokens ++ tail) with ⟨a, hrun', h⟩ | ⟨_, _, _, hrun', h⟩ |
            ⟨_, _, _, report, hrun', h, -⟩ <;> rw [hrun] at hrun' <;> cases hrun'
        exact ⟨missed, h⟩
    | error complaint =>
        refine Or.inr fun eoi => ?_
        obtain ⟨missed, hrun⟩ := hreads [] (.nil kinds) eoi
        rw [List.append_nil] at hrun
        rcases hp eoi tokens with ⟨a, hrun', h⟩ | ⟨_, _, _, hrun', h⟩ |
            ⟨_, _, _, report, hrun', h, hown, hleft, -⟩ <;> rw [hrun] at hrun' <;> cases hrun'
        exact hblocked eoi report h hown hleft
  · refine Or.inr fun eoi => ?_
    obtain ⟨refused, hr, hsuffix, hpasses⟩ := hblocks eoi
    rcases hp eoi tokens with ⟨a, hrun, h⟩ | ⟨_, _, _, hrun, h⟩ |
        ⟨_, _, _, report, hrun, h, hown, hleft, -⟩ <;> rw [hrun] at hpasses
    · exact ⟨refused, hr, hsuffix, h ▸ hpasses⟩
    · exact ⟨refused, hr, hsuffix, h ▸ hpasses⟩
    · exact hblocked eoi report h hown hleft

end Completable

end Parser

end Scriptlet
