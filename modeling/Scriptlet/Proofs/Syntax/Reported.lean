/-
**What parsers report.**

A parser reports the furthest of its failures, whether it fails or succeeds.  This module says how
the report of a sequence of steps comes about, and what a repetition is a choice between.

Main definitions:

* `Scriptlet.Expectation.Wants` — which tokens are what was expected;
* `Scriptlet.Report.Passes`, `Scriptlet.Report.Lists` — how far a report got, and what it expects
  at a given place;
* `Scriptlet.Parser.reported` — **the report of a run**.

Main results:

* `Scriptlet.Report.passes_merge`, `Scriptlet.Report.lists_merge` — what merged reports say;
* `Scriptlet.Parser.many_eq` — a repetition is a choice between nothing and one more round.
-/

import Scriptlet.Proofs.Syntax.Completeness

set_option relaxedAutoImplicit false
set_option autoImplicit false

namespace Scriptlet

/-! ### Tokens that are expected -/

/-- The token is what was expected. -/
def Expectation.Wants : Expectation → Token → Prop
  | .kind k, tok => tok.kind = k ∧ k ≠ .operator
  | .operator op, tok => tok.operator? = some op

/-- A token is no two things. -/
theorem Expectation.Wants.unique {e e' : Expectation} {tok : Token} (h : e.Wants tok)
    (h' : e'.Wants tok) : e = e' := by
  cases e with
  | kind k =>
      cases e' with
      | kind k' => rw [← h.1, ← h'.1]
      | operator op => exact absurd (h.1.symm.trans (Grammar.kind_of_operator? h')) h.2
  | operator op =>
      cases e' with
      | kind k' => exact absurd (h'.1.symm.trans (Grammar.kind_of_operator? h)) h'.2
      | operator op' => exact congrArg _ (Option.some_inj.1 (h.symm.trans h'))

/-- The complaint is about something that was read as it should be and is not allowed. -/
def Complaint.Own : Complaint → Prop
  | .parameter _ | .property _ => True
  | .unexpected | .numeral _ => False

/-! ### The furthest of two reports -/

namespace Report

/-- What the furthest report expects, the ones that got that far expect. -/
theorem mem_expected_furthest {a b : Report} {e : Expectation} :
    e ∈ (a.furthest b).expected ↔
      (e ∈ a.expected ∧ a.left ≤ b.left) ∨ (e ∈ b.expected ∧ b.left ≤ a.left) := by
  grind [furthest, joinExpected]

/-- Apart from what is expected, the furthest report is one of the two. -/
theorem furthest_cases (a b : Report) :
    (∃ expected, a.furthest b = { a with expected } ∧ a.left ≤ b.left) ∨
      ∃ expected, a.furthest b = { b with expected } ∧ b.left ≤ a.left := by
  rw [furthest]
  split
  · exact Or.inl ⟨a.expected, rfl, by omega⟩
  split
  · exact Or.inr ⟨b.expected, rfl, by omega⟩
  · exact Or.inl ⟨_, rfl, by omega⟩

/-- A report of two merged ones is one of them or the furthest of them. -/
theorem merge_eq_some {a b : Option Report} {report : Report} (h : merge a b = some report) :
    (a = some report ∧ b = none) ∨ (a = none ∧ b = some report) ∨
      ∃ first second, a = some first ∧ b = some second ∧ report = second.furthest first := by
  cases a with
  | none => exact Or.inr (Or.inl ⟨rfl, h⟩)
  | some first =>
      cases b with
      | none => exact Or.inl ⟨h, rfl⟩
      | some second => exact Or.inr (Or.inr ⟨first, second, rfl, rfl, (Option.some_inj.1 h).symm⟩)

/-- A property of reports that the furthest of two reports inherits is inherited by merged ones. -/
theorem merge_forall {Q : Report → Prop} (hQ : ∀ a b, Q a → Q b → Q (a.furthest b))
    {a b : Option Report} (ha : ∀ report ∈ a, Q report) (hb : ∀ report ∈ b, Q report) :
    ∀ report ∈ merge a b, Q report := by
  intro report h
  rcases merge_eq_some h with ⟨h, -⟩ | ⟨-, h⟩ | ⟨first, second, h₁, h₂, rfl⟩
  · exact ha _ h
  · exact hb _ h
  · exact hQ _ _ (hb _ h₂) (ha _ h₁)

/-- Some report got further than to a number of tokens in front of the end. -/
def Passes (report : Option Report) (count : Nat) : Prop := ∃ r ∈ report, r.left < count

/-- A report at a number of tokens in front of the end lists the expectation. -/
def Lists (report : Option Report) (count : Nat) (e : Expectation) : Prop :=
  ∃ r ∈ report, r.left = count ∧ e ∈ r.expected

@[simp] theorem passes_none (count : Nat) : ¬ Passes none count := by simp [Passes]

@[simp] theorem passes_some {report : Report} {count : Nat} :
    Passes (some report) count ↔ report.left < count := by simp [Passes]

@[simp] theorem lists_none (count : Nat) (e : Expectation) : ¬ Lists none count e := by
  simp [Lists]

@[simp] theorem lists_some {report : Report} {count : Nat} {e : Expectation} :
    Lists (some report) count e ↔ report.left = count ∧ e ∈ report.expected := by simp [Lists]

/-- Merged reports got as far as one of them did. -/
theorem passes_merge {a b : Option Report} {count : Nat} :
    Passes (merge a b) count ↔ Passes a count ∨ Passes b count := by
  cases a <;> cases b <;> simp [merge, furthest_left]
  grind

theorem Lists.not_passes {report : Option Report} {count : Nat} {e : Expectation}
    (h : Lists report count e) : ¬ Passes report count := by
  cases report <;> simp_all

/-- What merged reports list, one of them lists. -/
theorem lists_of_lists_merge {a b : Option Report} {count : Nat} {e : Expectation}
    (h : Lists (merge a b) count e) : Lists a count e ∨ Lists b count e := by
  cases a <;> cases b <;> simp_all [merge, furthest_left, mem_expected_furthest]
  grind

/-- What one report lists, merged reports list, unless the other one got further. -/
theorem lists_merge {a b : Option Report} {count : Nat} {e : Expectation}
    (h : ¬ Passes (merge a b) count) (he : Lists a count e ∨ Lists b count e) :
    Lists (merge a b) count e := by
  rw [passes_merge] at h
  cases a <;> cases b <;> simp_all [merge, furthest_left, mem_expected_furthest]
  grind

end Report

/-! ### The report of a run -/

namespace Parser

variable {α β : Type}

/-- What a run reports: why it failed, or the furthest report among the ways not taken. -/
def reported : Except Report (Parsed α) → Option Report
  | .error report => some report
  | .ok result => result.missed

@[simp] theorem reported_error (report : Report) :
    reported (.error report : Except Report (Parsed α)) = some report := rfl

@[simp] theorem reported_ok (result : Parsed α) : reported (.ok result) = result.missed := rfl

@[simp] theorem reported_keep (missed : Option Report) (outcome : Except Report (Parsed α)) :
    reported (keep missed outcome) = Report.merge missed (reported outcome) := by
  cases outcome with
  | error report => cases missed <;> rfl
  | ok result => rfl

/-- What a sequence of steps reports, once its first step succeeds. -/
theorem reported_bind {p : Parser α} {f : α → Parser β} {eoi : Nat} {input : Remaining}
    {first : Parsed α} (hp : p eoi input = .ok first) :
    reported ((p >>= f) eoi input)
      = Report.merge first.missed (reported (f first.value eoi first.rest)) := by
  rw [bind_of_ok hp, reported_keep]

theorem reported_optional (p : Parser α) (eoi : Nat) (input : Remaining) :
    reported (optional p eoi input) = reported (p eoi input) := by
  rw [optional]
  cases p eoi input <;> rfl

/-- An option that reads something moves forwards when its parser does. -/
theorem optional_some_lt {p : Parser α} (hp : Advances p) {eoi : Nat} {input rest : Remaining}
    {value : α} {missed : Option Report}
    (h : optional p eoi input = .ok ⟨some value, rest, missed⟩) : rest.count < input.count := by
  rcases optional_eq_ok h with ⟨report, -, h⟩ | ⟨first, h₁, h⟩
  · cases h
  · cases h
    exact hp _ _ _ h₁

/-- **A repetition is a choice** between nothing and one more round. -/
theorem many_eq {p : Parser α} (hp : Advances p) :
    many p = optional p >>= fun first =>
      match first with
      | some value => (value :: ·) <$> many p
      | none => pure [] := by
  funext eoi input
  cases h : p eoi input with
  | error report =>
      rw [(ManyRun.stop h).many_eq hp, bind_of_ok (optional_of_error h)]
      rfl
  | ok first =>
      obtain ⟨more, hmore, hrun⟩ := many_run hp eoi first.rest
      rw [(ManyRun.step h hrun).many_eq hp, bind_of_ok (optional_of_ok h)]
      exact congrArg (keep first.missed) (map_of_ok (f := (first.value :: ·)) hmore).symm

/-- A run fails, or it yields a value, the tokens behind it and a report. -/
theorem run_cases (p : Parser α) (eoi : Nat) (tokens : List Token) :
    (∃ report, p eoi (.ofList tokens) = .error report) ∨
      ∃ value rest missed, p eoi (.ofList tokens) = .ok ⟨value, .ofList rest, missed⟩ := by
  cases p eoi (.ofList tokens) with
  | error report => exact Or.inl ⟨report, rfl⟩
  | ok result => exact Or.inr ⟨_, _, _, congrArg _ (by rw [← result.rest.eq_ofList])⟩

/-- The first step of a sequence fails, or the sequence goes on behind it. -/
theorem bind_cases (p : Parser α) (f : α → Parser β) (eoi : Nat) (tokens : List Token) :
    (∃ report, p eoi (.ofList tokens) = .error report ∧
      (p >>= f) eoi (.ofList tokens) = .error report) ∨
    ∃ value rest missed, p eoi (.ofList tokens) = .ok ⟨value, .ofList rest, missed⟩ ∧
      (p >>= f) eoi (.ofList tokens) = keep missed (f value eoi (.ofList rest)) := by
  rcases run_cases p eoi tokens with ⟨report, hp⟩ | ⟨value, rest, missed, hp⟩
  · exact Or.inl ⟨report, hp, bind_of_error hp⟩
  · exact Or.inr ⟨value, rest, missed, hp, bind_of_ok hp⟩

/-- Steps succeed one behind the other. -/
theorem keep_eq_ok {missed missed' : Option Report} {outcome : Except Report (Parsed α)}
    {value : α} {rest : Remaining} (h : keep missed outcome = .ok ⟨value, rest, missed'⟩) :
    ∃ missed'', outcome = .ok ⟨value, rest, missed''⟩ := by
  cases outcome with
  | error report => cases h
  | ok result => cases h; exact ⟨_, rfl⟩

/-- What a parser reads or reports behind the first token starts as the parser can. -/
theorem Starts.exists_kind {kinds : List Token.Kind} {p : Parser α} (h : Starts kinds p)
    {eoi : Nat} {tokens : List Token}
    (hp : (∃ result, p eoi (.ofList tokens) = .ok result) ∨
      Report.Passes (reported (p eoi (.ofList tokens))) tokens.length) :
    ∃ kind ∈ kinds, headKind tokens = some kind := by
  refine Classical.byContradiction fun hno => ?_
  obtain ⟨report, hreport, hleft⟩ := h eoi tokens fun kind hkind he => hno ⟨kind, hkind, he⟩
  rcases hp with ⟨result, hp⟩ | hp
  · rw [hreport] at hp
    cases hp
  · rw [hreport, reported_error, Report.passes_some] at hp
    omega

end Parser

namespace Grammar

open Scriptlet.Parser

theorem number_of_headKind_ne {eoi : Nat} {tokens : List Token}
    (h : headKind tokens ≠ some .number) :
    number eoi (.ofList tokens) = .error (unexpected eoi (.ofList tokens) [.kind .number]) := by
  rw [number, checked, token_of_headKind_ne h]

theorem number_of_kind_ne {eoi : Nat} {tok : Token} {rest : List Token}
    (htok : tok.kind ≠ .number) : number eoi (.ofList (tok :: rest))
      = .error ⟨rest.length + 1, tok.span, .unexpected, some tok, [.kind .number]⟩ :=
  number_of_headKind_ne fun h => htok (Option.some_inj.1 h)

/-- A number is read, or its text is not that of a number. -/
theorem number_of_kind {eoi : Nat} {tok : Token} {rest : List Token} (htok : tok.kind = .number) :
    number eoi (.ofList (tok :: rest))
      = match Number.read tok.text with
        | some x => .ok ⟨x, .ofList rest, none⟩
        | none => .error ⟨rest.length, tok.span, .numeral tok.text, none, []⟩ := by
  rw [number, checked, token_of_kind htok]
  dsimp only
  cases Number.read tok.text with
  | some x => rfl
  | none => simp [Remaining.ofList, coveredSpan]

end Grammar

end Scriptlet
