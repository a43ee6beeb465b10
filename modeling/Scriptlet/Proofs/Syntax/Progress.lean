/-
**Parsers move forwards.**

A parser that succeeds leaves no more tokens than it was given, and most parsers leave fewer.  That
is what makes the loops of `Scriptlet.Syntax.Parser` end before their bound on the number of
rounds is used up, so the bound can be forgotten: a loop reads a value and goes on, or it stops
where the value cannot be read.

Main definitions:

* `Scriptlet.Parser.NonGrowing`, `Scriptlet.Parser.Advances` — what a parser leaves is at most, or
  less than, what it was given;
* `Scriptlet.Parser.ManyRun` — how a repetition goes, round by round;
* `Scriptlet.Parser.items` — values with separators between them, at least one.

Main results:

* `Scriptlet.Parser.many_run` — **a repetition goes round by round until the parser fails**;
* `Scriptlet.Parser.separated_eq`, `Scriptlet.Parser.separated_trailing_eq` — **lists with
  separators are built from repetition and options**.
-/

import Scriptlet.Syntax.Parser

set_option relaxedAutoImplicit false
set_option autoImplicit false

namespace Scriptlet.Parser

variable {α β : Type}

/-! ### Opening the combinators -/

theorem map_def (f : α → β) (p : Parser α) : f <$> p = p >>= fun value => pure (f value) := rfl

theorem seqRight_def (p : Parser α) (q : Parser β) : p *> q = p >>= fun _ => q := rfl

/-- A sequence of steps succeeds exactly when each step does. -/
theorem bind_eq_ok {p : Parser α} {f : α → Parser β} {eoi : Nat} {input : Remaining}
    {result : Parsed β} (h : (p >>= f) eoi input = .ok result) :
    ∃ first second, p eoi input = .ok first ∧ f first.value eoi first.rest = .ok second ∧
      result = ⟨second.value, second.rest, Report.merge first.missed second.missed⟩ := by
  rw [bind_def] at h
  cases hp : p eoi input with
  | error report => simp [hp] at h
  | ok first =>
      cases hf : f first.value eoi first.rest with
      | error report => simp [hp, hf] at h
      | ok second =>
          simp only [hp, hf, Except.ok.injEq] at h
          exact ⟨first, second, rfl, hf, h.symm⟩

/-- A result, after a report that was remembered. -/
def keep (missed : Option Report) : Except Report (Parsed α) → Except Report (Parsed α)
  | .error report => .error (report.after missed)
  | .ok result => .ok ⟨result.value, result.rest, Report.merge missed result.missed⟩

@[simp] theorem keep_none (result : Except Report (Parsed α)) : keep none result = result := by
  cases result <;> rfl

@[simp] theorem keep_error (missed : Option Report) (report : Report) :
    keep missed (.error report : Except Report (Parsed α)) = .error (report.after missed) := rfl

@[simp] theorem keep_ok (missed : Option Report) (result : Parsed α) :
    keep missed (.ok result)
      = .ok ⟨result.value, result.rest, Report.merge missed result.missed⟩ := rfl

theorem bind_of_error {p : Parser α} {f : α → Parser β} {eoi : Nat} {input : Remaining}
    {report : Report} (hp : p eoi input = .error report) :
    (p >>= f) eoi input = .error report := by
  rw [bind_def, hp]

/-- Behind a step that succeeds the sequence goes on, and what the step missed is kept. -/
theorem bind_of_ok {p : Parser α} {f : α → Parser β} {eoi : Nat} {input : Remaining}
    {first : Parsed α} (hp : p eoi input = .ok first) :
    (p >>= f) eoi input = keep first.missed (f first.value eoi first.rest) := by
  rw [bind_def, hp]
  cases hf : f first.value eoi first.rest <;> simp only [hf, keep]

theorem map_of_ok {f : α → β} {p : Parser α} {eoi : Nat} {input : Remaining} {first : Parsed α}
    (hp : p eoi input = .ok first) :
    (f <$> p) eoi input = .ok ⟨f first.value, first.rest, first.missed⟩ := by
  rw [map_def, bind_of_ok hp, pure_def, keep_ok, Report.merge_none]

theorem optional_of_ok {p : Parser α} {eoi : Nat} {input : Remaining} {first : Parsed α}
    (hp : p eoi input = .ok first) :
    optional p eoi input = .ok ⟨some first.value, first.rest, first.missed⟩ := by
  rw [optional, hp]

theorem optional_of_error {p : Parser α} {eoi : Nat} {input : Remaining} {report : Report}
    (hp : p eoi input = .error report) :
    optional p eoi input = .ok ⟨none, input, some report⟩ := by
  rw [optional, hp]

theorem pure_eq_ok {value : α} {eoi : Nat} {input : Remaining} {result : Parsed α}
    (h : (pure value : Parser α) eoi input = .ok result) : result = ⟨value, input, none⟩ := by
  rw [pure_def, Except.ok.injEq] at h
  exact h.symm

/-- A step behind which a value is returned. -/
theorem bind_return_eq_ok {f : α → β} {p : Parser α} {eoi : Nat} {input : Remaining}
    {result : Parsed β} (h : (p >>= fun value => pure (f value)) eoi input = .ok result) :
    ∃ first, p eoi input = .ok first ∧ result = ⟨f first.value, first.rest, first.missed⟩ := by
  obtain ⟨first, second, h₁, h₂, rfl⟩ := bind_eq_ok h
  obtain rfl := pure_eq_ok h₂
  exact ⟨first, h₁, by rw [Report.merge_none]⟩

theorem map_eq_ok {f : α → β} {p : Parser α} {eoi : Nat} {input : Remaining}
    {result : Parsed β} (h : (f <$> p) eoi input = .ok result) :
    ∃ first, p eoi input = .ok first ∧ result = ⟨f first.value, first.rest, first.missed⟩ :=
  bind_return_eq_ok h

/-- An option succeeds with what was read, or with nothing where nothing could be read. -/
theorem optional_eq_ok {p : Parser α} {eoi : Nat} {input : Remaining} {result : Parsed (Option α)}
    (h : optional p eoi input = .ok result) :
    (∃ report, p eoi input = .error report ∧ result = ⟨none, input, some report⟩) ∨
      ∃ first, p eoi input = .ok first ∧
        result = ⟨some first.value, first.rest, first.missed⟩ := by
  cases hp : p eoi input with
  | error report =>
      rw [optional_of_error hp, Except.ok.injEq] at h
      exact Or.inl ⟨report, rfl, h.symm⟩
  | ok first =>
      rw [optional_of_ok hp, Except.ok.injEq] at h
      exact Or.inr ⟨first, rfl, h.symm⟩

theorem orElse_eq_ok {p q : Parser α} {eoi : Nat} {input : Remaining} {result : Parsed α}
    (h : orElse p q eoi input = .ok result) :
    p eoi input = .ok result ∨ q eoi input = .ok result := by
  rw [orElse] at h
  cases hp : p eoi input with
  | ok first => simp only [hp] at h; exact Or.inl h
  | error report =>
      cases hq : q eoi input with
      | ok second => simp only [hp, hq] at h; exact Or.inr h
      | error report' => simp [hp, hq] at h

/-- A check that is passed gives the value that was read. -/
theorem checked_eq_ok {p : Parser α} {check : α → Except Complaint β} {eoi : Nat}
    {input : Remaining} {result : Parsed β} (h : checked p check eoi input = .ok result) :
    ∃ first value, p eoi input = .ok first ∧ check first.value = .ok value ∧
      result = ⟨value, first.rest, first.missed⟩ := by
  rw [checked] at h
  cases hp : p eoi input with
  | error report => simp [hp] at h
  | ok first =>
      cases hc : check first.value with
      | error complaint => simp [hp, hc] at h
      | ok value =>
          simp only [hp, hc, Except.ok.injEq] at h
          exact ⟨first, value, rfl, hc, h.symm⟩

theorem checked_of_ok {p : Parser α} {check : α → Except Complaint β} {eoi : Nat}
    {input : Remaining} {first : Parsed α} {value : β} (hp : p eoi input = .ok first)
    (hc : check first.value = .ok value) :
    checked p check eoi input = .ok ⟨value, first.rest, first.missed⟩ := by
  simp only [checked, hp, hc]

/-! ### One token -/

theorem count_ofList (tokens : List Token) :
    (Remaining.ofList tokens).count = tokens.length := rfl

/-- A parser of one token reads the first token, if that is of use. -/
theorem satisfy_eq_ok {use : Token → Option α} {expected : List Expectation} {eoi : Nat}
    {input : Remaining} {result : Parsed α} (h : satisfy use expected eoi input = .ok result) :
    ∃ token tokens value, input = .ofList (token :: tokens) ∧ use token = some value ∧
      result = ⟨value, .ofList tokens, none⟩ := by
  obtain ⟨tokens, rfl⟩ : ∃ tokens, input = .ofList tokens := ⟨_, input.eq_ofList⟩
  rw [satisfy] at h
  cases tokens with
  | nil => simp at h
  | cons token tokens =>
      simp only [Remaining.next?_cons] at h
      cases hu : use token with
      | none => simp [hu] at h
      | some value =>
          simp only [hu, Except.ok.injEq] at h
          exact ⟨token, tokens, value, rfl, hu, h.symm⟩

theorem satisfy_of_some {use : Token → Option α} {expected : List Expectation} {eoi : Nat}
    {token : Token} {tokens : List Token} {value : α} (h : use token = some value) :
    satisfy use expected eoi (.ofList (token :: tokens)) = .ok ⟨value, .ofList tokens, none⟩ := by
  simp only [satisfy, Remaining.next?_cons, h]

theorem token_eq_ok {kind : Token.Kind} {eoi : Nat} {input : Remaining} {result : Parsed Token}
    (h : token kind eoi input = .ok result) :
    ∃ tok tokens, input = .ofList (tok :: tokens) ∧ tok.kind = kind ∧
      result = ⟨tok, .ofList tokens, none⟩ := by
  obtain ⟨tok, tokens, value, rfl, hu, rfl⟩ := satisfy_eq_ok h
  split at hu
  · next hkind =>
    obtain rfl := Option.some_inj.1 hu
    exact ⟨tok, tokens, rfl, hkind, rfl⟩
  · cases hu

theorem token_of_kind {kind : Token.Kind} {eoi : Nat} {tok : Token} {tokens : List Token}
    (h : tok.kind = kind) :
    token kind eoi (.ofList (tok :: tokens)) = .ok ⟨tok, .ofList tokens, none⟩ :=
  satisfy_of_some (by simp [h])

/-! ### Moving forwards -/

/-- What the parser leaves is no more than what it was given. -/
def NonGrowing (p : Parser α) : Prop :=
  ∀ eoi input result, p eoi input = .ok result → result.rest.count ≤ input.count

/-- What the parser leaves is less than what it was given. -/
def Advances (p : Parser α) : Prop :=
  ∀ eoi input result, p eoi input = .ok result → result.rest.count < input.count

theorem Advances.nonGrowing {p : Parser α} (hp : Advances p) : NonGrowing p :=
  fun eoi input result h => Nat.le_of_lt (hp eoi input result h)

theorem nonGrowing_pure (value : α) : NonGrowing (pure value) := by
  intro eoi input result h
  obtain rfl := pure_eq_ok h
  exact Nat.le_refl _

theorem advances_satisfy (use : Token → Option α) (expected : List Expectation) :
    Advances (satisfy use expected) := by
  intro eoi input result h
  obtain ⟨token, tokens, value, rfl, -, rfl⟩ := satisfy_eq_ok h
  simp [count_ofList]

theorem advances_token (kind : Token.Kind) : Advances (token kind) := advances_satisfy _ _

theorem advances_operator (allowed : List Operator) : Advances (operator allowed) :=
  advances_satisfy _ _

theorem advances_stuck : Advances (stuck : Parser α) := by
  intro eoi input result h
  simp [stuck] at h

theorem NonGrowing.bind {p : Parser α} {f : α → Parser β} (hp : NonGrowing p)
    (hf : ∀ value, NonGrowing (f value)) : NonGrowing (p >>= f) := by
  intro eoi input result h
  obtain ⟨first, second, h₁, h₂, rfl⟩ := bind_eq_ok h
  exact Nat.le_trans (hf _ _ _ second h₂) (hp _ _ _ h₁)

/-- A sequence of steps moves forwards when its first step does. -/
theorem Advances.bind {p : Parser α} {f : α → Parser β} (hp : Advances p)
    (hf : ∀ value, NonGrowing (f value)) : Advances (p >>= f) := by
  intro eoi input result h
  obtain ⟨first, second, h₁, h₂, rfl⟩ := bind_eq_ok h
  exact Nat.lt_of_le_of_lt (hf _ _ _ second h₂) (hp _ _ _ h₁)

theorem NonGrowing.map {p : Parser α} (hp : NonGrowing p) (f : α → β) : NonGrowing (f <$> p) :=
  hp.bind fun _ => nonGrowing_pure _

theorem Advances.map {p : Parser α} (hp : Advances p) (f : α → β) : Advances (f <$> p) :=
  hp.bind fun _ => nonGrowing_pure _

theorem Advances.orElse {p q : Parser α} (hp : Advances p) (hq : Advances q) :
    Advances (orElse p q) := by
  intro eoi input result h
  rcases orElse_eq_ok h with h | h
  · exact hp _ _ _ h
  · exact hq _ _ _ h

theorem Advances.checked {p : Parser α} (hp : Advances p) (check : α → Except Complaint β) :
    Advances (checked p check) := by
  intro eoi input result h
  obtain ⟨first, value, h₁, -, rfl⟩ := checked_eq_ok h
  exact hp _ _ _ h₁

theorem NonGrowing.optional {p : Parser α} (hp : NonGrowing p) : NonGrowing (optional p) := by
  intro eoi input result h
  rcases optional_eq_ok h with ⟨report, -, rfl⟩ | ⟨first, h₁, rfl⟩
  · exact Nat.le_refl _
  · exact hp _ _ _ h₁

/-! ### Repetition -/

/-- How a repetition goes: it stops where the parser fails, or it reads a value and goes on. -/
inductive ManyRun (p : Parser α) (eoi : Nat) : Remaining → Parsed (List α) → Prop
  /-- The parser fails, and its report is remembered. -/
  | stop {input : Remaining} {report : Report} (h : p eoi input = .error report) :
      ManyRun p eoi input ⟨[], input, some report⟩
  /-- The parser reads a value, and more follow. -/
  | step {input : Remaining} {first : Parsed α} {more : Parsed (List α)}
      (h : p eoi input = .ok first) (hmore : ManyRun p eoi first.rest more) :
      ManyRun p eoi input (prepend first more)

theorem ManyRun.det {p : Parser α} {eoi : Nat} {input : Remaining} {r s : Parsed (List α)}
    (hr : ManyRun p eoi input r) (hs : ManyRun p eoi input s) : r = s := by
  induction hr generalizing s with
  | stop h =>
      cases hs with
      | stop h' => rw [h, Except.error.injEq] at h'; rw [h']
      | step h' _ => rw [h] at h'; cases h'
  | step h _ ih =>
      cases hs with
      | stop h' => rw [h] at h'; cases h'
      | step h' hmore' =>
          rw [h, Except.ok.injEq] at h'
          subst h'
          rw [ih hmore']

theorem manyRun_upTo {p : Parser α} (hp : Advances p) (eoi : Nat) :
    ∀ (n : Nat) (input : Remaining), input.count < n →
      ManyRun p eoi input (upTo p eoi n input) := by
  intro n
  induction n with
  | zero => intro input hn; omega
  | succ n ih =>
      intro input hn
      rw [upTo]
      cases h : p eoi input with
      | error report => exact .stop h
      | ok first =>
          have hlt := hp _ _ _ h
          exact .step h (ih first.rest (by omega))

/-- **A repetition goes round by round until the parser fails.** -/
theorem many_run {p : Parser α} (hp : Advances p) (eoi : Nat) (input : Remaining) :
    ∃ result, many p eoi input = .ok result ∧ ManyRun p eoi input result :=
  ⟨_, rfl, manyRun_upTo hp eoi _ _ (Nat.lt_succ_self _)⟩

/-- What a repetition yields is what its rounds yield. -/
theorem ManyRun.many_eq {p : Parser α} (hp : Advances p) {eoi : Nat} {input : Remaining}
    {result : Parsed (List α)} (h : ManyRun p eoi input result) :
    many p eoi input = .ok result := by
  obtain ⟨result', h₁, h₂⟩ := many_run hp eoi input
  rw [h₁, h₂.det h]

theorem manyRun_of_many {p : Parser α} (hp : Advances p) {eoi : Nat} {input : Remaining}
    {result : Parsed (List α)} (h : many p eoi input = .ok result) :
    ManyRun p eoi input result := by
  obtain ⟨result', h₁, h₂⟩ := many_run hp eoi input
  rw [h₁, Except.ok.injEq] at h
  exact h ▸ h₂

theorem NonGrowing.many {p : Parser α} (hp : Advances p) : NonGrowing (many p) := by
  intro eoi input result h
  induction manyRun_of_many hp h with
  | stop _ => exact Nat.le_refl _
  | step h₁ hmore ih =>
      exact Nat.le_trans (ih (hmore.many_eq hp)) (Nat.le_of_lt (hp _ _ _ h₁))

/-! ### Lists with separators -/

/-- Values with separators between them, at least one. -/
def items (item : Parser α) (separator : Token.Kind) : Parser (List α) := do
  let first ← item
  let more ← many (token separator *> item)
  return first :: more

theorem advances_separator_item {item : Parser α} (hitem : NonGrowing item)
    (separator : Token.Kind) : Advances (token separator *> item) :=
  (advances_token separator).bind fun _ => hitem

theorem furthest_self (report : Report) : report.furthest report = report := by
  have h : joinExpected report.expected report.expected = report.expected := by
    simp [joinExpected]
  simp [Report.furthest, h]

/-- Behind a value, separators and values are read as a repetition reads them. -/
theorem separatedUpTo_false (item : Parser α) (separator : Token.Kind) (eoi : Nat) :
    ∀ (n : Nat) (input : Remaining),
      separatedUpTo item separator false eoi n input
        = upTo (token separator *> item) eoi n input := by
  intro n
  induction n with
  | zero => intro input; rfl
  | succ n ih =>
      intro input
      rw [separatedUpTo, upTo, seqRight_def]
      cases hsep : token separator eoi input with
      | error report => rw [bind_of_error hsep]
      | ok mark =>
          obtain ⟨tok, tokens, rfl, -, rfl⟩ := token_eq_ok hsep
          rw [bind_of_ok hsep, keep_none]
          dsimp only
          cases hitem : item eoi (.ofList tokens) with
          | error report => rfl
          | ok first => simp only [ih, seqRight_def]

/-- A repetition after which one more separator may stand. -/
def manyTrailing (item : Parser α) (separator : Token.Kind) : Parser (List α) := do
  let values ← many (token separator *> item)
  let _ ← optional (token separator)
  return values

theorem manyTrailing_of_many {item : Parser α} {separator : Token.Kind} {eoi : Nat}
    {input : Remaining} {more : Parsed (List α)} {last : Parsed (Option Token)}
    (hmore : many (token separator *> item) eoi input = .ok more)
    (hlast : optional (token separator) eoi more.rest = .ok last) :
    manyTrailing item separator eoi input
      = .ok ⟨more.value, last.rest, Report.merge more.missed last.missed⟩ := by
  rw [manyTrailing, bind_of_ok hmore, bind_of_ok hlast, pure_def]
  simp

/-- Where a last separator may stand, it is tried once more when the repetition has stopped. -/
theorem separatedUpTo_true (item : Parser α) (separator : Token.Kind) (eoi : Nat)
    (hitem : NonGrowing item) : ∀ (n : Nat) (input : Remaining), input.count < n →
      manyTrailing item separator eoi input
        = .ok (separatedUpTo item separator true eoi n input) := by
  have hadv := advances_separator_item hitem separator
  intro n
  induction n with
  | zero => intro input hn; omega
  | succ n ih =>
      intro input hn
      rw [separatedUpTo]
      cases hsep : token separator eoi input with
      | error report =>
          -- the option fails where the repetition does, with the same report
          have hstop : ManyRun (token separator *> item) eoi input ⟨[], input, some report⟩ :=
            .stop (bind_of_error hsep)
          rw [manyTrailing_of_many (hstop.many_eq hadv) (optional_of_error hsep)]
          simp [Report.merge, furthest_self]
      | ok mark =>
          obtain ⟨tok, tokens, rfl, -, rfl⟩ := token_eq_ok hsep
          dsimp only
          cases hfirst : item eoi (.ofList tokens) with
          | error report =>
              -- the repetition stops in front of the separator, and the option reads it
              have hstop : ManyRun (token separator *> item) eoi (.ofList (tok :: tokens))
                  ⟨[], .ofList (tok :: tokens), some report⟩ :=
                .stop (by rw [seqRight_def, bind_of_ok hsep, keep_none, hfirst])
              rw [manyTrailing_of_many (hstop.many_eq hadv) (optional_of_ok hsep)]
              simp
          | ok first =>
              have hlt : first.rest.count < n := by
                have := hitem _ _ _ hfirst
                simp only [count_ofList, List.length_cons] at this hn
                omega
              obtain ⟨more, hmore, hrun⟩ := many_run hadv eoi first.rest
              have hstep : ManyRun (token separator *> item) eoi (.ofList (tok :: tokens))
                  (prepend first more) :=
                .step (by rw [seqRight_def, bind_of_ok hsep, keep_none, hfirst]) hrun
              obtain ⟨last, hlast⟩ : ∃ last,
                  optional (token separator) eoi more.rest = .ok last := by
                rw [optional]
                split <;> exact ⟨_, rfl⟩
              have hrest := ih first.rest hlt
              rw [manyTrailing_of_many hmore hlast, Except.ok.injEq] at hrest
              rw [manyTrailing_of_many (hstep.many_eq hadv) hlast]
              simp only [← hrest, prepend, Report.merge_assoc]

/-- **A list with separators** has items, or is empty. -/
theorem separated_eq {item : Parser α} (hitem : NonGrowing item) (separator : Token.Kind) :
    separated item separator false
      = (fun values => values.getD []) <$> optional (items item separator) := by
  have hadv := advances_separator_item hitem separator
  funext eoi input
  rw [separated]
  cases hfirst : item eoi input with
  | error report =>
      have hitems : items item separator eoi input = .error report := bind_of_error hfirst
      rw [map_of_ok (optional_of_error hitems)]
      rfl
  | ok first =>
      have hlt : first.rest.count < input.count + 1 := Nat.lt_succ_of_le (hitem _ _ _ hfirst)
      have hmore := (manyRun_upTo hadv eoi _ _ hlt).many_eq hadv
      have hitems : items item separator eoi input
          = .ok (prepend first
              (upTo (token separator *> item) eoi (input.count + 1) first.rest)) := by
        rw [items, bind_of_ok hfirst, bind_of_ok hmore, pure_def]
        simp [prepend]
      rw [map_of_ok (optional_of_ok hitems)]
      simp only [separatedUpTo_false, Option.getD_some]

/-- **A list with separators**, the last of which may stand behind the last value. -/
theorem separated_trailing_eq {item : Parser α} (hitem : NonGrowing item)
    (separator : Token.Kind) :
    separated item separator true
      = (fun values => values.getD []) <$> optional (do
          let first ← item
          let more ← manyTrailing item separator
          return first :: more) := by
  funext eoi input
  rw [separated]
  cases hfirst : item eoi input with
  | error report => rw [map_of_ok (optional_of_error (bind_of_error hfirst))]; rfl
  | ok first =>
      have hlt : first.rest.count < input.count + 1 := Nat.lt_succ_of_le (hitem _ _ _ hfirst)
      have hmore := separatedUpTo_true item separator eoi hitem _ _ hlt
      have hitems : (do
          let first ← item
          let more ← manyTrailing item separator
          return first :: more : Parser (List α)) eoi input
          = .ok (prepend first
              (separatedUpTo item separator true eoi (input.count + 1) first.rest)) := by
        rw [bind_of_ok hfirst, bind_of_ok hmore, pure_def]
        simp [prepend]
      rw [map_of_ok (optional_of_ok hitems)]
      rfl

end Scriptlet.Parser
