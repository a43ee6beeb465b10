/-
**Every report has its reason in the tokens.**

Reports are merged: one of two is kept, and takes over what the other one expected.  What it
complains of, and where, is its own all the same.  So each complaint can be traced back to the
tokens that it is about: arguments of which one is no name, an innermost expression behind a point
that is none, or a number token that is not the text of a number.

Main definitions:

* `Scriptlet.Report.Founded` — **the reason of a report**, within some tokens;
* `Scriptlet.Parser.FoundsBelow` — a parser that reports for a reason only, on short inputs.

Main results:

* `Scriptlet.Report.Founded.furthest` — merged reports have their reasons still;
* `Scriptlet.Grammar.founds_any` — **statements and expressions are refused for a reason**;
* `Scriptlet.Program.founded_of_error` — and so are programs.
-/

import Scriptlet.Proofs.Syntax.Splitting

set_option relaxedAutoImplicit false
set_option autoImplicit false

namespace Scriptlet

open Scriptlet.Parser Scriptlet.Grammar

/-! ### Reasons -/

/-- **A report has its reason within some tokens.** -/
inductive Report.Founded (tokens : List Token) : Report → Prop
  /-- A token cannot stand where it stands. -/
  | unexpected (left : Nat) (span : Span) (found : Option Token) (expected : List Expectation) :
      Founded tokens ⟨left, span, .unexpected, found, expected⟩
  /-- The first of some arguments that is no name is complained about. -/
  | parameter {front mid rest : List Token} {o c : Token} {es : List Expr} {e : Expr} (left : Nat)
      (expected : List Expectation) (htokens : tokens = front ++ (o :: mid ++ c :: rest))
      (ho : o.kind = .openParen) (hc : c.kind = .closeParen)
      (hes : Derives .arguments (o :: mid ++ c :: rest) rest es)
      (he : es.find? (·.name?.isNone) = some e) :
      Founded tokens ⟨left, ⟨o.span.start, c.span.stop⟩, .parameter e, none, expected⟩
  /-- An innermost expression behind a point is no name. -/
  | property {front mid rest : List Token} {d last : Token} {e : Expr} (left : Nat)
      (expected : List Expectation) (htokens : tokens = front ++ (d :: mid ++ last :: rest))
      (hd : d.kind = .dot) (he : Derives .primary (mid ++ last :: rest) rest e)
      (hname : e.name? = none) :
      Founded tokens ⟨left, ⟨d.span.start, last.span.stop⟩, .property e, none, expected⟩
  /-- A number token is not the text of a number. -/
  | numeral {tok : Token} (left : Nat) (expected : List Expectation) (htok : tok ∈ tokens)
      (hkind : tok.kind = .number) (hread : Number.read tok.text = none) :
      Founded tokens ⟨left, tok.span, .numeral tok.text, none, expected⟩

namespace Report.Founded

variable {tokens rest : List Token} {a b report : Report}

/-- What is expected is not part of the reason. -/
theorem withExpected (h : a.Founded tokens) (expected : List Expectation) :
    Founded tokens { a with expected } := by
  cases h with
  | unexpected left span found => exact .unexpected left span found expected
  | parameter left _ htokens ho hc hes he => exact .parameter left expected htokens ho hc hes he
  | property left _ htokens hd he hname => exact .property left expected htokens hd he hname
  | numeral left _ htok hkind hread => exact .numeral left expected htok hkind hread

/-- **The furthest of two reports has its reason still.** -/
theorem furthest (a b : Report) (ha : a.Founded tokens) (hb : b.Founded tokens) :
    (a.furthest b).Founded tokens := by
  rcases furthest_cases a b with ⟨expected, h, -⟩ | ⟨expected, h, -⟩
  · exact h ▸ ha.withExpected expected
  · exact h ▸ hb.withExpected expected

/-- A reason within the last of some tokens is one within all of them. -/
theorem of_suffix (h : report.Founded rest) (hsuffix : rest <:+ tokens) :
    report.Founded tokens := by
  obtain ⟨read, rfl⟩ := hsuffix
  cases h with
  | unexpected left span found expected => exact .unexpected left span found expected
  | @parameter front mid back o c _ _ left expected htokens ho hc hes he =>
      have htokens' : read ++ rest = (read ++ front) ++ (o :: mid ++ c :: back) := by
        rw [htokens, List.append_assoc]
      exact .parameter left expected htokens' ho hc hes he
  | @property front mid back d last _ left expected htokens hd he hname =>
      have htokens' : read ++ rest = (read ++ front) ++ (d :: mid ++ last :: back) := by
        rw [htokens, List.append_assoc]
      exact .property left expected htokens' hd he hname
  | numeral left expected htok hkind hread =>
      exact .numeral left expected (List.mem_append_right _ htok) hkind hread

theorem of_unexpected (eoi : Nat) (input : Remaining) (expected : List Expectation) :
    (Parser.unexpected eoi input expected).Founded tokens := by
  rw [Parser.unexpected]
  split
  · exact .unexpected ..
  · exact .unexpected ..

end Report.Founded

/-! ### Parsers -/

namespace Parser

variable {α β : Type}

/-- What a run reports has its reason within some tokens, and what it leaves are the last of
them. -/
structure FoundedRun (tokens : List Token) (run : Except Report (Parsed α)) : Prop where
  /-- The report has its reason. -/
  reported : ∀ report ∈ Parser.reported run, report.Founded tokens
  /-- What is left are the last of the tokens. -/
  rest : ∀ result, run = .ok result → result.rest.tokens <:+ tokens

/-- **The parser reports for a reason**, on inputs of less than a number of tokens. -/
def FoundsBelow (n : Nat) (p : Parser α) : Prop :=
  ∀ eoi input, input.count < n → FoundedRun input.tokens (p eoi input)

namespace FoundedRun

variable {tokens rest : List Token}

theorem error {report : Report} (h : report.Founded tokens) :
    FoundedRun tokens (.error report : Except Report (Parsed α)) :=
  ⟨fun _ hr => Option.some_inj.1 hr ▸ h, fun _ hr => by cases hr⟩

theorem ok {value : α} {rest : Remaining} {missed : Option Report} (hrest : rest.tokens <:+ tokens)
    (hmissed : ∀ report ∈ missed, report.Founded tokens) :
    FoundedRun tokens (.ok ⟨value, rest, missed⟩) :=
  ⟨hmissed, fun _ hr => by cases hr; exact hrest⟩

theorem of_error {report : Report}
    (h : FoundedRun tokens (.error report : Except Report (Parsed α))) :
    report.Founded tokens := h.reported report rfl

theorem of_suffix {run : Except Report (Parsed α)} (h : FoundedRun rest run)
    (hsuffix : rest <:+ tokens) : FoundedRun tokens run :=
  ⟨fun report hr => (h.reported report hr).of_suffix hsuffix,
    fun result hr => (h.rest result hr).trans hsuffix⟩

/-- What is missed before a run is reported with it. -/
theorem keep {missed : Option Report} {run : Except Report (Parsed α)}
    (hmissed : ∀ report ∈ missed, report.Founded tokens) (h : FoundedRun tokens run) :
    FoundedRun tokens (Parser.keep missed run) := by
  refine ⟨?_, fun result hresult => ?_⟩
  · rw [reported_keep]
    exact Report.merge_forall Report.Founded.furthest hmissed h.reported
  · cases run with
    | error report => cases hresult
    | ok result' => cases hresult; exact h.rest result' rfl

/-- What is read in front of more of the same. -/
theorem prepend {first : Parsed α} {more : Parsed (List α)} (hfirst : FoundedRun tokens (.ok first))
    (hmore : FoundedRun tokens (.ok more)) :
    FoundedRun tokens (.ok (Parser.prepend first more)) :=
  .ok (hmore.rest more rfl)
    (Report.merge_forall Report.Founded.furthest hfirst.reported hmore.reported)

/-- There are no more tokens left than there were. -/
theorem count_le {input : Remaining} {result : Parsed α}
    (h : FoundedRun input.tokens (.ok result)) : result.rest.count ≤ input.count := by
  rw [result.rest.count_eq, input.count_eq]
  exact (h.rest result rfl).length_le

end FoundedRun

namespace FoundsBelow

variable {n : Nat}

theorem mono {m : Nat} {p : Parser α} (h : FoundsBelow n p) (hm : m ≤ n) : FoundsBelow m p :=
  fun eoi input hinput => h eoi input (Nat.lt_of_lt_of_le hinput hm)

theorem pure (value : α) : FoundsBelow n (pure value) := fun _ _ _ =>
  .ok (List.suffix_refl _) fun _ h => by cases h

theorem satisfy (use : Token → Option α) (expected : List Expectation) :
    FoundsBelow n (satisfy use expected) := by
  intro eoi input _
  rw [input.eq_ofList]
  cases htokens : input.tokens with
  | nil => exact .error (.of_unexpected _ _ _)
  | cons tok tokens =>
      cases huse : use tok with
      | none =>
          rw [satisfy_of_none huse]
          exact .error (.unexpected ..)
      | some value =>
          rw [satisfy_of_some huse]
          exact .ok (List.suffix_cons tok tokens) fun _ h => by cases h

theorem token (kind : Token.Kind) : FoundsBelow n (token kind) := satisfy _ _

theorem finish : FoundsBelow n Parser.finish := by
  intro eoi input _
  rw [Parser.finish]
  split
  · exact .ok (List.suffix_refl _) fun _ h => by cases h
  · exact .error (.of_unexpected _ _ _)

theorem bind {p : Parser α} {f : α → Parser β} (hp : FoundsBelow n p)
    (hf : ∀ a, FoundsBelow n (f a)) : FoundsBelow n (p >>= f) := by
  intro eoi input hinput
  have h := hp eoi input hinput
  cases hrun : p eoi input with
  | error report =>
      rw [hrun] at h
      rw [bind_of_error hrun]
      exact .error h.of_error
  | ok first =>
      rw [hrun] at h
      rw [bind_of_ok hrun]
      have hrest := hf first.value eoi first.rest (Nat.lt_of_le_of_lt h.count_le hinput)
      exact (hrest.of_suffix (h.rest first rfl)).keep h.reported

/-- Behind a token there is one token less. -/
theorem behind {kind : Token.Kind} {f : Token → Parser β} (hf : ∀ tok, FoundsBelow n (f tok)) :
    FoundsBelow (n + 1) (Parser.token kind >>= f) := by
  intro eoi input hinput
  have h : FoundedRun input.tokens (Parser.token kind eoi input) := token kind eoi input hinput
  cases hrun : Parser.token kind eoi input with
  | error report =>
      rw [hrun] at h
      rw [bind_of_error hrun]
      exact .error h.of_error
  | ok first =>
      rw [hrun] at h
      rw [bind_of_ok hrun]
      have hlt : first.rest.count < input.count := advances_token kind _ _ _ hrun
      have hrest := hf first.value eoi first.rest (by omega)
      exact (hrest.of_suffix (h.rest first rfl)).keep h.reported

theorem orElse {p q : Parser α} (hp : FoundsBelow n p) (hq : FoundsBelow n q) :
    FoundsBelow n (orElse p q) := by
  intro eoi input hinput
  have h := hp eoi input hinput
  have h' := hq eoi input hinput
  cases hrun : p eoi input with
  | ok first =>
      rw [orElse_of_ok hrun]
      exact hrun ▸ h
  | error a =>
      cases hrun' : q eoi input with
      | ok second =>
          rw [orElse_of_error hrun hrun']
          exact hrun' ▸ h'
      | error b =>
          rw [hrun] at h
          rw [hrun'] at h'
          rw [orElse_of_errors hrun hrun']
          exact .error (.furthest a b h.of_error h'.of_error)

theorem optional {p : Parser α} (hp : FoundsBelow n p) : FoundsBelow n (optional p) := by
  intro eoi input hinput
  have h := hp eoi input hinput
  cases hrun : p eoi input with
  | error report =>
      rw [hrun] at h
      rw [optional_of_error hrun]
      exact .ok (List.suffix_refl _) h.reported
  | ok first =>
      rw [hrun] at h
      rw [optional_of_ok hrun]
      exact .ok (h.rest first rfl) h.reported

/-- A repetition, by induction on the rounds that are left. -/
theorem many {p : Parser α} (hp : FoundsBelow n p) : FoundsBelow n (many p) := by
  intro eoi input hinput
  rw [Parser.many]
  generalize input.count + 1 = rounds
  induction rounds generalizing input with
  | zero => exact .ok (List.suffix_refl _) fun _ h => by cases h
  | succ rounds ih =>
      have h := hp eoi input hinput
      rw [upTo]
      cases hrun : p eoi input with
      | error report =>
          rw [hrun] at h
          exact .ok (List.suffix_refl _) h.reported
      | ok first =>
          rw [hrun] at h
          have hmore := ih first.rest (Nat.lt_of_le_of_lt h.count_le hinput)
          exact h.prepend (hmore.of_suffix (h.rest first rfl))

/-- Values behind separators, by induction on the rounds that are left. -/
theorem separatedUpTo {item : Parser α} (hitem : FoundsBelow n item) (separator : Token.Kind)
    (trailing : Bool) (eoi rounds : Nat) (input : Remaining) (hinput : input.count < n) :
    FoundedRun input.tokens
      (.ok (Parser.separatedUpTo item separator trailing eoi rounds input)) := by
  induction rounds generalizing input with
  | zero => exact .ok (List.suffix_refl _) fun _ h => by cases h
  | succ rounds ih =>
      have hmark : FoundedRun input.tokens (Parser.token separator eoi input) :=
        token separator eoi input hinput
      rw [Parser.separatedUpTo]
      cases hseparator : Parser.token separator eoi input with
      | error report =>
          rw [hseparator] at hmark
          exact .ok (List.suffix_refl _) hmark.reported
      | ok mark =>
          rw [hseparator] at hmark
          have hlt : mark.rest.count < n := Nat.lt_of_le_of_lt hmark.count_le hinput
          have h := hitem eoi mark.rest hlt
          dsimp only
          cases hrun : item eoi mark.rest with
          | error report =>
              rw [hrun] at h
              refine .ok ?_ (h.of_suffix (hmark.rest mark rfl)).reported
              split
              · exact hmark.rest mark rfl
              · exact List.suffix_refl _
          | ok first =>
              rw [hrun] at h
              have hmore := ih first.rest (Nat.lt_of_le_of_lt h.count_le hlt)
              exact (h.prepend (hmore.of_suffix (h.rest first rfl))).of_suffix (hmark.rest mark rfl)

theorem separated {item : Parser α} (hitem : FoundsBelow n item) (separator : Token.Kind)
    (trailing : Bool) : FoundsBelow n (separated item separator trailing) := by
  intro eoi input hinput
  have h := hitem eoi input hinput
  rw [Parser.separated]
  cases hrun : item eoi input with
  | error report =>
      rw [hrun] at h
      exact .ok (List.suffix_refl _) h.reported
  | ok first =>
      rw [hrun] at h
      have hmore := separatedUpTo hitem separator trailing eoi (input.count + 1) first.rest
        (Nat.lt_of_le_of_lt h.count_le hinput)
      exact h.prepend (hmore.of_suffix (h.rest first rfl))

/-- A check whose complaints have their reason in what was read. -/
theorem checked {p : Parser α} (hp : FoundsBelow n p) {check : α → Except Complaint β}
    (hcheck : ∀ eoi read rest value missed complaint, (read ++ rest).length < n →
      p eoi (.ofList (read ++ rest)) = .ok ⟨value, .ofList rest, missed⟩ →
      check value = .error complaint →
        Report.Founded (read ++ rest) ⟨rest.length, coveredSpan read, complaint, none, []⟩) :
    FoundsBelow n (checked p check) := by
  intro eoi input hinput
  have h := hp eoi input hinput
  rw [Parser.checked]
  cases hrun : p eoi input with
  | error report =>
      rw [hrun] at h
      exact .error h.of_error
  | ok first =>
      rw [hrun] at h
      obtain ⟨value, rest, missed⟩ := first
      dsimp only
      cases hvalue : check value with
      | ok value' => exact .ok (h.rest _ rfl) h.reported
      | error complaint =>
          obtain ⟨read, hread⟩ := h.rest _ rfl
          dsimp only at hread
          have hcount : input.count - rest.count = read.length := by
            rw [input.count_eq, rest.count_eq, ← hread, List.length_append]
            omega
          rw [input.eq_ofList, rest.eq_ofList, ← hread] at hrun
          have hfounded := hcheck eoi read rest.tokens value missed complaint
            (by rw [hread, ← input.count_eq]; exact hinput) hrun hvalue
          rw [← hread, hcount, List.take_left, rest.count_eq]
          exact .error hfounded

end FoundsBelow

end Parser

/-! ### Complaints -/

namespace Grammar

/-- Arguments stand between parentheses. -/
theorem Derives.exists_parentheses {tokens rest : List Token} {es : List Expr}
    (h : Derives .arguments tokens rest es) : ∃ o mid c, tokens = o :: mid ++ c :: rest ∧
      o.kind = .openParen ∧ c.kind = .closeParen := by
  cases h with
  | noArguments ho hc => exact ⟨_, [], _, rfl, ho, hc⟩
  | someArguments ho hes hc =>
      obtain ⟨mid, rfl, -⟩ := hes.exists_front
      exact ⟨_, mid, _, rfl, ho, hc⟩

/-- What is complained about is the first argument that is no name. -/
theorem parameterNames_eq_error {es : List Expr} {complaint : Complaint}
    (h : parameterNames es = .error complaint) :
    ∃ e, complaint = .parameter e ∧ es.find? (·.name?.isNone) = some e := by
  induction es with
  | nil => cases h
  | cons e es ih =>
      rw [parameterNames] at h
      cases hname : e.name? with
      | none =>
          rw [hname] at h
          cases h
          exact ⟨e, rfl, by rw [List.find?_cons, hname]; rfl⟩
      | some n =>
          rw [hname] at h
          cases hes : parameterNames es with
          | ok ps => rw [hes] at h; cases h
          | error complaint' =>
              rw [hes] at h
              cases h
              obtain ⟨e', hcomplaint, hfind⟩ := ih hes
              exact ⟨e', hcomplaint, by rw [List.find?_cons, hname]; exact hfind⟩

/-- The bytes from one token to another one. -/
theorem coveredSpan_append (first last : Token) (mid : List Token) :
    coveredSpan (first :: mid ++ [last]) = ⟨first.span.start, last.span.stop⟩ := by
  rw [coveredSpan, List.getLast?_concat]
  rfl

/-- **A complaint about arguments has its reason in them.** -/
theorem founded_parameters {eoi : Nat} {read rest : List Token} {es : List Expr}
    {missed : Option Report} {complaint : Complaint}
    (hrun : arguments anyExpression eoi (.ofList (read ++ rest)) = .ok ⟨es, .ofList rest, missed⟩)
    (h : parameterNames es = .error complaint) :
    Report.Founded (read ++ rest) ⟨rest.length, coveredSpan read, complaint, none, []⟩ := by
  have hes : Derives .arguments (read ++ rest) rest es :=
    derives_arguments (derives_any _).2 eoi _ _ (Nat.le_refl _) hrun
  obtain ⟨e, rfl, he⟩ := parameterNames_eq_error h
  obtain ⟨o, mid, c, htokens, ho, hc⟩ := hes.exists_parentheses
  have hread : read ++ rest = (o :: mid ++ [c]) ++ rest := by
    rw [htokens, List.append_assoc]
    rfl
  rw [htokens] at hes
  have htokens' : read ++ rest = [] ++ (o :: mid ++ c :: rest) := htokens
  rw [List.append_cancel_right hread, coveredSpan_append] at *
  exact .parameter rest.length [] htokens' ho hc hes he

/-- **A complaint about a property has its reason in what is behind the point.** -/
theorem founded_property {eoi : Nat} {read rest : List Token} {e : Expr} {missed : Option Report}
    (hrun : (token .dot *> primary anyStatement anyExpression) eoi (.ofList (read ++ rest))
      = .ok ⟨e, .ofList rest, missed⟩)
    (hname : e.name? = none) :
    Report.Founded (read ++ rest) ⟨rest.length, coveredSpan read, .property e, none, []⟩ := by
  rw [seqRight_def] at hrun
  obtain ⟨mark, last, h₁, h₂, hresult⟩ := bind_eq_ok hrun
  obtain ⟨d, tokens, htokens, hd, rfl⟩ := token_eq_ok h₁
  obtain ⟨property, left, missed'⟩ := last
  cases hresult
  have htokens : read ++ rest = d :: tokens := congrArg Remaining.tokens htokens
  have he : Derives .primary tokens rest property :=
    derives_primary (derives_any _).1 (derives_any _).2 eoi _ _ (Nat.le_refl _) h₂
  obtain ⟨front, rfl, -⟩ := he.exists_front
  -- something was read behind the point
  have hlt : rest.length < (front ++ rest).length :=
    advances_primary advances_anyStatement advances_anyExpression _ _ _ h₂
  rcases List.eq_nil_or_concat front with rfl | ⟨mid, last, rfl⟩
  · exact absurd hlt (Nat.lt_irrefl _)
  rw [List.concat_eq_append, List.append_assoc] at htokens he
  have hread : read ++ rest = (d :: mid ++ [last]) ++ rest := htokens.trans (by simp)
  have htokens' : read ++ rest = [] ++ (d :: mid ++ last :: rest) := htokens
  rw [List.append_cancel_right hread, coveredSpan_append] at *
  exact .property rest.length [] htokens' hd he hname

/-! ### Rules -/

variable {n : Nat}

theorem founds_name : FoundsBelow n name := (FoundsBelow.token _).bind fun _ => .pure _

/-- What is between two tokens is behind the first of them. -/
theorem founds_between {α : Type} (opening closing : Token.Kind) {inner : Parser α}
    (h : FoundsBelow n inner) : FoundsBelow (n + 1) (between opening closing inner) :=
  .behind fun _ => h.bind fun _ => (FoundsBelow.token _).bind fun _ => .pure _

/-- A mark with something behind it that may be missing. -/
theorem founds_marked {α : Type} (mark : Token.Kind) {p : Parser α} (h : FoundsBelow n p) :
    FoundsBelow (n + 1) (optional (token mark *> p)) :=
  .optional (.behind fun _ => h)

/-- A number token that is not the text of a number is the reason for a complaint. -/
theorem founds_number : FoundsBelow n number := by
  intro eoi input _
  rw [input.eq_ofList]
  cases htokens : input.tokens with
  | nil =>
      rw [number_of_headKind_ne (by simp)]
      exact .error (.of_unexpected _ _ _)
  | cons tok tokens =>
      by_cases hkind : tok.kind = .number
      · rw [number_of_kind hkind]
        cases hread : Number.read tok.text with
        | some x => exact .ok (List.suffix_cons tok tokens) fun _ h => by cases h
        | none => exact .error (.numeral _ _ List.mem_cons_self hkind hread)
      · rw [number_of_kind_ne hkind]
        exact .error (.unexpected ..)

theorem founds_chain {operand : Parser Expr} (allowed : List Operator)
    (h : FoundsBelow n operand) : FoundsBelow n (chain allowed operand) := by
  have hoperation : FoundsBelow n (operation allowed operand) :=
    (FoundsBelow.satisfy _ _).bind fun _ => h.bind fun _ => .pure _
  exact h.bind fun _ => hoperation.many.bind fun _ => .pure _

section Rules

variable (hs : FoundsBelow n anyStatement) (he : FoundsBelow n anyExpression)

include he in
theorem founds_arguments : FoundsBelow (n + 1) (arguments anyExpression) :=
  founds_between _ _ (he.separated _ _)

include hs he in
theorem founds_function : FoundsBelow (n + 1) (function anyStatement anyExpression) := by
  have hparameters : FoundsBelow (n + 1) (parameters anyExpression) :=
    (founds_arguments he).checked fun _ _ _ _ _ _ _ hrun h => founded_parameters hrun h
  have hblock : FoundsBelow (n + 1) (block anyStatement) := founds_between _ _ hs.many
  exact .behind fun _ => founds_name.bind fun _ => (hparameters.mono (Nat.le_succ n)).bind fun _ =>
    (hblock.mono (Nat.le_succ n)).bind fun _ => .pure _

include hs he in
theorem founds_primary : FoundsBelow (n + 1) (primary anyStatement anyExpression) :=
  .orElse (founds_name.bind fun _ => .pure _) <|
    .orElse (founds_number.bind fun _ => .pure _) <|
      .orElse (founds_between _ _ he) (founds_function hs he)

include hs he in
theorem founds_dotAccess : FoundsBelow (n + 1) (dotAccess anyStatement anyExpression) := by
  have hproperty : FoundsBelow (n + 1) (token .dot *> primary anyStatement anyExpression) :=
    .behind fun _ => (founds_primary hs he).mono (Nat.le_succ n)
  refine hproperty.checked fun eoi read rest e missed complaint _ hrun h => ?_
  split at h
  · cases h
  · next hname =>
    cases h
    exact founded_property hrun (by simpa using hname)

include hs he in
theorem founds_call : FoundsBelow (n + 1) (call anyStatement anyExpression) := by
  have hindex : FoundsBelow (n + 1) (indexAccess anyExpression) :=
    (founds_between _ _ he).bind fun _ => .pure _
  have hmember : FoundsBelow (n + 1) (member anyStatement anyExpression) :=
    (founds_primary hs he).bind fun _ =>
      ((founds_dotAccess hs he).orElse hindex).many.bind fun _ => .pure _
  exact hmember.bind fun _ => (founds_arguments he).many.bind fun _ => .pure _

include he in
theorem founds_object : FoundsBelow (n + 1) (object anyExpression) := by
  have hentry : FoundsBelow n (entry anyExpression) := by
    refine founds_name.bind fun key =>
      ((founds_marked _ he).mono (Nat.le_succ n)).bind fun value => ?_
    cases value <;> exact .pure _
  exact (founds_between _ _ (hentry.separated _ _)).bind fun _ => .pure _

include hs he in
theorem founds_expressionLayer :
    FoundsBelow (n + 1) (expressionLayer anyStatement anyExpression) := by
  have hsum : FoundsBelow (n + 1) (sum anyStatement anyExpression) :=
    founds_chain _ (founds_chain _ (founds_call hs he))
  refine ((founds_object he).orElse hsum).bind fun target =>
    (founds_marked _ he).bind fun value => ?_
  cases value <;> exact .pure _

include he in
theorem founds_statementLayer : FoundsBelow n (statementLayer anyExpression) := by
  have hlet : FoundsBelow n (letStatement anyExpression) :=
    (FoundsBelow.token _).bind fun _ => founds_name.bind fun _ =>
      ((founds_marked _ he).mono (Nat.le_succ n)).bind fun _ =>
        (FoundsBelow.token _).bind fun _ => .pure _
  have hconst : FoundsBelow n (constStatement anyExpression) :=
    (FoundsBelow.token _).bind fun _ => founds_name.bind fun _ =>
      (FoundsBelow.token _).bind fun _ => he.bind fun _ =>
        (FoundsBelow.token _).bind fun _ => .pure _
  have hexpression : FoundsBelow n (expressionStatement anyExpression) :=
    he.bind fun _ => (FoundsBelow.optional (.token _)).bind fun _ => .pure _
  exact hlet.orElse (hconst.orElse hexpression)

end Rules

/-- **Statements and expressions are refused for a reason.** -/
theorem founds_any (n : Nat) : FoundsBelow n anyStatement ∧ FoundsBelow n anyExpression := by
  induction n with
  | zero => exact ⟨fun _ _ h => absurd h (Nat.not_lt_zero _), fun _ _ h =>
      absurd h (Nat.not_lt_zero _)⟩
  | succ n ih =>
      -- a layer reads a token before it comes back to statements and expressions
      have he : FoundsBelow (n + 1) anyExpression := by
        rw [anyExpression_eq]
        exact founds_expressionLayer ih.1 ih.2
      refine ⟨?_, he⟩
      rw [anyStatement_eq]
      exact founds_statementLayer he

theorem founds_anyProgram (n : Nat) : FoundsBelow n anyProgram :=
  (founds_any n).1.many.bind fun _ => (FoundsBelow.token _).bind fun _ =>
    FoundsBelow.finish.bind fun _ => .pure _

end Grammar

/-- **A program is refused for a reason.** -/
theorem Program.founded_of_error {tokens : List Token} {error : SyntaxError}
    (h : Program.ofTokens tokens = .error error) :
    ∃ report, anyProgram (endOffset tokens) (.ofList tokens) = .error report ∧
      report.toError = error ∧ report.Founded tokens := by
  cases hrun : anyProgram (endOffset tokens) (.ofList tokens) with
  | ok result =>
      rw [Program.ofTokens_of_ok hrun] at h
      cases h
  | error report =>
      rw [Program.ofTokens_of_error hrun] at h
      have hfounded := founds_anyProgram (tokens.length + 1) (endOffset tokens) (.ofList tokens)
        (Nat.lt_succ_self _)
      rw [hrun] at hfounded
      exact ⟨report, rfl, Except.error.inj h, hfounded.of_error⟩

end Scriptlet
