/-
**Errors list exactly what could stand there.**

When a parse fails at an unexpected token, that token is the first one that is impossible: no
tokens that begin like this are a program.  What the error expects there are the tokens with which
the parse could go on, all of them and no others: up to a program, or up to something that the
parser reads and complains about.

That nothing is missing follows from the steadiness of the parsers: a token that is not listed would
have been reported in the same way.  That nothing is listed in vain is that what the parsers expect
can be gone on with.

Main definitions:

* `Scriptlet.Token.describeExpected` — a token in a list of what could stand somewhere;
* `Scriptlet.Program.Viable` — **the tokens that can stand behind some others**.

Main results:

* `Scriptlet.Program.expected_of_unexpected` — **an error lists exactly the tokens that could stand
  in place of the unexpected one**.
-/

import Scriptlet.Proofs.Syntax.Predictive

set_option relaxedAutoImplicit false
set_option autoImplicit false

namespace Scriptlet

/-! ### Texts -/

/-- A token in a list of what could stand somewhere: an operator by its text, any other token by its
kind. -/
def Token.describeExpected (tok : Token) : String :=
  if tok.kind = .operator then "'" ++ tok.text ++ "'" else tok.kind.describe

namespace Expectation

/-- All that can be expected. -/
def all : List Expectation := Token.Kind.all.map .kind ++ Operator.all.map .operator

/-- What is expected is known by its text. -/
theorem find?_describe (e : Expectation) :
    all.find? (fun e' => e'.describe = e.describe) = some e := by
  cases e with
  | kind k => cases k <;> decide
  | operator op => cases op <;> decide

theorem describe_injective {e e' : Expectation} (h : e.describe = e'.describe) : e = e' := by
  have he := find?_describe e
  rw [h, find?_describe e'] at he
  exact (Option.some_inj.1 he).symm

theorem Wants.describe {e : Expectation} {tok : Token} (h : e.Wants tok) :
    e.describe = tok.describeExpected := by
  cases e with
  | kind k =>
      obtain ⟨rfl, hne⟩ := h
      rw [Token.describeExpected, if_neg hne]
      rfl
  | operator op =>
      have hkind := Grammar.kind_of_operator? h
      have htext : Operator.ofSymbol? tok.text = some op := by
        simpa [Wants, Token.operator?, hkind] using h
      rw [Token.describeExpected, if_pos hkind, Operator.ofSymbol?_eq_some_iff.1 htext]
      rfl

/-- A token that is described as what is expected is wanted, if it is no strange operator. -/
theorem wants_of_describe {e : Expectation} {tok : Token}
    (htok : tok.kind = .operator → tok.operator?.isSome)
    (h : e.describe = tok.describeExpected) : e.Wants tok := by
  obtain ⟨e', he'⟩ : ∃ e' : Expectation, e'.Wants tok := by
    by_cases hkind : tok.kind = .operator
    · obtain ⟨op, hop⟩ := Option.isSome_iff_exists.1 (htok hkind)
      exact ⟨.operator op, hop⟩
    · exact ⟨.kind tok.kind, rfl, hkind⟩
  rwa [describe_injective (h.trans he'.describe.symm)]

end Expectation

/-- The error is a complaint about something that was read. -/
def SyntaxError.IsRefusal (error : SyntaxError) : Prop :=
  ∃ found : Expr, error.message = (Complaint.parameter found).message ∨
    error.message = (Complaint.property found).message

/-- Texts that begin with different characters. -/
theorem append_ne {a b c : String} {x y : Char} (ha : a.toList.head? = some x)
    (hc : c.toList.head? = some y) (hne : x ≠ y) : a ++ b ≠ c := by
  rintro rfl
  rw [String.toList_append, List.head?_append, ha] at hc
  exact hne (Option.some_inj.1 hc)

theorem Complaint.eq_unexpected_of_message {complaint : Complaint}
    (h : complaint.message = "unexpected token") : complaint = .unexpected := by
  have hhead : "unexpected token".toList.head? = some 'u' := by decide
  cases complaint with
  | unexpected => rfl
  | parameter found => exact absurd h (append_ne (show _ = some 'f' by decide) hhead (by decide))
  | property found => exact absurd h (append_ne (show _ = some 'c' by decide) hhead (by decide))
  | numeral text =>
      have h : "invalid numeric literal '" ++ text ++ "'" = "unexpected token" := h
      rw [String.append_assoc] at h
      exact absurd h (append_ne (show _ = some 'i' by decide) hhead (by decide))

/-- An unexpected token is not complained about. -/
theorem SyntaxError.not_isRefusal {error : SyntaxError} (h : error.message = "unexpected token") :
    ¬ error.IsRefusal := by
  rintro ⟨found, hfound | hfound⟩
  · cases Complaint.eq_unexpected_of_message (hfound.symm.trans h)
  · cases Complaint.eq_unexpected_of_message (hfound.symm.trans h)

theorem Report.isRefusal_toError {report : Report} (h : report.complaint.Own) :
    report.toError.IsRefusal := by
  cases hcomplaint : report.complaint with
  | parameter found => exact ⟨found, Or.inl (by rw [Report.toError, hcomplaint])⟩
  | property found => exact ⟨found, Or.inr (by rw [Report.toError, hcomplaint])⟩
  | unexpected => rw [hcomplaint] at h; exact h.elim
  | numeral text => rw [hcomplaint] at h; exact h.elim

/-- The expectations of an error are those of its report. -/
theorem Report.mem_expected_toError {report : Report} {text : String} :
    text ∈ report.toError.expected ↔ ∃ e ∈ report.expected, e.describe = text := by
  rw [Report.toError, Table.mem_names_ofList]
  simp

theorem Report.pairwise_expected_toError (report : Report) :
    report.toError.expected.Pairwise (· < ·) :=
  List.pairwise_map.2 (Table.ofList _).increasing

namespace Grammar

open Scriptlet.Parser

/-! ### The end of a program -/

/-- What is behind the statements of a program: the end of the input, and nothing else. -/
def ending (body : List Stmt) : Parser Program := do
  let _ ← token .endOfInput
  finish
  return ⟨body⟩

theorem anyProgram_eq : anyProgram = many anyStatement >>= ending := rfl

theorem clear_all {tokens : List Token} (h : Clear Token.Kind.all tokens) : tokens = [] := by
  cases tokens with
  | nil => rfl
  | cons tok tokens => exact absurd rfl (h tok.kind (by cases tok.kind <;> decide))

theorem ends_finish (body : List Stmt) :
    Ends [] Token.Kind.all (finish >>= fun _ => pure (⟨body⟩ : Program)) := by
  refine ⟨[], ⟨body⟩, fun tail hclear => ⟨nofun, ?_⟩⟩
  rw [clear_all hclear]
  exact fun _ => ⟨none, rfl⟩

theorem ends_ending (body : List Stmt) :
    Ends Symbol.statements.goesOn Token.Kind.all (ending body) :=
  (Ends.token (by decide)).bind fun _ => ends_finish body

theorem within_finish (n : Nat) (body : List Stmt) :
    WithinBelow n (finish >>= fun _ => pure (⟨body⟩ : Program)) :=
  WithinBelow.finish.bind fun _ _ _ _ _ _ _ => .pure _

theorem within_ending (n : Nat) (body : List Stmt) : WithinBelow n (ending body) :=
  (WithinBelow.satisfy _ _).bind fun _ _ _ _ _ _ _ => within_finish _ body

theorem steady_finish (n : Nat) (body : List Stmt) :
    Steady n (finish >>= fun _ => pure (⟨body⟩ : Program)) :=
  Steady.finish.bind .finish fun _ _ _ _ _ _ _ => ⟨.pure _, .pure _⟩

/-- **A program is steady.** -/
theorem steady_anyProgram (n : Nat) : Steady n anyProgram := by
  have h := predictive_statements n
  have hending : ∀ n body, Steady n (ending body) := fun n body =>
    (Steady.token (by decide)).bind (.satisfy _ _) fun _ _ _ _ _ _ _ =>
      ⟨within_finish _ body, steady_finish _ body⟩
  rw [anyProgram_eq]
  exact h.steady.bind h.guarded.within fun _ _ body _ _ _ _ =>
    ⟨within_ending _ body, hending _ body⟩

/-- **What a program expects can be gone on with.** -/
theorem completable_anyProgram (n : Nat) : Completable n Token.Kind.all anyProgram := by
  have h := predictive_statements n
  have hfinish : ∀ n body,
      Completable n Token.Kind.all (finish >>= fun _ => pure (⟨body⟩ : Program)) :=
    fun n body => Completable.finish.bind .finish .finish
      (fun _ => .pure _ (List.Subset.refl _)) fun _ _ _ _ _ _ _ => ⟨.pure _, .pure _⟩
  have hending : ∀ n body, Completable n Token.Kind.all (ending body) := fun n body =>
    (Completable.token (by decide)).bind (.satisfy _ _) (.token (by decide))
      (fun _ => ends_finish body) fun _ _ _ _ _ _ _ => ⟨within_finish _ body, hfinish _ body⟩
  rw [anyProgram_eq]
  exact h.completable.bind h.guarded.within h.steady ends_ending fun _ _ body _ _ _ _ =>
    ⟨within_ending _ body, hending _ body⟩

theorem ending_of_headKind_ne {eoi : Nat} {body : List Stmt} {rest : List Token}
    (h : headKind rest ≠ some .endOfInput) : ending body eoi (.ofList rest)
      = .error (unexpected eoi (.ofList rest) [.kind .endOfInput]) :=
  bind_of_error (token_of_headKind_ne h)

/-- The end of a program does not get past what is complained about. -/
theorem exists_report_of_refused {eoi : Nat} {refused rest : List Token}
    (hrefused : Refused eoi refused) (hsuffix : refused <:+ rest) (body : List Stmt) :
    ∃ report, ending body eoi (.ofList rest) = .error report ∧ refused.length ≤ report.left := by
  by_cases hhead : headKind rest = some .endOfInput
  · cases rest with
    | nil => cases hhead
    | cons tok more =>
        have hne := hrefused.headKind_ne
        have hmore : refused <:+ more := by
          rcases List.suffix_cons_iff.1 hsuffix with rfl | hmore
          · exact absurd hhead hne
          · exact hmore
        have hread : token .endOfInput eoi (.ofList (tok :: more))
            = .ok ⟨tok, .ofList more, none⟩ := token_of_kind (Option.some_inj.1 hhead)
        refine ⟨unexpected eoi (.ofList more) [], ?_, ?_⟩
        · rw [ending, bind_of_ok hread, keep_none]
          cases more with
          | nil => rcases hrefused with ⟨h, -⟩ | ⟨h, -⟩ <;> simp_all
          | cons tok' more => rfl
        · rw [unexpected_left]
          exact hmore.length_le
  · refine ⟨_, ending_of_headKind_ne hhead, ?_⟩
    rw [unexpected_left]
    exact hsuffix.length_le

/-- What a program is blocked at is complained about. -/
theorem own_of_blocked {eoi : Nat} {tokens : List Token} (h : Blocked anyProgram tokens) :
    ∃ report, anyProgram eoi (.ofList tokens) = .error report ∧ report.complaint.Own := by
  obtain ⟨refused, hrefused, hsuffix, hpasses⟩ := h eoi
  have hguarded := (predictive_statements (tokens.length + 1)).guarded eoi tokens
    (Nat.lt_succ_self _)
  -- neither the statements nor the end of the program get past it, but by a complaint
  have hclosed : ∀ a b : Report, (refused.length ≤ a.left ∨ a.complaint.Own) →
      (refused.length ≤ b.left ∨ b.complaint.Own) →
        refused.length ≤ (a.furthest b).left ∨ (a.furthest b).complaint.Own := by
    intro a b ha hb
    rcases Report.furthest_cases a b with ⟨expected, h, -⟩ | ⟨expected, h, -⟩ <;>
      rw [h] <;> assumption
  rw [anyProgram_eq] at hpasses ⊢
  rcases bind_cases (many anyStatement) ending eoi tokens with
    ⟨report, h₁, h₂⟩ | ⟨body, rest, missed, h₁, h₂⟩
  · rw [h₂, reported_error, Report.passes_some] at hpasses
    rw [h₁] at hguarded
    rcases (hguarded.fits _ rfl).barrier refused (Or.inr hrefused) hsuffix with hle | hown
    · omega
    · exact ⟨report, h₂, hown⟩
  · rw [h₁] at hguarded
    have hrest := hguarded.keeps _ _ _ rfl refused (Or.inr hrefused) hsuffix
    obtain ⟨report, hending, hle⟩ := exists_report_of_refused hrefused hrest body
    have hreport := congrArg reported h₂
    rw [hending, keep_error] at h₂
    rw [h₂, hending, reported_keep] at hreport
    rw [h₂, reported_error, Report.passes_some] at hpasses
    refine ⟨_, h₂, ?_⟩
    rcases Report.merge_forall hclosed
      (fun r hr => (hguarded.fits r hr).barrier refused (Or.inr hrefused) hsuffix)
      (by rintro r ⟨⟩; exact Or.inl hle) _ hreport.symm with hle' | hown
    · omega
    · exact hown

/-! ### The report of a program -/

/-- The end of the input is only at the end. -/
theorem eq_singleton_of_headKind {body rest : List Token} {last : Token}
    (hbody : ∀ tok ∈ body, tok.kind ≠ .endOfInput) (hsuffix : rest <:+ body ++ [last])
    (hend : [last] <:+ rest) (hhead : headKind rest = some .endOfInput) : rest = [last] := by
  obtain ⟨more, rfl⟩ := hend
  obtain ⟨read, hread⟩ := hsuffix
  rw [← List.append_assoc] at hread
  have hmore := List.append_cancel_right hread
  cases more with
  | nil => rfl
  | cons tok more => exact absurd (Option.some_inj.1 hhead) (hbody tok (hmore ▸ by simp))

/-- A report on a program fits its tokens, and it does not stand behind the end of the input. -/
theorem fits_of_error {eoi : Nat} {body : List Token} {last : Token} {report : Report}
    (hbody : ∀ tok ∈ body, tok.kind ≠ .endOfInput) (hlast : last.kind = .endOfInput)
    (h : anyProgram eoi (.ofList (body ++ [last])) = .error report) :
    report.Fits eoi (body ++ [last]) ∧ report.left ≤ (body ++ [last]).length := by
  have hguarded := (predictive_statements ((body ++ [last]).length + 1)).guarded eoi _
    (Nat.lt_succ_self _)
  rw [anyProgram_eq] at h
  rcases bind_cases (many anyStatement) ending eoi (body ++ [last]) with
    ⟨report', h₁, h₂⟩ | ⟨ss, rest, missed, h₁, h₂⟩
  · rw [h₂, Except.error.injEq] at h
    rw [h₁] at hguarded
    exact h ▸ ⟨hguarded.fits _ rfl, hguarded.left_le _ rfl⟩
  rw [h₁] at hguarded
  rw [h₂] at h
  by_cases hhead : headKind rest = some .endOfInput
  · -- behind the statements stands the end of the input, so the program is read
    exfalso
    have hend : [last] <:+ rest :=
      hguarded.keeps _ _ _ rfl _ (Or.inl (congrArg some hlast)) (List.suffix_append _ _)
    obtain rfl := eq_singleton_of_headKind hbody (hguarded.suffix _ _ _ rfl) hend hhead
    have hok : ending ss eoi (.ofList [last]) = .ok ⟨⟨ss⟩, .ofList [], none⟩ := by
      rw [ending, bind_of_ok (token_of_kind hlast)]
      rfl
    rw [hok] at h
    cases h
  · have hending : Guarded eoi rest (ending ss eoi (.ofList rest)) :=
      ending_of_headKind_ne hhead ▸ .of_headKind_ne hhead
    have hprogram := hguarded.keep hending
    rw [h] at hprogram
    exact ⟨hprogram.fits _ rfl, hprogram.left_le _ rfl⟩

end Grammar

/-! ### Tokens that could stand there -/

open Scriptlet.Parser Scriptlet.Grammar

/-- **The tokens that can stand behind some others**: with some tokens behind them they are a
program, or something that is read is complained about. -/
def Program.Viable (front : List Token) (tok : Token) : Prop :=
  ∃ rest, (∃ program, Program.ofTokens (front ++ tok :: rest) = .ok program) ∨
    ∃ error, Program.ofTokens (front ++ tok :: rest) = .error error ∧ error.IsRefusal

theorem Program.ofTokens_of_ok {tokens : List Token} {result : Parsed Program}
    (h : anyProgram (endOffset tokens) (.ofList tokens) = .ok result) :
    Program.ofTokens tokens = .ok result.value := by
  rw [Program.ofTokens, Program.readTokens_eq, h]
  rfl

theorem Program.ofTokens_of_error {tokens : List Token} {report : Report}
    (h : anyProgram (endOffset tokens) (.ofList tokens) = .error report) :
    Program.ofTokens tokens = .error report.toError := by
  rw [Program.ofTokens, Program.readTokens_eq, h]
  rfl

/-- What a program expects is viable. -/
theorem Program.exists_viable {eoi : Nat} {front back : List Token} {tok : Token}
    {report : Report} {e : Expectation} (hclean : Unrefused eoi front (tok :: back))
    (h : anyProgram eoi (.ofList (front ++ tok :: back)) = .error report)
    (hleft : report.left = back.length + 1) (he : e ∈ report.expected) :
    ∃ t, Program.Viable front t ∧ t.describeExpected = e.describe := by
  have hlists : Report.Lists (reported (anyProgram eoi (.ofList (front ++ tok :: back))))
      (back.length + 1) e := by
    rw [h]
    exact Report.lists_some.2 ⟨hleft, he⟩
  obtain ⟨t, more, hwants, hfinishes⟩ := completable_anyProgram _ eoi front tok back e
    (Nat.lt_succ_self _) hclean hlists
  refine ⟨t, ⟨more, ?_⟩, hwants.describe.symm⟩
  rcases hfinishes with ⟨program, hreads⟩ | hblocked
  · obtain ⟨missed, hread⟩ := hreads [] (.nil _) (endOffset (front ++ t :: more))
    rw [List.append_nil] at hread
    exact Or.inl ⟨program, Program.ofTokens_of_ok hread⟩
  · obtain ⟨report', hreport', hown⟩ := own_of_blocked hblocked
    exact Or.inr ⟨_, Program.ofTokens_of_error hreport', Report.isRefusal_toError hown⟩

/-- What is viable is expected. -/
theorem Program.Viable.exists_wants {eoi : Nat} {front back : List Token} {tok t : Token}
    {report : Report} (ht : Program.Viable front t) (hclean : Unrefused eoi front (tok :: back))
    (h : anyProgram eoi (.ofList (front ++ tok :: back)) = .error report)
    (hleft : report.left = back.length + 1) (hcomplaint : report.complaint = .unexpected) :
    ∃ e ∈ report.expected, e.Wants t := by
  obtain ⟨rest, hrest⟩ := ht
  have hstays : Stays (tok :: back) (anyProgram eoi (.ofList (front ++ tok :: back))) := by
    rw [h]
    exact .error (by simp [hleft])
  rcases steady_anyProgram _ eoi (endOffset (front ++ t :: rest)) front tok back t rest
    (Nat.lt_succ_self _) hclean hstays with hagree | ⟨e, he, hwants⟩
  · -- the parse would fail in the same way
    exfalso
    rw [h] at hagree
    obtain ⟨b, hb, -, -, -, hb', -⟩ := hagree.of_error
    rw [hcomplaint] at hb'
    rcases hrest with ⟨program, hrest⟩ | ⟨error, hrest, hrefusal⟩
    · rw [Program.ofTokens_of_error hb] at hrest
      cases hrest
    · rw [Program.ofTokens_of_error hb, Except.error.injEq] at hrest
      refine SyntaxError.not_isRefusal ?_ hrefusal
      rw [← hrest, Report.toError, ← hb']
      rfl
  · rw [h, reported_error, Report.lists_some] at he
    exact ⟨e, he.2, hwants⟩

theorem exists_split {tokens : List Token} {k : Nat} (hpos : 0 < k) (hle : k ≤ tokens.length) :
    ∃ front tok back, tokens = front ++ tok :: back ∧ k = back.length + 1 := by
  have hlength : (tokens.drop (tokens.length - k)).length = k := by
    rw [List.length_drop]
    omega
  cases hdrop : tokens.drop (tokens.length - k) with
  | nil =>
      rw [hdrop] at hlength
      simp at hlength
      omega
  | cons tok back =>
      refine ⟨tokens.take (tokens.length - k), tok, back, ?_, ?_⟩
      · rw [← hdrop, List.take_append_drop]
      · rw [← hlength, hdrop]
        rfl

/-- **An error lists exactly the tokens that could stand in place of the unexpected one.**  The
tokens in front of it can be gone on with by the tokens that are listed and by no others; the list
is sorted, without duplicates and not empty; and the unexpected token is not on it, so no program
begins with the tokens up to it. -/
theorem Program.expected_of_unexpected {body : List Token} {last : Token} {error : SyntaxError}
    (hbody : ∀ tok ∈ body, tok.kind ≠ .endOfInput ∧
      (tok.kind = .operator → tok.operator?.isSome))
    (hlast : last.kind = .endOfInput) (h : Program.ofTokens (body ++ [last]) = .error error)
    (hmessage : error.message = "unexpected token") :
    ∃ front tok back, body ++ [last] = front ++ tok :: back ∧ error.span = tok.span ∧
      error.found = some tok.describe ∧
      error.expected.Pairwise (· < ·) ∧
      (∀ text, text ∈ error.expected ↔
        ∃ t, Program.Viable front t ∧ t.describeExpected = text) ∧
      error.expected ≠ [] ∧ tok.describeExpected ∉ error.expected ∧
      ∀ rest program, Program.ofTokens (front ++ tok :: rest) ≠ .ok program := by
  obtain ⟨report, eoi, hreport, rfl⟩ : ∃ report eoi,
      anyProgram eoi (.ofList (body ++ [last])) = .error report ∧ error = report.toError := by
    cases hrun : anyProgram (endOffset (body ++ [last])) (.ofList (body ++ [last])) with
    | ok result => rw [Program.ofTokens_of_ok hrun] at h; cases h
    | error report =>
        rw [Program.ofTokens_of_error hrun, Except.error.injEq] at h
        exact ⟨report, _, hrun, h.symm⟩
  have hcomplaint := Complaint.eq_unexpected_of_message hmessage
  have hnotown : ¬ report.complaint.Own := by
    rw [hcomplaint]
    exact id
  obtain ⟨hfits, hle⟩ := fits_of_error (fun tok htok => (hbody tok htok).1) hlast hreport
  -- the report stands at a token, since nothing gets behind the end of the input
  have hpos : 0 < report.left :=
    (hfits.barrier [last] (Or.inl (congrArg some hlast)) (List.suffix_append _ _)).resolve_right
      hnotown
  obtain ⟨front, tok, back, hsplit, hleft⟩ := exists_split hpos hle
  have htok : tok.kind = .operator → tok.operator?.isSome := by
    intro hkind
    have hmem : tok ∈ body ++ [last] := hsplit ▸ by simp
    rcases List.mem_append.1 hmem with hmem | hmem
    · exact (hbody tok hmem).2 hkind
    · rw [List.mem_singleton.1 hmem, hlast] at hkind
      cases hkind
  rw [hsplit] at hfits hreport
  have hclean : Unrefused eoi front (tok :: back) := by
    intro refused hrefused hsuffix
    have hle := (hfits.barrier refused (Or.inr hrefused) hsuffix).resolve_right hnotown
    rwa [hleft] at hle
  obtain ⟨hfound, hspan, hne⟩ :=
    hfits.found tok back (List.suffix_append _ _) hleft hcomplaint
  have hunwanted := hfits.unwanted tok back (List.suffix_append _ _) hleft
  have hlisted : ∀ text, text ∈ report.toError.expected ↔
      ∃ t, Program.Viable front t ∧ t.describeExpected = text := by
    intro text
    rw [Report.mem_expected_toError]
    constructor
    · rintro ⟨e, he, rfl⟩
      exact Program.exists_viable hclean hreport hleft he
    · rintro ⟨t, ht, rfl⟩
      obtain ⟨e, he, hwants⟩ := ht.exists_wants hclean hreport hleft hcomplaint
      exact ⟨e, he, hwants.describe⟩
  have hnot : tok.describeExpected ∉ report.toError.expected := by
    intro hmem
    obtain ⟨e, he, hdescribe⟩ := Report.mem_expected_toError.1 hmem
    exact hunwanted e he (Expectation.wants_of_describe htok hdescribe)
  refine ⟨front, tok, back, hsplit, hspan, ?_, report.pairwise_expected_toError, hlisted, ?_, hnot,
    fun rest program hok => ?_⟩
  · rw [Report.toError, hfound]
    rfl
  · obtain ⟨e, he⟩ := List.exists_mem_of_ne_nil _ hne
    exact List.ne_nil_of_mem (Report.mem_expected_toError.2 ⟨e, he, rfl⟩)
  · exact hnot ((hlisted _).2 ⟨tok, ⟨rest, Or.inl ⟨program, hok⟩⟩, rfl⟩)

/-- The tokens of `a + )`. -/
def missingOperand : List Token :=
  [⟨.identifier, "a", ⟨0, 1⟩⟩, ⟨.operator, "+", ⟨2, 3⟩⟩, ⟨.closeParen, ")", ⟨4, 5⟩⟩]

/-- The error for a parenthesis in place of an operand. -/
theorem Program.expected_of_missingOperand : ∃ error front tok back,
    Program.ofTokens (missingOperand ++ [⟨.endOfInput, "", ⟨5, 5⟩⟩]) = .error error ∧
      missingOperand ++ [⟨.endOfInput, "", ⟨5, 5⟩⟩] = front ++ tok :: back ∧
      error.found = some tok.describe ∧ error.expected ≠ [] ∧
      ∀ text, text ∈ error.expected ↔
        ∃ t, Program.Viable front t ∧ t.describeExpected = text := by
  have hrun : (match Program.ofTokens (missingOperand ++ [⟨.endOfInput, "", ⟨5, 5⟩⟩]) with
      | .ok _ => false
      | .error error => error.message == "unexpected token") = true := by decide +kernel
  cases h : Program.ofTokens (missingOperand ++ [⟨.endOfInput, "", ⟨5, 5⟩⟩]) with
  | ok program => rw [h] at hrun; cases hrun
  | error error =>
      rw [h] at hrun
      obtain ⟨front, tok, back, hsplit, -, hfound, -, hlisted, hne, -⟩ :=
        Program.expected_of_unexpected (by decide) rfl h (eq_of_beq hrun)
      exact ⟨error, front, tok, back, rfl, hsplit, hfound, hne, hlisted⟩

end Scriptlet
