/-
**Tokens can be written down and read again.**

A source cut in two is read part by part, if no word and no number goes on across the cut.  So the
texts of tokens, one behind the other, are read as the tokens: something has to stand between two of
them only if both are words, or both are numbers.

Main definitions:

* `Scriptlet.Token.Lexed` — a token that is a piece of a source;
* `Scriptlet.Token.runsOn` — the tokens have to be kept apart;
* `Scriptlet.written` — the texts of tokens, with a separator between those.

Main results:

* `Scriptlet.filterMap_spelled?_written` — what is written says what the tokens say;
* `Scriptlet.scan_compositional` — **reading is compositional**, and what is written is read again.
-/

import Scriptlet.Proofs.Syntax.Coverage
import Scriptlet.Proofs.Syntax.Layout

set_option relaxedAutoImplicit false
set_option autoImplicit false

namespace Scriptlet

/-! ### Cuts -/

theorem CharClass.joins_iff {sort : CharClass} :
    sort.joins = true ↔ sort = .letter ∨ sort = .digit := by
  cases sort <;> simp [joins]

/-- Characters that are not both letters and not both digits divide what they stand in. -/
theorem divided_of_chars {front back : List Char}
    (h : ∀ c ∈ front.getLast?, ∀ d ∈ back.head?, ¬(isCased c = true ∧ isCased d = true) ∧
      ¬(Decimal.isDigit c = true ∧ Decimal.isDigit d = true)) : Divided front back := by
  rintro c hc d hd ⟨hsame, hjoins⟩
  obtain ⟨hletters, hdigits⟩ := h c hc d hd
  rcases CharClass.joins_iff.1 hjoins with hsort | hsort
  · exact hletters ⟨CharClass.of_eq_letter_iff.1 (hsame.trans hsort),
      CharClass.of_eq_letter_iff.1 hsort⟩
  · exact hdigits ⟨CharClass.of_eq_digit_iff.1 (hsame.trans hsort),
      CharClass.of_eq_digit_iff.1 hsort⟩

/-! ### Tokens and their pieces -/

/-- A well formed piece is the token, wherever it stands. -/
structure Lexeme.IsPieceOf (piece : Lexeme) (tok : Token) : Prop where
  /-- The piece is well formed. -/
  formed : piece.Formed
  /-- Its kind is the kind of the token. -/
  kind_eq : piece.kind? = some tok.kind
  /-- Its text is the text of the token. -/
  text_eq : piece.text = tok.text

/-- **The tokens have to be kept apart**: both are words, or both are numbers. -/
def Token.runsOn (tok next : Token) : Bool :=
  tok.kind.isWord && next.kind.isWord || tok.kind = .number && next.kind = .number

namespace Lexeme.IsPieceOf

variable {piece piece' : Lexeme} {tok tok' : Token}

theorem toList_text (h : piece.IsPieceOf tok) : tok.text.toList = piece.chars := by
  rw [← h.text_eq, Lexeme.text, String.toList_ofList]

/-- The text of the token says what the token says. -/
theorem filterMap_spelled?_text (h : piece.IsPieceOf tok) :
    (lexemes tok.text.toList).filterMap Lexeme.spelled? = [tok.spelling] := by
  rw [h.toList_text, h.formed.filterMap_spelled?_chars h.kind_eq, Lexeme.spelling, h.kind_eq,
    h.text_eq, Token.spelling]

/-- The tokens that have to be kept apart are those whose pieces would join. -/
theorem runsOn_iff (h : piece.IsPieceOf tok) (h' : piece'.IsPieceOf tok') :
    tok.runsOn tok' = true ↔ piece.sort = piece'.sort ∧ piece'.sort.joins = true := by
  rw [Token.runsOn, Bool.or_eq_true, Bool.and_eq_true, Bool.and_eq_true,
    h.formed.isWord_iff h.kind_eq, h'.formed.isWord_iff h'.kind_eq, decide_eq_true_iff,
    decide_eq_true_iff, h.formed.number_iff h.kind_eq, h'.formed.number_iff h'.kind_eq,
    CharClass.joins_iff]
  constructor
  · rintro (⟨hsort, hsort'⟩ | ⟨hsort, hsort'⟩)
    · exact ⟨hsort.trans hsort'.symm, Or.inl hsort'⟩
    · exact ⟨hsort.trans hsort'.symm, Or.inr hsort'⟩
  · rintro ⟨hsame, hsort | hsort⟩
    · exact Or.inl ⟨hsame.trans hsort, hsort⟩
    · exact Or.inr ⟨hsame.trans hsort, hsort⟩

end Lexeme.IsPieceOf

/-- The tokens of a source, apart from the end of the input, are pieces. -/
theorem exists_isPieceOf {source : String} {tok : Token} (h : tok ∈ (scan source).tokens)
    (hend : tok.kind ≠ .endOfInput) : ∃ piece : Lexeme, piece.IsPieceOf tok := by
  rw [tokens_scan, List.mem_append] at h
  rcases h with h | h
  · obtain ⟨o, piece, -, hformed, hkind, htext, -⟩ := exists_place_of_mem h
    exact ⟨piece, hformed, hkind, htext⟩
  · exact absurd (congrArg Token.kind (List.mem_singleton.1 h)) hend

/-! ### Writing tokens -/

/-- **The texts of tokens**, with a separator only between tokens that have to be kept apart. -/
def written (separator : String) : List Token → String
  | [] => ""
  | [tok] => tok.text
  | tok :: next :: tokens =>
      tok.text ++ (if tok.runsOn next then separator else "") ++ written separator (next :: tokens)

theorem written_cons_append (separator : String) (tok : Token) (tokens : List Token) :
    ∃ rest, written separator (tok :: tokens) = tok.text ++ rest := by
  cases tokens with
  | nil => exact ⟨"", (String.append_empty).symm⟩
  | cons next tokens => exact ⟨_, String.append_assoc⟩

/-- **What is written says what the tokens say.** -/
theorem filterMap_spelled?_written {separator : String} (hne : separator ≠ "")
    (hgap : ∀ c ∈ separator.toList, IsGap c) {tokens : List Token}
    (h : ∀ tok ∈ tokens, ∃ piece : Lexeme, piece.IsPieceOf tok) :
    (lexemes (written separator tokens).toList).filterMap Lexeme.spelled?
      = tokens.map Token.spelling := by
  induction tokens using written.induct with
  | case1 => rfl
  | case2 tok =>
      obtain ⟨piece, hpiece⟩ := h tok List.mem_cons_self
      exact hpiece.filterMap_spelled?_text
  | case3 tok next tokens ih =>
      obtain ⟨piece, hpiece⟩ := h tok (by simp)
      obtain ⟨piece', hpiece'⟩ := h next (by simp)
      have hrest := ih fun t ht => h t (List.mem_cons_of_mem _ ht)
      rw [written, String.toList_append, String.toList_append, filterMap_spelled?_between
        (fun c hc => ?_) (fun hempty => ?_), hpiece.filterMap_spelled?_text, hrest]
      · rfl
      · split at hc
        · exact hgap c hc
        · cases hc
      · -- nothing stands between the tokens, so their pieces do not join
        obtain ⟨rest, hwritten⟩ := written_cons_append separator next tokens
        have hapart : ¬(piece.sort = piece'.sort ∧ piece'.sort.joins = true) := by
          rw [← hpiece.runsOn_iff hpiece']
          intro hruns
          rw [if_pos hruns] at hempty
          exact hne (String.toList_eq_nil_iff.1 hempty)
        intro c hc d hd
        rw [hpiece.toList_text] at hc
        rw [hwritten, String.toList_append, hpiece'.toList_text,
          List.head?_append_of_ne_nil _ hpiece'.formed.ne_nil] at hd
        rw [hpiece.formed.of_eq c (List.mem_of_getLast? hc),
          hpiece'.formed.of_eq d (List.mem_of_mem_head? hd)]
        exact hapart

/-- The end of the input is not written. -/
theorem written_concat (separator : String) (tokens : List Token) (span : Span) :
    written separator (tokens ++ [⟨.endOfInput, "", span⟩]) = written separator tokens := by
  induction tokens using written.induct with
  | case1 => rfl
  | case2 tok =>
      have hruns : tok.runsOn ⟨.endOfInput, "", span⟩ = false := by
        simp [Token.runsOn, Token.Kind.isWord]
      rw [List.singleton_append]
      simp [written, hruns]
  | case3 tok next tokens ih =>
      rw [List.cons_append, List.cons_append, written, ← List.cons_append, ih, written]

/-- What is written is read as the tokens, and the end of the input. -/
theorem alike_scan_written {separator : String} (hne : separator ≠ "")
    (hgap : ∀ c ∈ separator.toList, IsGap c) {tokens : List Token}
    (h : ∀ tok ∈ tokens, ∃ piece : Lexeme, piece.IsPieceOf tok) (span : Span) :
    List.Forall₂ Token.Alike (scan (written separator tokens)).tokens
      (tokens ++ [⟨.endOfInput, "", span⟩]) := by
  refine alike_of_map_spelling ?_
  rw [map_spelling_scan, filterMap_spelled?_written hne hgap h, List.map_append]
  rfl

/-! ### Reading is compositional -/

/-- **Reading is compositional**, and what is written is read again.

If the last character of a text and the first one of another are not both letters and not both
digits, then what is read of the two together is what is read of the first, without the end of its
input, and what is read of the second, moved back by the bytes of the first.  And the texts of
tokens that are read of any sources, written with something between two words and between two
numbers only, are read as these tokens; so are the texts of all tokens of a source. -/
theorem scan_compositional :
    (∀ a : String, ∃ tokens, (scan a).tokens
        = tokens ++ [⟨.endOfInput, "", a.utf8ByteSize, a.utf8ByteSize⟩] ∧
      ∀ b : String,
        (∀ c ∈ a.toList.getLast?, ∀ d ∈ b.toList.head?, ¬(isCased c = true ∧ isCased d = true) ∧
          ¬(Decimal.isDigit c = true ∧ Decimal.isDigit d = true)) →
        (scan (a ++ b)).tokens = tokens ++ (scan b).tokens.map (Token.shift a.utf8ByteSize) ∧
          (scan (a ++ b)).skipped = (scan a).skipped ++ (scan b).skipped.map (· + a.utf8ByteSize)) ∧
    ∀ separator : String, separator ≠ "" → (∀ c ∈ separator.toList, IsGap c) →
      (∀ tokens : List Token,
        (∀ tok ∈ tokens, tok.kind ≠ .endOfInput ∧ ∃ source, tok ∈ (scan source).tokens) →
        List.Forall₂ Token.Alike (scan (written separator tokens)).tokens
          (tokens ++ [⟨.endOfInput, "", 0, 0⟩])) ∧
      ∀ source : String, List.Forall₂ Token.Alike
        (scan (written separator (scan source).tokens)).tokens (scan source).tokens := by
  refine ⟨fun a => ⟨_, tokens_scan a, fun b h => ?_⟩, fun separator hne hgap =>
    ⟨fun tokens htokens => ?_, fun source => ?_⟩⟩
  · rw [scan_append (divided_of_chars h), Scan.before, tokens_scan a, List.dropLast_concat]
    exact ⟨rfl, rfl⟩
  · refine alike_scan_written hne hgap (fun tok htok => ?_) _
    obtain ⟨hend, source, hsource⟩ := htokens tok htok
    exact exists_isPieceOf hsource hend
  · rw [tokens_scan source, written_concat]
    refine alike_scan_written hne hgap (fun tok htok => ?_) _
    obtain ⟨o, piece, -, hformed, hkind, htext, -⟩ := exists_place_of_mem htok
    exact ⟨piece, hformed, hkind, htext⟩

/-- A name and a digit behind it are read one by one; and two numbers are written with the separator
between them, and a name behind a number without it. -/
theorem scan_compositional_digits :
    ((∀ c ∈ "x".toList.getLast?, ∀ d ∈ "1".toList.head?, ¬(isCased c = true ∧ isCased d = true) ∧
        ¬(Decimal.isDigit c = true ∧ Decimal.isDigit d = true)) ∧
      ∃ tokens, (scan "x").tokens = tokens ++ [⟨.endOfInput, "", 1, 1⟩] ∧
        (scan ("x" ++ "1")).tokens = tokens ++ (scan "1").tokens.map (Token.shift 1)) ∧
    ("#" ≠ "" ∧ (∀ c ∈ "#".toList, IsGap c) ∧
      ∀ tok ∈ [⟨.number, "1", 0, 1⟩, ⟨.number, "2", 2, 3⟩, ⟨.identifier, "x", 3, 4⟩],
        Token.kind tok ≠ .endOfInput ∧ ∃ source, tok ∈ (scan source).tokens) ∧
    List.Forall₂ Token.Alike
      (scan (written "#"
        [⟨.number, "1", 0, 1⟩, ⟨.number, "2", 2, 3⟩, ⟨.identifier, "x", 3, 4⟩])).tokens
      [⟨.number, "1", 0, 1⟩, ⟨.number, "2", 2, 3⟩, ⟨.identifier, "x", 3, 4⟩,
        ⟨.endOfInput, "", 0, 0⟩] := by
  have hcut : ∀ c ∈ "x".toList.getLast?, ∀ d ∈ "1".toList.head?,
      ¬(isCased c = true ∧ isCased d = true) ∧
        ¬(Decimal.isDigit c = true ∧ Decimal.isDigit d = true) := by
    rintro c hc d hd
    obtain rfl : 'x' = c := Option.some_inj.1 hc
    obtain rfl : '1' = d := Option.some_inj.1 hd
    decide
  have hgap : ∀ c ∈ "#".toList, IsGap c := isGap_of_all (by decide)
  have htokens : ∀ tok ∈ [⟨.number, "1", 0, 1⟩, ⟨.number, "2", 2, 3⟩, ⟨.identifier, "x", 3, 4⟩],
      Token.kind tok ≠ .endOfInput ∧ ∃ source, tok ∈ (scan source).tokens := by
    have hscan : ∀ tok ∈ [⟨.number, "1", 0, 1⟩, ⟨.number, "2", 2, 3⟩, ⟨.identifier, "x", 3, 4⟩],
        Token.kind tok ≠ .endOfInput ∧ tok ∈ (scan "1 2x").tokens := by decide
    exact fun tok htok => ⟨(hscan tok htok).1, _, (hscan tok htok).2⟩
  obtain ⟨tokens, hfirst, hboth⟩ := scan_compositional.1 "x"
  exact ⟨⟨hcut, tokens, hfirst, (hboth "1" hcut).1⟩, ⟨by decide, hgap, htokens⟩,
    (scan_compositional.2 "#" (by decide) hgap).1 _ htokens⟩

end Scriptlet
