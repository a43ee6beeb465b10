/-
**Where a source can be cut.**

Two texts, one behind the other, are cut into the pieces of the first and the pieces of the second,
unless a run of characters goes on across the border.  So the tokens of both together are the tokens
of the first, without the end of its input, and those of the second, moved back by the bytes of the
first.  What stands between tokens is cut into pieces that are no tokens, so it leaves no trace in
what the tokens say.

Main definitions:

* `Scriptlet.Divided` — no run goes on from one text into the other;
* `Scriptlet.Scan.shift`, `Scriptlet.Scan.before` — what is read is moved back, and read together;
* `Scriptlet.Lexeme.spelled?` — what a piece says as a token, if it is one.

Main results:

* `Scriptlet.lexemes_append_of_divided` — **pieces of divided texts**;
* `Scriptlet.scan_append` — **tokens of divided texts**;
* `Scriptlet.map_spelling_scan` — what the tokens of a source say, without where they stand.
-/

import Mathlib.Algebra.GroupWithZero.Nat
import Scriptlet.Proofs.Syntax.Pieces

set_option relaxedAutoImplicit false
set_option autoImplicit false

namespace Scriptlet

/-! ### The first and the last piece -/

theorem pushChar_append {pieces : List Lexeme} (h : pieces ≠ []) (c : Char) (more : List Lexeme) :
    pushChar c (pieces ++ more) = pushChar c pieces ++ more := by
  cases pieces with
  | nil => exact absurd rfl h
  | cons piece pieces =>
      rw [List.cons_append, pushChar, pushChar]
      split <;> simp

theorem lexemes_cons (c : Char) (chars : List Char) :
    lexemes (c :: chars) = pushChar c (lexemes chars) := rfl

/-- The first piece has the class of the first character. -/
theorem exists_lexemes_cons (c : Char) (chars : List Char) :
    ∃ piece pieces, lexemes (c :: chars) = piece :: pieces ∧ piece.sort = CharClass.of c := by
  rw [lexemes_cons]
  cases lexemes chars with
  | nil => exact ⟨_, _, rfl, rfl⟩
  | cons piece pieces =>
      rw [pushChar]
      split
      · next hjoin => exact ⟨_, _, rfl, hjoin.1.symm⟩
      · exact ⟨_, _, rfl, rfl⟩

/-- A character in front leaves the class of the last piece alone. -/
theorem getLast?_pushChar {pieces : List Lexeme} (h : pieces ≠ []) (c : Char) :
    (pushChar c pieces).getLast?.map Lexeme.sort = pieces.getLast?.map Lexeme.sort := by
  cases pieces with
  | nil => exact absurd rfl h
  | cons piece pieces =>
      rw [pushChar]
      split
      · cases pieces <;> simp
      · simp

/-- The last piece has the class of the last character. -/
theorem getLast?_lexemes (chars : List Char) :
    (lexemes chars).getLast?.map Lexeme.sort = chars.getLast?.map CharClass.of := by
  induction chars with
  | nil => rfl
  | cons c chars ih =>
      cases chars with
      | nil => rfl
      | cons d chars =>
          obtain ⟨piece, pieces, hpieces, -⟩ := exists_lexemes_cons d chars
          have hne : lexemes (d :: chars) ≠ [] := by simp [hpieces]
          rw [lexemes_cons, getLast?_pushChar hne, ih, List.getLast?_cons_cons]

/-! ### Divided texts -/

/-- **No run of characters goes on** from the first text into the second. -/
def Divided (front back : List Char) : Prop :=
  ∀ c ∈ front.getLast?, ∀ d ∈ back.head?,
    ¬(CharClass.of c = CharClass.of d ∧ (CharClass.of d).joins = true)

/-- **Pieces of divided texts** are the pieces of one behind the pieces of the other. -/
theorem lexemes_append_of_divided {front back : List Char} (h : Divided front back) :
    lexemes (front ++ back) = lexemes front ++ lexemes back := by
  induction front with
  | nil => rfl
  | cons c front ih =>
      cases front with
      | nil =>
          cases back with
          | nil => rfl
          | cons d back =>
              obtain ⟨piece, pieces, hpieces, hsort⟩ := exists_lexemes_cons d back
              have hcd := h c rfl d rfl
              rw [List.cons_append, List.nil_append, lexemes_cons, hpieces, pushChar, hsort,
                if_neg hcd]
              rfl
      | cons d front =>
          have hdivided : Divided (d :: front) back := by
            intro e he
            exact h e (by rwa [List.getLast?_cons_cons])
          obtain ⟨piece, pieces, hpieces, -⟩ := exists_lexemes_cons d front
          have hne : lexemes (d :: front) ≠ [] := by simp [hpieces]
          rw [List.cons_append, lexemes_cons, ih hdivided, pushChar_append hne, ← lexemes_cons]

/-- A character that joins nothing divides what stands on its two sides. -/
theorem divided_of_getLast? {front back : List Char}
    (h : ∀ c ∈ front.getLast?, (CharClass.of c).joins = false) : Divided front back := by
  rintro c hc d - ⟨hsame, hjoins⟩
  have hc := h c hc
  rw [hsame, hjoins] at hc
  cases hc

theorem divided_of_head? {front back : List Char}
    (h : ∀ d ∈ back.head?, (CharClass.of d).joins = false) : Divided front back := by
  rintro c - d hd ⟨-, hjoins⟩
  rw [h d hd] at hjoins
  cases hjoins

/-! ### Reading one text behind the other -/

namespace Scan

/-- What is read further back by a number of bytes. -/
def shift (bytes : Nat) (scan : Scan) : Scan :=
  ⟨scan.tokens.map (Token.shift bytes), scan.skipped.map (· + bytes)⟩

/-- What is read of one text, and behind it of another one: one end of the input is enough. -/
def before (first second : Scan) : Scan :=
  ⟨first.tokens.dropLast ++ second.tokens, first.skipped ++ second.skipped⟩

theorem ofLexemes_shift (offset bytes : Nat) (pieces : List Lexeme) :
    ofLexemes (offset + bytes) pieces = (ofLexemes offset pieces).shift bytes := by
  induction pieces generalizing offset with
  | nil => rfl
  | cons piece pieces ih =>
      have hrest : ofLexemes (offset + bytes + piece.size) pieces
          = (ofLexemes (offset + piece.size) pieces).shift bytes := by
        rw [← ih, Nat.add_right_comm]
      rw [ofLexemes, ofLexemes, hrest, push, push]
      cases piece.kind? with
      | some kind => simp [shift, Token.shift, Span.shift, Nat.add_right_comm]
      | none =>
          by_cases hsort : piece.sort = .unknown <;> simp [hsort, shift]

theorem tokens_ne_nil (offset : Nat) (pieces : List Lexeme) :
    (ofLexemes offset pieces).tokens ≠ [] := by
  induction pieces generalizing offset with
  | nil => simp [ofLexemes]
  | cons piece pieces ih =>
      rw [ofLexemes, push]
      split
      · simp
      · split <;> exact ih _

theorem push_before (offset : Nat) (piece : Lexeme) {first : Scan} (h : first.tokens ≠ [])
    (second : Scan) :
    push offset piece (first.before second) = (push offset piece first).before second := by
  rw [push, push]
  cases piece.kind? with
  | some kind => simp [before, List.dropLast_cons_of_ne_nil h]
  | none => by_cases hsort : piece.sort = .unknown <;> simp [hsort, before]

/-- Reading the pieces of one text behind those of another one. -/
theorem ofLexemes_append (offset : Nat) (front back : List Lexeme) :
    ofLexemes offset (front ++ back)
      = (ofLexemes offset front).before
          (ofLexemes (offset + (front.map Lexeme.size).sum) back) := by
  induction front generalizing offset with
  | nil => rfl
  | cons piece front ih =>
      rw [List.cons_append, ofLexemes, ih, push_before _ _ (tokens_ne_nil _ _), ← ofLexemes,
        List.map_cons, List.sum_cons, Nat.add_assoc]

end Scan

/-- The bytes of the pieces are the bytes of the text. -/
theorem sum_size_pieces (pieces : List Lexeme) :
    (pieces.map Lexeme.size).sum = (String.ofList (joinedText pieces)).utf8ByteSize := by
  induction pieces with
  | nil => rfl
  | cons piece pieces ih =>
      have hjoined : joinedText (piece :: pieces) = piece.chars ++ joinedText pieces := rfl
      rw [List.map_cons, List.sum_cons, ih, hjoined, String.ofList_append,
        String.utf8ByteSize_append]
      rfl

/-- **Tokens of divided texts** are those of the first, without the end of its input, and those of
the second, moved back by the bytes of the first. -/
theorem scan_append {a b : String} (h : Divided a.toList b.toList) :
    scan (a ++ b) = (scan a).before ((scan b).shift a.utf8ByteSize) := by
  have hbytes : ((lexemes a.toList).map Lexeme.size).sum = a.utf8ByteSize := by
    rw [sum_size_pieces, text_lexemes, String.ofList_toList]
  rw [scan, String.toList_append, lexemes_append_of_divided h, Scan.ofLexemes_append, hbytes,
    Scan.ofLexemes_shift, ← scan, ← scan]

/-! ### What the tokens say -/

/-- What a piece says as a token, if it is one. -/
def Lexeme.spelled? (piece : Lexeme) : Option (Option Token.Kind × String) :=
  piece.kind?.map fun kind => (some kind, piece.text)

theorem map_spelling_ofLexemes (offset : Nat) (pieces : List Lexeme) :
    (Scan.ofLexemes offset pieces).tokens.map Token.spelling
      = pieces.filterMap Lexeme.spelled? ++ [(some .endOfInput, "")] := by
  induction pieces generalizing offset with
  | nil => rfl
  | cons piece pieces ih =>
      rw [Scan.ofLexemes, Scan.push]
      cases hkind : piece.kind? with
      | some kind => simp [ih, Lexeme.spelled?, hkind, Token.spelling]
      | none => by_cases hsort : piece.sort = .unknown <;> simp [hsort, ih, Lexeme.spelled?, hkind]

/-- What the tokens of a source say: what its pieces say, and then the end of the input. -/
theorem map_spelling_scan (source : String) :
    (scan source).tokens.map Token.spelling
      = (lexemes source.toList).filterMap Lexeme.spelled? ++ [(some .endOfInput, "")] :=
  map_spelling_ofLexemes 0 _

end Scriptlet
