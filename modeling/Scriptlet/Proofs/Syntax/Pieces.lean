/-
**The pieces of a source, and their tokens.**

The pieces that a source is cut into are formed well: each holds characters of one class, and a
piece of a class that does not join holds one character.  Conversely pieces that are formed well, no
two neighbours of which join, are what their text is cut into.  With a blank between neighbours that
would join, every row of well formed pieces can be written down and read again.

Main definitions:

* `Scriptlet.IsWord` — the texts that are names;
* `Scriptlet.Lexeme.Formed` — a well formed piece;
* `Scriptlet.spaced` — pieces with blanks between neighbours that would join;
* `Scriptlet.Spelled` — tokens that spell pieces, wherever they stand.

Main results:

* `Scriptlet.formed_of_mem_lexemes` — the pieces of a source are formed well;
* `Scriptlet.lexemes_spaced` — **spaced pieces are what their text is cut into**;
* `Scriptlet.exists_spelled` — the tokens of such a text spell the pieces;
* `Scriptlet.lexical_of_mem_scan` — **names are words and numbers are digits**, in any source.
-/

import Scriptlet.Syntax.Lexeme

set_option relaxedAutoImplicit false
set_option autoImplicit false

namespace Scriptlet

/-! ### Classes of characters -/

theorem CharClass.of_eq_digit_iff {c : Char} :
    CharClass.of c = .digit ↔ Decimal.isDigit c = true := by
  rw [CharClass.of]
  split
  · next h => simp [h]
  · next h =>
    split
    · simp [h]
    · split
      · simp [h]
      · split <;> simp [h]

theorem CharClass.markKind?_of_toNat_ge {c : Char} (h : 128 ≤ c.toNat) :
    CharClass.markKind? c = none := by
  unfold CharClass.markKind?
  split <;> first | rfl | (revert h; decide)

theorem CharClass.isDigit_of_toNat_ge {c : Char} (h : 128 ≤ c.toNat) :
    Decimal.isDigit c = false := by
  rw [Decimal.isDigit, Bool.and_eq_false_imp]
  intro _
  rw [decide_eq_false_iff_not, Char.le_def, UInt32.le_iff_toNat_le]
  exact Nat.not_le.2 (Nat.lt_of_lt_of_le (by decide) h)

theorem CharClass.isBlank_of_toNat_ge {c : Char} (h : 128 ≤ c.toNat) :
    CharClass.isBlank c = false := by
  cases hb : CharClass.isBlank c with
  | false => rfl
  | true =>
      simp only [CharClass.isBlank, Bool.or_eq_true, decide_eq_true_eq] at hb
      rcases hb with ((rfl | rfl) | rfl) | rfl <;> exact absurd h (by decide)

/-- The letters are the characters with two cases. -/
theorem CharClass.of_eq_letter_iff {c : Char} : CharClass.of c = .letter ↔ isCased c = true := by
  by_cases h : c.toNat < 128
  · have table : ∀ n : Fin 128,
        CharClass.of (Char.ofNat n) = .letter ↔ isCased (Char.ofNat n) = true := by decide
    have := table ⟨c.toNat, h⟩
    rwa [Char.ofNat_toNat] at this
  · have h := Nat.not_lt.1 h
    rw [CharClass.of, isDigit_of_toNat_ge h, isBlank_of_toNat_ge h, markKind?_of_toNat_ge h]
    cases isCased c <;> simp

theorem CharClass.of_eq_mark {c : Char} {kind : Token.Kind} (h : CharClass.of c = .mark kind) :
    markKind? c = some kind := by
  rw [CharClass.of] at h
  split at h
  · cases h
  · split at h
    · cases h
    · split at h
      · next hk => rw [hk, CharClass.mark.inj h]
      · split at h <;> cases h

/-- No character alone is a name or a number. -/
theorem CharClass.markKind?_ne {c : Char} :
    markKind? c ≠ some .identifier ∧ markKind? c ≠ some .number := by
  unfold CharClass.markKind?
  split <;> simp
/-! ### Well formed pieces -/

/-- **A well formed piece**: characters of one class, and only one if they do not join. -/
structure Lexeme.Formed (piece : Lexeme) : Prop where
  /-- There is a character. -/
  ne_nil : piece.chars ≠ []
  /-- All characters are of the class of the piece. -/
  of_eq : ∀ c ∈ piece.chars, CharClass.of c = piece.sort
  /-- Characters that do not join stand alone. -/
  joins_or_single : piece.sort.joins = true ∨ piece.chars.length = 1

theorem Lexeme.formed_single (c : Char) : Lexeme.Formed ⟨CharClass.of c, [c]⟩ :=
  ⟨by simp, by simp, Or.inr rfl⟩

theorem formed_pushChar {c : Char} {pieces : List Lexeme} (h : ∀ p ∈ pieces, p.Formed) :
    ∀ p ∈ pushChar c pieces, p.Formed := by
  intro p hp
  cases pieces with
  | nil =>
      rw [List.mem_singleton.1 hp]
      exact Lexeme.formed_single c
  | cons q pieces =>
      rw [pushChar] at hp
      split at hp
      · next hjoin =>
        rcases List.mem_cons.1 hp with rfl | hp
        · have hq := h q List.mem_cons_self
          refine ⟨by simp, fun d hd => ?_, Or.inl hjoin.2⟩
          rcases List.mem_cons.1 hd with rfl | hd
          · exact hjoin.1
          · exact hq.of_eq d hd
        · exact h p (List.mem_cons_of_mem _ hp)
      · rcases List.mem_cons.1 hp with rfl | hp
        · exact Lexeme.formed_single c
        · exact h p hp

/-- **The pieces of a source are formed well.** -/
theorem formed_of_mem_lexemes (chars : List Char) : ∀ p ∈ lexemes chars, p.Formed := by
  induction chars with
  | nil => simp [lexemes]
  | cons c chars ih => exact formed_pushChar ih

/-! ### Pieces that are apart -/

/-- A class does not join the first of some pieces. -/
def Apart (sort : CharClass) (pieces : List Lexeme) : Prop :=
  ∀ q ∈ pieces.head?, ¬(sort = q.sort ∧ q.sort.joins = true)

theorem foldr_pushChar_cons {sort : CharClass} {pieces : List Lexeme} (hapart : Apart sort pieces)
    {c : Char} {chars : List Char} (hsort : ∀ d ∈ c :: chars, CharClass.of d = sort)
    (hjoin : sort.joins = true ∨ chars = []) :
    (c :: chars).foldr pushChar pieces = ⟨sort, c :: chars⟩ :: pieces := by
  have hc : CharClass.of c = sort := hsort c List.mem_cons_self
  induction chars generalizing c with
  | nil =>
      cases pieces with
      | nil => simp [pushChar, hc]
      | cons q pieces =>
          have hq := hapart q rfl
          rw [List.foldr_cons, List.foldr_nil, pushChar, hc, if_neg hq]
  | cons d chars ih =>
      have hjoin : sort.joins = true := hjoin.resolve_right (by simp)
      have hd := ih (fun e he => hsort e (List.mem_cons_of_mem _ he)) (Or.inl hjoin)
        (hsort d (by simp))
      rw [List.foldr_cons, hd, pushChar, if_pos ⟨hc, hjoin⟩]

/-- Pushing the characters of a piece gives the piece, where nothing joins it. -/
theorem Lexeme.Formed.foldr_pushChar {piece : Lexeme} (h : piece.Formed) {pieces : List Lexeme}
    (hapart : Apart piece.sort pieces) : piece.chars.foldr pushChar pieces = piece :: pieces := by
  obtain ⟨sort, chars⟩ := piece
  cases chars with
  | nil => exact absurd rfl h.ne_nil
  | cons c chars =>
      refine foldr_pushChar_cons hapart h.of_eq (h.joins_or_single.imp_right fun hlength => ?_)
      exact List.eq_nil_of_length_eq_zero (Nat.succ.inj hlength)

/-- A blank between two pieces. -/
def Lexeme.space : Lexeme := ⟨.blank, [' ']⟩

theorem Lexeme.formed_space : Lexeme.space.Formed := Lexeme.formed_single ' '

/-- Pieces with blanks between neighbours that would join. -/
def spaced : List Lexeme → List Lexeme
  | [] => []
  | [p] => [p]
  | p :: q :: pieces =>
      if p.sort = q.sort ∧ q.sort.joins = true then p :: Lexeme.space :: spaced (q :: pieces)
      else p :: spaced (q :: pieces)

theorem head?_spaced (pieces : List Lexeme) : (spaced pieces).head? = pieces.head? := by
  unfold spaced
  split
  · rfl
  · rfl
  · split <;> rfl

theorem apart_space (pieces : List Lexeme) : Apart Lexeme.space.sort pieces := by
  rintro q - ⟨hsort, hjoin⟩
  rw [← hsort] at hjoin
  cases hjoin

/-- **Spaced pieces are what their text is cut into.** -/
theorem lexemes_spaced {pieces : List Lexeme} (h : ∀ p ∈ pieces, p.Formed) :
    lexemes (joinedText (spaced pieces)) = spaced pieces := by
  induction pieces using spaced.induct with
  | case1 => rfl
  | case2 p =>
      have hp := (h p (by simp)).foldr_pushChar (show Apart p.sort [] by simp [Apart])
      simpa [spaced, joinedText, lexemes] using hp
  | case3 p q pieces hjoin ih =>
      -- two pieces that would join have the blank between them
      have hq := ih fun r hr => h r (List.mem_cons_of_mem _ hr)
      rw [spaced, if_pos hjoin, joinedText, List.flatMap_cons, List.flatMap_cons, ← joinedText,
        lexemes_append, lexemes_append, hq, Lexeme.formed_space.foldr_pushChar (apart_space _)]
      refine (h p List.mem_cons_self).foldr_pushChar ?_
      rintro r hr ⟨-, hr'⟩
      obtain rfl : Lexeme.space = r := Option.some_inj.1 hr
      cases hr'
  | case4 p q pieces hjoin ih =>
      have hq := ih fun r hr => h r (List.mem_cons_of_mem _ hr)
      rw [spaced, if_neg hjoin, joinedText, List.flatMap_cons, ← joinedText, lexemes_append, hq]
      refine (h p List.mem_cons_self).foldr_pushChar fun r hr => ?_
      rw [head?_spaced] at hr
      exact Option.some_inj.1 hr ▸ hjoin

/-! ### Tokens that spell pieces -/

/-- What a token is, apart from where it stands. -/
def Token.spelling (tok : Token) : Option Token.Kind × String := (some tok.kind, tok.text)

/-- What a piece is as a token. -/
def Lexeme.spelling (piece : Lexeme) : Option Token.Kind × String := (piece.kind?, piece.text)

/-- The tokens spell the pieces, wherever they stand. -/
def Spelled (pieces : List Lexeme) (tokens : List Token) : Prop :=
  tokens.map Token.spelling = pieces.map Lexeme.spelling

theorem spelled_cons {piece : Lexeme} {pieces : List Lexeme} {tokens : List Token}
    (h : Spelled (piece :: pieces) tokens) :
    ∃ tok rest, tokens = tok :: rest ∧ piece.kind? = some tok.kind ∧ piece.text = tok.text ∧
      Spelled pieces rest := by
  obtain ⟨tok, rest, rfl, hspelling, hrest⟩ := List.map_eq_cons_iff.1 h
  obtain ⟨hkind, htext⟩ := Prod.mk.inj hspelling
  exact ⟨tok, rest, rfl, hkind.symm, htext.symm, hrest⟩

theorem spelled_append {front back : List Lexeme} {tokens : List Token}
    (h : Spelled (front ++ back) tokens) :
    ∃ first second, tokens = first ++ second ∧ Spelled front first ∧ Spelled back second := by
  rw [Spelled, List.map_append] at h
  obtain ⟨first, second, rfl, hfirst, hsecond⟩ := List.map_eq_append_iff.1 h
  exact ⟨first, second, rfl, hfirst, hsecond⟩

theorem spelled_nil {tokens : List Token} (h : Spelled [] tokens) : tokens = [] :=
  List.map_eq_nil_iff.1 h

/-- A piece that is a token spells itself, in front of what is spelled. -/
theorem exists_spelled_cons {piece : Lexeme} {kind : Token.Kind} {pieces rest : List Lexeme}
    {offset : Nat} {tokens : List Token} {last : Token} (hkind : piece.kind? = some kind)
    (htokens : (Scan.ofLexemes (offset + piece.size) rest).tokens = tokens ++ [last])
    (hspelled : Spelled pieces tokens) :
    ∃ tokens', (Scan.ofLexemes offset (piece :: rest)).tokens = tokens' ++ [last] ∧
      Spelled (piece :: pieces) tokens' := by
  refine ⟨⟨kind, piece.text, offset, offset + piece.size⟩ :: tokens, ?_, ?_⟩
  · rw [Scan.ofLexemes, Scan.push, hkind]
    simp only [htokens, List.cons_append]
  · rw [Spelled, List.map_cons, hspelled, List.map_cons, Token.spelling, Lexeme.spelling, hkind]

/-- A blank is no token. -/
theorem tokens_ofLexemes_space (offset : Nat) (pieces : List Lexeme) :
    (Scan.ofLexemes offset (Lexeme.space :: pieces)).tokens
      = (Scan.ofLexemes (offset + Lexeme.space.size) pieces).tokens := rfl

/-- **The tokens of spaced pieces spell the pieces**, and the end of the input follows. -/
theorem exists_spelled {pieces : List Lexeme} (h : ∀ p ∈ pieces, ∃ kind, p.kind? = some kind)
    (offset : Nat) :
    ∃ last, last.kind = .endOfInput ∧ ∃ tokens,
      (Scan.ofLexemes offset (spaced pieces)).tokens = tokens ++ [last] ∧
        Spelled pieces tokens := by
  induction pieces using spaced.induct generalizing offset with
  | case1 => exact ⟨_, rfl, [], rfl, rfl⟩
  | case2 p =>
      obtain ⟨kind, hkind⟩ := h p List.mem_cons_self
      exact ⟨_, rfl, exists_spelled_cons hkind (List.nil_append _).symm rfl⟩
  | case3 p q pieces hjoin ih =>
      obtain ⟨kind, hkind⟩ := h p List.mem_cons_self
      obtain ⟨last, hlast, tokens, htokens, hspelled⟩ :=
        ih (fun r hr => h r (List.mem_cons_of_mem _ hr)) (offset + p.size + Lexeme.space.size)
      rw [← tokens_ofLexemes_space] at htokens
      rw [spaced, if_pos hjoin]
      exact ⟨last, hlast, exists_spelled_cons hkind htokens hspelled⟩
  | case4 p q pieces hjoin ih =>
      obtain ⟨kind, hkind⟩ := h p List.mem_cons_self
      obtain ⟨last, hlast, tokens, htokens, hspelled⟩ :=
        ih (fun r hr => h r (List.mem_cons_of_mem _ hr)) (offset + p.size)
      rw [spaced, if_neg hjoin]
      exact ⟨last, hlast, exists_spelled_cons hkind htokens hspelled⟩

/-! ### Names and numbers -/

/-- **The texts that are names**: characters with two cases, at least one, and no keyword. -/
def IsWord (text : String) : Prop :=
  text ≠ "" ∧ (∀ c ∈ text.toList, isCased c = true) ∧
    text ≠ "let" ∧ text ≠ "const" ∧ text ≠ "fn"

theorem Token.Kind.ofWord_eq_identifier_iff {text : String} :
    Token.Kind.ofWord text = .identifier ↔ text ≠ "let" ∧ text ≠ "const" ∧ text ≠ "fn" := by
  rw [ofWord, keyword?]
  split
  · next h => simp [h]
  · split
    · next h => simp [h]
    · split
      · next h => simp [h]
      · next h₁ h₂ h₃ => simp [h₁, h₂, h₃]

theorem Token.Kind.ofWord_ne_number {text : String} : Token.Kind.ofWord text ≠ .number := by
  rw [ofWord, keyword?]
  split
  · simp
  · split
    · simp
    · split <;> simp

/-- A token whose text is what its kind demands: a name is a word, and a number is digits. -/
structure Token.Lexical (tok : Token) : Prop where
  /-- Names are words. -/
  isWord : tok.kind = .identifier → IsWord tok.text
  /-- Numbers are digits. -/
  isDigit : tok.kind = .number → ∀ c ∈ tok.text.toList, Decimal.isDigit c = true

/-- The token of a well formed piece. -/
theorem Lexeme.Formed.lexical {piece : Lexeme} (h : piece.Formed) {kind : Token.Kind}
    (hkind : piece.kind? = some kind) (span : Span) : Token.Lexical ⟨kind, piece.text, span⟩ := by
  have htext : piece.text.toList = piece.chars := String.toList_ofList
  rw [Lexeme.kind?] at hkind
  cases hsort : piece.sort with
  | letter =>
      simp only [hsort, Option.some.injEq] at hkind
      refine ⟨fun hid => ⟨fun hempty => h.ne_nil ?_, fun c hc => ?_, ?_⟩, fun hnumber => ?_⟩
      · rw [← htext, show piece.text = "" from hempty]
        rfl
      · rw [htext] at hc
        exact CharClass.of_eq_letter_iff.1 (hsort ▸ h.of_eq c hc)
      · exact Token.Kind.ofWord_eq_identifier_iff.1 (hkind.trans hid)
      · exact absurd (hkind.trans hnumber) Token.Kind.ofWord_ne_number
  | digit =>
      simp only [hsort, Option.some.injEq] at hkind
      refine ⟨fun hid => ?_, fun _ c hc => ?_⟩
      · rw [← hkind] at hid
        cases hid
      · rw [htext] at hc
        exact CharClass.of_eq_digit_iff.1 (hsort ▸ h.of_eq c hc)
  | mark kind' =>
      simp only [hsort, Option.some.injEq] at hkind
      obtain ⟨c, chars, hchars⟩ := List.exists_cons_of_ne_nil h.ne_nil
      have hc := CharClass.of_eq_mark ((h.of_eq c (by rw [hchars]; simp)).trans hsort)
      obtain ⟨hid, hnumber⟩ := CharClass.markKind?_ne (c := c)
      rw [hc, hkind] at hid hnumber
      exact ⟨fun h => absurd (congrArg some h) hid, fun h => absurd (congrArg some h) hnumber⟩
  | blank => simp [hsort] at hkind
  | unknown => simp [hsort] at hkind

theorem lexical_of_mem_ofLexemes {pieces : List Lexeme} (h : ∀ p ∈ pieces, p.Formed)
    (offset : Nat) : ∀ tok ∈ (Scan.ofLexemes offset pieces).tokens, tok.Lexical := by
  induction pieces generalizing offset with
  | nil =>
      intro tok htok
      rw [List.mem_singleton.1 htok]
      exact ⟨nofun, nofun⟩
  | cons p pieces ih =>
      have hrest := ih (fun q hq => h q (List.mem_cons_of_mem _ hq)) (offset + p.size)
      intro tok htok
      rw [Scan.ofLexemes, Scan.push] at htok
      split at htok
      · next kind hkind =>
        rcases List.mem_cons.1 htok with rfl | htok
        · exact (h p List.mem_cons_self).lexical hkind _
        · exact hrest tok htok
      · split at htok <;> exact hrest tok htok

/-- **Names are words and numbers are digits**, in any source. -/
theorem lexical_of_mem_scan {source : String} : ∀ tok ∈ (scan source).tokens, tok.Lexical :=
  lexical_of_mem_ofLexemes (formed_of_mem_lexemes _) 0

end Scriptlet
