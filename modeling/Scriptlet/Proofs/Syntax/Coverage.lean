/-
**Every character of a source is accounted for.**

The pieces of a source stand side by side, each where the ones in front of it end.  So every
character belongs to one piece, and what becomes of the piece becomes of the character: it is part
of a token, it is a blank that is dropped, or it is skipped and reported.  A piece that is a run
cannot be made longer on either side, and every run that cannot is a piece.

Main definitions:

* `Scriptlet.placed` — pieces with the offsets where they stand;
* `Scriptlet.Span.Cuts` — a span cuts a text out of a source;
* `Scriptlet.Span.IsRun` — what it cuts out is a run of characters, as long as possible;
* `Scriptlet.Scan.Covers` — some token covers the byte at an offset.

Main results:

* `Scriptlet.mem_placed_lexemes` — **what the pieces of a source are, and where**: all that is well
  formed and divided from its neighbours;
* `Scriptlet.exists_placed` — every character stands in a piece of its class;
* `Scriptlet.scan_accounts` — **tokens, blanks and reports account for every character once**.
-/

import Mathlib.Data.List.Chain
import Scriptlet.Proofs.Syntax.Cuts

set_option relaxedAutoImplicit false
set_option autoImplicit false

namespace Scriptlet

/-! ### Where pieces stand -/

/-- Pieces with the offsets where they stand, the first one at a given offset. -/
def placed (offset : Nat) : List Lexeme → List (Nat × Lexeme)
  | [] => []
  | piece :: pieces => (offset, piece) :: placed (offset + piece.size) pieces

/-- A piece stands behind the bytes of the pieces in front of it. -/
theorem mem_placed {offset o : Nat} {piece : Lexeme} {pieces : List Lexeme} :
    (o, piece) ∈ placed offset pieces ↔ ∃ front back, pieces = front ++ piece :: back ∧
      o = offset + (front.map Lexeme.size).sum := by
  induction pieces generalizing offset with
  | nil => simp [placed]
  | cons p pieces ih =>
      rw [placed, List.mem_cons, ih]
      constructor
      · rintro (h | ⟨front, back, rfl, rfl⟩)
        · obtain ⟨rfl, rfl⟩ := Prod.mk.inj h
          exact ⟨[], pieces, rfl, rfl⟩
        · exact ⟨p :: front, back, rfl, by rw [List.map_cons, List.sum_cons, Nat.add_assoc]⟩
      · rintro ⟨front, back, hpieces, rfl⟩
        cases front with
        | nil =>
            obtain ⟨rfl, rfl⟩ := List.cons.inj hpieces
            exact Or.inl rfl
        | cons q front =>
            obtain ⟨rfl, rfl⟩ := List.cons.inj hpieces
            exact Or.inr ⟨front, back, rfl, by rw [List.map_cons, List.sum_cons, Nat.add_assoc]⟩

theorem le_of_mem_placed {offset : Nat} {pieces : List Lexeme} {place : Nat × Lexeme}
    (h : place ∈ placed offset pieces) : offset ≤ place.1 := by
  obtain ⟨front, back, -, ho⟩ := mem_placed.1 h
  omega

/-- Pieces stand side by side. -/
theorem pairwise_placed (offset : Nat) (pieces : List Lexeme) :
    (placed offset pieces).Pairwise fun p q => p.1 + p.2.size ≤ q.1 := by
  induction pieces generalizing offset with
  | nil => exact .nil
  | cons piece pieces ih => exact .cons (fun place h => le_of_mem_placed h) (ih _)

/-- No byte belongs to two pieces. -/
theorem eq_of_mem_placed {offset : Nat} {pieces : List Lexeme} {p q : Nat × Lexeme}
    (hp : p ∈ placed offset pieces) (hq : q ∈ placed offset pieces) {o : Nat}
    (hpo : p.1 ≤ o ∧ o < p.1 + p.2.size) (hqo : q.1 ≤ o ∧ o < q.1 + q.2.size) : p = q := by
  by_contra hne
  have hpairs := pairwise_placed offset pieces
  have hapart : p.1 + p.2.size ≤ q.1 ∨ q.1 + q.2.size ≤ p.1 :=
    (List.Pairwise.forall_of_forall_of_flip (R := fun p q => p ≠ q →
        p.1 + p.2.size ≤ q.1 ∨ q.1 + q.2.size ≤ p.1)
      (fun _ _ h => absurd rfl h) (hpairs.imp fun h _ => Or.inl h)
      (hpairs.imp fun h _ => Or.inr h)) hp hq hne
  omega

/-! ### Tokens and reports of pieces -/

/-- The token that a piece is where it stands, if it is one. -/
def tokenAt (place : Nat × Lexeme) : Option Token :=
  place.2.kind?.map fun kind => ⟨kind, place.2.text, place.1, place.1 + place.2.size⟩

/-- Whether a piece is skipped. -/
def isSkipped (place : Nat × Lexeme) : Bool := place.2.sort = .unknown

/-- **What is read of pieces**, given where they stand. -/
theorem ofLexemes_eq (offset : Nat) (pieces : List Lexeme) :
    Scan.ofLexemes offset pieces
      = ⟨(placed offset pieces).filterMap tokenAt
            ++ [⟨.endOfInput, "", offset + (pieces.map Lexeme.size).sum,
              offset + (pieces.map Lexeme.size).sum⟩],
          ((placed offset pieces).filter isSkipped).map Prod.fst⟩ := by
  induction pieces generalizing offset with
  | nil => rfl
  | cons piece pieces ih =>
      rw [Scan.ofLexemes, ih, Scan.push, placed, List.map_cons, List.sum_cons, ← Nat.add_assoc]
      cases hkind : piece.kind? with
      | some kind =>
          have hsort : piece.sort ≠ .unknown := by
            intro hsort
            simp [Lexeme.kind?, hsort] at hkind
          simp [tokenAt, isSkipped, hkind, hsort]
      | none => by_cases hsort : piece.sort = .unknown <;> simp [tokenAt, isSkipped, hkind, hsort]

/-! ### The pieces of a source -/

/-- A piece joins neither of its neighbours. -/
theorem isChain_lexemes (chars : List Char) :
    (lexemes chars).IsChain fun p q => ¬(p.sort = q.sort ∧ q.sort.joins = true) := by
  induction chars with
  | nil => exact .nil
  | cons c chars ih =>
      rw [lexemes_cons]
      cases hpieces : lexemes chars with
      | nil => exact .singleton _
      | cons p pieces =>
          rw [hpieces] at ih
          rw [pushChar]
          split
          · -- the first piece has grown, but it is of the same class
            cases pieces with
            | nil => exact .singleton _
            | cons q pieces =>
                rw [List.isChain_cons_cons] at ih ⊢
                exact ih
          · next hapart => exact .cons_cons hapart ih

theorem Lexeme.Formed.lexemes_chars {piece : Lexeme} (h : piece.Formed) :
    lexemes piece.chars = [piece] := by
  have hapart : Apart piece.sort [] := by simp [Apart]
  exact h.foldr_pushChar hapart

/-- A well formed piece that is a token is all that its text says. -/
theorem Lexeme.Formed.filterMap_spelled?_chars {piece : Lexeme} (h : piece.Formed)
    {kind : Token.Kind} (hkind : piece.kind? = some kind) :
    (lexemes piece.chars).filterMap Lexeme.spelled? = [piece.spelling] := by
  rw [h.lexemes_chars]
  simp [Lexeme.spelled?, Lexeme.spelling, hkind]

theorem Lexeme.Formed.size_pos {piece : Lexeme} (h : piece.Formed) : 0 < piece.size := by
  rw [Lexeme.size, Nat.pos_iff_ne_zero, Ne, String.utf8ByteSize_eq_zero_iff, Lexeme.text]
  intro hempty
  have := congrArg String.toList hempty
  rw [String.toList_ofList] at this
  exact h.ne_nil this

/-- The end of the text of pieces is the end of the last one. -/
theorem exists_of_mem_getLast?_joinedText {pieces : List Lexeme} (h : ∀ p ∈ pieces, p.Formed)
    {c : Char} (hc : c ∈ (joinedText pieces).getLast?) :
    ∃ p ∈ pieces.getLast?, CharClass.of c = p.sort := by
  rcases List.eq_nil_or_concat pieces with rfl | ⟨init, p, rfl⟩
  · cases hc
  · have hp : p.Formed := h p (by simp)
    rw [joinedText, List.concat_eq_append, List.flatMap_append, List.flatMap_singleton,
      List.getLast?_append_of_ne_nil _ hp.ne_nil] at hc
    exact ⟨p, by simp, hp.of_eq c (List.mem_of_getLast? hc)⟩

/-- The start of the text of pieces is the start of the first one. -/
theorem exists_of_mem_head?_joinedText {pieces : List Lexeme} (h : ∀ p ∈ pieces, p.Formed)
    {c : Char} (hc : c ∈ (joinedText pieces).head?) :
    ∃ p ∈ pieces.head?, CharClass.of c = p.sort := by
  cases pieces with
  | nil => cases hc
  | cons p pieces =>
      have hp : p.Formed := h p List.mem_cons_self
      rw [joinedText, List.flatMap_cons, List.head?_append_of_ne_nil _ hp.ne_nil] at hc
      exact ⟨p, rfl, hp.of_eq c (List.mem_of_mem_head? hc)⟩

/-- **What the pieces of a source are, and where**: what is well formed and divided from what is in
front of it and behind it. -/
theorem mem_placed_lexemes {chars : List Char} {o : Nat} {piece : Lexeme} :
    (o, piece) ∈ placed 0 (lexemes chars) ↔ piece.Formed ∧ ∃ front back,
      chars = front ++ piece.chars ++ back ∧ o = (String.ofList front).utf8ByteSize ∧
        Divided front piece.chars ∧ Divided piece.chars back := by
  rw [mem_placed]
  constructor
  · rintro ⟨front, back, hpieces, rfl⟩
    have hformed := formed_of_mem_lexemes chars
    have hchain := isChain_lexemes chars
    have hchars := text_lexemes chars
    rw [hpieces] at hformed hchain hchars
    rw [List.isChain_append] at hchain
    obtain ⟨-, hbehind, hbefore⟩ := hchain
    have hpiece : piece.Formed := hformed piece (by simp)
    refine ⟨hpiece, joinedText front, joinedText back, ?_, ?_, fun c hc d hd => ?_,
      fun c hc d hd => ?_⟩
    · rw [← hchars, joinedText, List.flatMap_append, List.flatMap_cons, List.append_assoc]
      rfl
    · rw [Nat.zero_add, sum_size_pieces]
    · obtain ⟨p, hp, hpc⟩ :=
        exists_of_mem_getLast?_joinedText (fun q hq => hformed q (by simp [hq])) hc
      rw [hpc, hpiece.of_eq d (List.mem_of_mem_head? hd)]
      exact hbefore p hp piece rfl
    · obtain ⟨p, hp, hpd⟩ :=
        exists_of_mem_head?_joinedText (fun q hq => hformed q (by simp [hq])) hd
      rw [hpd, hpiece.of_eq c (List.mem_of_getLast? hc)]
      obtain ⟨rest, rfl⟩ := List.head?_eq_some_iff.1 hp
      exact (List.isChain_cons_cons.1 hbehind).1
  · rintro ⟨hformed, front, back, rfl, rfl, hfront, hback⟩
    have hdivided : Divided front (piece.chars ++ back) := by
      intro c hc d hd
      rw [List.head?_append_of_ne_nil _ hformed.ne_nil] at hd
      exact hfront c hc d hd
    refine ⟨lexemes front, lexemes back, ?_, ?_⟩
    · rw [List.append_assoc, lexemes_append_of_divided hdivided, lexemes_append_of_divided hback,
        hformed.lexemes_chars, List.singleton_append]
    · rw [Nat.zero_add, sum_size_pieces, text_lexemes]

/-- A character of the text of pieces stands in one of them. -/
theorem exists_piece_of_joinedText {pieces : List Lexeme} {front back : List Char} {c : Char}
    (h : joinedText pieces = front ++ c :: back) :
    ∃ before piece behind start rest, pieces = before ++ piece :: behind ∧
      piece.chars = start ++ c :: rest ∧ front = joinedText before ++ start := by
  induction pieces generalizing front with
  | nil => simp [joinedText] at h
  | cons p pieces ih =>
      -- the character is behind the first piece, or in it
      have hjoined : p.chars ++ joinedText pieces = front ++ c :: back := h
      have hlater : ∀ front', joinedText pieces = front' ++ c :: back → front = p.chars ++ front' →
          ∃ before piece behind start rest, p :: pieces = before ++ piece :: behind ∧
            piece.chars = start ++ c :: rest ∧ front = joinedText before ++ start := by
        intro front' hfront' hfront
        obtain ⟨before, piece, behind, start, rest, rfl, hpiece, rfl⟩ := ih hfront'
        refine ⟨p :: before, piece, behind, start, rest, rfl, hpiece, ?_⟩
        rw [hfront, ← List.append_assoc]
        rfl
      rcases List.append_eq_append_iff.1 hjoined with ⟨front', hfront, hrest⟩ | ⟨part, hp, hrest⟩
      · exact hlater front' hrest hfront
      · cases part with
        | nil => exact hlater [] hrest.symm (by rw [hp, List.append_nil, List.append_nil])
        | cons d part =>
            obtain ⟨rfl, -⟩ := List.cons.inj hrest
            exact ⟨[], p, pieces, front, part, rfl, hp, rfl⟩

/-- **Every character stands in a piece of its class**, and alone in it if the class does not
join. -/
theorem exists_placed {chars front back : List Char} {c : Char} (h : chars = front ++ c :: back) :
    ∃ o piece, (o, piece) ∈ placed 0 (lexemes chars) ∧ CharClass.of c = piece.sort ∧
      o ≤ (String.ofList front).utf8ByteSize ∧
      (String.ofList front).utf8ByteSize < o + piece.size ∧
      (piece.sort.joins = false → o = (String.ofList front).utf8ByteSize) := by
  obtain ⟨before, piece, behind, start, rest, hpieces, hpiece, rfl⟩ :=
    exists_piece_of_joinedText ((text_lexemes chars).trans h)
  have hformed : piece.Formed := formed_of_mem_lexemes chars piece (by simp [hpieces])
  have hbytes : (String.ofList (joinedText before ++ start)).utf8ByteSize
      = (before.map Lexeme.size).sum + (String.ofList start).utf8ByteSize := by
    rw [String.ofList_append, String.utf8ByteSize_append, sum_size_pieces]
  have hsize : piece.size = (String.ofList start).utf8ByteSize
      + (String.ofList (c :: rest)).utf8ByteSize := by
    rw [Lexeme.size, Lexeme.text, hpiece, String.ofList_append, String.utf8ByteSize_append]
  have hpos : 0 < (String.ofList (c :: rest)).utf8ByteSize := by
    rw [Nat.pos_iff_ne_zero, Ne, String.utf8ByteSize_eq_zero_iff]
    intro hempty
    have := congrArg String.toList hempty
    rw [String.toList_ofList] at this
    cases this
  refine ⟨_, piece, mem_placed.2 ⟨before, behind, hpieces, (Nat.zero_add _).symm⟩,
    hformed.of_eq c (by simp [hpiece]), by omega, by omega, fun hjoins => ?_⟩
  have hlength := hformed.joins_or_single.resolve_left (by simp [hjoins])
  have hstart : start = [] := by
    rw [hpiece, List.length_append, List.length_cons] at hlength
    exact List.eq_nil_of_length_eq_zero (by omega)
  rw [hbytes, hstart]
  rfl

/-! ### Tokens of a source -/

theorem CharClass.of_eq_blank_iff {c : Char} : CharClass.of c = .blank ↔ isBlank c = true := by
  constructor
  · intro h
    by_contra hblank
    rw [CharClass.of, if_neg hblank] at h
    split at h
    · cases h
    · split at h
      · cases h
      · split at h <;> cases h
  · intro h
    simp only [isBlank, Bool.or_eq_true, decide_eq_true_eq] at h
    rcases h with ((rfl | rfl) | rfl) | rfl <;> decide

/-- The kinds of words: keywords and names. -/
def Token.Kind.isWord : Token.Kind → Bool
  | .identifier | .letWord | .constWord | .fnWord => true
  | _ => false

theorem Token.Kind.isWord_ofWord (text : String) : (ofWord text).isWord = true := by
  rw [ofWord, keyword?]
  split
  · rfl
  · split
    · rfl
    · split <;> rfl

/-- A character that is a token by itself is neither a word nor a number, nor the end. -/
theorem CharClass.of_markKind? {c : Char} {kind : Token.Kind} (h : markKind? c = some kind) :
    kind.isWord = false ∧ kind ≠ .number ∧ kind ≠ .endOfInput := by
  unfold markKind? at h
  split at h <;> cases h <;> exact ⟨rfl, by decide, by decide⟩

/-- **What kind of token a piece is**: a run of letters is a word, a run of digits is a number, and
any other token is a single character. -/
theorem Lexeme.Formed.kind?_cases {piece : Lexeme} (h : piece.Formed) {kind : Token.Kind}
    (hkind : piece.kind? = some kind) :
    (piece.sort = .letter ∧ kind = Token.Kind.ofWord piece.text) ∨
      (piece.sort = .digit ∧ kind = .number) ∨
        ∃ c, piece.chars = [c] ∧ CharClass.markKind? c = some kind := by
  rw [Lexeme.kind?] at hkind
  cases hsort : piece.sort with
  | letter =>
      simp only [hsort, Option.some.injEq] at hkind
      exact Or.inl ⟨rfl, hkind.symm⟩
  | digit =>
      simp only [hsort, Option.some.injEq] at hkind
      exact Or.inr (Or.inl ⟨rfl, hkind.symm⟩)
  | mark kind' =>
      simp only [hsort, Option.some.injEq] at hkind
      have hlength := h.joins_or_single.resolve_left (by simp [hsort, CharClass.joins])
      obtain ⟨c, hc⟩ := List.length_eq_one_iff.1 hlength
      have hclass := (h.of_eq c (by simp [hc])).trans hsort
      exact Or.inr (Or.inr ⟨c, hc, by rw [CharClass.of_eq_mark hclass, hkind]⟩)
  | blank => simp [hsort] at hkind
  | unknown => simp [hsort] at hkind

/-- The words are the pieces of letters. -/
theorem Lexeme.Formed.isWord_iff {piece : Lexeme} (h : piece.Formed) {kind : Token.Kind}
    (hkind : piece.kind? = some kind) : kind.isWord = true ↔ piece.sort = .letter := by
  constructor
  · intro hword
    rcases h.kind?_cases hkind with ⟨hsort, -⟩ | ⟨-, hnumber⟩ | ⟨c, -, hmark⟩
    · exact hsort
    · rw [hnumber] at hword
      cases hword
    · rw [(CharClass.of_markKind? hmark).1] at hword
      cases hword
  · intro hsort
    rw [Lexeme.kind?, hsort] at hkind
    rw [← Option.some_inj.1 hkind]
    exact Token.Kind.isWord_ofWord _

/-- The numbers are the pieces of digits. -/
theorem Lexeme.Formed.number_iff {piece : Lexeme} (h : piece.Formed) {kind : Token.Kind}
    (hkind : piece.kind? = some kind) : kind = .number ↔ piece.sort = .digit := by
  constructor
  · intro hnumber
    rcases h.kind?_cases hkind with ⟨-, hword⟩ | ⟨hsort, -⟩ | ⟨c, -, hmark⟩
    · exact absurd (hword.symm.trans hnumber) Token.Kind.ofWord_ne_number
    · exact hsort
    · exact absurd hnumber (CharClass.of_markKind? hmark).2.1
  · intro hsort
    rw [Lexeme.kind?, hsort] at hkind
    exact (Option.some_inj.1 hkind).symm

/-- The tokens of a source are those of its pieces, and the end of the input. -/
theorem tokens_scan (source : String) :
    (scan source).tokens = (placed 0 (lexemes source.toList)).filterMap tokenAt
      ++ [⟨.endOfInput, "", source.utf8ByteSize, source.utf8ByteSize⟩] := by
  rw [scan, ofLexemes_eq, sum_size_pieces, text_lexemes, String.ofList_toList, Nat.zero_add]

theorem mem_skipped_scan {source : String} {o : Nat} :
    o ∈ (scan source).skipped ↔
      ∃ piece, (o, piece) ∈ placed 0 (lexemes source.toList) ∧ piece.sort = .unknown := by
  rw [scan, ofLexemes_eq]
  simp [isSkipped]

theorem tokenAt_eq_some {place : Nat × Lexeme} {tok : Token} :
    tokenAt place = some tok ↔ place.2.kind? = some tok.kind ∧ place.2.text = tok.text ∧
      tok.span = ⟨place.1, place.1 + place.2.size⟩ := by
  rw [tokenAt, Option.map_eq_some_iff]
  constructor
  · rintro ⟨kind, hkind, rfl⟩
    exact ⟨hkind, rfl, rfl⟩
  · rintro ⟨hkind, htext, hspan⟩
    exact ⟨_, hkind, by rw [htext, ← hspan]⟩

/-! ### Spans and runs -/

/-- **A span cuts a text out of a source**: it covers the bytes of the text, behind those of what is
in front of it. -/
structure Span.Cuts (span : Span) (source front text back : String) : Prop where
  /-- The text stands in the source. -/
  source_eq : source = front ++ text ++ back
  /-- The span starts where the text does. -/
  start_eq : span.start = front.utf8ByteSize
  /-- The span stops where the text does. -/
  stop_eq : span.stop = front.utf8ByteSize + text.utf8ByteSize

/-- **A span covers a run of characters of one kind**, at least one, and no more such characters
stand next to it on either side. -/
structure Span.IsRun (span : Span) (source text : String) (kind : Char → Bool) : Prop where
  /-- There is a character. -/
  ne_empty : text ≠ ""
  /-- All characters are of the kind. -/
  all : ∀ c ∈ text.toList, kind c = true
  /-- The characters next to the run are not. -/
  maximal : ∃ front back, span.Cuts source front text back ∧
    (∀ c ∈ front.toList.getLast?, kind c = false) ∧ ∀ c ∈ back.toList.head?, kind c = false

/-- What stands in a place is cut out of the source there. -/
theorem exists_cuts {source : String} {o : Nat} {piece : Lexeme}
    (h : (o, piece) ∈ placed 0 (lexemes source.toList)) :
    ∃ front back, (Span.mk o (o + piece.size)).Cuts source front piece.text back := by
  obtain ⟨-, front, back, hsource, rfl, -⟩ := mem_placed_lexemes.1 h
  refine ⟨String.ofList front, String.ofList back, ?_, rfl, rfl⟩
  rw [Lexeme.text, ← String.ofList_append, ← String.ofList_append, ← hsource,
    String.ofList_toList]

/-- **The pieces of a class that joins are the runs of its characters**, as long as possible. -/
theorem mem_placed_iff_isRun {source text : String} {span : Span} {sort : CharClass}
    (hjoins : sort.joins = true) {kind : Char → Bool}
    (hkind : ∀ c, CharClass.of c = sort ↔ kind c = true) :
    (span.start, Lexeme.mk sort text.toList) ∈ placed 0 (lexemes source.toList) ∧
        span.stop = span.start + text.utf8ByteSize ↔ span.IsRun source text kind := by
  have hnot : ∀ {c}, CharClass.of c ≠ sort ↔ kind c = false := by
    intro c
    rw [Ne, hkind, Bool.not_eq_true]
  rw [mem_placed_lexemes]
  constructor
  · rintro ⟨⟨hformed, front, back, hsource, hstart, hfront, hback⟩, hstop⟩
    obtain ⟨first, hfirst⟩ : ∃ c, c ∈ text.toList.head? := by
      obtain ⟨c, rest, hrest⟩ := List.exists_cons_of_ne_nil hformed.ne_nil
      exact ⟨c, by rw [show text.toList = c :: rest from hrest]; rfl⟩
    obtain ⟨last, hlast⟩ : ∃ c, c ∈ text.toList.getLast? :=
      ⟨_, List.getLast?_eq_some_getLast hformed.ne_nil⟩
    have hclass : ∀ c ∈ text.toList, CharClass.of c = sort := hformed.of_eq
    have hcuts : span.Cuts source (String.ofList front) text (String.ofList back) := by
      refine ⟨?_, hstart, by rw [hstop, hstart]⟩
      rw [← String.toList_inj, hsource]
      simp
    refine ⟨fun hempty => hformed.ne_nil (String.toList_eq_nil_iff.2 hempty),
      fun c hc => (hkind c).1 (hclass c hc), _, _, hcuts, fun c hc => hnot.1 fun hc' => ?_,
      fun c hc => hnot.1 fun hc' => ?_⟩
    · rw [String.toList_ofList] at hc
      have hd := hclass first (List.mem_of_mem_head? hfirst)
      exact hfront c hc first hfirst ⟨hc'.trans hd.symm, hd ▸ hjoins⟩
    · rw [String.toList_ofList] at hc
      have hd := hclass last (List.mem_of_getLast? hlast)
      exact hback last hlast c hc ⟨hd.trans hc'.symm, hc' ▸ hjoins⟩
  · rintro ⟨hne, hall, front, back, ⟨hsource, hstart, hstop⟩, hfront, hback⟩
    have hclass : ∀ c ∈ text.toList, CharClass.of c = sort := fun c hc => (hkind c).2 (hall c hc)
    refine ⟨⟨⟨fun hnil => hne (String.toList_eq_nil_iff.1 hnil), hclass, Or.inl hjoins⟩,
      front.toList, back.toList, ?_, ?_, ?_, ?_⟩, by rw [hstart, hstop]⟩
    · rw [hsource, String.toList_append, String.toList_append]
    · rw [hstart, String.ofList_toList]
    · rintro c hc d hd ⟨hsame, -⟩
      exact hnot.2 (hfront c hc) (hsame.trans (hclass d (List.mem_of_mem_head? hd)))
    · rintro c hc d hd ⟨hsame, -⟩
      exact hnot.2 (hback d hd) (hsame.symm.trans (hclass c (List.mem_of_getLast? hc)))

/-! ### Every character once -/

/-- **Some token covers the byte** at an offset. -/
def Scan.Covers (scan : Scan) (o : Nat) : Prop :=
  ∃ tok ∈ scan.tokens, tok.span.start ≤ o ∧ o < tok.span.stop

section Source

variable {source : String}

/-- The token of a piece. -/
theorem exists_place_of_mem {tok : Token}
    (h : tok ∈ (placed 0 (lexemes source.toList)).filterMap tokenAt) :
    ∃ o piece, (o, piece) ∈ placed 0 (lexemes source.toList) ∧ piece.Formed ∧
      piece.kind? = some tok.kind ∧ piece.text = tok.text ∧ tok.span = ⟨o, o + piece.size⟩ := by
  obtain ⟨⟨o, piece⟩, hplace, htoken⟩ := List.mem_filterMap.1 h
  exact ⟨o, piece, hplace, (mem_placed_lexemes.1 hplace).1, tokenAt_eq_some.1 htoken⟩

/-- The pieces of a source stand side by side, and none is empty. -/
theorem pairwise_placed_lexemes (chars : List Char) :
    (placed 0 (lexemes chars)).Pairwise fun p q =>
      p.1 < p.1 + p.2.size ∧ p.1 + p.2.size ≤ q.1 := by
  refine (pairwise_placed 0 _).imp_of_mem fun {p q} hp _ hpq => ⟨?_, hpq⟩
  have hpos := (mem_placed_lexemes.1 hp).1.size_pos
  omega

/-- Tokens stand one behind the other. -/
theorem pairwise_tokens :
    ((placed 0 (lexemes source.toList)).filterMap tokenAt).Pairwise fun a b =>
      a.span.start < a.span.stop ∧ a.span.stop ≤ b.span.start := by
  rw [List.pairwise_filterMap]
  refine (pairwise_placed_lexemes _).imp fun {p q} hpq a ha b hb => ?_
  rw [(tokenAt_eq_some.1 ha).2.2, (tokenAt_eq_some.1 hb).2.2]
  exact hpq

/-- What is reported is reported in order. -/
theorem pairwise_skipped : (scan source).skipped.Pairwise (· < ·) := by
  rw [scan, ofLexemes_eq, List.pairwise_map]
  exact ((pairwise_placed_lexemes _).filter _).imp fun hpq => Nat.lt_of_lt_of_le hpq.1 hpq.2

/-- What is reported is a character. -/
theorem exists_of_mem_skipped {o : Nat} (h : o ∈ (scan source).skipped) :
    ∃ front c back, source = front ++ String.singleton c ++ back ∧ o = front.utf8ByteSize := by
  obtain ⟨piece, hplace, hsort⟩ := mem_skipped_scan.1 h
  obtain ⟨front, back, hsource, hstart, -⟩ := exists_cuts hplace
  have hlength := (mem_placed_lexemes.1 hplace).1.joins_or_single.resolve_left
    (by simp [hsort, CharClass.joins])
  obtain ⟨c, hc⟩ := List.length_eq_one_iff.1 hlength
  refine ⟨front, c, back, ?_, hstart⟩
  rw [hsource, Lexeme.text, hc, String.singleton_eq_ofList]

/-- The tokens that are words, or numbers, are the pieces of their class. -/
theorem mem_tokens_iff {text : String} {kind : Token.Kind} {span : Span} (sort : CharClass)
    (hend : kind ≠ .endOfInput) (hkind : Lexeme.kind? ⟨sort, text.toList⟩ = some kind)
    (hsort : ∀ piece : Lexeme, piece.Formed → piece.kind? = some kind → piece.sort = sort) :
    ⟨kind, text, span⟩ ∈ (scan source).tokens ↔
      (span.start, Lexeme.mk sort text.toList) ∈ placed 0 (lexemes source.toList) ∧
        span.stop = span.start + text.utf8ByteSize := by
  have hsize : Lexeme.size ⟨sort, text.toList⟩ = text.utf8ByteSize := by
    rw [Lexeme.size, Lexeme.text, String.ofList_toList]
  rw [tokens_scan, List.mem_append, List.mem_filterMap]
  constructor
  · rintro (⟨⟨o, piece⟩, hplace, htoken⟩ | hlast)
    · obtain ⟨hpiece, htext, rfl⟩ := tokenAt_eq_some.1 htoken
      have hformed := (mem_placed_lexemes.1 hplace).1
      have htext : piece.text = text := htext
      have hchars : piece = ⟨sort, text.toList⟩ := by
        rw [← hsort piece hformed hpiece, ← htext, Lexeme.text, String.toList_ofList]
      rw [hchars] at hplace
      exact ⟨hplace, by rw [hchars, hsize]⟩
    · exact absurd (Token.mk.inj (List.mem_singleton.1 hlast)).1 hend
  · rintro ⟨hplace, hstop⟩
    refine Or.inl ⟨_, hplace, tokenAt_eq_some.2 ⟨hkind, ?_, ?_⟩⟩
    · rw [Lexeme.text, String.ofList_toList]
    · rw [hsize, ← hstop]

/-- **Words are the runs of characters with two cases**, as long as possible. -/
theorem word_mem_tokens_iff {text : String} {span : Span} :
    ⟨Token.Kind.ofWord text, text, span⟩ ∈ (scan source).tokens ↔
      span.IsRun source text isCased := by
  have hword := Token.Kind.isWord_ofWord text
  rw [mem_tokens_iff .letter ?_ ?_ fun piece hpiece hkind => (hpiece.isWord_iff hkind).1 hword]
  · exact mem_placed_iff_isRun rfl fun c => CharClass.of_eq_letter_iff
  · intro hend
    rw [hend] at hword
    cases hword
  · rw [Lexeme.kind?, Lexeme.text, String.ofList_toList]

/-- **Numbers are the runs of digits**, as long as possible. -/
theorem number_mem_tokens_iff {text : String} {span : Span} :
    ⟨.number, text, span⟩ ∈ (scan source).tokens ↔ span.IsRun source text Decimal.isDigit := by
  rw [mem_tokens_iff .digit (by simp) rfl fun piece hpiece hkind => (hpiece.number_iff hkind).1 rfl]
  exact mem_placed_iff_isRun rfl fun c => CharClass.of_eq_digit_iff

/-- The kinds of tokens: a word is a keyword only as a whole, and what is neither a word nor a
number is a single character. -/
theorem kind_of_place {tok : Token}
    (h : tok ∈ (placed 0 (lexemes source.toList)).filterMap tokenAt) :
    if tok.kind.isWord then
      tok.kind = if tok.text = "let" then .letWord else if tok.text = "const" then .constWord
        else if tok.text = "fn" then .fnWord else .identifier
    else tok.kind = .number ∨
      ∃ c, tok.text = String.singleton c ∧ CharClass.markKind? c = some tok.kind := by
  obtain ⟨o, piece, -, hformed, hkind, htext, -⟩ := exists_place_of_mem h
  rcases hformed.kind?_cases hkind with ⟨-, hword⟩ | ⟨-, hnumber⟩ | ⟨c, hc, hmark⟩
  · rw [htext] at hword
    rw [hword, if_pos (Token.Kind.isWord_ofWord _), Token.Kind.ofWord, Token.Kind.keyword?]
    split
    · rfl
    · split
      · rfl
      · split <;> rfl
  · rw [hnumber]
    exact Or.inl rfl
  · rw [(CharClass.of_markKind? hmark).1]
    refine Or.inr ⟨c, ?_, hmark⟩
    rw [← htext, Lexeme.text, hc, String.singleton_eq_ofList]

/-- A byte of a piece is covered if the piece is a token. -/
theorem covers_iff {o offset : Nat} {piece : Lexeme}
    (hplace : (offset, piece) ∈ placed 0 (lexemes source.toList))
    (ho : offset ≤ o ∧ o < offset + piece.size) :
    (scan source).Covers o ↔ ∃ kind, piece.kind? = some kind := by
  rw [Scan.Covers, tokens_scan]
  constructor
  · rintro ⟨tok, htok, hstart, hstop⟩
    rcases List.mem_append.1 htok with htok | hlast
    · obtain ⟨place, hplace', htoken⟩ := List.mem_filterMap.1 htok
      obtain ⟨hkind, -, hspan⟩ := tokenAt_eq_some.1 htoken
      rw [hspan] at hstart hstop
      obtain rfl := eq_of_mem_placed hplace hplace' ho ⟨hstart, hstop⟩
      exact ⟨_, hkind⟩
    · rw [List.mem_singleton.1 hlast] at hstart hstop
      dsimp only at hstart hstop
      omega
  · rintro ⟨kind, hkind⟩
    refine ⟨⟨kind, piece.text, offset, offset + piece.size⟩, List.mem_append_left _ ?_, ho⟩
    exact List.mem_filterMap.2 ⟨_, hplace, tokenAt_eq_some.2 ⟨hkind, rfl, rfl⟩⟩

/-- A byte of a piece is reported if it is the first one, and the piece is skipped. -/
theorem mem_skipped_iff {o offset : Nat} {piece : Lexeme}
    (hplace : (offset, piece) ∈ placed 0 (lexemes source.toList))
    (ho : offset ≤ o ∧ o < offset + piece.size) :
    o ∈ (scan source).skipped ↔ piece.sort = .unknown ∧ o = offset := by
  rw [mem_skipped_scan]
  constructor
  · rintro ⟨piece', hplace', hsort⟩
    have hpos := (mem_placed_lexemes.1 hplace').1.size_pos
    obtain ⟨rfl, rfl⟩ := Prod.mk.inj
      (eq_of_mem_placed hplace hplace' ho ⟨Nat.le_refl o, by dsimp only; omega⟩)
    exact ⟨hsort, rfl⟩
  · rintro ⟨hsort, rfl⟩
    exact ⟨piece, hplace, hsort⟩

/-- **What becomes of a character**: it is covered by a token, it is a blank, or it is reported, and
only one of the three. -/
theorem scan_character {front back : String} {c : Char}
    (h : source = front ++ String.singleton c ++ back) :
    let o := front.utf8ByteSize
    ((scan source).Covers o ∧ CharClass.isBlank c = false ∧ o ∉ (scan source).skipped) ∨
      (¬ (scan source).Covers o ∧ CharClass.isBlank c = true ∧ o ∉ (scan source).skipped) ∨
        (¬ (scan source).Covers o ∧ CharClass.isBlank c = false ∧ o ∈ (scan source).skipped) := by
  intro o
  have hchars : source.toList = front.toList ++ c :: back.toList := by
    rw [h]
    simp
  obtain ⟨offset, piece, hplace, hclass, hle, hlt, halone⟩ := exists_placed hchars
  rw [String.ofList_toList] at hle hlt halone
  rw [covers_iff hplace ⟨hle, hlt⟩, mem_skipped_iff hplace ⟨hle, hlt⟩, ← Bool.not_eq_true,
    ← CharClass.of_eq_blank_iff, hclass, Lexeme.kind?]
  cases hsort : piece.sort with
  | letter => simp
  | digit => simp
  | mark kind => simp
  | blank => simp
  | unknown =>
      rw [hsort] at halone
      simp [halone rfl]

end Source

/-- **Tokens, blanks and reports account for every character once.**

The tokens of a source end with the end of the input.  Those before it are cut out of the source,
one behind the other.  Every character is covered by one of them, or it is a blank, or its offset is
reported, and only one of the three; the reports are in order, and of characters only.  The words
are the runs of characters with two cases, as long as possible, and the numbers those of digits; any
other token is a single character. -/
theorem scan_accounts (source : String) :
    ∃ tokens, (scan source).tokens
        = tokens ++ [⟨.endOfInput, "", source.utf8ByteSize, source.utf8ByteSize⟩] ∧
      (∀ tok ∈ tokens, tok.kind ≠ .endOfInput ∧ tok.text ≠ "" ∧
        ∃ front back, tok.span.Cuts source front tok.text back) ∧
      tokens.Pairwise (fun a b => a.span.start < a.span.stop ∧ a.span.stop ≤ b.span.start) ∧
      (∀ front c back, source = front ++ String.singleton c ++ back →
        let o := front.utf8ByteSize
        ((scan source).Covers o ∧ CharClass.isBlank c = false ∧ o ∉ (scan source).skipped) ∨
          (¬ (scan source).Covers o ∧ CharClass.isBlank c = true ∧ o ∉ (scan source).skipped) ∨
          (¬ (scan source).Covers o ∧ CharClass.isBlank c = false ∧ o ∈ (scan source).skipped)) ∧
      (scan source).skipped.Pairwise (· < ·) ∧
      (∀ o ∈ (scan source).skipped, ∃ front c back,
        source = front ++ String.singleton c ++ back ∧ o = front.utf8ByteSize) ∧
      (∀ text span, ⟨Token.Kind.ofWord text, text, span⟩ ∈ (scan source).tokens ↔
        span.IsRun source text isCased) ∧
      (∀ text span, ⟨.number, text, span⟩ ∈ (scan source).tokens ↔
        span.IsRun source text Decimal.isDigit) ∧
      ∀ tok ∈ tokens,
        if tok.kind.isWord then
          tok.kind = if tok.text = "let" then .letWord else if tok.text = "const" then .constWord
            else if tok.text = "fn" then .fnWord else .identifier
        else tok.kind = .number ∨
          ∃ c, tok.text = String.singleton c ∧ CharClass.markKind? c = some tok.kind := by
  refine ⟨_, tokens_scan source, fun tok htok => ?_, pairwise_tokens, fun _ _ _ => scan_character,
    pairwise_skipped, fun _ => exists_of_mem_skipped, fun _ _ => word_mem_tokens_iff,
    fun _ _ => number_mem_tokens_iff, fun _ => kind_of_place⟩
  obtain ⟨o, piece, hplace, hformed, hkind, htext, hspan⟩ := exists_place_of_mem htok
  refine ⟨fun hend => ?_, fun hempty => ?_, ?_⟩
  · rw [hend] at hkind
    rcases hformed.kind?_cases hkind with ⟨-, hword⟩ | ⟨-, hnumber⟩ | ⟨c, -, hmark⟩
    · have := Token.Kind.isWord_ofWord piece.text
      rw [← hword] at this
      cases this
    · cases hnumber
    · exact absurd rfl (CharClass.of_markKind? hmark).2.2
  · have hpos := hformed.size_pos
    rw [Lexeme.size, htext, hempty] at hpos
    exact absurd hpos (by decide)
  · rw [hspan, ← htext]
    exact exists_cuts hplace

end Scriptlet
