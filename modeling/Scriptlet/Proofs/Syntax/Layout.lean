/-
**Layout does not matter.**

Tokens that agree in kind and text are the same program, wherever they stand, or they have the same
error apart from its span.  And what stands between the tokens of a source, blanks and characters
that start no token, can be inserted, removed and changed, as long as it does not tear a word or a
number apart and does not put two of them together.

Main definitions:

* `Scriptlet.Token.Alike` — tokens that agree in kind and text;
* `Scriptlet.Relayout` — one change of what stands between the tokens of a source;
* `Scriptlet.Program.ReadAlike` — the same program, or errors that differ in their spans only.

Main results:

* `Scriptlet.Relayout.map_spelling_eq` — a change of layout leaves what the tokens say;
* `Scriptlet.Program.layout_irrelevant` — **layout does not matter**, for tokens and for sources.
-/

import Mathlib.Data.List.Forall2
import Mathlib.Logic.Relation
import Scriptlet.Proofs.Syntax.Cuts
import Scriptlet.Proofs.Syntax.Moved

set_option relaxedAutoImplicit false
set_option autoImplicit false

namespace Scriptlet

/-! ### Tokens that agree -/

/-- The tokens agree in kind and text, wherever they stand. -/
def Token.Alike (t u : Token) : Prop := t.kind = u.kind ∧ t.text = u.text

theorem Token.alike_iff {t u : Token} : t.Alike u ↔ t.spelling = u.spelling := by
  simp [Token.Alike, Token.spelling]

/-- At one and the same place, tokens that agree are equal. -/
theorem Token.Alike.move_eq {t u : Token} (h : t.Alike u) :
    t.move (fun _ => 0) = u.move (fun _ => 0) := by
  obtain ⟨kind, text, span⟩ := t
  obtain ⟨kind', text', span'⟩ := u
  obtain ⟨rfl, rfl⟩ := h
  rfl

theorem map_move_eq_of_alike {ts us : List Token} (h : List.Forall₂ Token.Alike ts us) :
    ts.map (Token.move fun _ => 0) = us.map (Token.move fun _ => 0) := by
  induction h with
  | nil => rfl
  | cons h _ ih => rw [List.map_cons, List.map_cons, h.move_eq, ih]

/-- Tokens that say the same agree. -/
theorem alike_of_map_spelling {ts us : List Token}
    (h : ts.map Token.spelling = us.map Token.spelling) : List.Forall₂ Token.Alike ts us := by
  induction ts generalizing us with
  | nil =>
      cases us with
      | nil => exact .nil
      | cons u us => cases h
  | cons t ts ih =>
      cases us with
      | nil => cases h
      | cons u us =>
          obtain ⟨hfirst, hrest⟩ := List.cons.inj h
          exact .cons (Token.alike_iff.2 hfirst) (ih hrest)

/-! ### Outcomes that agree -/

/-- **The same program**, or errors that say the same, each at its own place. -/
inductive Program.ReadAlike :
    Except SyntaxError Program → Except SyntaxError Program → Prop
  /-- Both are read, as the same program. -/
  | ok (program : Program) : ReadAlike (.ok program) (.ok program)
  /-- Both have an error, and only the spans may differ. -/
  | error {a b : SyntaxError} (message : a.message = b.message) (found : a.found = b.found)
      (expected : a.expected = b.expected) : ReadAlike (.error a) (.error b)

namespace Program.ReadAlike

theorem refl (x : Except SyntaxError Program) : ReadAlike x x := by
  cases x with
  | ok program => exact .ok program
  | error a => exact .error rfl rfl rfl

theorem trans {x y z : Except SyntaxError Program} (hxy : ReadAlike x y) (hyz : ReadAlike y z) :
    ReadAlike x z := by
  cases hxy with
  | ok program => exact hyz
  | error message found expected =>
      cases hyz with
      | error message' found' expected' =>
          exact .error (message.trans message') (found.trans found') (expected.trans expected')

end Program.ReadAlike

/-- **Tokens that agree are read alike.** -/
theorem Program.readAlike_ofTokens {ts us : List Token} (h : List.Forall₂ Token.Alike ts us) :
    ReadAlike (ofTokens ts) (ofTokens us) := by
  cases h with
  | nil => exact .refl _
  | @cons t u ts us hfirst hrest =>
      -- with all offsets at the same place the tokens are equal
      have hmoved := map_move_eq_of_alike (List.Forall₂.cons hfirst hrest)
      have ht := ofTokens_move (fun _ => 0) (List.cons_ne_nil t ts)
      have hu := ofTokens_move (fun _ => 0) (List.cons_ne_nil u us)
      rw [hmoved, hu] at ht
      cases hts : ofTokens (t :: ts) with
      | ok program =>
          cases hus : ofTokens (u :: us) with
          | ok program' =>
              rw [hts, hus] at ht
              cases ht
              exact .ok program
          | error b =>
              rw [hts, hus] at ht
              cases ht
      | error a =>
          cases hus : ofTokens (u :: us) with
          | ok program' =>
              rw [hts, hus] at ht
              cases ht
          | error b =>
              rw [hts, hus] at ht
              have hsame : b.move (fun _ => 0) = a.move (fun _ => 0) := Except.error.inj ht
              exact .error (congrArg SyntaxError.message hsame).symm
                (congrArg SyntaxError.found hsame).symm (congrArg SyntaxError.expected hsame).symm

/-! ### What stands between tokens -/

/-- A character that is no part of any token: a blank, or one that is skipped. -/
def IsGap (c : Char) : Prop := CharClass.of c = .blank ∨ CharClass.of c = .unknown

instance : DecidablePred IsGap := fun c =>
  inferInstanceAs (Decidable (CharClass.of c = .blank ∨ CharClass.of c = .unknown))

theorem IsGap.joins {c : Char} (h : IsGap c) : (CharClass.of c).joins = false := by
  rcases h with h | h <;> rw [h] <;> rfl

/-- The pieces of what stands between tokens are no tokens. -/
theorem isGap_of_all {gap : String} (h : gap.toList.all (IsGap ·) = true) :
    ∀ c ∈ gap.toList, IsGap c :=
  fun c hc => of_decide_eq_true (List.all_eq_true.1 h c hc)

theorem filterMap_spelled?_gap {gap : List Char} (h : ∀ c ∈ gap, IsGap c) :
    (lexemes gap).filterMap Lexeme.spelled? = [] := by
  refine List.filterMap_eq_nil_iff.2 fun piece hpiece => ?_
  have hformed := formed_of_mem_lexemes gap piece hpiece
  obtain ⟨c, hc⟩ := List.exists_mem_of_ne_nil _ hformed.ne_nil
  have hgap : c ∈ gap := by
    rw [← text_lexemes gap, joinedText]
    exact List.mem_flatMap.2 ⟨piece, hpiece, hc⟩
  have hsort := hformed.of_eq c hc
  rw [Lexeme.spelled?, Lexeme.kind?]
  rcases h c hgap with hclass | hclass <;> simp [← hsort, hclass]

/-- Nothing is left in the tokens of what stands between them. -/
theorem filterMap_spelled?_between {front gap back : List Char} (h : ∀ c ∈ gap, IsGap c)
    (hempty : gap = [] → Divided front back) :
    (lexemes (front ++ gap ++ back)).filterMap Lexeme.spelled?
      = (lexemes front).filterMap Lexeme.spelled? ++ (lexemes back).filterMap Lexeme.spelled? := by
  by_cases hgap : gap = []
  · rw [hgap, List.append_nil, lexemes_append_of_divided (hempty hgap), List.filterMap_append]
  · have hback : Divided (front ++ gap) back := by
      refine divided_of_getLast? fun c hc => IsGap.joins (h c ?_)
      rw [List.getLast?_append_of_ne_nil _ hgap] at hc
      exact List.mem_of_getLast? hc
    have hfront : Divided front gap :=
      divided_of_head? fun d hd => IsGap.joins (h d (List.mem_of_mem_head? hd))
    rw [lexemes_append_of_divided hback, lexemes_append_of_divided hfront, List.filterMap_append,
      List.filterMap_append, filterMap_spelled?_gap h, List.append_nil]

/-- **One change of layout**: blanks and characters that are skipped, in a place where there may be
none before or none after, take the place of others.  Where there are none, no run of letters or
digits goes on across the place. -/
inductive Relayout : String → String → Prop
  | change (front gap gap' back : String) (hgap : ∀ c ∈ gap.toList, IsGap c)
      (hgap' : ∀ c ∈ gap'.toList, IsGap c)
      (hempty : gap = "" ∨ gap' = "" → Divided front.toList back.toList) :
      Relayout (front ++ gap ++ back) (front ++ gap' ++ back)

/-- **A change of layout leaves what the tokens say.** -/
theorem Relayout.map_spelling_eq {a b : String} (h : Relayout a b) :
    (scan a).tokens.map Token.spelling = (scan b).tokens.map Token.spelling := by
  cases h with
  | change front gap gap' back hgap hgap' hempty =>
      rw [map_spelling_scan, map_spelling_scan]
      simp only [String.toList_append]
      rw [filterMap_spelled?_between hgap fun h => hempty (Or.inl (String.toList_eq_nil_iff.1 h)),
        filterMap_spelled?_between hgap' fun h => hempty (Or.inr (String.toList_eq_nil_iff.1 h))]

/-! ### Layout -/

/-- **Layout does not matter.**  Tokens that agree in kind and text are read as the same program, or
have the same error apart from its span, wherever they stand; so are sources that differ by any
number of changes of what stands between their tokens. -/
theorem Program.layout_irrelevant :
    (∀ ts us, List.Forall₂ Token.Alike ts us → ReadAlike (ofTokens ts) (ofTokens us)) ∧
      ∀ a b, Relation.ReflTransGen Relayout a b → ReadAlike (ofSource a) (ofSource b) := by
  refine ⟨fun ts us h => readAlike_ofTokens h, fun a b h => ?_⟩
  induction h with
  | refl => exact .refl _
  | tail _ hstep ih =>
      exact ih.trans (readAlike_ofTokens (alike_of_map_spelling hstep.map_spelling_eq))

/-- Two words stay apart, with a blank or with a line feed and a character that is skipped, and the
blank in front of an operator is of no use; and a semicolon is one wherever it stands. -/
theorem Program.layout_irrelevant_words :
    (List.Forall₂ Token.Alike [⟨.semicolon, ";", ⟨0, 1⟩⟩] [⟨.semicolon, ";", ⟨7, 3⟩⟩] ∧
      ReadAlike (ofTokens [⟨.semicolon, ";", ⟨0, 1⟩⟩]) (ofTokens [⟨.semicolon, ";", ⟨7, 3⟩⟩])) ∧
    Relation.ReflTransGen Relayout ("let" ++ " " ++ "x = y") ("let\n#x" ++ "" ++ "= y") ∧
      ReadAlike (ofSource ("let" ++ " " ++ "x = y")) (ofSource ("let\n#x" ++ "" ++ "= y")) := by
  have htokens : List.Forall₂ Token.Alike [⟨.semicolon, ";", ⟨0, 1⟩⟩]
      [⟨.semicolon, ";", ⟨7, 3⟩⟩] := .cons ⟨rfl, rfl⟩ .nil
  have hword : Relayout ("let" ++ " " ++ "x = y") ("let" ++ "\n#" ++ "x = y") :=
    .change _ _ _ _ (isGap_of_all (by decide)) (isGap_of_all (by decide)) fun h =>
      absurd h (by decide)
  have hmiddle : "let" ++ "\n#" ++ "x = y" = "let\n#x" ++ " " ++ "= y" := by decide
  have hmark : Relayout ("let\n#x" ++ " " ++ "= y") ("let\n#x" ++ "" ++ "= y") :=
    .change _ _ _ _ (isGap_of_all (by decide)) (isGap_of_all (by decide)) fun _ =>
      divided_of_head? fun d hd => by
        obtain rfl : '=' = d := Option.some_inj.1 hd
        decide
  have hboth := (Relation.ReflTransGen.single hword).tail (hmiddle ▸ hmark)
  exact ⟨⟨htokens, layout_irrelevant.1 _ _ htokens⟩, hboth, layout_irrelevant.2 _ _ hboth⟩

end Scriptlet
