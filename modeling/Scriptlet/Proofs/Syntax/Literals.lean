/-
**Plain data is written as source code.**

Plain data are trees of null, truth values, whole numbers and objects whose keys are names.  The
text of such a tree, as scripts print it, is the text of an expression: names and digits, set off by
marks and blanks, so that nothing in it runs together when it is read again.

Main definitions:

* `Scriptlet.Datum`, `Scriptlet.Datum.Plain` — data, and the data that are **plain**;
* `Scriptlet.Datum.text` — the text of a datum;
* `Scriptlet.Datum.literal` — the expression that a datum is written as.

Main results:

* `Scriptlet.isWord_iff_scan` — the words that are names are those that are read as names;
* `Scriptlet.Datum.said_text` — the tokens of the text spell the expression;
* `Scriptlet.Datum.ofSource_text` — **the text of plain data is parsed to the expression**.
-/

import Scriptlet.Eval.Display
import Scriptlet.Proofs.Number.Whole
import Scriptlet.Proofs.Syntax.Coverage
import Scriptlet.Proofs.Syntax.Printing

set_option relaxedAutoImplicit false
set_option autoImplicit false

namespace Scriptlet

/-! ### Data -/

/-- **Data**, as trees: an object is given by its keys, each with its datum. -/
inductive Datum where
  | null
  | boolean (value : Bool)
  | number (value : Float)
  | object (properties : List (String × Datum))

mutual

/-- **The datum is plain**: numbers are whole, and keys are names. -/
def Datum.Plain : Datum → Prop
  | .null | .boolean _ => True
  | .number x => Number.IsWhole x
  | .object properties => PlainProperties properties

/-- Plain properties of objects. -/
def PlainProperties : List (String × Datum) → Prop
  | [] => True
  | (key, d) :: properties => IsWord key ∧ d.Plain ∧ PlainProperties properties

end

mutual

/-- **The text of a datum.** -/
def Datum.text : Datum → String
  | .null => "null"
  | .boolean b => if b then "true" else "false"
  | .number x => Number.text x
  | .object properties => Value.objectText (propertyTexts properties)

/-- The texts of properties, with their keys. -/
def propertyTexts : List (String × Datum) → List (String × String)
  | [] => []
  | (key, d) :: properties => (key, d.text) :: propertyTexts properties

end

mutual

/-- **The expression that a datum is written as**: null and the truth values by their names. -/
def Datum.literal : Datum → Expr
  | .null => .name "null"
  | .boolean b => .name (if b then "true" else "false")
  | .number x => .number x
  | .object properties => .object (literalEntries properties)

/-- The entries that properties are written as. -/
def literalEntries : List (String × Datum) → List Entry
  | [] => []
  | (key, d) :: properties => .pair key d.literal :: literalEntries properties

end

/-! ### Literals are well formed -/

/-- Whole numbers are written as scripts print them. -/
def Numerals.PrintsWhole (numerals : Numerals) : Prop :=
  ∀ x, Number.IsWhole x → numerals.text x = Number.text x

/-- There is such a way of writing numbers. -/
theorem exists_printsWhole : ∃ numerals : Numerals, numerals.PrintsWhole := by
  obtain ⟨numerals⟩ := nonempty_numerals
  have hexists : ∀ x, ∃ text : String, text ≠ "" ∧
      (∀ c ∈ text.toList, Decimal.isDigit c = true) ∧
        (IsNumeral x → Number.read text = some x) ∧ (Number.IsWhole x → text = Number.text x) := by
    intro x
    by_cases hx : Number.IsWhole x
    · obtain ⟨hne, hdigit, hread⟩ := Number.text_of_isWhole hx
      exact ⟨Number.text x, hne, hdigit, fun _ => hread, fun _ => rfl⟩
    · exact ⟨numerals.text x, numerals.ne_empty x, numerals.isDigit x, numerals.read_text x,
        fun h => absurd h hx⟩
  choose text hne hdigit hread hwhole using hexists
  exact ⟨⟨text, hne, hdigit, hread⟩, hwhole⟩

theorem Number.IsWhole.isNumeral {x : Float} (h : Number.IsWhole x) : IsNumeral x :=
  ⟨Number.text x, (Number.text_of_isWhole h).2⟩

/-- The names of null and of the truth values are names. -/
theorem isWord_constant {name : String} (h : name ∈ ["null", "true", "false"]) : IsWord name := by
  simp only [List.mem_cons, List.not_mem_nil, or_false] at h
  rcases h with rfl | rfl | rfl <;>
    exact ⟨by decide, List.all_eq_true.1 (by decide), by decide, by decide, by decide⟩

theorem isWord_boolean (b : Bool) : IsWord (if b then "true" else "false") :=
  isWord_constant (by cases b <;> decide)

mutual

/-- Plain data are written as well formed expressions. -/
theorem Datum.wellFormed_literal (d : Datum) (h : d.Plain) : d.literal.WellFormed := by
  cases d with
  | null => exact isWord_constant (by decide)
  | boolean b => exact isWord_boolean b
  | number x => exact Number.IsWhole.isNumeral h
  | object properties => exact wellFormed_literalEntries properties h

theorem wellFormed_literalEntries (properties : List (String × Datum))
    (h : PlainProperties properties) : WellFormedEntries (literalEntries properties) := by
  cases properties with
  | nil => trivial
  | cons property properties =>
      exact ⟨⟨h.1, property.2.wellFormed_literal h.2.1⟩, wellFormed_literalEntries properties h.2.2⟩

end

/-! ### What the tokens of a text say -/

/-- What the tokens of a text say, without the end of the input. -/
def said (text : String) : List (Option Token.Kind × String) :=
  (lexemes text.toList).filterMap Lexeme.spelled?

/-- The text has a first character, which joins nothing in front of it. -/
def opensApart (text : String) : Bool :=
  text.toList.head?.any fun c => !(CharClass.of c).joins

/-- The text has a last character, which joins nothing behind it. -/
def closesApart (text : String) : Bool :=
  text.toList.getLast?.any fun c => !(CharClass.of c).joins

theorem said_append {a b : String} (h : closesApart a = true ∨ opensApart b = true) :
    said (a ++ b) = said a ++ said b := by
  have hdivided : Divided a.toList b.toList := by
    rcases h with h | h
    · obtain ⟨c, hlast, hc⟩ := (Option.any_eq_true _ _).1 h
      refine divided_of_getLast? fun d hd => ?_
      obtain rfl : c = d := Option.some_inj.1 (hlast.symm.trans hd)
      simpa using hc
    · obtain ⟨c, hhead, hc⟩ := (Option.any_eq_true _ _).1 h
      refine divided_of_head? fun d hd => ?_
      obtain rfl : c = d := Option.some_inj.1 (hhead.symm.trans hd)
      simpa using hc
  rw [said, String.toList_append, lexemes_append_of_divided hdivided, List.filterMap_append]
  rfl

/-- A text that begins and ends with a mark or a blank stands apart from what is around it. -/
theorem said_between {front mark back : String} (hopens : opensApart mark = true)
    (hcloses : closesApart mark = true) :
    said (front ++ mark ++ back) = said front ++ said mark ++ said back := by
  have hne : mark.toList ≠ [] := by
    intro hempty
    rw [opensApart, hempty] at hopens
    cases hopens
  have hboth : closesApart (front ++ mark) = true := by
    rwa [closesApart, String.toList_append, List.getLast?_append_of_ne_nil _ hne]
  rw [said_append (Or.inl hboth), said_append (Or.inr hopens)]

/-- A piece that is a token says what it is. -/
theorem Lexeme.IsToken.said_text {piece : Lexeme} (h : piece.IsToken) :
    said piece.text = [piece.spelling] := by
  obtain ⟨kind, hkind⟩ := h.kind?_eq
  rw [said, Lexeme.text, String.toList_ofList, h.formed.filterMap_spelled?_chars hkind]

theorem said_word {name : String} (h : IsWord name) :
    said name = [(Lexeme.ofWord name).spelling] := by
  simpa [Lexeme.text, Lexeme.ofWord] using h.isToken.said_text

theorem said_number {numerals : Numerals} {x : Float} (h : numerals.text x = Number.text x) :
    said (Number.text x) = [(Lexeme.ofDigits (numerals.text x)).spelling] := by
  simpa [Lexeme.text, Lexeme.ofDigits, h] using (isToken_ofDigits numerals x).said_text

/-- The names are the words that are read as names. -/
theorem isWord_iff_scan {text : String} :
    IsWord text ↔ ∃ tok ∈ (scan text).tokens, tok.kind = .identifier ∧ tok.text = text := by
  constructor
  · intro h
    have hspelling : (some .identifier, text) ∈ (scan text).tokens.map Token.spelling := by
      rw [map_spelling_scan, ← said, said_word h]
      simp [Lexeme.spelling, Lexeme.kind?, Lexeme.text, Lexeme.ofWord,
        Token.Kind.ofWord_eq_identifier_iff.2 h.2.2]
    obtain ⟨tok, htok, heq⟩ := List.mem_map.1 hspelling
    obtain ⟨hkind, htext⟩ := Prod.mk.inj heq
    exact ⟨tok, htok, Option.some_inj.1 hkind, htext⟩
  · rintro ⟨tok, htok, hkind, rfl⟩
    exact (lexical_of_mem_scan tok htok).isWord hkind

/-! ### Reading the text of a datum -/

theorem said_property {key text : String} (h : IsWord key) :
    said (key ++ ": " ++ text)
      = (Lexeme.ofWord key).spelling :: (Lexeme.ofMark .colon ':').spelling :: said text := by
  have hcolon : said ": " = [(Lexeme.ofMark .colon ':').spelling] := by decide
  rw [said_between (by decide) (by decide), said_word h, hcolon]
  rfl

/-- Rows of an object, with a comma between two of them. -/
theorem said_commaSeparated {texts : List String} {rows : List (List Lexeme)}
    (h : List.Forall₂ (fun text row => said text = row.map Lexeme.spelling) texts rows) :
    said (String.intercalate ", " texts) = (commaSeparated rows).map Lexeme.spelling := by
  induction h with
  | nil => rfl
  | @cons text row texts rows hrow hrows ih =>
      cases hrows with
      | nil => rw [String.intercalate_singleton, commaSeparated, hrow]
      | cons hnext hrest =>
          have hcomma : said ", " = [(Lexeme.ofMark .comma ',').spelling] := by decide
          rw [String.intercalate_cons_cons, said_between (by decide) (by decide), ih,
            hrow, hcomma, commaSeparated, List.map_append, List.map_cons, List.append_assoc]
          rfl

/-- An object, with its rows between braces. -/
theorem said_objectText {properties : List (String × String)} {rows : List (List Lexeme)}
    (h : List.Forall₂ (fun text row => said text = row.map Lexeme.spelling)
      (properties.map fun p => p.1 ++ ": " ++ p.2) rows) :
    said (Value.objectText properties)
      = (Lexeme.ofMark .openBrace '\x7b' ::
          (commaSeparated rows ++ [.ofMark .closeBrace '\x7d'])).map Lexeme.spelling := by
  have hrows := said_commaSeparated h
  rw [Value.objectText]
  cases properties with
  | nil =>
      cases h
      decide
  | cons property properties =>
      have hopen : said "\x7b " = [(Lexeme.ofMark .openBrace '\x7b').spelling] := by decide
      have hclose : said " \x7d" = [(Lexeme.ofMark .closeBrace '\x7d').spelling] := by decide
      rw [if_neg (by simp), said_append (Or.inr (by decide)), said_append (Or.inl (by decide)),
        hopen, hclose, hrows]
      simp

section

variable {numerals : Numerals}

mutual

/-- **The tokens of the text of a datum** spell the expression that it is written as. -/
theorem Datum.said_text (hnumerals : numerals.PrintsWhole) (d : Datum) (h : d.Plain) :
    said d.text = (d.literal.pieces numerals).map Lexeme.spelling := by
  cases d with
  | null => exact said_word (isWord_constant (by decide))
  | boolean b => exact said_word (isWord_boolean b)
  | number x => exact said_number (hnumerals x h)
  | object properties => exact said_objectText (said_propertyTexts hnumerals properties h)

theorem said_propertyTexts (hnumerals : numerals.PrintsWhole)
    (properties : List (String × Datum)) (h : PlainProperties properties) :
    List.Forall₂ (fun text row => said text = row.map Lexeme.spelling)
      ((propertyTexts properties).map fun p => p.1 ++ ": " ++ p.2)
      (entryRows numerals (literalEntries properties)) := by
  cases properties with
  | nil => exact .nil
  | cons property properties =>
      refine .cons ?_ (said_propertyTexts hnumerals properties h.2.2)
      rw [said_property h.1, property.2.said_text hnumerals h.2.1]
      rfl

end

end

/-- **The text of plain data is parsed to the expression**, and nothing else. -/
theorem Datum.ofSource_text {d : Datum} (h : d.Plain) :
    Program.ofSource d.text = .ok ⟨[.expr d.literal]⟩ := by
  obtain ⟨numerals, hnumerals⟩ := exists_printsWhole
  have htokens : (scan d.text).tokens.map Token.spelling
      = (d.literal.pieces numerals).map Lexeme.spelling ++ [(some .endOfInput, "")] := by
    rw [map_spelling_scan, ← said, d.said_text hnumerals h]
  obtain ⟨inner, ending, hscan, hinner, hending⟩ := List.map_eq_append_iff.1 htokens
  obtain ⟨last, rfl, hlast⟩ := List.map_eq_singleton_iff.1 hending
  have hkind : last.kind = .endOfInput := Option.some_inj.1 (Prod.mk.inj hlast).1
  have hexpression : Grammar.Derives .expression (inner ++ [last]) [last] d.literal :=
    (Grammar.derivesPieces_expr d.literal (d.wellFormed_literal h)).expression hinner
      (by simp [hkind])
  refine Program.ofSource_eq_ok.2 (Program.readTokens_of_derivable ⟨last, hkind, ?_⟩)
  rw [hscan]
  exact .moreStatements (.bareExpr hexpression) (.noStatement [last])

end Scriptlet
