/-
**Printing programs, and parsing them again.**

A tree is printed with parentheses only where an expression stands in a place that asks for one
that binds more tightly: operands group from the left, the right operand of a product and the
callee of a call have to be calls or bind more tightly, and a call whose property is accessed is put
in parentheses, since accesses bind more tightly than calls.  Every statement ends with a semicolon,
and blanks stand only between words, or numbers, that would otherwise run together.

Main definitions:

* `Scriptlet.Layer`, `Scriptlet.Expr.layer` — how tightly expressions bind;
* `Scriptlet.Numerals` — a way of writing numbers with digits;
* `Scriptlet.Expr.pieces`, `Scriptlet.Stmt.pieces`, `Scriptlet.Program.print` — **printing**.

Main results:

* `Scriptlet.Grammar.derivesPieces_expr` — printed expressions are derived, at their layers;
* `Scriptlet.Program.ofSource_print` — **printing and parsing are inverse**, and the programs that
  sources are parsed to are the well formed ones.
-/

import Mathlib.Data.List.Forall2
import Scriptlet.Proofs.Syntax.Completeness
import Scriptlet.Proofs.Syntax.WellFormed

set_option relaxedAutoImplicit false
set_option autoImplicit false

namespace Scriptlet

/-! ### Layers -/

/-- **The layers of expressions**, the ones that bind more tightly later.  A `callee` is a call or
what can be called, and a `factor` is the same with nothing left that it could be applied to. -/
inductive Layer where
  | expression
  | target
  | sum
  | product
  | factor
  | callee
  | member
  | primary
deriving DecidableEq

/-- How tightly a layer binds. -/
def Layer.rank : Layer → Nat
  | .expression => 0
  | .target => 1
  | .sum => 2
  | .product => 3
  | .factor => 4
  | .callee => 5
  | .member => 6
  | .primary => 7

/-- The layer of an operation, which its left operand may be of too. -/
def Operator.layer : Operator → Layer
  | .add | .subtract => .sum
  | .multiply | .divide | .modulo => .product

/-- The layer that a right operand has to be of. -/
def Operator.rightLayer : Operator → Layer
  | .add | .subtract => .product
  | .multiply | .divide | .modulo => .factor

/-- The layer of an expression. -/
def Expr.layer : Expr → Layer
  | .number _ | .name _ | .function .. => .primary
  | .dot .. | .index .. => .member
  | .call .. => .callee
  | .binary op _ _ => op.layer
  | .object _ => .target
  | .assign .. => .expression

/-! ### Printing -/

namespace Lexeme

/-- The piece that is a word. -/
def ofWord (text : String) : Lexeme := ⟨.letter, text.toList⟩

/-- The piece that is a row of digits. -/
def ofDigits (text : String) : Lexeme := ⟨.digit, text.toList⟩

/-- The piece that is one mark. -/
def ofMark (kind : Token.Kind) (c : Char) : Lexeme := ⟨.mark kind, [c]⟩

/-- The piece that is an operator. -/
def ofOperator (op : Operator) : Lexeme := ⟨.mark .operator, op.symbol.toList⟩

end Lexeme

/-- **A way of writing numbers**: digits for every number, which read as that number if any digits
do. -/
structure Numerals where
  /-- The digits of a number. -/
  text : Float → String
  /-- There is a digit. -/
  ne_empty : ∀ x, text x ≠ ""
  /-- There are only digits. -/
  isDigit : ∀ x, ∀ c ∈ (text x).toList, Decimal.isDigit c = true
  /-- The digits read as the number. -/
  read_text : ∀ x, IsNumeral x → Number.read (text x) = some x

/-- Rows of pieces, with commas between them. -/
def commaSeparated : List (List Lexeme) → List Lexeme
  | [] => []
  | [row] => row
  | row :: row' :: rows => row ++ .ofMark .comma ',' :: commaSeparated (row' :: rows)

/-- Pieces, in parentheses. -/
def parenthesized (pieces : List Lexeme) : List Lexeme :=
  .ofMark .openParen '(' :: (pieces ++ [.ofMark .closeParen ')'])

/-- The pieces of an expression, in parentheses if its layer binds less tightly than its place
asks for. -/
def enclosed (place layer : Layer) (pieces : List Lexeme) : List Lexeme :=
  if place.rank ≤ layer.rank then pieces else parenthesized pieces

section Printing

variable (numerals : Numerals)

mutual

/-- **The pieces of an expression.** -/
def Expr.pieces : Expr → List Lexeme
  | .number x => [.ofDigits (numerals.text x)]
  | .name n => [.ofWord n]
  | .binary op left right =>
      enclosed op.layer left.layer left.pieces ++
        .ofOperator op :: enclosed op.rightLayer right.layer right.pieces
  | .assign target value =>
      enclosed .target target.layer target.pieces ++ .ofMark .equals '=' :: value.pieces
  | .call callee arguments =>
      enclosed .callee callee.layer callee.pieces ++
        parenthesized (commaSeparated (exprRows arguments))
  | .dot object property =>
      enclosed .member object.layer object.pieces ++
        .ofMark .dot '.' :: enclosed .primary property.layer property.pieces
  | .index object property =>
      enclosed .member object.layer object.pieces ++
        .ofMark .openBracket '[' :: (property.pieces ++ [.ofMark .closeBracket ']'])
  | .object entries =>
      .ofMark .openBrace '\x7b' ::
        (commaSeparated (entryRows entries) ++ [.ofMark .closeBrace '\x7d'])
  | .function f parameters body =>
      .ofWord "fn" :: .ofWord f ::
        (parenthesized (commaSeparated (parameters.map fun p => [.ofWord p])) ++
          .ofMark .openBrace '\x7b' :: (stmtsPieces body ++ [.ofMark .closeBrace '\x7d']))

/-- The pieces of each of some expressions. -/
def exprRows : List Expr → List (List Lexeme)
  | [] => []
  | e :: es => e.pieces :: exprRows es

/-- The pieces of each of some entries. -/
def entryRows : List Entry → List (List Lexeme)
  | [] => []
  | e :: es => e.pieces :: entryRows es

/-- The pieces of an entry. -/
def Entry.pieces : Entry → List Lexeme
  | .shorthand key => [.ofWord key]
  | .pair key value => .ofWord key :: .ofMark .colon ':' :: value.pieces

/-- The pieces of statements. -/
def stmtsPieces : List Stmt → List Lexeme
  | [] => []
  | s :: ss => s.pieces ++ stmtsPieces ss

/-- **The pieces of a statement**, with a semicolon at the end. -/
def Stmt.pieces : Stmt → List Lexeme
  | .declare constant n none =>
      [.ofWord (if constant then "const" else "let"), .ofWord n, .ofMark .semicolon ';']
  | .declare constant n (some value) =>
      .ofWord (if constant then "const" else "let") :: .ofWord n :: .ofMark .equals '=' ::
        (value.pieces ++ [.ofMark .semicolon ';'])
  | .expr e => e.pieces ++ [.ofMark .semicolon ';']

end

end Printing

/-- **The text of a program.** -/
def Program.print (numerals : Numerals) (program : Program) : String :=
  String.ofList (joinedText (spaced (stmtsPieces numerals program.body)))

/-! ### Pieces and tokens -/

theorem spelled_mark {kind : Token.Kind} {c : Char} {pieces : List Lexeme} {tokens : List Token}
    (h : Spelled (.ofMark kind c :: pieces) tokens) :
    ∃ tok rest, tokens = tok :: rest ∧ tok.kind = kind ∧ Spelled pieces rest := by
  obtain ⟨tok, rest, rfl, hkind, -, hrest⟩ := spelled_cons h
  exact ⟨tok, rest, rfl, (Option.some_inj.1 hkind).symm, hrest⟩

/-- Pieces with a mark behind them. -/
theorem spelled_closed {kind : Token.Kind} {c : Char} {pieces : List Lexeme} {tokens : List Token}
    (h : Spelled (pieces ++ [.ofMark kind c]) tokens) :
    ∃ inner close, tokens = inner ++ [close] ∧ Spelled pieces inner ∧ close.kind = kind := by
  obtain ⟨inner, last, rfl, hinner, hlast⟩ := spelled_append h
  obtain ⟨close, nothing, rfl, hclose, hnothing⟩ := spelled_mark hlast
  obtain rfl := spelled_nil hnothing
  exact ⟨inner, close, rfl, hinner, hclose⟩

theorem spelled_word {text : String} {pieces : List Lexeme} {tokens : List Token}
    (h : Spelled (.ofWord text :: pieces) tokens) :
    ∃ tok rest, tokens = tok :: rest ∧ tok.kind = Token.Kind.ofWord text ∧ tok.text = text ∧
      Spelled pieces rest := by
  obtain ⟨tok, rest, rfl, hkind, htext, hrest⟩ := spelled_cons h
  rw [Lexeme.text, Lexeme.ofWord, String.ofList_toList] at htext
  refine ⟨tok, rest, rfl, ?_, htext.symm, hrest⟩
  rw [Lexeme.kind?, Lexeme.ofWord, Lexeme.text, String.ofList_toList, Option.some_inj] at hkind
  exact hkind.symm

theorem spelled_name {text : String} {pieces : List Lexeme} {tokens : List Token}
    (h : Spelled (.ofWord text :: pieces) tokens) (hword : IsWord text) :
    ∃ tok rest, tokens = tok :: rest ∧ tok.kind = .identifier ∧ tok.text = text ∧
      Spelled pieces rest := by
  obtain ⟨tok, rest, rfl, hkind, htext, hrest⟩ := spelled_word h
  rw [Token.Kind.ofWord_eq_identifier_iff.2 hword.2.2] at hkind
  exact ⟨tok, rest, rfl, hkind, htext, hrest⟩

theorem spelled_operator {op : Operator} {pieces : List Lexeme} {tokens : List Token}
    (h : Spelled (.ofOperator op :: pieces) tokens) :
    ∃ tok rest, tokens = tok :: rest ∧ tok.operator? = some op ∧ Spelled pieces rest := by
  obtain ⟨tok, rest, rfl, hkind, htext, hrest⟩ := spelled_cons h
  rw [Lexeme.text, Lexeme.ofOperator, String.ofList_toList] at htext
  refine ⟨tok, rest, rfl, ?_, hrest⟩
  rw [Token.operator?, if_pos (Option.some_inj.1 hkind).symm, Operator.ofSymbol?_eq_some_iff]
  exact htext.symm

/-! ### Layers and derivations -/

namespace Grammar

/-- Derivations of expressions of a layer. -/
def DerivesAt : Layer → List Token → List Token → Expr → Prop
  | .expression, tokens, rest, e => Derives .expression tokens rest e
  | .target, tokens, rest, e => Derives .target tokens rest e
  | .sum, tokens, rest, e => Derives .sum tokens rest e
  | .product, tokens, rest, e => Derives .product tokens rest e
  | .factor, tokens, rest, e => Derives .call tokens rest e
  | .callee, tokens, rest, e => Derives .calls tokens rest e
  | .member, tokens, rest, e => Derives .member tokens rest e
  | .primary, tokens, rest, e => Derives .primary tokens rest e

/-- The next layer that binds less tightly. -/
def wider : Layer → Layer
  | .expression | .target => .expression
  | .sum => .target
  | .product => .sum
  | .factor => .product
  | .callee => .factor
  | .member => .callee
  | .primary => .member

theorem rank_wider (layer : Layer) : (wider layer).rank = layer.rank - 1 := by
  cases layer <;> rfl

theorem rank_injective {a b : Layer} (h : a.rank = b.rank) : a = b := by
  cases a <;> cases b <;> first | rfl | cases h

/-- Only between calls and factors something is asked of what follows. -/
theorem DerivesAt.wider {layer : Layer} {tokens rest : List Token} {e : Expr}
    (h : DerivesAt layer tokens rest e)
    (hhead : layer = .callee → headKind rest ≠ some .openParen) :
    DerivesAt (wider layer) tokens rest e := by
  cases layer with
  | expression => exact h
  | target => exact .unassigned h
  | sum => exact .sumTarget h
  | product => exact .oneProduct h
  | factor => exact .oneCall h
  | callee => exact .allCalls h (hhead rfl)
  | member => exact .uncalled h
  | primary => exact .onePrimary h

/-- **What binds tightly can stand where less is asked for.** -/
theorem DerivesAt.mono {a b : Layer} {tokens rest : List Token} {e : Expr}
    (h : DerivesAt a tokens rest e) (hab : b.rank ≤ a.rank)
    (hhead : b.rank ≤ Layer.factor.rank → headKind rest ≠ some .openParen) :
    DerivesAt b tokens rest e := by
  induction hn : a.rank - b.rank generalizing a with
  | zero => exact rank_injective (a := a) (b := b) (by omega) ▸ h
  | succ n ih =>
      -- one layer at a time; what follows matters on the way from a call to a factor
      have hwider : DerivesAt (Grammar.wider a) tokens rest e := by
        refine h.wider fun ha => hhead ?_
        rw [ha] at hn
        exact Nat.le_of_lt_succ (by change b.rank < Layer.callee.rank; omega)
      exact ih hwider (by rw [rank_wider]; omega) (by rw [rank_wider]; omega)

/-- Tokens that spell the pieces are an expression of a layer, whatever follows that does not apply
it. -/
def DerivesPieces (layer : Layer) (pieces : List Lexeme) (e : Expr) : Prop :=
  ∀ tokens rest, Spelled pieces tokens →
    (layer.rank ≤ Layer.factor.rank → headKind rest ≠ some .openParen) →
      DerivesAt layer (tokens ++ rest) rest e

/-- **An expression that is enclosed is of the layer that is asked for.** -/
theorem DerivesPieces.enclosed {place layer : Layer} {pieces : List Lexeme} {e : Expr}
    (h : DerivesPieces layer pieces e) : DerivesPieces place (enclosed place layer pieces) e := by
  intro tokens rest hspelled hhead
  rw [Scriptlet.enclosed] at hspelled
  split at hspelled
  · next hle =>
    exact (h tokens rest hspelled fun hlayer => hhead (Nat.le_trans hle hlayer)).mono hle hhead
  · obtain ⟨o, behind, rfl, ho, hbehind⟩ := spelled_mark hspelled
    obtain ⟨inner, c, rfl, hinner, hc⟩ := spelled_closed hbehind
    have hexpression : DerivesAt .expression (inner ++ c :: rest) (c :: rest) e :=
      (h inner (c :: rest) hinner fun _ => by simp [hc]).mono (Nat.zero_le _) fun _ => by simp [hc]
    have hprimary : DerivesAt .primary (o :: (inner ++ c :: rest)) rest e :=
      .parenthesized ho hexpression hc
    simpa using hprimary.mono (by cases place <;> decide) hhead

/-- An expression, in a place where any will do. -/
theorem DerivesPieces.expression {layer : Layer} {pieces : List Lexeme} {e : Expr}
    (h : DerivesPieces layer pieces e) {tokens rest : List Token} (hspelled : Spelled pieces tokens)
    (hhead : headKind rest ≠ some .openParen) : Derives .expression (tokens ++ rest) rest e :=
  (h tokens rest hspelled fun _ => hhead).mono (b := .expression) (Nat.zero_le _) fun _ => hhead

/-- Pieces of something whose tokens are what the grammar asks for, in front of anything but a
parenthesis. -/
def DerivesRow {α : Type} (G : List Token → List Token → α → Prop) (pieces : List Lexeme)
    (value : α) : Prop :=
  ∀ tokens rest, Spelled pieces tokens → headKind rest ≠ some .openParen →
    G (tokens ++ rest) rest value

/-- **Rows with commas between them**, given what the last row and what a row in front of others
stands for. -/
theorem derives_commaSeparated {α : Type} {G : List Token → List Token → α → Prop}
    {L : List Token → List Token → List α → Prop}
    (hlast : ∀ {tokens rest e}, G tokens rest e → L tokens rest [e])
    (hmore : ∀ {comma tokens mid rest e es}, G tokens (comma :: mid) e → comma.kind = .comma →
      L mid rest es → L tokens rest (e :: es))
    {rows : List (List Lexeme)} {es : List α} (h : List.Forall₂ (DerivesRow G) rows es)
    (hne : es ≠ []) : DerivesRow L (commaSeparated rows) es := by
  induction h with
  | nil => exact absurd rfl hne
  | @cons row e rows es hrow hrows ih =>
      intro tokens rest hspelled hhead
      cases hrows with
      | nil => exact hlast (hrow tokens rest hspelled hhead)
      | @cons row' e' rows es hrow' hrows =>
          obtain ⟨first, behind, rfl, hfirst, hbehind⟩ := spelled_append hspelled
          obtain ⟨comma, second, rfl, hcomma, hsecond⟩ := spelled_mark hbehind
          rw [List.append_assoc]
          exact hmore (hrow first _ hfirst (by simp [hcomma])) hcomma
            (ih (by simp) second rest hsecond hhead)

/-- Expressions between parentheses. -/
theorem derives_parenthesized_exprs {rows : List (List Lexeme)} {es : List Expr}
    (h : List.Forall₂ (DerivesRow (Derives .expression)) rows es) {tokens rest : List Token}
    (hspelled : Spelled (parenthesized (commaSeparated rows)) tokens) :
    Derives .arguments (tokens ++ rest) rest es := by
  obtain ⟨o, behind, rfl, ho, hbehind⟩ := spelled_mark hspelled
  obtain ⟨inner, c, rfl, hinner, hc⟩ := spelled_closed hbehind
  cases h with
  | nil =>
      obtain rfl := spelled_nil hinner
      exact .noArguments ho hc
  | cons hrow hrows =>
      have hes := derives_commaSeparated (G := Derives .expression) (L := Derives .expressions)
        .lastExpression .moreExpressions (.cons hrow hrows) (by simp) inner (c :: rest) hinner
        (by simp [hc])
      simpa using Derives.someArguments ho hes hc

/-! ### Every printed tree is derived -/

variable {numerals : Numerals}

theorem derivesPieces_name {n : String} (h : IsWord n) :
    DerivesPieces .primary [.ofWord n] (.name n) := by
  intro tokens rest hspelled _
  obtain ⟨tok, nothing, rfl, hkind, rfl, hnothing⟩ := spelled_name hspelled h
  obtain rfl := spelled_nil hnothing
  exact .name hkind

theorem derivesPieces_number {x : Float} (h : IsNumeral x) :
    DerivesPieces .primary [.ofDigits (numerals.text x)] (.number x) := by
  intro tokens rest hspelled _
  obtain ⟨tok, nothing, rfl, hkind, htext, hnothing⟩ := spelled_cons hspelled
  obtain rfl := spelled_nil hnothing
  rw [Lexeme.text, Lexeme.ofDigits, String.ofList_toList] at htext
  refine .number (Option.some_inj.1 hkind).symm ?_
  rw [← htext]
  exact numerals.read_text x h

theorem derivesPieces_binary {op : Operator} {left right : Layer} {ps qs : List Lexeme}
    {a b : Expr} (ha : DerivesPieces left ps a) (hb : DerivesPieces right qs b) :
    DerivesPieces op.layer
      (enclosed op.layer left ps ++ .ofOperator op :: enclosed op.rightLayer right qs)
      (.binary op a b) := by
  intro tokens rest hspelled hhead
  obtain ⟨first, behind, rfl, hfirst, hbehind⟩ := spelled_append hspelled
  obtain ⟨tok, second, rfl, hop, hsecond⟩ := spelled_operator hbehind
  have hleft := ha.enclosed first (tok :: (second ++ rest)) hfirst fun _ => by
    simp [kind_of_operator? hop]
  have hright := hb.enclosed second rest hsecond fun _ => hhead (by cases op <;> decide)
  rw [List.append_assoc, List.cons_append]
  cases op with
  | add | subtract => exact Derives.add hleft hop (by decide) hright
  | multiply | divide | modulo => exact Derives.multiply hleft hop (by decide) hright

theorem derivesPieces_assign {left right : Layer} {ps qs : List Lexeme} {t v : Expr}
    (ht : DerivesPieces left ps t) (hv : DerivesPieces right qs v) :
    DerivesPieces .expression (enclosed .target left ps ++ .ofMark .equals '=' :: qs)
      (.assign t v) := by
  intro tokens rest hspelled hhead
  obtain ⟨first, behind, rfl, hfirst, hbehind⟩ := spelled_append hspelled
  obtain ⟨eq, second, rfl, heq, hsecond⟩ := spelled_mark hbehind
  have htarget := ht.enclosed first (eq :: (second ++ rest)) hfirst fun _ => by simp [heq]
  rw [List.append_assoc, List.cons_append]
  exact Derives.assign htarget heq (hv.expression hsecond (hhead (by decide)))

theorem derivesPieces_call {layer : Layer} {ps : List Lexeme} {rows : List (List Lexeme)}
    {f : Expr} {es : List Expr} (hf : DerivesPieces layer ps f)
    (hes : List.Forall₂ (DerivesRow (Derives .expression)) rows es) :
    DerivesPieces .callee (enclosed .callee layer ps ++ parenthesized (commaSeparated rows))
      (.call f es) := by
  intro tokens rest hspelled _
  obtain ⟨first, second, rfl, hfirst, hsecond⟩ := spelled_append hspelled
  have hcallee := hf.enclosed first (second ++ rest) hfirst fun h => absurd h (by decide)
  rw [List.append_assoc]
  exact Derives.applied hcallee (derives_parenthesized_exprs hes hsecond)

theorem derivesPieces_dot {object property : Layer} {ps qs : List Lexeme} {o : Expr} {p : String}
    (ho : DerivesPieces object ps o) (hp : DerivesPieces property qs (.name p)) :
    DerivesPieces .member
      (enclosed .member object ps ++ .ofMark .dot '.' :: enclosed .primary property qs)
      (.dot o (.name p)) := by
  intro tokens rest hspelled _
  obtain ⟨first, behind, rfl, hfirst, hbehind⟩ := spelled_append hspelled
  obtain ⟨d, second, rfl, hd, hsecond⟩ := spelled_mark hbehind
  have hobject := ho.enclosed first (d :: (second ++ rest)) hfirst fun _ => by simp [hd]
  have hproperty := hp.enclosed second rest hsecond fun h => absurd h (by decide)
  rw [List.append_assoc, List.cons_append]
  exact Derives.dot hobject hd hproperty

theorem derivesPieces_index {object property : Layer} {ps qs : List Lexeme} {o p : Expr}
    (ho : DerivesPieces object ps o) (hp : DerivesPieces property qs p) :
    DerivesPieces .member
      (enclosed .member object ps ++
        .ofMark .openBracket '[' :: (qs ++ [.ofMark .closeBracket ']']))
      (.index o p) := by
  intro tokens rest hspelled _
  obtain ⟨first, behind, rfl, hfirst, hbehind⟩ := spelled_append hspelled
  obtain ⟨b, inner, rfl, hb, hinner⟩ := spelled_mark hbehind
  obtain ⟨second, c, rfl, hsecond, hc⟩ := spelled_closed hinner
  have hobject := ho.enclosed first (b :: (second ++ c :: rest)) hfirst fun _ => by simp [hb]
  have hproperty : Derives .expression (second ++ c :: rest) (c :: rest) p :=
    hp.expression hsecond (by simp [hc])
  have hindex : Derives .member (first ++ b :: (second ++ c :: rest)) rest (.index o p) :=
    Derives.index hobject hb hproperty hc
  simpa [DerivesAt] using hindex

theorem derivesPieces_object {rows : List (List Lexeme)} {es : List Entry}
    (hes : List.Forall₂ (DerivesRow (Derives .entry)) rows es) :
    DerivesPieces .target
      (.ofMark .openBrace '\x7b' :: (commaSeparated rows ++ [.ofMark .closeBrace '\x7d']))
      (.object es) := by
  intro tokens rest hspelled _
  obtain ⟨o, behind, rfl, ho, hbehind⟩ := spelled_mark hspelled
  obtain ⟨inner, c, rfl, hinner, hc⟩ := spelled_closed hbehind
  cases hes with
  | nil =>
      obtain rfl := spelled_nil hinner
      exact Derives.emptyObject ho hc
  | cons hrow hrows =>
      have hentries := derives_commaSeparated (G := Derives .entry) (L := Derives .entries)
        .lastEntry .moreEntries (.cons hrow hrows) (by simp) inner (c :: rest) hinner (by simp [hc])
      have hobject : Derives .target (o :: (inner ++ c :: rest)) rest _ :=
        Derives.object ho hentries hc
      simpa [DerivesAt] using hobject

theorem derivesPieces_function {f : String} {ps : List String} {body : List Lexeme}
    {ss : List Stmt} (hf : IsWord f) (hps : ∀ p ∈ ps, IsWord p)
    (hss : ∀ tokens c rest, Spelled body tokens → c.kind = .closeBrace →
      Derives .statements (tokens ++ c :: rest) (c :: rest) ss) :
    DerivesPieces .primary
      (.ofWord "fn" :: .ofWord f ::
        (parenthesized (commaSeparated (ps.map fun p => [.ofWord p])) ++
          .ofMark .openBrace '\x7b' :: (body ++ [.ofMark .closeBrace '\x7d'])))
      (.function f ps ss) := by
  intro tokens rest hspelled _
  obtain ⟨fnWord, behind, rfl, hfnWord, -, h₁⟩ := spelled_word hspelled
  obtain ⟨n, behind, rfl, hn, rfl, h₂⟩ := spelled_name h₁ hf
  obtain ⟨parameters, behind, rfl, hparameters, h₃⟩ := spelled_append h₂
  obtain ⟨o, behind, rfl, ho, h₄⟩ := spelled_mark h₃
  obtain ⟨inner, c, rfl, hinner, hc⟩ := spelled_closed h₄
  have hrows : List.Forall₂ (DerivesRow (Derives .expression)) (ps.map fun p => [.ofWord p])
      (ps.map .name) := by
    rw [List.forall₂_map_left_iff, List.forall₂_map_right_iff, List.forall₂_same]
    exact fun p hp tokens rest h hhead => (derivesPieces_name (hps p hp)).expression h hhead
  have harguments : Derives .arguments (parameters ++ o :: (inner ++ c :: rest))
      (o :: (inner ++ c :: rest)) (ps.map .name) := derives_parenthesized_exprs hrows hparameters
  have hfunction : Derives .primary
      (fnWord :: n :: (parameters ++ o :: (inner ++ c :: rest))) rest (.function n.text ps ss) :=
    Derives.function hfnWord hn harguments ho (hss inner c rest hinner hc) hc
  simpa [DerivesAt] using hfunction

/-- The entry of a key alone. -/
theorem derivesRow_shorthand {key : String} (h : IsWord key) :
    DerivesRow (Derives .entry) [.ofWord key] (.shorthand key) := by
  intro tokens rest hspelled _
  obtain ⟨k, nothing, rfl, hk, rfl, hnothing⟩ := spelled_name hspelled h
  obtain rfl := spelled_nil hnothing
  exact .shorthand hk

theorem derivesRow_pair {key : String} {layer : Layer} {ps : List Lexeme} {v : Expr}
    (h : IsWord key) (hv : DerivesPieces layer ps v) :
    DerivesRow (Derives .entry) (.ofWord key :: .ofMark .colon ':' :: ps) (.pair key v) := by
  intro tokens rest hspelled hhead
  obtain ⟨k, behind, rfl, hk, rfl, h₁⟩ := spelled_name hspelled h
  obtain ⟨colon, second, rfl, hcolon, hsecond⟩ := spelled_mark h₁
  exact .pair hk hcolon (hv.expression hsecond hhead)

/-- Tokens that spell the pieces are a statement, whatever follows. -/
def DerivesStmt (pieces : List Lexeme) (s : Stmt) : Prop :=
  ∀ tokens rest, Spelled pieces tokens → Derives .statement (tokens ++ rest) rest s

theorem derivesStmt_bare {n : String} (h : IsWord n) :
    DerivesStmt [.ofWord "let", .ofWord n, .ofMark .semicolon ';'] (.declare false n none) := by
  intro tokens rest hspelled
  obtain ⟨l, behind, rfl, hl, -, h₁⟩ := spelled_word hspelled
  obtain ⟨tok, behind, rfl, htok, rfl, h₂⟩ := spelled_name h₁ h
  obtain ⟨semi, nothing, rfl, hsemi, hnothing⟩ := spelled_mark h₂
  obtain rfl := spelled_nil hnothing
  exact .letBare hl htok hsemi

theorem derivesStmt_value {constant : Bool} {n : String} {layer : Layer} {ps : List Lexeme}
    {v : Expr} (h : IsWord n) (hv : DerivesPieces layer ps v) :
    DerivesStmt
      (.ofWord (if constant then "const" else "let") :: .ofWord n :: .ofMark .equals '=' ::
        (ps ++ [.ofMark .semicolon ';']))
      (.declare constant n (some v)) := by
  intro tokens rest hspelled
  obtain ⟨k, behind, rfl, hk, -, h₁⟩ := spelled_word hspelled
  obtain ⟨tok, behind, rfl, htok, rfl, h₂⟩ := spelled_name h₁ h
  obtain ⟨eq, behind, rfl, heq, h₃⟩ := spelled_mark h₂
  obtain ⟨value, semi, rfl, hvalue, hsemi⟩ := spelled_closed h₃
  have he : Derives .expression (value ++ semi :: rest) (semi :: rest) v :=
    hv.expression hvalue (by simp [hsemi])
  have hstatement : Derives .statement (k :: tok :: eq :: (value ++ semi :: rest)) rest
      (.declare constant tok.text (some v)) := by
    cases constant with
    | false => exact .letValue hk htok heq he hsemi
    | true => exact .constValue hk htok heq he hsemi
  simpa using hstatement

theorem derivesStmt_expr {layer : Layer} {ps : List Lexeme} {e : Expr}
    (he : DerivesPieces layer ps e) :
    DerivesStmt (ps ++ [.ofMark .semicolon ';']) (.expr e) := by
  intro tokens rest hspelled
  obtain ⟨inner, semi, rfl, hinner, hsemi⟩ := spelled_closed hspelled
  have hexpression : Derives .expression (inner ++ semi :: rest) (semi :: rest) e :=
    he.expression hinner (by simp [hsemi])
  simpa using Derives.endedExpr hexpression hsemi

mutual

/-- **Printed expressions are derived**, at their layers. -/
theorem derivesPieces_expr (e : Expr) (h : e.WellFormed) :
    DerivesPieces e.layer (e.pieces numerals) e := by
  cases e with
  | number x => exact derivesPieces_number h
  | name n => exact derivesPieces_name h
  | binary op left right =>
      exact derivesPieces_binary (derivesPieces_expr left h.1) (derivesPieces_expr right h.2)
  | assign target value =>
      exact derivesPieces_assign (derivesPieces_expr target h.1) (derivesPieces_expr value h.2)
  | call callee arguments =>
      exact derivesPieces_call (derivesPieces_expr callee h.1) (derivesRow_exprs arguments h.2)
  | dot object property =>
      obtain ⟨hobject, hname, hproperty⟩ := h
      have hp := derivesPieces_expr property hproperty
      cases property with
      | name p => exact derivesPieces_dot (derivesPieces_expr object hobject) hp
      | _ => cases hname
  | index object property =>
      exact derivesPieces_index (derivesPieces_expr object h.1) (derivesPieces_expr property h.2)
  | object entries => exact derivesPieces_object (derivesRow_entries entries h)
  | function f parameters body =>
      exact derivesPieces_function h.1 h.2.1 fun tokens c rest hspelled hc =>
        derives_stmts body h.2.2 tokens (c :: rest) hspelled

theorem derivesRow_exprs (es : List Expr) (h : WellFormedExprs es) :
    List.Forall₂ (DerivesRow (Derives .expression)) (exprRows numerals es) es := by
  cases es with
  | nil => exact .nil
  | cons e es =>
      exact .cons (fun tokens rest hspelled hhead =>
        (derivesPieces_expr e h.1).expression hspelled hhead) (derivesRow_exprs es h.2)

theorem derivesRow_entries (es : List Entry) (h : WellFormedEntries es) :
    List.Forall₂ (DerivesRow (Derives .entry)) (entryRows numerals es) es := by
  cases es with
  | nil => exact .nil
  | cons e es => exact .cons (derivesRow_entry e h.1) (derivesRow_entries es h.2)

theorem derivesRow_entry (e : Entry) (h : e.WellFormed) :
    DerivesRow (Derives .entry) (e.pieces numerals) e := by
  cases e with
  | shorthand key => exact derivesRow_shorthand h
  | pair key value => exact derivesRow_pair h.1 (derivesPieces_expr value h.2)

theorem derives_stmts (ss : List Stmt) (h : WellFormedStmts ss) (tokens rest : List Token)
    (hspelled : Spelled (stmtsPieces numerals ss) tokens) :
    Derives .statements (tokens ++ rest) rest ss := by
  cases ss with
  | nil =>
      obtain rfl := spelled_nil hspelled
      exact .noStatement rest
  | cons s ss =>
      obtain ⟨first, second, rfl, hfirst, hsecond⟩ := spelled_append hspelled
      rw [List.append_assoc]
      exact .moreStatements (derivesStmt_stmt s h.1 first _ hfirst)
        (derives_stmts ss h.2 second rest hsecond)

theorem derivesStmt_stmt (s : Stmt) (h : s.WellFormed) : DerivesStmt (s.pieces numerals) s := by
  cases s with
  | declare constant n value =>
      cases value with
      | none =>
          obtain ⟨rfl, hn⟩ := h
          exact derivesStmt_bare hn
      | some value => exact derivesStmt_value h.1 (derivesPieces_expr value h.2)
  | expr e => exact derivesStmt_expr (derivesPieces_expr e h)

end

end Grammar

/-! ### Printed pieces are tokens -/

/-- A well formed piece that is a token. -/
structure Lexeme.IsToken (piece : Lexeme) : Prop where
  /-- The piece is well formed. -/
  formed : piece.Formed
  /-- The piece is a token. -/
  kind?_eq : ∃ kind, piece.kind? = some kind

/-- All pieces are tokens. -/
def AllTokens (pieces : List Lexeme) : Prop := ∀ p ∈ pieces, p.IsToken

theorem isToken_ofWord {text : String} (hne : text ≠ "")
    (hcased : ∀ c ∈ text.toList, isCased c = true) : (Lexeme.ofWord text).IsToken where
  formed :=
    { ne_nil := fun h => hne (String.toList_eq_nil_iff.1 h)
      of_eq := fun c hc => CharClass.of_eq_letter_iff.2 (hcased c hc)
      joins_or_single := Or.inl rfl }
  kind?_eq := ⟨_, rfl⟩

theorem isToken_ofMark {kind : Token.Kind} {c : Char} (h : CharClass.of c = .mark kind) :
    (Lexeme.ofMark kind c).IsToken := by
  have hformed := Lexeme.formed_single c
  rw [h] at hformed
  exact ⟨hformed, kind, rfl⟩

theorem isToken_ofOperator (op : Operator) : (Lexeme.ofOperator op).IsToken := by
  cases op <;> exact isToken_ofMark (by decide)

theorem isToken_ofDigits (numerals : Numerals) (x : Float) :
    (Lexeme.ofDigits (numerals.text x)).IsToken where
  formed :=
    { ne_nil := fun h => numerals.ne_empty x (String.toList_eq_nil_iff.1 h)
      of_eq := fun c hc => CharClass.of_eq_digit_iff.2 (numerals.isDigit x c hc)
      joins_or_single := Or.inl rfl }
  kind?_eq := ⟨_, rfl⟩

theorem isToken_keyword {text : String} (h : text = "let" ∨ text = "const" ∨ text = "fn") :
    (Lexeme.ofWord text).IsToken := by
  rcases h with rfl | rfl | rfl <;>
    exact isToken_ofWord (by decide) (List.all_eq_true.1 (by decide))

theorem IsWord.isToken {text : String} (h : IsWord text) : (Lexeme.ofWord text).IsToken :=
  isToken_ofWord h.1 h.2.1

namespace AllTokens

theorem nil : AllTokens [] := by simp [AllTokens]

theorem cons {p : Lexeme} {pieces : List Lexeme} (hp : p.IsToken) (h : AllTokens pieces) :
    AllTokens (p :: pieces) := List.forall_mem_cons.2 ⟨hp, h⟩

theorem append {front back : List Lexeme} (hfront : AllTokens front) (hback : AllTokens back) :
    AllTokens (front ++ back) := List.forall_mem_append.2 ⟨hfront, hback⟩

theorem single {p : Lexeme} (hp : p.IsToken) : AllTokens [p] := cons hp nil

theorem commaSeparated {rows : List (List Lexeme)} (h : ∀ row ∈ rows, AllTokens row) :
    AllTokens (commaSeparated rows) := by
  induction rows using Scriptlet.commaSeparated.induct with
  | case1 => exact nil
  | case2 row => exact h row List.mem_cons_self
  | case3 row row' rows ih =>
      exact (h row List.mem_cons_self).append <| cons (isToken_ofMark (by decide)) <|
        ih fun r hr => h r (List.mem_cons_of_mem _ hr)

theorem parenthesized {pieces : List Lexeme} (h : AllTokens pieces) :
    AllTokens (parenthesized pieces) :=
  cons (isToken_ofMark (by decide)) (h.append (single (isToken_ofMark (by decide))))

theorem enclosed {place layer : Layer} {pieces : List Lexeme} (h : AllTokens pieces) :
    AllTokens (enclosed place layer pieces) := by
  rw [Scriptlet.enclosed]
  split
  · exact h
  · exact h.parenthesized

end AllTokens

section

variable {numerals : Numerals}

mutual

/-- **The pieces of well formed expressions are tokens.** -/
theorem allTokens_expr (e : Expr) (h : e.WellFormed) : AllTokens (e.pieces numerals) := by
  cases e with
  | number x => exact .single (isToken_ofDigits numerals x)
  | name n => exact .single (IsWord.isToken h)
  | binary op left right =>
      exact (allTokens_expr left h.1).enclosed.append <| .cons (isToken_ofOperator op)
        (allTokens_expr right h.2).enclosed
  | assign target value =>
      exact (allTokens_expr target h.1).enclosed.append <| .cons (isToken_ofMark (by decide))
        (allTokens_expr value h.2)
  | call callee arguments =>
      exact (allTokens_expr callee h.1).enclosed.append
        (AllTokens.commaSeparated (allTokens_exprs arguments h.2)).parenthesized
  | dot object property =>
      exact (allTokens_expr object h.1).enclosed.append <| .cons (isToken_ofMark (by decide))
        (allTokens_expr property h.2.2).enclosed
  | index object property =>
      exact (allTokens_expr object h.1).enclosed.append <| .cons (isToken_ofMark (by decide)) <|
        (allTokens_expr property h.2).append <| .single (isToken_ofMark (by decide))
  | object entries =>
      exact .cons (isToken_ofMark (by decide)) <|
        (AllTokens.commaSeparated (allTokens_entries entries h)).append <|
          .single (isToken_ofMark (by decide))
  | function f parameters body =>
      obtain ⟨hf, hparameters, hbody⟩ := h
      have hrows : ∀ row ∈ parameters.map fun p => [Lexeme.ofWord p], AllTokens row := by
        intro row hrow
        obtain ⟨p, hp, rfl⟩ := List.mem_map.1 hrow
        exact .single (hparameters p hp).isToken
      exact .cons (isToken_keyword (by simp)) <| .cons hf.isToken <|
        (AllTokens.commaSeparated hrows).parenthesized.append <|
          .cons (isToken_ofMark (by decide)) <| (allTokens_stmts body hbody).append <|
            .single (isToken_ofMark (by decide))

theorem allTokens_exprs (es : List Expr) (h : WellFormedExprs es) :
    ∀ row ∈ exprRows numerals es, AllTokens row := by
  cases es with
  | nil => simp [exprRows]
  | cons e es =>
      exact List.forall_mem_cons.2 ⟨allTokens_expr e h.1, allTokens_exprs es h.2⟩

theorem allTokens_entries (es : List Entry) (h : WellFormedEntries es) :
    ∀ row ∈ entryRows numerals es, AllTokens row := by
  cases es with
  | nil => simp [entryRows]
  | cons e es =>
      exact List.forall_mem_cons.2 ⟨allTokens_entry e h.1, allTokens_entries es h.2⟩

theorem allTokens_entry (e : Entry) (h : e.WellFormed) : AllTokens (e.pieces numerals) := by
  cases e with
  | shorthand key => exact .single (IsWord.isToken h)
  | pair key value =>
      exact .cons h.1.isToken <| .cons (isToken_ofMark (by decide)) (allTokens_expr value h.2)

theorem allTokens_stmts (ss : List Stmt) (h : WellFormedStmts ss) :
    AllTokens (stmtsPieces numerals ss) := by
  cases ss with
  | nil => exact .nil
  | cons s ss => exact (allTokens_stmt s h.1).append (allTokens_stmts ss h.2)

theorem allTokens_stmt (s : Stmt) (h : s.WellFormed) : AllTokens (s.pieces numerals) := by
  cases s with
  | declare constant n value =>
      have hkeyword : (Lexeme.ofWord (if constant then "const" else "let")).IsToken :=
        isToken_keyword (by cases constant <;> simp)
      cases value with
      | none =>
          exact .cons hkeyword <| .cons (h.2.isToken) <| .single (isToken_ofMark (by decide))
      | some value =>
          exact .cons hkeyword <| .cons h.1.isToken <| .cons (isToken_ofMark (by decide)) <|
            (allTokens_expr value h.2).append <| .single (isToken_ofMark (by decide))
  | expr e => exact (allTokens_expr e h).append (.single (isToken_ofMark (by decide)))

end

end

/-! ### Printing and parsing -/

/-- There is a way of writing numbers. -/
theorem nonempty_numerals : Nonempty Numerals := by
  classical
  have hempty : Number.read "" = none := by
    simp [Number.read, Number.readMagnitude, Decimal.read]
  have hexists : ∀ x, ∃ text : String, text ≠ "" ∧
      (∀ c ∈ text.toList, Decimal.isDigit c = true) ∧
        (IsNumeral x → Number.read text = some x) := by
    intro x
    -- a number that no digits read as is never printed, but it has to have digits too
    by_cases hx : IsNumeral x
    · obtain ⟨text, hdigits, hread⟩ := hx
      refine ⟨text, ?_, hdigits, fun _ => hread⟩
      rintro rfl
      rw [hempty] at hread
      cases hread
    · exact ⟨"0", by decide, List.all_eq_true.1 (by decide), fun h => absurd h hx⟩
  choose text hne hdigit hread using hexists
  exact ⟨⟨text, hne, hdigit, hread⟩⟩

/-- What is printed is parsed to what was printed. -/
theorem Program.readTokens_print {program : Program} (h : program.WellFormed)
    (numerals : Numerals) :
    Program.readTokens (scan (program.print numerals)).tokens = .ok program := by
  have htokens : AllTokens (stmtsPieces numerals program.body) := allTokens_stmts program.body h
  have hpieces : lexemes (program.print numerals).toList
      = spaced (stmtsPieces numerals program.body) := by
    rw [Program.print, String.toList_ofList]
    exact lexemes_spaced fun p hp => (htokens p hp).formed
  obtain ⟨last, hlast, tokens, hscan, hspelled⟩ :=
    exists_spelled (fun p hp => (htokens p hp).kind?_eq) 0
  refine Program.readTokens_of_derivable ⟨last, hlast, ?_⟩
  rw [scan, hpieces, hscan]
  exact Grammar.derives_stmts program.body h tokens [last] hspelled

theorem Program.ofSource_eq_ok {source : String} {program : Program} :
    Program.ofSource source = .ok program ↔
      Program.readTokens (scan source).tokens = .ok program := by
  rw [Program.ofSource, Program.ofTokens]
  cases Program.readTokens (scan source).tokens <;> simp [Except.mapError]

/-- **Printing and parsing are inverse.**  What a source is parsed to is well formed, what is
printed of a well formed program is parsed to it again, however numbers are written, and so the
programs that sources are parsed to are exactly the well formed ones. -/
theorem Program.ofSource_print :
    (∀ source program, Program.ofSource source = .ok program → program.WellFormed) ∧
    (∀ (numerals : Numerals) (program : Program), program.WellFormed →
      Program.ofSource (program.print numerals) = .ok program) ∧
    Nonempty Numerals ∧
    ∀ program : Program, program.WellFormed ↔ ∃ source, Program.ofSource source = .ok program := by
  have hparsed : ∀ source program, Program.ofSource source = .ok program → program.WellFormed :=
    fun source program h => Program.wellFormed_of_readTokens (Program.ofSource_eq_ok.1 h)
  have hprinted : ∀ (numerals : Numerals) (program : Program), program.WellFormed →
      Program.ofSource (program.print numerals) = .ok program :=
    fun numerals program h => Program.ofSource_eq_ok.2 (Program.readTokens_print h numerals)
  refine ⟨hparsed, hprinted, nonempty_numerals, fun program => ⟨fun h => ?_, fun h => ?_⟩⟩
  · obtain ⟨numerals⟩ := nonempty_numerals
    exact ⟨program.print numerals, hprinted numerals program h⟩
  · obtain ⟨source, hsource⟩ := h
    exact hparsed source program hsource

end Scriptlet
