/-
**The grammar as derivations.**

The grammar of scripts, written down without regard to how it is parsed.  A derivation says that
some tokens, up to some others that are left, stand for a tree.  Sums, products, calls and accesses
are grouped from the left and assignments from the right, a semicolon behind an expression may be
missing, and there is one condition on what stands behind: a call is not followed by an opening
parenthesis, so arguments always belong to the expression in front of them.

Main definitions:

* `Scriptlet.Grammar.Symbol`, `Scriptlet.Grammar.Symbol.Tree` — the symbols of the grammar and the
  trees that they stand for;
* `Scriptlet.Grammar.Derives` — **the derivations**;
* `Scriptlet.Program.Derivable` — the tokens of a program.

Main results:

* `Scriptlet.Grammar.Derives.first` — which tokens a derivation can begin with.
-/

import Scriptlet.Syntax.Grammar

set_option relaxedAutoImplicit false
set_option autoImplicit false

namespace Scriptlet

/-! ### First tokens -/

/-- The kind of the first token, if there is one. -/
def headKind (tokens : List Token) : Option Token.Kind := tokens.head?.map Token.kind

@[simp] theorem headKind_nil : headKind [] = none := rfl

@[simp] theorem headKind_cons (tok : Token) (tokens : List Token) :
    headKind (tok :: tokens) = some tok.kind := rfl

/-- None of some kinds of tokens comes first. -/
def Clear (kinds : List Token.Kind) (tokens : List Token) : Prop :=
  ∀ kind ∈ kinds, headKind tokens ≠ some kind

theorem Clear.mono {kinds kinds' : List Token.Kind} {tokens : List Token} (h : Clear kinds tokens)
    (hsub : kinds' ⊆ kinds) : Clear kinds' tokens := fun kind hkind => h kind (hsub hkind)

/-- A first token of another kind. -/
theorem clear_of_headKind {kinds : List Token.Kind} {tokens : List Token} {kind : Token.Kind}
    (h : headKind tokens = some kind) (hkind : kind ∉ kinds) : Clear kinds tokens := by
  rintro kind' hkind' h'
  rw [h, Option.some_inj] at h'
  exact hkind (h' ▸ hkind')

theorem clear_cons {kinds : List Token.Kind} {tok : Token} {tokens : List Token}
    {kind : Token.Kind} (h : tok.kind = kind) (hkind : kind ∉ kinds) :
    Clear kinds (tok :: tokens) := clear_of_headKind (congrArg some h) hkind

namespace Grammar

/-! ### Symbols -/

/-- The symbols of the grammar.  A `call` is a chain of `calls` with nothing left that it could be
applied to, and a `target` is what an assignment can assign to as far as the grammar goes. -/
inductive Symbol where
  | statements
  | statement
  | expression
  | target
  | entries
  | entry
  | sum
  | product
  | call
  | calls
  | arguments
  | expressions
  | member
  | primary
deriving DecidableEq

/-- The trees that a symbol stands for. -/
abbrev Symbol.Tree : Symbol → Type
  | .statements => List Stmt
  | .statement => Stmt
  | .entries => List Entry
  | .entry => Entry
  | .arguments | .expressions => List Expr
  | .expression | .target | .sum | .product | .call | .calls | .member | .primary => Expr

/-! ### Derivations -/

/-- **Derivations**: `Derives s tokens rest tree` says that the tokens in front of `rest` are an
`s`, and that `tree` is its tree. -/
inductive Derives : (s : Symbol) → List Token → List Token → s.Tree → Prop
  /-- No statement. -/
  | noStatement (tokens : List Token) : Derives .statements tokens tokens []
  /-- A statement in front of others. -/
  | moreStatements {tokens mid rest : List Token} {s : Stmt} {ss : List Stmt} :
      Derives .statement tokens mid s → Derives .statements mid rest ss →
        Derives .statements tokens rest (s :: ss)
  /-- `let n;` -/
  | letBare {l n semi : Token} {rest : List Token} : l.kind = .letWord → n.kind = .identifier →
      semi.kind = .semicolon →
        Derives .statement (l :: n :: semi :: rest) rest (.declare false n.text none)
  /-- `let n = e;` -/
  | letValue {l n eq semi : Token} {tokens rest : List Token} {e : Expr} : l.kind = .letWord →
      n.kind = .identifier → eq.kind = .equals → Derives .expression tokens (semi :: rest) e →
        semi.kind = .semicolon →
          Derives .statement (l :: n :: eq :: tokens) rest (.declare false n.text (some e))
  /-- `const n = e;` -/
  | constValue {c n eq semi : Token} {tokens rest : List Token} {e : Expr} : c.kind = .constWord →
      n.kind = .identifier → eq.kind = .equals → Derives .expression tokens (semi :: rest) e →
        semi.kind = .semicolon →
          Derives .statement (c :: n :: eq :: tokens) rest (.declare true n.text (some e))
  /-- `e` -/
  | bareExpr {tokens rest : List Token} {e : Expr} : Derives .expression tokens rest e →
      Derives .statement tokens rest (.expr e)
  /-- `e;` -/
  | endedExpr {semi : Token} {tokens rest : List Token} {e : Expr} :
      Derives .expression tokens (semi :: rest) e → semi.kind = .semicolon →
        Derives .statement tokens rest (.expr e)
  /-- An expression without an assignment. -/
  | unassigned {tokens rest : List Token} {e : Expr} : Derives .target tokens rest e →
      Derives .expression tokens rest e
  /-- `t = v` -/
  | assign {eq : Token} {tokens mid rest : List Token} {t v : Expr} :
      Derives .target tokens (eq :: mid) t → eq.kind = .equals → Derives .expression mid rest v →
        Derives .expression tokens rest (.assign t v)
  /-- `{}` -/
  | emptyObject {o c : Token} {rest : List Token} : o.kind = .openBrace → c.kind = .closeBrace →
      Derives .target (o :: c :: rest) rest (.object [])
  /-- `{es}` -/
  | object {o c : Token} {tokens rest : List Token} {es : List Entry} : o.kind = .openBrace →
      Derives .entries tokens (c :: rest) es → c.kind = .closeBrace →
        Derives .target (o :: tokens) rest (.object es)
  /-- `{es,}` -/
  | objectTrailing {o comma c : Token} {tokens rest : List Token} {es : List Entry} :
      o.kind = .openBrace → Derives .entries tokens (comma :: c :: rest) es →
        comma.kind = .comma → c.kind = .closeBrace →
          Derives .target (o :: tokens) rest (.object es)
  /-- A target that is no object. -/
  | sumTarget {tokens rest : List Token} {e : Expr} : Derives .sum tokens rest e →
      Derives .target tokens rest e
  /-- The last entry. -/
  | lastEntry {tokens rest : List Token} {e : Entry} : Derives .entry tokens rest e →
      Derives .entries tokens rest [e]
  /-- `e, es` -/
  | moreEntries {comma : Token} {tokens mid rest : List Token} {e : Entry} {es : List Entry} :
      Derives .entry tokens (comma :: mid) e → comma.kind = .comma →
        Derives .entries mid rest es → Derives .entries tokens rest (e :: es)
  /-- `k` -/
  | shorthand {k : Token} {rest : List Token} : k.kind = .identifier →
      Derives .entry (k :: rest) rest (.shorthand k.text)
  /-- `k: v` -/
  | pair {k colon : Token} {tokens rest : List Token} {v : Expr} : k.kind = .identifier →
      colon.kind = .colon → Derives .expression tokens rest v →
        Derives .entry (k :: colon :: tokens) rest (.pair k.text v)
  /-- A sum of one product. -/
  | oneProduct {tokens rest : List Token} {e : Expr} : Derives .product tokens rest e →
      Derives .sum tokens rest e
  /-- `a + b`, `a - b` -/
  | add {tok : Token} {op : Operator} {tokens mid rest : List Token} {a b : Expr} :
      Derives .sum tokens (tok :: mid) a → tok.operator? = some op → op ∈ [.add, .subtract] →
        Derives .product mid rest b → Derives .sum tokens rest (.binary op a b)
  /-- A product of one call. -/
  | oneCall {tokens rest : List Token} {e : Expr} : Derives .call tokens rest e →
      Derives .product tokens rest e
  /-- `a * b`, `a / b`, `a % b` -/
  | multiply {tok : Token} {op : Operator} {tokens mid rest : List Token} {a b : Expr} :
      Derives .product tokens (tok :: mid) a → tok.operator? = some op →
        op ∈ [.multiply, .divide, .modulo] → Derives .call mid rest b →
          Derives .product tokens rest (.binary op a b)
  /-- Calls, all of them: no parenthesis is left behind. -/
  | allCalls {tokens rest : List Token} {e : Expr} : Derives .calls tokens rest e →
      headKind rest ≠ some .openParen → Derives .call tokens rest e
  /-- A member that is not called. -/
  | uncalled {tokens rest : List Token} {e : Expr} : Derives .member tokens rest e →
      Derives .calls tokens rest e
  /-- `f(es)` -/
  | applied {tokens mid rest : List Token} {f : Expr} {es : List Expr} :
      Derives .calls tokens mid f → Derives .arguments mid rest es →
        Derives .calls tokens rest (.call f es)
  /-- `()` -/
  | noArguments {o c : Token} {rest : List Token} : o.kind = .openParen → c.kind = .closeParen →
      Derives .arguments (o :: c :: rest) rest []
  /-- `(es)` -/
  | someArguments {o c : Token} {tokens rest : List Token} {es : List Expr} : o.kind = .openParen →
      Derives .expressions tokens (c :: rest) es → c.kind = .closeParen →
        Derives .arguments (o :: tokens) rest es
  /-- The last expression. -/
  | lastExpression {tokens rest : List Token} {e : Expr} : Derives .expression tokens rest e →
      Derives .expressions tokens rest [e]
  /-- `e, es` -/
  | moreExpressions {comma : Token} {tokens mid rest : List Token} {e : Expr} {es : List Expr} :
      Derives .expression tokens (comma :: mid) e → comma.kind = .comma →
        Derives .expressions mid rest es → Derives .expressions tokens rest (e :: es)
  /-- A member without an access. -/
  | onePrimary {tokens rest : List Token} {e : Expr} : Derives .primary tokens rest e →
      Derives .member tokens rest e
  /-- `o.p`, where `p` may stand in parentheses but is a name. -/
  | dot {d : Token} {tokens mid rest : List Token} {o : Expr} {p : String} :
      Derives .member tokens (d :: mid) o → d.kind = .dot → Derives .primary mid rest (.name p) →
        Derives .member tokens rest (.dot o (.name p))
  /-- `o[p]` -/
  | index {b c : Token} {tokens mid rest : List Token} {o p : Expr} :
      Derives .member tokens (b :: mid) o → b.kind = .openBracket →
        Derives .expression mid (c :: rest) p → c.kind = .closeBracket →
          Derives .member tokens rest (.index o p)
  /-- `n` -/
  | name {n : Token} {rest : List Token} : n.kind = .identifier →
      Derives .primary (n :: rest) rest (.name n.text)
  /-- A number. -/
  | number {n : Token} {rest : List Token} {x : Float} : n.kind = .number →
      Number.read n.text = some x → Derives .primary (n :: rest) rest (.number x)
  /-- `(e)` -/
  | parenthesized {o c : Token} {tokens rest : List Token} {e : Expr} : o.kind = .openParen →
      Derives .expression tokens (c :: rest) e → c.kind = .closeParen →
        Derives .primary (o :: tokens) rest e
  /-- `fn n(ps) { ss }`, where the parameters may stand in parentheses but are names. -/
  | function {f n o c : Token} {tokens mid rest : List Token} {ps : List String}
      {ss : List Stmt} : f.kind = .fnWord → n.kind = .identifier →
        Derives .arguments tokens (o :: mid) (ps.map .name) → o.kind = .openBrace →
          Derives .statements mid (c :: rest) ss → c.kind = .closeBrace →
            Derives .primary (f :: n :: tokens) rest (.function n.text ps ss)

/-! ### What a derivation begins with -/

/-- The kinds of tokens that a symbol can begin with; `statements` can also be empty, so nothing is
said about them. -/
def Symbol.firsts : Symbol → List Token.Kind
  | .statements => Token.Kind.all
  | .statement =>
      [.letWord, .constWord, .openBrace, .identifier, .number, .openParen, .fnWord]
  | .expression | .target | .expressions =>
      [.openBrace, .identifier, .number, .openParen, .fnWord]
  | .entries | .entry => [.identifier]
  | .arguments => [.openParen]
  | .sum | .product | .call | .calls | .member | .primary =>
      [.identifier, .number, .openParen, .fnWord]

/-- What a derivation can begin with. -/
theorem Derives.first {s : Symbol} {tokens rest : List Token} {tree : s.Tree}
    (h : Derives s tokens rest tree) :
    s = .statements ∨ ∃ kind ∈ s.firsts, headKind tokens = some kind := by
  induction h with
  | noStatement | moreStatements => exact Or.inl rfl
  | letBare hl | letValue hl | constValue hl | emptyObject hl | object hl | objectTrailing hl
  | shorthand hl | pair hl | noArguments hl | someArguments hl | name hl | number hl
  | parenthesized hl | function hl =>
      refine Or.inr ⟨_, ?_, congrArg some hl⟩
      simp [Symbol.firsts]
  | bareExpr _ ih | endedExpr _ _ ih | unassigned _ ih | assign _ _ _ ih | sumTarget _ ih
  | lastEntry _ ih | moreEntries _ _ _ ih | oneProduct _ ih | add _ _ _ _ ih | oneCall _ ih
  | multiply _ _ _ _ ih | allCalls _ _ ih | uncalled _ ih | applied _ _ ih | lastExpression _ ih
  | moreExpressions _ _ _ ih | onePrimary _ ih | dot _ _ _ ih | index _ _ _ _ ih =>
      obtain ⟨kind, hkind, hhead⟩ := ih.resolve_left (by simp)
      refine Or.inr ⟨kind, ?_, hhead⟩
      simp only [Symbol.firsts, List.mem_cons] at hkind ⊢
      grind

/-- A derivation does not begin with what the symbol cannot begin with. -/
theorem Derives.clear {s : Symbol} {tokens rest : List Token} {tree : s.Tree}
    {kinds : List Token.Kind} (h : Derives s tokens rest tree) (hs : s ≠ .statements)
    (hkinds : ∀ kind ∈ s.firsts, kind ∉ kinds) : Clear kinds tokens := by
  obtain ⟨kind, hkind, hhead⟩ := h.first.resolve_left hs
  exact clear_of_headKind hhead (hkinds kind hkind)

end Grammar

/-- **The tokens of a program**: statements, the end of the input, and nothing behind it. -/
def Program.Derivable (tokens : List Token) (program : Program) : Prop :=
  ∃ last : Token, last.kind = .endOfInput ∧
    Grammar.Derives .statements tokens [last] program.body

end Scriptlet
