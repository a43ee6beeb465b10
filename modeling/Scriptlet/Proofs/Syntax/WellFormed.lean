/-
**Well formed programs.**

Not every syntax tree is that of a source.  Names have to be words, numbers have to be written with
digits, the property after a point has to be a name and a constant has to have a value.  What a
source is parsed to satisfies all that, since a derivation puts together names and numbers from its
tokens.

Main definitions:

* `Scriptlet.IsNumeral` — the numbers that can be written with digits;
* `Scriptlet.Expr.WellFormed`, `Scriptlet.Stmt.WellFormed`, `Scriptlet.Program.WellFormed` — **well
  formed trees**.

Main results:

* `Scriptlet.Grammar.Derives.wellFormed` — what is derived from lexical tokens is well formed;
* `Scriptlet.Program.wellFormed_of_readTokens` — what a source is parsed to is well formed.
-/

import Scriptlet.Proofs.Syntax.Pieces
import Scriptlet.Proofs.Syntax.Soundness

set_option relaxedAutoImplicit false
set_option autoImplicit false

namespace Scriptlet

/-! ### Well formed trees -/

/-- The numbers that can be written with digits. -/
def IsNumeral (x : Float) : Prop :=
  ∃ text : String, (∀ c ∈ text.toList, Decimal.isDigit c = true) ∧ Number.read text = some x

mutual

/-- **Well formed expressions.** -/
def Expr.WellFormed : Expr → Prop
  | .number x => IsNumeral x
  | .name n => IsWord n
  | .binary _ left right => left.WellFormed ∧ right.WellFormed
  | .assign target value => target.WellFormed ∧ value.WellFormed
  | .call callee arguments => callee.WellFormed ∧ WellFormedExprs arguments
  | .dot object property => object.WellFormed ∧ property.name?.isSome ∧ property.WellFormed
  | .index object property => object.WellFormed ∧ property.WellFormed
  | .object entries => WellFormedEntries entries
  | .function f parameters body =>
      IsWord f ∧ (∀ p ∈ parameters, IsWord p) ∧ WellFormedStmts body

/-- Lists of well formed expressions. -/
def WellFormedExprs : List Expr → Prop
  | [] => True
  | e :: es => e.WellFormed ∧ WellFormedExprs es

/-- Lists of well formed entries. -/
def WellFormedEntries : List Entry → Prop
  | [] => True
  | e :: es => e.WellFormed ∧ WellFormedEntries es

/-- Well formed entries of objects. -/
def Entry.WellFormed : Entry → Prop
  | .shorthand key => IsWord key
  | .pair key value => IsWord key ∧ value.WellFormed

/-- Lists of well formed statements. -/
def WellFormedStmts : List Stmt → Prop
  | [] => True
  | s :: ss => s.WellFormed ∧ WellFormedStmts ss

/-- **Well formed statements**: a constant has a value. -/
def Stmt.WellFormed : Stmt → Prop
  | .declare constant n none => constant = false ∧ IsWord n
  | .declare _ n (some value) => IsWord n ∧ value.WellFormed
  | .expr e => e.WellFormed

end

/-- **Well formed programs.** -/
def Program.WellFormed (program : Program) : Prop := WellFormedStmts program.body

theorem wellFormedExprs_map_name {ps : List String} :
    WellFormedExprs (ps.map .name) ↔ ∀ p ∈ ps, IsWord p := by
  induction ps with
  | nil => simp [WellFormedExprs]
  | cons p ps ih => simp [WellFormedExprs, Expr.WellFormed, ih]

/-! ### What is derived is well formed -/

namespace Grammar

/-- Well formed trees of a symbol. -/
def WellFormed : (s : Symbol) → s.Tree → Prop
  | .statements, ss => WellFormedStmts ss
  | .statement, s => s.WellFormed
  | .entries, es => WellFormedEntries es
  | .entry, e => e.WellFormed
  | .arguments, es | .expressions, es => WellFormedExprs es
  | .expression, e | .target, e | .sum, e | .product, e | .call, e | .calls, e | .member, e
  | .primary, e => e.WellFormed

/-- **What is derived from lexical tokens is well formed**, and the tokens that are left are
lexical too. -/
theorem Derives.wellFormed {s : Symbol} {tokens rest : List Token} {tree : s.Tree}
    (h : Derives s tokens rest tree) (htokens : ∀ tok ∈ tokens, tok.Lexical) :
    WellFormed s tree ∧ ∀ tok ∈ rest, tok.Lexical := by
  induction h with
  | noStatement tokens => exact ⟨trivial, htokens⟩
  | moreStatements _ _ ih₁ ih₂ =>
      obtain ⟨hs, hmid⟩ := ih₁ htokens
      obtain ⟨hss, hrest⟩ := ih₂ hmid
      exact ⟨⟨hs, hss⟩, hrest⟩
  | letBare _ hn _ =>
      simp only [List.forall_mem_cons] at htokens
      exact ⟨⟨rfl, htokens.2.1.isWord hn⟩, htokens.2.2.2⟩
  | letValue _ hn _ _ _ ih | constValue _ hn _ _ _ ih =>
      simp only [List.forall_mem_cons] at htokens
      obtain ⟨he, hrest⟩ := ih htokens.2.2.2
      exact ⟨⟨htokens.2.1.isWord hn, he⟩, fun tok htok => hrest tok (List.mem_cons_of_mem _ htok)⟩
  | bareExpr _ ih | unassigned _ ih | sumTarget _ ih | oneProduct _ ih | oneCall _ ih
  | allCalls _ _ ih | uncalled _ ih | onePrimary _ ih => exact ih htokens
  | endedExpr _ _ ih =>
      obtain ⟨he, hrest⟩ := ih htokens
      exact ⟨he, fun tok htok => hrest tok (List.mem_cons_of_mem _ htok)⟩
  | assign _ _ _ ih₁ ih₂ | add _ _ _ _ ih₁ ih₂ | multiply _ _ _ _ ih₁ ih₂ =>
      obtain ⟨ha, hmid⟩ := ih₁ htokens
      obtain ⟨hb, hrest⟩ := ih₂ fun tok htok => hmid tok (List.mem_cons_of_mem _ htok)
      exact ⟨⟨ha, hb⟩, hrest⟩
  | emptyObject _ _ | noArguments _ _ =>
      simp only [List.forall_mem_cons] at htokens
      exact ⟨trivial, htokens.2.2⟩
  | object _ _ _ ih | someArguments _ _ _ ih | parenthesized _ _ _ ih =>
      obtain ⟨hes, hrest⟩ := ih fun tok htok => htokens tok (List.mem_cons_of_mem _ htok)
      exact ⟨hes, fun tok htok => hrest tok (List.mem_cons_of_mem _ htok)⟩
  | objectTrailing _ _ _ _ ih =>
      obtain ⟨hes, hrest⟩ := ih fun tok htok => htokens tok (List.mem_cons_of_mem _ htok)
      simp only [List.forall_mem_cons] at hrest
      exact ⟨hes, hrest.2.2⟩
  | lastEntry _ ih | lastExpression _ ih =>
      obtain ⟨he, hrest⟩ := ih htokens
      exact ⟨⟨he, trivial⟩, hrest⟩
  | moreEntries _ _ _ ih₁ ih₂ | moreExpressions _ _ _ ih₁ ih₂ =>
      obtain ⟨he, hmid⟩ := ih₁ htokens
      obtain ⟨hes, hrest⟩ := ih₂ fun tok htok => hmid tok (List.mem_cons_of_mem _ htok)
      exact ⟨⟨he, hes⟩, hrest⟩
  | shorthand hk | name hk =>
      simp only [List.forall_mem_cons] at htokens
      exact ⟨htokens.1.isWord hk, htokens.2⟩
  | pair hk _ _ ih =>
      simp only [List.forall_mem_cons] at htokens
      obtain ⟨hv, hrest⟩ := ih htokens.2.2
      exact ⟨⟨htokens.1.isWord hk, hv⟩, hrest⟩
  | applied _ _ ih₁ ih₂ =>
      obtain ⟨hf, hmid⟩ := ih₁ htokens
      obtain ⟨hes, hrest⟩ := ih₂ hmid
      exact ⟨⟨hf, hes⟩, hrest⟩
  | dot _ _ _ ih₁ ih₂ =>
      obtain ⟨ho, hmid⟩ := ih₁ htokens
      obtain ⟨hp, hrest⟩ := ih₂ fun tok htok => hmid tok (List.mem_cons_of_mem _ htok)
      exact ⟨⟨ho, rfl, hp⟩, hrest⟩
  | index _ _ _ _ ih₁ ih₂ =>
      obtain ⟨ho, hmid⟩ := ih₁ htokens
      obtain ⟨hp, hrest⟩ := ih₂ fun tok htok => hmid tok (List.mem_cons_of_mem _ htok)
      exact ⟨⟨ho, hp⟩, fun tok htok => hrest tok (List.mem_cons_of_mem _ htok)⟩
  | @number n rest x hn hx =>
      simp only [List.forall_mem_cons] at htokens
      exact ⟨⟨n.text, htokens.1.isDigit hn, hx⟩, htokens.2⟩
  | function _ hn _ _ _ _ ih₁ ih₂ =>
      simp only [List.forall_mem_cons] at htokens
      obtain ⟨hps, hmid⟩ := ih₁ htokens.2.2
      obtain ⟨hss, hrest⟩ := ih₂ fun tok htok => hmid tok (List.mem_cons_of_mem _ htok)
      exact ⟨⟨htokens.2.1.isWord hn, wellFormedExprs_map_name.1 hps, hss⟩,
        fun tok htok => hrest tok (List.mem_cons_of_mem _ htok)⟩

end Grammar

/-- **What a source is parsed to is well formed.** -/
theorem Program.wellFormed_of_readTokens {source : String} {program : Program}
    (h : Program.readTokens (scan source).tokens = .ok program) : program.WellFormed := by
  obtain ⟨last, -, hbody⟩ := Program.derivable_of_readTokens h
  exact (hbody.wellFormed lexical_of_mem_scan).1

end Scriptlet
