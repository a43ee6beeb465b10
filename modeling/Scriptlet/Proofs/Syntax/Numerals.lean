/-
**Every number token is a number.**

The parser is prepared for a number token whose text is not that of a number.  There is none: a
number token is a row of digits, with at least one digit, and every such row is read.  So what is
reported of a source never complains of a numeral, on none of the ways that are tried.

Main definitions:

* `Scriptlet.Token.Readable` — a token that is read if it is a number.

Main results:

* `Scriptlet.readable_of_mem_scan` — the tokens of a source are readable;
* `Scriptlet.Report.Founded.complaint_ne_numeral` — nothing in a source is a reason to complain of a
  numeral;
* `Scriptlet.Program.message_ne_of_ofSource` — no source is refused because of a numeral.
-/

import Scriptlet.Proofs.Number.Whole
import Scriptlet.Proofs.Syntax.Coverage
import Scriptlet.Proofs.Syntax.Founded

set_option relaxedAutoImplicit false
set_option autoImplicit false

namespace Scriptlet

/-! ### Tokens that are read -/

/-- A token that is read as a number if it is one. -/
def Token.Readable (tok : Token) : Prop := tok.kind = .number → (Number.read tok.text).isSome

/-- **The tokens of a source are readable**: a number is a row of digits, and not empty. -/
theorem readable_of_mem_scan {source : String} : ∀ tok ∈ (scan source).tokens, tok.Readable := by
  rintro ⟨kind, text, span⟩ htok hkind
  obtain rfl : kind = .number := hkind
  have hrun := number_mem_tokens_iff.1 htok
  have hne : text.toList ≠ [] := fun h => hrun.ne_empty (String.toList_eq_nil_iff.1 h)
  have hread := Number.read_digits hne hrun.all
  rw [String.ofList_toList] at hread
  change (Number.read text).isSome
  rw [hread]
  rfl

/-- **Nothing in a source is a reason to complain of a numeral.** -/
theorem Report.Founded.complaint_ne_numeral {source : String} {report : Report}
    (h : report.Founded (scan source).tokens) (text : String) :
    report.complaint ≠ .numeral text := by
  intro hcomplaint
  cases h with
  | numeral left expected htok hkind hread =>
      have hreadable := readable_of_mem_scan _ htok hkind
      rw [hread] at hreadable
      cases hreadable
  | _ => cases hcomplaint

/-! ### Messages -/

/-- A text starts as its front does. -/
theorem head?_toList_append {front back : String} {c : Char} (h : front.toList.head? = some c) :
    (front ++ back).toList.head? = some c := by
  rw [String.toList_append, List.head?_append, h]
  rfl

/-- The message about a numeral is like no other one: it starts with another letter. -/
theorem Complaint.message_ne {complaint : Complaint} (h : ∀ text, complaint ≠ .numeral text)
    (text : String) : complaint.message ≠ (Complaint.numeral text).message := by
  have hnumeral : (Complaint.numeral text).message.toList.head? = some 'i' :=
    head?_toList_append (head?_toList_append (by decide +kernel))
  intro hmessage
  rw [← hmessage] at hnumeral
  cases complaint with
  | numeral text' => exact h text' rfl
  | unexpected => exact absurd hnumeral (by decide +kernel)
  | parameter found =>
      have hhead : (Complaint.parameter found).message.toList.head? = some 'f' :=
        head?_toList_append (by decide +kernel)
      rw [hhead] at hnumeral
      exact absurd hnumeral (by decide)
  | property found =>
      have hhead : (Complaint.property found).message.toList.head? = some 'c' :=
        head?_toList_append (by decide +kernel)
      rw [hhead] at hnumeral
      exact absurd hnumeral (by decide)

/-- **No source is refused because of a numeral.** -/
theorem Program.message_ne_of_ofSource {source : String} {error : SyntaxError}
    (h : Program.ofSource source = .error error) (text : String) :
    error.message ≠ (Complaint.numeral text).message := by
  obtain ⟨report, -, rfl, hfounded⟩ := Program.founded_of_error h
  exact Complaint.message_ne hfounded.complaint_ne_numeral text

end Scriptlet
