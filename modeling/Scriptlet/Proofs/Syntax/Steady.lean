/-
**What a parse depends on.**

As long as a run of a parser reports nothing behind some token, it has hardly looked at that token
and not at all at what follows.  If other tokens stand there instead, the parser does the same, and
only where it lists an expectation at that token can another token make a difference: one that is
wanted there.

What a run forgets does not matter.  A choice forgets a failure when its other way succeeds, but the
two ways start with different tokens.  A check forgets what was expected when it fails, but then the
tokens are refused, and nothing in front of the token is.

Main definitions:

* `Scriptlet.Parser.Agree` — two runs do the same, on inputs that differ behind some point;
* `Scriptlet.Parser.Stays` — a run stays in front of a point;
* `Scriptlet.Parser.Steady` — **a run that stays in front of a token does the same for any other
  token there that it does not want**.
-/

import Scriptlet.Proofs.Syntax.Guarded

set_option relaxedAutoImplicit false
set_option autoImplicit false

namespace Scriptlet

/-! ### Reports that say the same -/

namespace Report

/-- Two reports say the same, equally far in front of the last `d` and `d'` tokens. -/
def Same (d d' : Nat) (a b : Report) : Prop :=
  ∃ k, a.left = k + d ∧ b.left = k + d' ∧ a.complaint = b.complaint ∧ a.expected = b.expected

theorem Same.furthest {d d' : Nat} {a b r s : Report} (h : Same d d' a b) (h' : Same d d' r s) :
    Same d d' (a.furthest r) (b.furthest s) := by
  obtain ⟨k, ha, hb, hcomplaint, hexpected⟩ := h
  obtain ⟨k', hr, hs, hcomplaint', hexpected'⟩ := h'
  rw [Report.furthest, Report.furthest, ha, hb, hr, hs]
  by_cases h₁ : k < k'
  · rw [if_pos (by omega), if_pos (by omega)]
    exact ⟨k, ha, hb, hcomplaint, hexpected⟩
  by_cases h₂ : k' < k
  · rw [if_neg (by omega), if_pos (by omega), if_neg (by omega), if_pos (by omega)]
    exact ⟨k', hr, hs, hcomplaint', hexpected'⟩
  · rw [if_neg (by omega), if_neg (by omega), if_neg (by omega), if_neg (by omega)]
    exact ⟨k, rfl, rfl, hcomplaint, by simp only [hexpected, hexpected']⟩

theorem Same.after {d d' : Nat} {a b : Report} {missed missed' : Option Report}
    (h : Same d d' a b) (hmissed : Option.Rel (Same d d') missed missed') :
    Same d d' (a.after missed) (b.after missed') := by
  cases hmissed with
  | none => exact h
  | some hmissed => exact h.furthest hmissed

theorem Same.merge {d d' : Nat} {a b r s : Option Report} (h : Option.Rel (Same d d') a b)
    (h' : Option.Rel (Same d d') r s) :
    Option.Rel (Same d d') (Report.merge a r) (Report.merge b s) := by
  cases h with
  | none => exact h'
  | some h =>
      cases h' with
      | none => exact .some h
      | some h' => exact .some (h'.furthest h)

end Report

namespace Parser

variable {α β : Type}

/-! ### Runs that do the same -/

/-- Two runs do the same in front of `xs` and of `ys`. -/
def Agree (xs ys : List Token) (run run' : Except Report (Parsed α)) : Prop :=
  (∃ a b, run = .error a ∧ run' = .error b ∧ Report.Same xs.length ys.length a b) ∨
    ∃ value front missed missed', run = .ok ⟨value, .ofList (front ++ xs), missed⟩ ∧
      run' = .ok ⟨value, .ofList (front ++ ys), missed'⟩ ∧
        Option.Rel (Report.Same xs.length ys.length) missed missed'

/-- The run stays in front of `xs`: it reads nothing of them and reports nothing behind their first
token. -/
def Stays (xs : List Token) (run : Except Report (Parsed α)) : Prop :=
  ¬ Report.Passes (reported run) xs.length ∧
    ∀ value rest missed, run = .ok ⟨value, .ofList rest, missed⟩ → xs.length ≤ rest.length

/-- Nothing in front of `xs` is complained about. -/
def Unrefused (eoi : Nat) (front xs : List Token) : Prop :=
  ∀ refused, Grammar.Refused eoi refused → refused <:+ front ++ xs → refused.length ≤ xs.length

/-- **A run that stays in front of a token** does the same if another token and other tokens stand
there, unless that token is wanted. -/
def Steady (n : Nat) (p : Parser α) : Prop :=
  ∀ eoi eoi' front x xs y ys, (front ++ x :: xs).length < n → Unrefused eoi front (x :: xs) →
    Stays (x :: xs) (p eoi (.ofList (front ++ x :: xs))) →
      Agree (x :: xs) (y :: ys) (p eoi (.ofList (front ++ x :: xs)))
          (p eoi' (.ofList (front ++ y :: ys))) ∨
        ∃ e, Report.Lists (reported (p eoi (.ofList (front ++ x :: xs)))) (xs.length + 1) e ∧
          e.Wants y

theorem Unrefused.of_suffix {eoi : Nat} {front front' xs : List Token}
    (h : Unrefused eoi front xs) (hsuffix : front' ++ xs <:+ front ++ xs) :
    Unrefused eoi front' xs := fun refused hrefused hr => h refused hrefused (hr.trans hsuffix)

namespace Agree

variable {xs ys : List Token}

theorem error {a b : Report} (h : Report.Same xs.length ys.length a b) :
    Agree xs ys (.error a : Except Report (Parsed α)) (.error b) := Or.inl ⟨a, b, rfl, rfl, h⟩

theorem ok (value : α) (front : List Token) {missed missed' : Option Report}
    (h : Option.Rel (Report.Same xs.length ys.length) missed missed') :
    Agree xs ys (.ok ⟨value, .ofList (front ++ xs), missed⟩)
      (.ok ⟨value, .ofList (front ++ ys), missed'⟩) :=
  Or.inr ⟨value, front, missed, missed', rfl, rfl, h⟩

/-- What does the same as a run that fails, fails. -/
theorem of_error {a : Report} {run : Except Report (Parsed α)} (h : Agree xs ys (.error a) run) :
    ∃ b, run = .error b ∧ Report.Same xs.length ys.length a b := by
  rcases h with ⟨_, b, h, hrun, hsame⟩ | ⟨_, _, _, _, h, -⟩ <;> cases h
  exact ⟨b, hrun, hsame⟩

/-- What does the same as a run that succeeds, succeeds. -/
theorem of_ok {value : α} {rest : List Token} {missed : Option Report}
    {run : Except Report (Parsed α)} (h : Agree xs ys (.ok ⟨value, .ofList rest, missed⟩) run) :
    ∃ front missed', rest = front ++ xs ∧ run = .ok ⟨value, .ofList (front ++ ys), missed'⟩ ∧
      Option.Rel (Report.Same xs.length ys.length) missed missed' := by
  rcases h with ⟨_, _, h, -⟩ | ⟨value', front, missed₁, missed', h, hrun, hmissed⟩
  · cases h
  · simp only [Except.ok.injEq, Parsed.mk.injEq] at h
    obtain ⟨rfl, hrest, rfl⟩ := h
    exact ⟨front, missed', congrArg Remaining.tokens hrest, hrun, hmissed⟩

end Agree

theorem Agree.keep {xs ys : List Token} {missed missed' : Option Report}
    {run run' : Except Report (Parsed α)}
    (hmissed : Option.Rel (Report.Same xs.length ys.length) missed missed')
    (h : Agree xs ys run run') : Agree xs ys (keep missed run) (keep missed' run') := by
  rcases h with ⟨a, b, rfl, rfl, h⟩ | ⟨value, front, more, more', rfl, rfl, h⟩
  · exact Or.inl ⟨_, _, rfl, rfl, h.after hmissed⟩
  · exact Or.inr ⟨value, front, _, _, rfl, rfl, Report.Same.merge hmissed h⟩

/-- A failure reads nothing of any tokens. -/
theorem Stays.error {xs : List Token} {report : Report}
    (h : ¬ Report.Passes (some report) xs.length) :
    Stays xs (.error report : Except Report (Parsed α)) := by
  refine ⟨h, fun value rest missed hrun => ?_⟩
  cases hrun

/-- A run that stays in front of some tokens is one on an end of the input with those tokens. -/
theorem Stays.le_of_within {xs rest : List Token} {run : Except Report (Parsed α)}
    (h : Stays xs run) (hwithin : Within rest run) : xs.length ≤ rest.length := by
  cases run with
  | error report =>
      have hleft := hwithin.left_le report rfl
      have hstays := h.1
      rw [reported_error, Report.passes_some] at hstays
      omega
  | ok result =>
      obtain ⟨value, more, missed⟩ := result
      rw [more.eq_ofList] at h hwithin
      exact Nat.le_trans (h.2 _ _ _ rfl) (hwithin.suffix _ _ _ rfl).length_le

/-- What a run leaves when it stays in front of some tokens. -/
theorem eq_append_of_suffix {front xs rest : List Token} (hsuffix : rest <:+ front ++ xs)
    (hle : xs.length ≤ rest.length) : ∃ front', rest = front' ++ xs := by
  obtain ⟨front', h⟩ := List.suffix_of_suffix_length_le (List.suffix_append front xs) hsuffix hle
  exact ⟨front', h.symm⟩

namespace Steady

variable {n m : Nat}

theorem mono {p : Parser α} (h : Steady n p) (hm : m ≤ n) : Steady m p :=
  fun eoi eoi' front x xs y ys hn => h eoi eoi' front x xs y ys (by omega)

theorem pure (value : α) : Steady n (pure value) := by
  intro eoi eoi' front x xs y ys _ _ _
  exact Or.inl (.ok value front .none)

theorem satisfy {use : Token → Option α} {expected : List Expectation}
    (hwants : ∀ tok value, use tok = some value → ∃ e ∈ expected, e.Wants tok) :
    Steady n (satisfy use expected) := by
  intro eoi eoi' front x xs y ys _ _ hstays
  cases front with
  | nil =>
      rw [List.nil_append] at hstays ⊢
      cases hx : use x with
      | some value =>
          have hle := hstays.2 _ _ _ (satisfy_of_some hx)
          exact absurd hle (by simp)
      | none =>
          rw [satisfy_of_none hx]
          cases hy : use y with
          | some value =>
              obtain ⟨e, he, hwant⟩ := hwants y value hy
              exact Or.inr ⟨e, by simp [he], hwant⟩
          | none =>
              refine Or.inl (satisfy_of_none hy ▸ .error ⟨0, ?_, ?_, rfl, rfl⟩) <;> simp
  | cons tok front =>
      refine Or.inl ?_
      rw [List.cons_append, List.cons_append]
      cases hu : use tok with
      | some value =>
          rw [satisfy_of_some hu, satisfy_of_some hu]
          exact .ok value front .none
      | none =>
          rw [satisfy_of_none hu, satisfy_of_none hu]
          refine .error ⟨front.length + 1, ?_, ?_, rfl, rfl⟩ <;> simp <;> omega

theorem token {kind : Token.Kind} (hkind : kind ≠ .operator) : Steady n (token kind) := by
  refine .satisfy fun tok value h => ⟨.kind kind, List.mem_singleton_self _, ?_⟩
  split at h
  · next htok => exact ⟨htok, hkind⟩
  · cases h

theorem operator (allowed : List Operator) : Steady n (operator allowed) := by
  refine .satisfy fun tok op h => ?_
  obtain ⟨hop, hmem⟩ := Option.filter_eq_some_iff.1 h
  exact ⟨.operator op, List.mem_map_of_mem (by simpa using hmem), hop⟩

theorem finish : Steady n finish := by
  intro eoi eoi' front x xs y ys _ _ _
  cases front with
  | nil => exact Or.inl (.error ⟨0, (Nat.zero_add _).symm, (Nat.zero_add _).symm, rfl, rfl⟩)
  | cons tok front =>
      have hsame : Report.Same (x :: xs).length (y :: ys).length
          (unexpected eoi (.ofList (tok :: front ++ x :: xs)) [])
          (unexpected eoi' (.ofList (tok :: front ++ y :: ys)) []) := by
        refine ⟨front.length + 1, ?_, ?_, rfl, rfl⟩ <;> rw [unexpected_left] <;> simp <;> omega
      exact Or.inl (.error hsame)

theorem bind {p : Parser α} {f : α → Parser β} (hp : Steady n p) (hwithin : WithinBelow n p)
    (hf : Behind n p fun m value => WithinBelow m (f value) ∧ Steady m (f value)) :
    Steady n (p >>= f) := by
  intro eoi eoi' front x xs y ys hn hclean hstays
  have hp := hp eoi eoi' front x xs y ys hn hclean
  rcases bind_cases p f eoi (front ++ x :: xs) with
    ⟨report, h₁, h₂⟩ | ⟨value, rest, missed, h₁, h₂⟩
  · rw [h₁] at hp
    rw [h₂] at hstays ⊢
    refine (hp (.error hstays.1)).imp_left fun hagree => ?_
    obtain ⟨b, hb, hsame⟩ := hagree.of_error
    exact bind_of_error hb ▸ .error hsame
  · obtain ⟨hwithin', hf⟩ := hf eoi _ value rest missed hn h₁
    have hrest := (hwithin eoi _ hn).suffix _ _ _ h₁
    have hmore := hwithin' eoi rest (Nat.lt_succ_self _)
    rw [h₁] at hp
    rw [h₂] at hstays ⊢
    obtain ⟨hpasses, hleaves⟩ := hstays
    have hpasses' := hpasses
    rw [reported_keep, Report.passes_merge, not_or] at hpasses'
    -- both steps stay in front of the point, so each of them does the same or wants the token
    have hstays' : Stays (x :: xs) (f value eoi (.ofList rest)) :=
      ⟨hpasses'.2, fun value' rest' missed' h => hleaves value' rest' _ (by rw [h]; rfl)⟩
    obtain ⟨front', rfl⟩ := eq_append_of_suffix hrest (hstays'.le_of_within hmore)
    rcases hp ⟨hpasses'.1, by rintro _ _ _ ⟨⟩; simp⟩ with hagree | ⟨e, he, hwants⟩
    · obtain ⟨front'', missed', hfront, hrun, hmissed⟩ := hagree.of_ok
      obtain rfl := List.append_cancel_right hfront
      rcases hf eoi eoi' front' x xs y ys (Nat.lt_succ_self _) (hclean.of_suffix hrest)
        hstays' with hagree | ⟨e, he, hwants⟩
      · rw [bind_of_ok hrun]
        exact Or.inl (hagree.keep hmissed)
      · refine Or.inr ⟨e, ?_, hwants⟩
        rw [reported_keep] at hpasses ⊢
        exact Report.lists_merge hpasses (Or.inr he)
    · refine Or.inr ⟨e, ?_, hwants⟩
      rw [reported_keep] at hpasses ⊢
      exact Report.lists_merge hpasses (Or.inl he)

/-- A choice, between parsers that start with different tokens: where one of them reads something,
the failure of the other one has seen the first token only. -/
theorem orElse {kinds kinds' : List Token.Kind} {p q : Parser α} (hp : Steady n p)
    (hq : Steady n q) (hadv : Advances q) (hps : Starts kinds p) (hqs : Starts kinds' q)
    (hdisjoint : ∀ kind ∈ kinds', kind ∉ kinds) : Steady n (orElse p q) := by
  intro eoi eoi' front x xs y ys hn hclean hstays
  have hp := hp eoi eoi' front x xs y ys hn hclean
  have hq := hq eoi eoi' front x xs y ys hn hclean
  rcases run_cases p eoi (front ++ x :: xs) with ⟨a, h₁⟩ | ⟨value, rest, missed, h₁⟩
  · rw [h₁] at hp
    rcases run_cases q eoi (front ++ x :: xs) with ⟨b, h₂⟩ | ⟨value, rest, missed, h₂⟩
    · rw [orElse_of_errors h₁ h₂] at hstays ⊢
      rw [h₂] at hq
      have hpasses := hstays.1
      rw [reported_error, show some (a.furthest b) = Report.merge (some b) (some a) from rfl]
        at hpasses
      have hpasses' := hpasses
      rw [Report.passes_merge, not_or] at hpasses'
      rcases hp (.error hpasses'.2) with hagree | ⟨e, he, hwants⟩
      · rcases hq (.error hpasses'.1) with hagree' | ⟨e, he, hwants⟩
        · obtain ⟨a', ha', hsame⟩ := hagree.of_error
          obtain ⟨b', hb', hsame'⟩ := hagree'.of_error
          exact Or.inl (orElse_of_errors ha' hb' ▸ .error (hsame.furthest hsame'))
        · exact Or.inr ⟨e, Report.lists_merge hpasses (Or.inl he), hwants⟩
      · exact Or.inr ⟨e, Report.lists_merge hpasses (Or.inr he), hwants⟩
    · rw [orElse_of_error h₁ h₂] at hstays ⊢
      rw [h₂] at hq
      obtain ⟨kind, hkind, hhead⟩ := hqs.exists_kind (Or.inl ⟨_, h₂⟩)
      have hlt : rest.length < (front ++ x :: xs).length := hadv _ _ _ h₂
      have hle := hstays.2 _ _ _ rfl
      -- the second parser read a token in front of the point, so the first one fails on it
      obtain ⟨tok, front, rfl⟩ : ∃ tok front', front = tok :: front' := by
        cases front with
        | nil => exact absurd hlt (Nat.not_lt.2 hle)
        | cons tok front => exact ⟨tok, front, rfl⟩
      have hclear : Clear kinds (tok :: front ++ y :: ys) :=
        clear_of_headKind hhead (hdisjoint kind hkind)
      obtain ⟨a', ha'⟩ := hps.stops hclear eoi'
      refine (hq hstays).imp_left fun hagree => ?_
      obtain ⟨front', missed', rfl, hrun, hmissed⟩ := hagree.of_ok
      exact orElse_of_error ha' hrun ▸ .ok value front' hmissed
  · rw [orElse_of_ok h₁] at hstays ⊢
    rw [h₁] at hp
    refine (hp hstays).imp_left fun hagree => ?_
    obtain ⟨front', missed', rfl, hrun, hmissed⟩ := hagree.of_ok
    exact orElse_of_ok hrun ▸ .ok value front' hmissed

theorem optional {p : Parser α} (hp : Steady n p) : Steady n (optional p) := by
  intro eoi eoi' front x xs y ys hn hclean hstays
  have hp := hp eoi eoi' front x xs y ys hn hclean
  rcases run_cases p eoi (front ++ x :: xs) with ⟨a, h⟩ | ⟨value, rest, missed, h⟩
  · rw [optional_of_error h] at hstays ⊢
    rw [h] at hp
    refine (hp (.error hstays.1)).imp_left fun hagree => ?_
    obtain ⟨b, hb, hsame⟩ := hagree.of_error
    exact optional_of_error hb ▸ .ok none front (.some hsame)
  · rw [optional_of_ok h] at hstays ⊢
    rw [h] at hp
    refine (hp ⟨hstays.1, ?_⟩).imp_left fun hagree => ?_
    · rintro _ _ _ ⟨⟩
      exact hstays.2 _ _ _ rfl
    · obtain ⟨front', missed', rfl, hrun, hmissed⟩ := hagree.of_ok
      exact optional_of_ok hrun ▸ .ok (some value) front' hmissed

theorem number : Steady n Grammar.number := by
  intro eoi eoi' front x xs y ys _ _ hstays
  cases front with
  | nil =>
      rw [List.nil_append] at hstays
      rw [List.nil_append, List.nil_append]
      by_cases hx : x.kind = .number
      · rw [Grammar.number_of_kind hx] at hstays
        cases hread : Number.read x.text with
        | some value =>
            rw [hread] at hstays
            exact absurd (hstays.2 _ _ _ rfl) (by simp)
        | none =>
            rw [hread] at hstays
            exact absurd hstays.1 (by simp)
      · rw [Grammar.number_of_kind_ne hx]
        by_cases hy : y.kind = .number
        · exact Or.inr ⟨.kind .number, by simp, hy, by decide⟩
        · rw [Grammar.number_of_kind_ne hy]
          refine Or.inl (.error ⟨0, ?_, ?_, rfl, rfl⟩) <;> simp
  | cons tok front =>
      refine Or.inl ?_
      rw [List.cons_append, List.cons_append]
      by_cases htok : tok.kind = .number
      · rw [Grammar.number_of_kind htok, Grammar.number_of_kind htok]
        cases Number.read tok.text with
        | some value => exact .ok value front .none
        | none => exact .error ⟨front.length, by simp, by simp, rfl, rfl⟩
      · rw [Grammar.number_of_kind_ne htok, Grammar.number_of_kind_ne htok]
        refine .error ⟨front.length + 1, ?_, ?_, rfl, rfl⟩ <;> simp <;> omega

/-- A parser that judges what another one reads. -/
theorem judged {kind : Token.Kind} {f : Token → Parser (Except Complaint β)} {p : Parser β}
    (hp : Judges (Parser.token kind >>= f) p) (hrefused : Grammar.RefusedBy kind p)
    (hq : Steady n (Parser.token kind >>= f)) : Steady n p := by
  intro eoi eoi' front x xs y ys hn hclean hstays
  have hq := hq eoi eoi' front x xs y ys hn hclean
  rcases hp eoi (front ++ x :: xs) with ⟨a, hrun, h⟩ | ⟨value, rest, missed, hrun, h⟩ |
      ⟨complaint, rest, missed, report, hrun, h, hown, hleft, -⟩
  · rw [hrun] at hq
    rw [h] at hstays ⊢
    refine (hq (.error hstays.1)).imp_left fun hagree => ?_
    obtain ⟨b, hb, hsame⟩ := hagree.of_error
    rcases hp eoi' (front ++ y :: ys) with ⟨b', hrun', h'⟩ | ⟨_, _, _, hrun', -⟩ |
        ⟨_, _, _, _, hrun', -⟩ <;> rw [hb] at hrun' <;> cases hrun'
    exact h' ▸ .error hsame
  · rw [hrun] at hq
    rw [h] at hstays ⊢
    refine (hq ⟨hstays.1, ?_⟩).imp_left fun hagree => ?_
    · rintro _ _ _ ⟨⟩
      exact hstays.2 _ _ _ rfl
    · obtain ⟨front', missed', rfl, hok, hmissed⟩ := hagree.of_ok
      rcases hp eoi' (front ++ y :: ys) with ⟨b', hrun', h'⟩ | ⟨_, _, _, hrun', h'⟩ |
          ⟨_, _, _, _, hrun', -⟩ <;> rw [hok] at hrun' <;> cases hrun'
      exact h' ▸ .ok value front' hmissed
  · -- nothing in front of the point is refused, so the point is where the tokens begin
    exfalso
    have hhead := hp.headKind_eq h hleft
    have hle := hclean _ ((hrefused _ _ hhead).2 ⟨report, h, hown⟩) (List.suffix_refl _)
    rw [h] at hstays
    have hpasses := hstays.1
    rw [reported_error, Report.passes_some] at hpasses
    omega

end Steady

end Parser

end Scriptlet
