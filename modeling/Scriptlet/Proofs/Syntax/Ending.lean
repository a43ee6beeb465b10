/-
**Parsing ends.**

A parser that tries others inside itself, again and again, ends if each of them has less to do.
Here that is seen from what is tried for a list of tokens: whatever is tried inside something else
is tried further on, where fewer tokens are left, or else it is a layer further in.  So there is a
bound on how much is nested, and it is linear in the number of tokens.

Loops end because each round reads something: whatever succeeds has read a token at least.  And
something that fails leaves no trace: what is tried next starts where it had started.

Main definitions:

* `Scriptlet.Watched.Layer.rank` — how far out a layer is;
* `Scriptlet.InTurn` — things that are tried one after another, **where a failure reads nothing**;
* `Scriptlet.Call.Below` — what is tried further on, or further in;
* `Scriptlet.Call.Sound` — all of that, for what is tried and for what is tried inside it;
* `Scriptlet.Watched.Sound` — a parser whose attempts are sound.

Main results:

* `Scriptlet.Watched.Sound.bind_advance`, `Scriptlet.Watched.Sound.orElse`,
  `Scriptlet.Watched.Sound.many`, `Scriptlet.Watched.Sound.separated` — the ways to build parsers;
* `Scriptlet.Watched.layered_expressionLayer`, `Scriptlet.Watched.layered_levels` — **the grammar**;
* `Scriptlet.Call.Sound.inside`, `Scriptlet.Call.Sound.depth_le` — what is tried inside an attempt,
  and how deeply;
* `Scriptlet.Program.parsing_ends` — **parsing ends**.
-/

import Scriptlet.Proofs.Syntax.Calls
import Scriptlet.Proofs.Syntax.Depth

set_option relaxedAutoImplicit false
set_option autoImplicit false

namespace Scriptlet

/-! ### What is tried, and where -/

/-- **How far out a layer is**: where a layer tries another one at once, that one is further in. -/
def Watched.Layer.rank : Watched.Layer → Nat
  | .token | .cut => 0
  | .number | .between | .arguments | .block | .function | .dotAccess | .indexAccess | .operation
  | .marked | .entry | .another | .object | .letStatement | .constStatement => 1
  | .parameters | .primary => 2
  | .member => 3
  | .call => 4
  | .product => 5
  | .sum => 6
  | .expression => 7
  | .expressionStatement => 8
  | .statement => 9
  | .program => 10

theorem Watched.Layer.rank_le (layer : Watched.Layer) : layer.rank ≤ 10 := by
  cases layer <;> decide

/-- **Things that are tried one after another**, from one number of tokens that are left to another.
Each starts where the one before it has stopped; if that has failed, where it had started. -/
inductive InTurn : Nat → List Call → Nat → Prop
  | nil (left : Nat) : InTurn left [] left
  | cons {c : Call} {cs : List Call} {stop : Nat} (h : InTurn (c.ended.getD c.left) cs stop) :
      InTurn c.left (c :: cs) stop

theorem InTurn.append {left middle stop : Nat} {cs ds : List Call} (h : InTurn left cs middle)
    (h' : InTurn middle ds stop) : InTurn left (cs ++ ds) stop := by
  induction h with
  | nil left => exact h'
  | cons _ ih => exact .cons (ih h')

/-- One thing is tried. -/
theorem InTurn.single (c : Call) : InTurn c.left [c] (c.ended.getD c.left) := .cons (.nil _)

namespace Call

/-- What is tried where less than some number of tokens is left, or in a layer below some rank. -/
def BelowAt (c : Call) (left rank : Nat) : Prop :=
  c.left < left ∨ c.left = left ∧ c.layer.rank < rank

/-- **What is tried further on, or further in.** -/
def Below (d c : Call) : Prop := d.BelowAt c.left c.layer.rank

/-- **An attempt is sound**, and so is all that is tried inside it.  It was not cut off.  If it
succeeded it has read something: a single token, or what was read inside it.  And what was tried for
it was tried in turn, further on or further in. -/
inductive Sound : Call → Prop
  | intro {c : Call} {stop : Nat} (hcut : c.layer ≠ .cut) (hturn : InTurn c.left c.inner stop)
      (hended : ∀ k, c.ended = some k →
        k < c.left ∧ if c.layer = .token then k + 1 = c.left else k = stop)
      (hbelow : ∀ d ∈ c.inner, d.Below c) (hinner : ∀ d ∈ c.inner, d.Sound) : Sound c

end Call

/-- **What is sound and tried in turn**, from one number of tokens that are left to another, further
on or in layers below `r`. -/
structure Tried (r left : Nat) (cs : List Call) (stop : Nat) : Prop where
  /-- One is tried after another. -/
  turn : InTurn left cs stop
  /-- All are sound. -/
  sound : ∀ c ∈ cs, c.Sound
  /-- They are tried further on, or further in. -/
  below : ∀ c ∈ cs, c.BelowAt left r

namespace Tried

variable {r r' left middle stop : Nat} {cs ds : List Call}

theorem nil (r left : Nat) : Tried r left [] left :=
  ⟨.nil left, fun _ hc => absurd hc List.not_mem_nil, fun _ hc => absurd hc List.not_mem_nil⟩

/-- What is tried never goes back. -/
theorem le (h : Tried r left cs stop) : stop ≤ left := by
  obtain ⟨hturn, hsound, -⟩ := h
  induction hturn with
  | nil left => exact Nat.le_refl _
  | @cons c cs stop hturn ih =>
      have hrest := ih fun d hd => hsound d (List.mem_cons_of_mem _ hd)
      cases hended : c.ended with
      | none => rwa [hended] at hrest
      | some k =>
          obtain ⟨-, -, hadvances, -, -⟩ := hsound c List.mem_cons_self
          rw [hended] at hrest
          exact Nat.le_trans hrest (Nat.le_of_lt (hadvances k hended).1)

/-- Behind what was read, layers may be further out again. -/
theorem append_of_lt (h : Tried r left cs middle) (h' : Tried r' middle ds stop)
    (hlt : middle < left) : Tried r left (cs ++ ds) stop := by
  refine ⟨h.turn.append h'.turn, fun c hc => ?_, fun c hc => ?_⟩
  · rcases List.mem_append.1 hc with hc | hc
    · exact h.sound c hc
    · exact h'.sound c hc
  · rcases List.mem_append.1 hc with hc | hc
    · exact h.below c hc
    · rcases h'.below c hc with hless | ⟨hsame, -⟩
      · exact Or.inl (Nat.lt_trans hless hlt)
      · exact Or.inl (hsame ▸ hlt)

theorem append (h : Tried r left cs middle) (h' : Tried r middle ds stop) :
    Tried r left (cs ++ ds) stop := by
  rcases Nat.lt_or_eq_of_le h.le with hlt | rfl
  · exact h.append_of_lt h' hlt
  · refine ⟨h.turn.append h'.turn, fun c hc => ?_, fun c hc => ?_⟩
    · exact (List.mem_append.1 hc).elim (h.sound c) (h'.sound c)
    · exact (List.mem_append.1 hc).elim (h.below c) (h'.below c)

theorem mono (h : Tried r left cs stop) (hr : r ≤ r') : Tried r' left cs stop :=
  ⟨h.turn, h.sound, fun c hc => (h.below c hc).imp_right fun hsame =>
    ⟨hsame.1, Nat.lt_of_lt_of_le hsame.2 hr⟩⟩

end Tried

/-! ### The end of a program -/

namespace Parser

variable {α β : Type}

/-- A sequence of steps moves forwards when its second step does. -/
theorem NonGrowing.bind_advances {p : Parser α} {f : α → Parser β} (hp : NonGrowing p)
    (hf : ∀ value, Advances (f value)) : Advances (p >>= f) := by
  intro eoi input result h
  obtain ⟨first, second, hfirst, hsecond, rfl⟩ := bind_eq_ok h
  exact Nat.lt_of_lt_of_le (hf _ _ _ second hsecond) (hp _ _ _ hfirst)

/-- Nothing is read at the end, where nothing is left. -/
theorem finish_eq_ok {eoi : Nat} {input : Remaining} {result : Parsed Unit}
    (h : finish eoi input = .ok result) : result.rest = input ∧ input.count = 0 := by
  obtain ⟨tokens, rfl⟩ : ∃ tokens, input = .ofList tokens := ⟨_, input.eq_ofList⟩
  cases tokens with
  | nil =>
      cases h
      exact ⟨rfl, rfl⟩
  | cons token tokens => cases h

theorem nonGrowing_finish : NonGrowing finish := fun _ _ _ h =>
  Nat.le_of_eq (congrArg Remaining.count (finish_eq_ok h).1)

end Parser

namespace Grammar

open Scriptlet.Parser

/-- A program consists of tokens, of the end of the input at least. -/
theorem advances_program (levels : Nat) : Advances (program levels) :=
  (NonGrowing.many (advances_statement levels)).bind_advances fun _ =>
    (advances_token _).bind fun _ => nonGrowing_finish.bind fun _ => nonGrowing_pure _

/-- Behind a program nothing is left. -/
theorem count_of_program {levels eoi : Nat} {input : Remaining} {result : Parsed Program}
    (h : program levels eoi input = .ok result) : result.rest.count = 0 := by
  obtain ⟨body, front, -, hbehind, rfl⟩ := bind_eq_ok h
  obtain ⟨mark, middle, -, hend, rfl⟩ := bind_eq_ok hbehind
  obtain ⟨stop, last, hstop, hlast, rfl⟩ := bind_eq_ok hend
  obtain rfl := pure_eq_ok hlast
  obtain ⟨hrest, hcount⟩ := finish_eq_ok hstop
  exact (congrArg Remaining.count hrest).trans hcount

end Grammar

/-! ### Ways to build parsers -/

namespace Watched

open Scriptlet.Parser

variable {α β : Type} {n r r' : Nat}

/-- **A parser whose attempts are sound**, where fewer than `n` tokens are left: they are tried in
turn, further on or in layers below `r`, and they stop where the parser does if it succeeds. -/
def Sound (n r : Nat) (w : Watched α) : Prop :=
  ∀ eoi input, input.count < n → ∃ stop, Tried r input.count (w.calls eoi input) stop ∧
    ∀ result, w.parser eoi input = .ok result → result.rest.count = stop

/-- **A parser that leaves no trace when it fails**: its attempts stop where it started. -/
def Restores (w : Watched α) : Prop :=
  ∀ eoi input report, w.parser eoi input = .error report →
    InTurn input.count (w.calls eoi input) input.count

section Steps

variable {w : Watched α} {f : α → Watched β} {eoi : Nat} {input : Remaining}

theorem Sound.ok (h : Sound n r w) (hlt : input.count < n) {result : Parsed α}
    (hp : w.parser eoi input = .ok result) :
    Tried r input.count (w.calls eoi input) result.rest.count := by
  obtain ⟨stop, htried, hstop⟩ := h eoi input hlt
  exact hstop result hp ▸ htried

theorem Sound.restored (h : Sound n r w) (hw : Restores w) (hlt : input.count < n)
    {report : Report} (hp : w.parser eoi input = .error report) :
    Tried r input.count (w.calls eoi input) input.count := by
  obtain ⟨stop, ⟨-, hsound, hbelow⟩, -⟩ := h eoi input hlt
  exact ⟨hw _ _ _ hp, hsound, hbelow⟩

theorem Sound.mono (h : Sound n r w) (hr : r ≤ r') : Sound n r' w := fun eoi input hlt =>
  (h eoi input hlt).imp fun _ htried => ⟨htried.1.mono hr, htried.2⟩

/-- Nothing is tried, and nothing is read. -/
theorem sound_quiet {p : Parser α}
    (h : ∀ {eoi input result}, p eoi input = .ok result → result.rest = input) :
    Sound n r (quiet p) := fun _ input _ =>
  ⟨input.count, .nil r _, fun _ hp => congrArg Remaining.count (h hp)⟩

theorem sound_pure (value : α) : Sound n r (pure value) :=
  sound_quiet fun h => congrArg Parsed.rest (pure_eq_ok h)

theorem calls_bind_of_ok {first : Parsed α} (h : w.parser eoi input = .ok first) :
    (w >>= f).calls eoi input
      = w.calls eoi input ++ (f first.value).calls eoi first.rest := by
  change w.calls eoi input ++ next (w.parser eoi input) _ = _
  rw [h]
  rfl

theorem calls_bind_of_error {report : Report} (h : w.parser eoi input = .error report) :
    (w >>= f).calls eoi input = w.calls eoi input := by
  change w.calls eoi input ++ next (w.parser eoi input) _ = _
  rw [h]
  exact List.append_nil _

/-- One parser after another, given how what is tried for both goes together. -/
theorem sound_bind_of (hw : Sound n r w)
    (hf : ∀ {eoi input first}, input.count < n → w.parser eoi input = .ok first →
      ∃ stop, Tried r input.count (w.calls eoi input ++ (f first.value).calls eoi first.rest) stop ∧
        ∀ second, (f first.value).parser eoi first.rest = .ok second → second.rest.count = stop) :
    Sound n r (w >>= f) := by
  intro eoi input hlt
  cases hfirst : w.parser eoi input with
  | error report =>
      obtain ⟨stop, htried, -⟩ := hw eoi input hlt
      rw [calls_bind_of_error hfirst]
      refine ⟨stop, htried, fun result hp => ?_⟩
      have hbind := (bind_of_error (f := fun value => (f value).parser) hfirst).symm.trans hp
      cases hbind
  | ok first =>
      obtain ⟨stop, htried, hstop⟩ := hf hlt hfirst
      rw [calls_bind_of_ok hfirst]
      refine ⟨stop, htried, fun result hp => ?_⟩
      obtain ⟨first', second, hfirst', hsecond, rfl⟩ := bind_eq_ok hp
      rw [hfirst, Except.ok.injEq] at hfirst'
      subst hfirst'
      exact hstop second hsecond

/-- **One parser after another.** -/
theorem Sound.bind (hw : Sound n r w) (hf : ∀ value, Sound n r (f value)) :
    Sound n r (w >>= f) :=
  sound_bind_of hw fun {eoi _ first} hlt hfirst => by
    have htried := hw.ok hlt hfirst
    obtain ⟨stop, hnext, hstop⟩ := hf first.value eoi first.rest (Nat.lt_of_le_of_lt htried.le hlt)
    exact ⟨stop, htried.append hnext, hstop⟩

/-- **Behind a parser that reads something**, fewer tokens are left, and any layer may be tried. -/
theorem Sound.bind_advance (hw : Sound (n + 1) r w) (hadvances : Advances w.parser)
    (hf : ∀ value, Sound n r' (f value)) : Sound (n + 1) r (w >>= f) :=
  sound_bind_of hw fun {eoi _ first} hlt hfirst => by
    have hless := hadvances _ _ _ hfirst
    obtain ⟨stop, hnext, hstop⟩ := hf first.value eoi first.rest
      (Nat.lt_of_lt_of_le hless (Nat.le_of_lt_succ hlt))
    exact ⟨stop, (hw.ok hlt hfirst).append_of_lt hnext hless, hstop⟩

theorem Sound.map {g : α → β} (hw : Sound n r w) : Sound n r (g <$> w) :=
  hw.bind fun _ => sound_pure _

/-- What is made of a value leaves no trace either. -/
theorem Restores.bind_pure {g : α → β} (hw : Restores w) :
    Restores (w >>= fun value => pure (g value)) := by
  intro eoi input report hp
  cases hfirst : w.parser eoi input with
  | error report' =>
      rw [calls_bind_of_error hfirst]
      exact hw _ _ _ hfirst
  | ok first =>
      have hbind := (bind_of_ok (f := fun value => pure (g value)) hfirst).symm.trans hp
      cases hbind

theorem Restores.map {g : α → β} (hw : Restores w) : Restores (g <$> w) := hw.bind_pure

theorem Sound.checked {check : α → Except Complaint β} (hw : Sound n r w) :
    Sound n r (checked w check) := by
  intro eoi input hlt
  obtain ⟨stop, htried, hstop⟩ := hw eoi input hlt
  refine ⟨stop, htried, fun result hp => ?_⟩
  obtain ⟨first, value, hfirst, -, rfl⟩ := checked_eq_ok hp
  exact hstop first hfirst

/-- **An option** stops where it started, if there is nothing to read. -/
theorem Sound.optional (hw : Sound n r w) (hrestores : Restores w) : Sound n r (optional w) := by
  intro eoi input hlt
  cases hfirst : w.parser eoi input with
  | error report =>
      refine ⟨input.count, hw.restored hrestores hlt hfirst, fun result hp => ?_⟩
      cases (optional_of_error hfirst).symm.trans hp
      rfl
  | ok first =>
      refine ⟨first.rest.count, hw.ok hlt hfirst, fun result hp => ?_⟩
      cases (optional_of_ok hfirst).symm.trans hp
      rfl

/-- **The second way starts where the first one did.** -/
theorem Sound.orElse {v : Watched α} (hv : Sound n r v) (hrestores : Restores v)
    (hw : Sound n r w) : Sound n r (orElse v w) := by
  intro eoi input hlt
  change ∃ stop, Tried r input.count (v.calls eoi input ++ _) stop ∧
    ∀ result, Parser.orElse v.parser w.parser eoi input = .ok result → result.rest.count = stop
  rw [Parser.orElse]
  cases hfirst : v.parser eoi input with
  | ok first =>
      rw [List.append_nil]
      exact ⟨first.rest.count, hv.ok hlt hfirst, fun result hp => Except.ok.inj hp ▸ rfl⟩
  | error report =>
      obtain ⟨stop, htried, hstop⟩ := hw eoi input hlt
      refine ⟨stop, (hv.restored hrestores hlt hfirst).append htried, fun result hp => ?_⟩
      cases hsecond : w.parser eoi input with
      | ok second =>
          rw [hsecond] at hp
          exact Except.ok.inj hp ▸ hstop second hsecond
      | error report' =>
          rw [hsecond] at hp
          cases hp

theorem Restores.orElse {v : Watched α} (hv : Restores v) (hw : Restores w) :
    Restores (orElse v w) := by
  intro eoi input report hp
  change Parser.orElse v.parser w.parser eoi input = _ at hp
  change InTurn input.count (v.calls eoi input ++ _) input.count
  rw [Parser.orElse] at hp
  cases hfirst : v.parser eoi input with
  | ok first =>
      rw [hfirst] at hp
      cases hp
  | error report' =>
      rw [hfirst] at hp
      cases hsecond : w.parser eoi input with
      | ok second =>
          rw [hsecond] at hp
          cases hp
      | error report'' => exact (hv _ _ _ hfirst).append (hw _ _ _ hsecond)

end Steps

/-! ### Layers and tokens -/

section Layers

variable {w : Watched α} {layer : Watched.Layer}

/-- A layer that is sound is tried where it is entered. -/
theorem tried_call {c : Call} (h : c.Sound) (hr : c.layer.rank < r) :
    Tried r c.left [c] (c.ended.getD c.left) := by
  refine ⟨InTurn.single c, fun d hd => ?_, fun d hd => ?_⟩
  · obtain rfl := List.mem_singleton.1 hd
    exact h
  · obtain rfl := List.mem_singleton.1 hd
    exact Or.inr ⟨rfl, hr⟩

theorem sound_enter_of (hcall : ∀ {eoi input}, input.count < n → (callOf layer w eoi input).Sound)
    (hr : layer.rank < r) : Sound n r (enter layer w) := by
  intro eoi input hlt
  refine ⟨(ended (w.parser eoi input)).getD input.count, tried_call (hcall hlt) hr,
    fun result hp => ?_⟩
  have hparser : w.parser eoi input = .ok result := hp
  rw [hparser]
  rfl

/-- **A layer of the grammar is entered**: it is sound if what is tried for it is. -/
theorem Sound.callOf (hw : Sound n layer.rank w) (hadvances : Advances w.parser)
    (hlayer : 0 < layer.rank) {eoi : Nat} {input : Remaining}
    (hlt : input.count < n) : (callOf layer w eoi input).Sound := by
  have hcut : layer ≠ .cut := by
    rintro rfl
    exact Nat.lt_irrefl 0 hlayer
  have htoken : layer ≠ .token := by
    rintro rfl
    exact Nat.lt_irrefl 0 hlayer
  obtain ⟨stop, ⟨hturn, hsound, hbelow⟩, hstop⟩ := hw eoi input hlt
  refine .intro hcut hturn (fun k hk => ?_) hbelow hsound
  cases hp : w.parser eoi input with
  | ok result =>
      rw [Watched.callOf, hp] at hk
      obtain rfl := Option.some.inj hk
      exact ⟨hadvances _ _ _ hp, (if_neg htoken).mpr (hstop result hp)⟩
  | error report =>
      rw [Watched.callOf, hp] at hk
      cases hk

/-- **A layer that fails leaves no trace.** -/
theorem restores_enter (layer : Watched.Layer) (w : Watched α) : Restores (enter layer w) := by
  intro eoi input report hp
  have hparser : w.parser eoi input = .error report := hp
  have hcall : Watched.callOf layer w eoi input
      = ⟨layer, input.count, none, w.calls eoi input⟩ := by
    rw [Watched.callOf, hparser]
    rfl
  change InTurn input.count [Watched.callOf layer w eoi input] input.count
  rw [hcall]
  exact InTurn.single ⟨layer, input.count, none, _⟩

/-- One token is read. -/
theorem sound_satisfy (use : Token → Option α) (expected : List Expectation) :
    Sound n (r + 1) (enter .token (quiet (Parser.satisfy use expected))) := by
  refine sound_enter_of (fun {eoi input} _ => ?_) (Nat.succ_pos r)
  refine .intro nofun (.nil _) (fun k hk => ?_) (fun _ hc => absurd hc List.not_mem_nil)
    (fun _ hc => absurd hc List.not_mem_nil)
  change ended (Parser.satisfy use expected eoi input) = some k at hk
  cases hp : Parser.satisfy use expected eoi input with
  | ok result =>
      rw [hp] at hk
      obtain ⟨tok, tokens, value, rfl, -, rfl⟩ := satisfy_eq_ok hp
      obtain rfl := Option.some.inj hk
      exact ⟨Nat.lt_succ_self tokens.length, rfl⟩
  | error report =>
      rw [hp] at hk
      cases hk

theorem sound_token (kind : Token.Kind) : Sound n (r + 1) (token kind) := sound_satisfy _ _

theorem restores_token (kind : Token.Kind) : Restores (token kind) := restores_enter _ _

end Layers

/-! ### Repetition -/

section Repetition

variable {w : Watched α}

/-- **Rounds**: each starts where the one before it has stopped, and there are enough of them. -/
theorem Sound.roundCalls (hw : Sound n r w) (hrestores : Restores w) (hadvances : Advances w.parser)
    (eoi : Nat) : ∀ (rounds : Nat) (input : Remaining), input.count < rounds → input.count < n →
      Tried r input.count (roundCalls w eoi rounds input)
        (upTo w.parser eoi rounds input).rest.count := by
  intro rounds
  induction rounds with
  | zero => intro input hrounds; omega
  | succ rounds ih =>
      intro input hrounds hlt
      rw [Watched.roundCalls, upTo]
      cases hfirst : w.parser eoi input with
      | error report =>
          have htried := hw.restored hrestores hlt hfirst
          rwa [next, List.append_nil]
      | ok first =>
          have hless := hadvances _ _ _ hfirst
          exact (hw.ok hlt hfirst).append (ih first.rest (by omega) (by omega))

theorem Sound.many (hw : Sound n r w) (hrestores : Restores w) (hadvances : Advances w.parser) :
    Sound n r (many w) := by
  intro eoi input hlt
  refine ⟨_, hw.roundCalls hrestores hadvances eoi (input.count + 1) input (Nat.lt_succ_self _) hlt,
    fun result hp => ?_⟩
  cases hp
  rfl

/-- **Another value behind a separator** is sound, if the value is. -/
theorem sound_anotherCall (hw : Sound n r' w) (hrestores : Restores w)
    (hgrowing : NonGrowing w.parser) (separator : Token.Kind) (trailing : Bool) (eoi : Nat)
    {input : Remaining} (hlt : input.count < n + 1) :
    (anotherCall w separator trailing eoi input).Sound := by
  have hmark : Sound (n + 1) 1 (token separator) := sound_token separator
  suffices h : ∃ stop, Tried 1 input.count ((token separator).calls eoi input ++
      next (Parser.token separator eoi input) fun _ rest => w.calls eoi rest) stop ∧
      ∀ k, anotherEnded w separator trailing eoi input = some k → k < input.count ∧ k = stop by
    obtain ⟨stop, ⟨hturn, hsound, hbelow⟩, hstop⟩ := h
    exact .intro nofun hturn (fun k hk => ⟨(hstop k hk).1, (hstop k hk).2⟩) hbelow hsound
  rw [anotherEnded]
  cases hsep : Parser.token separator eoi input with
  | error report =>
      refine ⟨input.count, ?_, fun k hk => by cases hk⟩
      rw [next, List.append_nil]
      exact hmark.restored (restores_token separator) hlt hsep
  | ok mark =>
      have hless := advances_token separator _ _ _ hsep
      have htried := hmark.ok hlt hsep
      have hshort : mark.rest.count < n := by omega
      dsimp only [next]
      cases hfirst : w.parser eoi mark.rest with
      | error report =>
          -- the value is missing, and the separator may have been read or not
          refine ⟨mark.rest.count,
            htried.append_of_lt (hw.restored hrestores hshort hfirst) hless, fun k hk => ?_⟩
          dsimp only at hk
          split at hk
          · cases hk
            exact ⟨hless, rfl⟩
          · cases hk
      | ok first =>
          refine ⟨first.rest.count, htried.append_of_lt (hw.ok hshort hfirst) hless,
            fun k hk => ?_⟩
          cases hk
          exact ⟨Nat.lt_of_le_of_lt (hgrowing _ _ _ hfirst) hless, rfl⟩

/-- **Rounds behind separators.** -/
theorem Sound.separatedCalls (hw : Sound n r' w) (hrestores : Restores w)
    (hgrowing : NonGrowing w.parser) (separator : Token.Kind) (trailing : Bool) (eoi : Nat)
    (hr : 1 < r) : ∀ (rounds : Nat) (input : Remaining), input.count < rounds →
      input.count < n + 1 → Tried r input.count
        (separatedCalls w separator trailing eoi rounds input)
        (separatedUpTo w.parser separator trailing eoi rounds input).rest.count := by
  intro rounds
  induction rounds with
  | zero => intro input hrounds; omega
  | succ rounds ih =>
      intro input hrounds hlt
      have hcall := sound_anotherCall hw hrestores hgrowing separator trailing eoi hlt
      have htried : Tried r input.count [anotherCall w separator trailing eoi input]
          ((anotherEnded w separator trailing eoi input).getD input.count) := tried_call hcall hr
      rw [anotherEnded] at htried
      rw [Watched.separatedCalls, separatedUpTo]
      cases hsep : Parser.token separator eoi input with
      | error report =>
          rw [hsep] at htried
          exact htried
      | ok mark =>
          have hless := advances_token separator _ _ _ hsep
          rw [hsep] at htried
          dsimp only [next] at htried ⊢
          cases hfirst : w.parser eoi mark.rest with
          | error report =>
              rw [hfirst] at htried
              cases trailing <;> exact htried
          | ok first =>
              have hle := hgrowing _ _ _ hfirst
              rw [hfirst] at htried
              exact htried.append (ih first.rest (by omega) (by omega))

/-- **Values with separators between them.** -/
theorem Sound.separated (hw : Sound n r w) (hrestores : Restores w)
    (hgrowing : NonGrowing w.parser) (separator : Token.Kind) (trailing : Bool) (hr : 1 < r) :
    Sound n r (separated w separator trailing) := by
  intro eoi input hlt
  change ∃ stop, Tried r input.count (w.calls eoi input ++ next (w.parser eoi input) _) stop ∧
    ∀ result, Parser.separated w.parser separator trailing eoi input = .ok result →
      result.rest.count = stop
  rw [Parser.separated]
  cases hfirst : w.parser eoi input with
  | error report =>
      rw [next, List.append_nil]
      refine ⟨input.count, hw.restored hrestores hlt hfirst, fun result hp => ?_⟩
      cases hp
      rfl
  | ok first =>
      have hle := hgrowing _ _ _ hfirst
      have hmore := hw.separatedCalls (r := r) hrestores hgrowing separator trailing eoi hr
        (input.count + 1) first.rest (by omega) (by omega)
      refine ⟨_, (hw.ok hlt hfirst).append hmore, fun result hp => ?_⟩
      cases hp
      rfl

end Repetition

/-! ### Expressions -/

/-- **A parser that is a layer of the grammar**: its attempts are sound, it leaves no trace when it
fails, and it reads something when it succeeds. -/
structure Layered (n r : Nat) (w : Watched α) : Prop where
  /-- The attempts are sound. -/
  sound : Sound n r w
  /-- A failure leaves no trace. -/
  restores : Restores w
  /-- A success reads something. -/
  advances : Advances w.parser

theorem Layered.mono {w : Watched α} {m : Nat} (h : Layered n r w) (hm : m ≤ n) (hr : r ≤ r') :
    Layered m r' w :=
  ⟨fun eoi input hlt => h.sound.mono hr eoi input (Nat.lt_of_lt_of_le hlt hm), h.restores,
    h.advances⟩

/-- Behind a token there is one token less, and any layer may be entered. -/
theorem Layered.inner {w : Watched α} (h : Layered (n + 1) r w) (hr : r ≤ 10) :
    Layered n 10 w :=
  h.mono (Nat.le_succ n) hr

theorem layered_enter {w : Watched α} {layer : Watched.Layer} (hw : Sound n layer.rank w)
    (hadvances : Advances w.parser) (hrank : 0 < layer.rank ∧ layer.rank < r) :
    Layered n r (enter layer w) :=
  ⟨sound_enter_of (fun hlt => hw.callOf hadvances hrank.1 hlt) hrank.2, restores_enter _ _,
    hadvances⟩

theorem sound_name : Sound n (r + 1) name := (sound_token _).bind fun _ => sound_pure _

theorem restores_name : Restores name := (restores_token _).bind_pure

theorem layered_number : Layered n 2 number :=
  layered_enter (sound_token _).checked Grammar.advances_number (by decide)

theorem sound_between {inner : Watched α} (hinner : Sound n (r + 1) inner)
    (opening closing : Token.Kind) : Sound (n + 1) 1 (between opening closing inner) :=
  (sound_token _).bind_advance (advances_token _) fun _ => hinner.bind fun _ =>
    (sound_token _).bind fun _ => sound_pure _

section Expressions

variable {s : Watched Stmt} {e : Watched Expr}

theorem layered_marked (he : Layered n 10 e) (kind : Token.Kind) :
    Layered (n + 1) 2 (marked kind e) :=
  layered_enter ((sound_token _).bind_advance (advances_token _) fun _ => he.sound)
    ((advances_token _).bind fun _ => he.advances.nonGrowing) (by decide)

theorem layered_arguments (he : Layered n 10 e) : Layered (n + 1) 2 (arguments e) := by
  have hseparated : Sound n 10 (separated e .comma false) :=
    he.sound.separated he.restores he.advances.nonGrowing _ _ (by decide)
  exact layered_enter (sound_between hseparated _ _)
    (Grammar.advances_arguments he.advances) (by decide)

theorem layered_parameters (he : Layered n 10 e) : Layered (n + 1) 3 (parameters e) :=
  layered_enter (layered_arguments he).sound.checked (Grammar.advances_parameters he.advances)
    (by decide)

theorem layered_block (hs : Layered n 10 s) : Layered (n + 1) 2 (block s) :=
  layered_enter
    (sound_between (hs.sound.many hs.restores hs.advances) _ _)
    (Grammar.advances_block hs.advances) (by decide)

theorem layered_function (hs : Layered n 10 s) (he : Layered n 10 e) :
    Layered (n + 1) 2 (function s e) := by
  have hparameters : Layered n 10 (parameters e) := (layered_parameters he).inner (by decide)
  have hblock : Layered n 10 (block s) := (layered_block hs).inner (by decide)
  refine layered_enter ?_ (Grammar.advances_function hs.advances he.advances) (by decide)
  exact (sound_token _).bind_advance (advances_token _) fun _ =>
    sound_name.bind fun _ => hparameters.sound.bind fun _ =>
      hblock.sound.bind fun _ => sound_pure _

theorem layered_primary (hs : Layered n 10 s) (he : Layered n 10 e) :
    Layered (n + 1) 3 (primary s e) := by
  have hbetween : Layered (n + 1) 2 (enter .between (between .openParen .closeParen e)) :=
    layered_enter (sound_between he.sound _ _)
      (Grammar.advances_between he.advances.nonGrowing _ _) (by decide)
  have hnumber : Layered (n + 1) 2 number := layered_number
  refine layered_enter ?_ (Grammar.advances_primary hs.advances he.advances) (by decide)
  exact sound_name.map.orElse restores_name.map <|
    hnumber.sound.map.orElse hnumber.restores.map <|
      hbetween.sound.orElse hbetween.restores (layered_function hs he).sound

theorem layered_dotAccess (hs : Layered n 10 s) (he : Layered n 10 e) :
    Layered (n + 1) 2 (dotAccess s e) := by
  have hprimary : Layered n 10 (primary s e) := (layered_primary hs he).inner (by decide)
  refine layered_enter (Sound.checked ?_) (Grammar.advances_dotAccess hs.advances he.advances)
    (by decide)
  exact (sound_token _).bind_advance (advances_token _) fun _ => hprimary.sound

theorem layered_indexAccess (he : Layered n 10 e) : Layered (n + 1) 2 (indexAccess e) :=
  layered_enter (sound_between he.sound _ _).map
    (Grammar.advances_indexAccess he.advances) (by decide)

theorem layered_member (hs : Layered n 10 s) (he : Layered n 10 e) :
    Layered (n + 1) 4 (member s e) := by
  have hdot := layered_dotAccess hs he
  have hindex := layered_indexAccess he
  have haccess : Layered (n + 1) 2 (orElse (dotAccess s e) (indexAccess e)) :=
    ⟨hdot.sound.orElse hdot.restores hindex.sound, hdot.restores.orElse hindex.restores,
      Grammar.advances_access hs.advances he.advances⟩
  have hsuffix : Layered n 10 (orElse (dotAccess s e) (indexAccess e)) :=
    haccess.inner (by decide)
  have hprimary := layered_primary hs he
  refine layered_enter ?_ (Grammar.advances_member hs.advances he.advances) (by decide)
  exact hprimary.sound.bind_advance hprimary.advances fun _ =>
    (hsuffix.sound.many hsuffix.restores hsuffix.advances).bind fun _ => sound_pure _

theorem layered_call (hs : Layered n 10 s) (he : Layered n 10 e) :
    Layered (n + 1) 5 (call s e) := by
  have harguments : Layered n 10 (arguments e) := (layered_arguments he).inner (by decide)
  have hmember := layered_member hs he
  refine layered_enter ?_ (Grammar.advances_call hs.advances he.advances) (by decide)
  exact hmember.sound.bind_advance hmember.advances fun _ =>
    (harguments.sound.many harguments.restores harguments.advances).bind fun _ => sound_pure _

theorem layered_operation {operand : Watched Expr} (ho : Layered n 10 operand)
    (allowed : List Operator) : Layered (n + 1) 2 (operation allowed operand) := by
  have hoperator : Sound (n + 1) 1 (operator allowed) := sound_satisfy _ _
  refine layered_enter ?_ (Grammar.advances_operation ho.advances allowed) (by decide)
  exact hoperator.bind_advance (advances_operator allowed) fun _ =>
    ho.sound.bind fun _ => sound_pure _

/-- Operands with operators between them, in a layer that is further out than they are. -/
theorem layered_chain (layer : Watched.Layer) {operand : Watched Expr}
    (ho : Layered (n + 1) layer.rank operand) (allowed : List Operator)
    (hlayer : 0 < layer.rank) :
    Layered (n + 1) (layer.rank + 1) (chain layer allowed operand) := by
  have hoperation : Layered n 10 (operation allowed operand) :=
    (layered_operation (ho.inner layer.rank_le) allowed).inner (by decide)
  refine layered_enter ?_ (Grammar.advances_chain ho.advances allowed) ⟨hlayer, Nat.lt_succ_self _⟩
  exact ho.sound.bind_advance ho.advances fun _ =>
    (hoperation.sound.many hoperation.restores hoperation.advances).bind fun _ => sound_pure _

theorem layered_sum (hs : Layered n 10 s) (he : Layered n 10 e) :
    Layered (n + 1) 7 (sum s e) := by
  have hproduct : Layered (n + 1) 6 (product s e) :=
    layered_chain .product (layered_call hs he) _ (by decide)
  exact layered_chain .sum hproduct _ (by decide)

theorem layered_entry (he : Layered n 10 e) : Layered (n + 1) 2 (entry e) := by
  have hmarked : Layered n 10 (marked .colon e) := (layered_marked he _).inner (by decide)
  refine layered_enter ?_ ?_ (by decide)
  · exact sound_name.bind_advance Grammar.advances_name fun _ =>
      (hmarked.sound.optional hmarked.restores).bind fun value => by
        cases value <;> exact sound_pure _
  · have hadvances := Grammar.advances_entry he.advances
    rwa [← parser_entry] at hadvances

theorem layered_object (he : Layered n 10 e) : Layered (n + 1) 2 (object e) := by
  have hentry : Layered n 10 (entry e) := (layered_entry he).inner (by decide)
  have hseparated : Sound n 10 (separated (entry e) .comma true) :=
    hentry.sound.separated hentry.restores hentry.advances.nonGrowing _ _ (by decide)
  refine layered_enter (sound_between hseparated _ _).map ?_ (by decide)
  have hadvances := Grammar.advances_object he.advances
  rwa [← parser_object] at hadvances

/-- **An expression**, if what stands further in is one. -/
theorem layered_expressionLayer (hs : Layered n 10 s) (he : Layered n 10 e) :
    Layered (n + 1) 8 (expressionLayer s e) := by
  have hobject := layered_object he
  have hsum := layered_sum hs he
  have hmarked : Layered n 10 (marked .equals e) := (layered_marked he _).inner (by decide)
  refine layered_enter ?_ ?_ (by decide)
  · have htarget : Sound (n + 1) 7 (orElse (object e) (sum s e)) :=
      (hobject.sound.mono (by decide)).orElse hobject.restores hsum.sound
    exact htarget.bind_advance (hobject.advances.orElse hsum.advances) fun _ =>
      (hmarked.sound.optional hmarked.restores).bind fun value => by
        cases value <;> exact sound_pure _
  · have hadvances := Grammar.advances_expressionLayer hs.advances he.advances
    rwa [← parser_expressionLayer] at hadvances

end Expressions

/-! ### Statements and programs -/

section Statements

variable {e : Watched Expr}

theorem layered_letStatement (he : Layered (n + 1) 8 e) :
    Layered (n + 1) 2 (letStatement e) := by
  have hmarked : Layered n 10 (marked .equals e) :=
    (layered_marked (he.inner (by decide)) _).inner (by decide)
  refine layered_enter ?_ (Grammar.advances_letStatement he.advances) (by decide)
  exact (sound_token _).bind_advance (advances_token _) fun _ =>
    sound_name.bind fun _ => (hmarked.sound.optional hmarked.restores).bind fun _ =>
      (sound_token _).bind fun _ => sound_pure _

theorem layered_constStatement (he : Layered (n + 1) 8 e) :
    Layered (n + 1) 2 (constStatement e) := by
  have hexpression : Layered n 10 e := he.inner (by decide)
  refine layered_enter ?_ (Grammar.advances_constStatement he.advances) (by decide)
  exact (sound_token _).bind_advance (advances_token _) fun _ =>
    sound_name.bind fun _ => (sound_token _).bind fun _ =>
      hexpression.sound.bind fun _ => (sound_token _).bind fun _ => sound_pure _

theorem layered_expressionStatement (he : Layered (n + 1) 8 e) :
    Layered (n + 1) 9 (expressionStatement e) := by
  refine layered_enter ?_ (Grammar.advances_expressionStatement he.advances) (by decide)
  exact he.sound.bind fun _ =>
    ((sound_token _).optional (restores_token _)).bind fun _ => sound_pure _

/-- **A statement**, given the expressions in it. -/
theorem layered_statementLayer (he : Layered (n + 1) 8 e) :
    Layered (n + 1) 10 (statementLayer e) := by
  have hlet := layered_letStatement he
  have hconst := layered_constStatement he
  have hexpression := layered_expressionStatement he
  refine layered_enter ?_ (Grammar.advances_statementLayer he.advances) (by decide)
  exact (hlet.sound.mono (by decide)).orElse hlet.restores <|
    (hconst.sound.mono (by decide)).orElse hconst.restores hexpression.sound

end Statements

/-- **Statements and expressions**, by induction on the number of levels. -/
theorem layered_levels (levels : Nat) :
    Layered levels 10 (statement levels) ∧ Layered levels 10 (expression levels) := by
  induction levels with
  | zero =>
      -- with no levels nothing may be left, so that the bound is never met
      exact ⟨⟨fun _ _ hlt => absurd hlt (Nat.not_lt_zero _), restores_enter _ _, advances_stuck⟩,
        ⟨fun _ _ hlt => absurd hlt (Nat.not_lt_zero _), restores_enter _ _, advances_stuck⟩⟩
  | succ levels ih =>
      have hexpression := layered_expressionLayer ih.1 ih.2
      exact ⟨layered_statementLayer hexpression, hexpression.mono (Nat.le_refl _) (by decide)⟩

/-- **A program**, where fewer tokens are left than there are levels. -/
theorem sound_program (n : Nat) : Sound n 10 (program n) := by
  have hstatement := (layered_levels n).1
  refine (hstatement.sound.many hstatement.restores hstatement.advances).bind fun _ =>
    (sound_token _).bind fun _ => Sound.bind (sound_quiet fun hp => ?_) fun _ =>
      sound_pure _
  exact (finish_eq_ok hp).1

end Watched

/-! ### How deeply attempts are nested -/

namespace Call

mutual

/-- **How deeply attempts are nested** in an attempt, itself included. -/
def depth : Call → Nat
  | ⟨_, _, _, inner⟩ => depths inner + 1

/-- How deeply attempts are nested in some attempts. -/
def depths : List Call → Nat
  | [] => 0
  | c :: cs => max c.depth (depths cs)

end

theorem depth_eq (c : Call) : c.depth = depths c.inner + 1 := by
  obtain ⟨layer, left, ended, inner⟩ := c
  rw [depth]

/-- What is tried inside an attempt, at any depth. -/
inductive Inside : Call → Call → Prop
  | inner {d c : Call} (h : d ∈ c.inner) : Inside d c
  | deeper {e d c : Call} (h : Inside e d) (h' : d ∈ c.inner) : Inside e c

theorem Below.trans {e d c : Call} (h : e.Below d) (h' : d.Below c) : e.Below c := by
  rcases h with h | ⟨h, hrank⟩ <;> rcases h' with h' | ⟨h', hrank'⟩
  · exact Or.inl (Nat.lt_trans h h')
  · exact Or.inl (h' ▸ h)
  · exact Or.inl (h ▸ h')
  · exact Or.inr ⟨h.trans h', Nat.lt_trans hrank hrank'⟩

/-- **What is tried inside a sound attempt** is sound, and further on or further in. -/
theorem Sound.inside {d c : Call} (h : c.Sound) (hinside : d.Inside c) : d.Sound ∧ d.Below c := by
  induction hinside with
  | inner hmem =>
      obtain ⟨-, -, -, hbelow, hinner⟩ := h
      exact ⟨hinner _ hmem, hbelow _ hmem⟩
  | deeper _ hmem ih =>
      obtain ⟨-, -, -, hbelow, hinner⟩ := h
      obtain ⟨hsound, hlower⟩ := ih (hinner _ hmem)
      exact ⟨hsound, hlower.trans (hbelow _ hmem)⟩

theorem depths_le {cs : List Call} {bound : Nat} (h : ∀ c ∈ cs, c.depth ≤ bound) :
    depths cs ≤ bound := by
  induction cs with
  | nil => exact Nat.zero_le _
  | cons c cs ih =>
      rw [depths]
      exact Nat.max_le.2 ⟨h c List.mem_cons_self, ih fun d hd => h d (List.mem_cons_of_mem _ hd)⟩

/-- **The depth is bounded** by the number of tokens and the layer, since inside of an attempt one
of them is less. -/
theorem Sound.depth_le {c : Call} (h : c.Sound) : c.depth ≤ 11 * c.left + c.layer.rank + 1 := by
  induction h with
  | @intro c stop _ _ _ hbelow _ ih =>
      rw [depth_eq]
      refine Nat.succ_le_succ (depths_le fun d hd => ?_)
      have hdepth := ih d hd
      have hrank := d.layer.rank_le
      rcases hbelow d hd with hless | ⟨hsame, hlower⟩
      · omega
      · omega

end Call

/-! ### Parsing -/

theorem Program.sound_call (tokens : List Token) : (Program.call tokens).Sound := by
  have hadvances := Grammar.advances_program (tokens.length + 1)
  rw [← Watched.parser_program] at hadvances
  exact (Watched.sound_program (tokens.length + 1)).callOf hadvances (by decide)
    (Nat.lt_succ_self _)

/-- **Parsing ends.**  Any list of tokens is read as a program, up to the last token, or it is
refused; and this does not depend on the bound on the levels.

In what is tried for that, by the parsers of the grammar, nothing is ever cut off.  Whatever
succeeds has read a token at least.  What is tried for something is tried in turn, each starting
where the one before it stopped or, if that has failed, had started.  What is tried inside something
else is tried further on, or a layer further in; so a layer is entered again from inside itself
only further on.  And attempts are nested no more deeply than eleven layers for each token. -/
theorem Program.parsing_ends (tokens : List Token) :
    let call := Program.call tokens
    (Watched.program (tokens.length + 1)).parser = Grammar.program (tokens.length + 1) ∧
    ((call.ended = some 0 ∧ ∃ p, Program.readTokens tokens = .ok p) ∨
      (call.ended = none ∧ ∃ report, Program.readTokens tokens = .error report)) ∧
    (∀ levels, tokens.length < levels →
      (Grammar.program levels (endOffset tokens) (.ofList tokens)).map Parsed.value
        = Program.readTokens tokens) ∧
    (∀ c : Call, c = call ∨ c.Inside call →
      c.layer ≠ .cut ∧
      (∀ k, c.ended = some k → k < c.left) ∧
      (∃ stop, InTurn c.left c.inner stop ∧
        ∀ k, c.ended = some k → if c.layer = .token then k + 1 = c.left else k = stop) ∧
      ∀ d : Call, d.Inside c → d.Below c ∧ (d.layer = c.layer → d.left < c.left)) ∧
    call.depth ≤ 11 * (tokens.length + 1) := by
  intro call
  have hsound := Program.sound_call tokens
  refine ⟨Watched.parser_program _, ?_, fun levels hlevels => ?_, fun c hc => ?_, ?_⟩
  · have hparser := Watched.parser_program (tokens.length + 1)
    have hended : call.ended = Watched.ended (Grammar.program (tokens.length + 1)
        (endOffset tokens) (.ofList tokens)) := by rw [← hparser]; rfl
    rw [hended, Program.readTokens]
    cases hp : Grammar.program (tokens.length + 1) (endOffset tokens) (.ofList tokens) with
    | ok result => exact Or.inl ⟨congrArg some (Grammar.count_of_program hp), _, rfl⟩
    | error report => exact Or.inr ⟨rfl, _, rfl⟩
  · have h := Grammar.program_agree levels (endOffset tokens) (.ofList tokens) hlevels
    rw [h, Program.readTokens_eq]
  · have hc : c.Sound := by
      rcases hc with rfl | hinside
      · exact hsound
      · exact (hsound.inside hinside).1
    obtain ⟨hcut, hturn, hended, -, -⟩ := id hc
    refine ⟨hcut, fun k hk => (hended k hk).1, ⟨_, hturn, fun k hk => (hended k hk).2⟩,
      fun d hd => ?_⟩
    have hbelow := (hc.inside hd).2
    refine ⟨hbelow, fun hlayer => hbelow.resolve_right fun hsame => ?_⟩
    rw [hlayer] at hsame
    exact Nat.lt_irrefl _ hsame.2
  · have hdepth : call.depth ≤ 11 * tokens.length + 10 + 1 := hsound.depth_le
    omega

end Scriptlet
