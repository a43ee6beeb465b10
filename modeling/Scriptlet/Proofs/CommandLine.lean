/-
**The command line does what running a source does.**

A command does not run a source as a host would, by `Scriptlet.run`; it goes from the text to the
outcome step by step, so that it can stop on the way and show what there is: the tokens, or the
tree.  Here the two are compared.  What a command writes and the code that it exits with are told by
what running the source prints, by how that ends, and by the text of the error.

Main definitions:

* `Scriptlet.CommandLine.Options.flags` — the arguments that ask for some options;
* `Scriptlet.CommandLine.Options.GivenBy` — **arguments that name a path and ask for some options**.

Main results:

* `Scriptlet.Token.newline_notMem_listing` — what is listed of a token is one line;
* `Scriptlet.CommandLine.readArguments_of_givenBy` — the arguments are understood, in any order;
* `Scriptlet.CommandLine.exists_run_eq` — evaluating a program is what running its source does;
* `Scriptlet.CommandLine.outcome_agrees_with_run` — **the command line agrees with running**.
-/

import Scriptlet.CommandLine
import Scriptlet.Proofs.Eval.Sequence

set_option relaxedAutoImplicit false
set_option autoImplicit false

namespace Scriptlet

/-! ### Listings -/

section Listings

theorem newline_notMem_toDigits {base : Nat} (hbase : 1 < base) (hle : base ≤ 16) (n : Nat) :
    '\n' ∉ Nat.toDigits base n := by
  have hdigit : ∀ digit < 16, '\n' ∉ [Nat.digitChar digit] := by decide
  induction n using Nat.strongRecOn with
  | ind n ih =>
      rw [Nat.toDigits_eq_if hbase]
      split
      · next hlt => exact hdigit n (by omega)
      · next hge =>
        rw [List.mem_append, not_or]
        have hmod := Nat.mod_lt n (show 0 < base by omega)
        exact ⟨ih _ (Nat.div_lt_self (by omega) hbase), hdigit _ (by omega)⟩

/-- No character is written as a line break between quotes. -/
theorem newline_notMem_escapeChar (c : Char) : '\n' ∉ escapeChar c := by
  unfold escapeChar
  split
  · decide
  · decide
  · decide
  · decide
  · decide
  · decide
  · next hnewline _ _ =>
    split
    · intro h
      rcases List.mem_append.1 h with h | h
      · rcases List.mem_append.1 h with h | h
        · exact absurd h (by decide)
        · exact newline_notMem_toDigits (by decide) (by decide) _ h
      · exact absurd h (by decide)
    · exact fun h => hnewline (List.mem_singleton.1 h).symm

theorem newline_notMem_quote (text : String) : '\n' ∉ (quote text).toList := by
  rw [quote, String.toList_ofList]
  intro h
  rcases List.mem_append.1 h with h | h
  · rcases List.mem_cons.1 h with h | h
    · exact absurd h (by decide)
    · obtain ⟨c, -, hc⟩ := List.mem_flatMap.1 h
      exact newline_notMem_escapeChar c hc
  · exact absurd h (by decide)

theorem newline_notMem_toString (n : Nat) : '\n' ∉ (toString n).toList := by
  rw [Nat.toString_eq_ofList_toDigits, String.toList_ofList]
  exact newline_notMem_toDigits (by decide) (by decide) n

/-- **What is listed of a token is one line**, whatever its text is. -/
theorem Token.newline_notMem_listing (tok : Token) : '\n' ∉ tok.listing.toList := by
  have hname : '\n' ∉ tok.kind.name.toList := by
    cases tok.kind <;> decide
  have hspan : '\n' ∉ tok.span.text.toList := by
    simp only [Span.text, String.toList_append, List.mem_append, not_or]
    exact ⟨⟨newline_notMem_toString _, by decide⟩, newline_notMem_toString _⟩
  simp only [listing, String.toList_append, List.mem_append, not_or]
  exact ⟨⟨⟨⟨hname, by decide⟩, newline_notMem_quote _⟩, by decide⟩, hspan⟩

/-- There are as many lines as texts, if no text has more than one line. -/
theorem CommandLine.count_newline_lines {texts : List String}
    (h : ∀ text ∈ texts, '\n' ∉ text.toList) :
    (lines texts).toList.count '\n' = texts.length := by
  induction texts with
  | nil => rfl
  | cons text texts ih =>
      obtain ⟨htext, htexts⟩ := List.forall_mem_cons.1 h
      have hlines : lines (text :: texts) = text ++ "\n" ++ lines texts := by
        simp only [lines, List.map_cons, String.join_cons]
      have hfirst : (text ++ "\n").toList.count '\n' = 1 := by
        rw [String.toList_append, List.count_append, List.count_eq_zero.2 htext]
        rfl
      rw [hlines, String.toList_append, List.count_append, hfirst, ih htexts, List.length_cons,
        Nat.add_comm]

end Listings

namespace CommandLine

/-! ### Reading arguments -/

section Arguments

variable {options : Options} {path : String} {arguments : List String} {given : Given}

/-- The arguments that ask for some options. -/
def Options.flags (options : Options) : List String :=
  (if options.tokens then ["--tokens"] else []) ++ (if options.tree then ["--ast"] else []) ++
    if options.result then ["--print-result"] else []

/-- **Arguments that name a path and ask for some options**, in any order.  A path that looks like
an option stands last, behind the mark that ends the options. -/
inductive Options.GivenBy (options : Options) (path : String) : List String → Prop
  /-- The path stands anywhere. -/
  | among {arguments : List String} (hpath : path ≠ "") (hplain : looksLikeOption path = false)
      (h : arguments.Perm (path :: options.flags)) : GivenBy options path arguments
  /-- The path stands anywhere, and the mark stands last. -/
  | ended {arguments : List String} (hpath : path ≠ "") (hplain : looksLikeOption path = false)
      (h : arguments.Perm (path :: options.flags)) : GivenBy options path (arguments ++ ["--"])
  /-- The path stands behind the mark. -/
  | behind {arguments : List String} (hpath : path ≠ "") (h : arguments.Perm options.flags) :
      GivenBy options path (arguments ++ ["--", path])

/-- What was read, and the options that some arguments ask for. -/
def Given.asked (given : Given) (arguments : List String) : Given :=
  { given with
    tokens := given.tokens + arguments.count "--tokens"
    tree := given.tree + arguments.count "--ast"
    result := given.result + arguments.count "--print-result" }

theorem mem_flags {argument : String} (h : argument ∈ options.flags) :
    argument = "--tokens" ∨ argument = "--ast" ∨ argument = "--print-result" := by
  have hmem : (options.tokens = true ∧ argument = "--tokens") ∨
      (options.tree = true ∧ argument = "--ast") ∨
        (options.result = true ∧ argument = "--print-result") := by
    simpa [Options.flags] using h
  rcases hmem with h | h | h
  · exact .inl h.2
  · exact .inr (.inl h.2)
  · exact .inr (.inr h.2)

theorem takeArgument_of_mem_flags {argument : String} (h : argument ∈ options.flags)
    (given : Given) :
    argument ≠ "--" ∧ takeArgument given argument = .next (given.asked [argument]) := by
  rcases mem_flags h with rfl | rfl | rfl
  · exact ⟨by decide, rfl⟩
  · exact ⟨by decide, rfl⟩
  · exact ⟨by decide, rfl⟩

theorem Given.asked_append (given : Given) (front back : List String) :
    given.asked (front ++ back) = (given.asked front).asked back := by
  simp only [asked, List.count_append, Nat.add_assoc]

/-- Options are read one after another. -/
theorem readGiven_of_flags {front : List String} (hfront : front ⊆ options.flags)
    (given : Given) (rest : List String) :
    readGiven given false (front ++ rest) = readGiven (given.asked front) false rest := by
  induction front generalizing given with
  | nil => rfl
  | cons argument front ih =>
      obtain ⟨hargument, hfront⟩ := List.cons_subset.1 hfront
      obtain ⟨hmark, htake⟩ := takeArgument_of_mem_flags hargument given
      have hstep : readGiven given false (argument :: front ++ rest)
          = readGiven (given.asked [argument]) false (front ++ rest) := by
        rw [List.cons_append, readGiven]
        simp [hmark, htake]
      rw [hstep, ih hfront, ← Given.asked_append]
      rfl

theorem takePath_of_ne (hpath : path ≠ "") (hnone : given.path = none) :
    takePath given path = .next { given with path := some path } := by
  simp [takePath, hpath, hnone]

theorem takeArgument_of_plain (h : looksLikeOption path = false) (given : Given) :
    takeArgument given path = takePath given path := by
  unfold looksLikeOption at h
  unfold takeArgument
  split
  · next hchars =>
    rw [hchars] at h
    cases h
  · next hchars =>
    rw [hchars] at h
    cases h
  · rfl

/-- A path is read where there was none. -/
theorem readGiven_of_path (hpath : path ≠ "") (hplain : looksLikeOption path = false)
    (hnone : given.path = none) (rest : List String) :
    readGiven given false (path :: rest)
      = readGiven { given with path := some path } false rest := by
  have hmark : path ≠ "--" := by
    rintro rfl
    cases hplain
  rw [readGiven]
  simp [hmark, takeArgument_of_plain hplain, takePath_of_ne hpath hnone]

/-- Behind the mark that ends the options nothing or a path is read. -/
theorem readGiven_mark (given : Given) (rest : List String) :
    readGiven given false ("--" :: rest) = (readPaths given rest).map .inr := by
  rw [readGiven]
  rfl

/-- What was read makes sense if each option was asked for once, if at all. -/
theorem Given.request?_of_perm {front back : List String}
    (h : (front ++ back).Perm options.flags) :
    ({ (Given.mk none none 0 0 0).asked front with path := some path }.asked back).request?
      = some (.script (.file path) options) := by
  have hcount : ∀ flag, front.count flag + back.count flag = options.flags.count flag :=
    fun flag => List.count_append.symm.trans (h.count_eq flag)
  simp only [request?, asked, Nat.zero_add, hcount]
  rcases options with ⟨_ | _, _ | _, _ | _⟩ <;> rfl

/-- **The arguments are understood.** -/
theorem readArguments_of_givenBy (h : options.GivenBy path arguments) :
    readArguments arguments = some (.script (.file path) options) := by
  have hread : ∃ front back, (front ++ back).Perm options.flags ∧
      readGiven ⟨none, none, 0, 0, 0⟩ false arguments
        = some (.inr ({ (Given.mk none none 0 0 0).asked front with path := some path }.asked
            back)) := by
    have hparts : ∀ {arguments : List String}, arguments.Perm (path :: options.flags) →
        ∃ front back, arguments = front ++ path :: back ∧ (front ++ back).Perm options.flags := by
      intro arguments h
      obtain ⟨front, back, rfl⟩ := List.append_of_mem (h.mem_iff.2 List.mem_cons_self)
      exact ⟨front, back, rfl, List.Perm.cons_inv (List.perm_middle.symm.trans h)⟩
    cases h with
    | among hpath hplain h =>
        obtain ⟨front, back, rfl, hflags⟩ := hparts h
        obtain ⟨hfront, hback⟩ := List.append_subset.1 hflags.subset
        refine ⟨front, back, hflags, ?_⟩
        rw [readGiven_of_flags hfront, readGiven_of_path hpath hplain rfl,
          ← List.append_nil back, readGiven_of_flags hback, List.append_nil]
        rfl
    | ended hpath hplain h =>
        obtain ⟨front, back, rfl, hflags⟩ := hparts h
        obtain ⟨hfront, hback⟩ := List.append_subset.1 hflags.subset
        refine ⟨front, back, hflags, ?_⟩
        rw [List.append_assoc, readGiven_of_flags hfront, List.cons_append,
          readGiven_of_path hpath hplain rfl, readGiven_of_flags hback, readGiven_mark]
        rfl
    | @behind arguments hpath h =>
        refine ⟨arguments, [], (List.append_nil arguments).symm ▸ h, ?_⟩
        rw [readGiven_of_flags h.subset, readGiven_mark, readPaths, takePath_of_ne hpath rfl]
        rfl
  obtain ⟨front, back, hflags, hread⟩ := hread
  rw [readArguments, hread]
  exact Given.request?_of_perm hflags

end Arguments

/-! ### Outcomes -/

section Outcomes

variable {options : Options} {source : String}

theorem faultMessage_eq (fault : Fault) : faultMessage fault = fault.toRunError.text := by
  cases fault <;> rfl

/-- Without colours the line that shows a value is its text. -/
theorem resultLine_uncoloured (store : Store) (value : Value) :
    resultLine false store value = value.text store ++ "\n" := by
  cases value with
  | null => simp [resultLine, Value.isNull, colourText, Value.text, Value.textWithin]
  | _ => rfl

/-- **Evaluating a program is what running its source does**, up to the events of reading it. -/
theorem exists_run_eq {p : Program} (h : Program.ofSource source = .ok p) (depth scope : Nat)
    (machine : Machine) :
    ∃ result stop last, (p.eval depth scope).run machine = (result, stop) ∧
      run depth scope source machine = (result.mapError Fault.toRunError, last) ∧
        stop.Alike last := by
  obtain ⟨start, hstart, hload⟩ := exists_loadProgram_eq h machine
  obtain ⟨hresult, halike⟩ := p.eval_alike depth scope hstart
  rcases hend : (p.eval depth scope).run machine with ⟨result, stop⟩
  rw [hend] at hresult halike
  exact ⟨result, stop, _, rfl, by rw [run_of_loadProgram hload, hresult], halike.symm⟩

/-- A source that is not parsed fails in the same way when it is run. -/
theorem run_of_ofSource_error {error : SyntaxError} (h : Program.ofSource source = .error error)
    (depth scope : Nat) (machine : Machine) :
    ∃ last, run depth scope source machine = (.error (.reading error), last) ∧
      last.Alike machine := by
  obtain ⟨start, hstart, hload⟩ := exists_loadProgram_eq_error h machine
  exact ⟨start, run_of_loadProgram_error hload depth scope, hstart⟩

/-- **What a source yields that is to be run**, by what running it does. -/
theorem serve_eq_of_run (depth : Nat) (htokens : options.tokens = false)
    (htree : options.tree = false) :
    serve depth false options source
      = match run depth (Machine.start none).1 source (Machine.start none).2 with
        | (.ok value, last) => ⟨0, lines last.output.toList ++
            (if options.result then value.text last.store ++ "\n" else ""), ""⟩
        | (.error error, last) => ⟨1, lines last.output.toList, error.text ++ "\n"⟩ := by
  unfold serve
  rw [htokens, htree]
  cases hparse : Program.ofSource source with
  | error error =>
      obtain ⟨last, hrun, halike⟩ :=
        run_of_ofSource_error hparse depth (Machine.start none).1 (Machine.start none).2
      rw [hrun]
      dsimp only
      rw [halike.output]
      rfl
  | ok p =>
      obtain ⟨result, stop, last, heval, hrun, halike⟩ :=
        exists_run_eq hparse depth (Machine.start none).1 (Machine.start none).2
      rw [hrun]
      simp only [Bool.false_eq_true, if_false, heval]
      cases result with
      | error fault =>
          simp only [Except.mapError, Outcome.failed, colourText, Bool.false_eq_true, if_false,
            faultMessage_eq, halike.output]
      | ok value =>
          simp only [Except.mapError, resultLine_uncoloured, halike.output, halike.store]

/-- **The command line agrees with running a source.**

Let arguments name a path from which a source can be read, and let nothing be coloured.  If they ask
for the tokens, then these are listed, one line for each, and the command succeeds, whatever the
source is and whatever else is asked for.  If they ask for the tree, then the command succeeds if
the source is parsed, and only then: what is written is the tree, or the error that running the
source ends with.  If they ask for neither, then what is written is what running the source prints
in a fresh state, even if it fails on the way: the command succeeds if there is a value, which is
shown on a line of its own if the arguments ask for that, and otherwise it writes the text of the
error. -/
theorem outcome_agrees_with_run {path : String} {arguments : List String}
    (hgiven : options.GivenBy path arguments) {readFile : String → Except ReadError String}
    (hread : readFile path = .ok source) (depth : Nat) :
    let brought := outcome depth false readFile arguments
    let ran := run depth (Machine.start none).1 source (Machine.start none).2
    let tokens := (scan source).tokens
    (options.tokens = true →
      brought = ⟨0, lines (tokens.map Token.listing), ""⟩ ∧
        brought.output.toList.count '\n' = tokens.length) ∧
    (options.tokens = false → options.tree = true →
      (brought.code = 0 ↔ ∃ program, Program.ofSource source = .ok program) ∧
      (∀ program, Program.ofSource source = .ok program →
        brought = ⟨0, program.outline.indented 0 ++ "\n", ""⟩) ∧
      ∀ error, Program.ofSource source = .error error → ran.1 = .error (.reading error) ∧
        brought = ⟨1, "", (RunError.reading error).text ++ "\n"⟩) ∧
    (options.tokens = false → options.tree = false →
      (∀ value, ran.1 = .ok value → brought = ⟨0, lines ran.2.output.toList ++
        (if options.result then value.text ran.2.store ++ "\n" else ""), ""⟩) ∧
      ∀ error, ran.1 = .error error →
        brought = ⟨1, lines ran.2.output.toList, error.text ++ "\n"⟩) := by
  intro brought ran tokens
  have hserve : brought = serve depth false options source := by
    show outcome depth false readFile arguments = _
    rw [outcome, readArguments_of_givenBy hgiven]
    dsimp only
    rw [hread]
  refine ⟨fun htokens => ?_, fun htokens htree => ?_, fun htokens htree => ?_⟩
  · have hlisted : brought = ⟨0, lines (tokens.map Token.listing), ""⟩ := by
      rw [hserve, serve, if_pos htokens]
    refine ⟨hlisted, ?_⟩
    rw [hlisted, count_newline_lines (List.forall_mem_map.2 fun tok _ =>
      tok.newline_notMem_listing), List.length_map]
  · cases hparse : Program.ofSource source with
    | ok program =>
        have hshown : brought = ⟨0, program.outline.indented 0 ++ "\n", ""⟩ := by
          rw [hserve, serve, htokens, htree, hparse]
          rfl
        refine ⟨⟨fun _ => ⟨program, rfl⟩, fun _ => hshown ▸ rfl⟩, fun program' h => ?_,
          fun error h => by cases h⟩
        exact Except.ok.inj h ▸ hshown
    | error error =>
        have hshown : brought = ⟨1, "", (RunError.reading error).text ++ "\n"⟩ := by
          rw [hserve, serve, htokens, htree, hparse]
          rfl
        obtain ⟨last, hrun, -⟩ := run_of_ofSource_error hparse depth (Machine.start none).1
          (Machine.start none).2
        refine ⟨⟨fun h => ?_, fun h => ?_⟩, fun program h => (by cases h), fun error' h => ?_⟩
        · rw [hshown] at h
          cases h
        · obtain ⟨program, h⟩ := h
          cases h
        · obtain rfl := Except.error.inj h
          exact ⟨congrArg Prod.fst hrun, hshown⟩
  · have hserved := hserve.trans (serve_eq_of_run depth htokens htree)
    refine ⟨fun value hvalue => ?_, fun error herror => ?_⟩
    · rw [hserved, show run depth (Machine.start none).1 source (Machine.start none).2
        = (.ok value, ran.2) from Prod.ext hvalue rfl]
    · rw [hserved, show run depth (Machine.start none).1 source (Machine.start none).2
        = (.error error, ran.2) from Prod.ext herror rfl]

/-- A script that prints and then fails keeps what it printed. -/
theorem outcome_agrees_with_run_partial :
    let readFile := fun path =>
      if path = "script" then Except.ok "print(true); x" else .error ReadError.missing
    (⟨false, false, true⟩ : Options).GivenBy "script" ["--print-result", "script"] ∧
      readFile "script" = .ok "print(true); x" ∧
      outcome 1 false readFile ["--print-result", "script"]
        = ⟨1, "true\n", "runtime error: cannot resolve 'x' as it does not exist\n"⟩ := by
  intro readFile
  let ran := run 1 (Machine.start none).1 "print(true); x" (Machine.start none).2
  have hgiven : (⟨false, false, true⟩ : Options).GivenBy "script" ["--print-result", "script"] :=
    .among (by decide) (by decide) (.swap ..)
  have hread : readFile "script" = .ok "print(true); x" := if_pos rfl
  have hprinted : lines ran.2.output.toList = "true\n" := by decide +kernel
  have htext : (tryCatch (ran.1.map fun _ => "") fun error => .ok error.text).toOption
      = some "runtime error: cannot resolve 'x' as it does not exist" := by decide +kernel
  have hagrees := ((outcome_agrees_with_run hgiven hread 1).2.2 rfl rfl).2
  refine ⟨hgiven, hread, ?_⟩
  cases hran : ran.1 with
  | ok value =>
      rw [hran] at htext
      have hempty : "" = "runtime error: cannot resolve 'x' as it does not exist" :=
        Option.some.inj htext
      exact absurd hempty (by decide)
  | error error =>
      rw [hran] at htext
      rw [hagrees error hran, hprinted, Option.some.inj htext]
      rfl

end Outcomes

end CommandLine

end Scriptlet
