/-
**The command line.**

The command line names a script, or holds one, and says what to do with it: list its tokens, show
its syntax tree, or run it, possibly showing the value of its last statement.  Arguments are read
from left to right.  A request for help or for the version is granted as soon as it is reached; an
argument that cannot be understood ends the reading; what only makes no sense together is found at
the end.  Of several scripts the last one counts.

Main definitions:

* `Scriptlet.CommandLine.Request` — what was asked for;
* `Scriptlet.CommandLine.readArguments` — **from arguments to a request**;
* `Scriptlet.CommandLine.Outcome` — an exit code and the texts that are written;
* `Scriptlet.CommandLine.serve` — what a source yields under some options, by a sequence of steps
  of its own, from the text to the outcome;
* `Scriptlet.CommandLine.outcome` — **from arguments to what they bring about**, given the files.
-/

import Scriptlet.Session
import Scriptlet.Syntax.TreeOutline

set_option relaxedAutoImplicit false
set_option autoImplicit false

namespace Scriptlet.CommandLine

/-! ### Requests -/

/-- Where a script comes from. -/
inductive Source where
  /-- The file at a path. -/
  | file (path : String)
  /-- An argument. -/
  | code (text : String)
deriving DecidableEq, Repr

/-- What is to be done with a script. -/
structure Options where
  /-- List its tokens and stop. -/
  tokens : Bool
  /-- Show its syntax tree and stop. -/
  tree : Bool
  /-- Show the value of its last statement. -/
  result : Bool
deriving DecidableEq, Repr

/-- What the arguments ask for. -/
inductive Request where
  | help
  | version
  | script (source : Source) (options : Options)
deriving DecidableEq, Repr

/-! ### Fixed texts -/

/-- Lines of text. -/
def lines (texts : List String) : String := String.join (texts.map (· ++ "\n"))

/-- The text of the version. -/
def versionText : String := lines ["quill 0.1.0"]

/-- The text of help. -/
def helpText : String :=
  lines
    ["quill 0.1.0",
      "Runs quill scripts",
      "",
      "USAGE:",
      "    quill [OPTIONS] [PATH]",
      "",
      "ARGS:",
      "    <PATH>    Script to run",
      "",
      "OPTIONS:",
      "        --ast             Print the syntax tree and stop",
      "    -e, --eval <EVAL>     Source code to run instead of a file",
      "    -h, --help            Print help information",
      "        --print-result    Print the value of the last statement",
      "        --tokens          Print the tokens and stop",
      "    -V, --version         Print version information"]

/-! ### Reading arguments -/

/-- What was read so far. -/
structure Given where
  /-- The path. -/
  path : Option String
  /-- The script that was last announced as an argument, or nothing where it had to follow and did
  not. -/
  code : Option (Option String)
  /-- How often the tokens were asked for. -/
  tokens : Nat
  /-- How often the syntax tree was asked for. -/
  tree : Nat
  /-- How often the value of the last statement was asked for. -/
  result : Nat

/-- How reading one argument goes on. -/
inductive Step where
  /-- More arguments may follow. -/
  | next (given : Given)
  /-- A script is expected. -/
  | code (given : Given)
  /-- Help or the version is asked for, and nothing else matters. -/
  | now (request : Request)
  /-- The argument cannot be understood. -/
  | refuse

/-- Takes an argument as a path; there is one at most, and it is not empty. -/
def takePath (given : Given) (path : String) : Step :=
  if path.isEmpty || given.path.isSome then .refuse
  else .next { given with path := some path }

/-- Takes a script, in place of any that was announced before. -/
def takeCode (given : Given) (code : Option String) : Given :=
  { given with code := some code }

/-- Takes an option by its long name, with the value that was attached to it if there was one. -/
def takeLong (given : Given) (name : String) (value : Option String) : Step :=
  if name = "eval" then
    match value with
    | some code => .next (takeCode given (some code))
    | none => .code given
  else if value.isSome then .refuse
  else if name = "tokens" then .next { given with tokens := given.tokens + 1 }
  else if name = "ast" then .next { given with tree := given.tree + 1 }
  else if name = "print-result" then .next { given with result := given.result + 1 }
  else if name = "help" then .now .help
  else if name = "version" then .now .version
  else .refuse

/-- Takes the first of some options given by single letters.  Behind the letter of a script stands
the script, possibly behind an equals sign. -/
def takeShort (given : Given) : List Char → Step
  | 'h' :: _ => .now .help
  | 'V' :: _ => .now .version
  | ['e'] => .code given
  | 'e' :: '=' :: code => .next (takeCode given (some (String.ofList code)))
  | 'e' :: code => .next (takeCode given (some (String.ofList code)))
  | _ => .refuse

/-- Takes an argument that is not behind the mark that ends the options. -/
def takeArgument (given : Given) (argument : String) : Step :=
  match argument.toList with
  | '-' :: '-' :: option =>
      let name := String.ofList (option.takeWhile (· ≠ '='))
      match option.dropWhile (· ≠ '=') with
      | [] => takeLong given name none
      | _ :: value => takeLong given name (some (String.ofList value))
  | '-' :: letter :: letters => takeShort given (letter :: letters)
  | _ => takePath given argument

/-- Whether an argument is one that options could be in, and so no script. -/
def looksLikeOption (argument : String) : Bool :=
  match argument.toList with
  | '-' :: _ :: _ => true
  | _ => false

/-- Takes arguments that are paths, whatever they look like. -/
def readPaths (given : Given) : List String → Option Given
  | [] => some given
  | argument :: rest =>
      match takePath given argument with
      | .next given => readPaths given rest
      | _ => none

/-- Reads arguments up to the first that settles everything, or up to the end.  Where a script is
awaited the next argument is the script, unless options could be in it. -/
def readGiven (given : Given) (awaited : Bool) : List String → Option (Request ⊕ Given)
  | [] => some (.inr (if awaited then takeCode given none else given))
  | argument :: rest =>
      if awaited && !looksLikeOption argument then
        readGiven (takeCode given (some argument)) false rest
      else
        let given := if awaited then takeCode given none else given
        if argument = "--" then (readPaths given rest).map .inr
        else
          match takeArgument given argument with
          | .next given => readGiven given false rest
          | .code given => readGiven given true rest
          | .now request => some (.inl request)
          | .refuse => none

/-- What the arguments ask for, if they make sense together: a path or a script but not both, and no
wish twice. -/
def Given.request? (given : Given) : Option Request :=
  if given.tokens > 1 ∨ given.tree > 1 ∨ given.result > 1 then none
  else
    let options : Options := ⟨given.tokens > 0, given.tree > 0, given.result > 0⟩
    match given.path, given.code with
    | some path, none => some (.script (.file path) options)
    | none, some (some code) => some (.script (.code code) options)
    | _, _ => none

/-- **From arguments to a request**; nothing, if they are refused. -/
def readArguments (arguments : List String) : Option Request := do
  match ← readGiven ⟨none, none, 0, 0, 0⟩ false arguments with
  | .inl request => return request
  | .inr given => given.request?

/-! ### Outcomes -/

/-- **What a command brings about.** -/
structure Outcome where
  /-- The exit code. -/
  code : Nat
  /-- What is written to the standard output. -/
  output : String
  /-- What is written to the standard error output. -/
  errors : String
deriving DecidableEq, Repr

/-- The codes that switch a terminal to a colour and back. -/
def colourCode (colour : String) : String := "\x1b[" ++ colour ++ "m"

/-- Text in a colour; wherever the text itself switches back the colour is switched on again. -/
def colourText (coloured : Bool) (colour text : String) : String :=
  if coloured then
    let reset := colourCode "0"
    colourCode colour ++ String.intercalate (reset ++ colourCode colour) (text.splitOn reset) ++
      reset
  else text

/-- The outcome of a command that failed with a message. -/
def Outcome.failed (coloured : Bool) (output message : String) : Outcome :=
  ⟨1, output, colourText coloured "31" message ++ "\n"⟩

/-- The line that shows the value of the last statement. -/
def resultLine (coloured : Bool) (store : Store) (value : Value) : String :=
  (if value.isNull then colourText coloured "36" "null" else value.text store) ++ "\n"

/-- The message about an evaluation that ended without a value. -/
def faultMessage : Fault → String
  | .error error => "runtime error: " ++ error.message
  | .tooDeep => "runtime error: calls are nested too deeply"

/-- **What a source yields under some options.**  Its tokens are listed whatever they are; it has to
be parsed before its tree is shown, and before it is evaluated in a fresh state. -/
def serve (depth : Nat) (coloured : Bool) (options : Options) (source : String) : Outcome :=
  if options.tokens then ⟨0, lines ((scan source).tokens.map Token.listing), ""⟩
  else
    match Program.ofSource source with
    | .error error => .failed coloured "" ("parse error: " ++ error.text)
    | .ok program =>
        if options.tree then ⟨0, program.outline.indented 0 ++ "\n", ""⟩
        else
          let (scope, machine) := Machine.start none
          match (program.eval depth scope).run machine with
          | (.error fault, machine) =>
              .failed coloured (lines machine.output.toList) (faultMessage fault)
          | (.ok value, machine) =>
              let shown := if options.result then resultLine coloured machine.store value else ""
              ⟨0, lines machine.output.toList ++ shown, ""⟩

/-! ### Files -/

/-- Why a file could not be read. -/
inductive ReadError where
  /-- There is no such file. -/
  | missing
  /-- The path leads through something that is not a directory. -/
  | notADirectory
  /-- The path is a directory. -/
  | directory
  /-- The file does not hold text. -/
  | notText
  /-- Anything else. -/
  | other (text : String)
deriving DecidableEq, Repr

/-- The wording of such an error. -/
def ReadError.text : ReadError → String
  | .missing => "No such file or directory (os error 2)"
  | .notADirectory => "Not a directory (os error 20)"
  | .directory => "Is a directory (os error 21)"
  | .notText => "stream did not contain valid UTF-8"
  | .other text => text

/-- The path that has to be read for some arguments. -/
def pathToRead (arguments : List String) : Option String :=
  match readArguments arguments with
  | some (.script (.file path) _) => some path
  | _ => none

/-- **From arguments to what they bring about**, given what is read from each path. -/
def outcome (depth : Nat) (coloured : Bool) (readFile : String → Except ReadError String)
    (arguments : List String) : Outcome :=
  match readArguments arguments with
  | none => ⟨2, "", "error: the arguments make no sense\n\nFor more information try --help\n"⟩
  | some .help => ⟨0, helpText, ""⟩
  | some .version => ⟨0, versionText, ""⟩
  | some (.script (.code text) options) => serve depth coloured options text
  | some (.script (.file path) options) =>
      match readFile path with
      | .ok text => serve depth coloured options text
      | .error error => .failed coloured "" ("cannot read " ++ path ++ ": " ++ error.text)

end Scriptlet.CommandLine
