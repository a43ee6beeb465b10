/-
**The program.**

Reads the script that the arguments name, if they name one, and writes what
`Scriptlet.CommandLine.outcome` says.
-/

import Scriptlet.CommandLine

set_option relaxedAutoImplicit false
set_option autoImplicit false

open Scriptlet CommandLine

/-- Reads a file as text. -/
def readScript (path : String) : IO (Except ReadError String) := do
  try
    let bytes ← IO.FS.readBinFile path
    match String.fromUTF8? bytes with
    | some text => return .ok text
    | none => return .error .notText
  catch error =>
    match error with
    | .noFileOrDirectory .. => return .error .missing
    | .inappropriateType _ 21 _ => return .error .directory
    | .inappropriateType .. => return .error .notADirectory
    | error => return .error (.other (toString error))

/-- Whether output is to be coloured: if that is forced, or else if it is not refused and the output
is a terminal. -/
def wantsColour : IO Bool := do
  if ((← IO.getEnv "CLICOLOR_FORCE").getD "0") ≠ "0" then return true
  if (← IO.getEnv "NO_COLOR").isSome then return false
  if (← IO.getEnv "CLICOLOR") = some "0" then return false
  (← IO.getStdout).isTty

/-- Runs the command line. -/
def main (arguments : List String) : IO UInt32 := do
  let script ← match pathToRead arguments with
    | some path => readScript path
    | none => pure (.error .missing)
  let result := outcome defaultDepth (← wantsColour) (fun _ => script) arguments
  IO.print result.output
  IO.eprint result.errors
  return result.code.toUInt32
