import Worktree.CommandLine

/-!
# The program

Runs the walkthrough on an empty repository as the command line says and prints its transcript.
-/

namespace Worktree

/-- The text that answers a request for help. -/
def usage : String :=
  "usage: worktree [--porcelain | --json] [--all] [--path PATH] [--content TEXT]"

/-- What is said when the arguments give no configuration. -/
def CommandLine.Stop.message : CommandLine.Stop → String
  | argumentConflict => "error: arguments cannot be used together, or one is repeated\n" ++ usage
  | invalidValue => "error: a value is missing\n" ++ usage
  | unknownArgument => "error: unexpected argument\n" ++ usage
  | tooManyValues => "error: unexpected value\n" ++ usage
  | help => usage
  | version => "worktree 0.1.0"

/-- Asking for help or for the version is no mistake. -/
def CommandLine.Stop.exitCode : CommandLine.Stop → UInt32
  | help => 0
  | version => 0
  | _ => 2

end Worktree

open Worktree in
/-- The command. -/
def main (args : List String) : IO UInt32 := do
  match CommandLine.parse args with
  | .error stop =>
    if stop.exitCode = 0 then IO.println stop.message else IO.eprintln stop.message
    return stop.exitCode
  | .ok config =>
    let outcome := Walkthrough.runFresh config
    IO.print outcome.output
    match outcome.result with
    | .ok _ => return 0
    | .error failure =>
      IO.eprintln ("error: " ++ failure.message)
      return 1
