import Worktree.Walkthrough

/-!
# The command line

The arguments of the walkthrough: `--porcelain` or `--json` choose the form of the report, `--all`
lists unmodified files too, `--path` and `--content` say what to write.  Arguments are taken from
left to right and the first mistake decides, with one exception: an option whose value stands apart
is settled only when the next known argument, or the end, is reached, so an unknown argument right
after it is the mistake that counts.

* `Argument.ofString` says what an argument is by its spelling.
* `CommandLine.parse` turns arguments into a configuration.
-/

namespace Worktree.CommandLine

/-- An argument that is there or not. -/
inductive Switch where
  | porcelain
  | json
  | all
  deriving DecidableEq

/-- An option with a value. -/
inductive Setting where
  | path
  | content
  deriving DecidableEq

/-- Why arguments give no configuration. -/
inductive Stop where
  /-- Arguments that exclude each other, or the same one twice. -/
  | argumentConflict
  /-- A value is missing. -/
  | invalidValue
  /-- No such argument. -/
  | unknownArgument
  /-- A value where none belongs. -/
  | tooManyValues
  /-- Help was asked for. -/
  | help
  /-- The version was asked for. -/
  | version
  deriving DecidableEq

/-- What an argument is by its spelling. -/
inductive Argument where
  | switch (s : Switch)
  | setting (s : Setting) (value : Option String)
  | help
  | version
  /-- A known argument without a value, spelled with one. -/
  | needlessValue
  /-- The end of all options. -/
  | separator
  /-- Spelled like an option, but none that is known. -/
  | unknown
  /-- Anything else: a value, or something out of place. -/
  | word (w : String)
  deriving DecidableEq

namespace Argument

/-- An argument without a value, if it is spelled without one. -/
def plain (a : Argument) (value : Option String) : Argument :=
  if value.isSome then needlessValue else a

/-- An argument that begins with two dashes. -/
def ofLong (name : List Char) (value : Option String) : Argument :=
  if name = "porcelain".toList then plain (switch .porcelain) value
  else if name = "json".toList then plain (switch .json) value
  else if name = "all".toList then plain (switch .all) value
  else if name = "path".toList then setting .path value
  else if name = "content".toList then setting .content value
  else if name = "help".toList then plain help value
  else if name = "version".toList then plain version value
  else unknown

/-- What stands after the first equals sign, if there is one. -/
def attached? (cs : List Char) : Option String :=
  match cs.dropWhile (· != '=') with
  | [] => none
  | _ :: value => some (String.ofList value)

/-- What an argument is. -/
def ofString (a : String) : Argument :=
  match a.toList with
  | ['-', '-'] => separator
  | '-' :: '-' :: long => ofLong (long.takeWhile (· != '=')) (attached? long)
  | ['-'] => word a
  | '-' :: 'h' :: _ => help
  | '-' :: 'V' :: _ => version
  | '-' :: _ => unknown
  | _ => word a

end Argument

/-- The arguments taken so far. -/
structure Progress where
  porcelain : Bool := false
  json : Bool := false
  all : Bool := false
  path : Option String := none
  content : Option String := none
  /-- An option whose value stands apart, and the value if it has come. -/
  pending : Option (Setting × Option String) := none
  /-- Whether the end of all options has come. -/
  ended : Bool := false
  deriving DecidableEq

namespace Progress

/-- Turns a switch on, which can be done once. -/
def turnOn (p : Progress) : Switch → Except Stop Progress
  | .porcelain => if p.porcelain then .error .argumentConflict else .ok { p with porcelain := true }
  | .json => if p.json then .error .argumentConflict else .ok { p with json := true }
  | .all => if p.all then .error .argumentConflict else .ok { p with all := true }

/-- Gives an option its value, which can be done once. -/
def assign (p : Progress) (value : String) : Setting → Except Stop Progress
  | .path => if p.path.isSome then .error .argumentConflict else .ok { p with path := some value }
  | .content =>
    if p.content.isSome then .error .argumentConflict else .ok { p with content := some value }

/-- Settles the option whose value stands apart. -/
def settle (p : Progress) : Except Stop Progress :=
  match p.pending with
  | none => .ok p
  | some (_, none) => .error .invalidValue
  | some (s, some value) => { p with pending := none }.assign value s

/-- Takes a word: the value that an option waits for. -/
def takeWord (p : Progress) (w : String) : Except Stop Progress :=
  match p.pending with
  | some (s, none) => .ok { p with pending := some (s, some w) }
  | _ => .error .unknownArgument

/-- Takes one argument. -/
def take (p : Progress) (a : String) : Except Stop Progress :=
  if p.ended then .error .unknownArgument
  else
    match Argument.ofString a with
    | .switch s => do
      let p ← p.settle
      p.turnOn s
    | .setting s (some value) => do
      let p ← p.settle
      p.assign value s
    | .setting s none => do
      let p ← p.settle
      return { p with pending := some (s, none) }
    | .help => do
      let _ ← p.settle
      throw .help
    | .version => do
      let _ ← p.settle
      throw .version
    | .needlessValue => .error .tooManyValues
    | .separator => .ok { p with ended := true }
    | .unknown => .error .unknownArgument
    | .word w => p.takeWord w

/-- The configuration when all arguments are taken. -/
def finish (p : Progress) : Except Stop Walkthrough.Config := do
  let p ← p.settle
  if p.porcelain && p.json then throw .argumentConflict
  let standard : Walkthrough.Config := {}
  return {
    path := p.path.getD standard.path
    content := p.content.getD standard.content
    format := if p.porcelain then .porcelain else if p.json then .json else .human
    options := if p.all then .full else {} }

end Progress

/-- The configuration that arguments ask for. -/
def parse (args : List String) : Except Stop Walkthrough.Config := do
  let p ← args.foldlM Progress.take {}
  p.finish

end Worktree.CommandLine
