import Worktree.Report.Json
import Worktree.Repository

/-!
# The walkthrough

A fixed sequence that uses a repository from end to end and writes down what it sees: is there a
file of the configured name; if not, write it; read it back; report.

* `Walkthrough.run` does it on any repository, `Walkthrough.runFresh` on an empty one.
* When reading or reporting fails, the transcript ends just before the part that failed.
-/

namespace Worktree

/-- The forms in which a report is written. -/
inductive Format where
  | human
  | porcelain
  | json
  deriving DecidableEq

/-- The report in a form.  JSON text gets a line end. -/
def Report.render (format : Format) (r : Report) : String :=
  match format with
  | .human => r.human
  | .porcelain => r.porcelain
  | .json => r.json ++ "\n"

namespace Walkthrough

/-- What to write, where, and how to report it. -/
structure Config where
  path : String := "test.txt"
  content : String := "Hello WASM!"
  format : Format := .human
  options : ReportOptions := {}
  deriving DecidableEq

/-- The part that failed, and why. -/
inductive Failure where
  /-- Reading the file, whose name is given as it was configured. -/
  | reading (path : String) (fault : Fault)
  /-- Making the report. -/
  | reporting (fault : Fault)
  deriving DecidableEq

namespace Failure

/-- What was being done. -/
def context : Failure → String
  | reading path _ => "reading " ++ path
  | reporting _ => "computing status"

/-- What went wrong. -/
def fault : Failure → Fault
  | reading _ f => f
  | reporting f => f

/-- The messages of a failure, from what was being done down to the cause. -/
def chain (f : Failure) : List String :=
  f.context :: f.fault.message :: f.fault.cause?.toList

/-- The messages of a failure in one line. -/
def message (f : Failure) : String :=
  String.intercalate ": " f.chain

end Failure

/-- What a walkthrough leaves. -/
structure Outcome where
  /-- Everything written. -/
  output : String
  result : Except Failure Report
  repository : Repository

/-- What is written before the file is read. -/
def opening (live : Bool) : String :=
  "Checking if file exists...\n"
    ++ "Exists: " ++ (if live then "true" else "false") ++ "\n"
    ++ (if live then "" else "Writing file...\n")
    ++ "Reading file...\n"

/-- What is written between reading the file and reporting. -/
def middle (text : String) : String :=
  "Content: " ++ text ++ "\n" ++ "Status:\n"

/-- The repository with the configured file in it: as it is if the file is there. -/
def prepare (config : Config) (r : Repository) : Repository :=
  if r.isLive (.ofString config.path) then r
  else r.write (.ofString config.path) config.content.toUTF8

/-- Walks through a repository. -/
def run {σ : Type} [ObjectStore σ] (config : Config) (store : σ) (r : Repository) : Outcome :=
  let path := Path.ofString config.path
  let repository := prepare config r
  match repository.readText store path with
  | .error fault =>
    { output := opening (r.isLive path)
      result := .error (.reading config.path fault)
      repository }
  | .ok text =>
    match repository.report store with
    | .error fault =>
      { output := opening (r.isLive path) ++ middle text
        result := .error (.reporting fault)
        repository }
    | .ok report =>
      { output := opening (r.isLive path) ++ middle text ++ report.render config.format
        result := .ok report
        repository }

/-- Walks through an empty repository over an empty store, with the configured report options. -/
def runFresh (config : Config) : Outcome :=
  run config Store.empty (Repository.empty.withOptions config.options)

end Walkthrough

end Worktree
