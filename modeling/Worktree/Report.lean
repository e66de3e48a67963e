import Worktree.Text.Order

/-!
# Reports

A report lists how files stand against a snapshot, a line for each path, in path order.  Lines
with the same path keep the order in which they were given.

* `Report.ofLines` sorts lines into a report.
* `Report.get?` looks a path up; `Line.search` halves the lines until one is left.
* `Report.human` and `Report.porcelain` are its two text forms: the first lists every line, or says
  that all is clean; the second has a code of two characters for every line that is not unmodified.
-/

namespace Worktree

/-- How a file stands against a snapshot. -/
inductive Status where
  | untracked
  | added
  | modified
  | deleted
  | unmodified
  deriving DecidableEq

namespace Status

/-- The name of a status. -/
def label : Status → String
  | untracked => "untracked"
  | added => "added"
  | modified => "modified"
  | deleted => "deleted"
  | unmodified => "unmodified"

/-- All statuses, in the order in which messages list them. -/
def all : List Status := [untracked, added, modified, deleted, unmodified]

/-- The status with a given name. -/
def ofLabel? (name : String) : Option Status :=
  all.find? fun s => s.label == name

/-- The two characters that stand for a status; an unmodified file is not listed. -/
def code? : Status → Option String
  | untracked => some "??"
  | added => some "A "
  | modified => some " M"
  | deleted => some " D"
  | unmodified => none

end Status

/-- What a report lists. -/
structure ReportOptions where
  /-- Whether unmodified files are listed too. -/
  includeUnmodified : Bool := false
  deriving DecidableEq

namespace ReportOptions

/-- List everything. -/
def full : ReportOptions := ⟨true⟩

/-- Whether lines of a status are listed. -/
def admits (o : ReportOptions) (s : Status) : Bool :=
  o.includeUnmodified || s != .unmodified

end ReportOptions

/-- One line of a report. -/
structure Line where
  path : String
  status : Status
  deriving DecidableEq

namespace Line

/-- Whether a line stands no later in a report than another. -/
def precedes (a b : Line) : Bool :=
  Text.precedes a.path b.path

/-- The line as a reader sees it. -/
def human (l : Line) : String :=
  l.status.label ++ " " ++ l.path ++ "\n"

/-- The line with its code, if it has one. -/
def porcelain (l : Line) : String :=
  match l.status.code? with
  | some code => code ++ " " ++ l.path ++ "\n"
  | none => ""

/-- A line with a path, searched in lines in path order.  As long as there are several lines, the
middle one decides: half of them are left out at the end if it comes after the path, and at the
beginning if not. -/
def search (path : String) (lines : List Line) : Option Line :=
  if h : 1 < lines.length then
    have hmiddle : lines.length / 2 < lines.length := Nat.div_lt_self (by omega) (by decide)
    if Text.compare lines[lines.length / 2].path path = .gt then
      search path (lines.take (lines.length - lines.length / 2))
    else
      search path (lines.drop (lines.length / 2))
  else
    lines.head?.filter fun l => Text.compare l.path path = .eq
termination_by lines.length
decreasing_by
  · rw [List.length_take]
    omega
  · rw [List.length_drop]
    omega

end Line

/-- Lines in path order. -/
structure Report where
  lines : List Line
  ascending : lines.Pairwise fun a b => a.precedes b = true
  deriving DecidableEq

/-- How many lines have each status. -/
structure Summary where
  untracked : Nat
  added : Nat
  modified : Nat
  deleted : Nat
  unmodified : Nat
  deriving DecidableEq

namespace Report

/-- The report of some lines. -/
def ofLines (lines : List Line) : Report where
  lines := lines.mergeSort Line.precedes
  ascending :=
    List.pairwise_mergeSort (fun a b c => Text.precedes_trans a.path b.path c.path)
      (fun a b => Text.precedes_total a.path b.path) lines

instance : Inhabited Report := ⟨ofLines []⟩

/-- How many lines there are. -/
def size (r : Report) : Nat :=
  r.lines.length

/-- Whether there is no line. -/
def isEmpty (r : Report) : Bool :=
  r.lines.isEmpty

/-- Whether there is nothing to commit. -/
def isClean (r : Report) : Bool :=
  r.lines.all fun l => l.status == .unmodified

/-- The status of a path. -/
def get? (r : Report) (path : String) : Option Status :=
  (Line.search path r.lines).map (·.status)

/-- How many lines have a status. -/
def count (r : Report) (s : Status) : Nat :=
  r.lines.countP fun l => l.status == s

/-- How many lines have each status. -/
def summary (r : Report) : Summary where
  untracked := r.count .untracked
  added := r.count .added
  modified := r.count .modified
  deleted := r.count .deleted
  unmodified := r.count .unmodified

/-- What a clean report says. -/
def cleanText : String := "nothing to commit, working tree clean\n"

/-- The report for a reader. -/
def human (r : Report) : String :=
  if r.isClean then cleanText else String.join (r.lines.map Line.human)

/-- The report for a program. -/
def porcelain (r : Report) : String :=
  String.join (r.lines.map Line.porcelain)

end Report

end Worktree
