import Worktree.Json.Reading
import Worktree.Report

/-!
# Reports as JSON

A report is written as an array of its lines, a line as an object of its path and its status.  Read,
a line may also be an array of the two, the fields of an object may come in any order and among
others, and the lines in any order.  Report options are read the same way, except that a field that
is not there is off.
-/

namespace Worktree

open Json

namespace Status

/-- The status as a JSON value. -/
def toNode (s : Status) : Node :=
  .text s.label

/-- The status that has a name. -/
def ofName (name : String) : Except ReadError Status :=
  match ofLabel? name with
  | some s => .ok s
  | none => .error (.unfit (.unknownName name (all.map label)))

/-- Reads a status from a JSON value: its name, or an object that gives null under its name. -/
def ofNode : Node → Except ReadError Status
  | .literal l => do
    let name ← l.asText
    ofName name
  | .object ((key, value) :: rest) closed => do
    let name ← key.asText
    let s ← ofName name
    value.asNull
    expectEnd (closed && rest.isEmpty)
    return s
  | _ => .error .malformed

/-- The status as JSON text. -/
def json (s : Status) : String :=
  s.toNode.render

/-- Reads a status from JSON text. -/
def ofJson (t : String) : Except ReadError Status :=
  Document.read ofNode t

end Status

namespace Line

/-- The line as a JSON value. -/
def toNode (l : Line) : Node :=
  .object [(.text "path", .text l.path), (.text "classification", l.status.toNode)] true

/-- The fields of a line that have been met so far. -/
structure Fields where
  path : Option String := none
  status : Option Status := none

/-- Takes one member of an object that stands for a line. -/
def Fields.take (f : Fields) (m : Literal × Node) : Except ReadError Fields := do
  let name ← m.1.asText
  if name = "path" then
    if f.path.isSome then throw (.unfit (.duplicateField name))
    let path ← m.2.asText
    return { f with path := some path }
  else if name = "classification" then
    if f.status.isSome then throw (.unfit (.duplicateField name))
    let status ← Status.ofNode m.2
    return { f with status := some status }
  else
    m.2.skip
    return f

/-- The line that the fields make; the path is looked for first. -/
def Fields.line (f : Fields) : Except ReadError Line :=
  match f.path, f.status with
  | some path, some status => .ok { path, status }
  | none, _ => .error (.unfit (.missingField "path"))
  | some _, none => .error (.unfit (.missingField "classification"))

/-- The error of an array that ends after so few values, or of a text that ends there. -/
def tooShort (length : Nat) (closed : Bool) : ReadError :=
  if closed then .unfit (.tooShort length "struct StatusEntry with 2 elements") else .malformed

/-- Reads a line from a JSON value. -/
def ofNode : Node → Except ReadError Line
  | .array [] closed => .error (tooShort 0 closed)
  | .array [path] closed => do
    let _ ← path.asText
    throw (tooShort 1 closed)
  | .array (path :: status :: rest) closed => do
    let path ← path.asText
    let status ← Status.ofNode status
    expectEnd (closed && rest.isEmpty)
    return { path, status }
  | .object members closed => do
    let fields ← members.foldlM Fields.take {}
    expectEnd closed
    fields.line
  | n => .error (n.unfit "struct StatusEntry")

end Line

namespace Report

/-- The report as a JSON value. -/
def toNode (r : Report) : Node :=
  .array (r.lines.map Line.toNode) true

/-- Reads a report from a JSON value. -/
def ofNode : Node → Except ReadError Report
  | .array items closed => do
    let lines ← items.mapM Line.ofNode
    expectEnd closed
    return ofLines lines
  | n => .error (n.unfit "a sequence")

/-- The report as JSON text. -/
def json (r : Report) : String :=
  r.toNode.render

/-- Reads a report from JSON text. -/
def ofJson (t : String) : Except ReadError Report :=
  Document.read ofNode t

end Report

namespace ReportOptions

/-- Takes one member of an object that stands for report options; the field may have been met
before. -/
def takeMember (seen : Option Bool) (m : Literal × Node) : Except ReadError (Option Bool) := do
  let name ← m.1.asText
  if name = "include_unmodified" then
    if seen.isSome then throw (.unfit (.duplicateField name))
    let b ← m.2.asBool
    return some b
  else
    m.2.skip
    return seen

/-- Reads report options from a JSON value. -/
def ofNode : Node → Except ReadError ReportOptions
  | .array [] closed => do
    expectEnd closed
    return {}
  | .array (value :: rest) closed => do
    let b ← value.asBool
    expectEnd (closed && rest.isEmpty)
    return ⟨b⟩
  | .object members closed => do
    let seen ← members.foldlM takeMember none
    expectEnd closed
    return ⟨seen.getD false⟩
  | n => .error (n.unfit "struct StatusOptions")

/-- Reads report options from JSON text. -/
def ofJson (t : String) : Except ReadError ReportOptions :=
  Document.read ofNode t

end ReportOptions

end Worktree
