import Worktree.Json.Node
import Worktree.Text.Decimal
import Worktree.Text.Quoted

/-!
# Reading values

A reader takes a value apart from the left and stops at the first thing that is wrong.  Two things
can be wrong: the text is no JSON there (`ReadError.malformed`), or it is, and the value is not what
is wanted (`ReadError.unfit`).

* `Document.read` runs a reader on a whole text, which nothing may follow.
* `Node.asText`, `Node.asBool` and `Node.unfit` are what readers are made of.
-/

namespace Worktree.Json

/-- A name or a number between the marks that messages put around it. -/
def backquoted (name : String) : String := "`" ++ name ++ "`"

/-- What stands where something else is wanted. -/
inductive Found where
  | null
  | bool (b : Bool)
  | number (v : Number.Value)
  | text (t : String)
  | sequence
  | map
  deriving DecidableEq

/-- The wording of what is found. -/
def Found.message : Found → String
  | null => "null"
  | bool b => "boolean " ++ backquoted (if b then "true" else "false")
  | number (.integer i) => "integer " ++ backquoted (toString i)
  | number (.float negative x) =>
    "floating point " ++ backquoted (Text.decimal negative x.shortest)
  | text t => "string " ++ Text.quote '"' t
  | sequence => "sequence"
  | map => "map"

/-- Why a value is not what is wanted. -/
inductive Misfit where
  /-- It is of another kind. -/
  | kind (found : Found) (wanted : String)
  /-- A field is not there. -/
  | missingField (name : String)
  /-- A field is there twice. -/
  | duplicateField (name : String)
  /-- A name is none of those that are known. -/
  | unknownName (name : String) (known : List String)
  /-- A sequence ends too early. -/
  | tooShort (length : Nat) (wanted : String)
  /-- A text does not spell what it should. -/
  | spelling (reason : String)
  deriving DecidableEq

/-- The wording of a misfit. -/
def Misfit.message : Misfit → String
  | kind found wanted => "invalid type: " ++ found.message ++ ", expected " ++ wanted
  | missingField name => "missing field " ++ backquoted name
  | duplicateField name => "duplicate field " ++ backquoted name
  | unknownName name known =>
    "unknown variant " ++ backquoted name ++ ", expected one of "
      ++ String.intercalate ", " (known.map backquoted)
  | tooShort length wanted => "invalid length " ++ toString length ++ ", expected " ++ wanted
  | spelling reason => reason

/-- Why a text cannot be read. -/
inductive ReadError where
  /-- It is no JSON. -/
  | malformed
  /-- It holds another value than is wanted. -/
  | unfit (misfit : Misfit)
  deriving DecidableEq

/-- The text of a literal, which must have one. -/
def Literal.asText : Literal → Except ReadError String
  | text t => .ok t
  | unpaired => .error .malformed

namespace Node

/-- The error of meeting this value where something else is wanted. -/
def unfit (n : Node) (wanted : String) : ReadError :=
  match n with
  | null => .unfit (.kind .null wanted)
  | bool b => .unfit (.kind (.bool b) wanted)
  | number n => n.value?.elim .malformed fun v => .unfit (.kind (.number v) wanted)
  | literal (.text t) => .unfit (.kind (.text t) wanted)
  | literal .unpaired => .malformed
  | array _ _ => .unfit (.kind .sequence wanted)
  | object _ _ => .unfit (.kind .map wanted)
  | broken => .malformed

/-- A value that must be a text. -/
def asText : Node → Except ReadError String
  | literal l => l.asText
  | n => .error (n.unfit "a string")

/-- A value that must be a truth value. -/
def asBool : Node → Except ReadError Bool
  | bool b => .ok b
  | n => .error (n.unfit "a boolean")

/-- A value that must be null. -/
def asNull : Node → Except ReadError Unit
  | null => .ok ()
  | n => .error (n.unfit "unit")

/-- A value that may be anything but must be whole. -/
def skip (n : Node) : Except ReadError Unit :=
  if n.isComplete then .ok () else .error .malformed

end Node

/-- The end of an array or object must be there. -/
def expectEnd (closed : Bool) : Except ReadError Unit :=
  if closed then .ok () else .error .malformed

/-- Reads a whole text. -/
def Document.read {α : Type} (reader : Node → Except ReadError α) (t : String) :
    Except ReadError α := do
  let doc := Document.ofText t
  let value ← reader doc.root
  if doc.trailing then .error .malformed else return value

end Worktree.Json
