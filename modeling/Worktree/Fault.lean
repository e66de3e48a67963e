import Worktree.Digest
import Worktree.Path
import Worktree.Text.Utf8

/-!
# Faults

What can go wrong between a working tree, its snapshots and its store.
-/

namespace Worktree

/-- Why an operation on a tree, a snapshot or a store fails. -/
inductive Fault where
  /-- There is no file of this name. -/
  | notFound (path : Path)
  /-- The store has no object of this name. -/
  | objectNotFound (digest : Digest)
  /-- The file's content is no text. -/
  | invalidEncoding (path : Path) (reason : Text.Malformed)
  /-- The path refers to an object that the store does not give out. -/
  | corrupt (path : Path) (digest : Digest)
  deriving DecidableEq

/-- What a caller tells faults apart by. -/
inductive FaultKind where
  | notFound
  | invalidEncoding
  | corruptState
  deriving DecidableEq

namespace Fault

/-- The kind of a fault. -/
def kind : Fault → FaultKind
  | notFound _ => .notFound
  | objectNotFound _ => .notFound
  | invalidEncoding _ _ => .invalidEncoding
  | corrupt _ _ => .corruptState

/-- Whether something asked for is not there. -/
def isNotFound (f : Fault) : Bool :=
  f.kind = .notFound

/-- The wording of a fault. -/
def message : Fault → String
  | notFound path => "not found: " ++ path.text
  | objectNotFound digest => "object not found: " ++ digest.hex
  | invalidEncoding path reason => "invalid UTF-8 in " ++ path.text ++ ": " ++ reason.message
  | corrupt path digest =>
    "corrupt state: " ++ path.text ++ " references missing object " ++ digest.hex

/-- The fault behind a fault, where there is one. -/
def cause? : Fault → Option String
  | invalidEncoding _ reason => some reason.message
  | _ => none

end Fault

end Worktree
