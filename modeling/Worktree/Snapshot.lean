import Worktree.Store

/-!
# Snapshots

A snapshot records which content each path had: a map from paths to digests.  It never changes;
a commit makes a new one.
-/

namespace Worktree

/-- The recorded digest of each path. -/
structure Snapshot where
  entries : OrderedMap Path Digest
  deriving DecidableEq

namespace Snapshot

variable {σ : Type} [ObjectStore σ]

/-- The snapshot without paths. -/
def empty : Snapshot := ⟨.empty⟩

instance : Inhabited Snapshot := ⟨empty⟩

/-- The snapshot of a list of paths with digests; of a repeated path the last one counts. -/
def ofList (l : List (Path × Digest)) : Snapshot :=
  ⟨.ofList l⟩

/-- The recorded paths with their digests, in path order. -/
def toList (s : Snapshot) : List (Path × Digest) :=
  s.entries.toList

/-- The recorded paths in order. -/
def paths (s : Snapshot) : List Path :=
  s.entries.keys

/-- How many paths are recorded. -/
def size (s : Snapshot) : Nat :=
  s.entries.size

/-- Whether no path is recorded. -/
def isEmpty (s : Snapshot) : Bool :=
  s.entries.isEmpty

/-- The recorded digest of a path. -/
def lookup (s : Snapshot) (p : Path) : Option Digest :=
  s.entries.get? p

/-- Whether a path is recorded. -/
def contains (s : Snapshot) (p : Path) : Bool :=
  s.entries.contains p

/-- Checks that a store answers for every recorded digest, and names the first path for which it
does not. -/
def verify (s : Snapshot) (store : σ) : Except Fault Unit :=
  match s.entries.find? fun _ d => !ObjectStore.contains store d with
  | some (p, d) => .error (.corrupt p d)
  | none => .ok ()

end Snapshot

end Worktree
