import Worktree.Digest.Json
import Worktree.Snapshot

/-!
# Snapshots as JSON

A snapshot is written as an object from paths to digests, in path order.  Read, the keys may be any
spellings of paths: all values must be digests, and of several keys that mean the same path the
greatest spelling counts, in its last occurrence.
-/

namespace Worktree.Snapshot

/-- The snapshot as a JSON value. -/
def toNode (s : Snapshot) : Json.Node :=
  .object (s.toList.map fun b => (.text b.1.text, b.2.toNode)) true

/-- The snapshot of a list of spellings with digests: the spellings are taken in ascending order,
equal ones in the order of the list, and of those that mean the same path the last one counts. -/
def ofSpellings (l : List (String × Digest)) : Snapshot :=
  .ofList ((l.mergeSort fun a b => Text.precedes a.1 b.1).map fun b => (.ofString b.1, b.2))

/-- Reads a key with its digest. -/
def readMember (m : Json.Literal × Json.Node) : Except Json.ReadError (String × Digest) := do
  let key ← m.1.asText
  let d ← Digest.ofNode m.2
  return (key, d)

/-- Reads a snapshot from a JSON value. -/
def ofNode : Json.Node → Except Json.ReadError Snapshot
  | .object members closed => do
    let entries ← members.mapM readMember
    Json.expectEnd closed
    return ofSpellings entries
  | n => .error (n.unfit "a map")

/-- The snapshot as JSON text. -/
def json (s : Snapshot) : String :=
  s.toNode.render

/-- Reads a snapshot from JSON text. -/
def ofJson (t : String) : Except Json.ReadError Snapshot :=
  Json.Document.read ofNode t

end Worktree.Snapshot
