import Worktree.Digest.Hex
import Worktree.Json.Reading

/-!
# Digests as JSON

A digest is written as the text of its hexadecimal digits.
-/

namespace Worktree.Digest

/-- The digest as a JSON value. -/
def toNode (d : Digest) : Json.Node :=
  .text d.hex

/-- Reads a digest from a JSON value. -/
def ofNode (n : Json.Node) : Except Json.ReadError Digest := do
  let t ← n.asText
  match ofHex t with
  | .ok d => return d
  | .error e => throw (.unfit (.spelling e.message))

/-- The digest as JSON text. -/
def json (d : Digest) : String :=
  d.toNode.render

/-- Reads a digest from JSON text. -/
def ofJson (t : String) : Except Json.ReadError Digest :=
  Json.Document.read ofNode t

end Worktree.Digest
