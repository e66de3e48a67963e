/-!
# Reading bytes as UTF-8

`decode` reads a content as text.  When the content is no well-formed UTF-8 it says where: the
fault names the number of bytes before the first character that fails, and how many bytes to skip
there, unless the content ends while that character could still be completed.

The bytes that may follow a lead byte are given by ranges, which is where overlong forms, surrogates
and values above U+10FFFF are ruled out.
-/

namespace Worktree.Text

/-- Where a content stops being well-formed UTF-8. -/
structure Malformed where
  /-- The number of bytes that form whole characters. -/
  validUpTo : Nat
  /-- How many bytes to skip, or nothing when the content ends inside a character. -/
  errorLength : Option Nat
  deriving DecidableEq

/-- The wording of the fault. -/
def Malformed.message (m : Malformed) : String :=
  match m.errorLength with
  | some n =>
    "invalid utf-8 sequence of " ++ toString n ++ " bytes from index " ++ toString m.validUpTo
  | none => "incomplete utf-8 byte sequence from index " ++ toString m.validUpTo

/-- A range of byte values, both ends included. -/
structure ByteRange where
  low : UInt8
  high : UInt8

/-- Whether a byte lies in a range. -/
def ByteRange.contains (r : ByteRange) (b : UInt8) : Bool :=
  r.low ≤ b && b ≤ r.high

/-- The bytes that continue a character. -/
def continuation : ByteRange := ⟨0x80, 0xbf⟩

/-- The ranges of the bytes that must follow a lead byte; nothing if no character begins so. -/
def tailRanges (lead : UInt8) : Option (List ByteRange) :=
  if lead ≤ 0x7f then some []
  else if lead ≤ 0xc1 then none
  else if lead ≤ 0xdf then some [continuation]
  else if lead = 0xe0 then some [⟨0xa0, 0xbf⟩, continuation]
  else if lead = 0xed then some [⟨0x80, 0x9f⟩, continuation]
  else if lead ≤ 0xef then some [continuation, continuation]
  else if lead = 0xf0 then some [⟨0x90, 0xbf⟩, continuation, continuation]
  else if lead ≤ 0xf3 then some [continuation, continuation, continuation]
  else if lead = 0xf4 then some [⟨0x80, 0x8f⟩, continuation, continuation]
  else none

/-- What stands at the beginning of some bytes. -/
inductive Scan where
  /-- A whole character of this many bytes. -/
  | whole (length : Nat)
  /-- No character; `skip` bytes cannot belong to one, or the bytes end too early. -/
  | broken (skip : Option Nat)
  deriving DecidableEq

/-- Follows the tail of a character of which `seen` bytes have been read. -/
def scanTail (seen : Nat) : List ByteRange → List UInt8 → Scan
  | [], _ => .whole seen
  | _ :: _, [] => .broken none
  | r :: ranges, b :: rest =>
    if r.contains b then scanTail (seen + 1) ranges rest else .broken (some seen)

/-- Looks at the character that begins with a lead byte. -/
def scan (lead : UInt8) (rest : List UInt8) : Scan :=
  match tailRanges lead with
  | none => .broken (some 1)
  | some ranges => scanTail 1 ranges rest

/-- Finds the fault in bytes that stand at an index, `owed` bytes into which belong to the character
before. -/
def locate (owed index : Nat) : List UInt8 → Malformed
  | [] => ⟨index, none⟩
  | lead :: rest =>
    match owed with
    | n + 1 => locate n (index + 1) rest
    | 0 =>
      match scan lead rest with
      | .whole length => locate (length - 1) (index + 1) rest
      | .broken skip => ⟨index, skip⟩

/-- Reads a content as text. -/
def decode (content : ByteArray) : Except Malformed String :=
  match String.fromUTF8? content with
  | some t => .ok t
  | none => .error (locate 0 0 content.data.toList)

end Worktree.Text
