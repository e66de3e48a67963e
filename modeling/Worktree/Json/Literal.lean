import Worktree.Text.Hex

/-!
# String literals

A string literal of JSON is a text between quotation marks.  Written, it escapes the quotation mark,
the backslash and the controls, and leaves every other character as it is.  Read, it may use any
escape of the format, also by UTF-16 code unit.

* `Literal.encode` writes the body of a literal and `Literal.decode?` reads one.
* A body whose escapes name half of a surrogate pair is a literal too, but it spells no text.
-/

namespace Worktree.Json

/-- What a string literal spells. -/
inductive Literal where
  /-- A text. -/
  | text (t : String)
  /-- No text: an escape names half of a surrogate pair and the other half is missing. -/
  | unpaired
  deriving DecidableEq

namespace Literal

/-! ## Writing -/

/-- A character inside a literal. -/
def escape (c : Char) : List Char :=
  if c = '"' then ['\\', '"']
  else if c = '\\' then ['\\', '\\']
  else if c = '\x08' then ['\\', 'b']
  else if c = '\x0c' then ['\\', 'f']
  else if c = '\n' then ['\\', 'n']
  else if c = '\r' then ['\\', 'r']
  else if c = '\t' then ['\\', 't']
  else if c.toNat < 0x20 then ['\\', 'u', '0', '0'] ++ Text.hexPair (UInt8.ofNat c.toNat)
  else [c]

/-- The body of a literal that spells a text. -/
def encode (t : String) : List Char :=
  t.toList.flatMap escape

/-! ## Reading -/

/-- A piece of a literal's body. -/
inductive Piece where
  | char (c : Char)
  /-- An escape by UTF-16 code unit. -/
  | unit (n : Nat)
  deriving DecidableEq

/-- The number that four hexadecimal digits spell. -/
def hexUnit? (a b c d : Char) : Option Nat := do
  let a ← Text.hexValue? a.toNat
  let b ← Text.hexValue? b.toNat
  let c ← Text.hexValue? c.toNat
  let d ← Text.hexValue? d.toNat
  return ((a * 16 + b) * 16 + c) * 16 + d

/-- The character that a short escape stands for. -/
def shortEscape? : Char → Option Char
  | '"' => some '"'
  | '\\' => some '\\'
  | '/' => some '/'
  | 'b' => some '\x08'
  | 'f' => some '\x0c'
  | 'n' => some '\n'
  | 'r' => some '\r'
  | 't' => some '\t'
  | _ => none

/-- Takes the body of a literal apart; nothing if it has a bare control or no such escape exists. -/
def pieces? : List Char → Option (List Piece)
  | [] => some []
  | '\\' :: 'u' :: a :: b :: c :: d :: rest => do
    let n ← hexUnit? a b c d
    let later ← pieces? rest
    return .unit n :: later
  | '\\' :: e :: rest => do
    let c ← shortEscape? e
    let later ← pieces? rest
    return .char c :: later
  | c :: rest =>
    if c.toNat < 0x20 ∨ c = '\\' then none
    else (pieces? rest).map (.char c :: ·)

/-- A code unit that begins a pair. -/
def isHigh (n : Nat) : Bool := 0xd800 ≤ n && n < 0xdc00

/-- A code unit that ends a pair. -/
def isLow (n : Nat) : Bool := 0xdc00 ≤ n && n < 0xe000

/-- Joins the code units of pieces to characters; nothing if half of a pair is missing. -/
def join? : List Piece → Option (List Char)
  | [] => some []
  | .char c :: rest => (join? rest).map (c :: ·)
  | .unit h :: .unit l :: rest =>
    if isHigh h then
      if isLow l then
        (join? rest).map (Char.ofNat (0x10000 + (h - 0xd800) * 0x400 + (l - 0xdc00)) :: ·)
      else none
    else if isLow h then none
    else (join? (.unit l :: rest)).map (Char.ofNat h :: ·)
  | .unit n :: rest =>
    if isHigh n || isLow n then none else (join? rest).map (Char.ofNat n :: ·)

/-- Reads the body of a literal. -/
def decode? (body : List Char) : Option Literal := do
  let pieces ← pieces? body
  match join? pieces with
  | some cs => return .text (String.ofList cs)
  | none => return .unpaired

/-! ## Whole literals -/

/-- A literal as it is written, with its marks. -/
def spell : Literal → List Char
  | text t => '"' :: (encode t ++ ['"'])
  | unpaired => '"' :: (['\\', 'u', 'd', '8', '0', '0'] ++ ['"'])

end Literal

end Worktree.Json
