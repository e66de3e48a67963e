import Worktree.Json.Token

/-!
# Values, as far as the text goes

A JSON value is read from the left, and who reads it may be content, or may object to something,
before a later mistake in the text is met.  So a value that breaks off is kept as far as it goes: an
array or an object may lack its end, and in the place of a value there may be nothing that makes
sense.

* `Node` is such a value; `Node.isComplete` says that nothing is missing in it.
* `Node.render` writes it without blanks.
* `Document.ofText` reads a text: `Builder.push` takes one token more, and what is open when the
  tokens end, or stop making sense, is left open.
-/

namespace Worktree.Json

/-- A JSON value, as far as the text goes. -/
inductive Node where
  | null
  | bool (b : Bool)
  | number (n : Number)
  | literal (l : Literal)
  /-- An array, and whether its end is there. -/
  | array (items : List Node) (closed : Bool)
  /-- An object, and whether its end is there. -/
  | object (members : List (Literal × Node)) (closed : Bool)
  /-- Nothing that makes sense. -/
  | broken

namespace Node

/-- The value that is a text. -/
def text (t : String) : Node := .literal (.text t)

/-! ## Completeness -/

mutual

/-- Whether nothing is missing in a value. -/
def isComplete : Node → Bool
  | null => true
  | bool _ => true
  | number _ => true
  | literal _ => true
  | array items closed => closed && areComplete items
  | object members closed => closed && areMembersComplete members
  | broken => false

/-- Whether nothing is missing in some values. -/
def areComplete : List Node → Bool
  | [] => true
  | n :: rest => n.isComplete && areComplete rest

/-- Whether nothing is missing in the values of some members. -/
def areMembersComplete : List (Literal × Node) → Bool
  | [] => true
  | (_, n) :: rest => n.isComplete && areMembersComplete rest

end

/-! ## Writing -/

mutual

/-- The tokens of a value. -/
def tokens : Node → List Token
  | null => [.null]
  | bool b => [.bool b]
  | number n => [.number n]
  | literal l => [.literal l]
  | array items closed =>
    .openArray :: (itemTokens true items ++ if closed then [.closeArray] else [])
  | object members closed =>
    .openObject :: (memberTokens true members ++ if closed then [.closeObject] else [])
  | broken => []

/-- The tokens of an array's items; a comma comes before every item but the first. -/
def itemTokens (first : Bool) : List Node → List Token
  | [] => []
  | n :: rest => (if first then [] else [.comma]) ++ n.tokens ++ itemTokens false rest

/-- The tokens of an object's members; a comma comes before every member but the first. -/
def memberTokens (first : Bool) : List (Literal × Node) → List Token
  | [] => []
  | (key, n) :: rest =>
    (if first then [] else [.comma]) ++ .literal key :: .colon :: n.tokens
      ++ memberTokens false rest

end

/-- The text of a value, without blanks. -/
def render (n : Node) : String :=
  String.ofList (n.tokens.flatMap Token.spell)

end Node

/-! ## Reading -/

/-- Where a value stands in the array or object around it: what comes before it, the last first. -/
inductive Frame where
  | item (before : List Node)
  | member (before : List (Literal × Node)) (key : Literal)

/-- The array or object around a value, left open. -/
def Frame.enclose (n : Node) : Frame → Node
  | item before => .array (before.reverse ++ [n]) false
  | member before key => .object (before.reverse ++ [(key, n)]) false

/-- The whole value around a part of it, everything left open; the innermost frame comes first. -/
def enclose (frames : List Frame) (n : Node) : Node :=
  frames.foldl Frame.enclose n

/-- A row of tokens read in part. -/
inductive Builder where
  /-- A value must come. -/
  | value (frames : List Frame)
  /-- A value has ended. -/
  | after (frames : List Frame) (n : Node)
  /-- An array has begun. -/
  | arrayStart (frames : List Frame)
  /-- An object has begun. -/
  | objectStart (frames : List Frame)
  /-- A key must come. -/
  | key (frames : List Frame) (before : List (Literal × Node))
  /-- A colon must come. -/
  | colon (frames : List Frame) (before : List (Literal × Node)) (key : Literal)
  /-- The tokens have stopped making sense; this much could be read. -/
  | stopped (n : Node)
  /-- Something follows the whole value. -/
  | trailing (n : Node)

namespace Builder

/-- What has been read, with everything left open that is open. -/
def soFar : Builder → Node
  | value frames => enclose frames .broken
  | after frames n => enclose frames n
  | arrayStart frames => enclose frames (.array [] false)
  | objectStart frames => enclose frames (.object [] false)
  | key frames before => enclose frames (.object before.reverse false)
  | colon frames before k => enclose frames (.object (before.reverse ++ [(k, .broken)]) false)
  | stopped n => n
  | trailing n => n

/-- Begins a value with a token. -/
def begin (frames : List Frame) : Token → Builder
  | .null => after frames .null
  | .bool b => after frames (.bool b)
  | .number n => after frames (.number n)
  | .literal l => after frames (.literal l)
  | .openArray => arrayStart frames
  | .openObject => objectStart frames
  | _ => stopped (enclose frames .broken)

/-- Takes the token after a value. -/
def next (n : Node) : List Frame → Token → Builder
  | [], _ => trailing n
  | .item before :: frames, .comma => value (.item (n :: before) :: frames)
  | .item before :: frames, .closeArray => after frames (.array (n :: before).reverse true)
  | .member before k :: frames, .comma => key frames ((k, n) :: before)
  | .member before k :: frames, .closeObject =>
    after frames (.object ((k, n) :: before).reverse true)
  | frames, _ => stopped (enclose frames n)

/-- Takes one token more. -/
def push (s : Builder) (t : Token) : Builder :=
  match s, t with
  | value frames, t => begin frames t
  | after frames n, t => next n frames t
  | arrayStart frames, .closeArray => after frames (.array [] true)
  | arrayStart frames, t => begin (.item [] :: frames) t
  | objectStart frames, .closeObject => after frames (.object [] true)
  | objectStart frames, .literal k => colon frames [] k
  | key frames before, .literal k => colon frames before k
  | colon frames before k, .colon => value (.member before k :: frames)
  | trailing n, _ => trailing n
  | s, _ => stopped s.soFar

end Builder

/-- What a text holds: a value, and whether something follows it. -/
structure Document where
  root : Node
  trailing : Bool

namespace Document

/-- What a row of tokens holds. -/
def ofTokens (tokens : List Token) : Document :=
  match tokens.foldl Builder.push (.value []) with
  | .trailing n => ⟨n, true⟩
  | s => ⟨s.soFar, false⟩

/-- What a text holds. -/
def ofText (t : String) : Document :=
  ofTokens (Token.ofText t)

end Document

end Worktree.Json
