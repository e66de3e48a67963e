import Worktree.Json.Literal
import Worktree.Json.Number

/-!
# Tokens

A JSON text is a row of tokens with blanks between them.  Reading tokens off a text never fails:
what is no token becomes the token `invalid`, in its place, so that whatever comes before it can
still be looked at.

* `Token.spell` writes a token.
* `Lexer.push` reads one character more, and `Token.ofText` reads a whole text.
-/

namespace Worktree.Json

/-- A token of a JSON text. -/
inductive Token where
  | openArray
  | closeArray
  | openObject
  | closeObject
  | colon
  | comma
  | null
  | bool (b : Bool)
  | number (n : Number)
  | literal (l : Literal)
  /-- Something that is no token. -/
  | invalid
  deriving DecidableEq

namespace Token

/-- A token as it is written; what is no token has no spelling. -/
def spell : Token → List Char
  | openArray => ['[']
  | closeArray => [']']
  | openObject => ['\x7b']
  | closeObject => ['\x7d']
  | colon => [':']
  | comma => [',']
  | null => ['n', 'u', 'l', 'l']
  | bool true => ['t', 'r', 'u', 'e']
  | bool false => ['f', 'a', 'l', 's', 'e']
  | number n => n.spell
  | literal l => l.spell
  | invalid => []

/-- The token that a single character makes. -/
def punctuation? : Char → Option Token
  | '[' => some openArray
  | ']' => some closeArray
  | '\x7b' => some openObject
  | '\x7d' => some closeObject
  | ':' => some colon
  | ',' => some comma
  | _ => none

/-- The tokens that are words. -/
def keywords : List Token := [null, bool true, bool false]

/-- The tokens of a word: the keyword or number that it begins with, and something invalid if the
word goes on. -/
def ofWord (word : List Char) : List Token :=
  match keywords.find? fun t => t.spell.isPrefixOf word with
  | some t => if t.spell == word then [t] else [t, invalid]
  | none =>
    match Number.scan? word with
    | some (n, []) => [number n]
    | some (n, _ :: _) => [number n, invalid]
    | none => [invalid]

/-- The token of a literal's body. -/
def ofBody (body : List Char) : Token :=
  match Literal.decode? body with
  | some l => literal l
  | none => invalid

end Token

/-- The blanks between tokens. -/
def isBlank (c : Char) : Bool :=
  c == ' ' || c == '\n' || c == '\t' || c == '\r'

/-- What the characters read last belong to. -/
inductive Mode where
  /-- Nothing: the next character begins something. -/
  | between
  /-- A word, here with its last letter first. -/
  | word (letters : List Char)
  /-- A literal, its body with the last character first. -/
  | quoted (body : List Char)
  /-- A literal after a backslash. -/
  | escaped (body : List Char)
  deriving DecidableEq

/-- A text read in part: the tokens so far, the last one first, and what is unfinished. -/
structure Lexer where
  tokens : List Token
  mode : Mode
  deriving DecidableEq

namespace Lexer

/-- Nothing read. -/
def start : Lexer := ⟨[], .between⟩

/-- Begins something with a character. -/
def begin (tokens : List Token) (c : Char) : Lexer :=
  if isBlank c then ⟨tokens, .between⟩
  else if c = '"' then ⟨tokens, .quoted []⟩
  else
    match Token.punctuation? c with
    | some t => ⟨t :: tokens, .between⟩
    | none => ⟨tokens, .word [c]⟩

/-- Whether a character goes on with a word. -/
def isLetter (c : Char) : Bool :=
  !isBlank c && c != '"' && (Token.punctuation? c).isNone

/-- Reads one character more. -/
def push (s : Lexer) (c : Char) : Lexer :=
  match s.mode with
  | .between => begin s.tokens c
  | .word letters =>
    if isLetter c then ⟨s.tokens, .word (c :: letters)⟩
    else begin ((Token.ofWord letters.reverse).reverse ++ s.tokens) c
  | .quoted body =>
    if c = '"' then ⟨Token.ofBody body.reverse :: s.tokens, .between⟩
    else if c = '\\' then ⟨s.tokens, .escaped (c :: body)⟩
    else ⟨s.tokens, .quoted (c :: body)⟩
  | .escaped body => ⟨s.tokens, .quoted (c :: body)⟩

/-- The tokens in order, when the text ends. -/
def finish (s : Lexer) : List Token :=
  match s.mode with
  | .between => s.tokens.reverse
  | .word letters => s.tokens.reverse ++ Token.ofWord letters.reverse
  | .quoted _ => s.tokens.reverse ++ [.invalid]
  | .escaped _ => s.tokens.reverse ++ [.invalid]

end Lexer

/-- The tokens of a text. -/
def Token.ofText (t : String) : List Token :=
  (t.toList.foldl Lexer.push .start).finish

end Worktree.Json
