import Worktree.Text.Unseen

/-!
# Quotations in messages

A message that names a piece of text quotes it, so that every character of it can be told from the
next.  The quotation mark and the backslash are escaped, the four common controls have short
escapes, and a character that cannot be shown on its own is written by its code point.
-/

namespace Worktree.Text

/-- A character by its code point, in hexadecimal between braces. -/
def codePointEscape (c : Char) : List Char :=
  ['\\', 'u', '\x7b'] ++ Nat.toDigits 16 c.toNat ++ ['\x7d']

/-- A character as it stands inside a quotation with the given mark. -/
def quoteChar (mark c : Char) : List Char :=
  if c = mark ∨ c = '\\' then ['\\', c]
  else if c = '\x00' then ['\\', '0']
  else if c = '\t' then ['\\', 't']
  else if c = '\n' then ['\\', 'n']
  else if c = '\r' then ['\\', 'r']
  else if isUnseen c then codePointEscape c
  else [c]

/-- A text between two marks. -/
def quote (mark : Char) (t : String) : String :=
  String.ofList (mark :: (t.toList.flatMap (quoteChar mark) ++ [mark]))

end Worktree.Text
