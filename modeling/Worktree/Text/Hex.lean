/-!
# Hexadecimal digits

The value of a digit given by its code, and the two digits of a byte.
-/

namespace Worktree.Text

/-- The value of a hexadecimal digit of either case, given by its character code. -/
def hexValue? (code : Nat) : Option Nat :=
  if 48 ≤ code ∧ code ≤ 57 then some (code - 48)
  else if 97 ≤ code ∧ code ≤ 102 then some (code - 87)
  else if 65 ≤ code ∧ code ≤ 70 then some (code - 55)
  else none

/-- The two lower-case digits of a byte, the high half first. -/
def hexPair (b : UInt8) : List Char :=
  [Nat.digitChar (b.toNat / 16), Nat.digitChar (b.toNat % 16)]

end Worktree.Text
