import Worktree.Binary64.Shortest

/-!
# Decimals in messages

A message writes a number of moderate size with its point in place and with a digit on either side
of the point (`pointed`).  In any other number the point comes after the leading digit, and that
digit's power of ten follows with its sign (`scientific`).
-/

namespace Worktree.Text

/-- Digits with a point before the last of them, as many as `places` says, and at least one digit on
either side. -/
def pointed (digits : List Char) (places : Nat) : List Char :=
  let padded := List.replicate (places + 1 - digits.length) '0' ++ digits
  padded.take (padded.length - places)
    ++ '.' :: (if places = 0 then ['0'] else padded.drop (padded.length - places))

/-- Digits with a point after the first, if more follow, and a power of ten with its sign. -/
def scientific (digits : List Char) (power : Int) : List Char :=
  digits.take 1 ++ (if digits.length > 1 then '.' :: digits.drop 1 else [])
    ++ ['e', if power < 0 then '-' else '+'] ++ Nat.toDigits 10 power.natAbs

/-- The text of a decimal, with its sign if it is negative.  The point is in place if the power of
ten of the leading digit is between -5 and 15. -/
def decimal (negative : Bool) (d : Decimal) : String :=
  let digits := Nat.toDigits 10 d.digits
  let power : Int := d.exponent + (digits.length - 1)
  String.ofList <| (if negative then ['-'] else []) ++
    if -5 ≤ power ∧ power ≤ 15 then pointed (Nat.toDigits 10 d.num) (-d.exponent).toNat
    else scientific digits power

end Worktree.Text
