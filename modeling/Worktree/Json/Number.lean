import Worktree.Binary64

/-!
# Numbers

A number of JSON is a sign, an integer part without leading zeros, digits after a point, and a power
of ten.  It is kept part by part, so nothing is rounded as long as nobody asks for its value.

* `Number.scan?` reads a number, and `Number.spell` writes it.
* `Number.value?` is its value: an integer of 64 bits, or else a binary floating-point number.
-/

namespace Worktree.Json

/-- A number in decimal notation. -/
structure Number where
  negative : Bool
  /-- The integer part, without its sign. -/
  whole : Nat
  /-- The digits after the point; without digits there is no point. -/
  fraction : List (Fin 10)
  /-- The power of ten, if one is given. -/
  exponent : Option Int
  deriving DecidableEq

namespace Number

/-! ## Reading -/

/-- The value of a decimal digit. -/
def digitOf (c : Char) : Fin 10 :=
  Fin.ofNat 10 (c.toNat - 48)

/-- The digits that a text begins with, if there are any, and the rest. -/
def digits? (cs : List Char) : Option (List Char × List Char) :=
  if (cs.takeWhile Char.isDigit).isEmpty then none
  else some (cs.takeWhile Char.isDigit, cs.dropWhile Char.isDigit)

/-- The integer part of a number: digits, with a leading zero only on its own. -/
def whole? (cs : List Char) : Option (Nat × List Char) := do
  let (digits, rest) ← digits? cs
  if digits.length > 1 && digits.head? == some '0' then none
  else return (Nat.ofDigitChars 10 digits 0, rest)

/-- The fraction of a number, if a point begins one. -/
def fraction? : List Char → Option (List (Fin 10) × List Char)
  | '.' :: cs => do
    let (digits, rest) ← digits? cs
    return (digits.map digitOf, rest)
  | cs => some ([], cs)

/-- The digits of a power of ten with its sign. -/
def power? : List Char → Option (Int × List Char)
  | '-' :: cs => do
    let (digits, rest) ← digits? cs
    return (-(Nat.ofDigitChars 10 digits 0 : Int), rest)
  | '+' :: cs => do
    let (digits, rest) ← digits? cs
    return ((Nat.ofDigitChars 10 digits 0 : Int), rest)
  | cs => do
    let (digits, rest) ← digits? cs
    return ((Nat.ofDigitChars 10 digits 0 : Int), rest)

/-- The power of ten of a number, if a letter begins one. -/
def exponent? : List Char → Option (Option Int × List Char)
  | c :: cs =>
    if c = 'e' ∨ c = 'E' then (power? cs).map fun p => (some p.1, p.2)
    else some (none, c :: cs)
  | [] => some (none, [])

/-- What a text begins with after its sign. -/
def unsigned? (negative : Bool) (cs : List Char) : Option (Number × List Char) := do
  let (whole, cs) ← whole? cs
  let (fraction, cs) ← fraction? cs
  let (exponent, cs) ← exponent? cs
  return ({ negative, whole, fraction, exponent }, cs)

/-- The number that a text begins with, and the rest. -/
def scan? : List Char → Option (Number × List Char)
  | '-' :: cs => unsigned? true cs
  | cs => unsigned? false cs

/-! ## Writing -/

/-- A number as it is written. -/
def spell (n : Number) : List Char :=
  (if n.negative then ['-'] else [])
    ++ Nat.toDigits 10 n.whole
    ++ (if n.fraction.isEmpty then [] else '.' :: n.fraction.map fun d => Nat.digitChar d.val)
    ++ (match n.exponent with
      | some e => 'e' :: (toString e).toList
      | none => [])

/-- Whether a number is written as an integer of 64 bits, signed or unsigned.  Zero has no sign
there. -/
def isInteger (n : Number) : Bool :=
  n.fraction.isEmpty && n.exponent.isNone &&
    (if n.negative then 0 < n.whole && n.whole ≤ 0x8000000000000000
      else n.whole ≤ 0xffffffffffffffff)

/-! ## Values -/

/-- What a number stands for. -/
inductive Value where
  /-- An integer of 64 bits, signed or unsigned. -/
  | integer (i : Int)
  /-- A binary number; the sign stands apart, since zero has one too. -/
  | float (negative : Bool) (magnitude : Binary64)
  deriving DecidableEq

/-- The leading digits of an integer, as many as fit into 64 bits, and how many digits follow. -/
def leading (n : Nat) : Nat × Nat :=
  if n ≤ 0xffffffffffffffff then (n, 0)
  else
    match leading (n / 10) with
    | (lead, following) => (lead, following + 1)
termination_by n

/-- An integer with digits appended, as many as fit into 64 bits, and how many digits were taken on
top of those that are counted already. -/
def appendDigits (n taken : Nat) : List (Fin 10) → Nat × Nat
  | [] => (n, taken)
  | d :: ds =>
    if 10 * n + d.val ≤ 0xffffffffffffffff then appendDigits (10 * n + d.val) (taken + 1) ds
    else (n, taken)

/-- The binary number for a number without its sign, if it is not too large.  The leading digits
that fit into 64 bits make an integer, which is rounded first and then multiplied by a power of
ten; the digits after them are left out. -/
def magnitude? (n : Number) : Option Binary64 :=
  let (lead, dropped) := leading n.whole
  let (digits, taken) := appendDigits lead 0 n.fraction
  let power : Int := dropped - taken + n.exponent.getD 0
  Binary64.round? digits 1 >>= fun x => x.timesPowerOfTen? power

/-- The value of a number, if it is not too large. -/
def value? (n : Number) : Option Value :=
  if n.isInteger then some (.integer (if n.negative then -n.whole else n.whole))
  else n.magnitude?.map (.float n.negative)

end Number

end Worktree.Json
