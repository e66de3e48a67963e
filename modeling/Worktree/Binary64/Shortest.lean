import Worktree.Binary64

/-!
# The shortest decimal of a binary number

A binary number is written with the fewest digits from which it can be read again, and of the
decimals with so many digits it is the nearest one.

* `Decimal` is a number in decimal notation.
* `Binary64.isNearest` says which decimals are read as a value: those nearer to it than to any other
  value, and those half-way to the next if the rank is even.
* `Binary64.shortest` looks for the coarsest decimal grid with such a decimal.  What it finds is
  read as the value again (`Binary64.isNearest_shortest`).
-/

namespace Worktree

/-- A number in decimal notation, `digits` times ten to the power of `exponent`. -/
structure Decimal where
  digits : Nat
  exponent : Int
  deriving DecidableEq

/-- The numerator of a decimal as a fraction. -/
def Decimal.num (d : Decimal) : Nat := d.digits * Nat.pow 10 d.exponent.toNat

/-- The denominator of a decimal as a fraction. -/
def Decimal.den (d : Decimal) : Nat := Nat.pow 10 (-d.exponent).toNat

/-- The numerator of a decimal with some places. -/
theorem Decimal.num_places (digits places : Nat) :
    (Decimal.mk digits (-(places : Int))).num = digits := by
  simp [num]

/-- The denominator of a decimal with some places. -/
theorem Decimal.den_places (digits places : Nat) :
    (Decimal.mk digits (-(places : Int))).den = Nat.pow 2 places * Nat.pow 5 places := by
  simp only [den, Int.neg_neg, Int.toNat_natCast]
  exact Nat.mul_pow 2 5 places

namespace Binary64

/-- Whether a decimal is read as this value. -/
def isNearest (x : Binary64) (d : Decimal) : Bool :=
  let place := 2 * one * d.num
  let low := (unitsAt (x.rank - 1) + x.units) * d.den
  let high := (x.units + unitsAt (x.rank + 1)) * d.den
  if x.rank % 2 = 0 then low ≤ place && place ≤ high else low < place && place < high

/-- The two decimals around a value on the grid of a power of ten, the nearer one first; of two that
are equally near, the even one. -/
def around (x : Binary64) (exponent : Int) : List Decimal :=
  let num := x.units * Nat.pow 10 (-exponent).toNat
  let den := one * Nat.pow 10 exponent.toNat
  let below : Decimal := ⟨num / den, exponent⟩
  let above : Decimal := ⟨num / den + 1, exponent⟩
  if roundDiv num den = num / den then [below, above] else [above, below]

/-- The powers of ten that a digit can stand for, the greatest first. -/
def grids : List Int :=
  (List.range 633).map fun i : Nat => 308 - (i : Int)

/-- All digits of a value. -/
def exact (x : Binary64) : Decimal :=
  ⟨x.units * Nat.pow 5 places, -(places : Int)⟩

/-- The shortest decimal that is read as a value; of several, the nearest. -/
def shortest (x : Binary64) : Decimal :=
  if x.rank = 0 then ⟨0, 0⟩
  else (grids.findSome? fun e => (x.around e).find? x.isNearest).getD x.exact

/-- All digits of a value are read as that value. -/
theorem isNearest_exact (x : Binary64) (h : x.rank ≠ 0) : x.isNearest x.exact = true := by
  have below : unitsAt (x.rank - 1) < x.units := by
    have := unitsAt_lt_unitsAt_succ (x.rank - 1)
    rwa [Nat.sub_add_cancel (Nat.one_le_iff_ne_zero.mpr h)] at this
  have above : x.units < unitsAt (x.rank + 1) := unitsAt_lt_unitsAt_succ x.rank
  have num : x.exact.num = x.units * Nat.pow 5 places := Decimal.num_places _ _
  have den : x.exact.den = Nat.pow 2 places * Nat.pow 5 places :=
    Decimal.den_places _ _
  have place : 2 * one * x.exact.num = 2 * x.units * x.exact.den := by
    rw [num, den, one]
    ac_rfl
  have positive : 0 < x.exact.den := by
    rw [den]
    exact Nat.mul_pos (Nat.pow_pos (by decide)) (Nat.pow_pos (by decide))
  have low : (unitsAt (x.rank - 1) + x.units) * x.exact.den < 2 * one * x.exact.num := by
    rw [place]
    exact Nat.mul_lt_mul_of_pos_right (by omega) positive
  have high : 2 * one * x.exact.num < (x.units + unitsAt (x.rank + 1)) * x.exact.den := by
    rw [place]
    exact Nat.mul_lt_mul_of_pos_right (by omega) positive
  unfold isNearest
  split <;> simp [low, high, Nat.le_of_lt]

/-- **Reading back.**  The shortest decimal of a value is read as that value. -/
theorem isNearest_shortest (x : Binary64) : x.isNearest x.shortest = true := by
  unfold shortest
  split
  next h =>
    simp [isNearest, h, Decimal.num, units, unitsAt, unitsOf]
  next h =>
    cases found : grids.findSome? fun e => (x.around e).find? x.isNearest with
    | none => exact isNearest_exact x h
    | some d =>
        obtain ⟨_, e, _, _, hit, _⟩ := List.findSome?_eq_some_iff.mp found
        exact List.find?_some hit

end Binary64

end Worktree
