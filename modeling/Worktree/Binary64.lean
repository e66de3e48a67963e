/-!
# Binary floating-point numbers

The finite values of the 64-bit binary format without their signs.  They are counted in ascending
order: the rank of a value is the number that its bits after the sign spell.  Every value is a whole
number of units, the unit being the least value above zero, so that all computation is in natural
numbers.

* `Binary64.units` is the value; it increases strictly with the rank (`unitsAt_lt_unitsAt_succ`).
* `Binary64.round?` is the value nearest to a fraction, unless that is too large.
* `Binary64.times?` and `Binary64.over?` multiply and divide with one rounding each.
* `Binary64.timesPowerOfTen?` multiplies by a power of ten of either sign.
-/

namespace Worktree

/-- A finite value of the 64-bit binary format, without its sign. -/
structure Binary64 where
  /-- The place of the value in the ascending order of all values, counted from zero. -/
  rank : Nat
  rank_lt : rank < 0x7ff0000000000000
  deriving DecidableEq

namespace Binary64

/-! ## Values -/

/-- How many values share one exponent. -/
def binade : Nat := 0x10000000000000

/-- The value, in units, of an exponent and a fraction as the bits give them.  Exponent zero counts
in single units; from then on a leading bit comes before the fraction, and each exponent doubles the
steps of the one before. -/
def unitsOf : Nat → Nat → Nat
  | 0, fraction => fraction
  | exponent + 1, fraction => (binade + fraction) <<< exponent

/-- The value of a rank in units. -/
def unitsAt (rank : Nat) : Nat :=
  unitsOf (rank / binade) (rank % binade)

/-- The value in units. -/
def units (x : Binary64) : Nat := unitsAt x.rank

/-- How many binary places the unit has. -/
@[irreducible] def places : Nat := 1074

/-- How many units make one. -/
def one : Nat := Nat.pow 2 places

/-- The step from one fraction to the next. -/
theorem unitsOf_succ (e f : Nat) : unitsOf e (f + 1) = unitsOf e f + 1 <<< (e - 1) := by
  cases e with
  | zero => rfl
  | succ e =>
      simp only [unitsOf, Nat.shiftLeft_eq, Nat.add_sub_cancel, ← Nat.add_assoc]
      rw [Nat.add_mul (binade + f)]

/-- The fractions of an exponent reach up to the next exponent. -/
theorem unitsOf_binade (e : Nat) : unitsOf e binade = unitsOf (e + 1) 0 := by
  cases e with
  | zero => rfl
  | succ e => simp only [unitsOf, Nat.shiftLeft_eq, Nat.add_zero, Nat.pow_succ, ← Nat.mul_two,
      Nat.mul_assoc, Nat.mul_comm 2]

/-- The step from one value to the next. -/
theorem unitsAt_succ (r : Nat) : unitsAt (r + 1) = unitsAt r + 1 <<< (r / binade - 1) := by
  have hlt : r % binade < binade := Nat.mod_lt r (by decide)
  unfold unitsAt
  by_cases hlast : r % binade + 1 = binade
  · have hq : (r + 1) / binade = r / binade + 1 := by unfold binade at *; omega
    have hm : (r + 1) % binade = 0 := by unfold binade at *; omega
    rw [hq, hm, ← unitsOf_binade, ← unitsOf_succ, hlast]
  · have hq : (r + 1) / binade = r / binade := by unfold binade at *; omega
    have hm : (r + 1) % binade = r % binade + 1 := by unfold binade at *; omega
    rw [hq, hm, unitsOf_succ]

/-- A value grows with its rank. -/
theorem unitsAt_lt_unitsAt_succ (r : Nat) : unitsAt r < unitsAt (r + 1) := by
  rw [unitsAt_succ, Nat.shiftLeft_eq, Nat.one_mul]
  exact Nat.lt_add_of_pos_right (Nat.two_pow_pos _)

/-! ## Rounding -/

/-- The integer nearest to a fraction; of two that are equally near, the even one. -/
def roundDiv (num den : Nat) : Nat :=
  if 2 * (num % den) < den ∨ 2 * (num % den) = den ∧ num / den % 2 = 0 then num / den
  else num / den + 1

/-- A rounded fraction is off by half at most. -/
theorem roundDiv_near (num den : Nat) (h : 0 < den) :
    2 * (roundDiv num den * den) ≤ 2 * num + den ∧
      2 * num ≤ 2 * (roundDiv num den * den) + den := by
  have e : num / den * den + num % den = num := Nat.div_add_mod' num den
  have l : num % den < den := Nat.mod_lt _ h
  have s : (num / den + 1) * den = num / den * den + den := Nat.succ_mul _ _
  unfold roundDiv
  split <;> omega

/-- The value nearest to a fraction, if there is one.  The leading 53 bits count; what rounds up to
the next power of two has the rank that follows. -/
def round? (num den : Nat) : Option Binary64 :=
  let shift := (num * one / den).log2 - 52
  let rank := shift * binade + roundDiv (num * one) (den <<< shift)
  if h : rank < 0x7ff0000000000000 then some ⟨rank, h⟩ else none

/-- The product of two values. -/
def times? (x y : Binary64) : Option Binary64 := round? (x.units * y.units) (one * one)

/-- The quotient of two values. -/
def over? (x y : Binary64) : Option Binary64 :=
  if y.rank = 0 then none else round? x.units y.units

/-! ## Powers of ten -/

/-- The value nearest to a power of ten. -/
def powerOfTen? (n : Nat) : Option Binary64 :=
  if n ≤ 308 then round? (Nat.pow 10 n) 1 else none

/-- A value divided by a power of ten.  A power that is too large to be a value is divided out in
several steps, with one rounding each. -/
def overPowerOfTen? (x : Binary64) (n : Nat) : Option Binary64 :=
  if x.rank = 0 then some x
  else if n ≤ 308 then powerOfTen? n >>= x.over?
  else powerOfTen? 308 >>= x.over? >>= fun y => y.overPowerOfTen? (n - 308)
termination_by n

/-- A value times a power of ten of either sign. -/
def timesPowerOfTen? (x : Binary64) : Int → Option Binary64
  | .ofNat n => if x.rank = 0 then some x else powerOfTen? n >>= x.times?
  | .negSucc n => x.overPowerOfTen? (n + 1)

end Binary64

end Worktree
