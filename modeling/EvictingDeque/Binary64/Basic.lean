set_option autoImplicit false

/-!
# Numbers of double precision

A number of double precision has 53 binary digits. Every finite one is a whole multiple of the least positive
one, two to the minus 1074, which is the unit here: a finite number is its sign and how many units it has.
An exact quotient becomes the nearest of these numbers, and of two equally near ones the one whose last binary
digit is zero. Comparison is by value: minus zero equals zero, and what is not a number equals nothing and has
no order.
-/
namespace EvictingDeque

inductive Binary64 where
  | notANumber
  | infinite (negative : Bool)
  | finite (negative : Bool) (units : Nat)
deriving DecidableEq, Repr

namespace Binary64

/-- The units that make one. -/
def unitsOfOne : Nat := Nat.pow 2 1074

/-- A number with this many units, or more, counts as infinite: two to the 1024th. -/
def unitsLimit : Nat := Nat.pow 2 2098

/-- The nearest whole number to a quotient, and the even one if two are equally near. -/
def roundedQuotient (numerator denominator : Nat) : Nat :=
  let quotient := numerator / denominator
  match compare (2 * (numerator % denominator)) denominator with
  | .lt => quotient
  | .gt => quotient + 1
  | .eq => quotient + quotient % 2

theorem roundedQuotient_mul (quotient : Nat) {denominator : Nat} (h : 0 < denominator) :
    roundedQuotient (quotient * denominator) denominator = quotient := by
  have hc : compare (2 * (quotient * denominator % denominator)) denominator = .lt := by
    rw [Nat.compare_eq_lt, Nat.mul_mod_left]
    omega
  simp only [roundedQuotient, hc]
  exact Nat.mul_div_cancel quotient h

/-- The distance from one number to the next, in units: one unit below two to the 53rd, and doubled with
every further binary digit. -/
def gap (units : Nat) : Nat := Nat.pow 2 (Nat.log2 units - 52)

/-- The units of the number nearest to a quotient of units. -/
def nearestUnits (numerator denominator : Nat) : Nat :=
  let step := gap (numerator / denominator)
  step * roundedQuotient numerator (step * denominator)

/-- The number nearest to a quotient. -/
def ofQuotient (negative : Bool) (numerator denominator : Nat) : Binary64 :=
  let units := nearestUnits (numerator * unitsOfOne) denominator
  if units < unitsLimit then .finite negative units else .infinite negative

def signedUnits (negative : Bool) (units : Nat) : Int :=
  if negative then -Int.ofNat units else Int.ofNat units

def compare? : Binary64 → Binary64 → Option Ordering
  | .notANumber, _ => none
  | _, .notANumber => none
  | .infinite m, .infinite n => some (compare n m)
  | .infinite m, .finite _ _ => some (if m then .lt else .gt)
  | .finite _ _, .infinite n => some (if n then .gt else .lt)
  | .finite m a, .finite n b => some (compare (signedUnits m a) (signedUnits n b))

def same (a b : Binary64) : Bool := a.compare? b == some .eq

end Binary64

end EvictingDeque
