import EvictingDeque.Binary64.Basic

set_option autoImplicit false

/-!
# Numbers in decimal digits

A number is read as the nearest one to what its digits say. It is written with the fewest decimal digits that
read back as the same number, and of those with the ones nearest to it. From 0.0001 up to 10000000000000000,
which is excluded, the digits are written out, and there is always a digit on both sides of the point; outside
one digit stands before the point, which needs digits behind it to be there, and an exponent follows.
-/
namespace EvictingDeque

/-- As many times a power of ten. -/
structure Decimal where
  digits : Nat
  exponent : Int
deriving DecidableEq, Repr

namespace Decimal

def numerator (d : Decimal) : Nat := d.digits * Nat.pow 10 d.exponent.toNat

def denominator (d : Decimal) : Nat := Nat.pow 10 (-d.exponent).toNat

def nearest (negative : Bool) (d : Decimal) : Binary64 :=
  .ofQuotient negative d.numerator d.denominator

end Decimal

namespace Binary64

/-! Writing -/

def readsBack (units : Nat) (d : Decimal) : Bool :=
  nearestUnits (d.numerator * unitsOfOne) d.denominator == units

def isBelowPower (units : Nat) (exponent : Int) : Bool :=
  decide (units * Nat.pow 10 (-exponent).toNat < unitsOfOne * Nat.pow 10 exponent.toNat)

/-- The place of the point, counted from the leading decimal digit: the least power of ten above the number.
The binary logarithm tells it up to two, since 1233 / 4096 is close to the decimal logarithm of two. -/
def point (units : Nat) : Int :=
  let estimate := (Int.ofNat (Nat.log2 units) - 1074) * 1233 / 4096
  if isBelowPower units estimate then estimate
  else if isBelowPower units (estimate + 1) then estimate + 1
  else estimate + 2

/-- The multiples of a power of ten on both sides of a number, the nearer one first, and of two equally near
ones the larger. -/
def neighbours (units : Nat) (exponent : Int) : List Decimal :=
  let numerator := units * Nat.pow 10 (-exponent).toNat
  let denominator := unitsOfOne * Nat.pow 10 exponent.toNat
  let below : Decimal := ⟨numerator / denominator, exponent⟩
  let above : Decimal := ⟨numerator / denominator + 1, exponent⟩
  if 2 * (numerator % denominator) < denominator then [below, above] else [above, below]

/-- Every number has a decimal of at most 17 digits that reads back; its exact digits stand in for one that
had none. -/
def shortest (units : Nat) : Decimal :=
  let point := point units
  let found := (List.range 17).findSome? fun count =>
    (neighbours units (point - Int.ofNat (count + 1))).find? (readsBack units)
  found.getD ⟨units * Nat.pow 5 1074, -1074⟩

/-- Digits with the point at the given place. -/
def layout (digits : List Char) (point : Int) : List Char :=
  if -4 < point ∧ point ≤ 16 then
    let whole := digits.take point.toNat ++ List.replicate (point.toNat - digits.length) '0'
    let fraction := List.replicate (-point).toNat '0' ++ digits.drop point.toNat
    (if whole = [] then ['0'] else whole) ++ '.' :: (if fraction = [] then ['0'] else fraction)
  else
    let fraction := digits.drop 1
    digits.take 1 ++ (if fraction = [] then [] else '.' :: fraction) ++ 'e' :: (toString (point - 1)).toList

/-- Zeros at the end of the digits are left out; the point stays where it is. -/
def renderUnits (units : Nat) : String :=
  if units = 0 then "0.0"
  else
    let d := shortest units
    let digits := (toString d.digits).toList
    let kept := (digits.reverse.dropWhile (· == '0')).reverse
    String.ofList (layout kept (Int.ofNat digits.length + d.exponent))

def signText (negative : Bool) : String := if negative then "-" else ""

def render : Binary64 → String
  | .notANumber => "NaN"
  | .infinite negative => signText negative ++ "inf"
  | .finite negative units => signText negative ++ renderUnits units

/-! Reading -/

def digitsValue (digits : List Char) : Nat :=
  digits.foldl (fun value c => 10 * value + (c.toNat - '0'.toNat)) 0

def readMagnitude? (digits : List Char) : Option Int :=
  if digits ≠ [] ∧ digits.all Char.isDigit then some (Int.ofNat (digitsValue digits)) else none

def readExponent? : List Char → Option Int
  | [] => some 0
  | 'e' :: '-' :: digits => (readMagnitude? digits).map (- ·)
  | 'e' :: digits => readMagnitude? digits
  | _ => none

/-- A decimal of so many digits, as far as it matters: with a larger exponent every number but zero is
infinite, with a smaller one every number is zero. -/
def boundedDecimal (digits : List Char) (exponent : Int) : Decimal :=
  ⟨digitsValue digits, max (-400 - Int.ofNat digits.length) (min 400 exponent)⟩

def readUnsigned? (negative : Bool) (text : List Char) : Option Binary64 :=
  if text = ['i', 'n', 'f'] then some (.infinite negative)
  else
    let whole := text.takeWhile Char.isDigit
    let (fraction, rest) :=
      match text.dropWhile Char.isDigit with
      | '.' :: rest => (rest.takeWhile Char.isDigit, rest.dropWhile Char.isDigit)
      | rest => ([], rest)
    let digits := whole ++ fraction
    if digits = [] then none
    else (readExponent? rest).map fun exponent =>
      (boundedDecimal digits (exponent - Int.ofNat fraction.length)).nearest negative

def read? (text : String) : Option Binary64 :=
  match text.toList with
  | ['N', 'a', 'N'] => some .notANumber
  | '-' :: rest => readUnsigned? true rest
  | rest => readUnsigned? false rest

end Binary64

end EvictingDeque
