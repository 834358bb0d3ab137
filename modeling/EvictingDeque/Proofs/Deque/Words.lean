import EvictingDeque.Word

set_option autoImplicit false

/-!
# Sizes in the word

The operations on sizes that may leave the word, or that have no result at all, with no result there. A computation
that is written with them and has a result is one that neither overflows nor divides by zero.
-/
namespace EvictingDeque.Word

def product? (a b : Nat) : Option Nat := if largestSize < a * b then none else some (a * b)

def difference? (a b : Nat) : Option Nat := if a < b then none else some (a - b)

def remainder? (a b : Nat) : Option Nat := if b = 0 then none else some (a % b)

def sum? (a b : Nat) : Option Nat := if largestSize < a + b then none else some (a + b)

/-- The next size, or the largest one again. -/
def nextOrLargest (a : Nat) : Nat := (sum? a 1).getD largestSize

/-- The distance of an integer from zero, as a size. -/
def distance? (value : Int) : Option Nat := if largestSize < value.natAbs then none else some value.natAbs

theorem difference?_of_le {a b : Nat} (h : b ≤ a) : difference? a b = some (a - b) := if_neg (Nat.not_lt.2 h)

theorem remainder?_of_pos {a b : Nat} (h : 0 < b) : remainder? a b = some (a % b) := if_neg (Nat.ne_of_gt h)

theorem sum?_of_le {a b : Nat} (h : a + b ≤ largestSize) : sum? a b = some (a + b) := if_neg (Nat.not_lt.2 h)

/-- Also the integer whose distance from zero is no signed word itself. -/
theorem distance?_of_isSigned {value : Int} (h : IsSigned value) : distance? value = some value.natAbs := by
  refine if_neg ?_
  unfold IsSigned modulus at h
  unfold largestSize modulus
  omega

/-- What is cut down to a size does not show where counting stopped. -/
theorem min_nextOrLargest {length : Nat} (hl : length ≤ largestSize) (a : Nat) :
    min (nextOrLargest a) length = min (a + 1) length := by
  unfold nextOrLargest sum?
  split
  · rw [Option.getD_none]
    omega
  · rfl

end EvictingDeque.Word
