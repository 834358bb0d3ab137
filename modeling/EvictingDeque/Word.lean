set_option autoImplicit false

/-!
# Machine words

Sizes and integers are limited by a word of 64 bits. Arithmetic is exact everywhere else; where it has to
stay in the word, it is wrapped explicitly.
-/
namespace EvictingDeque.Word

/-- Two to the 64th. -/
def modulus : Nat := 18446744073709551616

def largestSize : Nat := modulus - 1

/-- The integers of a signed word. -/
def IsSigned (value : Int) : Prop := -(modulus / 2 : Nat) ≤ value ∧ value < (modulus / 2 : Nat)

instance (value : Int) : Decidable (IsSigned value) :=
  inferInstanceAs (Decidable (_ ∧ _))

/-- The signed word that is congruent to the integer. -/
def wrap (value : Int) : Int := Int.bmod value modulus

theorem isSigned_wrap (value : Int) : IsSigned (wrap value) := by
  have hlo := Int.le_bmod (x := value) (m := modulus) (by decide)
  have hhi := Int.bmod_lt (x := value) (m := modulus) (by decide)
  unfold IsSigned wrap
  unfold modulus at *
  omega

theorem wrap_of_isSigned {value : Int} (h : IsSigned value) : wrap value = value := by
  unfold IsSigned modulus at h
  refine Int.bmod_eq_of_le ?_ ?_ <;> unfold modulus <;> omega

end EvictingDeque.Word
