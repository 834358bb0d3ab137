import EvictingDeque.Deque.Order
import EvictingDeque.Value.Basic

set_option autoImplicit false

/-!
# The order of values

Only values of one kind have an order: integers, texts, numbers, keyed values by their key, and deques by
their elements. References have none.
-/
namespace EvictingDeque.Value

variable {ρ : Type}

mutual
def compare? : Value ρ → Value ρ → Option Ordering
  | .int a, .int b => some (compare a b)
  | .text a, .text b => some (compare a b)
  | .real a, .real b => a.compare? b
  | .keyed a _, .keyed b _ => some (compare a b)
  | .nested ⟨as, _⟩, .nested ⟨bs, _⟩ => compareLists? as bs
  | _, _ => none
termination_by structural value => value

def compareLists? : List (Value ρ) → List (Value ρ) → Option Ordering
  | [], [] => some .eq
  | [], _ :: _ => some .lt
  | _ :: _, [] => some .gt
  | a :: as, b :: bs =>
    match compare? a b with
    | some .eq => compareLists? as bs
    | decided => decided
termination_by structural values => values
end

/-- Deques of values follow the order of deques. -/
theorem compareLists?_eq (as bs : List (Value ρ)) :
    compareLists? as bs = Deque.compareItems? compare? as bs := by
  induction as generalizing bs with
  | nil => cases bs <;> rfl
  | cons a as ih =>
    cases bs with
    | nil => rfl
    | cons b bs =>
      cases h : compare? a b with
      | none => simp [compareLists?, Deque.compareItems?, h]
      | some order => cases order <;> simp [compareLists?, Deque.compareItems?, h, ih]

/-- Equality of plain data that is no deque. -/
def sameAtom : Value ρ → Value ρ → Bool
  | .int a, .int b => a == b
  | .text a, .text b => a == b
  | .real a, .real b => a.same b
  | .keyed a _, .keyed b _ => a == b
  | _, _ => false

end EvictingDeque.Value
