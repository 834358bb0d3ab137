import EvictingDeque.Deque.Basic

set_option autoImplicit false

/-!
# The written form of a deque

`deque([a, b])`, or `deque([a, b], maxlen=m)` when there is a bound. How the elements are written is left
to the caller.
-/
namespace EvictingDeque

namespace Deque

/-- The texts of the elements with a comma and a blank between them. -/
def joined (texts : List String) : String := ", ".intercalate texts

def boundText : Option Nat → String
  | none => ""
  | some bound => ", maxlen=" ++ toString bound

def written (texts : List String) (bound : Option Nat) : String :=
  "deque([" ++ joined texts ++ "]" ++ boundText bound ++ ")"

/-- What stands for a deque inside its own written form. -/
def recursionMark : String := "[...]"

/-- The written form of a deque is never taken for the mark. -/
theorem written_ne_mark (texts : List String) (bound : Option Nat) : written texts bound ≠ recursionMark := by
  intro h
  have hlist := congrArg String.toList h
  simp [written, recursionMark] at hlist

end Deque

end EvictingDeque
