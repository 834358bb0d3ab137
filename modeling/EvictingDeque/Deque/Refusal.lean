set_option autoImplicit false

/-!
# Refusals

Why an operation on a deque was refused, as a cause with its circumstances, and the two texts of a cause:
the message, and the cause with its circumstances by name.
-/
namespace EvictingDeque

inductive Refusal where
  | notFound
  | full (bound : Nat)
  | indexOutOfRange (index length : Nat)
  | changedDuringVisit
deriving DecidableEq, Repr

namespace Refusal

def message : Refusal → String
  | .notFound => "value not found in deque"
  | .full bound => "deque already at its maximum size (" ++ toString bound ++ ")"
  | .indexOutOfRange index length =>
    "deque index " ++ toString index ++ " out of range for length " ++ toString length
  | .changedDuringVisit => "deque mutated during iteration"

def detailed : Refusal → String
  | .notFound => "NotFound"
  | .full bound => "Full \x7b maxlen: " ++ toString bound ++ " \x7d"
  | .indexOutOfRange index length =>
    "IndexOutOfRange \x7b index: " ++ toString index ++ ", len: " ++ toString length ++ " \x7d"
  | .changedDuringVisit => "MutatedDuringIteration"

end Refusal

end EvictingDeque
