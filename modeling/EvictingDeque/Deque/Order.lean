import EvictingDeque.Deque.Basic

set_option autoImplicit false

/-!
# Comparing deques

Deques are compared by their elements alone, front to back; the bounds play no part. The first pair of
elements that is not equal decides, and if that pair is unordered so are the deques. A deque that runs
out of elements first is the smaller one.
-/
namespace EvictingDeque

/-- What the six comparison operators and the partial order say about two values. -/
structure Comparison where
  equal : Bool
  different : Bool
  less : Bool
  atMost : Bool
  greater : Bool
  atLeast : Bool
  order : Option Ordering
deriving DecidableEq, Repr

/-- The four order operators follow the partial order: where it is silent, none of them holds. -/
def Comparison.ofOrder (equal different : Bool) (order : Option Ordering) : Comparison where
  equal := equal
  different := different
  less := order == some .lt
  atMost := order == some .lt || order == some .eq
  greater := order == some .gt
  atLeast := order == some .gt || order == some .eq
  order := order

namespace Deque

variable {α : Type}

def sameItems (same : α → α → Bool) : List α → List α → Bool
  | [], [] => true
  | a :: as, b :: bs => same a b && sameItems same as bs
  | _, _ => false

def compareItems? (order? : α → α → Option Ordering) : List α → List α → Option Ordering
  | [], [] => some .eq
  | [], _ :: _ => some .lt
  | _ :: _, [] => some .gt
  | a :: as, b :: bs =>
    match order? a b with
    | some .eq => compareItems? order? as bs
    | decided => decided

def same (same : α → α → Bool) (d e : Deque α) : Bool := sameItems same d.items e.items

def compare? (order? : α → α → Option Ordering) (d e : Deque α) : Option Ordering :=
  compareItems? order? d.items e.items

end Deque

end EvictingDeque
