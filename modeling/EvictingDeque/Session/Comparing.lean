import EvictingDeque.Session.Meaning
import EvictingDeque.Value.Order

set_option autoImplicit false

/-!
# Comparing elements and shared deques

Two handles of one deque are equal without a look at its elements. Otherwise both contents are read first
and then compared element by element, lengths before anything else. Acting elements act only on the left.
-/
namespace EvictingDeque

namespace Action

def equalPairs (equal : Element → Element → Action Bool) : List Element → List Element → Action Bool
  | a :: as, b :: bs => do
    if ← equal a b then equalPairs equal as bs else return false
  | _, _ => return true

def equalItems (equal : Element → Element → Action Bool) (as bs : List Element) : Action Bool :=
  if as.length = bs.length then equalPairs equal as bs else pure false

def equalCells (equal : Element → Element → Action Bool) (a b : Nat) : Action Bool := do
  if a = b then return true
  let left ← readCell a
  let right ← readCell b
  pinning (a :: b :: left.deque.owners ++ right.deque.owners)
    (equalItems equal left.deque.items right.deque.items)

end Action

namespace Meaning

def equalElements (m : Meaning) : Element → Element → Action Bool
  | .link (.hook id), _ => do
    Hook.act m id (·.whenCompared)
    Action.read fun s => (s.hook id).equal
  | .nested d, .nested e => Action.equalItems m.equal d.items e.items
  | .link (.own a), .link (.own b) => Action.equalCells m.equal a.cell b.cell
  | .link (.weak a), .link (.weak b) =>
    if a.cell = b.cell then Action.read (·.isLiving a.cell) else pure false
  | a, b => pure (Value.sameAtom a b)

end Meaning

end EvictingDeque
