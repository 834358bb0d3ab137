import EvictingDeque.Session.State
import Std.Data.HashSet

set_option autoImplicit false

/-!
# Which shared deques are alive

A shared deque lives as long as a handle register, a cursor, an action in progress, or an owning element
in an owned register or in a living deque refers to it. Deques that own each other therefore stay alive
together. `living` strikes out whatever nothing refers to, until nothing more has to go, and that takes at
most as many rounds as there are deques. What is left is the largest set of deques that support each other.
-/
namespace EvictingDeque

namespace Session

def roots (s : Session) : List Nat :=
  s.shared.values ++ s.cursors.values.map (·.cell) ++ s.owned.values.flatMap (·.result) ++ s.pinned

/-- A shared deque and what it owns. -/
abbrev Holding : Type := Nat × List Nat

/-- What is referred to, if of the shared deques only these still count. -/
def referred (roots : List Nat) (among : List Holding) : List Nat := roots ++ among.flatMap (·.2)

def strike (roots : List Nat) : Nat → List Holding → List Holding
  | 0, holdings => holdings
  | rounds + 1, holdings =>
    let known := Std.HashSet.ofList (referred roots holdings)
    let kept := holdings.filter fun holding => known.contains holding.1
    if kept.length = holdings.length then holdings else strike roots rounds kept

def holdings (s : Session) : List Holding := s.cells.entries.map fun entry => (entry.1, entry.2.result)

def living (s : Session) : List Nat :=
  (strike s.roots s.cells.entries.length s.holdings).map (·.1)

/-- What is referred to from outside needs no support by another deque. -/
def isLiving (s : Session) (id : Nat) : Bool := s.roots.contains id || s.living.contains id

end Session

end EvictingDeque
