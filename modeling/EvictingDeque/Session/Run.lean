import EvictingDeque.Session.Performing

set_option autoImplicit false

/-!
# Running a session

Each step is reported with its answer, the elements of the register it addressed, what hooks did and what was
printed. An interrupted step answers the interruption, and the session goes on with what was changed before
it.
-/
namespace EvictingDeque

structure Report where
  answer : Answer
  items : Option (List Element)
  events : List (String × Answer)
  printed : String

namespace Step

/-- The elements of the register that the step addresses, front to back. -/
def itemsAfter (s : Session) : Step → Option (List Element)
  | .createOwned name _ | .owned name _ => (s.ownedDeque? name).map (·.items)
  | .createShared name _ | .shared name _ | .hold name _ _ | .drop name | .upgrade name _
  | .cursor name _ _ => (s.shared.get? name).map fun id => (s.cell id).deque.items
  | _ => none

end Step

namespace Session

def performAndReport (m : Meaning) (step : Step) (s : Session) : Report × Session :=
  let (outcome, after) := m.perform step { s with events := [], printed := "" }
  let answer :=
    match outcome with
    | .ok answer => answer
    | .error cause => .interrupted cause
  (⟨answer, step.itemsAfter after, after.events.reverse, after.printed⟩, after)

def runFrom (m : Meaning) : List Step → Session → List Report
  | [], _ => []
  | step :: steps, s =>
    let (report, after) := performAndReport m step s
    report :: runFrom m steps after

/-- The session after all of these steps. -/
def endOf (m : Meaning) : List Step → Session → Session
  | [], s => s
  | step :: steps, s => endOf m steps (performAndReport m step s).2

/-- How deeply things may happen inside one another. -/
def standardDepth : Nat := 40000

def run (hooks : List (String × Hook)) (environment : Option String) (steps : List Step) : List Report :=
  runFrom (Meaning.upTo standardDepth) steps (start hooks environment)

end Session

end EvictingDeque
