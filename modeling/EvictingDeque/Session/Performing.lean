import EvictingDeque.Session.Owned
import EvictingDeque.Session.Shared

set_option autoImplicit false

/-!
# Performing steps

`Meaning.next` gives the meaning one level further out, in which whatever happens inside has the meaning it
is given. `Meaning.upTo` stacks such levels on nothing: its depth bounds how deeply writing, comparing and
performing may call one another, not how often.
-/
namespace EvictingDeque

open EvictingDeque.Action

namespace Source

/-- Nothing is built from a document that cannot be read. -/
def build : Source Literal → Action (Option (Deque Element))
  | .empty bound => return some (.empty bound)
  | .settings chosen =>
    match chosen.build? with
    | none => panic .noRoom
    | some d => return some d
  | .items values bound => return some (.ofList (← values.mapM resolve) bound)
  | .document kind stored => return Deque.ofDocument? (Value.ofDocument? kind) stored
  | .register name => return some (← ownedRegister name)

end Source

namespace Meaning

/-- The operation works on the deque as it was at the start, and what that one owns stays alive meanwhile,
whatever acting elements put into the register. An operation that changes deques puts its deque into the
register at its end: its result, or after an interruption the deque as it was at the start. -/
def runOwned (m : Meaning) (name : String) (op : OwnedOp Literal) : Action Answer := do
  let resolved ← op.mapM resolve
  let d ← ownedRegister name
  let working := pinning d.owners (resolved.run m d)
  if op.changes then
    let (answer, after) ← working.recovering (putOwned name d)
    setOwned name after
    return answer
  else return (← working).1

/-- An operation of a body, on the deque that is held for it. -/
def runHeld (m : Meaning) (id : Nat) (exclusive : Bool) (op : OwnedOp Literal) : Action Answer := do
  if op.changes && !exclusive then interrupt .misplaced
  let resolved ← op.mapM resolve
  let d ← read fun s => (s.cell id).deque
  let (answer, after) ← resolved.run m d
  if op.changes then update fun s => s.putCell id { s.cell id with deque := after }
  return answer

def runBody (m : Meaning) (id : Nat) (exclusive : Bool) :
    List (OwnedOp Literal ⊕ Step) → Action (List Answer)
  | [] => return []
  | .inl op :: body => return (← runHeld m id exclusive op) :: (← runBody m id exclusive body)
  | .inr step :: body => return (← m.perform step) :: (← runBody m id exclusive body)

def performStep (m : Meaning) : Step → Action Answer
  | .panic message => panic (.raised message)
  | .chooseWarnings on => do
    update fun s => { s with warnings := s.warnings.choose on }
    return .nothing
  | .askWarnings => fun s =>
    let (allowed, switch) := s.warnings.ask
    (.ok (.flag allowed), { s with warnings := switch })
  | .warn message => do
    warn message
    return .nothing
  | .createOwned name source => do
    match ← source.build with
    | none => return .unreadable
    | some d =>
      setOwned name d
      return .created d.bound
  | .owned name op => runOwned m name op
  | .createShared name source => do
    match ← source.build with
    | none => return .unreadable
    | some d =>
      setShared name (← newCell d)
      return .created d.bound
  | .shared name op => do
    let op ← op.mapM resolve
    op.run m (← sharedRegister name)
  | .hold name exclusive body => do
    let id ← sharedRegister name
    let answers ←
      if exclusive then holdingForChange id (runBody m id exclusive body)
      else holdingForReading id (runBody m id exclusive body)
    return .several answers
  | .drop name => do
    let existed ← read fun s => (s.shared.get? name).isSome
    update fun s => { s with shared := s.shared.erase name }
    return .flag existed
  | .upgrade name weak => do
    let id ← required (·.weak.get? weak)
    let alive ← read (·.isLiving id)
    if alive then setShared name id
    return .flag alive
  | .cursor _ cursor op => op.run cursor

def next (m : Meaning) : Meaning where
  write := m.writeElement
  equal := m.equalElements
  perform := m.performStep

def upTo : Nat → Meaning
  | 0 => tooDeep
  | depth + 1 => (upTo depth).next

end Meaning

end EvictingDeque
