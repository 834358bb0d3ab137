import EvictingDeque.Session.Searching
import EvictingDeque.Session.Writing

set_option autoImplicit false

/-!
# Operations through a handle

Every handle of a shared deque names the same cell, so these operations take the cell. Bulk extension through
the two ends is one change for each element; as an edit it is a single one.
-/
namespace EvictingDeque

namespace Action

/-- A shared deque as a sequence with two ends. -/
def sharedEnds (id : Nat) : DoubleEnded Action Element where
  length := return (← readCell id).deque.length
  bound := return (← readCell id).deque.bound
  pushBack value := do
    let outcome ← changeCell id fun cell => cell.edit (.pushBack value)
    return outcome.toOption.join
  pushFront value := do
    let outcome ← changeCell id fun cell => cell.edit (.pushFront value)
    return outcome.toOption.join
  popBack := do
    let outcome ← changeCell id fun cell => cell.edit .popBack
    return outcome.toOption.join
  popFront := do
    let outcome ← changeCell id fun cell => cell.edit .popFront
    return outcome.toOption.join

/-- What a cursor does needs a reading of its deque, unless the cursor is finished. -/
def withCursor {β : Type} (name : String) (visit : Cursor → Cell Element → β × Cursor)
    (happening : String → Nat → β → Happening) : Action β := do
  let cursor ← required (·.cursors.get? name)
  let cell ← if cursor.finished then read (·.cell cursor.cell) else readCell cursor.cell
  let (value, cursor) := visit cursor cell
  update fun s => { s with cursors := s.cursors.put name cursor }.note (happening name cell.mutations value)
  return value

def advanceCursor (name : String) : Action (Option (Except Refusal Element)) :=
  withCursor name Cursor.advance .advanced

def drainCursor (name : String) : Action (List (Except Refusal Element)) := withCursor name Cursor.drain .drained

end Action

namespace CursorOp

open EvictingDeque.Action

def run (name : String) : CursorOp → Action Answer
  | .next => do
    match ← advanceCursor name with
    | none => return .nothing
    | some visit => return answerElement visit
  | .collect => do
    match Cursor.collected (← drainCursor name) with
    | .ok values => return .elements values
    | .error refusal => return .refused refusal
  | .drop => do
    let existed ← read fun s => (s.cursors.get? name).isSome
    update fun s => { s with cursors := s.cursors.erase name }.note (.dropped name)
    return .flag existed

end CursorOp

namespace SharedOp

open EvictingDeque.Action

def run (m : Meaning) (id : Nat) : SharedOp Element → Action Answer
  | .edit change => return answerOptional (← changeCell id fun cell => cell.edit change)
  | .ends op => return answerEnds (← (sharedEnds id).run op)
  | .ask query => runQuery (return (← readCell id).deque) (locateShared m id) query
  | .remove value => do
    match firstOf (← locateShared m id value true) with
    | .error refusal => return .refused refusal
    | .ok position => return answerElement (← changeCell id fun cell => cell.removeAt position)
  | .extent => do
    let d := (← readCell id).deque
    return .extentWithoutFull d.length d.bound d.isEmpty
  | .written => return .text (← writeCell m.write id)
  | .share into => do
    setShared into id
    return .nothing
  | .copy into => do
    let d := (← readCell id).deque
    let copy ← newCell d
    let equal ← equalCells m.equal copy id
    setShared into copy
    return .copied d.bound (decide (copy = id)) equal
  | .downgrade into => do
    update fun s => { s with weak := s.weak.put into id }
    return .nothing
  | .samePlace other => return .flag (decide (id = (← sharedRegister other)))
  | .equal other => return .flag (← equalCells m.equal id (← sharedRegister other))
  | .visit cursor => do
    let cell ← readCell id
    update fun s => { s with cursors := s.cursors.put cursor (.start id cell) }.note
      (.made cursor id cell.mutations cell.deque.items)
    return .nothing
  | .extendFrom cursor => do
    let values := Cursor.elements (← drainCursor cursor)
    return answerOptional (← changeCell id fun cell => cell.edit (.extendBack values))

end SharedOp

end EvictingDeque
