import EvictingDeque.Deque.Repetition
import EvictingDeque.Session.Searching
import EvictingDeque.Session.Writing

set_option autoImplicit false

/-!
# Operations on a deque at hand

The deque comes in and goes out as a value; whoever has it at hand decides where it is put back. An
operation that is interrupted gives no deque back.
-/
namespace EvictingDeque

def Link.toDocument : Link Handle → Document
  | .weak target => .object [("weak", .text target.name)]
  | .own target => .object [("own", .text target.name)]
  | .hook id => .object [("hook", .text id)]

def Deque.stored (d : Deque Element) : String :=
  (d.toDocument (Value.toDocument Link.toDocument)).compact

namespace OwnedOp

open EvictingDeque.Action

def rank (d other : Deque Element) : Option Answer :=
  (Value.compareLists? d.items other.items).map fun order =>
    if order = .gt then .rank order d.items other.items else .rank order other.items d.items

def keep (into : Option String) (d : Deque Element) : Action Unit :=
  match into with
  | none => pure ()
  | some name => setOwned name d

def orNoRoom (d : Option (Deque Element)) : Action (Deque Element) :=
  match d with
  | none => panic .noRoom
  | some d => pure d

def run (m : Meaning) (d : Deque Element) : OwnedOp Element → Action (Answer × Deque Element)
  | .edit change => do
    let (outcome, after) := change.apply d
    return (answerOptional outcome, after)
  | .ends op => do
    let (outcome, after) := (Deque.ends.run op).run d
    return (answerEnds outcome, after)
  | .ask query => return (← runQuery (pure d) (locateIn m d.items) query, d)
  | .extent => return (.extent d.extent, d)
  | .front => return (.element d.items.head?, d)
  | .back => return (.element d.items.getLast?, d)
  | .slot position =>
    match d.get? position with
    | none => panic .outOfBounds
    | some value => return (.element (some value), d)
  | .indexWithin value span => do
    let start := span.first d.length
    let stop := span.past d.length
    let found ← locateIn m ((d.items.drop start).take (stop - start)) value true
    return (answerSize ((firstOf found).map (start + ·)), d)
  | .walk sides => return (.slots (d.walk sides), d)
  | .written => return (.text (← writeItems m.write d), d)
  | .stored => return (.text d.stored, d)
  | .remove value => do
    match firstOf (← locateIn m d.items value true) with
    | .error refusal => return (.refused refusal, d)
    | .ok position =>
      match d.removeAt position with
      | .error refusal => return (.refused refusal, d)
      | .ok (value, after) => return (.element (some value), after)
  | .removeAt position =>
    match d.removeAt position with
    | .error refusal => return (.refused refusal, d)
    | .ok (value, after) => return (.element (some value), after)
  | .replace position value =>
    match d.replace position value with
    | none => return (.nothing, d)
    | some (old, after) => return (.element (some old), after)
  | .assign position value =>
    match d.replace position value with
    | none => panic .outOfBounds
    | some (_, after) => return (.nothing, after)
  | .addInteger summand => return (.nothing, d.map (Value.addInteger summand))
  | .repeatInPlace times => return (.nothing, ← orNoRoom (d.repeated? times))
  | .concatInPlace other => return (.nothing, d.concat (← ownedRegister other))
  | .copy into => do
    keep into d
    return (.deque d, d)
  | .repeated times into => do
    let result ← orNoRoom (d.repeated? times)
    keep into result
    return (.deque result, d)
  | .concat other into => do
    let result := d.concat (← ownedRegister other)
    keep into result
    return (.deque result, d)
  | .compareWith other => do
    let other ← ownedRegister other
    let same := pinning other.owners (equalItems m.equal d.items other.items)
    let equal ← same
    let again ← same
    let order := Value.compareLists? d.items other.items
    return (.comparison (Comparison.ofOrder equal (!again) order), d)
  | .rankWith other => do
    match rank d (← ownedRegister other) with
    | none => interrupt .misplaced
    | some answer => return (answer, d)
  | .hashAgreesWith other => do
    let other ← ownedRegister other
    return (.flag (Value.compareLists? d.items other.items == some .eq), d)

end OwnedOp

end EvictingDeque
