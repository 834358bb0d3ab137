import EvictingDeque.Proofs.Search.Rereading

set_option autoImplicit false

/-!
# Searches whose comparisons act

Whatever its comparisons do, a search of a shared deque goes through the elements it found at the start, once each and
in order. If a comparison mutates the deque, the search ends with a refusal and leaves everything as that comparison
left it. Otherwise the answers of the comparisons decide alone.
-/
namespace EvictingDeque

open Action

inductive Search where
  | count
  | contains
  | index
  | remove

namespace Search

def op {α : Type} (value : α) : Search → SharedOp α
  | .count => .ask (.count value)
  | .contains => .ask (.contains value)
  | .index => .ask (.index value)
  | .remove => .remove value

/-- All but counting need only the first hit. -/
def stopsEarly : Search → Bool
  | .count => false
  | _ => true

/-- What the answers of the comparisons dictate. -/
def answer (items : List Element) (hits : List Bool) : Search → Answer
  | .count => .size (hits.count true)
  | .contains => .flag (hits.contains true)
  | .index =>
    match hits.idxOf? true with
    | none => .refused .notFound
    | some position => .size position
  | .remove =>
    match hits.idxOf? true with
    | none => .refused .notFound
    | some position => .element items[position]?

end Search

namespace Action

variable {m : Meaning} {id : Nat} {value : Element} {s t : Session}

/-- What a search does once it knows where the hits are. -/
def finish (id : Nat) (located : Except Refusal (List Nat)) : Search → Action Answer
  | .count => return answerSize (located.map List.length)
  | .contains =>
    match located with
    | .ok positions => return .flag !positions.isEmpty
    | .error refusal => return .refused refusal
  | .index => return answerSize (firstOf located)
  | .remove =>
    match firstOf located with
    | .error refusal => return .refused refusal
    | .ok position => return answerElement (← changeCell id fun cell => cell.removeAt position)

theorem run_search (search : Search) :
    (search.op value).run m id =
      (do let located ← locateShared m id value search.stopsEarly; finish id located search) := by
  cases search <;> rfl

end Action

end EvictingDeque
