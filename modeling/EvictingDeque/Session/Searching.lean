import EvictingDeque.Session.Comparing

set_option autoImplicit false

/-!
# Searching with acting elements

A search visits positions from the front and compares the element found there, on the left, with the value
searched for. In a shared deque nothing is held during a comparison; as soon as a comparison has mutated the
deque the search ends with a refusal, even if that comparison found the elements equal. Until then the deque
is what it was, so the search goes on in the elements that it found at the start.
-/
namespace EvictingDeque.Action

/-- The positions of the elements that pass the test, or only the first of them, behind those that were found
before, which are listed backwards. -/
def positionsFrom (test : Element → Action Bool) (onlyFirst : Bool) :
    Nat → List Nat → List Element → Action (List Nat)
  | _, found, [] => return found.reverse
  | position, found, item :: items => do
    let hit ← test item
    let found := if hit then position :: found else found
    if hit && onlyFirst then return found.reverse
    else positionsFrom test onlyFirst (position + 1) found items

/-- One comparison in a shared deque that has been mutated so many times; no result if that has changed. -/
def visit (id mutations : Nat) (test : Element → Action Bool) (item : Element) : Action (Option Bool) := do
  let hit ← pinning item.owners (test item)
  let after ← readCell id
  return if after.mutations = mutations then some hit else none

/-- As `positionsFrom`, in a shared deque that has been mutated so many times. -/
def scanFrom (id mutations : Nat) (test : Element → Action Bool) (onlyFirst : Bool) :
    Nat → List Nat → List Element → Action (Except Refusal (List Nat))
  | _, found, [] => return .ok found.reverse
  | position, found, item :: items => do
    match ← visit id mutations test item with
    | none => return .error .changedDuringVisit
    | some hit =>
      let found := if hit then position :: found else found
      if hit && onlyFirst then return .ok found.reverse
      else scanFrom id mutations test onlyFirst (position + 1) found items

def scan (id : Nat) (test : Element → Action Bool) (onlyFirst : Bool) :
    Action (Except Refusal (List Nat)) := do
  let cell ← readCell id
  scanFrom id cell.mutations test onlyFirst 0 [] cell.deque.items

/-- Where the elements that equal a value stand, in some deque. -/
abbrev Locate : Type := Element → Bool → Action (Except Refusal (List Nat))

def locateIn (m : Meaning) (items : List Element) : Locate := fun value onlyFirst =>
  pinning value.owners do
    return .ok (← positionsFrom (fun stored => m.equal stored value) onlyFirst 0 [] items)

def locateShared (m : Meaning) (id : Nat) : Locate := fun value onlyFirst =>
  pinning (id :: value.owners) (scan id (fun stored => m.equal stored value) onlyFirst)

def firstOf : Except Refusal (List Nat) → Except Refusal Nat
  | .error refusal => .error refusal
  | .ok [] => .error .notFound
  | .ok (position :: _) => .ok position

def answerSize : Except Refusal Nat → Answer
  | .ok value => .size value
  | .error refusal => .refused refusal

def answerElement : Except Refusal Element → Answer
  | .ok value => .element (some value)
  | .error refusal => .refused refusal

def answerOptional : Except Refusal (Option Element) → Answer
  | .ok value => .element value
  | .error refusal => .refused refusal

def answerEnds : Extent ⊕ Option Element → Answer
  | .inl extent => .extent extent
  | .inr value => .element value

def runQuery (contents : Action (Deque Element)) (locate : Locate) : Query Element → Action Answer
  | .get position => return .element ((← contents).get? position)
  | .toList => return .elements (← contents).items
  | .count value => return answerSize ((← locate value false).map List.length)
  | .contains value => do
    match ← locate value true with
    | .ok positions => return .flag !positions.isEmpty
    | .error refusal => return .refused refusal
  | .index value => return answerSize (firstOf (← locate value true))

end EvictingDeque.Action
