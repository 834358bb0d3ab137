import EvictingDeque.Proofs.Deque.Contents
import EvictingDeque.Session.Searching

set_option autoImplicit false

/-!
# The plain model

What every operation does, said of a list and a bound as directly as it can be: each push evicts at the opposite end if
there are too many elements then, bulk operations are one push after the other, a rotation is one to the right by the
remainder, and searches look for the first element, or count those, that a fixed comparison accepts.
-/
namespace EvictingDeque

/-- Operations that owned and shared deques have in common. -/
inductive Request (α : Type) where
  | edit (change : Edit α)
  | ends (op : EndOp α)
  | ask (query : Query α)
  | remove (value : α)
  | extent

namespace Request

variable {α : Type}

def owned : Request α → OwnedOp α
  | .edit change => .edit change
  | .ends op => .ends op
  | .ask query => .ask query
  | .remove value => .remove value
  | .extent => .extent

def shared : Request α → SharedOp α
  | .edit change => .edit change
  | .ends op => .ends op
  | .ask query => .ask query
  | .remove value => .remove value
  | .extent => .extent

end Request

def Query.sought {α : Type} : Query α → List α
  | .count value | .contains value | .index value => [value]
  | _ => []

/-- The elements that a request brings along. -/
def Request.values {α : Type} : Request α → List α
  | .edit change => change.offered
  | .ends op => op.offered
  | .ask query => query.sought
  | .remove value => [value]
  | .extent => []

namespace Plain

variable {α : Type}

def tooMany (bound : Option Nat) (items : List α) : Bool :=
  match bound with
  | none => false
  | some bound => decide (bound < items.length)

def pushBack (bound : Option Nat) (items : List α) (value : α) : Option α × List α :=
  let grown := items ++ [value]
  if tooMany bound grown then (grown.head?, grown.tail) else (none, grown)

def pushFront (bound : Option Nat) (items : List α) (value : α) : Option α × List α :=
  let grown := value :: items
  if tooMany bound grown then (grown.getLast?, grown.dropLast) else (none, grown)

def extendBack (bound : Option Nat) (items values : List α) : List α :=
  values.foldl (fun items value => (pushBack bound items value).2) items

def extendFront (bound : Option Nat) (items values : List α) : List α :=
  values.foldl (fun items value => (pushFront bound items value).2) items

def insert (bound : Option Nat) (items : List α) (index : Nat) (value : α) : Except Refusal (List α) :=
  let grown := items.take (min index items.length) ++ value :: items.drop (min index items.length)
  match bound with
  | none => .ok grown
  | some bound => if items.length < bound then .ok grown else .error (.full bound)

/-- The remainder is never negative. -/
def rotate (items : List α) (steps : Int) : List α := items.rotateRight (steps % items.length).toNat

def extent (d : Deque α) : Extent where
  length := d.items.length
  bound := d.bound
  isEmpty := decide (d.items.length = 0)
  isFull := d.bound.any fun bound => decide (bound ≤ d.items.length)

def edit : Edit α → Deque α → Except Refusal (Option α) × Deque α
  | .pushBack value, ⟨items, bound⟩ => (.ok (pushBack bound items value).1, ⟨(pushBack bound items value).2, bound⟩)
  | .pushFront value, ⟨items, bound⟩ => (.ok (pushFront bound items value).1, ⟨(pushFront bound items value).2, bound⟩)
  | .popBack, ⟨items, bound⟩ => (.ok items.getLast?, ⟨items.dropLast, bound⟩)
  | .popFront, ⟨items, bound⟩ => (.ok items.head?, ⟨items.tail, bound⟩)
  | .extendBack values, ⟨items, bound⟩ => (.ok none, ⟨extendBack bound items values, bound⟩)
  | .extendFront values, ⟨items, bound⟩ => (.ok none, ⟨extendFront bound items values, bound⟩)
  | .clear, ⟨_, bound⟩ => (.ok none, ⟨[], bound⟩)
  | .insert index value, ⟨items, bound⟩ =>
    match insert bound items index value with
    | .error refusal => (.error refusal, ⟨items, bound⟩)
    | .ok items => (.ok none, ⟨items, bound⟩)
  | .rotate steps, ⟨items, bound⟩ => (.ok none, ⟨rotate items steps, bound⟩)
  | .reverse, ⟨items, bound⟩ => (.ok none, ⟨items.reverse, bound⟩)

def ends : EndOp α → Deque α → (Extent ⊕ Option α) × Deque α
  | .extent, d => (.inl (extent d), d)
  | .pushBack value, ⟨items, bound⟩ => (.inr (pushBack bound items value).1, ⟨(pushBack bound items value).2, bound⟩)
  | .pushFront value, ⟨items, bound⟩ => (.inr (pushFront bound items value).1, ⟨(pushFront bound items value).2, bound⟩)
  | .popBack, ⟨items, bound⟩ => (.inr items.getLast?, ⟨items.dropLast, bound⟩)
  | .popFront, ⟨items, bound⟩ => (.inr items.head?, ⟨items.tail, bound⟩)
  | .extendBack values, ⟨items, bound⟩ => (.inr none, ⟨extendBack bound items values, bound⟩)
  | .extendFront values, ⟨items, bound⟩ => (.inr none, ⟨extendFront bound items values, bound⟩)

/-- Stored elements stand on the left. -/
def query (same : Element → Element → Bool) (items : List Element) : Query Element → Answer
  | .get index => .element items[index]?
  | .toList => .elements items
  | .count value => .size (items.countP fun stored => same stored value)
  | .contains value => .flag (items.any fun stored => same stored value)
  | .index value =>
    match items.findIdx? fun stored => same stored value with
    | none => .refused .notFound
    | some index => .size index

def remove (same : Element → Element → Bool) (value : Element) (d : Deque Element) : Answer × Deque Element :=
  match d.items.findIdx? fun stored => same stored value with
  | none => (.refused .notFound, d)
  | some index => (.element d.items[index]?, ⟨d.items.eraseIdx index, d.bound⟩)

def perform (same : Element → Element → Bool) : Request Element → Deque Element → Answer × Deque Element
  | .edit change, d => (Action.answerOptional (edit change d).1, (edit change d).2)
  | .ends op, d => (Action.answerEnds (ends op d).1, (ends op d).2)
  | .ask asked, d => (query same d.items asked, d)
  | .remove value, d => remove same value d
  | .extent, d => (.extent (extent d), d)

end Plain

end EvictingDeque
