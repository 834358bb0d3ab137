import EvictingDeque.Deque.Refusal

set_option autoImplicit false

/-!
# Deques that may carry a bound

A deque is the list of its elements, front first, together with an optional bound on their number.
Pushing onto a full deque evicts one element at the opposite end and hands it back. Eviction happens
after every single push; what a bulk operation leaves is stated at once, and `extendBack_cons` and
`extendFront_cons` say that it is what the pushes leave.

Nothing here forces the elements to fit the bound: `Fits` says it, and it holds of every deque that is
built from an empty one by these operations. Storage is not modelled.
-/
namespace EvictingDeque

structure Deque (α : Type) where
  items : List α
  bound : Option Nat
deriving DecidableEq, Repr

namespace Deque

variable {α : Type}

def empty (bound : Option Nat) : Deque α := ⟨[], bound⟩

def length (d : Deque α) : Nat := d.items.length

def isEmpty (d : Deque α) : Bool := d.items.isEmpty

/-- A full deque cannot take another element without losing one. -/
def isFull (d : Deque α) : Bool :=
  match d.bound with
  | none => false
  | some bound => decide (bound ≤ d.items.length)

def isOverfull (d : Deque α) : Bool :=
  match d.bound with
  | none => false
  | some bound => decide (bound < d.items.length)

/-- The elements respect the bound. -/
def Fits (d : Deque α) : Prop := ∀ bound, d.bound = some bound → d.items.length ≤ bound

def popBack (d : Deque α) : Option α × Deque α :=
  (d.items.getLast?, ⟨d.items.dropLast, d.bound⟩)

def popFront (d : Deque α) : Option α × Deque α :=
  (d.items.head?, ⟨d.items.tail, d.bound⟩)

/-- The first component is the element that had to leave at the front. -/
def pushBack (d : Deque α) (value : α) : Option α × Deque α :=
  let grown : Deque α := ⟨d.items ++ [value], d.bound⟩
  if grown.isOverfull then grown.popFront else (none, grown)

/-- The first component is the element that had to leave at the back. -/
def pushFront (d : Deque α) (value : α) : Option α × Deque α :=
  let grown : Deque α := ⟨value :: d.items, d.bound⟩
  if grown.isOverfull then grown.popBack else (none, grown)

/-- How many of so many pushes evict an element: from the first that finds the deque full, each does. -/
def evictions (d : Deque α) (pushes : Nat) : Nat :=
  match d.bound with
  | none => 0
  | some bound => min pushes (d.items.length + pushes - bound)

/-- What one push for each value leaves. -/
def extendBack (d : Deque α) (values : List α) : Deque α :=
  ⟨(d.items ++ values).drop (d.evictions values.length), d.bound⟩

/-- What one push at the front for each value leaves: the values end up there in reverse order. -/
def extendFront (d : Deque α) (values : List α) : Deque α :=
  let all := values.reverse ++ d.items
  ⟨all.take (all.length - d.evictions values.length), d.bound⟩

/-- Of too many values only the trailing ones are kept. -/
def ofList (values : List α) (bound : Option Nat) : Deque α :=
  (empty bound).extendBack values

def clear (d : Deque α) : Deque α := ⟨[], d.bound⟩

def get? (d : Deque α) (index : Nat) : Option α := d.items[index]?

/-- An insertion in the middle has no opposite end to evict from, so a full deque refuses it. An index
past the end means the end. -/
def insert (d : Deque α) (index : Nat) (value : α) : Except Refusal (Deque α) :=
  let grown : Deque α := ⟨d.items.take index ++ value :: d.items.drop index, d.bound⟩
  match d.bound with
  | none => .ok grown
  | some bound => if bound ≤ d.items.length then .error (.full bound) else .ok grown

def removeAt (d : Deque α) (index : Nat) : Except Refusal (α × Deque α) :=
  match d.items[index]? with
  | none => .error (.indexOutOfRange index d.items.length)
  | some value => .ok (value, ⟨d.items.eraseIdx index, d.bound⟩)

/-- The element that was overwritten, or nothing if there is no such position. -/
def replace (d : Deque α) (index : Nat) (value : α) : Option (α × Deque α) :=
  (d.items[index]?).map fun old => (old, ⟨d.items.set index value, d.bound⟩)

/-- The first `count` elements move behind the others. -/
def turn (items : List α) (count : Nat) : List α := items.drop count ++ items.take count

/-- A positive number of steps moves elements from the back to the front, a negative one the other
way. -/
def rotate (d : Deque α) (steps : Int) : Deque α :=
  let length := d.items.length
  if length ≤ 1 then d
  else
    let shift := steps.natAbs % length
    if 0 ≤ steps then ⟨turn d.items (length - shift), d.bound⟩ else ⟨turn d.items shift, d.bound⟩

def reverse (d : Deque α) : Deque α := ⟨d.items.reverse, d.bound⟩

/-- The elements of another deque behind these, under the bound of the left operand. -/
def concat (d other : Deque α) : Deque α := d.extendBack other.items

def map {β : Type} (f : α → β) (d : Deque α) : Deque β := ⟨d.items.map f, d.bound⟩

@[simp]
theorem items_empty (bound : Option Nat) : (empty bound : Deque α).items = [] := rfl

@[simp]
theorem bound_empty (bound : Option Nat) : (empty bound : Deque α).bound = bound := rfl

@[simp]
theorem bound_pushBack (d : Deque α) (value : α) : (d.pushBack value).2.bound = d.bound := by
  unfold pushBack
  dsimp only
  split <;> rfl

@[simp]
theorem bound_pushFront (d : Deque α) (value : α) : (d.pushFront value).2.bound = d.bound := by
  unfold pushFront
  dsimp only
  split <;> rfl

@[simp]
theorem extendBack_nil (d : Deque α) : d.extendBack [] = d := by
  rcases d with ⟨items, bound⟩
  cases bound <;> simp [extendBack, evictions]

@[simp]
theorem extendBack_cons (d : Deque α) (value : α) (values : List α) :
    d.extendBack (value :: values) = (d.pushBack value).2.extendBack values := by
  rcases d with ⟨items, bound⟩
  cases bound with
  | none => simp [extendBack, evictions, pushBack, isOverfull]
  | some bound =>
    by_cases h : bound < items.length + 1
    · have hd : min (values.length + 1) (items.length + (values.length + 1) - bound) = values.length + 1 := by
        omega
      have ht : min values.length (items.length + values.length - bound) = values.length := by omega
      cases items with
      | nil => simp_all [extendBack, evictions, pushBack, popFront, isOverfull]
      | cons first items => simp_all [extendBack, evictions, pushBack, popFront, isOverfull]
    · have hd : min (values.length + 1) (items.length + (values.length + 1) - bound) =
          min values.length (items.length + 1 + values.length - bound) := by omega
      simp [extendBack, evictions, pushBack, isOverfull, h, hd]

@[simp]
theorem extendFront_nil (d : Deque α) : d.extendFront [] = d := by
  rcases d with ⟨items, bound⟩
  cases bound <;> simp [extendFront, evictions]

@[simp]
theorem extendFront_cons (d : Deque α) (value : α) (values : List α) :
    d.extendFront (value :: values) = (d.pushFront value).2.extendFront values := by
  rcases d with ⟨items, bound⟩
  cases bound with
  | none => simp [extendFront, evictions, pushFront, isOverfull]
  | some bound =>
    by_cases h : bound < items.length + 1
    · have hd : min (values.length + 1) (items.length + (values.length + 1) - bound) = values.length + 1 := by
        omega
      have ht : min values.length (items.length + values.length - bound) = values.length := by omega
      have hall : values.length + (items.length + 1) - (values.length + 1) = items.length := by omega
      simp [extendFront, evictions, pushFront, popBack, isOverfull, h, hd, ht, hall,
        List.dropLast_eq_take, List.take_append, List.take_take]
    · have hd : min (values.length + 1) (items.length + (values.length + 1) - bound) =
          min values.length (items.length + 1 + values.length - bound) := by omega
      simp [extendFront, evictions, pushFront, isOverfull, h, hd]

theorem extendBack_append (d : Deque α) (xs ys : List α) :
    d.extendBack (xs ++ ys) = (d.extendBack xs).extendBack ys := by
  induction xs generalizing d with
  | nil => simp
  | cons x xs ih => simp [ih]

@[simp]
theorem bound_extendBack (d : Deque α) (values : List α) : (d.extendBack values).bound = d.bound := rfl

@[simp]
theorem bound_extendFront (d : Deque α) (values : List α) :
    (d.extendFront values).bound = d.bound := rfl

end Deque

end EvictingDeque
