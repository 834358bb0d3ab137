import EvictingDeque.Deque.Basic

set_option autoImplicit false

/-!
# Sequences with two ends

What can be done at the two ends of a sequence, in any monad that carries the sequence. The bulk
operations are built from single pushes, so that eviction happens after each of them.
-/
namespace EvictingDeque

structure DoubleEnded (m : Type → Type) (α : Type) where
  length : m Nat
  bound : m (Option Nat)
  pushBack : α → m (Option α)
  pushFront : α → m (Option α)
  popBack : m (Option α)
  popFront : m (Option α)

namespace DoubleEnded

variable {m : Type → Type} [Monad m] {α : Type}

def isEmpty (ends : DoubleEnded m α) : m Bool := do
  return (← ends.length) == 0

def isFull (ends : DoubleEnded m α) : m Bool := do
  match ← ends.bound with
  | none => return false
  | some bound => return decide (bound ≤ (← ends.length))

def extendBack (ends : DoubleEnded m α) : List α → m Unit
  | [] => pure ()
  | value :: values => do
    let _ ← ends.pushBack value
    ends.extendBack values

def extendFront (ends : DoubleEnded m α) : List α → m Unit
  | [] => pure ()
  | value :: values => do
    let _ ← ends.pushFront value
    ends.extendFront values

end DoubleEnded

/-- What can be asked of a sequence about its size. -/
structure Extent where
  length : Nat
  bound : Option Nat
  isEmpty : Bool
  isFull : Bool
deriving DecidableEq, Repr

/-- Operations at the ends as data. -/
inductive EndOp (α : Type) where
  | extent
  | pushBack (value : α)
  | pushFront (value : α)
  | popBack
  | popFront
  | extendBack (values : List α)
  | extendFront (values : List α)
deriving DecidableEq, Repr

def EndOp.changes {α : Type} : EndOp α → Bool
  | .extent => false
  | _ => true

namespace DoubleEnded

variable {m : Type → Type} [Monad m] {α : Type}

def extent (ends : DoubleEnded m α) : m Extent := do
  let length ← ends.length
  let bound ← ends.bound
  let isEmpty ← ends.isEmpty
  let isFull ← ends.isFull
  return ⟨length, bound, isEmpty, isFull⟩

/-- The answer of an operation at the ends: the extent, or an element if there is one. -/
def run (ends : DoubleEnded m α) : EndOp α → m (Extent ⊕ Option α)
  | .extent => return .inl (← ends.extent)
  | .pushBack value => return .inr (← ends.pushBack value)
  | .pushFront value => return .inr (← ends.pushFront value)
  | .popBack => return .inr (← ends.popBack)
  | .popFront => return .inr (← ends.popFront)
  | .extendBack values => do
    ends.extendBack values
    return .inr none
  | .extendFront values => do
    ends.extendFront values
    return .inr none

end DoubleEnded

/-- A deque that is carried along as the state. -/
def Deque.ends {α : Type} : DoubleEnded (StateM (Deque α)) α where
  length := return (← get).length
  bound := return (← get).bound
  pushBack value := fun d => d.pushBack value
  pushFront value := fun d => d.pushFront value
  popBack := fun d => d.popBack
  popFront := fun d => d.popFront

namespace Deque

variable {α : Type}

def extent (d : Deque α) : Extent := ⟨d.length, d.bound, d.isEmpty, d.isFull⟩

theorem run_extendBack (d : Deque α) (values : List α) :
    (ends.extendBack values).run d = ((), d.extendBack values) := by
  induction values generalizing d with
  | nil => rw [Deque.extendBack_nil]; rfl
  | cons value values ih => rw [Deque.extendBack_cons]; exact ih (d.pushBack value).2

theorem run_extendFront (d : Deque α) (values : List α) :
    (ends.extendFront values).run d = ((), d.extendFront values) := by
  induction values generalizing d with
  | nil => rw [Deque.extendFront_nil]; rfl
  | cons value values ih => rw [Deque.extendFront_cons]; exact ih (d.pushFront value).2

/-- Asked about its size through its ends, a deque answers what it answers directly. -/
theorem run_extent (d : Deque α) : ends.extent.run d = (d.extent, d) := by
  rcases d with ⟨items, bound⟩
  have h : (items.length == 0) = items.isEmpty := by cases items <;> rfl
  cases bound <;> exact congrArg (fun b => ((⟨_, _, b, _⟩ : Extent), _)) h

end Deque

/-- A call that reached one of the single operations at the ends. -/
inductive EndCall (α : Type) where
  | pushBack (value : α)
  | pushFront (value : α)
  | popBack
  | popFront
deriving DecidableEq, Repr

namespace EndCall

variable {α : Type}

def record (call : EndCall α) : StateM (List (EndCall α)) (Option α) :=
  fun calls => (none, calls ++ [call])

/-- A sequence of unchanging size that only writes down what is asked of it. -/
def recorder (length : Nat) (bound : Option Nat) : DoubleEnded (StateM (List (EndCall α))) α where
  length := pure length
  bound := pure bound
  pushBack value := record (.pushBack value)
  pushFront value := record (.pushFront value)
  popBack := record .popBack
  popFront := record .popFront

/-- Ask for emptiness and fullness, extend at the back and then at the front. -/
def probe (length : Nat) (bound : Option Nat) (back front : List α) :
    Bool × Bool × List (EndCall α) :=
  let ends := recorder length bound
  let asked : StateM (List (EndCall α)) (Bool × Bool) := do
    let isEmpty ← ends.isEmpty
    let isFull ← ends.isFull
    ends.extendBack back
    ends.extendFront front
    return (isEmpty, isFull)
  let ((isEmpty, isFull), calls) := asked.run []
  (isEmpty, isFull, calls)

end EndCall

end EvictingDeque
