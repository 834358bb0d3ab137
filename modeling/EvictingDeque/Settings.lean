import EvictingDeque.Document.Stored

set_option autoImplicit false

/-!
# Settings for a new deque

A bound and a number of slots to set aside. The slots are never more than the bound allows.
-/
namespace EvictingDeque

structure Settings where
  bound : Option Nat
  capacity : Nat
deriving DecidableEq, Repr

namespace Settings

def standard : Settings := ⟨none, 0⟩

def withBound (settings : Settings) (bound : Nat) : Settings := { settings with bound := some bound }

def withCapacity (settings : Settings) (capacity : Nat) : Settings :=
  { settings with capacity := capacity }

def unbounded (settings : Settings) : Settings := { settings with bound := none }

/-- The number of slots that are set aside. -/
def initialCapacity (settings : Settings) : Nat :=
  match settings.bound with
  | none => settings.capacity
  | some bound => min settings.capacity bound

def toDocument (settings : Settings) : Document :=
  .object [("maxlen", .ofSize settings.bound), ("capacity", .ofSize (some settings.capacity))]

def ofDocument? : Document → Option Settings
  | .object fields => do
    let capacity ← Document.readSize? (← Document.field? fields "capacity")
    let bound ← Document.readOptionalBound? (Document.field? fields "maxlen")
    some ⟨bound, capacity⟩
  | .list [boundEntry, capacityEntry] => do
    let bound ← Document.readBound? boundEntry
    let capacity ← Document.readSize? capacityEntry
    some ⟨bound, capacity⟩
  | _ => none

def boundDetail : Option Nat → String
  | none => "None"
  | some bound => "Some(" ++ toString bound ++ ")"

/-- The settings by field, in their printed form. -/
def detailed (settings : Settings) : String :=
  "DequeConfig \x7b maxlen: " ++ boundDetail settings.bound ++ ", capacity: " ++
    toString settings.capacity ++ " \x7d"

/-- An empty deque under these settings, unless room for that many slots cannot be had. -/
def build? {α : Type} (settings : Settings) : Option (Deque α) :=
  if slotLimit < settings.initialCapacity then none else some (Deque.empty settings.bound)

/-- Ways to change settings that were made earlier. -/
inductive Change where
  | bound (value : Nat)
  | capacity (value : Nat)
  | unbounded
  | fresh (capacity : Nat) (bound : Nat)
  | fields (bound : Option Nat) (capacity : Nat)

def apply (settings : Settings) : Change → Settings
  | .bound value => settings.withBound value
  | .capacity value => settings.withCapacity value
  | .unbounded => settings.unbounded
  | .fresh capacity bound => (settings.unbounded.withCapacity capacity).withBound bound
  | .fields bound capacity => ⟨bound, capacity⟩

theorem initialCapacity_le (settings : Settings) (bound : Nat) (h : settings.bound = some bound) :
    settings.initialCapacity ≤ bound := by
  rw [initialCapacity, h]
  exact Nat.min_le_right _ _

end Settings

end EvictingDeque
