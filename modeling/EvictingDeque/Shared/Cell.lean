import EvictingDeque.Deque.Edit

set_option autoImplicit false

/-!
# The place behind shared handles

A cell holds a deque that several handles reach. It counts the mutations of the deque, remembers whether
the deque is being written out, and whether it is held for reading by some or for changing by one.
-/
namespace EvictingDeque

inductive Hold where
  | readers (count : Nat)
  | exclusive
deriving DecidableEq, Repr

namespace Hold

def free : Hold := .readers 0

/-- A reading is possible unless somebody holds the deque for changing. -/
def allowsReading : Hold → Bool
  | .readers _ => true
  | .exclusive => false

def enterReading : Hold → Hold
  | .readers count => .readers (count + 1)
  | .exclusive => .exclusive

def leaveReading : Hold → Hold
  | .readers count => .readers (count - 1)
  | .exclusive => .exclusive

end Hold

structure Cell (α : Type) where
  deque : Deque α
  mutations : Nat
  formatting : Bool
  hold : Hold
deriving DecidableEq, Repr

namespace Cell

variable {α : Type}

def fresh (d : Deque α) : Cell α := ⟨d, 0, false, .free⟩

/-- A change of the deque that is counted. -/
def mutated (cell : Cell α) (d : Deque α) : Cell α :=
  { cell with deque := d, mutations := cell.mutations + 1 }

def edit (cell : Cell α) (edit : Edit α) : Except Refusal (Option α) × Cell α :=
  let (answer, d) := edit.apply cell.deque
  (answer, if edit.counts cell.deque then cell.mutated d else { cell with deque := d })

/-- The removal of an element that was found earlier counts as a mutation in any case. -/
def removeAt (cell : Cell α) (index : Nat) : Except Refusal α × Cell α :=
  match cell.deque.removeAt index with
  | .error refusal => (.error refusal, cell.mutated cell.deque)
  | .ok (value, d) => (.ok value, cell.mutated d)

end Cell

end EvictingDeque
