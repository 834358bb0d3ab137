import EvictingDeque.Deque.Basic

set_option autoImplicit false

/-!
# Edits as data

The changes that need no comparison of elements, as one type, so that runs of them can be performed on a
deque that is owned outright or on one behind shared handles. `counts` is the rule by which an edit of a
shared deque invalidates its running visits; it looks only at the deque before the edit.
-/
namespace EvictingDeque

inductive Edit (α : Type) where
  | pushBack (value : α)
  | pushFront (value : α)
  | popBack
  | popFront
  | extendBack (values : List α)
  | extendFront (values : List α)
  | clear
  | insert (index : Nat) (value : α)
  | rotate (steps : Int)
  | reverse
deriving DecidableEq, Repr

namespace Edit

variable {α : Type}

/-- The answer, which is an evicted or removed element where the edit has one, and the deque
afterwards. -/
def apply : Edit α → Deque α → Except Refusal (Option α) × Deque α
  | .pushBack value, d => let (out, d) := d.pushBack value; (.ok out, d)
  | .pushFront value, d => let (out, d) := d.pushFront value; (.ok out, d)
  | .popBack, d => let (out, d) := d.popBack; (.ok out, d)
  | .popFront, d => let (out, d) := d.popFront; (.ok out, d)
  | .extendBack values, d => (.ok none, d.extendBack values)
  | .extendFront values, d => (.ok none, d.extendFront values)
  | .clear, d => (.ok none, d.clear)
  | .insert index value, d =>
    match d.insert index value with
    | .error refusal => (.error refusal, d)
    | .ok d => (.ok none, d)
  | .rotate steps, d => (.ok none, d.rotate steps)
  | .reverse, d => (.ok none, d.reverse)

def counts : Edit α → Deque α → Bool
  | .pushBack _, d => d.bound != some 0
  | .pushFront _, d => d.bound != some 0
  | .popBack, d => !d.isEmpty
  | .popFront, d => !d.isEmpty
  | .extendBack values, d => !values.isEmpty && d.bound != some 0
  | .extendFront values, d => !values.isEmpty && d.bound != some 0
  | .clear, d => !d.isEmpty
  | .insert _ _, d => !d.isFull
  | .rotate steps, d => decide (1 < d.length) && steps.natAbs % d.length != 0
  | .reverse, d => decide (1 < d.length)

end Edit

end EvictingDeque
