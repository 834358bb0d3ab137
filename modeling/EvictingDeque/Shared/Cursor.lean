import EvictingDeque.Shared.Cell

set_option autoImplicit false

/-!
# Cursors

A cursor visits the elements of a shared deque from the front. If the deque was mutated since the cursor
was made, the next visit reports it once and the cursor is finished.
-/
namespace EvictingDeque

structure Cursor where
  cell : Nat
  position : Nat
  mutations : Nat
  finished : Bool
deriving DecidableEq, Repr

namespace Cursor

variable {α : Type}

def start (id : Nat) (cell : Cell α) : Cursor := ⟨id, 0, cell.mutations, false⟩

/-- Nothing at the end, else an element or the report that the deque has changed. -/
def advance (cursor : Cursor) (cell : Cell α) : Option (Except Refusal α) × Cursor :=
  if cursor.finished then (none, cursor)
  else if cell.mutations ≠ cursor.mutations then
    (some (.error .changedDuringVisit), { cursor with finished := true })
  else
    match cell.deque.get? cursor.position with
    | some value => (some (.ok value), { cursor with position := cursor.position + 1 })
    | none => (none, { cursor with finished := true })

/-- All visits that are left, up to the one that finishes the cursor. -/
def drain (cursor : Cursor) (cell : Cell α) : List (Except Refusal α) × Cursor :=
  if cursor.finished then ([], cursor)
  else if cell.mutations ≠ cursor.mutations then
    ([.error .changedDuringVisit], { cursor with finished := true })
  else
    ((cell.deque.items.drop cursor.position).map .ok,
      { cursor with position := max cursor.position cell.deque.length, finished := true })

/-- The elements visited, up to the first report. -/
def collected : List (Except Refusal α) → Except Refusal (List α)
  | [] => .ok []
  | .error refusal :: _ => .error refusal
  | .ok value :: visits =>
    match collected visits with
    | .error refusal => .error refusal
    | .ok values => .ok (value :: values)

/-- The elements visited, reports left out. -/
def elements (visits : List (Except Refusal α)) : List α :=
  visits.filterMap fun
    | .ok value => some value
    | .error _ => none

/-- A drain is one advance after the other, as long as they visit something. -/
theorem drain_eq (cursor : Cursor) (cell : Cell α) :
    cursor.drain cell =
      match cursor.advance cell with
      | (none, after) => ([], after)
      | (some visit, after) => (visit :: (after.drain cell).1, (after.drain cell).2) := by
  rcases cursor with ⟨id, position, mutations, finished⟩
  cases finished with
  | true => simp [drain, advance]
  | false =>
    by_cases hm : cell.mutations = mutations
    · by_cases hp : position < cell.deque.items.length
      · have hmax : max position cell.deque.items.length = max (position + 1) cell.deque.items.length := by
          omega
        simp only [drain, advance, Deque.get?, Deque.length, hm, ne_eq, not_true_eq_false, if_false,
          Bool.false_eq_true, List.getElem?_eq_getElem hp, List.drop_eq_getElem_cons hp, List.map_cons, hmax]
      · have hdrop : cell.deque.items.length ≤ position := by omega
        simp [drain, advance, Deque.get?, Deque.length, hm, hp, hdrop]
    · simp [drain, advance, hm]

end Cursor

end EvictingDeque
