import EvictingDeque.Deque.Basic

set_option autoImplicit false

/-!
# Walking in from both ends

A walk takes elements off a copy of the deque, each time from the end that is asked for, and gives
nothing once the two ends have met. `walk_front` and `walk_back` say what one side asked for does.
-/
namespace EvictingDeque

inductive Side where
  | front
  | back
deriving DecidableEq, Repr

namespace Deque

variable {α : Type}

/-- The elements ahead of the front and those ahead of the back are both listed as they come, and only so many
of them are left. -/
def walkItems : List Side → Nat → List α → List α → List (Option α)
  | [], _, _, _ => []
  | _ :: sides, 0, ahead, behind => none :: walkItems sides 0 ahead behind
  | .front :: sides, left + 1, ahead, behind => ahead.head? :: walkItems sides left ahead.tail behind
  | .back :: sides, left + 1, ahead, behind => behind.head? :: walkItems sides left ahead behind.tail

def walk (d : Deque α) (sides : List Side) : List (Option α) :=
  walkItems sides d.items.length d.items d.items.reverse

/-- What lies beyond the elements that are left has no influence. -/
theorem walkItems_append (sides : List Side) (items beyond before : List α) :
    walkItems sides items.length (items ++ beyond) (items.reverse ++ before) =
      walkItems sides items.length items items.reverse := by
  induction sides generalizing items beyond before with
  | nil => rfl
  | cons side sides ih =>
    cases side with
    | front =>
      cases items with
      | nil => simpa [walkItems] using ih [] beyond before
      | cons first items =>
        have hl := ih items beyond (first :: before)
        have hr := ih items [] [first]
        rw [List.append_nil] at hr
        simp [walkItems, hl, hr]
    | back =>
      rcases List.eq_nil_or_concat items with rfl | ⟨items, last, rfl⟩
      · simpa [walkItems] using ih [] beyond before
      · have hl := ih items (last :: beyond) before
        have hr := ih items [last] []
        rw [List.append_nil] at hr
        simp [walkItems, hl, hr]

theorem walk_front (d : Deque α) (sides : List Side) :
    d.walk (.front :: sides) = d.popFront.1 :: d.popFront.2.walk sides := by
  rcases d with ⟨items, bound⟩
  cases items with
  | nil => rfl
  | cons first items =>
    have h := walkItems_append sides items [] [first]
    rw [List.append_nil] at h
    simp [walk, walkItems, popFront, h]

theorem walk_back (d : Deque α) (sides : List Side) :
    d.walk (.back :: sides) = d.popBack.1 :: d.popBack.2.walk sides := by
  rcases d with ⟨items, bound⟩
  rcases List.eq_nil_or_concat items with rfl | ⟨items, last, rfl⟩
  · rfl
  · have h := walkItems_append sides items [last] []
    rw [List.append_nil] at h
    simp [walk, walkItems, popBack, h]

end Deque

end EvictingDeque
