import EvictingDeque.Deque.Basic
import EvictingDeque.Word

set_option autoImplicit false

/-!
# Repetition

`repeated?` writes the elements down a number of times under the same bound. Only the copies that survive
eviction are built: the whole repetition has a length that is a multiple of the length of the deque, so
where its kept tail starts follows from that tail's length alone.

Sizes are limited by the machine word, and storage by a smaller number of slots. A repetition beyond
either limit has no result.
-/
namespace EvictingDeque

/-- The largest number of elements for which room can be set aside. -/
def slotLimit : Nat := Word.modulus / 128

namespace Deque

variable {α : Type}

/-- `count` elements of the endless repetition of `whole`, starting with what is left of the current
copy. -/
def cycleTake (whole : List α) : Nat → List α → List α
  | 0, _ => []
  | count + 1, value :: rest => value :: cycleTake whole count rest
  | count + 1, [] =>
    match whole with
    | [] => []
    | value :: rest => value :: cycleTake whole count rest

/-- How many elements of a repetition with `total` elements survive, if that many can be counted. -/
def survivors? (bound : Option Nat) (total : Nat) : Option Nat :=
  match bound with
  | some bound => some (min total bound)
  | none => if Word.largestSize < total then none else some total

def repeated? (d : Deque α) (times : Nat) : Option (Deque α) :=
  let length := d.items.length
  if length = 0 ∨ times = 0 then some (empty d.bound)
  else do
    let kept ← survivors? d.bound (length * times)
    if slotLimit < kept then none
    let skipped := (length - kept % length) % length
    some ⟨cycleTake d.items kept (d.items.drop skipped), d.bound⟩

@[simp]
theorem cycleTake_zero (whole rest : List α) : cycleTake whole 0 rest = [] := by
  cases rest <;> rfl

@[simp]
theorem cycleTake_nil_nil (count : Nat) : cycleTake ([] : List α) count [] = [] := by
  cases count <;> rfl

theorem length_cycleTake (whole : List α) (h : whole ≠ []) (count : Nat) (rest : List α) :
    (cycleTake whole count rest).length = count := by
  induction count generalizing rest with
  | zero => simp
  | succ count ih =>
    cases rest with
    | cons value rest => simp [cycleTake, ih]
    | nil =>
      cases whole with
      | nil => exact absurd rfl h
      | cons value rest => simp [cycleTake, ih]

end Deque

end EvictingDeque
