import EvictingDeque.Deque.Edit
import EvictingDeque.Deque.Bounds

set_option autoImplicit false

/-!
# Front and back as mirror images

Every edit has a partner that does at the other end what it does at its own. Applied to the reversed deque, the partner
answers the same and leaves the reversed result, whatever the bound is and whether or not the deque respects it. The
partners of positions depend on how long the deque is when they are used.
-/
namespace EvictingDeque

/-- Where the element at a position of a sequence stands in the reversed one. No element stands past the end, and there
is nothing to turn around. -/
def mirrorPosition (length position : Nat) : Nat := if position < length then length - 1 - position else position

/-- Where to insert into a reversed sequence what was to be inserted into the sequence itself. -/
def mirrorGap (length position : Nat) : Nat := length - min position length

theorem getElem?_mirrorPosition {α : Type} (items : List α) (position : Nat) :
    items.reverse[mirrorPosition items.length position]? = items[position]? := by
  unfold mirrorPosition
  split
  · rename_i h
    rw [List.getElem?_reverse (by omega)]
    congr 1
    omega
  · rename_i h
    simp [Nat.le_of_not_lt h]

theorem eraseIdx_mirrorPosition {α : Type} (items : List α) (position : Nat) :
    items.reverse.eraseIdx (mirrorPosition items.length position) = (items.eraseIdx position).reverse := by
  unfold mirrorPosition
  split
  · rename_i h
    have hlast : items.length - (items.length - 1 - position) = position + 1 := by omega
    have hnext : items.length - (items.length - 1 - position + 1) = position := by omega
    simp only [List.eraseIdx_eq_take_drop_succ, List.reverse_append, List.take_reverse, List.drop_reverse, hlast, hnext]
  · rename_i h
    rw [List.eraseIdx_of_length_le (by simpa using h), List.eraseIdx_of_length_le (by simpa using h)]

theorem set_mirrorPosition {α : Type} (items : List α) (position : Nat) (value : α) :
    items.reverse.set (mirrorPosition items.length position) value = (items.set position value).reverse := by
  unfold mirrorPosition
  split
  · rename_i h
    apply List.ext_getElem?
    intro i
    by_cases hi : i < items.length
    · rw [List.getElem?_reverse (by simpa using hi), List.getElem?_set, List.getElem?_set, List.getElem?_reverse hi]
      simp only [List.length_reverse, List.length_set]
      have hsame : (items.length - 1 - position = i) ↔ (position = items.length - 1 - i) := by omega
      have hboth : (items.length - 1 - position < items.length) ↔ (position < items.length) := by omega
      simp only [hsame, hboth]
    · rw [List.getElem?_eq_none (by simpa using hi), List.getElem?_eq_none (by simpa using hi)]
  · rename_i h
    rw [List.set_eq_of_length_le (by simpa using h), List.set_eq_of_length_le (by simpa using h)]

namespace Deque

variable {α : Type} (d : Deque α)

@[simp]
theorem items_reverse : d.reverse.items = d.items.reverse := rfl

@[simp]
theorem bound_reverse : d.reverse.bound = d.bound := rfl

@[simp]
theorem isOverfull_reverse : d.reverse.isOverfull = d.isOverfull := by
  unfold isOverfull
  simp

theorem popFront_reverse : d.reverse.popFront = (d.popBack.1, d.popBack.2.reverse) := by
  simp [popFront, popBack, reverse]

theorem popBack_reverse : d.reverse.popBack = (d.popFront.1, d.popFront.2.reverse) := by
  simp [popFront, popBack, reverse]

theorem pushFront_reverse (value : α) :
    d.reverse.pushFront value = ((d.pushBack value).1, (d.pushBack value).2.reverse) := by
  have hgrown : (⟨value :: d.items.reverse, d.bound⟩ : Deque α) = (⟨d.items ++ [value], d.bound⟩ : Deque α).reverse := by
    simp [reverse]
  unfold pushFront pushBack
  simp only [items_reverse, bound_reverse, hgrown, isOverfull_reverse, popBack_reverse]
  split <;> rfl

theorem pushBack_reverse (value : α) :
    d.reverse.pushBack value = ((d.pushFront value).1, (d.pushFront value).2.reverse) := by
  have hgrown : (⟨d.items.reverse ++ [value], d.bound⟩ : Deque α) = (⟨value :: d.items, d.bound⟩ : Deque α).reverse := by
    simp [reverse]
  unfold pushFront pushBack
  simp only [items_reverse, bound_reverse, hgrown, isOverfull_reverse, popFront_reverse]
  split <;> rfl

theorem extendFront_reverse (values : List α) : d.reverse.extendFront values = (d.extendBack values).reverse := by
  induction values generalizing d with
  | nil => simp
  | cons value values ih => rw [extendFront_cons, extendBack_cons, pushFront_reverse, ih]

theorem extendBack_reverse (values : List α) : d.reverse.extendBack values = (d.extendFront values).reverse := by
  induction values generalizing d with
  | nil => simp
  | cons value values ih => rw [extendFront_cons, extendBack_cons, pushBack_reverse, ih]

theorem insert_reverse (position : Nat) (value : α) :
    d.reverse.insert (mirrorGap d.items.length position) value = (d.insert position value).map reverse := by
  have hgrown : d.items.reverse.take (mirrorGap d.items.length position) ++
      value :: d.items.reverse.drop (mirrorGap d.items.length position) =
        (d.items.take position ++ value :: d.items.drop position).reverse := by
    have hgap : d.items.length - mirrorGap d.items.length position = min position d.items.length := by
      unfold mirrorGap
      omega
    rw [List.take_reverse, List.drop_reverse, hgap, List.reverse_append, List.reverse_cons, List.append_assoc,
      List.singleton_append, ← List.take_eq_take_min, ← List.drop_eq_drop_min]
  unfold insert
  simp only [items_reverse, bound_reverse, List.length_reverse, hgrown]
  split
  · rfl
  · split <;> rfl

theorem removeAt_reverse (position : Nat) :
    d.reverse.removeAt (mirrorPosition d.items.length position) =
      (d.removeAt position).map fun (value, after) => (value, after.reverse) := by
  unfold removeAt
  rw [items_reverse, getElem?_mirrorPosition]
  cases hp : d.items[position]? with
  | none =>
    have hout : ¬position < d.items.length := Nat.not_lt.2 (List.getElem?_eq_none_iff.1 hp)
    simp [Except.map, mirrorPosition, hout]
  | some value => simp [Except.map, reverse, eraseIdx_mirrorPosition]

theorem replace_reverse (position : Nat) (value : α) :
    d.reverse.replace (mirrorPosition d.items.length position) value =
      (d.replace position value).map fun (old, after) => (old, after.reverse) := by
  unfold replace
  rw [items_reverse, getElem?_mirrorPosition, set_mirrorPosition, Option.map_map]
  rfl

theorem turn_reverse (items : List α) (count : Nat) :
    turn items.reverse count = (turn items (items.length - count)).reverse := by
  simp [turn, List.take_reverse, List.drop_reverse]

theorem rotate_reverse (steps : Int) : d.reverse.rotate (-steps) = (d.rotate steps).reverse := by
  unfold rotate
  simp only [items_reverse, List.length_reverse, Int.natAbs_neg]
  split
  · rfl
  · rename_i hlength
    have hshift : steps.natAbs % d.items.length < d.items.length := Nat.mod_lt _ (by omega)
    have hback : d.items.length - (d.items.length - steps.natAbs % d.items.length) = steps.natAbs % d.items.length := by
      omega
    rcases Int.lt_trichotomy steps 0 with hneg | rfl | hpos
    · rw [if_pos (by omega), if_neg (by omega)]
      simp only [reverse, turn_reverse, hback]
    · simp [reverse, turn, List.take_reverse, List.drop_reverse]
    · rw [if_neg (by omega), if_pos (by omega)]
      simp only [reverse, turn_reverse]

end Deque

namespace Edit

variable {α : Type}

/-- What to do to the reversed deque, if it is so long. -/
def mirrored (length : Nat) : Edit α → Edit α
  | .pushBack value => .pushFront value
  | .pushFront value => .pushBack value
  | .popBack => .popFront
  | .popFront => .popBack
  | .extendBack values => .extendFront values
  | .extendFront values => .extendBack values
  | .clear => .clear
  | .insert position value => .insert (mirrorGap length position) value
  | .rotate steps => .rotate (-steps)
  | .reverse => .reverse

theorem apply_mirrored (change : Edit α) (d : Deque α) :
    (change.mirrored d.items.length).apply d.reverse = ((change.apply d).1, (change.apply d).2.reverse) := by
  cases change with
  | pushBack value => simp only [mirrored, apply, Deque.pushFront_reverse]
  | pushFront value => simp only [mirrored, apply, Deque.pushBack_reverse]
  | popBack => simp only [mirrored, apply, Deque.popFront_reverse]
  | popFront => simp only [mirrored, apply, Deque.popBack_reverse]
  | extendBack values => simp only [mirrored, apply, Deque.extendFront_reverse]
  | extendFront values => simp only [mirrored, apply, Deque.extendBack_reverse]
  | clear => rfl
  | insert position value =>
    simp only [mirrored, apply, Deque.insert_reverse]
    cases d.insert position value <;> rfl
  | rotate steps => simp only [mirrored, apply, Deque.rotate_reverse]
  | reverse => rfl

end Edit

end EvictingDeque
