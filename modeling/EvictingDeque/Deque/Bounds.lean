import EvictingDeque.Deque.Repetition

set_option autoImplicit false

/-!
# Bounds

No operation changes the bound of a deque, and each one takes a deque that fits its bound to one that fits
it. Eviction of a single element suffices after a push only because the deque fitted before.
-/
namespace EvictingDeque.Deque

variable {α : Type}

theorem length_turn (items : List α) (count : Nat) : (turn items count).length = items.length := by
  simp only [turn, List.length_append, List.length_drop, List.length_take]
  omega

theorem length_rotate (d : Deque α) (steps : Int) : (d.rotate steps).items.length = d.items.length := by
  unfold rotate
  dsimp only
  split
  · rfl
  · split <;> exact length_turn _ _

theorem bound_rotate (d : Deque α) (steps : Int) : (d.rotate steps).bound = d.bound := by
  unfold rotate
  dsimp only
  split
  · rfl
  · split <;> rfl

theorem bound_insert {d e : Deque α} {index : Nat} {value : α} (h : d.insert index value = .ok e) :
    e.bound = d.bound := by
  unfold insert at h
  dsimp only at h
  split at h
  · cases h
    rfl
  · split at h
    · cases h
    · cases h
      rfl

theorem bound_removeAt {d e : Deque α} {index : Nat} {value : α}
    (h : d.removeAt index = .ok (value, e)) : e.bound = d.bound := by
  unfold removeAt at h
  split at h
  · cases h
  · cases h
    rfl

theorem bound_repeated? {d e : Deque α} {times : Nat} (h : d.repeated? times = some e) :
    e.bound = d.bound := by
  unfold repeated? at h
  dsimp only at h
  split at h
  · cases h
    rfl
  · obtain ⟨kept, -, h⟩ := Option.bind_eq_some_iff.1 h
    split at h
    · cases h
    · cases h
      rfl

theorem fits_empty (bound : Option Nat) : (empty bound : Deque α).Fits :=
  fun _ _ => Nat.zero_le _

/-- A deque with the same bound that is no longer fits as well. -/
theorem Fits.shorten {d e : Deque α} (h : d.Fits) (hb : e.bound = d.bound)
    (hl : e.items.length ≤ d.items.length) : e.Fits := by
  intro bound he
  have hd := h bound (hb ▸ he)
  omega

theorem Fits.pushBack {d : Deque α} (h : d.Fits) (value : α) : (d.pushBack value).2.Fits := by
  intro bound hb
  rw [bound_pushBack] at hb
  have hd := h bound hb
  by_cases hlt : bound < d.items.length + 1 <;>
    simp [Deque.pushBack, isOverfull, Deque.popFront, hb, hlt] <;> omega

theorem Fits.pushFront {d : Deque α} (h : d.Fits) (value : α) : (d.pushFront value).2.Fits := by
  intro bound hb
  rw [bound_pushFront] at hb
  have hd := h bound hb
  by_cases hlt : bound < d.items.length + 1 <;>
    simp [Deque.pushFront, isOverfull, Deque.popBack, hb, hlt] <;> omega

theorem Fits.popBack {d : Deque α} (h : d.Fits) : d.popBack.2.Fits :=
  h.shorten rfl (by simp [Deque.popBack])

theorem Fits.popFront {d : Deque α} (h : d.Fits) : d.popFront.2.Fits :=
  h.shorten rfl (by simp [Deque.popFront])

theorem Fits.extendBack {d : Deque α} (h : d.Fits) (values : List α) : (d.extendBack values).Fits := by
  induction values generalizing d with
  | nil => simpa using h
  | cons value values ih => simpa using ih (h.pushBack value)

theorem Fits.extendFront {d : Deque α} (h : d.Fits) (values : List α) :
    (d.extendFront values).Fits := by
  induction values generalizing d with
  | nil => simpa using h
  | cons value values ih => simpa using ih (h.pushFront value)

theorem fits_ofList (values : List α) (bound : Option Nat) : (ofList values bound).Fits :=
  (fits_empty bound).extendBack values

theorem Fits.clear (d : Deque α) : d.clear.Fits := fun _ _ => Nat.zero_le _

theorem Fits.rotate {d : Deque α} (h : d.Fits) (steps : Int) : (d.rotate steps).Fits :=
  h.shorten (bound_rotate d steps) (Nat.le_of_eq (length_rotate d steps))

theorem Fits.reverse {d : Deque α} (h : d.Fits) : d.reverse.Fits :=
  h.shorten rfl (by simp [Deque.reverse])

/-- An insertion happens only where the bound leaves room for it. -/
theorem Fits.insert {d e : Deque α} (h : d.Fits) {index : Nat} {value : α}
    (hi : d.insert index value = .ok e) : e.Fits := by
  intro bound hb
  have hd : d.bound = some bound := (bound_insert hi).symm.trans hb
  have hf := h bound hd
  unfold Deque.insert at hi
  simp only [hd] at hi
  split at hi
  · cases hi
  · cases hi
    simp only [List.length_append, List.length_take, List.length_cons, List.length_drop]
    omega

theorem Fits.removeAt {d e : Deque α} (h : d.Fits) {index : Nat} {value : α}
    (hr : d.removeAt index = .ok (value, e)) : e.Fits := by
  refine h.shorten (bound_removeAt hr) ?_
  unfold Deque.removeAt at hr
  split at hr
  · cases hr
  · cases hr
    exact List.length_eraseIdx_le _ _

theorem Fits.replace {d e : Deque α} (h : d.Fits) {index : Nat} {value old : α}
    (hr : d.replace index value = some (old, e)) : e.Fits := by
  obtain ⟨found, -, he⟩ := Option.map_eq_some_iff.1 hr
  cases he
  exact h.shorten rfl (by simp)

theorem Fits.map {β : Type} {d : Deque α} (h : d.Fits) (f : α → β) : (d.map f).Fits := fun bound hb => by
  simpa [Deque.map] using h bound hb

end EvictingDeque.Deque
