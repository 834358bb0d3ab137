import EvictingDeque.Deque.Bounds
import EvictingDeque.Session.Owned

set_option autoImplicit false

/-!
# What a change of a deque does to it

Every operation leaves a deque that fits its bound if it was given one, and an edit that is not counted as a
mutation leaves the deque as it was.
-/
namespace EvictingDeque

namespace Deque

variable {α : Type}

theorem Fits.repeated? {d e : Deque α} {times : Nat} (h : d.repeated? times = some e) : e.Fits := by
  unfold Deque.repeated? at h
  dsimp only at h
  split at h
  · cases h
    exact fits_empty _
  · rename_i hne
    obtain ⟨kept, hk, h⟩ := Option.bind_eq_some_iff.1 h
    split at h
    · cases h
    · cases h
      intro bound hb
      have hd : d.items ≠ [] := fun hi => hne (Or.inl (by simp [hi]))
      have hl := length_cycleTake d.items hd kept
        (d.items.drop ((d.items.length - kept % d.items.length) % d.items.length))
      have hkept : kept = min (d.items.length * times) bound := by
        change d.bound = some bound at hb
        rw [hb] at hk
        exact (Option.some.inj hk).symm
      dsimp only
      omega

theorem rotate_of_dvd (d : Deque α) {steps : Int} (h : steps.natAbs % d.items.length = 0) : d.rotate steps = d := by
  unfold rotate
  dsimp only
  split
  · rfl
  · split <;> simp [turn, h]

end Deque

namespace Edit

variable {α : Type}

theorem fits_apply {d : Deque α} (h : d.Fits) (change : Edit α) : (change.apply d).2.Fits := by
  cases change with
  | pushBack value => exact h.pushBack value
  | pushFront value => exact h.pushFront value
  | popBack => exact h.popBack
  | popFront => exact h.popFront
  | extendBack values => exact h.extendBack values
  | extendFront values => exact h.extendFront values
  | clear => exact Deque.Fits.clear d
  | insert position value =>
    dsimp only [apply]
    split
    · exact h
    · rename_i hi
      exact h.insert hi
  | rotate steps => exact h.rotate steps
  | reverse => exact h.reverse

theorem bound_apply (d : Deque α) (change : Edit α) : (change.apply d).2.bound = d.bound := by
  cases change with
  | pushBack value => exact Deque.bound_pushBack d value
  | pushFront value => exact Deque.bound_pushFront d value
  | insert position value =>
    dsimp only [apply]
    split
    · rfl
    · rename_i hi
      exact Deque.bound_insert hi
  | rotate steps => exact Deque.bound_rotate d steps
  | _ => rfl

theorem items_eq_nil_of_bound {d : Deque α} (h : d.Fits) (hb : d.bound = some 0) : d.items = [] :=
  List.length_eq_zero_iff.1 (Nat.le_zero.1 (h 0 hb))

/-- Only a bound of nothing makes a push undo itself, and then there is nothing stored that it could push out. -/
theorem apply_push_of_bound_zero {d : Deque α} (h : d.Fits) (hb : d.bound = some 0) (value : α) :
    (d.pushBack value).2 = d ∧ (d.pushFront value).2 = d := by
  obtain ⟨items, bound⟩ := d
  have hi : items = [] := items_eq_nil_of_bound h hb
  cases hb
  subst hi
  exact ⟨rfl, rfl⟩

theorem extend_of_bound_zero {d : Deque α} (h : d.Fits) (hb : d.bound = some 0) (values : List α) :
    d.extendBack values = d ∧ d.extendFront values = d := by
  induction values with
  | nil => simp
  | cons value values ih => simpa [apply_push_of_bound_zero h hb value] using ih

theorem apply_of_not_counts {d : Deque α} (h : d.Fits) {change : Edit α} (hc : change.counts d = false) :
    (change.apply d).2 = d := by
  cases change with
  | pushBack value => exact (apply_push_of_bound_zero h (by simpa [counts] using hc) value).1
  | pushFront value => exact (apply_push_of_bound_zero h (by simpa [counts] using hc) value).2
  | popBack =>
    obtain ⟨items, bound⟩ := d
    have hi : items = [] := by simpa [counts, Deque.isEmpty] using hc
    subst hi
    rfl
  | popFront =>
    obtain ⟨items, bound⟩ := d
    have hi : items = [] := by simpa [counts, Deque.isEmpty] using hc
    subst hi
    rfl
  | extendBack values =>
    by_cases hb : d.bound = some 0
    · exact (extend_of_bound_zero h hb values).1
    · have hv : values = [] := by simpa [counts, hb] using hc
      simp [apply, hv]
  | extendFront values =>
    by_cases hb : d.bound = some 0
    · exact (extend_of_bound_zero h hb values).2
    · have hv : values = [] := by simpa [counts, hb] using hc
      simp [apply, hv]
  | clear =>
    obtain ⟨items, bound⟩ := d
    have hi : items = [] := by simpa [counts, Deque.isEmpty] using hc
    subst hi
    rfl
  | insert position value =>
    have hf : d.isFull = true := by simpa [counts] using hc
    dsimp only [apply]
    split
    · rfl
    · rename_i hi
      unfold Deque.insert at hi
      unfold Deque.isFull at hf
      split at hi
      · simp_all
      · simp_all
  | rotate steps =>
    by_cases hl : d.items.length ≤ 1
    · simp [apply, Deque.rotate, hl]
    · have hl : 1 < d.items.length := by omega
      exact Deque.rotate_of_dvd d (by simpa [counts, Deque.length, hl] using hc)
  | reverse =>
    have hl : d.items.length ≤ 1 := Nat.le_of_not_lt (of_decide_eq_false hc)
    obtain ⟨items, bound⟩ := d
    rcases items with _ | ⟨first, _ | ⟨second, items⟩⟩
    · rfl
    · rfl
    · simp at hl

end Edit

namespace EndOp

variable {α : Type}

/-- The edit that an operation at the ends comes to, unless it only asks. -/
def edit? : EndOp α → Option (Edit α)
  | .extent => none
  | .pushBack value => some (.pushBack value)
  | .pushFront value => some (.pushFront value)
  | .popBack => some .popBack
  | .popFront => some .popFront
  | .extendBack values => some (.extendBack values)
  | .extendFront values => some (.extendFront values)

theorem run_of_edit? {op : EndOp α} {change : Edit α} (h : op.edit? = some change) (d : Deque α) :
    ((Deque.ends.run op).run d).2 = (change.apply d).2 := by
  cases op with
  | extent => cases h
  | extendBack values =>
    cases h
    exact congrArg Prod.snd (Deque.run_extendBack d values)
  | extendFront values =>
    cases h
    exact congrArg Prod.snd (Deque.run_extendFront d values)
  | _ =>
    cases h
    rfl

theorem run_of_no_edit {op : EndOp α} (h : op.edit? = none) (d : Deque α) : ((Deque.ends.run op).run d).2 = d := by
  cases op with
  | extent => exact congrArg Prod.snd (Deque.run_extent d)
  | _ => cases h

theorem fits_run {d : Deque α} (h : d.Fits) (op : EndOp α) : ((Deque.ends.run op).run d).2.Fits := by
  cases he : op.edit? with
  | none => rwa [run_of_no_edit he]
  | some change =>
    rw [run_of_edit? he]
    exact Edit.fits_apply h change

end EndOp

end EvictingDeque
