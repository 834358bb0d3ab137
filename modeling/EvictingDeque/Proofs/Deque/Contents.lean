import EvictingDeque.Proofs.Deque.Changes

set_option autoImplicit false

/-!
# Where the elements of a deque come from

After an operation a deque holds elements that it held before and elements that the operation offered to it.
-/
namespace EvictingDeque

namespace Deque

variable {α : Type} {d : Deque α} {value x : α} {values : List α}

theorem mem_pushBack (h : x ∈ (d.pushBack value).2.items) : x ∈ d.items ∨ x = value := by
  unfold pushBack at h
  dsimp only at h
  split at h
  · simpa using List.mem_of_mem_tail h
  · simpa using h

theorem mem_pushFront (h : x ∈ (d.pushFront value).2.items) : x ∈ d.items ∨ x = value := by
  unfold pushFront at h
  dsimp only at h
  split at h
  · simpa [or_comm] using List.dropLast_subset _ h
  · simpa [or_comm] using h

theorem mem_extendBack (h : x ∈ (d.extendBack values).items) : x ∈ d.items ∨ x ∈ values :=
  List.mem_append.1 (List.mem_of_mem_drop h)

theorem mem_extendFront (h : x ∈ (d.extendFront values).items) : x ∈ d.items ∨ x ∈ values := by
  simpa [or_comm] using List.mem_of_mem_take h

theorem mem_rotate {steps : Int} (h : x ∈ (d.rotate steps).items) : x ∈ d.items := by
  have hturn {count : Nat} (ht : x ∈ turn d.items count) : x ∈ d.items := by
    rcases List.mem_append.1 ht with hd | hd
    · exact List.mem_of_mem_drop hd
    · exact List.mem_of_mem_take hd
  unfold rotate at h
  dsimp only at h
  split at h
  · exact h
  · split at h <;> exact hturn h

theorem mem_insert {e : Deque α} {position : Nat} (hi : d.insert position value = .ok e) (h : x ∈ e.items) :
    x ∈ d.items ∨ x = value := by
  have hgrown (hx : x ∈ d.items.take position ++ value :: d.items.drop position) : x ∈ d.items ∨ x = value := by
    rcases List.mem_append.1 hx with ht | ht
    · exact .inl (List.mem_of_mem_take ht)
    · rcases List.mem_cons.1 ht with rfl | ht
      · exact .inr rfl
      · exact .inl (List.mem_of_mem_drop ht)
  unfold insert at hi
  dsimp only at hi
  split at hi
  · cases hi
    exact hgrown h
  · split at hi <;> cases hi
    exact hgrown h

theorem mem_removeAt {e : Deque α} {position : Nat} (hr : d.removeAt position = .ok (value, e)) (h : x ∈ e.items) :
    x ∈ d.items := by
  unfold removeAt at hr
  split at hr <;> cases hr
  exact List.mem_of_mem_eraseIdx h

theorem mem_replace {e : Deque α} {old : α} {position : Nat} (hr : d.replace position value = some (old, e))
    (h : x ∈ e.items) : x ∈ d.items ∨ x = value := by
  obtain ⟨found, -, he⟩ := Option.map_eq_some_iff.1 hr
  cases he
  rcases List.mem_or_eq_of_mem_set h with hd | rfl
  · exact .inl hd
  · exact .inr rfl

theorem mem_cycleTake {whole : List α} {count : Nat} {rest : List α} (h : x ∈ cycleTake whole count rest) :
    x ∈ whole ∨ x ∈ rest := by
  induction count generalizing rest with
  | zero => simp at h
  | succ count ih =>
    cases rest with
    | cons first rest =>
      rcases List.mem_cons.1 h with rfl | h
      · simp
      · exact (ih h).imp_right fun hr => List.mem_cons_of_mem _ hr
    | nil =>
      cases whole with
      | nil => simp [cycleTake] at h
      | cons first whole =>
        rcases List.mem_cons.1 h with rfl | h
        · simp
        · rcases ih h with hw | hw
          · exact .inl hw
          · exact .inl (List.mem_cons_of_mem _ hw)

theorem mem_repeated? {e : Deque α} {times : Nat} (hr : d.repeated? times = some e) (h : x ∈ e.items) :
    x ∈ d.items := by
  unfold repeated? at hr
  dsimp only at hr
  split at hr
  · cases hr
    cases h
  · obtain ⟨kept, -, hr⟩ := Option.bind_eq_some_iff.1 hr
    split at hr <;> cases hr
    exact (mem_cycleTake h).elim id fun hd => List.mem_of_mem_drop hd

end Deque

/-- The elements that an edit would add. -/
def Edit.offered {α : Type} : Edit α → List α
  | .pushBack value | .pushFront value | .insert _ value => [value]
  | .extendBack values | .extendFront values => values
  | _ => []

theorem Edit.mem_apply {α : Type} {d : Deque α} {x : α} {change : Edit α} (h : x ∈ (change.apply d).2.items) :
    x ∈ d.items ∨ x ∈ change.offered := by
  cases change with
  | pushBack value => simpa [offered] using Deque.mem_pushBack h
  | pushFront value => simpa [offered] using Deque.mem_pushFront h
  | popBack => exact .inl (List.dropLast_subset _ h)
  | popFront => exact .inl (List.mem_of_mem_tail h)
  | extendBack values => exact Deque.mem_extendBack h
  | extendFront values => exact Deque.mem_extendFront h
  | clear => exact absurd h List.not_mem_nil
  | insert position value =>
    dsimp only [apply] at h
    split at h
    · exact .inl h
    · rename_i hi
      simpa [offered] using Deque.mem_insert hi h
  | rotate steps => exact .inl (Deque.mem_rotate h)
  | reverse => exact .inl (List.mem_reverse.1 h)

def EndOp.offered {α : Type} : EndOp α → List α
  | .pushBack value | .pushFront value => [value]
  | .extendBack values | .extendFront values => values
  | _ => []

theorem EndOp.offered_of_edit? {α : Type} {op : EndOp α} {change : Edit α} (h : op.edit? = some change) :
    change.offered = op.offered := by
  cases op <;> cases h <;> rfl

theorem EndOp.mem_run {α : Type} {d : Deque α} {x : α} {op : EndOp α}
    (h : x ∈ ((Deque.ends.run op).run d).2.items) : x ∈ d.items ∨ x ∈ op.offered := by
  cases he : op.edit? with
  | none =>
    rw [run_of_no_edit he] at h
    exact .inl h
  | some change =>
    rw [run_of_edit? he] at h
    exact offered_of_edit? he ▸ Edit.mem_apply h

end EvictingDeque
