import EvictingDeque.Proofs.Deque.Contents

set_option autoImplicit false

/-!
# Edits that do nothing

Whether an edit counts as a mutation is guessed from the deque before it. The guess is right in both directions: the
edits that do not count are the listed ones, which do nothing, and one that counts does something as soon as no two
elements are alike.
-/
namespace EvictingDeque

namespace Deque

variable {α : Type} {d : Deque α}

theorem evictions_lt (hb : d.bound ≠ some 0) {values : List α} (hv : values ≠ []) :
    d.evictions values.length < d.items.length + values.length := by
  have hpos : 0 < values.length := List.length_pos_iff.2 hv
  unfold evictions
  cases hbound : d.bound with
  | none => dsimp only; omega
  | some bound =>
    have hne : bound ≠ 0 := fun he => hb (he ▸ hbound)
    dsimp only
    omega

/-- The last element offered is never the one that has to leave. -/
theorem getLast_mem_extendBack (hb : d.bound ≠ some 0) {values : List α} (hv : values ≠ []) :
    values.getLast hv ∈ (d.extendBack values).items := by
  have hkept : ¬ d.items.length + values.length ≤ d.evictions values.length := Nat.not_le.2 (evictions_lt hb hv)
  refine List.mem_of_getLast? ?_
  simp [extendBack, List.getLast?_drop, hkept, List.getLast?_eq_some_getLast hv]

theorem getLast_mem_extendFront (hb : d.bound ≠ some 0) {values : List α} (hv : values ≠ []) :
    values.getLast hv ∈ (d.extendFront values).items := by
  have hkept := evictions_lt hb hv
  have hne : values.length + d.items.length - d.evictions values.length ≠ 0 := by omega
  refine List.mem_of_head? ?_
  simp [extendFront, List.head?_take, hne, List.getLast?_eq_some_getLast hv]

theorem turn_ne {items : List α} (hn : items.Nodup) {count : Nat} (hpos : 0 < count) (hlt : count < items.length) :
    turn items count ≠ items := by
  intro he
  have hfirst : (turn items count)[0]? = items[count]? := by
    rw [turn, List.getElem?_append_left (by simp; omega), List.getElem?_drop, Nat.add_zero]
  rw [he, List.getElem?_eq_getElem (by omega), List.getElem?_eq_getElem hlt] at hfirst
  exact List.pairwise_iff_getElem.1 hn 0 count (by omega) hlt hpos (Option.some.inj hfirst)

theorem reverse_ne {items : List α} (hn : items.Nodup) (hl : 1 < items.length) : items.reverse ≠ items := by
  intro he
  have hfirst : items.reverse[0]? = items[items.length - 1]? := by
    rw [List.getElem?_reverse (by omega)]
    simp
  rw [he, List.getElem?_eq_getElem (by omega), List.getElem?_eq_getElem (by omega)] at hfirst
  exact List.pairwise_iff_getElem.1 hn 0 (items.length - 1) (by omega) (by omega) (by omega) (Option.some.inj hfirst)

theorem length_insert (hf : d.isFull = false) (position : Nat) (value : α) :
    ∃ e, d.insert position value = .ok e ∧ e.items.length = d.items.length + 1 := by
  have hlength : (d.items.take position ++ value :: d.items.drop position).length = d.items.length + 1 := by
    simp only [List.length_append, List.length_take, List.length_cons, List.length_drop]
    omega
  unfold isFull at hf
  unfold insert
  cases hb : d.bound with
  | none => exact ⟨_, rfl, hlength⟩
  | some bound =>
    have hroom : ¬ bound ≤ d.items.length := by simpa [hb] using hf
    exact ⟨_, if_neg hroom, hlength⟩

end Deque

namespace Edit

variable {α : Type} {d : Deque α}

/-- The edits that have nothing to do. -/
inductive Idle (d : Deque α) : Edit α → Prop
  | pushBack (value : α) (room : d.bound = some 0) : Idle d (.pushBack value)
  | pushFront (value : α) (room : d.bound = some 0) : Idle d (.pushFront value)
  | popBack (empty : d.items = []) : Idle d .popBack
  | popFront (empty : d.items = []) : Idle d .popFront
  | extendBack (values : List α) (nothing : values = [] ∨ d.bound = some 0) : Idle d (.extendBack values)
  | extendFront (values : List α) (nothing : values = [] ∨ d.bound = some 0) : Idle d (.extendFront values)
  | clear (empty : d.items = []) : Idle d .clear
  | insert (position : Nat) (value : α) (full : d.isFull = true) : Idle d (.insert position value)
  | rotate (steps : Int) (round : d.items.length ≤ 1 ∨ (d.items.length : Int) ∣ steps) : Idle d (.rotate steps)
  | reverse (short : d.items.length ≤ 1) : Idle d .reverse

theorem counts_eq_false_iff {change : Edit α} : change.counts d = false ↔ change.Idle d := by
  constructor
  · intro h
    cases change with
    | pushBack value => exact .pushBack value (by simpa [counts] using h)
    | pushFront value => exact .pushFront value (by simpa [counts] using h)
    | popBack => exact .popBack (by simpa [counts, Deque.isEmpty] using h)
    | popFront => exact .popFront (by simpa [counts, Deque.isEmpty] using h)
    | extendBack values =>
      refine .extendBack values ?_
      by_cases hb : d.bound = some 0
      · exact .inr hb
      · exact .inl (by simpa [counts, hb] using h)
    | extendFront values =>
      refine .extendFront values ?_
      by_cases hb : d.bound = some 0
      · exact .inr hb
      · exact .inl (by simpa [counts, hb] using h)
    | clear => exact .clear (by simpa [counts, Deque.isEmpty] using h)
    | insert position value => exact .insert position value (by simpa [counts] using h)
    | rotate steps =>
      refine .rotate steps ?_
      by_cases hl : d.items.length ≤ 1
      · exact .inl hl
      · refine .inr (Int.ofNat_dvd_left.2 (Nat.dvd_of_mod_eq_zero ?_))
        simpa [counts, Deque.length, Nat.lt_of_not_le hl] using h
    | reverse => exact .reverse (Nat.le_of_not_lt (of_decide_eq_false h))
  · intro h
    cases h with
    | pushBack _ hb | pushFront _ hb => simp [counts, hb]
    | popBack he | popFront he | clear he => simp [counts, Deque.isEmpty, he]
    | extendBack _ hn | extendFront _ hn => rcases hn with hn | hn <;> simp [counts, hn]
    | insert _ _ hf => simp [counts, hf]
    | rotate steps hr =>
      rcases hr with hl | hd
      · simp [counts, Deque.length, Nat.not_lt.2 hl]
      · simp [counts, Deque.length, Nat.mod_eq_zero_of_dvd (Int.ofNat_dvd_left.1 hd)]
    | reverse hl => simp [counts, Deque.length, Nat.not_lt.2 hl]

/-- Among elements that all differ, an edit that counts is seen. -/
theorem items_ne_of_counts {change : Edit α} (hn : (d.items ++ change.offered).Nodup)
    (hc : change.counts d = true) : (change.apply d).2.items ≠ d.items := by
  have hbusy : ¬ change.Idle d := fun hi => by simp [counts_eq_false_iff.2 hi] at hc
  have hnew {value : α} (hv : value ∈ change.offered) : value ∉ d.items := fun hold =>
    (List.nodup_append.1 hn).2.2 value hold value hv rfl
  have hother {value : α} (hv : value ∈ change.offered) (hin : value ∈ (change.apply d).2.items) :
      (change.apply d).2.items ≠ d.items := fun he => hnew hv (he ▸ hin)
  have hlength {items : List α} (hl : items.length ≠ d.items.length) : items ≠ d.items :=
    fun he => hl (congrArg List.length he)
  cases change with
  | pushBack value =>
    have hb : d.bound ≠ some 0 := fun hb => hbusy (.pushBack value hb)
    have hin := Deque.getLast_mem_extendBack hb (List.cons_ne_nil value [])
    rw [Deque.extendBack_cons, Deque.extendBack_nil] at hin
    exact hother (List.mem_singleton_self value) hin
  | pushFront value =>
    have hb : d.bound ≠ some 0 := fun hb => hbusy (.pushFront value hb)
    have hin := Deque.getLast_mem_extendFront hb (List.cons_ne_nil value [])
    rw [Deque.extendFront_cons, Deque.extendFront_nil] at hin
    exact hother (List.mem_singleton_self value) hin
  | popBack =>
    have hpos : 0 < d.items.length := List.length_pos_iff.2 fun he => hbusy (.popBack he)
    refine hlength ?_
    simp only [apply, Deque.popBack, List.length_dropLast]
    omega
  | popFront =>
    have hpos : 0 < d.items.length := List.length_pos_iff.2 fun he => hbusy (.popFront he)
    refine hlength ?_
    simp only [apply, Deque.popFront, List.length_tail]
    omega
  | extendBack values =>
    have hv : values ≠ [] := fun hv => hbusy (.extendBack values (.inl hv))
    have hb : d.bound ≠ some 0 := fun hb => hbusy (.extendBack values (.inr hb))
    exact hother (List.getLast_mem hv) (Deque.getLast_mem_extendBack hb hv)
  | extendFront values =>
    have hv : values ≠ [] := fun hv => hbusy (.extendFront values (.inl hv))
    have hb : d.bound ≠ some 0 := fun hb => hbusy (.extendFront values (.inr hb))
    exact hother (List.getLast_mem hv) (Deque.getLast_mem_extendFront hb hv)
  | clear => exact fun he => hbusy (.clear he.symm)
  | insert position value =>
    have hf : d.isFull = false := Bool.eq_false_iff.2 fun hf => hbusy (.insert position value hf)
    obtain ⟨e, hi, hl⟩ := Deque.length_insert hf position value
    refine hlength ?_
    simp only [apply, hi, hl]
    omega
  | rotate steps =>
    have hl : 1 < d.items.length := Nat.lt_of_not_le fun hl => hbusy (.rotate steps (.inl hl))
    have hshift : steps.natAbs % d.items.length ≠ 0 := fun hz =>
      hbusy (.rotate steps (.inr (Int.ofNat_dvd_left.2 (Nat.dvd_of_mod_eq_zero hz))))
    have hlt : steps.natAbs % d.items.length < d.items.length := Nat.mod_lt _ (by omega)
    have hitems := (List.nodup_append.1 hn).1
    simp only [apply, Deque.rotate, Nat.not_le.2 hl, if_false]
    split
    · exact Deque.turn_ne hitems (by omega) (by omega)
    · exact Deque.turn_ne hitems (by omega) hlt
  | reverse =>
    have hl : 1 < d.items.length := Nat.lt_of_not_le fun hl => hbusy (.reverse hl)
    exact Deque.reverse_ne (List.nodup_append.1 hn).1 hl

end Edit

end EvictingDeque
