import EvictingDeque.Proofs.Plain.Model

set_option autoImplicit false

/-!
# Deques do what the plain model says

One operation of each kind, without any session.
-/
namespace EvictingDeque

namespace Plain

variable {α : Type}

theorem pushBack_eq (d : Deque α) (value : α) :
    d.pushBack value = ((pushBack d.bound d.items value).1, ⟨(pushBack d.bound d.items value).2, d.bound⟩) := by
  have ho : (⟨d.items ++ [value], d.bound⟩ : Deque α).isOverfull = tooMany d.bound (d.items ++ [value]) := rfl
  cases h : tooMany d.bound (d.items ++ [value]) <;> simp [Deque.pushBack, Deque.popFront, pushBack, ho, h]

theorem pushFront_eq (d : Deque α) (value : α) :
    d.pushFront value = ((pushFront d.bound d.items value).1, ⟨(pushFront d.bound d.items value).2, d.bound⟩) := by
  have ho : (⟨value :: d.items, d.bound⟩ : Deque α).isOverfull = tooMany d.bound (value :: d.items) := rfl
  cases h : tooMany d.bound (value :: d.items) <;> simp [Deque.pushFront, Deque.popBack, pushFront, ho, h]

/-- What is kept in the end is what one push after the other keeps. -/
theorem extendBack_eq (d : Deque α) (values : List α) :
    d.extendBack values = ⟨extendBack d.bound d.items values, d.bound⟩ := by
  induction values generalizing d with
  | nil => rw [Deque.extendBack_nil]; rfl
  | cons value values ih =>
    rw [Deque.extendBack_cons, ih, pushBack_eq]
    rfl

theorem extendFront_eq (d : Deque α) (values : List α) :
    d.extendFront values = ⟨extendFront d.bound d.items values, d.bound⟩ := by
  induction values generalizing d with
  | nil => rw [Deque.extendFront_nil]; rfl
  | cons value values ih =>
    rw [Deque.extendFront_cons, ih, pushFront_eq]
    rfl

theorem insert_eq (d : Deque α) (index : Nat) (value : α) :
    d.insert index value = (insert d.bound d.items index value).map fun items => ⟨items, d.bound⟩ := by
  rcases d with ⟨items, bound⟩
  have hgrown : items.take index ++ value :: items.drop index =
      items.take (min index items.length) ++ value :: items.drop (min index items.length) := by
    rcases Nat.le_total index items.length with h | h
    · rw [Nat.min_eq_left h]
    · rw [Nat.min_eq_right h, List.take_of_length_le h, List.drop_of_length_le h]
      simp
  cases bound with
  | none => simp only [Deque.insert, insert, hgrown, Except.map]
  | some bound =>
    by_cases h : bound ≤ items.length
    · have hn : ¬ items.length < bound := by omega
      simp [Deque.insert, insert, h, hn, Except.map]
    · have hl : items.length < bound := by omega
      simp only [Deque.insert, insert, h, hl, if_false, if_true, hgrown, Except.map]

theorem turn_length (items : List α) : Deque.turn items items.length = items := by simp [Deque.turn]

theorem turn_zero (items : List α) : Deque.turn items 0 = items := by simp [Deque.turn]

theorem emod_of_neg {steps : Int} {length : Nat} (hl : 0 < length) (hs : steps < 0) :
    (steps % length).toNat =
      if steps.natAbs % length = 0 then 0 else length - steps.natAbs % length := by
  have hsplit : steps = -(length * (steps.natAbs / length : Nat) + (steps.natAbs % length : Nat) : Int) := by
    have hdiv := Nat.div_add_mod steps.natAbs length
    have habs : (steps.natAbs : Int) = -steps := by omega
    have hcast : ((length * (steps.natAbs / length) + steps.natAbs % length : Nat) : Int) = -steps := by
      rw [hdiv, habs]
    rw [Int.natCast_add, Int.natCast_mul] at hcast
    omega
  have hlt := Nat.mod_lt steps.natAbs hl
  by_cases h : steps.natAbs % length = 0
  · rw [if_pos h]
    rw [h] at hsplit
    rw [hsplit]
    simp
  · rw [if_neg h]
    have hshift : steps = ((length - steps.natAbs % length : Nat) : Int) +
        length * (-(steps.natAbs / length : Nat) - 1) := by
      rw [Int.mul_sub, Int.mul_neg]
      omega
    have hmod : steps % length = ((length - steps.natAbs % length : Nat) : Int) := calc
      steps % length = (((length - steps.natAbs % length : Nat) : Int) +
          length * (-(steps.natAbs / length : Nat) - 1)) % length := congrArg (· % (length : Int)) hshift
      _ = ((length - steps.natAbs % length : Nat) : Int) % length := Int.add_mul_emod_self_left ..
      _ = ((length - steps.natAbs % length : Nat) : Int) :=
        Int.emod_eq_of_lt (Int.natCast_nonneg _) (by omega)
    rw [hmod]
    exact Int.toNat_natCast _

/-- Leftwards by a number of steps is rightwards by what the number lacks to the length. -/
theorem rotate_eq (d : Deque α) (steps : Int) : d.rotate steps = ⟨rotate d.items steps, d.bound⟩ := by
  rcases d with ⟨items, bound⟩
  unfold Deque.rotate rotate List.rotateRight
  dsimp only
  by_cases hl : items.length ≤ 1
  · rw [if_pos hl, if_pos hl]
  · rw [if_neg hl, if_neg hl]
    have hpos : 0 < items.length := by omega
    change _ = (⟨Deque.turn items (items.length - (steps % items.length).toNat % items.length), bound⟩ : Deque α)
    by_cases hs : 0 ≤ steps
    · obtain ⟨n, rfl⟩ := Int.eq_ofNat_of_zero_le hs
      have hmod : ((n : Int) % items.length).toNat % items.length = n % items.length := by
        rw [← Int.natCast_emod, Int.toNat_natCast, Nat.mod_mod]
      rw [if_pos hs, hmod]
      rfl
    · have hlt := Nat.mod_lt steps.natAbs hpos
      rw [if_neg hs, emod_of_neg hpos (by omega)]
      by_cases hz : steps.natAbs % items.length = 0
      · rw [if_pos hz, hz, Nat.zero_mod, Nat.sub_zero, turn_length, turn_zero]
      · rw [if_neg hz]
        have hback : items.length - (items.length - steps.natAbs % items.length) % items.length =
            steps.natAbs % items.length := by
          rw [Nat.mod_eq_of_lt (by omega)]
          omega
        rw [hback]

theorem extent_eq (d : Deque α) : extent d = d.extent := by
  rcases d with ⟨items, bound⟩
  cases items <;> cases bound <;> rfl

theorem edit_eq (change : Edit α) (d : Deque α) : edit change d = change.apply d := by
  cases change with
  | pushBack value => simp [edit, Edit.apply, pushBack_eq]
  | pushFront value => simp [edit, Edit.apply, pushFront_eq]
  | popBack => rfl
  | popFront => rfl
  | extendBack values => simp [edit, Edit.apply, extendBack_eq]
  | extendFront values => simp [edit, Edit.apply, extendFront_eq]
  | clear => rfl
  | insert index value =>
    simp only [edit, Edit.apply, insert_eq]
    cases insert d.bound d.items index value <;> rfl
  | rotate steps => simp [edit, Edit.apply, rotate_eq]
  | reverse => rfl

theorem ends_eq (op : EndOp α) (d : Deque α) : ends op d = (Deque.ends.run op).run d := by
  cases op with
  | extent =>
    have he : (Deque.ends.run .extent).run d = (.inl (Deque.ends.extent.run d).1, (Deque.ends.extent.run d).2) := rfl
    rw [he, Deque.run_extent, ← extent_eq]
    rfl
  | pushBack value =>
    change _ = ((.inr (d.pushBack value).1, (d.pushBack value).2) : (Extent ⊕ Option α) × Deque α)
    simp [ends, pushBack_eq]
  | pushFront value =>
    change _ = ((.inr (d.pushFront value).1, (d.pushFront value).2) : (Extent ⊕ Option α) × Deque α)
    simp [ends, pushFront_eq]
  | popBack => rfl
  | popFront => rfl
  | extendBack values =>
    have he : (Deque.ends.run (.extendBack values)).run d =
        (.inr none, ((Deque.ends.extendBack values).run d).2) := rfl
    rw [he, Deque.run_extendBack, extendBack_eq]
    rfl
  | extendFront values =>
    have he : (Deque.ends.run (.extendFront values)).run d =
        (.inr none, ((Deque.ends.extendFront values).run d).2) := rfl
    rw [he, Deque.run_extendFront, extendFront_eq]
    rfl

end Plain

end EvictingDeque
