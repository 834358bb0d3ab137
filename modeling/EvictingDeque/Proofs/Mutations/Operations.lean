import EvictingDeque.Proofs.Deque.Idle
import EvictingDeque.Proofs.Mutations.Still

set_option autoImplicit false

/-!
# What an operation through a handle does to the count of mutations

`SharedOp.Does` lists all that an operation can do to the shared deques if the elements it compares or writes have no
side effects: nothing, the edit that it comes to, or the removal of an element that was found.
-/
namespace EvictingDeque

open Action

/-- The edit was made, and counted if it counts. -/
structure Edit.Done {α : Type} (change : Edit α) (before after : Cell α) : Prop where
  deque : after.deque = (change.apply before.deque).2
  mutations : before.mutations ≤ after.mutations
  counts : change.counts before.deque = true ↔ before.mutations < after.mutations

namespace Edit.Done

variable {α : Type} {a b c : Cell α}

/-- A bulk extension is made of single pushes, each of which counts. -/
theorem pushes (push : α → Edit α) (extend : List α → Edit α) {value : α} {values : List α}
    (happly : ((extend (value :: values)).apply a.deque).2 = ((extend values).apply ((push value).apply a.deque).2).2)
    (hcounts : (extend (value :: values)).counts a.deque = (push value).counts a.deque)
    (hrest : (extend values).counts b.deque = true → (push value).counts a.deque = true)
    (hab : (push value).Done a b) (hbc : (extend values).Done b c) : (extend (value :: values)).Done a c where
  deque := by rw [happly, hbc.deque, hab.deque]
  mutations := Nat.le_trans hab.mutations hbc.mutations
  counts := by
    rw [hcounts, hab.counts]
    refine ⟨fun h => Nat.lt_of_lt_of_le h hbc.mutations, fun h => ?_⟩
    by_cases hlt : a.mutations < b.mutations
    · exact hlt
    · exact hab.counts.1 (hrest (hbc.counts.2 (by omega)))

theorem nothing {change : Edit α} (hc : change.counts a.deque = false) (hd : (change.apply a.deque).2 = a.deque) :
    change.Done a a :=
  ⟨hd.symm, Nat.le_refl _, by simp [hc]⟩

end Edit.Done

namespace Session

/-- Nothing is noticed of other deques. -/
def Besides (id : Nat) (s t : Session) : Prop :=
  s.nextCell ≤ t.nextCell ∧ ∀ other, other < s.nextCell → other ≠ id → (s.cell other).Still (t.cell other)

variable {id : Nat} {s t u : Session}

theorem Besides.trans (hst : Besides id s t) (htu : Besides id t u) : Besides id s u := by
  refine ⟨Nat.le_trans hst.1 htu.1, fun other ho hne => ?_⟩
  exact (hst.2 other ho hne).trans (htu.2 other (Nat.lt_of_lt_of_le ho hst.1) hne)

theorem Besides.putCell (s : Session) (id : Nat) (cell : Cell Element) : Besides id s (s.putCell id cell) := by
  refine ⟨Nat.le_refl _, fun other _ hne => ?_⟩
  rw [cell_putCell_of_ne s hne.symm]
  exact ⟨rfl, rfl⟩

end Session

namespace Action

open Session

variable {id : Nat} {s t : Session}

end Action

/-- A search in a shared deque that answers a position answers one of the deque. -/
theorem Action.lt_of_firstOf {located : Except Refusal (List Nat)} {length position : Nat}
    (hw : Action.Leaves.Within length located) (h : firstOf located = .ok position) : position < length := by
  unfold firstOf at h
  split at h <;> cases h
  exact hw _ rfl position List.mem_cons_self

namespace SharedOp

/-- The edit that an operation comes to. -/
def change? (s : Session) : SharedOp Element → Option (Edit Element)
  | .edit change => some change
  | .ends op => op.edit?
  | .extendFrom name =>
    (s.cursors.get? name).map fun cursor => .extendBack (Cursor.elements (cursor.drain (s.cell cursor.cell)).1)
  | _ => none

/-- The elements that the operation compares or writes have no side effects. -/
def Quiet (m : Meaning) (s : Session) (id : Nat) : SharedOp Element → Prop
  | .ask (.count value) | .ask (.contains value) | .ask (.index value) | .remove value =>
    ∀ stored ∈ (s.cell id).deque.items, (m.equal stored value).Innocent s
  | .written => ∀ stored ∈ (s.cell id).deque.items, (m.write stored).Innocent s
  | .copy _ =>
    ∀ pair ∈ (s.cell id).deque.items.zip (s.cell id).deque.items, (m.equal pair.1 pair.2).Innocent s
  | .equal name => ∀ other, s.shared.get? name = some other →
    ∀ pair ∈ (s.cell id).deque.items.zip (s.cell other).deque.items, (m.equal pair.1 pair.2).Innocent s
  | _ => True

/-- What an operation did to the shared deques when it has answered. -/
inductive Does (id : Nat) (op : SharedOp Element) (s t : Session) (answer : Answer) : Prop
  | nothing (due : op.change? s = none)
      (kept : ∀ value removed, op = .remove value → answer ≠ .element (some removed))
      (still : Session.Through Cell.Still s t)
  | change {change : Edit Element} (due : op.change? s = some change)
      (done : change.Done (s.cell id) (t.cell id)) (besides : Session.Besides id s t)
  | removal {value removed : Element} (due : op = .remove value) (answered : answer = .element (some removed))
      (shorter : (t.cell id).deque.items.length < (s.cell id).deque.items.length)
      (counted : (s.cell id).mutations < (t.cell id).mutations) (besides : Session.Besides id s t)

variable {m : Meaning} {id : Nat} {s t : Session} {answer : Answer}

end SharedOp

end EvictingDeque
