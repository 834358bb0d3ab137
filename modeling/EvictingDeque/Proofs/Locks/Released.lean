import EvictingDeque.Proofs.Interpreter.Cells

set_option autoImplicit false

/-!
# Locks and marks are given back

Holds and marks are taken in brackets, and a bracket ends however the action inside it ends. So a deque that was there
before is held and marked afterwards as it was before, and one that was made meanwhile is neither held nor marked.
-/
namespace EvictingDeque

open Action

structure Cell.Idle {α : Type} (cell : Cell α) : Prop where
  free : cell.hold = .free
  unmarked : cell.formatting = false

/-- Held by as many, and marked if and only if it was. -/
structure Cell.AlikeLocked {α : Type} (before after : Cell α) : Prop where
  hold : after.hold = before.hold
  formatting : after.formatting = before.formatting

theorem Cell.AlikeLocked.trans {α : Type} {a b c : Cell α} (hab : a.AlikeLocked b) (hbc : b.AlikeLocked c) :
    a.AlikeLocked c :=
  ⟨hbc.hold.trans hab.hold, hbc.formatting.trans hab.formatting⟩

theorem Cell.AlikeLocked.idle {α : Type} {a b : Cell α} (h : a.AlikeLocked b) (ha : a.Idle) : b.Idle :=
  ⟨h.hold.trans ha.free, h.formatting.trans ha.unmarked⟩

theorem Cell.AlikeLocked.of_orderly {α : Type} {a b : Cell α} (h : a.Orderly b) : a.AlikeLocked b :=
  ⟨h.hold, h.formatting⟩

namespace Session

/-- There is a place for the deque. -/
def Made (s : Session) (id : Nat) : Prop := (s.cells.get? id).isSome = true

structure Restores (s t : Session) : Prop where
  nextCell : s.nextCell ≤ t.nextCell
  cells : ∀ id, (s.cell id).AlikeLocked (t.cell id) ∨ s.nextCell ≤ id ∧ (t.cell id).Idle
  made : ∀ id, s.Made id → t.Made id
  fresh : ∀ id, s.nextCell ≤ id → id < t.nextCell → t.Made id

/-- Every deque has its place, nobody holds any of them, and none is being written. -/
structure Released (s : Session) : Prop where
  idle : ∀ id, (s.cell id).Idle
  made : ∀ id, id < s.nextCell → s.Made id

variable {s t u : Session} {id : Nat} {cell : Cell Element}

theorem released_start (hooks : List (String × Hook)) (environment : Option String) :
    (start hooks environment).Released :=
  ⟨fun _ => ⟨rfl, rfl⟩, fun _ h => absurd h (Nat.not_lt_zero _)⟩

theorem Restores.released (h : Restores s t) (hs : s.Released) : t.Released where
  idle id := (h.cells id).elim (fun ha => ha.idle (hs.idle id)) fun ha => ha.2
  made id hid := by
    by_cases hold : id < s.nextCell
    · exact h.made id (hs.made id hold)
    · exact h.fresh id (Nat.le_of_not_lt hold) hid

theorem Restores.of_cells (hn : t.nextCell = s.nextCell) (hc : t.cells = s.cells) : Restores s t where
  nextCell := Nat.le_of_eq hn.symm
  cells id := by
    rw [cell_of_cells hc id]
    exact .inl ⟨rfl, rfl⟩
  made id h := by
    unfold Made
    rwa [hc]
  fresh id hle hlt := by omega

theorem Restores.trans (hst : Restores s t) (htu : Restores t u) : Restores s u where
  nextCell := Nat.le_trans hst.nextCell htu.nextCell
  cells id := by
    rcases htu.cells id with halike | ⟨hle, hidle⟩
    · exact (hst.cells id).imp (fun h => h.trans halike) fun ⟨hle, hidle⟩ => ⟨hle, halike.idle hidle⟩
    · exact .inr ⟨Nat.le_trans hst.nextCell hle, hidle⟩
  made id h := htu.made id (hst.made id h)
  fresh id hle hlt := by
    by_cases hold : id < t.nextCell
    · exact htu.made id (hst.fresh id hle hold)
    · exact htu.fresh id (Nat.le_of_not_lt hold) hlt

theorem made_putCell (s : Session) (id other : Nat) (cell : Cell Element) (h : s.Made other) :
    (s.putCell id cell).Made other := by
  unfold Made putCell
  rw [Table.get?_put]
  split
  · rfl
  · exact h

theorem putCell_putCell (s : Session) (id : Nat) (cell later : Cell Element) :
    (s.putCell id cell).putCell id later = s.putCell id later := by
  simp [putCell, Table.put_put]

theorem putCell_cell (h : s.Made id) : s.putCell id (s.cell id) = s := by
  obtain ⟨memo, hmemo⟩ := Option.isSome_iff_exists.1 h
  have hcell : s.cell id = memo.value := by simp [Session.cell, hmemo]
  have hput : s.cells.put id (.of _ (s.cell id)) = s.cells := by
    rw [show (Memo.of Cell.owners (s.cell id)) = memo from Memo.eq_of_value_eq hcell]
    exact Table.put_of_get? hmemo
  simp [putCell, hput]

theorem Restores.putCell (h : (s.cell id).AlikeLocked cell) : Restores s (s.putCell id cell) where
  nextCell := Nat.le_refl _
  cells other := by
    by_cases hid : id = other
    · subst hid
      rw [cell_putCell_self]
      exact .inl h
    · rw [cell_putCell_of_ne s hid]
      exact .inl ⟨rfl, rfl⟩
  made other := made_putCell s id other cell
  fresh other hle hlt := absurd hlt (Nat.not_lt.2 hle)

/-- A bracket around one deque: what its end makes of the deque decides. -/
theorem Restores.bracket {before after : Cell Element} (h : Restores (s.putCell id before) t)
    (halike : before.AlikeLocked (t.cell id) → (s.cell id).AlikeLocked after)
    (hidle : s.nextCell ≤ id → (t.cell id).Idle → after.Idle) : Restores s (t.putCell id after) where
  nextCell := h.nextCell
  cells other := by
    have hother := h.cells other
    by_cases hid : id = other
    · subst hid
      rw [cell_putCell_self] at hother
      rw [cell_putCell_self]
      exact hother.imp halike fun ⟨hle, hc⟩ => ⟨hle, hidle hle hc⟩
    · rw [cell_putCell_of_ne s hid] at hother
      rwa [cell_putCell_of_ne t hid]
  made other hm := made_putCell t id other after (h.made other (made_putCell s id other before hm))
  fresh other hle hlt := made_putCell t id other after (h.fresh other hle hlt)

theorem Restores.created (s : Session) (d : Deque Element) :
    Restores s { s.putCell s.nextCell (.fresh d) with nextCell := s.nextCell + 1 } where
  nextCell := Nat.le_succ _
  cells id := by
    by_cases hid : s.nextCell = id
    · subst hid
      have hcell : { s.putCell s.nextCell (.fresh d) with nextCell := s.nextCell + 1 }.cell s.nextCell = .fresh d :=
        cell_putCell_self ..
      rw [hcell]
      exact .inr ⟨Nat.le_refl _, rfl, rfl⟩
    · have hcell : { s.putCell s.nextCell (.fresh d) with nextCell := s.nextCell + 1 }.cell id = s.cell id :=
        cell_putCell_of_ne s hid _
      rw [hcell]
      exact .inl ⟨rfl, rfl⟩
  made id := made_putCell s s.nextCell id _
  fresh id hle hlt := by
    cases Nat.le_antisymm (Nat.lt_succ_iff.1 hlt) hle
    simp [Made, Session.putCell]

theorem Restores.written (hf : (s.cell id).hold = .free) (hu : (s.cell id).formatting = false)
    (h : Restores (mark id s) t) : Restores s (unmark id t) := by
  have hfree : (t.cell id).hold = .free := by
    rcases h.cells id with halike | ⟨_, hidle⟩
    · rw [cell_mark] at halike
      exact halike.hold.trans hf
    · exact hidle.free
  unfold unmark
  rw [if_pos hfree]
  exact h.bracket (fun _ => ⟨hfree.trans hf.symm, hu.symm⟩) fun _ _ => ⟨hfree, rfl⟩

theorem Restores.read (h : Restores (setHold id Hold.enterReading s) t) :
    Restores s (setHold id Hold.leaveReading t) := by
  refine h.bracket (fun halike => ⟨?_, halike.formatting⟩) fun _ hidle => ⟨?_, hidle.unmarked⟩
  · have hh : (t.cell id).hold = (s.cell id).hold.enterReading := halike.hold
    exact (congrArg Hold.leaveReading hh).trans (Cell.leaveReading_enterReading _)
  · exact congrArg Hold.leaveReading hidle.free

theorem Restores.exclusive (hid : id < s.nextCell) (hf : (s.cell id).hold = .free)
    (h : Restores (s.putCell id { s.cell id with hold := .exclusive }) t) :
    Restores s (setHold id (fun _ => .free) t) :=
  h.bracket (fun halike => ⟨hf.symm, halike.formatting⟩) fun hle _ => absurd hid (Nat.not_lt.2 hle)

/-- Nothing that happens, at whatever depth and across whichever interruptions, leaves a lock behind. -/
def restoring : Course where
  calm _ := True
  rel := Restores
  refl s := .of_cells rfl rfl
  trans := .trans
  hold {s t id} h hid := by
    rcases h.cells id with halike | ⟨hle, _⟩
    · exact halike.hold
    · exact absurd hid (Nat.not_lt.2 hle)
  beside h := .of_cells h.nextCell h.cells
  created d _ := .created _ d
  edited id change _ _ hf := .putCell (.of_orderly (Cell.Counted.edit _ change hf).toOrderly)
  removed id position _ _ hf := .putCell (.of_orderly (Cell.Counted.removeAt _ position hf).toOrderly)
  started _ _ _ _ _ := .of_cells rfl rfl
  advanced _ _ _ _ _ := .of_cells rfl rfl
  drained _ _ _ _ _ := .of_cells rfl rfl
  dropped _ _ := .of_cells rfl rfl
  written _ _ hf hu h := h.written hf hu
  read _ _ _ h := h.read
  atHand _ _ _ _ _ _ h := h.trans (.putCell ⟨rfl, rfl⟩)
  changed _ _ hid hf h := .exclusive hid hf (h.trans (.putCell ⟨rfl, rfl⟩))
  cut _ _ _ _ hid hf h := .exclusive hid hf (h.trans (.of_cells rfl rfl))

theorem Proper.released_perform (hs : s.Proper) (hr : s.Released) (depth : Nat) (step : Step) :
    ((Meaning.upTo depth).perform step s).2.Released :=
  ((Meaning.upTo_safely restoring depth).perform step s _ _ hs rfl (calm_always _)).2.2.released hr

/-- Between the steps of a run nothing is held and nothing is marked. -/
theorem released_endOf (hooks : List (String × Hook)) (environment : Option String) (depth : Nat) (steps : List Step) :
    (endOf (Meaning.upTo depth) steps (start hooks environment)).Released :=
  ((Course.endOf (C := restoring) (fun _ => trivial) (proper_start hooks environment) depth steps).2).released
    (released_start hooks environment)

end Session

end EvictingDeque
