import EvictingDeque.Proofs.Interpreter.SafeSteps

set_option autoImplicit false

/-!
# What lasts of one shared deque

Whatever else happens, holds and marks end with what they were taken for, the count of mutations never goes
down, and it stands still while the deque is held. Where no body that changes the deque is cut short, a deque
whose count stands still is what it was.
-/
namespace EvictingDeque

open Action

namespace Cell

variable {α : Type}

structure Orderly (before after : Cell α) : Prop where
  hold : after.hold = before.hold
  formatting : after.formatting = before.formatting
  mutations : before.mutations ≤ after.mutations
  held : before.hold ≠ .free → after.mutations = before.mutations
  fits : before.deque.Fits → after.deque.Fits

/-- While somebody holds the deque for change it is not compared. -/
structure Counted (before after : Cell α) : Prop extends Orderly before after where
  deque : before.deque.Fits → before.hold ≠ .exclusive → after.mutations = before.mutations →
    after.deque = before.deque

/-- A relation between an earlier and a later state of one cell that lasts through whatever happens to the cell,
across calm interruptions. -/
structure Lasting (calm : Interrupt → Prop) (Q : Cell α → Cell α → Prop) : Prop where
  hold : ∀ {a b}, Q a b → b.hold = a.hold
  refl : ∀ cell, Q cell cell
  trans : ∀ {a b c}, Q a b → Q b c → Q a c
  edit : ∀ (cell : Cell α) change, cell.hold = .free → Q cell (cell.edit change).2
  removeAt : ∀ (cell : Cell α) position, cell.hold = .free → Q cell (cell.removeAt position).2
  written : ∀ {cell after : Cell α}, cell.hold = .free → cell.formatting = false →
    Q { cell with formatting := true } after →
      Q cell (if after.hold = .free then { after with formatting := false } else after)
  read : ∀ {cell after : Cell α}, cell.hold.allowsReading = true →
    Q { cell with hold := cell.hold.enterReading } after →
      Q cell { after with hold := after.hold.leaveReading }
  atHand : ∀ {cell after : Cell α} {d : Deque α}, cell.hold = .exclusive → (cell.deque.Fits → d.Fits) →
    d.bound = cell.deque.bound → Q cell after → Q cell { after with deque := d }
  changed : ∀ {cell after : Cell α}, cell.hold = .free → Q { cell with hold := .exclusive } after →
    Q cell { after.mutated after.deque with hold := .free }
  cut : ∀ {cell after : Cell α} cause, calm cause → cell.hold = .free → Q { cell with hold := .exclusive } after →
    Q cell { after with hold := .free }

theorem Orderly.refl (cell : Cell α) : Orderly cell cell := ⟨rfl, rfl, Nat.le_refl _, fun _ => rfl, id⟩

theorem Orderly.trans {a b c : Cell α} (hab : Orderly a b) (hbc : Orderly b c) : Orderly a c where
  hold := hbc.hold.trans hab.hold
  formatting := hbc.formatting.trans hab.formatting
  mutations := Nat.le_trans hab.mutations hbc.mutations
  held ha := (hbc.held (by rwa [hab.hold])).trans (hab.held ha)
  fits := hbc.fits ∘ hab.fits

theorem Counted.refl (cell : Cell α) : Counted cell cell := ⟨.refl cell, fun _ _ _ => rfl⟩

theorem Counted.trans {a b c : Cell α} (hab : Counted a b) (hbc : Counted b c) : Counted a c where
  toOrderly := hab.toOrderly.trans hbc.toOrderly
  deque hf he hm := by
    have hb : b.mutations = a.mutations := by
      have hle := hab.mutations
      have hle' := hbc.mutations
      omega
    have hexclusive : b.hold ≠ .exclusive := by rwa [hab.hold]
    exact (hbc.deque (hab.fits hf) hexclusive (hm.trans hb.symm)).trans (hab.deque hf he hb)

theorem Counted.edit (cell : Cell α) (change : Edit α) (hf : cell.hold = .free) :
    Counted cell (cell.edit change).2 := by
  unfold Cell.edit
  by_cases hc : change.counts cell.deque = true
  · simp only [hc, if_true]
    exact ⟨⟨rfl, rfl, Nat.le_succ _, fun hh => absurd hf hh, fun hd => Edit.fits_apply hd change⟩,
      fun _ _ hm => absurd hm (Nat.succ_ne_self _)⟩
  · simp only [hc, if_false, Bool.false_eq_true]
    exact ⟨⟨rfl, rfl, Nat.le_refl _, fun _ => rfl, fun hd => Edit.fits_apply hd change⟩,
      fun hd _ _ => Edit.apply_of_not_counts hd (Bool.eq_false_iff.2 hc)⟩

theorem Counted.removeAt (cell : Cell α) (position : Nat) (hf : cell.hold = .free) :
    Counted cell (cell.removeAt position).2 := by
  unfold Cell.removeAt
  split
  · exact ⟨⟨rfl, rfl, Nat.le_succ _, fun hh => absurd hf hh, id⟩, fun _ _ hm => absurd hm (Nat.succ_ne_self _)⟩
  · rename_i hr
    exact ⟨⟨rfl, rfl, Nat.le_succ _, fun hh => absurd hf hh, fun hd => hd.removeAt hr⟩,
      fun _ _ hm => absurd hm (Nat.succ_ne_self _)⟩

theorem enterReading_ne_free {hold : Hold} : hold.enterReading ≠ .free := by
  cases hold <;> simp [Hold.enterReading, Hold.free]

theorem ne_exclusive {hold : Hold} (h : hold.allowsReading = true) : hold ≠ .exclusive := by
  intro he
  rw [he] at h
  cases h

theorem leaveReading_enterReading (hold : Hold) : hold.enterReading.leaveReading = hold := by
  cases hold <;> simp [Hold.enterReading, Hold.leaveReading]

theorem orderly_written {cell after : Cell α} (hf : cell.hold = .free) (hu : cell.formatting = false)
    (h : Orderly { cell with formatting := true } after) :
    Orderly cell (if after.hold = .free then { after with formatting := false } else after) := by
  have hfree : after.hold = .free := h.hold.trans hf
  rw [if_pos hfree]
  exact ⟨h.hold, hu.symm, h.mutations, h.held, h.fits⟩

theorem orderly_read {cell after : Cell α} (h : Orderly { cell with hold := cell.hold.enterReading } after) :
    Orderly cell { after with hold := after.hold.leaveReading } where
  hold := by
    have hh : after.hold = cell.hold.enterReading := h.hold
    rw [hh]
    exact leaveReading_enterReading cell.hold
  formatting := h.formatting
  mutations := h.mutations
  held _ := h.held enterReading_ne_free
  fits := h.fits

theorem orderly_changed {cell after : Cell α} (hf : cell.hold = .free)
    (h : Orderly { cell with hold := .exclusive } after) :
    Orderly cell { after.mutated after.deque with hold := .free } :=
  ⟨hf.symm, h.formatting, Nat.le_succ_of_le h.mutations, fun hh => absurd hf hh, h.fits⟩

theorem orderly_lasting : Lasting (fun _ => True) (Orderly (α := α)) where
  hold h := h.hold
  refl := .refl
  trans := .trans
  edit cell change hf := (Counted.edit cell change hf).toOrderly
  removeAt cell position hf := (Counted.removeAt cell position hf).toOrderly
  written := orderly_written
  read _ := orderly_read
  atHand _ hd _ h := ⟨h.hold, h.formatting, h.mutations, h.held, hd⟩
  changed := orderly_changed
  cut _ _ hf h := ⟨hf.symm, h.formatting, h.mutations, fun hh => absurd hf hh, h.fits⟩

/-- Across an interruption that cuts a hold for change short nothing is claimed. -/
theorem counted_lasting : Lasting (fun _ => False) (Counted (α := α)) where
  hold h := h.hold
  refl := .refl
  trans := .trans
  edit := .edit
  removeAt := .removeAt
  written {cell after} hf hu h := by
    refine ⟨orderly_written hf hu h.toOrderly, ?_⟩
    have hfree : after.hold = .free := h.hold.trans hf
    rw [if_pos hfree]
    exact h.deque
  read {cell after} ha h := by
    refine ⟨orderly_read h.toOrderly, fun hd _ hm => h.deque hd (fun he => ?_) hm⟩
    cases hh : cell.hold with
    | readers count => simp [hh, Hold.enterReading] at he
    | exclusive => simp [hh, Hold.allowsReading] at ha
  atHand he hd hb h := ⟨orderly_lasting.atHand he hd hb h.toOrderly, fun _ hn => absurd he hn⟩
  changed {cell after} hf h := by
    refine ⟨orderly_changed hf h.toOrderly, fun _ _ hm => ?_⟩
    have hle : cell.mutations ≤ after.mutations := h.mutations
    have hsucc : after.mutations + 1 = cell.mutations := hm
    omega
  cut _ hc := absurd hc id

end Cell

namespace Session

theorem cell_mark (id : Nat) (s : Session) : (mark id s).cell id = { s.cell id with formatting := true } :=
  cell_putCell_self ..

theorem cell_unmark (id : Nat) (s : Session) :
    (unmark id s).cell id =
      if (s.cell id).hold = .free then { s.cell id with formatting := false } else s.cell id := by
  unfold unmark
  split
  · exact cell_putCell_self ..
  · rfl

theorem cell_setHold (id : Nat) (hold : Hold → Hold) (s : Session) :
    (setHold id hold s).cell id = { s.cell id with hold := hold (s.cell id).hold } :=
  cell_putCell_self ..

theorem cell_of_cells {s t : Session} (h : t.cells = s.cells) (id : Nat) : t.cell id = s.cell id := by
  unfold Session.cell
  rw [h]

theorem cell_mark_of_ne {id other : Nat} (h : id ≠ other) (s : Session) : (mark id s).cell other = s.cell other :=
  cell_putCell_of_ne s h _

theorem cell_unmark_of_ne {id other : Nat} (h : id ≠ other) (s : Session) :
    (unmark id s).cell other = s.cell other := by
  unfold unmark
  split
  · exact cell_putCell_of_ne s h _
  · rfl

theorem cell_setHold_of_ne {id other : Nat} (h : id ≠ other) (hold : Hold → Hold) (s : Session) :
    (setHold id hold s).cell other = s.cell other :=
  cell_putCell_of_ne s h _

/-- Whatever happens to the cell of a known deque is so related. -/
def Through (Q : Cell Element → Cell Element → Prop) (s t : Session) : Prop :=
  s.nextCell ≤ t.nextCell ∧ ∀ id, id < s.nextCell → Q (s.cell id) (t.cell id)

/-- Between two changes of one cell all cells may change. -/
theorem Through.bracket {Q : Cell Element → Cell Element → Prop} {s t u v : Session} (id : Nat) (hst : Through Q s t)
    (hn : s.nextCell = u.nextCell) (hv : v.nextCell = t.nextCell)
    (hu : ∀ other, id ≠ other → s.cell other = u.cell other) (ht : ∀ other, id ≠ other → v.cell other = t.cell other)
    (hq : Q (s.cell id) (t.cell id) → Q (u.cell id) (v.cell id)) :
    Through Q u v := by
  refine ⟨by rw [← hn, hv]; exact hst.1, fun other ho => ?_⟩
  have hother := hst.2 other (hn ▸ ho)
  by_cases hid : id = other
  · subst hid
    exact hq hother
  · rw [← hu other hid, ht other hid]
    exact hother

section

variable {calm : Interrupt → Prop} {Q : Cell Element → Cell Element → Prop} (h : Cell.Lasting calm Q) {s t : Session}
include h

theorem Through.of_cells (hn : t.nextCell = s.nextCell) (hc : ∀ id, t.cell id = s.cell id) : Through Q s t :=
  ⟨Nat.le_of_eq hn.symm, fun id _ => hc id ▸ h.refl _⟩

theorem Through.putCell {id : Nat} {cell : Cell Element} (hq : Q (s.cell id) cell) :
    Through Q s (s.putCell id cell) := by
  refine ⟨Nat.le_refl _, fun other _ => ?_⟩
  by_cases hid : id = other
  · subst hid
    rw [cell_putCell_self]
    exact hq
  · rw [cell_putCell_of_ne s hid]
    exact h.refl _

end

/-- The course of all cells, given what lasts of each. -/
def Course.ofCells {calm : Interrupt → Prop} {Q : Cell Element → Cell Element → Prop} (h : Cell.Lasting calm Q) :
    Course where
  calm := calm
  rel := Through Q
  refl s := .of_cells h rfl fun _ => rfl
  trans hst htu :=
    ⟨Nat.le_trans hst.1 htu.1, fun id hid => h.trans (hst.2 id hid) (htu.2 id (Nat.lt_of_lt_of_le hid hst.1))⟩
  hold hst hid := h.hold (hst.2 _ hid)
  beside hst := .of_cells h hst.nextCell fun id => cell_of_cells hst.cells id
  created {s} d _ := by
    refine ⟨Nat.le_succ _, fun id hid => ?_⟩
    have hcell : { s.putCell s.nextCell (.fresh d) with nextCell := s.nextCell + 1 }.cell id = s.cell id :=
      cell_putCell_of_ne s (Nat.ne_of_gt hid) _
    rw [hcell]
    exact h.refl _
  edited id change _ _ hf := .putCell h (h.edit _ change hf)
  removed id position _ _ hf := .putCell h (h.removeAt _ position hf)
  started _ _ _ _ _ := .of_cells h rfl fun _ => rfl
  advanced _ _ _ _ _ := .of_cells h rfl fun _ => rfl
  drained _ _ _ _ _ := .of_cells h rfl fun _ => rfl
  dropped _ _ := .of_cells h rfl fun _ => rfl
  written {s t} id _ hf hu hst := by
    refine hst.bracket id rfl (nextCell_unmark id t) (fun _ hne => cell_mark_of_ne hne s)
      (fun _ hne => cell_unmark_of_ne hne t) fun hq => ?_
    rw [cell_mark] at hq
    rw [cell_unmark]
    exact h.written hf hu hq
  read {s t} id _ ha hst := by
    refine hst.bracket id rfl rfl (fun _ hne => cell_setHold_of_ne hne _ s)
      (fun _ hne => cell_setHold_of_ne hne _ t) fun hq => ?_
    rw [cell_setHold] at hq
    rw [cell_setHold]
    exact h.read ha hq
  atHand {s t} id _ _ _ he hd hst := by
    refine hst.bracket id rfl rfl (fun _ _ => rfl) (fun _ hne => cell_putCell_of_ne t hne _) fun hq => ?_
    rw [cell_putCell_self]
    exact h.atHand he hd.fits hd.bound hq
  changed {s t} id _ _ hf hst := by
    refine hst.bracket id rfl rfl (fun _ hne => cell_putCell_of_ne s hne _)
      (fun _ hne => (cell_setHold_of_ne hne _ _).trans (cell_putCell_of_ne t hne _)) fun hq => ?_
    rw [cell_putCell_self] at hq
    rw [cell_setHold, cell_putCell_self]
    exact h.changed hf hq
  cut {s t} id cause hc _ _ hf hst := by
    refine hst.bracket id rfl rfl (fun _ hne => cell_putCell_of_ne s hne _)
      (fun _ hne => cell_setHold_of_ne hne _ _) fun hq => ?_
    rw [cell_putCell_self] at hq
    rw [cell_setHold]
    exact h.cut cause hc hf hq

def orderly : Course := .ofCells Cell.orderly_lasting

/-- Runs reach proper sessions only. -/
theorem Proper.endOf {s : Session} (h : s.Proper) (depth : Nat) (steps : List Step) :
    (endOf (Meaning.upTo depth) steps s).Proper :=
  (Course.endOf (C := orderly) (fun _ => trivial) h depth steps).1

def counted : Course := .ofCells Cell.counted_lasting

end Session

end EvictingDeque
