import EvictingDeque.Proofs.Cursor.Told

set_option autoImplicit false

/-!
# Cursors that are over

A finished cursor no longer looks at its deque. Whatever happens from then on, at whatever depth, and also where changes
are cut short, each of its calls tells nothing and leaves it as it is, as long as its register is not used anew.
-/
namespace EvictingDeque

open Action

/-- The register holds another cursor from then on, or none. -/
def Happening.Replaces (name : String) : Happening → Prop
  | .made cursor _ _ _ => cursor = name
  | .dropped cursor => cursor = name
  | _ => False

namespace Cursor

def Call.TellsNothing : Call → Prop
  | .next _ visit => visit = none
  | .collect _ visits => visits = []

/-- Since the journal was this one, the register has been used anew, or it still holds the cursor and was told nothing. -/
def Over (name : String) (cursor : Cursor) (older : List Happening) (s : Session) : Prop :=
  ∃ newer, s.journal = newer ++ older ∧ ((∀ happening ∈ newer, ¬ happening.Replaces name) →
    s.cursors.get? name = some cursor ∧ ∀ call ∈ Happening.calls name newer, call.TellsNothing)

variable {name : String} {cursor : Cursor} {older : List Happening} {s t : Session}

theorem advance_of_finished {α : Type} (h : cursor.finished = true) (cell : Cell α) :
    cursor.advance cell = (none, cursor) := if_pos h

theorem drain_of_finished {α : Type} (h : cursor.finished = true) (cell : Cell α) :
    cursor.drain cell = ([], cursor) := if_pos h

namespace Over

theorem begin (h : s.cursors.get? name = some cursor) : Over name cursor s.journal s :=
  ⟨[], rfl, fun _ => ⟨h, nofun⟩⟩

theorem still (h : Over name cursor older s) (hj : t.journal = s.journal) (hc : t.cursors = s.cursors) :
    Over name cursor older t := by
  unfold Over
  rwa [hj, hc]

/-- One more entry in the journal. -/
theorem note (h : Over name cursor older s) {happening : Happening} (hj : t.journal = happening :: s.journal)
    (hc : ¬ happening.Replaces name → s.cursors.get? name = some cursor →
      t.cursors.get? name = some cursor ∧ ∀ call ∈ happening.call? name, call.TellsNothing) :
    Over name cursor older t := by
  obtain ⟨newer, hnewer, hover⟩ := h
  refine ⟨happening :: newer, hj.trans (congrArg (happening :: ·) hnewer), fun hr => ?_⟩
  obtain ⟨hget, hcalls⟩ := hover fun other ho => hr other (List.mem_cons_of_mem _ ho)
  obtain ⟨hstill, hcall⟩ := hc (hr happening List.mem_cons_self) hget
  refine ⟨hstill, fun call hmem => ?_⟩
  rw [Happening.calls_cons] at hmem
  rcases List.mem_append.1 hmem with hbefore | hlast
  · exact hcalls call hbefore
  · exact hcall call (Option.mem_toList.1 hlast)

/-- A call of some cursor. If it is the finished one, it tells nothing and stays what it is. -/
theorem called (h : Over name cursor older s) (register : String) {found : Cursor} {happening : Happening}
    (hother : register ≠ name → happening.call? name = none)
    (hsame : register = name → s.cursors.get? name = some cursor →
      found = cursor ∧ ∀ call ∈ happening.call? name, call.TellsNothing) :
    Over name cursor older ({ s with cursors := s.cursors.put register found }.note happening) := by
  refine h.note rfl fun _ hget => ?_
  by_cases hr : register = name
  · obtain ⟨rfl, hcall⟩ := hsame hr hget
    exact ⟨hr ▸ Table.get?_put_self .., hcall⟩
  · rw [hother hr]
    exact ⟨(Table.get?_put_of_ne _ hr _).trans hget, nofun⟩

theorem unmark (h : Over name cursor older s) (id : Nat) : Over name cursor older (unmark id s) := by
  unfold Action.unmark
  split
  · exact h.still rfl rfl
  · exact h

end Over

/-- Only calls and what puts another cursor into the register concern a cursor that is over. -/
def staysOver (name : String) (hover : cursor.finished = true) (older : List Happening) : Session.Course where
  calm _ := True
  rel s t := Session.orderly.rel s t ∧ (Over name cursor older s → Over name cursor older t)
  refl s := ⟨Session.orderly.refl s, id⟩
  trans hst htu := ⟨Session.orderly.trans hst.1 htu.1, htu.2 ∘ hst.2⟩
  hold hst := Session.orderly.hold hst.1
  beside hst := ⟨Session.orderly.beside hst, fun h => h.still hst.journal hst.cursors⟩
  created d hs := ⟨Session.orderly.created d hs, fun h => h.still rfl rfl⟩
  edited id change hs hid hf := ⟨Session.orderly.edited id change hs hid hf, fun h => h.still rfl rfl⟩
  removed id position hs hid hf := ⟨Session.orderly.removed id position hs hid hf, fun h => h.still rfl rfl⟩
  started register id hs hid ha := by
    refine ⟨Session.orderly.started register id hs hid ha, fun h => h.note rfl fun hr hget => ?_⟩
    exact ⟨(Table.get?_put_of_ne _ hr _).trans hget, nofun⟩
  advanced {s} register found hs hget ha := by
    refine ⟨Session.orderly.advanced register found hs hget ha, fun h => h.called register
      (fun hne => if_neg hne) fun hr hsame => ?_⟩
    cases (hr ▸ hget).symm.trans hsame
    rw [advance_of_finished hover]
    exact ⟨rfl, fun call hc => by cases (if_pos hr).symm.trans hc; rfl⟩
  drained {s} register found hs hget ha := by
    refine ⟨Session.orderly.drained register found hs hget ha, fun h => h.called register
      (fun hne => if_neg hne) fun hr hsame => ?_⟩
    cases (hr ▸ hget).symm.trans hsame
    rw [drain_of_finished hover]
    exact ⟨rfl, fun call hc => by cases (if_pos hr).symm.trans hc; rfl⟩
  dropped register hs := by
    refine ⟨Session.orderly.dropped register hs, fun h => h.note rfl fun hr hget => ?_⟩
    have hne : ¬ register = name := hr
    exact ⟨by simpa [Session.note, Table.get?_erase, hne] using hget, nofun⟩
  written id hs hf hu hst :=
    ⟨Session.orderly.written id hs hf hu hst.1, fun h => (hst.2 (h.still rfl rfl)).unmark id⟩
  read id hs ha hst := ⟨Session.orderly.read id hs ha hst.1, fun h => (hst.2 (h.still rfl rfl)).still rfl rfl⟩
  atHand id _ hs hid he hd hst :=
    ⟨Session.orderly.atHand id hs hid he hd hst.1, fun h => (hst.2 h).still rfl rfl⟩
  changed id hs hid hf hst :=
    ⟨Session.orderly.changed id hs hid hf hst.1, fun h => (hst.2 (h.still rfl rfl)).still rfl rfl⟩
  cut id cause hc hs hid hf hst :=
    ⟨Session.orderly.cut id cause hc hs hid hf hst.1, fun h =>
      (hst.2 (h.still rfl rfl)).note rfl fun _ hget => ⟨hget, nofun⟩⟩

/-- Any steps from any proper session in which the cursor is over. -/
theorem over_endOf (depth : Nat) (hs : s.Proper) (hget : s.cursors.get? name = some cursor)
    (hover : cursor.finished = true) (steps : List Step) :
    Over name cursor s.journal (Session.endOf (Meaning.upTo depth) steps s) :=
  (Session.Course.endOf (C := staysOver name hover s.journal) (fun _ => trivial) hs depth steps).2.2 (.begin hget)

/-- The deque of a finished cursor may be held by anybody. -/
theorem withCursor_of_get? {β : Type} {visit : Cursor → Cell Element → β × Cursor}
    {happening : String → Nat → β → Happening} (hget : s.cursors.get? name = some cursor)
    (hopen : cursor.finished = true ∨ (s.cell cursor.cell).hold.allowsReading = true) :
    withCursor name visit happening s =
      (.ok (visit cursor (s.cell cursor.cell)).1,
        { s with cursors := s.cursors.put name (visit cursor (s.cell cursor.cell)).2 }.note
          (happening name (s.cell cursor.cell).mutations (visit cursor (s.cell cursor.cell)).1)) := by
  rcases hrun : withCursor name visit happening s with ⟨outcome, t⟩
  rcases withCursor_cases hrun with ⟨_, cause, _, hbarred⟩ | ⟨found, hfound, _, rfl, rfl⟩
  · cases hbarred with
    | missing hnone => cases hget.symm.trans hnone
    | held hother hunfinished hheld =>
      cases hget.symm.trans hother
      rcases hopen with hover | hreads
      · cases hover.symm.trans hunfinished
      · cases hreads.symm.trans hheld
  · cases hget.symm.trans hfound
    rfl

/-- What a cursor that is over answers, whatever it is asked. -/
theorem perform_over (m : Meaning) (hget : s.cursors.get? name = some cursor) (hover : cursor.finished = true)
    (register : String) :
    (m.performStep (.cursor register name .next) s).1 = .ok .nothing ∧
      (m.performStep (.cursor register name .collect) s).1 = .ok (.elements []) := by
  have hnext : advanceCursor name s = _ := withCursor_of_get? hget (.inl hover)
  have hcollect : drainCursor name s = _ := withCursor_of_get? hget (.inl hover)
  rw [advance_of_finished hover] at hnext
  rw [drain_of_finished hover] at hcollect
  constructor
  · change ((advanceCursor name >>= _) s).1 = _
    rw [bind_ok hnext]
    rfl
  · change ((drainCursor name >>= _) s).1 = _
    rw [bind_ok hcollect]
    rfl

end Cursor

end EvictingDeque
