import EvictingDeque.Proofs.Cursor.Told

set_option autoImplicit false

/-!
# Cursors visit a snapshot

From the moment a cursor is made, however it is interleaved with anything else at whatever depth, its calls tell of the
elements that its deque held then, in order, until the deque has been mutated: that is reported once, and from then on,
as from the end on, there is nothing more. The one thing that could be missed is a change that is cut short.
-/
namespace EvictingDeque

open Action

namespace Cursor

variable {name : String} {id : Nat} {s t : Session}

/-- Whatever the journal says of a cursor made in this register over this deque: it visited a snapshot, unless it was
disturbed. -/
def Journaled (name : String) (id : Nat) (s : Session) : Prop :=
  ∀ newer older mutations items, s.journal = newer ++ .made name id mutations items :: older →
    id < s.nextCell ∧ ((∀ happening ∈ newer, ¬ happening.Disturbs name id) →
      ∃ unvisited, Told mutations (some items) (Happening.calls name newer) unvisited ∧
        Followed name id mutations unvisited s)

theorem Journaled.still (h : Journaled name id s) (hj : t.journal = s.journal) (hn : s.nextCell ≤ t.nextCell)
    (hf : id < s.nextCell → ∀ mutations unvisited, Followed name id mutations unvisited s →
      Followed name id mutations unvisited t) : Journaled name id t := by
  intro newer older mutations items hjournal
  obtain ⟨hid, htold⟩ := h newer older mutations items (hj.symm.trans hjournal)
  refine ⟨Nat.lt_of_lt_of_le hid hn, fun hd => ?_⟩
  obtain ⟨unvisited, htold, hfollowed⟩ := htold hd
  exact ⟨unvisited, htold, hf hid mutations unvisited hfollowed⟩

/-- One more entry in the journal, which does not begin anew. -/
theorem Journaled.note (h : Journaled name id s) {happening : Happening} (hj : t.journal = happening :: s.journal)
    (hn : s.nextCell ≤ t.nextCell) (hmade : ∀ mutations items, happening ≠ .made name id mutations items)
    (hf : ¬ happening.Disturbs name id → ∀ mutations unvisited, Followed name id mutations unvisited s →
      ∃ after, Told mutations unvisited (happening.call? name).toList after ∧
        Followed name id mutations after t) : Journaled name id t := by
  intro newer older mutations items hjournal
  rw [hj] at hjournal
  cases newer with
  | nil => exact absurd (List.cons.inj hjournal).1 (hmade mutations items)
  | cons first newer =>
    obtain ⟨rfl, hrest⟩ := List.cons.inj hjournal
    obtain ⟨hid, htold⟩ := h newer older mutations items hrest
    refine ⟨Nat.lt_of_lt_of_le hid hn, fun hd => ?_⟩
    obtain ⟨unvisited, htold, hfollowed⟩ := htold fun other ho => hd other (List.mem_cons_of_mem _ ho)
    obtain ⟨after, hmore, hafter⟩ := hf (hd happening List.mem_cons_self) mutations unvisited hfollowed
    rw [Happening.calls_cons]
    exact ⟨after, htold.append hmore, hafter⟩

/-- A change of any cell after which, of this deque, a cursor still finds what it did or knows that it does not. -/
theorem Journaled.putCell (h : Journaled name id s) {other : Nat} {cell : Cell Element}
    (hf : other = id → ∀ mutations unvisited, Followed name id mutations unvisited s →
      Followed name id mutations unvisited (s.putCell other cell)) : Journaled name id (s.putCell other cell) := by
  refine h.still rfl (Nat.le_refl _) fun _ mutations unvisited hfollowed => ?_
  by_cases hid : other = id
  · exact hf hid mutations unvisited hfollowed
  · have hcell := Session.cell_putCell_of_ne s hid cell
    exact hfollowed.of_same (congrArg Cell.mutations hcell) (congrArg Cell.deque hcell) (fun he => hcell.symm ▸ he) rfl

theorem Journaled.made (h : Journaled name id s) (register : String) {other : Nat} (hid : other < s.nextCell) :
    Journaled name id ({ s with cursors := s.cursors.put register (.start other (s.cell other)) }.note
      (.made register other (s.cell other).mutations (s.cell other).deque.items)) := by
  by_cases hsame : register = name ∧ other = id
  · obtain ⟨rfl, rfl⟩ := hsame
    intro newer older mutations items hjournal
    cases newer with
    | nil =>
      cases (List.cons.inj hjournal).1
      refine ⟨hid, fun _ => ⟨_, .nothing _, Nat.le_refl _, 0, Table.get?_put_self .., fun rest hr _ _ => ?_⟩⟩
      exact Option.some.inj hr
    | cons first newer =>
      obtain ⟨rfl, hrest⟩ := List.cons.inj hjournal
      exact ⟨(h newer older mutations items hrest).1, fun hd => absurd rfl (hd _ List.mem_cons_self)⟩
  · refine h.note rfl (Nat.le_refl _) (fun _ _ he => ?_) fun hd mutations unvisited hf => ?_
    · cases he
      exact hsame ⟨rfl, rfl⟩
    · exact ⟨unvisited, .nothing _, hf.of_same rfl rfl (fun he => he) (Table.get?_put_of_ne _ hd _)⟩

/-- A call of some cursor, which is the cursor in question or leaves it alone. -/
theorem Journaled.called (h : Journaled name id s) (register : String) (cursor : Cursor) {happening : Happening}
    (hmade : ∀ mutations items, happening ≠ .made name id mutations items)
    (hother : register ≠ name → happening.call? name = none)
    (hsame : register = name → ∀ mutations unvisited, Followed name id mutations unvisited s →
      ∃ after, Told mutations unvisited (happening.call? name).toList after ∧
        Followed name id mutations after ({ s with cursors := s.cursors.put register cursor }.note happening)) :
    Journaled name id ({ s with cursors := s.cursors.put register cursor }.note happening) := by
  refine h.note rfl (Nat.le_refl _) hmade fun _ mutations unvisited hf => ?_
  by_cases hr : register = name
  · exact hsame hr mutations unvisited hf
  · rw [hother hr]
    exact ⟨unvisited, .nothing _, hf.of_same rfl rfl (fun he => he) (Table.get?_put_of_ne _ hr _)⟩

end Cursor

end EvictingDeque
