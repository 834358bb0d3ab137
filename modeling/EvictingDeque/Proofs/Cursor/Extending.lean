import EvictingDeque.Proofs.Bounds.Runs
import EvictingDeque.Proofs.Cursor.Over
import EvictingDeque.Proofs.Frame.Places
import EvictingDeque.Proofs.Window.Trailing

set_option autoImplicit false

/-!
# Extension from a cursor

A shared deque may take its new elements from a cursor, also from one over itself. The cursor is asked for all it has
before the first element is added: what it had left is told apart from what the extension adds, so there is an end to
it, and afterwards the cursor is over.
-/
namespace EvictingDeque

open Action

namespace Cursor

variable {α : Type} {cell : Cell α} {cursor after last : Cursor} {values others : List α}

/-- Advanced until there is nothing more, the cursor gives these elements, reports left out, and is left like this. -/
inductive Yields (cell : Cell α) : Cursor → List α → Cursor → Prop
  | done {cursor after : Cursor} (h : cursor.advance cell = (none, after)) : Yields cell cursor [] after
  | visit {cursor between after : Cursor} {value : α} {rest : List α}
      (h : cursor.advance cell = (some (.ok value), between)) (more : Yields cell between rest after) :
      Yields cell cursor (value :: rest) after
  | skip {cursor between after : Cursor} {refusal : Refusal} {rest : List α}
      (h : cursor.advance cell = (some (.error refusal), between)) (more : Yields cell between rest after) :
      Yields cell cursor rest after

/-- What a cursor has still to visit: nothing if it is finished, or stale since its deque has been mutated. -/
def rest (cursor : Cursor) (cell : Cell α) : List α :=
  if cursor.finished = true ∨ cell.mutations ≠ cursor.mutations then [] else cell.deque.items.drop cursor.position

theorem elements_drain (cursor : Cursor) (cell : Cell α) : elements (cursor.drain cell).1 = cursor.rest cell := by
  unfold drain rest
  by_cases hover : cursor.finished = true
  · simp [hover, elements]
  · by_cases hstale : cell.mutations = cursor.mutations
    · simp [hover, hstale, elements, -List.map_drop, List.filterMap_map]
    · simp [hover, hstale, elements]

theorem finished_drain (cursor : Cursor) (cell : Cell α) : (cursor.drain cell).2.finished = true := by
  unfold drain
  split
  · assumption
  · split <;> rfl

theorem Yields.unique (h : cursor.Yields cell values after) (ho : cursor.Yields cell others last) :
    values = others ∧ after = last := by
  induction h generalizing others last with
  | done hnone =>
    cases ho with
    | done ho => exact ⟨rfl, congrArg Prod.snd (hnone.symm.trans ho)⟩
    | visit ho _ | skip ho _ => cases hnone.symm.trans ho
  | visit hsome _ ih =>
    cases ho with
    | visit ho more =>
      cases hsome.symm.trans ho
      obtain ⟨rfl, rfl⟩ := ih more
      exact ⟨rfl, rfl⟩
    | done ho | skip ho _ => cases hsome.symm.trans ho
  | skip herror _ ih =>
    cases ho with
    | skip ho more =>
      cases herror.symm.trans ho
      exact ih more
    | done ho | visit ho _ => cases herror.symm.trans ho

/-- One advance after the other comes to an end, with what a drain tells. -/
theorem yields_drain (cursor : Cursor) (cell : Cell α) :
    cursor.Yields cell (elements (cursor.drain cell).1) (cursor.drain cell).2 := by
  -- each advance that visits anything leaves a shorter drain
  generalize hvisits : (cursor.drain cell).1 = visits
  induction visits generalizing cursor with
  | nil =>
    have hdrain := drain_eq cursor cell
    rcases ha : cursor.advance cell with ⟨_ | visit, between⟩ <;> rw [ha] at hdrain <;> rw [hdrain] at hvisits ⊢
    · exact .done ha
    · cases hvisits
  | cons first visits ih =>
    have hdrain := drain_eq cursor cell
    rcases ha : cursor.advance cell with ⟨_ | visit, between⟩ <;> rw [ha] at hdrain <;> rw [hdrain] at hvisits ⊢
    · cases hvisits
    · obtain ⟨rfl, hrest⟩ := List.cons.inj hvisits
      cases visit with
      | ok value => exact .visit ha (ih between hrest)
      | error refusal => exact .skip ha (ih between hrest)

theorem yields_iff : cursor.Yields cell values after ↔ values = cursor.rest cell ∧ after = (cursor.drain cell).2 := by
  have hdrain := yields_drain cursor cell
  rw [elements_drain] at hdrain
  constructor
  · exact fun h => h.unique hdrain
  · rintro ⟨rfl, rfl⟩
    exact hdrain

end Cursor

/-- The second session is the first, except that the deque has taken these elements at its back and the cursor in the
register is another one. -/
structure Session.Extended (id : Nat) (register : String) (values : List Element) (s t : Session) : Prop where
  deque : (t.cell id).deque =
    ⟨Deque.window (s.cell id).deque.bound ((s.cell id).deque.items ++ values), (s.cell id).deque.bound⟩
  mutations : (t.cell id).mutations =
    if values ≠ [] ∧ (s.cell id).deque.bound ≠ some 0 then (s.cell id).mutations + 1 else (s.cell id).mutations
  hold : (t.cell id).hold = (s.cell id).hold
  formatting : (t.cell id).formatting = (s.cell id).formatting
  elsewhere : Session.Differ [.cell id, .cursor register] s t

namespace Action

variable {s : Session} {id : Nat} {register : String} {cursor : Cursor}

theorem extended_of_edit (hf : (s.cell id).deque.Fits) (happening : Happening) (values : List Element) :
    Session.Extended id register values s
      (({ s with cursors := s.cursors.put register cursor }.note happening).putCell id
        ((s.cell id).edit (.extendBack values)).2) := by
  let drained := { s with cursors := s.cursors.put register cursor }.note happening
  have hcell : (drained.putCell id ((s.cell id).edit (.extendBack values)).2).cell id =
      ⟨(s.cell id).deque.extendBack values,
        if (Edit.extendBack values).counts (s.cell id).deque = true then (s.cell id).mutations + 1
        else (s.cell id).mutations, (s.cell id).formatting, (s.cell id).hold⟩ := by
    rw [Session.cell_putCell_self]
    unfold Cell.edit
    dsimp only
    split <;> rfl
  refine ⟨?_, ?_, (congrArg Cell.hold hcell).trans rfl, (congrArg Cell.formatting hcell).trans rfl, ?_⟩
  · rw [hcell, ← Deque.ofList_eq, ← Deque.extendBack_ofList, Deque.ofList_of_fits hf]
  · rw [hcell]
    simp [Edit.counts]
  · have hput := Session.Differ.putCell drained id ((s.cell id).edit (.extendBack values)).2
    exact ((Session.Differ.putCursor s register cursor happening).mono (by simp)).trans (hput.mono (by simp))

end Action

/-- Over the deque itself as over any other one, whatever the cursor has done before. What it has still to yield is what
advancing it until there is nothing more gives, and after that it is over for good. -/
theorem extension_takes_rest (depth : Nat) {s : Session} (hs : s.Proper) {name register : String} {id : Nat}
    {cursor : Cursor} (hname : s.shared.get? name = some id) (hcursor : s.cursors.get? register = some cursor)
    (hfree : (s.cell id).hold = .free)
    (hopen : cursor.finished = true ∨ (s.cell cursor.cell).hold.allowsReading = true) :
    ∃ rest after t,
      (∀ values last, cursor.Yields (s.cell cursor.cell) values last ↔ values = rest ∧ last = after) ∧
      (rest = if cursor.finished = true ∨ (s.cell cursor.cell).mutations ≠ cursor.mutations then []
        else (s.cell cursor.cell).deque.items.drop cursor.position) ∧
      (Meaning.upTo (depth + 1)).perform (.shared name (.extendFrom register)) s = (.ok .nothing, t) ∧
      Session.Extended id register rest s t ∧ t.cursors.get? register = some after ∧
      ∀ (further : Nat) (steps : List Step), ∃ newer,
        (Session.endOf (Meaning.upTo further) steps t).journal = newer ++ t.journal ∧
        ((∀ happening ∈ newer, ¬ happening.Replaces register) →
          (∀ call ∈ Happening.calls register newer, call.TellsNothing) ∧
          ∀ later asked,
            ((Meaning.upTo (later + 1)).perform (.cursor asked register .next)
              (Session.endOf (Meaning.upTo further) steps t)).1 = .ok .nothing ∧
            ((Meaning.upTo (later + 1)).perform (.cursor asked register .collect)
              (Session.endOf (Meaning.upTo further) steps t)).1 = .ok (.elements [])) := by
  have hdrain : drainCursor register s = _ := Cursor.withCursor_of_get? hcursor hopen
  let drained := { s with cursors := s.cursors.put register (cursor.drain (s.cell cursor.cell)).2 }.note
    (.drained register (s.cell cursor.cell).mutations (cursor.drain (s.cell cursor.cell)).1)
  let t := drained.putCell id ((s.cell id).edit (.extendBack (cursor.rest (s.cell cursor.cell)))).2
  have hrun : (Meaning.upTo (depth + 1)).perform (.shared name (.extendFrom register)) s = (.ok .nothing, t) := by
    refine (Meaning.performStep_shared (m := Meaning.upTo depth) (o := .extendFrom register) rfl hname).trans ?_
    have hchange := changeCell_of_free (s := drained)
      (fun cell : Cell Element => cell.edit (.extendBack (Cursor.elements (cursor.drain (s.cell cursor.cell)).1))) hfree
    rw [SharedOp.run, bind_ok hdrain, bind_ok hchange, Cursor.elements_drain]
    rfl
  have hget : t.cursors.get? register = some (cursor.drain (s.cell cursor.cell)).2 := Table.get?_put_self ..
  have hover := Cursor.finished_drain cursor (s.cell cursor.cell)
  have hproper : t.Proper :=
    ((Meaning.upTo_safely Session.orderly (depth + 1)).perform _ s t _ hs hrun (calm_always _)).1
  refine ⟨cursor.rest (s.cell cursor.cell), _, t, fun _ _ => Cursor.yields_iff, rfl, hrun,
    extended_of_edit (hs.deques id).fits _ _, hget, fun further steps => ?_⟩
  obtain ⟨newer, hnewer, hstays⟩ := Cursor.over_endOf further hproper hget hover steps
  refine ⟨newer, hnewer, fun hr => ?_⟩
  obtain ⟨hstill, hcalls⟩ := hstays hr
  exact ⟨hcalls, fun later asked => Cursor.perform_over (Meaning.upTo later) hstill hover asked⟩

/-- Three elements fill the deque, and a cursor over it has visited the first. -/
def Session.visitedOneOfThree : Session :=
  endOf (Meaning.upTo 2)
    [.createShared "d" (.items [.int 1, .int 2, .int 3] (some 3)), .shared "d" (.visit "c"), .cursor "d" "c" .next]
    (.start [] none)

/-- The two elements that the cursor had left push out the first two, and one more element does not revive the
cursor. -/
theorem extension_takes_rest_own :
    Session.visitedOneOfThree.cursors.get? "c" = some ⟨0, 1, 0, false⟩ ∧
      ∃ t, (Meaning.upTo 2).perform (.shared "d" (.extendFrom "c")) Session.visitedOneOfThree = (.ok .nothing, t) ∧
        (t.cell 0).deque = ⟨[.int 3, .int 2, .int 3], some 3⟩ ∧ (t.cell 0).mutations = 1 ∧
        ((Meaning.upTo 2).perform (.cursor "d" "c" .next)
          (Session.endOf (Meaning.upTo 2) [.shared "d" (.edit (.pushBack (.int 4)))] t)).1 = .ok .nothing := by
  have hproper : Session.visitedOneOfThree.Proper := (Session.proper_start [] none).endOf _ _
  have hname : Session.visitedOneOfThree.shared.get? "d" = some 0 := rfl
  have hcursor : Session.visitedOneOfThree.cursors.get? "c" = some ⟨0, 1, 0, false⟩ := rfl
  obtain ⟨rest, after, t, -, hrest, hrun, hextended, -, hlater⟩ :=
    extension_takes_rest 1 hproper hname hcursor rfl (.inr rfl)
  have htaken : rest = [.int 2, .int 3] := hrest
  subst htaken
  refine ⟨hcursor, t, hrun, hextended.deque, hextended.mutations, ?_⟩
  obtain ⟨newer, hnewer, hnothing⟩ := hlater 2 [.shared "d" (.edit (.pushBack (.int 4)))]
  have hpushed : (Session.endOf (Meaning.upTo 2) [.shared "d" (.edit (.pushBack (.int 4)))] t).journal = t.journal := by
    have hreached : (Meaning.upTo 2).perform (.shared "d" (.extendFrom "c")) Session.visitedOneOfThree =
      (.ok .nothing, _) := rfl
    cases hrun.symm.trans hreached
    rfl
  cases List.self_eq_append_left.1 (hpushed.symm.trans hnewer)
  exact ((hnothing nofun).2 1 "d").1

end EvictingDeque
