import EvictingDeque.Proofs.Conservation.Trades
import EvictingDeque.Proofs.Mutations.Operations
import EvictingDeque.Proofs.Plain.Steps

set_option autoImplicit false

/-!
# Trades with a deque at hand and through a handle

A trade is fair with whatever deque is at hand, and through a handle if the comparisons that it makes have no side
effects.
-/
namespace EvictingDeque

open Action

namespace Action

variable {s t : Session}

/-- A search in a list finds positions of the list. -/
theorem within_positionsFrom {test : Element → Action Bool} {onlyFirst : Bool} {items : List Element} {position : Nat}
    {found positions : List Nat} (hfound : ∀ earlier ∈ found, earlier < position)
    (h : positionsFrom test onlyFirst position found items s = (.ok positions, t)) :
    ∀ other ∈ positions, other < position + items.length := by
  induction items generalizing position found s with
  | nil =>
    cases h
    exact fun other ho => hfound other (List.mem_reverse.1 ho)
  | cons item items ih =>
    obtain ⟨hit, u, _, h⟩ := bind_eq_ok h
    have hnext := Leaves.lt_of_found hit hfound
    rw [List.length_cons]
    dsimp only at h
    split at h
    · cases h
      intro other ho
      have hlt := hnext other (List.mem_reverse.1 ho)
      omega
    · intro other ho
      have hlt := ih hnext h other ho
      omega

theorem within_locateIn {m : Meaning} {items : List Element} {value : Element} {onlyFirst : Bool}
    {located : Except Refusal (List Nat)} (h : locateIn m items value onlyFirst s = (.ok located, t)) :
    (∃ positions, located = .ok positions) ∧ Leaves.Within items.length located := by
  obtain ⟨u, h, _⟩ := pinning_cases h
  obtain ⟨positions, v, hpositions, h⟩ := bind_eq_ok h
  cases h
  refine ⟨⟨positions, rfl⟩, fun other ho position hp => ?_⟩
  cases ho
  have hnone : ∀ earlier ∈ ([] : List Nat), earlier < 0 := nofun
  have hlt := within_positionsFrom hnone hpositions position hp
  rwa [Nat.zero_add] at hlt

/-- A search in a shared deque gives up only if the deque was changed under it. -/
theorem changed_of_scanFrom {id mutations : Nat} {test : Element → Action Bool} {onlyFirst : Bool} {items : List Element}
    {position : Nat} {found : List Nat} {refusal : Refusal}
    (h : scanFrom id mutations test onlyFirst position found items s = (.ok (.error refusal), t)) :
    refusal = .changedDuringVisit := by
  induction items generalizing position found s with
  | nil => cases h
  | cons item items ih =>
    obtain ⟨visited, u, _, h⟩ := bind_eq_ok h
    cases visited with
    | none =>
      cases h
      rfl
    | some hit =>
      dsimp only at h
      split at h
      · cases h
      · exact ih h

theorem changed_of_locateShared {m : Meaning} {id : Nat} {value : Element} {onlyFirst : Bool} {refusal : Refusal}
    (h : locateShared m id value onlyFirst s = (.ok (.error refusal), t)) : refusal = .changedDuringVisit := by
  obtain ⟨u, h, _⟩ := pinning_cases h
  obtain ⟨cell, v, _, h⟩ := bind_eq_ok h
  exact changed_of_scanFrom h

/-- The only refusals of what follows a search. -/
theorem refusal_of_firstOf {located : Except Refusal (List Nat)} {refusal : Refusal} (h : firstOf located = .error refusal) :
    located = .error refusal ∨ refusal = .notFound := by
  unfold firstOf at h
  split at h <;> cases h
  · exact .inl rfl
  · exact .inr rfl

theorem answerEnds_of_edit? {op : EndOp Element} {change : Edit Element} (h : op.edit? = some change)
    (d : Deque Element) : answerEnds ((Deque.ends.run op).run d).1 = answerOptional (change.apply d).1 := by
  cases op with
  | extent => cases h
  | pushBack | pushFront | popBack | popFront | extendBack | extendFront =>
    cases h
    rfl

end Action

/-- A trade with the deque at hand, whatever the comparisons do that it makes. -/
theorem OwnedOp.Trades.fair {m : Meaning} {op : OwnedOp Element} {trade : Trade Element} (htrade : op.Trades trade)
    {d : Deque Element} {s t : Session} {worked : Except Interrupt (Answer × Deque Element)}
    (h : op.run m d s = (worked, t)) : Deal.Fair ⟨trade, d, worked.map Prod.fst, d.left worked⟩ := by
  cases htrade with
  | edit same =>
    cases h
    exact Deal.fair_edit same
  | @ends op change trade comes same =>
    cases h
    have hfair := Deal.fair_edit (d := d) same
    rw [← answerEnds_of_edit? comes, ← EndOp.run_of_edit? comes] at hfair
    exact hfair
  | remove value =>
    rcases bind_cases h with ⟨cause, _, rfl⟩ | ⟨located, u, hlocated, h⟩
    · exact Deal.fair_unremoved value (.inl ⟨cause, rfl⟩)
    · obtain ⟨⟨positions, hpositions⟩, hwithin⟩ := within_locateIn hlocated
      cases hf : firstOf located with
      | error refusal =>
        rw [hf] at h
        cases h
        rcases refusal_of_firstOf hf with hlost | rfl
        · cases hpositions.symm.trans hlost
        · exact Deal.fair_unremoved value (.inr (.inl rfl))
      | ok position =>
        have hlt := lt_of_firstOf hwithin hf
        simp only [hf, Deque.removeAt_of_lt hlt] at h
        cases h
        exact Deal.fair_removed hlt (.inr ⟨value, rfl⟩)
  | removeAt position =>
    by_cases hlt : position < d.items.length
    · simp only [run, Deque.removeAt_of_lt hlt] at h
      cases h
      exact Deal.fair_removed hlt (.inl rfl)
    · simp only [run, Deque.removeAt_of_le (Nat.le_of_not_lt hlt)] at h
      cases h
      exact Deal.fair_outOfRange (Nat.le_of_not_lt hlt)
  | replace position value =>
    by_cases hlt : position < d.items.length
    · simp only [run, Deque.replace_of_lt hlt] at h
      cases h
      exact Deal.fair_replaced hlt value
    · simp only [run, Deque.replace_of_le (Nat.le_of_not_lt hlt)] at h
      cases h
      exact Deal.fair_missed (Nat.le_of_not_lt hlt) value
  | assign position value =>
    by_cases hlt : position < d.items.length
    · simp only [run, Deque.replace_of_lt hlt] at h
      cases h
      exact Deal.fair_assigned hlt value
    · simp only [run, Deque.replace_of_le (Nat.le_of_not_lt hlt)] at h
      cases h
      exact Deal.fair_outOfBounds (Nat.le_of_not_lt hlt) value

/-- A trade through a handle of a deque that nobody holds. -/
theorem SharedOp.Trades.fair {m : Meaning} {id : Nat} {op : SharedOp Element} {trade : Trade Element}
    (htrade : op.Trades trade) {s t : Session} (hid : id < s.nextCell) (hf : (s.cell id).hold = .free)
    (hquiet : op.Quiet m s id) {outcome : Except Interrupt Answer} (h : op.run m id s = (outcome, t)) :
    Deal.Fair ⟨trade, (s.cell id).deque, outcome, (t.cell id).deque⟩ := by
  cases htrade with
  | @edit change trade same =>
    obtain ⟨u, hrun, hu⟩ := edit_tracks change s hf
    cases h.symm.trans (bind_ok hrun)
    rw [hu.deque]
    exact Deal.fair_edit same
  | @ends op change trade comes same =>
    obtain ⟨u, hrun, hu⟩ := ends_track op s hf
    cases h.symm.trans (bind_ok hrun)
    rw [hu.deque, answerEnds_of_edit? comes, EndOp.run_of_edit? comes]
    exact Deal.fair_edit same
  | remove value =>
    have hlocate := Leaves.locateShared hid hquiet true
    rcases bind_cases h with ⟨cause, hlocated, rfl⟩ | ⟨located, u, hlocated, h⟩
    · rw [((hlocate s t _ (.refl s) hlocated).1.cells.2 id hid).deque]
      exact Deal.fair_unremoved value (.inl ⟨cause, rfl⟩)
    · obtain ⟨hstill, hwithin⟩ := hlocate s u _ (.refl s) hlocated
      have hcell := hstill.cells.2 id hid
      cases hfirst : firstOf located with
      | error refusal =>
        rw [hfirst] at h
        cases h
        rw [hcell.deque]
        refine Deal.fair_unremoved value (.inr ?_)
        rcases refusal_of_firstOf hfirst with rfl | rfl
        · rw [changed_of_locateShared hlocated]
          exact .inr rfl
        · exact .inl rfl
      | ok position =>
        rw [hfirst] at h
        have hlt : position < (u.cell id).deque.items.length := by
          rw [hcell.deque]
          exact lt_of_firstOf (hwithin located rfl) hfirst
        rcases bind_cases h with ⟨cause, hchange, rfl⟩ | ⟨removed, v, hchange, h⟩
        · obtain ⟨_, ho, _⟩ | ⟨_, _, rfl⟩ := changeCell_cases hchange
          · cases ho
          · rw [hcell.deque]
            exact Deal.fair_unremoved value (.inl ⟨cause, rfl⟩)
        · obtain ⟨_, ho, rfl⟩ | ⟨_, ho, _⟩ := changeCell_cases hchange <;> cases ho
          have hremoved : (u.cell id).removeAt position = (.ok (u.cell id).deque.items[position],
              (u.cell id).mutated ⟨(u.cell id).deque.items.eraseIdx position, (u.cell id).deque.bound⟩) := by
            simp [Cell.removeAt, Deque.removeAt_of_lt hlt]
          cases h
          rw [Session.cell_putCell_self, ← hcell.deque, hremoved]
          exact Deal.fair_removed hlt (.inr ⟨value, rfl⟩)

/-! Trades while the deque is held -/

namespace OwnedOp

variable {m : Meaning} {op : OwnedOp Element} {trade : Trade Element} {d : Deque Element} {s t : Session}

/-- The comparisons that the operation makes have no side effects. -/
def Quiet (m : Meaning) (d : Deque Element) (s : Session) (op : OwnedOp Element) : Prop :=
  ∀ value, op = .remove value → ∀ stored ∈ d.items, (m.equal stored value).Innocent s

theorem Trades.changes (h : op.Trades trade) : op.changes = true := by
  cases h with
  | @ends op change trade comes same =>
    cases op with
    | extent => cases comes
    | _ => rfl
  | _ => rfl

theorem innocent_positionsFrom {test : Element → Action Bool} {items : List Element}
    (ht : ∀ item ∈ items, (test item).Innocent s) (onlyFirst : Bool) (position : Nat) (found : List Nat) :
    (positionsFrom test onlyFirst position found items).Innocent s := by
  induction items generalizing position found with
  | nil => exact .done
  | cons item items ih =>
    refine (ht item List.mem_cons_self).andThen fun hit => ?_
    dsimp only
    split
    · exact .done
    · exact ih (fun other ho => ht other (List.mem_cons_of_mem _ ho)) _ _

/-- All that is done outside the deque at hand is done by comparisons. -/
theorem Trades.still (htrade : op.Trades trade) (hquiet : op.Quiet m d s)
    {worked : Except Interrupt (Answer × Deque Element)} (h : op.run m d s = (worked, t)) : s.Still t := by
  cases htrade with
  | edit | ends =>
    cases h
    exact .refl s
  | remove value =>
    have hlocate : (locateIn m d.items value true).Innocent s :=
      ((innocent_positionsFrom (hquiet value rfl) true 0 []).andThen fun _ => .done).pinning _
    have hrun : (run m d (.remove value)).Innocent s := by
      refine hlocate.andThen fun located => ?_
      split
      · exact .done
      · split <;> exact .done
    exact (hrun s t _ (.refl s) h).1
  | removeAt position =>
    cases hr : d.removeAt position <;> simp only [run, hr] at h <;> cases h <;> exact .refl s
  | replace position value | assign position value =>
    cases hr : d.replace position value <;> simp only [run, hr] at h <;> cases h <;> exact .refl s

end OwnedOp

/-- A trade in a body that holds the deque for change. -/
theorem Meaning.fair_runHeld {m : Meaning} {id : Nat} {o : OwnedOp Literal} {op : OwnedOp Element}
    {trade : Trade Element} {s t : Session} (hid : id < s.nextCell) (hop : o.mapM resolve s = (.ok op, s))
    (htrade : op.Trades trade) (hquiet : op.Quiet m (s.cell id).deque s) {outcome : Except Interrupt Answer}
    (h : m.runHeld id true o s = (outcome, t)) :
    Deal.Fair ⟨trade, (s.cell id).deque, outcome, (t.cell id).deque⟩ ∧ s.nextCell ≤ t.nextCell := by
  have hchanges : o.changes = true := (OwnedOp.changes_mapM hop).symm.trans htrade.changes
  unfold Meaning.runHeld at h
  rw [Bool.not_true, Bool.and_false] at h
  have hstart := (bind_ok hop).symm.trans h
  rw [bind_ok (read_apply _ s)] at hstart
  rcases bind_cases hstart with ⟨cause, hrun, rfl⟩ | ⟨⟨answer, after⟩, u, hrun, hend⟩
  · have hstill := htrade.still hquiet hrun
    rw [(hstill.cells.2 id hid).deque]
    exact ⟨htrade.fair hrun, hstill.cells.1⟩
  · have hstill := htrade.still hquiet hrun
    dsimp only at hend
    rw [if_pos hchanges, bind_ok (update_apply _ u)] at hend
    cases hend
    rw [Session.cell_putCell_self]
    exact ⟨htrade.fair hrun, hstill.cells.1⟩

end EvictingDeque
