import EvictingDeque.Proofs.Deque.Changes
import EvictingDeque.Session.Performing

set_option autoImplicit false

/-!
# How actions end

For each kind of action, what it means that it ended with an outcome and in a session.
-/
namespace EvictingDeque

/-- A call finds no cursor, or one that would have to read a deque which is held for change. -/
inductive Cursor.Barred (name : String) (s : Session) : Interrupt → Prop
  | missing (none : s.cursors.get? name = none) : Barred name s .undefined
  | held {cursor : Cursor} (found : s.cursors.get? name = some cursor) (unfinished : cursor.finished = false)
      (held : (s.cell cursor.cell).hold.allowsReading = false) : Barred name s (.panic .borrowed)

namespace Action

variable {α β : Type} {s t : Session}

theorem bind_cases {action : Action α} {next : α → Action β} {outcome : Except Interrupt β}
    (h : (action >>= next) s = (outcome, t)) :
    (∃ cause, action s = (.error cause, t) ∧ outcome = .error cause) ∨
      ∃ value u, action s = (.ok value, u) ∧ next value u = (outcome, t) := by
  rcases ha : action s with ⟨cause | value, u⟩
  · rw [bind_error ha] at h
    cases h
    exact .inl ⟨cause, rfl, rfl⟩
  · rw [bind_ok ha] at h
    exact .inr ⟨value, u, rfl, h⟩

theorem bind_eq_ok {action : Action α} {next : α → Action β} {value : β}
    (h : (action >>= next) s = (.ok value, t)) :
    ∃ first u, action s = (.ok first, u) ∧ next first u = (.ok value, t) := by
  rcases bind_cases h with ⟨cause, _, hc⟩ | hok
  · cases hc
  · exact hok

theorem readCell_cases {id : Nat} {outcome : Except Interrupt (Cell Element)} (h : readCell id s = (outcome, t)) :
    t = s ∧ ((s.cell id).hold.allowsReading = true ∧ outcome = .ok (s.cell id) ∨
      (s.cell id).hold.allowsReading = false ∧ outcome = .error (.panic .borrowed)) := by
  unfold readCell at h
  dsimp only at h
  split at h
  · rename_i hr
    cases h
    exact ⟨rfl, .inl ⟨hr, rfl⟩⟩
  · rename_i hr
    cases h
    exact ⟨rfl, .inr ⟨Bool.eq_false_iff.2 hr, rfl⟩⟩

theorem readCell_of_reading {id : Nat} (h : (s.cell id).hold.allowsReading = true) :
    readCell id s = (.ok (s.cell id), s) := by
  simp [readCell, h]

theorem readCell_of_held {id : Nat} (h : (s.cell id).hold.allowsReading = false) :
    readCell id s = (.error (.panic .borrowed), s) := by
  simp [readCell, h]

theorem changeCell_cases {id : Nat} {change : Cell Element → β × Cell Element} {outcome : Except Interrupt β}
    (h : changeCell id change s = (outcome, t)) :
    (s.cell id).hold = .free ∧ outcome = .ok (change (s.cell id)).1 ∧ t = s.putCell id (change (s.cell id)).2 ∨
      (s.cell id).hold ≠ .free ∧ outcome = .error (.panic .borrowed) ∧ t = s := by
  unfold changeCell at h
  dsimp only at h
  split at h
  · rename_i hf
    cases h
    exact .inl ⟨hf, rfl, rfl⟩
  · rename_i hf
    cases h
    exact .inr ⟨hf, rfl, rfl⟩

theorem changeCell_of_free {id : Nat} (change : Cell Element → β × Cell Element) (h : (s.cell id).hold = .free) :
    changeCell id change s = (.ok (change (s.cell id)).1, s.putCell id (change (s.cell id)).2) := by
  simp [changeCell, h]

theorem changeCell_of_held {id : Nat} {change : Cell Element → β × Cell Element} (h : (s.cell id).hold ≠ .free) :
    changeCell id change s = (.error (.panic .borrowed), s) := by
  simp [changeCell, h]

theorem pinning_cases {ids : List Nat} {action : Action α} {outcome : Except Interrupt α}
    (h : pinning ids action s = (outcome, t)) :
    ∃ u, action { s with pinned := ids ++ s.pinned } = (outcome, u) ∧ t = { u with pinned := s.pinned } := by
  rcases ha : action { s with pinned := ids ++ s.pinned } with ⟨found, u⟩
  unfold pinning at h
  rw [ha] at h
  cases h
  exact ⟨u, rfl, rfl⟩

theorem pinning_of_eq {ids : List Nat} {action : Action α} {outcome : Except Interrupt α}
    (h : action { s with pinned := ids ++ s.pinned } = (outcome, t)) :
    pinning ids action s = (outcome, { t with pinned := s.pinned }) := by
  unfold pinning
  rw [h]

theorem ensuring_cases {action : Action α} {finish : Session → Session} {outcome : Except Interrupt α}
    (h : action.ensuring finish s = (outcome, t)) : ∃ u, action s = (outcome, u) ∧ t = finish u := by
  rcases ha : action s with ⟨found, u⟩
  unfold ensuring at h
  rw [ha] at h
  cases h
  exact ⟨u, rfl, rfl⟩

theorem recovering_cases {action : Action α} {recover : Session → Session} {outcome : Except Interrupt α}
    (h : action.recovering recover s = (outcome, t)) :
    (∃ value, action s = (.ok value, t) ∧ outcome = .ok value) ∨
      ∃ cause u, action s = (.error cause, u) ∧ outcome = .error cause ∧ t = recover u := by
  rcases ha : action s with ⟨cause | value, u⟩
  · unfold recovering at h
    rw [ha] at h
    cases h
    exact .inr ⟨cause, u, rfl, rfl, rfl⟩
  · unfold recovering at h
    rw [ha] at h
    cases h
    exact .inl ⟨value, rfl, rfl⟩

theorem required_of_some {lookup : Session → Option β} {value : β} (h : lookup s = some value) :
    required lookup s = (.ok value, s) := by
  simp [required, h]

theorem required_of_none {lookup : Session → Option β} (h : lookup s = none) :
    required lookup s = (.error .undefined, s) := by
  simp [required, h]

theorem required_cases {lookup : Session → Option β} {outcome : Except Interrupt β}
    (h : required lookup s = (outcome, t)) :
    t = s ∧ ((∃ value, lookup s = some value ∧ outcome = .ok value) ∨
      lookup s = none ∧ outcome = .error .undefined) := by
  cases hl : lookup s with
  | none =>
    rw [required_of_none hl] at h
    cases h
    exact ⟨rfl, .inr ⟨rfl, rfl⟩⟩
  | some value =>
    rw [required_of_some hl] at h
    cases h
    exact ⟨rfl, .inl ⟨value, rfl, rfl⟩⟩

/-- A visit of a cursor reads its deque only if the cursor is not finished. -/
theorem withCursor_cases {name : String} {visit : Cursor → Cell Element → β × Cursor}
    {happening : String → Nat → β → Happening} {outcome : Except Interrupt β}
    (h : withCursor name visit happening s = (outcome, t)) :
    (t = s ∧ ∃ cause, outcome = .error cause ∧ Cursor.Barred name s cause) ∨
      ∃ cursor, s.cursors.get? name = some cursor ∧
        (cursor.finished = true ∨ (s.cell cursor.cell).hold.allowsReading = true) ∧
        outcome = .ok (visit cursor (s.cell cursor.cell)).1 ∧
        t = { s with cursors := s.cursors.put name (visit cursor (s.cell cursor.cell)).2 }.note
          (happening name (s.cell cursor.cell).mutations (visit cursor (s.cell cursor.cell)).1) := by
  unfold withCursor at h
  rcases hc : s.cursors.get? name with _ | cursor
  · rw [bind_error (required_of_none hc)] at h
    cases h
    exact .inl ⟨rfl, _, rfl, .missing hc⟩
  · rw [bind_ok (required_of_some hc)] at h
    by_cases hf : cursor.finished = true
    · rw [if_pos hf, bind_ok (read_apply _ s)] at h
      cases h
      exact .inr ⟨cursor, rfl, .inl hf, rfl, rfl⟩
    · rw [if_neg hf] at h
      rcases bind_cases h with ⟨cause, hread, ho⟩ | ⟨cell, u, hread, h⟩
      · obtain ⟨hu, ⟨_, hok⟩ | ⟨hheld, hno⟩⟩ := readCell_cases hread
        · cases hok
        · cases hno
          exact .inl ⟨hu, _, ho, .held hc (Bool.eq_false_iff.2 hf) hheld⟩
      · obtain ⟨hu, ⟨ha, hok⟩ | ⟨_, hok⟩⟩ := readCell_cases hread
        · cases hok
          subst hu
          cases h
          exact .inr ⟨cursor, rfl, .inr ha, rfl, rfl⟩
        · cases hok

theorem ownedRegister_eq_ok {name : String} {d : Deque Element} (h : ownedRegister name s = (.ok d, t)) :
    s.ownedDeque? name = some d ∧ t = s := by
  obtain ⟨ht, ⟨_, hd, ho⟩ | ⟨_, ho⟩⟩ := required_cases h <;> cases ho
  exact ⟨hd, ht⟩

theorem sharedRegister_of_get? {name : String} {id : Nat} (h : s.shared.get? name = some id) :
    sharedRegister name s = (.ok id, s) := required_of_some h

/-- References are to shared deques only. -/
theorem resolveLink_of_shared (h : t.shared = s.shared) : resolveLink t = resolveLink s := by
  funext link
  cases link <;> simp [resolveLink, h]

theorem resolve_of_shared (h : t.shared = s.shared) {literal : Literal} {value : Element}
    (hr : resolve literal s = (.ok value, s)) : resolve literal t = (.ok value, t) := by
  obtain ⟨_, ⟨_, hfound, ho⟩ | ⟨_, ho⟩⟩ := required_cases hr <;> cases ho
  exact required_of_some (resolveLink_of_shared h ▸ hfound)

end Action

open Action

/-- Any handle of a deque will do. -/
theorem Meaning.performStep_shared {m : Meaning} {name : String} {o : SharedOp Literal} {resolved : SharedOp Element}
    {s t : Session} {id : Nat} (hop : o.mapM resolve s = (.ok resolved, t)) (hname : t.shared.get? name = some id) :
    m.performStep (.shared name o) s = resolved.run m id t :=
  (bind_ok hop).trans (bind_ok (sharedRegister_of_get? hname))

/-- What an operation may hand back in place of the deque that it had at hand. -/
inductive Deque.Becomes (d : Deque Element) : Deque Element → Prop
  | same : Becomes d d
  | edited (change : Edit Element) : Becomes d (change.apply d).2
  | removed {position : Nat} {value : Element} {e : Deque Element} (h : d.removeAt position = .ok (value, e)) :
      Becomes d e
  | replaced {position : Nat} {value old : Element} {e : Deque Element} (h : d.replace position value = some (old, e)) :
      Becomes d e
  | added (summand : Int) : Becomes d (d.map (Value.addInteger summand))
  | repeated {times : Nat} {e : Deque Element} (h : d.repeated? times = some e) : Becomes d e

theorem Deque.becomes_ends (d : Deque Element) (op : EndOp Element) : d.Becomes ((Deque.ends.run op).run d).2 := by
  cases he : op.edit? with
  | none =>
    rw [EndOp.run_of_no_edit he]
    exact .same
  | some change =>
    rw [EndOp.run_of_edit? he]
    exact .edited change

theorem Deque.Becomes.bound {d e : Deque Element} (h : d.Becomes e) : e.bound = d.bound := by
  cases h with
  | same => rfl
  | edited change => exact Edit.bound_apply d change
  | removed h => exact bound_removeAt h
  | replaced h =>
    obtain ⟨_, _, he⟩ := Option.map_eq_some_iff.1 h
    cases he
    rfl
  | added summand => rfl
  | repeated h => exact bound_repeated? h

theorem Deque.Becomes.fits {d e : Deque Element} (h : d.Becomes e) (hd : d.Fits) : e.Fits := by
  cases h with
  | same => exact hd
  | edited change => exact Edit.fits_apply hd change
  | removed h => exact hd.removeAt h
  | replaced h => exact hd.replace h
  | added summand => exact hd.map _
  | repeated h => exact Fits.repeated? h

namespace OwnedOp

variable {m : Meaning} {d after : Deque Element} {s t : Session} {answer : Answer}

theorem orNoRoom_eq_ok {found : Option (Deque Element)} {e : Deque Element} (h : orNoRoom found s = (.ok e, t)) :
    found = some e ∧ t = s := by
  cases found with
  | none => cases h
  | some found =>
    cases h
    exact ⟨rfl, rfl⟩

theorem becomes_run {op : OwnedOp Element} (h : op.run m d s = (.ok (answer, after), t)) : d.Becomes after := by
  cases op with
  | edit change =>
    cases h
    exact .edited change
  | ends op =>
    cases h
    exact Deque.becomes_ends d op
  | remove value =>
    obtain ⟨located, u, _, h⟩ := bind_eq_ok h
    cases hl : firstOf located with
    | error refusal =>
      simp only [hl] at h
      cases h
      exact .same
    | ok position =>
      rcases hr : d.removeAt position with refusal | ⟨removed, e⟩ <;> simp only [hl, hr] at h <;> cases h
      · exact .same
      · exact .removed hr
  | removeAt position =>
    rcases hr : d.removeAt position with refusal | ⟨removed, e⟩ <;> simp only [run, hr] at h <;> cases h
    · exact .same
    · exact .removed hr
  | replace position value =>
    rcases hr : d.replace position value with _ | ⟨old, e⟩ <;> simp only [run, hr] at h <;> cases h
    · exact .same
    · exact .replaced hr
  | assign position value =>
    rcases hr : d.replace position value with _ | ⟨old, e⟩ <;> simp only [run, hr] at h <;> cases h
    exact .replaced hr
  | addInteger summand =>
    cases h
    exact .added summand
  | repeatInPlace times =>
    obtain ⟨result, u, hr, h⟩ := bind_eq_ok h
    cases h
    exact .repeated (orNoRoom_eq_ok hr).1
  | concatInPlace other =>
    obtain ⟨e, u, _, h⟩ := bind_eq_ok h
    cases h
    exact .edited (.extendBack e.items)
  | slot position =>
    cases hg : d.get? position <;> simp only [run, hg] at h <;> cases h
    exact .same
  | rankWith other =>
    obtain ⟨e, u, _, h⟩ := bind_eq_ok h
    cases hr : rank d e <;> simp only [hr] at h <;> cases h
    exact .same
  | ask query | indexWithin value span | written | copy into | hashAgreesWith other =>
    obtain ⟨_, u, _, h⟩ := bind_eq_ok h
    cases h
    exact .same
  | repeated times into | concat other into =>
    obtain ⟨_, u, _, h⟩ := bind_eq_ok h
    obtain ⟨_, v, _, h⟩ := bind_eq_ok h
    cases h
    exact .same
  | compareWith other =>
    obtain ⟨e, u, _, h⟩ := bind_eq_ok h
    obtain ⟨equal, v, _, h⟩ := bind_eq_ok h
    obtain ⟨again, w, _, h⟩ := bind_eq_ok h
    cases h
    exact .same
  | _ =>
    cases h
    exact .same

end OwnedOp

end EvictingDeque
