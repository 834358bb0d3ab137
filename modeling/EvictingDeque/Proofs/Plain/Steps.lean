import EvictingDeque.Proofs.Interpreter.SafeSteps
import EvictingDeque.Proofs.Plain.Agreement
import EvictingDeque.Proofs.Plain.Searching

set_option autoImplicit false

/-!
# One request

A request of a shared deque, through any handle, and of an owned one answer what the plain model answers, and leave
what it leaves. Neither is refused or interrupted where the plain model is not.
-/
namespace EvictingDeque

open Action

variable {m : Meaning} {id : Nat} {s t u : Session} {d e : Deque Element}

/-- The deque is this now, and nobody holds it. Of what comparisons may look at nothing else has changed. -/
structure Session.Turned (id : Nat) (d : Deque Element) (s t : Session) : Prop where
  deque : (t.cell id).deque = d
  free : (t.cell id).hold = .free
  hooks : t.hooks = s.hooks
  others : ∀ other, id ≠ other → t.cell other = s.cell other

namespace Session

theorem Turned.same (hf : (s.cell id).hold = .free) : Turned id (s.cell id).deque s s :=
  ⟨rfl, hf, rfl, fun _ _ => rfl⟩

theorem Turned.put {cell : Cell Element} (hf : cell.hold = .free) : Turned id cell.deque s (s.putCell id cell) where
  deque := by rw [cell_putCell_self]
  free := by rw [cell_putCell_self, hf]
  hooks := rfl
  others _ ho := cell_putCell_of_ne s ho cell

theorem Turned.trans (hst : Turned id d s t) (htu : Turned id e t u) : Turned id e s u where
  deque := htu.deque
  free := htu.free
  hooks := htu.hooks.trans hst.hooks
  others other ho := (htu.others other ho).trans (hst.others other ho)

end Session

/-- Begun when nobody holds the deque, the action answers what the computation on the deque does, and leaves it as the
computation does. -/
def Action.Tracks {α : Type} (id : Nat) (x : StateM (Deque Element) α) (a : Action α) : Prop :=
  ∀ s : Session, (s.cell id).hold = .free →
    ∃ t, a s = (.ok (x.run (s.cell id).deque).1, t) ∧ Session.Turned id (x.run (s.cell id).deque).2 s t

namespace Action

variable {α β : Type}

theorem Tracks.pure (value : α) : Tracks id (Pure.pure value) (Pure.pure value) :=
  fun s hf => ⟨s, rfl, .same hf⟩

theorem Tracks.bind {x : StateM (Deque Element) α} {a : Action α} {f : α → StateM (Deque Element) β} {g : α → Action β}
    (ha : Tracks id x a) (hg : ∀ value, Tracks id (f value) (g value)) : Tracks id (x >>= f) (a >>= g) := by
  intro s hf
  obtain ⟨t, hrun, ht⟩ := ha s hf
  obtain ⟨u, hnext, hu⟩ := hg (x.run (s.cell id).deque).1 t ht.free
  rw [ht.deque] at hnext hu
  exact ⟨u, (bind_ok hrun).trans hnext, ht.trans hu⟩

theorem Tracks.read (f : Deque Element → α) :
    Tracks id (do return f (← get)) (do return f (← readCell id).deque) := fun s hf =>
  ⟨s, bind_ok (readCell_of_reading (congrArg Hold.allowsReading hf)), .same hf⟩

theorem edit_tracks (change : Edit Element) :
    Tracks id (fun d => change.apply d) (changeCell id fun cell => cell.edit change) := by
  intro s hf
  have hhold : ((s.cell id).edit change).2.hold = .free := (Cell.Counted.edit _ change hf).hold.trans hf
  have hturned := @Session.Turned.put id s _ hhold
  rw [Cell.deque_edit] at hturned
  exact ⟨_, changeCell_of_free _ hf, hturned⟩

/-- One push, or one element taken away, at an end. -/
theorem end_tracks {change : Edit Element} {x : Deque Element → Option Element × Deque Element}
    (hx : ∀ d, change.apply d = (.ok (x d).1, (x d).2)) :
    Tracks id (fun d => x d)
      (do let outcome ← changeCell id fun cell => cell.edit change; return outcome.toOption.join) := by
  intro s hf
  obtain ⟨t, hrun, ht⟩ := @edit_tracks id change s hf
  refine ⟨t, (bind_ok hrun).trans ?_, ?_⟩
  · change (Except.ok (change.apply (s.cell id).deque).1.toOption.join, t) = _
    rw [hx]
    rfl
  · have hd : ((change.apply) (s.cell id).deque).2 = (x (s.cell id).deque).2 := by rw [hx]
    exact hd ▸ ht

theorem pushes_track {push : Element → StateM (Deque Element) (Option Element)}
    {push' : Element → Action (Option Element)}
    {extend : List Element → StateM (Deque Element) Unit} {extend' : List Element → Action Unit}
    (hnil : extend [] = Pure.pure ()) (hnil' : extend' [] = Pure.pure ())
    (hcons : ∀ value values, extend (value :: values) = (do let _ ← push value; extend values))
    (hcons' : ∀ value values, extend' (value :: values) = (do let _ ← push' value; extend' values))
    (hp : ∀ value, Tracks id (push value) (push' value)) (values : List Element) :
    Tracks id (extend values) (extend' values) := by
  induction values with
  | nil =>
    rw [hnil, hnil']
    exact .pure ()
  | cons value values ih =>
    rw [hcons, hcons']
    exact (hp value).bind fun _ => ih

theorem pushBack_tracks (value : Element) :
    Tracks id (Deque.ends.pushBack value) ((sharedEnds id).pushBack value) := end_tracks fun _ => rfl

theorem pushFront_tracks (value : Element) :
    Tracks id (Deque.ends.pushFront value) ((sharedEnds id).pushFront value) := end_tracks fun _ => rfl

theorem extent_tracks : Tracks id Deque.ends.extent (sharedEnds id).extent := by
  have hlength : Tracks id Deque.ends.length (sharedEnds id).length := .read (·.length)
  have hbound : Tracks id Deque.ends.bound (sharedEnds id).bound := .read (·.bound)
  have hempty : Tracks id Deque.ends.isEmpty (sharedEnds id).isEmpty := hlength.bind fun _ => .pure _
  have hfull : Tracks id Deque.ends.isFull (sharedEnds id).isFull := hbound.bind fun bound => by
    cases bound with
    | none => exact .pure false
    | some bound => exact hlength.bind fun _ => .pure _
  exact hlength.bind fun _ => hbound.bind fun _ => hempty.bind fun _ => hfull.bind fun _ => .pure _

/-- A shared deque as a sequence with two ends is what an owned one is. -/
theorem ends_track (op : EndOp Element) : Tracks id (Deque.ends.run op) ((sharedEnds id).run op) := by
  cases op with
  | extent => exact extent_tracks.bind fun _ => .pure _
  | pushBack value => exact (pushBack_tracks value).bind fun _ => .pure _
  | pushFront value => exact (pushFront_tracks value).bind fun _ => .pure _
  | popBack =>
    have hpop : Tracks id Deque.ends.popBack (sharedEnds id).popBack := end_tracks fun _ => rfl
    exact hpop.bind fun _ => .pure _
  | popFront =>
    have hpop : Tracks id Deque.ends.popFront (sharedEnds id).popFront := end_tracks fun _ => rfl
    exact hpop.bind fun _ => .pure _
  | extendBack values =>
    have hpushes : Tracks id (Deque.ends.extendBack values) ((sharedEnds id).extendBack values) :=
      pushes_track rfl rfl (fun _ _ => rfl) (fun _ _ => rfl) pushBack_tracks values
    exact hpushes.bind fun _ => .pure _
  | extendFront values =>
    have hpushes : Tracks id (Deque.ends.extendFront values) ((sharedEnds id).extendFront values) :=
      pushes_track rfl rfl (fun _ _ => rfl) (fun _ _ => rfl) pushFront_tracks values
    exact hpushes.bind fun _ => .pure _

end Action

namespace Request

open Action

variable {same : Element → Element → Bool}

theorem removeAt_found {value : Element} {position : Nat}
    (h : d.items.findIdx? (fun stored => same stored value) = some position) :
    ∃ stored, d.items[position]? = some stored ∧
      d.removeAt position = .ok (stored, ⟨d.items.eraseIdx position, d.bound⟩) := by
  obtain ⟨hlt, _⟩ := List.findIdx?_eq_some_iff_getElem.1 h
  have hget : d.items[position]? = some d.items[position] := List.getElem?_eq_getElem hlt
  exact ⟨_, hget, by simp [Deque.removeAt, hget]⟩

/-- On a deque at hand. -/
theorem run_owned (request : Request Element) (hq : m.Quiet same d.items request.values s) :
    request.owned.run m d s = (.ok (Plain.perform same request d), s) := by
  cases request with
  | edit change =>
    simp only [Plain.perform, Plain.edit_eq]
    rfl
  | ends op =>
    simp only [Plain.perform, Plain.ends_eq]
    rfl
  | ask query =>
    have hrun : runQuery (Pure.pure d) (locateIn m d.items) query s = (.ok (Plain.query same d.items query), s) :=
      Plain.runQuery_eq query rfl fun value hv => hq.locateIn hv
    exact bind_ok hrun
  | remove value =>
    have hlocated : locateIn m d.items value true s = _ := hq.locateIn List.mem_cons_self true
    have hfirst := @Plain.firstOf_eq same d.items value
    refine (bind_ok hlocated).trans ?_
    cases hfound : d.items.findIdx? fun stored => same stored value with
    | none =>
      rw [hfound] at hfirst
      rw [hfirst]
      simp [Plain.perform, Plain.remove, hfound]
    | some position =>
      rw [hfound] at hfirst
      obtain ⟨stored, hget, hremove⟩ := removeAt_found hfound
      rw [hfirst]
      simp [Plain.perform, Plain.remove, hfound, hget, hremove]
  | extent =>
    simp only [Plain.perform, Plain.extent_eq]
    rfl

/-- What changes nothing is not put back. -/
theorem perform_of_not_changes (request : Request Element) (h : request.owned.changes = false) :
    (Plain.perform same request d).2 = d := by
  cases request with
  | edit change => cases h
  | ends op =>
    cases op with
    | extent => rfl
    | _ => cases h
  | ask query => rfl
  | remove value => cases h
  | extent => rfl

end Request

theorem EndOp.changes_mapM {op : EndOp Literal} {resolved : EndOp Element}
    (h : op.mapM resolve s = (.ok resolved, t)) : resolved.changes = op.changes := by
  cases op with
  | extent | popBack | popFront =>
    cases h
    rfl
  | _ =>
    obtain ⟨_, u, _, h⟩ := bind_eq_ok h
    cases h
    rfl

theorem OwnedOp.changes_mapM {op : OwnedOp Literal} {resolved : OwnedOp Element}
    (h : op.mapM resolve s = (.ok resolved, t)) : resolved.changes = op.changes := by
  cases op with
  | ends op =>
    obtain ⟨resolvedOp, u, hop, h⟩ := bind_eq_ok h
    cases h
    exact EndOp.changes_mapM hop
  | edit change | ask query | indexWithin value span | remove value | replace position value | assign position value =>
    obtain ⟨_, u, _, h⟩ := bind_eq_ok h
    cases h
    rfl
  | _ =>
    cases h
    rfl

end EvictingDeque
