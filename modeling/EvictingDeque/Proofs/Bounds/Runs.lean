import EvictingDeque.Proofs.Interpreter.Cells

set_option autoImplicit false

/-!
# Bounds over whole runs

Whatever a session does and however it ends, each of its deques fits its bound, the nested ones included, and keeps the
bound that it was made with. So a single eviction after a push always suffices, and a deque can be rebuilt from its
elements and its bound.
-/
namespace EvictingDeque

open Action

/-- One element more at either end. -/
inductive Edit.IsPush {α : Type} : Edit α → Prop
  | back (value : α) : IsPush (.pushBack value)
  | front (value : α) : IsPush (.pushFront value)

inductive SharedOp.IsPush {α : Type} : SharedOp α → Prop
  | edit {change : Edit α} (h : change.IsPush) : IsPush (.edit change)
  | back (value : α) : IsPush (.ends (.pushBack value))
  | front (value : α) : IsPush (.ends (.pushFront value))

namespace Deque

variable {α : Type} {d : Deque α}

/-- What a bound promises: it is respected, a push evicts an element exactly from a full deque, and the elements and the
bound are all there is to the deque. -/
structure Bounded (d : Deque α) : Prop where
  fits : d.Fits
  evicts : ∀ change : Edit α, change.IsPush → ∃ out, (change.apply d).1 = .ok out ∧ out.isSome = d.isFull
  rebuilt : ofList d.items d.bound = d

theorem isFull_eq_isOverfull (d : Deque α) (items : List α) (h : items.length = d.items.length + 1) :
    (⟨items, d.bound⟩ : Deque α).isOverfull = d.isFull := by
  unfold isOverfull isFull
  cases d.bound with
  | none => rfl
  | some bound => simp only [h, decide_eq_decide]; omega

theorem isSome_pushBack (d : Deque α) (value : α) : (d.pushBack value).1.isSome = d.isFull := by
  have ho := isFull_eq_isOverfull d (d.items ++ [value]) (by simp)
  cases hf : d.isFull <;> cases hi : d.items <;> simp_all [pushBack, popFront]

theorem isSome_pushFront (d : Deque α) (value : α) : (d.pushFront value).1.isSome = d.isFull := by
  have ho := isFull_eq_isOverfull d (value :: d.items) (by simp)
  cases hf : d.isFull <;> simp [pushFront, popBack, ho, hf]

theorem ofList_of_fits (h : d.Fits) : ofList d.items d.bound = d := by
  have hnone : (empty d.bound : Deque α).evictions d.items.length = 0 := by
    cases hb : d.bound with
    | none => rfl
    | some bound =>
      have hl := h bound hb
      simp only [evictions, empty, List.length_nil]
      omega
  rw [ofList, extendBack, hnone]
  rfl

theorem Fits.bounded (h : d.Fits) : d.Bounded where
  fits := h
  evicts change hc := by
    cases hc with
    | back value => exact ⟨_, rfl, isSome_pushBack d value⟩
    | front value => exact ⟨_, rfl, isSome_pushFront d value⟩
  rebuilt := ofList_of_fits h

theorem sound_of_nested {limit : Nat} {d : Deque Element} (h : Value.Sound limit (.nested d)) : d.Sound limit where
  fits := h.fits d List.mem_cons_self
  elements element he := by
    refine ⟨h.known.of_nested he, fun e hd => ?_⟩
    exact h.fits e (List.mem_cons_of_mem _ (Value.mem_dequesOfList.2 ⟨element, he, hd⟩))

end Deque

/-- The deques of a session: those behind handles, those of registers, and those inside others, at every depth. -/
inductive Session.Has (s : Session) : Deque Element → Prop
  | shared {id : Nat} (h : id < s.nextCell) : Has s (s.cell id).deque
  | owned {name : String} {d : Deque Element} (h : s.ownedDeque? name = some d) : Has s d
  | nested {d e : Deque Element} (outer : Has s d) (inner : .nested e ∈ d.items) : Has s e

theorem Session.Has.sound {s : Session} (hs : s.Proper) {d : Deque Element} (h : s.Has d) : d.Sound s.nextCell := by
  induction h with
  | shared h => exact hs.deques _
  | owned h => exact hs.owned _ _ h
  | nested outer inner ih => exact Deque.sound_of_nested (ih.elements _ inner)

/-! Bounds of shared deques -/

structure Cell.SameBound {α : Type} (before after : Cell α) : Prop where
  hold : after.hold = before.hold
  bound : after.deque.bound = before.deque.bound

theorem Cell.sameBound_lasting {α : Type} : Cell.Lasting (fun _ => True) (Cell.SameBound (α := α)) where
  hold h := h.hold
  refl _ := ⟨rfl, rfl⟩
  trans hab hbc := ⟨hbc.hold.trans hab.hold, hbc.bound.trans hab.bound⟩
  edit cell change hf :=
    ⟨(Counted.edit cell change hf).hold, (congrArg Deque.bound (deque_edit cell change)).trans (Edit.bound_apply _ _)⟩
  removeAt cell position hf := by
    refine ⟨(Counted.removeAt cell position hf).hold, ?_⟩
    unfold Cell.removeAt
    split
    · rfl
    · rename_i hr
      exact Deque.bound_removeAt hr
  written {cell after} hf _ h := by
    have hfree : after.hold = .free := h.hold.trans hf
    rw [if_pos hfree]
    exact ⟨h.hold, h.bound⟩
  read {cell after} _ h := by
    have hh : after.hold = cell.hold.enterReading := h.hold
    refine ⟨?_, h.bound⟩
    change after.hold.leaveReading = cell.hold
    rw [hh, leaveReading_enterReading]
  atHand _ _ hb h := ⟨h.hold, hb⟩
  changed hf h := ⟨hf.symm, h.bound⟩
  cut _ _ hf h := ⟨hf.symm, h.bound⟩

def Session.sameBounds : Session.Course := .ofCells Cell.sameBound_lasting

/-! Bounds of registers, and of deques that are made from others -/

/-- The operation makes a new deque and puts it into a register if one is named. -/
inductive OwnedOp.Makes {α : Type} : OwnedOp α → Option String → Prop
  | copy (into : Option String) : Makes (.copy into) into
  | repeated (times : Nat) (into : Option String) : Makes (.repeated times into) into
  | concat (other : String) (into : Option String) : Makes (.concat other into) into

namespace Action

variable {m : Meaning} {s t : Session}

theorem ownedDeque?_putOwned (name : String) (d : Deque Element) (s : Session) :
    (putOwned name d s).ownedDeque? name = some d := by
  simp [Session.ownedDeque?, putOwned]

/-- What was made is kept where it was asked to be. -/
theorem ownedDeque?_keep {into : Option String} {d : Deque Element} {outcome : Except Interrupt Unit}
    (h : OwnedOp.keep into d s = (outcome, t)) : ∀ name, into = some name → t.ownedDeque? name = some d := by
  rintro name rfl
  cases h
  exact ownedDeque?_putOwned name d s

end Action

theorem OwnedOp.session_mapM {op : OwnedOp Literal} {s t : Session} {outcome : Except Interrupt (OwnedOp Element)}
    (h : op.mapM resolve s = (outcome, t)) : t = s := by
  have hs := ActionRel.unchanged_sequential.resolveOwnedOp op s
  rwa [h] at hs

theorem OwnedOp.bound_made {m : Meaning} {d after : Deque Element} {op : OwnedOp Element} {into : Option String}
    {s t : Session} {answer : Answer} (hop : op.Makes into) (h : op.run m d s = (.ok (answer, after), t)) :
    ∃ made, answer = .deque made ∧ made.bound = d.bound ∧
      ∀ name, into = some name → t.ownedDeque? name = some made := by
  cases hop with
  | copy =>
    obtain ⟨_, u, hkeep, h⟩ := bind_eq_ok h
    cases h
    exact ⟨d, rfl, rfl, ownedDeque?_keep hkeep⟩
  | repeated times =>
    obtain ⟨made, u, hmade, h⟩ := bind_eq_ok h
    obtain ⟨_, v, hkeep, h⟩ := bind_eq_ok h
    cases h
    exact ⟨made, rfl, Deque.bound_repeated? (orNoRoom_eq_ok hmade).1, ownedDeque?_keep hkeep⟩
  | concat other =>
    obtain ⟨e, u, _, h⟩ := bind_eq_ok h
    obtain ⟨_, v, hkeep, h⟩ := bind_eq_ok h
    cases h
    exact ⟨d.concat e, rfl, rfl, ownedDeque?_keep hkeep⟩

/-- However the operation ends, the register holds a deque with the same bound as before. -/
theorem Meaning.bound_runOwned (m : Meaning) {name : String} {op : OwnedOp Literal} (hop : op.changes = true)
    {s : Session} {d : Deque Element} (hd : s.ownedDeque? name = some d) :
    ∃ e, (m.runOwned name op s).2.ownedDeque? name = some e ∧ e.bound = d.bound := by
  rcases hrun : m.runOwned name op s with ⟨outcome, t⟩
  have hregister : ownedRegister name s = (.ok d, s) := required_of_some hd
  unfold Meaning.runOwned at hrun
  rcases bind_cases hrun with ⟨_, hfirst, _⟩ | ⟨resolved, u, hfirst, hrun⟩ <;> cases OwnedOp.session_mapM hfirst
  · exact ⟨d, hd, rfl⟩
  rw [bind_ok hregister] at hrun
  simp only [hop, if_true] at hrun
  rcases bind_cases hrun with ⟨_, hback, _⟩ | ⟨⟨answer, after⟩, v, hback, hrun⟩
  · obtain ⟨_, _, ho⟩ | ⟨_, w, _, _, rfl⟩ := recovering_cases hback
    · cases ho
    · exact ⟨d, ownedDeque?_putOwned name d w, rfl⟩
  · obtain ⟨_, hworked, ho⟩ | ⟨_, _, _, ho, _⟩ := recovering_cases hback
    · cases ho
      obtain ⟨w, hworked, _⟩ := pinning_cases hworked
      cases hrun
      exact ⟨after, ownedDeque?_putOwned name after v, (OwnedOp.becomes_run hworked).bound⟩
    · cases ho

/-- The copy of a shared deque is a new one. -/
theorem SharedOp.bound_copy {n id : Nat} {into : String} {s t : Session} {answer : Answer} (hs : s.Proper)
    (h : (SharedOp.copy into).run (Meaning.upTo n) id s = (.ok answer, t)) :
    ∃ copy, t.shared.get? into = some copy ∧ s.nextCell ≤ copy ∧
      (t.cell copy).deque.bound = (s.cell id).deque.bound := by
  obtain ⟨cell, u, hread, h⟩ := bind_eq_ok h
  obtain ⟨rfl, ⟨_, hcell⟩ | ⟨_, hcell⟩⟩ := readCell_cases hread <;> cases hcell
  obtain ⟨copy, v, hnew, h⟩ := bind_eq_ok h
  cases hnew
  obtain ⟨equal, w, hequal, h⟩ := bind_eq_ok h
  cases h
  have hcompared := (safely_neutral Session.sameBounds).equalCells (Meaning.upTo_safely _ n).equal u.nextCell id
  obtain ⟨_, _, _, hbounds⟩ := hcompared _ _ _ (hs.newCell (hs.deques id)) hequal trivial
  have hfresh : (u.putCell u.nextCell (.fresh (u.cell id).deque)).cell u.nextCell = .fresh (u.cell id).deque :=
    Session.cell_putCell_self ..
  refine ⟨u.nextCell, Table.get?_put_self .., Nat.le_refl _, ?_⟩
  exact (hbounds u.nextCell (Nat.lt_succ_self _)).bound.trans (congrArg (·.deque.bound) hfresh)

/-- A push through a handle answers the element that it evicted. -/
theorem SharedOp.answer_push {m : Meaning} {id : Nat} {op : SharedOp Element} (hop : op.IsPush) {s t : Session}
    {answer : Answer} (h : op.run m id s = (.ok answer, t)) :
    ∃ out, answer = .element out ∧ out.isSome = (s.cell id).deque.isFull := by
  have hedit {change : Edit Element} (hc : change.IsPush) {outcome : Except Refusal (Option Element)} {u : Session}
      (hu : changeCell id (fun cell => cell.edit change) s = (.ok outcome, u)) :
      ∃ out, outcome = .ok out ∧ out.isSome = (s.cell id).deque.isFull := by
    obtain ⟨_, ho, _⟩ | ⟨_, ho, _⟩ := changeCell_cases hu <;> cases ho
    cases hc with
    | back value => exact ⟨_, rfl, Deque.isSome_pushBack _ value⟩
    | front value => exact ⟨_, rfl, Deque.isSome_pushFront _ value⟩
  have hend {change : Edit Element} (hc : change.IsPush) {evicted : Option Element} {u : Session}
      (hu : (do let outcome ← changeCell id fun cell => cell.edit change; return outcome.toOption.join) s =
        (.ok evicted, u)) : evicted.isSome = (s.cell id).deque.isFull := by
    obtain ⟨outcome, v, hv, hu⟩ := bind_eq_ok hu
    obtain ⟨out, rfl, hout⟩ := hedit hc hv
    cases hu
    exact hout
  cases hop with
  | edit hc =>
    obtain ⟨outcome, u, hu, h⟩ := bind_eq_ok h
    obtain ⟨out, rfl, hout⟩ := hedit hc hu
    cases h
    exact ⟨out, rfl, hout⟩
  | back value =>
    obtain ⟨reached, u, hreached, h⟩ := bind_eq_ok h
    obtain ⟨evicted, v, hevicted, hreached⟩ := bind_eq_ok hreached
    cases hreached
    cases h
    exact ⟨evicted, rfl, hend (.back value) hevicted⟩
  | front value =>
    obtain ⟨reached, u, hreached, h⟩ := bind_eq_ok h
    obtain ⟨evicted, v, hevicted, hreached⟩ := bind_eq_ok hreached
    cases hreached
    cases h
    exact ⟨evicted, rfl, hend (.front value) hevicted⟩

/-- What the bounds of a session promise, whatever is done next at whatever depth and however it ends. -/
structure Session.KeepsBounds (s : Session) : Prop where
  bounded : ∀ d, s.Has d → d.Bounded
  shared : ∀ n step id, id < s.nextCell →
    (((Meaning.upTo n).perform step s).2.cell id).deque.bound = (s.cell id).deque.bound
  owned : ∀ n name op d, op.changes = true → s.ownedDeque? name = some d →
    ∃ e, ((Meaning.upTo n).perform (.owned name op) s).2.ownedDeque? name = some e ∧ e.bound = d.bound
  atHand : ∀ n op d answer after t, OwnedOp.run (Meaning.upTo n) d op s = (.ok (answer, after), t) →
    after.bound = d.bound
  made : ∀ n op into d answer after t, OwnedOp.Makes op into →
    OwnedOp.run (Meaning.upTo n) d op s = (.ok (answer, after), t) →
    ∃ made, answer = .deque made ∧ made.bound = d.bound ∧ ∀ name, into = some name → t.ownedDeque? name = some made
  copied : ∀ n id into answer t, (SharedOp.copy into).run (Meaning.upTo n) id s = (.ok answer, t) →
    ∃ copy, t.shared.get? into = some copy ∧ s.nextCell ≤ copy ∧
      (t.cell copy).deque.bound = (s.cell id).deque.bound
  pushed : ∀ n id op answer t, SharedOp.IsPush op → op.run (Meaning.upTo n) id s = (.ok answer, t) →
    ∃ out, answer = .element out ∧ out.isSome = (s.cell id).deque.isFull

namespace Session

variable {s : Session}

theorem Proper.perform (hs : s.Proper) (n : Nat) (step : Step) :
    ((Meaning.upTo n).perform step s).2.Proper ∧ sameBounds.rel s ((Meaning.upTo n).perform step s).2 := by
  obtain ⟨ht, _, hr⟩ := (Meaning.upTo_safely sameBounds n).perform step s _ _ hs rfl (calm_always _)
  exact ⟨ht, hr⟩

theorem Proper.keepsBounds (hs : s.Proper) : s.KeepsBounds where
  bounded d hd := (hd.sound hs).fits.bounded
  shared n step id hid := ((hs.perform n step).2.2 id hid).bound
  owned n name op d hop hd := by
    cases n with
    | zero => exact ⟨d, hd, rfl⟩
    | succ n => exact Meaning.bound_runOwned (Meaning.upTo n) hop hd
  atHand n op d answer after t h := (OwnedOp.becomes_run h).bound
  made n op into d answer after t hop h := OwnedOp.bound_made hop h
  copied n id into answer t h := SharedOp.bound_copy hs h
  pushed n id op answer t hop h := SharedOp.answer_push hop h

end Session

/-- Runs reach sessions whose bounds keep their promises, whichever of their steps are refused or interrupted. The
promises rest on the session being proper and on nothing else, and what is performed in a proper session, at whatever
depth and however it ends, leaves a proper one. -/
theorem bounds_hold_throughout (hooks : List (String × Hook)) (environment : Option String) (depth : Nat)
    (steps : List Step) :
    (Session.endOf (Meaning.upTo depth) steps (.start hooks environment)).KeepsBounds ∧
      ∀ s : Session, s.Proper → s.KeepsBounds ∧ ∀ n step, ((Meaning.upTo n).perform step s).2.Proper :=
  ⟨((Session.proper_start hooks environment).endOf depth steps).keepsBounds,
    fun _ hs => ⟨hs.keepsBounds, fun n step => (hs.perform n step).1⟩⟩

/-- Too many elements, one of them a deque of too many elements, and then a body that panics after a push. -/
def Session.withCutBody : Session :=
  endOf (Meaning.upTo 2)
    [.createShared "d" (.items [.int 5, .int 6, .nested ⟨[.int 1, .int 2], some 1⟩] (some 2)),
      .hold "d" true [.inl (.edit (.pushBack (.int 7))), .inr (.panic "stop")]]
    (.start [] none)

theorem bounds_hold_throughout_cut :
    Session.withCutBody.KeepsBounds ∧ 0 < Session.withCutBody.nextCell ∧
      (Session.withCutBody.cell 0).deque = ⟨[.nested ⟨[.int 2], some 1⟩, .int 7], some 2⟩ ∧
      Session.withCutBody.Proper ∧ ((Meaning.upTo 2).perform (.panic "stop") Session.withCutBody).2.Proper := by
  obtain ⟨hkeeps, hproper⟩ := bounds_hold_throughout [] none 2
    [.createShared "d" (.items [.int 5, .int 6, .nested ⟨[.int 1, .int 2], some 1⟩] (some 2)),
      .hold "d" true [.inl (.edit (.pushBack (.int 7))), .inr (.panic "stop")]]
  have hs : Session.withCutBody.Proper := (Session.proper_start [] none).endOf _ _
  exact ⟨hkeeps, by decide, rfl, hs, (hproper _ hs).2 2 _⟩

end EvictingDeque
