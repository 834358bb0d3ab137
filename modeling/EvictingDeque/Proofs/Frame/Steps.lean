import EvictingDeque.Proofs.Frame.Places
import EvictingDeque.Proofs.Interpreter.AtHand
import EvictingDeque.Proofs.Plain.Steps

set_option autoImplicit false

/-!
# Where steps make a difference

Every step without a body touches few places, and these can be read off the step and the handle it goes through. It
leaves all others as they were, however it ends.
-/
namespace EvictingDeque

open Action

/-- The register whose deque is changed, and the one that gets the result. -/
def OwnedOp.touched {α : Type} (name : String) (op : OwnedOp α) : List Place :=
  (if op.changes then [.register name] else []) ++ op.into?.toList.map .register

def SharedOp.touched {α : Type} (id : Nat) : SharedOp α → List Place
  | .edit _ | .remove _ => [.cell id]
  | .ends op => if op.changes then [.cell id] else []
  | .extendFrom cursor => [.cursor cursor, .cell id]
  | .visit cursor => [.cursor cursor]
  | .share into | .copy into => [.handle into]
  | .downgrade into => [.weak into]
  | .ask _ | .extent | .written | .samePlace _ | .equal _ => []

/-- What a body touches is not looked at. -/
def Step.touched (s : Session) : Step → List Place
  | .createOwned name _ => [.register name]
  | .owned name op => op.touched name
  | .createShared name _ | .drop name | .upgrade name _ => [.handle name]
  | .shared name op => ((s.shared.get? name).map fun id => op.touched id).getD []
  | .cursor _ name _ => [.cursor name]
  | .panic _ | .chooseWarnings _ | .askWarnings | .warn _ | .hold _ _ _ => []

/-- Only handles matter for it. -/
theorem Step.touched_of_shared {s t : Session} (step : Step) (h : t.shared = s.shared) :
    step.touched t = step.touched s := by
  cases step with
  | shared name op => simp only [Step.touched, h]
  | _ => rfl

/-- A hold runs a body, and is not a single operation. -/
inductive Step.HasBody : Step → Prop
  | hold (name : String) (exclusive : Bool) (body : List (OwnedOp Literal ⊕ Step)) : HasBody (.hold name exclusive body)

/-! Names in operations stand for elements, not for where operations go -/

theorem OwnedOp.into?_mapM {op : OwnedOp Literal} {resolved : OwnedOp Element} {s t : Session}
    (h : op.mapM resolve s = (.ok resolved, t)) : resolved.into? = op.into? := by
  cases op with
  | edit change | ends op | ask query | indexWithin value span | remove value | replace position value
  | assign position value =>
    obtain ⟨_, u, _, h⟩ := bind_eq_ok h
    cases h
    rfl
  | _ =>
    cases h
    rfl

theorem SharedOp.session_mapM {op : SharedOp Literal} {s t : Session} {outcome : Except Interrupt (SharedOp Element)}
    (h : op.mapM resolve s = (outcome, t)) : t = s := by
  have hs := ActionRel.unchanged_sequential.resolveSharedOp op s
  rwa [h] at hs

theorem SharedOp.touched_mapM {op : SharedOp Literal} {resolved : SharedOp Element} {s t : Session}
    (h : op.mapM resolve s = (.ok resolved, t)) (id : Nat) : resolved.touched id = op.touched id := by
  cases op with
  | ends op =>
    obtain ⟨_, u, hop, h⟩ := bind_eq_ok h
    cases h
    simp only [touched, EndOp.changes_mapM hop]
  | edit change | ask query | remove value =>
    obtain ⟨_, u, _, h⟩ := bind_eq_ok h
    cases h
    rfl
  | _ =>
    cases h
    rfl

namespace Action.Within

variable {places : List Place}

theorem changeCell {β : Type} {id : Nat} (hid : .cell id ∈ places) (change : Cell Element → β × Cell Element) :
    (Action.changeCell id change).Within places := fun s t outcome _ hrun => by
  obtain ⟨_, _, rfl⟩ | ⟨_, _, rfl⟩ := changeCell_cases hrun
  · exact (Session.Differ.putCell s id _).mono (List.cons_subset.2 ⟨hid, List.nil_subset _⟩)
  · exact .refl t

theorem newCell (d : Deque Element) : (Action.newCell d).Within places := fun s t outcome _ hrun => by
  cases hrun
  exact .created s d

theorem setOwned {name : String} (hname : .register name ∈ places) (d : Deque Element) :
    (Action.setOwned name d).Within places :=
  update fun s => (Session.Differ.putOwned s name d).mono (List.cons_subset.2 ⟨hname, List.nil_subset _⟩)

theorem setShared {name : String} (hname : .handle name ∈ places) (id : Nat) :
    (Action.setShared name id).Within places :=
  update fun s => (Session.Differ.putShared s name id).mono (List.cons_subset.2 ⟨hname, List.nil_subset _⟩)

theorem keep {into : Option String} (hinto : ∀ name, into = some name → .register name ∈ places) (d : Deque Element) :
    (OwnedOp.keep into d).Within places := by
  cases into with
  | none => exact of_unchanged fun _ => rfl
  | some name => exact setOwned (hinto name rfl) d

theorem withCursor {β : Type} {name : String} (hname : .cursor name ∈ places)
    (visit : Cursor → Cell Element → β × Cursor) (happening : String → Nat → β → Happening) :
    (Action.withCursor name visit happening).Within places := fun s t outcome _ hrun => by
  obtain ⟨rfl, _⟩ | ⟨cursor, _, _, _, rfl⟩ := withCursor_cases hrun
  · exact .refl t
  · exact (Session.Differ.putCursor s name _ _).mono (List.cons_subset.2 ⟨hname, List.nil_subset _⟩)

theorem runCursorOp (name : String) (op : CursorOp) : (op.run name).Within [.cursor name] := by
  cases op with
  | next =>
    refine (withCursor List.mem_cons_self _ _).bind fun visited => ?_
    cases visited <;> exact .pure
  | collect =>
    refine (withCursor List.mem_cons_self _ _).bind fun visits => ?_
    split <;> exact .pure
  | drop => exact (read _).bind fun _ => (update fun s => .eraseCursor s name _).bind fun _ => .pure

end Action.Within

namespace Meaning

/-- Writing and comparing make no difference. -/
structure Inert (m : Meaning) : Prop where
  write : ∀ places element, (m.write element).Within places
  equal : ∀ places a b, (m.equal a b).Within places

theorem upTo_inert (depth : Nat) : (upTo depth).Inert :=
  ⟨fun places => (within_upTo depth places).1, fun places => (within_upTo depth places).2⟩

variable {m : Meaning} (hm : m.Inert)
include hm

theorem Inert.runOwnedOp (d : Deque Element) {op : OwnedOp Element} {places : List Place}
    (hinto : ∀ name, op.into? = some name → .register name ∈ places) : (op.run m d).Within places :=
  @ActionRel.Reading.runOwnedOp _ (within_reading places) m m (hm.write _) (hm.equal _) d op fun e => .keep hinto e

theorem Inert.runSharedOp (id : Nat) (op : SharedOp Element) : (op.run m id).Within (op.touched id) := by
  have h := within_reading (op.touched id)
  have hread : (readCell id).Within (op.touched id) := .readCell id
  have hlocate (value : Element) (onlyFirst : Bool) : (locateShared m id value onlyFirst).Within (op.touched id) :=
    @ActionRel.Reading.locateShared _ h m m (hm.equal _) id value onlyFirst
  have hequal (a b : Nat) : (equalCells m.equal a b).Within (op.touched id) :=
    @ActionRel.Reading.equalCells _ h m.equal m.equal (hm.equal _) a b
  cases op with
  | edit change => exact (Within.changeCell List.mem_cons_self _).bind fun _ => .pure
  | ends op =>
    refine Within.bind (h.runEnds fun hc change => ?_) fun _ => .pure
    exact .changeCell (by simp [SharedOp.touched, hc]) _
  | ask query =>
    have hcontents : (do return (← readCell id).deque : Action (Deque Element)).Within [] :=
      (Within.readCell id).bind fun _ => .pure
    exact @ActionRel.Reading.runQuery _ h _ _ (locateShared m id) hcontents hlocate query
  | remove value =>
    refine (hlocate value true).bind fun located => ?_
    split
    · exact .pure
    · exact (Within.changeCell List.mem_cons_self _).bind fun _ => .pure
  | extent => exact hread.bind fun _ => .pure
  | written => exact (Within.writeCell (hm.write _) id).bind fun _ => .pure
  | share into => exact (Within.setShared List.mem_cons_self id).bind fun _ => .pure
  | copy into =>
    refine hread.bind fun cell => (Within.newCell _).bind fun copy => ?_
    exact (hequal copy id).bind fun _ => (Within.setShared List.mem_cons_self copy).bind fun _ => .pure
  | downgrade into => exact (Within.update fun s => .putWeak s into id).bind fun _ => .pure
  | samePlace other => exact Within.bind (h.sharedRegister other) fun _ => .pure
  | equal other => exact Within.bind (h.sharedRegister other) fun b => (hequal id b).bind fun _ => .pure
  | visit cursor => exact hread.bind fun _ => (Within.update fun s => .putCursor s cursor _ _).bind fun _ => .pure
  | extendFrom cursor =>
    refine (Within.withCursor List.mem_cons_self _ _).bind fun _ => ?_
    exact (Within.changeCell (List.mem_cons_of_mem _ List.mem_cons_self) _).bind fun _ => .pure

theorem Inert.runOwned (name : String) (op : OwnedOp Literal) : (m.runOwned name op).Within (op.touched name) := by
  intro s t outcome hs hrun
  obtain ⟨rfl, _⟩ | ⟨resolved, d, worked, u, hop, _, hworked, _, rfl⟩ := runOwned_cases hrun
  · exact .refl t
  have hpinned : Session.Differ (op.touched name) s { s with pinned := d.owners ++ s.pinned } :=
    .of_apart (s.apart_pinned _) rfl
  have hinto : ∀ other, resolved.into? = some other → Place.register other ∈ op.touched name := fun other ho => by
    rw [OwnedOp.into?_mapM hop] at ho
    simp [OwnedOp.touched, ho]
  have hwork := (hpinned.trans (hm.runOwnedOp d hinto _ u worked hs hworked)).trans
    (.of_apart (u.apart_pinned s.pinned) rfl)
  cases hc : op.changes with
  | false =>
    simp only [OwnedOp.putBack, hc, Bool.false_eq_true, if_false]
    exact hwork
  | true =>
    simp only [OwnedOp.putBack, hc, if_true]
    refine hwork.trans ((Session.Differ.putOwned _ name _).mono ?_)
    simp [OwnedOp.touched, hc]

/-- A single step touches what it names, and nothing else. -/
theorem Inert.differ_performStep {step : Step} (hstep : ¬ step.HasBody) {s t : Session}
    {outcome : Except Interrupt Answer} (hs : s.Passive) (hrun : m.performStep step s = (outcome, t)) :
    Session.Differ (step.touched s) s t := by
  have h := within_reading (step.touched s)
  have hwithin {action : Action Answer} (ha : action.Within (step.touched s)) (hrun : action s = (outcome, t)) :
      Session.Differ (step.touched s) s t := ha s t outcome hs hrun
  cases step with
  | panic message => exact hwithin (.interrupt _) hrun
  | chooseWarnings on =>
    have hchoose : (Action.update fun s => { s with warnings := s.warnings.choose on }).Within [] :=
      .update fun s => .of_apart ⟨⟨rfl, rfl, rfl, rfl⟩, rfl, rfl, rfl⟩ rfl
    exact hwithin (hchoose.bind fun _ => .pure) hrun
  | askWarnings =>
    cases hrun
    exact .of_apart ⟨⟨rfl, rfl, rfl, rfl⟩, rfl, rfl, rfl⟩ rfl
  | warn message => exact hwithin ((Within.warn message).bind fun _ => .pure) hrun
  | createOwned name source =>
    refine hwithin (Within.bind (h.build source) fun built => ?_) hrun
    cases built with
    | none => exact .pure
    | some d => exact (Within.setOwned List.mem_cons_self d).bind fun _ => .pure
  | owned name op => exact hwithin (hm.runOwned name op) hrun
  | createShared name source =>
    refine hwithin (Within.bind (h.build source) fun built => ?_) hrun
    cases built with
    | none => exact .pure
    | some d =>
      exact (Within.newCell d).bind fun id => (Within.setShared List.mem_cons_self id).bind fun _ => .pure
  | shared name op =>
    rcases bind_cases hrun with ⟨_, hop, _⟩ | ⟨resolved, u, hop, hrest⟩ <;> cases SharedOp.session_mapM hop
    · exact .refl _
    rcases bind_cases hrest with ⟨_, hid, _⟩ | ⟨id, u, hid, hlast⟩ <;> obtain ⟨rfl, hfound⟩ := required_cases hid
    · exact .refl _
    obtain ⟨_, hname, ho⟩ | ⟨_, ho⟩ := hfound <;> cases ho
    have hplaces : Step.touched u (.shared name op) = resolved.touched id := by
      simp only [Step.touched, hname, Option.map_some, Option.getD_some, SharedOp.touched_mapM hop]
    rw [hplaces]
    exact hm.runSharedOp id resolved u t outcome hs hlast
  | hold name exclusive body => exact absurd (.hold name exclusive body) hstep
  | drop name =>
    have hdrop : (Action.update fun s => { s with shared := s.shared.erase name }).Within [.handle name] :=
      .update fun s => .eraseShared s name
    exact hwithin ((Within.read _).bind fun _ => hdrop.bind fun _ => .pure) hrun
  | upgrade name weak =>
    refine hwithin (Within.bind (h.required _) fun id => (Within.read _).bind fun alive => ?_) hrun
    cases alive with
    | false => exact .pure
    | true => exact (Within.setShared List.mem_cons_self id).bind fun _ => .pure
  | cursor name cursor op => exact hwithin (.runCursorOp cursor op) hrun

end Meaning

/-- The frame of a single step in which no element acts, at whatever depth. -/
theorem Session.differ_perform (depth : Nat) {step : Step} (hstep : ¬ step.HasBody) {s : Session} (hs : s.Passive) :
    Session.Differ (step.touched s) s ((Meaning.upTo depth).perform step s).2 := by
  cases depth with
  | zero => exact .refl s
  | succ depth => exact (Meaning.upTo_inert depth).differ_performStep hstep hs rfl

end EvictingDeque
