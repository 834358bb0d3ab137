import EvictingDeque.Proofs.Interpreter.AtHand
import EvictingDeque.Proofs.Mirror.Deque
import EvictingDeque.Proofs.Plain.Steps

set_option autoImplicit false

/-!
# Mirrored runs

Two registers hold a deque and its reverse. Whatever is done to the one and in mirror image to the other, the two runs
answer the same throughout, refusals and panics included, and the registers go on holding a deque and its reverse.
-/
namespace EvictingDeque

open Action

namespace Deque

variable {α : Type}

@[simp]
theorem length_reverse (d : Deque α) : d.reverse.length = d.length := List.length_reverse

theorem extent_reverse (d : Deque α) : d.reverse.extent = d.extent := by
  simp [extent, length, isEmpty, isFull]

end Deque

namespace EndOp

variable {α : Type}

def mirrored : EndOp α → EndOp α
  | .extent => .extent
  | .pushBack value => .pushFront value
  | .pushFront value => .pushBack value
  | .popBack => .popFront
  | .popFront => .popBack
  | .extendBack values => .extendFront values
  | .extendFront values => .extendBack values

theorem run_mirrored (op : EndOp α) (d : Deque α) :
    (Deque.ends.run op.mirrored).run d.reverse =
      (((Deque.ends.run op).run d).1, ((Deque.ends.run op).run d).2.reverse) := by
  cases op with
  | extent =>
    change (Sum.inl (Deque.ends.extent.run d.reverse).1, (Deque.ends.extent.run d.reverse).2) =
      (Sum.inl (Deque.ends.extent.run d).1, (Deque.ends.extent.run d).2.reverse)
    rw [Deque.run_extent, Deque.run_extent, Deque.extent_reverse]
  | pushBack value =>
    exact congrArg (fun pushed => ((.inr pushed.1 : Extent ⊕ Option α), pushed.2)) (d.pushFront_reverse value)
  | pushFront value =>
    exact congrArg (fun pushed => ((.inr pushed.1 : Extent ⊕ Option α), pushed.2)) (d.pushBack_reverse value)
  | popBack => exact congrArg (fun popped => ((.inr popped.1 : Extent ⊕ Option α), popped.2)) d.popFront_reverse
  | popFront => exact congrArg (fun popped => ((.inr popped.1 : Extent ⊕ Option α), popped.2)) d.popBack_reverse
  | extendBack values =>
    change (Sum.inr none, ((Deque.ends.extendFront values).run d.reverse).2) =
      (Sum.inr none, ((Deque.ends.extendBack values).run d).2.reverse)
    rw [Deque.run_extendFront, Deque.run_extendBack, Deque.extendFront_reverse]
  | extendFront values =>
    change (Sum.inr none, ((Deque.ends.extendBack values).run d.reverse).2) =
      (Sum.inr none, ((Deque.ends.extendFront values).run d).2.reverse)
    rw [Deque.run_extendFront, Deque.run_extendBack, Deque.extendBack_reverse]

end EndOp

namespace OwnedOp

/-- What front and back, or a position, have to do with, and nothing else. -/
inductive Sided {α : Type} : OwnedOp α → Prop
  | edit (change : Edit α) : Sided (.edit change)
  | ends (op : EndOp α) : Sided (.ends op)
  | removeAt (position : Nat) : Sided (.removeAt position)
  | replace (position : Nat) (value : α) : Sided (.replace position value)
  | assign (position : Nat) (value : α) : Sided (.assign position value)

/-- What to do to the reversed deque, if it is so long. -/
def mirrored {α : Type} (length : Nat) : OwnedOp α → OwnedOp α
  | .edit change => .edit (change.mirrored length)
  | .ends op => .ends op.mirrored
  | .removeAt position => .removeAt (mirrorPosition length position)
  | .replace position value => .replace (mirrorPosition length position) value
  | .assign position value => .assign (mirrorPosition length position) value
  | op => op

/-- Values are resolved as they are without the mirror. -/
theorem mapM_mirrored {α β : Type} {m : Type → Type} [Monad m] [LawfulMonad m] (f : α → m β) (length : Nat)
    {op : OwnedOp α} (hop : op.Sided) : (op.mirrored length).mapM f = (mirrored length) <$> op.mapM f := by
  cases hop with
  | edit change => cases change <;> simp [mirrored, mapM, Edit.mirrored, Edit.mapM]
  | ends op => cases op <;> simp [mirrored, mapM, EndOp.mirrored, EndOp.mapM]
  | removeAt position => simp [mirrored, mapM]
  | replace position value => simp [mirrored, mapM]
  | assign position value => simp [mirrored, mapM]

/-- Nothing but the deque at hand has a part in what these operations do. -/
theorem run_mirrored (m : Meaning) {op : OwnedOp Element} (hop : op.Sided) (d : Deque Element) :
    ∃ worked : Except Interrupt (Answer × Deque Element), (∀ s, op.run m d s = (worked, s)) ∧
      ∀ s, (op.mirrored d.items.length).run m d.reverse s =
        (worked.map fun (answer, after) => (answer, after.reverse), s) := by
  cases hop with
  | edit change =>
    refine ⟨_, fun s => rfl, fun s => ?_⟩
    simp only [mirrored, run, Edit.apply_mirrored]
    rfl
  | ends op =>
    refine ⟨_, fun s => rfl, fun s => ?_⟩
    simp only [mirrored, run, EndOp.run_mirrored]
    rfl
  | removeAt position =>
    simp only [mirrored, run, Deque.removeAt_reverse]
    rcases d.removeAt position with refusal | ⟨value, after⟩
    · exact ⟨_, fun s => rfl, fun s => rfl⟩
    · exact ⟨_, fun s => rfl, fun s => rfl⟩
  | replace position value =>
    simp only [mirrored, run, Deque.replace_reverse]
    rcases d.replace position value with _ | ⟨old, after⟩
    · exact ⟨_, fun s => rfl, fun s => rfl⟩
    · exact ⟨_, fun s => rfl, fun s => rfl⟩
  | assign position value =>
    simp only [mirrored, run, Deque.replace_reverse]
    rcases d.replace position value with _ | ⟨old, after⟩
    · exact ⟨_, fun s => rfl, fun s => rfl⟩
    · exact ⟨_, fun s => rfl, fun s => rfl⟩

end OwnedOp

theorem OwnedOp.Sided.of_mapM {op : OwnedOp Literal} (hop : op.Sided) {resolved : OwnedOp Element} {s t : Session}
    (h : op.mapM resolve s = (.ok resolved, t)) : resolved.Sided := by
  cases hop with
  | edit change =>
    obtain ⟨resolvedChange, u, _, h⟩ := bind_eq_ok h
    cases h
    exact .edit resolvedChange
  | ends op =>
    obtain ⟨resolvedOp, u, _, h⟩ := bind_eq_ok h
    cases h
    exact .ends resolvedOp
  | removeAt position =>
    cases h
    exact .removeAt position
  | replace position value =>
    obtain ⟨resolvedValue, u, _, h⟩ := bind_eq_ok h
    cases h
    exact .replace position resolvedValue
  | assign position value =>
    obtain ⟨resolvedValue, u, _, h⟩ := bind_eq_ok h
    cases h
    exact .assign position resolvedValue

/-! Names that stand for the same in two sessions -/

/-- Begun in either session the action ends alike, and changes nothing. -/
def Action.Agrees {α : Type} (s s' : Session) (a : Action α) : Prop :=
  ∃ outcome, a s = (outcome, s) ∧ a s' = (outcome, s')

namespace Action.Agrees

variable {α β : Type} {s s' : Session} {a : Action α}

theorem pure (value : α) : Agrees s s' (Pure.pure value) := ⟨.ok value, rfl, rfl⟩

theorem bind {f : α → Action β} (ha : a.Agrees s s') (hf : ∀ value, (f value).Agrees s s') : (a >>= f).Agrees s s' := by
  obtain ⟨cause | value, hs, hs'⟩ := ha
  · exact ⟨.error cause, bind_error hs, bind_error hs'⟩
  · obtain ⟨outcome, ht, ht'⟩ := hf value
    exact ⟨outcome, (bind_ok hs).trans ht, (bind_ok hs').trans ht'⟩

theorem mapM {f : α → Action β} (hf : ∀ value, (f value).Agrees s s') (values : List α) :
    (values.mapM f).Agrees s s' := by
  induction values with
  | nil => exact pure []
  | cons value values ih =>
    rw [List.mapM_cons]
    exact (hf value).bind fun _ => ih.bind fun _ => pure _

theorem resolve (h : s'.shared = s.shared) (literal : Literal) : (resolve literal).Agrees s s' := by
  unfold Agrees Action.resolve required
  simp only [resolveLink_of_shared h]
  split
  · exact ⟨_, rfl, rfl⟩
  · exact ⟨_, rfl, rfl⟩

theorem resolveOp (h : s'.shared = s.shared) {op : OwnedOp Literal} (hop : op.Sided) :
    (op.mapM Action.resolve).Agrees s s' := by
  have hr := resolve h
  cases hop with
  | edit change =>
    refine Agrees.bind ?_ fun _ => pure _
    cases change with
    | pushBack value | pushFront value | insert position value => exact (hr value).bind fun _ => pure _
    | extendBack values | extendFront values => exact (mapM hr values).bind fun _ => pure _
    | _ => exact pure _
  | ends op =>
    refine Agrees.bind ?_ fun _ => pure _
    cases op with
    | pushBack value | pushFront value => exact (hr value).bind fun _ => pure _
    | extendBack values | extendFront values => exact (mapM hr values).bind fun _ => pure _
    | _ => exact pure _
  | removeAt position => exact pure _
  | replace position value | assign position value => exact (hr value).bind fun _ => pure _

end Action.Agrees

/-! Runs -/

/-- A register of the one session holds a deque, a register of the other its reverse, and the handles are the same. The
sessions may be one. -/
structure Session.Mirrors (name other : String) (d : Deque Element) (s s' : Session) : Prop where
  deque : s.ownedDeque? name = some d
  reversed : s'.ownedDeque? other = some d.reverse
  shared : s'.shared = s.shared

/-- Turned around with the deque, the outcome leaves the reversed deque at hand. -/
theorem Deque.left_reverse (d : Deque Element) (worked : Except Interrupt (Answer × Deque Element)) :
    d.reverse.left (worked.map fun (answer, after) => (answer, after.reverse)) = (d.left worked).reverse := by
  cases worked <;> rfl

theorem Meaning.performStep_mirrored (m : Meaning) {name other : String} {op : OwnedOp Literal} (hop : op.Sided)
    {d : Deque Element} {s s' : Session} (h : Session.Mirrors name other d s s') :
    ∃ outcome after t t', m.performStep (.owned name op) s = (outcome, t) ∧
      m.performStep (.owned other (op.mirrored d.items.length)) s' = (outcome, t') ∧
      Session.Mirrors name other after t t' := by
  obtain ⟨found, hs, hs'⟩ := Action.Agrees.resolveOp h.shared hop
  have hmirrored : (op.mirrored d.items.length).mapM resolve s' =
      (found.map (OwnedOp.mirrored d.items.length), s') := by
    rw [OwnedOp.mapM_mirrored resolve d.items.length hop, map_eq_pure_bind]
    cases found with
    | error cause => exact bind_error hs'
    | ok resolved => exact bind_ok hs'
  cases found with
  | error cause =>
    exact ⟨_, d, s, s', Meaning.runOwned_unresolved hs, Meaning.runOwned_unresolved hmirrored, h⟩
  | ok resolved =>
    have hchanges := OwnedOp.changes_mapM hs
    have hchanges' := OwnedOp.changes_mapM hmirrored
    obtain ⟨worked, hrun, hrun'⟩ := resolved.run_mirrored m (hop.of_mapM hs) d
    have hanswers : (worked.map fun (answer, after) => (answer, after.reverse)).map Prod.fst = worked.map Prod.fst := by
      cases worked <;> rfl
    have hregister' := OwnedOp.ownedDeque?_left hchanges' (hrun' s') h.reversed
    rw [Deque.left_reverse] at hregister'
    have hperform' := Meaning.runOwned_of_alone hmirrored h.reversed hrun'
    rw [hanswers, Deque.left_reverse] at hperform'
    refine ⟨_, _, _, _, Meaning.runOwned_of_alone hs h.deque hrun, hperform', ?_, hregister', ?_⟩
    · exact OwnedOp.ownedDeque?_left hchanges (hrun s) h.deque
    · rw [OwnedOp.shared_putBack, OwnedOp.shared_putBack, h.shared]

namespace Session

/-- What operations on the deque of a register answer one after the other, each with what the register holds then. -/
def workOn (m : Meaning) (name : String) : List (OwnedOp Literal) → Session → List (Answer × Option (Deque Element))
  | [], _ => []
  | op :: ops, s =>
    let (report, after) := performAndReport m (.owned name op) s
    (report.answer, after.ownedDeque? name) :: workOn m name ops after

/-- The operations in mirror image, each for the length that the deque of the register has when its turn comes. -/
def mirroredAlong (m : Meaning) (name : String) : List (OwnedOp Literal) → Session → List (OwnedOp Literal)
  | [], _ => []
  | op :: ops, s =>
    let length := ((s.ownedDeque? name).map Deque.length).getD 0
    op.mirrored length :: mirroredAlong m name ops (performAndReport m (.owned name op) s).2

variable {name other : String} {d : Deque Element} {s s' : Session}

/-- Between two steps the reports of the one before are cleared away. -/
theorem Mirrors.cleared (h : Mirrors name other d s s') :
    Mirrors name other d { s with events := [], printed := "" } { s' with events := [], printed := "" } :=
  ⟨h.deque, h.reversed, h.shared⟩

theorem Mirrors.perform (h : Mirrors name other d s s') (depth : Nat) {op : OwnedOp Literal} (hop : op.Sided) :
    ∃ outcome after t t', (Meaning.upTo depth).perform (.owned name op) s = (outcome, t) ∧
      (Meaning.upTo depth).perform (.owned other (op.mirrored d.items.length)) s' = (outcome, t') ∧
      Mirrors name other after t t' := by
  cases depth with
  | zero => exact ⟨_, d, s, s', rfl, rfl, h⟩
  | succ depth => exact (Meaning.upTo depth).performStep_mirrored hop h

end Session

/-- Front and back are mirror images, for deques of any elements under any bound: the mirrored run answers at every step
what the run itself answers, be it an element, a refusal or a panic, and its register holds the reverse under the same
bound. Rotations may go any number of steps, in either direction. -/
theorem runs_mirrored (depth : Nat) {name other : String} {d : Deque Element} {s s' : Session}
    (h : Session.Mirrors name other d s s') {ops : List (OwnedOp Literal)} (hops : ∀ op ∈ ops, op.Sided) :
    ∃ trace : List (Answer × Deque Element),
      Session.workOn (Meaning.upTo depth) name ops s = trace.map (fun (answer, left) => (answer, some left)) ∧
      Session.workOn (Meaning.upTo depth) other (Session.mirroredAlong (Meaning.upTo depth) name ops s) s' =
        trace.map fun (answer, left) => (answer, some left.reverse) := by
  induction ops generalizing d s s' with
  | nil => exact ⟨[], rfl, rfl⟩
  | cons op ops ih =>
    obtain ⟨outcome, after, t, t', hstep, hstep', ht⟩ := h.cleared.perform depth (hops op List.mem_cons_self)
    obtain ⟨trace, hrun, hrun'⟩ := ih ht fun op ho => hops op (List.mem_cons_of_mem _ ho)
    have hlength : ((s.ownedDeque? name).map Deque.length).getD 0 = d.items.length := by
      rw [h.deque]
      rfl
    cases outcome with
    | error cause =>
      refine ⟨(.interrupted cause, after) :: trace, ?_, ?_⟩
      · simp only [Session.workOn, Session.performAndReport, hstep, ht.deque, hrun, List.map_cons]
      · simp only [Session.workOn, Session.mirroredAlong, Session.performAndReport, hlength, hstep, hstep', ht.reversed,
          hrun', List.map_cons]
    | ok answer =>
      refine ⟨(answer, after) :: trace, ?_, ?_⟩
      · simp only [Session.workOn, Session.performAndReport, hstep, ht.deque, hrun, List.map_cons]
      · simp only [Session.workOn, Session.mirroredAlong, Session.performAndReport, hlength, hstep, hstep', ht.reversed,
          hrun', List.map_cons]

/-- A full deque, and a copy of it turned around. -/
def Session.withReverse : Session :=
  endOf (Meaning.upTo 1)
    [.createOwned "d" (.items [.int 1, .int 2, .int 3] (some 3)), .owned "d" (.copy (some "e")),
      .owned "e" (.edit .reverse)]
    (start [] none)

/-- An insertion that is refused, a push that evicts, a removal, and an assignment past the end. -/
def OwnedOp.someSided : List (OwnedOp Literal) :=
  [.edit (.insert 7 (.int 9)), .edit (.pushBack (.int 4)), .removeAt 0, .assign 5 (.int 8)]

theorem runs_mirrored_refused :
    Session.workOn (Meaning.upTo 1) "d" OwnedOp.someSided .withReverse =
        [(.refused (.full 3), some ⟨[.int 1, .int 2, .int 3], some 3⟩),
          (.element (some (.int 1)), some ⟨[.int 2, .int 3, .int 4], some 3⟩),
          (.element (some (.int 2)), some ⟨[.int 3, .int 4], some 3⟩),
          (.interrupted (.panic .outOfBounds), some ⟨[.int 3, .int 4], some 3⟩)] ∧
      Session.workOn (Meaning.upTo 1) "e"
          [.edit (.insert 0 (.int 9)), .edit (.pushFront (.int 4)), .removeAt 2, .assign 5 (.int 8)] .withReverse =
        [(.refused (.full 3), some ⟨[.int 3, .int 2, .int 1], some 3⟩),
          (.element (some (.int 1)), some ⟨[.int 4, .int 3, .int 2], some 3⟩),
          (.element (some (.int 2)), some ⟨[.int 4, .int 3], some 3⟩),
          (.interrupted (.panic .outOfBounds), some ⟨[.int 4, .int 3], some 3⟩)] := by
  have hmirrors : Session.Mirrors "d" "e" ⟨[.int 1, .int 2, .int 3], some 3⟩ .withReverse .withReverse :=
    ⟨by rfl, by rfl, rfl⟩
  have hsided : ∀ op ∈ OwnedOp.someSided, op.Sided := by
    intro op hop
    simp only [OwnedOp.someSided, List.mem_cons, List.not_mem_nil, or_false] at hop
    rcases hop with rfl | rfl | rfl | rfl <;> constructor
  have hmirrored : Session.mirroredAlong (Meaning.upTo 1) "d" OwnedOp.someSided .withReverse =
      [.edit (.insert 0 (.int 9)), .edit (.pushFront (.int 4)), .removeAt 2, .assign 5 (.int 8)] := by rfl
  have hcourse : Session.workOn (Meaning.upTo 1) "d" OwnedOp.someSided .withReverse =
      [(.refused (.full 3), some ⟨[.int 1, .int 2, .int 3], some 3⟩),
        (.element (some (.int 1)), some ⟨[.int 2, .int 3, .int 4], some 3⟩),
        (.element (some (.int 2)), some ⟨[.int 3, .int 4], some 3⟩),
        (.interrupted (.panic .outOfBounds), some ⟨[.int 3, .int 4], some 3⟩)] := by rfl
  obtain ⟨trace, hrun, hrun'⟩ := runs_mirrored 1 hmirrors hsided
  rw [hmirrored] at hrun'
  have hreversed : trace.map (fun (answer, left) => (answer, some left.reverse)) =
      (trace.map fun (answer, left) => (answer, some left)).map fun (answer, left) =>
        (answer, left.map Deque.reverse) := by
    rw [List.map_map]
    rfl
  rw [hreversed, ← hrun, hcourse] at hrun'
  exact ⟨hcourse, hrun'⟩

end EvictingDeque
