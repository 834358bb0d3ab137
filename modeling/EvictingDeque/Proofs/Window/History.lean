import EvictingDeque.Proofs.Plain.Steps
import EvictingDeque.Proofs.Window.Trailing

set_option autoImplicit false

/-!
# A bounded deque as a window on its history

A deque that grows at its back holds the trailing part of everything that was ever put there, as an unbounded sequence
would have it, whatever has been evicted meanwhile. One that grows at its front holds the leading part. The evicted
elements and the stored ones together are what was stored before and what was pushed.
-/
namespace EvictingDeque

open Action

/-- What a deque at hand can be told to do at its back; emptying it starts the history anew. -/
inductive BackStep (α : Type) where
  | push (value : α)
  | extend (values : List α)
  | concat (other : Deque α)
  | repeat (times : Nat)
  | clear

inductive FrontStep (α : Type) where
  | push (value : α)
  | extend (values : List α)
  | clear

namespace BackStep

variable {α : Type}

/-- Nothing where there is no room for a repetition. -/
def apply : BackStep α → Deque α → Option (Deque α)
  | .push value, d => some (d.pushBack value).2
  | .extend values, d => some (d.extendBack values)
  | .concat other, d => some (d.concat other)
  | .repeat times, d => d.repeated? times
  | .clear, d => some d.clear

def applyAll : List (BackStep α) → Deque α → Option (Deque α)
  | [], d => some d
  | step :: steps, d => (step.apply d).bind (applyAll steps)

/-- The step as it acts on a sequence from which nothing is ever evicted. -/
def record : BackStep α → List α → List α
  | .push value, history => history ++ [value]
  | .extend values, history => history ++ values
  | .concat other, history => history ++ other.items
  | .repeat times, history => Deque.copies times history
  | .clear, _ => []

def recordAll (steps : List (BackStep α)) (history : List α) : List α :=
  steps.foldl (fun history step => step.record history) history

/-- Of a repetition, what the bound keeps can be stored. -/
def HasRoom (bound : Option Nat) (history : List α) : BackStep α → Prop
  | .repeat times => (Deque.window bound (Deque.copies times history)).length ≤ slotLimit
  | _ => True

def HaveRoom (bound : Option Nat) : List α → List (BackStep α) → Prop
  | _, [] => True
  | history, step :: steps => step.HasRoom bound history ∧ HaveRoom bound (step.record history) steps

theorem apply_ofList (step : BackStep α) (history : List α) (bound : Option Nat) :
    step.HasRoom bound history ∧
        step.apply (Deque.ofList history bound) = some (Deque.ofList (step.record history) bound) ∨
      ¬ step.HasRoom bound history ∧ step.apply (Deque.ofList history bound) = none := by
  cases step with
  | push value => exact .inl ⟨trivial, congrArg some (Deque.pushBack_ofList history value bound)⟩
  | extend values => exact .inl ⟨trivial, congrArg some (Deque.extendBack_ofList history values bound)⟩
  | concat other => exact .inl ⟨trivial, congrArg some (Deque.extendBack_ofList history other.items bound)⟩
  | «repeat» times =>
    have hrepeated := Deque.repeated?_ofList history times bound
    by_cases hroom : (Deque.window bound (Deque.copies times history)).length ≤ slotLimit
    · exact .inl ⟨hroom, hrepeated.trans (if_pos hroom)⟩
    · exact .inr ⟨hroom, hrepeated.trans (if_neg hroom)⟩
  | clear =>
    have hempty : Deque.ofList ([] : List α) bound = Deque.empty bound := Deque.extendBack_nil _
    exact .inl ⟨trivial, congrArg some hempty.symm⟩

theorem applyAll_ofList (steps : List (BackStep α)) (history : List α) (bound : Option Nat) :
    HaveRoom bound history steps ∧
        applyAll steps (Deque.ofList history bound) = some (Deque.ofList (recordAll steps history) bound) ∨
      ¬ HaveRoom bound history steps ∧ applyAll steps (Deque.ofList history bound) = none := by
  induction steps generalizing history with
  | nil => exact .inl ⟨trivial, rfl⟩
  | cons step steps ih =>
    simp only [applyAll]
    rcases apply_ofList step history bound with ⟨hroom, hstep⟩ | ⟨hroom, hstep⟩
    · rw [hstep]
      rcases ih (step.record history) with ⟨hrest, hsteps⟩ | ⟨hrest, hsteps⟩
      · exact .inl ⟨⟨hroom, hrest⟩, hsteps⟩
      · exact .inr ⟨fun h => hrest h.2, hsteps⟩
    · rw [hstep]
      exact .inr ⟨fun h => hroom h.1, rfl⟩

theorem HaveRoom.of_append {bound : Option Nat} {history : List α} {done rest : List (BackStep α)}
    (h : HaveRoom bound history (done ++ rest)) : HaveRoom bound history done := by
  induction done generalizing history with
  | nil => trivial
  | cons step done ih => exact ⟨h.1, ih h.2⟩

/-- A bound that itself can be stored leaves room for everything. -/
theorem haveRoom_of_bound_le {bound : Nat} (hb : bound ≤ slotLimit) (history : List α) (steps : List (BackStep α)) :
    HaveRoom (some bound) history steps := by
  induction steps generalizing history with
  | nil => trivial
  | cons step steps ih =>
    refine ⟨?_, ih _⟩
    cases step with
    | «repeat» times =>
      have hlength := Deque.length_window bound (Deque.copies times history)
      change (Deque.window (some bound) (Deque.copies times history)).length ≤ slotLimit
      omega
    | _ => trivial

end BackStep

namespace FrontStep

variable {α : Type}

def apply : FrontStep α → Deque α → Deque α
  | .push value, d => (d.pushFront value).2
  | .extend values, d => d.extendFront values
  | .clear, d => d.clear

def applyAll (steps : List (FrontStep α)) (d : Deque α) : Deque α := steps.foldl (fun d step => step.apply d) d

def record : FrontStep α → List α → List α
  | .push value, history => value :: history
  | .extend values, history => values.reverse ++ history
  | .clear, _ => []

def recordAll (steps : List (FrontStep α)) (history : List α) : List α :=
  steps.foldl (fun history step => step.record history) history

/-- Pushes at the front of a leading part leave the leading part of what they make of the whole. -/
theorem extendFront_leading (bound : Nat) (history values : List α) :
    (⟨history.take bound, some bound⟩ : Deque α).extendFront values =
      ⟨(values.reverse ++ history).take bound, some bound⟩ := by
  have hlength : (history.take bound).length = min bound history.length := List.length_take
  simp only [Deque.extendFront, Deque.evictions, List.length_append, List.length_reverse, hlength, List.take_append,
    List.take_take, Deque.mk.injEq, and_true]
  congr 1
  · rw [List.take_eq_take_iff, List.length_reverse]
    omega
  · rw [List.take_eq_take_iff]
    omega

theorem apply_leading (step : FrontStep α) (history : List α) (bound : Nat) :
    step.apply ⟨history.take bound, some bound⟩ = ⟨(step.record history).take bound, some bound⟩ := by
  cases step with
  | push value =>
    have hpush := extendFront_leading bound history [value]
    rwa [Deque.extendFront_cons, Deque.extendFront_nil] at hpush
  | extend values => exact extendFront_leading bound history values
  | clear => simp [apply, record, Deque.clear]

theorem applyAll_leading (steps : List (FrontStep α)) (history : List α) (bound : Nat) :
    applyAll steps ⟨history.take bound, some bound⟩ = ⟨(recordAll steps history).take bound, some bound⟩ := by
  induction steps generalizing history with
  | nil => rfl
  | cons step steps ih =>
    simp only [applyAll, recordAll, List.foldl_cons]
    rw [apply_leading]
    exact ih _

end FrontStep

namespace Deque

variable {α : Type}

/-- What a push evicts was the first element, and what it leaves are the others. -/
theorem evicted_pushBack (d : Deque α) (value : α) :
    (d.pushBack value).1.toList ++ (d.pushBack value).2.items = d.items ++ [value] := by
  unfold pushBack
  dsimp only
  split
  · rcases d with ⟨_ | ⟨first, items⟩, bound⟩ <;> rfl
  · rfl

theorem evicted_pushFront (d : Deque α) (value : α) :
    (d.pushFront value).2.items ++ (d.pushFront value).1.toList = value :: d.items := by
  unfold pushFront
  dsimp only
  split
  · obtain ⟨items, last, hitems⟩ : ∃ items last, value :: d.items = items ++ [last] :=
      ⟨_, _, (List.dropLast_append_getLast (List.cons_ne_nil value d.items)).symm⟩
    simp [popBack, hitems]
  · simp

theorem filterMap_id_cons (found : Option α) (rest : List (Option α)) :
    (found :: rest).filterMap id = found.toList ++ rest.filterMap id := by
  cases found <;> rfl

/-- The answers of one push after the other, followed by what is stored then. -/
theorem evicted_mapM_pushBack (d : Deque α) (values : List α) :
    ((values.mapM ends.pushBack).run d).1.filterMap id ++ ((values.mapM ends.pushBack).run d).2.items =
      d.items ++ values := by
  induction values generalizing d with
  | nil => exact (List.append_nil d.items).symm
  | cons value values ih =>
    have hpush := evicted_pushBack d value
    have hrest := ih (d.pushBack value).2
    rw [List.mapM_cons]
    change (((d.pushBack value).1 :: ((values.mapM ends.pushBack).run (d.pushBack value).2).1).filterMap id) ++
      ((values.mapM ends.pushBack).run (d.pushBack value).2).2.items = _
    rw [filterMap_id_cons, List.append_assoc, hrest, ← List.append_assoc, hpush, List.append_assoc]
    rfl

theorem evicted_mapM_pushFront (d : Deque α) (values : List α) :
    ((values.mapM ends.pushFront).run d).2.items ++ (((values.mapM ends.pushFront).run d).1.filterMap id).reverse =
      values.reverse ++ d.items := by
  induction values generalizing d with
  | nil => exact List.append_nil d.items
  | cons value values ih =>
    have hpush := evicted_pushFront d value
    have hrest := ih (d.pushFront value).2
    have hreverse : (d.pushFront value).1.toList.reverse = (d.pushFront value).1.toList := by
      cases (d.pushFront value).1 <;> rfl
    rw [List.mapM_cons]
    change ((values.mapM ends.pushFront).run (d.pushFront value).2).2.items ++
      (((d.pushFront value).1 :: ((values.mapM ends.pushFront).run (d.pushFront value).2).1).filterMap id).reverse = _
    rw [filterMap_id_cons, List.reverse_append, hreverse, ← List.append_assoc, hrest, List.append_assoc, hpush,
      List.reverse_cons, List.append_assoc]
    rfl

/-- One push after the other leaves what an extension leaves. -/
theorem run_mapM_pushBack (d : Deque α) (values : List α) :
    ((values.mapM ends.pushBack).run d).2 = d.extendBack values := by
  induction values generalizing d with
  | nil => exact (extendBack_nil d).symm
  | cons value values ih =>
    rw [List.mapM_cons, extendBack_cons]
    exact ih (d.pushBack value).2

theorem run_mapM_pushFront (d : Deque α) (values : List α) :
    ((values.mapM ends.pushFront).run d).2 = d.extendFront values := by
  induction values generalizing d with
  | nil => exact (extendFront_nil d).symm
  | cons value values ih =>
    rw [List.mapM_cons, extendFront_cons]
    exact ih (d.pushFront value).2

theorem extendFront_append (d : Deque α) (xs ys : List α) :
    d.extendFront (xs ++ ys) = (d.extendFront xs).extendFront ys := by
  induction xs generalizing d with
  | nil => simp
  | cons x xs ih => simp [ih]

/-- Into which batches the values are split makes no difference. -/
theorem extendBack_flatten (d : Deque α) (batches : List (List α)) :
    batches.foldl extendBack d = d.extendBack batches.flatten := by
  induction batches generalizing d with
  | nil => simp
  | cons batch batches ih => rw [List.foldl_cons, ih, List.flatten_cons, extendBack_append]

theorem extendFront_flatten (d : Deque α) (batches : List (List α)) :
    batches.foldl extendFront d = d.extendFront batches.flatten := by
  induction batches generalizing d with
  | nil => simp
  | cons batch batches ih => rw [List.foldl_cons, ih, List.flatten_cons, extendFront_append]

end Deque

/-! The same steps asked of a register -/

/-- The operations of a session that come to a step at the back. -/
inductive OwnedOp.AtBack (s : Session) : OwnedOp Element → BackStep Element → Prop
  | push (value : Element) : AtBack s (.edit (.pushBack value)) (.push value)
  | pushEnd (value : Element) : AtBack s (.ends (.pushBack value)) (.push value)
  | extend (values : List Element) : AtBack s (.edit (.extendBack values)) (.extend values)
  | extendEnd (values : List Element) : AtBack s (.ends (.extendBack values)) (.extend values)
  | concat {other : String} {e : Deque Element} (found : s.ownedDeque? other = some e) :
    AtBack s (.concatInPlace other) (.concat e)
  | repeat (times : Nat) : AtBack s (.repeatInPlace times) (.repeat times)
  | clear : AtBack s (.edit .clear) .clear

inductive OwnedOp.AtFront : OwnedOp Element → FrontStep Element → Prop
  | push (value : Element) : AtFront (.edit (.pushFront value)) (.push value)
  | pushEnd (value : Element) : AtFront (.ends (.pushFront value)) (.push value)
  | extend (values : List Element) : AtFront (.edit (.extendFront values)) (.extend values)
  | extendEnd (values : List Element) : AtFront (.ends (.extendFront values)) (.extend values)
  | clear : AtFront (.edit .clear) .clear

/-- A push answers what it evicts. -/
def BackStep.answer (d : Deque Element) : BackStep Element → Answer
  | .push value => .element (d.pushBack value).1
  | _ => .nothing

def FrontStep.answer (d : Deque Element) : FrontStep Element → Answer
  | .push value => .element (d.pushFront value).1
  | _ => .nothing

namespace OwnedOp

variable {m : Meaning} {s t : Session} {d : Deque Element} {op : OwnedOp Element}

theorem AtBack.changes {step : BackStep Element} (h : op.AtBack s step) : op.changes = true := by cases h <;> rfl

theorem AtFront.changes {step : FrontStep Element} (h : op.AtFront step) : op.changes = true := by cases h <;> rfl

theorem AtBack.run {step : BackStep Element} (h : op.AtBack s step) (ht : t.owned = s.owned) :
    op.run m d t = (match step.apply d with
      | some e => .ok (step.answer d, e)
      | none => .error (.panic .noRoom), t) := by
  cases h with
  | push value => rfl
  | pushEnd value => rfl
  | extend values => rfl
  | extendEnd values =>
    change (Except.ok (answerEnds (Sum.inr none), ((Deque.ends.extendBack values).run d).2), t) = _
    rw [Deque.run_extendBack]
    rfl
  | @concat other e found =>
    have hfound : t.ownedDeque? other = some e := by
      simpa only [Session.ownedDeque?, ht] using found
    exact bind_ok (required_of_some hfound)
  | «repeat» times =>
    cases hr : d.repeated? times with
    | none =>
      have hnone : orNoRoom (d.repeated? times) t = (.error (.panic .noRoom), t) := by rw [hr]; rfl
      simp only [BackStep.apply, hr]
      exact bind_error hnone
    | some e =>
      have hsome : orNoRoom (d.repeated? times) t = (.ok e, t) := by rw [hr]; rfl
      simp only [BackStep.apply, hr]
      exact bind_ok hsome
  | clear => rfl

theorem AtFront.run {step : FrontStep Element} (h : op.AtFront step) :
    op.run m d t = (.ok (step.answer d, step.apply d), t) := by
  cases h with
  | extendEnd values =>
    change (Except.ok (answerEnds (Sum.inr none), ((Deque.ends.extendFront values).run d).2), t) = _
    rw [Deque.run_extendFront]
    rfl
  | _ => rfl

end OwnedOp

/-- What a register holds after a change that leaves the session alone otherwise: the result, or after an interruption
the deque that it held. -/
def Session.afterChange (s : Session) (register : String) (d : Deque Element) :
    Except Interrupt (Answer × Deque Element) → Except Interrupt Answer × Session
  | .ok (answer, e) => (.ok answer, putOwned register e s)
  | .error cause => (.error cause, putOwned register d s)

/-- A change that looks at nothing but its deque and the registers works on the deque of its register. -/
theorem Meaning.performStep_change {m : Meaning} {register : String} {o : OwnedOp Literal} {op : OwnedOp Element}
    {s : Session} {d : Deque Element} {outcome : Except Interrupt (Answer × Deque Element)}
    (hop : o.mapM resolve s = (.ok op, s)) (hc : op.changes = true) (hd : s.ownedDeque? register = some d)
    (hrun : ∀ pinned, op.run m d { s with pinned := pinned } = (outcome, { s with pinned := pinned })) :
    m.performStep (.owned register o) s = s.afterChange register d outcome := by
  have hregister : ownedRegister register s = (.ok d, s) := required_of_some hd
  have hworking : pinning d.owners (op.run m d) s = (outcome, s) := by
    unfold pinning
    rw [hrun]
  have hstart : m.performStep (.owned register o) s = _ := (bind_ok hop).trans (bind_ok hregister)
  rw [hstart, if_pos ((OwnedOp.changes_mapM hop).symm.trans hc)]
  cases outcome with
  | ok found =>
    have hdone : (pinning d.owners (op.run m d)).recovering (putOwned register d) s = (.ok found, s) := by
      unfold recovering
      rw [hworking]
    exact bind_ok hdone
  | error cause =>
    have hcut : (pinning d.owners (op.run m d)).recovering (putOwned register d) s =
        (.error cause, putOwned register d s) := by
      unfold recovering
      rw [hworking]
    exact bind_error hcut

/-- A deque bounded from the start holds, after every step at its back, the trailing part of what the same steps make of
an unbounded sequence; a step is refused only where there is no room for the repetition that would be kept, and never
under a bound that can be stored. At the front it is the leading part. What pushes evict, in order, and what is stored
afterwards are what was stored before and what was pushed, and the batches of an extension do not matter. A register of
a session goes through exactly these steps. -/
theorem window_of_history {α : Type} (bound : Nat) (start : List α) :
    Deque.ofList start (some bound) = ⟨start.rtake bound, some bound⟩ ∧
    (∀ done rest : List (BackStep α), BackStep.HaveRoom (some bound) start (done ++ rest) →
      BackStep.applyAll done (Deque.ofList start (some bound)) =
        some ⟨(BackStep.recordAll done start).rtake bound, some bound⟩) ∧
    (∀ steps : List (BackStep α), ¬ BackStep.HaveRoom (some bound) start steps →
      BackStep.applyAll steps (Deque.ofList start (some bound)) = none) ∧
    (bound ≤ slotLimit → ∀ steps : List (BackStep α), BackStep.HaveRoom (some bound) start steps) ∧
    (∀ steps : List (BackStep α), BackStep.HaveRoom none start steps →
      BackStep.applyAll steps ⟨start, none⟩ = some ⟨BackStep.recordAll steps start, none⟩) ∧
    (∀ steps : List (FrontStep α),
      FrontStep.applyAll steps ⟨start.take bound, some bound⟩ =
        ⟨(FrontStep.recordAll steps start).take bound, some bound⟩) ∧
    (∀ (d : Deque α) (values : List α),
      ((values.mapM Deque.ends.pushBack).run d).2 = d.extendBack values ∧
      ((values.mapM Deque.ends.pushBack).run d).1.filterMap id ++ (d.extendBack values).items = d.items ++ values ∧
      ((values.mapM Deque.ends.pushFront).run d).2 = d.extendFront values ∧
      (d.extendFront values).items ++ (((values.mapM Deque.ends.pushFront).run d).1.filterMap id).reverse =
        values.reverse ++ d.items) ∧
    (∀ (d : Deque α) (batches : List (List α)),
      batches.foldl Deque.extendBack d = d.extendBack batches.flatten ∧
      batches.foldl Deque.extendFront d = d.extendFront batches.flatten) ∧
    ∀ (m : Meaning) (s : Session) (register : String) (d : Deque Element) (o : OwnedOp Literal) (op : OwnedOp Element),
      s.ownedDeque? register = some d → o.mapM resolve s = (.ok op, s) →
      (∀ step : BackStep Element, op.AtBack s step →
        m.performStep (.owned register o) s =
          match step.apply d with
          | some e => (.ok (step.answer d), putOwned register e s)
          | none => (.error (.panic .noRoom), putOwned register d s)) ∧
      ∀ step : FrontStep Element, op.AtFront step →
        m.performStep (.owned register o) s = (.ok (step.answer d), putOwned register (step.apply d) s) := by
  refine ⟨Deque.ofList_eq start _, ?_, ?_, ?_, ?_, ?_, ?_, ?_, ?_⟩
  · intro done rest hroom
    rcases BackStep.applyAll_ofList done start (some bound) with ⟨_, hdone⟩ | ⟨hno, _⟩
    · rw [hdone, Deque.ofList_eq]
      rfl
    · exact absurd hroom.of_append hno
  · intro steps hno
    rcases BackStep.applyAll_ofList steps start (some bound) with ⟨hroom, _⟩ | ⟨_, hnone⟩
    · exact absurd hroom hno
    · exact hnone
  · exact fun hb steps => BackStep.haveRoom_of_bound_le hb start steps
  · intro steps hroom
    have hunbounded (values : List α) : Deque.ofList values none = ⟨values, none⟩ := Deque.ofList_eq values none
    rcases BackStep.applyAll_ofList steps start none with ⟨_, hdone⟩ | ⟨hno, _⟩
    · rwa [hunbounded, hunbounded] at hdone
    · exact absurd hroom hno
  · exact fun steps => FrontStep.applyAll_leading steps start bound
  · intro d values
    have hback := Deque.run_mapM_pushBack d values
    have hfront := Deque.run_mapM_pushFront d values
    refine ⟨hback, ?_, hfront, ?_⟩
    · rw [← hback]
      exact Deque.evicted_mapM_pushBack d values
    · rw [← hfront]
      exact Deque.evicted_mapM_pushFront d values
  · exact fun d batches => ⟨Deque.extendBack_flatten d batches, Deque.extendFront_flatten d batches⟩
  · intro m s register d o op hd hop
    constructor
    · intro step hstep
      rw [Meaning.performStep_change hop hstep.changes hd fun pinned => hstep.run rfl]
      cases step.apply d <;> rfl
    · intro step hstep
      exact Meaning.performStep_change hop hstep.changes hd fun pinned => hstep.run

/-- A repetition and a push of what a register holds: the window of the doubled history, not the doubled window alone. -/
theorem window_of_history_repeating :
    let steps : List (BackStep Nat) := [.repeat 2, .push 5]
    let stored : Deque Element := ⟨[.int 3, .int 4], some 2⟩
    let s := putOwned "d" stored (Session.start [] none)
    let push : OwnedOp Literal := .edit (.pushBack (.int 5))
    (BackStep.HaveRoom (some 3) [1, 2, 3, 4] (steps ++ []) ∧
      BackStep.applyAll steps (Deque.ofList [1, 2, 3, 4] (some 3)) = some ⟨[3, 4, 5], some 3⟩) ∧
    (¬ BackStep.HaveRoom (some (slotLimit + 1)) [1] [.repeat (slotLimit + 1)] ∧
      BackStep.applyAll [.repeat (slotLimit + 1)] (Deque.ofList [1] (some (slotLimit + 1))) = none) ∧
    (s.ownedDeque? "d" = some stored ∧ push.mapM resolve s = (.ok (.edit (.pushBack (.int 5))), s) ∧
      Meaning.tooDeep.performStep (.owned "d" push) s =
        (.ok (.element (some (.int 3))), putOwned "d" ⟨[.int 4, .int 5], some 2⟩ s)) := by
  intro steps stored s push
  obtain ⟨-, hdone, -, hroom, -⟩ := window_of_history 3 [1, 2, 3, 4]
  obtain ⟨-, -, hnone, -⟩ := window_of_history (slotLimit + 1) [1]
  obtain ⟨-, -, -, -, -, -, -, -, hsession⟩ := window_of_history 2 ([] : List Element)
  have hsteps : BackStep.HaveRoom (some 3) [1, 2, 3, 4] (steps ++ []) := hroom (by decide) _
  have hfull : ¬ BackStep.HaveRoom (some (slotLimit + 1)) [1] [.repeat (slotLimit + 1)] := by
    rintro ⟨hfits, -⟩
    change (Deque.window _ (Deque.copies _ _)).length ≤ slotLimit at hfits
    rw [Deque.length_window, Deque.length_copies, List.length_singleton] at hfits
    omega
  have hstored : s.ownedDeque? "d" = some stored := rfl
  have hresolved : push.mapM resolve s = (.ok (.edit (.pushBack (.int 5))), s) := rfl
  have hpush := (hsession Meaning.tooDeep s "d" stored push _ hstored hresolved).1 _ (.push (.int 5))
  exact ⟨⟨hsteps, hdone steps [] hsteps⟩, ⟨hfull, hnone _ hfull⟩, hstored, hresolved, hpush⟩

end EvictingDeque
