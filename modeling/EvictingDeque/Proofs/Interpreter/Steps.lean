import EvictingDeque.Proofs.Interpreter.Relation

set_option autoImplicit false

/-!
# The relation between steps

Searches, operations and whole steps of two related meanings are related. `Step.IsSingular` are the steps that
need more than a relation kept by sequencing.
-/
namespace EvictingDeque

open Action

namespace ActionRel.Sequential

variable {Φ : ActionRel} (h : Φ.Sequential)
include h

/-! The elements of a step -/

theorem resolve (literal : Literal) : Φ _ (resolve literal) (resolve literal) := h.required _

theorem resolveEdit (change : Edit Literal) : Φ _ (change.mapM Action.resolve) (change.mapM Action.resolve) := by
  cases change with
  | pushBack value => exact h.bind (h.resolve value) fun _ => h.pure _
  | pushFront value => exact h.bind (h.resolve value) fun _ => h.pure _
  | extendBack values => exact h.bind (h.mapM h.resolve values) fun _ => h.pure _
  | extendFront values => exact h.bind (h.mapM h.resolve values) fun _ => h.pure _
  | insert position value => exact h.bind (h.resolve value) fun _ => h.pure _
  | _ => exact h.pure _

theorem resolveEndOp (op : EndOp Literal) : Φ _ (op.mapM Action.resolve) (op.mapM Action.resolve) := by
  cases op with
  | pushBack value => exact h.bind (h.resolve value) fun _ => h.pure _
  | pushFront value => exact h.bind (h.resolve value) fun _ => h.pure _
  | extendBack values => exact h.bind (h.mapM h.resolve values) fun _ => h.pure _
  | extendFront values => exact h.bind (h.mapM h.resolve values) fun _ => h.pure _
  | _ => exact h.pure _

theorem resolveQuery (query : Query Literal) : Φ _ (query.mapM Action.resolve) (query.mapM Action.resolve) := by
  cases query with
  | count value => exact h.bind (h.resolve value) fun _ => h.pure _
  | contains value => exact h.bind (h.resolve value) fun _ => h.pure _
  | index value => exact h.bind (h.resolve value) fun _ => h.pure _
  | _ => exact h.pure _

theorem resolveOwnedOp (op : OwnedOp Literal) : Φ _ (op.mapM Action.resolve) (op.mapM Action.resolve) := by
  cases op with
  | edit change => exact h.bind (h.resolveEdit change) fun _ => h.pure _
  | ends op => exact h.bind (h.resolveEndOp op) fun _ => h.pure _
  | ask query => exact h.bind (h.resolveQuery query) fun _ => h.pure _
  | indexWithin value span => exact h.bind (h.resolve value) fun _ => h.pure _
  | remove value => exact h.bind (h.resolve value) fun _ => h.pure _
  | replace position value => exact h.bind (h.resolve value) fun _ => h.pure _
  | assign position value => exact h.bind (h.resolve value) fun _ => h.pure _
  | _ => exact h.pure _

theorem resolveSharedOp (op : SharedOp Literal) : Φ _ (op.mapM Action.resolve) (op.mapM Action.resolve) := by
  cases op with
  | edit change => exact h.bind (h.resolveEdit change) fun _ => h.pure _
  | ends op => exact h.bind (h.resolveEndOp op) fun _ => h.pure _
  | ask query => exact h.bind (h.resolveQuery query) fun _ => h.pure _
  | remove value => exact h.bind (h.resolve value) fun _ => h.pure _
  | _ => exact h.pure _

/-- Replacing names by what they stand for makes no cursor out of anything else. -/
theorem bindSharedOp {β : Type} {f g : SharedOp Element → Action β} {op : SharedOp Literal}
    (hop : ∀ cursor, op ≠ .visit cursor)
    (hf : ∀ resolved : SharedOp Element, (∀ cursor, resolved ≠ .visit cursor) → Φ β (f resolved) (g resolved)) :
    Φ β (op.mapM Action.resolve >>= f) (op.mapM Action.resolve >>= g) := by
  cases op with
  | edit change =>
    simp only [SharedOp.mapM, bind_assoc, pure_bind]
    exact h.bind (h.resolveEdit change) fun _ => hf _ nofun
  | ends op =>
    simp only [SharedOp.mapM, bind_assoc, pure_bind]
    exact h.bind (h.resolveEndOp op) fun _ => hf _ nofun
  | ask query =>
    simp only [SharedOp.mapM, bind_assoc, pure_bind]
    exact h.bind (h.resolveQuery query) fun _ => hf _ nofun
  | remove value =>
    simp only [SharedOp.mapM, bind_assoc, pure_bind]
    exact h.bind (h.resolve value) fun _ => hf _ nofun
  | visit cursor => exact absurd rfl (hop cursor)
  | _ => exact hf _ nofun

theorem build (source : Source Literal) : Φ _ source.build source.build := by
  cases source with
  | empty bound => exact h.pure _
  | settings chosen =>
    dsimp only [Source.build]
    cases chosen.build? with
    | none => exact h.interrupt nofun
    | some d => exact h.pure _
  | items values bound => exact h.bind (h.mapM h.resolve values) fun _ => h.pure _
  | document kind stored => exact h.pure _
  | register name => exact h.bind (h.ownedRegister name) fun _ => h.pure _

end ActionRel.Sequential

/-- Whatever only reads leaves the session as it is. -/
theorem ActionRel.unchanged_sequential : ActionRel.Sequential fun _ action _ => ∀ s, (action s).2 = s where
  pure _ _ := rfl
  bind {α β a b f g} h hf s := by
    have hs := h s
    rcases ha : a s with ⟨cause | value, t⟩ <;> rw [ha] at hs
    · rw [bind_error ha]
      exact hs
    · rw [bind_ok ha]
      exact (hf value t).trans hs
  interrupt _ _ := rfl
  read _ _ := rfl

/-- Where an operation puts its result, if it has one besides its answer. -/
def OwnedOp.into? {α : Type} : OwnedOp α → Option String
  | .copy into | .repeated _ into | .concat _ into => into
  | _ => none

namespace ActionRel.Reading

variable {Φ : ActionRel} (h : Φ.Reading) {m m' : Meaning}
include h

/-! Operations on a deque at hand, but for where they put their results -/

theorem orNoRoom (d : Option (Deque Element)) : Φ _ (OwnedOp.orNoRoom d) (OwnedOp.orNoRoom d) := by
  cases d with
  | none => exact h.interrupt nofun
  | some d => exact h.pure d

theorem runOwnedOp (hw : ∀ element, Φ String (m.write element) (m'.write element))
    (he : ∀ a b, Φ Bool (m.equal a b) (m'.equal a b)) (d : Deque Element) {op : OwnedOp Element}
    (hk : ∀ e, Φ Unit (OwnedOp.keep op.into? e) (OwnedOp.keep op.into? e)) :
    Φ (Answer × Deque Element) (op.run m d) (op.run m' d) := by
  cases op with
  | ask query => exact h.bind (h.runQuery (h.pure d) (h.locateIn he d.items) query) fun _ => h.pure _
  | slot position =>
    dsimp only [OwnedOp.run]
    split
    · exact h.interrupt nofun
    · exact h.pure _
  | indexWithin value span => exact h.bind (h.locateIn he _ value true) fun _ => h.pure _
  | written => exact h.bind (h.writeItems hw d) fun _ => h.pure _
  | remove value =>
    refine h.bind (h.locateIn he d.items value true) fun located => ?_
    split
    · exact h.pure _
    · split <;> exact h.pure _
  | removeAt position =>
    dsimp only [OwnedOp.run]
    split <;> exact h.pure _
  | replace position value =>
    dsimp only [OwnedOp.run]
    split <;> exact h.pure _
  | assign position value =>
    dsimp only [OwnedOp.run]
    split
    · exact h.interrupt nofun
    · exact h.pure _
  | repeatInPlace times => exact h.bind (h.orNoRoom _) fun _ => h.pure _
  | concatInPlace other => exact h.bind (h.ownedRegister other) fun _ => h.pure _
  | copy into => exact h.bind (hk d) fun _ => h.pure _
  | repeated times into =>
    exact h.bind (h.orNoRoom _) fun result => h.bind (hk result) fun _ => h.pure _
  | concat other into =>
    exact h.bind (h.ownedRegister other) fun e => h.bind (hk (d.concat e)) fun _ => h.pure _
  | compareWith other =>
    refine h.bind (h.ownedRegister other) fun e => ?_
    have hsame := h.pinning e.owners (h.equalItems he d.items e.items)
    exact h.bind hsame fun _ => h.bind hsame fun _ => h.pure _
  | rankWith other =>
    refine h.bind (h.ownedRegister other) fun e => ?_
    cases OwnedOp.rank d e with
    | none => exact h.interrupt nofun
    | some answer => exact h.pure _
  | hashAgreesWith other => exact h.bind (h.ownedRegister other) fun _ => h.pure _
  | _ => exact h.pure _

/-! The ends of a shared deque -/

theorem pushes {push : Element → Action (Option Element)} (hp : ∀ value, Φ _ (push value) (push value))
    {extend : List Element → Action Unit} (hnil : extend [] = Pure.pure ())
    (hcons : ∀ value values, extend (value :: values) = (do let _ ← push value; extend values))
    (values : List Element) : Φ Unit (extend values) (extend values) := by
  induction values with
  | nil =>
    rw [hnil]
    exact h.pure ()
  | cons value values ih =>
    rw [hcons]
    exact h.bind (hp value) fun _ => ih

theorem extent {ends : DoubleEnded Action Element} (hl : Φ _ ends.length ends.length)
    (hb : Φ _ ends.bound ends.bound) : Φ _ ends.extent ends.extent := by
  refine h.bind hl fun _ => h.bind hb fun _ => h.bind (h.bind hl fun _ => h.pure _) fun _ => ?_
  refine h.bind (h.bind hb fun bound => ?_) fun _ => h.pure _
  cases bound with
  | none => exact h.pure _
  | some bound => exact h.bind hl fun _ => h.pure _

theorem runEnds {id : Nat} {op : EndOp Element} (he : op.changes = true → ∀ change : Edit Element,
      Φ _ (changeCell id fun cell => cell.edit change) (changeCell id fun cell => cell.edit change)) :
    Φ _ ((sharedEnds id).run op) ((sharedEnds id).run op) := by
  have hedit (hc : op.changes = true) (change : Edit Element) : Φ (Option Element)
      (do let outcome ← changeCell id fun cell => cell.edit change; return outcome.toOption.join)
      (do let outcome ← changeCell id fun cell => cell.edit change; return outcome.toOption.join) :=
    h.bind (he hc change) fun _ => h.pure _
  cases op with
  | extent =>
    refine h.bind (h.extent ?_ ?_) fun _ => h.pure _
    · exact h.bind (h.readCell id) fun _ => h.pure _
    · exact h.bind (h.readCell id) fun _ => h.pure _
  | pushBack value => exact h.bind (hedit rfl (.pushBack value)) fun _ => h.pure _
  | pushFront value => exact h.bind (hedit rfl (.pushFront value)) fun _ => h.pure _
  | popBack => exact h.bind (hedit rfl .popBack) fun _ => h.pure _
  | popFront => exact h.bind (hedit rfl .popFront) fun _ => h.pure _
  | extendBack values =>
    exact h.bind (h.pushes (fun value => hedit rfl (.pushBack value)) rfl (fun _ _ => rfl) values) fun _ => h.pure _
  | extendFront values =>
    exact h.bind (h.pushes (fun value => hedit rfl (.pushFront value)) rfl (fun _ _ => rfl) values) fun _ => h.pure _

end ActionRel.Reading

namespace ActionRel.Compositional

variable {Φ : ActionRel} (h : Φ.Compositional) {m m' : Meaning}
include h

/-! Operations -/

theorem setOwned (name : String) (d : Deque Element) : Φ _ (setOwned name d) (setOwned name d) :=
  h.beside (fun _ => ⟨rfl, rfl, rfl, rfl⟩) fun _ => ⟨rfl, rfl⟩

theorem setShared (name : String) (id : Nat) : Φ _ (setShared name id) (setShared name id) :=
  h.beside (fun _ => ⟨rfl, rfl, rfl, rfl⟩) fun _ => ⟨rfl, rfl⟩

theorem keep (into : Option String) (d : Deque Element) : Φ _ (OwnedOp.keep into d) (OwnedOp.keep into d) := by
  cases into with
  | none => exact h.pure ()
  | some name => exact h.setOwned name d

theorem runOwnedOp (hm : m.Related Φ m') (d : Deque Element) (op : OwnedOp Element) :
    Φ (Answer × Deque Element) (op.run m d) (op.run m' d) :=
  h.toReading.runOwnedOp hm.write hm.equal d fun e => h.keep _ e

theorem runSharedOp (hm : m.Related Φ m') (id : Nat) (op : SharedOp Element) (hop : ∀ cursor, op ≠ .visit cursor) :
    Φ Answer (op.run m id) (op.run m' id) := by
  cases op with
  | edit change => exact h.bind (h.edit id change) fun _ => h.pure _
  | ends op => exact h.bind (h.runEnds fun _ => h.edit id) fun _ => h.pure _
  | ask query =>
    exact h.runQuery (h.bind (h.readCell id) fun _ => h.pure _) (h.locateShared hm.equal id) query
  | remove value =>
    refine h.bind (h.locateShared hm.equal id value true) fun located => ?_
    split
    · exact h.pure _
    · exact h.bind (h.removeAt id _) fun _ => h.pure _
  | extent => exact h.bind (h.readCell id) fun _ => h.pure _
  | written => exact h.bind (h.writing hm.write id) fun _ => h.pure _
  | share into => exact h.bind (h.setShared into id) fun _ => h.pure _
  | copy into =>
    refine h.bind (h.readCell id) fun cell => h.bind (h.newCell _) fun copy => ?_
    exact h.bind (h.equalCells hm.equal copy id) fun _ => h.bind (h.setShared into copy) fun _ => h.pure _
  | downgrade into => exact h.bind (h.beside (fun _ => ⟨rfl, rfl, rfl, rfl⟩) fun _ => ⟨rfl, rfl⟩) fun _ => h.pure _
  | samePlace other => exact h.bind (h.sharedRegister other) fun _ => h.pure _
  | equal other =>
    exact h.bind (h.sharedRegister other) fun b => h.bind (h.equalCells hm.equal id b) fun _ => h.pure _
  | visit cursor => exact absurd rfl (hop cursor)
  | extendFrom cursor => exact h.bind (h.drain cursor) fun _ => h.bind (h.edit id _) fun _ => h.pure _

/-! Steps -/

theorem runOwned (hm : m.Related Φ m') (name : String) (op : OwnedOp Literal) :
    Φ Answer (m.runOwned name op) (m'.runOwned name op) := by
  unfold Meaning.runOwned
  refine h.bind (h.resolveOwnedOp op) fun resolved => h.bind (h.ownedRegister name) fun d => ?_
  have hrun := h.pinning d.owners (h.runOwnedOp hm d resolved)
  cases op.changes with
  | false => exact h.bind hrun fun _ => h.pure _
  | true =>
    refine h.bind (h.recovering (fun _ => ⟨rfl, rfl, rfl, rfl⟩) (fun _ => ⟨rfl, rfl⟩) hrun) fun _ => ?_
    exact h.bind (h.setOwned name _) fun _ => h.pure _

/-- Only an operation that changes its deque, in a body that may, does more than the others. -/
theorem runHeld (hm : m.Related Φ m') (id : Nat) {exclusive : Bool} {op : OwnedOp Literal}
    (hc : exclusive = true → op.changes = false) :
    Φ Answer (m.runHeld id exclusive op) (m'.runHeld id exclusive op) := by
  unfold Meaning.runHeld
  cases ho : op.changes with
  | false =>
    refine h.bind (h.resolveOwnedOp op) fun resolved => h.bind (h.read _) fun d => ?_
    exact h.bind (h.runOwnedOp hm d resolved) fun _ => h.pure _
  | true =>
    cases exclusive with
    | false => exact h.interrupt nofun
    | true => exact absurd ((hc rfl).symm.trans ho) (by decide)

theorem runBody (hm : m.Related Φ m') (id : Nat) {exclusive : Bool}
    (hheld : exclusive = true → ∀ op : OwnedOp Literal, op.changes = true →
      Φ Answer (m.runHeld id true op) (m'.runHeld id true op)) (body : List (OwnedOp Literal ⊕ Step)) :
    Φ (List Answer) (m.runBody id exclusive body) (m'.runBody id exclusive body) := by
  have hop (op : OwnedOp Literal) : Φ Answer (m.runHeld id exclusive op) (m'.runHeld id exclusive op) := by
    by_cases hc : exclusive = true ∧ op.changes = true
    · obtain ⟨rfl, ho⟩ := hc
      exact hheld rfl op ho
    · exact h.runHeld hm id fun he => Bool.eq_false_iff.2 fun ho => hc ⟨he, ho⟩
  induction body with
  | nil => exact h.pure []
  | cons entry body ih =>
    cases entry with
    | inl op => exact h.bind (hop op) fun _ => h.bind ih fun _ => h.pure _
    | inr step => exact h.bind (hm.perform step) fun _ => h.bind ih fun _ => h.pure _

end ActionRel.Compositional

/-- Holding a deque, making or dropping a cursor, and coming to the warning switch. -/
inductive Step.IsSingular : Step → Prop
  | hold (name : String) (exclusive : Bool) (body : List (OwnedOp Literal ⊕ Step)) :
      IsSingular (.hold name exclusive body)
  | visit (name cursor : String) : IsSingular (.shared name (.visit cursor))
  | drop (name cursor : String) : IsSingular (.cursor name cursor .drop)
  | chooseWarnings (on : Bool) : IsSingular (.chooseWarnings on)
  | askWarnings : IsSingular .askWarnings
  | warn (message : String) : IsSingular (.warn message)

theorem ActionRel.Compositional.performStep {Φ : ActionRel} (h : Φ.Compositional) {m m' : Meaning}
    (hm : m.Related Φ m') {step : Step} (hs : ¬ step.IsSingular) :
    Φ Answer (m.performStep step) (m'.performStep step) := by
  cases step with
  | panic message => exact h.interrupt nofun
  | chooseWarnings on => exact absurd (.chooseWarnings on) hs
  | askWarnings => exact absurd .askWarnings hs
  | warn message => exact absurd (.warn message) hs
  | createOwned name source =>
    refine h.bind (h.build source) fun built => ?_
    cases built with
    | none => exact h.pure _
    | some d => exact h.bind (h.setOwned name d) fun _ => h.pure _
  | owned name op => exact h.runOwned hm name op
  | createShared name source =>
    refine h.bind (h.build source) fun built => ?_
    cases built with
    | none => exact h.pure _
    | some d => exact h.bind (h.newCell d) fun id => h.bind (h.setShared name id) fun _ => h.pure _
  | shared name op =>
    refine h.bindSharedOp (fun cursor ho => hs (ho ▸ .visit name cursor)) fun resolved hr => ?_
    exact h.bind (h.sharedRegister name) fun id => h.runSharedOp hm id resolved hr
  | hold name exclusive body => exact absurd (.hold name exclusive body) hs
  | drop name =>
    refine h.bind (h.read _) fun _ => ?_
    exact h.bind (h.beside (fun _ => ⟨rfl, rfl, rfl, rfl⟩) fun _ => ⟨rfl, rfl⟩) fun _ => h.pure _
  | upgrade name weak =>
    refine h.bind (h.required _) fun id => h.bind (h.read _) fun alive => ?_
    cases alive with
    | false => exact h.pure _
    | true => exact h.bind (h.setShared name id) fun _ => h.pure _
  | cursor name cursor op =>
    cases op with
    | next =>
      refine h.bind (h.advance cursor) fun visited => ?_
      cases visited <;> exact h.pure _
    | collect =>
      refine h.bind (h.drain cursor) fun visits => ?_
      split <;> exact h.pure _
    | drop => exact absurd (.drop name cursor) hs

end EvictingDeque
