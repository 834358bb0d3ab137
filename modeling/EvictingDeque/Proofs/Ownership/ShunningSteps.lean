import EvictingDeque.Proofs.Ownership.ShunningActions

set_option autoImplicit false

/-!
# Steps shun the dead

What the names in a step stand for is held by handles, so its elements own nothing that is dead. A weak handle is
upgraded only to what is alive. From this every step at every depth shuns what was dead before it.
-/
namespace EvictingDeque

open Action

/-- The elements that an operation brings along, to be stored or to be looked for. -/
def OwnedOp.brought {α : Type} : OwnedOp α → List α
  | .edit change => change.offered
  | .ends op => op.offered
  | .ask query => query.sought
  | .indexWithin value _ | .remove value | .replace _ value | .assign _ value => [value]
  | _ => []

def SharedOp.brought {α : Type} : SharedOp α → List α
  | .edit change => change.offered
  | .ends op => op.offered
  | .ask query => query.sought
  | .remove value => [value]
  | _ => []

theorem Cell.shuns_removeAt {base : Session} {cell : Cell Element} (h : cell.deque.Shuns base) (position : Nat) :
    (cell.removeAt position).2.deque.Shuns base := by
  unfold Cell.removeAt
  split
  · exact h
  · rename_i hr
    exact h.removeAt hr

theorem Deque.shuns_ofDocument? {base : Session} {kind : Value.Kind} {document : Document} {d : Deque Element}
    (h : Deque.ofDocument? (Value.ofDocument? kind) document = some d) : d.Shuns base := by
  obtain ⟨items, bound, rfl, hread⟩ := Deque.exists_of_ofDocument? h
  refine shuns_ofList (fun value hv => ?_) bound
  obtain ⟨entry, hentry⟩ := hread value hv
  exact Value.shuns_of_references (Value.references_ofDocument? hentry)

namespace Action

variable {base : Session}

/-! Names are replaced by what handles hold -/

theorem shuns_of_resolved {s : Session} (hs : s.Shuns base) {literal : Literal} {value : Element}
    (h : literal.replace? (resolveLink s) = some value) : value.Shuns base := by
  intro id howns
  obtain ⟨target, hlink, rfl⟩ := Value.mem_owners_iff_own.1 (Value.mem_owners.2 howns)
  obtain ⟨source, hsource⟩ := Value.exists_of_replace? _ literal h _ hlink
  cases source with
  | own name =>
    obtain ⟨found, hfound, he⟩ := Option.map_eq_some_iff.1 hsource
    cases he
    exact hs.handles name found hfound
  | weak name =>
    obtain ⟨found, hfound, he⟩ := Option.map_eq_some_iff.1 hsource
    cases he
  | hook name => cases hsource

theorem shuns_resolve (literal : Literal) :
    (resolve literal).Shuns base fun value => ∀ found ∈ [value], found.Shuns base :=
  Shuns.required fun _ _ hs hv _ hf => List.mem_singleton.1 hf ▸ shuns_of_resolved hs hv

theorem shuns_resolveAll (literals : List Literal) :
    (literals.mapM resolve).Shuns base fun values => ∀ value ∈ values, value.Shuns base := by
  intro s t outcome hs hrun
  obtain ⟨hshuns, hgood⟩ := shuns_mapM (fun literal _ => shuns_resolve literal) s t outcome hs hrun
  exact ⟨hshuns, fun values hv value hm => hgood values hv value hm value (List.mem_singleton_self value)⟩

section

variable {β γ : Type} {build : β → γ} {brought : γ → List Element}

theorem shuns_brings {a : Action β} {part : β → List Element}
    (ha : a.Shuns base fun b => ∀ value ∈ part b, value.Shuns base) (hb : ∀ b, brought (build b) = part b) :
    (do return build (← a)).Shuns base fun op => ∀ value ∈ brought op, value.Shuns base :=
  ha.bind fun b hvalues => Shuns.pure fun value hv => hvalues value (hb b ▸ hv)

theorem shuns_bringsNothing {op : γ} (hb : brought op = []) :
    (pure op : Action γ).Shuns base fun op => ∀ value ∈ brought op, value.Shuns base :=
  Shuns.pure fun value hv => absurd hv (by simp [hb])

end

theorem shuns_resolveEdit (change : Edit Literal) :
    (change.mapM resolve).Shuns base fun change => ∀ value ∈ change.offered, value.Shuns base := by
  cases change with
  | pushBack value => exact shuns_brings (shuns_resolve value) fun _ => rfl
  | pushFront value => exact shuns_brings (shuns_resolve value) fun _ => rfl
  | extendBack values => exact shuns_brings (shuns_resolveAll values) fun _ => rfl
  | extendFront values => exact shuns_brings (shuns_resolveAll values) fun _ => rfl
  | insert position value => exact shuns_brings (shuns_resolve value) fun _ => rfl
  | _ => exact shuns_bringsNothing rfl

theorem shuns_resolveEndOp (op : EndOp Literal) :
    (op.mapM resolve).Shuns base fun op => ∀ value ∈ op.offered, value.Shuns base := by
  cases op with
  | pushBack value => exact shuns_brings (shuns_resolve value) fun _ => rfl
  | pushFront value => exact shuns_brings (shuns_resolve value) fun _ => rfl
  | extendBack values => exact shuns_brings (shuns_resolveAll values) fun _ => rfl
  | extendFront values => exact shuns_brings (shuns_resolveAll values) fun _ => rfl
  | _ => exact shuns_bringsNothing rfl

theorem shuns_resolveQuery (query : Query Literal) :
    (query.mapM resolve).Shuns base fun query => ∀ value ∈ query.sought, value.Shuns base := by
  cases query with
  | count value => exact shuns_brings (shuns_resolve value) fun _ => rfl
  | contains value => exact shuns_brings (shuns_resolve value) fun _ => rfl
  | index value => exact shuns_brings (shuns_resolve value) fun _ => rfl
  | _ => exact shuns_bringsNothing rfl

theorem shuns_resolveOwnedOp (op : OwnedOp Literal) :
    (op.mapM resolve).Shuns base fun op => ∀ value ∈ op.brought, value.Shuns base := by
  cases op with
  | edit change => exact shuns_brings (shuns_resolveEdit change) fun _ => rfl
  | ends op => exact shuns_brings (shuns_resolveEndOp op) fun _ => rfl
  | ask query => exact shuns_brings (shuns_resolveQuery query) fun _ => rfl
  | indexWithin value span => exact shuns_brings (shuns_resolve value) fun _ => rfl
  | remove value => exact shuns_brings (shuns_resolve value) fun _ => rfl
  | replace position value => exact shuns_brings (shuns_resolve value) fun _ => rfl
  | assign position value => exact shuns_brings (shuns_resolve value) fun _ => rfl
  | _ => exact shuns_bringsNothing rfl

theorem shuns_resolveSharedOp (op : SharedOp Literal) :
    (op.mapM resolve).Shuns base fun op => ∀ value ∈ op.brought, value.Shuns base := by
  cases op with
  | edit change => exact shuns_brings (shuns_resolveEdit change) fun _ => rfl
  | ends op => exact shuns_brings (shuns_resolveEndOp op) fun _ => rfl
  | ask query => exact shuns_brings (shuns_resolveQuery query) fun _ => rfl
  | remove value => exact shuns_brings (shuns_resolve value) fun _ => rfl
  | _ => exact shuns_bringsNothing rfl

/-- A deque that is built has its elements from the step, from a register or from a document. -/
theorem shuns_build (source : Source Literal) :
    source.build.Shuns base fun built => ∀ d, built = some d → d.Shuns base := by
  have hsome {d : Deque Element} (hd : d.Shuns base) :
      (pure (some d) : Action (Option (Deque Element))).Shuns base fun built => ∀ d, built = some d → d.Shuns base :=
    Shuns.pure fun _ he => Option.some.inj he ▸ hd
  cases source with
  | empty bound => exact hsome (Deque.shuns_empty bound)
  | settings chosen =>
    dsimp only [Source.build]
    cases hb : (chosen.build? : Option (Deque Element)) with
    | none => exact Shuns.interrupt _
    | some d =>
      unfold Settings.build? at hb
      split at hb <;> cases hb
      exact hsome (Deque.shuns_empty chosen.bound)
  | items values bound => exact (shuns_resolveAll values).bind fun resolved hr => hsome (Deque.shuns_ofList hr bound)
  | document kind stored => exact Shuns.pure fun _ he => Deque.shuns_ofDocument? he
  | register name => exact (shuns_ownedRegister name).bind fun d hd => hsome hd

/-! Operations on a deque at hand -/

theorem shuns_keep (into : Option String) {d : Deque Element} (hd : d.Shuns base) :
    (OwnedOp.keep into d).Shuns base fun _ => True := by
  cases into with
  | none => exact Shuns.done
  | some name => exact shuns_setOwned hd name

theorem shuns_orNoRoom {d : Option (Deque Element)} (hd : ∀ e, d = some e → e.Shuns base) :
    (OwnedOp.orNoRoom d).Shuns base fun e => e.Shuns base := by
  cases d with
  | none => exact Shuns.interrupt _
  | some d => exact Shuns.pure (hd d rfl)

variable {m : Meaning}

theorem shuns_runOwnedOp (hm : m.Shuns base) {d : Deque Element} (hd : d.Shuns base) {op : OwnedOp Element}
    (ho : ∀ value ∈ op.brought, value.Shuns base) : (op.run m d).Shuns base fun result => result.2.Shuns base := by
  have hother (answer : Answer) {e : Deque Element} (he : e.Shuns base) :
      (pure (answer, e) : Action (Answer × Deque Element)).Shuns base fun result => result.2.Shuns base :=
    Shuns.pure he
  have hsame (answer : Answer) := hother answer hd
  cases op with
  | edit change => exact hother _ (hd.edit ho)
  | ends op => exact hother _ (hd.ends ho)
  | ask query =>
    have hlocate (value : Element) (hv : value ∈ query.sought) (onlyFirst : Bool) :=
      shuns_locateIn hm hd (ho value hv) onlyFirst
    exact (shuns_runQuery Shuns.done hlocate).then fun _ => hsame _
  | slot position =>
    dsimp only [OwnedOp.run]
    split
    · exact Shuns.interrupt _
    · exact hsame _
  | indexWithin value span =>
    have hspan : ∀ item ∈ (d.items.drop (span.first d.length)).take (span.past d.length - span.first d.length),
        item.Shuns base := fun item hitem => hd item (List.mem_of_mem_drop (List.mem_of_mem_take hitem))
    exact (shuns_locateIn hm hspan (ho value (List.mem_singleton_self value)) true).then fun _ => hsame _
  | written => exact (shuns_writeItems hm.write hd).then fun _ => hsame _
  | remove value =>
    refine (shuns_locateIn hm hd (ho value (List.mem_singleton_self value)) true).then fun located => ?_
    split
    · exact hsame _
    · split
      · exact hsame _
      · rename_i hr
        exact hother _ (hd.removeAt hr)
  | removeAt position =>
    dsimp only [OwnedOp.run]
    split
    · exact hsame _
    · rename_i hr
      exact hother _ (hd.removeAt hr)
  | replace position value =>
    dsimp only [OwnedOp.run]
    split
    · exact hsame _
    · rename_i hr
      exact hother _ (hd.replace (ho value (List.mem_singleton_self value)) hr)
  | assign position value =>
    dsimp only [OwnedOp.run]
    split
    · exact Shuns.interrupt _
    · rename_i hr
      exact hother _ (hd.replace (ho value (List.mem_singleton_self value)) hr)
  | addInteger summand => exact hother _ (hd.addInteger summand)
  | repeatInPlace times => exact (shuns_orNoRoom fun e he => hd.repeated? he).bind fun e he => hother _ he
  | concatInPlace other => exact (shuns_ownedRegister other).bind fun e he => hother _ (hd.concat he)
  | copy into => exact (shuns_keep into hd).then fun _ => hsame _
  | repeated times into =>
    refine (shuns_orNoRoom fun e he => hd.repeated? he).bind fun e he => ?_
    exact (shuns_keep into he).then fun _ => hsame _
  | concat other into =>
    refine (shuns_ownedRegister other).bind fun e he => ?_
    exact (shuns_keep into (hd.concat he)).then fun _ => hsame _
  | compareWith other =>
    refine (shuns_ownedRegister other).bind fun e he => ?_
    have hsides := (shuns_equalItems hm hd he).pinning he.owners
    exact hsides.then fun _ => hsides.then fun _ => hsame _
  | rankWith other =>
    refine (shuns_ownedRegister other).bind fun e _ => ?_
    cases OwnedOp.rank d e with
    | none => exact Shuns.interrupt _
    | some answer => exact hsame _
  | hashAgreesWith other => exact (shuns_ownedRegister other).bind fun _ _ => hsame _
  | _ => exact hsame _

/-! Operations through a handle -/

variable {id : Nat}

theorem shuns_editCell (hid : ¬ base.Dead id) (change : Edit Element)
    (hc : ∀ value ∈ change.offered, value.Shuns base) :
    (changeCell id fun cell => cell.edit change).Shuns base fun _ => True :=
  shuns_changeCell hid fun cell hd => by
    rw [Cell.deque_edit]
    exact hd.edit hc

theorem shuns_pushes {push : Element → Action (Option Element)} {extend : List Element → Action Unit}
    (hnil : extend [] = pure ())
    (hcons : ∀ value values, extend (value :: values) = (do let _ ← push value; extend values))
    (hp : ∀ value : Element, value.Shuns base → (push value).Shuns base fun _ => True) {values : List Element}
    (hv : ∀ value ∈ values, value.Shuns base) : (extend values).Shuns base fun _ => True := by
  induction values with
  | nil =>
    rw [hnil]
    exact Shuns.done
  | cons value values ih =>
    rw [hcons]
    refine (hp value (hv value List.mem_cons_self)).then fun _ => ?_
    exact ih fun other ho => hv other (List.mem_cons_of_mem _ ho)

theorem shuns_runEnds (hid : ¬ base.Dead id) {op : EndOp Element} (ho : ∀ value ∈ op.offered, value.Shuns base) :
    ((sharedEnds id).run op).Shuns base fun _ => True := by
  have hedit (change : Edit Element) (hc : ∀ value ∈ change.offered, value.Shuns base) :
      (do let outcome ← changeCell id fun cell => cell.edit change; return outcome.toOption.join :
        Action (Option Element)).Shuns base fun _ => True :=
    (shuns_editCell hid change hc).then fun _ => Shuns.done
  have hone {value : Element} (hv : value.Shuns base) : ∀ other ∈ [value], other.Shuns base := fun other he =>
    List.mem_singleton.1 he ▸ hv
  have hread {β : Type} {f : Cell Element → β} : (do return f (← readCell id)).Shuns base fun _ => True :=
    (shuns_readCell hid).bind fun _ _ => Shuns.done
  cases op with
  | extent =>
    have hextent : (sharedEnds id).extent.Shuns base fun _ => True := by
      refine hread.then fun _ => hread.then fun _ => (hread.then fun _ => Shuns.done).then fun _ => ?_
      refine (hread.then fun bound => ?_).then fun _ => Shuns.done
      cases bound with
      | none => exact Shuns.done
      | some bound => exact hread.then fun _ => Shuns.done
    exact hextent.then fun _ => Shuns.done
  | pushBack value => exact (hedit (.pushBack value) ho).then fun _ => Shuns.done
  | pushFront value => exact (hedit (.pushFront value) ho).then fun _ => Shuns.done
  | popBack => exact (hedit .popBack ho).then fun _ => Shuns.done
  | popFront => exact (hedit .popFront ho).then fun _ => Shuns.done
  | extendBack values =>
    refine (shuns_pushes rfl (fun _ _ => rfl) (fun value hv => ?_) ho).then fun _ => Shuns.done
    exact hedit (.pushBack value) (hone hv)
  | extendFront values =>
    refine (shuns_pushes rfl (fun _ _ => rfl) (fun value hv => ?_) ho).then fun _ => Shuns.done
    exact hedit (.pushFront value) (hone hv)

theorem shuns_withCursor {β : Type} {name : String} {visit : Cursor → Cell Element → β × Cursor}
    {happening : String → Nat → β → Happening} {good : β → Prop}
    (hc : ∀ cursor cell, (visit cursor cell).2.cell = cursor.cell)
    (hg : ∀ cursor (cell : Cell Element), cell.deque.Shuns base → good (visit cursor cell).1) :
    (withCursor name visit happening).Shuns base good := fun s t outcome hs hrun => by
  obtain ⟨rfl, cause, rfl, _⟩ | ⟨cursor, hcursor, _, rfl, rfl⟩ := withCursor_cases hrun
  · exact ⟨⟨hs, rfl⟩, nofun⟩
  · have hlives := hs.cursors name cursor hcursor
    refine ⟨⟨hs.putCursor (by rwa [hc]) name _, rfl⟩, fun value hv => ?_⟩
    cases hv
    exact hg cursor _ (hs.deques cursor.cell hlives)

theorem shuns_advanceCursor (name : String) : (advanceCursor name).Shuns base fun _ => True :=
  shuns_withCursor cell_advance fun _ _ _ => trivial

theorem shuns_drainCursor (name : String) :
    (drainCursor name).Shuns base fun visits => ∀ value ∈ Cursor.elements visits, value.Shuns base :=
  shuns_withCursor cell_drain fun _ _ hd value hv => hd value (mem_elements_drain hv)

theorem shuns_runSharedOp (hm : m.Shuns base) (hid : ¬ base.Dead id) {op : SharedOp Element}
    (ho : ∀ value ∈ op.brought, value.Shuns base) : (op.run m id).Shuns base fun _ => True := by
  cases op with
  | edit change => exact (shuns_editCell hid change ho).then fun _ => Shuns.done
  | ends op => exact (shuns_runEnds hid ho).then fun _ => Shuns.done
  | ask query =>
    have hcontents : (do return (← readCell id).deque).Shuns base fun _ => True :=
      (shuns_readCell hid).bind fun _ _ => Shuns.done
    exact shuns_runQuery hcontents fun value hv onlyFirst => shuns_locateShared hm hid (ho value hv) onlyFirst
  | remove value =>
    refine (shuns_locateShared hm hid (ho value (List.mem_singleton_self value)) true).then fun located => ?_
    split
    · exact Shuns.done
    · rename_i position _
      exact (shuns_changeCell hid fun cell hd => Cell.shuns_removeAt hd position).then fun _ => Shuns.done
  | extent => exact (shuns_readCell hid).bind fun _ _ => Shuns.done
  | written => exact (shuns_writeCell hid hm.write).then fun _ => Shuns.done
  | share into => exact (shuns_setShared hid into).then fun _ => Shuns.done
  | copy into =>
    refine (shuns_readCell hid).bind fun cell hcell => (shuns_newCell hcell).bind fun copy hcopy => ?_
    exact (shuns_equalCells hm hcopy hid).then fun _ => (shuns_setShared hcopy into).then fun _ => Shuns.done
  | downgrade into =>
    refine Shuns.then (Shuns.update fun s hs => ?_) fun _ => Shuns.done
    exact ⟨hs.of_same rfl rfl rfl rfl rfl hs.pinned, rfl⟩
  | samePlace other => exact (shuns_sharedRegister other).bind fun _ _ => Shuns.done
  | equal other =>
    refine (shuns_sharedRegister other).bind fun found hfound => ?_
    exact (shuns_equalCells hm hid hfound).then fun _ => Shuns.done
  | visit cursor =>
    refine (shuns_readCell hid).bind fun cell _ => ?_
    exact (Shuns.update fun s hs => ⟨hs.putCursor hid cursor _, rfl⟩).then fun _ => Shuns.done
  | extendFrom cursor =>
    refine (shuns_drainCursor cursor).bind fun visits hv => ?_
    exact (shuns_editCell hid (.extendBack (Cursor.elements visits)) hv).then fun _ => Shuns.done

/-! Holds and their bodies -/

theorem shuns_runHeld (hm : m.Shuns base) (hid : ¬ base.Dead id) (exclusive : Bool) (op : OwnedOp Literal) :
    (m.runHeld id exclusive op).Shuns base fun _ => True := by
  unfold Meaning.runHeld
  dsimp only
  split
  · exact Shuns.interrupt _
  refine (shuns_resolveOwnedOp op).bind fun resolved hr => ?_
  have hdeque : (Action.read fun s => (s.cell id).deque).Shuns base fun d => d.Shuns base :=
    Shuns.read fun s hs => hs.deques id hid
  refine hdeque.bind fun d hd => (shuns_runOwnedOp hm hd hr).bind fun result hresult => ?_
  split
  · exact (Shuns.update fun s hs => ⟨hs.putCell hid hresult, rfl⟩).then fun _ => Shuns.done
  · exact Shuns.done

theorem shuns_runBody (hm : m.Shuns base) (hid : ¬ base.Dead id) (exclusive : Bool)
    (body : List (OwnedOp Literal ⊕ Step)) : (m.runBody id exclusive body).Shuns base fun _ => True := by
  induction body with
  | nil => exact Shuns.done
  | cons entry body ih =>
    cases entry with
    | inl op => exact (shuns_runHeld hm hid exclusive op).then fun _ => ih.then fun _ => Shuns.done
    | inr step => exact (hm.perform step).then fun _ => ih.then fun _ => Shuns.done

theorem shuns_holding {α : Type} {good : α → Prop} {a : Action α} (hid : ¬ base.Dead id) (ha : a.Shuns base good) :
    (holdingForReading id a).Shuns base good ∧ (holdingForChange id a).Shuns base good := by
  have hpins : ∀ other ∈ [id], ¬ base.Dead other := fun other he => List.mem_singleton.1 he ▸ hid
  constructor
  · refine (shuns_readCell hid).bind fun _ _ => (Shuns.update fun s hs => shuns_setHold hid _ hs).then fun _ => ?_
    exact (ha.pinning hpins).ensuring fun s hs => shuns_setHold hid _ hs
  · refine (shuns_changeCell hid fun _ hd => hd).then fun _ => ?_
    refine Shuns.ensuring (Shuns.recovering ?_ fun s hs => ?_) fun s hs => shuns_setHold hid _ hs
    · refine (ha.pinning hpins).bind fun value hgood => ?_
      refine Shuns.then (Shuns.update fun s hs => ?_) fun _ => Shuns.pure hgood
      exact ⟨hs.putCell hid (hs.deques id hid), rfl⟩
    · exact ⟨hs.of_same rfl rfl rfl rfl rfl hs.pinned, rfl⟩

/-! Whole steps -/

theorem shuns_runOwned (hm : m.Shuns base) (name : String) (op : OwnedOp Literal) :
    (m.runOwned name op).Shuns base fun _ => True := by
  unfold Meaning.runOwned
  refine (shuns_resolveOwnedOp op).bind fun resolved hr => (shuns_ownedRegister name).bind fun d hd => ?_
  have hworking := (shuns_runOwnedOp hm hd hr).pinning hd.owners
  dsimp only
  split
  · refine (hworking.recovering fun s hs => ⟨hs.putOwned hd name, rfl⟩).bind fun result hresult => ?_
    exact (shuns_setOwned hresult name).then fun _ => Shuns.done
  · exact hworking.bind fun _ _ => Shuns.done

/-- A weak handle may lead to what is dead, but nothing is made of it then. -/
theorem shuns_upgrade (name weak : String) : (m.performStep (.upgrade name weak)).Shuns base fun _ => True := by
  intro s t outcome hs hrun
  rcases bind_cases hrun with ⟨cause, hweak, rfl⟩ | ⟨id, u, hweak, hnext⟩
  · obtain ⟨rfl, _⟩ := required_cases hweak
    exact ⟨⟨hs, rfl⟩, fun _ _ => trivial⟩
  obtain ⟨rfl, _⟩ := required_cases hweak
  rw [bind_ok (read_apply _ u)] at hnext
  cases hl : u.isLiving id with
  | false =>
    rw [hl] at hnext
    cases hnext
    exact ⟨⟨hs, rfl⟩, fun _ _ => trivial⟩
  | true =>
    rw [hl] at hnext
    exact ((shuns_setShared (hs.alive hl) name).then fun _ => Shuns.done) u t outcome hs hnext

theorem shuns_performStep (hm : m.Shuns base) (step : Step) : (m.performStep step).Shuns base fun _ => True := by
  cases step with
  | panic message => exact Shuns.interrupt _
  | chooseWarnings on =>
    refine Shuns.then (Shuns.update fun s hs => ?_) fun _ => Shuns.done
    exact ⟨hs.of_same rfl rfl rfl rfl rfl hs.pinned, rfl⟩
  | askWarnings =>
    intro s t outcome hs hrun
    cases hrun
    exact ⟨⟨hs.of_same rfl rfl rfl rfl rfl hs.pinned, rfl⟩, fun _ _ => trivial⟩
  | warn message => exact (shuns_warn message).then fun _ => Shuns.done
  | createOwned name source =>
    refine (shuns_build source).bind fun built hbuilt => ?_
    cases built with
    | none => exact Shuns.done
    | some d => exact (shuns_setOwned (hbuilt d rfl) name).then fun _ => Shuns.done
  | owned name op => exact shuns_runOwned hm name op
  | createShared name source =>
    refine (shuns_build source).bind fun built hbuilt => ?_
    cases built with
    | none => exact Shuns.done
    | some d =>
      refine (shuns_newCell (hbuilt d rfl)).bind fun id hid => ?_
      exact (shuns_setShared hid name).then fun _ => Shuns.done
  | shared name op =>
    refine (shuns_resolveSharedOp op).bind fun resolved hr => ?_
    exact (shuns_sharedRegister name).bind fun id hid => shuns_runSharedOp hm hid hr
  | hold name exclusive body =>
    refine (shuns_sharedRegister name).bind fun id hid => ?_
    have hbody := shuns_holding hid (shuns_runBody hm hid exclusive body)
    cases exclusive with
    | true => exact hbody.2.then fun _ => Shuns.done
    | false => exact hbody.1.then fun _ => Shuns.done
  | drop name =>
    refine Shuns.then (Shuns.read fun _ _ => trivial) fun _ => ?_
    exact (Shuns.update fun s hs => ⟨hs.eraseShared name, rfl⟩).then fun _ => Shuns.done
  | upgrade name weak => exact shuns_upgrade name weak
  | cursor name cursor op =>
    cases op with
    | next =>
      refine (shuns_advanceCursor cursor).then fun visited => ?_
      cases visited <;> exact Shuns.done
    | collect =>
      refine (shuns_drainCursor cursor).bind fun visits _ => ?_
      split <;> exact Shuns.done
    | drop =>
      refine Shuns.then (Shuns.read fun _ _ => trivial) fun _ => ?_
      exact (Shuns.update fun s hs => ⟨hs.eraseCursor cursor _, rfl⟩).then fun _ => Shuns.done

end Action

theorem Meaning.shuns_upTo (base : Session) (depth : Nat) : (upTo depth).Shuns base := by
  induction depth with
  | zero => exact ⟨fun _ _ => Shuns.interrupt _, fun _ _ _ _ => Shuns.interrupt _, fun _ => Shuns.interrupt _⟩
  | succ depth ih => exact ⟨fun _ => shuns_writeElement ih, fun _ _ => shuns_equalElements ih, shuns_performStep ih⟩

namespace Session

/-- A whole run shuns what was dead in the session that it is compared with, and keeps nothing alive beyond its end. -/
theorem Shuns.endOf {s base : Session} (h : s.Shuns base) (depth : Nat) (steps : List Step) :
    (endOf (Meaning.upTo depth) steps s).Shuns base ∧ (endOf (Meaning.upTo depth) steps s).pinned = s.pinned := by
  induction steps generalizing s with
  | nil => exact ⟨h, rfl⟩
  | cons step steps ih =>
    have hclear : ({ s with events := [], printed := "" } : Session).Shuns base :=
      h.of_same rfl rfl rfl rfl rfl h.pinned
    obtain ⟨hstep, hpinned⟩ := ((Meaning.shuns_upTo base depth).perform step _ _ _ hclear rfl).1
    obtain ⟨hend, hrest⟩ := ih hstep
    exact ⟨hend, hrest.trans hpinned⟩

end Session

end EvictingDeque
