import EvictingDeque.Proofs.Interpreter.Safety
import EvictingDeque.Session.Run

set_option autoImplicit false

/-!
# Every step is safe

Operations through a handle, bodies of holds and whole steps, and from them runs of any length at any depth.
-/
namespace EvictingDeque

open Action

theorem Cell.deque_edit {α : Type} (cell : Cell α) (change : Edit α) :
    (cell.edit change).2.deque = (change.apply cell.deque).2 := by
  unfold Cell.edit
  dsimp only
  split <;> rfl

theorem Cell.sound_removeAt {cell : Cell Element} {limit : Nat} (h : cell.deque.Sound limit) (position : Nat) :
    (cell.removeAt position).2.deque.Sound limit := by
  unfold Cell.removeAt
  split
  · exact h
  · rename_i hr
    exact h.removeAt hr

namespace Action

variable {C : Session.Course} {limit : Nat} {m : Meaning}

theorem sound_editCell {id : Nat} (hid : id < limit) {change : Edit Element}
    (hc : ∀ value ∈ change.offered, value.Sound limit) :
    (changeCell id fun cell => cell.edit change).Sound C limit fun _ _ => True :=
  sound_changeCell hid (fun cell higher hl hd => by
    rw [Cell.deque_edit]
    exact hd.edit fun value hv => (hc value hv).mono hl) fun _ hs hknown hf => C.edited id change hs hknown hf

theorem sound_pushes {push : Element → Action (Option Element)} {extend : List Element → Action Unit}
    (hnil : extend [] = pure ())
    (hcons : ∀ value values, extend (value :: values) = (do let _ ← push value; extend values))
    (hp : ∀ value higher, limit ≤ higher → value.Sound higher → (push value).Sound C higher fun _ _ => True)
    {values : List Element}
    (hv : ∀ value ∈ values, value.Sound limit) : (extend values).Sound C limit fun _ _ => True := by
  induction values generalizing limit with
  | nil =>
    rw [hnil]
    exact Sound.done
  | cons value values ih =>
    rw [hcons]
    refine Sound.bind (hp value limit (Nat.le_refl _) (hv value List.mem_cons_self)) fun higher _ hl _ => ?_
    exact ih (fun other last hlast => hp other last (Nat.le_trans hl hlast))
      fun other ho => (hv other (List.mem_cons_of_mem _ ho)).mono hl

theorem sound_runEnds {id : Nat} (hid : id < limit) {op : EndOp Element} (ho : ∀ value ∈ op.offered, value.Sound limit) :
    ((sharedEnds id).run op).Sound C limit fun _ _ => True := by
  have hedit (change : Edit Element) {higher : Nat} (hl : limit ≤ higher)
      (hc : ∀ value ∈ change.offered, value.Sound higher) :
      (do let outcome ← changeCell id fun cell => cell.edit change; return outcome.toOption.join :
        Action (Option Element)).Sound C higher fun _ _ => True :=
    Sound.bind (sound_editCell (Nat.lt_of_lt_of_le hid hl) hc) fun _ _ _ _ => Sound.done
  have hone {value : Element} {higher : Nat} (hv : value.Sound higher) : ∀ other ∈ [value], other.Sound higher := by
    simpa using hv
  have hread {β : Type} {f : Cell Element → β} : (do return f (← readCell id)).Safe C :=
    Sound.safe ((safe_readCell id).then fun _ _ _ => Sound.done)
  cases op with
  | extent =>
    have hextent : (sharedEnds id).extent.Safe C := by
      refine Sound.safe (hread.then fun _ _ _ => hread.then fun _ bound _ => ?_)
      refine Safe.then (Sound.safe (hread.then fun _ _ _ => Sound.done)) fun _ _ _ => ?_
      refine Safe.then (Sound.safe (hread.then fun _ bound _ => ?_)) fun _ _ _ => Sound.done
      cases bound with
      | none => exact Sound.done
      | some bound => exact hread.then fun _ _ _ => Sound.done
    exact hextent.then fun _ _ _ => Sound.done
  | pushBack value => exact Sound.bind (hedit (.pushBack value) (Nat.le_refl _) ho) fun _ _ _ _ => Sound.done
  | pushFront value => exact Sound.bind (hedit (.pushFront value) (Nat.le_refl _) ho) fun _ _ _ _ => Sound.done
  | popBack => exact Sound.bind (hedit .popBack (Nat.le_refl _) ho) fun _ _ _ _ => Sound.done
  | popFront => exact Sound.bind (hedit .popFront (Nat.le_refl _) ho) fun _ _ _ _ => Sound.done
  | extendBack values =>
    refine Sound.bind (sound_pushes rfl (fun _ _ => rfl) (fun value higher hl hv => ?_) ho) fun _ _ _ _ => Sound.done
    exact hedit (.pushBack value) hl (hone hv)
  | extendFront values =>
    refine Sound.bind (sound_pushes rfl (fun _ _ => rfl) (fun value higher hl hv => ?_) ho) fun _ _ _ _ => Sound.done
    exact hedit (.pushFront value) hl (hone hv)

theorem sound_withCursor {β : Type} {name : String} {visit : Cursor → Cell Element → β × Cursor}
    {happening : String → Nat → β → Happening} {good : Nat → β → Prop}
    (hr : ∀ (s : Session) cursor, s.Proper → s.cursors.get? name = some cursor →
      (cursor.finished = true ∨ (s.cell cursor.cell).hold.allowsReading = true) →
      C.rel s ({ s with cursors := s.cursors.put name (visit cursor (s.cell cursor.cell)).2 }.note
        (happening name (s.cell cursor.cell).mutations (visit cursor (s.cell cursor.cell)).1)))
    (hc : ∀ cursor cell, (visit cursor cell).2.cell = cursor.cell)
    (hg : ∀ cursor cell higher, cell.deque.Sound higher → good higher (visit cursor cell).1) :
    (withCursor name visit happening).Sound C limit good := fun s t outcome hs _ hrun _ => by
  obtain ⟨rfl, cause, rfl, _⟩ | ⟨cursor, hcursor, hallowed, rfl, rfl⟩ := withCursor_cases hrun
  · exact ⟨⟨hs, Nat.le_refl _, C.refl t⟩, nofun⟩
  · refine ⟨⟨hs.putCursor ?_ _, Nat.le_refl _, hr s cursor hs hcursor hallowed⟩, fun value hv => ?_⟩
    · rw [hc]
      exact hs.cursors name cursor hcursor
    · cases hv
      exact hg cursor _ _ (hs.deques cursor.cell)

theorem cell_advance (cursor : Cursor) (cell : Cell Element) : (cursor.advance cell).2.cell = cursor.cell := by
  unfold Cursor.advance
  split
  · rfl
  · split
    · rfl
    · split <;> rfl

theorem cell_drain (cursor : Cursor) (cell : Cell Element) : (cursor.drain cell).2.cell = cursor.cell := by
  unfold Cursor.drain
  split
  · rfl
  · split <;> rfl

theorem mem_elements_drain {cursor : Cursor} {cell : Cell Element} {value : Element}
    (h : value ∈ Cursor.elements (cursor.drain cell).1) : value ∈ cell.deque.items := by
  unfold Cursor.elements at h
  obtain ⟨visit, hvisit, hvalue⟩ := List.mem_filterMap.1 h
  unfold Cursor.drain at hvisit
  split at hvisit
  · cases hvisit
  · split at hvisit
    · cases List.mem_singleton.1 hvisit
      cases hvalue
    · obtain ⟨item, hitem, rfl⟩ := List.mem_map.1 hvisit
      cases hvalue
      exact List.mem_of_mem_drop hitem

theorem safe_advanceCursor (name : String) : (advanceCursor name).Safe C :=
  Sound.safe (sound_withCursor (fun _ cursor => C.advanced name cursor) cell_advance fun _ _ _ _ => trivial)

theorem sound_drainCursor (name : String) :
    (drainCursor name).Sound C limit fun higher visits => ∀ value ∈ Cursor.elements visits, value.Sound higher :=
  sound_withCursor (fun _ cursor => C.drained name cursor) cell_drain fun _ _ _ hd value hv =>
    hd.elements value (mem_elements_drain hv)

theorem sound_runSharedOp (hm : m.Related (Safely C) m) {id : Nat} (hid : id < limit) {op : SharedOp Element}
    (ho : ∀ value ∈ op.offered, value.Sound limit) : (op.run m id).Sound C limit fun _ _ => True := by
  have hn := safely_neutral C
  have hread : (readCell id).Safe C := safe_readCell id
  cases op with
  | edit change => exact Sound.bind (sound_editCell hid ho) fun _ _ _ _ => Sound.done
  | ends op => exact Sound.bind (sound_runEnds hid ho) fun _ _ _ _ => Sound.done
  | ask query =>
    have hquery : (runQuery (return (← readCell id).deque) (locateShared m id) query).Safe C :=
      hn.runQuery (hn.bind (hn.readCell id) fun _ => hn.pure _) (hn.locateShared hm.equal id) query
    exact hquery.sound
  | remove value =>
    have hlocate : (locateShared m id value true).Safe C := hn.locateShared hm.equal id value true
    refine hlocate.then fun higher located hl => ?_
    split
    · exact Sound.done
    · rename_i position _
      have hremove : (changeCell id fun cell => cell.removeAt position).Sound C higher fun _ _ => True :=
        sound_changeCell (Nat.lt_of_lt_of_le hid hl) (fun cell _ _ hd => Cell.sound_removeAt hd position)
          fun _ hs hknown hf => C.removed id position hs hknown hf
      exact Sound.bind hremove fun _ _ _ _ => Sound.done
  | extent => exact hread.then fun _ _ _ => Sound.done
  | written =>
    have hwrite : (writeCell m.write id).Safe C := hn.writing hm.write id
    exact hwrite.then fun _ _ _ => Sound.done
  | share into => exact Sound.bind (sound_setShared hid) fun _ _ _ _ => Sound.done
  | copy into =>
    refine Sound.bind (sound_readCell id) fun _ cell _ hcell => ?_
    refine Sound.bind (sound_newCell hcell) fun k copy _ hcopy => ?_
    have hequal : (equalCells m.equal copy id).Safe C := hn.equalCells hm.equal copy id
    refine hequal.then fun _ _ hl => ?_
    exact Sound.bind (sound_setShared (Nat.lt_of_lt_of_le hcopy hl)) fun _ _ _ _ => Sound.done
  | downgrade into =>
    refine Sound.bind (Sound.update fun s hs hl => ?_) fun _ _ _ _ => Sound.done
    exact ⟨hs.putWeak (Nat.lt_of_lt_of_le hid hl), Nat.le_refl _, C.beside ⟨rfl, rfl, rfl, rfl⟩⟩
  | samePlace other =>
    have hother : (sharedRegister other).Safe C := hn.sharedRegister other
    exact hother.then fun _ _ _ => Sound.done
  | equal other =>
    have hother : (sharedRegister other).Safe C := hn.sharedRegister other
    refine hother.then fun _ found _ => ?_
    have hequal : (equalCells m.equal id found).Safe C := hn.equalCells hm.equal id found
    exact hequal.then fun _ _ _ => Sound.done
  | visit cursor =>
    intro s t outcome hs hl hrun _
    rcases bind_cases hrun with ⟨cause, hreadable, rfl⟩ | ⟨cell, u, hreadable, hrun⟩
    · obtain ⟨rfl, _⟩ := readCell_cases hreadable
      exact ⟨⟨hs, Nat.le_refl _, C.refl t⟩, nofun⟩
    · obtain ⟨rfl, ⟨ha, hcell⟩ | ⟨_, hno⟩⟩ := readCell_cases hreadable
      · cases hcell
        cases hrun
        have hknown : id < u.nextCell := Nat.lt_of_lt_of_le hid hl
        exact ⟨⟨hs.putCursor hknown _, Nat.le_refl _, C.started cursor id hs hknown ha⟩, fun _ _ => trivial⟩
      · cases hno
  | extendFrom cursor =>
    refine Sound.bind (sound_drainCursor cursor) fun _ visits hl hv => ?_
    exact Sound.bind (sound_editCell (Nat.lt_of_lt_of_le hid hl) hv) fun _ _ _ _ => Sound.done

/-! Whole steps -/

theorem safe_runOwned (hm : m.Related (Safely C) m) (name : String) (op : OwnedOp Literal) :
    (m.runOwned name op).Safe C := by
  refine Sound.safe (Sound.bind (sound_resolveOwnedOp op) fun first resolved _ hr => ?_)
  refine Sound.bind (sound_ownedRegister name) fun k d hl hd => ?_
  have hrun := (sound_runOwnedOp hm hd fun value hv => (hr value hv).mono hl).pinning d.owners
  have hback := hrun.recovering fun s hs hle =>
    ⟨hs.putOwned (hd.mono hle), Nat.le_refl _, C.beside (t := putOwned name d s) ⟨rfl, rfl, rfl, rfl⟩⟩
  dsimp only
  split
  · exact Sound.bind hback fun _ result _ hresult => Sound.bind (sound_setOwned hresult) fun _ _ _ _ => Sound.done
  · exact Sound.bind hrun fun _ _ _ _ => Sound.done

/-- In a body that may only read, no operation puts anything back. -/
theorem safe_runHeld_reading (hm : m.Related (Safely C) m) (id : Nat) (op : OwnedOp Literal) :
    (m.runHeld id false op).Safe C := by
  unfold Meaning.runHeld
  cases ho : op.changes with
  | true => exact Sound.safe (Sound.interrupt _)
  | false =>
    refine Sound.safe (Sound.bind (sound_resolveOwnedOp op) fun first resolved _ hr => ?_)
    have hdeque : (Action.read fun s => (s.cell id).deque).Sound C first fun higher d => d.Sound higher :=
      fun s t outcome hs _ hrun _ => by
        cases hrun
        refine ⟨⟨hs, Nat.le_refl _, C.refl s⟩, fun d hd => ?_⟩
        cases hd
        exact hs.deques id
    refine Sound.bind hdeque fun k d hl hd => ?_
    exact Sound.bind (sound_runOwnedOp hm hd fun value hv => (hr value hv).mono hl) fun _ _ _ _ => Sound.done

theorem safe_runBody_reading (hm : m.Related (Safely C) m) (id : Nat) (body : List (OwnedOp Literal ⊕ Step)) :
    (m.runBody id false body).Safe C := by
  induction body with
  | nil => exact Sound.done.safe
  | cons entry body ih =>
    have hrest {a : Action Answer} (ha : a.Safe C) :
        (do return (← a) :: (← m.runBody id false body)).Safe C :=
      Sound.safe (ha.then fun _ _ _ => ih.then fun _ _ _ => Sound.done)
    cases entry with
    | inl op => exact hrest (safe_runHeld_reading hm id op)
    | inr step => exact hrest (hm.perform step)

variable {id : Nat} {s t : Session}

/-- What an operation leaves of the deque held for change is put back only after the operation has answered. -/
theorem runHeld_safe (hm : m.Related (Safely C) m) {op : OwnedOp Literal} {outcome : Except Interrupt Answer}
    (hs : s.Proper) (hid : id < s.nextCell) (he : (s.cell id).hold = .exclusive)
    (hrun : m.runHeld id true op s = (outcome, t)) (hcalm : Calm C.calm outcome) :
    t.Proper ∧ s.nextCell ≤ t.nextCell ∧ C.rel s t := by
  unfold Meaning.runHeld at hrun
  rw [Bool.not_true, Bool.and_false] at hrun
  rcases bind_cases hrun with ⟨cause, hfirst, rfl⟩ | ⟨resolved, u, hfirst, hrun⟩
  · exact (sound_resolveOwnedOp op s t _ hs (Nat.zero_le _) hfirst hcalm).1
  obtain ⟨⟨hu, hsu, hr⟩, hknown⟩ := sound_resolveOwnedOp op s u _ hs (Nat.zero_le _) hfirst trivial
  rw [bind_ok (read_apply _ u)] at hrun
  have hop := sound_runOwnedOp hm (hu.deques id) (hknown resolved rfl)
  rcases bind_cases hrun with ⟨cause, hfirst, rfl⟩ | ⟨⟨answer, after⟩, v, hfirst, hrun⟩
  · obtain ⟨ht, hut, hr'⟩ := (hop u t _ hu (Nat.le_refl _) hfirst hcalm).1
    exact ⟨ht, Nat.le_trans hsu hut, C.trans hr hr'⟩
  obtain ⟨⟨hv, huv, hr'⟩, hafter⟩ := hop u v _ hu (Nat.le_refl _) hfirst trivial
  have hsound : after.Sound v.nextCell := hafter (answer, after) rfl
  dsimp only at hrun
  by_cases hc : op.changes = true
  · rw [if_pos hc, bind_ok (update_apply _ v)] at hrun
    cases hrun
    have hput := C.atHand id hu (Nat.lt_of_lt_of_le hid hsu) ((C.hold hr hid).trans he)
      (OwnedOp.becomes_run hfirst) hr'
    exact ⟨hv.putCell hsound, Nat.le_trans hsu huv, C.trans hr hput⟩
  · rw [if_neg hc] at hrun
    cases hrun
    exact ⟨hv, Nat.le_trans hsu huv, C.trans hr hr'⟩

theorem runBody_safe (hm : m.Related (Safely C) m) {body : List (OwnedOp Literal ⊕ Step)}
    {outcome : Except Interrupt (List Answer)} (hs : s.Proper) (hid : id < s.nextCell)
    (he : (s.cell id).hold = .exclusive) (hrun : m.runBody id true body s = (outcome, t))
    (hcalm : Calm C.calm outcome) : t.Proper ∧ s.nextCell ≤ t.nextCell ∧ C.rel s t := by
  induction body generalizing s t outcome with
  | nil =>
    cases hrun
    exact ⟨hs, Nat.le_refl _, C.refl _⟩
  | cons entry body ih =>
    -- what is left of the body starts where the first entry has ended, with the deque still held
    have hrest {u : Session} {answer : Answer} (hu : u.Proper ∧ s.nextCell ≤ u.nextCell ∧ C.rel s u)
        (hrun : (do let answers ← m.runBody id true body; return answer :: answers) u = (outcome, t)) :
        t.Proper ∧ s.nextCell ≤ t.nextCell ∧ C.rel s t := by
      obtain ⟨hproper, hle, hr⟩ := hu
      have hbody {o : Except Interrupt (List Answer)} {v : Session} (hb : m.runBody id true body u = (o, v))
          (ho : Calm C.calm o) : v.Proper ∧ s.nextCell ≤ v.nextCell ∧ C.rel s v := by
        obtain ⟨hv, hle', hr'⟩ := ih hproper (Nat.lt_of_lt_of_le hid hle) ((C.hold hr hid).trans he) hb ho
        exact ⟨hv, Nat.le_trans hle hle', C.trans hr hr'⟩
      rcases bind_cases hrun with ⟨cause, hb, rfl⟩ | ⟨answers, v, hb, hrun⟩
      · exact hbody hb hcalm
      · cases hrun
        exact hbody hb trivial
    cases entry with
    | inl op =>
      rcases bind_cases hrun with ⟨cause, hop, rfl⟩ | ⟨answer, u, hop, hrun⟩
      · exact runHeld_safe hm hs hid he hop hcalm
      · exact hrest (runHeld_safe hm hs hid he hop trivial) hrun
    | inr step =>
      rcases bind_cases hrun with ⟨cause, hstep, rfl⟩ | ⟨answer, u, hstep, hrun⟩
      · exact hm.perform step s t _ hs hstep hcalm
      · exact hrest (hm.perform step s u _ hs hstep trivial) hrun

theorem sound_holdingForChange (hm : m.Related (Safely C) m) (hid : id < limit)
    (body : List (OwnedOp Literal ⊕ Step)) :
    (holdingForChange id (m.runBody id true body)).Sound C limit fun _ _ => True := by
  intro s t outcome hs hl hrun hcalm
  refine ⟨?_, fun _ _ => trivial⟩
  have hknown : id < s.nextCell := Nat.lt_of_lt_of_le hid hl
  rcases bind_cases hrun with ⟨cause, hfirst, _⟩ | ⟨_, u, hfirst, hrun⟩
  · obtain ⟨_, ho, _⟩ | ⟨_, _, rfl⟩ := changeCell_cases hfirst
    · cases ho
    · exact ⟨hs, Nat.le_refl _, C.refl t⟩
  obtain ⟨hfree, _, rfl⟩ | ⟨_, ho, _⟩ := changeCell_cases hfirst
  case inr => cases ho
  let held := s.putCell id { s.cell id with hold := .exclusive }
  have hheld : (held.cell id).hold = .exclusive := by rw [Session.cell_putCell_self]
  have hproper : held.Proper := hs.putCell (hs.deques id)
  have hbody {w : Session} {o : Except Interrupt (List Answer)} (ho : Calm C.calm o)
      (hw : pinning [id] (m.runBody id true body) held = (o, w)) :
      w.Proper ∧ s.nextCell ≤ w.nextCell ∧ C.rel held w := by
    obtain ⟨v, hv, rfl⟩ := pinning_cases hw
    obtain ⟨hv', hle, hr⟩ := runBody_safe hm (hproper.pinned ([id] ++ held.pinned)) hknown hheld hv ho
    exact ⟨hv'.pinned held.pinned, hle, C.pinned hr held.pinned⟩
  obtain ⟨v, hensured, rfl⟩ := ensuring_cases hrun
  obtain ⟨answers, hcounted, rfl⟩ | ⟨cause, u, hcounted, rfl, rfl⟩ := recovering_cases hensured
  · obtain ⟨_, w, hw, hrun⟩ := bind_eq_ok hcounted
    rw [bind_ok (update_apply _ w)] at hrun
    cases hrun
    obtain ⟨hw', hle, hr⟩ := hbody (o := .ok _) trivial hw
    have hput : (w.putCell id ((w.cell id).mutated (w.cell id).deque)).Proper := hw'.putCell (hw'.deques id)
    exact ⟨hput.setHold id _, hle, C.changed id hs hknown hfree hr⟩
  · rcases bind_cases hcounted with ⟨_, hw, ho⟩ | ⟨_, w, _, hrun⟩
    · cases ho
      obtain ⟨hu, hle, hr⟩ := hbody hcalm hw
      exact ⟨(hu.note _).setHold id _, hle, C.cut id cause hcalm hs hknown hfree hr⟩
    · cases hrun

theorem safe_performStep (hm : m.Related (Safely C) m) (step : Step) : (m.performStep step).Safe C := by
  have hn := safely_neutral C
  cases step with
  | panic message => exact (Sound.interrupt _).safe
  | chooseWarnings on =>
    have hchoose : (update fun s => { s with warnings := s.warnings.choose on }).Safe C :=
      safe_apart (fun _ => ()) fun _ => ⟨⟨rfl, rfl, rfl, rfl⟩, rfl, rfl, rfl⟩
    exact (hchoose.then fun _ _ _ => Sound.done).safe
  | askWarnings => exact safe_apart _ fun _ => ⟨⟨rfl, rfl, rfl, rfl⟩, rfl, rfl, rfl⟩
  | warn message => exact ((safe_warn message).then fun _ _ _ => Sound.done).safe
  | createOwned name source =>
    refine Sound.safe (Sound.bind (sound_build source) fun _ built _ hbuilt => ?_)
    cases built with
    | none => exact Sound.done
    | some d => exact Sound.bind (sound_setOwned (hbuilt d rfl)) fun _ _ _ _ => Sound.done
  | owned name op => exact safe_runOwned hm name op
  | createShared name source =>
    refine Sound.safe (Sound.bind (sound_build source) fun _ built _ hbuilt => ?_)
    cases built with
    | none => exact Sound.done
    | some d =>
      refine Sound.bind (sound_newCell (hbuilt d rfl)) fun _ id _ hid => ?_
      exact Sound.bind (sound_setShared hid) fun _ _ _ _ => Sound.done
  | shared name op =>
    refine Sound.safe (Sound.bind (sound_resolveSharedOp op) fun _ resolved _ hr => ?_)
    refine Sound.bind (sound_sharedRegister name) fun _ id hl hid => ?_
    exact sound_runSharedOp hm hid fun value hv => (hr value hv).mono hl
  | hold name exclusive body =>
    refine Sound.safe (Sound.bind (sound_sharedRegister name) fun _ id _ hid => ?_)
    cases exclusive with
    | true => exact Sound.bind (sound_holdingForChange hm hid body) fun _ _ _ _ => Sound.done
    | false =>
      have hread := safe_holdingForReading id (safe_runBody_reading hm id body)
      exact hread.then fun _ _ _ => Sound.done
  | drop name =>
    refine Sound.safe (Safe.then (hn.read _) fun _ _ _ => ?_)
    refine Sound.bind (Sound.update fun s hs _ => ?_) fun _ _ _ _ => Sound.done
    exact ⟨hs.eraseShared name, Nat.le_refl _, C.beside ⟨rfl, rfl, rfl, rfl⟩⟩
  | upgrade name weak =>
    have hweak : (required (·.weak.get? weak)).Sound C 0 fun higher id => id < higher :=
      sound_required fun _ id hs hid => hs.weak weak id hid
    refine Sound.safe (Sound.bind hweak fun _ id _ hid => Safe.then (hn.read _) fun _ alive hl => ?_)
    cases alive with
    | false => exact Sound.done
    | true => exact Sound.bind (sound_setShared (Nat.lt_of_lt_of_le hid hl)) fun _ _ _ _ => Sound.done
  | cursor name cursor op =>
    cases op with
    | next =>
      refine Sound.safe ((safe_advanceCursor cursor).then fun _ visited _ => ?_)
      cases visited <;> exact Sound.done
    | collect =>
      refine Sound.safe (Sound.bind (sound_drainCursor cursor) fun _ visits _ _ => ?_)
      split <;> exact Sound.done
    | drop =>
      refine Sound.safe (Safe.then (hn.read _) fun _ _ _ => ?_)
      refine Sound.bind (Sound.update fun s hs _ => ?_) fun _ _ _ _ => Sound.done
      exact ⟨hs.eraseCursor cursor _, Nat.le_refl _, C.dropped cursor hs⟩

end Action

theorem Meaning.upTo_safely (C : Session.Course) (depth : Nat) : (upTo depth).Related (Safely C) (upTo depth) := by
  induction depth with
  | zero =>
    exact ⟨fun _ => (Sound.interrupt _).safe, fun _ _ => (Sound.interrupt _).safe, fun _ => (Sound.interrupt _).safe⟩
  | succ depth ih =>
    exact ⟨(safely_neutral C).writeElement ih, (safely_neutral C).equalElements ih, safe_performStep ih⟩

namespace Session

/-- What a course says of a whole run, whichever of its steps are interrupted. -/
theorem Course.endOf {C : Course} (hcalm : ∀ cause, C.calm cause) {s : Session} (h : s.Proper) (depth : Nat)
    (steps : List Step) :
    (endOf (Meaning.upTo depth) steps s).Proper ∧ C.rel s (endOf (Meaning.upTo depth) steps s) := by
  induction steps generalizing s with
  | nil => exact ⟨h, C.refl s⟩
  | cons step steps ih =>
    have hclear : ({ s with events := [], printed := "" } : Session).Proper :=
      h.apart ⟨⟨rfl, rfl, rfl, rfl⟩, rfl, rfl, rfl⟩
    have hcleared : C.rel s { s with events := [], printed := "" } := C.beside ⟨rfl, rfl, rfl, rfl⟩
    have hall (outcome : Except Interrupt Answer) : Calm C.calm outcome := by
      cases outcome with
      | error cause => exact hcalm cause
      | ok answer => trivial
    obtain ⟨hstep, _, hr⟩ := (Meaning.upTo_safely C depth).perform step _ _ _ hclear rfl (hall _)
    obtain ⟨hend, hr'⟩ := ih hstep
    exact ⟨hend, C.trans hcleared (C.trans hr hr')⟩

end Session

end EvictingDeque
