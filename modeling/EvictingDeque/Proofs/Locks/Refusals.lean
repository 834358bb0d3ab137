import EvictingDeque.Proofs.Comparing.Copies
import EvictingDeque.Proofs.Comparing.Searching
import EvictingDeque.Proofs.Writing.Reaching

set_option autoImplicit false

/-!
# Operations that come upon a hold

An operation that ends in a borrow conflict leaves every shared deque as it was. One that does not has not looked into
any deque that is held for change: whatever is in there, it answers the same, and so it does without the holds.
-/
namespace EvictingDeque

open Action

namespace Session

/-- In the second session some holds may have ended, and what is held for change in the first one may be anything, as
long as the same deques are alive. -/
structure Shadows (s w : Session) : Prop extends s.Sees s w where
  nextCell : w.nextCell = s.nextCell
  shared : w.shared = s.shared
  cursors : w.cursors = s.cursors
  unmade : ¬ w.Made w.nextCell

end Session

namespace Action

variable {α β : Type} {conflicts : Hold → Prop} {s t u w : Session} {id : Nat}

/-- Begun in the session, an action has ended in a borrow conflict, and no deque is different. -/
structure Refused (s : Session) (ended : Except Interrupt α × Session) : Prop where
  borrowed : ended.1 = .error (.panic .borrowed)
  cells : ∀ id, id < s.nextCell → ended.2.cell id = s.cell id

/-- Some hold is in the way of the action and it is refused, or it ends in both sessions in the same way. -/
def Exact (conflicts : Hold → Prop) (s w : Session) (a : Action α) : Prop :=
  (Refused s (a s) ∧ ∃ id, id < s.nextCell ∧ conflicts (s.cell id).hold) ∨
    ((a w).1 = (a s).1 ∧ (a s).1 ≠ .error (.panic .borrowed))

namespace Exact

variable {a : Action α} {f : α → Action β}

theorem mono {stronger : Hold → Prop} (hc : ∀ hold, conflicts hold → stronger hold) (h : a.Exact conflicts s w) :
    a.Exact stronger s w :=
  h.imp_left fun ⟨hr, id, hid, hheld⟩ => ⟨hr, id, hid, hc _ hheld⟩

/-- Only the ends count. -/
theorem of_eq {b : Action α} (hs : b s = a s) (hw : b w = a w) (h : a.Exact conflicts s w) : b.Exact conflicts s w := by
  unfold Exact
  rw [hs, hw]
  exact h

theorem of_ok {value : α} (hs : a s = (.ok value, t)) (hw : a w = (.ok value, u)) : a.Exact conflicts s w := by
  refine .inr ⟨?_, ?_⟩ <;> rw [hs]
  · rw [hw]
  · nofun

theorem of_failed {cause : Interrupt} (hs : a s = (.error cause, t)) (hw : a w = (.error cause, u))
    (hc : cause ≠ .panic .borrowed) : a.Exact conflicts s w := by
  refine .inr ⟨?_, ?_⟩ <;> rw [hs]
  · rw [hw]
  · exact fun h => hc (Except.error.inj h)

theorem of_refused (hs : a s = (.error (.panic .borrowed), t))
    (hcells : ∀ id, id < s.nextCell → t.cell id = s.cell id)
    (hheld : ∃ id, id < s.nextCell ∧ conflicts (s.cell id).hold) : a.Exact conflicts s w := by
  refine .inl ⟨⟨?_, fun id hid => ?_⟩, hheld⟩ <;> rw [hs]
  exact hcells id hid

theorem of_looks (h : a.Looks conflicts s) (hw : s.Sees s w) : a.Exact conflicts s w :=
  (h.agrees s w hw).imp_left fun ⟨hb, hheld⟩ => ⟨⟨hb, fun _ _ => by rw [h.unchanged s hw.near]⟩, hheld⟩

/-- After an action that changes nothing it is as if there had been none. -/
theorem after_looks (h : a.Looks conflicts s) (hw : s.Sees s w) (hf : ∀ value, (f value).Exact conflicts s w) :
    (a >>= f).Exact conflicts s w := by
  have hs := h.run hw.near
  have hw' := h.run hw.also
  rcases h.agrees s w hw with ⟨hb, hheld⟩ | ⟨hsame, hfree⟩
  · rw [hb] at hs
    exact of_refused (bind_error hs) (fun _ _ => rfl) hheld
  · rw [hsame] at hw'
    rcases hfirst : (a s).1 with cause | value <;> rw [hfirst] at hs hw' hfree
    · exact of_failed (bind_error hs) (bind_error hw') fun hc => hfree (congrArg Except.error hc)
    · exact (hf value).of_eq (bind_ok hs) (bind_ok hw')

/-- What is made of the answer does not matter. -/
theorem map (h : a.Exact conflicts s w) (f : α → β) : (do return f (← a) : Action β).Exact conflicts s w := by
  rcases hs : a s with ⟨outcome, t⟩
  rcases hw : a w with ⟨outcome', u⟩
  unfold Exact at h
  rw [hs, hw] at h
  rcases h with ⟨⟨hb, hcells⟩, hheld⟩ | ⟨hsame, hfree⟩
  · cases hb
    exact of_refused (bind_error hs) hcells hheld
  · cases hsame
    cases outcome with
    | ok value => exact of_ok (bind_ok hs) (bind_ok hw)
    | error cause => exact of_failed (bind_error hs) (bind_error hw) fun hc => hfree (congrArg Except.error hc)

theorem answering (h : a.Exact conflicts s w) (hf : ∀ value, ∃ answer, f value = pure answer) :
    (a >>= f).Exact conflicts s w := by
  choose answer hanswer using hf
  rw [funext hanswer]
  exact h.map answer

/-- A change whose answer depends on the deque. -/
theorem changeCell (hw : s.Sees s w) (hid : s.Lives id) {change : Cell Element → β × Cell Element}
    (hc : ∀ a b : Cell Element, b.deque = a.deque → (change b).1 = (change a).1) :
    (changeCell id change).Exact Hold.IsTaken s w := by
  by_cases hf : (s.cell id).hold = .free
  · have hshows := hw.cells id hid.made (congrArg Hold.allowsReading hf)
    have hrun := changeCell_of_free change (hshows.free hf)
    rw [hc _ _ hshows.deque] at hrun
    exact of_ok (changeCell_of_free change hf) hrun
  · exact of_refused (changeCell_of_held hf) (fun _ _ => rfl) ⟨id, hid.made, hf⟩

/-- The deque is read, and what follows depends on its elements and on how often it was mutated. -/
theorem readCell (hc : conflicts .exclusive) (hw : s.Sees s w) (hid : s.Lives id) {f : Cell Element → Action β}
    (hsame : ∀ a b : Cell Element, b.deque = a.deque → b.mutations = a.mutations → f b = f a)
    (hf : (s.cell id).hold.allowsReading = true → (f (s.cell id)).Exact conflicts s w) :
    (Action.readCell id >>= f).Exact conflicts s w := by
  cases hr : (s.cell id).hold.allowsReading with
  | true =>
    have hshows := hw.cells id hid.made hr
    refine (hf hr).of_eq (bind_ok (readCell_of_reading hr)) ?_
    rw [bind_ok (readCell_of_reading hshows.reading), hsame _ _ hshows.deque hshows.mutations]
  | false =>
    exact of_refused (bind_error (readCell_of_held hr)) (fun _ _ => rfl)
      ⟨id, hid.made, (Hold.eq_exclusive hr).symm ▸ hc⟩

/-- A name stands for the same deque in both sessions. -/
theorem sharedRegister (hw : s.Shadows w) {name : String} {f : Nat → Action β}
    (hf : ∀ id, s.shared.get? name = some id → (f id).Exact conflicts s w) :
    (sharedRegister name >>= f).Exact conflicts s w := by
  have hregister : w.shared.get? name = s.shared.get? name := by rw [hw.shared]
  rcases hget : s.shared.get? name with _ | id <;> rw [hget] at hregister
  · exact of_failed (bind_error (required_of_none hget)) (bind_error (required_of_none hregister)) nofun
  · exact (hf id hget).of_eq (bind_ok (sharedRegister_of_get? hget)) (bind_ok (sharedRegister_of_get? hregister))

end Exact

section Cursors

variable {name : String} {visit : Cursor → Cell Element → β × Cursor} {happening : String → Nat → β → Happening}
  {cursor : Cursor}

theorem withCursor_of_none (h : s.cursors.get? name = none) :
    withCursor name visit happening s = (.error .undefined, s) := bind_error (required_of_none h)

theorem withCursor_of_held (h : s.cursors.get? name = some cursor) (hu : cursor.finished = false)
    (hheld : (s.cell cursor.cell).hold.allowsReading = false) :
    withCursor name visit happening s = (.error (.panic .borrowed), s) := by
  unfold withCursor
  rw [bind_ok (required_of_some h), if_neg (by simp [hu])]
  exact bind_error (readCell_of_held hheld)

variable (visit happening)

theorem withCursor_of_some (h : s.cursors.get? name = some cursor)
    (hr : cursor.finished = true ∨ (s.cell cursor.cell).hold.allowsReading = true) :
    ∃ t, withCursor name visit happening s = (.ok (visit cursor (s.cell cursor.cell)).1, t) ∧ t.cells = s.cells := by
  unfold withCursor
  rw [bind_ok (required_of_some h)]
  by_cases hf : cursor.finished = true
  · rw [if_pos hf]
    exact ⟨_, rfl, rfl⟩
  · rw [if_neg hf, bind_ok (readCell_of_reading (hr.resolve_left hf))]
    exact ⟨_, rfl, rfl⟩

variable {visit}

/-- A finished cursor does not look, and every other one looks at the elements and the count. -/
structure Visits (visit : Cursor → Cell Element → β × Cursor) : Prop where
  finished : ∀ (cursor : Cursor) (a b : Cell Element), cursor.finished = true → (visit cursor b).1 = (visit cursor a).1
  same : ∀ (cursor : Cursor) (a b : Cell Element), b.deque = a.deque → b.mutations = a.mutations →
    (visit cursor b).1 = (visit cursor a).1

theorem visits_advance : Visits (β := Option (Except Refusal Element)) Cursor.advance where
  finished cursor a b h := by simp [Cursor.advance, h]
  same cursor a b hd hm := by
    unfold Cursor.advance
    rw [hd, hm]

theorem visits_drain : Visits (β := List (Except Refusal Element)) Cursor.drain where
  finished cursor a b h := by simp [Cursor.drain, h]
  same cursor a b hd hm := by
    unfold Cursor.drain
    rw [hd, hm]

variable (name)

/-- What a cursor does in both sessions, and whether it is refused. -/
theorem withCursor_both (hs : s.Proper) (hw : s.Shadows w) (hv : Visits visit) :
    withCursor name visit happening s = (.error (.panic .borrowed), s) ∧
        (∃ id, id < s.nextCell ∧ Hold.IsExclusive (s.cell id).hold) ∨
      withCursor name visit happening s = (.error .undefined, s) ∧
        withCursor name visit happening w = (.error .undefined, w) ∨
      ∃ value t u, withCursor name visit happening s = (.ok value, t) ∧
        withCursor name visit happening w = (.ok value, u) ∧ t.cells = s.cells ∧ u.cells = w.cells := by
  have hregister : w.cursors.get? name = s.cursors.get? name := by rw [hw.cursors]
  rcases hget : s.cursors.get? name with _ | cursor <;> rw [hget] at hregister
  · exact .inr (.inl ⟨withCursor_of_none hget, withCursor_of_none hregister⟩)
  have hid := hs.cursors name cursor hget
  by_cases hf : cursor.finished = true
  · obtain ⟨t, ht, hcells⟩ := withCursor_of_some visit happening hget (.inl hf)
    obtain ⟨u, hu, hcells'⟩ := withCursor_of_some visit happening hregister (.inl hf)
    rw [hv.finished cursor _ _ hf] at hu
    exact .inr (.inr ⟨_, t, u, ht, hu, hcells, hcells'⟩)
  · cases hr : (s.cell cursor.cell).hold.allowsReading with
    | false =>
      exact .inl ⟨withCursor_of_held hget (Bool.eq_false_iff.2 hf) hr, cursor.cell, hid, Hold.eq_exclusive hr⟩
    | true =>
      have hshows := hw.cells cursor.cell hid hr
      obtain ⟨t, ht, hcells⟩ := withCursor_of_some visit happening hget (.inr hr)
      obtain ⟨u, hu, hcells'⟩ :=
        withCursor_of_some visit happening hregister (.inr hshows.reading)
      rw [hv.same cursor _ _ hshows.deque hshows.mutations] at hu
      exact .inr (.inr ⟨_, t, u, ht, hu, hcells, hcells'⟩)

variable {name happening}

theorem Exact.withCursor (hs : s.Proper) (hw : s.Shadows w) (hv : Visits visit) :
    (withCursor name visit happening).Exact Hold.IsExclusive s w := by
  rcases withCursor_both name happening hs hw hv with
    ⟨hrun, hheld⟩ | ⟨hrun, hrun'⟩ | ⟨value, t, u, hrun, hrun', _, _⟩
  · exact of_refused hrun (fun _ _ => rfl) hheld
  · exact of_failed hrun hrun' nofun
  · exact of_ok hrun hrun'

end Cursors

end Action

namespace Session

variable {s w : Session} {id : Nat}

/-- A session with the same deques can take the place of the one that the others are compared with. -/
theorem Near.self (h : s.Near w) (hn : w.nextCell = s.nextCell) : w.Near w where
  hooks := rfl
  living _ _ := rfl
  made id hid := h.made id (hn ▸ hid)
  known id hid := by
    rw [hn] at hid ⊢
    exact h.known id hid
  silent id hid element he hook hk := (h.hook hook).symm ▸ h.silent id (hn ▸ hid) element he hook hk

theorem Near.lives (h : s.Near w) (hn : w.nextCell = s.nextCell) (hid : s.Lives id) : w.Lives id :=
  ⟨hn ▸ hid.made, (h.living id hid.made).trans hid.living⟩

end Session

namespace SharedOp

/-- Operations that change nothing about their deque, nor mark it meanwhile. -/
def isReading {α : Type} : SharedOp α → Bool
  | .edit _ | .remove _ | .written | .extendFrom _ => false
  | .ends op => !op.changes
  | _ => true

variable {s w : Session} {id : Nat} {depth : Nat}

theorem exact_ask (hw : s.Shadows w) (hid : s.Lives id) {query : Query Element}
    (hop : ∀ value ∈ (SharedOp.ask query).sought, value.AtHome s) :
    ((SharedOp.ask query).run (Meaning.upTo depth) id).Exact Hold.IsExclusive s w :=
  .of_looks (.runQuery Hold.isExclusive_exclusive (Meaning.reads_equal depth) hid hop) hw.toSees

theorem exact_equal (hs : s.Proper) (hw : s.Shadows w) (hid : s.Lives id) (name : String) :
    ((SharedOp.equal name).run (Meaning.upTo depth) id).Exact Hold.IsExclusive s w := by
  refine .sharedRegister hw fun other hget => ?_
  have hcompared : (equalCells (Meaning.upTo depth).equal id other).Exact Hold.IsExclusive s w :=
    .of_looks (Meaning.reads_equalCells depth hid (hs.lives hget)) hw.toSees
  exact hcompared.map Answer.flag

/-- The copy is compared with the elements that were copied. -/
theorem exact_copy (hw : s.Shadows w) (hnew : ¬ s.Made s.nextCell) (hid : s.Lives id) (into : String) :
    ((SharedOp.copy into).run (Meaning.upTo depth) id).Exact Hold.IsExclusive s w := by
  refine .readCell Hold.isExclusive_exclusive hw.toSees hid (fun a b hd _ => by rw [hd]) fun hr => ?_
  have hshows := hw.cells id hid.made hr
  have hcompared := equalCells_copy hw.near hnew (Meaning.reads_equal depth) hid hid hr
  have hcompared' := equalCells_copy (hw.also.self hw.nextCell) hw.unmade (Meaning.reads_equal depth)
    (hw.also.lives hw.nextCell hid) (hw.also.lives hw.nextCell hid) hshows.reading
  rw [hw.nextCell, hshows.deque] at hcompared'
  have hitems : (equalItems (Meaning.upTo depth).equal (s.cell id).deque.items (s.cell id).deque.items).Reads s :=
    .equalItems fun x hx y hy =>
      Meaning.reads_equal depth x y (hw.near.contents hid x hx) (hw.near.contents hid y hy)
  have hadded : newCell (s.cell id).deque s = (.ok s.nextCell, s.adding (s.cell id).deque) := rfl
  have hadded' : newCell (s.cell id).deque w = (.ok s.nextCell, w.adding (s.cell id).deque) := by
    rw [← hw.nextCell]
    rfl
  let added (d : Deque Element) : Action Answer := do
    let copy ← newCell d
    let equal ← equalCells (Meaning.upTo depth).equal copy id
    setShared into copy
    return .copied d.bound (decide (copy = id)) equal
  have hfailed {v t : Session} {cause : Interrupt} (hv : newCell (s.cell id).deque v = (.ok s.nextCell, t))
      (hc : equalCells (Meaning.upTo depth).equal s.nextCell id t = (.error cause, t)) :
      added (s.cell id).deque v = (.error cause, t) := (bind_ok hv).trans (bind_error hc)
  change (added (s.cell id).deque).Exact Hold.IsExclusive s w
  rcases hitems.agrees s w hw.toSees with ⟨hb, hheld⟩ | ⟨hsame, hfree⟩
  · rw [hb] at hcompared
    exact .of_refused (hfailed hadded hcompared) (fun _ ho => Session.cell_adding_of_lt _ ho) hheld
  · rw [hsame] at hcompared'
    rcases hfirst : (equalItems (Meaning.upTo depth).equal (s.cell id).deque.items (s.cell id).deque.items s).1
      with cause | same <;> rw [hfirst] at hcompared hcompared' hfree
    · exact .of_failed (hfailed hadded hcompared) (hfailed hadded' hcompared')
        fun hc => hfree (congrArg Except.error hc)
    · exact .of_ok ((bind_ok hadded).trans (bind_ok hcompared)) ((bind_ok hadded').trans (bind_ok hcompared'))

theorem exact_visit (hw : s.Shadows w) (hid : s.Lives id) (cursor : String) :
    ((SharedOp.visit cursor).run (Meaning.upTo depth) id).Exact Hold.IsExclusive s w := by
  refine .readCell Hold.isExclusive_exclusive hw.toSees hid (fun a b hd hm => ?_) fun _ => .of_ok rfl rfl
  simp only [Cursor.start, hd, hm]

/-- An operation that only reads comes upon holds for change only. -/
theorem exact_reading (hs : s.Proper) (hw : s.Shadows w) (hnew : ¬ s.Made s.nextCell) (hid : s.Lives id)
    {op : SharedOp Element} (hr : op.isReading = true) (hop : ∀ value ∈ op.sought, value.AtHome s) :
    (op.run (Meaning.upTo depth) id).Exact Hold.IsExclusive s w := by
  cases op with
  | ask query => exact exact_ask hw hid hop
  | copy into => exact exact_copy hw hnew hid into
  | equal name => exact exact_equal hs hw hid name
  | visit cursor => exact exact_visit hw hid cursor
  | share into | downgrade into => exact .of_ok rfl rfl
  | extent =>
    exact .of_looks (.contents Hold.isExclusive_exclusive hid fun d : Deque Element =>
      Answer.extentWithoutFull d.length d.bound d.isEmpty) hw.toSees
  | samePlace name => exact .sharedRegister hw fun other _ => .of_ok rfl rfl
  | ends op =>
    cases op with
    | extent =>
      have hextent := Exact.of_looks (.extent Hold.isExclusive_exclusive hid) hw.toSees
      exact (hextent.map Sum.inl).map answerEnds
    | _ => cases hr
  | _ => cases hr

theorem exact_edit (hw : s.Sees s w) (hid : s.Lives id) (change : Edit Element) :
    (changeCell id fun cell => cell.edit change).Exact Hold.IsTaken s w :=
  .changeCell hw hid fun a b hd => by simp only [Cell.edit, hd]

/-- One push after the other; the first one is refused if any is. -/
theorem exact_pushes (hw : s.Sees s w) (hid : s.Lives id) (push : Element → Edit Element)
    {pushed : Element → Action (Option Element)} {extended : List Element → Action Unit}
    (hpush : ∀ value, pushed value = do
      let outcome ← changeCell id fun cell => cell.edit (push value)
      return outcome.toOption.join)
    (hnil : extended [] = pure ())
    (hcons : ∀ value values, extended (value :: values) = (do let _ ← pushed value; extended values))
    (values : List Element) : (extended values).Exact Hold.IsTaken s w := by
  have hrest (values : List Element) (v : Session) (hv : (v.cell id).hold = .free) :
      ∃ t, extended values v = (.ok (), t) := by
    induction values generalizing v with
    | nil => exact ⟨v, by rw [hnil]; rfl⟩
    | cons value values ih =>
      have hfirst : pushed value v = (.ok _, _) := (hpush value).symm ▸ bind_ok (changeCell_of_free _ hv)
      obtain ⟨t, ht⟩ := ih (v.putCell id ((v.cell id).edit (push value)).2) (by
        rw [Session.cell_putCell_self]
        exact (Cell.Counted.edit _ (push value) hv).hold.trans hv)
      exact ⟨t, by rw [hcons, bind_ok hfirst, ht]⟩
  by_cases hf : (s.cell id).hold = .free
  · obtain ⟨t, ht⟩ := hrest values s hf
    obtain ⟨u, hu⟩ := hrest values w ((hw.cells id hid.made (congrArg Hold.allowsReading hf)).free hf)
    exact .of_ok ht hu
  · cases values with
    | nil =>
      rw [hnil]
      exact .of_ok rfl rfl
    | cons value values =>
      have hfirst : pushed value s = (.error (.panic .borrowed), s) :=
        (hpush value).symm ▸ bind_error (changeCell_of_held hf)
      rw [hcons]
      exact .of_refused (bind_error hfirst) (fun _ _ => rfl) ⟨id, hid.made, hf⟩

theorem exact_ends (hw : s.Sees s w) (hid : s.Lives id) (op : EndOp Element) :
    ((sharedEnds id).run op).Exact Hold.IsTaken s w := by
  have hend (change : Edit Element) : (do
      let outcome ← changeCell id fun cell => cell.edit change
      return outcome.toOption.join : Action (Option Element)).Exact Hold.IsTaken s w :=
    (exact_edit hw hid change).map fun outcome => outcome.toOption.join
  cases op with
  | extent =>
    have hextent := Exact.of_looks (.extent Hold.isTaken_exclusive hid) hw
    exact hextent.map Sum.inl
  | pushBack value | pushFront value | popBack | popFront => exact (hend _).map Sum.inr
  | extendBack values =>
    exact (exact_pushes hw hid .pushBack (fun _ => rfl) rfl (fun _ _ => rfl) values).map fun _ => Sum.inr none
  | extendFront values =>
    exact (exact_pushes hw hid .pushFront (fun _ => rfl) rfl (fun _ _ => rfl) values).map fun _ => Sum.inr none

theorem exact_remove (hw : s.Sees s w) (hid : s.Lives id) {value : Element} (hv : value.AtHome s) :
    ((SharedOp.remove value).run (Meaning.upTo depth) id).Exact Hold.IsTaken s w := by
  refine .after_looks (.locateShared Hold.isTaken_exclusive (Meaning.looks_equal Hold.isTaken_exclusive depth) hid hv
    true) hw fun located => ?_
  cases firstOf located with
  | error refusal => exact .of_ok rfl rfl
  | ok position =>
    have hchange : (changeCell id fun cell => cell.removeAt position).Exact Hold.IsTaken s w :=
      .changeCell hw hid fun a b hd => by
        unfold Cell.removeAt
        rw [hd]
        cases a.deque.removeAt position <;> rfl
    exact hchange.map answerElement

theorem exact_extendFrom (hs : s.Proper) (hw : s.Shadows w) (hid : s.Lives id) (name : String) :
    ((SharedOp.extendFrom name).run (Meaning.upTo depth) id).Exact Hold.IsTaken s w := by
  rcases withCursor_both name Happening.drained hs hw visits_drain with
    ⟨hrun, other, ho, hheld⟩ | ⟨hrun, hrun'⟩ | ⟨visits, t, u, hrun, hrun', ht, hu⟩
  · exact .of_refused (bind_error hrun) (fun _ _ => rfl) ⟨other, ho, Hold.isTaken_of_isExclusive hheld⟩
  · exact .of_failed (bind_error hrun) (bind_error hrun') nofun
  · -- the cursor has been drained, and the deques are still what they were
    have hcell (other : Nat) : t.cell other = s.cell other := Session.cell_of_cells ht other
    have hcell' (other : Nat) : u.cell other = w.cell other := Session.cell_of_cells hu other
    by_cases hf : (s.cell id).hold = .free
    · have hfree := (hw.cells id hid.made (congrArg Hold.allowsReading hf)).free hf
      exact .of_ok ((bind_ok hrun).trans (bind_ok (changeCell_of_free _ (by rwa [hcell]))))
        ((bind_ok hrun').trans (bind_ok (changeCell_of_free _ (by rwa [hcell']))))
    · have hheld : (t.cell id).hold ≠ .free := by rwa [hcell]
      exact .of_refused ((bind_ok hrun).trans (bind_error (changeCell_of_held hheld))) (fun other _ => hcell other)
        ⟨id, hid.made, hf⟩

/-- Every operation through a handle. -/
theorem exact (hs : s.Proper) (hq : ∀ hook, (s.hook hook).whenWritten = []) (hw : s.Shadows w)
    (hnew : ¬ s.Made s.nextCell) (hid : s.Lives id) (op : SharedOp Element)
    (hop : ∀ value ∈ op.sought, value.AtHome s) :
    (op.run (Meaning.upTo depth) id).Exact Hold.IsTaken s w := by
  cases op with
  | edit change => exact (exact_edit hw.toSees hid change).map answerOptional
  | ends op => exact (exact_ends hw.toSees hid op).map answerEnds
  | remove value => exact exact_remove hw.toSees hid (hop value List.mem_cons_self)
  | extendFrom name => exact exact_extendFrom hs hw hid name
  | written =>
    have hwritten : (writeCell (Meaning.upTo depth).write id).Looks Hold.IsTaken s :=
      .writeCell (fun _ h => h) hid (Meaning.looks_write hq depth)
    exact (Exact.of_looks hwritten hw.toSees).map Answer.text
  | _ => exact (exact_reading hs hw hnew hid rfl hop).mono fun _ => Hold.isTaken_of_isExclusive

end SharedOp

/-- Every call of a cursor. -/
theorem CursorOp.exact {s w : Session} (hs : s.Proper) (hw : s.Shadows w) (name : String) (op : CursorOp) :
    (op.run name).Exact Hold.IsExclusive s w := by
  cases op with
  | next =>
    refine (Exact.withCursor hs hw visits_advance).answering fun visit => ?_
    cases visit <;> exact ⟨_, rfl⟩
  | collect =>
    refine (Exact.withCursor hs hw visits_drain).answering fun visits => ?_
    cases Cursor.collected visits <;> exact ⟨_, rfl⟩
  | drop =>
    have hregister : w.cursors.get? name = s.cursors.get? name := by rw [hw.cursors]
    have hrun' : CursorOp.run name .drop w = (.ok (.flag (w.cursors.get? name).isSome), _) := rfl
    rw [hregister] at hrun'
    exact .of_ok rfl hrun'

end EvictingDeque
