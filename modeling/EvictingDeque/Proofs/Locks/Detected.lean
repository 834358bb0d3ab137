import EvictingDeque.Proofs.Locks.Refusals

set_option autoImplicit false

/-!
# Borrow conflicts

Which operations through handles are refused while deques are held, and that nothing else is.
-/
namespace EvictingDeque

open Action

namespace Session

/-- No element acts and no deque is being written, but deques may be held. -/
structure Sedate (s : Session) : Prop where
  proper : s.Proper
  made : ∀ id, s.Made id ↔ id < s.nextCell
  passive : s.Passive
  unmarked : ∀ id, id < s.nextCell → (s.cell id).formatting = false

variable {s : Session} {d : Nat}

theorem Released.sedate (hr : s.Released) (hs : s.Proper) (hnew : ∀ id, s.Made id → id < s.nextCell)
    (hp : s.Passive) : s.Sedate where
  proper := hs
  made id := ⟨hnew id, hr.made id⟩
  passive := hp
  unmarked id _ := (hr.idle id).unmarked

theorem made_putCell_iff {id other : Nat} (hid : s.Made id) (cell : Cell Element) :
    (s.putCell id cell).Made other ↔ s.Made other := by
  by_cases he : id = other
  · exact ⟨fun _ => he ▸ hid, made_putCell s id other cell⟩
  · unfold Made putCell
    rw [Table.get?_put_of_ne _ he]

namespace Sedate

variable (hs : s.Sedate)
include hs

theorem near : s.Near s :=
  hs.proper.near (fun id hid => (hs.made id).2 hid) fun _ _ _ _ hook _ => (hs.passive hook).2

theorem unmade : ¬ s.Made s.nextCell := fun h => absurd ((hs.made _).1 h) (Nat.lt_irrefl _)

theorem silent (hook : String) : (s.hook hook).whenWritten = [] := (hs.passive hook).1

/-- So is the session in which the body of a hold runs. -/
theorem inside (hd : d < s.nextCell) (hold : Hold → Hold) (pins : List Nat) :
    ({ setHold d hold s with pinned := pins } : Session).Sedate where
  proper := (hs.proper.setHold d hold).pinned pins
  made id := (made_putCell_iff ((hs.made d).2 hd) _).trans (hs.made id)
  passive := hs.passive
  unmarked id hid := by
    by_cases he : d = id
    · subst he
      exact (congrArg Cell.formatting (cell_setHold d hold s)).trans (hs.unmarked d hid)
    · exact (congrArg Cell.formatting (cell_setHold_of_ne he hold s)).trans (hs.unmarked id hid)

/-- Another content of one deque, which may be the same if the deque can be read. -/
theorem shadows_putCell (hd : d < s.nextCell) {cell : Cell Element}
    (hshows : (s.cell d).hold.allowsReading = true → (s.cell d).Shows cell)
    (hknown : ∀ element ∈ cell.deque.items, element.Known s.nextCell)
    (hliving : ∀ id, id < s.nextCell → (s.putCell d cell).isLiving id = s.isLiving id) :
    s.Shadows (s.putCell d cell) where
  near := hs.near
  also := {
    hooks := rfl
    living := hliving
    made := fun id hid => made_putCell s d id cell ((hs.made id).2 hid)
    known := fun id hid => by
      by_cases he : d = id
      · subst he
        rwa [cell_putCell_self]
      · rw [cell_putCell_of_ne s he]
        exact hs.near.known id hid
    silent := fun _ _ _ _ hook _ => (hs.passive hook).2 }
  cells id hid hr := by
    by_cases he : d = id
    · subst he
      rw [cell_putCell_self]
      exact hshows hr
    · rw [cell_putCell_of_ne s he]
      exact ⟨rfl, rfl, rfl, hr, fun hf => hf⟩
  nextCell := rfl
  shared := rfl
  cursors := rfl
  unmade h := hs.unmade ((made_putCell_iff ((hs.made d).2 hd) cell).1 h)

/-- The end of the holds of one deque. -/
theorem shadows_ended (hd : d < s.nextCell) : s.Shadows (setHold d (fun _ => .free) s) := by
  refine hs.shadows_putCell hd (fun _ => ⟨rfl, rfl, rfl, rfl, fun _ => rfl⟩) (hs.near.known d hd) fun id _ => ?_
  have hholdings : (setHold d (fun _ => .free) s).holdings = s.holdings := holdings_putCell ((hs.made d).2 hd) rfl
  refine isLiving_of_roots [] hholdings (fun _ => ⟨.inr, fun h => ?_⟩) (fun _ h => absurd h List.not_mem_nil) id
  exact h.resolve_left List.not_mem_nil

end Sedate

end Session

namespace Action

variable {α β : Type} {s : Session}

/-- The action ends in a borrow conflict. -/
def Collides (s : Session) (a : Action α) : Prop := (a s).1 = .error (.panic .borrowed)

/-- Looking up names changes nothing and meets no hold. -/
def Resolves (s : Session) (good : α → Prop) (a : Action α) : Prop :=
  (∃ cause, cause ≠ .panic .borrowed ∧ a s = (.error cause, s)) ∨ ∃ value, a s = (.ok value, s) ∧ good value

theorem resolving_sequential :
    ActionRel.Sequential fun _ action _ => ∀ s, (action s).2 = s ∧ (action s).1 ≠ .error (.panic .borrowed) where
  pure _ _ := ⟨rfl, nofun⟩
  bind {α β a b f g} h hf s := by
    obtain ⟨hs, hfree⟩ := h s
    rcases ha : a s with ⟨cause | value, t⟩ <;> rw [ha] at hs hfree
    · rw [bind_error ha]
      exact ⟨hs, fun hc => hfree (congrArg Except.error (Except.error.inj hc))⟩
    · rw [bind_ok ha]
      obtain ⟨ht, hok⟩ := hf value t
      exact ⟨ht.trans hs, hok⟩
  interrupt hc _ := ⟨rfl, fun h => hc (Except.error.inj h)⟩
  read _ _ := ⟨rfl, nofun⟩

namespace Resolves

variable {good : α → Prop} {better : β → Prop} {a : Action α}

theorem of_sequential (h : ∀ s, (a s).2 = s ∧ (a s).1 ≠ .error (.panic .borrowed)) :
    a.Resolves s fun _ => True := by
  obtain ⟨hs, hfree⟩ := h s
  rcases ha : a s with ⟨cause | value, t⟩ <;> rw [ha] at hs hfree <;> cases hs
  · exact .inl ⟨cause, fun hc => hfree (congrArg Except.error hc), ha⟩
  · exact .inr ⟨value, ha, trivial⟩

theorem bind {f : α → Action β} (h : a.Resolves s good) (hf : ∀ value, good value → (f value).Resolves s better) :
    (a >>= f).Resolves s better := by
  rcases h with ⟨cause, hc, ha⟩ | ⟨value, ha, hgood⟩
  · exact .inl ⟨cause, hc, bind_error ha⟩
  · unfold Resolves
    rw [bind_ok ha]
    exact hf value hgood

theorem pure {value : α} (h : good value) : (Pure.pure value : Action α).Resolves s good := .inr ⟨value, rfl, h⟩

/-- A name stands for a deque that has a handle. -/
theorem resolve (hs : s.Sedate) (literal : Literal) : (resolve literal).Resolves s fun value => value.AtHome s := by
  rcases hr : literal.replace? (resolveLink s) with _ | value
  · exact .inl ⟨.undefined, nofun, required_of_none hr⟩
  · refine .inr ⟨value, required_of_some hr, fun link hlink => ?_⟩
    obtain ⟨source, hsource⟩ := Value.exists_of_replace? _ literal hr link hlink
    cases source with
    | weak name =>
      obtain ⟨id, hid, rfl⟩ := Option.map_eq_some_iff.1 hsource
      exact hs.proper.shared name id hid
    | own name =>
      obtain ⟨id, hid, rfl⟩ := Option.map_eq_some_iff.1 hsource
      exact hs.proper.lives hid
    | hook hook =>
      cases hsource
      exact (hs.passive hook).2

theorem query (hs : s.Sedate) (query : Query Literal) : (query.mapM Action.resolve).Resolves s
    fun resolved : Query Element => ∀ value ∈ (SharedOp.ask resolved).sought, value.AtHome s := by
  cases query with
  | get position => exact .pure nofun
  | toList => exact .pure nofun
  | count value | contains value | index value =>
    exact (resolve hs value).bind fun found hf => .pure fun other ho => List.mem_singleton.1 ho ▸ hf

/-- The values that are looked up for an operation through a handle. -/
theorem sharedOp (hs : s.Sedate) (op : SharedOp Literal) : (op.mapM Action.resolve).Resolves s
    fun resolved : SharedOp Element => ∀ value ∈ resolved.sought, value.AtHome s := by
  have hseq := resolving_sequential
  cases op with
  | edit change => exact (of_sequential (hseq.resolveEdit change)).bind fun _ _ => .pure nofun
  | ends op => exact (of_sequential (hseq.resolveEndOp op)).bind fun _ _ => .pure nofun
  | remove value =>
    exact (resolve hs value).bind fun found hf => .pure fun other ho => List.mem_singleton.1 ho ▸ hf
  | ask asked => exact (query hs asked).bind fun found hf => .pure hf
  | _ => exact .pure nofun

end Resolves

end Action

/-- An operation through a handle, when its names have been looked up. -/
inductive Call where
  | shared (id : Nat) (op : SharedOp Element)
  | cursor (name : String) (op : CursorOp)

namespace Call

def run (m : Meaning) : Call → Action Answer
  | .shared id op => op.run m id
  | .cursor name op => op.run name

/-- The handle is one of a living deque, and so are those in the values that come with the operation. -/
def Offered (s : Session) : Call → Prop
  | .shared id op => s.Lives id ∧ ∀ value ∈ op.sought, value.AtHome s
  | .cursor _ _ => True

def isReading : Call → Bool
  | .shared _ op => op.isReading
  | .cursor _ _ => true

variable {s w : Session} {call : Call} {depth : Nat}

theorem exact_reading (hs : s.Sedate) (hw : s.Shadows w) (ho : call.Offered s) (hr : call.isReading = true) :
    (call.run (Meaning.upTo depth)).Exact Hold.IsExclusive s w := by
  cases call with
  | shared id op => exact SharedOp.exact_reading hs.proper hw hs.unmade ho.1 hr ho.2
  | cursor name op => exact op.exact hs.proper hw name

theorem exact (hs : s.Sedate) (hw : s.Shadows w) (ho : call.Offered s) :
    (call.run (Meaning.upTo depth)).Exact Hold.IsTaken s w := by
  cases call with
  | shared id op => exact op.exact hs.proper hs.silent hw hs.unmade ho.1 ho.2
  | cursor name op => exact (op.exact hs.proper hw name).mono fun _ => Hold.isTaken_of_isExclusive

end Call

namespace SharedOp

/-- Operations that change their deque, or would if there were something to change. An extension by single pushes does
not come to its deque where it pushes nothing. -/
def Alters (s : Session) : SharedOp Element → Prop
  | .edit _ => True
  | .ends op => op.changes = true ∧ op ≠ .extendBack [] ∧ op ≠ .extendFront []
  | .extendFrom cursor => (s.cursors.get? cursor).isSome = true
  | _ => False

/-- Operations through a handle that have to look into a deque: it is the one of the handle, another one that this is
compared with, or the one that a cursor goes over. -/
def LooksInto (s : Session) (id d : Nat) : SharedOp Element → Prop
  | .share _ | .downgrade _ | .samePlace _ => False
  | .ends op => id = d ∧ op ≠ .extendBack [] ∧ op ≠ .extendFront []
  | .extendFrom name => ∃ cursor, s.cursors.get? name = some cursor ∧
      (id = d ∨ cursor.cell = d ∧ cursor.finished = false)
  | .equal name => ∃ other, s.shared.get? name = some other ∧ id ≠ other ∧ (id = d ∨ other = d)
  | _ => id = d

variable {m : Meaning} {s : Session} {id d : Nat}

/-- Whether there is anything to change is not asked before. -/
theorem collides_of_alters (hf : (s.cell id).hold ≠ .free) {op : SharedOp Element} (hop : op.Alters s) :
    (op.run m id).Collides s := by
  have hedit {β : Type} (change : Edit Element) (next : Except Refusal (Option Element) → Action β) :
      (changeCell id (fun cell => cell.edit change) >>= next) s = (.error (.panic .borrowed), s) :=
    bind_error (changeCell_of_held hf)
  cases op with
  | edit change => exact congrArg Prod.fst (hedit change _)
  | ends op =>
    obtain ⟨hchanges, hback, hfront⟩ := hop
    have hstart {start : Action (Extent ⊕ Option Element)} (h : start s = (.error (.panic .borrowed), s)) :
        (do return answerEnds (← start) : Action Answer).Collides s := congrArg Prod.fst (bind_error h)
    cases op with
    | extent => cases hchanges
    | pushBack value | pushFront value | popBack | popFront => exact hstart (bind_error (hedit _ _))
    | extendBack values =>
      cases values with
      | nil => exact absurd rfl hback
      | cons value values => exact hstart (bind_error (bind_error (hedit _ _)))
    | extendFront values =>
      cases values with
      | nil => exact absurd rfl hfront
      | cons value values => exact hstart (bind_error (bind_error (hedit _ _)))
  | extendFrom name =>
    obtain ⟨cursor, hget⟩ := Option.isSome_iff_exists.1 hop
    rcases hdrain : drainCursor name s with ⟨outcome, t⟩
    rcases withCursor_cases hdrain with ⟨_, cause, rfl, hbarred⟩ | ⟨_, _, _, rfl, rfl⟩
    · cases hbarred with
      | missing hnone => cases hget.symm.trans hnone
      | held _ _ _ => exact congrArg Prod.fst (bind_error hdrain)
    · change ((drainCursor name >>= fun visits => _) s).1 = _
      rw [bind_ok hdrain]
      refine congrArg Prod.fst (bind_error (changeCell_of_held ?_))
      exact hf
  | _ => cases hop

theorem collides_of_exclusive (hx : (s.cell d).hold = .exclusive) {op : SharedOp Element}
    (hop : op.LooksInto s id d) : (op.run m id).Collides s := by
  have hr : (s.cell d).hold.allowsReading = false := congrArg Hold.allowsReading hx
  have hf : (s.cell d).hold ≠ .free := by rw [hx]; nofun
  have hread {β : Type} (next : Cell Element → Action β) :
      (readCell d >>= next) s = (.error (.panic .borrowed), s) := bind_error (readCell_of_held hr)
  have hlocate {β : Type} (value : Element) (onlyFirst : Bool) (next : Except Refusal (List Nat) → Action β) :
      (locateShared m d value onlyFirst >>= next) s = (.error (.panic .borrowed), s) := by
    have hscan : scan d (fun stored => m.equal stored value) onlyFirst
        { s with pinned := (d :: value.owners) ++ s.pinned } = (.error (.panic .borrowed), _) :=
      bind_error (readCell_of_held hr)
    have hlocated := pinning_of_eq hscan
    exact bind_error hlocated
  cases op with
  | edit change =>
    cases hop
    exact collides_of_alters hf trivial
  | ends op =>
    obtain ⟨rfl, hop⟩ := hop
    cases hc : op.changes with
    | true => exact collides_of_alters hf ⟨hc, hop⟩
    | false =>
      cases op with
      | extent => exact congrArg Prod.fst (bind_error (bind_error (bind_error (hread _))))
      | _ => cases hc
  | ask query =>
    cases hop
    cases query with
    | get position | toList => exact congrArg Prod.fst (bind_error (hread _))
    | count value | contains value | index value => exact congrArg Prod.fst (hlocate value _ _)
  | remove value =>
    cases hop
    exact congrArg Prod.fst (hlocate value _ _)
  | extent | copy into | visit cursor =>
    cases hop
    exact congrArg Prod.fst (hread _)
  | written =>
    cases hop
    exact congrArg Prod.fst (bind_error (writeCell_of_held hf))
  | equal name =>
    obtain ⟨other, hname, hne, hd⟩ := hop
    have hcompare : equalCells m.equal id other s = (.error (.panic .borrowed), s) := by
      unfold equalCells
      rw [if_neg hne]
      cases hleft : (s.cell id).hold.allowsReading with
      | false => exact bind_error (readCell_of_held hleft)
      | true =>
        -- the first deque can be read, so it is the other one that is held
        obtain rfl := hd.resolve_left fun he => by rw [he, hr] at hleft; cases hleft
        rw [bind_ok (readCell_of_reading hleft)]
        exact hread _
    change ((sharedRegister name >>= fun other => equalCells m.equal id other >>= fun found => _) s).1 = _
    rw [bind_ok (sharedRegister_of_get? hname), bind_error hcompare]
  | extendFrom name =>
    obtain ⟨cursor, hget, rfl | ⟨rfl, hu⟩⟩ := hop
    · exact collides_of_alters hf (Option.isSome_iff_exists.2 ⟨cursor, hget⟩)
    · exact congrArg Prod.fst (bind_error (withCursor_of_held hget hu hr))
  | _ => exact hop.elim

end SharedOp

/-- No deque is held for change. -/
def Session.ReadsOnly (s : Session) : Prop := ∀ id, id < s.nextCell → (s.cell id).hold ≠ .exclusive

theorem Action.Exact.free {α : Type} {a : Action α} {s w : Session} (h : a.Exact Hold.IsExclusive s w)
    (hr : s.ReadsOnly) : ¬ a.Collides s ∧ (a w).1 = (a s).1 := by
  rcases h with ⟨_, id, hid, hheld⟩ | ⟨hsame, hfree⟩
  · exact absurd hheld (hr id hid)
  · exact ⟨hfree, hsame⟩

/-- A removal from a deque that is held goes as far as its search does. -/
theorem SharedOp.remove_collides_iff {s : Session} (hs : s.Sedate) (hr : s.ReadsOnly) {depth id : Nat}
    (hid : s.Lives id) (hf : (s.cell id).hold ≠ .free) {value : Element} (hv : value.AtHome s) :
    ((SharedOp.remove value).run (Meaning.upTo depth) id).Collides s ↔
      ((SharedOp.ask (.contains value)).run (Meaning.upTo depth) id s).1 = .ok (.flag true) := by
  have hlooks : (locateShared (Meaning.upTo depth) id value true).Reads s :=
    .locateShared Hold.isExclusive_exclusive (Meaning.reads_equal depth) hid hv true
  have hrun := hlooks.run hs.near
  have hfree := ((Exact.of_looks hlooks hs.near.sees_freed).free hr).1
  change ((locateShared (Meaning.upTo depth) id value true >>= fun located => _) s).1 = _ ↔
    ((locateShared (Meaning.upTo depth) id value true >>= fun located => _) s).1 = _
  rcases hlocated : (locateShared (Meaning.upTo depth) id value true s).1 with cause | located <;>
    rw [hlocated] at hrun
  · rw [bind_error hrun, bind_error hrun]
    exact ⟨fun hc => absurd (hlocated.trans (congrArg Except.error (Except.error.inj hc))) hfree, nofun⟩
  · rw [bind_ok hrun, bind_ok hrun]
    rcases located with refusal | _ | ⟨position, positions⟩
    · exact ⟨nofun, nofun⟩
    · exact ⟨nofun, nofun⟩
    · exact ⟨fun _ => rfl, fun _ => congrArg Prod.fst (bind_error (changeCell_of_held hf))⟩

/-- A cursor that is not finished has to look into its deque. -/
theorem CursorOp.collides_of_exclusive {s : Session} {name : String} {cursor : Cursor} {op : CursorOp}
    (hget : s.cursors.get? name = some cursor) (hu : cursor.finished = false)
    (hx : (s.cell cursor.cell).hold = .exclusive) (hop : op ≠ .drop) : (op.run name).Collides s := by
  have hr : (s.cell cursor.cell).hold.allowsReading = false := by rw [hx]; rfl
  cases op with
  | next => exact congrArg Prod.fst (bind_error (withCursor_of_held hget hu hr))
  | collect => exact congrArg Prod.fst (bind_error (withCursor_of_held hget hu hr))
  | drop => exact absurd rfl hop

/-- A body does not begin if its deque cannot be held. -/
theorem Meaning.hold_collides {s : Session} {m : Meaning} {name : String} {id : Nat}
    (hname : s.shared.get? name = some id) {exclusive : Bool} {body : List (OwnedOp Literal ⊕ Step)}
    (hh : if exclusive = true then (s.cell id).hold ≠ .free else (s.cell id).hold = .exclusive) :
    m.performStep (.hold name exclusive body) s = (.error (.panic .borrowed), s) := by
  refine (bind_ok (sharedRegister_of_get? hname)).trans ?_
  cases exclusive with
  | true => exact bind_error (bind_error (changeCell_of_held hh))
  | false => exact bind_error (bind_error (readCell_of_held (congrArg Hold.allowsReading hh)))

section

variable {s : Session} {d depth : Nat}

/-- What holds of every call, whatever is held. A hold for change hides what is in the deque. -/
structure Call.Detected (s : Session) (d depth : Nat) (call : Call) : Prop where
  atomic : Collides s (call.run (Meaning.upTo depth)) → ∀ id, id < s.nextCell →
    (call.run (Meaning.upTo depth) s).2.cell id = s.cell id
  unheld : ¬ Collides s (call.run (Meaning.upTo depth)) →
    (call.run (Meaning.upTo depth) (setHold d (fun _ => .free) s)).1 = (call.run (Meaning.upTo depth) s).1
  reading : s.ReadsOnly → call.isReading = true → ¬ Collides s (call.run (Meaning.upTo depth))
  hidden : (s.cell d).hold = .exclusive → ∀ cell : Cell Element,
    (∀ element ∈ cell.deque.items, element.Known s.nextCell) →
    (∀ id, id < s.nextCell → (s.putCell d cell).isLiving id = s.isLiving id) →
    Collides s (call.run (Meaning.upTo depth)) ∨
      (call.run (Meaning.upTo depth) (s.putCell d cell)).1 = (call.run (Meaning.upTo depth) s).1

theorem Call.detected (hs : s.Sedate) (hd : s.Lives d) {call : Call} (ho : call.Offered s) :
    call.Detected s d depth := by
  have hended : (call.run (Meaning.upTo depth)).Exact Hold.IsTaken s _ := Call.exact hs (hs.shadows_ended hd.made) ho
  refine ⟨fun hc => ?_, fun hc => ?_, fun hr hreading => ?_, fun hx cell hknown hliving => ?_⟩
  · rcases hended with ⟨hrefused, _⟩ | ⟨_, hfree⟩
    · exact hrefused.cells
    · exact absurd hc hfree
  · rcases hended with ⟨hrefused, _⟩ | ⟨hsame, _⟩
    · exact absurd hrefused.borrowed hc
    · exact hsame
  · exact ((Call.exact_reading hs (hs.shadows_ended hd.made) ho hreading).free hr).1
  · have hshadows := hs.shadows_putCell hd.made (fun hr => by rw [hx] at hr; cases hr) hknown hliving
    exact (Call.exact hs hshadows ho).imp (fun h => h.1.borrowed) And.left

/-- What is refused because the deque is held, in whatever way. -/
structure Session.Kept (s : Session) (d depth : Nat) : Prop where
  alters : ∀ op, SharedOp.Alters s op → Collides s (op.run (Meaning.upTo depth) d)
  held : ∀ name body, s.shared.get? name = some d →
    (Meaning.upTo (depth + 1)).perform (.hold name true body) s = (.error (.panic .borrowed), s)
  remove : s.ReadsOnly → ∀ value : Element, value.AtHome s →
    (Collides s ((SharedOp.remove value).run (Meaning.upTo depth) d) ↔
      ((SharedOp.ask (.contains value)).run (Meaning.upTo depth) d s).1 = .ok (.flag true))

theorem Session.Sedate.kept (hs : s.Sedate) (hd : s.Lives d) (hf : (s.cell d).hold ≠ .free) : s.Kept d depth where
  alters _ := SharedOp.collides_of_alters hf
  held _ _ hname := Meaning.hold_collides hname hf
  remove hr _ hv := SharedOp.remove_collides_iff hs hr hd hf hv

/-- What is refused because the deque is held for change. -/
structure Session.Locked (s : Session) (d depth : Nat) : Prop where
  looks : ∀ id op, SharedOp.LooksInto s id d op → Collides s (op.run (Meaning.upTo depth) id)
  cursor : ∀ name cursor op, s.cursors.get? name = some cursor → cursor.cell = d → cursor.finished = false →
    op ≠ .drop → Collides s (CursorOp.run name op)
  held : ∀ name exclusive body, s.shared.get? name = some d →
    (Meaning.upTo (depth + 1)).perform (.hold name exclusive body) s = (.error (.panic .borrowed), s)

theorem Session.locked_of_exclusive (hx : (s.cell d).hold = .exclusive) : s.Locked d depth where
  looks _ _ := SharedOp.collides_of_exclusive hx
  cursor name cursor op hget hcell hu hop := by
    subst hcell
    exact CursorOp.collides_of_exclusive hget hu hx hop
  held name exclusive body hname := by
    refine Meaning.hold_collides hname ?_
    cases exclusive with
    | true => exact fun hf => nomatch hx.symm.trans hf
    | false => exact hx

/-- A deque is written as it would be if nothing were held, unless this comes to a deque that is held. -/
def Session.WrittenUnlessHeld (s : Session) (id : Nat) : Prop :=
  ∃ settled text,
    (∀ k, settled ≤ k → SharedOp.written.run (Meaning.upTo k) id s.freed = (.ok (.text text), s.freed)) ∧
    ∀ k, settled ≤ k ∨ (SharedOp.written.run (Meaning.upTo k) id s).1 ≠ .error .tooDeep →
      s.Clashes [] id ∧ SharedOp.written.run (Meaning.upTo k) id s = (.error (.panic .borrowed), s) ∨
        ¬ s.Clashes [] id ∧ SharedOp.written.run (Meaning.upTo k) id s = (.ok (.text text), s)

theorem Session.Sedate.writtenUnlessHeld (hs : s.Sedate) {id : Nat} (hid : s.Lives id) : s.WrittenUnlessHeld id := by
  obtain ⟨settled, text, hfreed, hwritten⟩ := hs.near.writeCell_cases hs.silent hs.unmarked hid
  refine ⟨settled, text, fun k hk => bind_ok (hfreed k hk), fun k hk => ?_⟩
  have hdeep : settled ≤ k ∨ (writeCell (Meaning.upTo k).write id s).1 ≠ .error .tooDeep := by
    refine hk.imp_right fun hdeep hc => hdeep ?_
    have hrun : writeCell (Meaning.upTo k).write id s = (.error .tooDeep, _) := Prod.ext hc rfl
    exact congrArg Prod.fst (bind_error hrun)
  exact (hwritten k hdeep).imp (fun ⟨hclash, hrun⟩ => ⟨hclash, bind_error hrun⟩)
    fun ⟨hclash, hrun⟩ => ⟨hclash, bind_ok hrun⟩

/-- If no other deque is held, it is this one that writing may come to. -/
theorem Session.clashes_iff_reaches (hothers : ∀ id, id ≠ d → (s.cell id).hold = .free) (hf : (s.cell d).hold ≠ .free)
    (id : Nat) : s.Clashes [] id ↔ s.Reaches [] id d := by
  constructor
  · rintro ⟨target, hheld, hreaches⟩
    by_cases he : target = d
    · exact he ▸ hreaches
    · exact absurd (hothers target he) hheld
  · exact fun hreaches => ⟨d, hf, hreaches⟩

/-- A step that operates through a handle fails to look something up, or it is one of the calls. -/
theorem Session.Sedate.perform_shared (hs : s.Sedate) (name : String) (op : SharedOp Literal) :
    (∃ cause, cause ≠ .panic .borrowed ∧
        (Meaning.upTo (depth + 1)).perform (.shared name op) s = (.error cause, s)) ∨
      ∃ id resolved, op.mapM resolve s = (.ok resolved, s) ∧ s.shared.get? name = some id ∧
        (Call.shared id resolved).Offered s ∧ (Meaning.upTo (depth + 1)).perform (.shared name op) s =
          (Call.shared id resolved).run (Meaning.upTo depth) s := by
  rcases Resolves.sharedOp hs op with ⟨cause, hc, hrun⟩ | ⟨resolved, hrun, hsought⟩
  · exact .inl ⟨cause, hc, bind_error hrun⟩
  · rcases hname : s.shared.get? name with _ | id
    · exact .inl ⟨.undefined, nofun, (bind_ok hrun).trans (bind_error (required_of_none hname))⟩
    · exact .inr ⟨id, resolved, hrun, rfl, ⟨hs.proper.lives hname, hsought⟩, Meaning.performStep_shared hrun hname⟩

end

/-- Any deque, in any session where no element acts, whatever is held. The first part is about all calls: those that are
refused leave the deques as they were, all others answer what they would answer if this deque were not held, and
whatever else were in it if it is held for change. The next two say which calls have to be refused then. Of writing,
which does not look at one deque only, it is said when it comes to a deque that is held. The last two parts are about
steps, whose names are looked up first. -/
theorem borrow_conflicts_exact {s : Session} (hs : s.Sedate) (depth : Nat) {d : Nat} (hd : s.Lives d) :
    (∀ call : Call, call.Offered s → call.Detected s d depth) ∧
      ((s.cell d).hold ≠ .free → s.Kept d depth) ∧
      ((s.cell d).hold = .exclusive → s.Locked d depth) ∧
      (∀ id, s.Lives id → s.WrittenUnlessHeld id) ∧
      ((∀ id, id ≠ d → (s.cell id).hold = .free) → (s.cell d).hold ≠ .free →
        ∀ id, s.Clashes [] id ↔ s.Reaches [] id d) ∧
      (∀ name op, (∃ cause, cause ≠ .panic .borrowed ∧
          (Meaning.upTo (depth + 1)).perform (.shared name op) s = (.error cause, s)) ∨
        ∃ id resolved, op.mapM resolve s = (.ok resolved, s) ∧ s.shared.get? name = some id ∧
          (Call.shared id resolved).Offered s ∧ (Meaning.upTo (depth + 1)).perform (.shared name op) s =
            (Call.shared id resolved).run (Meaning.upTo depth) s) ∧
      ∀ register name op, (Meaning.upTo (depth + 1)).perform (.cursor register name op) s =
        (Call.cursor name op).run (Meaning.upTo depth) s :=
  ⟨fun _ ho => Call.detected hs hd ho, hs.kept hd, Session.locked_of_exclusive, fun _ hid => hs.writtenUnlessHeld hid,
    Session.clashes_iff_reaches, hs.perform_shared, fun _ _ _ => rfl⟩

/-- The deque 1 owns the deque 0 and refers to itself. -/
def Session.lending : Session :=
  endOf (Meaning.upTo 2)
    [.createShared "d" (.items [.int 1] none), .createShared "e" (.items [] none),
      .shared "e" (.edit (.extendBack [.link (.weak "e"), .nested ⟨[.link (.own "d")], none⟩])),
      .shared "d" (.visit "c")]
    (.start [] none)

theorem Session.sedate_lending : Session.lending.Sedate := by
  refine (released_endOf [] none _ _).sedate ((proper_start [] none).endOf _ _) (fun id h => ?_) fun _ => ⟨rfl, rfl⟩
  obtain ⟨memo, hmemo⟩ := Option.isSome_iff_exists.1 h
  have hid : id ∈ [0, 1] := List.mem_map_of_mem (f := Prod.fst) (Table.mem_of_getEntries? hmemo)
  exact List.mem_range.1 hid

/-- Inside two reads of the deque 0, and inside one change. -/
def Session.lent (hold : Hold) : Session :=
  { Action.setHold 0 (fun _ => hold) Session.lending with pinned := [0] }

theorem borrow_conflicts_exact_lent :
    (Session.lent (.readers 2)).Sedate ∧ (Session.lent (.readers 2)).Lives 0 ∧ (Session.lent .exclusive).Sedate ∧
      (∃ t, (SharedOp.ask (.contains (.int 1))).run (Meaning.upTo 2) 0 (Session.lent (.readers 2)) =
          (.ok (.flag true), t) ∧
        Collides (Session.lent (.readers 2)) ((SharedOp.remove (.int 1)).run (Meaning.upTo 2) 0)) ∧
      (¬ Collides (Session.lent (.readers 2)) ((SharedOp.remove (.int 2)).run (Meaning.upTo 2) 0)) ∧
      Collides (Session.lent (.readers 2)) ((SharedOp.edit (.rotate 0)).run (Meaning.upTo 2) 0) ∧
      (∃ k, SharedOp.written.run (Meaning.upTo k) 1 (Session.lent (.readers 2)) =
        (.error (.panic .borrowed), Session.lent (.readers 2))) ∧
      Collides (Session.lent .exclusive) (CursorOp.run "c" .next) := by
  have hreading : (Session.lent (.readers 2)).Sedate := Session.sedate_lending.inside (d := 0) (by decide) _ _
  have hchanging : (Session.lent .exclusive).Sedate := Session.sedate_lending.inside (d := 0) (by decide) _ _
  have hname {hold : Hold} : (Session.lent hold).shared.get? "d" = some 0 := rfl
  have hlives : (Session.lent (.readers 2)).Lives 0 := hreading.proper.lives hname
  have howner : (Session.lent (.readers 2)).Lives 1 :=
    hreading.proper.lives (rfl : (Session.lent (.readers 2)).shared.get? "e" = some 1)
  have hhold : ((Session.lent (.readers 2)).cell 0).hold ≠ .free := nofun
  have hreads : (Session.lent (.readers 2)).ReadsOnly := by
    intro id hid
    match id, hid with
    | 0, _ => exact nofun
    | 1, _ => exact nofun
  have hhome (value : Int) : Value.AtHome (Session.lent (.readers 2)) (.int value) := nofun
  obtain ⟨_, htaken, _, hwritten, honly, _⟩ := borrow_conflicts_exact hreading 2 hlives
  obtain ⟨_, _, hexclusive, _⟩ := borrow_conflicts_exact hchanging 2 (hchanging.proper.lives hname)
  have hkept := htaken hhold
  have hfound := hkept.remove hreads (.int 1) (hhome 1)
  have hmissing := hkept.remove hreads (.int 2) (hhome 2)
  have hreaches : (Session.lent (.readers 2)).Reaches [] 1 0 :=
    .through List.not_mem_nil (List.mem_cons_of_mem _ List.mem_cons_self) (List.mem_singleton.2 rfl) (.own ⟨"d", 0⟩)
      (.here (by decide))
  obtain ⟨settled, _, _, hsettled⟩ := hwritten 1 howner
  have hclash : (Session.lent (.readers 2)).Clashes [] 1 := ⟨0, hhold, hreaches⟩
  have hconflict := (hsettled settled (.inl (Nat.le_refl _))).resolve_right fun h => h.1 hclash
  refine ⟨hreading, hlives, hchanging, ⟨_, rfl, hfound.2 rfl⟩, fun hc => ?_, hkept.alters (.edit (.rotate 0)) trivial,
    ⟨settled, hconflict.2⟩, (hexclusive rfl).cursor "c" ⟨0, 0, 0, false⟩ .next rfl rfl rfl nofun⟩
  have hsame : (.ok (.flag false) : Except Interrupt Answer) = .ok (.flag true) := hmissing.1 hc
  cases hsame

end EvictingDeque
