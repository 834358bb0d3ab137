import EvictingDeque.Proofs.Deque.Rotating
import Mathlib.Data.List.InsertIdx

set_option autoImplicit false

/-!
# Insertion and removal by position

Where there is room, an insertion is what turning the place to the front, pushing there and turning back makes of the
deque, and the removal at the place undoes it. A removal leaves room, so the insertion of what was removed undoes that as
well, also in a deque that was full before.
-/
namespace EvictingDeque

open Action

namespace Deque

variable {α : Type} {d e : Deque α} {index position : Nat} {value : α}

/-- An index past the end means the end. -/
def place (d : Deque α) (index : Nat) : Nat := min index d.items.length

theorem place_le (d : Deque α) (index : Nat) : d.place index ≤ d.items.length := Nat.min_le_right ..

theorem take_cons_drop (items : List α) (value : α) (h : position ≤ items.length) :
    items.take position ++ value :: items.drop position = items.insertIdx position value := by
  induction items generalizing position with
  | nil =>
    cases Nat.le_zero.1 h
    rfl
  | cons item items ih =>
    cases position with
    | zero => rfl
    | succ position => simpa using ih (Nat.le_of_succ_le_succ h)

theorem isFull_eq_true_iff : d.isFull = true ↔ ∃ bound, d.bound = some bound ∧ bound ≤ d.items.length := by
  unfold isFull
  cases d.bound <;> simp

theorem insert_of_room (h : d.isFull = false) (index : Nat) (value : α) :
    d.insert index value = .ok ⟨d.items.insertIdx (d.place index) value, d.bound⟩ := by
  have hgrown : d.items.take index ++ value :: d.items.drop index = d.items.insertIdx (d.place index) value := by
    rw [← take_cons_drop d.items value (d.place_le index)]
    rcases Nat.le_total index d.items.length with hle | hle
    · rw [place, Nat.min_eq_left hle]
    · rw [place, Nat.min_eq_right hle, List.take_of_length_le hle, List.drop_of_length_le hle, List.take_length,
        List.drop_length]
  unfold insert
  unfold isFull at h
  rw [hgrown]
  cases hb : d.bound with
  | none => rfl
  | some bound =>
    rw [hb] at h
    exact if_neg (of_decide_eq_false h)

theorem insert_of_full {bound : Nat} (hb : d.bound = some bound) (hl : bound ≤ d.items.length) (index : Nat) (value : α) :
    d.insert index value = .error (.full bound) := by
  unfold insert
  simp only [hb]
  exact if_pos hl

theorem pushFront_of_room (h : d.isFull = false) (value : α) : d.pushFront value = (none, ⟨value :: d.items, d.bound⟩) := by
  have hroom := (isFull_eq_isOverfull d (value :: d.items) rfl).trans h
  simp [pushFront, hroom]

theorem pushBack_of_room (h : d.isFull = false) (value : α) :
    d.pushBack value = (none, ⟨d.items ++ [value], d.bound⟩) := by
  have hroom := (isFull_eq_isOverfull d (d.items ++ [value]) (by simp)).trans h
  simp [pushBack, hroom]

theorem isFull_rotate (d : Deque α) (steps : Int) : (d.rotate steps).isFull = d.isFull := by
  unfold isFull
  rw [bound_rotate, length_rotate]

/-- Leftwards by no more steps than there are elements. -/
theorem rotate_neg (d : Deque α) {steps : Nat} (h : steps ≤ d.items.length) :
    d.rotate (-steps) = ⟨d.items.drop steps ++ d.items.take steps, d.bound⟩ := by
  have hmod : (- -(steps : Int) % d.items.length).toNat = steps % d.items.length := by
    rw [Int.neg_neg, ← Int.natCast_emod, Int.toNat_natCast]
  rw [rotate_eq_opposite, hmod, List.rotate_mod, List.rotate_eq_drop_append_take h]

/-- The place of the new element is turned to the front and back, with one element more on the way back. -/
theorem insertIdx_eq_turned (h : d.isFull = false) (hp : position ≤ d.items.length) (value : α) :
    ((d.rotate (-position)).pushFront value).2.rotate position =
      ⟨d.items.insertIdx position value, d.bound⟩ := by
  have hfull : (d.rotate (-position)).isFull = false := (isFull_rotate d _).trans h
  let e : Deque α := ⟨d.items.insertIdx position value, d.bound⟩
  have hlength : e.items.length = d.items.length + 1 := List.length_insertIdx_of_le_length hp value
  have hturned : ((d.rotate (-position)).pushFront value).2 = e.rotate (-position) := by
    have htake : (d.items.take position).length = position := List.length_take_of_le hp
    have hitems : e.items = d.items.take position ++ value :: d.items.drop position := (take_cons_drop _ value hp).symm
    rw [pushFront_of_room hfull, e.rotate_neg (by omega), rotate_neg d hp, hitems, List.drop_left' htake,
      List.take_left' htake]
    rfl
  rw [hturned, rotate_rotate e (c := 0) (by simp)]
  exact e.rotate_of_dvd_length (dvd_zero _)

/-- What an insertion does in a deque that has room. -/
structure InsertsAt (d : Deque α) (index : Nat) (value : α) (e : Deque α) : Prop where
  inserted : d.insert index value = .ok e
  turned : ((d.rotate (-d.place index)).pushFront value).1 = none ∧
    ((d.rotate (-d.place index)).pushFront value).2.rotate (d.place index) = e
  bound : e.bound = d.bound
  there : e.get? (d.place index) = some value
  before : ∀ position < d.place index, e.get? position = d.get? position
  behind : ∀ position ≥ d.place index, e.get? (position + 1) = d.get? position
  undone : e.removeAt (d.place index) = .ok (value, d)
  front : index = 0 → d.pushFront value = (none, e)
  back : d.length ≤ index → d.pushBack value = (none, e)

theorem insertsAt (h : d.isFull = false) (index : Nat) (value : α) :
    d.InsertsAt index value ⟨d.items.insertIdx (d.place index) value, d.bound⟩ where
  inserted := insert_of_room h index value
  turned := by
    refine ⟨?_, insertIdx_eq_turned h (d.place_le index) value⟩
    rw [pushFront_of_room ((isFull_rotate d _).trans h)]
  bound := rfl
  there := List.getElem?_insertIdx_self.trans (if_pos (d.place_le index))
  before position hp := List.getElem?_insertIdx_of_lt hp
  behind position hp := List.getElem?_insertIdx_of_gt (Nat.lt_succ_of_le hp)
  undone := by
    have hthere : (d.items.insertIdx (d.place index) value)[d.place index]? = some value :=
      List.getElem?_insertIdx_self.trans (if_pos (d.place_le index))
    simp [removeAt, hthere, List.eraseIdx_insertIdx_self]
  front hi := by
    rw [pushFront_of_room h, place, hi, Nat.zero_min]
    rfl
  back hi := by
    have hplace : d.place index = d.items.length := Nat.min_eq_right hi
    rw [pushBack_of_room h, hplace, List.insertIdx_length_self]

/-- A removal leaves room for what was removed. -/
theorem insert_of_removeAt (hd : d.Fits) (hp : position < d.items.length) :
    ∃ value e, d.get? position = some value ∧ d.removeAt position = .ok (value, e) ∧ e.insert position value = .ok d := by
  have hget : d.items[position]? = some d.items[position] := List.getElem?_eq_getElem hp
  refine ⟨d.items[position], ⟨d.items.eraseIdx position, d.bound⟩, hget, by simp [removeAt, hget], ?_⟩
  have hlength : (d.items.eraseIdx position).length + 1 = d.items.length := by
    rw [List.length_eraseIdx_of_lt hp]
    omega
  have hroom : (⟨d.items.eraseIdx position, d.bound⟩ : Deque α).isFull = false := by
    rw [Bool.eq_false_iff, Ne, isFull_eq_true_iff]
    rintro ⟨bound, hb, hl⟩
    have hfits := hd bound hb
    dsimp only at hl
    omega
  have hplace : (⟨d.items.eraseIdx position, d.bound⟩ : Deque α).place position = position :=
    Nat.min_eq_left (Nat.lt_succ_iff.1 (Nat.lt_of_lt_of_eq hp hlength.symm))
  rw [insert_of_room hroom, hplace]
  dsimp only
  rw [List.insertIdx_eraseIdx_getElem hp]

/-- Insertion by position, of whichever element and at whichever index. -/
structure InsertsByPosition (d : Deque α) : Prop where
  room : d.isFull = false → ∀ index value, ∃ e, d.InsertsAt index value e
  full : ∀ bound, d.bound = some bound → bound ≤ d.items.length → ∀ index value,
    (Edit.insert index value).apply d = (.error (.full bound), d)
  reinserted : d.Fits → ∀ position < d.items.length, ∃ value e, d.get? position = some value ∧
    d.removeAt position = .ok (value, e) ∧ e.insert position value = .ok d

theorem insertsByPosition (d : Deque α) : d.InsertsByPosition where
  room h index value := ⟨_, insertsAt h index value⟩
  full bound hb hl index value := by
    simp only [Edit.apply, insert_of_full hb hl]
  reinserted hd _ hp := insert_of_removeAt hd hp

end Deque

namespace Edit

variable {α : Type}

/-- What edits answer one after the other, and what they leave. -/
def applyAll : List (Edit α) → Deque α → List (Except Refusal (Option α)) × Deque α
  | [], d => ([], d)
  | change :: changes, d =>
    let (answer, after) := change.apply d
    let (answers, last) := applyAll changes after
    (answer :: answers, last)

/-- The place comes to the front, the value is pushed there, and all goes back. -/
def turnedInsertion (place : Nat) (value : α) : List (Edit α) := [.rotate (-place), .pushFront value, .rotate place]

theorem applyAll_turnedInsertion {d e : Deque α} {index : Nat} {value : α} (h : d.InsertsAt index value e) :
    applyAll (turnedInsertion (d.place index) value) d = ([.ok none, .ok none, .ok none], e) := by
  obtain ⟨hnone, hturned⟩ := h.turned
  simp only [turnedInsertion, applyAll, apply, hnone, hturned]

end Edit

namespace Session

variable {m : Meaning} {s : Session} {name : String} {id : Nat} {d : Deque Element} {literal : Literal}
  {value : Element}

/-- The edit stands for the other one as long as names reach the same deques as now. -/
def Stands (s : Session) (asked : Edit Literal) (change : Edit Element) : Prop :=
  ∀ t : Session, t.shared = s.shared → asked.mapM resolve t = (.ok change, t)

theorem stands_insert (hvalue : resolve literal s = (.ok value, s)) (index : Nat) :
    s.Stands (.insert index literal) (.insert index value) :=
  fun _ ht => bind_ok (resolve_of_shared ht hvalue)

theorem stands_turnedInsertion (hvalue : resolve literal s = (.ok value, s)) (place : Nat) :
    List.Forall₂ s.Stands (Edit.turnedInsertion place literal) (Edit.turnedInsertion place value) :=
  .cons (fun _ _ => rfl) (.cons (fun _ ht => bind_ok (resolve_of_shared ht hvalue)) (.cons (fun _ _ => rfl) .nil))

theorem perform_edit (hname : s.ownedDeque? name = some d) {asked : Edit Literal} {change : Edit Element}
    (h : s.Stands asked change) :
    m.next.perform (.owned name (.edit asked)) s =
      (.ok (answerOptional (change.apply d).1), putOwned name (change.apply d).2 s) := by
  have hop : (OwnedOp.edit asked).mapM resolve s = (.ok (.edit change), s) := bind_ok (h s rfl)
  exact m.runOwned_of_alone hop hname fun _ => rfl

theorem perform_sharedEdit (hname : s.shared.get? name = some id) (hfree : (s.cell id).hold = .free)
    {asked : Edit Literal} {change : Edit Element} (h : s.Stands asked change) :
    m.next.perform (.shared name (.edit asked)) s =
      (.ok (answerOptional (change.apply (s.cell id).deque).1), s.putCell id ((s.cell id).edit change).2) := by
  have hop : (SharedOp.edit asked).mapM resolve s = (.ok (.edit change), s) := bind_ok (h s rfl)
  exact (Meaning.performStep_shared hop hname).trans (bind_ok (changeCell_of_free _ hfree))

/-- Edits of the deque that a register owns. -/
theorem perform_edits (hname : s.ownedDeque? name = some d) {asked : List (Edit Literal)} {changes : List (Edit Element)}
    (h : List.Forall₂ s.Stands asked changes) :
    (asked.map fun change => Step.owned name (.edit change)).mapM m.next.perform s =
      (.ok ((Edit.applyAll changes d).1.map answerOptional), putOwned name (Edit.applyAll changes d).2 s) := by
  induction asked generalizing s d changes with
  | nil =>
    cases h
    exact congrArg (Prod.mk _) (putOwned_of_ownedDeque? hname).symm
  | cons first asked ih =>
    cases h with
    | @cons _ change _ changes hfirst hrest =>
      have hlater := ih (ownedDeque?_putOwned name (change.apply d).2 s) hrest
      rw [putOwned_putOwned] at hlater
      rw [List.map_cons, List.mapM_cons, bind_ok (perform_edit hname hfirst), bind_ok hlater]
      rfl

/-- Edits through a handle while nobody holds the deque. -/
theorem perform_sharedEdits (hname : s.shared.get? name = some id) (hmade : s.Made id) (hfree : (s.cell id).hold = .free)
    {asked : List (Edit Literal)} {changes : List (Edit Element)} (h : List.Forall₂ s.Stands asked changes) :
    ∃ cell, (asked.map fun change => Step.shared name (.edit change)).mapM m.next.perform s =
      (.ok ((Edit.applyAll changes (s.cell id).deque).1.map answerOptional), s.putCell id cell) ∧
      cell.deque = (Edit.applyAll changes (s.cell id).deque).2 := by
  induction asked generalizing s changes with
  | nil =>
    cases h
    exact ⟨s.cell id, congrArg (Prod.mk _) (putCell_cell hmade).symm, rfl⟩
  | cons first asked ih =>
    cases h with
    | @cons _ change _ changes hfirst hrest =>
      have hcell := cell_putCell_self s id ((s.cell id).edit change).2
      have hhold := (Cell.Counted.edit (s.cell id) change hfree).hold.trans hfree
      obtain ⟨cell, hlater, hdeque⟩ := ih (s := s.putCell id ((s.cell id).edit change).2) hname
        (made_putCell s id id _ hmade) (by rw [hcell, hhold]) hrest
      rw [hcell, Cell.deque_edit] at hlater hdeque
      rw [putCell_putCell] at hlater
      refine ⟨cell, ?_, hdeque⟩
      rw [List.map_cons, List.mapM_cons, bind_ok (perform_sharedEdit hname hfree hfirst), bind_ok hlater]
      rfl

/-- Insertion by position in the deques of registers and behind handles. -/
structure InsertsAlike (m : Meaning) (s : Session) (literal : Literal) (value : Element) : Prop where
  owned : ∀ name d index, s.ownedDeque? name = some d → d.isFull = false → ∃ e, d.InsertsAt index value e ∧
    m.perform (.owned name (.edit (.insert index literal))) s = (.ok .nothing, putOwned name e s) ∧
    ((Edit.turnedInsertion (d.place index) literal).map fun change => Step.owned name (.edit change)).mapM m.perform s =
      (.ok [.nothing, .nothing, .nothing], putOwned name e s) ∧
    m.perform (.owned name (.removeAt (d.place index))) (putOwned name e s) = (.ok (.element (some value)), s)
  reinserted : ∀ name d position, s.ownedDeque? name = some d → d.get? position = some value →
    ∃ e, m.perform (.owned name (.removeAt position)) s = (.ok (.element (some value)), putOwned name e s) ∧
      m.perform (.owned name (.edit (.insert position literal))) (putOwned name e s) = (.ok .nothing, s)
  full : ∀ name d bound index, s.ownedDeque? name = some d → d.bound = some bound → bound ≤ d.items.length →
    m.perform (.owned name (.edit (.insert index literal))) s = (.ok (.refused (.full bound)), s)
  shared : ∀ name id index, s.shared.get? name = some id → (s.cell id).deque.isFull = false →
    ∃ once turned : Cell Element, (s.cell id).deque.InsertsAt index value once.deque ∧
      m.perform (.shared name (.edit (.insert index literal))) s = (.ok .nothing, s.putCell id once) ∧
      ((Edit.turnedInsertion ((s.cell id).deque.place index) literal).map fun change =>
        Step.shared name (.edit change)).mapM m.perform s =
          (.ok [.nothing, .nothing, .nothing], s.putCell id turned) ∧ turned.deque = once.deque
  sharedFull : ∀ name id bound index, s.shared.get? name = some id → (s.cell id).deque.bound = some bound →
    bound ≤ (s.cell id).deque.items.length →
    m.perform (.shared name (.edit (.insert index literal))) s = (.ok (.refused (.full bound)), s)

theorem perform_removeAt (hname : s.ownedDeque? name = some d) {e : Deque Element} {position : Nat}
    (h : d.removeAt position = .ok (value, e)) :
    m.next.perform (.owned name (.removeAt position)) s = (.ok (.element (some value)), putOwned name e s) := by
  have hop : (OwnedOp.removeAt position : OwnedOp Literal).mapM resolve s = (.ok (.removeAt position), s) := rfl
  have hrun (u : Session) : (OwnedOp.removeAt position).run m d u = (.ok (.element (some value), e), u) := by
    simp only [OwnedOp.run, h]
    rfl
  exact m.runOwned_of_alone hop hname hrun

theorem insertsAlike (hproper : s.Proper) (hreleased : s.Released) (hvalue : resolve literal s = (.ok value, s)) :
    s.InsertsAlike m.next literal value where
  owned name d index hname hroom := by
    obtain ⟨e, he⟩ := d.insertsByPosition.room hroom index value
    have hinsert := perform_edit (m := m) hname (stands_insert hvalue index)
    have hturned := perform_edits (m := m) hname (stands_turnedInsertion hvalue (d.place index))
    simp only [Edit.apply, he.inserted] at hinsert
    rw [Edit.applyAll_turnedInsertion he] at hturned
    have hremoved := perform_removeAt (m := m) (ownedDeque?_putOwned name e s) he.undone
    rw [putOwned_putOwned, putOwned_of_ownedDeque? hname] at hremoved
    exact ⟨e, he, hinsert, hturned, hremoved⟩
  reinserted name d position hname hget := by
    have hlt : position < d.items.length := (List.getElem?_eq_some_iff.1 hget).1
    obtain ⟨stored, e, hstored, hremoved, hback⟩ :=
      d.insertsByPosition.reinserted (hproper.owned name d hname).fits position hlt
    cases hstored.symm.trans hget
    have hvalue' : resolve literal (putOwned name e s) = (.ok value, putOwned name e s) :=
      resolve_of_shared (s := s) (t := putOwned name e s) rfl hvalue
    have hinsert := perform_edit (m := m) (ownedDeque?_putOwned name e s) (stands_insert hvalue' position)
    simp only [Edit.apply, hback] at hinsert
    rw [putOwned_putOwned, putOwned_of_ownedDeque? hname] at hinsert
    exact ⟨e, perform_removeAt hname hremoved, hinsert⟩
  full name d bound index hname hb hl := by
    have hinsert := perform_edit (m := m) hname (stands_insert hvalue index)
    rw [d.insertsByPosition.full bound hb hl, putOwned_of_ownedDeque? hname] at hinsert
    exact hinsert
  shared name id index hname hroom := by
    have hfree := (hreleased.idle id).free
    have hmade := hreleased.made id (hproper.shared name id hname)
    obtain ⟨e, he⟩ := (s.cell id).deque.insertsByPosition.room hroom index value
    have hdeque : ((s.cell id).edit (.insert index value)).2.deque = e := by
      rw [Cell.deque_edit]
      simp only [Edit.apply, he.inserted]
    have hinsert := perform_sharedEdit (m := m) hname hfree (stands_insert hvalue index)
    simp only [Edit.apply, he.inserted] at hinsert
    obtain ⟨turned, hturned, hsame⟩ := perform_sharedEdits (m := m) hname hmade hfree
      (stands_turnedInsertion hvalue ((s.cell id).deque.place index))
    rw [Edit.applyAll_turnedInsertion he] at hturned hsame
    exact ⟨_, turned, hdeque.symm ▸ he, hinsert, hturned, hsame.trans hdeque.symm⟩
  sharedFull name id bound index hname hb hl := by
    have hmade := hreleased.made id (hproper.shared name id hname)
    have hinsert := perform_sharedEdit (m := m) hname (hreleased.idle id).free (stands_insert hvalue index)
    have hfull : (s.cell id).deque.isFull = true := Deque.isFull_eq_true_iff.2 ⟨bound, hb, hl⟩
    have hcell : ((s.cell id).edit (.insert index value)).2 = s.cell id := by
      simp [Cell.edit, Edit.counts, hfull, (s.cell id).deque.insertsByPosition.full bound hb hl]
    rw [hcell, putCell_cell hmade, (s.cell id).deque.insertsByPosition.full bound hb hl] at hinsert
    exact hinsert

end Session

/-- Deques of every kind of element insert by position, and so do those of a session after any run. -/
theorem insertion_by_position :
    (∀ {α : Type} (d : Deque α), d.InsertsByPosition) ∧
      ∀ (hooks : List (String × Hook)) (environment : Option String) (depth : Nat) (run : List Step) (literal : Literal)
        (value : Element),
        let s := Session.endOf (Meaning.upTo (depth + 1)) run (Session.start hooks environment)
        resolve literal s = (.ok value, s) → s.InsertsAlike (Meaning.upTo (depth + 1)) literal value :=
  ⟨fun d => d.insertsByPosition, fun hooks environment depth run _ _ hvalue =>
    Session.insertsAlike ((Session.proper_start hooks environment).endOf (depth + 1) run)
      (Session.released_endOf hooks environment (depth + 1) run) hvalue⟩

/-- Registers with room, without any and of bound zero, and both kinds of deque behind handles. -/
def Session.roomyAndFull : List Step :=
  [.createOwned "o" (.items [.int 1, .int 2, .int 3] (some 4)), .createOwned "g" (.items [.int 1, .int 7] (some 2)),
    .createOwned "z" (.items [.int 1] (some 0)), .createShared "s" (.items [.int 1, .int 2] none),
    .createShared "t" (.items [.int 1] (some 1))]

/-- Far past the end there is room at the back, a full deque takes back what it gave, and a bound of zero refuses. -/
theorem insertion_by_position_roomy_and_full :
    let m := Meaning.upTo 1
    let s := Session.endOf m Session.roomyAndFull (Session.start [] none)
    (∃ e, m.perform (.owned "o" (.edit (.insert 9 (.int 7)))) s = (.ok .nothing, putOwned "o" e s) ∧
        m.perform (.owned "o" (.removeAt 3)) (putOwned "o" e s) = (.ok (.element (some (.int 7))), s)) ∧
      (∃ e, m.perform (.owned "g" (.removeAt 1)) s = (.ok (.element (some (.int 7))), putOwned "g" e s) ∧
        m.perform (.owned "g" (.edit (.insert 1 (.int 7)))) (putOwned "g" e s) = (.ok .nothing, s)) ∧
      m.perform (.owned "z" (.edit (.insert 0 (.int 7)))) s = (.ok (.refused (.full 0)), s) ∧
      (∃ once : Cell Element, m.perform (.shared "s" (.edit (.insert 1 (.int 7)))) s = (.ok .nothing, s.putCell 0 once) ∧
        once.deque.get? 1 = some (.int 7) ∧ once.deque.get? 2 = some (.int 2)) ∧
      m.perform (.shared "t" (.edit (.insert 1 (.int 7)))) s = (.ok (.refused (.full 1)), s) := by
  intro m s
  have halike : s.InsertsAlike m (.int 7) (.int 7) :=
    insertion_by_position.2 [] none 0 Session.roomyAndFull (.int 7) (.int 7) rfl
  obtain ⟨e, -, hinserted, -, hremoved⟩ := halike.owned "o" ⟨[.int 1, .int 2, .int 3], some 4⟩ 9 rfl rfl
  obtain ⟨once, -, hat, honce, -⟩ := halike.shared "s" 0 1 rfl rfl
  exact ⟨⟨e, hinserted, hremoved⟩, halike.reinserted "g" ⟨[.int 1, .int 7], some 2⟩ 1 rfl rfl,
    halike.full "z" ⟨[], some 0⟩ 0 0 rfl rfl (Nat.le_refl 0),
    ⟨once, honce, hat.there, hat.behind 1 (Nat.le_refl 1)⟩, halike.sharedFull "t" 1 1 1 rfl rfl (Nat.le_refl 1)⟩

end EvictingDeque
