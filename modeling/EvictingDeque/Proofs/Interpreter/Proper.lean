import EvictingDeque.Proofs.Deque.Changes
import EvictingDeque.Proofs.Deque.Contents
import EvictingDeque.Proofs.Deque.Nested
import EvictingDeque.Proofs.Interpreter.Relation

set_option autoImplicit false

/-!
# Proper sessions

In a proper session every deque fits its bound, those inside stored elements included, and whatever names a shared
deque names one that was made: registers, weak registers, cursors, and the references in stored elements.
-/
namespace EvictingDeque

open Action

def Link.Known (limit : Nat) : Link Handle → Prop
  | .weak target => target.cell < limit
  | .own target => target.cell < limit
  | .hook _ => True

def Value.Known (limit : Nat) (element : Element) : Prop := ∀ link ∈ element.references, link.Known limit

/-- What may be stored: references to deques that were made, and nested deques that fit their bounds. -/
structure Value.Sound (limit : Nat) (element : Element) : Prop where
  known : element.Known limit
  fits : ∀ d ∈ element.deques, d.Fits

structure Deque.Sound (limit : Nat) (d : Deque Element) : Prop where
  fits : d.Fits
  elements : ∀ element ∈ d.items, element.Sound limit

structure Session.Proper (s : Session) : Prop where
  deques : ∀ id, (s.cell id).deque.Sound s.nextCell
  owned : ∀ name d, s.ownedDeque? name = some d → d.Sound s.nextCell
  shared : ∀ name id, s.shared.get? name = some id → id < s.nextCell
  weak : ∀ name id, s.weak.get? name = some id → id < s.nextCell
  cursors : ∀ name cursor, s.cursors.get? name = some cursor → cursor.cell < s.nextCell

theorem Link.Known.mono {limit higher : Nat} (h : limit ≤ higher) {link : Link Handle} (hl : link.Known limit) :
    link.Known higher := by
  cases link with
  | weak target => exact Nat.lt_of_lt_of_le hl h
  | own target => exact Nat.lt_of_lt_of_le hl h
  | hook id => trivial

theorem Value.Known.mono {limit higher : Nat} (h : limit ≤ higher) {element : Element} (he : element.Known limit) :
    element.Known higher :=
  fun link hl => (he link hl).mono h

theorem Value.Known.of_nested {limit : Nat} {d : Deque Element} (h : Value.Known limit (.nested d)) {element : Element}
    (he : element ∈ d.items) : element.Known limit :=
  fun link hl => h link (mem_referencesOfList.2 ⟨element, he, hl⟩)

theorem Value.Known.of_link {limit : Nat} {link : Link Handle} (h : Value.Known limit (.link link)) :
    link.Known limit :=
  h link List.mem_cons_self

theorem Value.Sound.mono {limit higher : Nat} (h : limit ≤ higher) {element : Element} (he : element.Sound limit) :
    element.Sound higher :=
  ⟨he.known.mono h, he.fits⟩

theorem Value.references_addInteger (summand : Int) (element : Element) :
    (addInteger summand element).references = element.references := by
  cases element <;> simp [addInteger, references]

theorem Value.Sound.addInteger {limit : Nat} {element : Element} (he : element.Sound limit) (summand : Int) :
    (Value.addInteger summand element).Sound limit where
  known link hl := by
    rw [references_addInteger] at hl
    exact he.known link hl
  fits d hd := by
    rw [deques_addInteger] at hd
    exact he.fits d hd

namespace Deque

variable {limit : Nat} {d e : Deque Element}

theorem Sound.mono {higher : Nat} (h : limit ≤ higher) (hd : d.Sound limit) : d.Sound higher :=
  ⟨hd.fits, fun element he => (hd.elements element he).mono h⟩

theorem Sound.known (hd : d.Sound limit) : ∀ element ∈ d.items, element.Known limit :=
  fun element he => (hd.elements element he).known

theorem known_of_owner (h : ∀ element ∈ d.items, element.Known limit) {id : Nat} (ho : id ∈ d.owners) : id < limit := by
  obtain ⟨element, helement, howned⟩ := mem_owners.1 ho
  obtain ⟨target, hlink, rfl⟩ := Value.mem_owners_iff_own.1 howned
  exact h element helement _ hlink

theorem sound_empty (bound : Option Nat) : (empty bound : Deque Element).Sound limit :=
  ⟨fits_empty bound, fun _ h => absurd h List.not_mem_nil⟩

/-- Elements that were there, or that were offered and are sound. -/
theorem Sound.of_mem {values : List Element} (hd : d.Sound limit) (hv : ∀ value ∈ values, value.Sound limit)
    (hf : e.Fits) (hm : ∀ element ∈ e.items, element ∈ d.items ∨ element ∈ values) : e.Sound limit :=
  ⟨hf, fun element he => (hm element he).elim (hd.elements element) (hv element)⟩

theorem Sound.of_subset (hd : d.Sound limit) (hf : e.Fits) (hm : ∀ element ∈ e.items, element ∈ d.items) :
    e.Sound limit :=
  ⟨hf, fun element he => hd.elements element (hm element he)⟩

theorem Sound.edit (hd : d.Sound limit) {change : Edit Element} (hc : ∀ value ∈ change.offered, value.Sound limit) :
    (change.apply d).2.Sound limit :=
  hd.of_mem hc (Edit.fits_apply hd.fits change) fun _ => Edit.mem_apply

theorem Sound.ends (hd : d.Sound limit) {op : EndOp Element} (hc : ∀ value ∈ op.offered, value.Sound limit) :
    ((Deque.ends.run op).run d).2.Sound limit :=
  hd.of_mem hc (EndOp.fits_run hd.fits op) fun _ => EndOp.mem_run

theorem Sound.removeAt (hd : d.Sound limit) {position : Nat} {value : Element}
    (hr : d.removeAt position = .ok (value, e)) : e.Sound limit :=
  hd.of_subset (hd.fits.removeAt hr) fun _ => mem_removeAt hr

theorem Sound.replace (hd : d.Sound limit) {position : Nat} {value old : Element} (hv : value.Sound limit)
    (hr : d.replace position value = some (old, e)) : e.Sound limit :=
  have hvalues : ∀ offered ∈ [value], offered.Sound limit := by simpa using hv
  hd.of_mem hvalues (hd.fits.replace hr) fun _ he => by simpa using mem_replace hr he

theorem Sound.repeated? (hd : d.Sound limit) {times : Nat} (hr : d.repeated? times = some e) : e.Sound limit :=
  hd.of_subset (Fits.repeated? hr) fun _ => mem_repeated? hr

theorem Sound.concat (hd : d.Sound limit) (he : e.Sound limit) : (d.concat e).Sound limit :=
  hd.of_mem he.elements (hd.fits.extendBack e.items) fun _ => mem_extendBack

theorem sound_ofList {values : List Element} (hv : ∀ value ∈ values, value.Sound limit) (bound : Option Nat) :
    (ofList values bound).Sound limit :=
  (sound_empty bound).of_mem hv (fits_ofList values bound) fun _ => mem_extendBack

theorem Sound.addInteger (hd : d.Sound limit) (summand : Int) : (d.map (Value.addInteger summand)).Sound limit := by
  refine ⟨hd.fits.map _, fun element he => ?_⟩
  obtain ⟨old, hold, rfl⟩ := List.mem_map.1 he
  exact (hd.elements old hold).addInteger summand

end Deque

namespace Session

variable {s t : Session}

theorem proper_start (hooks : List (String × Hook)) (environment : Option String) :
    (start hooks environment).Proper where
  deques _ := Deque.sound_empty none
  owned _ _ h := nomatch h
  shared _ _ h := nomatch h
  weak _ _ h := nomatch h
  cursors _ _ h := nomatch h

theorem Proper.apart (h : s.Proper) (hst : Session.Apart s t) : t.Proper := by
  obtain ⟨⟨hcells, hnext, hcursors, _⟩, howned, hshared, hweak⟩ := hst
  constructor
  · intro id
    have hcell : t.cell id = s.cell id := by
      unfold Session.cell
      rw [hcells]
    rw [hcell, hnext]
    exact h.deques id
  · intro name d hd
    unfold ownedDeque? at hd
    rw [howned] at hd
    rw [hnext]
    exact h.owned name d hd
  · rw [hshared, hnext]
    exact h.shared
  · rw [hweak, hnext]
    exact h.weak
  · rw [hcursors, hnext]
    exact h.cursors

theorem Proper.pinned (h : s.Proper) (ids : List Nat) : ({ s with pinned := ids } : Session).Proper :=
  h.apart (apart_pinned s ids)

theorem Proper.putCell (h : s.Proper) {id : Nat} {cell : Cell Element} (hc : cell.deque.Sound s.nextCell) :
    (s.putCell id cell).Proper where
  deques other := by
    by_cases hid : id = other
    · subst hid
      rw [cell_putCell_self]
      exact hc
    · rw [cell_putCell_of_ne s hid]
      exact h.deques other
  owned := h.owned
  shared := h.shared
  weak := h.weak
  cursors := h.cursors

theorem Proper.newCell (h : s.Proper) {d : Deque Element} (hd : d.Sound s.nextCell) :
    ({ s.putCell s.nextCell (.fresh d) with nextCell := s.nextCell + 1 } : Session).Proper where
  deques id :=
    have hput : (s.putCell s.nextCell (.fresh d)).Proper := h.putCell hd
    (hput.deques id).mono (Nat.le_succ _)
  owned name d hd := (h.owned name d hd).mono (Nat.le_succ _)
  shared name id hid := Nat.lt_succ_of_lt (h.shared name id hid)
  weak name id hid := Nat.lt_succ_of_lt (h.weak name id hid)
  cursors name cursor hc := Nat.lt_succ_of_lt (h.cursors name cursor hc)

theorem Proper.putOwned (h : s.Proper) {name : String} {d : Deque Element} (hd : d.Sound s.nextCell) :
    (putOwned name d s).Proper where
  deques := h.deques
  owned other e he := by
    simp only [ownedDeque?, Action.putOwned, Table.get?_put] at he
    split at he
    · cases he
      exact hd
    · exact h.owned other e he
  shared := h.shared
  weak := h.weak
  cursors := h.cursors

theorem get?_put_cases {β : Type} {table : Table String β} {name other : String} {value found : β}
    (h : (table.put name value).get? other = some found) : found = value ∨ table.get? other = some found := by
  rw [Table.get?_put] at h
  split at h
  · cases h
    exact .inl rfl
  · exact .inr h

theorem Proper.putShared (h : s.Proper) {name : String} {id : Nat} (hid : id < s.nextCell) :
    ({ s with shared := s.shared.put name id } : Session).Proper where
  deques := h.deques
  owned := h.owned
  shared other found hf := (get?_put_cases hf).elim (fun he => he ▸ hid) (h.shared other found)
  weak := h.weak
  cursors := h.cursors

theorem Proper.putWeak (h : s.Proper) {name : String} {id : Nat} (hid : id < s.nextCell) :
    ({ s with weak := s.weak.put name id } : Session).Proper where
  deques := h.deques
  owned := h.owned
  shared := h.shared
  weak other found hf := (get?_put_cases hf).elim (fun he => he ▸ hid) (h.weak other found)
  cursors := h.cursors

theorem Proper.putCursor (h : s.Proper) {name : String} {cursor : Cursor} (hc : cursor.cell < s.nextCell)
    (happening : Happening) : ({ s with cursors := s.cursors.put name cursor }.note happening).Proper where
  deques := h.deques
  owned := h.owned
  shared := h.shared
  weak := h.weak
  cursors other found hf := (get?_put_cases hf).elim (fun he => he ▸ hc) (h.cursors other found)

theorem Proper.eraseShared (h : s.Proper) (name : String) :
    ({ s with shared := s.shared.erase name } : Session).Proper where
  deques := h.deques
  owned := h.owned
  shared other id hid := h.shared other id (Table.get?_of_get?_erase hid)
  weak := h.weak
  cursors := h.cursors

theorem Proper.eraseCursor (h : s.Proper) (name : String) (happening : Happening) :
    ({ s with cursors := s.cursors.erase name }.note happening).Proper where
  deques := h.deques
  owned := h.owned
  shared := h.shared
  weak := h.weak
  cursors other cursor hc := h.cursors other cursor (Table.get?_of_get?_erase hc)

theorem Proper.note (h : s.Proper) (happening : Happening) : (s.note happening).Proper :=
  ⟨h.deques, h.owned, h.shared, h.weak, h.cursors⟩

theorem Proper.mark (h : s.Proper) (id : Nat) : (mark id s).Proper := h.putCell (h.deques id)

theorem Proper.unmark (h : s.Proper) (id : Nat) : (unmark id s).Proper := by
  unfold Action.unmark
  split
  · exact h.putCell (h.deques id)
  · exact h

theorem nextCell_unmark (id : Nat) (s : Session) : (unmark id s).nextCell = s.nextCell := by
  unfold Action.unmark
  split <;> rfl

theorem Proper.setHold (h : s.Proper) (id : Nat) (hold : Hold → Hold) : (setHold id hold s).Proper :=
  h.putCell (h.deques id)

end Session

end EvictingDeque
