import EvictingDeque.Proofs.Ownership.Owning

set_option autoImplicit false

/-!
# Nothing leads back to the dead

Whatever a session does after some moment, none of the deques that were dead then is owned, or named by a handle or a
cursor, or kept alive meanwhile: elements come from where they were alive, and a reference that does not own is followed
only to what is alive. So the dead keep what they own and stay dead. An action that keeps to this shuns them.
-/
namespace EvictingDeque

open Action

/-- The element owns nothing that was dead in the session. -/
def Value.Shuns (base : Session) (element : Element) : Prop := ∀ id, element.Owns id → ¬ base.Dead id

def Deque.Shuns (base : Session) (d : Deque Element) : Prop := ∀ element ∈ d.items, element.Shuns base

/-- What was dead in the first session owns no more than it did then, and nothing else leads to it. -/
structure Session.Shuns (s base : Session) : Prop where
  tabled : s.Tabled
  known : base.nextCell ≤ s.nextCell
  kept : ∀ owner id, base.Dead owner → (s.cell owner).deque.Owns id → (base.cell owner).deque.Owns id
  deques : ∀ owner, ¬ base.Dead owner → (s.cell owner).deque.Shuns base
  registers : ∀ name d, s.ownedDeque? name = some d → d.Shuns base
  handles : ∀ name id, s.shared.get? name = some id → ¬ base.Dead id
  cursors : ∀ name cursor, s.cursors.get? name = some cursor → ¬ base.Dead cursor.cell
  pinned : ∀ id ∈ s.pinned, ¬ base.Dead id

variable {base : Session}

namespace Value

variable {element : Element}

theorem Shuns.owners (h : element.Shuns base) : ∀ id ∈ element.owners, ¬ base.Dead id :=
  fun id hid => h id (mem_owners.1 hid)

theorem Shuns.of_nested {d : Deque Element} (h : Value.Shuns base (.nested d)) : d.Shuns base :=
  fun _ hinside id howns => h id (.nested hinside howns)

theorem Shuns.of_own {target : Handle} (h : Value.Shuns base (.link (.own target))) : ¬ base.Dead target.cell :=
  h target.cell (.link rfl)

theorem shuns_of_references (h : element.references = []) : element.Shuns base := by
  intro id howns
  obtain ⟨_, hlink, _⟩ := mem_owners_iff_own.1 (mem_owners.2 howns)
  rw [h] at hlink
  cases hlink

theorem Shuns.addInteger (h : element.Shuns base) (summand : Int) : (Value.addInteger summand element).Shuns base := by
  intro id howns
  refine h id (mem_owners.1 ?_)
  have hsame : (Value.addInteger summand element).owners = element.owners := by
    unfold Value.owners
    rw [references_addInteger]
  exact hsame ▸ mem_owners.2 howns

end Value

namespace Deque

variable {d e : Deque Element}

theorem Shuns.owners (h : d.Shuns base) : ∀ id ∈ d.owners, ¬ base.Dead id := by
  intro id hid
  obtain ⟨element, hm, howns⟩ := mem_owners_iff.1 hid
  exact h element hm id howns

/-- Elements that were there, or that were offered. -/
theorem Shuns.of_mem {values : List Element} (hd : d.Shuns base) (hv : ∀ value ∈ values, value.Shuns base)
    (hm : ∀ element ∈ e.items, element ∈ d.items ∨ element ∈ values) : e.Shuns base :=
  fun element he => (hm element he).elim (hd element) (hv element)

theorem Shuns.of_subset (hd : d.Shuns base) (hm : ∀ element ∈ e.items, element ∈ d.items) : e.Shuns base :=
  fun element he => hd element (hm element he)

theorem shuns_empty (bound : Option Nat) : (empty bound : Deque Element).Shuns base := nofun

theorem shuns_ofList {values : List Element} (hv : ∀ value ∈ values, value.Shuns base) (bound : Option Nat) :
    (ofList values bound).Shuns base :=
  (shuns_empty bound).of_mem hv fun _ => mem_extendBack

theorem Shuns.edit (hd : d.Shuns base) {change : Edit Element} (hc : ∀ value ∈ change.offered, value.Shuns base) :
    (change.apply d).2.Shuns base :=
  hd.of_mem hc fun _ => Edit.mem_apply

theorem Shuns.ends (hd : d.Shuns base) {op : EndOp Element} (hc : ∀ value ∈ op.offered, value.Shuns base) :
    ((Deque.ends.run op).run d).2.Shuns base :=
  hd.of_mem hc fun _ => EndOp.mem_run

theorem Shuns.removeAt (hd : d.Shuns base) {position : Nat} {value : Element}
    (hr : d.removeAt position = .ok (value, e)) : e.Shuns base :=
  hd.of_subset fun _ => mem_removeAt hr

theorem Shuns.replace (hd : d.Shuns base) {position : Nat} {value old : Element} (hv : value.Shuns base)
    (hr : d.replace position value = some (old, e)) : e.Shuns base :=
  fun element he => (mem_replace hr he).elim (hd element) fun hvalue => hvalue ▸ hv

theorem Shuns.repeated? (hd : d.Shuns base) {times : Nat} (hr : d.repeated? times = some e) : e.Shuns base :=
  hd.of_subset fun _ => mem_repeated? hr

theorem Shuns.concat (hd : d.Shuns base) (he : e.Shuns base) : (d.concat e).Shuns base :=
  hd.of_mem he fun _ => mem_extendBack

theorem Shuns.addInteger (hd : d.Shuns base) (summand : Int) : (d.map (Value.addInteger summand)).Shuns base := by
  intro element he
  obtain ⟨old, hold, rfl⟩ := List.mem_map.1 he
  exact (hd old hold).addInteger summand

end Deque

namespace Session

variable {s t : Session} {id : Nat}

/-- Nothing leads to the dead from the moment at which they are dead. -/
theorem Settled.shuns (h : base.Settled) : base.Shuns base where
  tabled := h.toTabled
  known := Nat.le_refl _
  kept _ _ _ howns := howns
  deques _ hlives element hm _ howns hdead := hlives (hdead.owner ⟨element, hm, howns⟩)
  registers _ _ hd element hm _ howns hdead := hdead.unrooted (.register hd ⟨element, hm, howns⟩)
  handles _ _ hname hdead := hdead.unrooted (.handle hname)
  cursors _ _ hname hdead := hdead.unrooted (.cursor hname rfl)
  pinned id hid := by
    rw [h.pinned] at hid
    cases hid

/-- The dead stay dead: each has only owners that are dead as well. -/
theorem Shuns.isLiving (h : s.Shuns base) (hid : base.Dead id) : s.isLiving id = false := by
  induction hid with
  | fades known unrooted owners ih =>
    have hdead : base.Dead _ := .fades known unrooted owners
    refine Bool.eq_false_iff.2 fun hlives => ?_
    rcases h.tabled.referred_of_living hlives with (hrooted | ⟨howner, howns⟩) | hpinned
    · rcases hrooted with hname | ⟨hname, rfl⟩ | ⟨hname, element, hm, howns⟩
      · exact h.handles _ _ hname hdead
      · exact h.cursors _ _ hname hdead
      · exact h.registers _ _ hname element hm _ howns hdead
    · rename_i owner
      by_cases hfate : base.Dead owner
      · exact Bool.eq_false_iff.1 (ih owner (h.kept owner _ hfate howns)) howner
      · obtain ⟨element, hm, howns⟩ := howns
        exact h.deques owner hfate element hm _ howns hdead
    · exact h.pinned _ hpinned hdead

theorem Shuns.alive (h : s.Shuns base) (hid : s.isLiving id = true) : ¬ base.Dead id := fun hdead =>
  Bool.eq_false_iff.1 (h.isLiving hdead) hid

/-- What else a session has leads nowhere. -/
theorem Shuns.of_same (h : s.Shuns base) (hc : t.cells = s.cells) (hn : t.nextCell = s.nextCell)
    (ho : t.owned = s.owned) (hs : t.shared = s.shared) (hu : t.cursors = s.cursors)
    (hp : ∀ id ∈ t.pinned, ¬ base.Dead id) : t.Shuns base where
  tabled := ⟨hc ▸ h.tabled.cells, ho ▸ h.tabled.owned, hs ▸ h.tabled.shared, hu ▸ h.tabled.cursors⟩
  known := hn ▸ h.known
  kept owner id hdead howns := h.kept owner id hdead (cell_of_cells hc owner ▸ howns)
  deques owner hlives := cell_of_cells hc owner ▸ h.deques owner hlives
  registers name d hd := h.registers name d (by rwa [ownedDeque?, ho] at hd)
  handles name id hid := h.handles name id (hs ▸ hid)
  cursors name cursor hcursor := h.cursors name cursor (hu ▸ hcursor)
  pinned := hp

theorem Shuns.with_pinned (h : s.Shuns base) {ids : List Nat} (hids : ∀ id ∈ ids, ¬ base.Dead id) :
    ({ s with pinned := ids } : Session).Shuns base :=
  h.of_same rfl rfl rfl rfl rfl hids

theorem Shuns.putCell (h : s.Shuns base) (hid : ¬ base.Dead id) {cell : Cell Element} (hc : cell.deque.Shuns base) :
    (s.putCell id cell).Shuns base where
  tabled := { h.tabled with cells := h.tabled.cells.put id _ }
  known := h.known
  kept owner other hdead howns := by
    have hne : id ≠ owner := fun he => hid (he ▸ hdead)
    rw [cell_putCell_of_ne s hne] at howns
    exact h.kept owner other hdead howns
  deques owner hlives := by
    by_cases he : id = owner
    · subst he
      rwa [cell_putCell_self]
    · rw [cell_putCell_of_ne s he]
      exact h.deques owner hlives
  registers := h.registers
  handles := h.handles
  cursors := h.cursors
  pinned := h.pinned

theorem Shuns.fresh (h : s.Shuns base) : ¬ base.Dead s.nextCell := fun hdead =>
  Nat.not_lt.2 h.known hdead.known

theorem Shuns.newCell (h : s.Shuns base) {d : Deque Element} (hd : d.Shuns base) :
    ({ s.putCell s.nextCell (.fresh d) with nextCell := s.nextCell + 1 } : Session).Shuns base :=
  have hcell : (Cell.fresh d).deque.Shuns base := hd
  have hput := h.putCell h.fresh hcell
  { hput with known := Nat.le_succ_of_le hput.known, tabled := { hput.tabled with } }

theorem Shuns.putOwned (h : s.Shuns base) {d : Deque Element} (hd : d.Shuns base) (name : String) :
    (putOwned name d s).Shuns base where
  tabled := { h.tabled with owned := h.tabled.owned.put name _ }
  known := h.known
  kept := h.kept
  deques := h.deques
  registers other e he := by
    simp only [ownedDeque?, Action.putOwned, Table.get?_put] at he
    split at he
    · cases he
      exact hd
    · exact h.registers other e he
  handles := h.handles
  cursors := h.cursors
  pinned := h.pinned

theorem Shuns.putShared (h : s.Shuns base) (hid : ¬ base.Dead id) (name : String) :
    ({ s with shared := s.shared.put name id } : Session).Shuns base where
  tabled := { h.tabled with shared := h.tabled.shared.put name id }
  known := h.known
  kept := h.kept
  deques := h.deques
  registers := h.registers
  handles other found hf := (get?_put_cases hf).elim (fun he => he ▸ hid) (h.handles other found)
  cursors := h.cursors
  pinned := h.pinned

theorem Shuns.putCursor (h : s.Shuns base) {cursor : Cursor} (hc : ¬ base.Dead cursor.cell) (name : String)
    (happening : Happening) : ({ s with cursors := s.cursors.put name cursor }.note happening).Shuns base where
  tabled := { h.tabled with cursors := h.tabled.cursors.put name cursor }
  known := h.known
  kept := h.kept
  deques := h.deques
  registers := h.registers
  handles := h.handles
  cursors other found hf := (get?_put_cases hf).elim (fun he => he ▸ hc) (h.cursors other found)
  pinned := h.pinned

theorem Shuns.eraseShared (h : s.Shuns base) (name : String) :
    ({ s with shared := s.shared.erase name } : Session).Shuns base where
  tabled := { h.tabled with shared := h.tabled.shared.erase name }
  known := h.known
  kept := h.kept
  deques := h.deques
  registers := h.registers
  handles other id hid := h.handles other id (Table.get?_of_get?_erase hid)
  cursors := h.cursors
  pinned := h.pinned

theorem Shuns.eraseCursor (h : s.Shuns base) (name : String) (happening : Happening) :
    ({ s with cursors := s.cursors.erase name }.note happening).Shuns base where
  tabled := { h.tabled with cursors := h.tabled.cursors.erase name }
  known := h.known
  kept := h.kept
  deques := h.deques
  registers := h.registers
  handles := h.handles
  cursors other cursor hc := h.cursors other cursor (Table.get?_of_get?_erase hc)
  pinned := h.pinned

end Session

end EvictingDeque
