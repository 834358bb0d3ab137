import EvictingDeque.Memo
import EvictingDeque.Session.Step
import EvictingDeque.Shared.Cell

set_option autoImplicit false

/-!
# What elements own

An owning element keeps one shared deque alive, a nested deque those of its elements, and every other element
none. What a whole deque owns is listed with each shared deque once.
-/
namespace EvictingDeque

namespace Link

def owned? : Link Handle → Option Nat
  | .own target => some target.cell
  | _ => none

end Link

def Value.owners (element : Element) : List Nat := element.references.filterMap Link.owned?

/-- Owning is a matter of some reference. -/
theorem Value.mem_owners_iff_own {element : Element} {id : Nat} :
    id ∈ element.owners ↔ ∃ target : Handle, .own target ∈ element.references ∧ target.cell = id := by
  constructor
  · intro h
    obtain ⟨link, hlink, howned⟩ := List.mem_filterMap.1 h
    cases link with
    | own target => exact ⟨target, hlink, Option.some.inj howned⟩
    | weak target => cases howned
    | hook hook => cases howned
  · rintro ⟨target, hlink, rfl⟩
    exact List.mem_filterMap.2 ⟨.own target, hlink, rfl⟩

def Deque.owners (d : Deque Element) : List Nat := (d.items.flatMap Value.owners).eraseDups

def Cell.owners (cell : Cell Element) : List Nat := cell.deque.owners

/-- Owning is a matter of some element. -/
theorem Deque.mem_owners {d : Deque Element} {id : Nat} :
    id ∈ d.owners ↔ ∃ element ∈ d.items, id ∈ element.owners := by
  simp [Deque.owners]

end EvictingDeque
