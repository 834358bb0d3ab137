import EvictingDeque.Proofs.Bounds.Runs
import EvictingDeque.Proofs.Documents.Reading

set_option autoImplicit false

/-!
# Deques that are stored and loaded

A stored deque is an object with its elements and its bound, and a loaded one is trimmed to the bound that the document
names. That a deque comes back as it was rests on its fitting its bound, and so do the deques inside it.
-/
namespace EvictingDeque

namespace Value

variable {ρ : Type}

/-- Values of a kind whose integers and sizes fit machine words. -/
inductive IsOf : Kind → Value ρ → Prop
  | integer {value : Int} (signed : Word.IsSigned value) : IsOf .integers (.int value)
  | text (value : String) : IsOf .texts (.text value)
  | deque {d : Deque Int} (signed : ∀ value ∈ d.items, Word.IsSigned value)
      (size : ∀ limit, d.bound = some limit → limit ≤ Word.largestSize) : IsOf .deques (.nested (d.map .int))

end Value

namespace Deque

variable {α ρ : Type}

/-- The elements are values of one kind, and the bound fits a machine word. -/
structure IsOf (kind : Value.Kind) (d : Deque (Value ρ)) : Prop where
  elements : ∀ element ∈ d.items, element.IsOf kind
  size : ∀ limit, d.bound = some limit → limit ≤ Word.largestSize

/-- A deque that fits its bound loses nothing to it. -/
theorem Fits.trims {d : Deque α} (h : d.Fits) : d.Trims d.items d.bound := by
  have hd := trims_ofList d.items d.bound
  rwa [ofList_of_fits h] at hd

end Deque

namespace Deque.MeantBy

variable {α : Type} {means : Document → α → Prop} {document : Document} {d : Deque α}

theorem size (h : d.MeantBy means document) : ∀ limit, d.bound = some limit → limit ≤ Word.largestSize := by
  obtain ⟨offers, -, trims⟩ := h
  have hbound {stored : Document} {bound : Option Nat} (h : stored.MeansBound bound) :
      ∀ limit, bound = some limit → limit ≤ Word.largestSize := by
    rintro limit rfl
    obtain _ | size := h
    exact size
  rw [trims.bound]
  cases offers with
  | bounded _ _ means => exact hbound means
  | unbounded => nofun
  | pair _ means => exact hbound means

end Deque.MeantBy

namespace Deque

variable {kind : Value.Kind} {d : Deque Element} {document : Document}

end Deque

end EvictingDeque
