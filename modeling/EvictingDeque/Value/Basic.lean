import EvictingDeque.Binary64.Decimal
import EvictingDeque.Deque.Basic
import EvictingDeque.Word

set_option autoImplicit false

/-!
# Values

What a deque may hold: plain data, deques of values, and references of some type `ρ`. Over an empty
`ρ` there is only plain data.
-/
namespace EvictingDeque

inductive Value (ρ : Type) where
  | int (value : Int)
  | text (value : String)
  | real (value : Binary64)
  | keyed (key : Int) (tag : String)
  | nested (deque : Deque (Value ρ))
  | link (reference : ρ)

namespace Value

variable {ρ σ : Type}

mutual
/-- The references in a value, at every depth, in the order in which they stand. -/
def references : Value ρ → List ρ
  | .nested ⟨items, _⟩ => referencesOfList items
  | .link reference => [reference]
  | _ => []
termination_by structural value => value

def referencesOfList : List (Value ρ) → List ρ
  | [] => []
  | value :: values => references value ++ referencesOfList values
termination_by structural values => values
end

theorem mem_referencesOfList {values : List (Value ρ)} {reference : ρ} :
    reference ∈ referencesOfList values ↔ ∃ value ∈ values, reference ∈ value.references := by
  induction values with
  | nil => simp [referencesOfList]
  | cons value values ih => simp [referencesOfList, ih]

mutual
/-- The same value with other references, if each of them can be replaced. Deques inside it are built anew, so
they fit their bounds. -/
def replace? (f : ρ → Option σ) : Value ρ → Option (Value σ)
  | .int value => some (.int value)
  | .text value => some (.text value)
  | .real value => some (.real value)
  | .keyed key tag => some (.keyed key tag)
  | .nested ⟨items, bound⟩ => (replaceAll? f items).map fun items => .nested (.ofList items bound)
  | .link reference => (f reference).map .link
termination_by structural value => value

def replaceAll? (f : ρ → Option σ) : List (Value ρ) → Option (List (Value σ))
  | [] => some []
  | value :: values => do
    let value ← replace? f value
    let values ← replaceAll? f values
    some (value :: values)
termination_by structural values => values
end

/-- Addition in the integers of a signed machine word; other values stay as they are. -/
def addInteger (summand : Int) : Value ρ → Value ρ
  | .int value => .int (Word.wrap (value + summand))
  | value => value

end Value

end EvictingDeque
