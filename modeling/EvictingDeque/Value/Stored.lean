import EvictingDeque.Document.Stored
import EvictingDeque.Value.Basic

set_option autoImplicit false

/-!
# Values as documents

Integers, texts and deques are stored as such, the other kinds as small objects.
-/
namespace EvictingDeque

namespace Value

variable {ρ : Type}

mutual
def toDocument (write : ρ → Document) : Value ρ → Document
  | .int value => .integer value
  | .text value => .text value
  | .real value => .object [("f", .text value.render)]
  | .keyed key tag => .object [("k", .integer key), ("t", .text tag)]
  | .nested ⟨items, bound⟩ =>
    .object [("items", .list (toDocuments write items)), ("maxlen", .ofSize bound)]
  | .link reference => write reference
termination_by structural value => value

def toDocuments (write : ρ → Document) : List (Value ρ) → List Document
  | [] => []
  | value :: values => toDocument write value :: toDocuments write values
termination_by structural values => values
end

/-- The elements of a document can be asked to be of one of these kinds. -/
inductive Kind where
  | integers
  | texts
  | deques
deriving DecidableEq, Repr

def ofDocument? : Kind → Document → Option (Value ρ)
  | .integers, document => (Document.readInteger? document).map .int
  | .texts, document => (Document.readText? document).map .text
  | .deques, document =>
    (Deque.ofDocument? Document.readInteger? document).map fun d => .nested (d.map .int)

end Value

end EvictingDeque
