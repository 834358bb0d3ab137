import EvictingDeque.Proofs.Window.Trailing
import EvictingDeque.Value.Stored
import Mathlib.Data.List.Forall2

set_option autoImplicit false

/-!
# What documents mean

Which documents offer entries and a bound to a deque, and what each entry means, is laid down here without regard to how
documents are read. Reading succeeds on these documents and on no others. All entries have to mean something, also those
that the bound then discards, and what is kept is the trailing part.
-/
namespace EvictingDeque

namespace Document

/-- The last field of that name has this value. -/
def Holds (fields : List (String × Document)) (key : String) (value : Document) : Prop :=
  ∃ before after, fields = before ++ (key, value) :: after ∧ ∀ field ∈ after, field.1 ≠ key

def Lacks (fields : List (String × Document)) (key : String) : Prop := ∀ field ∈ fields, field.1 ≠ key

inductive MeansBound : Document → Option Nat → Prop
  | unlimited : MeansBound .null none
  | limit {value : Nat} (size : value ≤ Word.largestSize) : MeansBound (.integer value) (some value)

inductive MeansInteger : Document → Int → Prop
  | integer {value : Int} (signed : Word.IsSigned value) : MeansInteger (.integer value) value

inductive MeansText : Document → String → Prop
  | text (value : String) : MeansText (.text value) value

/-- The document has the form of a stored deque, as an object or as a list of two, with these entries and this bound.
Fields of other names are of no account. -/
inductive Offers : Document → List Document → Option Nat → Prop
  | bounded {fields : List (String × Document)} {entries : List Document} {stored : Document} {bound : Option Nat}
      (items : Holds fields "items" (.list entries)) (maxlen : Holds fields "maxlen" stored)
      (means : MeansBound stored bound) : Offers (.object fields) entries bound
  | unbounded {fields : List (String × Document)} {entries : List Document}
      (items : Holds fields "items" (.list entries)) (maxlen : Lacks fields "maxlen") : Offers (.object fields) entries none
  | pair (entries : List Document) {stored : Document} {bound : Option Nat} (means : MeansBound stored bound) :
      Offers (.list [.list entries, stored]) entries bound

end Document

namespace Deque

variable {α : Type}

/-- The deque is what a bound leaves of some values: the last of them, as many as it allows. -/
structure Trims (values : List α) (bound : Option Nat) (d : Deque α) : Prop where
  trailing : d.items <:+ values
  length : d.items.length = bound.elim values.length (min · values.length)
  bound : d.bound = bound

theorem trims_ofList (values : List α) (bound : Option Nat) : (ofList values bound).Trims values bound := by
  rw [ofList_eq]
  refine ⟨?_, ?_, rfl⟩
  · rw [window_eq_drop]
    exact List.drop_suffix _ _
  · cases bound with
    | none => rfl
    | some bound => exact (length_window bound values).trans (Nat.min_comm _ _)

/-- The deque that a document means, given what its entries mean. -/
inductive MeantBy (means : Document → α → Prop) (document : Document) (d : Deque α) : Prop
  | meant {entries : List Document} {bound : Option Nat} {values : List α} (offers : document.Offers entries bound)
      (each : List.Forall₂ means entries values) (trims : d.Trims values bound)

end Deque

namespace Value

variable {ρ : Type}

inductive MeantBy : Kind → Document → Value ρ → Prop
  | integer {document : Document} {value : Int} (means : document.MeansInteger value) : MeantBy .integers document (.int value)
  | text {document : Document} {value : String} (means : document.MeansText value) : MeantBy .texts document (.text value)
  | deque {document : Document} {d : Deque Int} (meant : d.MeantBy Document.MeansInteger document) :
      MeantBy .deques document (.nested (d.map .int))

end Value

/-! Fields -/

namespace Document

variable {fields : List (String × Document)} {key : String} {value : Document}

variable {α : Type} {read? : Document → Option α} {means : Document → α → Prop}

end Document

/-! Deques -/

end EvictingDeque
