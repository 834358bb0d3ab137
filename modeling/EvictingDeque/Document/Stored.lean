import EvictingDeque.Deque.Repetition
import EvictingDeque.Document.Basic

set_option autoImplicit false

/-!
# Deques and settings as documents

A deque is stored as an object with the fields `items` and `maxlen`. It is read back from such an object,
other fields being ignored and a missing bound meaning none, or from a list of exactly these two. All
entries have to be readable, also those that the bound then discards: what is read is trimmed from the
front, inner deques before outer ones.
-/
namespace EvictingDeque

namespace Document

/-- A size is an integer that fits a machine word. -/
def readSize? : Document → Option Nat
  | .integer (.ofNat value) => if value ≤ Word.largestSize then some value else none
  | _ => none

def readBound? : Document → Option (Option Nat)
  | .null => some none
  | document => (readSize? document).map some

/-- A missing bound is no bound. -/
def readOptionalBound? : Option Document → Option (Option Nat)
  | none => some none
  | some document => readBound? document

def readInteger? : Document → Option Int
  | .integer value => if Word.IsSigned value then some value else none
  | _ => none

def readText? : Document → Option String
  | .text value => some value
  | _ => none

def readEntries? {α : Type} (read? : Document → Option α) : List Document → Option (List α)
  | [] => some []
  | entry :: entries => do
    let value ← read? entry
    let values ← readEntries? read? entries
    some (value :: values)

def readList? {α : Type} (read? : Document → Option α) : Document → Option (List α)
  | .list entries => readEntries? read? entries
  | _ => none

end Document

namespace Deque

variable {α : Type}

def toDocument (write : α → Document) (d : Deque α) : Document :=
  .object [("items", .list (d.items.map write)), ("maxlen", .ofSize d.bound)]

def ofDocument? (read? : Document → Option α) : Document → Option (Deque α)
  | .object fields => do
    let items ← Document.readList? read? (← Document.field? fields "items")
    let bound ← Document.readOptionalBound? (Document.field? fields "maxlen")
    some (ofList items bound)
  | .list [itemsEntry, boundEntry] => do
    let items ← Document.readList? read? itemsEntry
    let bound ← Document.readBound? boundEntry
    some (ofList items bound)
  | _ => none

end Deque

end EvictingDeque
