import EvictingDeque.Deque.Written
import EvictingDeque.Session.Meaning
import EvictingDeque.Text.Quoted

set_option autoImplicit false

/-!
# Writing elements and shared deques

A shared deque is written as it was when its writing began, whatever its elements do to it meanwhile. It is
marked while it is being written, and where it comes up inside itself the mark shows instead. The mark goes
when the writing ends, also if it is interrupted. If the deque was mutated meanwhile, there is a warning
afterwards.
-/
namespace EvictingDeque

def Link.droppedText : String := "<dropped>"

namespace Action

def writeItems (write : Element → Action String) (d : Deque Element) : Action String := do
  let texts ← d.items.mapM write
  return Deque.written texts d.bound

def mark (id : Nat) (s : Session) : Session := s.putCell id { s.cell id with formatting := true }

/-- A deque that is held cannot be unmarked. -/
def unmark (id : Nat) (s : Session) : Session :=
  if (s.cell id).hold = .free then s.putCell id { s.cell id with formatting := false } else s

def writeCell (write : Element → Action String) (id : Nat) : Action String := fun s =>
  let cell := s.cell id
  if cell.hold ≠ .free then (.error (.panic .borrowed), s)
  else if cell.formatting then (.ok Deque.recursionMark, s)
  else
    let writing : Action String := do
      update (mark id)
      (pinning (id :: cell.deque.owners) (writeItems write cell.deque)).ensuring (unmark id)
    let finished : Action String := do
      let text ← writing
      let after ← readCell id
      if after.mutations ≠ cell.mutations then warn Warning.changedWhileWritten
      return text
    finished s

end Action

namespace Meaning

def writeElement (m : Meaning) : Element → Action String
  | .int value => pure (toString value)
  | .text value => pure (Text.quoted value)
  | .real value => pure value.render
  | .keyed key tag => pure (toString key ++ "#" ++ tag)
  | .nested d => Action.writeItems m.write d
  | .link (.own target) => Action.writeCell m.write target.cell
  | .link (.weak target) => do
    if ← Action.read (·.isLiving target.cell) then Action.writeCell m.write target.cell
    else return Link.droppedText
  | .link (.hook id) => do
    Hook.act m id (·.whenWritten)
    Action.read fun s => (s.hook id).text

end Meaning

end EvictingDeque
