import EvictingDeque.Session.Ownership

set_option autoImplicit false

/-!
# Reaching a shared deque

Reading is refused by a panic while somebody holds the deque for changing it, and changing it while anybody
holds it at all. A hold ends with the action it was taken for, whichever way that ends.
-/
namespace EvictingDeque.Action

variable {α β : Type}

def readCell (id : Nat) : Action (Cell Element) := fun s =>
  let cell := s.cell id
  if cell.hold.allowsReading then (.ok cell, s) else (.error (.panic .borrowed), s)

def changeCell (id : Nat) (change : Cell Element → β × Cell Element) : Action β := fun s =>
  let cell := s.cell id
  if cell.hold = .free then
    let (value, cell) := change cell
    (.ok value, s.putCell id cell)
  else (.error (.panic .borrowed), s)

def newCell (d : Deque Element) : Action Nat := fun s =>
  (.ok s.nextCell, { s.putCell s.nextCell (.fresh d) with nextCell := s.nextCell + 1 })

/-- The deques in the list stay alive while the action runs. -/
def pinning (ids : List Nat) (action : Action α) : Action α := fun s =>
  let (outcome, after) := action { s with pinned := ids ++ s.pinned }
  (outcome, { after with pinned := s.pinned })

def setHold (id : Nat) (hold : Hold → Hold) (s : Session) : Session :=
  let cell := s.cell id
  s.putCell id { cell with hold := hold cell.hold }

def holdingForReading (id : Nat) (action : Action α) : Action α := do
  let _ ← readCell id
  update (setHold id Hold.enterReading)
  (pinning [id] action).ensuring (setHold id Hold.leaveReading)

/-- The mutation is counted when the action has answered, and not at all if it was interrupted. -/
def holdingForChange (id : Nat) (action : Action α) : Action α := do
  changeCell id fun cell => ((), { cell with hold := .exclusive })
  let counted : Action α := do
    let value ← pinning [id] action
    update fun s => s.putCell id ((s.cell id).mutated (s.cell id).deque)
    return value
  (counted.recovering (Session.note (.cutShort id))).ensuring (setHold id fun _ => .free)

def warn (message : String) : Action Unit := fun s =>
  let (allowed, switch) := s.warnings.warn message
  let printed := if allowed then s.printed ++ Warning.line message else s.printed
  (.ok (), { s with warnings := switch, printed := printed })

def required (lookup : Session → Option α) : Action α := fun s =>
  match lookup s with
  | some value => (.ok value, s)
  | none => (.error .undefined, s)

def ownedRegister (name : String) : Action (Deque Element) := required (·.ownedDeque? name)

def sharedRegister (name : String) : Action Nat := required (·.shared.get? name)

def putOwned (name : String) (d : Deque Element) (s : Session) : Session :=
  { s with owned := s.owned.put name (.of _ d) }

def setOwned (name : String) (d : Deque Element) : Action Unit := update (putOwned name d)

def setShared (name : String) (id : Nat) : Action Unit :=
  update fun s => { s with shared := s.shared.put name id }

/-- A name in a reference stands for the deque that it reaches now. -/
def resolveLink (s : Session) : Link String → Option (Link Handle)
  | .weak name => (s.shared.get? name).map fun id => .weak ⟨name, id⟩
  | .own name => (s.shared.get? name).map fun id => .own ⟨name, id⟩
  | .hook id => some (.hook id)

def resolve (literal : Literal) : Action Element := required fun s => literal.replace? (resolveLink s)

end EvictingDeque.Action
