import EvictingDeque.Deque.Order
import EvictingDeque.Session.Owners
import EvictingDeque.Shared.Cursor
import EvictingDeque.Table
import EvictingDeque.Warning

set_option autoImplicit false

/-!
# Sessions and actions

A session is the shared deques, the registers, and what was reported since the current step began. What a
deque in it owns is worked out once. An action changes the session and either answers or is interrupted; an
interruption keeps the changes that were made before it.
-/
namespace EvictingDeque

inductive Panic where
  | borrowed
  | noRoom
  | outOfBounds
  | raised (message : String)
deriving DecidableEq, Repr

def Panic.message : Panic → String
  | .borrowed => "borrow"
  | .noRoom => "capacity overflow"
  | .outOfBounds => "out of bounds"
  | .raised message => message

/-- Why an action has no answer. Only panics are part of what a session can do; the others say that the
steps were no proper session, or that steps inside steps went deeper than was allowed for. -/
inductive Interrupt where
  | panic (cause : Panic)
  | undefined
  | misplaced
  | tooDeep
deriving DecidableEq, Repr

/-- What a step answers. -/
inductive Answer where
  | element (value : Option Element)
  | elements (values : List Element)
  | slots (values : List (Option Element))
  | flag (value : Bool)
  | size (value : Nat)
  | text (value : String)
  | created (bound : Option Nat)
  | deque (value : Deque Element)
  | extent (value : Extent)
  | extentWithoutFull (length : Nat) (bound : Option Nat) (isEmpty : Bool)
  | comparison (value : Comparison)
  | rank (order : Ordering) (larger smaller : List Element)
  | copied (bound : Option Nat) (samePlace equal : Bool)
  | refused (refusal : Refusal)
  | unreadable
  | interrupted (cause : Interrupt)
  | several (answers : List Answer)

def Answer.nothing : Answer := .element none

/-- What statements about whole runs look back on: that a cursor was made over so many mutations and these elements,
what it was asked and told when its deque had seen how many, that it was dropped, and that a hold for change was
cut short. -/
inductive Happening where
  | made (cursor : String) (cell mutations : Nat) (items : List Element)
  | advanced (cursor : String) (mutations : Nat) (visit : Option (Except Refusal Element))
  | drained (cursor : String) (mutations : Nat) (visits : List (Except Refusal Element))
  | dropped (cursor : String)
  | cutShort (cell : Nat)

/-- The latest event stands first, and so does the latest entry of the journal, on which no answer depends. -/
structure Session where
  cells : Table Nat (Memo Cell.owners)
  nextCell : Nat
  owned : Table String (Memo Deque.owners)
  shared : Table String Nat
  weak : Table String Nat
  cursors : Table String Cursor
  hooks : Table String Hook
  pinned : List Nat
  events : List (String × Answer)
  warnings : Warning.Switch
  printed : String
  journal : List Happening

namespace Session

def start (hooks : List (String × Hook)) (environment : Option String) : Session where
  cells := .empty
  nextCell := 0
  owned := .empty
  shared := .empty
  weak := .empty
  cursors := .empty
  hooks := ⟨hooks⟩
  pinned := []
  events := []
  warnings := Warning.fresh environment
  printed := ""
  journal := []

/-- A place that was never written holds an empty deque. -/
def cell (s : Session) (id : Nat) : Cell Element :=
  ((s.cells.get? id).map (·.value)).getD (.fresh (.empty none))

def putCell (s : Session) (id : Nat) (cell : Cell Element) : Session :=
  { s with cells := s.cells.put id (.of _ cell) }

def note (happening : Happening) (s : Session) : Session := { s with journal := happening :: s.journal }

def ownedDeque? (s : Session) (name : String) : Option (Deque Element) :=
  (s.owned.get? name).map (·.value)

def hook (s : Session) (id : String) : Hook := (s.hooks.get? id).getD (.idle id)

@[simp]
theorem cell_putCell_self (s : Session) (id : Nat) (cell : Cell Element) :
    (s.putCell id cell).cell id = cell := by
  simp [Session.cell, putCell]

theorem cell_putCell_of_ne (s : Session) {id other : Nat} (h : id ≠ other) (cell : Cell Element) :
    (s.putCell id cell).cell other = s.cell other := by
  simp [Session.cell, putCell, Table.get?_put_of_ne _ h]

end Session

def Action (α : Type) : Type := Session → Except Interrupt α × Session

namespace Action

variable {α β : Type}

@[inline]
def answer (value : α) : Action α := fun s => (.ok value, s)

@[inline]
def andThen (action : Action α) (next : α → Action β) : Action β := fun s =>
  match action s with
  | (.ok value, s) => next value s
  | (.error interrupt, s) => (.error interrupt, s)

@[always_inline]
instance : Monad Action where
  pure := answer
  bind := andThen

def interrupt (cause : Interrupt) : Action α := fun s => (.error cause, s)

def panic (cause : Panic) : Action α := interrupt (.panic cause)

def read (f : Session → α) : Action α := fun s => (.ok (f s), s)

def update (f : Session → Session) : Action Unit := fun s => (.ok (), f s)

/-- What has to happen however the action ends. -/
def ensuring (action : Action α) (finish : Session → Session) : Action α := fun s =>
  let (outcome, s) := action s
  (outcome, finish s)

/-- What has to happen if the action is interrupted. -/
def recovering (action : Action α) (recover : Session → Session) : Action α := fun s =>
  match action s with
  | (.ok value, s) => (.ok value, s)
  | (.error interrupt, s) => (.error interrupt, recover s)

@[simp]
theorem pure_apply (value : α) (s : Session) : (pure value : Action α) s = (.ok value, s) := rfl

theorem read_apply (f : Session → α) (s : Session) : read f s = (.ok (f s), s) := rfl

theorem update_apply (f : Session → Session) (s : Session) : update f s = (.ok (), f s) := rfl

theorem bind_apply (action : Action α) (next : α → Action β) (s : Session) :
    (action >>= next) s =
      match action s with
      | (.ok value, s) => next value s
      | (.error interrupt, s) => (.error interrupt, s) := rfl

theorem bind_ok {action : Action α} {next : α → Action β} {s t : Session} {value : α}
    (h : action s = (.ok value, t)) : (action >>= next) s = next value t := by
  rw [bind_apply, h]

theorem bind_error {action : Action α} {next : α → Action β} {s t : Session} {cause : Interrupt}
    (h : action s = (.error cause, t)) : (action >>= next) s = (.error cause, t) := by
  rw [bind_apply, h]

instance : LawfulMonad Action := LawfulMonad.mk' Action
  (by
    intro α action
    funext s
    change (match action s with
      | (.ok value, s) => (.ok value, s)
      | (.error interrupt, s) => (.error interrupt, s)) = action s
    rcases action s with ⟨_ | _, _⟩ <;> rfl)
  (by intros; rfl)
  (by
    intro α β γ action f g
    funext s
    simp only [bind_apply]
    rcases action s with ⟨_ | _, _⟩ <;> rfl)

end Action

end EvictingDeque
