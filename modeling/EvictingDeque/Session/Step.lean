import EvictingDeque.Deque.Edit
import EvictingDeque.Deque.Search
import EvictingDeque.Deque.Walk
import EvictingDeque.DoubleEnded
import EvictingDeque.Settings
import EvictingDeque.Value.Stored

set_option autoImplicit false

/-!
# Steps of a session

A session keeps deques in named registers: some are owned by their register, some are shared and reached
through handles. A step addresses one register, or none. Elements are written in steps with the names of
registers in their references; performing the step replaces the names by what they stand for.
-/
namespace EvictingDeque

/-- What an element may refer to: a shared deque, with or without keeping it alive, or a hook, which is
an element with scripts. -/
inductive Link (η : Type) where
  | weak (target : η)
  | own (target : η)
  | hook (id : String)
deriving DecidableEq, Repr

/-- A shared deque under the name by which it was reached. -/
structure Handle where
  name : String
  cell : Nat
deriving DecidableEq, Repr

abbrev Literal : Type := Value (Link String)

abbrev Element : Type := Value (Link Handle)

/-- Questions that owned and shared deques answer alike. -/
inductive Query (α : Type) where
  | get (index : Nat)
  | toList
  | count (value : α)
  | contains (value : α)
  | index (value : α)

/-- What a new deque is made from. -/
inductive Source (α : Type) where
  | empty (bound : Option Nat)
  | settings (settings : Settings)
  | items (values : List α) (bound : Option Nat)
  | document (kind : Value.Kind) (document : Document)
  | register (name : String)

/-- Operations on a deque that is at hand: owned by a register, or held by a body. -/
inductive OwnedOp (α : Type) where
  | edit (edit : Edit α)
  | ends (op : EndOp α)
  | ask (query : Query α)
  | extent
  | front
  | back
  | slot (index : Nat)
  | indexWithin (value : α) (span : Span)
  | walk (sides : List Side)
  | written
  | stored
  | remove (value : α)
  | removeAt (index : Nat)
  | replace (index : Nat) (value : α)
  | assign (index : Nat) (value : α)
  | addInteger (summand : Int)
  | repeatInPlace (times : Nat)
  | concatInPlace (other : String)
  | copy (into : Option String)
  | repeated (times : Nat) (into : Option String)
  | concat (other : String) (into : Option String)
  | compareWith (other : String)
  | rankWith (other : String)
  | hashAgreesWith (other : String)

/-- Operations through a handle of a shared deque. -/
inductive SharedOp (α : Type) where
  | edit (edit : Edit α)
  | ends (op : EndOp α)
  | ask (query : Query α)
  | remove (value : α)
  | extent
  | written
  | share (into : String)
  | copy (into : String)
  | downgrade (into : String)
  | samePlace (other : String)
  | equal (other : String)
  | visit (cursor : String)
  | extendFrom (cursor : String)

inductive CursorOp where
  | next
  | collect
  | drop
deriving DecidableEq, Repr

/-- A body runs while its deque is held; its own operations work on that deque directly. -/
inductive Step where
  | panic (message : String)
  | chooseWarnings (on : Bool)
  | askWarnings
  | warn (message : String)
  | createOwned (name : String) (source : Source Literal)
  | owned (name : String) (op : OwnedOp Literal)
  | createShared (name : String) (source : Source Literal)
  | shared (name : String) (op : SharedOp Literal)
  | hold (name : String) (exclusive : Bool) (body : List (OwnedOp Literal ⊕ Step))
  | drop (name : String)
  | upgrade (name weak : String)
  | cursor (name : String) (cursor : String) (op : CursorOp)

/-- An element that acts when it is written or stands on the left of a comparison. -/
structure Hook where
  text : String
  equal : Bool
  times : Option Nat
  whenWritten : List Step
  whenCompared : List Step

/-- A hook that does nothing. -/
def Hook.idle (id : String) : Hook := ⟨id, false, none, [], []⟩

namespace Edit

variable {m : Type → Type} [Monad m] {α β : Type}

def mapM (f : α → m β) : Edit α → m (Edit β)
  | .pushBack value => return .pushBack (← f value)
  | .pushFront value => return .pushFront (← f value)
  | .popBack => return .popBack
  | .popFront => return .popFront
  | .extendBack values => return .extendBack (← values.mapM f)
  | .extendFront values => return .extendFront (← values.mapM f)
  | .clear => return .clear
  | .insert index value => return .insert index (← f value)
  | .rotate steps => return .rotate steps
  | .reverse => return .reverse

end Edit

namespace EndOp

variable {m : Type → Type} [Monad m] {α β : Type}

def mapM (f : α → m β) : EndOp α → m (EndOp β)
  | .extent => return .extent
  | .pushBack value => return .pushBack (← f value)
  | .pushFront value => return .pushFront (← f value)
  | .popBack => return .popBack
  | .popFront => return .popFront
  | .extendBack values => return .extendBack (← values.mapM f)
  | .extendFront values => return .extendFront (← values.mapM f)

end EndOp

namespace Query

variable {m : Type → Type} [Monad m] {α β : Type}

def mapM (f : α → m β) : Query α → m (Query β)
  | .get position => return .get position
  | .toList => return .toList
  | .count value => return .count (← f value)
  | .contains value => return .contains (← f value)
  | .index value => return .index (← f value)

end Query

namespace OwnedOp

variable {m : Type → Type} [Monad m] {α β : Type}

def mapM (f : α → m β) : OwnedOp α → m (OwnedOp β)
  | .edit change => return .edit (← change.mapM f)
  | .ends op => return .ends (← op.mapM f)
  | .ask query => return .ask (← query.mapM f)
  | .extent => return .extent
  | .front => return .front
  | .back => return .back
  | .slot index => return .slot index
  | .indexWithin value span => return .indexWithin (← f value) span
  | .walk sides => return .walk sides
  | .written => return .written
  | .stored => return .stored
  | .remove value => return .remove (← f value)
  | .removeAt index => return .removeAt index
  | .replace index value => return .replace index (← f value)
  | .assign index value => return .assign index (← f value)
  | .addInteger summand => return .addInteger summand
  | .repeatInPlace times => return .repeatInPlace times
  | .concatInPlace other => return .concatInPlace other
  | .copy into => return .copy into
  | .repeated times into => return .repeated times into
  | .concat other into => return .concat other into
  | .compareWith other => return .compareWith other
  | .rankWith other => return .rankWith other
  | .hashAgreesWith other => return .hashAgreesWith other

/-- Operations that may leave the deque at hand different from before. -/
def changes : OwnedOp α → Bool
  | .edit _ => true
  | .ends op => op.changes
  | .remove _ => true
  | .removeAt _ => true
  | .replace _ _ => true
  | .assign _ _ => true
  | .addInteger _ => true
  | .repeatInPlace _ => true
  | .concatInPlace _ => true
  | _ => false

end OwnedOp

namespace SharedOp

variable {m : Type → Type} [Monad m] {α β : Type}

def mapM (f : α → m β) : SharedOp α → m (SharedOp β)
  | .edit change => return .edit (← change.mapM f)
  | .ends op => return .ends (← op.mapM f)
  | .ask query => return .ask (← query.mapM f)
  | .remove value => return .remove (← f value)
  | .extent => return .extent
  | .written => return .written
  | .share into => return .share into
  | .copy into => return .copy into
  | .downgrade into => return .downgrade into
  | .samePlace other => return .samePlace other
  | .equal other => return .equal other
  | .visit cursor => return .visit cursor
  | .extendFrom cursor => return .extendFrom cursor

end SharedOp

end EvictingDeque
