import EvictingDeque.Deque.Basic

set_option autoImplicit false

/-!
# Searching a deque

Comparison is any `BEq`, with the stored element on its left. Nothing is assumed of it, in particular
not that a value equals itself.

`Span` is a pair of limits on positions. `Span.Covers` says which positions it means; `indexWithin` first
cuts it down to a half-open interval inside the deque.
-/
namespace EvictingDeque

inductive Limit where
  | included (position : Nat)
  | excluded (position : Nat)
  | unlimited
deriving DecidableEq, Repr

structure Span where
  start : Limit
  stop : Limit
deriving DecidableEq, Repr

namespace Span

def whole : Span := ⟨.unlimited, .unlimited⟩

/-- The first position of the span, as far as there are that many. -/
def first (span : Span) (length : Nat) : Nat :=
  match span.start with
  | .included position => min position length
  | .excluded position => min (position + 1) length
  | .unlimited => 0

/-- The position after the last one of the span, at most the length. -/
def past (span : Span) (length : Nat) : Nat :=
  match span.stop with
  | .included position => min (position + 1) length
  | .excluded position => min position length
  | .unlimited => length

/-- A position lies within both limits. -/
def Covers (span : Span) (position : Nat) : Prop :=
  (match span.start with
    | .included start => start ≤ position
    | .excluded start => start < position
    | .unlimited => True) ∧
  (match span.stop with
    | .included stop => position ≤ stop
    | .excluded stop => position < stop
    | .unlimited => True)

/-- Cutting a span down loses no position of the deque and adds none. -/
theorem covers_iff (span : Span) {length position : Nat} (h : position < length) :
    span.Covers position ↔ span.first length ≤ position ∧ position < span.past length := by
  unfold Covers first past
  cases span.start <;> cases span.stop <;> simp <;> omega

end Span

namespace Deque

variable {α : Type} [BEq α]

def count (d : Deque α) (value : α) : Nat := d.items.countP (fun stored => stored == value)

def contains (d : Deque α) (value : α) : Bool := d.items.any (fun stored => stored == value)

/-- The least position in the span that holds an equal element, counted from the front of the deque. -/
def indexWithin (d : Deque α) (value : α) (span : Span) : Except Refusal Nat :=
  let start := span.first d.items.length
  let stop := span.past d.items.length
  if stop ≤ start then .error .notFound
  else
    match ((d.items.drop start).take (stop - start)).findIdx? (fun stored => stored == value) with
    | none => .error .notFound
    | some offset => .ok (start + offset)

def index (d : Deque α) (value : α) : Except Refusal Nat := d.indexWithin value Span.whole

/-- The stored element leaves, not the one it was compared with. -/
def remove (d : Deque α) (value : α) : Except Refusal (α × Deque α) := do
  d.removeAt (← d.index value)

end Deque

end EvictingDeque
