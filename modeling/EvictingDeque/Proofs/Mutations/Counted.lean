import EvictingDeque.Proofs.Mutations.Operations

set_option autoImplicit false

/-!
# Every mutation is counted and nothing else

The count of a shared deque tells its cursors and searches whether it has changed. An operation moves the count if it
changes the elements, and moves none but that of its own deque; where no two elements are alike it changes the elements
whenever it moves the count. What is wanted of the elements is that comparing and writing them has no side effects,
which holds wherever no element acts.
-/
namespace EvictingDeque

open Action

/-- No element acts: every script is empty. -/
def Session.Passive (s : Session) : Prop := ∀ hook, (s.hook hook).whenWritten = [] ∧ (s.hook hook).whenCompared = []

namespace Meaning

variable {s : Session}

end Meaning

namespace SharedOp

variable {m : Meaning} {id : Nat} {s t : Session} {answer : Answer}

/-- The values that stored elements are compared with. -/
def sought {α : Type} : SharedOp α → List α
  | .ask (.count value) | .ask (.contains value) | .ask (.index value) | .remove value => [value]
  | _ => []

/-- The elements that the operation offers to its deque. -/
def adds (s : Session) (op : SharedOp Element) : List Element := ((op.change? s).map Edit.offered).getD []

/-- What the count tells of an operation that has answered. While it stands, a cursor goes on as it would have done
without the operation. -/
structure Counted (id : Nat) (op : SharedOp Element) (s t : Session) (answer : Answer) : Prop where
  seen : (t.cell id).deque.items ≠ (s.cell id).deque.items → (s.cell id).mutations < (t.cell id).mutations
  needed : ((s.cell id).deque.items ++ op.adds s).Nodup → (s.cell id).mutations < (t.cell id).mutations →
    (t.cell id).deque.items ≠ (s.cell id).deque.items
  moved : (s.cell id).mutations < (t.cell id).mutations ↔
    (∃ change, op.change? s = some change ∧ ¬ change.Idle (s.cell id).deque) ∨
      ∃ value removed, op = .remove value ∧ answer = .element (some removed)
  visited : ¬ (s.cell id).mutations < (t.cell id).mutations →
    ∀ cursor : Cursor, cursor.advance (t.cell id) = cursor.advance (s.cell id)
  others : ∀ other, other < s.nextCell → other ≠ id → (s.cell other).Still (t.cell other)

theorem Does.counted (hs : s.Proper) (hid : id < s.nextCell) {op : SharedOp Element} (h : Does id op s t answer) :
    op.Counted id s t answer := by
  cases h with
  | nothing due kept still =>
    have hcell := still.2 id hid
    have hstands : ¬ (s.cell id).mutations < (t.cell id).mutations := by
      rw [hcell.mutations]
      exact Nat.lt_irrefl _
    refine ⟨fun hne => ?_, fun _ hm => absurd hm hstands, ⟨fun hm => absurd hm hstands, ?_⟩,
      fun _ => hcell.advance, fun other ho _ => still.2 other ho⟩
    · exact absurd (congrArg Deque.items hcell.deque) hne
    · rintro (⟨change, hc, _⟩ | ⟨value, removed, hop, ha⟩)
      · rw [due] at hc
        cases hc
      · exact absurd ha (kept value removed hop)
  | @change change due done besides =>
    have hkept (hc : change.counts (s.cell id).deque = false) : (t.cell id).deque = (s.cell id).deque :=
      done.deque.trans (Edit.apply_of_not_counts (hs.deques id).fits hc)
    have hcounts (hm : ¬ (s.cell id).mutations < (t.cell id).mutations) : change.counts (s.cell id).deque = false :=
      Bool.eq_false_iff.2 fun hc => hm (done.counts.1 hc)
    refine ⟨fun hne => ?_, fun hn hm => ?_, ⟨fun hm => .inl ⟨change, due, fun hi => ?_⟩, ?_⟩, fun hm => ?_, besides.2⟩
    · by_cases hm : (s.cell id).mutations < (t.cell id).mutations
      · exact hm
      · exact absurd (congrArg Deque.items (hkept (hcounts hm))) hne
    · rw [done.deque]
      refine Edit.items_ne_of_counts ?_ (done.counts.2 hm)
      simpa [adds, due] using hn
    · have hc := done.counts.2 hm
      rw [Edit.counts_eq_false_iff.2 hi] at hc
      cases hc
    · rintro (⟨other, ho, hi⟩ | ⟨value, removed, rfl, _⟩)
      · cases due.symm.trans ho
        refine done.counts.1 (Bool.not_eq_false _ ▸ fun hc => hi (Edit.counts_eq_false_iff.1 hc))
      · cases due
    · refine Cell.Still.advance ⟨hkept (hcounts hm), ?_⟩
      have hle := done.mutations
      omega
  | removal due answered shorter counted besides =>
    refine ⟨fun _ => counted, fun _ _ he => ?_, ⟨fun _ => .inr ⟨_, _, due, answered⟩, fun _ => counted⟩,
      fun hm => absurd counted hm, besides.2⟩
    rw [he] at shorter
    exact Nat.lt_irrefl _ shorter

end SharedOp

namespace Action

variable {m : Meaning} {id : Nat} {s t : Session} {body : List (OwnedOp Literal ⊕ Step)} {answers : List Answer}

end Action

end EvictingDeque
