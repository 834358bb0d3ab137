import EvictingDeque.Proofs.Interpreter.AtHand
import Mathlib.Data.List.Perm.Basic

set_option autoImplicit false

/-!
# Trades and what becomes of their elements

A trade brings in at most one element, takes out at most one, or moves elements around. Whatever the deque held and the
trade offered is afterwards in the deque, or handed back, or overwritten, or was rejected with the trade. A trade that
fails leaves the deque as it was.
-/
namespace EvictingDeque

open Action

namespace Deque

variable {α : Type} (d : Deque α)

theorem perm_popFront : (d.popFront.2.items ++ d.popFront.1.toList).Perm d.items := by
  obtain ⟨items, bound⟩ := d
  cases items with
  | nil => exact .refl _
  | cons first items => exact List.perm_append_comm

theorem perm_popBack : (d.popBack.2.items ++ d.popBack.1.toList).Perm d.items := by
  obtain ⟨items, bound⟩ := d
  rcases List.eq_nil_or_concat items with rfl | ⟨before, last, rfl⟩
  · exact .refl _
  · simp [popBack]

theorem perm_pushBack (value : α) :
    ((d.pushBack value).2.items ++ (d.pushBack value).1.toList).Perm (d.items ++ [value]) := by
  unfold pushBack
  dsimp only
  split
  · exact perm_popFront _
  · simp

theorem perm_pushFront (value : α) :
    ((d.pushFront value).2.items ++ (d.pushFront value).1.toList).Perm (d.items ++ [value]) := by
  have hgrown : (value :: d.items).Perm (d.items ++ [value]) := (List.perm_append_singleton value d.items).symm
  unfold pushFront
  dsimp only
  split
  · exact (perm_popBack _).trans hgrown
  · simpa using hgrown

theorem perm_turn (items : List α) (count : Nat) : (turn items count).Perm items := by
  have hparts : (turn items count).Perm (items.take count ++ items.drop count) := List.perm_append_comm
  rwa [List.take_append_drop] at hparts

theorem perm_rotate (steps : Int) : (d.rotate steps).items.Perm d.items := by
  unfold rotate
  dsimp only
  split
  · exact .refl _
  · split <;> exact perm_turn _ _

theorem perm_reverse : d.reverse.items.Perm d.items := List.reverse_perm d.items

variable {d}

theorem perm_insert {e : Deque α} {position : Nat} {value : α} (h : d.insert position value = .ok e) :
    e.items.Perm (d.items ++ [value]) := by
  have hgrown : (d.items.take position ++ value :: d.items.drop position).Perm (d.items ++ [value]) := by
    have hmiddle := @List.perm_middle α value (d.items.take position) (d.items.drop position)
    rw [List.take_append_drop] at hmiddle
    exact hmiddle.trans (List.perm_append_singleton value d.items).symm
  unfold insert at h
  dsimp only at h
  split at h
  · cases h
    exact hgrown
  · split at h <;> cases h
    exact hgrown

/-- An insertion is refused by a full deque, and by no other. -/
theorem insert_eq_error {position : Nat} {value : α} {refusal : Refusal} :
    d.insert position value = .error refusal ↔ ∃ bound, d.bound = some bound ∧ d.isFull = true ∧ refusal = .full bound := by
  unfold insert isFull
  cases d.bound with
  | none => simp
  | some bound => by_cases hl : bound ≤ d.items.length <;> simp [hl, eq_comm]

theorem bound_of_isFull (h : d.isFull = true) : ∃ bound, d.bound = some bound := by
  unfold isFull at h
  split at h
  · cases h
  · exact ⟨_, ‹_›⟩

theorem removeAt_of_lt {position : Nat} (h : position < d.items.length) :
    d.removeAt position = .ok (d.items[position], ⟨d.items.eraseIdx position, d.bound⟩) := by
  simp [removeAt, h]

theorem removeAt_of_le {position : Nat} (h : d.items.length ≤ position) :
    d.removeAt position = .error (.indexOutOfRange position d.items.length) := by
  simp [removeAt, h]

theorem replace_of_lt {position : Nat} (h : position < d.items.length) (value : α) :
    d.replace position value = some (d.items[position], ⟨d.items.set position value, d.bound⟩) := by
  simp [replace, h]

theorem replace_of_le {position : Nat} (h : d.items.length ≤ position) (value : α) :
    d.replace position value = none := by
  simp [replace, h]

theorem perm_removeAt {position : Nat} (h : position < d.items.length) :
    (d.items.eraseIdx position ++ [d.items[position]]).Perm d.items :=
  (List.perm_append_singleton _ _).trans (List.getElem_cons_eraseIdx_perm h)

theorem perm_replace {position : Nat} (h : position < d.items.length) (value : α) :
    (d.items.set position value ++ [d.items[position]]).Perm (d.items ++ [value]) := by
  have hkept : (d.items.set position value ++ [d.items[position]]).Perm
      (value :: (d.items.eraseIdx position ++ [d.items[position]])) :=
    (List.set_perm_cons_eraseIdx h value).append_right _
  exact hkept.trans (((perm_removeAt h).cons value).trans (List.perm_append_singleton value d.items).symm)

end Deque

/-- What can be done to single elements, and to their order. -/
inductive Trade (α : Type) where
  | pushBack (value : α)
  | pushFront (value : α)
  | popBack
  | popFront
  | insert (position : Nat) (value : α)
  | remove (value : α)
  | removeAt (position : Nat)
  | replace (position : Nat) (value : α)
  | assign (position : Nat) (value : α)
  | rotate (steps : Int)
  | reverse

namespace Trade

variable {α : Type}

/-- What is to be stored. The value that a removal looks for is not. -/
def offered : Trade α → List α
  | .pushBack value | .pushFront value | .insert _ value | .replace _ value | .assign _ value => [value]
  | _ => []

/-- The edit that a trade is, unless it searches or goes to a position that may not exist. -/
def edit? : Trade α → Option (Edit α)
  | .pushBack value => some (.pushBack value)
  | .pushFront value => some (.pushFront value)
  | .popBack => some .popBack
  | .popFront => some .popFront
  | .insert position value => some (.insert position value)
  | .rotate steps => some (.rotate steps)
  | .reverse => some .reverse
  | .remove _ | .removeAt _ | .replace _ _ | .assign _ _ => none

end Trade

/-- The ways to ask for a trade with a deque at hand. -/
inductive OwnedOp.Trades {α : Type} : OwnedOp α → Trade α → Prop
  | edit {change : Edit α} {trade : Trade α} (same : trade.edit? = some change) : Trades (.edit change) trade
  | ends {op : EndOp α} {change : Edit α} {trade : Trade α} (comes : op.edit? = some change)
      (same : trade.edit? = some change) : Trades (.ends op) trade
  | remove (value : α) : Trades (.remove value) (.remove value)
  | removeAt (position : Nat) : Trades (.removeAt position) (.removeAt position)
  | replace (position : Nat) (value : α) : Trades (.replace position value) (.replace position value)
  | assign (position : Nat) (value : α) : Trades (.assign position value) (.assign position value)

/-- The ways to ask for a trade through a handle. -/
inductive SharedOp.Trades {α : Type} : SharedOp α → Trade α → Prop
  | edit {change : Edit α} {trade : Trade α} (same : trade.edit? = some change) : Trades (.edit change) trade
  | ends {op : EndOp α} {change : Edit α} {trade : Trade α} (comes : op.edit? = some change)
      (same : trade.edit? = some change) : Trades (.ends op) trade
  | remove (value : α) : Trades (.remove value) (.remove value)

/-- A trade that was asked for, with the deque before it, what came of it, and the deque after it. -/
structure Deal where
  trade : Trade Element
  before : Deque Element
  outcome : Except Interrupt Answer
  after : Deque Element

namespace Deal

/-- Refused or interrupted, or a replacement that found nothing to replace. -/
def failed (deal : Deal) : Bool :=
  match deal.trade, deal.outcome with
  | _, .error _ | _, .ok (.refused _) => true
  | .replace _ _, .ok (.element found) => found.isNone
  | _, _ => false

def offered (deal : Deal) : List Element := deal.trade.offered

/-- The element in the answer, if there is one: evicted, popped, removed, or replaced. -/
def handedBack (deal : Deal) : List Element :=
  match deal.outcome with
  | .ok (.element found) => found.toList
  | _ => []

/-- An assignment answers nothing about the element that it overwrites. -/
def overwritten (deal : Deal) : List Element :=
  match deal.trade, deal.outcome with
  | .assign position _, .ok _ => deal.before.items[position]?.toList
  | _, _ => []

/-- What was offered to a trade that failed. -/
def rejected (deal : Deal) : List Element := if deal.failed then deal.offered else []

/-- Nothing is lost or made up. -/
structure Balanced (deal : Deal) : Prop where
  conserved : (deal.before.items ++ deal.offered).Perm
    (deal.after.items ++ deal.handedBack ++ deal.overwritten ++ deal.rejected)
  bound : deal.after.bound = deal.before.bound
  kept : deal.failed = true → deal.after = deal.before

/-- The failures are the ones there should be, and what is removed was stored. -/
structure Reported (deal : Deal) : Prop where
  full : ∀ bound, deal.outcome = .ok (.refused (.full bound)) ↔
    (∃ position value, deal.trade = .insert position value) ∧ deal.before.isFull = true ∧ deal.before.bound = some bound
  outOfRange : ∀ position length, deal.outcome = .ok (.refused (.indexOutOfRange position length)) ↔
    deal.trade = .removeAt position ∧ length = deal.before.length ∧ length ≤ position
  outOfBounds : ∀ position value, deal.trade = .assign position value →
    (deal.outcome = .error (.panic .outOfBounds) ↔ deal.before.length ≤ position)
  missed : ∀ position value, deal.trade = .replace position value →
    (deal.outcome = .ok .nothing ↔ deal.before.length ≤ position)
  removed : ∀ value found, deal.trade = .remove value → deal.outcome = .ok (.element (some found)) →
    ∃ position, deal.before.items[position]? = some found ∧
      deal.after.items = deal.before.items.eraseIdx position

structure Fair (deal : Deal) : Prop extends Balanced deal, Reported deal

/-- A trade that fails has its offer rejected and does nothing else. -/
theorem balanced_of_failed {deal : Deal} (hf : deal.failed = true) (hafter : deal.after = deal.before)
    (hback : deal.handedBack = []) (hover : deal.overwritten = []) : deal.Balanced where
  conserved := by
    rw [hafter, hback, hover, rejected, if_pos hf, List.append_nil, List.append_nil]
  bound := congrArg Deque.bound hafter
  kept _ := hafter

/-- Nothing is rejected of a trade that does not fail. -/
theorem balanced_of_perm {deal : Deal} (hf : deal.failed = false) (hbound : deal.after.bound = deal.before.bound)
    {out : List Element} (hout : deal.handedBack ++ deal.overwritten = out)
    (h : (deal.after.items ++ out).Perm (deal.before.items ++ deal.offered)) : deal.Balanced where
  conserved := by
    rw [List.append_assoc deal.after.items, hout, rejected, hf, if_neg Bool.false_ne_true, List.append_nil]
    exact h.symm
  bound := hbound
  kept hfailed := nomatch hf.symm.trans hfailed

/-! The kinds of trades -/

variable {d : Deque Element}

/-- Pushes, pops, insertions that find room, and changes of the order. -/
theorem fair_moved {trade : Trade Element} {change : Edit Element} (hedit : trade.edit? = some change)
    {out : Option Element} {after : Deque Element} (hbound : after.bound = d.bound)
    (hroom : (∃ position value, trade = .insert position value) → d.isFull = false)
    (h : (after.items ++ out.toList).Perm (d.items ++ trade.offered)) : Fair ⟨trade, d, .ok (.element out), after⟩ where
  toBalanced := by
    refine balanced_of_perm ?_ hbound ?_ h
    · cases trade <;> cases hedit <;> rfl
    · cases trade <;> cases hedit <;> exact List.append_nil _
  toReported := by
    cases trade <;> cases hedit <;> constructor <;> simp_all

theorem fair_full {position bound : Nat} (value : Element) (hfull : d.isFull = true) (hbound : d.bound = some bound) :
    Fair ⟨.insert position value, d, .ok (.refused (.full bound)), d⟩ where
  toBalanced := balanced_of_failed rfl rfl rfl rfl
  toReported := by
    constructor <;> simp_all

/-- An insertion is refused exactly where there is no room. -/
theorem fair_insert (position : Nat) (value : Element) :
    Fair ⟨.insert position value, d, .ok (answerOptional ((Edit.insert position value).apply d).1),
      ((Edit.insert position value).apply d).2⟩ := by
  have hbound := Edit.bound_apply d (.insert position value)
  cases hi : d.insert position value with
  | error refusal =>
    obtain ⟨bound, hb, hfull, rfl⟩ := Deque.insert_eq_error.1 hi
    simp only [Edit.apply, hi]
    exact fair_full value hfull hb
  | ok after =>
    have hroom : d.isFull = false := Bool.eq_false_iff.2 fun hfull => by
      obtain ⟨bound, hb⟩ := Deque.bound_of_isFull hfull
      cases hi.symm.trans (Deque.insert_eq_error.2 ⟨bound, hb, hfull, rfl⟩)
    have hmoved : (after.items ++ []).Perm (d.items ++ [value]) := by
      rw [List.append_nil]
      exact Deque.perm_insert hi
    simp only [Edit.apply, hi] at hbound ⊢
    exact fair_moved rfl hbound (fun _ => hroom) hmoved

/-- An edit that is a trade. -/
theorem fair_edit {trade : Trade Element} {change : Edit Element} (h : trade.edit? = some change) :
    Fair ⟨trade, d, .ok (answerOptional (change.apply d).1), (change.apply d).2⟩ := by
  have hbound := Edit.bound_apply d change
  cases trade with
  | pushBack value =>
    cases h
    exact fair_moved rfl hbound nofun (d.perm_pushBack value)
  | pushFront value =>
    cases h
    exact fair_moved rfl hbound nofun (d.perm_pushFront value)
  | popBack =>
    cases h
    exact fair_moved rfl hbound nofun (d.perm_popBack.trans (.of_eq (List.append_nil _).symm))
  | popFront =>
    cases h
    exact fair_moved rfl hbound nofun (d.perm_popFront.trans (.of_eq (List.append_nil _).symm))
  | insert position value =>
    cases h
    exact fair_insert position value
  | rotate steps =>
    cases h
    exact fair_moved rfl hbound nofun ((d.perm_rotate steps).append_right [])
  | reverse =>
    cases h
    exact fair_moved rfl hbound nofun (d.perm_reverse.append_right [])
  | _ => cases h

/-- The stored element leaves and is handed back. -/
theorem fair_removed {trade : Trade Element} {position : Nat} (h : position < d.items.length)
    (htrade : trade = .removeAt position ∨ ∃ value, trade = .remove value) :
    Fair ⟨trade, d, .ok (.element (some d.items[position])), ⟨d.items.eraseIdx position, d.bound⟩⟩ where
  toBalanced := by
    refine balanced_of_perm ?_ rfl ?_ ((Deque.perm_removeAt h).trans ?_)
    · rcases htrade with rfl | ⟨value, rfl⟩ <;> rfl
    · rcases htrade with rfl | ⟨value, rfl⟩ <;> rfl
    · rcases htrade with rfl | ⟨value, rfl⟩ <;> exact .of_eq (List.append_nil _).symm
  full := by rcases htrade with rfl | ⟨value, rfl⟩ <;> simp
  outOfRange := by
    rcases htrade with rfl | ⟨value, rfl⟩
    · refine fun other length => ⟨nofun, ?_⟩
      rintro ⟨⟨⟩, rfl, hle⟩
      exact absurd h (Nat.not_lt.2 hle)
    · simp
  outOfBounds := by rcases htrade with rfl | ⟨value, rfl⟩ <;> simp
  missed := by rcases htrade with rfl | ⟨value, rfl⟩ <;> simp
  removed := by
    rintro value found - ⟨⟩
    exact ⟨position, List.getElem?_eq_getElem h, rfl⟩

theorem fair_outOfRange {position : Nat} (h : d.items.length ≤ position) :
    Fair ⟨.removeAt position, d, .ok (.refused (.indexOutOfRange position d.items.length)), d⟩ where
  toBalanced := balanced_of_failed rfl rfl rfl rfl
  full := by simp
  outOfRange other length := by
    constructor
    · rintro ⟨⟩
      exact ⟨rfl, rfl, h⟩
    · rintro ⟨⟨⟩, rfl, -⟩
      rfl
  outOfBounds := nofun
  missed := nofun
  removed := nofun

theorem fair_replaced {position : Nat} (h : position < d.items.length) (value : Element) :
    Fair ⟨.replace position value, d, .ok (.element (some d.items[position])), ⟨d.items.set position value, d.bound⟩⟩ where
  toBalanced := balanced_of_perm rfl rfl rfl (Deque.perm_replace h value)
  toReported := by
    constructor <;> simp_all [Deque.length, Answer.nothing]

theorem fair_missed {position : Nat} (h : d.items.length ≤ position) (value : Element) :
    Fair ⟨.replace position value, d, .ok .nothing, d⟩ where
  toBalanced := balanced_of_failed rfl rfl rfl rfl
  toReported := by
    constructor <;> simp_all [Deque.length, Answer.nothing]

theorem fair_assigned {position : Nat} (h : position < d.items.length) (value : Element) :
    Fair ⟨.assign position value, d, .ok .nothing, ⟨d.items.set position value, d.bound⟩⟩ where
  toBalanced := balanced_of_perm rfl rfl (by simp [handedBack, overwritten, h]; rfl) (Deque.perm_replace h value)
  toReported := by
    constructor <;> simp_all [Deque.length, Answer.nothing]

theorem fair_outOfBounds {position : Nat} (h : d.items.length ≤ position) (value : Element) :
    Fair ⟨.assign position value, d, .error (.panic .outOfBounds), d⟩ where
  toBalanced := balanced_of_failed rfl rfl rfl rfl
  toReported := by
    constructor <;> simp_all [Deque.length, Answer.nothing]

/-- A removal that finds nothing, or that is cut short by a comparison. -/
theorem fair_unremoved (value : Element) {outcome : Except Interrupt Answer}
    (h : (∃ cause, outcome = .error cause) ∨ outcome = .ok (.refused .notFound) ∨
      outcome = .ok (.refused .changedDuringVisit)) : Fair ⟨.remove value, d, outcome, d⟩ where
  toBalanced := by
    rcases h with ⟨cause, rfl⟩ | rfl | rfl <;> exact balanced_of_failed rfl rfl rfl rfl
  toReported := by
    rcases h with ⟨cause, rfl⟩ | rfl | rfl <;> constructor <;> simp

end Deal
end EvictingDeque
