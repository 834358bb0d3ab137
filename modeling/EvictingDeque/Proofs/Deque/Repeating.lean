import EvictingDeque.Proofs.Deque.Words
import EvictingDeque.Proofs.Interpreter.AtHand
import EvictingDeque.Proofs.Window.Trailing
import Mathlib.Logic.Function.Iterate

set_option autoImplicit false

/-!
# Repetition at once and one element at a time

A repetition that is built from its survivors is the one that pushing every element of every copy leaves behind. Which
elements survive is worked out in the word, although the whole repetition may be longer than a word can count.
-/
namespace EvictingDeque

open Action

namespace Deque

variable {α : Type}

/-- One push at the back after the other. -/
def appendEach (values : List α) (d : Deque α) : Deque α := values.foldl (fun d value => (d.pushBack value).2) d

/-- A deque with the same bound, empty at first, takes the elements so many times. -/
def appendedCopies (d : Deque α) (times : Nat) : Deque α := (appendEach d.items)^[times] (empty d.bound)

/-- How many elements of so many a bound keeps. -/
def kept (bound : Option Nat) (total : Nat) : Nat := bound.elim total (min total)

/-- The number of survivors in the word. Beyond the word it is the bound, if there is one. -/
def keptInWord? (bound : Option Nat) (length times : Nat) : Option Nat :=
  match bound, Word.product? length times with
  | some bound, some total => some (min total bound)
  | some bound, none => some bound
  | none, total => total

/-- As `repeated?`, within the word: nothing if the word is left anywhere, else a deque if there is room for it. -/
def repeatedInWord? (d : Deque α) (times : Nat) : Option (Option (Deque α)) :=
  let length := d.items.length
  if length = 0 ∨ times = 0 then some (some (empty d.bound))
  else
    match keptInWord? d.bound length times with
    | none => some none
    | some kept => do
      let skipped ← Word.remainder? (← Word.difference? length (← Word.remainder? kept length)) length
      return if slotLimit < kept then none else some ⟨cycleTake d.items kept (d.items.drop skipped), d.bound⟩

/-- The length and the bound are sizes. -/
structure InWord (d : Deque α) : Prop where
  length : d.items.length ≤ Word.largestSize
  bound : ∀ bound, d.bound = some bound → bound ≤ Word.largestSize

theorem appendEach_eq (values : List α) (d : Deque α) : d.appendEach values = d.extendBack values := by
  induction values generalizing d with
  | nil => exact (extendBack_nil d).symm
  | cons value values ih =>
    rw [extendBack_cons]
    exact ih _

theorem appendedCopies_eq (d : Deque α) (times : Nat) : d.appendedCopies times = ofList (copies times d.items) d.bound := by
  induction times with
  | zero => exact (extendBack_nil _).symm
  | succ times ih =>
    rw [appendedCopies, Function.iterate_succ_apply', appendEach_eq, copies_succ, ← extendBack_ofList]
    exact congrArg (extendBack · d.items) ih

theorem length_window_copies (d : Deque α) (times : Nat) :
    (window d.bound (copies times d.items)).length = kept d.bound (d.items.length * times) := by
  have htotal : (copies times d.items).length = d.items.length * times := by rw [length_copies, Nat.mul_comm]
  rw [← htotal]
  cases d.bound with
  | none => rfl
  | some bound => exact length_window bound _

theorem items_appendedCopies (d : Deque α) (times : Nat) :
    (d.appendedCopies times).items =
      (copies times d.items).drop (d.items.length * times - kept d.bound (d.items.length * times)) := by
  have htotal : (copies times d.items).length = d.items.length * times := by rw [length_copies, Nat.mul_comm]
  rw [appendedCopies_eq, ofList_eq, window_eq_drop, length_window_copies, htotal]

theorem repeated?_eq_ofList {d : Deque α} (hd : d.Fits) (times : Nat) :
    d.repeated? times =
      if (window d.bound (copies times d.items)).length ≤ slotLimit then some (ofList (copies times d.items) d.bound)
      else none := by
  have hrepeated := repeated?_ofList d.items times d.bound
  rw [ofList_of_fits hd] at hrepeated
  exact hrepeated

theorem repeated?_eq {d : Deque α} (hd : d.Fits) (times : Nat) :
    d.repeated? times =
      if kept d.bound (d.items.length * times) ≤ slotLimit then some (d.appendedCopies times) else none := by
  rw [repeated?_eq_ofList hd, length_window_copies, appendedCopies_eq]

/-- A product beyond the word is beyond every bound in the word. -/
theorem keptInWord?_eq {d : Deque α} (hd : d.InWord) (times : Nat) :
    keptInWord? d.bound d.items.length times = survivors? d.bound (d.items.length * times) := by
  unfold keptInWord? Word.product? survivors?
  cases hb : d.bound with
  | none => rfl
  | some bound =>
    have hbound := hd.bound bound hb
    by_cases hover : Word.largestSize < d.items.length * times
    · have hmin : min (d.items.length * times) bound = bound := Nat.min_eq_right (by omega)
      simp [hover, hmin]
    · simp [hover]

theorem repeatedInWord?_eq {d : Deque α} (hd : d.InWord) (times : Nat) :
    d.repeatedInWord? times = some (d.repeated? times) := by
  unfold repeatedInWord? repeated?
  dsimp only
  by_cases hnone : d.items.length = 0 ∨ times = 0
  · rw [if_pos hnone, if_pos hnone]
  · have hpos : 0 < d.items.length := by omega
    rw [if_neg hnone, if_neg hnone, keptInWord?_eq hd]
    cases survivors? d.bound (d.items.length * times) with
    | none => rfl
    | some kept =>
      have hpart : kept % d.items.length ≤ d.items.length := Nat.le_of_lt (Nat.mod_lt _ hpos)
      simp only [Word.remainder?_of_pos hpos, Word.difference?_of_le hpart, Option.bind_eq_bind, Option.bind_some]
      rfl

/-- Repeating at once is appending copies one element at a time, of which the trailing elements remain, as far as there
is room for these; and the arithmetic it takes stays in the word. -/
structure RepeatsExactly (d : Deque α) (times : Nat) : Prop where
  made : kept d.bound (d.items.length * times) ≤ slotLimit → d.repeated? times = some (d.appendedCopies times)
  trailing : d.appendedCopies times =
    ⟨(copies times d.items).drop (d.items.length * times - kept d.bound (d.items.length * times)), d.bound⟩
  refused : slotLimit < kept d.bound (d.items.length * times) → d.repeated? times = none
  inWord : d.InWord → times ≤ Word.largestSize → d.repeatedInWord? times = some (d.repeated? times)

theorem repeatsExactly {d : Deque α} (hd : d.Fits) (times : Nat) : d.RepeatsExactly times where
  made hroom := (repeated?_eq hd times).trans (if_pos hroom)
  trailing := by
    rw [← items_appendedCopies, appendedCopies_eq]
    rfl
  refused hroom := (repeated?_eq hd times).trans (if_neg (Nat.not_le.2 hroom))
  inWord hword _ := repeatedInWord?_eq hword times

/-- Without a bound, what a word cannot count has no room. -/
theorem no_room_beyond_word {d : Deque α} (hd : d.bound = none) {times : Nat}
    (h : Word.largestSize < d.items.length * times) : slotLimit < kept d.bound (d.items.length * times) := by
  have hlimit : slotLimit < Word.largestSize := by decide
  rw [hd]
  exact Nat.lt_trans hlimit h

end Deque

namespace Session

variable {m : Meaning} {s : Session} {name : String} {d : Deque Element} {times : Nat}

/-- Multiplying a register, into another one or in place, answers or leaves there the repetition, or else panics for
want of room and leaves everything as it was. -/
structure Multiplies (m : Meaning) (s : Session) (name : String) (d : Deque Element) (times : Nat) : Prop where
  made : Deque.kept d.bound (d.items.length * times) ≤ slotLimit →
    (∀ into, m.perform (.owned name (.repeated times into)) s =
      (.ok (.deque (d.appendedCopies times)), into.elim s (putOwned · (d.appendedCopies times) s))) ∧
    m.perform (.owned name (.repeatInPlace times)) s = (.ok .nothing, putOwned name (d.appendedCopies times) s)
  refused : slotLimit < Deque.kept d.bound (d.items.length * times) ∨
      d.bound = none ∧ Word.largestSize < d.items.length * times →
    ∃ cause, cause.message = "capacity overflow" ∧
      (∀ into, m.perform (.owned name (.repeated times into)) s = (.error (.panic cause), s)) ∧
      m.perform (.owned name (.repeatInPlace times)) s = (.error (.panic cause), s)

theorem orNoRoom_of_some {found : Option (Deque Element)} (h : found = some d) :
    OwnedOp.orNoRoom found s = (.ok d, s) := by
  rw [h]
  rfl

theorem orNoRoom_of_none {found : Option (Deque Element)} (h : found = none) :
    OwnedOp.orNoRoom found s = (.error (.panic .noRoom), s) := by
  rw [h]
  rfl

theorem multiplies_of_some (hname : s.ownedDeque? name = some d) {e : Deque Element} (he : d.repeated? times = some e) :
    (∀ into, m.performStep (.owned name (.repeated times into)) s =
      (.ok (.deque e), into.elim s (putOwned · e s))) ∧
    m.performStep (.owned name (.repeatInPlace times)) s = (.ok .nothing, putOwned name e s) := by
  constructor
  · intro into
    have hop : (OwnedOp.repeated times into : OwnedOp Literal).mapM resolve s = (.ok (.repeated times into), s) := rfl
    have hrun : ∀ u, (OwnedOp.repeated times into).run m d u =
        (.ok (.deque e, d), into.elim u (putOwned · e u)) := by
      intro u
      refine (bind_ok (orNoRoom_of_some he)).trans ?_
      cases into <;> rfl
    rw [Meaning.performStep, Meaning.runOwned_of_resolved hop hname (hrun _)]
    cases into <;> rfl
  · have hop : (OwnedOp.repeatInPlace times : OwnedOp Literal).mapM resolve s = (.ok (.repeatInPlace times), s) := rfl
    exact m.runOwned_of_alone hop hname fun _ => bind_ok (orNoRoom_of_some he)

theorem multiplies_of_none (hname : s.ownedDeque? name = some d) (he : d.repeated? times = none) :
    (∀ into, m.performStep (.owned name (.repeated times into)) s = (.error (.panic .noRoom), s)) ∧
      m.performStep (.owned name (.repeatInPlace times)) s = (.error (.panic .noRoom), s) := by
  constructor
  · intro into
    have hop : (OwnedOp.repeated times into : OwnedOp Literal).mapM resolve s = (.ok (.repeated times into), s) := rfl
    exact m.runOwned_of_alone hop hname fun _ => bind_error (orNoRoom_of_none he)
  · have hop : (OwnedOp.repeatInPlace times : OwnedOp Literal).mapM resolve s = (.ok (.repeatInPlace times), s) := rfl
    have hback := m.runOwned_of_alone hop hname fun _ => bind_error (orNoRoom_of_none he)
    exact hback.trans (congrArg (Prod.mk _) (putOwned_of_ownedDeque? hname))

theorem multiplies (hname : s.ownedDeque? name = some d) (hd : d.Fits) (times : Nat) :
    s.Multiplies m.next name d times where
  made hroom := multiplies_of_some hname ((Deque.repeatsExactly hd times).made hroom)
  refused h := by
    have hroom : slotLimit < Deque.kept d.bound (d.items.length * times) :=
      h.elim id fun ⟨hnone, hover⟩ => Deque.no_room_beyond_word hnone hover
    exact ⟨.noRoom, rfl, multiplies_of_none hname ((Deque.repeatsExactly hd times).refused hroom)⟩

end Session

end EvictingDeque
