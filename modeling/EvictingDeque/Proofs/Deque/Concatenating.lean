import EvictingDeque.Proofs.Deque.Repeating

set_option autoImplicit false

/-!
# The laws of concatenation and repetition

Every sum is cut down to the bound of its left operand and every repetition to the bound of the deque. Deques that fit
hold windows of histories, and the last cut makes earlier ones undone as long as these keep no less than it does.
-/
namespace EvictingDeque

open Action

namespace Deque

variable {α : Type} {d e x y z : Deque α} {first second times : Nat}

theorem copies_mul (first second : Nat) (history : List α) :
    copies second (copies first history) = copies (first * second) history := by
  induction second with
  | zero => rfl
  | succ second ih => rw [copies_succ, ih, Nat.mul_succ, copies_add]

theorem length_window_le (bound : Option Nat) {part whole : List α} (h : part.length ≤ whole.length) :
    (window bound part).length ≤ (window bound whole).length := by
  cases bound with
  | none => exact h
  | some bound =>
    rw [length_window, length_window]
    omega

/-- Whatever the first deque keeps of its trailing elements, the second one would keep as well. -/
def NoWider (x y : Deque α) : Prop :=
  ∀ most, y.bound = some most → ∃ least, x.bound = some least ∧ least ≤ most

theorem window_append_window (h : x.NoWider y) (front back : List α) :
    window x.bound (front ++ window y.bound back) = window x.bound (front ++ back) := by
  cases hy : y.bound with
  | none => rfl
  | some most =>
    obtain ⟨least, hx, hle⟩ := h most hy
    have hcut : window (some least) (window (some most) back) = window (some least) back := by
      simp [window, List.rtake_eq_reverse_take_reverse, List.take_take, hle]
    rw [hx, ← window_append_right, hcut, window_append_right]

theorem concat_eq (hx : x.Fits) (y : Deque α) : x.concat y = ofList (x.items ++ y.items) x.bound := by
  rw [← extendBack_ofList, ofList_of_fits hx]
  rfl

theorem concat_ofList (front back : List α) (bound : Option Nat) :
    (ofList front bound).concat (ofList back bound) = ofList (front ++ back) bound := by
  unfold concat
  rw [extendBack_ofList, ofList_eq back, ofList_eq, ofList_eq, window_append_right]

theorem concat_assoc (hx : x.Fits) (hy : y.Fits) (h : x.NoWider y) (z : Deque α) :
    (x.concat y).concat z = x.concat (y.concat z) :=
  calc (x.concat y).concat z
    _ = ofList (x.items ++ (y.items ++ z.items)) x.bound := by
      rw [concat_eq hx, concat, extendBack_ofList, List.append_assoc]
    _ = ofList (x.items ++ (y.concat z).items) x.bound := by
      rw [concat_eq hy, ofList_eq, ofList_eq, ofList_eq, window_append_window h]
    _ = x.concat (y.concat z) := (concat_eq hx _).symm

theorem eq_ofList_of_repeated? (hd : d.Fits) (he : d.repeated? times = some e) :
    e = ofList (copies times d.items) d.bound := by
  rw [repeated?_eq_ofList hd] at he
  split at he <;> cases he
  rfl

/-- There is room for each part of a repetition for which there is room. -/
theorem repeated?_of_le (hd : d.Fits) {whole : Deque α} (hw : d.repeated? times = some whole) (hle : first ≤ times) :
    d.repeated? first = some (ofList (copies first d.items) d.bound) := by
  have hlength : (copies first d.items).length ≤ (copies times d.items).length := by
    rw [length_copies, length_copies]
    exact Nat.mul_le_mul_right _ hle
  have hpart := length_window_le d.bound hlength
  rw [repeated?_eq_ofList hd] at hw ⊢
  split at hw
  · exact if_pos (by omega)
  · cases hw

/-- Repeating twice is repeating as often as the product says, and repetitions add up. Both sides of the first
law have room or neither has, and for what has room so have its parts. -/
structure RepeatsLawfully (d : Deque α) : Prop where
  product : ∀ first second part, d.repeated? first = some part → part.repeated? second = d.repeated? (first * second)
  sum : ∀ first second whole, d.repeated? (first + second) = some whole →
    ∃ front back, d.repeated? first = some front ∧ d.repeated? second = some back ∧ front.concat back = whole
  once : d.items.length ≤ slotLimit → d.repeated? 1 = some d
  never : d.repeated? 0 = some (empty d.bound)
  bound : ∀ times e, d.repeated? times = some e → e.bound = d.bound

theorem repeatsLawfully (hd : d.Fits) : d.RepeatsLawfully where
  product first second part hpart := by
    rw [eq_ofList_of_repeated? hd hpart, repeated?_ofList, copies_mul, ← repeated?_eq_ofList hd]
  sum first second whole hwhole := by
    refine ⟨_, _, repeated?_of_le hd hwhole (Nat.le_add_right first second),
      repeated?_of_le hd hwhole (Nat.le_add_left second first), ?_⟩
    rw [concat_ofList, ← copies_add, eq_ofList_of_repeated? hd hwhole]
  once hl := by
    have hone : copies 1 d.items = d.items := by simp [copies]
    have hself : window d.bound d.items = d.items := congrArg items ((ofList_eq _ _).symm.trans (ofList_of_fits hd))
    rw [repeated?_eq_ofList hd, hone, hself, ofList_of_fits hd]
    exact if_pos hl
  never := if_pos (.inr rfl)
  bound _ _ he := bound_repeated? he

/-- Where the middle operand cuts off nothing that the left one would keep, the operands of a sum may be regrouped. -/
structure AddsLawfully (x y : Deque α) : Prop where
  regroups : x.NoWider y → ∀ z : Deque α, (x.concat y).concat z = x.concat (y.concat z)
  stepwise : x.concat y = x.appendEach y.items
  nothing : y.items = [] → x.concat y = x
  bound : (x.concat y).bound = x.bound

theorem addsLawfully (hx : x.Fits) (hy : y.Fits) : x.AddsLawfully y where
  regroups h z := concat_assoc hx hy h z
  stepwise := (appendEach_eq y.items x).symm
  nothing h := by
    rw [concat, h, extendBack_nil]
  bound := rfl

/-- A middle operand that keeps less loses for good what the left one would have kept. -/
example :
    let x : Deque Nat := ⟨[1], none⟩
    let y : Deque Nat := ⟨[2], some 1⟩
    (x.concat y).concat y = ⟨[1, 2, 2], none⟩ ∧ x.concat (y.concat y) = ⟨[1, 2], none⟩ := ⟨rfl, rfl⟩

end Deque

namespace Session

variable {m : Meaning} {s : Session} {name other : String} {d e : Deque Element}

/-- The sum of two registers, which may be one and the same, into a further one or in place. -/
structure Adds (m : Meaning) (s : Session) (name other : String) (d e : Deque Element) : Prop where
  sum : ∀ into, m.perform (.owned name (.concat other into)) s =
    (.ok (.deque (d.concat e)), into.elim s (putOwned · (d.concat e) s))
  inPlace : m.perform (.owned name (.concatInPlace other)) s = (.ok .nothing, putOwned name (d.concat e) s)

theorem adds (hname : s.ownedDeque? name = some d) (hother : s.ownedDeque? other = some e) :
    s.Adds m.next name other d e where
  sum into := by
    have hop : (OwnedOp.concat other into : OwnedOp Literal).mapM resolve s = (.ok (.concat other into), s) := rfl
    have hrun : (OwnedOp.concat other into).run m d { s with pinned := d.owners ++ s.pinned } =
        (.ok (.deque (d.concat e), d),
          into.elim { s with pinned := d.owners ++ s.pinned }
            (putOwned · (d.concat e) { s with pinned := d.owners ++ s.pinned })) := by
      refine (bind_ok (required_of_some hother)).trans ?_
      cases into <;> rfl
    refine (Meaning.runOwned_of_resolved hop hname hrun).trans ?_
    cases into <;> rfl
  inPlace := by
    have hop : (OwnedOp.concatInPlace other : OwnedOp Literal).mapM resolve s = (.ok (.concatInPlace other), s) := rfl
    have hrun : (OwnedOp.concatInPlace other).run m d { s with pinned := d.owners ++ s.pinned } =
        (.ok (.nothing, d.concat e), { s with pinned := d.owners ++ s.pinned }) := bind_ok (required_of_some hother)
    exact Meaning.runOwned_of_resolved hop hname hrun

/-- The registers of a session obey the laws, and its steps add and multiply as these say. -/
structure CalculatesLawfully (m : Meaning) (s : Session) : Prop where
  repeats : ∀ name d, s.ownedDeque? name = some d → d.RepeatsLawfully
  multiplies : ∀ name d times e, s.ownedDeque? name = some d → d.repeated? times = some e →
    (∀ into, m.perform (.owned name (.repeated times into)) s =
      (.ok (.deque e), into.elim s (putOwned · e s))) ∧
    m.perform (.owned name (.repeatInPlace times)) s = (.ok .nothing, putOwned name e s)
  adds : ∀ name other d e, s.ownedDeque? name = some d → s.ownedDeque? other = some e →
    d.AddsLawfully e ∧ s.Adds m name other d e

theorem Proper.calculatesLawfully (hs : s.Proper) (m : Meaning) : s.CalculatesLawfully m.next where
  repeats name d hname := Deque.repeatsLawfully (hs.owned name d hname).fits
  multiplies _ _ _ _ hname he := multiplies_of_some hname he
  adds name other d e hname hother :=
    ⟨Deque.addsLawfully (hs.owned name d hname).fits (hs.owned other e hother).fits, Session.adds hname hother⟩

end Session

/-- Deques that fit their bounds, of every kind of element, and so the registers of a session after any run. -/
theorem concatenation_and_repetition_laws :
    (∀ {α : Type} {d : Deque α}, d.Fits → d.RepeatsLawfully) ∧
      (∀ {α : Type} {x y : Deque α}, x.Fits → y.Fits → x.AddsLawfully y) ∧
      ∀ (hooks : List (String × Hook)) (environment : Option String) (depth : Nat) (run : List Step),
        (Session.endOf (Meaning.upTo (depth + 1)) run (Session.start hooks environment)).CalculatesLawfully
          (Meaning.upTo (depth + 1)) :=
  ⟨fun hd => Deque.repeatsLawfully hd, fun hx hy => Deque.addsLawfully hx hy, fun hooks environment depth run =>
    ((Session.proper_start hooks environment).endOf (depth + 1) run).calculatesLawfully (Meaning.upTo depth)⟩

/-- Everything here is cut off somewhere, and the register takes its own contents. -/
theorem concatenation_and_repetition_laws_overflowing :
    let d : Deque Nat := ⟨[1, 2, 3], some 4⟩
    let x : Deque Nat := ⟨[1, 2], some 2⟩
    let y : Deque Nat := ⟨[3], some 3⟩
    let z : Deque Nat := ⟨[4, 5, 6], none⟩
    let s := Session.endOf (Meaning.upTo 1) [.createOwned "o" (.items [.int 1, .int 2] (some 3))]
      (Session.start [] none)
    (⟨[3, 1, 2, 3], some 4⟩ : Deque Nat).repeated? 5 = d.repeated? 10 ∧
      (∃ front back, d.repeated? 2 = some front ∧ d.repeated? 3 = some back ∧ front.concat back = ⟨[3, 1, 2, 3], some 4⟩) ∧
      (x.concat y).concat z = x.concat (y.concat z) ∧
      (Meaning.upTo 1).perform (.owned "o" (.concatInPlace "o")) s =
        (.ok .nothing, putOwned "o" ⟨[.int 2, .int 1, .int 2], some 3⟩ s) := by
  intro d x y z s
  have hd : d.Fits := fun _ hb => Option.some.inj hb ▸ by decide
  have hx : x.Fits := fun _ hb => Option.some.inj hb ▸ by decide
  have hy : y.Fits := fun _ hb => Option.some.inj hb ▸ by decide
  have hrepeats := concatenation_and_repetition_laws.1 hd
  have hadds := concatenation_and_repetition_laws.2.1 hx hy
  have hsession := concatenation_and_repetition_laws.2.2 [] none 0 [.createOwned "o" (.items [.int 1, .int 2] (some 3))]
  have htwo : d.repeated? 2 = some ⟨[3, 1, 2, 3], some 4⟩ := by decide
  have hfive : d.repeated? 5 = some ⟨[3, 1, 2, 3], some 4⟩ := by decide
  have hwide : x.NoWider y := fun most hmost => ⟨2, rfl, Option.some.inj hmost ▸ by decide⟩
  exact ⟨hrepeats.product 2 5 _ htwo, hrepeats.sum 2 3 _ hfive, hadds.regroups hwide z,
    (hsession.adds "o" "o" ⟨[.int 1, .int 2], some 3⟩ _ rfl rfl).2.inPlace⟩

end EvictingDeque
