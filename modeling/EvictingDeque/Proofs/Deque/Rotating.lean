import EvictingDeque.Proofs.Deque.Words
import EvictingDeque.Proofs.Interpreter.AtHand
import EvictingDeque.Proofs.Locks.Released
import EvictingDeque.Proofs.Plain.Agreement
import Mathlib.Data.Int.ModEq
import Mathlib.Data.List.Rotate
import Mathlib.Tactic.Zify

set_option autoImplicit false

/-!
# Rotation as a cyclic action

Rotating is adding to every position, modulo the length. Sums of steps, multiples of the length and single steps from
one end to the other follow from that, whichever way the rotation is worked out.
-/
namespace EvictingDeque

open Action

namespace Deque

variable {α : Type}

/-- The last element goes to the front. -/
def backToFront (d : Deque α) : Deque α :=
  match d.popBack with
  | (none, rest) => rest
  | (some value, rest) => (rest.pushFront value).2

/-- The first element goes to the back. -/
def frontToBack (d : Deque α) : Deque α :=
  match d.popFront with
  | (none, rest) => rest
  | (some value, rest) => (rest.pushBack value).2

/-- As `rotate`, within the word. The deque is split in two where it has elements on either side, or at an end. -/
def rotateInWord? (d : Deque α) (steps : Int) : Option (Deque α) :=
  let length := d.items.length
  if length ≤ 1 then some d
  else do
    let shift ← Word.remainder? (← Word.distance? steps) length
    let rest ← Word.difference? length shift
    return ⟨turn d.items (if 0 ≤ steps then rest else shift), d.bound⟩

theorem rotateInWord?_eq (d : Deque α) {steps : Int} (h : Word.IsSigned steps) :
    d.rotateInWord? steps = some (d.rotate steps) := by
  unfold rotateInWord? rotate
  dsimp only
  by_cases hl : d.items.length ≤ 1
  · rw [if_pos hl, if_pos hl]
  · have hpos : 0 < d.items.length := by omega
    have hshift : steps.natAbs % d.items.length ≤ d.items.length := Nat.le_of_lt (Nat.mod_lt _ hpos)
    simp only [if_neg hl, Word.distance?_of_isSigned h, Word.remainder?_of_pos hpos, Word.difference?_of_le hshift,
      Option.bind_eq_bind, Option.bind_some]
    by_cases hs : 0 ≤ steps <;> simp [hs]

theorem turn_eq_rotate {items : List α} {count : Nat} (h : count ≤ items.length) :
    turn items count = items.rotate count := (List.rotate_eq_drop_append_take h).symm

/-- Rightwards by some steps is leftwards by their opposite. -/
theorem rotate_eq_opposite (d : Deque α) (steps : Int) :
    d.rotate steps = ⟨d.items.rotate (-steps % d.items.length).toNat, d.bound⟩ := by
  refine (Plain.rotate_eq d steps).trans (congrArg (Deque.mk · d.bound) ?_)
  change d.items.rotateRight (steps % d.items.length).toNat = _
  rcases Nat.eq_zero_or_pos d.items.length with hzero | hpos
  · rw [List.length_eq_zero_iff.1 hzero]
    simp
  have hnonneg := Int.emod_nonneg steps (b := d.items.length) (by omega)
  have hbelow := Int.emod_lt_of_pos steps (b := d.items.length) (by omega)
  have hlt : (steps % d.items.length).toNat < d.items.length := by omega
  have hback : (-steps % d.items.length).toNat =
      (d.items.length - (steps % d.items.length).toNat) % d.items.length := by
    have hsum : (-steps % d.items.length : Int) =
        ((d.items.length - (steps % d.items.length).toNat : Nat) : Int) % d.items.length := calc
      (-steps % d.items.length : Int) = -(steps % d.items.length) % d.items.length :=
        (Int.mod_modEq steps d.items.length).neg.symm
      _ = (-(steps % d.items.length) + d.items.length * 1) % d.items.length :=
        (Int.add_mul_emod_self_left ..).symm
      _ = ((d.items.length - (steps % d.items.length).toNat : Nat) : Int) % d.items.length := by
        congr 1
        omega
    rw [hsum, ← Int.natCast_emod, Int.toNat_natCast]
  rw [hback, List.rotate_mod]
  unfold List.rotateRight
  dsimp only
  by_cases hone : d.items.length ≤ 1
  · obtain ⟨value, hitems⟩ := List.length_eq_one_iff.1 (Nat.le_antisymm hone hpos)
    rw [if_pos hone, hitems, List.rotate_singleton]
  · rw [if_neg hone, Nat.mod_eq_of_lt hlt]
    exact turn_eq_rotate (Nat.sub_le _ _)

/-- Each element moves by the steps, around the end. -/
theorem getElem?_rotate (d : Deque α) (steps : Int) {position : Nat} (h : position < d.items.length) :
    (d.rotate steps).items[((position + steps) % d.items.length).toNat]? = d.items[position]? := by
  have hmoved := Int.emod_nonneg (position + steps) (b := d.items.length) (by omega)
  have hbelow := Int.emod_lt_of_pos (position + steps) (b := d.items.length) (by omega)
  have hshift := Int.emod_nonneg (-steps) (b := d.items.length) (by omega)
  have hback : (((position + steps) % d.items.length).toNat + (-steps % d.items.length).toNat) % d.items.length =
      position := by
    zify
    rw [Int.toNat_of_nonneg hmoved, Int.toNat_of_nonneg hshift, ← Int.add_emod, Int.add_neg_cancel_right]
    exact Int.emod_eq_of_lt (by omega) (by omega)
  rw [rotate_eq_opposite, List.getElem?_rotate (by omega), hback]

theorem rotate_rotate (d : Deque α) {a b c : Int} (h : c ≡ a + b [ZMOD d.items.length]) :
    (d.rotate a).rotate b = d.rotate c := by
  rw [rotate_eq_opposite (d.rotate a), rotate_eq_opposite d, rotate_eq_opposite d]
  refine congrArg (Deque.mk · d.bound) ?_
  dsimp only
  rw [List.length_rotate, List.rotate_rotate]
  rcases Nat.eq_zero_or_pos d.items.length with hzero | hpos
  · rw [List.length_eq_zero_iff.1 hzero]
    simp
  have ha := Int.emod_nonneg (-a) (b := d.items.length) (by omega)
  have hb := Int.emod_nonneg (-b) (b := d.items.length) (by omega)
  have hc := Int.emod_nonneg (-c) (b := d.items.length) (by omega)
  have hopposite : -a + -b ≡ -c [ZMOD d.items.length] := by
    rw [← Int.neg_add]
    exact h.neg.symm
  have hsum : ((-a % d.items.length).toNat + (-b % d.items.length).toNat) % d.items.length =
      (-c % d.items.length).toNat := by
    zify
    rw [Int.toNat_of_nonneg ha, Int.toNat_of_nonneg hb, Int.toNat_of_nonneg hc, ← Int.add_emod]
    exact hopposite
  rw [← List.rotate_mod, hsum]

theorem rotate_of_dvd_length (d : Deque α) {steps : Int} (h : (d.items.length : Int) ∣ steps) : d.rotate steps = d :=
  rotate_of_dvd d (Nat.mod_eq_zero_of_dvd (Int.natCast_dvd.1 h))

theorem isOverfull_of_fits {d : Deque α} (h : d.Fits) : d.isOverfull = false := by
  unfold isOverfull
  split
  · rfl
  · rename_i bound hb
    exact decide_eq_false (Nat.not_lt.2 (h bound hb))

/-- One step to the right. What leaves at the back makes room for itself at the front. -/
theorem backToFront_eq {d : Deque α} (hd : d.Fits) : d.backToFront = d.rotate 1 := by
  have hfits := hd.rotate 1
  rcases d with ⟨items, bound⟩
  rcases List.eq_nil_or_concat' items with rfl | ⟨front, value, rfl⟩
  · rfl
  · have hrotated : (⟨front ++ [value], bound⟩ : Deque α).rotate 1 = ⟨value :: front, bound⟩ := by
      cases front with
      | nil => rfl
      | cons first front => simp [rotate, turn]
    rw [hrotated] at hfits ⊢
    simp [backToFront, popBack, pushFront, isOverfull_of_fits hfits]

/-- One step to the left. -/
theorem frontToBack_eq {d : Deque α} (hd : d.Fits) : d.frontToBack = d.rotate (-1) := by
  have hfits := hd.rotate (-1)
  rcases d with ⟨items, bound⟩
  cases items with
  | nil => rfl
  | cons value back =>
    have hrotated : (⟨value :: back, bound⟩ : Deque α).rotate (-1) = ⟨back ++ [value], bound⟩ := by
      cases back with
      | nil => rfl
      | cons second back => simp [rotate, turn]
    rw [hrotated] at hfits ⊢
    simp [frontToBack, popFront, pushBack, isOverfull_of_fits hfits]

theorem iterate_backToFront {d : Deque α} (hd : d.Fits) (steps : Nat) : backToFront^[steps] d = d.rotate steps := by
  induction steps with
  | zero => exact (rotate_of_dvd_length d (dvd_zero _)).symm
  | succ steps ih =>
    rw [Function.iterate_succ_apply', ih, backToFront_eq (hd.rotate _)]
    exact rotate_rotate d (.refl _)

theorem iterate_frontToBack {d : Deque α} (hd : d.Fits) (steps : Nat) : frontToBack^[steps] d = d.rotate (-steps) := by
  induction steps with
  | zero => exact (rotate_of_dvd_length d (by simp)).symm
  | succ steps ih =>
    rw [Function.iterate_succ_apply', ih, frontToBack_eq (hd.rotate _)]
    refine rotate_rotate d ?_
    rw [Int.natCast_succ, Int.neg_add]

/-- Every number of steps is added to all positions, around the end, and nothing else happens. -/
structure RotatesCyclically (d : Deque α) : Prop where
  moves : ∀ (steps : Int) (position : Nat), position < d.items.length →
    (d.rotate steps).items[((position + steps) % d.items.length).toNat]? = d.items[position]?
  keeps : ∀ steps, (d.rotate steps).items.Perm d.items ∧ (d.rotate steps).bound = d.bound
  inWord : ∀ steps, Word.IsSigned steps → d.rotateInWord? steps = some (d.rotate steps)
  adds : ∀ a b c : Int, c ≡ a + b [ZMOD d.items.length] → (d.rotate a).rotate b = d.rotate c
  multiples : ∀ steps : Int, (d.items.length : Int) ∣ steps → d.rotate steps = d
  stepwise : d.Fits → ∀ steps : Nat,
    d.rotate steps = backToFront^[steps] d ∧ d.rotate (-steps) = frontToBack^[steps] d

theorem rotatesCyclically (d : Deque α) : d.RotatesCyclically where
  moves steps _ h := d.getElem?_rotate steps h
  keeps steps := by
    rw [rotate_eq_opposite]
    exact ⟨List.rotate_perm _ _, rfl⟩
  inWord _ h := d.rotateInWord?_eq h
  adds _ _ _ h := d.rotate_rotate h
  multiples _ h := d.rotate_of_dvd_length h
  stepwise hd steps := ⟨(iterate_backToFront hd steps).symm, (iterate_frontToBack hd steps).symm⟩

end Deque

/-- Rotating answers nothing and rotates the deque that the register has or that the handle reaches, and whatever else
there is stays what it is. -/
structure Session.RotatesAlike (m : Meaning) (s : Session) (steps : Int) : Prop where
  owned : ∀ name d, s.ownedDeque? name = some d →
    m.perform (.owned name (.edit (.rotate steps))) s = (.ok .nothing, putOwned name (d.rotate steps) s)
  shared : ∀ name id, s.shared.get? name = some id →
    ∃ cell : Cell Element, m.perform (.shared name (.edit (.rotate steps))) s = (.ok .nothing, s.putCell id cell) ∧
      cell.deque = (s.cell id).deque.rotate steps

theorem Session.Released.rotatesAlike {s : Session} (hs : s.Released) (m : Meaning) (steps : Int) :
    s.RotatesAlike m.next steps where
  owned name d hd := by
    have hop : (OwnedOp.edit (.rotate steps) : OwnedOp Literal).mapM resolve s = (.ok (.edit (.rotate steps)), s) := rfl
    exact m.runOwned_of_alone hop hd (fun _ => rfl)
  shared name id hname := by
    have hop : (SharedOp.edit (.rotate steps) : SharedOp Literal).mapM resolve s = (.ok (.edit (.rotate steps)), s) :=
      rfl
    have hrun : (SharedOp.edit (.rotate steps)).run m id s =
        (.ok .nothing, s.putCell id ((s.cell id).edit (.rotate steps)).2) :=
      bind_ok (changeCell_of_free _ (hs.idle id).free)
    refine ⟨_, (m.performStep_shared hop hname).trans hrun, ?_⟩
    unfold Cell.edit
    dsimp only
    split <;> rfl

/-- Deques of every kind of element are rotated by the cyclic group, and so are those of a session after any run. -/
theorem rotation_acts_cyclically :
    (∀ {α : Type} (d : Deque α), d.RotatesCyclically) ∧
      ∀ (hooks : List (String × Hook)) (environment : Option String) (depth : Nat) (run : List Step) (steps : Int),
        (Session.endOf (Meaning.upTo (depth + 1)) run (Session.start hooks environment)).RotatesAlike
          (Meaning.upTo (depth + 1)) steps :=
  ⟨fun d => d.rotatesCyclically, fun hooks environment depth run steps =>
    (Session.released_endOf hooks environment (depth + 1) run).rotatesAlike _ steps⟩

/-- Two full deques with bounds, one of a register and one behind a handle. -/
def fullPair : List Step :=
  [.createOwned "o" (.items [.int 1, .int 2, .int 3] (some 3)), .createShared "s" (.items [.int 4, .int 5] (some 2))]

/-- The farthest rotation to the left, whose distance is no signed word. -/
theorem rotation_acts_cyclically_farthest :
    let d : Deque Nat := ⟨[1, 2, 3, 4, 5], some 5⟩
    let s := Session.endOf (Meaning.upTo 1) fullPair (Session.start [] none)
    (d.rotate (-9223372036854775808)).items[2]? = some 1 ∧
      d.rotateInWord? (-9223372036854775808) = some (d.rotate (-9223372036854775808)) ∧
      (d.rotate 4).rotate 3 = d.rotate (-3) ∧ d.rotate (-9223372036854775805) = d ∧
      d.rotate 2 = Deque.backToFront^[2] d ∧
      (Meaning.upTo 1).perform (.owned "o" (.edit (.rotate (-9223372036854775808)))) s =
        (.ok .nothing, putOwned "o" ⟨[.int 3, .int 1, .int 2], some 3⟩ s) ∧
      ∃ cell, (Meaning.upTo 1).perform (.shared "s" (.edit (.rotate (-9223372036854775807)))) s =
        (.ok .nothing, s.putCell 0 cell) ∧ cell.deque = ⟨[.int 5, .int 4], some 2⟩ := by
  intro d s
  have hd := rotation_acts_cyclically.1 d
  have hs := rotation_acts_cyclically.2 [] none 0 fullPair
  have hplace : (((0 : Nat) + (-9223372036854775808) : Int) % d.items.length).toNat = 2 := by decide
  have hmoved := hd.moves (-9223372036854775808) 0 (by decide)
  rw [hplace] at hmoved
  refine ⟨hmoved, hd.inWord _ (by decide), hd.adds 4 3 (-3) (by decide),
    hd.multiples _ (by decide), (hd.stepwise ?_ 2).1, (hs _).owned "o" ⟨[.int 1, .int 2, .int 3], some 3⟩ rfl,
    (hs _).shared "s" 0 rfl⟩
  intro bound hb
  cases hb
  decide

end EvictingDeque
