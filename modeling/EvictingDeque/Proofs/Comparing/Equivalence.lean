import EvictingDeque.Proofs.Comparing.Verdicts
import EvictingDeque.Proofs.Interpreter.Depth

set_option autoImplicit false

/-!
# Equality of shared deques

Comparing handles is an equivalence of handles, although elements need not equal themselves and deques may own each
other in cycles: two handles of one deque are equal without a look, and a comparison that answers has gone only
finitely deep. The induction is on that depth, over elements; handles are the case in between.
-/
namespace EvictingDeque

open Action

namespace Binary64

/-- Equal numbers are both infinite and of one sign, or stand at the same place. -/
theorem same_iff {a b : Binary64} : a.same b = true ↔
    (∃ negative, a = .infinite negative ∧ b = .infinite negative) ∨
      ∃ m n units others, a = .finite m units ∧ b = .finite n others ∧ signedUnits m units = signedUnits n others := by
  cases a with
  | notANumber => simp [same, compare?]
  | infinite m => cases m <;> cases b <;> simp [same, compare?]
  | finite m units =>
    cases b with
    | infinite n => cases n <;> simp [same, compare?]
    | _ => simp [same, compare?]

theorem same_symm {a b : Binary64} (h : a.same b = true) : b.same a = true := by
  rcases same_iff.1 h with ⟨negative, rfl, rfl⟩ | ⟨m, n, units, others, rfl, rfl, hu⟩
  · exact h
  · exact same_iff.2 (.inr ⟨n, m, others, units, rfl, rfl, hu.symm⟩)

theorem same_trans {a b c : Binary64} (h : a.same b = true) (h' : b.same c = true) : a.same c = true := by
  rcases same_iff.1 h with ⟨negative, rfl, rfl⟩ | ⟨m, n, units, others, rfl, rfl, hu⟩
  · exact h'
  · rcases same_iff.1 h' with ⟨negative, hb, _⟩ | ⟨n', k, others', last, hb, rfl, hu'⟩
    · cases hb
    · cases hb
      exact same_iff.2 (.inr ⟨m, k, units, last, rfl, rfl, hu.trans hu'⟩)

end Binary64

namespace Value

variable {ρ : Type} {x y z : Value ρ}

theorem sameAtom_symm (h : sameAtom x y = true) : sameAtom y x = true := by
  cases x <;> cases y <;> simp only [sameAtom, beq_iff_eq, Bool.false_eq_true] at h ⊢
  case real a b => exact Binary64.same_symm h
  all_goals exact h.symm

theorem sameAtom_trans (h : sameAtom x y = true) (h' : sameAtom y z = true) : sameAtom x z = true := by
  cases x <;> cases y <;> simp only [sameAtom, beq_iff_eq, Bool.false_eq_true] at h
  case real a b =>
    cases z <;> simp only [sameAtom, Bool.false_eq_true] at h' ⊢
    exact Binary64.same_trans h h'
  case keyed key tag other =>
    cases z <;> simp only [sameAtom, beq_iff_eq, Bool.false_eq_true] at h' ⊢
    exact h.trans h'
  all_goals
    subst h
    exact h'

end Value

namespace Session

/-- The elements of the shared deques, at every depth. -/
inductive Occurs (s : Session) : Element → Prop
  | stored {id : Nat} {x : Element} (hid : id < s.nextCell) (h : x ∈ (s.cell id).deque.items) : Occurs s x
  | inner {d : Deque Element} {x : Element} (outer : Occurs s (.nested d)) (h : x ∈ d.items) : Occurs s x

/-- What elements say themselves of one another is symmetric and transitive. -/
structure Fair (s : Session) : Prop where
  symm : ∀ x y, s.Occurs x → s.Occurs y → s.directly x y = true → s.directly y x = true
  trans : ∀ x y z, s.Occurs x → s.Occurs y → s.Occurs z → s.directly x y = true → s.directly y z = true →
    s.directly x z = true

/-- Plain data compare fairly, and acting elements that equal nothing do. -/
theorem fair_of_unequal {s : Session} (h : ∀ id, (s.hook id).equal = false) : s.Fair := by
  have hatom (x y : Element) : s.directly x y = Value.sameAtom x y := by
    unfold directly
    split
    · rw [h]
      rfl
    · rfl
  constructor
  · intro x y _ _
    rw [hatom, hatom]
    exact Value.sameAtom_symm
  · intro x y z _ _ _
    rw [hatom, hatom, hatom]
    exact Value.sameAtom_trans

/-- An element that occurs, and refers to nothing but what is there. -/
structure Present (s : Session) (x : Element) : Prop where
  home : x.AtHome s
  occurs : s.Occurs x

variable {s : Session} {same : Element → Element → Prop} {x y z : Element} {a b c : Nat}

theorem Present.of_nested {d : Deque Element} (h : s.Present (.nested d)) (hx : x ∈ d.items) : s.Present x :=
  ⟨h.home.of_nested x hx, .inner h.occurs hx⟩

theorem Near.present (hs : s.Near s) (ha : s.Lives a) (hx : x ∈ (s.cell a).deque.items) : s.Present x :=
  ⟨hs.contents ha x hx, .stored ha.made hx⟩

theorem SameDeques.symm (hs : s.Near s) (hsymm : ∀ x y, s.Present x → s.Present y → same x y → same y x)
    (ha : s.Lives a) (hb : s.Lives b) (h : s.SameDeques same a b) : s.SameDeques same b a := by
  cases h with
  | place h => exact .place h.symm
  | items left right h =>
    exact .items right left (forall₂_symm_of_mem h fun x hx y hy => hsymm x y (hs.present ha hx) (hs.present hb hy))

theorem SameDeques.trans (hs : s.Near s)
    (htrans : ∀ x y z, s.Present x → s.Present y → s.Present z → same x y → same y z → same x z)
    (ha : s.Lives a) (hb : s.Lives b) (hc : s.Lives c) (hab : s.SameDeques same a b) (hbc : s.SameDeques same b c) :
    s.SameDeques same a c := by
  cases hab with
  | place h => exact h ▸ hbc
  | items left right h =>
    cases hbc with
    | place hplace => exact hplace ▸ .items left right h
    | items middle last hrest =>
      exact .items left last (forall₂_trans_of_mem h hrest fun x hx y hy z hz =>
        htrans x y z (hs.present ha hx) (hs.present hb hy) (hs.present hc hz))

/-- An element that is compared by what it is or refers to makes no comparison itself, nor is it found equal in one. -/
theorem Fair.not_directly (hf : s.Fair) (hx : s.Present x) (hy : s.Present y) (hn : ∀ z, s.directly y z = false) :
    s.directly x y = false := by
  refine Bool.eq_false_iff.2 fun h => ?_
  have hback := hf.symm x y hx.occurs hy.occurs h
  rw [hn] at hback
  cases hback

theorem Matches.symm (hs : s.Near s) (hf : s.Fair)
    (hsymm : ∀ x y, s.Present x → s.Present y → same x y → same y x) (hx : s.Present x) (hy : s.Present y)
    (h : s.Matches same x y) : s.Matches same y x := by
  cases h with
  | directly h => exact .directly (hf.symm x y hx.occurs hy.occurs h)
  | nested h =>
    exact .nested (forall₂_symm_of_mem h fun x hin y hin' => hsymm x y (hx.of_nested hin) (hy.of_nested hin'))
  | handles h => exact .handles (h.symm hs hsymm hx.home.of_link hy.home.of_link)
  | place h alive => exact .place h.symm (h ▸ alive)

theorem Matches.trans (hs : s.Near s) (hf : s.Fair)
    (htrans : ∀ x y z, s.Present x → s.Present y → s.Present z → same x y → same y z → same x z)
    (hx : s.Present x) (hy : s.Present y) (hz : s.Present z) (hxy : s.Matches same x y) (hyz : s.Matches same y z) :
    s.Matches same x z := by
  -- what the middle element is decides both comparisons in the same way
  have hmixed (hn : ∀ w, s.directly y w = false) : s.directly x y = false := hf.not_directly hx hy hn
  cases hxy with
  | directly h =>
    cases hyz with
    | directly h' => exact .directly (hf.trans x y z hx.occurs hy.occurs hz.occurs h h')
    | nested _ => cases (hmixed fun _ => rfl).symm.trans h
    | handles _ => cases (hmixed fun _ => rfl).symm.trans h
    | place _ _ => cases (hmixed fun _ => rfl).symm.trans h
  | nested h =>
    cases hyz with
    | directly h' => cases h'
    | nested h' =>
      exact .nested (forall₂_trans_of_mem h h' fun x hin y hin' z hin'' =>
        htrans x y z (hx.of_nested hin) (hy.of_nested hin') (hz.of_nested hin''))
  | handles h =>
    cases hyz with
    | directly h' => cases h'
    | handles h' => exact .handles (h.trans hs htrans hx.home.of_link hy.home.of_link hz.home.of_link h')
  | place h alive =>
    cases hyz with
    | directly h' => cases h'
    | place h' _ => exact .place (h.trans h') alive

end Session

namespace Meaning

variable {s : Session}

theorem says_symm (hs : s.Near s) (hf : s.Fair) (depth : Nat) (x y : Element) (hx : s.Present x) (hy : s.Present y)
    (h : Says s ((upTo depth).equal x y)) : Says s ((upTo depth).equal y x) := by
  induction depth generalizing x y with
  | zero => cases h
  | succ depth ih =>
    rw [says_equal_succ hs depth hx.home hy.home] at h
    rw [says_equal_succ hs depth hy.home hx.home]
    exact h.symm hs hf ih hx hy

theorem says_trans (hs : s.Near s) (hf : s.Fair) (depth : Nat) (x y z : Element) (hx : s.Present x) (hy : s.Present y)
    (hz : s.Present z) (hxy : Says s ((upTo depth).equal x y)) (hyz : Says s ((upTo depth).equal y z)) :
    Says s ((upTo depth).equal x z) := by
  induction depth generalizing x y z with
  | zero => cases hxy
  | succ depth ih =>
    rw [says_equal_succ hs depth hx.home hy.home] at hxy
    rw [says_equal_succ hs depth hy.home hz.home] at hyz
    rw [says_equal_succ hs depth hx.home hz.home]
    exact hxy.trans hs hf ih hx hy hz hyz

end Meaning

end EvictingDeque
