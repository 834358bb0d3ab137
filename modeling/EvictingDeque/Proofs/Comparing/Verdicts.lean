import EvictingDeque.Proofs.Comparing.Looking
import Mathlib.Data.List.Forall2

set_option autoImplicit false

/-!
# When elements are found equal

What it means, one level deep, that a comparison without side effects answers yes: the elements of two deques match
pairwise, and two handles need no look at the elements if they are of one deque.
-/
namespace EvictingDeque

open Action

section

variable {α : Type} {R : α → α → Prop} {as bs cs : List α}

theorem forall₂_symm_of_mem (h : List.Forall₂ R as bs) (hs : ∀ x ∈ as, ∀ y ∈ bs, R x y → R y x) :
    List.Forall₂ R bs as := by
  rw [List.forall₂_iff_get] at h ⊢
  refine ⟨h.1.symm, fun i hb ha => ?_⟩
  exact hs _ (List.get_mem as ⟨i, ha⟩) _ (List.get_mem bs ⟨i, hb⟩) (h.2 i ha hb)

theorem forall₂_trans_of_mem (hab : List.Forall₂ R as bs) (hbc : List.Forall₂ R bs cs)
    (ht : ∀ x ∈ as, ∀ y ∈ bs, ∀ z ∈ cs, R x y → R y z → R x z) : List.Forall₂ R as cs := by
  rw [List.forall₂_iff_get] at hab hbc ⊢
  refine ⟨hab.1.trans hbc.1, fun i ha hc => ?_⟩
  have hb : i < bs.length := hab.1 ▸ ha
  exact ht _ (List.get_mem as ⟨i, ha⟩) _ (List.get_mem bs ⟨i, hb⟩) _ (List.get_mem cs ⟨i, hc⟩) (hab.2 i ha hb)
    (hbc.2 i hb hc)

end

/-- Begun in the session, the comparison answers yes. -/
def Action.Says (u : Session) (a : Action Bool) : Prop := (a u).1 = .ok true

namespace Session

/-- The comparison that an element makes itself, if it refers to no deque and holds none. -/
def directly (s : Session) : Element → Element → Bool
  | .link (.hook id), _ => (s.hook id).equal
  | x, y => Value.sameAtom x y

/-- How two handles compare, given how elements do: they are of one deque, or both deques can be read. -/
inductive SameDeques (s : Session) (same : Element → Element → Prop) (a b : Nat) : Prop
  | place (h : a = b) : SameDeques s same a b
  | items (left : (s.cell a).hold.allowsReading = true) (right : (s.cell b).hold.allowsReading = true)
      (h : List.Forall₂ same (s.cell a).deque.items (s.cell b).deque.items) : SameDeques s same a b

/-- How two elements compare, given how those inside them do. -/
inductive Matches (s : Session) (same : Element → Element → Prop) : Element → Element → Prop
  | directly {x y : Element} (h : s.directly x y = true) : Matches s same x y
  | nested {d e : Deque Element} (h : List.Forall₂ same d.items e.items) : Matches s same (.nested d) (.nested e)
  | handles {a b : Handle} (h : s.SameDeques same a.cell b.cell) : Matches s same (.link (.own a)) (.link (.own b))
  | place {a b : Handle} (h : a.cell = b.cell) (alive : s.isLiving a.cell = true) :
      Matches s same (.link (.weak a)) (.link (.weak b))

theorem directly_of_not_hook {s : Session} {x : Element} (h : ∀ id, x = .link (.hook id) → False) (y : Element) :
    s.directly x y = Value.sameAtom x y := by
  unfold directly
  split
  · exact (h _ rfl).elim
  · rfl

end Session

namespace Action

variable {α : Type} {conflicts : Hold → Prop} {s u w : Session}

theorem Looks.same {a : Action α} (h : a.Looks conflicts s) (huw : s.Sees u w) (hwu : s.Sees w u) :
    (a w).1 = (a u).1 := by
  rcases h.agrees u w huw with ⟨hu, _⟩ | ⟨hsame, _⟩
  · rcases h.agrees w u hwu with ⟨hw, _⟩ | ⟨hsame, _⟩
    · rw [hu, hw]
    · exact hsame.symm
  · exact hsame

/-- Two sessions with the same deques. -/
theorem Looks.same_of_cells {a : Action α} (h : a.Looks conflicts s) (hu : s.Near u) (hw : s.Near w)
    (hcells : ∀ id, id < s.nextCell → w.cell id = u.cell id) : (a w).1 = (a u).1 := by
  refine h.same ⟨hu, hw, fun other ho hr => ?_⟩ ⟨hw, hu, fun other ho hr => ?_⟩ <;> rw [hcells other ho] at *
  · exact ⟨rfl, rfl, rfl, hr, id⟩
  · exact ⟨rfl, rfl, rfl, hr, id⟩

variable {equal : Element → Element → Action Bool} {as bs : List Element}

theorem says_equalPairs (hl : as.length = bs.length) (h : ∀ x ∈ as, ∀ y ∈ bs, (equal x y).Reads s) (hu : s.Near u) :
    Says u (equalPairs equal as bs) ↔ List.Forall₂ (fun x y => Says u (equal x y)) as bs := by
  induction as generalizing bs with
  | nil =>
    cases List.length_eq_zero_iff.1 hl.symm
    exact ⟨fun _ => .nil, fun _ => rfl⟩
  | cons x as ih =>
    cases bs with
    | nil => cases hl
    | cons y bs =>
      have hrest := ih (Nat.succ.inj hl) fun a ha b hb =>
        h a (List.mem_cons_of_mem _ ha) b (List.mem_cons_of_mem _ hb)
      have hrun := (h x List.mem_cons_self y List.mem_cons_self).run hu
      rw [List.forall₂_cons, ← hrest]
      unfold Says
      rw [equalPairs]
      rcases hfirst : (equal x y u).1 with cause | found <;> rw [hfirst] at hrun
      · rw [bind_error hrun]
        exact ⟨nofun, nofun⟩
      · rw [bind_ok hrun]
        cases found with
        | false => exact ⟨nofun, nofun⟩
        | true => exact ⟨fun hs => ⟨rfl, hs⟩, fun hs => hs.2⟩

theorem says_equalItems (h : ∀ x ∈ as, ∀ y ∈ bs, (equal x y).Reads s) (hu : s.Near u) :
    Says u (equalItems equal as bs) ↔ List.Forall₂ (fun x y => Says u (equal x y)) as bs := by
  unfold equalItems
  split
  · rename_i hl
    exact says_equalPairs hl h hu
  · rename_i hl
    exact ⟨nofun, fun hs => absurd hs.length_eq hl⟩

variable {a b : Nat}

/-- Unless it needs no look, a comparison that answers could read both deques. -/
theorem reading_of_answer (hab : a ≠ b) {found : Bool} (h : (equalCells equal a b s).1 = .ok found) :
    (s.cell a).hold.allowsReading = true ∧ (s.cell b).hold.allowsReading = true := by
  unfold equalCells at h
  rw [if_neg hab] at h
  cases hleft : (s.cell a).hold.allowsReading with
  | false =>
    rw [bind_error (readCell_of_held hleft)] at h
    cases h
  | true =>
    rw [bind_ok (readCell_of_reading hleft)] at h
    cases hright : (s.cell b).hold.allowsReading with
    | false =>
      rw [bind_error (readCell_of_held hright)] at h
      cases h
    | true => exact ⟨rfl, rfl⟩

/-- Two deques that can be read are compared by their elements. -/
theorem equalCells_apart (hs : s.Near s) (h : ∀ x y : Element, x.AtHome s → y.AtHome s → (equal x y).Reads s)
    (ha : s.Lives a) (hb : s.Lives b) (hab : a ≠ b) (hleft : (s.cell a).hold.allowsReading = true)
    (hright : (s.cell b).hold.allowsReading = true) :
    (equalCells equal a b s).1 = (equalItems equal (s.cell a).deque.items (s.cell b).deque.items s).1 := by
  have hlooks : (equalItems equal (s.cell a).deque.items (s.cell b).deque.items).Reads s :=
    .equalItems fun x hx y hy => h x y (hs.contents ha x hx) (hs.contents hb y hy)
  unfold equalCells
  rw [if_neg hab, bind_ok (readCell_of_reading hleft), bind_ok (readCell_of_reading hright)]
  exact hlooks.same_of_cells hs (hs.pinned (pins_living ha hb (hs.contents ha) (hs.contents hb))) fun _ _ => rfl

theorem says_equalCells (hs : s.Near s) (h : ∀ x y : Element, x.AtHome s → y.AtHome s → (equal x y).Reads s)
    (ha : s.Lives a) (hb : s.Lives b) :
    Says s (equalCells equal a b) ↔ s.SameDeques (fun x y => Says s (equal x y)) a b := by
  by_cases hab : a = b
  · refine ⟨fun _ => .place hab, fun _ => ?_⟩
    unfold Says equalCells
    rw [if_pos hab]
    rfl
  have hitems := says_equalItems (fun x hx y hy => h x y (hs.contents ha x hx) (hs.contents hb y hy)) hs
  constructor
  · intro hyes
    obtain ⟨left, right⟩ := reading_of_answer hab hyes
    exact .items left right (hitems.1 ((equalCells_apart hs h ha hb hab left right).symm.trans hyes))
  · rintro (he | ⟨left, right, hf⟩)
    · exact absurd he hab
    · exact (equalCells_apart hs h ha hb hab left right).trans (hitems.2 hf)

end Action

namespace Meaning

variable {s : Session}

theorem says_equal_succ (hs : s.Near s) (depth : Nat) {x y : Element} (hx : x.AtHome s) (hy : y.AtHome s) :
    Says s ((upTo (depth + 1)).equal x y) ↔ s.Matches (fun x y => Says s ((upTo depth).equal x y)) x y := by
  change Says s ((upTo depth).equalElements x y) ↔ _
  unfold equalElements
  split
  · rename_i id
    have hact : Hook.act (upTo depth) id (·.whenCompared) s = (.ok (), s) := Hook.act_of_empty _ hx.of_link
    unfold Says
    rw [bind_ok hact]
    refine ⟨fun h => .directly (Except.ok.inj h), fun h => ?_⟩
    cases h with
    | directly h => exact congrArg Except.ok h
  · have hitems := says_equalItems (fun a ha b hb => reads_equal depth a b (hx.of_nested a ha) (hy.of_nested b hb)) hs
    refine hitems.trans ⟨.nested, fun h => ?_⟩
    cases h with
    | directly h => cases h
    | nested h => exact h
  · refine (says_equalCells hs (reads_equal depth) hx.of_link hy.of_link).trans ⟨.handles, fun h => ?_⟩
    cases h with
    | directly h => cases h
    | handles h => exact h
  · rename_i a b
    split
    · rename_i hab
      refine ⟨fun h => .place hab (Except.ok.inj h), fun h => ?_⟩
      cases h with
      | directly h => cases h
      | place _ alive => exact congrArg Except.ok alive
    · rename_i hab
      refine ⟨nofun, fun h => ?_⟩
      cases h with
      | directly h => cases h
      | place h _ => exact absurd h hab
  · rename_i hhook hnested hown hweak
    have hdirectly : s.directly x y = Value.sameAtom x y := Session.directly_of_not_hook hhook y
    refine ⟨fun h => .directly (hdirectly.trans (Except.ok.inj h)), fun h => ?_⟩
    cases h with
    | directly h => exact congrArg Except.ok (hdirectly.symm.trans h)
    | nested _ => exact (hnested _ _ rfl rfl).elim
    | handles _ => exact (hown _ _ rfl rfl).elim
    | place _ _ => exact (hweak _ _ rfl rfl).elim

end Meaning

end EvictingDeque
