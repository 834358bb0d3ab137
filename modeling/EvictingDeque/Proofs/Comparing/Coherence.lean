import EvictingDeque.Deque.Order
import Mathlib.Data.List.Basic

set_option autoImplicit false

/-!
# Coherent comparison of deques

Where the equality and the partial order of elements fit together, those of the deques do. Every law goes by the tails
behind a first pair of elements: that pair decides, or it is equal and makes no difference.
-/
namespace EvictingDeque

/-- The equality is that of the partial order, which reverses with its operands, is transitive and cannot tell equal
members apart. A member need not equal itself, nor have an order to any other. -/
structure Coherent {α : Type} (members : α → Prop) (same : α → α → Bool) (order? : α → α → Option Ordering) : Prop where
  equal : ∀ x y, members x → members y → (same x y = true ↔ order? x y = some .eq)
  swap : ∀ x y, members x → members y → order? y x = (order? x y).map .swap
  trans : ∀ x y z, members x → members y → members z → order? x y = some .lt → order? y z = some .lt →
    order? x z = some .lt
  congr : ∀ x y z, members x → members y → members z → same x y = true → order? x z = order? y z

namespace Coherent

variable {α β : Type} {members : α → Prop} {same : α → α → Bool} {order? : α → α → Option Ordering} {x y z : α}

theorem mono (h : Coherent members same order?) {fewer : α → Prop} (hf : ∀ x, fewer x → members x) :
    Coherent fewer same order? where
  equal x y hx hy := h.equal x y (hf x hx) (hf y hy)
  swap x y hx hy := h.swap x y (hf x hx) (hf y hy)
  trans x y z hx hy hz := h.trans x y z (hf x hx) (hf y hy) (hf z hz)
  congr x y z hx hy hz := h.congr x y z (hf x hx) (hf y hy) (hf z hz)

/-- What is compared by a part of it is compared as coherently as the parts. -/
theorem comap (h : Coherent members same order?) (part : β → α) :
    Coherent (fun b => members (part b)) (fun b c => same (part b) (part c)) (fun b c => order? (part b) (part c)) where
  equal b c := h.equal (part b) (part c)
  swap b c := h.swap (part b) (part c)
  trans b c d := h.trans (part b) (part c) (part d)
  congr b c d := h.congr (part b) (part c) (part d)

/-- Members that are made of others are compared as coherently as these. -/
theorem map {of : β → Prop} (make : β → α) (hmade : ∀ x, members x → ∃ b, of b ∧ make b = x)
    (h : Coherent of (fun b c => same (make b) (make c)) (fun b c => order? (make b) (make c))) :
    Coherent members same order? where
  equal x y hx hy := by
    obtain ⟨b, hb, rfl⟩ := hmade x hx
    obtain ⟨c, hc, rfl⟩ := hmade y hy
    exact h.equal b c hb hc
  swap x y hx hy := by
    obtain ⟨b, hb, rfl⟩ := hmade x hx
    obtain ⟨c, hc, rfl⟩ := hmade y hy
    exact h.swap b c hb hc
  trans x y z hx hy hz := by
    obtain ⟨b, hb, rfl⟩ := hmade x hx
    obtain ⟨c, hc, rfl⟩ := hmade y hy
    obtain ⟨d, hd, rfl⟩ := hmade z hz
    exact h.trans b c d hb hc hd
  congr x y z hx hy hz := by
    obtain ⟨b, hb, rfl⟩ := hmade x hx
    obtain ⟨c, hc, rfl⟩ := hmade y hy
    obtain ⟨d, hd, rfl⟩ := hmade z hz
    exact h.congr b c d hb hc hd

/-- Members of several kinds, which have nothing to do with each other, are compared coherently if those of one kind
are. -/
theorem of_kinds {κ : Type} (kind : α → κ)
    (apart : ∀ x y, kind x ≠ kind y → same x y = false ∧ order? x y = none)
    (h : ∀ m, members m → Coherent (fun x => members x ∧ kind x = kind m) same order?) :
    Coherent members same order? where
  equal x y hx hy := by
    by_cases hk : kind x = kind y
    · exact (h y hy).equal x y ⟨hx, hk⟩ ⟨hy, rfl⟩
    · rw [(apart x y hk).1, (apart x y hk).2]
      exact ⟨nofun, nofun⟩
  swap x y hx hy := by
    by_cases hk : kind x = kind y
    · exact (h y hy).swap x y ⟨hx, hk⟩ ⟨hy, rfl⟩
    · rw [(apart x y hk).2, (apart y x (Ne.symm hk)).2]
      rfl
  trans x y z hx hy hz hxy hyz := by
    have hk : kind x = kind y := by
      by_contra hk
      cases (apart x y hk).2.symm.trans hxy
    have hk' : kind y = kind z := by
      by_contra hk'
      cases (apart y z hk').2.symm.trans hyz
    exact (h z hz).trans x y z ⟨hx, hk.trans hk'⟩ ⟨hy, hk'⟩ ⟨hz, rfl⟩ hxy hyz
  congr x y z hx hy hz hxy := by
    have hk : kind x = kind y := by
      by_contra hk
      cases (apart x y hk).1.symm.trans hxy
    by_cases hk' : kind y = kind z
    · exact (h z hz).congr x y z ⟨hx, hk.trans hk'⟩ ⟨hy, hk'⟩ ⟨hz, rfl⟩ hxy
    · have hk'' : kind x ≠ kind z := fun h => hk' (hk.symm.trans h)
      rw [(apart x z hk'').2, (apart y z hk').2]

/-- A lawful total order is coherent with the equality of what it compares. -/
theorem of_compare (β : Type) [Ord β] [BEq β] [LawfulBEq β] [Std.TransOrd β] [Std.LawfulEqOrd β] :
    Coherent (fun _ : β => True) (· == ·) (fun x y => some (compare x y)) where
  equal x y _ _ := by
    rw [beq_iff_eq, Option.some.injEq, Std.compare_eq_iff_eq]
  swap x y _ _ := congrArg some Std.OrientedOrd.eq_swap
  trans x y z _ _ _ hxy hyz :=
    congrArg some (Std.TransCmp.lt_trans (Option.some.inj hxy) (Option.some.inj hyz))
  congr x y z _ _ _ h := by rw [beq_iff_eq.1 h]

variable (h : Coherent members same order?)

include h

theorem symm (hx : members x) (hy : members y) (hs : same x y = true) : same y x = true := by
  rw [h.equal y x hy hx, h.swap x y hx hy, (h.equal x y hx hy).1 hs]
  rfl

theorem same_trans (hx : members x) (hy : members y) (hz : members z) (hxy : same x y = true) (hyz : same y z = true) :
    same x z = true := by
  rw [h.equal x z hx hz, h.congr x y z hx hy hz hxy]
  exact (h.equal y z hy hz).1 hyz

theorem congr_right (hx : members x) (hy : members y) (hz : members z) (hs : same y z = true) :
    order? x y = order? x z := by
  rw [h.swap y x hy hx, h.swap z x hz hx, h.congr y z x hy hz hx hs]

end Coherent

namespace Deque

variable {α : Type} {members : α → Prop} {same : α → α → Bool} {order? : α → α → Option Ordering} {x y : α}
  {as bs cs front front' : List α}

theorem compareItems?_cons_of_eq (h : order? x y = some .eq) (as bs : List α) :
    compareItems? order? (x :: as) (y :: bs) = compareItems? order? as bs := by
  simp [compareItems?, h]

theorem compareItems?_cons_of_ne (h : order? x y ≠ some .eq) (as bs : List α) :
    compareItems? order? (x :: as) (y :: bs) = order? x y := by
  unfold compareItems?
  split
  · rename_i heq
    exact absurd heq h
  · rfl

theorem compareItems?_cons_eq_eq :
    compareItems? order? (x :: as) (y :: bs) = some .eq ↔
      order? x y = some .eq ∧ compareItems? order? as bs = some .eq := by
  by_cases h : order? x y = some .eq
  · simp [compareItems?_cons_of_eq h, h]
  · simp [compareItems?_cons_of_ne h, h]

theorem compareItems?_cons_eq_lt :
    compareItems? order? (x :: as) (y :: bs) = some .lt ↔
      order? x y = some .lt ∨ order? x y = some .eq ∧ compareItems? order? as bs = some .lt := by
  by_cases h : order? x y = some .eq
  · simp [compareItems?_cons_of_eq h, h]
  · simp [compareItems?_cons_of_ne h, h]

/-- Pairs of equal elements in front make no difference. -/
theorem compareItems?_append (h : compareItems? order? front front' = some .eq) (as bs : List α) :
    compareItems? order? (front ++ as) (front' ++ bs) = compareItems? order? as bs := by
  induction front generalizing front' with
  | nil =>
    cases front' with
    | nil => rfl
    | cons y front' => cases h
  | cons x front ih =>
    cases front' with
    | nil => cases h
    | cons y front' =>
      obtain ⟨hxy, hrest⟩ := compareItems?_cons_eq_eq.1 h
      exact (compareItems?_cons_of_eq hxy _ _).trans (ih hrest)

/-- Every element of the deque is a member. -/
def Over (members : α → Prop) (d : Deque α) : Prop := ∀ x ∈ d.items, members x

end Deque

namespace Coherent

open Deque

variable {α : Type} {members : α → Prop} {same : α → α → Bool} {order? : α → α → Option Ordering}

theorem items_equal (h : Coherent members same order?) {as bs : List α} (ha : ∀ x ∈ as, members x)
    (hb : ∀ x ∈ bs, members x) : sameItems same as bs = true ↔ compareItems? order? as bs = some .eq := by
  induction as generalizing bs with
  | nil => cases bs <;> simp [sameItems, compareItems?]
  | cons x as ih =>
    cases bs with
    | nil => simp [sameItems, compareItems?]
    | cons y bs =>
      rw [List.forall_mem_cons] at ha hb
      rw [compareItems?_cons_eq_eq, ← h.equal x y ha.1 hb.1, ← ih ha.2 hb.2]
      exact Bool.and_eq_true_iff

theorem items_swap (h : Coherent members same order?) {as bs : List α} (ha : ∀ x ∈ as, members x)
    (hb : ∀ x ∈ bs, members x) : compareItems? order? bs as = (compareItems? order? as bs).map .swap := by
  induction as generalizing bs with
  | nil => cases bs <;> rfl
  | cons x as ih =>
    cases bs with
    | nil => rfl
    | cons y bs =>
      rw [List.forall_mem_cons] at ha hb
      have hswap := h.swap x y ha.1 hb.1
      by_cases hxy : order? x y = some .eq
      · rw [hxy] at hswap
        rw [compareItems?_cons_of_eq hxy, compareItems?_cons_of_eq hswap, ih ha.2 hb.2]
      · have hyx : order? y x ≠ some .eq := fun hyx => hxy (by rw [h.swap y x hb.1 ha.1, hyx]; rfl)
        rw [compareItems?_cons_of_ne hxy, compareItems?_cons_of_ne hyx, hswap]

theorem items_trans (h : Coherent members same order?) {as bs cs : List α} (ha : ∀ x ∈ as, members x)
    (hb : ∀ x ∈ bs, members x) (hc : ∀ x ∈ cs, members x) (hab : compareItems? order? as bs = some .lt)
    (hbc : compareItems? order? bs cs = some .lt) : compareItems? order? as cs = some .lt := by
  induction as generalizing bs cs with
  | nil =>
    cases cs with
    | nil => cases bs <;> cases hbc
    | cons z cs => rfl
  | cons x as ih =>
    cases bs with
    | nil => cases hab
    | cons y bs =>
      cases cs with
      | nil => cases hbc
      | cons z cs =>
        rw [List.forall_mem_cons] at ha hb hc
        rw [compareItems?_cons_eq_lt] at hab hbc ⊢
        -- whichever of the two comparisons is decided by its first pair decides the third one as well
        rcases hab with hxy | ⟨hxy, has⟩
        · rcases hbc with hyz | ⟨hyz, _⟩
          · exact .inl (h.trans x y z ha.1 hb.1 hc.1 hxy hyz)
          · rw [← h.congr_right ha.1 hb.1 hc.1 ((h.equal y z hb.1 hc.1).2 hyz)]
            exact .inl hxy
        · rw [h.congr x y z ha.1 hb.1 hc.1 ((h.equal x y ha.1 hb.1).2 hxy)]
          rcases hbc with hyz | ⟨hyz, hbs⟩
          · exact .inl hyz
          · exact .inr ⟨hyz, ih ha.2 hb.2 hc.2 has hbs⟩

theorem items_congr (h : Coherent members same order?) {as bs cs : List α} (ha : ∀ x ∈ as, members x)
    (hb : ∀ x ∈ bs, members x) (hc : ∀ x ∈ cs, members x) (hab : sameItems same as bs = true) :
    compareItems? order? as cs = compareItems? order? bs cs := by
  induction as generalizing bs cs with
  | nil =>
    cases bs with
    | nil => rfl
    | cons y bs => cases hab
  | cons x as ih =>
    cases bs with
    | nil => cases hab
    | cons y bs =>
      cases cs with
      | nil => rfl
      | cons z cs =>
        rw [List.forall_mem_cons] at ha hb hc
        obtain ⟨hxy, hrest⟩ := Bool.and_eq_true_iff.1 hab
        have hfirst := h.congr x y z ha.1 hb.1 hc.1 hxy
        by_cases hyz : order? y z = some .eq
        · rw [compareItems?_cons_of_eq hyz, compareItems?_cons_of_eq (hfirst.trans hyz), ih ha.2 hb.2 hc.2 hrest]
        · have hxz : order? x z ≠ some .eq := fun hxz => hyz (hfirst.symm.trans hxz)
          rw [compareItems?_cons_of_ne hyz, compareItems?_cons_of_ne hxz, hfirst]

theorem deques (h : Coherent members same order?) :
    Coherent (Over members) (Deque.same same) (Deque.compare? order?) where
  equal _ _ hd he := h.items_equal hd he
  swap _ _ hd he := h.items_swap hd he
  trans _ _ _ hd he hf := h.items_trans hd he hf
  congr _ _ _ hd he hf := h.items_congr hd he hf

end Coherent

namespace Comparison

/-- What is said of the operands in the opposite order. -/
def reversed (c : Comparison) : Comparison where
  equal := c.equal
  different := c.different
  less := c.greater
  atMost := c.atLeast
  greater := c.less
  atLeast := c.atMost
  order := c.order.map .swap

/-- The operators say what the partial order says. -/
structure Follows (c : Comparison) : Prop where
  equal : c.equal = true ↔ c.order = some .eq
  different : c.different = !c.equal
  less : c.less = true ↔ c.order = some .lt
  greater : c.greater = true ↔ c.order = some .gt
  atMost : c.atMost = true ↔ c.less = true ∨ c.equal = true
  atLeast : c.atLeast = true ↔ c.greater = true ∨ c.equal = true

/-- Less, equal or greater, and only one of these. -/
def Decided (c : Comparison) : Prop :=
  (c.less = true ∧ c.equal = false ∧ c.greater = false) ∨
    (c.less = false ∧ c.equal = true ∧ c.greater = false) ∨ c.less = false ∧ c.equal = false ∧ c.greater = true

variable {same : Bool} {order : Option Ordering}

theorem follows_ofOrder (h : same = true ↔ order = some .eq) : (ofOrder same (!same) order).Follows where
  equal := h
  different := rfl
  less := beq_iff_eq
  greater := beq_iff_eq
  atMost := by
    rw [ofOrder, Bool.or_eq_true, beq_iff_eq, beq_iff_eq, h]
  atLeast := by
    rw [ofOrder, Bool.or_eq_true, beq_iff_eq, beq_iff_eq, h]

theorem reversed_ofOrder (same different : Bool) (order : Option Ordering) :
    (ofOrder same different order).reversed = ofOrder same different (order.map .swap) := by
  cases order with
  | none => rfl
  | some decided => cases decided <;> rfl

theorem decided_ofOrder {decided : Ordering} (h : same = true ↔ some decided = some .eq) :
    (ofOrder same (!same) (some decided)).Decided := by
  cases decided <;> cases same <;> simp [Decided, ofOrder] at h ⊢

end Comparison

namespace Deque

variable {α : Type} {members : α → Prop} {same : α → α → Bool} {order? : α → α → Option Ordering} {d e : Deque α}

/-- The answers of all operators. -/
def compared (same : α → α → Bool) (order? : α → α → Option Ordering) (d e : Deque α) : Comparison :=
  .ofOrder (d.same same e) (!d.same same e) (d.compare? order? e)

/-- The order of deques is coherent with their equality, all operators follow it, and it is the lexicographic one. -/
structure ComparesCoherently (members : α → Prop) (same : α → α → Bool) (order? : α → α → Option Ordering) : Prop where
  coherent : Coherent (Over members) (Deque.same same) (Deque.compare? order?)
  follows : ∀ d e : Deque α, d.Over members → e.Over members → (d.compared same order? e).Follows
  reversed : ∀ d e : Deque α, d.Over members → e.Over members →
    e.compared same order? d = (d.compared same order? e).reversed
  less : ∀ d e f : Deque α, d.Over members → e.Over members → f.Over members →
    (d.compared same order? e).less = true → (e.compared same order? f).less = true →
      (d.compared same order? f).less = true
  atMost : ∀ d e f : Deque α, d.Over members → e.Over members → f.Over members →
    (d.compared same order? e).atMost = true → (e.compared same order? f).atMost = true →
      (d.compared same order? f).atMost = true
  /-- The first pair that is not equal decides, also where it has no order. -/
  decides : ∀ (d e : Deque α) front front' x y as bs, d.Over members → e.Over members → d.items = front ++ x :: as →
    e.items = front' ++ y :: bs → sameItems same front front' = true → same x y = false →
    d.compare? order? e = order? x y
  /-- What runs out behind pairs of equal elements is less. -/
  shorter : ∀ (d e : Deque α) front y rest, d.Over members → e.Over members → e.items = front ++ y :: rest →
    sameItems same d.items front = true → d.compare? order? e = some .lt
  /-- So it is in front of the very same elements, unless one of them does not even equal itself. -/
  extension : ∀ d e : Deque α, d.Over members → d.items <+: e.items → d.length < e.length →
    (d.compare? order? e = some .lt ↔ ∀ x ∈ d.items, same x x = true)
  bounds : ∀ (d e : Deque α) bound bound',
    Deque.compared same order? ⟨d.items, bound⟩ ⟨e.items, bound'⟩ = d.compared same order? e

theorem less_iff : (d.compared same order? e).less = true ↔ d.compare? order? e = some .lt := beq_iff_eq

theorem atMost_iff (h : Coherent members same order?) (hd : d.Over members) (he : e.Over members) :
    (d.compared same order? e).atMost = true ↔ d.compare? order? e = some .lt ∨ d.same same e = true := by
  have hf := Comparison.follows_ofOrder (h.deques.equal d e hd he)
  exact hf.atMost.trans (or_congr hf.less Iff.rfl)

theorem compare?_of_first (h : Coherent members same order?) {front front' as bs : List α} {x y : α}
    (hd : d.Over members) (he : e.Over members) (hdi : d.items = front ++ x :: as) (hei : e.items = front' ++ y :: bs)
    (hfront : sameItems same front front' = true) (hxy : same x y = false) : d.compare? order? e = order? x y := by
  have hmembers (z : α) (hz : z ∈ front) : members z := hd z (by rw [hdi]; exact List.mem_append_left _ hz)
  have hmembers' (z : α) (hz : z ∈ front') : members z := he z (by rw [hei]; exact List.mem_append_left _ hz)
  have hx : members x := hd x (by simp [hdi])
  have hy : members y := he y (by simp [hei])
  have hne : order? x y ≠ some .eq := fun heq => by
    rw [(h.equal x y hx hy).2 heq] at hxy
    cases hxy
  unfold compare?
  rw [hdi, hei, compareItems?_append ((h.items_equal hmembers hmembers').1 hfront), compareItems?_cons_of_ne hne]

/-- An element that does not equal itself is not less than itself either, as this order would be its own reverse. -/
theorem compareItems?_extension (h : Coherent members same order?) {as : List α} (ha : ∀ x ∈ as, members x) (y : α)
    (rest : List α) :
    compareItems? order? as (as ++ y :: rest) = some .lt ↔ ∀ x ∈ as, same x x = true := by
  induction as with
  | nil => simp [compareItems?]
  | cons x as ih =>
    rw [List.forall_mem_cons] at ha ⊢
    have hself : order? x x ≠ some .lt := fun hlt => by
      have hback := h.swap x x ha.1 ha.1
      rw [hlt] at hback
      cases hback
    rw [List.cons_append, compareItems?_cons_eq_lt, ih ha.2, h.equal x x ha.1 ha.1]
    exact or_iff_right hself

theorem compare?_extension (h : Coherent members same order?) (hd : d.Over members) (hstart : d.items <+: e.items)
    (hlength : d.length < e.length) : d.compare? order? e = some .lt ↔ ∀ x ∈ d.items, same x x = true := by
  obtain ⟨rest, hrest⟩ := hstart
  unfold compare?
  rw [← hrest]
  cases rest with
  | nil =>
    rw [List.append_nil] at hrest
    exact absurd (congrArg List.length hrest) (Nat.ne_of_lt hlength)
  | cons y rest => exact compareItems?_extension h hd y rest

theorem comparesCoherently (h : Coherent members same order?) : ComparesCoherently members same order? where
  coherent := h.deques
  follows d e hd he := Comparison.follows_ofOrder (h.deques.equal d e hd he)
  reversed d e hd he := by
    have hsame : e.same same d = d.same same e :=
      Bool.eq_iff_iff.2 ⟨h.deques.symm he hd, h.deques.symm hd he⟩
    rw [compared, compared, Comparison.reversed_ofOrder, hsame, h.deques.swap d e hd he]
  less d e f hd he hf hde hef := by
    rw [less_iff] at hde hef ⊢
    exact h.deques.trans d e f hd he hf hde hef
  atMost d e f hd he hf hde hef := by
    rw [atMost_iff h hd he] at hde
    rw [atMost_iff h he hf] at hef
    rw [atMost_iff h hd hf]
    rcases hde with hde | hde
    · rcases hef with hef | hef
      · exact .inl (h.deques.trans d e f hd he hf hde hef)
      · exact .inl (h.deques.congr_right hd he hf hef ▸ hde)
    · rcases hef with hef | hef
      · exact .inl ((h.deques.congr d e f hd he hf hde).trans hef)
      · exact .inr (h.deques.same_trans hd he hf hde hef)
  decides _ _ _ _ _ _ _ _ := compare?_of_first h
  shorter d e front y rest hd he hei hfront := by
    have hmembers (z : α) (hz : z ∈ front) : members z := he z (by rw [hei]; exact List.mem_append_left _ hz)
    have hequal := (h.items_equal hd hmembers).1 hfront
    unfold compare?
    rw [hei, ← List.append_nil d.items, compareItems?_append hequal]
    rfl
  extension _ _ := compare?_extension h
  bounds _ _ _ _ := rfl

/-! Elements with a total order -/

theorem compareItems?_eq_compareLex {cmp : α → α → Ordering} {as bs : List α}
    (h : ∀ x ∈ as, ∀ y ∈ bs, order? x y = some (cmp x y)) :
    compareItems? order? as bs = some (List.compareLex cmp as bs) := by
  induction as generalizing bs with
  | nil => cases bs <;> rfl
  | cons x as ih =>
    cases bs with
    | nil => rfl
    | cons y bs =>
      have hrest := ih fun a ha b hb => h a (List.mem_cons_of_mem _ ha) b (List.mem_cons_of_mem _ hb)
      have hfirst := h x List.mem_cons_self y List.mem_cons_self
      rw [List.compareLex_cons_cons]
      cases hxy : cmp x y <;> rw [hxy] at hfirst
      · exact compareItems?_cons_of_ne (by rw [hfirst]; nofun) as bs |>.trans hfirst
      · exact (compareItems?_cons_of_eq hfirst as bs).trans hrest
      · exact compareItems?_cons_of_ne (by rw [hfirst]; nofun) as bs |>.trans hfirst

/-- The total order is that of the elements, lexicographically. -/
def rank (cmp : α → α → Ordering) (d e : Deque α) : Ordering := List.compareLex cmp d.items e.items

/-- What a deque feeds a hasher: its length, then its elements in order. -/
def fed {σ : Type} (length : Nat → σ → σ) (element : α → σ → σ) (d : Deque α) (state : σ) : σ :=
  d.items.foldl (fun state x => element x state) (length d.items.length state)

theorem length_eq_of_sameItems {as bs : List α} (h : sameItems same as bs = true) : as.length = bs.length := by
  induction as generalizing bs with
  | nil =>
    cases bs with
    | nil => rfl
    | cons y bs => cases h
  | cons x as ih =>
    cases bs with
    | nil => cases h
    | cons y bs => exact congrArg Nat.succ (ih (Bool.and_eq_true_iff.1 h).2)

theorem foldl_eq_of_sameItems {σ : Type} {element : α → σ → σ}
    (helement : ∀ x y, members x → members y → same x y = true → element x = element y) {as bs : List α}
    (ha : ∀ x ∈ as, members x) (hb : ∀ x ∈ bs, members x) (h : sameItems same as bs = true) (state : σ) :
    as.foldl (fun state x => element x state) state = bs.foldl (fun state x => element x state) state := by
  induction as generalizing bs state with
  | nil =>
    cases bs with
    | nil => rfl
    | cons y bs => cases h
  | cons x as ih =>
    cases bs with
    | nil => cases h
    | cons y bs =>
      rw [List.forall_mem_cons] at ha hb
      obtain ⟨hxy, hrest⟩ := Bool.and_eq_true_iff.1 h
      rw [List.foldl_cons, List.foldl_cons, helement x y ha.1 hb.1 hxy]
      exact ih ha.2 hb.2 hrest _

theorem fed_eq {σ : Type} {length : Nat → σ → σ} {element : α → σ → σ}
    (helement : ∀ x y, members x → members y → same x y = true → element x = element y) (hd : d.Over members)
    (he : e.Over members) (h : d.same same e = true) : d.fed length element = e.fed length element := by
  funext state
  unfold fed
  rw [length_eq_of_sameItems h]
  exact foldl_eq_of_sameItems helement hd he h _

/-- Of deques over totally ordered members one is less, or they are equal, and what runs out first is less. The total
order is the partial one, and equal deques feed every hasher the same if equal members do. -/
structure RanksTotally (members : α → Prop) (same : α → α → Bool) (order? : α → α → Option Ordering)
    (cmp : α → α → Ordering) : Prop where
  decided : ∀ d e : Deque α, d.Over members → e.Over members → (d.compared same order? e).Decided
  extension : ∀ d e : Deque α, d.Over members → d.items <+: e.items → d.length < e.length →
    d.compare? order? e = some .lt
  rank : ∀ d e : Deque α, d.Over members → e.Over members → d.compare? order? e = some (d.rank cmp e)
  hash : ∀ {σ : Type} (length : Nat → σ → σ) (element : α → σ → σ),
    (∀ x y, members x → members y → same x y = true → element x = element y) →
    ∀ d e : Deque α, d.Over members → e.Over members → d.same same e = true →
      d.fed length element = e.fed length element

theorem ranksTotally (h : Coherent members same order?) {cmp : α → α → Ordering}
    (hcmp : ∀ x y, members x → members y → order? x y = some (cmp x y)) : RanksTotally members same order? cmp := by
  have hrank (d e : Deque α) (hd : d.Over members) (he : e.Over members) :
      d.compare? order? e = some (d.rank cmp e) :=
    compareItems?_eq_compareLex fun x hx y hy => hcmp x y (hd x hx) (he y hy)
  refine ⟨fun d e hd he => ?_, fun d e hd hstart hlength => ?_, hrank, fun _ _ helement _ _ => fed_eq helement⟩
  · have hequal := h.deques.equal d e hd he
    unfold compared
    rw [hrank d e hd he] at hequal ⊢
    exact Comparison.decided_ofOrder hequal
  · refine (compare?_extension h hd hstart hlength).2 fun x hx => ?_
    have hself := hcmp x x (hd x hx) (hd x hx)
    have hswap := h.swap x x (hd x hx) (hd x hx)
    rw [h.equal x x (hd x hx) (hd x hx)]
    rw [hself] at hswap ⊢
    cases hc : cmp x x with
    | eq => rfl
    | _ =>
      rw [hc] at hswap
      cases hswap

end Deque

end EvictingDeque
