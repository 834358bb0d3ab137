import EvictingDeque.Proofs.Ownership.Living
import EvictingDeque.Session.Shared

set_option autoImplicit false

/-!
# Actions that only look

Where no element acts, a comparison leaves the session exactly as it was. What it answers depends on what it can read:
in a second session that shows the same of every deque that may be read in the first, it answers the same, unless it
meets a deque in the first that is held for change. What such a deque holds plays no part then. For other actions it may
be other holds that are in their way.

Everything is said relative to one session, whose living deques and hooks the others share. They may keep other deques
alive, hold other deques, and have made more of them.
-/
namespace EvictingDeque

open Action

namespace Hold

def IsExclusive (hold : Hold) : Prop := hold = .exclusive

/-- For reading or for change. -/
def IsTaken (hold : Hold) : Prop := hold ≠ .free

theorem isExclusive_exclusive : IsExclusive .exclusive := rfl

theorem isTaken_exclusive : IsTaken .exclusive := nofun

theorem isTaken_of_isExclusive {hold : Hold} (h : hold.IsExclusive) : hold.IsTaken := by
  cases h
  exact isTaken_exclusive

theorem eq_exclusive {hold : Hold} (h : hold.allowsReading = false) : hold = .exclusive := by
  cases hold with
  | readers count => cases h
  | exclusive => rfl

end Hold

/-- The deque was made and is alive. -/
structure Session.Lives (s : Session) (id : Nat) : Prop where
  made : id < s.nextCell
  living : s.isLiving id = true

/-- What is referred to is there: it was made, it is alive if it is owned, and it does nothing when it is compared. -/
def Link.AtHome (s : Session) : Link Handle → Prop
  | .weak target => target.cell < s.nextCell
  | .own target => s.Lives target.cell
  | .hook id => (s.hook id).whenCompared = []

def Value.AtHome (s : Session) (element : Element) : Prop := ∀ link ∈ element.references, link.AtHome s

/-- Whoever finds the first cell where the deque may be read finds the same in the second. -/
structure Cell.Shows (a b : Cell Element) : Prop where
  deque : b.deque = a.deque
  mutations : b.mutations = a.mutations
  formatting : b.formatting = a.formatting
  reading : b.hold.allowsReading = true
  free : a.hold = .free → b.hold = .free

namespace Session

/-- The deques of the first session are in the second one as well, and the same of them are alive. None of them holds an
element that acts. -/
structure Near (s u : Session) : Prop where
  hooks : u.hooks = s.hooks
  living : ∀ id, id < s.nextCell → u.isLiving id = s.isLiving id
  made : ∀ id, id < s.nextCell → u.Made id
  known : ∀ id, id < s.nextCell → ∀ element ∈ (u.cell id).deque.items, element.Known s.nextCell
  silent : ∀ id, id < s.nextCell → ∀ element ∈ (u.cell id).deque.items, ∀ hook,
    .hook hook ∈ element.references → (s.hook hook).whenCompared = []

/-- Two such sessions, and the second shows what may be read in the first. -/
structure Sees (s u w : Session) : Prop where
  near : s.Near u
  also : s.Near w
  cells : ∀ id, id < s.nextCell → (u.cell id).hold.allowsReading = true → (u.cell id).Shows (w.cell id)

/-- No element of a shared deque acts when it is compared. -/
def Silent (s : Session) : Prop :=
  ∀ id, id < s.nextCell → ∀ element ∈ (s.cell id).deque.items, ∀ hook, .hook hook ∈ element.references →
    (s.hook hook).whenCompared = []

variable {s u w : Session} {id : Nat}

/-- What has a handle is alive. -/
theorem Proper.lives {name : String} (hs : s.Proper) (h : s.shared.get? name = some id) : s.Lives id :=
  ⟨hs.shared name id h, isLiving_of_shared h⟩

theorem Proper.near (hs : s.Proper) (hmade : ∀ id, id < s.nextCell → s.Made id) (hsilent : s.Silent) : s.Near s where
  hooks := rfl
  living _ _ := rfl
  made := hmade
  known id _ := (hs.deques id).known
  silent := hsilent

theorem Near.hook (h : s.Near u) (id : String) : u.hook id = s.hook id := by
  unfold Session.hook
  rw [h.hooks]

/-- The elements of a living deque are at home. -/
theorem Near.contents (h : s.Near u) (hid : s.Lives id) : ∀ element ∈ (u.cell id).deque.items, element.AtHome s := by
  intro element he link hlink
  have hknown := h.known id hid.made element he
  cases link with
  | weak target => exact hknown _ hlink
  | hook hook => exact h.silent id hid.made element he hook hlink
  | own target =>
    have htarget : target.cell < s.nextCell := hknown _ hlink
    have howned : target.cell ∈ element.owners := List.mem_filterMap.2 ⟨_, hlink, rfl⟩
    have howner : target.cell ∈ (u.cell id).owners := Deque.mem_owners.2 ⟨element, he, howned⟩
    refine ⟨htarget, (h.living _ htarget).symm.trans ?_⟩
    exact isLiving_of_owner (h.made id hid.made) ((h.living id hid.made).trans hid.living) howner (h.made _ htarget)

/-- To keep living deques alive makes no difference. -/
theorem Near.pinned (h : s.Near u) {ids : List Nat} (hids : ∀ other ∈ ids, s.Lives other) :
    s.Near { u with pinned := ids ++ u.pinned } where
  hooks := h.hooks
  living other ho := by
    rw [← h.living other ho]
    have hholdings : ({ u with pinned := ids ++ u.pinned } : Session).holdings = u.holdings := rfl
    refine isLiving_of_roots ids hholdings (fun _ => mem_roots_pinned u ids) (fun owned hi => ?_) other
    exact (h.living owned (hids owned hi).made).trans (hids owned hi).living
  made := h.made
  known := h.known
  silent := h.silent

theorem Sees.pinned (h : s.Sees u w) {ids : List Nat} (hids : ∀ other ∈ ids, s.Lives other) :
    s.Sees { u with pinned := ids ++ u.pinned } { w with pinned := ids ++ w.pinned } :=
  ⟨h.near.pinned hids, h.also.pinned hids, h.cells⟩

end Session

namespace Value

variable {s : Session} {element : Element}

theorem AtHome.of_nested {d : Deque Element} (h : AtHome s (.nested d)) : ∀ inner ∈ d.items, inner.AtHome s :=
  fun inner hi link hlink => h link (by
    obtain ⟨items, bound⟩ := d
    exact mem_referencesOfList.2 ⟨inner, hi, hlink⟩)

theorem AtHome.of_link {link : Link Handle} (h : AtHome s (.link link)) : link.AtHome s :=
  h link (List.mem_singleton.2 rfl)

/-- The owned deques are alive. -/
theorem AtHome.owners (h : element.AtHome s) : ∀ id ∈ element.owners, s.Lives id := by
  intro id ho
  obtain ⟨target, hlink, rfl⟩ := mem_owners_iff_own.1 ho
  exact h (.own target) hlink

end Value

/-- So are those that a deque owns. -/
theorem Deque.lives_of_owners {s : Session} {d : Deque Element} (h : ∀ element ∈ d.items, element.AtHome s) :
    ∀ id ∈ d.owners, s.Lives id := by
  intro id ho
  obtain ⟨element, he, howned⟩ := Deque.mem_owners.1 ho
  exact (h element he).owners id howned

namespace Action

variable {α β : Type} {conflicts : Hold → Prop} {s : Session}

/-- The deques that a comparison of two handles keeps alive are alive already. -/
theorem pins_living {a b : Nat} (ha : s.Lives a) (hb : s.Lives b) {left right : Deque Element}
    (hleft : ∀ element ∈ left.items, element.AtHome s) (hright : ∀ element ∈ right.items, element.AtHome s) :
    ∀ id ∈ a :: b :: left.owners ++ right.owners, s.Lives id := by
  intro id hid
  rcases List.mem_append.1 hid with hid | hid
  · rcases List.mem_cons.1 hid with rfl | hid
    · exact ha
    · rcases List.mem_cons.1 hid with rfl | hid
      · exact hb
      · exact Deque.lives_of_owners hleft id hid
  · exact Deque.lives_of_owners hright id hid

/-- The action leaves the session as it was, and depends only on what may be read. It ends in a borrow conflict only if
some deque is held in a way that conflicts with it. -/
structure Looks (conflicts : Hold → Prop) (s : Session) (a : Action α) : Prop where
  unchanged : ∀ u, s.Near u → (a u).2 = u
  agrees : ∀ u w, s.Sees u w →
    ((a u).1 = .error (.panic .borrowed) ∧ ∃ id, id < s.nextCell ∧ conflicts (u.cell id).hold) ∨
      ((a w).1 = (a u).1 ∧ (a u).1 ≠ .error (.panic .borrowed))

/-- Only holds for change are in its way. -/
abbrev Reads (s : Session) (a : Action α) : Prop := a.Looks Hold.IsExclusive s

namespace Looks

variable {a : Action α}

theorem run (h : a.Looks conflicts s) {u : Session} (hu : s.Near u) : a u = ((a u).1, u) :=
  Prod.ext rfl (h.unchanged u hu)

theorem pure (value : α) : (Pure.pure value : Action α).Looks conflicts s :=
  ⟨fun _ _ => rfl, fun _ _ _ => .inr ⟨rfl, nofun⟩⟩

theorem interrupt {cause : Interrupt} (hcause : cause ≠ .panic .borrowed) :
    (Action.interrupt cause : Action α).Looks conflicts s :=
  ⟨fun _ _ => rfl, fun _ _ _ => .inr ⟨rfl, fun h => hcause (Except.error.inj h)⟩⟩

theorem read {f : Session → α} (hf : ∀ u w, s.Sees u w → f w = f u) : (Action.read f).Looks conflicts s :=
  ⟨fun _ _ => rfl, fun u w h => .inr ⟨congrArg Except.ok (hf u w h), nofun⟩⟩

theorem bind {f : α → Action β} (ha : a.Looks conflicts s) (hf : ∀ value, (f value).Looks conflicts s) :
    (a >>= f).Looks conflicts s where
  unchanged u hu := by
    have hrun := ha.run hu
    rcases hfirst : (a u).1 with cause | value <;> rw [hfirst] at hrun
    · rw [bind_error hrun]
    · rw [bind_ok hrun]
      exact (hf value).unchanged u hu
  agrees u w h := by
    have hu := ha.run h.near
    have hw := ha.run h.also
    rcases ha.agrees u w h with ⟨hborrowed, hheld⟩ | ⟨hsame, hfree⟩
    · rw [hborrowed] at hu
      rw [bind_error hu]
      exact .inl ⟨rfl, hheld⟩
    · rw [hsame] at hw
      rcases hfirst : (a u).1 with cause | value <;> rw [hfirst] at hu hw hfree
      · rw [bind_error hu, bind_error hw]
        exact .inr ⟨rfl, fun hc => hfree (congrArg Except.error (Except.error.inj hc))⟩
      · rw [bind_ok hu, bind_ok hw]
        exact (hf value).agrees u w h

theorem pinning (h : a.Looks conflicts s) {ids : List Nat} (hids : ∀ id ∈ ids, s.Lives id) :
    (pinning ids a).Looks conflicts s where
  unchanged u hu := by
    have hrun := h.run (hu.pinned hids)
    unfold Action.pinning
    rw [hrun]
  agrees u w hs := h.agrees _ _ (hs.pinned hids)

/-- The deque is read, and what follows depends on its elements and on how often it was mutated. -/
theorem readCell (hc : conflicts .exclusive) {id : Nat} (hid : s.Lives id) {f : Cell Element → Action β}
    (hsame : ∀ a b : Cell Element, b.deque = a.deque → b.mutations = a.mutations → f b = f a)
    (hf : ∀ cell : Cell Element, (∀ element ∈ cell.deque.items, element.AtHome s) → (f cell).Looks conflicts s) :
    (Action.readCell id >>= f).Looks conflicts s where
  unchanged u hu := by
    cases hr : (u.cell id).hold.allowsReading with
    | true =>
      rw [bind_ok (readCell_of_reading hr)]
      exact (hf _ (hu.contents hid)).unchanged u hu
    | false =>
      rw [bind_error (readCell_of_held hr)]
  agrees u w h := by
    cases hr : (u.cell id).hold.allowsReading with
    | true =>
      have hshows := h.cells id hid.made hr
      rw [bind_ok (readCell_of_reading hr), bind_ok (readCell_of_reading hshows.reading),
        hsame _ _ hshows.deque hshows.mutations]
      exact (hf _ (h.near.contents hid)).agrees u w h
    | false =>
      rw [bind_error (readCell_of_held hr)]
      exact .inl ⟨rfl, id, hid.made, (Hold.eq_exclusive hr).symm ▸ hc⟩

theorem equalPairs {equal : Element → Element → Action Bool} {as bs : List Element}
    (h : ∀ a ∈ as, ∀ b ∈ bs, (equal a b).Looks conflicts s) : (equalPairs equal as bs).Looks conflicts s := by
  induction as generalizing bs with
  | nil => exact pure true
  | cons a as ih =>
    cases bs with
    | nil => exact pure true
    | cons b bs =>
      refine (h a List.mem_cons_self b List.mem_cons_self).bind fun same => ?_
      cases same with
      | false => exact pure false
      | true => exact ih fun x hx y hy => h x (List.mem_cons_of_mem _ hx) y (List.mem_cons_of_mem _ hy)

theorem equalItems {equal : Element → Element → Action Bool} {as bs : List Element}
    (h : ∀ a ∈ as, ∀ b ∈ bs, (equal a b).Looks conflicts s) : (equalItems equal as bs).Looks conflicts s := by
  unfold Action.equalItems
  split
  · exact equalPairs h
  · exact pure false

theorem equalCells (hc : conflicts .exclusive) {equal : Element → Element → Action Bool}
    (h : ∀ x y : Element, x.AtHome s → y.AtHome s → (equal x y).Looks conflicts s) {a b : Nat} (ha : s.Lives a)
    (hb : s.Lives b) : (equalCells equal a b).Looks conflicts s := by
  unfold Action.equalCells
  split
  · exact pure true
  · refine readCell hc ha (fun _ _ hd _ => by rw [hd]) fun left hleft => ?_
    refine readCell hc hb (fun _ _ hd _ => by rw [hd]) fun right hright => ?_
    exact (equalItems fun x hx y hy => h x y (hleft x hx) (hright y hy)).pinning (pins_living ha hb hleft hright)

end Looks

end Action

namespace Meaning

variable {conflicts : Hold → Prop} {s : Session}

/-- A comparison where no element acts. -/
theorem looks_equal (hc : conflicts .exclusive) (depth : Nat) (x y : Element) (hx : x.AtHome s) (hy : y.AtHome s) :
    ((upTo depth).equal x y).Looks conflicts s := by
  induction depth generalizing x y with
  | zero => exact .interrupt nofun
  | succ depth ih =>
    change ((upTo depth).equalElements x y).Looks conflicts s
    unfold equalElements
    split
    · rename_i id
      have hact {u : Session} (hu : s.Near u) : Hook.act (upTo depth) id (·.whenCompared) u = (.ok (), u) := by
        refine Hook.act_of_empty _ ?_
        rw [hu.hook]
        exact hx.of_link
      refine Looks.bind ⟨fun u hu => by rw [hact hu], fun u w h => ?_⟩ fun _ => .read fun u w h => ?_
      · rw [hact h.near, hact h.also]
        exact .inr ⟨rfl, nofun⟩
      · rw [h.near.hook, h.also.hook]
    · exact .equalItems fun a ha b hb => ih a b (hx.of_nested a ha) (hy.of_nested b hb)
    · exact .equalCells hc ih hx.of_link hy.of_link
    · split
      · refine .read fun u w h => ?_
        rw [h.near.living _ hx.of_link, h.also.living _ hx.of_link]
      · exact .pure false
    · exact .pure _

theorem reads_equal (depth : Nat) (x y : Element) (hx : x.AtHome s) (hy : y.AtHome s) :
    ((upTo depth).equal x y).Reads s := looks_equal Hold.isExclusive_exclusive depth x y hx hy

theorem reads_equalCells (depth : Nat) {a b : Nat} (ha : s.Lives a) (hb : s.Lives b) :
    (equalCells (upTo depth).equal a b).Reads s :=
  .equalCells Hold.isExclusive_exclusive (reads_equal depth) ha hb

end Meaning

end EvictingDeque
