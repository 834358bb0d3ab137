import EvictingDeque.Proofs.Frame.Runs
import EvictingDeque.Proofs.Ownership.ShunningSteps
import EvictingDeque.Proofs.Writing.Paths

set_option autoImplicit false

/-!
# Lifetimes of shared deques

After every step of a run a weak reference leads to its deque exactly if a handle, a cursor or an owning element in a
register or in a living deque refers to it. What only dead deques own is dead as well, what is dead stays dead, and
references that do not own make no difference.
-/
namespace EvictingDeque

open Action

namespace Session

/-- A weak handle has been made a handle of the very deque, and nothing else has changed. -/
structure Upgraded (m : Meaning) (s : Session) (into weak : String) (id : Nat) : Prop where
  answer : (performAndReport m (.upgrade into weak) s).1.answer = .flag true
  after : (performAndReport m (.upgrade into weak) s).2 =
    { s with shared := s.shared.put into id, events := [], printed := "" }
  same : ∀ other found, (performAndReport m (.upgrade into weak) s).2.shared.get? other = some found →
    (performAndReport m (.shared into (.samePlace other)) (performAndReport m (.upgrade into weak) s).2).1.answer =
      .flag (decide (id = found))

structure NotUpgraded (m : Meaning) (s : Session) (into weak : String) : Prop where
  answer : (performAndReport m (.upgrade into weak) s).1.answer = .flag false
  after : (performAndReport m (.upgrade into weak) s).2 = { s with events := [], printed := "" }

/-- In the texts of registers and of shared deques a weak reference is shown as its deque while something refers to
that, at whatever depth it stands, and else as dropped. -/
structure Shown (s : Session) : Prop where
  standing : ∀ text target, target.cell < s.nextCell → s.Referred target.cell →
    s.textOf text (.link (.weak target)) = text target.cell
  dropped : ∀ text target, target.cell < s.nextCell → ¬ s.Referred target.cell →
    s.textOf text (.link (.weak target)) = "<dropped>"
  registers : ∀ name d, s.ownedDeque? name = some d →
    Settles (fun k => (Meaning.upTo k).perform (.owned name .written)) s
      (.text (Deque.written (s.textsOf (s.render []) d.items) d.bound)) s
  shared : ∀ name id, s.shared.get? name = some id →
    Settles (fun k => (Meaning.upTo k).perform (.shared name .written)) s (.text (s.render [] id)) s

/-- The same references that own, whatever others there are. -/
structure SameOwning (s u : Session) : Prop where
  nextCell : s.nextCell = u.nextCell
  rooted : ∀ id, s.Rooted id ↔ u.Rooted id
  owns : ∀ owner id, (s.cell owner).deque.Owns id ↔ (u.cell owner).deque.Owns id

/-- A weak handle is upgraded exactly while something refers to its deque. Of the deques that have been made the others
are dead, also those that only dead ones own; they stay so, and references that do not own save none of them. -/
structure Faithful (depth : Nat) (s : Session) : Prop where
  upgraded : ∀ id into weak, s.weak.get? weak = some id → s.Referred id →
    Upgraded (Meaning.upTo depth) s into weak id
  refused : ∀ id into weak, s.weak.get? weak = some id → ¬ s.Referred id →
    NotUpgraded (Meaning.upTo depth) s into weak
  shown : (∀ hook, (s.hook hook).whenWritten = []) → s.Shown
  dead : ∀ id, id < s.nextCell → (¬ s.Referred id ↔ s.Dead id)
  lasting : ∀ id, s.Dead id → ∀ later, (endOf (Meaning.upTo depth) later s).Dead id
  strong : ∀ hooks environment steps,
    s.SameOwning (endOf (Meaning.upTo depth) steps (start hooks environment)) → ∀ id, id < s.nextCell →
      (s.Referred id ↔ (endOf (Meaning.upTo depth) steps (start hooks environment)).Referred id)

variable {s u : Session} {id : Nat}

/-! Between the steps of a run nothing is in progress -/

theorem settled_start (hooks : List (String × Hook)) (environment : Option String) :
    (start hooks environment).Settled where
  cells := Table.distinct_empty
  owned := Table.distinct_empty
  shared := Table.distinct_empty
  cursors := Table.distinct_empty
  toReleased := released_start hooks environment
  bounded _ ho := absurd rfl ho
  pinned := rfl

theorem settled_endOf (hooks : List (String × Hook)) (environment : Option String) (depth : Nat) (steps : List Step) :
    (endOf (Meaning.upTo depth) steps (start hooks environment)).Settled :=
  have hrun := (settled_start hooks environment).shuns.endOf depth steps
  { hrun.1.tabled with
    toReleased := released_endOf hooks environment depth steps
    bounded := bounded_endOf hooks environment depth steps
    pinned := hrun.2 }

theorem Settled.not_referred_iff (hs : s.Settled) (hid : id < s.nextCell) : ¬ s.Referred id ↔ s.Dead id := by
  rw [← hs.isLiving_iff hid, ← hs.dead_iff hid, Bool.not_eq_true]

/-- A dead deque never comes back. -/
theorem Settled.dead_endOf (hs : s.Settled) {depth : Nat} {later : List Step} (hid : s.Dead id)
    (ht : (endOf (Meaning.upTo depth) later s).Settled) : (endOf (Meaning.upTo depth) later s).Dead id := by
  have hshuns := (hs.shuns.endOf depth later).1
  exact (ht.dead_iff (Nat.lt_of_lt_of_le hid.known hshuns.known)).1 (hshuns.isLiving hid)

theorem SameOwning.symm (h : s.SameOwning u) : u.SameOwning s :=
  ⟨h.nextCell.symm, fun id => (h.rooted id).symm, fun owner id => (h.owns owner id).symm⟩

theorem SameOwning.dead (h : s.SameOwning u) (hid : s.Dead id) : u.Dead id := by
  induction hid with
  | fades known unrooted _ ih =>
    exact .fades (h.nextCell ▸ known) (fun hr => unrooted ((h.rooted _).2 hr)) fun owner howns =>
      ih owner ((h.owns owner _).2 howns)

/-! Upgrading -/

variable (depth : Nat) (into : String) {weak : String}

theorem performAndReport_upgrade (hweak : s.weak.get? weak = some id) :
    (performAndReport (Meaning.upTo (depth + 1)) (.upgrade into weak) s).1.answer = .flag (s.isLiving id) ∧
      (performAndReport (Meaning.upTo (depth + 1)) (.upgrade into weak) s).2 =
        { s with
          shared := if s.isLiving id then s.shared.put into id else s.shared
          events := []
          printed := "" } := by
  have hrun : (Meaning.upTo (depth + 1)).perform (.upgrade into weak) { s with events := [], printed := "" } = _ :=
    (bind_ok (required_of_some hweak)).trans (bind_ok (read_apply _ _))
  have hsame : Session.isLiving { s with events := [], printed := "" } id = s.isLiving id := rfl
  simp only [performAndReport, hrun, hsame]
  cases s.isLiving id <;> exact ⟨rfl, rfl⟩

theorem performAndReport_samePlace {name other : String} {found : Nat} (hname : s.shared.get? name = some id)
    (hother : s.shared.get? other = some found) :
    (performAndReport (Meaning.upTo (depth + 1)) (.shared name (.samePlace other)) s).1.answer =
      .flag (decide (id = found)) := by
  have hrun : (Meaning.upTo (depth + 1)).perform (.shared name (.samePlace other))
      { s with events := [], printed := "" } = _ := Meaning.performStep_shared rfl hname
  have hsame : (SharedOp.samePlace other).run (Meaning.upTo depth) id { s with events := [], printed := "" } = _ :=
    bind_ok (required_of_some hother)
  simp only [performAndReport, hrun, hsame]
  rfl

theorem upgraded_of_living (hweak : s.weak.get? weak = some id) (hl : s.isLiving id = true) :
    Upgraded (Meaning.upTo (depth + 1)) s into weak id := by
  obtain ⟨hanswer, hafter⟩ := performAndReport_upgrade depth into hweak
  rw [hl] at hanswer hafter
  refine ⟨hanswer, hafter, fun other found hother => performAndReport_samePlace depth ?_ hother⟩
  rw [hafter]
  exact Table.get?_put_self ..

theorem notUpgraded_of_dead (hweak : s.weak.get? weak = some id) (hl : s.isLiving id = false) :
    NotUpgraded (Meaning.upTo (depth + 1)) s into weak := by
  obtain ⟨hanswer, hafter⟩ := performAndReport_upgrade depth into hweak
  rw [hl] at hanswer hafter
  exact ⟨hanswer, hafter⟩

/-! Writing -/

/-- The deque of a register is written as it is, and what it owns is alive anyway. -/
theorem Settled.written_register (hs : s.Settled) (hp : s.Proper) (hsilent : ∀ hook, (s.hook hook).whenWritten = [])
    {name : String} {d : Deque Element} (hd : s.ownedDeque? name = some d) :
    Settles (fun k => (Meaning.upTo k).perform (.owned name .written)) s
      (.text (Deque.written (s.textsOf (s.render []) d.items) d.bound)) s := by
  have hinert := hs.toReleased.inert hp hsilent
  have hknown := (hp.owned name d hd).known
  have hlives : ∀ owned ∈ d.owners, s.isLiving owned = true := fun owned ho =>
    (hs.isLiving_iff (Deque.known_of_owner hknown ho)).2 (.outside (.register hd (Deque.mem_owners_iff.1 ho)))
  have halong : s.Along [] { s with pinned := d.owners ++ s.pinned } :=
    { hinert.along with
      living := isLiving_of_roots d.owners rfl (fun _ => mem_roots_pinned s _) hlives }
  have hoffers := offers_of_known hknown hlives fun _ _ hook _ => hsilent hook
  obtain ⟨deep, hitems⟩ := (Meaning.cellsRender hinert _).writeAll halong (Nat.le_refl _) d.items hoffers
  refine Settles.succ (a := fun k => (Meaning.upTo k).performStep (.owned name .written)) ⟨deep, fun k hk => ?_⟩
    fun _ => rfl
  have hop : (OwnedOp.written : OwnedOp Literal).mapM resolve s = (.ok .written, s) := rfl
  have hwork : (OwnedOp.written : OwnedOp Element).run (Meaning.upTo k) d { s with pinned := d.owners ++ s.pinned } = _ :=
    bind_ok (bind_ok (hitems k hk))
  exact (Meaning.runOwned_of_resolved hop hd hwork).trans rfl

theorem Settled.shown (hs : s.Settled) (hp : s.Proper) (hsilent : ∀ hook, (s.hook hook).whenWritten = []) :
    s.Shown where
  standing text target hid hr := by
    unfold textOf
    rw [(hs.isLiving_iff hid).2 hr]
    rfl
  dropped text target hid hr := by
    unfold textOf
    rw [(hs.dead_iff hid).2 ((hs.not_referred_iff hid).1 hr)]
    rfl
  registers name d := hs.written_register hp hsilent
  shared name id hname := by
    have hinert := hs.toReleased.inert hp hsilent
    obtain ⟨deep, htext⟩ := Meaning.cellsRender hinert _ [] s hinert.along (Nat.le_refl _) id (hp.shared name id hname)
      (isLiving_of_shared hname)
    refine Settles.succ (a := fun k => (Meaning.upTo k).performStep (.shared name .written)) ⟨deep, fun k hk => ?_⟩
      fun _ => rfl
    exact (Meaning.performStep_shared (o := .written) rfl hname).trans (bind_ok (htext k hk))

end Session

/-- In every session that steps lead to, whatever they did and whatever acted in them. -/
theorem weak_references_faithful (hooks : List (String × Hook)) (environment : Option String) (depth : Nat)
    (steps : List Step) :
    Session.Faithful (depth + 1)
      (Session.endOf (Meaning.upTo (depth + 1)) steps (Session.start hooks environment)) := by
  have hsettled := Session.settled_endOf hooks environment (depth + 1) steps
  have hproper := (Session.proper_start hooks environment).endOf (depth + 1) steps
  refine ⟨?_, ?_, hsettled.shown hproper, fun id => hsettled.not_referred_iff, ?_, ?_⟩
  · intro id into weak hweak hr
    exact Session.upgraded_of_living depth into hweak ((hsettled.isLiving_iff (hproper.weak weak id hweak)).2 hr)
  · intro id into weak hweak hr
    have hid := hproper.weak weak id hweak
    have hdead := (hsettled.not_referred_iff hid).1 hr
    exact Session.notUpgraded_of_dead depth into hweak ((hsettled.dead_iff hid).2 hdead)
  · intro id hid later
    have hlater := Session.settled_endOf hooks environment (depth + 1) (steps ++ later)
    rw [Session.endOf_append] at hlater
    exact hsettled.dead_endOf hid hlater
  · intro hooks environment steps hsame id hid
    have hother := Session.settled_endOf hooks environment (depth + 1) steps
    rw [← not_iff_not, hsettled.not_referred_iff hid, hother.not_referred_iff (hsame.nextCell ▸ hid)]
    exact ⟨hsame.dead, hsame.symm.dead⟩

/-- A deque that another one owns, a weak handle of it, and a weak reference to it inside a nested deque. -/
def Step.nesting : List Step :=
  [.createShared "inner" (.items [.int 1] none), .createShared "outer" (.items [.link (.own "inner")] (some 2)),
    .createOwned "r" (.items [.nested ⟨[.link (.weak "inner")], none⟩] none), .shared "inner" (.downgrade "w"),
    .drop "inner"]

/-- A deque that comes to own itself, and is left without a handle. -/
def Step.encircling : List Step :=
  [.createShared "ring" (.empty none), .shared "ring" (.edit (.pushBack (.link (.own "ring")))),
    .shared "ring" (.downgrade "w"), .drop "ring"]

open Session in
/-- The inner deque outlives its handle in the outer one, and dies with that. A deque that owns itself lives on. -/
theorem weak_references_faithful_nested :
    let m := Meaning.upTo 2
    let s := endOf m Step.nesting (start [] none)
    let t := endOf m (Step.nesting ++ [.drop "outer"]) (start [] none)
    let u := endOf m Step.encircling (start [] none)
    Upgraded m s "again" "w" 0 ∧ NotUpgraded m t "again" "w" ∧ t.Dead 0 ∧ (endOf m [.upgrade "again" "w"] t).Dead 0 ∧
      Settles (fun k => (Meaning.upTo k).perform (.owned "r" .written)) t (.text "deque([deque([<dropped>])])") t ∧
      Upgraded m u "again" "w" 0 := by
  intro m s t u
  have hs : Faithful 2 s := weak_references_faithful [] none 1 Step.nesting
  -- no expected type here: the two runs would be compared by evaluating them
  have ht := weak_references_faithful [] none 1 (Step.nesting ++ [.drop "outer"])
  have hsettled := settled_endOf [] none 2 (Step.nesting ++ [.drop "outer"])
  have hname : s.shared.get? "outer" = some 1 := by decide
  have howns : (s.cell 1).deque.Owns 0 := ⟨.link (.own ⟨"inner", 0⟩), List.mem_singleton_self _, .link rfl⟩
  have houter : t.Dead 1 := hsettled.dead_of_holdings (by decide) (by decide) fun holding hm ho =>
    absurd ho ((by decide : ∀ holding ∈ t.holdings, 1 ∉ holding.2) holding hm)
  have hinner : t.Dead 0 := hsettled.dead_of_holdings (by decide) (by decide) fun holding hm ho =>
    (by decide : ∀ holding ∈ t.holdings, 0 ∈ holding.2 → holding.1 = 1) holding hm ho ▸ houter
  have hdropped : ¬ t.Referred 0 := (ht.dead 0 hinner.known).2 hinner
  have hshown : t.Shown := ht.shown fun _ => rfl
  have htext : t.textsOf (t.render []) [.nested ⟨[.link (.weak ⟨"inner", 0⟩)], none⟩] = ["deque([<dropped>])"] := by
    have hitem := hshown.dropped (t.render []) ⟨"inner", 0⟩ hinner.known hdropped
    simp only [textsOf, textOf] at hitem ⊢
    rw [hitem]
    rfl
  have hwritten := hshown.registers "r" ⟨[.nested ⟨[.link (.weak ⟨"inner", 0⟩)], none⟩], none⟩ rfl
  rw [htext] at hwritten
  have hu : Faithful 2 u := weak_references_faithful [] none 1 Step.encircling
  have hself : (u.cell 0).deque.Owns 0 := ⟨.link (.own ⟨"ring", 0⟩), List.mem_singleton_self _, .link rfl⟩
  have hring : u.Referred 0 := by
    by_contra hr
    exact ((hu.dead 0 (by decide)).1 hr).not_owns_self hself
  refine ⟨?_, ht.refused 0 _ _ rfl hdropped, hinner, ht.lasting 0 hinner _, hwritten, hu.upgraded 0 _ _ rfl hring⟩
  exact hs.upgraded 0 _ _ rfl (.inside (isLiving_of_shared hname) howns)

end EvictingDeque
