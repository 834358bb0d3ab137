import EvictingDeque.Proofs.Ownership.Living
import EvictingDeque.Proofs.Writing.Finishing

set_option autoImplicit false

/-!
# The written form of deques that refer to each other

Without marks: a deque is written along a path, the deques around it that are being written, and where it comes up on
its own path it is not written again. Marks come to the same, since on every path the marked deques are those of the
path.
-/
namespace EvictingDeque

open Action

namespace Session

mutual
/-- The text of an element, given the texts of the shared deques. -/
def textOf (s : Session) (text : Nat → String) : Element → String
  | .int value => toString value
  | .text value => Text.quoted value
  | .real value => value.render
  | .keyed key tag => toString key ++ "#" ++ tag
  | .nested ⟨items, bound⟩ => Deque.written (textsOf s text items) bound
  | .link (.own target) => text target.cell
  | .link (.weak target) => if s.isLiving target.cell then text target.cell else Link.droppedText
  | .link (.hook id) => (s.hook id).text
termination_by structural element => element

def textsOf (s : Session) (text : Nat → String) : List Element → List String
  | [] => []
  | element :: elements => textOf s text element :: textsOf s text elements
termination_by structural elements => elements
end

/-- How many deques are not on the path. -/
def offPath (s : Session) (path : List Nat) : Nat := (List.range s.nextCell).countP fun id => decide (id ∉ path)

theorem offPath_cons_lt {s : Session} {path : List Nat} {id : Nat} (hid : id < s.nextCell) (hp : id ∉ path) :
    s.offPath (id :: path) < s.offPath path := by
  refine countP_lt (fun other ho => ?_) (List.mem_range.2 hid) (by simp) (by simpa using hp)
  simp only [List.mem_cons, not_or, decide_eq_true_eq] at ho ⊢
  exact ho.2

/-- What a shared deque looks like where it comes up inside those of the path. -/
def render (s : Session) (path : List Nat) (id : Nat) : String :=
  if id ∈ path ∨ s.nextCell ≤ id then Deque.recursionMark
  else Deque.written (s.textsOf (fun other => s.render (id :: path) other) (s.cell id).deque.items)
    (s.cell id).deque.bound
termination_by s.offPath path
decreasing_by
  rename_i h
  exact offPath_cons_lt (Nat.lt_of_not_le fun hle => h (.inr hle)) fun hp => h (.inl hp)

theorem render_eq (s : Session) (path : List Nat) {id : Nat} (hid : id < s.nextCell) :
    s.render path id = if id ∈ path then Deque.recursionMark
      else Deque.written (s.textsOf (s.render (id :: path)) (s.cell id).deque.items) (s.cell id).deque.bound := by
  rw [render]
  have hmade : ¬ s.nextCell ≤ id := Nat.not_le.2 hid
  by_cases hp : id ∈ path <;> simp [hp, hmade]

/-- Nobody holds or writes a deque, no element does anything when it is written, and whatever elements refer to was
made. -/
structure Inert (s : Session) : Prop where
  made : ∀ id, id < s.nextCell → s.Made id
  idle : ∀ id, id < s.nextCell → (s.cell id).Idle
  known : ∀ id, id < s.nextCell → ∀ element ∈ (s.cell id).deque.items, element.Known s.nextCell
  silent : ∀ id, id < s.nextCell → ∀ element ∈ (s.cell id).deque.items, ∀ hook,
    .hook hook ∈ element.references → (s.hook hook).whenWritten = []

variable {s u : Session} {path : List Nat} {id : Nat}

theorem Released.inert (hr : s.Released) (hs : s.Proper) (silent : ∀ hook, (s.hook hook).whenWritten = []) :
    s.Inert where
  made := hr.made
  known id _ := (hs.deques id).known
  idle id _ := hr.idle id
  silent _ _ _ _ hook _ := silent hook

/-- In the second session the deques of the path are being written, and nothing else is different. -/
structure Along (s : Session) (path : List Nat) (u : Session) : Prop where
  nextCell : u.nextCell = s.nextCell
  cells : ∀ id, id < s.nextCell → u.cell id = { s.cell id with formatting := decide (id ∈ path) }
  made : ∀ id, id < s.nextCell → u.Made id
  hooks : u.hooks = s.hooks
  living : ∀ id, u.isLiving id = s.isLiving id

theorem Inert.along (hs : s.Inert) : s.Along [] s where
  nextCell := rfl
  cells id hid := by
    have hm : decide (id ∈ ([] : List Nat)) = (s.cell id).formatting := by simp [(hs.idle id hid).unmarked]
    rw [hm]
  made := hs.made
  hooks := rfl
  living _ := rfl

/-- What matters of a deque for what is alive is what it owns. -/
theorem holdings_putCell (h : s.Made id) {cell : Cell Element} (ho : cell.owners = (s.cell id).owners) :
    (s.putCell id cell).holdings = s.holdings := by
  obtain ⟨memo, hmemo⟩ := Option.isSome_iff_exists.1 h
  refine Table.map_putEntries (fun entry => (entry.1, entry.2.result)) hmemo ?_
  simp [Memo.result_eq, ho, Session.cell, hmemo]

theorem holdings_mark (h : s.Made id) : (mark id s).holdings = s.holdings := holdings_putCell h rfl

theorem Along.free (h : s.Along path u) (hs : s.Inert) (hid : id < s.nextCell) : (u.cell id).hold = .free := by
  rw [h.cells id hid]
  exact (hs.idle id hid).free

theorem Along.formatting (h : s.Along path u) (hid : id < s.nextCell) :
    (u.cell id).formatting = decide (id ∈ path) := by
  rw [h.cells id hid]

theorem Along.items (h : s.Along path u) (hid : id < s.nextCell) : (u.cell id).deque = (s.cell id).deque := by
  rw [h.cells id hid]

/-- What a living deque owns is alive. -/
theorem Inert.living_owner (hs : s.Inert) (hid : id < s.nextCell) (hl : s.isLiving id = true) {owned : Nat}
    (ho : owned ∈ (s.cell id).deque.owners) : s.isLiving owned = true :=
  isLiving_of_owner (hs.made id hid) hl ho (hs.made owned (Deque.known_of_owner (hs.known id hid) ho))

/-- To mark a deque that can be written, and keep it and what it owns alive, makes no difference to what is alive. -/
theorem isLiving_opened (hm : u.Made id) (hl : ∀ owned ∈ id :: (u.cell id).deque.owners, u.isLiving owned = true)
    (other : Nat) : (opened id u).isLiving other = u.isLiving other := by
  have hholdings : (Action.opened id u).holdings = u.holdings := holdings_mark hm
  exact isLiving_of_roots _ hholdings (fun _ => mem_roots_pinned u _) hl other

/-- A deque that begins to be written is put before the others of the path. -/
theorem Along.opened (h : s.Along path u) (hid : id < s.nextCell)
    (hl : ∀ owned ∈ id :: (s.cell id).deque.owners, s.isLiving owned = true) : s.Along (id :: path) (opened id u) where
  nextCell := h.nextCell
  cells other ho := by
    by_cases he : id = other
    · subst he
      rw [cell_opened, h.cells id hid]
      simp
    · have hne : ¬ other = id := fun hsame => he hsame.symm
      rw [cell_opened_of_ne he, h.cells other ho]
      simp [hne]
  made other ho := made_putCell u id other _ (h.made other ho)
  hooks := h.hooks
  living other := by
    rw [← h.living other]
    refine isLiving_opened (h.made id hid) (fun owned ho => ?_) other
    rw [h.items hid] at ho
    rw [h.living owned]
    exact hl owned ho

theorem Along.deeper (h : s.Along path u) (hs : s.Inert) (hid : id < s.nextCell) (hl : s.isLiving id = true) :
    s.Along (id :: path) (Action.opened id u) :=
  h.opened hid fun _ ho => (List.mem_cons.1 ho).elim (fun he => he ▸ hl) (hs.living_owner hid hl)

/-- Writing marks a deque and takes the mark off again. -/
theorem closed_opened (hm : u.Made id) (hf : (u.cell id).hold = .free) (hu : (u.cell id).formatting = false) :
    closed id u (opened id u) = u := by
  have hback : closed id u (opened id u) = unmark id (mark id u) := rfl
  have hcell : { { u.cell id with formatting := true } with formatting := false } = u.cell id := by
    rw [← hu]
  rw [hback, unmark, cell_mark, if_pos hf, hcell, mark, putCell_putCell, putCell_cell hm]

theorem Along.closed_opened (h : s.Along path u) (hs : s.Inert) (hid : id < s.nextCell) (hp : id ∉ path) :
    closed id u (Action.opened id u) = u :=
  Session.closed_opened (h.made id hid) (h.free hs hid) ((h.formatting hid).trans (decide_eq_false hp))

/-- What is behind a reference can be written if it comes to that. -/
def Offers (s : Session) : Link Handle → Prop
  | .weak target => target.cell < s.nextCell
  | .own target => target.cell < s.nextCell ∧ s.isLiving target.cell = true
  | .hook hook => (s.hook hook).whenWritten = []

theorem offers_of_known {d : Deque Element} (hknown : ∀ element ∈ d.items, element.Known s.nextCell)
    (hl : ∀ owned ∈ d.owners, s.isLiving owned = true)
    (hsilent : ∀ element ∈ d.items, ∀ hook, .hook hook ∈ element.references → (s.hook hook).whenWritten = []) :
    ∀ link ∈ Value.referencesOfList d.items, s.Offers link := by
  intro link hlink
  obtain ⟨element, helement, hin⟩ := Value.mem_referencesOfList.1 hlink
  have hlinked := hknown element helement link hin
  cases link with
  | weak target => exact hlinked
  | hook hook => exact hsilent element helement hook hin
  | own target =>
    have howner := Value.mem_owners_iff_own.2 ⟨target, hin, rfl⟩
    exact ⟨hlinked, hl target.cell (Deque.mem_owners.2 ⟨element, helement, howner⟩)⟩

theorem Inert.offers (hs : s.Inert) (hid : id < s.nextCell) (hl : s.isLiving id = true) :
    ∀ link ∈ Value.referencesOfList (s.cell id).deque.items, s.Offers link :=
  offers_of_known (hs.known id hid) (fun _ => hs.living_owner hid hl) (hs.silent id hid)

end Session

namespace Action

theorem Settles.answer {α : Type} {a : Nat → Action α} {s t : Session} {value : α} (h : ∀ k, a k s = (.ok value, t)) :
    Settles a s value t := ⟨0, fun k _ => h k⟩

end Action

namespace Meaning

variable {s u : Session} {path : List Nat} {n : Nat}

/-- With at most so many deques off the path, each is written as it looks there, and the session is what it was. -/
def CellsRender (s : Session) (n : Nat) : Prop :=
  ∀ path u, s.Along path u → s.offPath path ≤ n → ∀ id, id < s.nextCell → s.isLiving id = true →
    Settles (fun k => writeCell (upTo k).write id) u (s.render path id) u

mutual
theorem CellsRender.write (h : CellsRender s n) (hu : s.Along path u) (hn : s.offPath path ≤ n) :
    (element : Element) → (∀ link ∈ element.references, s.Offers link) →
      Settles (fun k => (upTo k).write element) u (s.textOf (s.render path) element) u
  | .int value, _ => Settles.succ (.answer fun _ => rfl) fun _ => rfl
  | .text value, _ => Settles.succ (.answer fun _ => rfl) fun _ => rfl
  | .real value, _ => Settles.succ (.answer fun _ => rfl) fun _ => rfl
  | .keyed key tag, _ => Settles.succ (.answer fun _ => rfl) fun _ => rfl
  | .nested ⟨items, bound⟩, hoffers => by
    refine Settles.succ (a := fun k => writeItems (upTo k).write ⟨items, bound⟩) ?_ fun _ => rfl
    exact (CellsRender.writeAll h hu hn items hoffers).bind (.answer fun _ => rfl)
  | .link (.own target), hoffers => by
    obtain ⟨hid, hl⟩ := hoffers (.own target) (by simp [Value.references])
    exact Settles.succ (h path u hu hn target.cell hid hl) fun _ => rfl
  | .link (.weak target), hoffers => by
    refine Settles.succ (a := fun k => (upTo k).writeElement (.link (.weak target))) ?_ fun _ => rfl
    have hliving : Settles (fun _ => Action.read (·.isLiving target.cell)) u (s.isLiving target.cell) u :=
      .answer fun _ => by rw [read_apply, hu.living]
    refine hliving.bind ?_
    unfold Session.textOf
    cases hl : s.isLiving target.cell with
    | true => exact h path u hu hn target.cell (hoffers (.weak target) (by simp [Value.references])) hl
    | false => exact .answer fun _ => rfl
  | .link (.hook hook), hoffers => by
    refine Settles.succ (a := fun k => (upTo k).writeElement (.link (.hook hook))) ?_ fun _ => rfl
    have hhook : u.hook hook = s.hook hook := by
      unfold Session.hook
      rw [hu.hooks]
    refine .answer fun k => (bind_ok (Hook.act_of_empty _ ?_)).trans ?_
    · rw [hhook]
      exact hoffers (.hook hook) (by simp [Value.references])
    · rw [read_apply, hhook]
      rfl

theorem CellsRender.writeAll (h : CellsRender s n) (hu : s.Along path u) (hn : s.offPath path ≤ n) :
    (elements : List Element) → (∀ link ∈ Value.referencesOfList elements, s.Offers link) →
      Settles (fun k => elements.mapM (upTo k).write) u (s.textsOf (s.render path) elements) u
  | [], _ => .answer fun _ => rfl
  | element :: elements, hoffers => by
    simp only [Value.referencesOfList, List.mem_append] at hoffers
    simp only [List.mapM_cons]
    refine (CellsRender.write h hu hn element fun link hl => hoffers link (.inl hl)).bind ?_
    exact (CellsRender.writeAll h hu hn elements fun link hl => hoffers link (.inr hl)).bind (.answer fun _ => rfl)
end

/-- A path cannot go on for ever. -/
theorem cellsRender (hs : s.Inert) (n : Nat) : CellsRender s n := by
  induction n using Nat.strongRecOn with
  | ind n ih =>
    intro path u hu hn id hid hl
    have hfree := hu.free hs hid
    rw [s.render_eq path hid]
    by_cases hp : id ∈ path
    · have hmarked : (u.cell id).formatting = true := (hu.formatting hid).trans (decide_eq_true hp)
      rw [if_pos hp]
      exact .answer fun k => writeCell_of_marked hfree hmarked
    · have hunmarked : (u.cell id).formatting = false := (hu.formatting hid).trans (decide_eq_false hp)
      have hlt := Session.offPath_cons_lt hid hp
      obtain ⟨depth, hitems⟩ := (ih _ (Nat.lt_of_lt_of_le hlt hn)).writeAll (hu.deeper hs hid hl) (Nat.le_refl _)
        (s.cell id).deque.items (hs.offers hid hl)
      rw [if_neg hp]
      refine ⟨depth, fun k hk => ?_⟩
      have helements : writeItems (upTo k).write (u.cell id).deque (opened id u) =
          (.ok (Deque.written (s.textsOf (s.render (id :: path)) (s.cell id).deque.items) (s.cell id).deque.bound),
            opened id u) := by
        rw [hu.items hid]
        exact bind_ok (hitems k hk)
      have hcount : ((opened id u).cell id).mutations = (u.cell id).mutations := by rw [cell_opened]
      have hopen : ((opened id u).cell id).hold = .free := by rwa [cell_opened]
      have hrun := writeCell_of_elements hfree hunmarked helements hopen
      rwa [if_neg (Decidable.not_not.2 hcount), hu.closed_opened hs hid hp] at hrun

end Meaning

/-- What an action comes to from some depth on it comes to wherever it does not go too deep. -/
theorem Action.Settles.of_below {α : Type} {a : Nat → Action α} {s t : Session} {value : α} (h : Settles a s value t)
    (hb : ∀ n k, n ≤ k → Below α (a n) (a k)) {k : Nat} (hk : (a k s).1 ≠ .error .tooDeep) :
    a k s = (.ok value, t) := by
  obtain ⟨depth, hdepth⟩ := h
  rw [← hb k (max k depth) (Nat.le_max_left ..) s hk]
  exact hdepth _ (Nat.le_max_right ..)

/-- A deque that has a handle is written, and the session is what it was. The text is the one without marks, which is
the mark itself for the deques of the path and for no others. The last part is about a deque that comes up while others
are being written, and is still alive. -/
theorem writing_unfolds_paths {s : Session} (hs : s.Inert) {id : Nat} (hid : id < s.nextCell) :
    (∀ name, s.shared.get? name = some id →
        (∃ depth, ∀ k, depth ≤ k →
          (Meaning.upTo k).perform (.shared name .written) s = (.ok (.text (s.render [] id)), s)) ∧
        ∀ k, ((Meaning.upTo k).perform (.shared name .written) s).1 ≠ .error .tooDeep →
          (Meaning.upTo k).perform (.shared name .written) s = (.ok (.text (s.render [] id)), s)) ∧
      (∀ path other, other < s.nextCell →
        s.render path other = (if other ∈ path then Deque.recursionMark
          else Deque.written (s.textsOf (s.render (other :: path)) (s.cell other).deque.items)
            (s.cell other).deque.bound) ∧
        (s.render path other = Deque.recursionMark ↔ other ∈ path)) ∧
      (s.isLiving id = true → ∀ path u, s.Along path u →
        Settles (fun k => writeCell (Meaning.upTo k).write id) u (s.render path id) u) := by
  have hwritten (hl : s.isLiving id = true) (path : List Nat) (u : Session) (hu : s.Along path u) :
      Settles (fun k => writeCell (Meaning.upTo k).write id) u (s.render path id) u :=
    Meaning.cellsRender hs _ path u hu (Nat.le_refl _) id hid hl
  refine ⟨fun name hname => ?_, fun path other ho => ⟨s.render_eq path ho, ?_⟩, hwritten⟩
  · have hstep : Settles (fun k => (Meaning.upTo k).perform (.shared name .written)) s (.text (s.render [] id)) s := by
      obtain ⟨depth, htext⟩ := hwritten (Session.isLiving_of_shared hname) [] s hs.along
      refine Settles.succ (a := fun k => (Meaning.upTo k).performStep (.shared name .written)) ⟨depth, ?_⟩ fun _ => rfl
      exact fun k hk => (Meaning.performStep_shared (o := .written) rfl hname).trans (bind_ok (htext k hk))
    exact ⟨hstep, fun k hk => hstep.of_below (fun n k hnk => (Meaning.upTo_below hnk).perform _) hk⟩
  · rw [s.render_eq path ho]
    split
    · rename_i hp
      simp [hp]
    · rename_i hp
      simp [hp, Deque.written_ne_mark]

/-- The deques 1 and 2 own each other and themselves, one of them twice the other, and one refers to the deque 0, which
has been dropped. -/
def Session.withCycles : Session :=
  endOf (Meaning.upTo 2)
    [.createShared "c" (.items [.int 3] none), .createShared "a" (.items [.link (.weak "c")] (some 5)),
      .createShared "b" (.items [.link (.own "a")] none),
      .shared "b" (.edit (.pushBack (.nested ⟨[.link (.own "b")], none⟩))),
      .shared "a" (.edit (.extendBack [.link (.own "b"), .link (.own "b"), .link (.own "a")])), .drop "c"]
    (.start [] none)

theorem writing_unfolds_paths_cyclic :
    Session.withCycles.Inert ∧ 1 < Session.withCycles.nextCell ∧
      ∃ depth, ∀ k, depth ≤ k → (Meaning.upTo k).perform (.shared "a" .written) Session.withCycles =
        (.ok (.text
          "deque([<dropped>, deque([[...], deque([[...]])]), deque([[...], deque([[...]])]), [...]], maxlen=5)"),
          Session.withCycles) := by
  have hproper : Session.withCycles.Proper := (Session.proper_start [] none).endOf _ _
  have hreleased : Session.withCycles.Released := Session.released_endOf [] none _ _
  have hinert : Session.withCycles.Inert := hreleased.inert hproper fun _ => rfl
  have hdropped : Session.withCycles.isLiving 0 = false := Session.isLiving_eq_false (by decide)
  obtain ⟨hstep, hrender, _⟩ := writing_unfolds_paths hinert (by decide : 1 < Session.withCycles.nextCell)
  have hmark (path : List Nat) (other : Nat) (ho : other < Session.withCycles.nextCell) (hp : other ∈ path) :
      Session.withCycles.render path other = Deque.recursionMark := (hrender path other ho).2.2 hp
  have hother : Session.withCycles.render [1] 2 = "deque([[...], deque([[...]])])" := by
    rw [(hrender [1] 2 (by decide)).1, if_neg (by decide)]
    change Deque.written [Session.withCycles.render [2, 1] 1, Deque.written [Session.withCycles.render [2, 1] 2] none]
      none = _
    rw [hmark [2, 1] 1 (by decide) (by decide), hmark [2, 1] 2 (by decide) (by decide)]
    rfl
  have htext : Session.withCycles.render [] 1 =
      "deque([<dropped>, deque([[...], deque([[...]])]), deque([[...], deque([[...]])]), [...]], maxlen=5)" := by
    rw [(hrender [] 1 (by decide)).1, if_neg (by decide)]
    change Deque.written [if Session.withCycles.isLiving 0 = true then Session.withCycles.render [1] 0 else
      Link.droppedText, Session.withCycles.render [1] 2, Session.withCycles.render [1] 2,
      Session.withCycles.render [1] 1] (some 5) = _
    rw [hdropped, hother, hmark [1] 1 (by decide) (by decide)]
    rfl
  exact ⟨hinert, by decide, htext ▸ (hstep "a" rfl).1⟩

end EvictingDeque
