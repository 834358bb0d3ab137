import EvictingDeque.Proofs.Comparing.Looking
import EvictingDeque.Proofs.Writing.Paths

set_option autoImplicit false

/-!
# Writing while deques are held

Where no element acts, writing leaves the session as it was, although it marks deques meanwhile. It ends in a borrow
conflict exactly if it comes to a deque that is held: one that can be reached through references, deque by deque,
without coming to a deque that is being written already.
-/
namespace EvictingDeque

open Action

namespace Session

variable {s u w : Session} {id : Nat}

theorem deque_opened (id : Nat) (u : Session) (other : Nat) :
    ((opened id u).cell other).deque = (u.cell other).deque := by
  by_cases he : id = other
  · subst he
    rw [cell_opened]
  · rw [cell_opened_of_ne he]

/-- What a living deque owns is alive. -/
theorem Near.kept (h : s.Near u) (hid : s.Lives id) : ∀ owned ∈ id :: (u.cell id).deque.owners, s.Lives owned := by
  intro owned ho
  rcases List.mem_cons.1 ho with rfl | ho
  · exact hid
  · exact Deque.lives_of_owners (h.contents hid) owned ho

theorem Near.opened (h : s.Near u) (hid : s.Lives id) : s.Near (opened id u) where
  hooks := h.hooks
  living other ho := by
    rw [← h.living other ho]
    refine isLiving_opened (h.made id hid.made) (fun owned howned => ?_) other
    have hkept := h.kept hid owned howned
    exact (h.living owned hkept.made).trans hkept.living
  made other ho := made_putCell u id other _ (h.made other ho)
  known other ho := by
    rw [deque_opened]
    exact h.known other ho
  silent other ho := by
    rw [deque_opened]
    exact h.silent other ho

theorem Sees.opened (h : s.Sees u w) (hid : s.Lives id) : s.Sees (opened id u) (opened id w) where
  near := h.near.opened hid
  also := h.also.opened hid
  cells other ho hr := by
    by_cases he : id = other
    · subst he
      rw [cell_opened] at hr ⊢
      rw [cell_opened]
      obtain ⟨hdeque, hmutations, _, hreading, hfree⟩ := h.cells id ho hr
      exact ⟨hdeque, hmutations, rfl, hreading, hfree⟩
    · rw [cell_opened_of_ne he] at hr ⊢
      rw [cell_opened_of_ne he]
      exact h.cells other ho hr

end Session

namespace Action

variable {conflicts : Hold → Prop} {s u : Session} {id : Nat} {write : Element → Action String}

theorem Looks.mapM {items : List Element} (h : ∀ item ∈ items, (write item).Looks conflicts s) :
    (items.mapM write).Looks conflicts s := by
  induction items with
  | nil => exact pure []
  | cons item items ih =>
    rw [List.mapM_cons]
    refine (h item List.mem_cons_self).bind fun text => ?_
    exact (ih fun other ho => h other (List.mem_cons_of_mem _ ho)).bind fun texts => pure _

theorem Looks.writeItems {d : Deque Element} (h : ∀ item ∈ d.items, (write item).Looks conflicts s) :
    (writeItems write d).Looks conflicts s := (mapM h).bind fun _ => pure _

/-- A deque that is neither held nor being written is written, and then unmarked again. -/
theorem writeCell_run (hu : s.Near u) (hid : s.Lives id) (hf : (u.cell id).hold = .free)
    (hm : (u.cell id).formatting = false)
    (h : ∀ element : Element, element.AtHome s → (write element).Looks conflicts s) :
    writeCell write id u = ((writeItems write (u.cell id).deque (opened id u)).1, u) := by
  have hitems : (writeItems write (u.cell id).deque).Looks conflicts s :=
    .writeItems fun element he => h element (hu.contents hid element he)
  have hrun := hitems.run (hu.opened hid)
  have hback := Session.closed_opened (hu.made id hid.made) hf hm
  rcases hfirst : (writeItems write (u.cell id).deque (opened id u)).1 with cause | text <;> rw [hfirst] at hrun
  · rw [writeCell_of_interrupted hf hm hrun, hback]
  · have hopen : ((opened id u).cell id).hold = .free := by rwa [cell_opened]
    have hcount : ((opened id u).cell id).mutations = (u.cell id).mutations := by rw [cell_opened]
    rw [writeCell_of_elements hf hm hrun hopen, if_neg (Decidable.not_not.2 hcount), hback]

theorem Looks.writeCell (hc : ∀ hold : Hold, hold ≠ .free → conflicts hold) (hid : s.Lives id)
    (h : ∀ element : Element, element.AtHome s → (write element).Looks conflicts s) :
    (writeCell write id).Looks conflicts s where
  unchanged u hu := by
    by_cases hf : (u.cell id).hold = .free
    · cases hm : (u.cell id).formatting with
      | true => rw [writeCell_of_marked hf hm]
      | false => rw [writeCell_run hu hid hf hm h]
    · rw [writeCell_of_held hf]
  agrees u w hs := by
    by_cases hf : (u.cell id).hold = .free
    · have hshows := hs.cells id hid.made (congrArg Hold.allowsReading hf)
      have hfree := hshows.free hf
      cases hm : (u.cell id).formatting with
      | true =>
        rw [writeCell_of_marked hf hm, writeCell_of_marked hfree (hshows.formatting.trans hm)]
        exact .inr ⟨rfl, nofun⟩
      | false =>
        rw [writeCell_run hs.near hid hf hm h, writeCell_run hs.also hid hfree (hshows.formatting.trans hm) h,
          hshows.deque]
        have hitems : (Action.writeItems write (u.cell id).deque).Looks conflicts s :=
          .writeItems fun element he => h element (hs.near.contents hid element he)
        refine (hitems.agrees _ _ (hs.opened hid)).imp_left fun ⟨hborrowed, other, ho, hheld⟩ => ?_
        refine ⟨hborrowed, other, ho, ?_⟩
        by_cases he : id = other
        · subst he
          rwa [cell_opened] at hheld
        · rwa [cell_opened_of_ne he] at hheld
    · rw [writeCell_of_held hf]
      exact .inl ⟨rfl, id, hid.made, hc _ hf⟩

end Action

namespace Meaning

variable {s : Session}

theorem looks_write (hq : ∀ hook, (s.hook hook).whenWritten = []) (depth : Nat) (element : Element)
    (he : element.AtHome s) : ((upTo depth).write element).Looks Hold.IsTaken s := by
  induction depth generalizing element with
  | zero => exact .interrupt nofun
  | succ depth ih =>
    change ((upTo depth).writeElement element).Looks Hold.IsTaken s
    unfold writeElement
    split
    · exact .pure _
    · exact .pure _
    · exact .pure _
    · exact .pure _
    · exact .writeItems fun inner hi => ih inner (he.of_nested inner hi)
    · exact .writeCell (fun _ h => h) he.of_link ih
    · rename_i target
      have hliving {u : Session} (hu : s.Near u) : u.isLiving target.cell = s.isLiving target.cell :=
        hu.living _ he.of_link
      cases hl : s.isLiving target.cell with
      | true =>
        refine Looks.bind (.read fun u w h => by rw [hliving h.near, hliving h.also]) fun alive => ?_
        cases alive with
        | true => exact .writeCell (fun _ h => h) ⟨he.of_link, hl⟩ ih
        | false => exact .pure _
      | false =>
        have hdropped {u : Session} (hu : s.Near u) : (do
            if ← Action.read (·.isLiving target.cell) then writeCell (upTo depth).write target.cell
            else return Link.droppedText : Action String) u = (.ok Link.droppedText, u) := by
          rw [bind_ok (read_apply _ u), hliving hu, hl]
          rfl
        refine ⟨fun u hu => by rw [hdropped hu], fun u w h => ?_⟩
        rw [hdropped h.near, hdropped h.also]
        exact .inr ⟨rfl, nofun⟩
    · rename_i hook
      have hact {u : Session} (hu : s.Near u) : Hook.act (upTo depth) hook (·.whenWritten) u = (.ok (), u) := by
        refine Hook.act_of_empty _ ?_
        rw [hu.hook]
        exact hq hook
      refine Looks.bind ⟨fun u hu => by rw [hact hu], fun u w h => ?_⟩ fun _ => .read fun u w h => ?_
      · rw [hact h.near, hact h.also]
        exact .inr ⟨rfl, nofun⟩
      · rw [h.near.hook, h.also.hook]

end Meaning

namespace Session

/-- The deque that a reference leads to, if there is one. -/
inductive Leads (s : Session) : Link Handle → Nat → Prop
  | own (target : Handle) : Leads s (.own target) target.cell
  | weak {target : Handle} (alive : s.isLiving target.cell = true) : Leads s (.weak target) target.cell

/-- Writing the first deque, while those of the path are being written, comes to the second one. -/
inductive Reaches (s : Session) : List Nat → Nat → Nat → Prop
  | here {path : List Nat} {id : Nat} (off : id ∉ path) : Reaches s path id id
  | through {path : List Nat} {id inner target : Nat} {element : Element} {link : Link Handle} (off : id ∉ path)
      (stored : element ∈ (s.cell id).deque.items) (refers : link ∈ element.references) (leads : s.Leads link inner)
      (rest : Reaches s (id :: path) inner target) : Reaches s path id target

/-- Writing the deque comes to one that is held. -/
def Clashes (s : Session) (path : List Nat) (id : Nat) : Prop :=
  ∃ target, (s.cell target).hold ≠ .free ∧ s.Reaches path id target

/-- Writing the element does. -/
def Meets (s : Session) (path : List Nat) (element : Element) : Prop :=
  ∃ link ∈ element.references, ∃ id, s.Leads link id ∧ s.Clashes path id

variable {s u : Session} {path : List Nat} {id : Nat}

theorem clashes_of_held (hp : id ∉ path) (h : (s.cell id).hold ≠ .free) : s.Clashes path id := ⟨id, h, .here hp⟩

theorem not_clashes_of_mem (hp : id ∈ path) : ¬ s.Clashes path id := by
  rintro ⟨target, _, hreaches⟩
  cases hreaches with
  | here off => exact off hp
  | through off _ _ _ _ => exact off hp

theorem clashes_iff_of_free (hp : id ∉ path) (h : (s.cell id).hold = .free) :
    s.Clashes path id ↔ ∃ element ∈ (s.cell id).deque.items, s.Meets (id :: path) element := by
  constructor
  · rintro ⟨target, hheld, hreaches⟩
    cases hreaches with
    | here off => exact absurd h hheld
    | through off stored refers leads rest => exact ⟨_, stored, _, refers, _, leads, target, hheld, rest⟩
  · rintro ⟨element, stored, link, refers, inner, leads, target, hheld, rest⟩
    exact ⟨target, hheld, .through hp stored refers leads rest⟩

theorem meets_own {target : Handle} : s.Meets path (.link (.own target)) ↔ s.Clashes path target.cell := by
  constructor
  · rintro ⟨link, hlink, inner, leads, h⟩
    cases List.mem_singleton.1 hlink
    cases leads with
    | own => exact h
  · exact fun h => ⟨_, List.mem_singleton.2 rfl, _, .own target, h⟩

theorem meets_weak {target : Handle} :
    s.Meets path (.link (.weak target)) ↔ s.isLiving target.cell = true ∧ s.Clashes path target.cell := by
  constructor
  · rintro ⟨link, hlink, inner, leads, h⟩
    cases List.mem_singleton.1 hlink
    cases leads with
    | weak alive => exact ⟨alive, h⟩
  · exact fun ⟨alive, h⟩ => ⟨_, List.mem_singleton.2 rfl, _, .weak alive, h⟩

theorem meets_nested {d : Deque Element} : s.Meets path (.nested d) ↔ ∃ inner ∈ d.items, s.Meets path inner := by
  obtain ⟨items, bound⟩ := d
  constructor
  · rintro ⟨link, hlink, h⟩
    obtain ⟨inner, hi, hin⟩ := Value.mem_referencesOfList.1 hlink
    exact ⟨inner, hi, link, hin, h⟩
  · rintro ⟨inner, hi, link, hin, h⟩
    exact ⟨link, Value.mem_referencesOfList.2 ⟨inner, hi, hin⟩, h⟩

theorem Along.near (h : s.Along path u) (hs : s.Near s) : s.Near u where
  hooks := h.hooks
  living id _ := h.living id
  made := h.made
  known id hid := h.items hid ▸ hs.known id hid
  silent id hid := h.items hid ▸ hs.silent id hid

theorem Along.hold (h : s.Along path u) (hid : id < s.nextCell) : (u.cell id).hold = (s.cell id).hold := by
  rw [h.cells id hid]

end Session

namespace Action

variable {conflicts : Hold → Prop} {s u : Session} {write : Element → Action String} {items : List Element}

/-- Each element is written in the same session, and the first one that is interrupted interrupts the others. -/
theorem mapM_looks (hu : s.Near u) (h : ∀ item ∈ items, (write item).Looks conflicts s) :
    (∀ cause, (items.mapM write u).1 = .error cause → ∃ item ∈ items, (write item u).1 = .error cause) ∧
      ∀ texts, (items.mapM write u).1 = .ok texts → ∀ item ∈ items, ∃ text, (write item u).1 = .ok text := by
  induction items with
  | nil => exact ⟨nofun, fun _ _ _ hi => absurd hi List.not_mem_nil⟩
  | cons item items ih =>
    obtain ⟨herror, hok⟩ := ih fun other ho => h other (List.mem_cons_of_mem _ ho)
    have hrun := (h item List.mem_cons_self).run hu
    rw [List.mapM_cons]
    rcases hfirst : (write item u).1 with cause | text <;> rw [hfirst] at hrun
    · rw [bind_error hrun]
      refine ⟨fun other ho => ⟨item, List.mem_cons_self, ?_⟩, nofun⟩
      cases ho
      exact hfirst
    · rw [bind_ok hrun]
      have hrest := (Looks.mapM fun other ho => h other (List.mem_cons_of_mem _ ho)).run hu
      rcases hall : (items.mapM write u).1 with cause | texts <;> rw [hall] at hrest
      · rw [bind_error hrest]
        refine ⟨fun other ho => ?_, nofun⟩
        cases ho
        obtain ⟨inner, hi, hinner⟩ := herror cause hall
        exact ⟨inner, List.mem_cons_of_mem _ hi, hinner⟩
      · rw [bind_ok hrest]
        refine ⟨nofun, fun _ _ other ho => ?_⟩
        rcases List.mem_cons.1 ho with rfl | ho
        · exact ⟨text, hfirst⟩
        · exact hok texts hall other ho

/-- What is written ends in a borrow conflict only if it should, and answers only if it should not. -/
structure Discerns (s u : Session) (a : Action String) (clash : Prop) : Prop where
  answered : ∀ text, (a u).1 = .ok text → ¬ clash
  borrowed : (a u).1 = .error (.panic .borrowed) → clash

theorem Discerns.writeItems {path : List Nat} {d : Deque Element} (hu : s.Near u)
    (h : ∀ item ∈ d.items, (write item).Looks conflicts s)
    (hd : ∀ item ∈ d.items, (write item).Discerns s u (s.Meets path item)) :
    (writeItems write d).Discerns s u (∃ item ∈ d.items, s.Meets path item) := by
  obtain ⟨herror, hok⟩ := mapM_looks hu h
  have hrun := (Looks.mapM h).run hu
  unfold Action.writeItems
  rcases hall : (d.items.mapM write u).1 with cause | texts <;> rw [hall] at hrun
  · refine ⟨fun text => ?_, fun hb => ?_⟩ <;> rw [bind_error hrun] at *
    · exact nofun
    · obtain ⟨item, hi, hitem⟩ := herror cause hall
      exact ⟨item, hi, (hd item hi).borrowed (hitem.trans hb)⟩
  · refine ⟨fun text _ => ?_, fun hb => ?_⟩
    · rintro ⟨item, hi, hmeets⟩
      obtain ⟨found, hfound⟩ := hok texts hall item hi
      exact (hd item hi).answered found hfound hmeets
    · rw [bind_ok hrun] at hb
      cases hb

/-- The deques of the path, which are being written, are not held. -/
theorem Discerns.writeCell {path : List Nat} {id : Nat} (hs : s.Near s) (hu : s.Along path u)
    (hpath : ∀ other ∈ path, (s.cell other).hold = .free) (hid : s.Lives id)
    (hl : ∀ element : Element, element.AtHome s → (write element).Looks conflicts s)
    (hd : ∀ path u element, s.Along path u → (∀ other ∈ path, (s.cell other).hold = .free) →
      element.AtHome s → (write element).Discerns s u (s.Meets path element)) :
    (writeCell write id).Discerns s u (s.Clashes path id) := by
  have hhold := hu.hold hid.made
  by_cases hf : (s.cell id).hold = .free
  · have hfree := hhold.trans hf
    by_cases hp : id ∈ path
    · have hmarked : (u.cell id).formatting = true := (hu.formatting hid.made).trans (decide_eq_true hp)
      refine ⟨fun _ _ => Session.not_clashes_of_mem hp, fun hb => ?_⟩
      rw [writeCell_of_marked hfree hmarked] at hb
      cases hb
    · have hunmarked : (u.cell id).formatting = false := (hu.formatting hid.made).trans (decide_eq_false hp)
      have hopened : s.Along (id :: path) (opened id u) :=
        hu.opened hid.made fun owned ho => (hs.kept hid owned ho).living
      have hdeeper : ∀ other ∈ id :: path, (s.cell other).hold = .free := fun other ho =>
        (List.mem_cons.1 ho).elim (fun he => he ▸ hf) (hpath other)
      have hitems : (Action.writeItems write (s.cell id).deque).Discerns s (opened id u)
          (∃ item ∈ (s.cell id).deque.items, s.Meets (id :: path) item) :=
        .writeItems (hopened.near hs) (fun item hi => hl item (hs.contents hid item hi)) fun item hi =>
          hd _ _ item hopened hdeeper (hs.contents hid item hi)
      have hrun := writeCell_run (hu.near hs) hid hfree hunmarked hl
      rw [hu.items hid.made] at hrun
      rw [Session.clashes_iff_of_free hp hf]
      refine ⟨fun text ht => hitems.answered text ?_, fun hb => hitems.borrowed ?_⟩
      · rwa [hrun] at ht
      · rwa [hrun] at hb
  · have hp : id ∉ path := fun hp => hf (hpath id hp)
    have hheld : Action.writeCell write id u = (.error (.panic .borrowed), u) := writeCell_of_held (hhold ▸ hf)
    refine ⟨fun text ht => ?_, fun _ => Session.clashes_of_held hp hf⟩
    rw [hheld] at ht
    cases ht

end Action

namespace Meaning

variable {s : Session}

theorem discerns_write (hs : s.Near s) (hq : ∀ hook, (s.hook hook).whenWritten = []) (depth : Nat) (path : List Nat)
    (u : Session) (element : Element) (hu : s.Along path u) (hpath : ∀ other ∈ path, (s.cell other).hold = .free)
    (he : element.AtHome s) : ((upTo depth).write element).Discerns s u (s.Meets path element) := by
  induction depth generalizing path u element with
  | zero => exact ⟨nofun, nofun⟩
  | succ depth ih =>
    have hlooks := looks_write hq depth
    have hcell {id : Nat} (hid : s.Lives id) :
        (writeCell (upTo depth).write id).Discerns s u (s.Clashes path id) := .writeCell hs hu hpath hid hlooks ih
    have hnone {a : Action String} (hlinks : ∀ link ∈ element.references, ∀ id, ¬ s.Leads link id)
        (hb : (a u).1 ≠ .error (.panic .borrowed)) : a.Discerns s u (s.Meets path element) :=
      ⟨fun _ _ ⟨link, hlink, id, hleads, _⟩ => hlinks link hlink id hleads, fun h => absurd h hb⟩
    change ((upTo depth).writeElement element).Discerns s u (s.Meets path element)
    cases element with
    | int value | text value | real value | keyed key tag => exact hnone (by simp [Value.references]) nofun
    | nested d =>
      rw [Session.meets_nested]
      exact .writeItems (hu.near hs) (fun inner hi => hlooks inner (he.of_nested inner hi)) fun inner hi =>
        ih path u inner hu hpath (he.of_nested inner hi)
    | link link =>
      cases link with
      | own target =>
        rw [Session.meets_own]
        exact hcell he.of_link
      | hook hook =>
        have hhook : u.hook hook = s.hook hook := (hu.near hs).hook hook
        have hact : Hook.act (upTo depth) hook (·.whenWritten) u = (.ok (), u) :=
          Hook.act_of_empty _ (by rw [hhook]; exact hq hook)
        refine hnone (fun link hlink id hleads => ?_) ?_
        · cases List.mem_singleton.1 hlink
          cases hleads
        · exact fun hb => nomatch (congrArg Prod.fst (bind_ok hact)).symm.trans hb
      | weak target =>
        rw [Session.meets_weak]
        have hliving : u.isLiving target.cell = s.isLiving target.cell := hu.living _
        have hstep : (upTo depth).writeElement (.link (.weak target)) u =
            (if s.isLiving target.cell then writeCell (upTo depth).write target.cell
              else pure Link.droppedText) u := by
          rw [← hliving]
          exact bind_ok (read_apply _ u)
        cases hl : s.isLiving target.cell with
        | true =>
          rw [hl] at hstep
          obtain ⟨hanswered, hborrowed⟩ := hcell ⟨he.of_link, hl⟩
          refine ⟨fun text ht h => hanswered text ?_ h.2, fun hb => ⟨rfl, hborrowed ?_⟩⟩
          · rwa [hstep] at ht
          · rwa [hstep] at hb
        | false =>
          rw [hl] at hstep
          refine ⟨fun _ _ h => Bool.false_ne_true h.1, fun hb => ?_⟩
          rw [hstep] at hb
          cases hb

theorem discerns_writeCell (hs : s.Near s) (hq : ∀ hook, (s.hook hook).whenWritten = []) (depth : Nat)
    (hu : s.Along [] s) {id : Nat} (hid : s.Lives id) :
    (writeCell (upTo depth).write id).Discerns s s (s.Clashes [] id) :=
  .writeCell hs hu (fun _ ho => absurd ho List.not_mem_nil) hid (looks_write hq depth) (discerns_write hs hq depth)

end Meaning

namespace Session

/-- The session with all holds ended. -/
def freed (s : Session) : Session :=
  { s with cells := ⟨s.cells.entries.map fun entry =>
      (entry.1, Memo.of Cell.owners { entry.2.value with hold := .free })⟩ }

variable {s : Session} {id : Nat}

theorem get?_freed (s : Session) (id : Nat) :
    s.freed.cells.get? id = (s.cells.get? id).map fun memo => Memo.of Cell.owners { memo.value with hold := .free } :=
  Table.getEntries?_map (fun memo : Memo Cell.owners => Memo.of Cell.owners { memo.value with hold := .free }) id
    s.cells.entries

theorem cell_freed (s : Session) (id : Nat) : s.freed.cell id = { s.cell id with hold := .free } := by
  unfold Session.cell
  rw [get?_freed]
  cases s.cells.get? id <;> rfl

theorem made_freed (h : s.Made id) : s.freed.Made id := by
  unfold Made
  rw [get?_freed, Option.isSome_map]
  exact h

theorem isLiving_freed (s : Session) (id : Nat) : s.freed.isLiving id = s.isLiving id := by
  have hholdings : s.freed.holdings = s.holdings := by
    simp [holdings, freed, Memo.result_eq, Cell.owners]
  have hlength : s.freed.cells.entries.length = s.cells.entries.length := List.length_map _
  unfold isLiving living
  rw [hholdings, hlength]
  rfl

theorem Near.freed (hs : s.Near s) : s.Near s.freed where
  hooks := rfl
  living id _ := isLiving_freed s id
  made id hid := made_freed (hs.made id hid)
  known id hid := (congrArg (·.deque.items) (cell_freed s id)).symm ▸ hs.known id hid
  silent id hid := (congrArg (·.deque.items) (cell_freed s id)).symm ▸ hs.silent id hid

theorem Near.sees_freed (hs : s.Near s) : s.Sees s s.freed where
  near := hs
  also := hs.freed
  cells id _ _ := by
    rw [cell_freed]
    exact ⟨rfl, rfl, rfl, rfl, fun _ => rfl⟩

variable (hs : s.Near s) (hq : ∀ hook, (s.hook hook).whenWritten = [])
  (hunmarked : ∀ id, id < s.nextCell → (s.cell id).formatting = false)
include hs hunmarked

theorem Near.along : s.Along [] s where
  nextCell := rfl
  cells id hid := by
    have hm : decide (id ∈ ([] : List Nat)) = (s.cell id).formatting := by simp [hunmarked id hid]
    rw [hm]
  made := hs.made
  hooks := rfl
  living _ := rfl

include hq

theorem Near.inert_freed : s.freed.Inert where
  made := hs.freed.made
  idle id hid := by
    rw [cell_freed]
    exact ⟨rfl, hunmarked id hid⟩
  known := hs.freed.known
  silent _ _ _ _ hook _ := hq hook

/-- Whether writing ends in a borrow conflict is decided by what is held, and nothing else about it. -/
theorem Near.writeCell_cases (hid : s.Lives id) :
    ∃ depth text, (∀ k, depth ≤ k → writeCell (Meaning.upTo k).write id s.freed = (.ok text, s.freed)) ∧
      ∀ k, depth ≤ k ∨ (writeCell (Meaning.upTo k).write id s).1 ≠ .error .tooDeep →
        s.Clashes [] id ∧ writeCell (Meaning.upTo k).write id s = (.error (.panic .borrowed), s) ∨
          ¬ s.Clashes [] id ∧ writeCell (Meaning.upTo k).write id s = (.ok text, s) := by
  have hinert := hs.inert_freed hq hunmarked
  have hsettles : Settles (fun k => writeCell (Meaning.upTo k).write id) s.freed (s.freed.render [] id) s.freed :=
    Meaning.cellsRender hinert _ [] s.freed hinert.along (Nat.le_refl _) id hid.made
      ((isLiving_freed s id).trans hid.living)
  have hbelow (n k : Nat) (h : n ≤ k) :
      Below String (writeCell (Meaning.upTo n).write id) (writeCell (Meaning.upTo k).write id) :=
    .writeCell (Meaning.upTo_below h).write id
  obtain ⟨depth, hdepth⟩ := hsettles
  refine ⟨depth, s.freed.render [] id, hdepth, fun k hk => ?_⟩
  have hlooks : (writeCell (Meaning.upTo k).write id).Looks Hold.IsTaken s :=
    .writeCell (fun _ h => h) hid (Meaning.looks_write hq k)
  have hdiscerns := Meaning.discerns_writeCell hs hq k (hs.along hunmarked) hid
  have hrun := hlooks.run hs
  rcases hlooks.agrees s s.freed hs.sees_freed with ⟨hborrowed, _⟩ | ⟨hsame, _⟩
  · exact .inl ⟨hdiscerns.borrowed hborrowed, hrun.trans (by rw [hborrowed])⟩
  · have hfreed : writeCell (Meaning.upTo k).write id s.freed = (.ok (s.freed.render [] id), s.freed) :=
      hk.elim (hdepth k) fun hdeep => Settles.of_below ⟨depth, hdepth⟩ hbelow (hsame ▸ hdeep)
    have hok : (writeCell (Meaning.upTo k).write id s).1 = .ok (s.freed.render [] id) :=
      hsame.symm.trans (congrArg Prod.fst hfreed)
    exact .inr ⟨hdiscerns.answered _ hok, hrun.trans (by rw [hok])⟩

end Session

end EvictingDeque
