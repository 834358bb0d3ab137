import EvictingDeque.Proofs.Writing.Snapshot

set_option autoImplicit false

/-!
# Actions without side effects

What comparing and writing elements may do without being noticed: it uses up times at which hooks may act, and leaves
the deques and their counts, the registers and the scripts as they were. Searching, comparing and writing deques do no
more than that if it is all that their elements do.
-/
namespace EvictingDeque

open Action

structure Cell.Still {α : Type} (before after : Cell α) : Prop where
  deque : after.deque = before.deque
  mutations : after.mutations = before.mutations

theorem Cell.Still.refl {α : Type} (cell : Cell α) : cell.Still cell := ⟨rfl, rfl⟩

theorem Cell.Still.trans {α : Type} {a b c : Cell α} (hab : a.Still b) (hbc : b.Still c) : a.Still c :=
  ⟨hbc.deque.trans hab.deque, hbc.mutations.trans hab.mutations⟩

/-- A cursor cannot tell. -/
theorem Cell.Still.advance {before after : Cell Element} (h : before.Still after) (cursor : Cursor) :
    cursor.advance after = cursor.advance before := by
  simp only [Cursor.advance, h.deque, h.mutations]

/-- Of a hook only times are used up. -/
structure Hook.Spent (before after : Hook) : Prop where
  text : after.text = before.text
  equal : after.equal = before.equal
  whenWritten : after.whenWritten = before.whenWritten
  whenCompared : after.whenCompared = before.whenCompared
  times : ∀ n, before.times = some n → ∃ k, k ≤ n ∧ after.times = some k

structure Session.Still (s t : Session) : Prop where
  cells : Session.Through Cell.Still s t
  owned : t.owned = s.owned
  shared : t.shared = s.shared
  weak : t.weak = s.weak
  hooks : ∀ id, (s.hook id).Spent (t.hook id)

namespace Session

variable {s t u : Session}

theorem Through.still_of_cells (hc : t.cells = s.cells) (hn : t.nextCell = s.nextCell) : Through Cell.Still s t := by
  refine ⟨Nat.le_of_eq hn.symm, fun id _ => ?_⟩
  rw [cell_of_cells hc id]
  exact .refl _

theorem Still.refl (s : Session) : s.Still s :=
  ⟨.still_of_cells rfl rfl, rfl, rfl, rfl, fun _ => ⟨rfl, rfl, rfl, rfl, fun n hn => ⟨n, Nat.le_refl n, hn⟩⟩⟩

/-- Nothing but the cells and what nobody compares is different. -/
theorem Still.of_cells (h : s.Still t) (hn : t.nextCell ≤ u.nextCell)
    (hc : ∀ id, id < t.nextCell → (t.cell id).Still (u.cell id)) (ho : u.owned = t.owned) (hs : u.shared = t.shared)
    (hw : u.weak = t.weak) (hh : u.hooks = t.hooks) : s.Still u where
  cells := by
    refine ⟨Nat.le_trans h.cells.1 hn, fun id hid => ?_⟩
    exact (h.cells.2 id hid).trans (hc id (Nat.lt_of_lt_of_le hid h.cells.1))
  owned := ho.trans h.owned
  shared := hs.trans h.shared
  weak := hw.trans h.weak
  hooks id := by
    have hid := h.hooks id
    unfold Session.hook at hid ⊢
    rwa [hh]

theorem Still.pinned (h : s.Still t) (ids : List Nat) : s.Still { t with pinned := ids } :=
  h.of_cells (Nat.le_refl _) (fun _ _ => ⟨rfl, rfl⟩) rfl rfl rfl rfl

/-- Holds and marks are not noticed. -/
theorem Still.putCell (h : s.Still t) {id : Nat} {cell : Cell Element} (hc : (t.cell id).Still cell) :
    s.Still (t.putCell id cell) := by
  refine h.of_cells (Nat.le_refl _) (fun other _ => ?_) rfl rfl rfl rfl
  by_cases hid : id = other
  · subst hid
    rw [cell_putCell_self]
    exact hc
  · rw [cell_putCell_of_ne t hid]
    exact ⟨rfl, rfl⟩

theorem Still.unmark (h : s.Still t) (id : Nat) : s.Still (unmark id t) := by
  unfold Action.unmark
  split
  · exact h.putCell ⟨rfl, rfl⟩
  · exact h

end Session

/-- Begun wherever nothing was noticed since the session, the action does nothing to be noticed, and what it answers is
good. -/
def Action.Leaves {α : Type} (s : Session) (good : α → Prop) (action : Action α) : Prop :=
  ∀ u v outcome, s.Still u → action u = (outcome, v) → s.Still v ∧ ∀ value, outcome = .ok value → good value

/-- No side effects. -/
abbrev Action.Innocent {α : Type} (s : Session) (action : Action α) : Prop := action.Leaves s fun _ => True

namespace Action.Leaves

variable {α β : Type} {s : Session} {good : α → Prop} {better : β → Prop} {a : Action α} {id : Nat}

theorem pure {value : α} (h : good value) : (Pure.pure value : Action α).Leaves s good := fun u v outcome hu hrun => by
  cases hrun
  refine ⟨hu, fun found hf => ?_⟩
  cases hf
  exact h

theorem done {value : α} : (Pure.pure value : Action α).Innocent s := pure trivial

theorem interrupt (cause : Interrupt) : (Action.interrupt cause : Action α).Innocent s := fun _ _ _ hu hrun => by
  cases hrun
  exact ⟨hu, fun _ _ => trivial⟩

theorem read (f : Session → α) : (Action.read f).Innocent s := fun _ _ _ hu hrun => by
  cases hrun
  exact ⟨hu, fun _ _ => trivial⟩

theorem bind {f : α → Action β} (ha : a.Leaves s good) (hf : ∀ value, good value → (f value).Leaves s better) :
    (a >>= f).Leaves s better := fun u v outcome hu hrun => by
  rcases bind_cases hrun with ⟨cause, hfirst, rfl⟩ | ⟨value, w, hfirst, hnext⟩
  · exact ⟨(ha u v _ hu hfirst).1, nofun⟩
  · obtain ⟨hw, hgood⟩ := ha u w _ hu hfirst
    exact hf value (hgood value rfl) w v outcome hw hnext

/-- Whatever the first action answers. -/
theorem andThen {f : α → Action β} (ha : a.Leaves s good) (hf : ∀ value, (f value).Leaves s better) :
    (a >>= f).Leaves s better := ha.bind fun value _ => hf value

theorem update {f : Session → Session} (hf : ∀ u, s.Still u → s.Still (f u)) : (Action.update f).Innocent s :=
  fun u v outcome hu hrun => by
    cases hrun
    exact ⟨hf u hu, fun _ _ => trivial⟩

theorem pinning (ha : a.Leaves s good) (ids : List Nat) : (pinning ids a).Leaves s good := fun u v outcome hu hrun => by
  obtain ⟨w, hw, rfl⟩ := pinning_cases hrun
  obtain ⟨hstill, hgood⟩ := ha _ w outcome (hu.pinned _) hw
  exact ⟨hstill.pinned _, hgood⟩

theorem ensuring (ha : a.Leaves s good) {finish : Session → Session} (hf : ∀ u, s.Still u → s.Still (finish u)) :
    (a.ensuring finish).Leaves s good := fun u v outcome hu hrun => by
  obtain ⟨w, hw, rfl⟩ := ensuring_cases hrun
  obtain ⟨hstill, hgood⟩ := ha u w outcome hu hw
  exact ⟨hf w hstill, hgood⟩

theorem required {lookup : Session → Option α} (hl : ∀ u, s.Still u → lookup u = lookup s) :
    (required lookup).Leaves s fun value => lookup s = some value := fun u v outcome hu hrun => by
  obtain ⟨rfl, ⟨found, hfound, rfl⟩ | ⟨_, rfl⟩⟩ := required_cases hrun
  · refine ⟨hu, fun value hv => ?_⟩
    cases hv
    exact (hl v hu).symm.trans hfound
  · exact ⟨hu, nofun⟩

theorem sharedRegister (name : String) :
    (sharedRegister name).Leaves s fun id => s.shared.get? name = some id :=
  required fun _ hu => congrArg (·.get? name) hu.shared

/-- What is read of a deque is what it was. -/
theorem readCell (hid : id < s.nextCell) : (readCell id).Leaves s fun cell => (s.cell id).Still cell :=
  fun u v outcome hu hrun => by
    obtain ⟨rfl, ⟨_, rfl⟩ | ⟨_, rfl⟩⟩ := readCell_cases hrun
    · refine ⟨hu, fun cell hc => ?_⟩
      cases hc
      exact hu.cells.2 id hid
    · exact ⟨hu, nofun⟩

theorem mapM {f : α → Action β} {values : List α} (hf : ∀ value ∈ values, (f value).Innocent s) :
    (values.mapM f).Innocent s := by
  induction values with
  | nil => exact done
  | cons value values ih =>
    rw [List.mapM_cons]
    refine (hf value List.mem_cons_self).andThen fun _ => ?_
    exact (ih fun other ho => hf other (List.mem_cons_of_mem _ ho)).andThen fun _ => done

/-! Comparing -/

theorem equalPairs {equal : Element → Element → Action Bool} {as bs : List Element}
    (he : ∀ pair ∈ as.zip bs, (equal pair.1 pair.2).Innocent s) : (equalPairs equal as bs).Innocent s := by
  induction as generalizing bs with
  | nil => exact done
  | cons a as ih =>
    cases bs with
    | nil => exact done
    | cons b bs =>
      refine (he (a, b) List.mem_cons_self).andThen fun same => ?_
      cases same with
      | false => exact done
      | true => exact ih fun pair hp => he pair (List.mem_cons_of_mem _ hp)

theorem equalItems {equal : Element → Element → Action Bool} {as bs : List Element}
    (he : ∀ pair ∈ as.zip bs, (equal pair.1 pair.2).Innocent s) : (equalItems equal as bs).Innocent s := by
  unfold Action.equalItems
  split
  · exact equalPairs he
  · exact done

/-- Whichever deques are compared, also such as were made since. -/
theorem still_equalCells {equal : Element → Element → Action Bool} {a b : Nat} {u v : Session}
    {outcome : Except Interrupt Bool} (hu : s.Still u)
    (he : ∀ pair ∈ (u.cell a).deque.items.zip (u.cell b).deque.items, (equal pair.1 pair.2).Innocent s)
    (h : equalCells equal a b u = (outcome, v)) : s.Still v := by
  unfold Action.equalCells at h
  split at h
  · cases h
    exact hu
  rcases bind_cases h with ⟨_, hleft, _⟩ | ⟨left, w, hleft, h⟩ <;>
    obtain ⟨rfl, ⟨_, hl⟩ | ⟨_, hl⟩⟩ := readCell_cases hleft <;> cases hl
  · exact hu
  rcases bind_cases h with ⟨_, hright, _⟩ | ⟨right, w, hright, h⟩ <;>
    obtain ⟨rfl, ⟨_, hr⟩ | ⟨_, hr⟩⟩ := readCell_cases hright <;> cases hr
  · exact hu
  · exact ((equalItems he).pinning _ _ _ _ hu h).1

theorem equalCells {equal : Element → Element → Action Bool} {a b : Nat} (ha : a < s.nextCell) (hb : b < s.nextCell)
    (he : ∀ pair ∈ (s.cell a).deque.items.zip (s.cell b).deque.items, (equal pair.1 pair.2).Innocent s) :
    (equalCells equal a b).Innocent s := fun u v outcome hu hrun => by
  rw [← (hu.cells.2 a ha).deque, ← (hu.cells.2 b hb).deque] at he
  exact ⟨still_equalCells hu he hrun, fun _ _ => trivial⟩

/-! Searching -/

theorem visit {test : Element → Action Bool} {item : Element} (ht : (test item).Innocent s) (hid : id < s.nextCell)
    (mutations : Nat) : (visit id mutations test item).Innocent s :=
  (ht.pinning _).andThen fun _ => (readCell hid).andThen fun _ => done

/-- Positions that are found are positions of the deque. -/
def Within (length : Nat) (located : Except Refusal (List Nat)) : Prop :=
  ∀ positions, located = .ok positions → ∀ position ∈ positions, position < length

/-- What a search has found is behind the position that it goes on to. -/
theorem lt_of_found {position : Nat} {found : List Nat} (hit : Bool) (hfound : ∀ earlier ∈ found, earlier < position) :
    ∀ earlier ∈ (if hit then position :: found else found), earlier < position + 1 := by
  intro earlier he
  cases hit with
  | false => exact Nat.lt_succ_of_lt (hfound earlier he)
  | true =>
    rcases List.mem_cons.1 he with rfl | he
    · exact Nat.lt_succ_self _
    · exact Nat.lt_succ_of_lt (hfound earlier he)

theorem scanFrom {test : Element → Action Bool} {items : List Element} (ht : ∀ item ∈ items, (test item).Innocent s)
    (hid : id < s.nextCell) (mutations : Nat) (onlyFirst : Bool) {position : Nat} {found : List Nat}
    (hfound : ∀ earlier ∈ found, earlier < position) :
    (scanFrom id mutations test onlyFirst position found items).Leaves s (Within (position + items.length)) := by
  induction items generalizing position found with
  | nil =>
    refine pure fun positions hp earlier he => ?_
    cases hp
    exact hfound earlier (List.mem_reverse.1 he)
  | cons item items ih =>
    refine (visit (ht item List.mem_cons_self) hid mutations).andThen fun visited => ?_
    cases visited with
    | none => exact pure nofun
    | some hit =>
      have hnext := lt_of_found hit hfound
      dsimp only
      split
      · refine pure fun positions hp earlier he => ?_
        cases hp
        have hlt := hnext earlier (List.mem_reverse.1 he)
        rw [List.length_cons]
        omega
      · have hrest := ih (fun other ho => ht other (List.mem_cons_of_mem _ ho)) hnext
        rwa [Nat.add_right_comm, Nat.add_assoc] at hrest

theorem locateShared {m : Meaning} {value : Element} (hid : id < s.nextCell)
    (ht : ∀ item ∈ (s.cell id).deque.items, (m.equal item value).Innocent s) (onlyFirst : Bool) :
    (locateShared m id value onlyFirst).Leaves s (Within (s.cell id).deque.items.length) := by
  refine Leaves.pinning ?_ _
  refine (readCell hid).bind fun cell hcell => ?_
  rw [hcell.deque]
  have hscan : (Action.scanFrom id cell.mutations (fun stored => m.equal stored value) onlyFirst 0 []
      (s.cell id).deque.items).Leaves s (Within (0 + (s.cell id).deque.items.length)) :=
    scanFrom ht hid cell.mutations onlyFirst nofun
  rwa [Nat.zero_add] at hscan

/-! Writing -/

theorem warn (message : String) : (warn message).Innocent s := fun u v outcome hu hrun => by
  cases hrun
  exact ⟨hu.of_cells (Nat.le_refl _) (fun _ _ => ⟨rfl, rfl⟩) rfl rfl rfl rfl, fun _ _ => trivial⟩

theorem writeCell {write : Element → Action String} (hid : id < s.nextCell)
    (hw : ∀ element ∈ (s.cell id).deque.items, (write element).Innocent s) : (writeCell write id).Innocent s := by
  intro u v outcome hu hrun
  have hdeque : (u.cell id).deque = (s.cell id).deque := (hu.cells.2 id hid).deque
  have hitems : (writeItems write (s.cell id).deque).Innocent s := (mapM hw).andThen fun _ => done
  have hmark : (Action.update (mark id)).Innocent s := update fun w hw => hw.putCell ⟨rfl, rfl⟩
  have hend (text : String) : (do
      let after ← Action.readCell id
      if after.mutations ≠ (u.cell id).mutations then Action.warn Warning.changedWhileWritten
      return text : Action String).Innocent s := by
    refine (readCell hid).andThen fun after => ?_
    split
    · exact (warn _).andThen fun _ => done
    · exact done
  by_cases hf : (u.cell id).hold = .free
  · cases hm : (u.cell id).formatting with
    | true =>
      rw [writeCell_of_marked hf hm] at hrun
      cases hrun
      exact ⟨hu, fun _ _ => trivial⟩
    | false =>
      rw [writeCell_of_unmarked hf hm, hdeque] at hrun
      have hbracket := hmark.andThen fun _ => (hitems.pinning (id :: (s.cell id).deque.owners)).ensuring
        fun w hw => hw.unmark id
      exact hbracket.andThen hend u v outcome hu hrun
  · rw [writeCell_of_held hf] at hrun
    cases hrun
    exact ⟨hu, fun _ _ => trivial⟩

end Action.Leaves

end EvictingDeque
