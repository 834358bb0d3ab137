import EvictingDeque.Proofs.Interpreter.Safety
import EvictingDeque.Proofs.Ownership.Living
import Mathlib.Tactic.ByContra

set_option autoImplicit false

/-!
# What keeps a shared deque alive

Between the steps of a run a shared deque is alive if and only if a handle, a cursor, or an owning element refers to
it, where the element is in a register or in a shared deque that is alive itself. The others are those that death has
reached: nothing refers to them but deques that it has reached before.
-/
namespace EvictingDeque

open Action

/-- An owning element of the shared deque, or a nested deque that has one, at whatever depth. -/
inductive Value.Owns (id : Nat) : Element → Prop
  | link {target : Handle} (here : target.cell = id) : Owns id (.link (.own target))
  | nested {d : Deque Element} {element : Element} (inside : element ∈ d.items) (owns : Owns id element) :
      Owns id (.nested d)

def Deque.Owns (d : Deque Element) (id : Nat) : Prop := ∃ element ∈ d.items, element.Owns id

namespace Value

variable {id : Nat}

mutual
theorem owns_of_reference (element : Element) {target : Handle} (h : .own target ∈ element.references) :
    element.Owns target.cell := by
  match element, h with
  | .nested ⟨items, bound⟩, h =>
    obtain ⟨inside, hinside, howns⟩ := owns_of_referenceOfList items h
    exact .nested (d := ⟨items, bound⟩) hinside howns
  | .link source, h =>
    have he : .own target = source := by simpa [references] using h
    subst he
    exact .link rfl
  | .int _, h | .text _, h | .real _, h | .keyed _ _, h => simp [references] at h
termination_by structural element

theorem owns_of_referenceOfList (elements : List Element) {target : Handle}
    (h : .own target ∈ referencesOfList elements) : ∃ element ∈ elements, element.Owns target.cell := by
  match elements, h with
  | [], h => simp [referencesOfList] at h
  | element :: elements, h =>
    rw [referencesOfList, List.mem_append] at h
    rcases h with h | h
    · exact ⟨element, List.mem_cons_self, owns_of_reference element h⟩
    · obtain ⟨inside, hinside, howns⟩ := owns_of_referenceOfList elements h
      exact ⟨inside, List.mem_cons_of_mem _ hinside, howns⟩
termination_by structural elements
end

theorem mem_owners {element : Element} : id ∈ element.owners ↔ element.Owns id := by
  constructor
  · intro h
    obtain ⟨target, hlink, rfl⟩ := mem_owners_iff_own.1 h
    exact owns_of_reference element hlink
  · intro h
    rw [mem_owners_iff_own]
    induction h with
    | @link target here => exact ⟨target, List.mem_singleton_self _, here⟩
    | @nested d element inside owns ih =>
      obtain ⟨target, hlink, here⟩ := ih
      exact ⟨target, mem_referencesOfList.2 ⟨element, inside, hlink⟩, here⟩

end Value

theorem Deque.mem_owners_iff {d : Deque Element} {id : Nat} : id ∈ d.owners ↔ d.Owns id := by
  simp only [Deque.mem_owners, Deque.Owns, Value.mem_owners]

/-! Tables in which no key stands twice -/

namespace Table

variable {κ β : Type} [DecidableEq κ] {table : Table κ β} {key : κ} {value : β}

def Distinct (table : Table κ β) : Prop := (table.entries.map (·.1)).Nodup

omit [DecidableEq κ] in
theorem distinct_empty : (empty : Table κ β).Distinct := List.nodup_nil

theorem Distinct.erase (h : table.Distinct) (key : κ) : (table.erase key).Distinct :=
  h.sublist (List.filter_sublist.map _)

theorem Distinct.put (h : table.Distinct) (key : κ) (value : β) : (table.put key value).Distinct := by
  unfold Distinct
  cases hold : table.get? key with
  | none =>
    have hnew : key ∉ table.entries.map (·.1) := fun hm => by
      obtain ⟨entry, hentry, hkey⟩ := List.mem_map.1 hm
      exact ne_of_get?_none hold entry hentry hkey
    rw [entries_put_of_new hold, List.map_append]
    refine List.nodup_append.2 ⟨h, by simp, fun k hk other ho he => hnew ?_⟩
    cases List.mem_singleton.1 ho
    cases he
    exact hk
  | some old =>
    have hkeys : (table.put key value).entries.map (·.1) = table.entries.map (·.1) :=
      map_putEntries (·.1) hold rfl
    rw [hkeys]
    exact h

theorem Distinct.get?_of_mem (h : table.Distinct) (he : (key, value) ∈ table.entries) :
    table.get? key = some value := by
  obtain ⟨entries⟩ := table
  change getEntries? key entries = some value
  induction entries with
  | nil => cases he
  | cons entry entries ih =>
    obtain ⟨hfirst, hrest⟩ := List.nodup_cons.1 h
    rcases List.mem_cons.1 he with rfl | he
    · exact if_pos rfl
    · have hne : entry.1 ≠ key := fun hk => hfirst (List.mem_map.2 ⟨_, he, hk.symm⟩)
      exact (if_neg hne).trans (ih hrest he)

theorem Distinct.mem_values (h : table.Distinct) : value ∈ table.values ↔ ∃ key, table.get? key = some value := by
  constructor
  · intro hm
    obtain ⟨⟨key, found⟩, hentry, rfl⟩ := List.mem_map.1 hm
    exact ⟨key, h.get?_of_mem hentry⟩
  · rintro ⟨key, hkey⟩
    exact List.mem_map.2 ⟨(key, value), mem_of_getEntries? hkey, rfl⟩

end Table

namespace Session

/-- In none of the tables that keep deques alive a key stands twice. -/
structure Tabled (s : Session) : Prop where
  cells : s.cells.Distinct
  owned : s.owned.Distinct
  shared : s.shared.Distinct
  cursors : s.cursors.Distinct

/-- What refers to a shared deque from outside of all shared deques. -/
inductive Rooted (s : Session) (id : Nat) : Prop
  | handle {name : String} (found : s.shared.get? name = some id) : Rooted s id
  | cursor {name : String} {cursor : Cursor} (found : s.cursors.get? name = some cursor) (here : cursor.cell = id) :
      Rooted s id
  | register {name : String} {d : Deque Element} (found : s.ownedDeque? name = some d) (owns : d.Owns id) : Rooted s id

/-- That, or an owning element in a shared deque that is alive. -/
inductive Referred (s : Session) (id : Nat) : Prop
  | outside (rooted : s.Rooted id) : Referred s id
  | inside {owner : Nat} (living : s.isLiving owner = true) (owns : (s.cell owner).deque.Owns id) : Referred s id

/-- Death goes on from deque to deque: the deque has been made, and nothing refers to it but deques that are dead. -/
inductive Dead (s : Session) : Nat → Prop
  | fades {id : Nat} (known : id < s.nextCell) (unrooted : ¬ s.Rooted id)
      (owners : ∀ owner, (s.cell owner).deque.Owns id → s.Dead owner) : Dead s id

variable {s : Session} {id : Nat}

theorem Dead.known (h : s.Dead id) : id < s.nextCell := by
  cases h
  assumption

theorem Dead.unrooted (h : s.Dead id) : ¬ s.Rooted id := by
  cases h
  assumption

theorem Dead.owner (h : s.Dead id) {owner : Nat} (ho : (s.cell owner).deque.Owns id) : s.Dead owner := by
  cases h with
  | fades _ _ owners => exact owners owner ho

/-- A deque that owns itself does not die. -/
theorem Dead.not_owns_self (h : s.Dead id) : ¬ (s.cell id).deque.Owns id := by
  induction h with
  | fades _ _ _ ih => exact fun howns => ih _ howns howns

/-- Only a deque that has a place has elements. -/
theorem made_of_owns {owner : Nat} (h : (s.cell owner).deque.Owns id) : s.Made owner := by
  obtain ⟨element, hm, _⟩ := h
  unfold Session.cell at hm
  unfold Made
  cases hg : s.cells.get? owner with
  | some memo => rfl
  | none =>
    rw [hg] at hm
    cases hm

theorem Tabled.holding (ht : s.Tabled) {holding : Holding} (h : holding ∈ s.holdings) :
    ∀ other, other ∈ holding.2 ↔ (s.cell holding.1).deque.Owns other := by
  obtain ⟨⟨key, memo⟩, hentry, rfl⟩ := List.mem_map.1 h
  have hcell : s.cell key = memo.value := by simp [Session.cell, ht.cells.get?_of_mem hentry]
  intro other
  dsimp only
  rw [hcell, Memo.result_eq]
  exact Deque.mem_owners_iff

theorem Tabled.mem_roots (ht : s.Tabled) : id ∈ s.roots ↔ s.Rooted id ∨ id ∈ s.pinned := by
  simp only [roots, List.mem_append]
  refine or_congr_left ⟨?_, ?_⟩
  · rintro ((hm | hm) | hm)
    · obtain ⟨name, hname⟩ := ht.shared.mem_values.1 hm
      exact .handle hname
    · obtain ⟨cursor, hcursor, rfl⟩ := List.mem_map.1 hm
      obtain ⟨name, hname⟩ := ht.cursors.mem_values.1 hcursor
      exact .cursor hname rfl
    · obtain ⟨memo, hmemo, howned⟩ := List.mem_flatMap.1 hm
      obtain ⟨name, hname⟩ := ht.owned.mem_values.1 hmemo
      rw [Memo.result_eq] at howned
      have hd : s.ownedDeque? name = some memo.value := by simp [ownedDeque?, hname]
      exact .register hd (Deque.mem_owners_iff.1 howned)
  · rintro (hname | ⟨hname, here⟩ | ⟨hname, howns⟩)
    · exact .inl (.inl (ht.shared.mem_values.2 ⟨_, hname⟩))
    · exact .inl (.inr (List.mem_map.2 ⟨_, ht.cursors.mem_values.2 ⟨_, hname⟩, here⟩))
    · obtain ⟨memo, hmemo, rfl⟩ := Option.map_eq_some_iff.1 hname
      refine .inr (List.mem_flatMap.2 ⟨memo, ht.owned.mem_values.2 ⟨_, hmemo⟩, ?_⟩)
      rw [Memo.result_eq]
      exact Deque.mem_owners_iff.2 howns

/-- What is alive is a root or owned by what is alive. -/
theorem Tabled.referred_of_living (ht : s.Tabled) (h : s.isLiving id = true) : s.Referred id ∨ id ∈ s.pinned := by
  rcases mem_referred.1 (referred_of_isLiving h) with hr | ⟨holding, hm, howned⟩
  · exact (ht.mem_roots.1 hr).imp_left .outside
  · have hlives : s.isLiving holding.1 = true := isLiving_iff.2 (.inr ⟨holding, hm, rfl⟩)
    exact .inl (.inside hlives ((ht.holding (strike_subset _ _ _ hm) id).1 howned))

/-- Whoever owns something has been made. -/
def Bounded (s : Session) : Prop := ∀ owner, (s.cell owner).deque.items ≠ [] → owner < s.nextCell

/-- Nothing is in progress: all deques have their places, and none is kept alive for a while. -/
structure Settled (s : Session) : Prop extends s.Tabled, s.Released where
  bounded : s.Bounded
  pinned : s.pinned = []

theorem Bounded.owner (h : s.Bounded) {owner : Nat} (ho : (s.cell owner).deque.Owns id) : owner < s.nextCell := by
  obtain ⟨element, hm, _⟩ := ho
  exact h owner (List.ne_nil_of_mem hm)

theorem Settled.isLiving_iff (hs : s.Settled) (hid : id < s.nextCell) : s.isLiving id = true ↔ s.Referred id := by
  constructor
  · intro h
    rcases hs.toTabled.referred_of_living h with hr | hp
    · exact hr
    · rw [hs.pinned] at hp
      cases hp
  · rintro (hrooted | ⟨hlives, howns⟩)
    · exact Session.isLiving_iff.2 (.inl (hs.toTabled.mem_roots.2 (.inl hrooted)))
    · exact isLiving_of_owner (made_of_owns howns) hlives (Deque.mem_owners_iff.2 howns) (hs.made id hid)

open Classical in
/-- The deques that death has not reached support each other, as far as nothing refers to them from outside. -/
theorem Settled.supported (hs : s.Settled) :
    Supported s.roots (s.holdings.filter fun holding => holding.1 < s.nextCell ∧ ¬ s.Dead holding.1) := by
  intro holding hm
  obtain ⟨hin, hlives⟩ := List.mem_filter.1 hm
  obtain ⟨hknown, hlives⟩ := of_decide_eq_true hlives
  by_contra hunreferred
  rw [mem_referred, not_or] at hunreferred
  refine hlives (.fades hknown (fun hr => hunreferred.1 (hs.toTabled.mem_roots.2 (.inl hr))) fun owner howns => ?_)
  by_contra howner
  refine hunreferred.2 ⟨(owner, (s.cell owner).owners), ?_, Deque.mem_owners_iff.2 howns⟩
  exact List.mem_filter.2 ⟨mem_holdings (made_of_owns howns), decide_eq_true ⟨hs.bounded.owner howns, howner⟩⟩

/-- A deque is not alive if and only if death has reached it. -/
theorem Settled.dead_iff (hs : s.Settled) (hid : id < s.nextCell) : s.isLiving id = false ↔ s.Dead id := by
  classical
  constructor
  · intro h
    by_contra hlives
    have hholding : (id, (s.cell id).owners) ∈
        s.holdings.filter fun holding => holding.1 < s.nextCell ∧ ¬ s.Dead holding.1 :=
      List.mem_filter.2 ⟨mem_holdings (hs.made id hid), decide_eq_true ⟨hid, hlives⟩⟩
    have hsurvives : _ ∈ s.survivors := subset_strike hs.supported _ (fun _ hm => (List.mem_filter.1 hm).1) hholding
    exact Bool.eq_false_iff.1 h (Session.isLiving_iff.2 (.inr ⟨_, hsurvives, rfl⟩))
  · intro h
    induction h with
    | fades known unrooted owners ih =>
      refine Bool.eq_false_iff.2 fun hlives => ?_
      rcases (hs.isLiving_iff known).1 hlives with hrooted | ⟨howner, howns⟩
      · exact unrooted hrooted
      · exact Bool.eq_false_iff.1 (ih _ howns (owners _ howns).known) howner

/-- The deaths of a session from its roots and from what its deques own. -/
theorem Settled.dead_of_holdings (hs : s.Settled) (hid : id < s.nextCell) (hroots : id ∉ s.roots)
    (howners : ∀ holding ∈ s.holdings, id ∈ holding.2 → s.Dead holding.1) : s.Dead id := by
  refine .fades hid (fun hr => hroots (hs.toTabled.mem_roots.2 (.inl hr))) fun owner howns => ?_
  exact howners _ (mem_holdings (made_of_owns howns)) (Deque.mem_owners_iff.2 howns)

/-! Elements are put only into deques that have been made -/

theorem Bounded.of_cells {s t : Session} (h : s.Bounded) (hn : s.nextCell ≤ t.nextCell)
    (hc : ∀ other, (t.cell other).deque = (s.cell other).deque) : t.Bounded := fun owner ho =>
  Nat.lt_of_lt_of_le (h owner (hc owner ▸ ho)) hn

theorem Bounded.putCell {s : Session} (h : s.Bounded) (hid : id < s.nextCell) (cell : Cell Element) :
    (s.putCell id cell).Bounded := by
  intro owner ho
  by_cases he : id = owner
  · exact he ▸ hid
  · rw [cell_putCell_of_ne s he] at ho
    exact h owner ho

theorem deque_putCell_same (s : Session) {cell : Cell Element} (hc : cell.deque = (s.cell id).deque) (other : Nat) :
    ((s.putCell id cell).cell other).deque = (s.cell other).deque := by
  by_cases he : id = other
  · subst he
    rw [cell_putCell_self]
    exact hc
  · rw [cell_putCell_of_ne s he]

theorem deque_unmark (s : Session) (id other : Nat) : ((unmark id s).cell other).deque = (s.cell other).deque := by
  unfold unmark
  split
  · refine deque_putCell_same s ?_ other
    rfl
  · rfl

def bounding : Course where
  calm _ := True
  rel s t := orderly.rel s t ∧ (s.Bounded → t.Bounded)
  refl s := ⟨orderly.refl s, fun h => h⟩
  trans hst htu := ⟨orderly.trans hst.1 htu.1, fun h => htu.2 (hst.2 h)⟩
  hold hst := orderly.hold hst.1
  beside hst := ⟨orderly.beside hst, fun h =>
    h.of_cells (Nat.le_of_eq hst.nextCell.symm) fun _ => congrArg Cell.deque (cell_of_cells hst.cells _)⟩
  created {s} d hs := by
    refine ⟨orderly.created d hs, fun h owner ho => ?_⟩
    by_cases he : s.nextCell = owner
    · exact he ▸ Nat.lt_succ_self _
    · have hcell : ({ s.putCell s.nextCell (.fresh d) with nextCell := s.nextCell + 1 } : Session).cell owner =
          s.cell owner := cell_putCell_of_ne s he _
      rw [hcell] at ho
      exact Nat.lt_succ_of_lt (h owner ho)
  edited id change hs hid hf := ⟨orderly.edited id change hs hid hf, fun h => h.putCell hid _⟩
  removed id position hs hid hf := ⟨orderly.removed id position hs hid hf, fun h => h.putCell hid _⟩
  started name id hs hid ha := ⟨orderly.started name id hs hid ha, fun h => h.of_cells (Nat.le_refl _) fun _ => rfl⟩
  advanced name cursor hs hc ha :=
    ⟨orderly.advanced name cursor hs hc ha, fun h => h.of_cells (Nat.le_refl _) fun _ => rfl⟩
  drained name cursor hs hc ha :=
    ⟨orderly.drained name cursor hs hc ha, fun h => h.of_cells (Nat.le_refl _) fun _ => rfl⟩
  dropped name hs := ⟨orderly.dropped name hs, fun h => h.of_cells (Nat.le_refl _) fun _ => rfl⟩
  written {s t} id hs hf hu hst := by
    refine ⟨orderly.written id hs hf hu hst.1, fun h => ?_⟩
    have hmarked := hst.2 (h.of_cells (Nat.le_refl _) (deque_putCell_same s rfl))
    exact hmarked.of_cells (Nat.le_of_eq (nextCell_unmark id t).symm) (deque_unmark t id)
  read {s t} id hs ha hst := by
    refine ⟨orderly.read id hs ha hst.1, fun h => ?_⟩
    have hheld := hst.2 (h.of_cells (Nat.le_refl _) (deque_putCell_same s rfl))
    exact hheld.of_cells (Nat.le_refl _) (deque_putCell_same t rfl)
  atHand id after hs hid he hd hst := ⟨orderly.atHand id hs hid he hd hst.1, fun h =>
    (hst.2 h).putCell (Nat.lt_of_lt_of_le hid hst.1.1) _⟩
  changed {s t} id hs hid hf hst := by
    refine ⟨orderly.changed id hs hid hf hst.1, fun h => ?_⟩
    have hheld := hst.2 (h.putCell hid _)
    exact (hheld.putCell (Nat.lt_of_lt_of_le hid hst.1.1) _).putCell (Nat.lt_of_lt_of_le hid hst.1.1) _
  cut {s t} id cause hc hs hid hf hst := by
    refine ⟨orderly.cut id cause hc hs hid hf hst.1, fun h => ?_⟩
    have hheld := hst.2 (h.putCell hid _)
    exact hheld.of_cells (Nat.le_refl _) (deque_putCell_same (t.note (.cutShort id)) rfl)

theorem bounded_endOf (hooks : List (String × Hook)) (environment : Option String) (depth : Nat) (steps : List Step) :
    (endOf (Meaning.upTo depth) steps (start hooks environment)).Bounded :=
  (Course.endOf (C := bounding) (fun _ => trivial) (proper_start hooks environment) depth steps).2.2
    fun _ ho => absurd rfl ho

end Session

end EvictingDeque
