import EvictingDeque.Proofs.Ownership.Shunning
import EvictingDeque.Proofs.Plain.Model

set_option autoImplicit false

/-!
# Actions that shun the dead

Writing, comparing and searching, if the elements that they are given own nothing that was dead. Sequencing and brackets
keep that up, and what an action hands on is of the same sort.
-/
namespace EvictingDeque

/-- Begun where nothing leads to what was dead in the first session, the action ends so, keeps nothing else alive than
before, and answers something good. -/
def Action.Shuns {α : Type} (base : Session) (good : α → Prop) (action : Action α) : Prop :=
  ∀ (s t : Session) (outcome : Except Interrupt α), s.Shuns base → action s = (outcome, t) →
    (t.Shuns base ∧ t.pinned = s.pinned) ∧ ∀ value, outcome = .ok value → good value

/-- A meaning that shuns the dead wherever the elements that it is given do. -/
structure Meaning.Shuns (m : Meaning) (base : Session) : Prop where
  write : ∀ element : Element, element.Shuns base → (m.write element).Shuns base fun _ => True
  equal : ∀ a b : Element, a.Shuns base → b.Shuns base → (m.equal a b).Shuns base fun _ => True
  perform : ∀ step, (m.perform step).Shuns base fun _ => True

namespace Action

variable {base : Session} {α β : Type} {good : α → Prop} {better : β → Prop}

theorem Shuns.pure {value : α} (h : good value) : (Pure.pure value : Action α).Shuns base good :=
  fun s t outcome hs hrun => by
    cases hrun
    refine ⟨⟨hs, rfl⟩, fun found hf => ?_⟩
    cases hf
    exact h

theorem Shuns.done {value : α} : (Pure.pure value : Action α).Shuns base fun _ => True := Shuns.pure trivial

theorem Shuns.interrupt (cause : Interrupt) : (interrupt cause : Action α).Shuns base good :=
  fun s t outcome hs hrun => by
    cases hrun
    exact ⟨⟨hs, rfl⟩, nofun⟩

theorem Shuns.bind {a : Action α} {f : α → Action β} (ha : a.Shuns base good)
    (hf : ∀ value, good value → (f value).Shuns base better) : (a >>= f).Shuns base better :=
  fun s t outcome hs hrun => by
    rcases bind_cases hrun with ⟨cause, hfirst, rfl⟩ | ⟨value, u, hfirst, hnext⟩
    · exact ⟨(ha s t _ hs hfirst).1, nofun⟩
    · obtain ⟨⟨hu, hpu⟩, hv⟩ := ha s u _ hs hfirst
      obtain ⟨⟨ht, hpt⟩, hw⟩ := hf value (hv value rfl) u t outcome hu hnext
      exact ⟨⟨ht, hpt.trans hpu⟩, hw⟩

theorem Shuns.then {a : Action α} {f : α → Action β} (ha : a.Shuns base fun _ => True)
    (hf : ∀ value, (f value).Shuns base better) : (a >>= f).Shuns base better :=
  ha.bind fun value _ => hf value

theorem Shuns.read {f : Session → α} (hg : ∀ s : Session, s.Shuns base → good (f s)) : (read f).Shuns base good :=
  fun s t outcome hs hrun => by
    cases hrun
    refine ⟨⟨hs, rfl⟩, fun found hf => ?_⟩
    cases hf
    exact hg s hs

theorem Shuns.update {f : Session → Session}
    (hf : ∀ s : Session, s.Shuns base → (f s).Shuns base ∧ (f s).pinned = s.pinned) :
    (update f).Shuns base fun _ => True :=
  fun s t outcome hs hrun => by
    cases hrun
    exact ⟨hf s hs, fun _ _ => trivial⟩

theorem Shuns.ensuring {a : Action α} {f : Session → Session} (ha : a.Shuns base good)
    (hf : ∀ s : Session, s.Shuns base → (f s).Shuns base ∧ (f s).pinned = s.pinned) :
    (a.ensuring f).Shuns base good :=
  fun s t outcome hs hrun => by
    obtain ⟨u, hu, rfl⟩ := ensuring_cases hrun
    obtain ⟨⟨hshuns, hpinned⟩, hgood⟩ := ha s u outcome hs hu
    exact ⟨⟨(hf u hshuns).1, (hf u hshuns).2.trans hpinned⟩, hgood⟩

theorem Shuns.recovering {a : Action α} {f : Session → Session} (ha : a.Shuns base good)
    (hf : ∀ s : Session, s.Shuns base → (f s).Shuns base ∧ (f s).pinned = s.pinned) :
    (a.recovering f).Shuns base good :=
  fun s t outcome hs hrun => by
    obtain ⟨value, hok, rfl⟩ | ⟨cause, u, herror, rfl, rfl⟩ := recovering_cases hrun
    · exact ha s t _ hs hok
    · obtain ⟨hshuns, hpinned⟩ := (ha s u _ hs herror).1
      exact ⟨⟨(hf u hshuns).1, (hf u hshuns).2.trans hpinned⟩, nofun⟩

theorem Shuns.pinning {a : Action α} (ha : a.Shuns base good) {ids : List Nat} (hids : ∀ id ∈ ids, ¬ base.Dead id) :
    (pinning ids a).Shuns base good :=
  fun s t outcome hs hrun => by
    obtain ⟨u, hu, rfl⟩ := pinning_cases hrun
    have hpins : ∀ id ∈ ids ++ s.pinned, ¬ base.Dead id := fun id hid =>
      (List.mem_append.1 hid).elim (hids id) (hs.pinned id)
    obtain ⟨⟨hshuns, _⟩, hgood⟩ := ha _ u outcome (hs.with_pinned hpins) hu
    exact ⟨⟨hshuns.with_pinned hs.pinned, rfl⟩, hgood⟩

theorem Shuns.required {lookup : Session → Option α}
    (hg : ∀ (s : Session) value, s.Shuns base → lookup s = some value → good value) :
    (required lookup).Shuns base good :=
  fun s t outcome hs hrun => by
    obtain ⟨rfl, ⟨value, hl, rfl⟩ | ⟨_, rfl⟩⟩ := required_cases hrun
    · refine ⟨⟨hs, rfl⟩, fun found hf => ?_⟩
      cases hf
      exact hg t _ hs hl
    · exact ⟨⟨hs, rfl⟩, fun _ hf => by cases hf⟩

theorem shuns_ownedRegister (name : String) : (ownedRegister name).Shuns base fun d => d.Shuns base :=
  Shuns.required fun _ d hs hd => hs.registers name d hd

theorem shuns_sharedRegister (name : String) : (sharedRegister name).Shuns base fun id => ¬ base.Dead id :=
  Shuns.required fun _ id hs hid => hs.handles name id hid

theorem shuns_readCell {id : Nat} (hid : ¬ base.Dead id) : (readCell id).Shuns base fun cell => cell.deque.Shuns base :=
  fun s t outcome hs hrun => by
    obtain ⟨rfl, ⟨_, rfl⟩ | ⟨_, rfl⟩⟩ := readCell_cases hrun
    · refine ⟨⟨hs, rfl⟩, fun cell hc => ?_⟩
      cases hc
      exact hs.deques id hid
    · exact ⟨⟨hs, rfl⟩, nofun⟩

theorem shuns_changeCell {id : Nat} (hid : ¬ base.Dead id) {change : Cell Element → α × Cell Element}
    (hc : ∀ cell : Cell Element, cell.deque.Shuns base → (change cell).2.deque.Shuns base) :
    (changeCell id change).Shuns base fun _ => True :=
  fun s t outcome hs hrun => by
    obtain ⟨_, _, rfl⟩ | ⟨_, _, rfl⟩ := changeCell_cases hrun
    · exact ⟨⟨hs.putCell hid (hc _ (hs.deques id hid)), rfl⟩, fun _ _ => trivial⟩
    · exact ⟨⟨hs, rfl⟩, fun _ _ => trivial⟩

theorem shuns_newCell {d : Deque Element} (hd : d.Shuns base) : (newCell d).Shuns base fun id => ¬ base.Dead id :=
  fun s t outcome hs hrun => by
    cases hrun
    refine ⟨⟨hs.newCell hd, rfl⟩, fun id hid => ?_⟩
    cases hid
    exact hs.fresh

theorem shuns_setOwned {d : Deque Element} (hd : d.Shuns base) (name : String) :
    (setOwned name d).Shuns base fun _ => True :=
  Shuns.update fun _ hs => ⟨hs.putOwned hd name, rfl⟩

theorem shuns_setShared {id : Nat} (hid : ¬ base.Dead id) (name : String) :
    (setShared name id).Shuns base fun _ => True :=
  Shuns.update fun _ hs => ⟨hs.putShared hid name, rfl⟩

theorem shuns_warn (message : String) : (warn message).Shuns base fun _ => True :=
  fun s t outcome hs hrun => by
    cases hrun
    exact ⟨⟨hs.of_same rfl rfl rfl rfl rfl hs.pinned, rfl⟩, fun _ _ => trivial⟩

theorem shuns_mapM {f : α → Action β} {as : List α} (hf : ∀ a ∈ as, (f a).Shuns base better) :
    (as.mapM f).Shuns base fun values => ∀ value ∈ values, better value := by
  induction as with
  | nil => exact Shuns.pure fun _ h => absurd h List.not_mem_nil
  | cons a as ih =>
    rw [List.mapM_cons]
    refine (hf a List.mem_cons_self).bind fun first hfirst => ?_
    refine (ih fun other ho => hf other (List.mem_cons_of_mem _ ho)).bind fun rest hrest => ?_
    exact Shuns.pure fun value hv => (List.mem_cons.1 hv).elim (fun he => he ▸ hfirst) (hrest value)

/-! Writing -/

theorem shuns_writeItems {write : Element → Action String} {d : Deque Element}
    (hw : ∀ element : Element, element.Shuns base → (write element).Shuns base fun _ => True) (hd : d.Shuns base) :
    (writeItems write d).Shuns base fun _ => True :=
  (shuns_mapM fun element he => hw element (hd element he)).bind fun _ _ => Shuns.done

theorem shuns_mark {id : Nat} (hid : ¬ base.Dead id) {s : Session} (hs : s.Shuns base) :
    (mark id s).Shuns base ∧ (mark id s).pinned = s.pinned :=
  ⟨hs.putCell hid (hs.deques id hid), rfl⟩

theorem shuns_unmark {id : Nat} (hid : ¬ base.Dead id) {s : Session} (hs : s.Shuns base) :
    (unmark id s).Shuns base ∧ (unmark id s).pinned = s.pinned := by
  unfold unmark
  split
  · exact ⟨hs.putCell hid (hs.deques id hid), rfl⟩
  · exact ⟨hs, rfl⟩

theorem shuns_setHold {id : Nat} (hid : ¬ base.Dead id) (hold : Hold → Hold) {s : Session} (hs : s.Shuns base) :
    (setHold id hold s).Shuns base ∧ (setHold id hold s).pinned = s.pinned :=
  ⟨hs.putCell hid (hs.deques id hid), rfl⟩

theorem shuns_writeCell {write : Element → Action String} {id : Nat} (hid : ¬ base.Dead id)
    (hw : ∀ element : Element, element.Shuns base → (write element).Shuns base fun _ => True) :
    (writeCell write id).Shuns base fun _ => True := by
  intro s t outcome hs hrun
  unfold writeCell at hrun
  dsimp only at hrun
  split at hrun
  · cases hrun
    exact ⟨⟨hs, rfl⟩, fun _ _ => trivial⟩
  split at hrun
  · cases hrun
    exact ⟨⟨hs, rfl⟩, fun _ _ => trivial⟩
  -- the deque is written as it stands now, whatever it becomes meanwhile
  have hd : (s.cell id).deque.Shuns base := hs.deques id hid
  have hpins : ∀ other ∈ id :: (s.cell id).deque.owners, ¬ base.Dead other := fun other ho =>
    (List.mem_cons.1 ho).elim (fun he => he ▸ hid) (hd.owners other)
  have hwriting : (do
      update (mark id)
      (pinning (id :: (s.cell id).deque.owners) (writeItems write (s.cell id).deque)).ensuring (unmark id) :
      Action String).Shuns base fun _ => True :=
    (Shuns.update fun _ hu => shuns_mark hid hu).then fun _ =>
      ((shuns_writeItems hw hd).pinning hpins).ensuring fun _ hu => shuns_unmark hid hu
  refine hwriting.then (fun text => (shuns_readCell hid).bind fun after _ => ?_) s t outcome hs hrun
  split
  · exact (shuns_warn _).then fun _ => Shuns.done
  · exact Shuns.done

/-! Hooks -/

variable {m : Meaning}

theorem shuns_runScript (hm : m.Shuns base) (id : String) (steps : List Step) :
    (Hook.runScript m id steps).Shuns base fun _ => True := by
  induction steps with
  | nil => exact Shuns.done
  | cons step steps ih =>
    refine (hm.perform step).then fun answer => Shuns.then (Shuns.update fun s hs => ?_) fun _ => ih
    exact ⟨hs.of_same rfl rfl rfl rfl rfl hs.pinned, rfl⟩

theorem shuns_act (hm : m.Shuns base) (id : String) (script : Hook → List Step) :
    (Hook.act m id script).Shuns base fun _ => True := by
  intro s t outcome hs hrun
  unfold Hook.act at hrun
  dsimp only at hrun
  split at hrun
  · cases hrun
    exact ⟨⟨hs, rfl⟩, fun _ _ => trivial⟩
  · let used : Hook := { s.hook id with times := (s.hook id).times.map (· - 1) }
    have hused : ({ s with hooks := s.hooks.put id used } : Session).Shuns base :=
      hs.of_same rfl rfl rfl rfl rfl hs.pinned
    exact shuns_runScript hm id (script (s.hook id)) { s with hooks := s.hooks.put id used } t outcome hused hrun

/-- A weak reference is followed only to what is alive. -/
theorem shuns_writeElement (hm : m.Shuns base) {element : Element} (he : element.Shuns base) :
    (m.writeElement element).Shuns base fun _ => True := by
  cases element with
  | nested d => exact shuns_writeItems hm.write he.of_nested
  | link link =>
    cases link with
    | own target => exact shuns_writeCell he.of_own hm.write
    | weak target =>
      intro s t outcome hs hrun
      have hstart := (bind_ok (read_apply (·.isLiving target.cell) s)).symm.trans hrun
      cases hl : s.isLiving target.cell with
      | false =>
        rw [hl] at hstart
        cases hstart
        exact ⟨⟨hs, rfl⟩, fun _ _ => trivial⟩
      | true =>
        rw [hl] at hstart
        exact shuns_writeCell (hs.alive hl) hm.write s t outcome hs hstart
    | hook id => exact (shuns_act hm id _).then fun _ => Shuns.read fun _ _ => trivial
  | _ => exact Shuns.done

/-! Comparing -/

theorem shuns_equalPairs (hm : m.Shuns base) {as bs : List Element} (ha : ∀ a ∈ as, a.Shuns base)
    (hb : ∀ b ∈ bs, b.Shuns base) : (equalPairs m.equal as bs).Shuns base fun _ => True := by
  induction as generalizing bs with
  | nil => exact Shuns.done
  | cons a as ih =>
    cases bs with
    | nil => exact Shuns.done
    | cons b bs =>
      refine (hm.equal a b (ha a List.mem_cons_self) (hb b List.mem_cons_self)).then fun same => ?_
      cases same with
      | false => exact Shuns.done
      | true =>
        exact ih (fun other ho => ha other (List.mem_cons_of_mem _ ho)) fun other ho =>
          hb other (List.mem_cons_of_mem _ ho)

theorem shuns_equalItems (hm : m.Shuns base) {d e : Deque Element} (hd : d.Shuns base) (he : e.Shuns base) :
    (equalItems m.equal d.items e.items).Shuns base fun _ => True := by
  unfold equalItems
  split
  · exact shuns_equalPairs hm hd he
  · exact Shuns.done

theorem shuns_equalCells (hm : m.Shuns base) {a b : Nat} (ha : ¬ base.Dead a) (hb : ¬ base.Dead b) :
    (equalCells m.equal a b).Shuns base fun _ => True := by
  unfold equalCells
  split
  · exact Shuns.done
  · refine (shuns_readCell ha).bind fun left hleft => (shuns_readCell hb).bind fun right hright => ?_
    refine (shuns_equalItems hm hleft hright).pinning fun id hid => ?_
    simp only [List.cons_append, List.mem_cons, List.mem_append] at hid
    rcases hid with rfl | rfl | hid | hid
    · exact ha
    · exact hb
    · exact hleft.owners id hid
    · exact hright.owners id hid

theorem shuns_equalElements (hm : m.Shuns base) {a b : Element} (ha : a.Shuns base) (hb : b.Shuns base) :
    (m.equalElements a b).Shuns base fun _ => True := by
  unfold Meaning.equalElements
  split
  · exact (shuns_act hm _ _).then fun _ => Shuns.read fun _ _ => trivial
  · exact shuns_equalItems hm ha.of_nested hb.of_nested
  · exact shuns_equalCells hm ha.of_own hb.of_own
  · split
    · exact Shuns.read fun _ _ => trivial
    · exact Shuns.done
  · exact Shuns.done

/-! Searching -/

variable {test : Element → Action Bool} {items : List Element} {value : Element}

theorem shuns_positionsFrom (ht : ∀ item ∈ items, (test item).Shuns base fun _ => True) (onlyFirst : Bool)
    (position : Nat) (found : List Nat) :
    (positionsFrom test onlyFirst position found items).Shuns base fun _ => True := by
  induction items generalizing position found with
  | nil => exact Shuns.done
  | cons item items ih =>
    refine (ht item List.mem_cons_self).then fun hit => ?_
    dsimp only
    split
    · exact Shuns.done
    · exact ih (fun other ho => ht other (List.mem_cons_of_mem _ ho)) _ _

theorem shuns_scanFrom {id : Nat} (hid : ¬ base.Dead id) (hi : ∀ item ∈ items, item.Shuns base)
    (ht : ∀ item ∈ items, (test item).Shuns base fun _ => True) (mutations : Nat) (onlyFirst : Bool) (position : Nat)
    (found : List Nat) : (scanFrom id mutations test onlyFirst position found items).Shuns base fun _ => True := by
  induction items generalizing position found with
  | nil => exact Shuns.done
  | cons item items ih =>
    have hvisit : (visit id mutations test item).Shuns base fun _ => True :=
      ((ht item List.mem_cons_self).pinning (hi item List.mem_cons_self).owners).then fun _ =>
        (shuns_readCell hid).bind fun _ _ => Shuns.done
    refine hvisit.then fun seen => ?_
    cases seen with
    | none => exact Shuns.done
    | some hit =>
      dsimp only
      split
      · exact Shuns.done
      · exact ih (fun other ho => hi other (List.mem_cons_of_mem _ ho))
          (fun other ho => ht other (List.mem_cons_of_mem _ ho)) _ _

theorem shuns_locateIn (hm : m.Shuns base) (hi : ∀ item ∈ items, item.Shuns base) (hv : value.Shuns base)
    (onlyFirst : Bool) : (locateIn m items value onlyFirst).Shuns base fun _ => True :=
  Shuns.pinning ((shuns_positionsFrom (fun item hm' => hm.equal item value (hi item hm') hv) _ _ _).then fun _ =>
    Shuns.done) hv.owners

theorem shuns_locateShared (hm : m.Shuns base) {id : Nat} (hid : ¬ base.Dead id) (hv : value.Shuns base)
    (onlyFirst : Bool) : (locateShared m id value onlyFirst).Shuns base fun _ => True := by
  refine Shuns.pinning ((shuns_readCell hid).bind fun cell hcell => ?_) fun other ho => ?_
  · exact shuns_scanFrom hid hcell (fun item hitem => hm.equal item value (hcell item hitem) hv) _ _ _ _
  · exact (List.mem_cons.1 ho).elim (fun he => he ▸ hid) (hv.owners other)

theorem shuns_runQuery {contents : Action (Deque Element)} {locate : Locate} {query : Query Element}
    (hc : contents.Shuns base fun _ => True)
    (hl : ∀ value ∈ query.sought, ∀ onlyFirst, (locate value onlyFirst).Shuns base fun _ => True) :
    (runQuery contents locate query).Shuns base fun _ => True := by
  cases query with
  | get position => exact hc.then fun _ => Shuns.done
  | toList => exact hc.then fun _ => Shuns.done
  | count value => exact (hl value List.mem_cons_self false).then fun _ => Shuns.done
  | contains value =>
    refine (hl value List.mem_cons_self true).then fun located => ?_
    cases located <;> exact Shuns.done
  | index value => exact (hl value List.mem_cons_self true).then fun _ => Shuns.done

end Action

end EvictingDeque
