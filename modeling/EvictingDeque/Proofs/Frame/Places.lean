import EvictingDeque.Proofs.Mutations.Counted

set_option autoImplicit false

/-!
# Where actions make a difference

A session keeps what it has in places: shared deques with their counts, the deques of registers, what handles and weak
handles refer to, and cursors. An action stays within some places if it leaves everything else as it was, however it
ends. Comparing, writing and searching stay within no place at all where no element acts, since every mark that is
set is taken away again.
-/
namespace EvictingDeque

open Action

inductive Place where
  | cell (id : Nat)
  | register (name : String)
  | handle (name : String)
  | weak (name : String)
  | cursor (name : String)
deriving DecidableEq, Repr

namespace Session

/-- The place holds in the second session what it held in the first. -/
def SameAt (s t : Session) : Place → Prop
  | .cell id => t.cell id = s.cell id
  | .register name => t.ownedDeque? name = s.ownedDeque? name
  | .handle name => t.shared.get? name = s.shared.get? name
  | .weak name => t.weak.get? name = s.weak.get? name
  | .cursor name => t.cursors.get? name = s.cursors.get? name

/-- The place is one that the session has: shared deques have to be made, names are always there. -/
def HasPlace (s : Session) : Place → Prop
  | .cell id => id < s.nextCell
  | _ => True

/-- The second session has the hooks of the first, and differs in no place of the first but these. -/
structure Differ (places : List Place) (s t : Session) : Prop where
  limit : s.nextCell ≤ t.nextCell
  hooks : t.hooks = s.hooks
  elsewhere : ∀ place, s.HasPlace place → place ∉ places → s.SameAt t place

variable {s t u : Session} {places : List Place}

theorem SameAt.trans {place : Place} (hst : s.SameAt t place) (htu : t.SameAt u place) : s.SameAt u place := by
  cases place <;> exact Eq.trans htu hst

theorem HasPlace.mono {place : Place} (h : s.HasPlace place) (hn : s.nextCell ≤ t.nextCell) : t.HasPlace place := by
  cases place with
  | cell id => exact Nat.lt_of_lt_of_le h hn
  | _ => trivial

namespace Differ

theorem mono {more : List Place} (h : Differ places s t) (hp : places ⊆ more) : Differ more s t :=
  ⟨h.limit, h.hooks, fun place hr hm => h.elsewhere place hr fun hmem => hm (hp hmem)⟩

theorem trans (hst : Differ places s t) (htu : Differ places t u) : Differ places s u where
  limit := Nat.le_trans hst.limit htu.limit
  hooks := htu.hooks.trans hst.hooks
  elsewhere place hr hm :=
    (hst.elsewhere place hr hm).trans (htu.elsewhere place (hr.mono hst.limit) hm)

/-- What else a session has is in no place. -/
theorem of_apart (h : Session.Apart s t) (hh : t.hooks = s.hooks) : Differ places s t where
  limit := Nat.le_of_eq h.nextCell.symm
  hooks := hh
  elsewhere place _ _ := by
    cases place with
    | cell id => exact cell_of_cells h.cells id
    | register name => exact congrArg (fun owned => (Table.get? owned name).map (·.value)) h.owned
    | handle name => exact congrArg (·.get? name) h.shared
    | weak name => exact congrArg (·.get? name) h.weak
    | cursor name => exact congrArg (·.get? name) h.cursors

theorem refl (s : Session) : Differ places s s := of_apart ⟨⟨rfl, rfl, rfl, rfl⟩, rfl, rfl, rfl⟩ rfl

theorem putCell (s : Session) (id : Nat) (cell : Cell Element) : Differ [.cell id] s (s.putCell id cell) where
  limit := Nat.le_refl _
  hooks := rfl
  elsewhere place _ hm := by
    cases place with
    | cell other => exact cell_putCell_of_ne s (fun he : id = other => hm (he ▸ List.mem_cons_self)) cell
    | _ => rfl

theorem created (s : Session) (d : Deque Element) :
    Differ places s { s.putCell s.nextCell (.fresh d) with nextCell := s.nextCell + 1 } where
  limit := Nat.le_succ _
  hooks := rfl
  elsewhere place hr _ := by
    cases place with
    | cell id => exact cell_putCell_of_ne s (Nat.ne_of_gt hr) _
    | _ => rfl

theorem putOwned (s : Session) (name : String) (d : Deque Element) : Differ [.register name] s (putOwned name d s) where
  limit := Nat.le_refl _
  hooks := rfl
  elsewhere place _ hm := by
    cases place with
    | register other =>
      have hne : name ≠ other := fun he => hm (he ▸ List.mem_cons_self)
      simp only [SameAt, ownedDeque?, Action.putOwned, Table.get?_put_of_ne _ hne]
    | _ => rfl

theorem putShared (s : Session) (name : String) (id : Nat) :
    Differ [.handle name] s { s with shared := s.shared.put name id } where
  limit := Nat.le_refl _
  hooks := rfl
  elsewhere place _ hm := by
    cases place with
    | handle other => exact Table.get?_put_of_ne _ (fun he : name = other => hm (he ▸ List.mem_cons_self)) id
    | _ => rfl

theorem eraseShared (s : Session) (name : String) :
    Differ [.handle name] s { s with shared := s.shared.erase name } where
  limit := Nat.le_refl _
  hooks := rfl
  elsewhere place _ hm := by
    cases place with
    | handle other => exact (Table.get?_erase ..).trans (if_neg fun he : name = other => hm (he ▸ List.mem_cons_self))
    | _ => rfl

theorem putWeak (s : Session) (name : String) (id : Nat) :
    Differ [.weak name] s { s with weak := s.weak.put name id } where
  limit := Nat.le_refl _
  hooks := rfl
  elsewhere place _ hm := by
    cases place with
    | weak other => exact Table.get?_put_of_ne _ (fun he : name = other => hm (he ▸ List.mem_cons_self)) id
    | _ => rfl

theorem putCursor (s : Session) (name : String) (cursor : Cursor) (happening : Happening) :
    Differ [.cursor name] s ({ s with cursors := s.cursors.put name cursor }.note happening) where
  limit := Nat.le_refl _
  hooks := rfl
  elsewhere place _ hm := by
    cases place with
    | cursor other => exact Table.get?_put_of_ne _ (fun he : name = other => hm (he ▸ List.mem_cons_self)) cursor
    | _ => rfl

theorem eraseCursor (s : Session) (name : String) (happening : Happening) :
    Differ [.cursor name] s ({ s with cursors := s.cursors.erase name }.note happening) where
  limit := Nat.le_refl _
  hooks := rfl
  elsewhere place _ hm := by
    cases place with
    | cursor other => exact (Table.get?_erase ..).trans (if_neg fun he : name = other => hm (he ▸ List.mem_cons_self))
    | _ => rfl

/-- The mark that was set before is taken away, so that the marked deque is as it was too. -/
theorem written {id : Nat} (hf : (s.cell id).hold = .free) (hu : (s.cell id).formatting = false)
    (h : Differ places (mark id s) t) : Differ places s (unmark id t) where
  limit := by
    rw [nextCell_unmark]
    exact h.limit
  hooks := by
    have hkept : (unmark id t).hooks = t.hooks := by
      unfold Action.unmark
      split <;> rfl
    exact hkept.trans h.hooks
  elsewhere place hr hm := by
    have hplace := h.elsewhere place hr hm
    cases place with
    | cell other =>
      by_cases hid : id = other
      · subst hid
        have hmarked : t.cell id = { s.cell id with formatting := true } := Eq.trans hplace (cell_mark id s)
        have hfree : (t.cell id).hold = .free := hmarked ▸ hf
        change (unmark id t).cell id = s.cell id
        rw [cell_unmark, if_pos hfree, hmarked]
        exact congrArg (fun formatting => { s.cell id with formatting := formatting }) hu.symm
      · change (unmark id t).cell other = s.cell other
        rw [cell_unmark_of_ne hid]
        exact Eq.trans hplace (cell_mark_of_ne hid s)
    | _ =>
      unfold Action.unmark
      split <;> exact hplace

end Differ

theorem Passive.of_hooks (hs : s.Passive) (h : t.hooks = s.hooks) : t.Passive := by
  unfold Passive Session.hook at *
  rwa [h]

end Session

/-- Begun where no element acts, however it ends, the action makes a difference in these places only. -/
def Action.Within (places : List Place) {α : Type} (action : Action α) : Prop :=
  ∀ s t outcome, s.Passive → action s = (outcome, t) → Session.Differ places s t

namespace Action.Within

variable {α : Type} {places : List Place}

theorem mono {more : List Place} {action : Action α} (h : action.Within places) (hp : places ⊆ more) :
    action.Within more := fun s t outcome hs hrun => (h s t outcome hs hrun).mono hp

theorem update {f : Session → Session} (hf : ∀ s, Session.Differ places s (f s)) : (Action.update f).Within places :=
  fun s t outcome _ hrun => by
    cases hrun
    exact hf s

/-- Whatever leaves the session as it is. -/
theorem of_unchanged {action : Action α} (h : ∀ s, (action s).2 = s) : action.Within places :=
  fun s t outcome _ hrun => by
    have ht : t = s := (congrArg Prod.snd hrun).symm.trans (h s)
    rw [ht]
    exact .refl s

theorem pure {value : α} : (Pure.pure value : Action α).Within places := of_unchanged fun _ => rfl

theorem interrupt (cause : Interrupt) : (Action.interrupt cause : Action α).Within places := of_unchanged fun _ => rfl

theorem read (f : Session → α) : (Action.read f).Within places := of_unchanged fun _ => rfl

theorem bind {β : Type} {action : Action α} {next : α → Action β} (h : action.Within places)
    (hnext : ∀ value, (next value).Within places) : (action >>= next).Within places := fun s t outcome hs hrun => by
  rcases bind_cases hrun with ⟨_, hfirst, _⟩ | ⟨value, u, hfirst, hrest⟩
  · exact h s t _ hs hfirst
  · have hsu := h s u _ hs hfirst
    exact hsu.trans (hnext value u t outcome (hs.of_hooks hsu.hooks) hrest)

theorem pinning (ids : List Nat) {action : Action α} (h : action.Within places) :
    (Action.pinning ids action).Within places := fun s t outcome hs hrun => by
  obtain ⟨u, hu, rfl⟩ := pinning_cases hrun
  have hpinned : Session.Differ places s { s with pinned := ids ++ s.pinned } := .of_apart (s.apart_pinned _) rfl
  exact (hpinned.trans (h _ u outcome hs hu)).trans (.of_apart (u.apart_pinned _) rfl)

theorem readCell (id : Nat) : (Action.readCell id).Within places := fun s t outcome _ hrun => by
  cases (readCell_cases hrun).1
  exact .refl s

theorem warn (message : String) : (Action.warn message).Within places := fun s t outcome _ hrun => by
  cases hrun
  exact .of_apart ⟨⟨rfl, rfl, rfl, rfl⟩, rfl, rfl, rfl⟩ rfl

end Action.Within

theorem within_sequential (places : List Place) : ActionRel.Sequential fun _ action _ => action.Within places where
  pure _ := .pure
  bind ha hf := ha.bind hf
  interrupt _ := .interrupt _
  read := .read

/-- The mark comes and goes; what the elements do in between stays within their places. -/
theorem Action.Within.writeCell {places : List Place} {write : Element → Action String}
    (hw : ∀ element, (write element).Within places) (id : Nat) : (Action.writeCell write id).Within places :=
  fun s t outcome hs hrun => by
    by_cases hf : (s.cell id).hold = .free
    · cases hu : (s.cell id).formatting with
      | true =>
        rw [writeCell_of_marked hf hu] at hrun
        cases hrun
        exact .refl s
      | false =>
        rw [writeCell_of_unmarked hf hu] at hrun
        have hitems : (writeItems write (s.cell id).deque).Within places :=
          @ActionRel.Sequential.writeItems _ (within_sequential places) write write hw _
        have hbracket {text : Except Interrupt String} {u : Session} (h : (do
            Action.update (mark id)
            (Action.pinning (id :: (s.cell id).deque.owners) (writeItems write (s.cell id).deque)).ensuring
              (unmark id)) s = (text, u)) : Session.Differ places s u := by
          have hmarked := (bind_ok (update_apply (mark id) s)).symm.trans h
          obtain ⟨v, hv, rfl⟩ := ensuring_cases hmarked
          exact .written hf hu (hitems.pinning _ _ v text hs hv)
        rcases bind_cases hrun with ⟨_, htext, _⟩ | ⟨text, u, htext, hrest⟩
        · exact hbracket htext
        · have hsu := hbracket htext
          refine hsu.trans ?_
          refine Within.bind (.readCell id) (fun after => ?_) u t outcome (hs.of_hooks hsu.hooks) hrest
          split
          · exact (Within.warn _).bind fun _ => .pure
          · exact .pure
    · rw [writeCell_of_held hf] at hrun
      cases hrun
      exact .refl s

theorem within_reading (places : List Place) : ActionRel.Reading fun _ action _ => action.Within places where
  toSequential := within_sequential places
  readCell := .readCell
  pinning ids _ _ h := h.pinning ids
  writing hw id := .writeCell hw id

/-- Without an element that acts, neither writing nor comparing makes a difference anywhere. -/
theorem Meaning.within_upTo (depth : Nat) (places : List Place) :
    (∀ element, ((upTo depth).write element).Within places) ∧
      ∀ a b, ((upTo depth).equal a b).Within places := by
  have h := within_reading places
  induction depth with
  | zero => exact ⟨fun _ => .interrupt _, fun _ _ => .interrupt _⟩
  | succ depth ih =>
    have hact {script : Hook → List Step} (hscript : ∀ s : Session, s.Passive → ∀ id, script (s.hook id) = [])
        (id : String) : (Hook.act (upTo depth) id script).Within places := fun s t outcome hs hrun => by
      rw [Hook.act_of_empty _ (hscript s hs id)] at hrun
      cases hrun
      exact .refl s
    refine ⟨fun element => ?_, fun a b => ?_⟩
    · exact @ActionRel.Reading.writeElement _ h (upTo depth) (upTo depth) ih.1 (hact fun s hs id => (hs id).1) element
    · exact @ActionRel.Reading.equalElements _ h (upTo depth) (upTo depth) ih.2 (hact fun s hs id => (hs id).2) a b

end EvictingDeque
