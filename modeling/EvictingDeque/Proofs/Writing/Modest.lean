import EvictingDeque.Proofs.Interpreter.Cells

set_option autoImplicit false

/-!
# Sessions in which writing is all that nests

In a modest session nobody holds a shared deque, and what hooks do when they are written is to edit shared deques that
are registered, to look at them and to write them. Any of these steps but writing answers at once.
-/
namespace EvictingDeque

open Action

/-- What a hook may do when it is written. -/
inductive Step.Modest (s : Session) : Step → Prop
  | edit (name : String) (change : Edit Literal) (registered : (s.shared.get? name).isSome = true)
      (offered : ∀ literal ∈ change.offered, (literal.replace? (resolveLink s)).isSome = true) :
      Modest s (.shared name (.edit change))
  | get (name : String) (index : Nat) (registered : (s.shared.get? name).isSome = true) :
      Modest s (.shared name (.ask (.get index)))
  | toList (name : String) (registered : (s.shared.get? name).isSome = true) : Modest s (.shared name (.ask .toList))
  | extent (name : String) (registered : (s.shared.get? name).isSome = true) : Modest s (.shared name .extent)
  | written (name : String) (registered : (s.shared.get? name).isSome = true) : Modest s (.shared name .written)

theorem Step.Modest.of_shared {s t : Session} {step : Step} (h : step.Modest s) (ht : t.shared = s.shared) :
    step.Modest t := by
  cases h with
  | edit name change hname hoffered =>
    exact .edit name change (by rwa [ht]) fun literal hl => by
      rw [resolveLink_of_shared ht]
      exact hoffered literal hl
  | get name index hname => exact .get name index (by rwa [ht])
  | toList name hname => exact .toList name (by rwa [ht])
  | extent name hname => exact .extent name (by rwa [ht])
  | written name hname => exact .written name (by rwa [ht])

namespace Session

structure Modest (s : Session) : Prop where
  proper : s.Proper
  free : ∀ id, id < s.nextCell → (s.cell id).hold = .free
  scripts : ∀ hook, ∀ step ∈ (s.hook hook).whenWritten, step.Modest s

/-- What modest steps leave as it was. -/
structure Steady (s t : Session) : Prop where
  nextCell : t.nextCell = s.nextCell
  shared : t.shared = s.shared
  scripts : ∀ hook, (t.hook hook).whenWritten = (s.hook hook).whenWritten
  holds : ∀ id, id < s.nextCell → (t.cell id).hold = (s.cell id).hold
  marks : ∀ id, id < s.nextCell → (t.cell id).formatting = (s.cell id).formatting

variable {s t u : Session}

theorem Steady.refl (s : Session) : Steady s s := ⟨rfl, rfl, fun _ => rfl, fun _ _ => rfl, fun _ _ => rfl⟩

theorem Steady.trans (hst : Steady s t) (htu : Steady t u) : Steady s u where
  nextCell := htu.nextCell.trans hst.nextCell
  shared := htu.shared.trans hst.shared
  scripts hook := (htu.scripts hook).trans (hst.scripts hook)
  holds id hid := (htu.holds id (by rwa [hst.nextCell])).trans (hst.holds id hid)
  marks id hid := (htu.marks id (by rwa [hst.nextCell])).trans (hst.marks id hid)

/-- Hooks may use up the times that they act. -/
theorem Steady.of_cells (hc : t.cells = s.cells) (hn : t.nextCell = s.nextCell) (hs : t.shared = s.shared)
    (hh : ∀ hook, (t.hook hook).whenWritten = (s.hook hook).whenWritten) : Steady s t where
  nextCell := hn
  shared := hs
  scripts := hh
  holds id _ := congrArg Cell.hold (cell_of_cells hc id)
  marks id _ := congrArg Cell.formatting (cell_of_cells hc id)

/-- A step that leaves registers and scripts alone is orderly in any case. -/
theorem Steady.of_orderly (ho : orderly.rel s t) (hn : t.nextCell = s.nextCell) (hs : t.shared = s.shared)
    (hh : t.hooks = s.hooks) : Steady s t where
  nextCell := hn
  shared := hs
  scripts hook := by
    unfold Session.hook
    rw [hh]
  holds id hid := (ho.2 id hid).hold
  marks id hid := (ho.2 id hid).formatting

theorem Modest.steady (hs : s.Modest) (ht : t.Proper) (h : Steady s t) : t.Modest where
  proper := ht
  free id hid := by
    rw [h.nextCell] at hid
    rw [h.holds id hid]
    exact hs.free id hid
  scripts hook step hstep := by
    rw [h.scripts hook] at hstep
    exact (hs.scripts hook step hstep).of_shared h.shared

end Session

namespace Action

variable {s : Session}

theorem resolve_of_isSome {literal : Literal} (h : (literal.replace? (resolveLink s)).isSome = true) :
    ∃ value, resolve literal s = (.ok value, s) := by
  obtain ⟨value, hvalue⟩ := Option.isSome_iff_exists.1 h
  exact ⟨value, required_of_some hvalue⟩

theorem resolveAll_of_isSome {literals : List Literal}
    (h : ∀ literal ∈ literals, (literal.replace? (resolveLink s)).isSome = true) :
    ∃ values, literals.mapM resolve s = (.ok values, s) := by
  induction literals with
  | nil => exact ⟨[], rfl⟩
  | cons literal literals ih =>
    obtain ⟨value, hvalue⟩ := resolve_of_isSome (h literal List.mem_cons_self)
    obtain ⟨values, hvalues⟩ := ih fun other ho => h other (List.mem_cons_of_mem _ ho)
    refine ⟨value :: values, ?_⟩
    rw [List.mapM_cons, bind_ok hvalue, bind_ok hvalues]
    rfl

theorem resolveEdit_of_isSome (change : Edit Literal)
    (h : ∀ literal ∈ change.offered, (literal.replace? (resolveLink s)).isSome = true) :
    ∃ resolved, change.mapM resolve s = (.ok resolved, s) := by
  have hone {literal : Literal} (ho : change.offered = [literal]) : ∃ value, resolve literal s = (.ok value, s) :=
    resolve_of_isSome (h literal (by simp [ho]))
  cases change with
  | pushBack literal =>
    obtain ⟨value, hvalue⟩ := hone rfl
    exact ⟨.pushBack value, bind_ok hvalue⟩
  | pushFront literal =>
    obtain ⟨value, hvalue⟩ := hone rfl
    exact ⟨.pushFront value, bind_ok hvalue⟩
  | insert index literal =>
    obtain ⟨value, hvalue⟩ := hone rfl
    exact ⟨.insert index value, bind_ok hvalue⟩
  | extendBack literals =>
    obtain ⟨values, hvalues⟩ := resolveAll_of_isSome h
    exact ⟨.extendBack values, bind_ok hvalues⟩
  | extendFront literals =>
    obtain ⟨values, hvalues⟩ := resolveAll_of_isSome h
    exact ⟨.extendFront values, bind_ok hvalues⟩
  | popBack => exact ⟨.popBack, rfl⟩
  | popFront => exact ⟨.popFront, rfl⟩
  | clear => exact ⟨.clear, rfl⟩
  | rotate steps => exact ⟨.rotate steps, rfl⟩
  | reverse => exact ⟨.reverse, rfl⟩

end Action

namespace Session

variable {s : Session}

/-- A step through a handle that finds its deque free and changes nothing else answers in every meaning. -/
theorem Modest.perform_shared (hs : s.Modest) {name : String} {o : SharedOp Literal} {resolved : SharedOp Element}
    {id : Nat} {answer : Answer} {t : Session} (hname : s.shared.get? name = some id)
    (hop : o.mapM resolve s = (.ok resolved, s)) (hrun : ∀ m : Meaning, resolved.run m id s = (.ok answer, t))
    (hn : t.nextCell = s.nextCell) (hshared : t.shared = s.shared) (hhooks : t.hooks = s.hooks) :
    (∀ m : Meaning, m.performStep (.shared name o) s = (.ok answer, t)) ∧ t.Proper ∧ Steady s t := by
  have hperform (m : Meaning) : m.performStep (.shared name o) s = (.ok answer, t) :=
    (Meaning.performStep_shared hop hname).trans (hrun m)
  obtain ⟨ht, _, ho⟩ := (Meaning.upTo_safely orderly 1).perform (.shared name o) s t _ hs.proper (hperform _) trivial
  exact ⟨hperform, ht, .of_orderly ho hn hshared hhooks⟩

/-- Whatever a modest step does, it is done at once, unless it writes. -/
theorem Modest.performs (hs : s.Modest) {step : Step} (h : step.Modest s) :
    (∃ name id, step = .shared name .written ∧ s.shared.get? name = some id) ∨
      ∃ answer t, (∀ m : Meaning, m.performStep step s = (.ok answer, t)) ∧ t.Proper ∧ Steady s t := by
  have hfound {name : String} (hr : (s.shared.get? name).isSome = true) :
      ∃ id, s.shared.get? name = some id ∧ (s.cell id).hold = .free := by
    obtain ⟨id, hid⟩ := Option.isSome_iff_exists.1 hr
    exact ⟨id, hid, hs.free id (hs.proper.shared name id hid)⟩
  have hopen {id : Nat} (hf : (s.cell id).hold = .free) : readCell id s = (.ok (s.cell id), s) :=
    readCell_of_reading (congrArg Hold.allowsReading hf)
  cases h with
  | edit name change hname hoffered =>
    obtain ⟨id, hid, hfree⟩ := hfound hname
    obtain ⟨resolved, hresolved⟩ := resolveEdit_of_isSome change hoffered
    have hedit (m : Meaning) : (SharedOp.edit resolved).run m id s =
        (.ok (answerOptional ((s.cell id).edit resolved).1), s.putCell id ((s.cell id).edit resolved).2) :=
      bind_ok (changeCell_of_free (fun cell => cell.edit resolved) hfree)
    exact .inr ⟨_, _, hs.perform_shared (o := .edit change) hid (bind_ok hresolved) hedit rfl rfl rfl⟩
  | get name index hname =>
    obtain ⟨id, hid, hfree⟩ := hfound hname
    have hget (m : Meaning) : (SharedOp.ask (.get index)).run m id s =
        (.ok (.element ((s.cell id).deque.get? index)), s) := bind_ok (bind_ok (hopen hfree))
    exact .inr ⟨_, _, hs.perform_shared (o := .ask (.get index)) hid rfl hget rfl rfl rfl⟩
  | toList name hname =>
    obtain ⟨id, hid, hfree⟩ := hfound hname
    have hlist (m : Meaning) : (SharedOp.ask .toList).run m id s = (.ok (.elements (s.cell id).deque.items), s) :=
      bind_ok (bind_ok (hopen hfree))
    exact .inr ⟨_, _, hs.perform_shared (o := .ask .toList) hid rfl hlist rfl rfl rfl⟩
  | extent name hname =>
    obtain ⟨id, hid, hfree⟩ := hfound hname
    have hextent (m : Meaning) : SharedOp.extent.run m id s = (.ok (.extentWithoutFull (s.cell id).deque.length
        (s.cell id).deque.bound (s.cell id).deque.isEmpty), s) := bind_ok (hopen hfree)
    exact .inr ⟨_, _, hs.perform_shared (o := .extent) hid rfl hextent rfl rfl rfl⟩
  | written name hname =>
    obtain ⟨id, hid, _⟩ := hfound hname
    exact .inl ⟨name, id, rfl, hid⟩

end Session

end EvictingDeque
