import EvictingDeque.Proofs.Interpreter.Depth
import EvictingDeque.Proofs.Writing.Modest
import EvictingDeque.Proofs.Writing.Snapshot

set_option autoImplicit false

/-!
# Writing comes to an end

In a modest session every shared deque is written to the end, whatever refers to what, and however much the elements add
to deques while they are written. Marking leaves fewer deques without a mark, and until the mark goes no writing begins
that does not leave fewer still. Inside one element it is the nesting of values that ends.
-/
namespace EvictingDeque

open Action

namespace Action

variable {α β : Type} {s t u : Session}

/-- From some depth on, whatever the depth. -/
def Settles (a : Nat → Action α) (s : Session) (value : α) (t : Session) : Prop :=
  ∃ depth, ∀ k, depth ≤ k → a k s = (.ok value, t)

def Finishes (a : Nat → Action α) (s : Session) : Prop :=
  ∃ value t, Settles a s value t ∧ t.Proper ∧ s.Steady t

theorem Settles.bind {a : Nat → Action α} {f : Nat → α → Action β} {value : α} {result : β}
    (ha : Settles a s value t) (hf : Settles (fun k => f k value) t result u) :
    Settles (fun k => a k >>= f k) s result u := by
  obtain ⟨n, hn⟩ := ha
  obtain ⟨m, hm⟩ := hf
  refine ⟨max n m, fun k hk => ?_⟩
  have hfirst : n ≤ k := by omega
  have hsecond : m ≤ k := by omega
  exact (bind_ok (hn k hfirst)).trans (hm k hsecond)

/-- One level further out, from one depth more on. -/
theorem Settles.succ {a b : Nat → Action α} {value : α} (h : Settles a s value t) (hb : ∀ k, b (k + 1) = a k) :
    Settles b s value t := by
  obtain ⟨n, hn⟩ := h
  refine ⟨n + 1, fun k hk => ?_⟩
  obtain ⟨k, rfl⟩ : ∃ j, k = j + 1 := ⟨k - 1, by omega⟩
  rw [hb]
  exact hn k (by omega)

theorem Finishes.of_eq {a : Nat → Action α} {value : α} (h : ∀ k, a k s = (.ok value, t)) (ht : t.Proper)
    (hst : s.Steady t) : Finishes a s := ⟨value, t, ⟨0, fun k _ => h k⟩, ht, hst⟩

theorem Finishes.bind {a : Nat → Action α} {f : Nat → α → Action β} (ha : Finishes a s)
    (hf : ∀ value t, t.Proper → s.Steady t → Finishes (fun k => f k value) t) :
    Finishes (fun k => a k >>= f k) s := by
  obtain ⟨value, t, hsettles, ht, hst⟩ := ha
  obtain ⟨result, u, hresult, hu, htu⟩ := hf value t ht hst
  exact ⟨result, u, hsettles.bind hresult, hu, hst.trans htu⟩

theorem Finishes.succ {a b : Nat → Action α} (h : Finishes a s) (hb : ∀ k, b (k + 1) = a k) : Finishes b s := by
  obtain ⟨value, t, hsettles, ht, hst⟩ := h
  exact ⟨value, t, hsettles.succ hb, ht, hst⟩

theorem Finishes.pure (hs : s.Proper) (value : α) : Finishes (fun _ => Pure.pure value) s :=
  .of_eq (fun _ => rfl) hs (.refl s)

theorem Finishes.read (hs : s.Proper) (f : Session → α) : Finishes (fun _ => Action.read f) s :=
  .of_eq (fun _ => rfl) hs (.refl s)

end Action

namespace Session

variable {s t u : Session} {id : Nat}

/-- How many shared deques could begin to be written. -/
def unmarked (s : Session) : Nat := (List.range s.nextCell).countP fun id => !(s.cell id).formatting

theorem Steady.unmarked (h : Steady s t) : t.unmarked = s.unmarked := by
  unfold Session.unmarked
  rw [h.nextCell]
  refine List.countP_congr fun id hid => ?_
  rw [h.marks id (List.mem_range.1 hid)]

theorem countP_lt {β : Type} {p q : β → Bool} {values : List β} {value : β} (h : ∀ x, p x = true → q x = true)
    (hmem : value ∈ values) (hp : p value = false) (hq : q value = true) : values.countP p < values.countP q := by
  obtain ⟨before, after, rfl⟩ := List.append_of_mem hmem
  have hb : before.countP p ≤ before.countP q := List.countP_mono_left fun x _ => h x
  have ha : after.countP p ≤ after.countP q := List.countP_mono_left fun x _ => h x
  simp only [List.countP_append, List.countP_cons, hp, hq, if_true, Bool.false_eq_true, if_false]
  omega

theorem Modest.opened (hs : s.Modest) (id : Nat) : (opened id s).Modest where
  proper := (hs.proper.mark id).pinned _
  free other hother := by
    by_cases hid : id = other
    · subst hid
      rw [cell_opened]
      exact hs.free id hother
    · rw [cell_opened_of_ne hid]
      exact hs.free other hother
  scripts hook step hstep := (hs.scripts hook step hstep).of_shared rfl

theorem Steady.closed (hs : s.Modest) (hid : id < s.nextCell) (hm : (s.cell id).formatting = false)
    (h : Steady (opened id s) u) : Steady s (closed id s u) := by
  have hfree : (u.cell id).hold = .free := by
    rw [h.holds id hid, cell_opened]
    exact hs.free id hid
  have hclosed : (Action.closed id s u).cell id = { u.cell id with formatting := false } := cell_closed hfree
  have hother {other : Nat} (ho : id ≠ other) :
      (Action.opened id s).cell other = s.cell other ∧ (Action.closed id s u).cell other = u.cell other :=
    ⟨cell_opened_of_ne ho s, cell_unmark_of_ne ho _⟩
  refine ⟨(nextCell_unmark id _).trans h.nextCell, ?_, fun hook => ?_, fun other hlt => ?_, fun other hlt => ?_⟩
  · refine Eq.trans ?_ h.shared
    unfold Action.closed unmark
    split <;> rfl
  · refine Eq.trans ?_ (h.scripts hook)
    unfold Action.closed unmark
    split <;> rfl
  · by_cases ho : id = other
    · subst ho
      rw [hclosed, hs.free id hid]
      exact hfree
    · rw [(hother ho).2, h.holds other hlt, (hother ho).1]
  · by_cases ho : id = other
    · subst ho
      rw [hclosed, hm]
    · rw [(hother ho).2, h.marks other hlt, (hother ho).1]

end Session

namespace Meaning

/-- Where at most so many shared deques could begin to be written, all of them can be written. -/
def CellsFinish (n : Nat) : Prop :=
  ∀ s : Session, s.Modest → s.unmarked ≤ n → ∀ id, id < s.nextCell →
    Finishes (fun k => writeCell (upTo k).write id) s

variable {n : Nat} {s : Session}

/-- Modest steps come to an end: all of them at once, but for writing. -/
theorem CellsFinish.perform (h : CellsFinish n) (hs : s.Modest) (hn : s.unmarked ≤ n) {step : Step}
    (hstep : step.Modest s) : Finishes (fun k => (upTo k).perform step) s := by
  refine Finishes.succ (a := fun k => (upTo k).performStep step) ?_ fun _ => rfl
  rcases hs.performs hstep with ⟨name, id, rfl, hname⟩ | ⟨answer, t, hall, ht, hst⟩
  · obtain ⟨text, t, ⟨depth, hwritten⟩, ht, hst⟩ := h s hs hn id (hs.proper.shared name id hname)
    refine ⟨.text text, t, ⟨depth, fun k hk => ?_⟩, ht, hst⟩
    exact (performStep_shared (o := .written) rfl hname).trans (bind_ok (hwritten k hk))
  · exact .of_eq (fun k => hall _) ht hst

theorem CellsFinish.runScript (h : CellsFinish n) (hook : String) {steps : List Step} (hs : s.Modest)
    (hn : s.unmarked ≤ n) (hsteps : ∀ step ∈ steps, step.Modest s) :
    Finishes (fun k => Hook.runScript (upTo k) hook steps) s := by
  induction steps generalizing s with
  | nil => exact .pure hs.proper ()
  | cons step steps ih =>
    refine (h.perform hs hn (hsteps step List.mem_cons_self)).bind fun answer t ht hst => ?_
    have hreport : ({ t with events := (hook, answer) :: t.events } : Session).Proper :=
      ht.apart ⟨⟨rfl, rfl, rfl, rfl⟩, rfl, rfl, rfl⟩
    have hsteady : t.Steady { t with events := (hook, answer) :: t.events } := .of_cells rfl rfl rfl fun _ => rfl
    refine Finishes.bind (.of_eq (fun _ => update_apply _ t) hreport hsteady) fun _ u hu htu => ?_
    have hsu := hst.trans htu
    refine ih (hs.steady hu hsu) (hsu.unmarked ▸ hn) fun other ho => ?_
    exact (hsteps other (List.mem_cons_of_mem _ ho)).of_shared hsu.shared

/-- A script does not change while it runs, only the times that it may still run do. -/
theorem CellsFinish.act (h : CellsFinish n) (hook : String) (hs : s.Modest) (hn : s.unmarked ≤ n) :
    Finishes (fun k => Hook.act (upTo k) hook (·.whenWritten)) s := by
  unfold Hook.act
  dsimp only
  by_cases hidle : ((s.hook hook).whenWritten.isEmpty || (s.hook hook).times == some 0) = true
  · exact .of_eq (fun k => if_pos hidle) hs.proper (.refl s)
  · let used : Hook := { s.hook hook with times := (s.hook hook).times.map (· - 1) }
    have hput : s.Steady { s with hooks := s.hooks.put hook used } := by
      refine .of_cells rfl rfl rfl fun other => ?_
      by_cases hother : hook = other
      · subst hother
        simp [Session.hook, used]
      · simp [Session.hook, Table.get?_put_of_ne _ hother]
    have hproper : ({ s with hooks := s.hooks.put hook used } : Session).Proper :=
      hs.proper.apart ⟨⟨rfl, rfl, rfl, rfl⟩, rfl, rfl, rfl⟩
    obtain ⟨_, t, ⟨depth, hscript⟩, ht, hst⟩ := h.runScript hook (hs.steady hproper hput) (hput.unmarked ▸ hn)
      fun step hstep => (hs.scripts hook step hstep).of_shared rfl
    exact ⟨(), t, ⟨depth, fun k hk => (if_neg hidle).trans (hscript k hk)⟩, ht, hput.trans hst⟩

mutual
theorem CellsFinish.write (h : CellsFinish n) {s : Session} (hs : s.Modest) (hn : s.unmarked ≤ n) :
    (element : Element) → element.Known s.nextCell → Finishes (fun k => (upTo k).write element) s
  | .int value, _ => Finishes.succ (.pure hs.proper (toString value)) fun _ => rfl
  | .text value, _ => Finishes.succ (.pure hs.proper (Text.quoted value)) fun _ => rfl
  | .real value, _ => Finishes.succ (.pure hs.proper value.render) fun _ => rfl
  | .keyed key tag, _ => Finishes.succ (.pure hs.proper (toString key ++ "#" ++ tag)) fun _ => rfl
  | .nested ⟨items, bound⟩, hknown => by
    refine Finishes.succ (a := fun k => writeItems (upTo k).write ⟨items, bound⟩) ?_ fun _ => rfl
    exact (CellsFinish.writeAll h hs hn items hknown).bind fun texts t ht _ => .pure ht _
  | .link (.own target), hknown => by
    refine Finishes.succ (a := fun k => writeCell (upTo k).write target.cell) ?_ fun _ => rfl
    exact h s hs hn target.cell (hknown (.own target) (by simp [Value.references]))
  | .link (.weak target), hknown => by
    refine Finishes.succ (a := fun k => (upTo k).writeElement (.link (.weak target))) ?_ fun _ => rfl
    refine Finishes.bind (.read hs.proper (·.isLiving target.cell)) fun alive t ht hst => ?_
    cases alive with
    | true =>
      refine h t (hs.steady ht hst) (hst.unmarked ▸ hn) target.cell ?_
      rw [hst.nextCell]
      exact hknown (.weak target) (by simp [Value.references])
    | false => exact .pure ht _
  | .link (.hook hook), _ => by
    refine Finishes.succ (a := fun k => (upTo k).writeElement (.link (.hook hook))) ?_ fun _ => rfl
    exact (h.act hook hs hn).bind fun _ t ht _ => .read ht _

theorem CellsFinish.writeAll (h : CellsFinish n) {s : Session} (hs : s.Modest) (hn : s.unmarked ≤ n) :
    (elements : List Element) → (∀ link ∈ Value.referencesOfList elements, link.Known s.nextCell) →
      Finishes (fun k => elements.mapM (upTo k).write) s
  | [], _ => .pure hs.proper []
  | element :: elements, hknown => by
    simp only [Value.referencesOfList, List.mem_append] at hknown
    simp only [List.mapM_cons]
    refine (CellsFinish.write h hs hn element fun link hl => hknown link (.inl hl)).bind fun text t ht hst => ?_
    refine (CellsFinish.writeAll h (hs.steady ht hst) (hst.unmarked ▸ hn) elements ?_).bind fun texts u hu _ => ?_
    · rw [hst.nextCell]
      exact fun link hl => hknown link (.inr hl)
    · exact .pure hu _
end

end Meaning

end EvictingDeque
