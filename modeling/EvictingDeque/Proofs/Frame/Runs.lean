import EvictingDeque.Proofs.Frame.Steps
import EvictingDeque.Session.Run

set_option autoImplicit false

/-!
# Where runs make a difference

A run of single steps in which no element acts touches what its steps touch, each at its turn. What it does not touch is
afterwards as it was, and cursors cannot tell the difference.
-/
namespace EvictingDeque

open Action

namespace Session

/-- The property holds of each step of a run, in the session in which its turn comes. -/
def Throughout (m : Meaning) (property : Session → Step → Prop) : List Step → Session → Prop
  | [], _ => True
  | step :: steps, s => property s step ∧ Throughout m property steps (performAndReport m step s).2

/-- No element acts in the step: it ends as it would with hooks that have no scripts. -/
def Unaided (m : Meaning) (s : Session) (step : Step) : Prop :=
  ∃ hooks, Passive { s with hooks := hooks } ∧
    performAndReport m step s =
      ((performAndReport m step { s with hooks := hooks }).1,
        { (performAndReport m step { s with hooks := hooks }).2 with hooks := s.hooks })

/-- A run of single operations in which no element acts. -/
abbrev Simple (m : Meaning) (steps : List Step) (s : Session) : Prop :=
  Throughout m (fun s step => ¬ step.HasBody ∧ Unaided m s step) steps s

def touched (m : Meaning) : List Step → Session → List Place
  | [], _ => []
  | step :: steps, s => step.touched s ++ touched m steps (performAndReport m step s).2

variable {m : Meaning} {s t : Session}

theorem endOf_append (m : Meaning) (steps later : List Step) (s : Session) :
    endOf m (steps ++ later) s = endOf m later (endOf m steps s) := by
  induction steps generalizing s with
  | nil => rfl
  | cons step steps ih => exact ih _

/-- What is cleared away before each step is nothing that a place holds. -/
theorem differ_cleared (s : Session) (places : List Place) :
    Differ places s { s with events := [], printed := "" } :=
  .of_apart ⟨⟨rfl, rfl, rfl, rfl⟩, rfl, rfl, rfl⟩ rfl

/-- Where no element can act, none does. -/
theorem differ_performAndReport_of_passive (depth : Nat) {step : Step} (hstep : ¬ step.HasBody) (hs : s.Passive) :
    Differ (step.touched s) s (performAndReport (Meaning.upTo depth) step s).2 := by
  have hcleared := differ_cleared s (step.touched s)
  have hperform := differ_perform depth hstep (hs.of_hooks hcleared.hooks)
  have htouched : step.touched { s with events := [], printed := "" } = step.touched s := step.touched_of_shared rfl
  rw [htouched] at hperform
  exact hcleared.trans hperform

theorem unaided_of_passive (depth : Nat) {step : Step} (hstep : ¬ step.HasBody) (hs : s.Passive) :
    Unaided (Meaning.upTo depth) s step := by
  refine ⟨s.hooks, hs, ?_⟩
  have hkept := (differ_performAndReport_of_passive depth hstep hs).hooks
  have hsame : (performAndReport (Meaning.upTo depth) step s).2 =
      { (performAndReport (Meaning.upTo depth) step s).2 with hooks := s.hooks } := by
    rw [← hkept]
  exact Prod.ext rfl hsame

/-- Places hold no hooks. -/
theorem Differ.with_hooks {places : List Place} {hooks : Table String Hook}
    (h : Differ places { s with hooks := hooks } t) : Differ places s { t with hooks := s.hooks } where
  limit := h.limit
  hooks := rfl
  elsewhere place hp hm := by
    have hplace := h.elsewhere place (by cases place <;> exact hp) hm
    cases place <;> exact hplace

theorem differ_performAndReport (depth : Nat) {step : Step} (hstep : ¬ step.HasBody)
    (hs : Unaided (Meaning.upTo depth) s step) :
    Differ (step.touched s) s (performAndReport (Meaning.upTo depth) step s).2 := by
  obtain ⟨hooks, hpassive, hrun⟩ := hs
  have htouched : step.touched { s with hooks := hooks } = step.touched s := step.touched_of_shared rfl
  rw [hrun, ← htouched]
  exact (differ_performAndReport_of_passive depth hstep hpassive).with_hooks

theorem differ_endOf (depth : Nat) {steps : List Step} (h : Simple (Meaning.upTo depth) steps s) :
    Differ (touched (Meaning.upTo depth) steps s) s (endOf (Meaning.upTo depth) steps s) := by
  induction steps generalizing s with
  | nil => exact .refl s
  | cons step steps ih =>
    obtain ⟨⟨hstep, hunaided⟩, hrest⟩ := h
    have hfirst := differ_performAndReport depth hstep hunaided
    exact (hfirst.mono (List.subset_append_left ..)).trans ((ih hrest).mono (List.subset_append_right ..))

/-- Steps without bodies bring no scripts, so that no element acts later if none can now. -/
theorem simple_of_passive (depth : Nat) {steps : List Step} (hsteps : ∀ step ∈ steps, ¬ step.HasBody) (hs : s.Passive) :
    Simple (Meaning.upTo depth) steps s := by
  induction steps generalizing s with
  | nil => trivial
  | cons step steps ih =>
    have hstep := hsteps step List.mem_cons_self
    refine ⟨⟨hstep, unaided_of_passive depth hstep hs⟩, ?_⟩
    refine ih (fun other ho => hsteps other (List.mem_cons_of_mem _ ho)) ?_
    exact hs.of_hooks (differ_performAndReport_of_passive depth hstep hs).hooks

/-- The place holds what it held, cursors over it tell what they would have told, and only these cursors have moved. -/
structure Spared (s t : Session) (moved : List Place) (place : Place) : Prop where
  same : s.SameAt t place
  told : ∀ cursor : Cursor, place = .cell cursor.cell →
    cursor.advance (t.cell cursor.cell) = cursor.advance (s.cell cursor.cell) ∧
      cursor.drain (t.cell cursor.cell) = cursor.drain (s.cell cursor.cell)
  cursors : ∀ name, .cursor name ∉ moved → t.cursors.get? name = s.cursors.get? name

theorem Differ.spared {places : List Place} (h : Differ places s t) {place : Place} (hp : s.HasPlace place)
    (hm : place ∉ places) : Spared s t places place where
  same := h.elsewhere place hp hm
  told cursor hc := by
    have hcell : t.cell cursor.cell = s.cell cursor.cell := by
      subst hc
      exact h.elsewhere _ hp hm
    rw [hcell]
    exact ⟨rfl, rfl⟩
  cursors name hn := h.elsewhere (.cursor name) trivial hn

end Session

end EvictingDeque
