import EvictingDeque.Proofs.Interpreter.Depth
import EvictingDeque.Proofs.Locks.Released
import EvictingDeque.Proofs.Writing.Snapshot

set_option autoImplicit false

/-!
# Where borrow conflicts come from

While nothing is held, only a step that holds a deque itself can run into a borrow conflict. `Meaning.withoutHolds` is
how this is said: were each hold to raise a message of its own, at whatever depth it begins, then every step that ends
in a borrow conflict would end in that message instead.
-/
namespace EvictingDeque

open Action

namespace Meaning

/-- Every step but a hold has its meaning, and a hold raises the message. -/
def withoutHolds (message : String) : Nat → Meaning
  | 0 => tooDeep
  | depth + 1 => { (withoutHolds message depth).next with
      perform := fun
        | .hold _ _ _ => panic (.raised message)
        | step => (withoutHolds message depth).performStep step }

end Meaning

/-- Nobody holds any deque. -/
def Session.Unheld (s : Session) : Prop := ∀ id, (s.cell id).hold = .free

theorem Session.Unheld.of_cells {s t : Session} (h : s.Unheld) (hc : t.cells = s.cells) : t.Unheld := fun id => by
  rw [cell_of_cells hc id]
  exact h id

theorem Session.Unheld.putCell {s : Session} (h : s.Unheld) {id : Nat} {cell : Cell Element} (hc : cell.hold = .free) :
    (s.putCell id cell).Unheld := fun other => by
  by_cases hid : id = other
  · subst hid
    rw [cell_putCell_self]
    exact hc
  · rw [cell_putCell_of_ne s hid]
    exact h other

/-- Begun while nothing is held, the second action meets a hold and raises the message, or both do the same without a
borrow conflict and without leaving a hold. -/
def Action.Unlocked (message : String) : ActionRel := fun _ a b => ∀ s, s.Unheld →
  (b s).1 = .error (.panic (.raised message)) ∨
    b s = a s ∧ (a s).1 ≠ .error (.panic .borrowed) ∧ (a s).2.Unheld

namespace Action.Unlocked

variable {message : String} {α β : Type} {a b : Action α}

/-- What involves no step from inside does the same in both. -/
theorem same (h : ∀ s, s.Unheld → (a s).1 ≠ .error (.panic .borrowed) ∧ (a s).2.Unheld) : Unlocked message α a a :=
  fun s hs => .inr ⟨rfl, h s hs⟩

theorem pure (value : α) : Unlocked message α (Pure.pure value) (Pure.pure value) := same fun _ hs => ⟨nofun, hs⟩

theorem bind {f g : α → Action β} (h : Unlocked message α a b) (hf : ∀ value, Unlocked message β (f value) (g value)) :
    Unlocked message β (a >>= f) (b >>= g) := by
  intro s hs
  rcases h s hs with hraised | ⟨heq, hconflict, hunheld⟩
  · rcases hb : b s with ⟨outcome, t⟩
    rw [hb] at hraised
    cases hraised
    exact .inl (by rw [bind_error hb])
  · rcases ha : a s with ⟨cause | value, t⟩ <;> rw [ha] at heq hconflict hunheld
    · refine .inr ⟨by rw [bind_error ha, bind_error heq], ?_⟩
      rw [bind_error ha]
      exact ⟨fun he => hconflict (congrArg Except.error (Except.error.inj he)), hunheld⟩
    · rw [bind_ok ha, bind_ok heq]
      exact hf value t hunheld

theorem update {f : Session → Session} (hf : ∀ s, s.Unheld → (f s).Unheld) :
    Unlocked message Unit (Action.update f) (Action.update f) :=
  same fun s hs => ⟨nofun, hf s hs⟩

/-- Whatever is done at the end of an action in any case. -/
theorem ensuring (h : Unlocked message α a b) {finish : Session → Session} (hf : ∀ s, s.Unheld → (finish s).Unheld) :
    Unlocked message α (a.ensuring finish) (b.ensuring finish) := by
  intro s hs
  rcases h s hs with hraised | ⟨heq, hconflict, hunheld⟩
  · exact .inl hraised
  · refine .inr ⟨?_, hconflict, hf _ hunheld⟩
    simp only [Action.ensuring, heq]

theorem recovering (h : Unlocked message α a b) {recover : Session → Session}
    (hf : ∀ s, s.Unheld → (recover s).Unheld) :
    Unlocked message α (a.recovering recover) (b.recovering recover) := by
  intro s hs
  rcases h s hs with hraised | ⟨heq, hconflict, hunheld⟩
  · rcases hb : b s with ⟨outcome, t⟩
    rw [hb] at hraised
    cases hraised
    exact .inl (by simp only [Action.recovering, hb])
  · refine .inr ⟨by simp only [Action.recovering, heq], ?_⟩
    rcases ha : a s with ⟨cause | value, t⟩ <;> rw [ha] at hconflict hunheld
    · simp only [Action.recovering, ha]
      exact ⟨hconflict, hf t hunheld⟩
    · simp only [Action.recovering, ha]
      exact ⟨hconflict, hunheld⟩

theorem pinning (h : Unlocked message α a b) (ids : List Nat) : Unlocked message α (pinning ids a) (pinning ids b) := by
  intro s hs
  rcases h { s with pinned := ids ++ s.pinned } hs with hraised | ⟨heq, hconflict, hunheld⟩
  · exact .inl hraised
  · refine .inr ⟨?_, hconflict, hunheld⟩
    simp only [Action.pinning, heq]

theorem readCell (id : Nat) : Unlocked message _ (readCell id) (readCell id) := same fun s hs => by
  rw [readCell_of_reading (congrArg Hold.allowsReading (hs id))]
  exact ⟨nofun, hs⟩

theorem changeCell (id : Nat) {change : Cell Element → α × Cell Element}
    (hc : ∀ cell, cell.hold = .free → (change cell).2.hold = .free) :
    Unlocked message _ (changeCell id change) (changeCell id change) := same fun s hs => by
  rw [changeCell_of_free change (hs id)]
  exact ⟨nofun, hs.putCell (hc _ (hs id))⟩

theorem withCursor {name : String} {visit : Cursor → Cell Element → β × Cursor}
    {happening : String → Nat → β → Happening} :
    Unlocked message _ (withCursor name visit happening) (withCursor name visit happening) := same fun s hs => by
  rcases hrun : Action.withCursor name visit happening s with ⟨outcome, t⟩
  obtain ⟨rfl, cause, rfl, hbarred⟩ | ⟨cursor, _, _, rfl, rfl⟩ := withCursor_cases hrun
  · refine ⟨fun he => ?_, hs⟩
    cases hbarred with
    | missing => cases he
    | held _ _ hheld =>
      rw [hs] at hheld
      cases hheld
  · exact ⟨nofun, hs⟩

theorem unheld_unmark {s : Session} (hs : s.Unheld) (id : Nat) : (unmark id s).Unheld := by
  unfold Action.unmark
  rw [if_pos (hs id)]
  exact hs.putCell (hs id)

end Action.Unlocked

theorem unlocked_sequential (message : String) : ActionRel.Sequential (Unlocked message) where
  pure := .pure
  bind := .bind
  interrupt hc := .same fun _ hs => ⟨fun he => hc (Except.error.inj he), hs⟩
  read _ := .same fun _ hs => ⟨nofun, hs⟩

namespace Action.Unlocked

variable {message : String}

theorem writeCell {write write' : Element → Action String}
    (hw : ∀ element, Unlocked message String (write element) (write' element)) (id : Nat) :
    Unlocked message String (writeCell write id) (writeCell write' id) := by
  intro s hs
  have hitems := (unlocked_sequential message).writeItems hw
  cases hm : (s.cell id).formatting with
  | true =>
    rw [writeCell_of_marked (hs id) hm, writeCell_of_marked (hs id) hm]
    exact .inr ⟨rfl, nofun, hs⟩
  | false =>
    rw [writeCell_of_unmarked (hs id) hm, writeCell_of_unmarked (hs id) hm]
    have hmark : Unlocked message Unit (Action.update (mark id)) (Action.update (mark id)) :=
      update fun t ht => ht.putCell (ht id)
    refine Unlocked.bind ?_ (fun text => ?_) s hs
    · exact hmark.bind fun _ => ((hitems _).pinning _).ensuring fun t ht => unheld_unmark ht id
    · refine (readCell id).bind fun after => ?_
      split
      · exact Unlocked.bind (same fun t ht => ⟨nofun, ht⟩) fun _ => pure _
      · exact pure _

end Action.Unlocked

theorem unlocked_compositional (message : String) : ActionRel.Compositional (Unlocked message) where
  toSequential := unlocked_sequential message
  aside hf _ := .update fun s hs => hs.of_cells (hf s).cells
  readCell := .readCell
  pinning ids _ _ h := h.pinning ids
  writing := .writeCell
  beside hf _ := .update fun s hs => hs.of_cells (hf s).cells
  newCell _ := .same fun _ hs => ⟨nofun, hs.putCell rfl⟩
  edit id change := .changeCell id fun cell hf => (Cell.Counted.edit cell change hf).hold.trans hf
  removeAt id position := .changeCell id fun cell hf => (Cell.Counted.removeAt cell position hf).hold.trans hf
  advance _ := .withCursor
  drain _ := .withCursor
  recovering hf _ h := h.recovering fun s hs => hs.of_cells (hf s).cells

namespace Meaning

variable {message : String} {m m' : Meaning}

theorem unlocked_performStep (hm : m.Related (Unlocked message) m') {step : Step}
    (hs : ∀ name exclusive body, step ≠ .hold name exclusive body) :
    Unlocked message Answer (m.performStep step) (m'.performStep step) := by
  have hc := unlocked_compositional message
  by_cases hsingular : step.IsSingular
  · cases hsingular with
    | hold name exclusive body => exact absurd rfl (hs name exclusive body)
    | visit name cursor =>
      change Unlocked message Answer (sharedRegister name >>= fun id => SharedOp.run m id (.visit cursor))
        (sharedRegister name >>= fun id => SharedOp.run m' id (.visit cursor))
      refine hc.bind (hc.sharedRegister name) fun id => hc.bind (hc.readCell id) fun cell => ?_
      exact hc.bind (.update fun s h => h.of_cells rfl) fun _ => hc.pure _
    | drop name cursor =>
      exact hc.bind (hc.read _) fun _ => hc.bind (.update fun s h => h.of_cells rfl) fun _ => hc.pure _
    | chooseWarnings on => exact hc.bind (.update fun s h => h.of_cells rfl) fun _ => hc.pure _
    | askWarnings => exact .same fun s h => ⟨nofun, h.of_cells rfl⟩
    | warn message => exact hc.bind (.same fun s h => ⟨nofun, h.of_cells rfl⟩) fun _ => hc.pure _
  · exact hc.performStep hm hsingular

theorem upTo_unlocked (message : String) (depth : Nat) :
    (upTo depth).Related (Unlocked message) (withoutHolds message depth) := by
  have hc := unlocked_compositional message
  induction depth with
  | zero => exact ⟨fun _ => hc.interrupt nofun, fun _ _ => hc.interrupt nofun, fun _ => hc.interrupt nofun⟩
  | succ depth ih =>
    refine ⟨hc.writeElement ih, hc.equalElements ih, fun step => ?_⟩
    cases step with
    | hold name exclusive body => exact fun _ _ => .inl rfl
    | _ => exact unlocked_performStep ih nofun

end Meaning

theorem Meaning.perform_written {m : Meaning} {name : String} {s t : Session} {answer : Answer}
    (h : m.performStep (.shared name .written) s = (.ok answer, t)) :
    ∃ id text, s.shared.get? name = some id ∧ answer = .text text ∧ writeCell m.write id s = (.ok text, t) := by
  cases hname : s.shared.get? name with
  | none =>
    have hnone : m.performStep (.shared name .written) s = (.error .undefined, s) :=
      (bind_ok rfl).trans (bind_error (required_of_none hname))
    rw [hnone] at h
    cases h
  | some id =>
    rw [performStep_shared (o := .written) rfl hname] at h
    obtain ⟨text, u, hwrite, h⟩ := bind_eq_ok h
    cases h
    exact ⟨id, text, rfl, rfl, hwrite⟩

/-- Whatever was done before, and whatever the next step does at whatever depth and however it ends, no deque stays held
or marked. If the step ends in a borrow conflict it has come upon a hold that begins in the step itself, and if it
writes a deque then the mark does not stand for the whole of it. -/
theorem locks_given_back (hooks : List (String × Hook)) (environment : Option String) (depth : Nat) (steps : List Step)
    (n : Nat) (step : Step) :
    let s : Session := { Session.endOf (Meaning.upTo depth) steps (.start hooks environment) with
      events := [], printed := "" }
    s.Released ∧ ((Meaning.upTo n).perform step s).2.Released ∧
      (((Meaning.upTo n).perform step s).1 = .error (.panic .borrowed) → ∀ message,
        ((Meaning.withoutHolds message n).perform step s).1 = .error (.panic (.raised message))) ∧
      ∀ name text, step = .shared name .written → ((Meaning.upTo n).perform step s).1 = .ok (.text text) →
        text ≠ Deque.recursionMark ∧ ∃ id texts, s.shared.get? name = some id ∧
          text = Deque.written texts (s.cell id).deque.bound := by
  intro s
  have hproper : s.Proper := ((Session.proper_start hooks environment).endOf depth steps).apart
    ⟨⟨rfl, rfl, rfl, rfl⟩, rfl, rfl, rfl⟩
  have hrestored : Session.Restores (Session.endOf (Meaning.upTo depth) steps (.start hooks environment)) s :=
    .of_cells rfl rfl
  have hreleased : s.Released := hrestored.released (Session.released_endOf hooks environment depth steps)
  refine ⟨hreleased, hproper.released_perform hreleased n step, fun hconflict message => ?_, ?_⟩
  · have hunheld : s.Unheld := fun id => (hreleased.idle id).free
    rcases (Meaning.upTo_unlocked message n).perform step s hunheld with hraised | ⟨_, hno, _⟩
    · exact hraised
    · exact absurd hconflict hno
  · rintro name text rfl htext
    cases n with
    | zero => cases htext
    | succ n =>
      obtain ⟨t, hrun⟩ : ∃ t, (Meaning.upTo n).performStep (.shared name .written) s = (.ok (.text text), t) :=
        ⟨_, Prod.ext htext rfl⟩
      obtain ⟨id, found, hname, hanswer, hwrite⟩ := Meaning.perform_written hrun
      cases hanswer
      have hunmarked := (hreleased.idle id).unmarked
      cases cellWritten_of_ok hproper n (hproper.shared name id hname) hwrite with
      | inside hmarked => exact absurd hmarked (by rw [hunmarked]; decide)
      | still _ _ _ => exact ⟨Deque.written_ne_mark _ _, id, _, hname, rfl⟩
      | mutated _ _ _ => exact ⟨Deque.written_ne_mark _ _, id, _, hname, rfl⟩

/-- An element panics when it is written for the first time, here as part of a deque inside another. -/
def Session.panickyHooks : List (String × Hook) := [("h", ⟨"h", true, some 1, [.panic "stop"], []⟩)]

/-- A body panics while the outer deque is held, and then an element while both deques are being written. -/
def Session.panickySteps : List Step :=
  [.createShared "d" (.items [.link (.hook "h")] none), .createShared "e" (.items [.link (.own "d")] none),
    .hold "e" true [.inr (.panic "stop")], .shared "e" .written]

def Session.afterPanics : Session :=
  { endOf (Meaning.upTo 5) panickySteps (.start panickyHooks none) with events := [], printed := "" }

theorem locks_given_back_after_panics :
    Session.afterPanics.Released ∧
      ((Meaning.upTo 5).perform (.shared "e" .written) Session.afterPanics).1 = .ok (.text "deque([deque([h])])") ∧
      "deque([deque([h])])" ≠ Deque.recursionMark ∧
      ((Meaning.upTo 5).perform (.hold "d" true [.inr (.shared "d" (.edit .clear))]) Session.afterPanics).1 =
        .error (.panic .borrowed) ∧
      ∀ message, ((Meaning.withoutHolds message 5).perform (.hold "d" true [.inr (.shared "d" (.edit .clear))])
        Session.afterPanics).1 = .error (.panic (.raised message)) := by
  obtain ⟨hreleased, _, _, hwritten⟩ :=
    locks_given_back Session.panickyHooks none 5 Session.panickySteps 5 (.shared "e" .written)
  obtain ⟨_, _, hconflict, _⟩ := locks_given_back Session.panickyHooks none 5 Session.panickySteps 5
    (.hold "d" true [.inr (.shared "d" (.edit .clear))])
  exact ⟨hreleased, rfl, (hwritten "e" _ rfl rfl).1, rfl, hconflict rfl⟩

end EvictingDeque
