import EvictingDeque.Proofs.Interpreter.Outcomes
import EvictingDeque.Proofs.Interpreter.Steps

set_option autoImplicit false

/-!
# Who comes to the warning switch

Apart from the steps that come to the switch themselves, only the writing of a deque that is changed meanwhile does. So
a relation between an earlier and a later session that holds across that warning holds across every step that comes to
no such step. Such a relation is a trail.
-/
namespace EvictingDeque

open Action

structure Session.Trail where
  rel : Session → Session → Prop
  trans : ∀ {s t u}, rel s t → rel t u → rel s u
  mute : ∀ {s t}, Session.Mute s t → rel s t
  warned : ∀ s, rel s (warn Warning.changedWhileWritten s).2

/-- The second action stops, or both do the same and the relation holds across it. -/
def Action.Along (stops : Interrupt → Prop) (T : Session.Trail) : ActionRel := fun _ a b => ∀ s,
  (∃ cause, stops cause ∧ (b s).1 = .error cause) ∨ b s = a s ∧ T.rel s (a s).2

namespace Action.Along

variable {stops : Interrupt → Prop} {T : Session.Trail} {α β : Type} {a b : Action α}

theorem same (h : ∀ s, T.rel s (a s).2) : Along stops T α a a := fun s => .inr ⟨rfl, h s⟩

theorem muted (h : ∀ s, Session.Mute s (a s).2) : Along stops T α a a := same fun s => T.mute (h s)

theorem bind {f g : α → Action β} (h : Along stops T α a b) (hf : ∀ value, Along stops T β (f value) (g value)) :
    Along stops T β (a >>= f) (b >>= g) := by
  intro s
  rcases h s with ⟨cause, hstops, hb⟩ | ⟨heq, hrel⟩
  · rcases hrun : b s with ⟨outcome, t⟩
    rw [hrun] at hb
    cases hb
    exact .inl ⟨cause, hstops, by rw [bind_error hrun]⟩
  · rcases ha : a s with ⟨cause | value, t⟩ <;> rw [ha] at heq hrel
    · rw [bind_error ha, bind_error heq]
      exact .inr ⟨rfl, hrel⟩
    · rw [bind_ok ha, bind_ok heq]
      rcases hf value t with hstopped | ⟨hnext, hrel'⟩
      · exact .inl hstopped
      · exact .inr ⟨hnext, T.trans hrel hrel'⟩

theorem update {f : Session → Session} (hf : ∀ s, Session.Mute s (f s)) :
    Along stops T Unit (Action.update f) (Action.update f) := muted hf

/-- Whatever is done at the end of an action in any case. -/
theorem ensuring (h : Along stops T α a b) {finish : Session → Session} (hf : ∀ s, Session.Mute s (finish s)) :
    Along stops T α (a.ensuring finish) (b.ensuring finish) := by
  intro s
  rcases h s with hstopped | ⟨heq, hrel⟩
  · exact .inl hstopped
  · refine .inr ⟨?_, T.trans hrel (T.mute (hf _))⟩
    simp only [Action.ensuring, heq]

theorem recovering (h : Along stops T α a b) {recover : Session → Session} (hf : ∀ s, Session.Mute s (recover s)) :
    Along stops T α (a.recovering recover) (b.recovering recover) := by
  intro s
  rcases h s with ⟨cause, hstops, hb⟩ | ⟨heq, hrel⟩
  · rcases hrun : b s with ⟨outcome, t⟩
    rw [hrun] at hb
    cases hb
    exact .inl ⟨cause, hstops, by simp only [Action.recovering, hrun]⟩
  · refine .inr ⟨by simp only [Action.recovering, heq], ?_⟩
    rcases ha : a s with ⟨cause | value, t⟩ <;> rw [ha] at hrel <;> simp only [Action.recovering, ha]
    · exact T.trans hrel (T.mute (hf t))
    · exact hrel

theorem pinning (h : Along stops T α a b) (ids : List Nat) : Along stops T α (pinning ids a) (pinning ids b) := by
  intro s
  have hbefore : T.rel s { s with pinned := ids ++ s.pinned } := T.mute ⟨rfl, rfl⟩
  rcases h { s with pinned := ids ++ s.pinned } with hstopped | ⟨heq, hrel⟩
  · exact .inl hstopped
  · refine .inr ⟨by simp only [Action.pinning, heq], ?_⟩
    exact T.trans hbefore (T.trans hrel (T.mute ⟨rfl, rfl⟩))

theorem readCell (id : Nat) : Along stops T _ (readCell id) (readCell id) := muted fun s => by
  unfold Action.readCell
  dsimp only
  split <;> exact ⟨rfl, rfl⟩

theorem changeCell (id : Nat) (change : Cell Element → α × Cell Element) :
    Along stops T _ (changeCell id change) (changeCell id change) := muted fun s => by
  unfold Action.changeCell
  dsimp only
  split <;> exact ⟨rfl, rfl⟩

theorem sequential (stops : Interrupt → Prop) (T : Session.Trail) : ActionRel.Sequential (Along stops T) where
  pure _ := muted fun _ => ⟨rfl, rfl⟩
  bind := bind
  interrupt _ := muted fun _ => ⟨rfl, rfl⟩
  read _ := muted fun _ => ⟨rfl, rfl⟩

theorem withCursor {name : String} {visit : Cursor → Cell Element → β × Cursor}
    {happening : String → Nat → β → Happening} :
    Along stops T _ (withCursor name visit happening) (withCursor name visit happening) := muted fun s => by
  rcases hrun : Action.withCursor name visit happening s with ⟨outcome, t⟩
  obtain ⟨rfl, _⟩ | ⟨_, _, _, _, rfl⟩ := withCursor_cases hrun <;> exact ⟨rfl, rfl⟩

theorem writeCell {write write' : Element → Action String}
    (hw : ∀ element, Along stops T String (write element) (write' element)) (id : Nat) :
    Along stops T String (writeCell write id) (writeCell write' id) := by
  have hs := sequential stops T
  intro s
  have hmark : Along stops T Unit (Action.update (mark id)) (Action.update (mark id)) := update fun _ => ⟨rfl, rfl⟩
  have hunmark (u : Session) : Session.Mute u (unmark id u) := by
    unfold unmark
    split <;> exact ⟨rfl, rfl⟩
  unfold Action.writeCell
  dsimp only
  split
  · exact .inr ⟨rfl, T.mute ⟨rfl, rfl⟩⟩
  · split
    · exact .inr ⟨rfl, T.mute ⟨rfl, rfl⟩⟩
    · refine hs.bind (hs.bind hmark fun _ => ?_) (fun text => ?_) s
      · exact ((hs.writeItems hw _).pinning _).ensuring hunmark
      · refine hs.bind (readCell id) fun after => ?_
        split
        · exact hs.bind (same T.warned) fun _ => hs.pure text
        · exact hs.pure text

theorem holdingForReading (h : Along stops T α a b) (id : Nat) :
    Along stops T α (holdingForReading id a) (holdingForReading id b) := by
  have hs := sequential stops T
  refine hs.bind (readCell id) fun _ => hs.bind (update fun _ => ⟨rfl, rfl⟩) fun _ => ?_
  exact (h.pinning [id]).ensuring fun _ => ⟨rfl, rfl⟩

theorem holdingForChange (h : Along stops T α a b) (id : Nat) :
    Along stops T α (holdingForChange id a) (holdingForChange id b) := by
  have hs := sequential stops T
  have hcut (s : Session) : Session.Mute s (s.note (.cutShort id)) := ⟨rfl, rfl⟩
  have hfree (s : Session) : Session.Mute s (setHold id (fun _ => .free) s) := ⟨rfl, rfl⟩
  refine hs.bind (changeCell id _) fun _ => ensuring (recovering ?_ hcut) hfree
  exact hs.bind (h.pinning [id]) fun value => hs.bind (update fun _ => ⟨rfl, rfl⟩) fun _ => hs.pure value

end Action.Along

namespace Meaning

variable {stops : Interrupt → Prop} {T : Session.Trail} {m m' : Meaning}

end Meaning

end EvictingDeque
