import EvictingDeque.Proofs.Interpreter.Steps

set_option autoImplicit false

/-!
# More depth changes nothing

Whatever does not go too deep happens in the same way at every greater depth.
-/
namespace EvictingDeque

open Action

/-- The second action does what the first does, unless that goes too deep. -/
def Action.Below : ActionRel := fun _ a b => ∀ s, (a s).1 ≠ .error .tooDeep → b s = a s

namespace Action.Below

variable {α β : Type} {a b : Action α}

theorem refl (a : Action α) : Below α a a := fun _ _ => rfl

theorem bind {f g : α → Action β} (h : Below α a b) (hf : ∀ value, Below β (f value) (g value)) :
    Below β (a >>= f) (b >>= g) := by
  intro s hs
  rcases ha : a s with ⟨cause | value, t⟩
  · rw [bind_error ha] at hs ⊢
    have hc : cause ≠ .tooDeep := fun hc => hs (congrArg Except.error hc)
    have hb : b s = (.error cause, t) := (h s (by rw [ha]; exact fun he => hc (Except.error.inj he))).trans ha
    exact bind_error hb
  · rw [bind_ok ha] at hs ⊢
    have hb : b s = (.ok value, t) := (h s (by rw [ha]; nofun)).trans ha
    rw [bind_ok hb]
    exact hf value t hs

theorem ensuring (h : Below α a b) (finish : Session → Session) :
    Below α (a.ensuring finish) (b.ensuring finish) := by
  intro s hs
  have hb : b s = a s := h s hs
  simp only [Action.ensuring, hb]

theorem pinning (h : Below α a b) (ids : List Nat) : Below α (pinning ids a) (pinning ids b) := by
  intro s hs
  have hb := h { s with pinned := ids ++ s.pinned } hs
  simp only [Action.pinning, hb]

theorem recovering (h : Below α a b) (recover : Session → Session) :
    Below α (a.recovering recover) (b.recovering recover) := by
  intro s hs
  have hb : b s = a s := by
    refine h s fun ha => hs ?_
    rcases he : a s with ⟨cause | value, t⟩
    · rw [he] at ha
      simp only [Action.recovering, he]
      exact ha
    · rw [he] at ha
      cases ha
  simp only [Action.recovering, hb]

end Action.Below

theorem below_sequential : ActionRel.Sequential Below where
  pure _ := .refl _
  bind := .bind
  interrupt _ := .refl _
  read _ := .refl _

namespace Action.Below

variable {α : Type} {a b : Action α}

theorem writeCell {write write' : Element → Action String}
    (hw : ∀ element, Below String (write element) (write' element)) (id : Nat) :
    Below String (writeCell write id) (writeCell write' id) := by
  intro s
  have hitems := below_sequential.writeItems hw
  unfold Action.writeCell
  dsimp only
  split
  · exact fun _ => rfl
  · split
    · exact fun _ => rfl
    · refine (Below.bind ?_ fun _ => refl _) s
      exact (refl _).bind fun _ => ((hitems _).pinning _).ensuring _

theorem holdingForReading (h : Below α a b) (id : Nat) :
    Below α (holdingForReading id a) (holdingForReading id b) :=
  (refl _).bind fun _ => (refl _).bind fun _ => (h.pinning _).ensuring _

theorem holdingForChange (h : Below α a b) (id : Nat) :
    Below α (holdingForChange id a) (holdingForChange id b) :=
  (refl _).bind fun _ => Below.ensuring (Below.recovering ((h.pinning _).bind fun _ => refl _) _) _

end Action.Below

theorem below_compositional : ActionRel.Compositional Below where
  toSequential := below_sequential
  readCell _ := .refl _
  pinning ids _ _ h := h.pinning ids
  writing := .writeCell
  aside _ _ := .refl _
  beside _ _ := .refl _
  newCell _ := .refl _
  edit _ _ := .refl _
  removeAt _ _ := .refl _
  advance _ := .refl _
  drain _ := .refl _
  recovering _ _ h := h.recovering _

namespace Meaning

variable {m m' : Meaning}

theorem below_runHeld (hm : m.Related Below m') (id : Nat) {op : OwnedOp Literal} (ho : op.changes = true) :
    Below Answer (m.runHeld id true op) (m'.runHeld id true op) := by
  unfold Meaning.runHeld
  rw [ho]
  refine Below.bind (.refl (op.mapM resolve)) fun resolved => Below.bind (.refl _) fun d => ?_
  exact (below_compositional.runOwnedOp hm d resolved).bind fun _ => .refl _

theorem below_performStep (hm : m.Related Below m') (step : Step) :
    Below Answer (m.performStep step) (m'.performStep step) := by
  by_cases hs : step.IsSingular
  · cases hs with
    | hold name exclusive body =>
      have hbody (id : Nat) : Below _ (m.runBody id exclusive body) (m'.runBody id exclusive body) :=
        below_compositional.runBody hm id (fun _ op ho => below_runHeld hm id ho) body
      refine (Below.refl _).bind fun id => ?_
      cases exclusive with
      | true => exact ((hbody id).holdingForChange id).bind fun _ => .refl _
      | false => exact ((hbody id).holdingForReading id).bind fun _ => .refl _
    | _ => exact .refl _
  · exact below_compositional.performStep hm hs

theorem below_next (hm : m.Related Below m') : m.next.Related Below m'.next where
  write := below_compositional.writeElement hm
  equal := below_compositional.equalElements hm
  perform := below_performStep hm

theorem tooDeep_below (m : Meaning) : tooDeep.Related Below m :=
  ⟨fun _ _ hs => absurd rfl hs, fun _ _ _ hs => absurd rfl hs, fun _ _ hs => absurd rfl hs⟩

theorem upTo_below {n k : Nat} (h : n ≤ k) : (upTo n).Related Below (upTo k) := by
  induction n generalizing k with
  | zero => exact tooDeep_below _
  | succ n ih =>
    cases k with
    | zero => exact absurd h (by omega)
    | succ k => exact below_next (ih (by omega))

end Meaning

end EvictingDeque
