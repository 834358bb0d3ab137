import EvictingDeque.Warning
import Mathlib.Data.List.Basic

set_option autoImplicit false

/-!
# What the calls of a warning switch come to

The calls that a switch has had say everything about it: what the environment imposes if it imposes anything, otherwise
the first choice among them. So they also say what each of them was answered and what each of them printed. Calls stand
with the latest first throughout.
-/
namespace EvictingDeque.Warning

def Call.choice? : Call → Option Bool
  | .choose on => some on
  | _ => none

/-- Whether warnings are on after these calls. -/
def decided (environment : Option String) (calls : List Call) : Bool :=
  (imposedBy environment).getD ((calls.filterMap Call.choice?).getLast?.getD true)

/-- What these calls have printed, in the order in which it was printed. -/
def lines (environment : Option String) : List Call → List String
  | [] => []
  | .warn message :: before => lines environment before ++ if decided environment before then [line message] else []
  | _ :: before => lines environment before

variable {environment : Option String} {calls before later : List Call}

theorem choices_choose (on : Bool) (calls : List Call) :
    (.choose on :: calls).filterMap Call.choice? = on :: calls.filterMap Call.choice? :=
  List.filterMap_cons_some rfl

/-- Whoever asked was answered what the calls before had decided. -/
def Answered (environment : Option String) (calls : List Call) : Prop :=
  ∀ later answer before, calls = later ++ .ask answer :: before → answer = decided environment before

theorem Answered.cons (h : Answered environment calls) {call : Call}
    (hcall : ∀ answer, call = .ask answer → answer = decided environment calls) :
    Answered environment (call :: calls) := by
  intro later answer before heq
  cases later with
  | nil =>
    obtain ⟨rfl, rfl⟩ := List.cons.inj heq
    exact hcall answer rfl
  | cons first later => exact h later answer before (List.cons.inj heq).2

/-- How the switch stands after these calls, once the environment has been consulted. -/
def settled (environment : Option String) (calls : List Call) : Setting :=
  match imposedBy environment, (calls.filterMap Call.choice?).getLast? with
  | some on, _ => .imposed on
  | none, some on => .chosen on
  | none, none => .unset

theorem settled_choose (on : Bool) (calls : List Call) :
    settled environment (.choose on :: calls) =
      match settled environment calls with
      | .unset => .chosen on
      | setting => setting := by
  have hlast : ((Call.choose on :: calls).filterMap Call.choice?).getLast? =
      some ((calls.filterMap Call.choice?).getLast?.getD on) := by
    rw [choices_choose, List.getLast?_cons]
  unfold settled
  rw [hlast]
  cases imposedBy environment with
  | some imposed => rfl
  | none => cases (calls.filterMap Call.choice?).getLast? <;> rfl

namespace Switch

variable {switch : Switch}

theorem consult_calls (switch : Switch) : switch.consult.calls = switch.calls := by
  unfold consult
  split
  · rfl
  · split <;> rfl

theorem consulted_consult (switch : Switch) : switch.consult.consulted = true := by
  unfold consult
  split
  · assumption
  · split <;> rfl

theorem consult_of_consulted (h : switch.consulted = true) : switch.consult = switch := by simp [consult, h]

theorem choose_eq (switch : Switch) (on : Bool) :
    switch.choose on = ⟨switch.consult.environment, true,
      match switch.consult.setting with
      | .unset => .chosen on
      | setting => setting, .choose on :: switch.calls⟩ := by
  rw [← consult_calls, ← consulted_consult switch]
  unfold choose
  dsimp only [called]
  cases switch.consult.setting <;> rfl

/-- The switch stands where its calls have brought it. -/
structure Coherent (environment : Option String) (switch : Switch) : Prop where
  setting : switch.consult.setting = settled environment switch.calls
  answers : Answered environment switch.calls

theorem Coherent.allows (h : switch.Coherent environment) :
    switch.consult.allows = decided environment switch.calls := by
  unfold Switch.allows decided
  rw [h.setting]
  unfold settled
  cases imposedBy environment with
  | some on => rfl
  | none => cases (switch.calls.filterMap Call.choice?).getLast? <;> rfl

/-- A call that chooses nothing is only written down. -/
theorem Coherent.called (h : switch.Coherent environment) {call : Call} (hchoice : call.choice? = none)
    (hcall : ∀ answer, call = .ask answer → answer = decided environment switch.calls) :
    (switch.consult.called call).Coherent environment where
  setting := by
    have hconsulted : (switch.consult.called call).consult = switch.consult.called call :=
      consult_of_consulted (consulted_consult switch)
    rw [hconsulted]
    change switch.consult.setting = settled environment (call :: switch.consult.calls)
    rw [consult_calls, h.setting]
    unfold settled
    rw [List.filterMap_cons_none hchoice]
  answers := by
    change Answered environment (call :: switch.consult.calls)
    rw [consult_calls]
    exact h.answers.cons hcall

theorem Coherent.ask (h : switch.Coherent environment) : switch.ask.2.Coherent environment :=
  h.called rfl fun answer ha => by
    cases ha
    exact h.allows

theorem Coherent.warn (h : switch.Coherent environment) (message : String) :
    (switch.warn message).2.Coherent environment :=
  h.called rfl nofun

theorem Coherent.choose (h : switch.Coherent environment) (on : Bool) : (switch.choose on).Coherent environment := by
  rw [choose_eq]
  refine ⟨?_, h.answers.cons nofun⟩
  rw [consult_of_consulted rfl, settled_choose, ← h.setting]

end Switch

end EvictingDeque.Warning
