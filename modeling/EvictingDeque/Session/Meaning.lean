import EvictingDeque.Session.Access

set_option autoImplicit false

/-!
# Acting elements

Writing, comparing and performing steps call one another: an element may run scripts when it is written or
compared, and steps write and compare. `Meaning` is the three of them as they are used from inside;
everything else is defined over a given meaning.
-/
namespace EvictingDeque

structure Meaning where
  write : Element → Action String
  equal : Element → Element → Action Bool
  perform : Step → Action Answer

/-- Nothing has a meaning at depth zero. -/
def Meaning.tooDeep : Meaning where
  write _ := Action.interrupt .tooDeep
  equal _ _ := Action.interrupt .tooDeep
  perform _ := Action.interrupt .tooDeep

namespace Hook

/-- Each answer is reported as soon as its step is done; a panic ends the script. -/
def runScript (m : Meaning) (id : String) : List Step → Action Unit
  | [] => pure ()
  | step :: steps => do
    let answer ← m.perform step
    Action.update fun s => { s with events := (id, answer) :: s.events }
    runScript m id steps

/-- A script with steps uses up one of the times that the hook may act; without any left it is
skipped. -/
def act (m : Meaning) (id : String) (script : Hook → List Step) : Action Unit := fun s =>
  let hook := s.hook id
  if (script hook).isEmpty || hook.times == some 0 then (.ok (), s)
  else
    let used := { hook with times := hook.times.map (· - 1) }
    runScript m id (script hook) { s with hooks := s.hooks.put id used }

theorem act_of_empty (m : Meaning) {id : String} {script : Hook → List Step} {s : Session}
    (h : script (s.hook id) = []) : act m id script s = (.ok (), s) := by
  simp [act, h]

end Hook

end EvictingDeque
