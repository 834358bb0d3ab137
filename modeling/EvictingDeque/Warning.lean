set_option autoImplicit false

/-!
# The warning switch

Warnings are on by default. An environment variable holding exactly `0` or `1` decides for good.
Otherwise the first call that switches them on or off decides, and later ones change nothing. The
variable is read once, by whichever call comes first.
-/
namespace EvictingDeque.Warning

inductive Setting where
  | unset
  | chosen (on : Bool)
  | imposed (on : Bool)
deriving DecidableEq, Repr

/-- What statements about whole runs look back on: that warnings were switched on or off, that somebody asked and was
answered, and that a message was given to be printed. -/
inductive Call where
  | choose (on : Bool)
  | ask (answer : Bool)
  | warn (message : String)
deriving DecidableEq, Repr

/-- The latest call stands first. No answer depends on the calls. -/
structure Switch where
  environment : Option String
  consulted : Bool
  setting : Setting
  calls : List Call
deriving DecidableEq, Repr

def fresh (environment : Option String) : Switch := ⟨environment, false, .unset, []⟩

def imposedBy : Option String → Option Bool
  | some "0" => some false
  | some "1" => some true
  | _ => none

namespace Switch

/-- What the environment imposes replaces whatever stood there. -/
def consult (switch : Switch) : Switch :=
  if switch.consulted then switch
  else
    match imposedBy switch.environment with
    | none => { switch with consulted := true }
    | some on => { switch with consulted := true, setting := .imposed on }

def called (switch : Switch) (call : Call) : Switch := { switch with calls := call :: switch.calls }

/-- Only the first choice sticks, and only if the environment has not decided. -/
def choose (switch : Switch) (on : Bool) : Switch :=
  let switch := switch.consult.called (.choose on)
  match switch.setting with
  | .unset => { switch with setting := .chosen on }
  | _ => switch

def allows (switch : Switch) : Bool :=
  match switch.setting with
  | .unset => true
  | .chosen on => on
  | .imposed on => on

def ask (switch : Switch) : Bool × Switch :=
  let switch := switch.consult
  (switch.allows, switch.called (.ask switch.allows))

/-- Whether the message is to be printed. -/
def warn (switch : Switch) (message : String) : Bool × Switch :=
  let switch := switch.consult
  (switch.allows, switch.called (.warn message))

end Switch

def line (message : String) : String := "Warning: " ++ message ++ "\n"

/-- Shown when a deque was changed by its own elements while it was being written. -/
def changedWhileWritten : String :=
  "deque mutated during repr, output reflects its contents before formatting"

end EvictingDeque.Warning
