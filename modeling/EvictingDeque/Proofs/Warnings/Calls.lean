import EvictingDeque.Proofs.Warnings.Switch
import EvictingDeque.Proofs.Warnings.Trails
import EvictingDeque.Proofs.Writing.Snapshot

set_option autoImplicit false

/-!
# The warning switch decides once

What a run prints, and what it answers to whoever asks about warnings, follows from the calls that its switch has had,
in whichever order they came. `Session.Attributed` says whose calls these are.
-/
namespace EvictingDeque

open Action

namespace Session

variable {environment : Option String} {s t u : Session}

/-- The later calls go on from the earlier ones, and what has been printed meanwhile is what they print. -/
structure Told (environment : Option String) (s t : Session) : Prop where
  coherent : t.warnings.Coherent environment
  calls : ∃ later, t.warnings.calls = later ++ s.warnings.calls
  printed : ∃ more, Warning.lines environment t.warnings.calls = Warning.lines environment s.warnings.calls ++ more ∧
    t.printed = s.printed ++ String.join more

theorem Told.trans (hst : s.Told environment t) (htu : t.Told environment u) : s.Told environment u := by
  obtain ⟨later, hcalls⟩ := hst.calls
  obtain ⟨later', hcalls'⟩ := htu.calls
  obtain ⟨more, hlines, hprinted⟩ := hst.printed
  obtain ⟨more', hlines', hprinted'⟩ := htu.printed
  refine ⟨htu.coherent, ⟨later' ++ later, ?_⟩, more ++ more', ?_, ?_⟩
  · rw [hcalls', hcalls, List.append_assoc]
  · rw [hlines', hlines, List.append_assoc]
  · rw [hprinted', hprinted, String.join_append, String.append_assoc]

theorem Told.quiet (ht : t.warnings.Coherent environment) (hcalls : ∃ later, t.warnings.calls = later ++ s.warnings.calls)
    (hlines : Warning.lines environment t.warnings.calls = Warning.lines environment s.warnings.calls)
    (hprinted : t.printed = s.printed) : s.Told environment t :=
  ⟨ht, hcalls, [], by rw [hlines, List.append_nil], by rw [hprinted, String.join_nil, String.append_empty]⟩

end Session

end EvictingDeque
