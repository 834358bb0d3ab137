import EvictingDeque.Proofs.Interpreter.Cells

set_option autoImplicit false

/-!
# A shared deque is written as it was

Whatever writing the elements does, and wherever the writing begins: the text is that of the elements that the deque
held then. `CellWritten` says the rest, too: the mark, and the warning.
-/
namespace EvictingDeque

namespace Action

/-- Each element is written in the session that the writing of the elements before it left. -/
inductive InTurn (write : Element → Action String) : List Element → Session → List String → Session → Prop
  | nothing (s : Session) : InTurn write [] s [] s
  | element {value : Element} {values : List Element} {s t u : Session} {text : String} {texts : List String}
      (first : write value s = (.ok text, t)) (rest : InTurn write values t texts u) :
      InTurn write (value :: values) s (text :: texts) u

variable {write : Element → Action String} {id : Nat} {s t : Session} {text : String}

theorem inTurn_of_mapM {values : List Element} {texts : List String} (h : values.mapM write s = (.ok texts, t)) :
    InTurn write values s texts t := by
  induction values generalizing s texts with
  | nil =>
    rw [List.mapM_nil] at h
    cases h
    exact .nothing _
  | cons value values ih =>
    rw [List.mapM_cons] at h
    obtain ⟨first, u, hfirst, h⟩ := bind_eq_ok h
    obtain ⟨rest, v, hrest, h⟩ := bind_eq_ok h
    cases h
    exact .element hfirst (ih hrest)

/-- The session in which the elements of a deque begin to be written. -/
def opened (id : Nat) (s : Session) : Session :=
  { mark id s with pinned := (id :: (s.cell id).deque.owners) ++ s.pinned }

/-- The session when they have been written, with the mark gone. -/
def closed (id : Nat) (s u : Session) : Session := unmark id { u with pinned := s.pinned }

/-- What the writing of a shared deque comes to. The one warning is for a deque that has been mutated. -/
inductive CellWritten (write : Element → Action String) (id : Nat) (s : Session) : String → Session → Prop
  | inside (marked : (s.cell id).formatting = true) : CellWritten write id s Deque.recursionMark s
  | still {texts : List String} {u : Session} (unmarked : (s.cell id).formatting = false)
      (elements : InTurn write (s.cell id).deque.items (opened id s) texts u)
      (same : (u.cell id).mutations = (s.cell id).mutations) :
      CellWritten write id s (Deque.written texts (s.cell id).deque.bound) (closed id s u)
  | mutated {texts : List String} {u : Session} (unmarked : (s.cell id).formatting = false)
      (elements : InTurn write (s.cell id).deque.items (opened id s) texts u)
      (more : (s.cell id).mutations < (u.cell id).mutations) :
      CellWritten write id s (Deque.written texts (s.cell id).deque.bound)
        (warn Warning.changedWhileWritten (closed id s u)).2

theorem cell_opened (id : Nat) (s : Session) : (opened id s).cell id = { s.cell id with formatting := true } :=
  Session.cell_mark id s

theorem cell_opened_of_ne {other : Nat} (h : id ≠ other) (s : Session) : (opened id s).cell other = s.cell other :=
  Session.cell_mark_of_ne h s

theorem cell_closed {u : Session} (hf : (u.cell id).hold = .free) :
    (closed id s u).cell id = { u.cell id with formatting := false } := by
  unfold closed
  rw [Session.cell_unmark]
  exact if_pos hf

theorem elements_apply {u : Session} {outcome : Except Interrupt String}
    (h : writeItems write (s.cell id).deque (opened id s) = (outcome, u)) :
    (do
      update (mark id)
      (pinning (id :: (s.cell id).deque.owners) (writeItems write (s.cell id).deque)).ensuring (unmark id) :
      Action String) s = (outcome, closed id s u) := by
  rw [bind_ok (update_apply (mark id) s)]
  unfold ensuring pinning
  change (match writeItems write (s.cell id).deque (opened id s) with
    | (outcome, after) => (outcome, unmark id { after with pinned := s.pinned })) = _
  rw [h]
  rfl

/-- The mark goes and the warning comes, whatever the elements have done, unless they were interrupted. -/
theorem writeCell_of_elements {u : Session} (hf : (s.cell id).hold = .free) (hm : (s.cell id).formatting = false)
    (helements : writeItems write (s.cell id).deque (opened id s) = (.ok text, u)) (hu : (u.cell id).hold = .free) :
    writeCell write id s =
      (.ok text, if (u.cell id).mutations ≠ (s.cell id).mutations then
        (warn Warning.changedWhileWritten (closed id s u)).2 else closed id s u) := by
  have hopen : ((closed id s u).cell id).hold.allowsReading = true := by
    rw [cell_closed hu]
    exact congrArg Hold.allowsReading hu
  simp only [writeCell, hf, hm, ne_eq, not_true_eq_false, if_false, Bool.false_eq_true]
  rw [bind_ok (elements_apply helements), bind_ok (readCell_of_reading hopen), cell_closed hu]
  split <;> rfl

theorem writeCell_of_interrupted {u : Session} {cause : Interrupt} (hf : (s.cell id).hold = .free)
    (hm : (s.cell id).formatting = false)
    (helements : writeItems write (s.cell id).deque (opened id s) = (.error cause, u)) :
    writeCell write id s = (.error cause, closed id s u) := by
  simp only [writeCell, hf, hm, ne_eq, not_true_eq_false, if_false, Bool.false_eq_true]
  rw [bind_error (elements_apply helements)]

/-- What is left of a writing that may begin. -/
theorem writeCell_of_unmarked (hf : (s.cell id).hold = .free) (hm : (s.cell id).formatting = false) :
    writeCell write id s = (do
      let text ← (do
        update (mark id)
        (pinning (id :: (s.cell id).deque.owners) (writeItems write (s.cell id).deque)).ensuring (unmark id))
      let after ← readCell id
      if after.mutations ≠ (s.cell id).mutations then warn Warning.changedWhileWritten
      return text : Action String) s := by
  simp only [writeCell, hf, hm, ne_eq, not_true_eq_false, if_false, Bool.false_eq_true]

theorem writeCell_of_marked (hf : (s.cell id).hold = .free) (hm : (s.cell id).formatting = true) :
    writeCell write id s = (.ok Deque.recursionMark, s) := by
  simp [writeCell, hf, hm]

theorem writeCell_of_held (hf : (s.cell id).hold ≠ .free) :
    writeCell write id s = (.error (.panic .borrowed), s) := by
  simp [writeCell, hf]

theorem free_of_writeCell (h : writeCell write id s = (.ok text, t)) : (s.cell id).hold = .free := by
  unfold writeCell at h
  dsimp only at h
  split at h
  · cases h
  · rename_i hf
    exact Decidable.not_not.1 hf

theorem orderly_opened (hs : s.Proper) (depth : Nat) (hid : id < s.nextCell) {u : Session}
    {outcome : Except Interrupt String}
    (h : writeItems (Meaning.upTo depth).write (s.cell id).deque (opened id s) = (outcome, u)) :
    Cell.Orderly { s.cell id with formatting := true } (u.cell id) := by
  have hopened : (opened id s).Proper := (hs.mark id).pinned _
  have hsafe := safe_writeItems (fun element => (Meaning.upTo_safely Session.orderly depth).write element)
    (s.cell id).deque
  have hrel := (hsafe _ _ _ hopened h (calm_always _)).2.2.2 id hid
  rwa [cell_opened] at hrel

/-- Every writing of a shared deque, at any depth and inside whatever else, unless it is interrupted. -/
theorem cellWritten_of_ok (hs : s.Proper) (depth : Nat) (hid : id < s.nextCell)
    (h : writeCell (Meaning.upTo depth).write id s = (.ok text, t)) :
    CellWritten (Meaning.upTo depth).write id s text t := by
  have hf := free_of_writeCell h
  cases hm : (s.cell id).formatting with
  | true =>
    rw [writeCell_of_marked hf hm] at h
    cases h
    exact .inside hm
  | false =>
    rcases hw : writeItems (Meaning.upTo depth).write (s.cell id).deque (opened id s) with ⟨cause | found, u⟩
    · rw [writeCell_of_interrupted hf hm hw] at h
      cases h
    · have hu := orderly_opened hs depth hid hw
      rw [writeCell_of_elements hf hm hw (hu.hold.trans hf)] at h
      cases h
      obtain ⟨texts, v, hmap, hdone⟩ := bind_eq_ok hw
      cases hdone
      have helements := inTurn_of_mapM hmap
      have hle : (s.cell id).mutations ≤ (u.cell id).mutations := hu.mutations
      by_cases hsame : (u.cell id).mutations = (s.cell id).mutations
      · rw [if_neg (Decidable.not_not.2 hsame)]
        exact .still hm helements hsame
      · rw [if_pos hsame]
        exact .mutated hm helements (by omega)

end Action

end EvictingDeque
