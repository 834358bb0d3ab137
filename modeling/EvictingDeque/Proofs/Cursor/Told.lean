import EvictingDeque.Proofs.Interpreter.Cells

set_option autoImplicit false

/-!
# What a cursor tells

`Cursor.Answers` is one call of a cursor that visits a snapshot: from what it had left to what it has left after the
call. A cursor that has told of a mutation, or has come to the end, has nothing left, not even an empty rest. `Told`
puts calls in a row. A session's journal holds the calls that were really made.
-/
namespace EvictingDeque

/-- What a cursor was asked when its deque had seen so many mutations, and what it answered. -/
inductive Cursor.Call where
  | next (mutations : Nat) (visit : Option (Except Refusal Element))
  | collect (mutations : Nat) (visits : List (Except Refusal Element))

namespace Cursor.Call

/-- What the step answers that makes the call. -/
def answer : Call → Answer
  | .next _ none => .nothing
  | .next _ (some visit) => Action.answerElement visit
  | .collect _ visits =>
    match Cursor.collected visits with
    | .ok values => .elements values
    | .error refusal => .refused refusal

def mutations : Call → Nat
  | .next mutations _ => mutations
  | .collect mutations _ => mutations

end Cursor.Call

namespace Happening

def call? (name : String) : Happening → Option Cursor.Call
  | .advanced cursor mutations visit => if cursor = name then some (.next mutations visit) else none
  | .drained cursor mutations visits => if cursor = name then some (.collect mutations visits) else none
  | _ => none

/-- The register no longer holds the cursor that was made, or a change of its deque was cut short uncounted. -/
def Disturbs (name : String) (id : Nat) : Happening → Prop
  | .made cursor _ _ _ => cursor = name
  | .dropped cursor => cursor = name
  | .cutShort cell => cell = id
  | _ => False

/-- The calls of a cursor in a part of the journal, the first of them first. -/
def calls (name : String) (journal : List Happening) : List Cursor.Call := journal.reverse.filterMap (call? name)

theorem calls_cons (name : String) (happening : Happening) (journal : List Happening) :
    calls name (happening :: journal) = calls name journal ++ (happening.call? name).toList := by
  unfold calls
  rw [List.reverse_cons, List.filterMap_append]
  cases h : happening.call? name <;> simp [h]

end Happening

namespace Cursor

inductive Answers (mutations : Nat) : Option (List Element) → Call → Option (List Element) → Prop
  | visit (value : Element) (rest : List Element) :
      Answers mutations (some (value :: rest)) (.next mutations (some (.ok value))) (some rest)
  | finish : Answers mutations (some []) (.next mutations none) none
  | report {seen : Nat} (rest : List Element) (moved : seen ≠ mutations) :
      Answers mutations (some rest) (.next seen (some (.error .changedDuringVisit))) none
  | over (seen : Nat) : Answers mutations none (.next seen none) none
  | collect (rest : List Element) : Answers mutations (some rest) (.collect mutations (rest.map .ok)) none
  | reportAll {seen : Nat} (rest : List Element) (moved : seen ≠ mutations) :
      Answers mutations (some rest) (.collect seen [.error .changedDuringVisit]) none
  | collectOver (seen : Nat) : Answers mutations none (.collect seen []) none

inductive Told (mutations : Nat) : Option (List Element) → List Call → Option (List Element) → Prop
  | nothing (unvisited : Option (List Element)) : Told mutations unvisited [] unvisited
  | call {before between after : Option (List Element)} {call : Call} {calls : List Call}
      (first : Answers mutations before call between) (rest : Told mutations between calls after) :
      Told mutations before (call :: calls) after

theorem Told.append {mutations : Nat} {before between after : Option (List Element)} {calls more : List Call}
    (h : Told mutations before calls between) (hm : Told mutations between more after) :
    Told mutations before (calls ++ more) after := by
  induction h with
  | nothing _ => exact hm
  | call first _ ih => exact .call first (ih hm)

theorem Answers.told {mutations : Nat} {before after : Option (List Element)} {call : Call}
    (h : Answers mutations before call after) : Told mutations before [call] after := .call h (.nothing _)

/-- The register holds a cursor that was made after so many mutations and has this much left. While the deque is held
for change, nothing is said of its elements. -/
structure Followed (name : String) (id mutations : Nat) (unvisited : Option (List Element)) (s : Session) : Prop where
  counted : mutations ≤ (s.cell id).mutations
  cursor : ∃ position, s.cursors.get? name = some ⟨id, position, mutations, unvisited.isNone⟩ ∧
    ∀ rest, unvisited = some rest → (s.cell id).mutations = mutations → (s.cell id).hold ≠ .exclusive →
      (s.cell id).deque.items.drop position = rest

variable {name : String} {id mutations : Nat} {unvisited : Option (List Element)} {s t : Session}

/-- A cursor that is finished has nothing left. -/
theorem Followed.over {position : Nat} (hle : mutations ≤ (s.cell id).mutations)
    (hcursor : s.cursors.get? name = some ⟨id, position, mutations, true⟩) : Followed name id mutations none s :=
  ⟨hle, position, hcursor, fun _ h => by cases h⟩

/-- A cell with the same elements after the same mutations, held for change only if the first one was. -/
theorem Followed.of_same (h : Followed name id mutations unvisited s)
    (hm : (t.cell id).mutations = (s.cell id).mutations) (hd : (t.cell id).deque = (s.cell id).deque)
    (hh : (s.cell id).hold = .exclusive → (t.cell id).hold = .exclusive)
    (hcursor : t.cursors.get? name = s.cursors.get? name) : Followed name id mutations unvisited t := by
  obtain ⟨hle, position, hget, hrest⟩ := h
  refine ⟨hm ▸ hle, position, hcursor.trans hget, fun rest hu hs hopen => ?_⟩
  rw [hd]
  exact hrest rest hu (hm ▸ hs) fun he => hopen (hh he)

/-- An advance tells what is next. -/
theorem Followed.advance (h : Followed name id mutations unvisited s) {cursor : Cursor}
    (hget : s.cursors.get? name = some cursor)
    (hallowed : cursor.finished = true ∨ (s.cell cursor.cell).hold.allowsReading = true)
    (happening : Happening) :
    ∃ after, Answers mutations unvisited
        (.next (s.cell cursor.cell).mutations (cursor.advance (s.cell cursor.cell)).1) after ∧
      Followed name id mutations after
        ({ s with cursors := s.cursors.put name (cursor.advance (s.cell cursor.cell)).2 }.note happening) := by
  obtain ⟨hle, position, hfound, hrest⟩ := h
  cases hget.symm.trans hfound
  have hcursor := Table.get?_put_self s.cursors name
    (Cursor.advance ⟨id, position, mutations, unvisited.isNone⟩ (s.cell id)).2
  cases unvisited with
  | none => exact ⟨none, .over _, .over hle hcursor⟩
  | some rest =>
    have hopen : (s.cell id).hold ≠ .exclusive := Cell.ne_exclusive (hallowed.resolve_left nofun)
    by_cases hm : (s.cell id).mutations = mutations
    · have hdrop : (s.cell id).deque.items.drop position = rest := hrest rest rfl hm hopen
      cases rest with
      | nil =>
        have hn : (s.cell id).deque.get? position = none := by
          simpa [Deque.get?] using hdrop
        have ha : Cursor.advance ⟨id, position, mutations, false⟩ (s.cell id) =
            (none, ⟨id, position, mutations, true⟩) := by simp [Cursor.advance, hm, hn]
        simp only [Option.isNone_some, ha, hm] at hcursor ⊢
        exact ⟨none, .finish, .over hle hcursor⟩
      | cons value rest =>
        have hsome : (s.cell id).deque.get? position = some value := by
          simpa [Deque.get?, List.head?_drop] using congrArg List.head? hdrop
        have hnext : (s.cell id).deque.items.drop (position + 1) = rest := by
          simpa [List.tail_drop] using congrArg List.tail hdrop
        have ha : Cursor.advance ⟨id, position, mutations, false⟩ (s.cell id) =
            (some (.ok value), ⟨id, position + 1, mutations, false⟩) := by simp [Cursor.advance, hm, hsome]
        simp only [Option.isNone_some, ha, hm] at hcursor ⊢
        refine ⟨some rest, .visit value rest, hle, position + 1, hcursor, fun other ho _ _ => ?_⟩
        exact hnext.trans (Option.some.inj ho)
    · have ha : Cursor.advance ⟨id, position, mutations, false⟩ (s.cell id) =
          (some (.error .changedDuringVisit), ⟨id, position, mutations, true⟩) := by simp [Cursor.advance, hm]
      simp only [Option.isNone_some, ha] at hcursor ⊢
      exact ⟨none, .report rest hm, .over hle hcursor⟩

/-- A drain tells all that is left. -/
theorem Followed.drain (h : Followed name id mutations unvisited s) {cursor : Cursor}
    (hget : s.cursors.get? name = some cursor)
    (hallowed : cursor.finished = true ∨ (s.cell cursor.cell).hold.allowsReading = true)
    (happening : Happening) :
    ∃ after, Answers mutations unvisited
        (.collect (s.cell cursor.cell).mutations (cursor.drain (s.cell cursor.cell)).1) after ∧
      Followed name id mutations after
        ({ s with cursors := s.cursors.put name (cursor.drain (s.cell cursor.cell)).2 }.note happening) := by
  obtain ⟨hle, position, hfound, hrest⟩ := h
  cases hget.symm.trans hfound
  have hcursor := Table.get?_put_self s.cursors name
    (Cursor.drain ⟨id, position, mutations, unvisited.isNone⟩ (s.cell id)).2
  cases unvisited with
  | none => exact ⟨none, .collectOver _, .over hle hcursor⟩
  | some rest =>
    have hopen : (s.cell id).hold ≠ .exclusive := Cell.ne_exclusive (hallowed.resolve_left nofun)
    by_cases hm : (s.cell id).mutations = mutations
    · have hdrop : (s.cell id).deque.items.drop position = rest := hrest rest rfl hm hopen
      have ha : Cursor.drain ⟨id, position, mutations, false⟩ (s.cell id) =
          (rest.map .ok, ⟨id, max position (s.cell id).deque.length, mutations, true⟩) := by
        simp [Cursor.drain, hm, hdrop]
      simp only [Option.isNone_some, ha, hm] at hcursor ⊢
      exact ⟨none, .collect rest, .over hle hcursor⟩
    · have ha : Cursor.drain ⟨id, position, mutations, false⟩ (s.cell id) =
          ([.error .changedDuringVisit], ⟨id, position, mutations, true⟩) := by simp [Cursor.drain, hm]
      simp only [Option.isNone_some, ha] at hcursor ⊢
      exact ⟨none, .reportAll rest hm, .over hle hcursor⟩

end Cursor

end EvictingDeque
