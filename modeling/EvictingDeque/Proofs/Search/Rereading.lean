import EvictingDeque.Proofs.Search.Comparisons

set_option autoImplicit false

/-!
# Reading again during a search

A search of a shared deque could also read the next element from the deque each time, which need not be the
deque it began with. It makes no difference: a comparison that changes the deque is counted and ends the search.
-/
namespace EvictingDeque

namespace Action

/-- As `scanFrom`, but each element is read when its turn comes. -/
def rereadFrom (id mutations : Nat) (test : Element → Action Bool) (onlyFirst : Bool) :
    Nat → Nat → List Nat → Action (Except Refusal (List Nat))
  | 0, _, found => return .ok found.reverse
  | visits + 1, position, found => do
    let cell ← readCell id
    match cell.deque.get? position with
    | none => return .ok found.reverse
    | some item =>
      match ← visit id mutations test item with
      | none => return .error .changedDuringVisit
      | some hit =>
        let found := if hit then position :: found else found
        if hit && onlyFirst then return .ok found.reverse
        else rereadFrom id mutations test onlyFirst visits (position + 1) found

theorem rereadFrom_eq_scanFrom {id mutations : Nat} {d : Deque Element} {test : Element → Action Bool}
    (ht : ∀ item, (test item).Safe Session.counted) (onlyFirst : Bool)
    (items : List Element) (visits position : Nat) (found : List Nat) (s : Session) (hs : s.Ready id d mutations)
    (hitems : d.items.drop position = items) (hl : items.length ≤ visits) :
    rereadFrom id mutations test onlyFirst visits position found s =
      scanFrom id mutations test onlyFirst position found items s := by
  induction items generalizing visits position found s with
  | nil =>
    cases visits with
    | zero => rfl
    | succ visits =>
      have hn : (s.cell id).deque.get? position = none := by
        rw [hs.deque]
        simpa [Deque.get?] using hitems
      have hc : readCell id s = (.ok (s.cell id), s) := readCell_of_reading (by rw [hs.free]; rfl)
      rw [rereadFrom, bind_ok hc, hn]
      rfl
  | cons item items ih =>
    cases visits with
    | zero => exact absurd hl (by simp)
    | succ visits =>
      have hn : (s.cell id).deque.get? position = some item := by
        rw [hs.deque]
        simpa [Deque.get?, List.head?_drop] using congrArg List.head? hitems
      have hnext : d.items.drop (position + 1) = items := by
        simpa [List.tail_drop] using congrArg List.tail hitems
      have hc : readCell id s = (.ok (s.cell id), s) := readCell_of_reading (by rw [hs.free]; rfl)
      rw [rereadFrom, bind_ok hc, hn, scanFrom]
      dsimp only
      rcases hv : visit id mutations test item s with ⟨_ | _ | hit, t⟩
      · rw [bind_error hv, bind_error hv]
      · rw [bind_ok hv, bind_ok hv]
      · rw [bind_ok hv, bind_ok hv]
        dsimp only
        split
        · rfl
        · rcases visit_cases ht hs hv with ⟨_, _, he⟩ | ⟨_, _, ⟨hready, _⟩ | ⟨_, he⟩⟩
          · cases he
          · exact ih visits (position + 1) _ t hready hnext (by simpa using hl)
          · cases he

/-- As `scan`, with so many visits at most. -/
def rescan (id visits : Nat) (test : Element → Action Bool) (onlyFirst : Bool) :
    Action (Except Refusal (List Nat)) := do
  let cell ← readCell id
  rereadFrom id cell.mutations test onlyFirst visits 0 []

theorem safe_equal (depth : Nat) (a b : Element) : ((Meaning.upTo depth).equal a b).Safe Session.counted :=
  (Meaning.upTo_safely Session.counted depth).equal a b

theorem rescan_eq_scan (depth : Nat) {s : Session} (hs : s.Proper) {id visits : Nat} (hid : id < s.nextCell)
    (hfree : (s.cell id).hold = .free) (hl : (s.cell id).deque.items.length ≤ visits) (value : Element)
    (onlyFirst : Bool) :
    rescan id visits (fun stored => (Meaning.upTo depth).equal stored value) onlyFirst s =
      scan id (fun stored => (Meaning.upTo depth).equal stored value) onlyFirst s := by
  have hread : readCell id s = (.ok (s.cell id), s) := readCell_of_reading (by rw [hfree]; rfl)
  unfold rescan scan
  rw [bind_ok hread, bind_ok hread]
  exact rereadFrom_eq_scanFrom (fun stored => safe_equal depth stored value) onlyFirst _ visits 0 [] s
    ⟨hs, hid, hfree, rfl, rfl⟩ rfl hl

end Action

end EvictingDeque
