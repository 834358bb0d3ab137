import EvictingDeque.Proofs.Interpreter.Cells

set_option autoImplicit false

/-!
# The comparisons of a search

A search of a shared deque runs whatever its comparisons run. `Compared` is the course of the comparisons: which
elements are compared, in which order, what each comparison answers and from which session to which they lead. Each
of them begins with the deque as the search found it.
-/
namespace EvictingDeque

open Action

/-- Nobody holds the deque, and it is what it was when the search began. -/
structure Session.Ready (id : Nat) (d : Deque Element) (mutations : Nat) (s : Session) : Prop where
  proper : s.Proper
  known : id < s.nextCell
  free : (s.cell id).hold = .free
  deque : (s.cell id).deque = d
  mutations : (s.cell id).mutations = mutations

/-- Where the hits are, counted from a position on. -/
def positionsOf : Nat → List Bool → List Nat
  | _, [] => []
  | position, true :: hits => position :: positionsOf (position + 1) hits
  | position, false :: hits => positionsOf (position + 1) hits

theorem length_positionsOf (position : Nat) (hits : List Bool) :
    (positionsOf position hits).length = hits.count true := by
  induction hits generalizing position with
  | nil => rfl
  | cons hit hits ih => cases hit <;> simp [positionsOf, ih]

theorem head?_positionsOf (position : Nat) (hits : List Bool) :
    (positionsOf position hits).head? = (hits.idxOf? true).map (position + ·) := by
  induction hits generalizing position with
  | nil => rfl
  | cons hit hits ih =>
    cases hit with
    | true => simp [positionsOf, List.idxOf?_cons]
    | false =>
      rw [positionsOf, ih, List.idxOf?_cons]
      cases hits.idxOf? true with
      | none => rfl
      | some offset => simp [Nat.add_comm, Nat.add_left_comm]

theorem mem_positionsOf {position other : Nat} {hits : List Bool} :
    other ∈ positionsOf position hits ↔ ∃ offset, other = position + offset ∧ hits[offset]? = some true := by
  induction hits generalizing position with
  | nil => simp [positionsOf]
  | cons hit hits ih =>
    have hlater : (∃ offset, other = position + 1 + offset ∧ hits[offset]? = some true) ↔
        ∃ offset, other = position + (offset + 1) ∧ (hit :: hits)[offset + 1]? = some true := by
      simp only [Nat.add_assoc, Nat.add_comm 1, List.getElem?_cons_succ]
    cases hit with
    | true =>
      rw [positionsOf, List.mem_cons, ih, hlater]
      constructor
      · rintro (rfl | ⟨offset, h⟩)
        · exact ⟨0, rfl, rfl⟩
        · exact ⟨offset + 1, h⟩
      · rintro ⟨_ | offset, h⟩
        · exact .inl h.1
        · exact .inr ⟨offset, h⟩
    | false =>
      rw [positionsOf, ih, hlater]
      constructor
      · rintro ⟨offset, h⟩
        exact ⟨offset + 1, h⟩
      · rintro ⟨_ | offset, h⟩
        · cases h.2
        · exact ⟨offset, h⟩

theorem pairwise_positionsOf (position : Nat) (hits : List Bool) : (positionsOf position hits).Pairwise (· < ·) := by
  induction hits generalizing position with
  | nil => exact .nil
  | cons hit hits ih =>
    cases hit with
    | true =>
      refine .cons (fun later hl => ?_) (ih _)
      obtain ⟨offset, rfl, _⟩ := mem_positionsOf.1 hl
      omega
    | false => exact ih _

namespace Action

variable {id mutations : Nat} {d : Deque Element} {test : Element → Action Bool} {s t : Session}

theorem firstOf_positionsOf (hits : List Bool) :
    firstOf (.ok (positionsOf 0 hits)) =
      match hits.idxOf? true with
      | none => .error .notFound
      | some position => .ok position := by
  have hh := head?_positionsOf 0 hits
  rcases hp : positionsOf 0 hits with _ | ⟨position, positions⟩ <;> rw [hp] at hh
  · cases hi : hits.idxOf? true with
    | none => rfl
    | some position => simp [hi] at hh
  · cases hi : hits.idxOf? true with
    | none => simp [hi] at hh
    | some first => simp_all [firstOf]

theorem isEmpty_positionsOf (hits : List Bool) : (!(positionsOf 0 hits).isEmpty) = hits.contains true := by
  have hl := length_positionsOf 0 hits
  rcases hp : positionsOf 0 hits with _ | ⟨position, positions⟩ <;> rw [hp] at hl
  · have hn : true ∉ hits := List.count_eq_zero.1 hl.symm
    simpa using hn
  · have hc : 0 < hits.count true := hl ▸ Nat.succ_pos _
    simpa using List.count_pos_iff.1 hc

/-- A comparison leaves the deque to nobody, and if its mutation count has not moved, as it was. -/
theorem pinning_test_cases (ht : ∀ item, (test item).Safe Session.counted) (hs : s.Ready id d mutations)
    {item : Element} {hit : Bool} (hrun : pinning item.owners (test item) s = (.ok hit, t)) :
    (t.cell id).hold = .free ∧ ((t.cell id).mutations = mutations → t.Ready id d mutations) := by
  obtain ⟨hproper, hle, hlasts⟩ := (ht item).pinning item.owners s t _ hs.proper hrun trivial
  have hcounted : Cell.Counted (s.cell id) (t.cell id) := hlasts.2 id hs.known
  have hfree : (t.cell id).hold = .free := hcounted.hold.trans hs.free
  refine ⟨hfree, fun hm => ⟨hproper, Nat.lt_of_lt_of_le hs.known hle, hfree, ?_, hm⟩⟩
  have hfits : (s.cell id).deque.Fits := (hs.proper.deques id).fits
  have hopen : (s.cell id).hold ≠ .exclusive := by
    rw [hs.free]
    nofun
  exact (hcounted.deque hfits hopen (hm.trans hs.mutations.symm)).trans hs.deque

theorem visit_cases (ht : ∀ item, (test item).Safe Session.counted)
    (hs : s.Ready id d mutations) {item : Element} {outcome : Except Interrupt (Option Bool)}
    (hrun : visit id mutations test item s = (outcome, t)) :
    (∃ cause, pinning item.owners (test item) s = (.error cause, t) ∧ outcome = .error cause) ∨
      ∃ hit, pinning item.owners (test item) s = (.ok hit, t) ∧
        (t.Ready id d mutations ∧ outcome = .ok (some hit) ∨
          (t.cell id).mutations ≠ mutations ∧ outcome = .ok none) := by
  rcases bind_cases hrun with ⟨cause, htest, rfl⟩ | ⟨hit, u, htest, hrun⟩
  · exact .inl ⟨cause, htest, rfl⟩
  obtain ⟨hfree, hready⟩ := pinning_test_cases ht hs htest
  have hread : readCell id u = (.ok (u.cell id), u) := readCell_of_reading (by rw [hfree]; rfl)
  rw [bind_ok hread] at hrun
  cases hrun
  refine .inr ⟨hit, htest, ?_⟩
  by_cases hm : (t.cell id).mutations = mutations
  · exact .inl ⟨hready hm, by rw [if_pos hm]⟩
  · exact .inr ⟨hm, by rw [if_neg hm]⟩

end Action

end EvictingDeque
