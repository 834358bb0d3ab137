import EvictingDeque.Proofs.Plain.Model
import EvictingDeque.Proofs.Search.Comparisons

set_option autoImplicit false

/-!
# Searches among elements whose comparisons do nothing

Going through positions, of a deque at hand or of a shared one, finds what the plain model finds.
-/
namespace EvictingDeque

open Action

/-- A search that stops at the first hit finds one position at most. -/
def wanted (onlyFirst : Bool) (positions : List Nat) : List Nat := if onlyFirst then positions.take 1 else positions

namespace Action

variable {test : Element → Action Bool} {hit : Element → Bool} {onlyFirst : Bool} {items : List Element} {s : Session}

theorem positionsFrom_quiet (h : ∀ item ∈ items, test item s = (.ok (hit item), s)) (position : Nat)
    (found : List Nat) :
    positionsFrom test onlyFirst position found items s =
      (.ok (found.reverse ++ wanted onlyFirst (positionsOf position (items.map hit))), s) := by
  induction items generalizing position found with
  | nil => cases onlyFirst <;> simp [positionsFrom, positionsOf, wanted]
  | cons item items ih =>
    have hrest := ih fun other ho => h other (List.mem_cons_of_mem _ ho)
    rw [positionsFrom, bind_ok (h item List.mem_cons_self)]
    cases hi : hit item <;> cases onlyFirst <;> simp [hi, positionsOf, wanted, hrest]

theorem visit_quiet {id : Nat} {item : Element} (hr : (s.cell id).hold.allowsReading = true)
    (h : ∀ pins, test item { s with pinned := pins } = (.ok (hit item), { s with pinned := pins })) :
    visit id (s.cell id).mutations test item s = (.ok (some (hit item)), s) := by
  have hpinned : pinning item.owners (test item) s = (.ok (hit item), s) := by
    unfold pinning
    rw [h (item.owners ++ s.pinned)]
  unfold visit
  rw [bind_ok hpinned, bind_ok (readCell_of_reading hr), if_pos rfl]
  rfl

theorem scanFrom_quiet {id : Nat} (hr : (s.cell id).hold.allowsReading = true)
    (h : ∀ item ∈ items, ∀ pins, test item { s with pinned := pins } = (.ok (hit item), { s with pinned := pins }))
    (position : Nat) (found : List Nat) :
    scanFrom id (s.cell id).mutations test onlyFirst position found items s =
      (.ok (.ok (found.reverse ++ wanted onlyFirst (positionsOf position (items.map hit)))), s) := by
  induction items generalizing position found with
  | nil => cases onlyFirst <;> simp [scanFrom, positionsOf, wanted]
  | cons item items ih =>
    have hrest := ih fun other ho => h other (List.mem_cons_of_mem _ ho)
    rw [scanFrom, bind_ok (visit_quiet hr (h item List.mem_cons_self))]
    cases hi : hit item <;> cases onlyFirst <;> simp [hi, positionsOf, wanted, hrest]

end Action

/-- Comparing stored elements with a value answers as the fixed comparison does and leaves the session as it was,
whatever is kept alive meanwhile. -/
def Meaning.Quiet (m : Meaning) (same : Element → Element → Bool) (items values : List Element) (s : Session) : Prop :=
  ∀ stored ∈ items, ∀ value ∈ values, ∀ pins,
    m.equal stored value { s with pinned := pins } = (.ok (same stored value), { s with pinned := pins })

namespace Meaning.Quiet

variable {m : Meaning} {same : Element → Element → Bool} {items values : List Element} {s : Session} {value : Element}

/-- In a deque at hand. -/
theorem locateIn (h : m.Quiet same items values s) (hv : value ∈ values) (onlyFirst : Bool) :
    locateIn m items value onlyFirst s =
      (.ok (.ok (wanted onlyFirst (positionsOf 0 (items.map fun stored => same stored value)))), s) := by
  have hfound := @positionsFrom_quiet (fun stored => m.equal stored value) (fun stored => same stored value) onlyFirst
    items { s with pinned := value.owners ++ s.pinned } (fun stored hs => h stored hs value hv _) 0 []
  unfold Action.locateIn pinning
  rw [bind_ok hfound]
  rfl

/-- In a shared deque, which is left to nobody meanwhile and read again for every comparison. -/
theorem locateShared {id : Nat} (h : m.Quiet same (s.cell id).deque.items values s) (hv : value ∈ values)
    (hr : (s.cell id).hold.allowsReading = true) (onlyFirst : Bool) :
    locateShared m id value onlyFirst s =
      (.ok (.ok (wanted onlyFirst (positionsOf 0 ((s.cell id).deque.items.map fun stored => same stored value)))),
        s) := by
  let pinned : Session := { s with pinned := (id :: value.owners) ++ s.pinned }
  have hread : readCell id pinned = (.ok (s.cell id), pinned) := readCell_of_reading hr
  have hfound := @scanFrom_quiet (fun stored => m.equal stored value) (fun stored => same stored value) onlyFirst
    (s.cell id).deque.items pinned id hr (fun stored hs => h stored hs value hv) 0 []
  have hscan : scan id (fun stored => m.equal stored value) onlyFirst pinned =
      (.ok (.ok (wanted onlyFirst (positionsOf 0 ((s.cell id).deque.items.map fun stored => same stored value)))),
        pinned) := by
    unfold scan
    rw [bind_ok hread]
    exact hfound
  unfold Action.locateShared pinning
  rw [hscan]

end Meaning.Quiet

theorem idxOf?_map {α : Type} (hit : α → Bool) (items : List α) :
    (items.map hit).idxOf? true = items.findIdx? hit := by
  rw [List.idxOf?, List.findIdx?_map]
  congr 1
  funext item
  simp

theorem firstOf_wanted (positions : List Nat) : firstOf (.ok (wanted true positions)) = firstOf (.ok positions) := by
  cases positions <;> rfl

namespace Plain

variable {same : Element → Element → Bool} {s : Session} {items : List Element} {value : Element}

/-- The first position found is the one that the plain model finds. -/
theorem firstOf_eq :
    firstOf (.ok (wanted true (positionsOf 0 (items.map fun stored => same stored value)))) =
      (items.findIdx? fun stored => same stored value).elim (.error .notFound) .ok := by
  rw [firstOf_wanted, firstOf_positionsOf, idxOf?_map]
  cases items.findIdx? fun stored => same stored value <;> rfl

/-- However positions are found, it is the plain model's answer that is made of them. -/
theorem runQuery_eq {contents : Action (Deque Element)} {locate : Locate} {d : Deque Element} (asked : Query Element)
    (hc : contents s = (.ok d, s))
    (hl : ∀ value ∈ asked.sought, ∀ onlyFirst, locate value onlyFirst s =
      (.ok (.ok (wanted onlyFirst (positionsOf 0 (d.items.map fun stored => same stored value)))), s)) :
    runQuery contents locate asked s = (.ok (query same d.items asked), s) := by
  cases asked with
  | get index => exact bind_ok hc
  | toList => exact bind_ok hc
  | count value =>
    have hlocate := hl value List.mem_cons_self false
    have hcount : (wanted false (positionsOf 0 (d.items.map fun stored => same stored value))).length =
        d.items.countP fun stored => same stored value := by
      refine (length_positionsOf 0 _).trans ?_
      rw [List.count, List.countP_map]
      congr 1
      funext stored
      simp
    refine (bind_ok hlocate).trans ?_
    exact congrArg (fun size => (Except.ok (Answer.size size), s)) hcount
  | contains value =>
    have hlocate := hl value List.mem_cons_self true
    have hempty : (!(wanted true (positionsOf 0 (d.items.map fun stored => same stored value))).isEmpty) =
        d.items.any fun stored => same stored value := by
      have hany : (d.items.map fun stored => same stored value).contains true =
          d.items.any fun stored => same stored value := by
        rw [Bool.eq_iff_iff]
        simp
      rw [← hany, ← isEmpty_positionsOf]
      cases positionsOf 0 (d.items.map fun stored => same stored value) <;> rfl
    refine (bind_ok hlocate).trans ?_
    exact congrArg (fun flag => (Except.ok (Answer.flag flag), s)) hempty
  | index value =>
    have hlocate := hl value List.mem_cons_self true
    have hindex :
        answerSize (firstOf (.ok (wanted true (positionsOf 0 (d.items.map fun stored => same stored value))))) =
          query same d.items (.index value) := by
      rw [firstOf_eq]
      cases hf : d.items.findIdx? fun stored => same stored value <;> simp [query, hf, answerSize]
    refine (bind_ok hlocate).trans ?_
    exact congrArg (fun answer => (Except.ok answer, s)) hindex

end Plain

end EvictingDeque
