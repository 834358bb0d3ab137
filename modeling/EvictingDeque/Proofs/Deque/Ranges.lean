import EvictingDeque.Proofs.Deque.Words
import EvictingDeque.Proofs.Interpreter.AtHand
import EvictingDeque.Proofs.Plain.Searching

set_option autoImplicit false

/-!
# Searches within limits

A search between two limits finds the least position that lies between them and holds an equal element, for all pairs
of limits, also those that lie beyond the deque or have nothing between them. Going on behind each hit visits all
positions that are counted.
-/
namespace EvictingDeque

open Action

namespace Span

/-- As `first`, within the word. -/
def firstInWord (span : Span) (length : Nat) : Nat :=
  match span.start with
  | .included position => min position length
  | .excluded position => min (Word.nextOrLargest position) length
  | .unlimited => min 0 length

/-- As `past`, within the word. -/
def pastInWord (span : Span) (length : Nat) : Nat :=
  match span.stop with
  | .included position => min (Word.nextOrLargest position) length
  | .excluded position => min position length
  | .unlimited => min length length

theorem firstInWord_eq (span : Span) {length : Nat} (hl : length ≤ Word.largestSize) :
    span.firstInWord length = span.first length := by
  unfold firstInWord first
  cases span.start with
  | included position => rfl
  | excluded position => exact Word.min_nextOrLargest hl position
  | unlimited => exact Nat.zero_min length

theorem pastInWord_eq (span : Span) {length : Nat} (hl : length ≤ Word.largestSize) :
    span.pastInWord length = span.past length := by
  unfold pastInWord past
  cases span.stop with
  | included position => exact Word.min_nextOrLargest hl position
  | excluded position => rfl
  | unlimited => exact Nat.min_self length

theorem past_le (span : Span) (length : Nat) : span.past length ≤ length := by
  unfold past
  cases span.stop <;> dsimp only <;> omega

end Span

/-- The elements between two positions, which have to be in order and within the list. -/
def slice? {α : Type} (items : List α) (start stop : Nat) : Option (List α) :=
  if start ≤ stop ∧ stop ≤ items.length then some ((items.drop start).take (stop - start)) else none

namespace Deque

variable {α : Type} [BEq α] {d : Deque α} {value : α}

/-- The position holds an equal element. -/
def Holds (d : Deque α) (value : α) (position : Nat) : Prop :=
  ∃ stored, d.items[position]? = some stored ∧ (stored == value) = true

/-- As `indexWithin`, within the word: nothing if the word is left or the slice is none of the deque. -/
def indexWithinWord? (d : Deque α) (value : α) (span : Span) : Option (Except Refusal Nat) :=
  let start := span.firstInWord d.items.length
  let stop := span.pastInWord d.items.length
  if stop ≤ start then some (.error .notFound)
  else do
    let part ← slice? d.items start stop
    match part.findIdx? (fun stored => stored == value) with
    | none => return .error .notFound
    | some offset => return .ok (← Word.sum? start offset)

theorem indexWithinWord?_eq (hl : d.items.length ≤ Word.largestSize) (value : α) (span : Span) :
    d.indexWithinWord? value span = some (d.indexWithin value span) := by
  unfold indexWithinWord? indexWithin
  dsimp only
  rw [span.firstInWord_eq hl, span.pastInWord_eq hl]
  by_cases hempty : span.past d.items.length ≤ span.first d.items.length
  · rw [if_pos hempty, if_pos hempty]
  · have hstop := span.past_le d.items.length
    have hslice : slice? d.items (span.first d.items.length) (span.past d.items.length) = some _ :=
      if_pos ⟨by omega, hstop⟩
    rw [if_neg hempty, if_neg hempty, hslice, Option.bind_eq_bind, Option.bind_some]
    cases hfound : ((d.items.drop (span.first d.items.length)).take
        (span.past d.items.length - span.first d.items.length)).findIdx? (fun stored => stored == value) with
    | none => rfl
    | some offset =>
      have hoffset := (List.findIdx?_eq_some_iff_getElem.1 hfound).1
      rw [List.length_take, List.length_drop] at hoffset
      simp only [Word.sum?_of_le (a := span.first d.items.length) (b := offset) (by omega)]
      rfl

/-- The least position within the limits that holds an equal element. -/
structure Found (d : Deque α) (value : α) (span : Span) (position : Nat) : Prop where
  covered : span.Covers position
  holds : d.Holds value position
  least : ∀ earlier < position, span.Covers earlier → ¬ d.Holds value earlier

theorem Holds.lt {position : Nat} (h : d.Holds value position) : position < d.items.length := by
  obtain ⟨_, hstored, _⟩ := h
  exact (List.getElem?_eq_some_iff.1 hstored).1

theorem Found.unique {span : Span} {first second : Nat} (hfirst : d.Found value span first)
    (hsecond : d.Found value span second) : first = second := by
  rcases Nat.lt_trichotomy first second with hlt | heq | hlt
  · exact absurd hfirst.holds (hsecond.least first hlt hfirst.covered)
  · exact heq
  · exact absurd hsecond.holds (hfirst.least second hlt hsecond.covered)

/-- An equal element within the limits is in the slice. -/
theorem Holds.in_slice {span : Span} {position : Nat} (h : d.Holds value position) (hc : span.Covers position) :
    ∃ stored offset, position = span.first d.items.length + offset ∧
      ((d.items.drop (span.first d.items.length)).take (span.past d.items.length - span.first d.items.length))[offset]? =
        some stored ∧ (stored == value) = true := by
  obtain ⟨hfirst, hpast⟩ := (span.covers_iff h.lt).1 hc
  obtain ⟨stored, hstored, heq⟩ := h
  obtain ⟨offset, rfl⟩ := Nat.exists_eq_add_of_le hfirst
  refine ⟨stored, offset, rfl, ?_, heq⟩
  rw [List.getElem?_take_of_lt (by omega), List.getElem?_drop, hstored]

/-- The search ends with the least position there is, or else there is none. -/
theorem indexWithin_cases (d : Deque α) (value : α) (span : Span) :
    (∃ position, d.indexWithin value span = .ok position ∧ d.Found value span position) ∨
      d.indexWithin value span = .error .notFound ∧ ∀ position, span.Covers position → ¬ d.Holds value position := by
  unfold indexWithin
  dsimp only
  split
  · refine .inr ⟨rfl, fun position hc hh => ?_⟩
    have hcut := (span.covers_iff hh.lt).1 hc
    omega
  · split
    · rename_i hnone
      refine .inr ⟨rfl, fun position hc hh => ?_⟩
      obtain ⟨stored, offset, _, hstored, heq⟩ := hh.in_slice hc
      have hmiss := List.findIdx?_eq_none_iff.1 hnone stored (List.mem_of_getElem? hstored)
      exact Bool.eq_false_iff.1 hmiss heq
    · rename_i offset hsome
      obtain ⟨hlt, heq, hearlier⟩ := List.findIdx?_eq_some_iff_getElem.1 hsome
      have hend := span.past_le d.items.length
      have hoffset := hlt
      rw [List.length_take, List.length_drop] at hoffset
      refine .inl ⟨_, rfl, ?_, ?_, ?_⟩
      · exact (span.covers_iff (by omega)).2 ⟨Nat.le_add_right _ _, by omega⟩
      · have hstored := List.getElem?_eq_getElem hlt
        rw [List.getElem?_take_of_lt (by omega), List.getElem?_drop] at hstored
        exact ⟨_, hstored, heq⟩
      · intro earlier hbefore hc hh
        obtain ⟨stored, place, rfl, hstored, hequal⟩ := hh.in_slice hc
        obtain ⟨_, hget⟩ := List.getElem?_eq_some_iff.1 hstored
        exact hearlier place (by omega) (hget ▸ hequal)

theorem indexWithin_eq_ok_iff {span : Span} {position : Nat} :
    d.indexWithin value span = .ok position ↔ d.Found value span position := by
  rcases indexWithin_cases d value span with ⟨other, hok, hfound⟩ | ⟨herror, hnone⟩
  · rw [hok]
    refine ⟨fun h => ?_, fun h => congrArg _ (hfound.unique h)⟩
    cases h
    exact hfound
  · rw [herror]
    exact ⟨nofun, fun h => absurd h.holds (hnone position h.covered)⟩

theorem indexWithin_eq_notFound_iff {span : Span} :
    d.indexWithin value span = .error .notFound ↔ ∀ position, span.Covers position → ¬ d.Holds value position := by
  rcases indexWithin_cases d value span with ⟨position, hok, hfound⟩ | ⟨herror, hnone⟩
  · rw [hok]
    exact ⟨nofun, fun h => absurd hfound.holds (h position hfound.covered)⟩
  · exact ⟨fun _ => hnone, fun _ => herror⟩

/-- The hits of a search that goes on behind each of them until there is none. -/
inductive Visits (d : Deque α) (value : α) : Limit → List Nat → Prop
  | done {start : Limit} (none : d.indexWithin value ⟨start, .unlimited⟩ = .error .notFound) : Visits d value start []
  | hit {start : Limit} {position : Nat} {later : List Nat}
      (found : d.indexWithin value ⟨start, .unlimited⟩ = .ok position)
      (rest : Visits d value (.excluded position) later) : Visits d value start (position :: later)

theorem Visits.unique {start : Limit} {visited other : List Nat} (h : d.Visits value start visited)
    (ho : d.Visits value start other) : visited = other := by
  induction h generalizing other with
  | done none =>
    cases ho with
    | done _ => rfl
    | hit found _ =>
      rw [none] at found
      cases found
  | hit found _ ih =>
    cases ho with
    | done none =>
      rw [found] at none
      cases none
    | hit again rest =>
      rw [found] at again
      cases again
      rw [ih rest]

/-- A search that admits all positions from one on that hold an equal element visits these. -/
theorem visits_of_drop {items : List α} {position : Nat} {start : Limit} (hdrop : d.items.drop position = items)
    (hstart : ∀ other, d.Holds value other → ((⟨start, .unlimited⟩ : Span).Covers other ↔ position ≤ other)) :
    d.Visits value start (positionsOf position (items.map fun stored => stored == value)) := by
  induction items generalizing position start with
  | nil =>
    refine .done (indexWithin_eq_notFound_iff.2 fun other hc hh => ?_)
    have hlength := List.drop_eq_nil_iff.1 hdrop
    have hafter := (hstart other hh).1 hc
    have hbefore := hh.lt
    omega
  | cons item items ih =>
    have hitem : d.items[position]? = some item := by
      rw [← List.head?_drop, hdrop, List.head?_cons]
    have hrest : d.items.drop (position + 1) = items := by
      rw [← List.tail_drop, hdrop, List.tail_cons]
    cases hhit : item == value with
    | true =>
      have hholds : d.Holds value position := ⟨item, hitem, hhit⟩
      have hfound : d.Found value ⟨start, .unlimited⟩ position :=
        ⟨(hstart position hholds).2 (Nat.le_refl _), hholds, fun earlier hlt hc hh =>
          Nat.not_le.2 hlt ((hstart earlier hh).1 hc)⟩
      rw [List.map_cons, hhit]
      exact .hit (indexWithin_eq_ok_iff.2 hfound) (ih hrest fun _ _ => ⟨fun h => h.1, fun h => ⟨h, trivial⟩⟩)
    | false =>
      rw [List.map_cons, hhit]
      refine ih hrest fun other hh => (hstart other hh).trans ⟨fun hle => ?_, Nat.le_of_succ_le⟩
      refine Nat.lt_of_le_of_ne hle fun heq => ?_
      obtain ⟨stored, hstored, hequal⟩ := hh
      rw [← heq, hitem] at hstored
      cases hstored
      rw [hhit] at hequal
      cases hequal

theorem visits_positionsOf (d : Deque α) (value : α) :
    d.Visits value .unlimited (positionsOf 0 (d.items.map fun stored => stored == value)) :=
  visits_of_drop List.drop_zero fun other _ => ⟨fun _ => Nat.zero_le other, fun _ => ⟨trivial, trivial⟩⟩

/-- The visited positions are all those that hold an equal element, each once and in their order. -/
structure VisitsAll (d : Deque α) (value : α) (visited : List Nat) : Prop where
  visits : ∀ other, d.Visits value .unlimited other ↔ other = visited
  ordered : visited.Pairwise (· < ·)
  complete : ∀ position, position ∈ visited ↔ d.Holds value position
  counted : visited.length = d.count value

theorem visitsAll (d : Deque α) (value : α) :
    d.VisitsAll value (positionsOf 0 (d.items.map fun stored => stored == value)) where
  visits other := by
    refine ⟨fun h => h.unique (d.visits_positionsOf value), ?_⟩
    rintro rfl
    exact d.visits_positionsOf value
  ordered := pairwise_positionsOf 0 _
  complete position := by
    rw [mem_positionsOf]
    simp [Holds]
  counted := by
    rw [length_positionsOf, List.count, List.countP_map, count]
    congr 1
    funext stored
    simp

/-- A search between limits ends in every case: with the least position there is, or because there is none. -/
structure SearchesExactly (d : Deque α) (value : α) : Prop where
  found : ∀ span position, d.indexWithin value span = .ok position ↔ d.Found value span position
  notFound : ∀ span, d.indexWithin value span = .error .notFound ↔
    ∀ position, span.Covers position → ¬ d.Holds value position
  inWord : d.items.length ≤ Word.largestSize →
    ∀ span, d.indexWithinWord? value span = some (d.indexWithin value span)
  repeated : ∃ visited, d.VisitsAll value visited

theorem searchesExactly (d : Deque α) (value : α) : d.SearchesExactly value where
  found _ _ := indexWithin_eq_ok_iff
  notFound _ := indexWithin_eq_notFound_iff
  inWord hl span := indexWithinWord?_eq hl value span
  repeated := ⟨_, d.visitsAll value⟩

end Deque

/-- The answers of a register's deque to a search within limits and to counting, where comparing is no more than a
comparison: those of the deque, and nothing else happens. -/
structure Session.SearchesAlike (m : Meaning) (s : Session) (name : String) (sought : Literal) (d : Deque Element)
    (value : Element) (same : BEq Element) : Prop where
  within : ∀ span, m.perform (.owned name (.indexWithin sought span)) s =
    (.ok (answerSize (d.indexWithin value span)), s)
  counted : m.perform (.owned name (.ask (.count sought))) s = (.ok (.size (d.count value)), s)

namespace Meaning.Quiet

variable {m : Meaning} {same : BEq Element} {s : Session} {d : Deque Element} {value : Element}

theorem run_indexWithin (h : m.Quiet same.beq d.items [value] s) (span : Span) :
    (OwnedOp.indexWithin value span).run m d s = (.ok (answerSize (d.indexWithin value span), d), s) := by
  have hslice : ∀ start count, m.Quiet same.beq ((d.items.drop start).take count) [value] s :=
    fun start count stored hs => h stored (List.mem_of_mem_drop (List.mem_of_mem_take hs))
  refine (bind_ok ((hslice _ _).locateIn List.mem_cons_self true)).trans ?_
  refine congrArg (fun answer => (Except.ok (answer, d), s)) (congrArg answerSize ?_)
  rw [Plain.firstOf_eq]
  unfold Deque.indexWithin Deque.length
  dsimp only
  by_cases hempty : span.past d.items.length ≤ span.first d.items.length
  · rw [if_pos hempty, Nat.sub_eq_zero_of_le hempty, List.take_zero]
    rfl
  · rw [if_neg hempty]
    cases ((d.items.drop (span.first d.items.length)).take
      (span.past d.items.length - span.first d.items.length)).findIdx? (fun stored => same.beq stored value) <;> rfl

theorem run_count (h : m.Quiet same.beq d.items [value] s) :
    (OwnedOp.ask (.count value)).run m d s = (.ok (.size (d.count value), d), s) := by
  have hquery : runQuery (pure d) (Action.locateIn m d.items) (.count value) s = (.ok (.size (d.count value)), s) :=
    Plain.runQuery_eq (.count value) rfl fun _ hv => h.locateIn hv
  exact bind_ok hquery

theorem pinned (h : m.Quiet same.beq d.items [value] s) (ids : List Nat) :
    m.Quiet same.beq d.items [value] { s with pinned := ids } := h

theorem searchesAlike (h : m.Quiet same.beq d.items [value] s) {name : String} {sought : Literal}
    (hname : s.ownedDeque? name = some d) (hvalue : resolve sought s = (.ok value, s)) :
    s.SearchesAlike m.next name sought d value same where
  within span := by
    have hop : (OwnedOp.indexWithin sought span).mapM resolve s = (.ok (.indexWithin value span), s) := bind_ok hvalue
    exact m.runOwned_of_resolved hop hname ((h.pinned _).run_indexWithin span)
  counted := by
    have hquery : (Query.count sought).mapM resolve s = (.ok (.count value), s) := bind_ok hvalue
    have hop : (OwnedOp.ask (.count sought)).mapM resolve s = (.ok (.ask (.count value)), s) := bind_ok hquery
    exact m.runOwned_of_resolved hop hname (h.pinned _).run_count

end Meaning.Quiet

/-- For every deque, value, and pair of limits, whatever equality there is, and so for the registers of a session. -/
theorem search_within_exact :
    (∀ {α : Type} [BEq α] (d : Deque α) (value : α), d.SearchesExactly value) ∧
      ∀ (m : Meaning) (s : Session) (name : String) (sought : Literal) (d : Deque Element) (value : Element)
        (same : BEq Element), s.ownedDeque? name = some d → resolve sought s = (.ok value, s) →
        m.Quiet same.beq d.items [value] s → s.SearchesAlike m.next name sought d value same :=
  ⟨fun d value => d.searchesExactly value, fun _ _ _ _ _ _ _ hname hvalue hquiet => hquiet.searchesAlike hname hvalue⟩

/-- At the largest position a span ends with the deque. Behind it there is nothing, nor between limits in the wrong
order. -/
theorem search_within_exact_extreme :
    let d : Deque Nat := ⟨[1, 2, 1], none⟩
    let s := putOwned "o" ⟨[.int 7, .int 8, .int 7], none⟩ (Session.start [] none)
    d.Found 1 ⟨.excluded 0, .included Word.largestSize⟩ 2 ∧
      (∀ position, Span.Covers ⟨.excluded Word.largestSize, .unlimited⟩ position → ¬ d.Holds 1 position) ∧
      (∀ position, Span.Covers ⟨.included 2, .excluded 1⟩ position → ¬ d.Holds 1 position) ∧
      d.indexWithinWord? 1 ⟨.excluded Word.largestSize, .included Word.largestSize⟩ = some (.error .notFound) ∧
      (Meaning.upTo 2).perform (.owned "o" (.indexWithin (.int 7) ⟨.excluded 0, .included Word.largestSize⟩)) s =
        (.ok (.size 2), s) := by
  intro d s
  have hd := search_within_exact.1 d 1
  have hquiet : (Meaning.upTo 1).Quiet Value.sameAtom [.int 7, .int 8, .int 7] [.int 7] s := by
    intro stored hstored value hvalue pins
    cases List.mem_singleton.1 hvalue
    rcases List.mem_cons.1 hstored with rfl | hstored
    · rfl
    · rcases List.mem_cons.1 hstored with rfl | hstored
      · rfl
      · cases List.mem_singleton.1 hstored
        rfl
  have hs := search_within_exact.2 (Meaning.upTo 1) s "o" (.int 7) ⟨[.int 7, .int 8, .int 7], none⟩ (.int 7)
    ⟨Value.sameAtom⟩ rfl rfl hquiet
  exact ⟨(hd.found _ 2).1 rfl, (hd.notFound _).1 rfl, (hd.notFound _).1 rfl, hd.inWord (by decide) _,
    hs.within ⟨.excluded 0, .included Word.largestSize⟩⟩

end EvictingDeque
