import EvictingDeque.Proofs.Interpreter.AtHand
import EvictingDeque.Proofs.Locks.Released
import EvictingDeque.Proofs.Plain.Steps

set_option autoImplicit false

/-!
# Removing until nothing is found

A removal that is repeated until it finds nothing takes out the elements that equal a value, front to back, and leaves the
others as they stood. So the searches agree with it: what they find or count is what it takes out. Nothing is assumed of
equality, not even that an element equals itself.
-/
namespace EvictingDeque

open Action

/-- What is taken out one after the other, until nothing is found, and what is left then. -/
inductive Drained {σ α : Type} (takes : σ → α → σ → Prop) (findsNothing : σ → Prop) : σ → List α → σ → Prop
  | done {s : σ} (stop : findsNothing s) : Drained takes findsNothing s [] s
  | taken {s t u : σ} {value : α} {values : List α} (take : takes s value t)
      (rest : Drained takes findsNothing t values u) : Drained takes findsNothing s (value :: values) u

/-- Each time either one element is taken out or nothing is found, so there is no choice. -/
theorem Drained.unique {σ α : Type} {takes : σ → α → σ → Prop} {findsNothing : σ → Prop}
    (htakes : ∀ s value t other u, takes s value t → takes s other u → value = other ∧ t = u)
    (hstop : ∀ s value t, takes s value t → ¬ findsNothing s) {s t u : σ} {values others : List α}
    (h : Drained takes findsNothing s values t) (ho : Drained takes findsNothing s others u) :
    values = others ∧ t = u := by
  induction h generalizing others with
  | done stop =>
    cases ho with
    | done _ => exact ⟨rfl, rfl⟩
    | taken take _ => exact absurd stop (hstop _ _ _ take)
  | taken take _ ih =>
    cases ho with
    | done stop => exact absurd stop (hstop _ _ _ take)
    | taken again rest =>
      obtain ⟨rfl, rfl⟩ := htakes _ _ _ _ _ take again
      obtain ⟨rfl, rfl⟩ := ih rest
      exact ⟨rfl, rfl⟩

namespace Deque

variable {α : Type} [BEq α] {d e : Deque α} {value : α}

/-- The elements that equal the value, in their order. -/
def equals (d : Deque α) (value : α) : List α := d.items.filter fun stored => stored == value

/-- The deque without them. -/
def without (d : Deque α) (value : α) : Deque α := ⟨d.items.filter fun stored => !(stored == value), d.bound⟩

/-- Removals of the value until none is found. -/
abbrev Drains (value : α) : Deque α → List α → Deque α → Prop :=
  Drained (fun d stored e => d.remove value = .ok (stored, e)) fun d => d.remove value = .error .notFound

theorem index_eq (d : Deque α) (value : α) :
    d.index value = (d.items.findIdx? fun stored => stored == value).elim (.error .notFound) .ok := by
  unfold index indexWithin Span.whole Span.first Span.past
  dsimp only
  by_cases hempty : d.items.length ≤ 0
  · rw [if_pos hempty, List.length_eq_zero_iff.1 (Nat.le_zero.1 hempty)]
    rfl
  · rw [if_neg hempty, List.drop_zero, Nat.sub_zero, List.take_length]
    cases d.items.findIdx? fun stored => stored == value with
    | none => rfl
    | some position => exact congrArg Except.ok (Nat.zero_add position)

/-- The first element that equals the value leaves from between those before it and those behind it. -/
inductive TakesFirst (d : Deque α) (value stored : α) : Deque α → Prop
  | between (before after : List α) (items : d.items = before ++ stored :: after)
      (earlier : ∀ other ∈ before, (other == value) = false) (equal : (stored == value) = true) :
      TakesFirst d value stored ⟨before ++ after, d.bound⟩

theorem remove_cases (d : Deque α) (value : α) :
    (d.remove value = .error .notFound ∧ ∀ stored ∈ d.items, (stored == value) = false) ∨
      ∃ stored e, d.remove value = .ok (stored, e) ∧ d.TakesFirst value stored e := by
  have hremove : d.remove value =
      (d.items.findIdx? fun stored => stored == value).elim (.error .notFound) d.removeAt := by
    unfold remove
    rw [index_eq]
    cases d.items.findIdx? fun stored => stored == value <;> rfl
  cases hfound : d.items.findIdx? fun stored => stored == value with
  | none => exact .inl ⟨by rw [hremove, hfound]; rfl, List.findIdx?_eq_none_iff.1 hfound⟩
  | some position =>
    obtain ⟨hlt, hequal, hearlier⟩ := List.findIdx?_eq_some_iff_getElem.1 hfound
    refine .inr ⟨d.items[position], ⟨d.items.take position ++ d.items.drop (position + 1), d.bound⟩, ?_, ?_⟩
    · rw [hremove, hfound]
      simp [removeAt, List.getElem?_eq_getElem hlt, List.eraseIdx_eq_take_drop_succ]
    · refine .between _ _ ?_ (fun other ho => ?_) hequal
      · rw [List.getElem_cons_drop, List.take_append_drop]
      · obtain ⟨place, hplace, rfl⟩ := List.mem_take_iff_getElem.1 ho
        exact Bool.eq_false_iff.2 (hearlier place (by omega))

theorem takesFirst_of_remove {stored : α} (h : d.remove value = .ok (stored, e)) : d.TakesFirst value stored e := by
  rcases d.remove_cases value with ⟨hremove, _⟩ | ⟨_, _, hremove, htakes⟩ <;> rw [hremove] at h <;> cases h
  exact htakes

theorem index_of_remove {stored : α} (h : d.remove value = .ok (stored, e)) :
    ∃ position, d.index value = .ok position ∧ d.removeAt position = .ok (stored, e) := by
  unfold remove at h
  cases hindex : d.index value with
  | error refusal =>
    rw [hindex] at h
    cases h
  | ok position =>
    rw [hindex] at h
    exact ⟨position, rfl, h⟩

theorem index_of_notFound (h : d.remove value = .error .notFound) : d.index value = .error .notFound := by
  rcases d.remove_cases value with ⟨_, hnone⟩ | ⟨_, _, hremove, _⟩
  · rw [index_eq, List.findIdx?_eq_none_iff.2 hnone]
    rfl
  · rw [hremove] at h
    cases h

namespace TakesFirst

variable {stored : α}

theorem sublist (h : d.TakesFirst value stored e) : e.items.Sublist d.items := by
  obtain ⟨before, after, hitems, _, _⟩ := h
  rw [hitems]
  exact (List.sublist_cons_self stored after).append_left before

theorem length (h : d.TakesFirst value stored e) : d.items.length = e.items.length + 1 := by
  obtain ⟨before, after, hitems, _, _⟩ := h
  simp only [hitems, List.length_append, List.length_cons]
  omega

theorem count (h : d.TakesFirst value stored e) (other : α) :
    d.count other = e.count other + if stored == other then 1 else 0 := by
  obtain ⟨before, after, hitems, _, _⟩ := h
  simp only [Deque.count, hitems, List.countP_append, List.countP_cons]
  omega

theorem count_self (h : d.TakesFirst value stored e) : d.count value = e.count value + 1 := by
  obtain ⟨_, _, _, _, hequal⟩ := id h
  rw [h.count value, if_pos hequal]

theorem equals (h : d.TakesFirst value stored e) : d.equals value = stored :: e.equals value := by
  obtain ⟨before, after, hitems, hearlier, hequal⟩ := h
  have hnone : before.filter (fun stored => stored == value) = [] :=
    List.filter_eq_nil_iff.2 fun other ho => by simp [hearlier other ho]
  simp [Deque.equals, hitems, List.filter_append, hnone, hequal]

theorem without (h : d.TakesFirst value stored e) : d.without value = e.without value := by
  obtain ⟨before, after, hitems, _, hequal⟩ := h
  simp [Deque.without, hitems, List.filter_append, hequal]

end TakesFirst

theorem equals_of_none (h : ∀ stored ∈ d.items, (stored == value) = false) : d.equals value = [] := by
  refine List.filter_eq_nil_iff.2 fun stored hs => ?_
  simp [h stored hs]

theorem without_of_none (h : ∀ stored ∈ d.items, (stored == value) = false) : d.without value = d := by
  refine congrArg (Deque.mk · d.bound) (List.filter_eq_self.2 fun stored hs => ?_)
  simp [h stored hs]

theorem drains_equals (d : Deque α) (value : α) : Drains value d (d.equals value) (d.without value) := by
  induction hlength : d.items.length using Nat.strongRecOn generalizing d with
  | ind length ih =>
    rcases d.remove_cases value with ⟨hremove, hnone⟩ | ⟨stored, e, hremove, htakes⟩
    · rw [equals_of_none hnone, without_of_none hnone]
      exact .done hremove
    · rw [htakes.equals, htakes.without]
      have hshorter := htakes.length
      exact .taken hremove (ih e.items.length (by omega) e rfl)

theorem Drains.unique {out others : List α} {left other : Deque α} (h : Drains value d out left)
    (ho : Drains value d others other) : out = others ∧ left = other := by
  refine Drained.unique (fun d stored e found f htake hagain => ?_) (fun d stored e htake hstop => ?_) h ho
  · rw [htake] at hagain
    cases hagain
    exact ⟨rfl, rfl⟩
  · rw [htake] at hstop
    cases hstop

theorem length_equals (d : Deque α) (value : α) : (d.equals value).length = d.count value :=
  List.countP_eq_length_filter.symm

theorem count_pos_iff : 0 < d.count value ↔ ∃ stored ∈ d.items, (stored == value) = true := List.countP_pos_iff

theorem contains_iff_count : d.contains value = true ↔ 0 < d.count value := by
  rw [count_pos_iff]
  exact List.any_eq_true

theorem index_ok_iff_count : (∃ position, d.index value = .ok position) ↔ 0 < d.count value := by
  rw [count_pos_iff, index_eq]
  cases hfound : d.items.findIdx? fun stored => stored == value with
  | none =>
    refine ⟨nofun, fun ⟨stored, hs, hequal⟩ => ?_⟩
    rw [List.findIdx?_eq_none_iff.1 hfound stored hs] at hequal
    cases hequal
  | some position =>
    obtain ⟨hlt, hequal, _⟩ := List.findIdx?_eq_some_iff_getElem.1 hfound
    exact ⟨fun _ => ⟨_, List.getElem_mem hlt, hequal⟩, fun _ => ⟨position, rfl⟩⟩

/-- Searching, counting and removing agree about a value, and a removal changes no count but those that its element is
part of. -/
structure DrainsExactly (d : Deque α) (value : α) : Prop where
  contained : d.contains value = true ↔ 0 < d.count value
  found : (∃ position, d.index value = .ok position) ↔ 0 < d.count value
  drains : ∀ out left, Drains value d out left ↔ out = d.equals value ∧ left = d.without value
  counted : (d.equals value).length = d.count value
  lowered : ∀ stored e, d.remove value = .ok (stored, e) → d.count value = e.count value + 1 ∧
    ∀ other, d.count other = e.count other + if stored == other then 1 else 0

theorem drainsExactly (d : Deque α) (value : α) : d.DrainsExactly value where
  contained := contains_iff_count
  found := index_ok_iff_count
  drains out left := by
    refine ⟨fun h => h.unique (d.drains_equals value), ?_⟩
    rintro ⟨rfl, rfl⟩
    exact d.drains_equals value
  counted := d.length_equals value
  lowered stored e h := ⟨(takesFirst_of_remove h).count_self, (takesFirst_of_remove h).count⟩

end Deque

/-! Registers and handles -/

/-- What the cell becomes when removals, each of which is counted, have left this deque. -/
def Cell.reduced {α : Type} (cell : Cell α) (e : Deque α) : Cell α :=
  { cell with deque := e, mutations := cell.mutations + (cell.deque.items.length - e.items.length) }

namespace Session

/-- Performances of a step that answer an element, until one answers that nothing was found and leaves everything as it
was. -/
abbrev Drains (m : Meaning) (step : Step) : Session → List Element → Session → Prop :=
  Drained (fun s stored t => m.perform step s = (.ok (.element (some stored)), t))
    fun s => m.perform step s = (.ok (.refused .notFound), s)

theorem Drains.unique {m : Meaning} {step : Step} {s t u : Session} {out others : List Element}
    (h : Drains m step s out t) (ho : Drains m step s others u) : out = others ∧ t = u := by
  refine Drained.unique (fun s stored t found u htake hagain => ?_) (fun s stored t htake hstop => ?_) h ho
  · rw [htake] at hagain
    cases hagain
    exact ⟨rfl, rfl⟩
  · rw [htake] at hstop
    cases hstop

/-- Where a deque is kept: the session if the deque there is another one, and the steps that ask it and remove from
it. -/
structure Spot where
  holding : Deque Element → Session
  ask : Query Literal → Step
  remove : Literal → Step

/-- The register of an owned deque. -/
def register (s : Session) (name : String) : Spot where
  holding e := putOwned name e s
  ask query := .owned name (.ask query)
  remove sought := .owned name (.remove sought)

/-- A handle of a shared deque. -/
def reach (s : Session) (name : String) (id : Nat) : Spot where
  holding e := s.putCell id ((s.cell id).reduced e)
  ask query := .shared name (.ask query)
  remove sought := .shared name (.remove sought)

/-- Whatever was removed before, comparing elements of the deque with the value does nothing and answers as the fixed
comparison does. -/
def Spot.Quiet (spot : Spot) (m : Meaning) (same : BEq Element) (d : Deque Element) (value : Element) : Prop :=
  ∀ e : Deque Element, e.items.Sublist d.items → m.Quiet same.beq e.items [value] (spot.holding e)

/-- Searches of what removals have left, and the removals: their answers are those of the deque, and besides the deque
nothing changes. -/
structure DrainsAlike (m : Meaning) (s : Session) (spot : Spot) (d : Deque Element) (sought : Literal)
    (value : Element) (same : BEq Element) : Prop where
  start : spot.holding d = s
  contained : ∀ e : Deque Element, e.items.Sublist d.items →
    m.perform (spot.ask (.contains sought)) (spot.holding e) = (.ok (.flag (e.contains value)), spot.holding e)
  found : ∀ e : Deque Element, e.items.Sublist d.items →
    m.perform (spot.ask (.index sought)) (spot.holding e) = (.ok (answerSize (e.index value)), spot.holding e)
  counted : ∀ e : Deque Element, e.items.Sublist d.items →
    m.perform (spot.ask (.count sought)) (spot.holding e) = (.ok (.size (e.count value)), spot.holding e)
  drains : ∀ out t, Drains m (spot.remove sought) s out t ↔
    out = d.equals value ∧ t = spot.holding (d.without value)

end Session

namespace Plain

variable {same : BEq Element} {d : Deque Element} {value : Element}

theorem query_index : query same.beq d.items (.index value) = answerSize (d.index value) := by
  rw [Deque.index_eq]
  cases hfound : d.items.findIdx? fun stored => same.beq stored value <;> simp [query, hfound, answerSize]

theorem remove_of_ok {stored : Element} {e : Deque Element} (h : d.remove value = .ok (stored, e)) :
    remove same.beq value d = (.element (some stored), e) := by
  unfold Deque.remove at h
  rw [Deque.index_eq] at h
  unfold remove
  cases hfound : d.items.findIdx? fun stored => same.beq stored value with
  | none =>
    rw [hfound] at h
    cases h
  | some position =>
    obtain ⟨found, hget, hremove⟩ := Request.removeAt_found hfound
    rw [hfound] at h
    cases hremove.symm.trans h
    simp only [hget]

theorem remove_of_notFound (h : d.remove value = .error .notFound) :
    remove same.beq value d = (.refused .notFound, d) := by
  have hindex := Deque.index_of_notFound h
  rw [Deque.index_eq] at hindex
  unfold remove
  cases hfound : d.items.findIdx? fun stored => same.beq stored value with
  | none => rfl
  | some position =>
    rw [hfound] at hindex
    cases hindex

end Plain

namespace Session

variable {m : Meaning} {same : BEq Element} {s : Session} {spot : Spot} {name : String} {id : Nat}
  {d e f : Deque Element} {sought : Literal} {value stored : Element}

/-- One by one the session's answers are those of the deque, so they are for all removals together. -/
theorem drainsAlike_of_steps (hstart : spot.holding d = s)
    (hvalue : ∀ e, resolve sought (spot.holding e) = (.ok value, spot.holding e))
    (hask : ∀ e, e.items.Sublist d.items → ∀ asked query,
      asked.mapM resolve (spot.holding e) = (.ok query, spot.holding e) → query.sought = [value] →
      m.perform (spot.ask asked) (spot.holding e) = (.ok (Plain.query same.beq e.items query), spot.holding e))
    (htake : ∀ e stored f, e.items.Sublist d.items → e.remove value = .ok (stored, f) →
      m.perform (spot.remove sought) (spot.holding e) = (.ok (.element (some stored)), spot.holding f))
    (hstop : ∀ e, e.items.Sublist d.items → e.remove value = .error .notFound →
      m.perform (spot.remove sought) (spot.holding e) = (.ok (.refused .notFound), spot.holding e)) :
    s.DrainsAlike m spot d sought value same where
  start := hstart
  contained e he := hask e he (.contains sought) (.contains value) (bind_ok (hvalue e)) rfl
  found e he := by
    rw [← Plain.query_index]
    exact hask e he (.index sought) (.index value) (bind_ok (hvalue e)) rfl
  counted e he := hask e he (.count sought) (.count value) (bind_ok (hvalue e)) rfl
  drains out t := by
    have hdrains {e left : Deque Element} {out : List Element} (h : Deque.Drains value e out left)
        (he : e.items.Sublist d.items) :
        Drains m (spot.remove sought) (spot.holding e) out (spot.holding left) := by
      induction h with
      | done stop => exact .done (hstop _ he stop)
      | taken take _ ih =>
        exact .taken (htake _ _ _ he take) (ih ((Deque.takesFirst_of_remove take).sublist.trans he))
    have hall := hdrains (d.drains_equals value) (List.Sublist.refl _)
    rw [hstart] at hall
    refine ⟨fun h => h.unique hall, ?_⟩
    rintro ⟨rfl, rfl⟩
    exact hall

/-- A request that brings along nothing but the value. -/
theorem perform_register {o : OwnedOp Literal} (request : Request Element) (hvalues : request.values = [value])
    (hquiet : m.Quiet same.beq e.items [value] (putOwned name e s))
    (hop : o.mapM resolve (putOwned name e s) = (.ok request.owned, putOwned name e s)) :
    m.next.perform (.owned name o) (putOwned name e s) =
      (.ok (Plain.perform same.beq request e).1, putOwned name (Plain.perform same.beq request e).2 s) := by
  rw [← hvalues] at hquiet
  have hrun : request.owned.run m e { putOwned name e s with pinned := e.owners ++ (putOwned name e s).pinned } =
      (.ok (Plain.perform same.beq request e), _) :=
    request.run_owned fun stored hs value hv _ => hquiet stored hs value hv _
  refine (Meaning.runOwned_of_resolved hop (ownedDeque?_putOwned name e s) hrun).trans ?_
  cases hc : o.changes with
  | true =>
    simp only [OwnedOp.putBack, hc, if_true]
    exact congrArg _ (putOwned_putOwned name e _ s)
  | false =>
    have hsame : (Plain.perform same.beq request e).2 = e :=
      request.perform_of_not_changes ((OwnedOp.changes_mapM hop).trans hc)
    simp only [OwnedOp.putBack, hc, hsame]
    rfl

theorem drainsAlike_register (hname : s.ownedDeque? name = some d) (hvalue : resolve sought s = (.ok value, s))
    (hquiet : (s.register name).Quiet m same d value) :
    s.DrainsAlike m.next (s.register name) d sought value same := by
  have hresolve (e : Deque Element) : resolve sought (putOwned name e s) = (.ok value, putOwned name e s) :=
    resolve_of_shared (s := s) (t := putOwned name e s) rfl hvalue
  have hremove (e : Deque Element) : (OwnedOp.remove sought).mapM resolve (putOwned name e s) =
      (.ok (Request.remove value).owned, putOwned name e s) := bind_ok (hresolve e)
  refine drainsAlike_of_steps (putOwned_of_ownedDeque? hname) hresolve (fun e he asked query hasked hsought => ?_)
    (fun e stored f he htake => ?_) (fun e he hstop => ?_)
  · have hop : (OwnedOp.ask asked).mapM resolve (putOwned name e s) =
        (.ok (Request.ask query).owned, putOwned name e s) := bind_ok hasked
    exact perform_register (.ask query) hsought (hquiet e he) hop
  · have hrun := perform_register (.remove value) rfl (hquiet e he) (hremove e)
    simp only [Plain.perform, Plain.remove_of_ok htake] at hrun
    exact hrun
  · have hrun := perform_register (.remove value) rfl (hquiet e he) (hremove e)
    simp only [Plain.perform, Plain.remove_of_notFound hstop] at hrun
    exact hrun

/-- Each removal is counted once. -/
theorem mutated_reduced {α : Type} {cell : Cell α} {e f : Deque α} (he : e.items.length ≤ cell.deque.items.length)
    (hf : e.items.length = f.items.length + 1) : (cell.reduced e).mutated f = cell.reduced f := by
  have hcount : cell.mutations + (cell.deque.items.length - e.items.length) + 1 =
      cell.mutations + (cell.deque.items.length - f.items.length) := by omega
  unfold Cell.mutated Cell.reduced
  rw [← hcount]

theorem reduced_self {α : Type} (cell : Cell α) : cell.reduced cell.deque = cell := by
  simp [Cell.reduced]

theorem locateShared_reduced (hfree : (s.cell id).hold = .free)
    (hquiet : m.Quiet same.beq e.items [value] ((s.reach name id).holding e)) (onlyFirst : Bool) :
    locateShared m id value onlyFirst ((s.reach name id).holding e) =
      (.ok (.ok (wanted onlyFirst (positionsOf 0 (e.items.map fun stored => same.beq stored value)))),
        (s.reach name id).holding e) := by
  have hcell : ((s.reach name id).holding e).cell id = (s.cell id).reduced e := cell_putCell_self ..
  have hread : (((s.reach name id).holding e).cell id).hold.allowsReading = true := by
    rw [hcell]
    exact congrArg Hold.allowsReading hfree
  have hthere : m.Quiet same.beq (((s.reach name id).holding e).cell id).deque.items [value]
      ((s.reach name id).holding e) := by
    rw [hcell]
    exact hquiet
  have hlocated := hthere.locateShared List.mem_cons_self hread onlyFirst
  rw [hcell] at hlocated
  exact hlocated

theorem drainsAlike_reach (hname : s.shared.get? name = some id) (hmade : s.Made id) (hfree : (s.cell id).hold = .free)
    (hvalue : resolve sought s = (.ok value, s)) (hquiet : (s.reach name id).Quiet m same (s.cell id).deque value) :
    s.DrainsAlike m.next (s.reach name id) (s.cell id).deque sought value same := by
  have hresolve (e : Deque Element) :
      resolve sought ((s.reach name id).holding e) = (.ok value, (s.reach name id).holding e) :=
    resolve_of_shared (s := s) (t := (s.reach name id).holding e) rfl hvalue
  have hcell (e : Deque Element) : ((s.reach name id).holding e).cell id = (s.cell id).reduced e :=
    cell_putCell_self ..
  have hread (e : Deque Element) : readCell id ((s.reach name id).holding e) =
      (.ok ((s.cell id).reduced e), (s.reach name id).holding e) := by
    rw [← hcell e]
    exact readCell_of_reading (by rw [hcell]; exact congrArg Hold.allowsReading hfree)
  have hremove (e : Deque Element) : (SharedOp.remove sought).mapM resolve ((s.reach name id).holding e) =
      (.ok (.remove value), (s.reach name id).holding e) := bind_ok (hresolve e)
  have hfirst (e : Deque Element) : firstOf (.ok (wanted true
      (positionsOf 0 (e.items.map fun stored => same.beq stored value)))) = e.index value := by
    rw [Plain.firstOf_eq, Deque.index_eq]
  refine drainsAlike_of_steps ?_ hresolve (fun e he asked query hasked hsought => ?_)
    (fun e stored f he htake => ?_) (fun e he hstop => ?_)
  · exact (congrArg (s.putCell id) (reduced_self _)).trans (putCell_cell hmade)
  · have hop : (SharedOp.ask asked).mapM resolve ((s.reach name id).holding e) =
        (.ok (.ask query), (s.reach name id).holding e) := bind_ok hasked
    refine (Meaning.performStep_shared hop hname).trans ?_
    refine Plain.runQuery_eq (d := e) query (bind_ok (hread e)) fun other hother onlyFirst => ?_
    rw [hsought] at hother
    cases List.mem_singleton.1 hother
    exact locateShared_reduced hfree (hquiet e he) onlyFirst
  · obtain ⟨position, hindex, hat⟩ := Deque.index_of_remove htake
    have hshorter := (Deque.takesFirst_of_remove htake).length
    have hchange : changeCell id (fun cell => cell.removeAt position) ((s.reach name id).holding e) =
        (.ok (.ok stored), (s.reach name id).holding f) := by
      have hremoved : ((s.cell id).reduced e).removeAt position = (.ok stored, ((s.cell id).reduced e).mutated f) := by
        have hat' : ((s.cell id).reduced e).deque.removeAt position = .ok (stored, f) := hat
        simp [Cell.removeAt, hat']
      rw [changeCell_of_free _ (by rw [hcell]; exact hfree), hcell, hremoved, mutated_reduced he.length_le hshorter]
      exact congrArg _ (putCell_putCell s id _ _)
    refine (Meaning.performStep_shared (hremove e) hname).trans ?_
    refine (bind_ok (locateShared_reduced hfree (hquiet e he) true)).trans ?_
    rw [hfirst, hindex]
    exact bind_ok hchange
  · have hindex := Deque.index_of_notFound hstop
    refine (Meaning.performStep_shared (hremove e) hname).trans ?_
    refine (bind_ok (locateShared_reduced hfree (hquiet e he) true)).trans ?_
    rw [hfirst, hindex]
    rfl

end Session

/-- For every deque and value, whatever equality there is, and so for the deques that registers own or handles reach
while nobody holds them. -/
theorem draining_agrees :
    (∀ {α : Type} [BEq α] (d : Deque α) (value : α), d.DrainsExactly value) ∧
      (∀ (m : Meaning) (s : Session) (name : String) (d : Deque Element) (sought : Literal) (value : Element)
        (same : BEq Element), s.ownedDeque? name = some d → resolve sought s = (.ok value, s) →
        (s.register name).Quiet m same d value → s.DrainsAlike m.next (s.register name) d sought value same) ∧
      ∀ (m : Meaning) (s : Session) (name : String) (id : Nat) (sought : Literal) (value : Element)
        (same : BEq Element), s.shared.get? name = some id → s.Made id → (s.cell id).hold = .free →
        resolve sought s = (.ok value, s) → (s.reach name id).Quiet m same (s.cell id).deque value →
        s.DrainsAlike m.next (s.reach name id) (s.cell id).deque sought value same :=
  ⟨fun d value => d.drainsExactly value,
    fun _ _ _ _ _ _ _ hname hvalue hquiet => Session.drainsAlike_register hname hvalue hquiet,
    fun _ _ _ _ _ _ _ hname hmade hfree hvalue hquiet =>
      Session.drainsAlike_reach hname hmade hfree hvalue hquiet⟩

/-- Two elements with one key around another element, in a register and behind a handle. -/
def Session.withKeys : Session :=
  endOf (Meaning.upTo 1)
    [.createOwned "o" (.items [.keyed 1 "a", .int 7, .keyed 1 "b"] (some 3)),
      .createShared "s" (.items [.keyed 1 "a", .int 7, .keyed 1 "b"] none)]
    (start [] none)

theorem Session.quiet_withKeys (spot : Spot) :
    spot.Quiet (Meaning.upTo 1) ⟨Value.sameAtom⟩ ⟨[.keyed 1 "a", .int 7, .keyed 1 "b"], none⟩ (.keyed 1 "z") := by
  intro e he stored hstored value hvalue pins
  cases List.mem_singleton.1 hvalue
  have hmem := he.subset hstored
  simp only [List.mem_cons, List.not_mem_nil, or_false] at hmem
  rcases hmem with rfl | rfl | rfl <;> rfl

/-- An equality that is not symmetric, and the keyed elements, which the sought one equals without being one of them. -/
theorem draining_agrees_keyed :
    let _ : BEq Nat := ⟨fun stored value => decide (stored < value)⟩
    let s := Session.withKeys
    Deque.Drains 3 (⟨[1, 5, 2], some 4⟩ : Deque Nat) [1, 2] ⟨[5], some 4⟩ ∧
      (∀ out t, Session.Drains (Meaning.upTo 2) (.owned "o" (.remove (.keyed 1 "z"))) s out t ↔
        out = [.keyed 1 "a", .keyed 1 "b"] ∧ t = putOwned "o" ⟨[.int 7], some 3⟩ s) ∧
      ∀ out t, Session.Drains (Meaning.upTo 2) (.shared "s" (.remove (.keyed 1 "z"))) s out t ↔
        out = [.keyed 1 "a", .keyed 1 "b"] ∧ t = s.putCell 0 ⟨⟨[.int 7], none⟩, 2, false, .free⟩ := by
  intro _ s
  have howned := draining_agrees.2.1 (Meaning.upTo 1) s "o" ⟨[.keyed 1 "a", .int 7, .keyed 1 "b"], some 3⟩
    (.keyed 1 "z") (.keyed 1 "z") ⟨Value.sameAtom⟩ rfl rfl (Session.quiet_withKeys _)
  have hshared := draining_agrees.2.2 (Meaning.upTo 1) s "s" 0 (.keyed 1 "z") (.keyed 1 "z") ⟨Value.sameAtom⟩ rfl rfl rfl
    rfl (Session.quiet_withKeys _)
  exact ⟨((draining_agrees.1 ⟨[1, 5, 2], some 4⟩ 3).drains _ _).2 ⟨rfl, rfl⟩, howned.drains, hshared.drains⟩

end EvictingDeque
