import EvictingDeque.Proofs.Frame.Runs

set_option autoImplicit false

/-!
# Deques made from others

A deque that is made from another, by copying, wrapping, repeating or appending, stands in a place of its own. What is
done there later is not done to the deque that it was made from, nor to cursors over that, and the other way around.
-/
namespace EvictingDeque

open Action

/-- What stands in the place is a deque and not a reference. -/
inductive Place.ForDeque : Place → Prop
  | cell (id : Nat) : ForDeque (.cell id)
  | register (name : String) : ForDeque (.register name)

namespace Session

def dequeAt (s : Session) : Place → Option (Deque Element)
  | .cell id => some (s.cell id).deque
  | .register name => s.ownedDeque? name
  | _ => none

/-- A register of that name holds the deque in the place, or a handle of it. -/
def Names (s : Session) (name : String) : Place → Prop
  | .cell id => s.shared.get? name = some id
  | place => place = .register name

end Session

/-- The step makes a deque from the one in a place, and perhaps from another, and puts it under a name. The new one stands
in a place of its own. -/
inductive Step.Derives (s : Session) : Step → String → Place → Place → Option (Deque Element) → Prop
  | copyShared {name into : String} {id : Nat} (handle : s.shared.get? name = some id) :
      Derives s (.shared name (.copy into)) into (.cell id) (.cell s.nextCell) (some (s.cell id).deque)
  | wrapped (name into : String) :
      Derives s (.createShared into (.register name)) into (.register name) (.cell s.nextCell) (s.ownedDeque? name)
  | cloned {name into : String} (other : into ≠ name) :
      Derives s (.createOwned into (.register name)) into (.register name) (.register into) (s.ownedDeque? name)
  | copied {name into : String} (other : into ≠ name) :
      Derives s (.owned name (.copy (some into))) into (.register name) (.register into) (s.ownedDeque? name)
  | repeated {name into : String} (times : Nat) (other : into ≠ name) :
      Derives s (.owned name (.repeated times (some into))) into (.register name) (.register into)
        ((s.ownedDeque? name).bind fun d => d.repeated? times)
  | concat {name behind into source : String} (either : source = name ∨ source = behind) (other : into ≠ source) :
      Derives s (.owned name (.concat behind (some into))) into (.register source) (.register into)
        ((s.ownedDeque? name).bind fun d => (s.ownedDeque? behind).map d.concat)
  | appended {name behind : String} (other : name ≠ behind) :
      Derives s (.owned name (.concatInPlace behind)) name (.register behind) (.register name)
        ((s.ownedDeque? name).bind fun d => (s.ownedDeque? behind).map d.concat)

/-- An operation on what is in the place, through any handle or with any cursor, that does not put its result into the
other place. -/
inductive Step.On (s : Session) (place other : Place) : Step → Prop
  | shared {name : String} {id : Nat} (op : SharedOp Literal) (handle : s.shared.get? name = some id)
      (here : place = .cell id) : On s place other (.shared name op)
  | owned {name : String} (op : OwnedOp Literal) (here : place = .register name)
      (elsewhere : ∀ into, op.into? = some into → other ≠ .register into) : On s place other (.owned name op)
  | cursor (register : String) {name : String} {cursor : Cursor} (op : CursorOp)
      (found : s.cursors.get? name = some cursor) (here : place = .cell cursor.cell) :
      On s place other (.cursor register name op)

namespace Session

/-- What is done to the one place is not done to the other, nor to cursors over it. -/
structure Independent (m : Meaning) (s : Session) (place other : Place) : Prop where
  different : place ≠ other
  spared : ∀ later, Simple m later s → other ∉ touched m later s →
    Spared s (endOf m later s) (touched m later s) other
  untouched : ∀ later, Throughout m (fun s step => step.On s place other) later s → other ∉ touched m later s

end Session

variable {s t : Session} {place other : Place} {step : Step}

theorem SharedOp.not_touched {id : Nat} (op : SharedOp Literal) (hother : other.ForDeque) (hne : .cell id ≠ other) :
    other ∉ op.touched id := by
  intro hm
  cases op with
  | edit | remove => exact hne (List.mem_singleton.1 hm).symm
  | ends op =>
    simp only [touched] at hm
    split at hm
    · exact hne (List.mem_singleton.1 hm).symm
    · cases hm
  | extendFrom cursor =>
    rcases List.mem_cons.1 hm with rfl | hm
    · cases hother
    · exact hne (List.mem_singleton.1 hm).symm
  | visit | share | copy | downgrade =>
    cases List.mem_singleton.1 hm
    cases hother
  | ask | extent | written | samePlace | equal => cases hm

theorem Step.On.not_touched (h : step.On s place other) (hother : other.ForDeque) (hne : place ≠ other) :
    other ∉ step.touched s := by
  intro hm
  cases h with
  | shared op handle here =>
    subst here
    simp only [Step.touched, handle, Option.map_some, Option.getD_some] at hm
    exact op.not_touched hother hne hm
  | @owned name op here elsewhere =>
    subst here
    simp only [Step.touched, OwnedOp.touched, List.mem_append, List.mem_map, Option.mem_toList] at hm
    rcases hm with hm | ⟨into, hinto, rfl⟩
    · split at hm
      · exact hne (List.mem_singleton.1 hm).symm
      · cases hm
    · exact elsewhere into hinto rfl
  | cursor register op found here =>
    cases List.mem_singleton.1 hm
    cases hother

theorem Session.not_touched_of_on {m : Meaning} {later : List Step} (hother : other.ForDeque) (hne : place ≠ other)
    (h : Throughout m (fun s step => step.On s place other) later s) : other ∉ touched m later s := by
  induction later generalizing s with
  | nil => exact List.not_mem_nil
  | cons step later ih =>
    intro hm
    exact (List.mem_append.1 hm).elim (h.1.not_touched hother hne) (ih h.2)

theorem Session.Independent.of_different (depth : Nat) (hplace : s.HasPlace other) (hother : other.ForDeque)
    (hne : place ≠ other) : Independent (Meaning.upTo depth) s place other where
  different := hne
  spared _ hlater hm := (differ_endOf depth hlater).spared hplace hm
  untouched _ hlater := not_touched_of_on hother hne hlater

/-! What the copy holds -/

theorem Source.build_register_eq_ok {name : String} {built : Option (Deque Element)}
    (h : (Source.register name).build s = (.ok built, t)) :
    ∃ d, s.ownedDeque? name = some d ∧ built = some d ∧ t = s := by
  obtain ⟨d, u, hd, hbuilt⟩ := bind_eq_ok h
  obtain ⟨hname, rfl⟩ := ownedRegister_eq_ok hd
  cases hbuilt
  exact ⟨d, hname, rfl, rfl⟩

namespace Step.Derives

variable {m : Meaning} {into : String} {source result : Place} {made : Option (Deque Element)} {answer : Answer}

theorem forDeque (h : step.Derives s into source result made) : source.ForDeque ∧ result.ForDeque := by
  cases h <;> exact ⟨by constructor, by constructor⟩

/-- The source stands somewhere else. -/
theorem different (h : step.Derives s into source result made) (hs : s.Proper) : source ≠ result := by
  cases h with
  | copyShared handle => exact fun he => Nat.ne_of_lt (hs.shared _ _ handle) (Place.cell.inj he)
  | wrapped name into => exact nofun
  | cloned other | copied other | repeated times other | concat either other | appended other =>
    exact fun he => other (Place.register.inj he).symm

theorem source_not_touched (h : step.Derives s into source result made) : source ∉ step.touched s := by
  cases h with
  | copyShared handle => simp [Step.touched, handle, SharedOp.touched]
  | wrapped name into => simp [Step.touched]
  | cloned other => simp [Step.touched, other.symm]
  | copied other | repeated times other | concat either other =>
    simp [Step.touched, OwnedOp.touched, OwnedOp.changes, OwnedOp.into?, other.symm]
  | appended other => simp [Step.touched, OwnedOp.touched, OwnedOp.changes, OwnedOp.into?, other.symm]

theorem holds (hm : m.Inert) (h : step.Derives s into source result made) (hs : s.Passive)
    (hrun : m.performStep step s = (.ok answer, t)) :
    t.Names into result ∧ ∃ d, made = some d ∧ t.dequeAt result = some d := by
  cases h with
  | @copyShared name into id handle =>
    have hcopy := (Meaning.performStep_shared rfl handle).symm.trans hrun
    obtain ⟨cell, u, hread, hcopy⟩ := bind_eq_ok hcopy
    obtain ⟨rfl, ⟨_, hcell⟩ | ⟨_, hcell⟩⟩ := readCell_cases hread <;> cases hcell
    obtain ⟨copy, v, hnew, hcopy⟩ := bind_eq_ok hcopy
    cases hnew
    obtain ⟨equal, w, hequal, hcopy⟩ := bind_eq_ok hcopy
    cases hcopy
    have hcompared : (equalCells m.equal u.nextCell id).Within [] :=
      @ActionRel.Reading.equalCells _ (within_reading []) m.equal m.equal (hm.equal _) u.nextCell id
    have hdiffer := hcompared _ w _ (by exact hs.of_hooks rfl) hequal
    have hkept := hdiffer.elsewhere (.cell u.nextCell) (Nat.lt_succ_self _) List.not_mem_nil
    have hfresh : w.cell u.nextCell = .fresh (u.cell id).deque := Eq.trans hkept (Session.cell_putCell_self ..)
    have hdeque : (w.cell u.nextCell).deque = (u.cell id).deque := by
      rw [hfresh]
      rfl
    exact ⟨Table.get?_put_self .., _, rfl, congrArg some hdeque⟩
  | wrapped name into =>
    obtain ⟨built, u, hbuilt, hmade⟩ := bind_eq_ok hrun
    obtain ⟨d, hname, rfl, rfl⟩ := Source.build_register_eq_ok hbuilt
    cases hmade
    refine ⟨Table.get?_put_self .., d, hname, congrArg some ?_⟩
    exact congrArg Cell.deque (Session.cell_putCell_self ..)
  | cloned other =>
    obtain ⟨built, u, hbuilt, hmade⟩ := bind_eq_ok hrun
    obtain ⟨d, hname, rfl, rfl⟩ := Source.build_register_eq_ok hbuilt
    cases hmade
    exact ⟨rfl, d, hname, ownedDeque?_putOwned ..⟩
  | copied other =>
    obtain ⟨resolved, d, after, u, hop, hd, hwork, rfl⟩ := Meaning.runOwned_eq_ok hrun
    cases hop
    cases hwork
    exact ⟨rfl, d, hd, ownedDeque?_putOwned ..⟩
  | repeated times other =>
    obtain ⟨resolved, d, after, u, hop, hd, hwork, rfl⟩ := Meaning.runOwned_eq_ok hrun
    cases hop
    obtain ⟨e, v, he, hkeep⟩ := bind_eq_ok hwork
    obtain ⟨hroom, rfl⟩ := OwnedOp.orNoRoom_eq_ok he
    cases hkeep
    exact ⟨rfl, e, by rw [hd]; exact hroom, ownedDeque?_putOwned ..⟩
  | @concat name behind into source either other =>
    obtain ⟨resolved, d, after, u, hop, hd, hwork, rfl⟩ := Meaning.runOwned_eq_ok hrun
    cases hop
    obtain ⟨e, v, he, hkeep⟩ := bind_eq_ok hwork
    obtain ⟨hbehind, rfl⟩ := ownedRegister_eq_ok he
    cases hkeep
    have hbehind : s.ownedDeque? behind = some e := hbehind
    exact ⟨rfl, d.concat e, by rw [hd, hbehind]; rfl, ownedDeque?_putOwned ..⟩
  | @appended name behind other =>
    obtain ⟨resolved, d, after, u, hop, hd, hwork, rfl⟩ := Meaning.runOwned_eq_ok hrun
    cases hop
    obtain ⟨e, v, he, hkeep⟩ := bind_eq_ok hwork
    obtain ⟨hbehind, rfl⟩ := ownedRegister_eq_ok he
    cases hkeep
    have hbehind : s.ownedDeque? behind = some e := hbehind
    exact ⟨rfl, d.concat e, by rw [hd, hbehind]; rfl, ownedDeque?_putOwned ..⟩

/-- What hooks there are and what was reported before has no part in it. -/
theorem cleared (h : step.Derives s into source result made) (hooks : Table String Hook) :
    step.Derives { s with hooks := hooks, events := [], printed := "" } into source result made := by
  cases h with
  | copyShared handle => exact .copyShared handle
  | wrapped name into => exact .wrapped name into
  | cloned other => exact .cloned other
  | copied other => exact .copied other
  | repeated times other => exact .repeated times other
  | concat either other => exact .concat either other
  | appended other => exact .appended other

theorem hasPlace (h : step.Derives s into source result made) (hs : s.Proper) : s.HasPlace source := by
  cases h with
  | copyShared handle => exact hs.shared _ _ handle
  | _ => trivial

end Step.Derives

theorem Session.Names.hasPlace {into : String} (h : s.Names into place) (hs : s.Proper) : s.HasPlace place := by
  cases place with
  | cell id => exact hs.shared _ _ h
  | _ => trivial

/-- A report without an interruption comes from an answer. -/
theorem Session.perform_of_report {m : Meaning}
    (h : ∀ cause, (performAndReport m step s).1.answer ≠ .interrupted cause) :
    ∃ answer, m.perform step { s with events := [], printed := "" } = (.ok answer, (performAndReport m step s).2) := by
  rcases hrun : m.perform step { s with events := [], printed := "" } with ⟨cause | answer, t⟩
  · exact absurd (by simp only [performAndReport, hrun]) (h cause)
  · exact ⟨answer, by simp only [performAndReport, hrun]⟩

namespace Step.Derives

variable {into : String} {source result : Place} {made : Option (Deque Element)}

theorem holds_unaided (depth : Nat) (h : step.Derives s into source result made)
    (hstep : Session.Unaided (Meaning.upTo depth) s step)
    (hanswer : ∀ cause, (Session.performAndReport (Meaning.upTo depth) step s).1.answer ≠ .interrupted cause) :
    (Session.performAndReport (Meaning.upTo depth) step s).2.Names into result ∧
      ∃ d, made = some d ∧ (Session.performAndReport (Meaning.upTo depth) step s).2.dequeAt result = some d := by
  obtain ⟨hooks, hpassive, hsame⟩ := hstep
  rw [hsame] at hanswer ⊢
  obtain ⟨answer, hrun⟩ := Session.perform_of_report hanswer
  cases depth with
  | zero => cases hrun
  | succ depth =>
    obtain ⟨hnames, d, hmade, hholds⟩ :=
      (h.cleared hooks).holds (Meaning.upTo_inert depth) (hpassive.of_hooks rfl) hrun
    refine ⟨?_, d, hmade, ?_⟩
    · cases result <;> exact hnames
    · cases result <;> exact hholds

/-- The deque that is made and the one that it is made from are independent from the start. -/
theorem independent (depth : Nat) (h : step.Derives s into source result made) (hs : s.Proper)
    (hstep : Session.Simple (Meaning.upTo depth) [step] s)
    (hanswer : ∀ cause, (Session.performAndReport (Meaning.upTo depth) step s).1.answer ≠ .interrupted cause) :
    Session.Independent (Meaning.upTo depth) (Session.endOf (Meaning.upTo depth) [step] s) source result ∧
      Session.Independent (Meaning.upTo depth) (Session.endOf (Meaning.upTo depth) [step] s) result source := by
  obtain ⟨hnames, _⟩ := h.holds_unaided depth hstep.1.2 hanswer
  have hlimit := (Session.differ_endOf depth hstep).limit
  have hdifferent := h.different hs
  refine ⟨.of_different depth ?_ h.forDeque.2 hdifferent, .of_different depth ?_ h.forDeque.1 hdifferent.symm⟩
  · exact hnames.hasPlace (hs.endOf depth [step])
  · exact (h.hasPlace hs).mono hlimit

end Step.Derives

end EvictingDeque
