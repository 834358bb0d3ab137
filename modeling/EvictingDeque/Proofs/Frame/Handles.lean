import EvictingDeque.Proofs.Frame.Copies
import EvictingDeque.Proofs.Locks.Released

set_option autoImplicit false

/-!
# Frames, copies and handles

In every session that steps can lead to, single operations leave alone what they do not name, deques that were made from
others are independent of these, and all handles of one deque are alike.
-/
namespace EvictingDeque

open Action

/-- The step makes the name a handle of the deque, beside the handle or the weak handle that it goes through. -/
inductive Step.Joins (s : Session) : Step → String → Nat → Answer → Prop
  | cloned {name into : String} {id : Nat} (handle : s.shared.get? name = some id) :
      Joins s (.shared name (.share into)) into id .nothing
  | upgraded {weak into : String} {id : Nat} (refers : s.weak.get? weak = some id) :
      Joins s (.upgrade into weak) into id (.flag true)

namespace Meaning

variable {m : Meaning} {s t : Session} {name other : String} {id : Nat}

theorem performStep_of_same (hname : s.shared.get? name = some id) (hother : s.shared.get? other = some id)
    (op : SharedOp Literal) : m.performStep (.shared name op) s = m.performStep (.shared other op) s := by
  rcases hop : op.mapM resolve s with ⟨cause | resolved, u⟩ <;> cases SharedOp.session_mapM hop
  · exact (bind_error hop).trans (bind_error hop).symm
  · exact (performStep_shared hop hname).trans (performStep_shared hop hother).symm

theorem performStep_toList (hname : s.shared.get? name = some id) (hr : (s.cell id).hold.allowsReading = true) :
    m.performStep (.shared name (.ask .toList)) s = (.ok (.elements (s.cell id).deque.items), s) := by
  have hcontents : (do return (← readCell id).deque : Action (Deque Element)) s = (.ok (s.cell id).deque, s) :=
    bind_ok (readCell_of_reading hr)
  exact (performStep_shared rfl hname).trans (bind_ok hcontents)

end Meaning

namespace Session

variable {s : Session}

theorem shared_of_joins (depth : Nat) {step : Step} {into : String} {id : Nat} {answer : Answer}
    (h : step.Joins s into id answer) (hanswer : (performAndReport (Meaning.upTo depth) step s).1.answer = answer) :
    (performAndReport (Meaning.upTo depth) step s).2.shared.get? into = some id := by
  cases depth with
  | zero => cases h <;> cases hanswer
  | succ depth =>
    cases h with
    | @cloned name _ _ handle =>
      have hrun : (Meaning.upTo (depth + 1)).perform (.shared name (.share into))
          { s with events := [], printed := "" } = _ :=
        Meaning.performStep_shared rfl handle
      simp only [performAndReport, hrun]
      exact Table.get?_put_self ..
    | @upgraded weak _ _ refers =>
      have hrun : (Meaning.upTo (depth + 1)).perform (.upgrade into weak) { s with events := [], printed := "" } = _ :=
        bind_ok (required_of_some refers)
      cases ha : Session.isLiving { s with events := [], printed := "" } id with
      | false =>
        rw [bind_ok (read_apply _ _), ha] at hrun
        simp only [performAndReport, hrun] at hanswer
        cases hanswer
      | true =>
        rw [bind_ok (read_apply _ _), ha] at hrun
        simp only [performAndReport, hrun]
        exact Table.get?_put_self ..

/-- Two handles of a deque: to perform through the one is to perform through the other, and both read what the deque
holds, also right after it was edited through the other. -/
structure Alike (m : Meaning) (s : Session) (id : Nat) (name other : String) : Prop where
  performs : ∀ op, m.perform (.shared name op) s = m.perform (.shared other op) s
  reads : m.perform (.shared name (.ask .toList)) s = (.ok (.elements (s.cell id).deque.items), s)
  observes : ∀ change resolved, change.mapM resolve s = (.ok resolved, s) →
    ∃ answer t, m.perform (.shared other (.edit change)) s = (.ok answer, t) ∧
      t.cell id = ((s.cell id).edit resolved).2 ∧
      m.perform (.shared name (.ask .toList)) t = (.ok (.elements (resolved.apply (s.cell id).deque).2.items), t)

theorem Released.alike (hr : s.Released) (depth : Nat) {id : Nat} {name other : String}
    (hname : s.shared.get? name = some id) (hother : s.shared.get? other = some id) :
    Alike (Meaning.upTo (depth + 1)) s id name other where
  performs := Meaning.performStep_of_same hname hother
  reads := Meaning.performStep_toList hname (by rw [(hr.idle id).free]; rfl)
  observes change resolved hchange := by
    have hop : (SharedOp.edit change).mapM resolve s = (.ok (.edit resolved), s) := bind_ok hchange
    have hedit : (SharedOp.edit resolved).run (Meaning.upTo depth) id s =
        (.ok (answerOptional ((s.cell id).edit resolved).1), s.putCell id ((s.cell id).edit resolved).2) :=
      bind_ok (changeCell_of_free _ (hr.idle id).free)
    refine ⟨_, _, (Meaning.performStep_shared hop hother).trans hedit, cell_putCell_self .., ?_⟩
    generalize ht : s.putCell id ((s.cell id).edit resolved).2 = t
    have hcell : t.cell id = ((s.cell id).edit resolved).2 := ht ▸ cell_putCell_self ..
    have hnamed : t.shared.get? name = some id := ht ▸ hname
    have hread : (t.cell id).hold.allowsReading = true := by
      rw [hcell, (Cell.Counted.edit _ resolved (hr.idle id).free).hold, (hr.idle id).free]
      rfl
    rw [← Cell.deque_edit, ← hcell]
    exact Meaning.performStep_toList hnamed hread

/-- How the parts of a session stand to each other. Simple runs change what their steps name; a deque that is made from
another and this other are independent of each other; all handles of a deque are alike; and the handles that are made
from handles and weak handles stay handles of the same deque until something else is put under their names. -/
structure Framed (m : Meaning) (s : Session) : Prop where
  frame : ∀ steps, Simple m steps s → Differ (touched m steps s) s (endOf m steps s)
  copies : ∀ step into source result made, step.Derives s into source result made → Simple m [step] s →
    (∀ cause, (performAndReport m step s).1.answer ≠ .interrupted cause) →
    Spared s (endOf m [step] s) (touched m [step] s) source ∧ (endOf m [step] s).Names into result ∧
      (∃ d, made = some d ∧ (endOf m [step] s).dequeAt result = some d) ∧
      Independent m (endOf m [step] s) source result ∧ Independent m (endOf m [step] s) result source
  handles : ∀ id name other, s.shared.get? name = some id → s.shared.get? other = some id → Alike m s id name other
  joins : ∀ step into id answer, step.Joins s into id answer → (performAndReport m step s).1.answer = answer →
    ∀ later, Simple m later (endOf m [step] s) → .handle into ∉ touched m later (endOf m [step] s) →
      (endOf m (step :: later) s).shared.get? into = some id ∧
        ∀ other, (endOf m (step :: later) s).shared.get? other = some id →
          Alike m (endOf m (step :: later) s) id into other

end Session

/-- In every session that any steps lead to, whatever they did and whatever acted in them. -/
theorem reachable_framed (hooks : List (String × Hook)) (environment : Option String) (depth : Nat)
    (before : List Step) :
    Session.Framed (Meaning.upTo (depth + 1))
      (Session.endOf (Meaning.upTo (depth + 1)) before (Session.start hooks environment)) := by
  have hproper := (Session.proper_start hooks environment).endOf (depth + 1) before
  refine ⟨fun steps => Session.differ_endOf (depth + 1), ?_, ?_, ?_⟩
  · intro step into source result made h hstep hanswer
    obtain ⟨hnames, hholds⟩ := h.holds_unaided (depth + 1) hstep.1.2 hanswer
    have hspared := (Session.differ_endOf (depth + 1) hstep).spared (h.hasPlace hproper)
      (by simpa [Session.touched] using h.source_not_touched)
    exact ⟨hspared, hnames, hholds, h.independent (depth + 1) hproper hstep hanswer⟩
  · intro id name other hname hother
    exact (Session.released_endOf hooks environment (depth + 1) before).alike depth hname hother
  · intro step into id answer h hanswer later hlater hkept
    have hnamed := Session.shared_of_joins (depth + 1) h hanswer
    have hstays := (Session.differ_endOf (depth + 1) hlater).elsewhere (.handle into) trivial hkept
    refine ⟨Eq.trans hstays hnamed, fun other hother => ?_⟩
    have hreleased := Session.released_endOf hooks environment (depth + 1) (before ++ step :: later)
    rw [Session.endOf_append] at hreleased
    exact hreleased.alike depth (Eq.trans hstays hnamed) hother

/-- A handle is dropped in the same way whatever could act. -/
theorem Session.simple_drop (depth : Nat) (s : Session) (name : String) :
    Simple (Meaning.upTo (depth + 1)) [.drop name] s :=
  ⟨⟨nofun, .empty, fun _ => ⟨rfl, rfl⟩, rfl⟩, trivial⟩

/-- A full deque with a cursor and a weak handle. -/
def Step.watching : List Step :=
  [.createShared "d" (.items [.int 1, .int 2] (some 2)), .shared "d" (.visit "c"), .shared "d" (.downgrade "w")]

/-- An element that panics when it is written. -/
def Hook.panicking : Hook := { Hook.idle "h" with whenWritten := [.panic "written"] }

open Session in
/-- A copy that evicts leaves its original and the cursor over that alone. A pop through one handle is seen through one
that comes from a weak handle. To drop a handle has an effect on its name only, also where an element could act. -/
theorem reachable_framed_watching :
    let m := Meaning.upTo 2
    let s := endOf m Step.watching (start [] none)
    let t := endOf m [.shared "d" (.copy "e")] s
    let u := endOf m [.upgrade "f" "w"] s
    let v := endOf m Step.watching (start [("h", Hook.panicking)] none)
    (t.dequeAt (.cell 1) = some ⟨[.int 1, .int 2], some 2⟩ ∧ Independent m t (.cell 1) (.cell 0) ∧
        Spared t (endOf m [.shared "e" (.edit (.pushBack (.int 3)))] t) [.cell 1] (.cell 0)) ∧
      (∃ answer w, m.perform (.shared "d" (.edit .popFront)) u = (.ok answer, w) ∧
        m.perform (.shared "f" (.ask .toList)) w = (.ok (.elements [.int 2]), w)) ∧
      ¬ v.Passive ∧ Differ [.handle "d"] v (endOf m [.drop "d"] v) := by
  intro m s t u v
  have hframed : Framed m s := reachable_framed [] none 1 Step.watching
  have hpassive : s.Passive := fun _ => ⟨rfl, rfl⟩
  have hsimple (s : Session) (hs : s.Passive) (step : Step) (hstep : ¬ step.HasBody) : Simple m [step] s :=
    simple_of_passive 2 (fun other ho => List.mem_singleton.1 ho ▸ hstep) hs
  refine ⟨?_, ?_, ?_, ?_⟩
  · have hcopy : Step.Derives s (.shared "d" (.copy "e")) "e" (.cell 0) (.cell 1) (some ⟨[.int 1, .int 2], some 2⟩) :=
      .copyShared rfl
    have hcopied : (performAndReport m (.shared "d" (.copy "e")) s).1.answer = .copied (some 2) false true := by rfl
    have hstep := hsimple s hpassive (.shared "d" (.copy "e")) nofun
    obtain ⟨-, hnames, ⟨d, hd, hholds⟩, -, happart⟩ :=
      hframed.copies _ _ _ _ _ hcopy hstep fun cause he => nomatch hcopied.symm.trans he
    cases hd
    have hpush := happart.spared [.shared "e" (.edit (.pushBack (.int 3)))]
      (hsimple t (hpassive.of_hooks (hframed.frame _ hstep).hooks) _ nofun)
      (happart.untouched _ ⟨.shared _ hnames rfl, trivial⟩)
    have htouched : touched m [.shared "e" (.edit (.pushBack (.int 3)))] t = [.cell 1] := by
      simp only [touched, Step.touched, show t.shared.get? "e" = some 1 from hnames]
      rfl
    exact ⟨hholds, happart, htouched ▸ hpush⟩
  · have hupgraded : (performAndReport m (.upgrade "f" "w") s).1.answer = .flag true := by rfl
    obtain ⟨-, halike⟩ := hframed.joins _ "f" 0 _ (.upgraded rfl) hupgraded [] trivial List.not_mem_nil
    obtain ⟨answer, w, hpop, -, hread⟩ := (halike "d" rfl).observes .popFront .popFront rfl
    exact ⟨answer, w, hpop, hread⟩
  · exact fun hv => List.cons_ne_nil _ _ (hv "h").1
  · exact (reachable_framed [("h", Hook.panicking)] none 1 Step.watching).frame _ (simple_drop 1 v "d")

end EvictingDeque
