import EvictingDeque.Proofs.Bounds.Runs

set_option autoImplicit false

/-!
# The deque of a register at hand

An operation on a register's deque works on what the register held at its start. However it ends, the register holds
afterwards what the operation left at hand, or what it held before where the operation changes nothing or was
interrupted.
-/
namespace EvictingDeque

open Action

/-- What is left of the deque at hand when an operation on it has ended. -/
def Deque.left (d : Deque Element) : Except Interrupt (Answer × Deque Element) → Deque Element
  | .ok (_, after) => after
  | .error _ => d

/-- The register gets its deque back if the operation may have changed it. -/
def OwnedOp.putBack {α : Type} (op : OwnedOp α) (name : String) (d : Deque Element) (s : Session) : Session :=
  if op.changes then putOwned name d s else s

namespace Session

variable {s : Session} {name : String} {d : Deque Element}

/-- To put back what is there makes no difference. -/
theorem putOwned_of_ownedDeque? (h : s.ownedDeque? name = some d) : putOwned name d s = s := by
  obtain ⟨memo, hmemo, hvalue⟩ := Option.map_eq_some_iff.1 h
  have hsame : Memo.of Deque.owners d = memo := Memo.eq_of_value_eq hvalue.symm
  unfold putOwned
  rw [hsame, Table.put_of_get? hmemo]

theorem putOwned_putOwned (name : String) (d e : Deque Element) (s : Session) :
    putOwned name e (putOwned name d s) = putOwned name e s := by
  simp [putOwned, Table.put_put]

end Session

namespace Meaning

variable {m : Meaning} {name : String} {op : OwnedOp Literal} {resolved : OwnedOp Element} {d : Deque Element}
  {s t : Session}

theorem runOwned_of_resolved (hop : op.mapM resolve s = (.ok resolved, s)) (hd : s.ownedDeque? name = some d)
    {worked : Except Interrupt (Answer × Deque Element)} {u : Session}
    (hrun : resolved.run m d { s with pinned := d.owners ++ s.pinned } = (worked, u)) :
    m.runOwned name op s =
      (worked.map Prod.fst, op.putBack name (d.left worked) { u with pinned := s.pinned }) := by
  have hregister : ownedRegister name s = (.ok d, s) := required_of_some hd
  have hworking : pinning d.owners (resolved.run m d) s = (worked, { u with pinned := s.pinned }) :=
    pinning_of_eq hrun
  unfold runOwned
  rw [bind_ok hop, bind_ok hregister]
  unfold OwnedOp.putBack
  cases op.changes with
  | true =>
    rcases worked with cause | ⟨answer, after⟩
    · have hback : (pinning d.owners (resolved.run m d)).recovering (putOwned name d) s =
          (.error cause, putOwned name d { u with pinned := s.pinned }) := by
        unfold recovering
        rw [hworking]
      simp only [if_true, bind_error hback]
      rfl
    · have hback : (pinning d.owners (resolved.run m d)).recovering (putOwned name d) s =
          (.ok (answer, after), { u with pinned := s.pinned }) := by
        unfold recovering
        rw [hworking]
      simp only [if_true, bind_ok hback]
      rfl
  | false =>
    rcases worked with cause | ⟨answer, after⟩
    · simp only [Bool.false_eq_true, if_false, bind_error hworking]
      rfl
    · simp only [Bool.false_eq_true, if_false, bind_ok hworking]
      rfl

/-- Whatever is kept alive meanwhile, it has no part in an operation that does nothing but its work on the deque. -/
theorem runOwned_of_alone (hop : op.mapM resolve s = (.ok resolved, s)) (hd : s.ownedDeque? name = some d)
    {worked : Except Interrupt (Answer × Deque Element)} (hrun : ∀ u, resolved.run m d u = (worked, u)) :
    m.runOwned name op s = (worked.map Prod.fst, op.putBack name (d.left worked) s) :=
  (runOwned_of_resolved hop hd (hrun _)).trans rfl

theorem runOwned_unresolved {cause : Interrupt} (hop : op.mapM resolve s = (.error cause, s)) :
    m.runOwned name op s = (.error cause, s) := bind_error hop

theorem runOwned_missing (hop : op.mapM resolve s = (.ok resolved, s)) (hd : s.ownedDeque? name = none) :
    m.runOwned name op s = (.error .undefined, s) :=
  (bind_ok hop).trans (bind_error (required_of_none hd))

/-- The names in the operation stand for nothing, or the register is empty, or the operation works on what the register
holds. -/
theorem runOwned_cases {outcome : Except Interrupt Answer} (h : m.runOwned name op s = (outcome, t)) :
    (t = s ∧ ∃ cause, outcome = .error cause ∧
        (op.mapM resolve s = (.error cause, s) ∨ s.ownedDeque? name = none ∧ cause = .undefined)) ∨
      ∃ resolved d worked u, op.mapM resolve s = (.ok resolved, s) ∧ s.ownedDeque? name = some d ∧
        resolved.run m d { s with pinned := d.owners ++ s.pinned } = (worked, u) ∧
        outcome = worked.map Prod.fst ∧ t = op.putBack name (d.left worked) { u with pinned := s.pinned } := by
  rcases hop : op.mapM resolve s with ⟨cause | resolved, u⟩ <;> cases OwnedOp.session_mapM hop
  · rw [runOwned_unresolved hop] at h
    cases h
    exact .inl ⟨rfl, cause, rfl, .inl rfl⟩
  · cases hd : s.ownedDeque? name with
    | none =>
      rw [runOwned_missing hop hd] at h
      cases h
      exact .inl ⟨rfl, _, rfl, .inr ⟨rfl, rfl⟩⟩
    | some d =>
      rcases hrun : resolved.run m d { s with pinned := d.owners ++ s.pinned } with ⟨worked, u⟩
      rw [runOwned_of_resolved hop hd hrun] at h
      cases h
      exact .inr ⟨resolved, d, worked, u, rfl, rfl, hrun, rfl, rfl⟩

theorem runOwned_eq_ok {answer : Answer} (h : m.runOwned name op s = (.ok answer, t)) :
    ∃ resolved d after u, op.mapM resolve s = (.ok resolved, s) ∧ s.ownedDeque? name = some d ∧
      resolved.run m d { s with pinned := d.owners ++ s.pinned } = (.ok (answer, after), u) ∧
      t = op.putBack name after { u with pinned := s.pinned } := by
  obtain ⟨_, cause, ho, _⟩ | ⟨resolved, d, worked, u, hop, hd, hrun, ho, ht⟩ := runOwned_cases h
  · cases ho
  · cases worked with
    | error cause => cases ho
    | ok found =>
      cases ho
      exact ⟨resolved, d, found.2, u, hop, hd, hrun, ht⟩

end Meaning

namespace OwnedOp

variable {m : Meaning} {d after : Deque Element} {s t : Session}

/-- Operations that are not marked as changing hand the deque back as it came. -/
theorem unchanged_of_run {op : OwnedOp Element} (hop : op.changes = false) {answer : Answer}
    (h : op.run m d s = (.ok (answer, after), t)) : after = d := by
  cases op with
  | ends op =>
    cases op with
    | extent =>
      cases h
      exact congrArg Prod.snd (Deque.run_extent d)
    | _ => cases hop
  | edit | remove | removeAt | replace | assign | addInteger | repeatInPlace | concatInPlace => cases hop
  | extent | front | back | walk | stored =>
    cases h
    rfl
  | slot position =>
    cases hg : d.get? position <;> simp only [run, hg] at h <;> cases h
    rfl
  | rankWith other =>
    obtain ⟨e, u, _, h⟩ := bind_eq_ok h
    cases hr : rank d e <;> simp only [hr] at h <;> cases h
    rfl
  | ask query | indexWithin value span | written | copy into | hashAgreesWith other =>
    obtain ⟨_, u, _, h⟩ := bind_eq_ok h
    cases h
    rfl
  | repeated times into | concat other into =>
    obtain ⟨_, u, _, h⟩ := bind_eq_ok h
    obtain ⟨_, v, _, h⟩ := bind_eq_ok h
    cases h
    rfl
  | compareWith other =>
    obtain ⟨e, u, _, h⟩ := bind_eq_ok h
    obtain ⟨equal, v, _, h⟩ := bind_eq_ok h
    obtain ⟨again, w, _, h⟩ := bind_eq_ok h
    cases h
    rfl

theorem left_of_not_changes {op : OwnedOp Element} (hop : op.changes = false)
    {worked : Except Interrupt (Answer × Deque Element)} (h : op.run m d s = (worked, t)) : d.left worked = d := by
  cases worked with
  | error cause => rfl
  | ok found => exact unchanged_of_run hop h

variable {op : OwnedOp Literal} {name : String}

theorem shared_putBack : (op.putBack name d s).shared = s.shared := by
  unfold putBack
  split <;> rfl

theorem ownedDeque?_putBack (h : op.changes = true) : (op.putBack name d s).ownedDeque? name = some d := by
  simp only [putBack, h, if_true]
  exact ownedDeque?_putOwned name d s

/-- After an operation the register holds what was left at hand, also if nothing was put back. -/
theorem ownedDeque?_left {resolved : OwnedOp Element} (hchanges : resolved.changes = op.changes)
    {u v : Session} {worked : Except Interrupt (Answer × Deque Element)} (hrun : resolved.run m d u = (worked, v))
    (hd : s.ownedDeque? name = some d) :
    (op.putBack name (d.left worked) s).ownedDeque? name = some (d.left worked) := by
  cases hc : op.changes with
  | true => exact ownedDeque?_putBack hc
  | false => simp [putBack, hc, left_of_not_changes (hchanges.trans hc) hrun, hd]

end OwnedOp

end EvictingDeque
