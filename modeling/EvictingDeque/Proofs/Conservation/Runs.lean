import EvictingDeque.Proofs.Conservation.Steps
import EvictingDeque.Proofs.Plain.Runs
import Mathlib.Algebra.Order.Group.Multiset
import Mathlib.Tactic.Abel

set_option autoImplicit false

/-!
# Runs of trades

Over a whole run the elements of a deque and all that was offered to it are what it holds at the end and all that was
handed back, overwritten or rejected. The deque may belong to a register, or be shared: then trades come through any
handles, which come and go, and from bodies that hold it for change.
-/
namespace EvictingDeque

open Action

namespace Deal

/-- Each deal begins with the deque that the one before it left. -/
def Chained : Deque Element → List Deal → Deque Element → Prop
  | d, [], e => d = e
  | d, deal :: deals, e => deal.before = d ∧ Chained deal.after deals e

theorem Chained.append {d e f : Deque Element} {deals later : List Deal} (h : Chained d deals e)
    (hlater : Chained e later f) : Chained d (deals ++ later) f := by
  induction deals generalizing d with
  | nil =>
    cases h
    exact hlater
  | cons deal deals ih => exact ⟨h.1, ih h.2⟩

/-- What there was and what was offered is what there is and what was given up. -/
def Settled (d : Deque Element) (deals : List Deal) (e : Deque Element) : Prop :=
  (d.items : Multiset Element) + deals.flatMap offered =
    e.items + deals.flatMap handedBack + deals.flatMap overwritten + deals.flatMap rejected

theorem Fair.settled {deal : Deal} (h : deal.Fair) : Settled deal.before [deal] deal.after := by
  unfold Settled
  simp only [List.flatMap_singleton, Multiset.coe_add, Multiset.coe_eq_coe]
  exact h.conserved

theorem Settled.append {d e f : Deque Element} {deals later : List Deal} (h : Settled d deals e)
    (hlater : Settled e later f) : Settled d (deals ++ later) f := by
  unfold Settled at *
  simp only [List.flatMap_append, ← Multiset.coe_add]
  calc (d.items : Multiset Element) + (deals.flatMap offered + later.flatMap offered)
      = d.items + deals.flatMap offered + later.flatMap offered := (add_assoc ..).symm
    _ = e.items + deals.flatMap handedBack + deals.flatMap overwritten + deals.flatMap rejected +
          later.flatMap offered := by rw [h]
    _ = e.items + later.flatMap offered +
          (deals.flatMap handedBack + deals.flatMap overwritten + deals.flatMap rejected) := by abel
    _ = f.items + later.flatMap handedBack + later.flatMap overwritten + later.flatMap rejected +
          (deals.flatMap handedBack + deals.flatMap overwritten + deals.flatMap rejected) := by rw [hlater]
    _ = _ := by abel

theorem settled_of_chained {d e : Deque Element} {deals : List Deal} (h : Chained d deals e)
    (hfair : ∀ deal ∈ deals, deal.Fair) : Settled d deals e := by
  induction deals generalizing d with
  | nil =>
    cases h
    simp [Settled]
  | cons deal deals ih =>
    obtain ⟨rfl, hrest⟩ := h
    exact (hfair deal List.mem_cons_self).settled.append
      (ih hrest fun other ho => hfair other (List.mem_cons_of_mem _ ho))

end Deal

/-! Deques of registers -/

/-- Trades with the deque that a register owns, and what else happens in between and leaves it alone. -/
inductive OwnedTrading (m : Meaning) (register : String) : Session → List Deal → Session → Prop
  | done (s : Session) : OwnedTrading m register s [] s
  | between {step : Step} {outcome : Except Interrupt Answer} {s t u : Session} {deals : List Deal}
      (run : m.performStep step s = (outcome, t)) (kept : t.ownedDeque? register = s.ownedDeque? register)
      (rest : OwnedTrading m register t deals u) : OwnedTrading m register s deals u
  | trade (o : OwnedOp Literal) {op : OwnedOp Element} {trade : Trade Element} {before after : Deque Element}
      {outcome : Except Interrupt Answer} {s t u : Session} {deals : List Deal}
      (holds : s.ownedDeque? register = some before) (resolved : o.mapM resolve s = (.ok op, s))
      (trades : op.Trades trade) (run : m.performStep (.owned register o) s = (outcome, t))
      (left : t.ownedDeque? register = some after) (rest : OwnedTrading m register t deals u) :
      OwnedTrading m register s (⟨trade, before, outcome, after⟩ :: deals) u

/-- A trade with the deque of a register, whatever the comparisons do that it makes. -/
theorem Meaning.fair_owned {m : Meaning} {register : String} {o : OwnedOp Literal} {op : OwnedOp Element}
    {trade : Trade Element} {before after : Deque Element} {outcome : Except Interrupt Answer} {s t : Session}
    (holds : s.ownedDeque? register = some before) (resolved : o.mapM resolve s = (.ok op, s))
    (trades : op.Trades trade) (run : m.performStep (.owned register o) s = (outcome, t))
    (left : t.ownedDeque? register = some after) : Deal.Fair ⟨trade, before, outcome, after⟩ := by
  rcases hrun : op.run m before { s with pinned := before.owners ++ s.pinned } with ⟨worked, u⟩
  have hperform : m.performStep (.owned register o) s = _ := Meaning.runOwned_of_resolved resolved holds hrun
  have hchanges : o.changes = true := (OwnedOp.changes_mapM resolved).symm.trans trades.changes
  cases run.symm.trans hperform
  cases left.symm.trans (OwnedOp.ownedDeque?_putBack hchanges)
  exact trades.fair hrun

theorem OwnedTrading.fair {m : Meaning} {register : String} {s t : Session} {deals : List Deal}
    (h : OwnedTrading m register s deals t) {d : Deque Element} (hd : s.ownedDeque? register = some d) :
    ∃ e, t.ownedDeque? register = some e ∧ Deal.Chained d deals e ∧ ∀ deal ∈ deals, deal.Fair := by
  induction h generalizing d with
  | done s => exact ⟨d, hd, rfl, nofun⟩
  | between run kept rest ih => exact ih (kept.trans hd)
  | trade o holds resolved trades run left rest ih =>
    cases holds.symm.trans hd
    obtain ⟨e, he, hchained, hfair⟩ := ih left
    refine ⟨e, he, ⟨rfl, hchained⟩, fun deal hdeal => ?_⟩
    rcases List.mem_cons.1 hdeal with rfl | hdeal
    · exact Meaning.fair_owned holds resolved trades run left
    · exact hfair deal hdeal

/-! Shared deques -/

/-- The session in which the body of a hold for change begins. -/
def Session.heldForChange (id : Nat) (s : Session) : Session :=
  { s.putCell id { s.cell id with hold := .exclusive } with pinned := [id] ++ s.pinned }

/-- Trades of a body with the deque that it holds. One that is interrupted ends the body. -/
inductive HeldTrading (m : Meaning) (id : Nat) :
    Session → List (OwnedOp Literal ⊕ Step) → List Deal → Session → Prop
  | done (s : Session) : HeldTrading m id s [] [] s
  | cut (o : OwnedOp Literal) {op : OwnedOp Element} {trade : Trade Element} {cause : Interrupt} {s t : Session}
      (body : List (OwnedOp Literal ⊕ Step)) (resolved : o.mapM resolve s = (.ok op, s)) (trades : op.Trades trade)
      (quiet : op.Quiet m (s.cell id).deque s) (run : m.runHeld id true o s = (.error cause, t)) :
      HeldTrading m id s (.inl o :: body) [⟨trade, (s.cell id).deque, .error cause, (t.cell id).deque⟩] t
  | trade (o : OwnedOp Literal) {op : OwnedOp Element} {trade : Trade Element} {answer : Answer} {s t u : Session}
      {body : List (OwnedOp Literal ⊕ Step)} {deals : List Deal} (resolved : o.mapM resolve s = (.ok op, s))
      (trades : op.Trades trade) (quiet : op.Quiet m (s.cell id).deque s)
      (run : m.runHeld id true o s = (.ok answer, t)) (rest : HeldTrading m id t body deals u) :
      HeldTrading m id s (.inl o :: body) (⟨trade, (s.cell id).deque, .ok answer, (t.cell id).deque⟩ :: deals) u

/-- Trades with a shared deque, through whichever registers hold a handle of it then, one by one or in a hold for change,
and what else happens in between and leaves it alone. What a removal through a handle compares has no side effects. -/
inductive SharedTrading (m : Meaning) (id : Nat) : Session → List Deal → Session → Prop
  | done (s : Session) : SharedTrading m id s [] s
  | between {step : Step} {outcome : Except Interrupt Answer} {s t u : Session} {deals : List Deal}
      (run : m.performStep step s = (outcome, t)) (kept : (t.cell id).deque = (s.cell id).deque)
      (rest : SharedTrading m id t deals u) : SharedTrading m id s deals u
  | trade (name : String) (o : SharedOp Literal) {op : SharedOp Element} {trade : Trade Element}
      {outcome : Except Interrupt Answer} {s t u : Session} {deals : List Deal}
      (handle : s.shared.get? name = some id) (resolved : o.mapM resolve s = (.ok op, s)) (trades : op.Trades trade)
      (quiet : op.Quiet m s id) (run : m.performStep (.shared name o) s = (outcome, t))
      (rest : SharedTrading m id t deals u) :
      SharedTrading m id s (⟨trade, (s.cell id).deque, outcome, (t.cell id).deque⟩ :: deals) u
  | hold (name : String) {body : List (OwnedOp Literal ⊕ Step)} {outcome : Except Interrupt Answer}
      {s t u v : Session} {deals later : List Deal} (handle : s.shared.get? name = some id)
      (held : HeldTrading m id (s.heldForChange id) body deals v)
      (run : m.performStep (.hold name true body) s = (outcome, t)) (rest : SharedTrading m id t later u) :
      SharedTrading m id s (deals ++ later) u

theorem HeldTrading.fair {m : Meaning} {id : Nat} {s t : Session} {body : List (OwnedOp Literal ⊕ Step)}
    {deals : List Deal} (h : HeldTrading m id s body deals t) (hid : id < s.nextCell) :
    (m.runBody id true body s).2 = t ∧ Deal.Chained (s.cell id).deque deals (t.cell id).deque ∧
      ∀ deal ∈ deals, deal.Fair := by
  induction h with
  | done s => exact ⟨rfl, rfl, nofun⟩
  | cut o body resolved trades quiet run =>
    refine ⟨congrArg Prod.snd (bind_error run), ⟨rfl, rfl⟩, fun deal hdeal => ?_⟩
    cases List.mem_singleton.1 hdeal
    exact (Meaning.fair_runHeld hid resolved trades quiet run).1
  | @trade o op trade answer s t u body deals resolved trades quiet run rest ih =>
    obtain ⟨hdeal, hlimit⟩ := Meaning.fair_runHeld hid resolved trades quiet run
    obtain ⟨hbody, hchained, hfair⟩ := ih (Nat.lt_of_lt_of_le hid hlimit)
    refine ⟨?_, ⟨rfl, hchained⟩, fun other ho => ?_⟩
    · have hfirst : m.runBody id true (.inl o :: body) s = _ := bind_ok run
      rw [hfirst]
      rcases hrest : m.runBody id true body t with ⟨cause | answers, v⟩
      · rw [bind_error hrest]
        rwa [hrest] at hbody
      · rw [bind_ok hrest]
        rwa [hrest] at hbody
    · rcases List.mem_cons.1 ho with rfl | ho
      · exact hdeal
      · exact hfair other ho

/-- When the hold ends, however it ends, the deque is what the body has left. -/
theorem Action.deque_of_holdingForChange {α : Type} {action : Action α} {id : Nat} {s t : Session}
    {outcome : Except Interrupt α} (hf : (s.cell id).hold = .free) (h : holdingForChange id action s = (outcome, t)) :
    (t.cell id).deque = ((action (s.heldForChange id)).2.cell id).deque := by
  have hentered : holdingForChange id action s = _ := bind_ok (changeCell_of_free _ hf)
  rw [hentered] at h
  obtain ⟨u, hensured, rfl⟩ := ensuring_cases h
  rw [Session.cell_setHold]
  rcases recovering_cases hensured with ⟨value, hcounted, rfl⟩ | ⟨cause, v, hcounted, rfl, rfl⟩
  · obtain ⟨_, w, haction, hcounted⟩ := bind_eq_ok hcounted
    cases hcounted
    obtain ⟨x, hx, rfl⟩ := pinning_cases haction
    have hinner : action (s.heldForChange id) = _ := hx
    rw [Session.cell_putCell_self, hinner]
    rfl
  · rcases bind_cases hcounted with ⟨_, haction, _⟩ | ⟨_, _, _, hcounted⟩
    · obtain ⟨x, hx, rfl⟩ := pinning_cases haction
      have hinner : action (s.heldForChange id) = _ := hx
      rw [hinner]
      rfl
    · cases hcounted

theorem SharedTrading.fair (depth : Nat) {id : Nat} {s t : Session} {deals : List Deal}
    (h : SharedTrading (Meaning.upTo depth) id s deals t) (hs : s.Proper) (hid : id < s.nextCell)
    (hf : (s.cell id).hold = .free) :
    Deal.Chained (s.cell id).deque deals (t.cell id).deque ∧ ∀ deal ∈ deals, deal.Fair := by
  have hnext {step : Step} {outcome : Except Interrupt Answer} {s t : Session} (hs : s.Proper) (hid : id < s.nextCell)
      (hf : (s.cell id).hold = .free) (run : (Meaning.upTo depth).performStep step s = (outcome, t)) :
      t.Proper ∧ id < t.nextCell ∧ (t.cell id).hold = .free := by
    obtain ⟨ht, hbounds⟩ := hs.perform (depth + 1) step
    have hperform : ((Meaning.upTo (depth + 1)).perform step s) = (outcome, t) := run
    rw [hperform] at ht hbounds
    exact ⟨ht, Nat.lt_of_lt_of_le hid hbounds.1, (hbounds.2 id hid).hold.trans hf⟩
  induction h with
  | done s => exact ⟨rfl, nofun⟩
  | between run kept rest ih =>
    obtain ⟨ht, hid, hf⟩ := hnext hs hid hf run
    rw [← kept]
    exact ih ht hid hf
  | trade name o handle resolved trades quiet run rest ih =>
    have hdeal := trades.fair hid hf quiet ((Meaning.performStep_shared resolved handle).symm.trans run)
    obtain ⟨ht, hid, hf⟩ := hnext hs hid hf run
    obtain ⟨hchained, hfair⟩ := ih ht hid hf
    refine ⟨⟨rfl, hchained⟩, fun other ho => ?_⟩
    rcases List.mem_cons.1 ho with rfl | ho
    · exact hdeal
    · exact hfair other ho
  | @hold name body outcome s t u v deals later handle held run rest ih =>
    obtain ⟨hbody, hheld, hfair⟩ := held.fair hid
    have hleft : (t.cell id).deque = (v.cell id).deque := by
      have hperform : (Meaning.upTo depth).performStep (.hold name true body) s = _ :=
        bind_ok (sharedRegister_of_get? handle)
      rw [run, if_pos rfl] at hperform
      rw [← hbody]
      rcases bind_cases hperform.symm with ⟨_, hhold, _⟩ | ⟨_, w, hhold, hend⟩
      · exact deque_of_holdingForChange hf hhold
      · cases hend
        exact deque_of_holdingForChange hf hhold
    have hstart : ((s.heldForChange id).cell id).deque = (s.cell id).deque :=
      (congrArg Cell.deque (Session.cell_putCell_self s id _)).trans rfl
    obtain ⟨ht, hid, hf⟩ := hnext hs hid hf run
    obtain ⟨hchained, hrest⟩ := ih ht hid hf
    rw [hstart] at hheld
    rw [hleft] at hchained
    refine ⟨hheld.append hchained, fun deal hdeal => ?_⟩
    exact (List.mem_append.1 hdeal).elim (hfair deal) (hrest deal)

/-- In any session the deque of a register, in any proper one a shared deque that nobody holds: whatever trades succeed
and fail, no element is lost and none is there twice. Each trade begins with what the one before it left, fails where it
should and nowhere else, and has then changed nothing. -/
theorem trades_conserve (depth : Nat) {s t : Session} {deals : List Deal} :
    (∀ register d, s.ownedDeque? register = some d → OwnedTrading (Meaning.upTo depth) register s deals t →
        ∃ e, t.ownedDeque? register = some e ∧ Deal.Chained d deals e ∧ Deal.Settled d deals e ∧
          ∀ deal ∈ deals, deal.Fair) ∧
      ∀ id, s.Proper → id < s.nextCell → (s.cell id).hold = .free →
        SharedTrading (Meaning.upTo depth) id s deals t →
        Deal.Chained (s.cell id).deque deals (t.cell id).deque ∧
          Deal.Settled (s.cell id).deque deals (t.cell id).deque ∧ ∀ deal ∈ deals, deal.Fair := by
  refine ⟨fun register d hd h => ?_, fun id hs hid hf h => ?_⟩
  · obtain ⟨e, he, hchained, hfair⟩ := h.fair hd
    exact ⟨e, he, hchained, Deal.settled_of_chained hchained hfair, hfair⟩
  · obtain ⟨hchained, hfair⟩ := h.fair depth hs hid hf
    exact ⟨hchained, Deal.settled_of_chained hchained hfair, hfair⟩

/-- A full shared deque with two handles, and a register with the same contents. -/
def Session.withFullDeques : Session :=
  endOf (Meaning.upTo 1)
    [.createShared "d" (.items [.int 1, .int 2] (some 2)), .shared "d" (.share "e"),
      .createOwned "o" (.items [.int 1, .int 2] (some 2))]
    (start [] none)

/-- Through two handles an insertion is refused, a push evicts, and a removal hands back what is stored. In a body an
assignment overwrites, and one past the end cuts the body short. -/
theorem trades_conserve_full :
    (∃ deals t, SharedTrading (Meaning.upTo 1) 0 .withFullDeques deals t ∧
        deals.map Deal.outcome =
          [.ok (.refused (.full 2)), .ok (.element (some (.int 1))), .ok (.element (some (.int 2)))] ∧
        (t.cell 0).deque = ⟨[.int 3], some 2⟩ ∧
        Deal.Settled (Session.withFullDeques.cell 0).deque deals (t.cell 0).deque) ∧
      (∃ deals t, SharedTrading (Meaning.upTo 1) 0 .withFullDeques deals t ∧
        deals.map Deal.outcome = [.ok .nothing, .error (.panic .outOfBounds)] ∧
        (t.cell 0).deque = ⟨[.int 5, .int 2], some 2⟩ ∧
        Deal.Settled (Session.withFullDeques.cell 0).deque deals (t.cell 0).deque) ∧
      ∃ deals t e, OwnedTrading (Meaning.upTo 1) "o" .withFullDeques deals t ∧
        deals.map Deal.outcome = [.ok (.refused (.indexOutOfRange 7 2)), .ok (.element (some (.int 1)))] ∧
        t.ownedDeque? "o" = some e ∧ Deal.Settled ⟨[.int 1, .int 2], some 2⟩ deals e := by
  have hproper : Session.withFullDeques.Proper := (Session.proper_start [] none).endOf _ _
  have hquiet (s : Session) : ∀ stored ∈ [Value.int 2, Value.int 3],
      ((Meaning.upTo 1).equal stored (.int 2)).Innocent s := by
    intro stored hs
    simp only [List.mem_cons, List.not_mem_nil, or_false] at hs
    rcases hs with rfl | rfl <;> exact .done
  have hhandles : ∃ deals t, SharedTrading (Meaning.upTo 1) 0 .withFullDeques deals t ∧
      deals.map Deal.outcome =
        [.ok (.refused (.full 2)), .ok (.element (some (.int 1))), .ok (.element (some (.int 2)))] ∧
      (t.cell 0).deque = ⟨[.int 3], some 2⟩ :=
    ⟨_, _,
      .trade "d" (.edit (.insert 0 (.int 9))) rfl rfl (@SharedOp.Trades.edit _ _ (.insert 0 (.int 9)) rfl) trivial rfl
        (.trade "e" (.edit (.pushBack (.int 3))) rfl rfl (@SharedOp.Trades.edit _ _ (.pushBack (.int 3)) rfl) trivial rfl
          (.trade "d" (.remove (.int 2)) rfl rfl (.remove _) (fun stored h => hquiet _ stored h) rfl (.done _))),
      rfl, rfl⟩
  have hbody : ∃ deals t, SharedTrading (Meaning.upTo 1) 0 .withFullDeques deals t ∧
      deals.map Deal.outcome = [.ok .nothing, .error (.panic .outOfBounds)] ∧
      (t.cell 0).deque = ⟨[.int 5, .int 2], some 2⟩ :=
    ⟨_, _,
      .hold "e" rfl
        (.trade (.assign 0 (.int 5)) rfl (.assign 0 _) (fun _ h => nomatch h) rfl
          (.cut (.assign 9 (.int 6)) [] rfl (.assign 9 _) (fun _ h => nomatch h) rfl))
        rfl (.done _),
      rfl, rfl⟩
  have hregister : ∃ deals t, OwnedTrading (Meaning.upTo 1) "o" .withFullDeques deals t ∧
      deals.map Deal.outcome = [.ok (.refused (.indexOutOfRange 7 2)), .ok (.element (some (.int 1)))] :=
    ⟨_, _,
      .trade (.removeAt 7) rfl rfl (.removeAt 7) rfl rfl
        (.trade (.edit .popFront) rfl rfl (@OwnedOp.Trades.edit _ _ .popFront rfl) rfl rfl (.done _)),
      rfl⟩
  obtain ⟨deals, t, hrun, houtcomes, hleft⟩ := hhandles
  obtain ⟨deals', t', hrun', houtcomes', hleft'⟩ := hbody
  obtain ⟨deals'', t'', hrun'', houtcomes''⟩ := hregister
  obtain ⟨-, hsettled, -⟩ := (trades_conserve 1).2 0 hproper (by decide) rfl hrun
  obtain ⟨-, hsettled', -⟩ := (trades_conserve 1).2 0 hproper (by decide) rfl hrun'
  obtain ⟨e, he, -, hsettled'', -⟩ := (trades_conserve 1).1 "o" ⟨[.int 1, .int 2], some 2⟩ rfl hrun''
  exact ⟨⟨deals, t, hrun, houtcomes, hleft, hsettled⟩, ⟨deals', t', hrun', houtcomes', hleft', hsettled'⟩,
    deals'', t'', e, hrun'', houtcomes'', he, hsettled''⟩

end EvictingDeque
