import EvictingDeque.Proofs.Comparing.Looking
import EvictingDeque.Proofs.Mutations.Counted

set_option autoImplicit false

/-!
# Questions only look

Searches and the other questions about a shared deque, where no element acts.
-/
namespace EvictingDeque

open Action

namespace Action.Looks

variable {β : Type} {conflicts : Hold → Prop} {s : Session} {id : Nat} {test : Element → Action Bool}

theorem visit (hc : conflicts .exclusive) (hid : s.Lives id) {item : Element} (hitem : item.AtHome s)
    (htest : (test item).Looks conflicts s) (mutations : Nat) : (visit id mutations test item).Looks conflicts s :=
  (htest.pinning hitem.owners).bind fun _ => readCell hc hid (fun _ _ _ hm => by rw [hm]) fun _ _ => pure _

theorem scanFrom (hc : conflicts .exclusive) (hid : s.Lives id) {items : List Element}
    (hitems : ∀ item ∈ items, item.AtHome s ∧ (test item).Looks conflicts s) (mutations : Nat) (onlyFirst : Bool)
    (position : Nat) (found : List Nat) :
    (scanFrom id mutations test onlyFirst position found items).Looks conflicts s := by
  induction items generalizing position found with
  | nil => exact pure _
  | cons item items ih =>
    obtain ⟨hhome, htest⟩ := hitems item List.mem_cons_self
    refine (visit hc hid hhome htest mutations).bind fun hit => ?_
    cases hit with
    | none => exact pure _
    | some hit =>
      dsimp only
      split
      · exact pure _
      · exact ih (fun other ho => hitems other (List.mem_cons_of_mem _ ho)) _ _

theorem scan (hc : conflicts .exclusive) (hid : s.Lives id)
    (htest : ∀ item : Element, item.AtHome s → (test item).Looks conflicts s) (onlyFirst : Bool) :
    (scan id test onlyFirst).Looks conflicts s :=
  readCell hc hid (fun _ _ hd hm => by rw [hd, hm]) fun _ hhome =>
    scanFrom hc hid (fun item hi => ⟨hhome item hi, htest item (hhome item hi)⟩) _ _ _ _

theorem locateShared (hc : conflicts .exclusive) {m : Meaning}
    (hm : ∀ x y : Element, x.AtHome s → y.AtHome s → (m.equal x y).Looks conflicts s) (hid : s.Lives id)
    {value : Element} (hv : value.AtHome s) (onlyFirst : Bool) :
    (locateShared m id value onlyFirst).Looks conflicts s := by
  refine (scan hc hid (fun item hi => hm item value hi hv) onlyFirst).pinning fun owned ho => ?_
  rcases List.mem_cons.1 ho with rfl | ho
  · exact hid
  · exact hv.owners owned ho

theorem contents (hc : conflicts .exclusive) (hid : s.Lives id) (f : Deque Element → β) :
    (do return f (← Action.readCell id).deque : Action β).Looks conflicts s :=
  readCell hc hid (fun _ _ hd _ => by rw [hd]) fun _ _ => pure _

theorem runQuery (hc : conflicts .exclusive) {m : Meaning}
    (hm : ∀ x y : Element, x.AtHome s → y.AtHome s → (m.equal x y).Looks conflicts s) (hid : s.Lives id)
    {query : Query Element} (hq : ∀ value ∈ (SharedOp.ask query).sought, value.AtHome s) :
    (runQuery (return (← Action.readCell id).deque) (Action.locateShared m id) query).Looks conflicts s := by
  have hlocate (value : Element) (hv : value ∈ (SharedOp.ask query).sought) (onlyFirst : Bool) :=
    locateShared hc hm hid (hq value hv) onlyFirst
  cases query with
  | get position => exact (contents hc hid fun d => d).bind fun _ => pure _
  | toList => exact (contents hc hid fun d => d).bind fun _ => pure _
  | count value => exact (hlocate value List.mem_cons_self false).bind fun _ => pure _
  | index value => exact (hlocate value List.mem_cons_self true).bind fun _ => pure _
  | contains value =>
    refine (hlocate value List.mem_cons_self true).bind fun located => ?_
    cases located with
    | error refusal => exact pure _
    | ok positions => exact pure _

theorem extent (hc : conflicts .exclusive) (hid : s.Lives id) : (sharedEnds id).extent.Looks conflicts s := by
  have hlength : (sharedEnds id).length.Looks conflicts s := contents hc hid Deque.length
  have hbound : (sharedEnds id).bound.Looks conflicts s := contents hc hid Deque.bound
  refine hlength.bind fun _ => hbound.bind fun _ => (hlength.bind fun _ => pure _).bind fun _ => ?_
  refine Looks.bind (hbound.bind fun bound => ?_) fun _ => pure _
  cases bound with
  | none => exact pure _
  | some bound => exact hlength.bind fun _ => pure _

end Action.Looks

end EvictingDeque
