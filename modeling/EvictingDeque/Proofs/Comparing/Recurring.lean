import EvictingDeque.Proofs.Comparing.Asking
import EvictingDeque.Proofs.Ownership.Owning
import Mathlib.Data.Finite.Prod
import Mathlib.Data.Fintype.Card

set_option autoImplicit false

/-!
# Comparisons that come back to themselves

There are only finitely many deques, so a comparison goes on for ever exactly if it comes back to a pair of deques while
it is comparing that very pair. For this, deques on both sides have to own themselves, through others or not.
-/
namespace EvictingDeque

open Action Relation

namespace Session

variable {s : Session} {pair next : Nat × Nat}

/-- Comparing the two deques comes to a comparison that comes back to itself. -/
def Recurs (s : Session) (pair : Nat × Nat) : Prop := ∃ next, ReflTransGen s.Asks pair next ∧ TransGen s.Asks next next

theorem Founded.not_recurs (h : s.Founded pair) : ¬ s.Recurs pair := by
  have hcycle {pair : Nat × Nat} (h : s.Founded pair) : ¬ TransGen s.Asks pair pair := by
    induction h with
    | intro pair _ ih =>
      intro hcycle
      obtain ⟨next, hstep, hback⟩ := TransGen.head'_iff.1 hcycle
      exact ih next hstep (.tail' hback hstep)
  rintro ⟨next, hreach, hback⟩
  have hnext : s.Founded next := by
    clear hback
    induction hreach with
    | refl => exact h
    | tail _ hstep ih => exact ih.inv hstep
  exact hcycle hnext hback

/-- An infinite descent through finitely many deques would come back. -/
theorem founded_of_not_recurs (hs : s.Near s) (ha : s.Lives pair.1) (hb : s.Lives pair.2) (h : ¬ s.Recurs pair) :
    s.Founded pair := by
  let place (p : Fin s.nextCell × Fin s.nextCell) : Nat × Nat := (p.1.val, p.2.val)
  let below (q p : Fin s.nextCell × Fin s.nextCell) : Prop :=
    ReflTransGen s.Asks pair (place p) ∧ TransGen s.Asks (place p) (place q)
  have : IsTrans _ below := ⟨fun _ _ _ hqp hpr => ⟨hpr.1, hpr.2.trans hqp.2⟩⟩
  have : Std.Irrefl below := ⟨fun p hp => h ⟨place p, hp⟩⟩
  have hwf : WellFounded below := Finite.wellFounded_of_trans_of_irrefl below
  have hall (p : Fin s.nextCell × Fin s.nextCell) (hreach : ReflTransGen s.Asks pair (place p))
      (hleft : s.Lives (place p).1) (hright : s.Lives (place p).2) : s.Founded (place p) := by
    induction p using hwf.induction with
    | h p ih =>
      refine .intro _ fun next hnext => ?_
      obtain ⟨hleft', hright'⟩ := hnext.lives hs hleft hright
      exact ih (⟨next.1, hleft'.made⟩, ⟨next.2, hright'.made⟩) ⟨hreach, .single hnext⟩ (hreach.tail hnext) hleft' hright'
  exact hall (⟨pair.1, ha.made⟩, ⟨pair.2, hb.made⟩) .refl ha hb

theorem founded_iff (hs : s.Near s) (ha : s.Lives pair.1) (hb : s.Lives pair.2) : s.Founded pair ↔ ¬ s.Recurs pair :=
  ⟨Founded.not_recurs, founded_of_not_recurs hs ha hb⟩

/-! What recurs owns itself -/

def Owning (s : Session) (owner id : Nat) : Prop := (s.cell owner).deque.Owns id

theorem ComesTo.owned {as bs : List Element} (h : s.ComesTo as bs pair) :
    (∃ x ∈ as, x.Owns pair.1) ∧ ∃ y ∈ bs, y.Owns pair.2 := by
  induction h with
  | handles a b => exact ⟨⟨_, List.mem_cons_self, .link rfl⟩, _, List.mem_cons_self, .link rfl⟩
  | nested _ _ _ _ ih =>
    obtain ⟨⟨x, hx, hleft⟩, y, hy, hright⟩ := ih
    exact ⟨⟨_, List.mem_cons_self, .nested hx hleft⟩, _, List.mem_cons_self, .nested hy hright⟩
  | later _ _ ih =>
    obtain ⟨⟨x, hx, hleft⟩, y, hy, hright⟩ := ih
    exact ⟨⟨x, List.mem_cons_of_mem _ hx, hleft⟩, y, List.mem_cons_of_mem _ hy, hright⟩

theorem not_recurs_of_acyclic_left (h : ∀ id, ReflTransGen s.Owning pair.1 id → ¬ TransGen s.Owning id id) :
    ¬ s.Recurs pair := by
  rintro ⟨next, hreach, hback⟩
  have hstep : ∀ p q, s.Asks p q → s.Owning p.1 q.1 := fun _ _ hasks => hasks.comes.owned.1
  exact h next.1 (hreach.lift Prod.fst hstep) (hback.lift Prod.fst hstep)

theorem not_recurs_of_acyclic_right (h : ∀ id, ReflTransGen s.Owning pair.2 id → ¬ TransGen s.Owning id id) :
    ¬ s.Recurs pair := by
  rintro ⟨next, hreach, hback⟩
  have hstep : ∀ p q, s.Asks p q → s.Owning p.2 q.2 := fun _ _ hasks => hasks.comes.owned.2
  exact h next.2 (hreach.lift Prod.snd hstep) (hback.lift Prod.snd hstep)

end Session

namespace Meaning

variable {s : Session}

theorem concludesCells_iff (hs : s.Near s) {pair : Nat × Nat} (ha : s.Lives pair.1) (hb : s.Lives pair.2) :
    ConcludesCells s pair ↔ ¬ s.Recurs pair := by
  rw [← Session.founded_iff hs ha hb]
  exact ⟨fun ⟨_, h⟩ => founded_of_shallow hs ha hb h.ne_tooDeep, fun h => concludes_of_founded hs h ha hb⟩

/-- Two elements conclude if nothing they come to recurs, and go too deep at every depth otherwise. -/
theorem concludes_equal_of_not_recurs (hs : s.Near s) {x y : Element} (hx : x.AtHome s) (hy : y.AtHome s)
    (h : ∀ pair, s.ComesTo [x] [y] pair → ¬ s.Recurs pair) : Concludes s fun depth => (upTo depth).equal x y := by
  refine concludes_equal hs x y hx hy fun pair hm => ?_
  obtain ⟨ha, hb⟩ := hm.lives (List.forall_mem_singleton.2 hx) (List.forall_mem_singleton.2 hy)
  exact (concludesCells_iff hs ha hb).2 (h pair hm)

theorem not_recurs_of_shallow (hs : s.Near s) {x y : Element} (hx : x.AtHome s) (hy : y.AtHome s) {k : Nat}
    (h : ((upTo k).equal x y s).1 ≠ .error .tooDeep) {pair : Nat × Nat} (hm : s.ComesTo [x] [y] pair) :
    ¬ s.Recurs pair := by
  have hx' := List.forall_mem_singleton.2 hx
  have hy' := List.forall_mem_singleton.2 hy
  have hpairs : (equalPairs (upTo k).equal [x] [y] s).1 ≠ .error .tooDeep := by
    rw [equalPairs_cons (reads_equal k x y hx hy) hs]
    split
    · nofun
    · exact h
  obtain ⟨j, _, hshallow⟩ := comesTo_shallow hs hm hx' hy' hpairs
  obtain ⟨ha, hb⟩ := hm.lives hx' hy'
  exact (founded_of_shallow hs ha hb hshallow).not_recurs

end Meaning

end EvictingDeque
