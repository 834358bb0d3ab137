import EvictingDeque.Proofs.Comparing.Equivalence

set_option autoImplicit false

/-!
# Comparing a copy

A copy is a deque of its own with the same elements. As long as elements equal themselves it compares as the copied
deque does, except that nothing is compared without a look.
-/
namespace EvictingDeque

open Action

namespace Session

variable {s : Session} {d : Deque Element} {ids : List Nat}

/-- The session with one more deque. -/
def adding (d : Deque Element) (s : Session) : Session :=
  { s.putCell s.nextCell (.fresh d) with nextCell := s.nextCell + 1 }

theorem cell_adding (d : Deque Element) (s : Session) : (s.adding d).cell s.nextCell = .fresh d :=
  cell_putCell_self s s.nextCell _

theorem cell_adding_of_lt (d : Deque Element) {id : Nat} (h : id < s.nextCell) : (s.adding d).cell id = s.cell id :=
  cell_putCell_of_ne s (Nat.ne_of_gt h) _

theorem mem_holdings_adding (hnew : ¬ s.Made s.nextCell) {holding : Holding} :
    holding ∈ (s.adding d).holdings ↔ holding = (s.nextCell, d.owners) ∨ holding ∈ s.holdings := by
  have hentries := Table.entries_put_of_new (Option.not_isSome_iff_eq_none.1 hnew) (Memo.of Cell.owners (.fresh d))
  change holding ∈ (s.cells.put _ _).entries.map _ ↔ _
  rw [hentries, List.map_append, List.mem_append, or_comm]
  exact or_congr List.mem_singleton Iff.rfl

/-- A new deque that owns living deques, kept alive or not, makes no difference to the others. -/
theorem Near.adding (hs : s.Near s) (hnew : ¬ s.Made s.nextCell) (hd : ∀ id ∈ d.owners, s.Lives id)
    (hids : ∀ id ∈ ids, id = s.nextCell ∨ s.Lives id) :
    s.Near { s.adding d with pinned := ids ++ s.pinned } where
  hooks := rfl
  living id hid := by
    refine isLiving_of_added ids (fun _ => mem_holdings_adding hnew) (fun holding hm => ?_)
      (fun _ => mem_roots_pinned s ids) (fun other ho => (hids other ho).imp_right (·.living))
      (fun other ho => (hd other ho).living) (Nat.ne_of_lt hid)
    obtain ⟨entry, he, rfl⟩ := List.mem_map.1 hm
    exact Table.ne_of_get?_none (Option.not_isSome_iff_eq_none.1 hnew) entry he
  made id hid := made_putCell s _ _ _ (hs.made id hid)
  known id hid := (congrArg (·.deque.items) (cell_adding_of_lt d hid)).symm ▸ hs.known id hid
  silent id hid := (congrArg (·.deque.items) (cell_adding_of_lt d hid)).symm ▸ hs.silent id hid

end Session

namespace Action

variable {s : Session} {equal : Element → Element → Action Bool} {a b : Nat}

/-- A copy is compared by the elements that were copied. -/
theorem equalCells_copy (hs : s.Near s) (hnew : ¬ s.Made s.nextCell)
    (h : ∀ x y : Element, x.AtHome s → y.AtHome s → (equal x y).Reads s) (ha : s.Lives a) (hb : s.Lives b)
    (hright : (s.cell b).hold.allowsReading = true) :
    equalCells equal s.nextCell b (s.adding (s.cell a).deque) =
      ((equalItems equal (s.cell a).deque.items (s.cell b).deque.items s).1, s.adding (s.cell a).deque) := by
  have hlooks : (equalItems equal (s.cell a).deque.items (s.cell b).deque.items).Reads s :=
    .equalItems fun x hx y hy => h x y (hs.contents ha x hx) (hs.contents hb y hy)
  have hkept := pins_living ha hb (hs.contents ha) (hs.contents hb)
  have hpins : ∀ id ∈ s.nextCell :: b :: (s.cell a).deque.owners ++ (s.cell b).deque.owners,
      id = s.nextCell ∨ s.Lives id :=
    fun id hid => (List.mem_cons.1 hid).imp_right fun hid => hkept id (List.mem_cons_of_mem _ hid)
  have howned : ∀ id ∈ (s.cell a).deque.owners, s.Lives id := fun id hid => hkept id (by simp [hid])
  have hnear := hs.adding hnew howned hpins
  have hcopy : readCell s.nextCell (s.adding (s.cell a).deque) =
      (.ok (.fresh (s.cell a).deque), s.adding (s.cell a).deque) := by
    rw [readCell_of_reading] <;> rw [Session.cell_adding]
    rfl
  have hother : readCell b (s.adding (s.cell a).deque) = (.ok (s.cell b), s.adding (s.cell a).deque) := by
    rw [readCell_of_reading] <;> rw [Session.cell_adding_of_lt _ hb.made]
    exact hright
  have hsame := hlooks.same_of_cells hs hnear fun id hid => Session.cell_adding_of_lt _ hid
  have hrun := hlooks.run hnear
  rw [hsame] at hrun
  unfold equalCells
  rw [if_neg (Nat.ne_of_gt hb.made), bind_ok hcopy, bind_ok hother]
  exact pinning_of_eq hrun

theorem equalCells_copy_unchanged (hs : s.Near s) (hnew : ¬ s.Made s.nextCell)
    (h : ∀ x y : Element, x.AtHome s → y.AtHome s → (equal x y).Reads s) (ha : s.Lives a) (hb : s.Lives b) :
    (equalCells equal s.nextCell b (s.adding (s.cell a).deque)).2 = s.adding (s.cell a).deque := by
  cases hread : (s.cell b).hold.allowsReading with
  | true => rw [equalCells_copy hs hnew h ha hb hread]
  | false =>
    have hfresh : ((s.adding (s.cell a).deque).cell s.nextCell).hold.allowsReading = true := by
      rw [Session.cell_adding]
      rfl
    rw [← Session.cell_adding_of_lt (s.cell a).deque hb.made] at hread
    unfold equalCells
    rw [if_neg (Nat.ne_of_gt hb.made), bind_ok (readCell_of_reading hfresh), bind_error (readCell_of_held hread)]

/-- Where every element equals itself, a list is found equal to itself if anything is found. -/
theorem equalPairs_self {as : List Element} (hs : s.Near s) (h : ∀ x ∈ as, (equal x x).Reads s)
    (hself : ∀ x ∈ as, ∀ found, (equal x x s).1 = .ok found → found = true) {found : Bool}
    (hfound : (equalPairs equal as as s).1 = .ok found) : found = true := by
  induction as with
  | nil => exact (Except.ok.inj hfound).symm
  | cons x as ih =>
    have hrun := (h x List.mem_cons_self).run hs
    rw [equalPairs] at hfound
    rcases hfirst : (equal x x s).1 with cause | same <;> rw [hfirst] at hrun
    · rw [bind_error hrun] at hfound
      cases hfound
    · cases hself x List.mem_cons_self same hfirst
      rw [bind_ok hrun] at hfound
      exact ih (fun y hy => h y (List.mem_cons_of_mem _ hy)) (fun y hy => hself y (List.mem_cons_of_mem _ hy)) hfound

/-- However deep it is allowed to go, an action that answers answers the same. -/
theorem same_answer {α : Type} {a : Nat → Action α} (hb : ∀ n k, n ≤ k → Below α (a n) (a k)) {n k : Nat} {v w : α}
    (hv : (a n s).1 = .ok v) (hw : (a k s).1 = .ok w) : v = w := by
  rcases Nat.le_total n k with hle | hle
  · have hsame := hb n k hle s (by rw [hv]; nofun)
    rw [hsame, hv] at hw
    exact Except.ok.inj hw
  · have hsame := hb k n hle s (by rw [hw]; nofun)
    rw [hsame, hw] at hv
    exact (Except.ok.inj hv).symm

end Action

namespace Meaning

variable {s : Session} {a b : Nat}

theorem below_equal {n k : Nat} (h : n ≤ k) (x y : Element) : Below Bool ((upTo n).equal x y) ((upTo k).equal x y) :=
  (upTo_below h).equal x y

theorem below_equalItems {n k : Nat} (h : n ≤ k) (as bs : List Element) :
    Below Bool (equalItems (upTo n).equal as bs) (equalItems (upTo k).equal as bs) :=
  below_sequential.equalItems (below_equal h) as bs

theorem below_equalCells {n k : Nat} (h : n ≤ k) (a b : Nat) :
    Below Bool (equalCells (upTo n).equal a b) (equalCells (upTo k).equal a b) :=
  below_compositional.equalCells (below_equal h) a b

/-- A copy of a deque whose elements equal themselves compares as the deque does. -/
theorem copy_compares (hs : s.Near s) (hnew : ¬ s.Made s.nextCell) (ha : s.Lives a) (hb : s.Lives b)
    (hself : ∀ x ∈ (s.cell a).deque.items, ∃ depth, Says s ((upTo depth).equal x x)) {n k : Nat} {v w : Bool}
    (hv : (equalCells (upTo n).equal a b s).1 = .ok v)
    (hw : (equalCells (upTo k).equal s.nextCell b (s.adding (s.cell a).deque)).1 = .ok w) : v = w := by
  obtain ⟨_, hread⟩ := reading_of_answer (Nat.ne_of_gt hb.made) hw
  rw [Session.cell_adding_of_lt _ hb.made] at hread
  rw [equalCells_copy hs hnew (reads_equal k) ha hb hread] at hw
  by_cases hab : a = b
  · subst hab
    have hv' : true = v := Except.ok.inj ((congrArg Prod.fst (congrFun (if_pos rfl) s)).symm.trans hv)
    subst hv'
    unfold equalItems at hw
    rw [if_pos rfl] at hw
    refine (equalPairs_self hs (fun x hx => reads_equal k x x (hs.contents ha x hx) (hs.contents ha x hx))
      (fun x hx found hf => ?_) hw).symm
    obtain ⟨depth, hdepth⟩ := hself x hx
    exact (same_answer (fun n k h => below_equal h x x) hdepth hf).symm
  · obtain ⟨hleft, hright⟩ := reading_of_answer hab hv
    rw [equalCells_apart hs (reads_equal n) ha hb hab hleft hright] at hv
    exact same_answer (fun n k h => below_equalItems h _ _) hv hw

end Meaning

/-- Handles of living deques where elements compare as they should. The first two parts say what a comparison of
elements and one of handles is; then it is an equivalence that leaves the session as it was, with as much depth as two
comparisons need together; a copy compares as its original does, when both comparisons answer; and the last part is
about handles in registers. -/
theorem handles_equal_equivalence {s : Session} (hs : s.Proper) (hmade : ∀ id, s.Made id ↔ id < s.nextCell)
    (hsilent : s.Silent) (hfair : s.Fair) :
    (∀ depth x y, s.Present x → s.Present y →
        (Says s ((Meaning.upTo (depth + 1)).equal x y) ↔
          s.Matches (fun x y => Says s ((Meaning.upTo depth).equal x y)) x y)) ∧
      (∀ depth a b, s.Lives a → s.Lives b →
        (Says s (equalCells (Meaning.upTo depth).equal a b) ↔
          s.SameDeques (fun x y => Says s ((Meaning.upTo depth).equal x y)) a b)) ∧
      (∀ depth a, equalCells (Meaning.upTo depth).equal a a s = (.ok true, s)) ∧
      (∀ depth a b, s.Lives a → s.Lives b →
        (equalCells (Meaning.upTo depth).equal a b s).2 = s ∧
          (Says s (equalCells (Meaning.upTo depth).equal a b) →
            Says s (equalCells (Meaning.upTo depth).equal b a))) ∧
      (∀ n k a b c, s.Lives a → s.Lives b → s.Lives c → Says s (equalCells (Meaning.upTo n).equal a b) →
        Says s (equalCells (Meaning.upTo k).equal b c) →
          Says s (equalCells (Meaning.upTo (max n k)).equal a c)) ∧
      (∀ a b, s.Lives a → s.Lives b →
        ∀ copy t, (readCell a >>= fun cell => newCell cell.deque) s = (.ok copy, t) →
          (∀ k, (equalCells (Meaning.upTo k).equal copy b t).2 = t) ∧
            ((∀ x ∈ (s.cell a).deque.items, ∃ depth, Says s ((Meaning.upTo depth).equal x x)) →
              ∀ n k v w, (equalCells (Meaning.upTo n).equal a b s).1 = .ok v →
                (equalCells (Meaning.upTo k).equal copy b t).1 = .ok w → v = w)) ∧
      ∀ x y a b, s.shared.get? x = some a → s.shared.get? y = some b → s.Lives a ∧ s.Lives b ∧
        ∀ depth, (Meaning.upTo (depth + 1)).perform (.shared x (.equal y)) s =
          ((equalCells (Meaning.upTo depth).equal a b s).1.map .flag, s) := by
  have hnear : s.Near s := hs.near (fun id hid => (hmade id).2 hid) hsilent
  have hnew : ¬ s.Made s.nextCell := fun h => absurd ((hmade _).1 h) (Nat.lt_irrefl _)
  have hhandles (depth : Nat) {a b : Nat} (ha : s.Lives a) (hb : s.Lives b) :=
    says_equalCells hnear (Meaning.reads_equal depth) ha hb
  have hdeeper {n k : Nat} (h : n ≤ k) {a b : Nat} (hyes : Says s (equalCells (Meaning.upTo n).equal a b)) :
      Says s (equalCells (Meaning.upTo k).equal a b) :=
    (congrArg Prod.fst (Meaning.below_equalCells h a b s (by rw [hyes]; nofun))).trans hyes
  refine ⟨fun depth x y hx hy => Meaning.says_equal_succ hnear depth hx.home hy.home,
    fun depth a b ha hb => hhandles depth ha hb, fun depth a => congrFun (if_pos rfl) s,
    fun depth a b ha hb => ⟨?_, ?_⟩, ?_, ?_, ?_⟩
  · exact (Meaning.reads_equalCells depth ha hb).unchanged s hnear
  · rw [hhandles depth ha hb, hhandles depth hb ha]
    exact fun h => h.symm hnear (Meaning.says_symm hnear hfair depth) ha hb
  · intro n k a b c ha hb hc hab hbc
    have hab := hdeeper (Nat.le_max_left n k) hab
    have hbc := hdeeper (Nat.le_max_right n k) hbc
    rw [hhandles _ ha hb] at hab
    rw [hhandles _ hb hc] at hbc
    rw [hhandles _ ha hc]
    exact hab.trans hnear (Meaning.says_trans hnear hfair _) ha hb hc hbc
  · intro a b ha hb copy t hcopy
    obtain ⟨cell, u, hread, hnewCell⟩ := bind_eq_ok hcopy
    obtain ⟨rfl, ⟨_, hcell⟩ | ⟨_, hcell⟩⟩ := readCell_cases hread
    · cases hcell
      cases hnewCell
      refine ⟨fun k => equalCells_copy_unchanged hnear hnew (Meaning.reads_equal k) ha hb, ?_⟩
      exact fun hself n k v w => Meaning.copy_compares hnear hnew ha hb hself
    · cases hcell
  · intro x y a b hx hy
    refine ⟨hs.lives hx, hs.lives hy, fun depth => ?_⟩
    have hrun := (Meaning.reads_equalCells depth (hs.lives hx) (hs.lives hy)).run hnear
    refine (Meaning.performStep_shared (o := .equal y) rfl hx).trans ((bind_ok (sharedRegister_of_get? hy)).trans ?_)
    rcases hfirst : (equalCells (Meaning.upTo depth).equal a b s).1 with cause | found <;> rw [hfirst] at hrun
    · exact bind_error hrun
    · exact bind_ok hrun

/-- The deques 1, 2 and 3 have equal elements: the deque 0, in which there is no number, a nested deque with a bound in
one of them only, and the deque 1, which so owns itself. -/
def Session.withTwins : Session :=
  let items : List Literal := [.link (.own "n"), .nested ⟨[.int 1], none⟩]
  endOf (Meaning.upTo 2)
    [.createShared "n" (.items [.real .notANumber] none),
      .createShared "a" (.items [.link (.own "n"), .nested ⟨[.int 1], some 5⟩] none),
      .shared "a" (.edit (.pushBack (.link (.own "a")))), .createShared "b" (.items items none),
      .shared "b" (.edit (.pushBack (.link (.own "a")))), .createShared "c" (.items items (some 9)),
      .shared "c" (.edit (.pushBack (.link (.own "a"))))]
    (.start [] none)

theorem handles_equal_equivalence_twins :
    Session.withTwins.Proper ∧ (∀ id, Session.withTwins.Made id ↔ id < Session.withTwins.nextCell) ∧
      Session.withTwins.Silent ∧ Session.withTwins.Fair ∧
      (¬ Says Session.withTwins ((Meaning.upTo 3).equal (.real .notANumber) (.real .notANumber))) ∧
      Says Session.withTwins (equalCells (Meaning.upTo 3).equal 1 2) ∧
      Says Session.withTwins (equalCells (Meaning.upTo 2).equal 2 3) ∧
      Says Session.withTwins (equalCells (Meaning.upTo 3).equal 1 3) ∧
      Says Session.withTwins (equalCells (Meaning.upTo 3).equal 2 1) ∧
      ∃ t, (readCell 1 >>= fun cell => newCell cell.deque) Session.withTwins = (.ok 4, t) ∧
        ∀ k w, (equalCells (Meaning.upTo k).equal 4 2 t).1 = .ok w → true = w := by
  have hproper : Session.withTwins.Proper := (Session.proper_start [] none).endOf _ _
  have hmade : ∀ id, Session.withTwins.Made id ↔ id < Session.withTwins.nextCell := by
    refine fun id => ⟨fun h => ?_, (Session.released_endOf [] none _ _).made id⟩
    obtain ⟨memo, hmemo⟩ := Option.isSome_iff_exists.1 h
    have hid : id ∈ [0, 1, 2, 3] :=
      List.mem_map_of_mem (f := Prod.fst) (Table.mem_of_getEntries? hmemo)
    exact List.mem_range.1 hid
  have hsilent : Session.withTwins.Silent := fun _ _ _ _ _ _ => rfl
  have hfair : Session.withTwins.Fair := Session.fair_of_unequal fun _ => rfl
  obtain ⟨_, _, _, hsymm, htrans, hcopies, hlives⟩ := handles_equal_equivalence hproper hmade hsilent hfair
  obtain ⟨ha, hb, _⟩ := hlives "a" "b" 1 2 rfl rfl
  have hc := (hlives "c" "c" 3 3 rfl rfl).1
  have hab : Says Session.withTwins (equalCells (Meaning.upTo 3).equal 1 2) := rfl
  have hbc : Says Session.withTwins (equalCells (Meaning.upTo 2).equal 2 3) := rfl
  have hself : ∀ x ∈ (Session.withTwins.cell 1).deque.items,
      ∃ depth, Says Session.withTwins ((Meaning.upTo depth).equal x x) := by
    intro x hx
    have hitems : x ∈ [.link (.own ⟨"n", 0⟩), .nested ⟨[.int 1], some 5⟩, .link (.own ⟨"a", 1⟩)] := hx
    simp only [List.mem_cons, List.not_mem_nil, or_false] at hitems
    rcases hitems with rfl | rfl | rfl <;> exact ⟨3, rfl⟩
  exact ⟨hproper, hmade, hsilent, hfair, nofun, hab, hbc, htrans 3 2 1 2 3 ha hb hc hab hbc,
    (hsymm 3 1 2 ha hb).2 hab, _, rfl, fun k w => (hcopies 1 2 ha hb 4 _ rfl).2 hself 3 k true w hab⟩

end EvictingDeque
