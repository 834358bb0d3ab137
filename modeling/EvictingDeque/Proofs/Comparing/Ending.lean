import EvictingDeque.Proofs.Comparing.Recurring
import EvictingDeque.Proofs.Comparing.Searching
import EvictingDeque.Proofs.Search.Reentrant

set_option autoImplicit false

/-!
# Where comparing and searching end

A comparison of two deques ends unless it recurs. A search makes a comparison with each element that it visits, and ends
unless one of these recurs.
-/
namespace EvictingDeque

open Action Relation

namespace Session

/-- A search with this value comes to an element if it has answered for all those before, and none of them was enough. -/
inductive Visits (s : Session) (stopsEarly : Bool) (value : Element) : List Element → Element → Prop
  | here (item : Element) (items : List Element) : Visits s stopsEarly value (item :: items) item
  | later {first item : Element} {items : List Element} {found : Bool} (answered : s.Finds first value found)
      (goes : stopsEarly = true → found = false) (rest : Visits s stopsEarly value items item) :
      Visits s stopsEarly value (first :: items) item

theorem Visits.mem {s : Session} {stopsEarly : Bool} {value item : Element} {items : List Element}
    (h : s.Visits stopsEarly value items item) : item ∈ items := by
  induction h with
  | here item items => exact List.mem_cons_self
  | later _ _ _ ih => exact List.mem_cons_of_mem _ ih

end Session

namespace Action

variable {s : Session} {id : Nat} {value : Element}

theorem visit_run (hs : s.Near s) (hread : (s.cell id).hold.allowsReading = true) {item : Element}
    (hitem : item.AtHome s) {test : Element → Action Bool} (ht : (test item).Reads s) :
    visit id (s.cell id).mutations test item s = ((test item s).1.map some, s) := by
  have hpinned := ht.pinning_run hs hitem.owners
  unfold visit
  rcases hout : (test item s).1 with cause | hit <;> rw [hout] at hpinned
  · rw [bind_error hpinned]
    rfl
  · rw [bind_ok hpinned, bind_ok (readCell_of_reading hread), if_pos rfl]
    rfl

/-- One element after the other, until enough has been found. -/
theorem scanFrom_cons (hs : s.Near s) (hread : (s.cell id).hold.allowsReading = true) {item : Element}
    (hitem : item.AtHome s) (test : Element → Action Bool) (ht : (test item).Reads s) (stopsEarly : Bool)
    (position : Nat) (found : List Nat) (items : List Element) :
    scanFrom id (s.cell id).mutations test stopsEarly position found (item :: items) s =
      match (test item s).1 with
      | .error cause => (.error cause, s)
      | .ok hit =>
        if hit && stopsEarly then (.ok (.ok (if hit then position :: found else found).reverse), s)
        else scanFrom id (s.cell id).mutations test stopsEarly (position + 1)
          (if hit then position :: found else found) items s := by
  have hvisit := visit_run hs hread hitem ht
  rw [scanFrom]
  rcases hout : (test item s).1 with cause | hit <;> rw [hout] at hvisit
  · rw [bind_error hvisit]
  · rw [bind_ok hvisit]
    dsimp only
    split <;> rfl

theorem concluded_finish (located : Except Refusal (List Nat)) (search : Search) :
    Concluded (finish id located search s).1 := by
  cases search with
  | count => exact .answered _
  | contains => cases located <;> exact .answered _
  | index => exact .answered _
  | remove =>
    unfold finish
    dsimp only
    cases firstOf located with
    | error refusal => exact .answered _
    | ok position =>
      by_cases hfree : (s.cell id).hold = .free
      · dsimp only
        rw [bind_ok (changeCell_of_free _ hfree)]
        exact .answered _
      · dsimp only
        rw [bind_error (changeCell_of_held hfree)]
        exact .borrowed

end Action

namespace Meaning

variable {s : Session} {id : Nat} {value : Element}

/-- Where a search does not go too deep, neither does any comparison that it makes. -/
theorem visits_shallow (hs : s.Near s) (hread : (s.cell id).hold.allowsReading = true) (hv : value.AtHome s)
    {stopsEarly : Bool} {items : List Element} {item : Element} (h : s.Visits stopsEarly value items item)
    (hitems : ∀ item ∈ items, item.AtHome s) {k position : Nat} {found : List Nat}
    (hk : (scanFrom id (s.cell id).mutations (fun stored => (upTo k).equal stored value) stopsEarly position found items
      s).1 ≠ .error .tooDeep) : ((upTo k).equal item value s).1 ≠ .error .tooDeep := by
  induction h generalizing position found with
  | here item items =>
    have hitem := hitems item List.mem_cons_self
    rw [scanFrom_cons hs hread hitem _ (reads_equal k item value hitem hv)] at hk
    intro hdeep
    exact hk (by rw [hdeep])
  | @later first item items hit answered goes rest ih =>
    have hfirst := hitems first List.mem_cons_self
    rw [scanFrom_cons hs hread hfirst _ (reads_equal k first value hfirst hv)] at hk
    have hanswer := answered.at_depth (k := k) fun hdeep => hk (by rw [hdeep])
    have hgoes : (hit && stopsEarly) = false := by
      cases stopsEarly with
      | false => exact Bool.and_false _
      | true => rw [goes rfl, Bool.false_and]
    rw [hanswer] at hk
    dsimp only at hk
    rw [hgoes] at hk
    exact ih (fun other ho => hitems other (List.mem_cons_of_mem _ ho)) hk

/-- A search concludes if its comparisons do. -/
theorem concludes_scanFrom (hs : s.Near s) (hread : (s.cell id).hold.allowsReading = true) (hv : value.AtHome s)
    {stopsEarly : Bool} {items : List Element} (hitems : ∀ item ∈ items, item.AtHome s)
    (h : ∀ item, s.Visits stopsEarly value items item → Concludes s fun depth => (upTo depth).equal item value)
    (position : Nat) (found : List Nat) :
    Concludes s fun depth =>
      scanFrom id (s.cell id).mutations (fun stored => (upTo depth).equal stored value) stopsEarly position found items := by
  induction items generalizing position found with
  | nil => exact ⟨0, .answered _⟩
  | cons item items ih =>
    have hitem := hitems item List.mem_cons_self
    have hcons (k : Nat) := scanFrom_cons hs hread hitem (fun stored => (upTo k).equal stored value)
      (reads_equal k item value hitem hv) stopsEarly position found items
    obtain ⟨n, hn⟩ := h item (.here item items)
    rcases hout : ((upTo n).equal item value s).1 with cause | hit
    · refine ⟨n, ?_⟩
      dsimp only at hn ⊢
      rw [hout] at hn
      rw [hcons, hout]
      cases hn
      exact .borrowed
    cases hgoes : hit && stopsEarly with
    | true =>
      refine ⟨n, ?_⟩
      dsimp only
      rw [hcons, hout]
      dsimp only
      rw [hgoes]
      exact .answered _
    | false =>
      have hgo : stopsEarly = true → hit = false := fun he => by rwa [he, Bool.and_true] at hgoes
      obtain ⟨k, hk⟩ := ih (fun other ho => hitems other (List.mem_cons_of_mem _ ho))
        (fun other ho => h other (.later ⟨n, hout⟩ hgo ho)) (position + 1) (if hit then position :: found else found)
      refine ⟨max n k, ?_⟩
      dsimp only
      rw [hcons, equal_deeper (Nat.le_max_left n k) hout]
      dsimp only
      rw [hgoes]
      exact hk.deeper (fun _ _ h => below_compositional.scanFrom (fun stored => below_equal h stored value) id _ _ _ _ _)
        (Nat.le_max_right n k)

/-- What a search comes to after it has looked. -/
theorem run_search_run (hs : s.Near s) (hid : s.Lives id) (hread : (s.cell id).hold.allowsReading = true)
    (hv : value.AtHome s) (search : Search) (k : Nat) :
    ((search.op value).run (upTo k) id s).1 =
      match (scanFrom id (s.cell id).mutations (fun stored => (upTo k).equal stored value) search.stopsEarly 0 []
        (s.cell id).deque.items s).1 with
      | .error cause => .error cause
      | .ok located => (finish id located search s).1 := by
  have hscan : (scan id (fun stored => (upTo k).equal stored value) search.stopsEarly).Reads s :=
    .scan Hold.isExclusive_exclusive hid (fun item hitem => reads_equal k item value hitem hv) search.stopsEarly
  have hpins : ∀ other ∈ id :: value.owners, s.Lives other := fun other ho => by
    rcases List.mem_cons.1 ho with rfl | ho
    · exact hid
    · exact hv.owners other ho
  have hlocate := hscan.pinning_run hs hpins
  have hfrom : scan id (fun stored => (upTo k).equal stored value) search.stopsEarly s =
      scanFrom id (s.cell id).mutations (fun stored => (upTo k).equal stored value) search.stopsEarly 0 []
        (s.cell id).deque.items s := bind_ok (readCell_of_reading hread)
  rw [hfrom] at hlocate
  rw [run_search]
  rcases hout : (scanFrom id (s.cell id).mutations (fun stored => (upTo k).equal stored value) search.stopsEarly 0 []
    (s.cell id).deque.items s).1 with cause | located <;> rw [hout] at hlocate
  · rw [bind_error (show locateShared (upTo k) id value search.stopsEarly s = _ from hlocate)]
  · rw [bind_ok (show locateShared (upTo k) id value search.stopsEarly s = _ from hlocate)]

theorem concludes_search (hs : s.Near s) (hid : s.Lives id) (hread : (s.cell id).hold.allowsReading = true)
    (hv : value.AtHome s) (search : Search)
    (h : ∀ item, s.Visits search.stopsEarly value (s.cell id).deque.items item → ∀ pair, s.ComesTo [item] [value] pair →
      ¬ s.Recurs pair) : Concludes s fun depth => (search.op value).run (upTo depth) id := by
  have hitems := hs.contents hid
  obtain ⟨k, hk⟩ := concludes_scanFrom hs hread hv hitems
    (fun item hi => concludes_equal_of_not_recurs hs (hitems item hi.mem) hv (h item hi)) 0 []
  refine ⟨k, ?_⟩
  dsimp only at hk ⊢
  rw [run_search_run hs hid hread hv]
  rcases hout : (scanFrom id (s.cell id).mutations (fun stored => (upTo k).equal stored value) search.stopsEarly 0 []
    (s.cell id).deque.items s).1 with cause | located
  · rw [hout] at hk
    cases hk
    exact .borrowed
  · exact concluded_finish located search

theorem search_shallow (hs : s.Near s) (hid : s.Lives id) (hread : (s.cell id).hold.allowsReading = true)
    (hv : value.AtHome s) {search : Search} {k : Nat}
    (h : ((search.op value).run (upTo k) id s).1 ≠ .error .tooDeep) {item : Element}
    (hi : s.Visits search.stopsEarly value (s.cell id).deque.items item) {pair : Nat × Nat}
    (hm : s.ComesTo [item] [value] pair) : ¬ s.Recurs pair := by
  have hitems := hs.contents hid
  have hscan : (scanFrom id (s.cell id).mutations (fun stored => (upTo k).equal stored value) search.stopsEarly 0 []
      (s.cell id).deque.items s).1 ≠ .error .tooDeep := fun hdeep => h (by rw [run_search_run hs hid hread hv, hdeep])
  exact not_recurs_of_shallow hs (hitems item hi.mem) hv (visits_shallow hs hread hv hi hitems hscan) hm

/-- With enough depth the comparison of two deques always ends in the same way, and in an answer unless some deque is held
for change. -/
theorem ends_alike (hs : s.Near s) {a b : Nat} (ha : s.Lives a) (hb : s.Lives b) (h : ¬ s.Recurs (a, b)) :
    ∃ outcome depth, (∀ k, depth ≤ k → equalCells (upTo k).equal a b s = (outcome, s)) ∧
      ((∃ found, outcome = .ok found) ∨
        outcome = .error (.panic .borrowed) ∧ ∃ id, id < s.nextCell ∧ (s.cell id).hold = .exclusive) := by
  obtain ⟨depth, hconcluded⟩ : ConcludesCells s (a, b) := (concludesCells_iff hs ha hb).2 h
  have hlooks := reads_equalCells depth ha hb
  refine ⟨(equalCells (upTo depth).equal a b s).1, depth, fun k hk => ?_, ?_⟩
  · exact (below_equalCells hk a b s hconcluded.ne_tooDeep).trans (hlooks.run hs)
  · have hself : s.Sees s s := ⟨hs, hs, fun _ _ hr => ⟨rfl, rfl, rfl, hr, id⟩⟩
    rcases hlooks.agrees s s hself with ⟨hborrowed, hheld⟩ | ⟨_, hfree⟩
    · exact .inr ⟨hborrowed, hheld⟩
    · cases hout : (equalCells (upTo depth).equal a b s).1 with
      | ok found => exact .inl ⟨found, rfl⟩
      | error cause =>
        dsimp only at hconcluded
        rw [hout] at hconcluded hfree
        cases hconcluded
        exact absurd rfl hfree

end Meaning

/-- Steps take handles from registers. -/
theorem Session.perform_compared {s : Session} {x y : String} {a b : Nat} (hs : s.Near s) (ha : s.Lives a)
    (hb : s.Lives b) (hx : s.shared.get? x = some a) (hy : s.shared.get? y = some b) (depth : Nat) :
    (Meaning.upTo (depth + 1)).perform (.shared x (.equal y)) s =
      ((equalCells (Meaning.upTo depth).equal a b s).1.map .flag, s) := by
  have hrun := (Meaning.reads_equalCells depth ha hb).run hs
  refine (Meaning.performStep_shared (o := .equal y) rfl hx).trans ((bind_ok (sharedRegister_of_get? hy)).trans ?_)
  rcases hfirst : (equalCells (Meaning.upTo depth).equal a b s).1 with cause | found <;> rw [hfirst] at hrun
  · exact bind_error hrun
  · exact bind_ok hrun

theorem Session.perform_search {s : Session} {x y : String} {a b : Nat} (hx : s.shared.get? x = some a)
    (hy : s.shared.get? y = some b) (search : Search) (depth : Nat) :
    (Meaning.upTo (depth + 1)).perform (.shared x (search.op (.link (.own y)))) s =
      (search.op (.link (.own ⟨y, b⟩))).run (Meaning.upTo depth) a s := by
  have hresolve : resolve (.link (.own y)) s = (.ok (.link (.own ⟨y, b⟩)), s) := by
    refine required_of_some ?_
    simp [Value.replace?, resolveLink, hy]
  refine Meaning.performStep_shared ?_ hx
  cases search <;> simp only [Search.op, SharedOp.mapM, Query.mapM, bind_assoc, pure_bind, bind_ok hresolve] <;> rfl

/-- Where no element acts, comparing two deques ends exactly if it does not recur, and then in one way however much more
depth is left; a search ends exactly if none of the comparisons that it makes recurs; and where deques on one side do not
own themselves nothing recurs. The last part is about handles in registers. -/
theorem comparing_ends_unless_recurring {s : Session} (hs : s.Proper) (hmade : ∀ id, id < s.nextCell → s.Made id)
    (hsilent : s.Silent) :
    (∀ a b, s.Lives a → s.Lives b →
        ((∃ depth, (equalCells (Meaning.upTo depth).equal a b s).1 ≠ .error .tooDeep) ↔ ¬ s.Recurs (a, b)) ∧
        (¬ s.Recurs (a, b) →
          ∃ outcome depth, (∀ k, depth ≤ k → equalCells (Meaning.upTo k).equal a b s = (outcome, s)) ∧
            ((∃ found, outcome = .ok found) ∨
              outcome = .error (.panic .borrowed) ∧ ∃ id, id < s.nextCell ∧ (s.cell id).hold = .exclusive))) ∧
      (∀ a value search, s.Lives a → (s.cell a).hold.allowsReading = true → value.AtHome s →
        ((∃ depth, ((Search.op value search).run (Meaning.upTo depth) a s).1 ≠ .error .tooDeep) ↔
          ∀ item, s.Visits search.stopsEarly value (s.cell a).deque.items item →
            ∀ pair, s.ComesTo [item] [value] pair → ¬ s.Recurs pair)) ∧
      (∀ pair : Nat × Nat, (∀ id, ReflTransGen s.Owning pair.1 id → ¬ TransGen s.Owning id id) ∨
        (∀ id, ReflTransGen s.Owning pair.2 id → ¬ TransGen s.Owning id id) → ¬ s.Recurs pair) ∧
      ∀ x y a b, s.shared.get? x = some a → s.shared.get? y = some b →
        s.Lives a ∧ s.Lives b ∧ Value.AtHome s (.link (.own ⟨y, b⟩)) ∧ ∀ depth,
          (Meaning.upTo (depth + 1)).perform (.shared x (.equal y)) s =
            ((equalCells (Meaning.upTo depth).equal a b s).1.map .flag, s) ∧
          ∀ search, (Meaning.upTo (depth + 1)).perform (.shared x (Search.op (.link (.own y)) search)) s =
            (Search.op (.link (.own ⟨y, b⟩)) search).run (Meaning.upTo depth) a s := by
  have hnear := hs.near hmade hsilent
  refine ⟨fun a b ha hb => ⟨⟨?_, fun h => ?_⟩, Meaning.ends_alike hnear ha hb⟩,
    fun a value search ha hread hv => ⟨?_, fun h => ?_⟩, fun pair hacyclic => ?_, fun x y a b hx hy => ?_⟩
  · rintro ⟨depth, hshallow⟩
    have hfounded : s.Founded (a, b) := Meaning.founded_of_shallow hnear ha hb hshallow
    exact hfounded.not_recurs
  · obtain ⟨depth, hconcluded⟩ : Meaning.ConcludesCells s (a, b) := (Meaning.concludesCells_iff hnear ha hb).2 h
    exact ⟨depth, hconcluded.ne_tooDeep⟩
  · rintro ⟨depth, hshallow⟩ item hi pair hm
    exact Meaning.search_shallow hnear ha hread hv hshallow hi hm
  · obtain ⟨depth, hconcluded⟩ := Meaning.concludes_search hnear ha hread hv search h
    exact ⟨depth, hconcluded.ne_tooDeep⟩
  · rcases hacyclic with hleft | hright
    · exact Session.not_recurs_of_acyclic_left hleft
    · exact Session.not_recurs_of_acyclic_right hright
  · have ha := hs.lives hx
    have hb := hs.lives hy
    refine ⟨ha, hb, fun link hlink => ?_, fun depth => ⟨Session.perform_compared hnear ha hb hx hy depth,
      fun search => Session.perform_search hx hy search depth⟩⟩
    cases List.mem_singleton.1 hlink
    exact hb

namespace Session

/-- Two deques that own themselves, with different numbers behind. -/
def loopSteps : List Step :=
  [.createShared "a" (.empty none), .shared "a" (.edit (.extendBack [.link (.own "a"), .int 1])),
    .createShared "b" (.empty none), .shared "b" (.edit (.extendBack [.link (.own "b"), .int 2]))]

def withLoops : Session := endOf (Meaning.upTo 2) loopSteps (.start [] none)

/-- A third deque owns the first one, so that this is not compared with itself. -/
def withThird : Session :=
  endOf (Meaning.upTo 2) (loopSteps ++ [.createShared "c" (.items [.link (.own "a"), .int 3] none)]) (.start [] none)

end Session

theorem comparing_ends_unless_recurring_looping :
    Session.withThird.Proper ∧ (∀ id, id < Session.withThird.nextCell → Session.withThird.Made id) ∧
      Session.withThird.Silent ∧ ¬ Session.withThird.Recurs (2, 0) ∧
      (∃ found depth, ∀ k, depth ≤ k →
        equalCells (Meaning.upTo k).equal 2 0 Session.withThird = (.ok found, Session.withThird)) ∧
      ¬ ∃ depth, (equalCells (Meaning.upTo depth).equal 0 1 Session.withThird).1 ≠ .error .tooDeep := by
  have hproper : Session.withThird.Proper := (Session.proper_start [] none).endOf _ _
  have hmade := (Session.released_endOf [] none 2
    (Session.loopSteps ++ [.createShared "c" (.items [.link (.own "a"), .int 3] none)])).made
  have hsilent : Session.withThird.Silent := fun _ _ _ _ _ _ => rfl
  obtain ⟨hcells, _, _, hregisters⟩ := comparing_ends_unless_recurring hproper hmade hsilent
  obtain ⟨hc, ha, _⟩ := hregisters "c" "a" 2 0 rfl rfl
  have hb := (hregisters "b" "b" 1 1 rfl rfl).1
  have hanswer : (equalCells (Meaning.upTo 3).equal 2 0 Session.withThird).1 = .ok false := rfl
  have hcalm : ¬ Session.withThird.Recurs (2, 0) := (hcells 2 0 hc ha).1.1 ⟨3, by rw [hanswer]; nofun⟩
  have hback : Session.withThird.Asks (0, 1) (0, 1) := ⟨by decide, rfl, rfl, rfl, .handles ⟨"a", 0⟩ ⟨"b", 1⟩ _ _⟩
  refine ⟨hproper, hmade, hsilent, hcalm, ?_, fun hends => (hcells 0 1 ha hb).1.1 hends ⟨_, .refl, .single hback⟩⟩
  obtain ⟨outcome, depth, hsame, ⟨found, rfl⟩ | ⟨_, id, hid, hheld⟩⟩ := (hcells 2 0 hc ha).2 hcalm
  · exact ⟨found, depth, hsame⟩
  · have hfree : ∀ id < 3, (Session.withThird.cell id).hold = .free := by decide
    rw [hfree id hid] at hheld
    cases hheld

/-- Comparing the two deques comes to comparing them, so it never ends, and no more does a search. -/
theorem comparing_loops_never_ends :
    Session.withLoops.hooks.entries = [] ∧ Session.withLoops.shared.get? "a" = some 0 ∧
      Session.withLoops.shared.get? "b" = some 1 ∧
      (∀ depth, ((Meaning.upTo depth).perform (.shared "a" (.equal "b")) Session.withLoops).1 = .error .tooDeep) ∧
      ∀ search depth, ((Meaning.upTo depth).perform (.shared "a" (Search.op (.link (.own "b")) search))
        Session.withLoops).1 = .error .tooDeep := by
  have hproper : Session.withLoops.Proper := (Session.proper_start [] none).endOf _ _
  have hnear : Session.withLoops.Near Session.withLoops :=
    hproper.near (Session.released_endOf [] none 2 Session.loopSteps).made fun _ _ _ _ _ _ => rfl
  have hx : Session.withLoops.shared.get? "a" = some 0 := rfl
  have hy : Session.withLoops.shared.get? "b" = some 1 := rfl
  have ha := hproper.lives hx
  have hb := hproper.lives hy
  have hback : Session.withLoops.Asks (0, 1) (0, 1) := ⟨by decide, rfl, rfl, rfl, .handles ⟨"a", 0⟩ ⟨"b", 1⟩ _ _⟩
  have hrecurs : Session.withLoops.Recurs (0, 1) := ⟨_, .refl, .single hback⟩
  refine ⟨rfl, hx, hy, fun depth => ?_, fun search depth => ?_⟩
  · cases depth with
    | zero => rfl
    | succ depth =>
      rw [Session.perform_compared hnear ha hb hx hy]
      have hdeep : (equalCells (Meaning.upTo depth).equal 0 1 Session.withLoops).1 = .error .tooDeep := by
        by_contra hshallow
        exact (Meaning.founded_of_shallow hnear ha hb hshallow).not_recurs hrecurs
      rw [hdeep]
      rfl
  · cases depth with
    | zero => rfl
    | succ depth =>
      rw [Session.perform_search hx hy]
      by_contra hshallow
      have hhome : Value.AtHome Session.withLoops (.link (.own ⟨"b", 1⟩)) := fun link hlink => by
        cases List.mem_singleton.1 hlink
        exact hb
      exact Meaning.search_shallow hnear ha rfl hhome hshallow (.here _ _) (.handles ⟨"a", 0⟩ ⟨"b", 1⟩ [] []) hrecurs

end EvictingDeque
