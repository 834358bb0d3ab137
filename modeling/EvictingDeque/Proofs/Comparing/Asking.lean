import EvictingDeque.Proofs.Comparing.Copies

set_option autoImplicit false

/-!
# What a comparison comes to

Comparing two deques through their handles comes to comparing the deques that their elements own in the same places,
until something tells the two apart. That is a relation between pairs of deques, `Session.Asks`. Allowed to go deep
enough, a comparison ends exactly if nothing infinite hangs below its pair. All this is where no element acts.
-/
namespace EvictingDeque

open Action

namespace Action

variable {α β : Type} {s : Session}

/-- An answer, or a conflict with a hold. -/
inductive Concluded : Except Interrupt α → Prop
  | answered (value : α) : Concluded (.ok value)
  | borrowed : Concluded (.error (.panic .borrowed))

theorem Concluded.ne_tooDeep {outcome : Except Interrupt α} (h : Concluded outcome) : outcome ≠ .error .tooDeep := by
  cases h <;> nofun

/-- Allowed to go deep enough, the action concludes. -/
def Concludes (s : Session) (a : Nat → Action α) : Prop := ∃ depth, Concluded (a depth s).1

theorem Concluded.deeper {a : Nat → Action α} (hb : ∀ n k, n ≤ k → Below α (a n) (a k)) {n k : Nat} (h : n ≤ k)
    (hn : Concluded (a n s).1) : Concluded (a k s).1 := by
  rwa [hb n k h s hn.ne_tooDeep]

/-- To keep living deques alive makes no difference. -/
theorem Looks.pinning_run {conflicts : Hold → Prop} {a : Action α} (h : a.Looks conflicts s) (hs : s.Near s)
    {ids : List Nat} (hids : ∀ id ∈ ids, s.Lives id) : Action.pinning ids a s = ((a s).1, s) := by
  have hrun := (h.pinning hids).run hs
  rw [hrun]
  have hsame : (a { s with pinned := ids ++ s.pinned }).1 = (a s).1 :=
    h.same_of_cells hs (hs.pinned hids) fun _ _ => rfl
  exact Prod.ext hsame rfl

/-- One pair after the other, until two are told apart. -/
theorem equalPairs_cons {conflicts : Hold → Prop} {equal : Element → Element → Action Bool} {x y : Element}
    (hx : (equal x y).Looks conflicts s) (hs : s.Near s) (as bs : List Element) :
    (equalPairs equal (x :: as) (y :: bs) s).1 =
      match (equal x y s).1 with
      | .ok true => (equalPairs equal as bs s).1
      | outcome => outcome := by
  have hrun := hx.run hs
  rw [equalPairs]
  rcases hfirst : (equal x y s).1 with cause | same <;> rw [hfirst] at hrun
  · rw [bind_error hrun]
  · rw [bind_ok hrun]
    cases same <;> rfl

theorem equalCells_self (equal : Element → Element → Action Bool) (a : Nat) : equalCells equal a a s = (.ok true, s) :=
  congrFun (if_pos rfl) s

/-- A deque that is held for change is not looked at. -/
theorem equalCells_of_held {equal : Element → Element → Action Bool} {a b : Nat} (hab : a ≠ b)
    (h : ¬ ((s.cell a).hold.allowsReading = true ∧ (s.cell b).hold.allowsReading = true)) :
    (equalCells equal a b s).1 = .error (.panic .borrowed) := by
  unfold equalCells
  rw [if_neg hab]
  cases hleft : (s.cell a).hold.allowsReading with
  | false => rw [bind_error (readCell_of_held hleft)]
  | true =>
    have hright : (s.cell b).hold.allowsReading = false := Bool.eq_false_iff.2 fun hright => h ⟨hleft, hright⟩
    rw [bind_ok (readCell_of_reading hleft), bind_error (readCell_of_held hright)]

end Action

/-- With more depth left, a comparison that answers still does, and the same. -/
theorem Meaning.equal_deeper {s : Session} {n k : Nat} (h : n ≤ k) {x y : Element} {found : Bool}
    (hn : ((upTo n).equal x y s).1 = .ok found) : ((upTo k).equal x y s).1 = .ok found := by
  rw [below_equal h x y s (by rw [hn]; nofun), hn]

namespace Session

/-- Some comparison of the elements answers this. -/
def Finds (s : Session) (x y : Element) (found : Bool) : Prop :=
  ∃ depth, ((Meaning.upTo depth).equal x y s).1 = .ok found

/-- Comparing these elements in pairs comes to comparing two deques through their handles. -/
inductive ComesTo (s : Session) : List Element → List Element → Nat × Nat → Prop
  | handles (a b : Handle) (as bs : List Element) :
      ComesTo s (.link (.own a) :: as) (.link (.own b) :: bs) (a.cell, b.cell)
  | nested {d e : Deque Element} {pair : Nat × Nat} (length : d.items.length = e.items.length)
      (inside : ComesTo s d.items e.items pair) (as bs : List Element) : ComesTo s (.nested d :: as) (.nested e :: bs) pair
  | later {x y : Element} {as bs : List Element} {pair : Nat × Nat} (same : s.Finds x y true)
      (rest : ComesTo s as bs pair) : ComesTo s (x :: as) (y :: bs) pair

/-- Comparing the first two deques comes to comparing the second two. -/
structure Asks (s : Session) (pair next : Nat × Nat) : Prop where
  apart : pair.1 ≠ pair.2
  left : (s.cell pair.1).hold.allowsReading = true
  right : (s.cell pair.2).hold.allowsReading = true
  length : (s.cell pair.1).deque.items.length = (s.cell pair.2).deque.items.length
  comes : s.ComesTo (s.cell pair.1).deque.items (s.cell pair.2).deque.items next

variable {s : Session} {x y : Element} {as bs : List Element} {pair next : Nat × Nat}

/-- At whatever depth a comparison ends, it answers the same. -/
theorem Finds.at_depth {found : Bool} (h : s.Finds x y found) {k : Nat}
    (hk : ((Meaning.upTo k).equal x y s).1 ≠ .error .tooDeep) : ((Meaning.upTo k).equal x y s).1 = .ok found := by
  obtain ⟨n, hn⟩ := h
  rcases Nat.le_total n k with hle | hle
  · exact Meaning.equal_deeper hle hn
  · rw [← Meaning.below_equal hle x y s hk, hn]

/-- What a pair of elements comes to, the lists that begin with it come to. -/
theorem ComesTo.of_head (h : s.ComesTo [x] [y] pair) (as bs : List Element) : s.ComesTo (x :: as) (y :: bs) pair := by
  cases h with
  | handles a b => exact .handles a b as bs
  | nested length inside => exact .nested length inside as bs
  | later _ rest => cases rest

/-- Deques that are come to are alive. -/
theorem ComesTo.lives (h : s.ComesTo as bs pair) (has : ∀ x ∈ as, x.AtHome s) (hbs : ∀ y ∈ bs, y.AtHome s) :
    s.Lives pair.1 ∧ s.Lives pair.2 := by
  induction h with
  | handles a b => exact ⟨(has _ List.mem_cons_self).of_link, (hbs _ List.mem_cons_self).of_link⟩
  | nested _ _ _ _ ih => exact ih (has _ List.mem_cons_self).of_nested (hbs _ List.mem_cons_self).of_nested
  | later _ _ ih =>
    exact ih (fun x hx => has x (List.mem_cons_of_mem _ hx)) fun y hy => hbs y (List.mem_cons_of_mem _ hy)

theorem Asks.lives (h : s.Asks pair next) (hs : s.Near s) (ha : s.Lives pair.1) (hb : s.Lives pair.2) :
    s.Lives next.1 ∧ s.Lives next.2 :=
  h.comes.lives (hs.contents ha) (hs.contents hb)

/-- Pairs below which there is nothing infinite. -/
abbrev Founded (s : Session) (pair : Nat × Nat) : Prop := Acc (fun next pair => s.Asks pair next) pair

end Session

namespace Meaning

variable {s : Session}

/-- Where comparing elements does not go too deep, neither do the comparisons that it comes to, with less depth left. -/
theorem comesTo_shallow (hs : s.Near s) {as bs : List Element} {pair : Nat × Nat} (hm : s.ComesTo as bs pair)
    (has : ∀ x ∈ as, x.AtHome s) (hbs : ∀ y ∈ bs, y.AtHome s) {k : Nat}
    (h : (equalPairs (upTo k).equal as bs s).1 ≠ .error .tooDeep) :
    ∃ j, j < k ∧ (equalCells (upTo j).equal pair.1 pair.2 s).1 ≠ .error .tooDeep := by
  induction hm generalizing k with
  | handles a b as bs =>
    rw [equalPairs_cons (reads_equal k _ _ (has _ List.mem_cons_self) (hbs _ List.mem_cons_self)) hs] at h
    cases k with
    | zero => exact absurd rfl h
    | succ j =>
      refine ⟨j, Nat.lt_succ_self j, fun hdeep => h ?_⟩
      rw [show ((upTo (j + 1)).equal (.link (.own a)) (.link (.own b)) s).1 = .error .tooDeep from hdeep]
  | @nested d e pair length inside as bs ih =>
    have hd := has _ List.mem_cons_self
    have he := hbs _ List.mem_cons_self
    rw [equalPairs_cons (reads_equal k _ _ hd he) hs] at h
    cases k with
    | zero => exact absurd rfl h
    | succ j =>
      have hitems : (upTo (j + 1)).equal (.nested d) (.nested e) s = equalPairs (upTo j).equal d.items e.items s :=
        congrFun (if_pos length) s
      rw [hitems] at h
      obtain ⟨i, hi, hshallow⟩ := ih hd.of_nested he.of_nested fun hdeep => h (by rw [hdeep])
      exact ⟨i, by omega, hshallow⟩
  | @later x y as bs pair same rest ih =>
    rw [equalPairs_cons (reads_equal k _ _ (has _ List.mem_cons_self) (hbs _ List.mem_cons_self)) hs] at h
    have hfirst := same.at_depth (k := k) fun hdeep => h (by rw [hdeep])
    rw [hfirst] at h
    exact ih (fun x hx => has x (List.mem_cons_of_mem _ hx)) (fun y hy => hbs y (List.mem_cons_of_mem _ hy)) h

/-- A comparison that does not go too deep has nothing infinite below it. -/
theorem founded_of_shallow (hs : s.Near s) {depth : Nat} {pair : Nat × Nat} (ha : s.Lives pair.1) (hb : s.Lives pair.2)
    (h : (equalCells (upTo depth).equal pair.1 pair.2 s).1 ≠ .error .tooDeep) : s.Founded pair := by
  induction depth using Nat.strongRecOn generalizing pair with
  | ind depth ih =>
    refine .intro _ fun next hnext => ?_
    have hpairs : (equalCells (upTo depth).equal pair.1 pair.2 s).1 =
        (equalPairs (upTo depth).equal (s.cell pair.1).deque.items (s.cell pair.2).deque.items s).1 := by
      rw [equalCells_apart hs (reads_equal depth) ha hb hnext.apart hnext.left hnext.right]
      exact congrArg Prod.fst (congrFun (if_pos hnext.length) s)
    rw [hpairs] at h
    obtain ⟨j, hj, hshallow⟩ := comesTo_shallow hs hnext.comes (hs.contents ha) (hs.contents hb) h
    obtain ⟨hleft, hright⟩ := hnext.lives hs ha hb
    exact ih j hj hleft hright hshallow

/-- Whether two deques are found equal is concluded, sooner or later. -/
abbrev ConcludesCells (s : Session) (pair : Nat × Nat) : Prop :=
  Concludes s fun depth => equalCells (upTo depth).equal pair.1 pair.2

/-- Two pairs of elements, or a pair and the rest of two lists, conclude at the larger of their depths. -/
theorem concludes_cons (hs : s.Near s) {x y : Element} (hx : x.AtHome s) (hy : y.AtHome s) {as bs : List Element}
    (hfirst : Concludes s fun depth => (upTo depth).equal x y)
    (hrest : s.Finds x y true → Concludes s fun depth => equalPairs (upTo depth).equal as bs) :
    Concludes s fun depth => equalPairs (upTo depth).equal (x :: as) (y :: bs) := by
  obtain ⟨n, hn⟩ := hfirst
  have hcons (k : Nat) := equalPairs_cons (reads_equal k x y hx hy) hs as bs
  rcases hout : ((upTo n).equal x y s).1 with cause | found
  · refine ⟨n, ?_⟩
    rw [hout] at hn
    rw [hcons, hout]
    exact hn
  · cases found with
    | false =>
      refine ⟨n, ?_⟩
      rw [hcons, hout]
      exact .answered false
    | true =>
      obtain ⟨k, hk⟩ := hrest ⟨n, hout⟩
      refine ⟨max n k, ?_⟩
      rw [hcons, equal_deeper (Nat.le_max_left n k) hout]
      exact hk.deeper (fun _ _ h => below_sequential.equalPairs (below_equal h) as bs) (Nat.le_max_right n k)

mutual
/-- Elements conclude if the deques that they come to do. -/
theorem concludes_equal (hs : s.Near s) (x y : Element) (hx : x.AtHome s) (hy : y.AtHome s)
    (h : ∀ pair, s.ComesTo [x] [y] pair → ConcludesCells s pair) : Concludes s fun depth => (upTo depth).equal x y := by
  match x, hx, h with
  | .nested ⟨items, bound⟩, hx, h =>
    cases y with
    | nested e =>
      by_cases hlength : items.length = e.items.length
      · obtain ⟨k, hk⟩ := concludes_equalPairs hs items e.items hx.of_nested hy.of_nested fun pair hm =>
          h pair (.nested hlength hm [] [])
        refine ⟨k + 1, ?_⟩
        change Concluded (equalItems (upTo k).equal items e.items s).1
        unfold equalItems
        rw [if_pos hlength]
        exact hk
      · refine ⟨1, ?_⟩
        change Concluded (equalItems (upTo 0).equal items e.items s).1
        unfold equalItems
        rw [if_neg hlength]
        exact .answered false
    | _ => exact ⟨1, .answered _⟩
  | .link (.hook id), hx, _ =>
    have hact : Hook.act (upTo 0) id (·.whenCompared) s = (.ok (), s) := Hook.act_of_empty _ hx.of_link
    have hrun : (upTo 1).equal (.link (.hook id)) y s = (.ok (s.hook id).equal, s) := bind_ok hact
    exact ⟨1, (congrArg Prod.fst hrun).symm ▸ .answered _⟩
  | .link (.own a), hx, h =>
    cases y with
    | link link =>
      cases link with
      | own b =>
        obtain ⟨k, hk⟩ := h (a.cell, b.cell) (.handles a b [] [])
        exact ⟨k + 1, hk⟩
      | _ => exact ⟨1, .answered _⟩
    | _ => exact ⟨1, .answered _⟩
  | .link (.weak a), hx, _ =>
    cases y with
    | link link =>
      cases link with
      | weak b =>
        refine ⟨1, ?_⟩
        change Concluded ((if a.cell = b.cell then Action.read (·.isLiving a.cell) else Pure.pure false : Action Bool) s).1
        split <;> exact .answered _
      | _ => exact ⟨1, .answered _⟩
    | _ => exact ⟨1, .answered _⟩
  | .int _, _, _ => exact ⟨1, .answered _⟩
  | .text _, _, _ => exact ⟨1, .answered _⟩
  | .real _, _, _ => exact ⟨1, .answered _⟩
  | .keyed _ _, _, _ => exact ⟨1, .answered _⟩
termination_by structural x

theorem concludes_equalPairs (hs : s.Near s) (as bs : List Element) (has : ∀ x ∈ as, x.AtHome s)
    (hbs : ∀ y ∈ bs, y.AtHome s) (h : ∀ pair, s.ComesTo as bs pair → ConcludesCells s pair) :
    Concludes s fun depth => equalPairs (upTo depth).equal as bs := by
  match as, has, h with
  | [], _, _ => exact ⟨0, .answered true⟩
  | x :: as, has, h =>
    cases bs with
    | nil => exact ⟨0, .answered true⟩
    | cons y bs =>
      have hx := has x List.mem_cons_self
      have hy := hbs y List.mem_cons_self
      refine concludes_cons hs hx hy (concludes_equal hs x y hx hy fun pair hm => h pair (hm.of_head as bs)) fun same => ?_
      exact concludes_equalPairs hs as bs (fun x hx => has x (List.mem_cons_of_mem _ hx))
        (fun y hy => hbs y (List.mem_cons_of_mem _ hy)) fun pair hm => h pair (.later same hm)
termination_by structural as
end

/-- A comparison with nothing infinite below it concludes. -/
theorem concludes_of_founded (hs : s.Near s) {pair : Nat × Nat} (h : s.Founded pair) (ha : s.Lives pair.1)
    (hb : s.Lives pair.2) : ConcludesCells s pair := by
  induction h with
  | intro pair _ ih =>
    by_cases hab : pair.1 = pair.2
    · have hself : equalCells (upTo 0).equal pair.1 pair.2 s = (.ok true, s) := hab ▸ equalCells_self _ _
      exact ⟨0, (congrArg Prod.fst hself).symm ▸ .answered true⟩
    by_cases hread : (s.cell pair.1).hold.allowsReading = true ∧ (s.cell pair.2).hold.allowsReading = true
    · obtain ⟨hleft, hright⟩ := hread
      have hapart (k : Nat) := equalCells_apart hs (reads_equal k) ha hb hab hleft hright
      by_cases hlength : (s.cell pair.1).deque.items.length = (s.cell pair.2).deque.items.length
      · obtain ⟨k, hk⟩ := concludes_equalPairs hs _ _ (hs.contents ha) (hs.contents hb) fun next hm => by
          have hasks : s.Asks pair next := ⟨hab, hleft, hright, hlength, hm⟩
          obtain ⟨hlives, hlives'⟩ := hasks.lives hs ha hb
          exact ih next hasks hlives hlives'
        refine ⟨k, ?_⟩
        dsimp only
        rw [hapart k]
        unfold equalItems
        rw [if_pos hlength]
        exact hk
      · refine ⟨0, ?_⟩
        dsimp only
        rw [hapart 0]
        unfold equalItems
        rw [if_neg hlength]
        exact .answered false
    · refine ⟨0, ?_⟩
      dsimp only
      rw [equalCells_of_held hab hread]
      exact .borrowed

end Meaning

end EvictingDeque
