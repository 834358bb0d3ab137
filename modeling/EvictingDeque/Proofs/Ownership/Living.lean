import EvictingDeque.Proofs.Locks.Released
import EvictingDeque.Session.Ownership

set_option autoImplicit false

/-!
# The deques that are alive

Striking out leaves the largest set of deques that support each other. So what a living deque owns is alive, and to keep
deques alive that are alive in any case makes no difference to any deque.
-/
namespace EvictingDeque.Session

section

variable {roots more : List Nat} {among others holdings : List Holding} {holding : Holding} {id : Nat}

/-- The roots or one of these refer to each of them. -/
def Supported (roots : List Nat) (among : List Holding) : Prop := ∀ holding ∈ among, holding.1 ∈ referred roots among

theorem mem_referred : id ∈ referred roots among ↔ id ∈ roots ∨ ∃ holding ∈ among, id ∈ holding.2 := by
  simp only [referred, List.mem_append, List.mem_flatMap]

theorem referred_mono (hr : roots ⊆ more) (ha : among ⊆ others) : referred roots among ⊆ referred more others :=
  fun _ h => mem_referred.2 ((mem_referred.1 h).imp (@hr _) fun ⟨holding, hm, ho⟩ => ⟨holding, ha hm, ho⟩)

theorem known_iff : (Std.HashSet.ofList (referred roots among)).contains id = true ↔ id ∈ referred roots among := by
  rw [Std.HashSet.contains_ofList, List.contains_iff_mem]

theorem strike_subset (roots : List Nat) (rounds : Nat) (holdings : List Holding) :
    strike roots rounds holdings ⊆ holdings := by
  induction rounds generalizing holdings with
  | zero => exact fun _ h => h
  | succ rounds ih =>
    unfold strike
    dsimp only
    split
    · exact fun _ h => h
    · exact fun _ h => (List.mem_filter.1 (ih _ h)).1

/-- Every round but the last strikes something out. -/
theorem supported_strike {rounds : Nat} (h : holdings.length ≤ rounds) :
    Supported roots (strike roots rounds holdings) := by
  induction rounds generalizing holdings with
  | zero =>
    cases List.eq_nil_of_length_eq_zero (Nat.le_zero.1 h)
    exact nofun
  | succ rounds ih =>
    unfold strike
    dsimp only
    split
    · rename_i hall
      intro holding hm
      exact known_iff.1 (List.length_filter_eq_length_iff.1 hall holding hm)
    · rename_i hsome
      have hle := List.length_filter_le (fun holding : Holding =>
        (Std.HashSet.ofList (referred roots holdings)).contains holding.1) holdings
      exact ih (by omega)

/-- What supports itself is never struck out. -/
theorem subset_strike (hs : Supported roots among) (rounds : Nat) (h : among ⊆ holdings) :
    among ⊆ strike roots rounds holdings := by
  induction rounds generalizing holdings with
  | zero => exact h
  | succ rounds ih =>
    unfold strike
    dsimp only
    split
    · exact h
    · refine ih fun holding hm => List.mem_filter.2 ⟨h hm, known_iff.2 ?_⟩
      exact referred_mono (fun _ hr => hr) h (hs holding hm)

end

variable {s t : Session} {id owned : Nat}

/-- The deques that are not struck out, with what they own. -/
def survivors (s : Session) : List Holding := strike s.roots s.cells.entries.length s.holdings

theorem supported_survivors (s : Session) : Supported s.roots s.survivors :=
  supported_strike (Nat.le_of_eq (List.length_map _))

theorem mem_survivors {holding : Holding} (h : holding ∈ s.holdings) (hr : holding.1 ∈ referred s.roots s.survivors) :
    holding ∈ s.survivors := by
  have hmore : s.survivors ⊆ holding :: s.survivors := List.subset_cons_self ..
  have hsupported : Supported s.roots (holding :: s.survivors) := by
    intro other ho
    rcases List.mem_cons.1 ho with rfl | ho
    · exact referred_mono (fun _ hr => hr) hmore hr
    · exact referred_mono (fun _ hr => hr) hmore (supported_survivors s other ho)
  refine subset_strike hsupported _ (List.cons_subset.2 ⟨h, ?_⟩) List.mem_cons_self
  exact strike_subset ..

theorem mem_holdings (h : s.Made id) : (id, (s.cell id).owners) ∈ s.holdings := by
  obtain ⟨memo, hmemo⟩ := Option.isSome_iff_exists.1 h
  have hcell : s.cell id = memo.value := by simp [Session.cell, hmemo]
  refine List.mem_map.2 ⟨(id, memo), Table.mem_of_getEntries? hmemo, ?_⟩
  rw [hcell, Memo.result_eq]

theorem isLiving_iff : s.isLiving id = true ↔ id ∈ s.roots ∨ ∃ holding ∈ s.survivors, holding.1 = id := by
  simp [isLiving, living, survivors]

/-- A handle keeps its deque alive. -/
theorem isLiving_of_shared {name : String} (h : s.shared.get? name = some id) : s.isLiving id = true := by
  refine isLiving_iff.2 (.inl ?_)
  simp only [roots, List.mem_append]
  exact .inl (.inl (.inl (List.mem_map.2 ⟨(name, id), Table.mem_of_getEntries? h, rfl⟩)))

theorem referred_of_isLiving (h : s.isLiving id = true) : id ∈ referred s.roots s.survivors := by
  rcases isLiving_iff.1 h with hr | ⟨holding, hm, rfl⟩
  · exact mem_referred.2 (.inl hr)
  · exact supported_survivors s holding hm

theorem isLiving_of_referred (hm : s.Made id) (h : id ∈ referred s.roots s.survivors) : s.isLiving id = true :=
  isLiving_iff.2 (.inr ⟨_, mem_survivors (mem_holdings hm) h, rfl⟩)

/-- A deque that nothing refers to is dropped. -/
theorem isLiving_eq_false (h : id ∉ referred s.roots s.holdings) : s.isLiving id = false := by
  refine Bool.eq_false_iff.2 fun hl => h ?_
  exact referred_mono (fun _ hr => hr) (strike_subset ..) (referred_of_isLiving hl)

theorem isLiving_of_owner (hm : s.Made id) (h : s.isLiving id = true) (ho : owned ∈ (s.cell id).owners)
    (hmade : s.Made owned) : s.isLiving owned = true :=
  isLiving_of_referred hmade
    (mem_referred.2 (.inr ⟨_, mem_survivors (mem_holdings hm) (referred_of_isLiving h), ho⟩))

theorem mem_roots_pinned (s : Session) (ids : List Nat) :
    id ∈ ({ s with pinned := ids ++ s.pinned } : Session).roots ↔ id ∈ ids ∨ id ∈ s.roots := by
  simp only [roots, List.mem_append]
  exact or_left_comm

/-- More roots that are alive in any case. -/
theorem isLiving_of_roots (ids : List Nat) (ht : t.holdings = s.holdings)
    (hroots : ∀ other, other ∈ t.roots ↔ other ∈ ids ∨ other ∈ s.roots)
    (hids : ∀ other ∈ ids, s.isLiving other = true) (id : Nat) : t.isLiving id = s.isLiving id := by
  have hmore : s.roots ⊆ t.roots := fun other ho => (hroots other).2 (.inr ho)
  have hreferred {other : Nat} (ho : other ∈ t.roots) : other ∈ referred s.roots s.survivors :=
    ((hroots other).1 ho).elim (fun hi => referred_of_isLiving (hids other hi)) fun hs => mem_referred.2 (.inl hs)
  -- the survivors of both sessions together support each other without the additional roots
  have hboth : Supported s.roots (t.survivors ++ s.survivors) := by
    have hright : s.survivors ⊆ t.survivors ++ s.survivors := List.subset_append_right ..
    intro holding hm
    rcases List.mem_append.1 hm with ht | hs
    · rcases mem_referred.1 (supported_survivors t holding ht) with hr | ⟨other, ho, howned⟩
      · exact referred_mono (fun _ hr => hr) hright (hreferred hr)
      · exact mem_referred.2 (.inr ⟨other, List.mem_append_left _ ho, howned⟩)
    · exact referred_mono (fun _ hr => hr) hright (supported_survivors s holding hs)
  have hsub : t.survivors ++ s.survivors ⊆ s.holdings :=
    List.append_subset.2 ⟨ht ▸ strike_subset .., strike_subset ..⟩
  have hfewer : t.survivors ⊆ s.survivors := fun holding hm =>
    subset_strike hboth _ hsub (List.mem_append_left _ hm)
  have hothers : s.survivors ⊆ t.survivors := by
    refine subset_strike (fun holding hm => ?_) _ (ht.symm ▸ strike_subset ..)
    exact referred_mono hmore (fun _ h => h) (supported_survivors s holding hm)
  rw [Bool.eq_iff_iff, isLiving_iff, isLiving_iff]
  constructor
  · rintro (hr | ⟨holding, hm, he⟩)
    · exact isLiving_iff.1 (((hroots id).1 hr).elim (hids id) fun hs => isLiving_iff.2 (.inl hs))
    · exact .inr ⟨holding, hfewer hm, he⟩
  · exact Or.imp (fun hr => hmore hr) fun ⟨holding, hm, he⟩ => ⟨holding, hothers hm, he⟩

/-- One deque more that owns nothing but what is alive in any case, and more roots of that sort or that deque itself. -/
theorem isLiving_of_added {added : Holding} (ids : List Nat)
    (ht : ∀ holding, holding ∈ t.holdings ↔ holding = added ∨ holding ∈ s.holdings)
    (hnew : ∀ holding ∈ s.holdings, holding.1 ≠ added.1)
    (hroots : ∀ other, other ∈ t.roots ↔ other ∈ ids ∨ other ∈ s.roots)
    (hids : ∀ other ∈ ids, other = added.1 ∨ s.isLiving other = true)
    (howned : ∀ other ∈ added.2, s.isLiving other = true) (hid : id ≠ added.1) : t.isLiving id = s.isLiving id := by
  have hmore : s.roots ⊆ t.roots := fun other ho => (hroots other).2 (.inr ho)
  have hreferred {other : Nat} (hne : other ≠ added.1) (ho : other ∈ t.roots) : other ∈ referred s.roots s.survivors := by
    rcases (hroots other).1 ho with hi | hs
    · exact referred_of_isLiving ((hids other hi).resolve_left hne)
    · exact mem_referred.2 (.inl hs)
  have hothers : s.survivors ⊆ t.survivors := by
    refine subset_strike (fun holding hm => ?_) _ fun holding hm => (ht holding).2 (.inr (strike_subset _ _ _ hm))
    exact referred_mono hmore (fun _ h => h) (supported_survivors s holding hm)
  -- the other survivors of the second session and those of the first support each other without the added one
  let kept := t.survivors.filter fun holding => decide (holding.1 ≠ added.1)
  have hkept {holding : Holding} (hm : holding ∈ kept) : holding ∈ t.survivors ∧ holding.1 ≠ added.1 := by
    simpa [kept] using hm
  have hboth : Supported s.roots (kept ++ s.survivors) := by
    have hright : s.survivors ⊆ kept ++ s.survivors := List.subset_append_right ..
    intro holding hm
    rcases List.mem_append.1 hm with hk | hs
    · obtain ⟨hsurvives, hne⟩ := hkept hk
      rcases mem_referred.1 (supported_survivors t holding hsurvives) with hr | ⟨owner, ho, hin⟩
      · exact referred_mono (fun _ hr => hr) hright (hreferred hne hr)
      · rcases (ht owner).1 (strike_subset _ _ _ ho) with rfl | hold
        · exact referred_mono (fun _ hr => hr) hright (referred_of_isLiving (howned _ hin))
        · have hstays : owner ∈ kept := by simp [kept, ho, hnew owner hold]
          exact mem_referred.2 (.inr ⟨owner, List.mem_append_left _ hstays, hin⟩)
    · exact referred_mono (fun _ hr => hr) hright (supported_survivors s holding hs)
  have hsub : kept ++ s.survivors ⊆ s.holdings := by
    refine List.append_subset.2 ⟨fun holding hm => ?_, strike_subset ..⟩
    obtain ⟨hsurvives, hne⟩ := hkept hm
    exact ((ht holding).1 (strike_subset _ _ _ hsurvives)).resolve_left fun he => hne (congrArg Prod.fst he)
  rw [Bool.eq_iff_iff, isLiving_iff, isLiving_iff]
  constructor
  · rintro (hr | ⟨holding, hm, rfl⟩)
    · exact isLiving_iff.1 (((hroots id).1 hr).elim (fun hi => (hids id hi).resolve_left hid)
        fun hs => isLiving_iff.2 (.inl hs))
    · have hstays : holding ∈ kept := by simp [kept, hm, hid]
      exact .inr ⟨holding, subset_strike hboth _ hsub (List.mem_append_left _ hstays), rfl⟩
  · exact Or.imp (fun hr => hmore hr) fun ⟨holding, hm, he⟩ => ⟨holding, hothers hm, he⟩

end EvictingDeque.Session
