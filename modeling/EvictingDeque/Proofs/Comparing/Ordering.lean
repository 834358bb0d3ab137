import EvictingDeque.Proofs.Comparing.Coherence
import EvictingDeque.Proofs.Comparing.Equivalence
import EvictingDeque.Proofs.Interpreter.AtHand

set_option autoImplicit false

/-!
# The order of nested deques

Plain data are compared coherently, and therefore deques of them are, deques of such deques, and so on: the induction is
on the depth to which deques stand in one another. Data of one shape, in which there are no numbers of double precision,
are ordered totally, and there it is on the shape.
-/
namespace EvictingDeque

open Action

/-- What is not a number has no order, not even to itself. -/
theorem Binary64.coherent : Coherent (fun _ => True) same compare? where
  equal _ _ _ _ := beq_iff_eq
  swap x y _ _ := by
    cases x <;> cases y <;> simp only [compare?, Option.map_some, Option.map_none]
    case infinite.infinite => exact congrArg some Std.OrientedOrd.eq_swap
    case infinite.finite m _ _ => cases m <;> rfl
    case finite.infinite n => cases n <;> rfl
    case finite.finite => exact congrArg some Std.OrientedOrd.eq_swap
  trans x y z _ _ _ hxy hyz := by
    cases x <;> cases y <;> cases z <;> simp [compare?] at hxy hyz ⊢
    case infinite.infinite.infinite => exact Std.TransCmp.lt_trans hyz hxy
    case infinite.infinite.finite m _ _ _ =>
      subst hyz
      cases m <;> cases hxy
    case infinite.finite.infinite =>
      subst hxy hyz
      rfl
    case infinite.finite.finite => exact hxy
    case finite.infinite.infinite k =>
      subst hxy
      cases k <;> cases hyz
    case finite.infinite.finite => exact absurd hyz (Bool.eq_false_iff.1 hxy)
    case finite.finite.infinite => exact hyz
    case finite.finite.finite => exact Std.TransCmp.lt_trans hxy hyz
  congr x y z _ _ _ h := by
    rcases same_iff.1 h with ⟨negative, rfl, rfl⟩ | ⟨m, n, units, others, rfl, rfl, hu⟩
    · rfl
    · cases z <;> simp only [compare?, hu]

namespace Value

variable {ρ σ : Type} {members : Value ρ → Prop} {x y : Value ρ}

mutual
/-- Equality of plain data, where deques are compared by their elements. -/
def same : Value ρ → Value ρ → Bool
  | .nested ⟨as, _⟩, .nested ⟨bs, _⟩ => sameLists as bs
  | a, b => sameAtom a b
termination_by structural value => value

def sameLists : List (Value ρ) → List (Value ρ) → Bool
  | [], [] => true
  | a :: as, b :: bs => same a b && sameLists as bs
  | _, _ => false
termination_by structural values => values
end

mutual
/-- The same value, in which no deque has a bound. -/
def unbounded : Value ρ → Value ρ
  | .nested ⟨items, _⟩ => .nested ⟨unboundedAll items, none⟩
  | value => value
termination_by structural value => value

def unboundedAll : List (Value ρ) → List (Value ρ)
  | [] => []
  | value :: values => unbounded value :: unboundedAll values
termination_by structural values => values
end

/-- Plain data, with deques inside one another up to a depth. -/
def PlainTo : Nat → Value ρ → Prop
  | 0, .nested _ => False
  | depth + 1, .nested d => d.Over (PlainTo depth)
  | _, .link _ => False
  | _, _ => True

theorem sameLists_eq (as bs : List (Value ρ)) : sameLists as bs = Deque.sameItems same as bs := by
  induction as generalizing bs with
  | nil => cases bs <;> rfl
  | cons a as ih =>
    cases bs with
    | nil => rfl
    | cons b bs => rw [sameLists, Deque.sameItems, ih]

theorem same_nested (d e : Deque (Value ρ)) : same (.nested d) (.nested e) = d.same same e := sameLists_eq _ _

theorem compare?_nested (d e : Deque (Value ρ)) : compare? (.nested d) (.nested e) = d.compare? compare? e :=
  compareLists?_eq _ _

mutual
theorem compared_unbounded (x y : Value ρ) :
    same x.unbounded y.unbounded = same x y ∧ compare? x.unbounded y.unbounded = compare? x y := by
  match x with
  | .nested ⟨as, _⟩ =>
    cases y with
    | nested e => exact compared_unboundedAll as e.items
    | _ => exact ⟨rfl, rfl⟩
  | .int _ | .text _ | .real _ | .keyed _ _ | .link _ => cases y <;> exact ⟨rfl, rfl⟩
termination_by structural x

theorem compared_unboundedAll (as bs : List (Value ρ)) :
    sameLists (unboundedAll as) (unboundedAll bs) = sameLists as bs ∧
      compareLists? (unboundedAll as) (unboundedAll bs) = compareLists? as bs := by
  match as, bs with
  | [], bs => cases bs <;> exact ⟨rfl, rfl⟩
  | _ :: _, [] => exact ⟨rfl, rfl⟩
  | a :: as, b :: bs =>
    obtain ⟨hsame, horder⟩ := compared_unbounded a b
    obtain ⟨hsames, horders⟩ := compared_unboundedAll as bs
    simp only [unboundedAll, sameLists, compareLists?, hsame, horder, hsames, horders, and_self]
termination_by structural as
end

theorem apart (h : x.ctorIdx ≠ y.ctorIdx) : same x y = false ∧ compare? x y = none := by
  cases x <;> cases y <;> first | exact absurd rfl h | exact ⟨rfl, rfl⟩

theorem coherent_int : Coherent (fun x : Value ρ => ∃ a, .int a = x) same compare? :=
  .map .int (fun _ ⟨a, ha⟩ => ⟨a, trivial, ha⟩) (.of_compare Int)

theorem coherent_text : Coherent (fun x : Value ρ => ∃ a, .text a = x) same compare? :=
  .map .text (fun _ ⟨a, ha⟩ => ⟨a, trivial, ha⟩) (.of_compare String)

theorem coherent_real : Coherent (fun x : Value ρ => ∃ a, .real a = x) same compare? :=
  .map .real (fun _ ⟨a, ha⟩ => ⟨a, trivial, ha⟩) Binary64.coherent

theorem coherent_keyed : Coherent (fun x : Value ρ => ∃ key tag, .keyed key tag = x) same compare? :=
  .map (fun pair : Int × String => .keyed pair.1 pair.2) (fun _ ⟨key, tag, hx⟩ => ⟨(key, tag), trivial, hx⟩)
    ((Coherent.of_compare Int).comap Prod.fst)

theorem coherent_nested (h : Coherent members same compare?) :
    Coherent (fun x : Value ρ => ∃ d : Deque (Value ρ), d.Over members ∧ .nested d = x) same compare? := by
  refine .map .nested (fun x hx => hx) ?_
  simp only [same_nested, compare?_nested]
  exact h.deques

/-- Data of different kinds have no order, and those of each kind are coherent if deques are. -/
theorem coherent_of_nested (hlink : ∀ reference, ¬ members (.link reference))
    (hnested : Coherent (fun x => members x ∧ ∃ d, .nested d = x) same compare?) :
    Coherent members same compare? := by
  refine .of_kinds Value.ctorIdx (fun _ _ => apart) fun m hm => ?_
  cases m with
  | int _ => exact coherent_int.mono fun x ⟨_, hk⟩ => by cases x <;> first | exact ⟨_, rfl⟩ | cases hk
  | text _ => exact coherent_text.mono fun x ⟨_, hk⟩ => by cases x <;> first | exact ⟨_, rfl⟩ | cases hk
  | real _ => exact coherent_real.mono fun x ⟨_, hk⟩ => by cases x <;> first | exact ⟨_, rfl⟩ | cases hk
  | keyed _ _ => exact coherent_keyed.mono fun x ⟨_, hk⟩ => by cases x <;> first | exact ⟨_, _, rfl⟩ | cases hk
  | nested _ => exact hnested.mono fun x ⟨hx, hk⟩ => ⟨hx, by cases x <;> first | exact ⟨_, rfl⟩ | cases hk⟩
  | link reference => exact absurd hm (hlink reference)

theorem coherent_plainTo (depth : Nat) : Coherent (fun x : Value ρ => x.PlainTo depth) same compare? := by
  induction depth with
  | zero =>
    refine coherent_of_nested (fun _ => id) (coherent_int.mono ?_)
    rintro _ ⟨hx, d, rfl⟩
    exact hx.elim
  | succ depth ih =>
    refine coherent_of_nested (fun _ => id) ((coherent_nested ih).mono ?_)
    rintro _ ⟨hx, d, rfl⟩
    exact ⟨d, hx, rfl⟩

/-- The shapes of data that are ordered totally. -/
inductive Shape where
  | integer
  | text
  | keyed
  | deque (elements : Shape)

namespace Shape

inductive Has : Shape → Value ρ → Prop
  | integer (a : Int) : Has .integer (.int a)
  | text (a : String) : Has .text (.text a)
  | keyed (key : Int) (tag : String) : Has .keyed (.keyed key tag)
  | deque {elements : Shape} {d : Deque (Value ρ)} (h : ∀ x ∈ d.items, Has elements x) :
    Has (.deque elements) (.nested d)

def depth : Shape → Nat
  | .deque elements => elements.depth + 1
  | _ => 0

/-- The total order of the shape; that of deques is made from that of their elements. -/
def cmp : Shape → Value ρ → Value ρ → Ordering
  | .integer, .int a, .int b => compare a b
  | .text, .text a, .text b => compare a b
  | .keyed, .keyed a _, .keyed b _ => compare a b
  | .deque elements, .nested d, .nested e => d.rank elements.cmp e
  | _, _, _ => .eq

/-- What a value of the shape feeds a hasher. -/
def fed (length : Nat → σ → σ) (atom : Value ρ → σ → σ) : Shape → Value ρ → σ → σ
  | .deque elements, .nested d => d.fed length (fed length atom elements)
  | _, x => atom x

theorem Has.plainTo {shape : Shape} (h : shape.Has x) : x.PlainTo shape.depth := by
  induction h with
  | deque _ ih => exact ih
  | _ => trivial

theorem coherent (shape : Shape) : Coherent (fun x : Value ρ => shape.Has x) same compare? :=
  (coherent_plainTo shape.depth).mono fun _ => Has.plainTo

theorem compare?_eq {shape : Shape} (hx : shape.Has x) (hy : shape.Has y) : compare? x y = some (shape.cmp x y) := by
  induction shape generalizing x y with
  | deque elements ih =>
    cases hx with
    | deque hd =>
      cases hy with
      | deque he =>
        rw [compare?_nested]
        exact Deque.compareItems?_eq_compareLex fun a ha b hb => ih (hd a ha) (he b hb)
  | _ =>
    cases hx
    cases hy
    rfl

/-- Equal values feed a hasher the same, if those of them do that hold no others. -/
theorem fed_eq {length : Nat → σ → σ} {atom : Value ρ → σ → σ}
    (hatom : ∀ x y, sameAtom x y = true → atom x = atom y) {shape : Shape} (hx : shape.Has x) (hy : shape.Has y)
    (h : same x y = true) : shape.fed length atom x = shape.fed length atom y := by
  induction shape generalizing x y with
  | deque elements ih =>
    cases hx with
    | deque hd =>
      cases hy with
      | deque he =>
        rw [same_nested] at h
        exact Deque.fed_eq (fun a b ha hb => ih ha hb) hd he h
  | _ =>
    cases hx
    cases hy
    exact hatom _ _ h

end Shape

/-- Deques of plain data are coherent to every depth and totally ordered in every shape, whatever bounds there are in
them. -/
structure Ordered (ρ : Type) : Prop where
  coherent : ∀ depth, Deque.ComparesCoherently (fun x : Value ρ => x.PlainTo depth) same compare?
  shapes : ∀ (shape : Shape) (x : Value ρ), shape.Has x → x.PlainTo shape.depth
  total : ∀ shape : Shape, Deque.RanksTotally (fun x : Value ρ => shape.Has x) same compare? shape.cmp
  hash : ∀ {σ : Type} (length : Nat → σ → σ) (atom : Value ρ → σ → σ),
    (∀ x y, sameAtom x y = true → atom x = atom y) → ∀ (shape : Shape) (x y : Value ρ), shape.Has x → shape.Has y →
      same x y = true → shape.fed length atom x = shape.fed length atom y
  bounds : ∀ x y : Value ρ,
    same x.unbounded y.unbounded = same x y ∧ compare? x.unbounded y.unbounded = compare? x y

theorem ordered (ρ : Type) : Ordered ρ where
  coherent depth := Deque.comparesCoherently (coherent_plainTo depth)
  shapes _ _ := Shape.Has.plainTo
  total shape := Deque.ranksTotally shape.coherent fun _ _ => Shape.compare?_eq
  hash _ _ hatom _ _ _ := Shape.fed_eq hatom
  bounds := compared_unbounded

end Value

namespace Meaning

theorem equalPairs_eq {equal : Element → Element → Action Bool} {as bs : List Element} {s : Session}
    (h : ∀ x ∈ as, ∀ y, equal x y s = (.ok (Value.same x y), s)) (hl : as.length = bs.length) :
    equalPairs equal as bs s = (.ok (Deque.sameItems Value.same as bs), s) := by
  induction as generalizing bs with
  | nil =>
    cases List.length_eq_zero_iff.1 hl.symm
    rfl
  | cons x as ih =>
    cases bs with
    | nil => cases hl
    | cons y bs =>
      rw [equalPairs, bind_ok (h x List.mem_cons_self y), Deque.sameItems]
      cases Value.same x y with
      | false => rfl
      | true => exact ih (fun a ha => h a (List.mem_cons_of_mem _ ha)) (Nat.succ.inj hl)

theorem equalItems_eq {equal : Element → Element → Action Bool} {as bs : List Element} {s : Session}
    (h : ∀ x ∈ as, ∀ y, equal x y s = (.ok (Value.same x y), s)) :
    equalItems equal as bs s = (.ok (Deque.sameItems Value.same as bs), s) := by
  unfold equalItems
  split
  · rename_i hl
    exact equalPairs_eq h hl
  · rename_i hl
    have hdiffer : Deque.sameItems Value.same as bs = false :=
      Bool.eq_false_iff.2 fun hsame => hl (Deque.length_eq_of_sameItems hsame)
    rw [hdiffer]
    rfl

/-- Comparing plain data does nothing, whatever is compared with them. -/
theorem equal_of_plainTo {depth k : Nat} (hk : depth < k) {x : Element} (hx : x.PlainTo depth) (y : Element)
    (s : Session) : (upTo k).equal x y s = (.ok (Value.same x y), s) := by
  induction depth generalizing k x y with
  | zero =>
    obtain ⟨k, rfl⟩ := Nat.exists_eq_succ_of_ne_zero (Nat.ne_of_gt hk)
    cases x with
    | nested _ => exact hx.elim
    | link _ => exact hx.elim
    | _ => cases y <;> rfl
  | succ depth ih =>
    obtain ⟨k, rfl⟩ := Nat.exists_eq_succ_of_ne_zero (Nat.ne_of_gt (Nat.zero_lt_of_lt hk))
    cases x with
    | nested d =>
      cases y with
      | nested e =>
        rw [Value.same_nested]
        exact equalItems_eq fun a ha b => ih (Nat.lt_of_succ_lt_succ hk) (hx a ha) b
      | _ => rfl
    | link _ => exact hx.elim
    | _ => cases y <;> rfl

end Meaning

namespace Session

/-- How the registers of a session compare that hold plain data up to a depth or of a shape. -/
structure ComparesAsOrdered (m : Meaning) (s : Session) (depth : Nat) (name other : String) (d e : Deque Element) :
    Prop where
  operators : d.Over (Value.PlainTo depth) → m.perform (.owned name (.compareWith other)) s =
    (.ok (.comparison (d.compared Value.same Value.compare? e)), s)
  ranks : ∀ shape : Value.Shape, d.Over shape.Has → e.Over shape.Has →
    m.perform (.owned name (.rankWith other)) s =
      (.ok (if d.rank shape.cmp e = .gt then .rank (d.rank shape.cmp e) d.items e.items
        else .rank (d.rank shape.cmp e) e.items d.items), s)
  hashes : ∀ shape : Value.Shape, d.Over shape.Has → e.Over shape.Has →
    m.perform (.owned name (.hashAgreesWith other)) s = (.ok (.flag (d.same Value.same e)), s)

variable {s : Session} {name other : String} {d e : Deque Element} {depth k : Nat}

theorem comparesAsOrdered (hname : s.ownedDeque? name = some d) (hother : s.ownedDeque? other = some e)
    (hk : depth < k) : s.ComparesAsOrdered (Meaning.upTo (k + 1)) depth name other d e where
  operators hd := by
    have hop : (OwnedOp.compareWith other : OwnedOp Literal).mapM resolve s = (.ok (.compareWith other), s) := rfl
    have hsame (u : Session) : pinning e.owners (equalItems (Meaning.upTo k).equal d.items e.items) u =
        (.ok (d.same Value.same e), u) := by
      have hpairs : equalItems (Meaning.upTo k).equal d.items e.items { u with pinned := e.owners ++ u.pinned } =
          (.ok (d.same Value.same e), { u with pinned := e.owners ++ u.pinned }) :=
        Meaning.equalItems_eq fun x hx y => Meaning.equal_of_plainTo hk (hd x hx) y _
      exact (pinning_of_eq hpairs).trans rfl
    have horder : Value.compareLists? d.items e.items = d.compare? Value.compare? e := Value.compareLists?_eq _ _
    have hrun : (OwnedOp.compareWith other).run (Meaning.upTo k) d { s with pinned := d.owners ++ s.pinned } =
        (.ok (.comparison (d.compared Value.same Value.compare? e), d), { s with pinned := d.owners ++ s.pinned }) := by
      refine (bind_ok (required_of_some hother)).trans ?_
      refine (bind_ok (hsame _)).trans ((bind_ok (hsame _)).trans ?_)
      rw [horder]
      rfl
    exact Meaning.runOwned_of_resolved hop hname hrun
  ranks shape hd he := by
    have hop : (OwnedOp.rankWith other : OwnedOp Literal).mapM resolve s = (.ok (.rankWith other), s) := rfl
    have horder : Value.compareLists? d.items e.items = some (d.rank shape.cmp e) :=
      (Value.compareLists?_eq _ _).trans
        (Deque.compareItems?_eq_compareLex fun x hx y hy => Value.Shape.compare?_eq (hd x hx) (he y hy))
    have hrun : (OwnedOp.rankWith other).run (Meaning.upTo k) d { s with pinned := d.owners ++ s.pinned } =
        (.ok (if d.rank shape.cmp e = .gt then .rank (d.rank shape.cmp e) d.items e.items
          else .rank (d.rank shape.cmp e) e.items d.items, d), { s with pinned := d.owners ++ s.pinned }) := by
      refine (bind_ok (required_of_some hother)).trans ?_
      simp only [OwnedOp.rank, horder]
      rfl
    exact Meaning.runOwned_of_resolved hop hname hrun
  hashes shape hd he := by
    have hop : (OwnedOp.hashAgreesWith other : OwnedOp Literal).mapM resolve s = (.ok (.hashAgreesWith other), s) := rfl
    have hsame : (Value.compareLists? d.items e.items == some .eq) = d.same Value.same e := by
      rw [Bool.eq_iff_iff, beq_iff_eq, Value.compareLists?_eq]
      exact (shape.coherent.deques.equal d e hd he).symm
    have hrun : (OwnedOp.hashAgreesWith other).run (Meaning.upTo k) d { s with pinned := d.owners ++ s.pinned } =
        (.ok (.flag (d.same Value.same e), d), { s with pinned := d.owners ++ s.pinned }) := by
      refine (bind_ok (required_of_some hother)).trans ?_
      rw [hsame]
      rfl
    exact Meaning.runOwned_of_resolved hop hname hrun

end Session

/-- For elements of every kind whose own order is coherent, for nested plain data, and for the registers that hold
these. -/
theorem comparison_coherent :
    (∀ {α : Type} {members : α → Prop} {same : α → α → Bool} {order? : α → α → Option Ordering},
      Coherent members same order? → Deque.ComparesCoherently members same order?) ∧
    (∀ {α : Type} {members : α → Prop} {same : α → α → Bool} {order? : α → α → Option Ordering}
      {cmp : α → α → Ordering}, Coherent members same order? →
      (∀ x y, members x → members y → order? x y = some (cmp x y)) →
      Deque.RanksTotally members same order? cmp) ∧
    (∀ ρ : Type, Value.Ordered ρ) ∧
    ∀ (s : Session) (name other : String) (d e : Deque Element) (depth k : Nat), s.ownedDeque? name = some d →
      s.ownedDeque? other = some e → depth < k →
      s.ComparesAsOrdered (Meaning.upTo (k + 1)) depth name other d e :=
  ⟨fun h => Deque.comparesCoherently h, fun h hcmp => Deque.ranksTotally h hcmp, Value.ordered,
    fun _ _ _ _ _ _ _ hname hother hk => Session.comparesAsOrdered hname hother hk⟩

/-- Two registers with nested deques, of which the first holds what the second begins with, under other bounds. -/
def Session.withNested : Session :=
  putOwned "b" ⟨[.nested ⟨[.int 1, .int 2], none⟩, .nested ⟨[], some 0⟩], none⟩
    (putOwned "a" ⟨[.nested ⟨[.int 1, .int 2], some 2⟩], some 3⟩ (Session.start [] none))

/-- Numbers without an order, texts, and the registers, which are ordered whatever their bounds. -/
theorem comparison_coherent_nested :
    let least : Binary64 := .finite false 1
    let d : Deque Element := ⟨[.nested ⟨[.int 1, .int 2], some 2⟩], some 3⟩
    let e : Deque Element := ⟨[.nested ⟨[.int 1, .int 2], none⟩, .nested ⟨[], some 0⟩], none⟩
    Deque.compare? Binary64.compare? ⟨[least, .notANumber], some 2⟩ ⟨[least, least], none⟩ = none ∧
      Deque.compare? (fun a b : String => some (compare a b)) ⟨["a"], some 1⟩ ⟨["a", "b"], none⟩ = some .lt ∧
      (d.compared Value.same Value.compare? e).Decided ∧
      (Meaning.upTo 3).perform (.owned "a" (.compareWith "b")) Session.withNested =
        (.ok (.comparison (d.compared Value.same Value.compare? e)), Session.withNested) ∧
      (Meaning.upTo 3).perform (.owned "a" (.rankWith "b")) Session.withNested =
        (.ok (.rank .lt e.items d.items), Session.withNested) := by
  intro least d e
  have hshape (a : Element) (ha : a ∈ e.items) : (Value.Shape.deque .integer).Has a := by
    simp only [e, List.mem_cons, List.not_mem_nil, or_false] at ha
    rcases ha with rfl | rfl
    · refine .deque fun b hb => ?_
      simp only [List.mem_cons, List.not_mem_nil, or_false] at hb
      rcases hb with rfl | rfl <;> exact .integer _
    · exact .deque nofun
  have hd (a : Element) (ha : a ∈ d.items) : (Value.Shape.deque .integer).Has a := by
    cases List.mem_singleton.1 ha
    cases hshape (.nested ⟨[.int 1, .int 2], none⟩) List.mem_cons_self with
    | deque h => exact .deque h
  have hnumbers := comparison_coherent.1 Binary64.coherent
  have htexts := comparison_coherent.2.1 (Coherent.of_compare String) (fun _ _ _ _ => rfl)
  have hvalues := comparison_coherent.2.2.1 (Link Handle)
  have hsession := comparison_coherent.2.2.2 Session.withNested "a" "b" d e 1 2 rfl rfl (by decide)
  refine ⟨?_, ?_, (hvalues.total (.deque .integer)).decided d e hd hshape, ?_, hsession.ranks _ hd hshape⟩
  · exact hnumbers.decides ⟨[least, .notANumber], some 2⟩ ⟨[least, least], none⟩ [least] [least] .notANumber least [] []
      (fun _ _ => trivial) (fun _ _ => trivial) rfl rfl rfl rfl
  · exact htexts.extension ⟨["a"], some 1⟩ ⟨["a", "b"], none⟩ (fun _ _ => trivial) ⟨["b"], rfl⟩ (by decide)
  · exact hsession.operators fun a ha => hvalues.shapes _ a (hd a ha)

/-- The order of numbers is coherent, yet a deque of what is not a number has no order to its own extension. -/
theorem extension_of_notANumber_unordered :
    let one : Binary64 := .finite false Binary64.unitsOfOne
    let d : Deque Binary64 := ⟨[.notANumber], none⟩
    let e : Deque Binary64 := ⟨[.notANumber, one], none⟩
    let s := putOwned "b" ⟨[.real .notANumber, .real one], none⟩
      (putOwned "a" ⟨[.real .notANumber], none⟩ (Session.start [] none))
    Coherent (fun _ => True) Binary64.same Binary64.compare? ∧ d.items <+: e.items ∧ d.length < e.length ∧
      d.compare? Binary64.compare? e ≠ some .lt ∧
      (Meaning.upTo 2).perform (.owned "a" (.compareWith "b")) s =
        (.ok (.comparison ⟨false, true, false, false, false, false, none⟩), s) :=
  ⟨Binary64.coherent, ⟨_, rfl⟩, by decide, nofun, rfl⟩

end EvictingDeque
