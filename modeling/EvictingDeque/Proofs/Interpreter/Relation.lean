import EvictingDeque.Session.Performing

set_option autoImplicit false

/-!
# Relations that go through the interpreter

Writing, comparing and performing steps are put together from few kinds of actions. A relation between
actions that holds of each kind with itself, and that sequencing and the brackets keep, relates the next level
of two meanings whenever it relates the meanings. Some steps are left to whoever uses this: holding a deque while a
body runs, making or dropping a cursor, and coming to the warning switch.
-/
namespace EvictingDeque

open Action

/-- One relation for each type of answers. -/
abbrev ActionRel : Type 1 := (α : Type) → Action α → Action α → Prop

namespace Meaning

structure Related (Φ : ActionRel) (m m' : Meaning) : Prop where
  write : ∀ element, Φ String (m.write element) (m'.write element)
  equal : ∀ a b, Φ Bool (m.equal a b) (m'.equal a b)
  perform : ∀ step, Φ Answer (m.perform step) (m'.perform step)

end Meaning

/-- The second session has the shared deques and the cursors of the first, and nothing happened to either. -/
structure Session.Beside (s t : Session) : Prop where
  cells : t.cells = s.cells
  nextCell : t.nextCell = s.nextCell
  cursors : t.cursors = s.cursors
  journal : t.journal = s.journal

/-- And neither did the registers change. -/
structure Session.Apart (s t : Session) : Prop extends Session.Beside s t where
  owned : t.owned = s.owned
  shared : t.shared = s.shared
  weak : t.weak = s.weak

/-- So are sessions that keep other deques alive. -/
theorem Session.apart_pinned (s : Session) (ids : List Nat) : Session.Apart s { s with pinned := ids } :=
  ⟨⟨rfl, rfl, rfl, rfl⟩, rfl, rfl, rfl⟩

/-- Nobody has come to the warning switch, and nothing has been printed. -/
structure Session.Mute (s t : Session) : Prop where
  warnings : t.warnings = s.warnings
  printed : t.printed = s.printed

/-- What is needed for whatever only reads. -/
structure ActionRel.Sequential (Φ : ActionRel) : Prop where
  pure : ∀ {α : Type} (value : α), Φ α (pure value) (pure value)
  bind : ∀ {α β : Type} {a b : Action α} {f g : α → Action β}, Φ α a b →
    (∀ value, Φ β (f value) (g value)) → Φ β (a >>= f) (b >>= g)
  interrupt : ∀ {α : Type} {cause : Interrupt}, cause ≠ .panic .borrowed → Φ α (interrupt cause) (interrupt cause)
  read : ∀ {α : Type} (f : Session → α), Φ α (read f) (read f)

/-- What is needed for comparing, writing and searching, as long as no hook acts. Only reading or changing a deque that is
held meets a borrow conflict. -/
structure ActionRel.Reading (Φ : ActionRel) : Prop extends ActionRel.Sequential Φ where
  readCell : ∀ id, Φ _ (readCell id) (readCell id)
  pinning : ∀ {α : Type} (ids : List Nat) {a b : Action α}, Φ α a b → Φ α (pinning ids a) (pinning ids b)
  writing : ∀ {write write' : Element → Action String}, (∀ element, Φ String (write element) (write' element)) →
    ∀ id, Φ String (writeCell write id) (writeCell write' id)

/-- What is needed for everything that changes no deque and no register itself. -/
structure ActionRel.Neutral (Φ : ActionRel) : Prop extends ActionRel.Reading Φ where
  aside : ∀ {f : Session → Session}, (∀ s, Session.Apart s (f s)) → (∀ s, Session.Mute s (f s)) →
    Φ Unit (update f) (update f)

structure ActionRel.Compositional (Φ : ActionRel) : Prop extends ActionRel.Neutral Φ where
  beside : ∀ {f : Session → Session}, (∀ s, Session.Beside s (f s)) → (∀ s, Session.Mute s (f s)) →
    Φ Unit (update f) (update f)
  newCell : ∀ d, Φ _ (newCell d) (newCell d)
  edit : ∀ id change, Φ _ (changeCell id fun cell => cell.edit change) (changeCell id fun cell => cell.edit change)
  removeAt : ∀ id position,
    Φ _ (changeCell id fun cell => cell.removeAt position) (changeCell id fun cell => cell.removeAt position)
  advance : ∀ name, Φ _ (advanceCursor name) (advanceCursor name)
  drain : ∀ name, Φ _ (drainCursor name) (drainCursor name)
  recovering : ∀ {α : Type} {a b : Action α} {f : Session → Session}, (∀ s, Session.Beside s (f s)) →
    (∀ s, Session.Mute s (f s)) → Φ α a b → Φ α (a.recovering f) (b.recovering f)

namespace ActionRel.Sequential

variable {Φ : ActionRel} (h : Φ.Sequential)
include h

theorem required {α : Type} (lookup : Session → Option α) : Φ α (required lookup) (required lookup) := by
  have he : Action.required lookup =
      Action.read lookup >>= fun found => found.elim (Action.interrupt .undefined) Pure.pure := by
    funext s
    rw [bind_ok (read_apply _ s)]
    cases hl : lookup s <;> simp [Action.required, hl, Action.interrupt]
  rw [he]
  refine h.bind (h.read lookup) fun value => ?_
  cases value with
  | none => exact h.interrupt nofun
  | some value => exact h.pure value

theorem mapM {α β : Type} {f g : α → Action β} (hf : ∀ a, Φ β (f a) (g a)) (as : List α) :
    Φ (List β) (as.mapM f) (as.mapM g) := by
  induction as with
  | nil => exact h.pure []
  | cons a as ih =>
    rw [List.mapM_cons, List.mapM_cons]
    exact h.bind (hf a) fun b => h.bind ih fun bs => h.pure (b :: bs)

theorem writeItems {write write' : Element → Action String}
    (hw : ∀ element, Φ String (write element) (write' element)) (d : Deque Element) :
    Φ String (writeItems write d) (writeItems write' d) :=
  h.bind (h.mapM hw d.items) fun _ => h.pure _

theorem equalPairs {equal equal' : Element → Element → Action Bool}
    (he : ∀ a b, Φ Bool (equal a b) (equal' a b)) (as bs : List Element) :
    Φ Bool (equalPairs equal as bs) (equalPairs equal' as bs) := by
  induction as generalizing bs with
  | nil => exact h.pure true
  | cons a as ih =>
    cases bs with
    | nil => exact h.pure true
    | cons b bs =>
      refine h.bind (he a b) fun same => ?_
      cases same with
      | false => exact h.pure false
      | true => exact ih bs

theorem equalItems {equal equal' : Element → Element → Action Bool}
    (he : ∀ a b, Φ Bool (equal a b) (equal' a b)) (as bs : List Element) :
    Φ Bool (equalItems equal as bs) (equalItems equal' as bs) := by
  unfold Action.equalItems
  split
  · exact h.equalPairs he as bs
  · exact h.pure false

theorem ownedRegister (name : String) : Φ _ (ownedRegister name) (ownedRegister name) := h.required _

theorem sharedRegister (name : String) : Φ _ (sharedRegister name) (sharedRegister name) := h.required _

end ActionRel.Sequential

namespace ActionRel.Reading

variable {Φ : ActionRel} (h : Φ.Reading) {m m' : Meaning}
include h

theorem writeElement (hw : ∀ element, Φ String (m.write element) (m'.write element))
    (hact : ∀ id, Φ Unit (Hook.act m id (·.whenWritten)) (Hook.act m' id (·.whenWritten))) (element : Element) :
    Φ String (m.writeElement element) (m'.writeElement element) := by
  cases element with
  | int value => exact h.pure _
  | text value => exact h.pure _
  | real value => exact h.pure _
  | keyed key tag => exact h.pure _
  | nested d => exact h.writeItems hw d
  | link link =>
    cases link with
    | own target => exact h.writing hw target.cell
    | weak target =>
      refine h.bind (h.read _) fun alive => ?_
      cases alive with
      | false => exact h.pure _
      | true => exact h.writing hw target.cell
    | hook id => exact h.bind (hact id) fun _ => h.read _

theorem equalCells {equal equal' : Element → Element → Action Bool}
    (he : ∀ a b, Φ Bool (equal a b) (equal' a b)) (a b : Nat) :
    Φ Bool (equalCells equal a b) (equalCells equal' a b) := by
  unfold Action.equalCells
  split
  · exact h.pure true
  · refine h.bind (h.readCell a) fun left => h.bind (h.readCell b) fun right => ?_
    exact h.pinning _ (h.equalItems he _ _)

theorem equalElements (he : ∀ a b, Φ Bool (m.equal a b) (m'.equal a b))
    (hact : ∀ id, Φ Unit (Hook.act m id (·.whenCompared)) (Hook.act m' id (·.whenCompared))) (a b : Element) :
    Φ Bool (m.equalElements a b) (m'.equalElements a b) := by
  unfold Meaning.equalElements
  split
  · exact h.bind (hact _) fun _ => h.read _
  · exact h.equalItems he _ _
  · exact h.equalCells he _ _
  · split
    · exact h.read _
    · exact h.pure false
  · exact h.pure _

/-! Searching -/

theorem positionsFrom {test test' : Element → Action Bool} (ht : ∀ item, Φ Bool (test item) (test' item))
    (onlyFirst : Bool) (position : Nat) (found : List Nat) (items : List Element) :
    Φ _ (positionsFrom test onlyFirst position found items) (positionsFrom test' onlyFirst position found items) := by
  induction items generalizing position found with
  | nil => exact h.pure _
  | cons item items ih =>
    refine h.bind (ht item) fun hit => ?_
    dsimp only
    split
    · exact h.pure _
    · exact ih (position + 1) _

theorem visit {test test' : Element → Action Bool} (ht : ∀ item, Φ Bool (test item) (test' item))
    (id mutations : Nat) (item : Element) : Φ _ (visit id mutations test item) (visit id mutations test' item) :=
  h.bind (h.pinning _ (ht item)) fun _ => h.bind (h.readCell id) fun _ => h.pure _

theorem scanFrom {test test' : Element → Action Bool} (ht : ∀ item, Φ Bool (test item) (test' item))
    (id mutations : Nat) (onlyFirst : Bool) (position : Nat) (found : List Nat) (items : List Element) :
    Φ _ (scanFrom id mutations test onlyFirst position found items)
      (scanFrom id mutations test' onlyFirst position found items) := by
  induction items generalizing position found with
  | nil => exact h.pure _
  | cons item items ih =>
    refine h.bind (h.visit ht id mutations item) fun hit => ?_
    cases hit with
    | none => exact h.pure _
    | some hit =>
      dsimp only
      split
      · exact h.pure _
      · exact ih (position + 1) _

theorem locateIn (he : ∀ a b, Φ Bool (m.equal a b) (m'.equal a b)) (items : List Element) (value : Element)
    (onlyFirst : Bool) : Φ _ (locateIn m items value onlyFirst) (locateIn m' items value onlyFirst) :=
  h.pinning _ (h.bind (h.positionsFrom (fun stored => he stored value) onlyFirst 0 [] items) fun _ => h.pure _)

theorem locateShared (he : ∀ a b, Φ Bool (m.equal a b) (m'.equal a b)) (id : Nat) (value : Element)
    (onlyFirst : Bool) : Φ _ (locateShared m id value onlyFirst) (locateShared m' id value onlyFirst) :=
  h.pinning _ (h.bind (h.readCell id) fun _ => h.scanFrom (fun stored => he stored value) id _ onlyFirst 0 [] _)

theorem runQuery {contents : Action (Deque Element)} {locate locate' : Locate} (hc : Φ _ contents contents)
    (hl : ∀ value onlyFirst, Φ _ (locate value onlyFirst) (locate' value onlyFirst)) (query : Query Element) :
    Φ Answer (runQuery contents locate query) (runQuery contents locate' query) := by
  cases query with
  | get position => exact h.bind hc fun _ => h.pure _
  | toList => exact h.bind hc fun _ => h.pure _
  | count value => exact h.bind (hl value false) fun _ => h.pure _
  | contains value =>
    refine h.bind (hl value true) fun located => ?_
    cases located <;> exact h.pure _
  | index value => exact h.bind (hl value true) fun _ => h.pure _

end ActionRel.Reading

namespace ActionRel.Neutral

variable {Φ : ActionRel} (h : Φ.Neutral) {m m' : Meaning}
include h

/-! What hooks do -/

theorem runScript (hm : m.Related Φ m') (id : String) (steps : List Step) :
    Φ Unit (Hook.runScript m id steps) (Hook.runScript m' id steps) := by
  induction steps with
  | nil => exact h.pure ()
  | cons step steps ih =>
    refine h.bind (hm.perform step) fun answer => ?_
    exact h.bind (h.aside (fun _ => ⟨⟨rfl, rfl, rfl, rfl⟩, rfl, rfl, rfl⟩) fun _ => ⟨rfl, rfl⟩) fun _ => ih

theorem act (hm : m.Related Φ m') (id : String) (script : Hook → List Step) :
    Φ Unit (Hook.act m id script) (Hook.act m' id script) := by
  have he (m : Meaning) : Hook.act m id script = (do
      let hook ← Action.read (·.hook id)
      if (script hook).isEmpty || hook.times == some 0 then Pure.pure ()
      else
        Action.update fun s => { s with hooks := s.hooks.put id { hook with times := hook.times.map (· - 1) } }
        Hook.runScript m id (script hook)) := by
    funext s
    unfold Hook.act
    rw [bind_ok (read_apply _ s)]
    dsimp only
    split <;> rfl
  rw [he m, he m']
  refine h.bind (h.read _) fun hook => ?_
  split
  · exact h.pure ()
  · refine h.bind (h.aside (fun _ => ⟨⟨rfl, rfl, rfl, rfl⟩, rfl, rfl, rfl⟩) fun _ => ⟨rfl, rfl⟩) fun _ => ?_
    exact h.runScript hm id _

theorem writeElement (hm : m.Related Φ m') (element : Element) :
    Φ String (m.writeElement element) (m'.writeElement element) :=
  h.toReading.writeElement hm.write (fun id => h.act hm id _) element

theorem equalElements (hm : m.Related Φ m') (a b : Element) :
    Φ Bool (m.equalElements a b) (m'.equalElements a b) :=
  h.toReading.equalElements hm.equal (fun id => h.act hm id _) a b

end ActionRel.Neutral

end EvictingDeque
