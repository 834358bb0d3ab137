import EvictingDeque.Proofs.Interpreter.Outcomes
import EvictingDeque.Proofs.Interpreter.Proper
import EvictingDeque.Proofs.Interpreter.Steps

set_option autoImplicit false

/-!
# What lasts through proper sessions

Whatever is done at whatever depth, a proper session stays proper, and a relation between an earlier and a later
session that holds across each kind of change holds across all of it. Such a relation is a course. It need not hold
across every interruption: `calm` says across which.

Actions that hand on deques, elements or shared deques hand on proper ones; what is proper stays so while more shared
deques are made.
-/
namespace EvictingDeque

open Action

/-- Only while a deque is held for change can it be put back without being counted. -/
structure Session.Course where
  calm : Interrupt → Prop
  rel : Session → Session → Prop
  refl : ∀ s, rel s s
  trans : ∀ {s t u}, rel s t → rel t u → rel s u
  hold : ∀ {s t id}, rel s t → id < s.nextCell → (t.cell id).hold = (s.cell id).hold
  beside : ∀ {s t}, Session.Beside s t → rel s t
  created : ∀ {s : Session} d, s.Proper →
    rel s { s.putCell s.nextCell (.fresh d) with nextCell := s.nextCell + 1 }
  edited : ∀ {s : Session} id (change : Edit Element), s.Proper → id < s.nextCell → (s.cell id).hold = .free →
    rel s (s.putCell id ((s.cell id).edit change).2)
  removed : ∀ {s : Session} id position, s.Proper → id < s.nextCell → (s.cell id).hold = .free →
    rel s (s.putCell id ((s.cell id).removeAt position).2)
  started : ∀ {s : Session} name id, s.Proper → id < s.nextCell → (s.cell id).hold.allowsReading = true →
    rel s ({ s with cursors := s.cursors.put name (.start id (s.cell id)) }.note
      (.made name id (s.cell id).mutations (s.cell id).deque.items))
  advanced : ∀ {s : Session} name cursor, s.Proper → s.cursors.get? name = some cursor →
    (cursor.finished = true ∨ (s.cell cursor.cell).hold.allowsReading = true) →
    rel s ({ s with cursors := s.cursors.put name (cursor.advance (s.cell cursor.cell)).2 }.note
      (.advanced name (s.cell cursor.cell).mutations (cursor.advance (s.cell cursor.cell)).1))
  drained : ∀ {s : Session} name cursor, s.Proper → s.cursors.get? name = some cursor →
    (cursor.finished = true ∨ (s.cell cursor.cell).hold.allowsReading = true) →
    rel s ({ s with cursors := s.cursors.put name (cursor.drain (s.cell cursor.cell)).2 }.note
      (.drained name (s.cell cursor.cell).mutations (cursor.drain (s.cell cursor.cell)).1))
  dropped : ∀ {s : Session} name, s.Proper →
    rel s ({ s with cursors := s.cursors.erase name }.note (.dropped name))
  written : ∀ {s t : Session} id, s.Proper → (s.cell id).hold = .free → (s.cell id).formatting = false →
    rel (mark id s) t → rel s (unmark id t)
  read : ∀ {s t : Session} id, s.Proper → (s.cell id).hold.allowsReading = true →
    rel (setHold id Hold.enterReading s) t → rel s (setHold id Hold.leaveReading t)
  atHand : ∀ {s t : Session} id {after : Deque Element}, s.Proper → id < s.nextCell →
    (s.cell id).hold = .exclusive → (s.cell id).deque.Becomes after → rel s t →
    rel s (t.putCell id { t.cell id with deque := after })
  changed : ∀ {s t : Session} id, s.Proper → id < s.nextCell → (s.cell id).hold = .free →
    rel (s.putCell id { s.cell id with hold := .exclusive }) t →
    rel s (setHold id (fun _ => .free) (t.putCell id ((t.cell id).mutated (t.cell id).deque)))
  cut : ∀ {s t : Session} id cause, calm cause → s.Proper → id < s.nextCell → (s.cell id).hold = .free →
    rel (s.putCell id { s.cell id with hold := .exclusive }) t →
    rel s (setHold id (fun _ => .free) (t.note (.cutShort id)))

/-- What is kept alive meanwhile does not matter. -/
theorem Session.Course.pinned (C : Session.Course) {s t : Session} {ids : List Nat}
    (h : C.rel { s with pinned := ids } t) (pins : List Nat) : C.rel s { t with pinned := pins } :=
  C.trans (C.beside (Session.apart_pinned s ids).toBeside)
    (C.trans h (C.beside (Session.apart_pinned t pins).toBeside))

namespace Action

variable {C : Session.Course} {α β : Type}

def Calm (calm : Interrupt → Prop) : Except Interrupt α → Prop
  | .ok _ => True
  | .error cause => calm cause

theorem calm_always (outcome : Except Interrupt α) : Calm (fun _ => True) outcome := by
  cases outcome <;> trivial

def Safe (C : Session.Course) (action : Action α) : Prop :=
  ∀ (s t : Session) (outcome : Except Interrupt α), s.Proper → action s = (outcome, t) → Calm C.calm outcome →
    t.Proper ∧ s.nextCell ≤ t.nextCell ∧ C.rel s t

/-- Begun when at least so many shared deques have been made, the action answers something good for as many as there
are then. -/
def Sound (C : Session.Course) (limit : Nat) (good : Nat → α → Prop) (action : Action α) : Prop :=
  ∀ (s t : Session) (outcome : Except Interrupt α), s.Proper → limit ≤ s.nextCell → action s = (outcome, t) →
    Calm C.calm outcome →
    (t.Proper ∧ s.nextCell ≤ t.nextCell ∧ C.rel s t) ∧ ∀ value, outcome = .ok value → good t.nextCell value

variable {limit : Nat} {good : Nat → α → Prop} {better : Nat → β → Prop}

theorem Safe.sound {a : Action α} (h : a.Safe C) : a.Sound C limit fun _ _ => True :=
  fun s t outcome hs _ hrun hcalm => ⟨h s t outcome hs hrun hcalm, fun _ _ => trivial⟩

theorem Sound.safe {a : Action α} (h : a.Sound C 0 fun _ _ => True) : a.Safe C := fun s t outcome hs hrun hcalm =>
  (h s t outcome hs (Nat.zero_le _) hrun hcalm).1

theorem Sound.pure {value : α} (h : ∀ higher, limit ≤ higher → good higher value) :
    (Pure.pure value : Action α).Sound C limit good := fun s t outcome hs hl hrun _ => by
  cases hrun
  refine ⟨⟨hs, Nat.le_refl _, C.refl s⟩, fun found hf => ?_⟩
  cases hf
  exact h _ hl

theorem Sound.done {value : α} : (Pure.pure value : Action α).Sound C limit fun _ _ => True :=
  Sound.pure fun _ _ => trivial

theorem Sound.interrupt (cause : Interrupt) : (interrupt cause : Action α).Sound C limit good :=
  fun s t outcome hs _ hrun _ => by
    cases hrun
    exact ⟨⟨hs, Nat.le_refl _, C.refl s⟩, nofun⟩

theorem Sound.bind {a : Action α} {f : α → Action β} (ha : a.Sound C limit good)
    (hf : ∀ higher value, limit ≤ higher → good higher value → (f value).Sound C higher better) :
    (a >>= f).Sound C limit better := fun s t outcome hs hl hrun hcalm => by
  rcases bind_cases hrun with ⟨cause, hfirst, rfl⟩ | ⟨value, u, hfirst, hnext⟩
  · exact ⟨(ha s t _ hs hl hfirst hcalm).1, nofun⟩
  · obtain ⟨⟨hu, hsu, hr⟩, hv⟩ := ha s u _ hs hl hfirst trivial
    obtain ⟨⟨ht, hut, hr'⟩, hw⟩ :=
      hf _ value (Nat.le_trans hl hsu) (hv value rfl) u t outcome hu (Nat.le_refl _) hnext hcalm
    exact ⟨⟨ht, Nat.le_trans hsu hut, C.trans hr hr'⟩, hw⟩

theorem Safe.then {a : Action α} {f : α → Action β} (ha : a.Safe C)
    (hf : ∀ higher value, limit ≤ higher → (f value).Sound C higher better) : (a >>= f).Sound C limit better :=
  Sound.bind ha.sound fun higher value hl _ => hf higher value hl

theorem Sound.update {f : Session → Session}
    (hf : ∀ s, s.Proper → limit ≤ s.nextCell → (f s).Proper ∧ s.nextCell ≤ (f s).nextCell ∧ C.rel s (f s)) :
    (update f).Sound C limit fun _ _ => True := fun s t outcome hs hl hrun _ => by
  cases hrun
  exact ⟨hf s hs hl, fun _ _ => trivial⟩

theorem Sound.recovering {a : Action α} {f : Session → Session} (ha : a.Sound C limit good)
    (hf : ∀ s, s.Proper → limit ≤ s.nextCell → (f s).Proper ∧ s.nextCell ≤ (f s).nextCell ∧ C.rel s (f s)) :
    (a.recovering f).Sound C limit good := fun s t outcome hs hl hrun hcalm => by
  obtain ⟨value, hok, rfl⟩ | ⟨cause, u, herror, rfl, rfl⟩ := recovering_cases hrun
  · exact ha s t _ hs hl hok hcalm
  · obtain ⟨⟨hu, hsu, hr⟩, _⟩ := ha s u _ hs hl herror hcalm
    obtain ⟨hfu, hle, hr'⟩ := hf u hu (Nat.le_trans hl hsu)
    exact ⟨⟨hfu, Nat.le_trans hsu hle, C.trans hr hr'⟩, nofun⟩

theorem Sound.pinning {a : Action α} (ha : a.Sound C limit good) (ids : List Nat) :
    (pinning ids a).Sound C limit good := fun s t outcome hs hl hrun hcalm => by
  obtain ⟨u, hu, rfl⟩ := pinning_cases hrun
  obtain ⟨⟨hproper, hle, hr⟩, hgood⟩ := ha _ u outcome (hs.pinned (ids ++ s.pinned)) hl hu hcalm
  exact ⟨⟨hproper.pinned s.pinned, hle, C.pinned hr s.pinned⟩, hgood⟩

theorem Safe.pinning {a : Action α} (ha : a.Safe C) (ids : List Nat) : (pinning ids a).Safe C :=
  (ha.sound.pinning ids).safe

/-- A deque that was read is proper. -/
theorem sound_readCell (id : Nat) : (readCell id).Sound C limit fun higher cell => cell.deque.Sound higher :=
  fun s t outcome hs _ hrun _ => by
    obtain ⟨rfl, ⟨_, rfl⟩ | ⟨_, rfl⟩⟩ := readCell_cases hrun
    · refine ⟨⟨hs, Nat.le_refl _, C.refl t⟩, fun cell hc => ?_⟩
      cases hc
      exact hs.deques id
    · exact ⟨⟨hs, Nat.le_refl _, C.refl t⟩, nofun⟩

theorem safe_readCell (id : Nat) : (readCell id).Safe C := fun s t outcome hs hrun hcalm =>
  (sound_readCell id s t outcome hs (Nat.zero_le _) hrun hcalm).1

theorem sound_changeCell {id : Nat} (hid : id < limit) {change : Cell Element → α × Cell Element}
    (hc : ∀ cell higher, limit ≤ higher → cell.deque.Sound higher → (change cell).2.deque.Sound higher)
    (hr : ∀ s : Session, s.Proper → id < s.nextCell → (s.cell id).hold = .free →
      C.rel s (s.putCell id (change (s.cell id)).2)) :
    (changeCell id change).Sound C limit fun _ _ => True := fun s t outcome hs hl hrun _ => by
  obtain ⟨hf, _, rfl⟩ | ⟨_, _, rfl⟩ := changeCell_cases hrun
  · have hknown : id < s.nextCell := Nat.lt_of_lt_of_le hid hl
    exact ⟨⟨hs.putCell (hc _ _ hl (hs.deques id)), Nat.le_refl _, hr s hs hknown hf⟩, fun _ _ => trivial⟩
  · exact ⟨⟨hs, Nat.le_refl _, C.refl t⟩, fun _ _ => trivial⟩

theorem sound_required {lookup : Session → Option α}
    (hg : ∀ s value, s.Proper → lookup s = some value → good s.nextCell value) :
    (required lookup).Sound C limit good := fun s t outcome hs _ hrun _ => by
  obtain ⟨rfl, ⟨value, hl, rfl⟩ | ⟨_, rfl⟩⟩ := required_cases hrun
  · refine ⟨⟨hs, Nat.le_refl _, C.refl t⟩, fun found hf => ?_⟩
    cases hf
    exact hg t _ hs hl
  · exact ⟨⟨hs, Nat.le_refl _, C.refl t⟩, fun _ hf => by cases hf⟩

theorem sound_ownedRegister (name : String) :
    (ownedRegister name).Sound C limit fun higher d => d.Sound higher :=
  sound_required fun _ d hs hd => hs.owned name d hd

theorem sound_sharedRegister (name : String) : (sharedRegister name).Sound C limit fun higher id => id < higher :=
  sound_required fun _ id hs hid => hs.shared name id hid

theorem sound_setOwned {name : String} {d : Deque Element} (hd : d.Sound limit) :
    (setOwned name d).Sound C limit fun _ _ => True :=
  Sound.update fun _ hs hl => ⟨hs.putOwned (hd.mono hl), Nat.le_refl _, C.beside ⟨rfl, rfl, rfl, rfl⟩⟩

theorem sound_setShared {name : String} {id : Nat} (hid : id < limit) :
    (setShared name id).Sound C limit fun _ _ => True :=
  Sound.update fun _ hs hl =>
    ⟨hs.putShared (Nat.lt_of_lt_of_le hid hl), Nat.le_refl _, C.beside ⟨rfl, rfl, rfl, rfl⟩⟩

theorem sound_newCell {d : Deque Element} (hd : d.Sound limit) :
    (newCell d).Sound C limit fun higher id => id < higher :=
  fun s t outcome hs hl hrun _ => by
    cases hrun
    refine ⟨⟨hs.newCell (hd.mono hl), Nat.le_succ _, C.created d hs⟩, fun id hid => ?_⟩
    cases hid
    exact Nat.lt_succ_self _

theorem sound_mapM {f : α → Action β} {good : Nat → β → Prop}
    (hg : ∀ {lower higher : Nat} {value : β}, lower ≤ higher → good lower value → good higher value)
    (hf : ∀ a higher, limit ≤ higher → (f a).Sound C higher good) (as : List α) :
    (as.mapM f).Sound C limit fun higher values => ∀ value ∈ values, good higher value := by
  induction as generalizing limit with
  | nil => exact Sound.pure fun _ _ _ h => absurd h List.not_mem_nil
  | cons a as ih =>
    rw [List.mapM_cons]
    refine Sound.bind (hf a limit (Nat.le_refl _)) fun higher value hl hv => ?_
    refine Sound.bind (ih fun a k hk => hf a k (Nat.le_trans hl hk)) fun last values hlast hvs => ?_
    refine Sound.pure fun k hk found hfound => ?_
    rcases List.mem_cons.1 hfound with rfl | hfound
    · exact hg (Nat.le_trans hlast hk) hv
    · exact hg hk (hvs found hfound)

/-! Brackets: what lasts in between lasts across them -/

theorem safe_apart (answer : Session → α) {f : Session → Session} (hf : ∀ s, Session.Apart s (f s)) :
    Action.Safe C fun s => (.ok (answer s), f s) := fun s t outcome hs hrun _ => by
  cases hrun
  exact ⟨hs.apart (hf s), Nat.le_of_eq (hf s).nextCell.symm, C.beside (hf s).toBeside⟩

theorem safe_warn (message : String) : (warn message).Safe C :=
  safe_apart (fun _ => ()) fun _ => ⟨⟨rfl, rfl, rfl, rfl⟩, rfl, rfl, rfl⟩

theorem safe_writeItems {write : Element → Action String} (hw : ∀ element, (write element).Safe C)
    (d : Deque Element) : (writeItems write d).Safe C := by
  have hm : (d.items.mapM write).Sound C 0 fun _ values => ∀ value ∈ values, True :=
    sound_mapM (fun _ _ => trivial) (fun element _ _ => (hw element).sound) d.items
  exact (Sound.bind hm fun _ _ _ _ => Sound.done).safe

theorem safe_writeCell {write : Element → Action String} (hw : ∀ element, (write element).Safe C) (id : Nat) :
    (writeCell write id).Safe C := by
  intro s t outcome hs hrun hcalm
  unfold writeCell at hrun
  dsimp only at hrun
  split at hrun
  · cases hrun
    exact ⟨hs, Nat.le_refl _, C.refl s⟩
  rename_i hhold
  split at hrun
  · cases hrun
    exact ⟨hs, Nat.le_refl _, C.refl s⟩
  rename_i hmark
  have hfree : (s.cell id).hold = .free := Decidable.not_not.1 hhold
  have hunmarked : (s.cell id).formatting = false := Bool.eq_false_iff.2 hmark
  have hbracket {u : Session} {o : Except Interrupt String} (ho : Calm C.calm o)
      (hu : (do
        update (mark id)
        (pinning (id :: (s.cell id).deque.owners) (writeItems write (s.cell id).deque)).ensuring (unmark id) :
        Action String) s = (o, u)) : u.Proper ∧ s.nextCell ≤ u.nextCell ∧ C.rel s u := by
    rw [bind_ok (update_apply (mark id) s)] at hu
    obtain ⟨v, hv, rfl⟩ := ensuring_cases hu
    obtain ⟨hproper, hle, hr⟩ := (safe_writeItems hw _).pinning _ _ v o (hs.mark id) hv ho
    exact ⟨hproper.unmark id, by rw [Session.nextCell_unmark]; exact hle, C.written id hs hfree hunmarked hr⟩
  rcases bind_cases hrun with ⟨cause, hfirst, rfl⟩ | ⟨text, u, hfirst, hnext⟩
  · exact hbracket hcalm hfirst
  · obtain ⟨hu, hsu, hr⟩ := hbracket (o := .ok text) trivial hfirst
    have hend : (do
        let after ← readCell id
        if after.mutations ≠ (s.cell id).mutations then warn Warning.changedWhileWritten
        return text : Action String).Safe C := by
      refine Sound.safe ((safe_readCell id).then fun _ after _ => ?_)
      split
      · exact (safe_warn _).then fun _ _ _ => Sound.done
      · exact Sound.done
    obtain ⟨ht, hut, hr'⟩ := hend u t outcome hu hnext hcalm
    exact ⟨ht, Nat.le_trans hsu hut, C.trans hr hr'⟩

theorem safe_holdingForReading (id : Nat) {a : Action α} (ha : a.Safe C) : (holdingForReading id a).Safe C := by
  intro s t outcome hs hrun hcalm
  rcases bind_cases hrun with ⟨cause, hread, _⟩ | ⟨cell, u, hread, hnext⟩
  · obtain ⟨rfl, _⟩ := readCell_cases hread
    exact ⟨hs, Nat.le_refl _, C.refl t⟩
  · obtain ⟨rfl, ⟨hallows, _⟩ | ⟨_, hno⟩⟩ := readCell_cases hread
    · rw [bind_ok (update_apply _ u)] at hnext
      obtain ⟨v, hv, rfl⟩ := ensuring_cases hnext
      obtain ⟨hproper, hle, hr⟩ := ha.pinning [id] _ v outcome (hs.setHold id _) hv hcalm
      exact ⟨hproper.setHold id _, hle, C.read id hs hallows hr⟩
    · cases hno

end Action

def Action.Safely (C : Session.Course) : ActionRel := fun _ action _ => action.Safe C

theorem safely_neutral (C : Session.Course) : ActionRel.Neutral (Safely C) where
  pure _ := Sound.done.safe
  bind ha hf := (Safe.then ha fun _ value _ => (hf value).sound).safe
  interrupt _ := (Sound.interrupt _).safe
  read f s t outcome hs hrun _ := by
    cases hrun
    exact ⟨hs, Nat.le_refl _, C.refl s⟩
  aside hf _ := safe_apart (fun _ => ()) hf
  readCell := safe_readCell
  pinning ids _ _ ha := ha.pinning ids
  writing hw id := safe_writeCell hw id

end EvictingDeque
