import EvictingDeque.Proofs.Interpreter.AtHand
import EvictingDeque.Proofs.Text.Unescaping
import EvictingDeque.Proofs.Writing.Paths

set_option autoImplicit false

/-!
# The written form tells the deque

The text of a deque of integers, texts and such deques can be cut into the texts of its elements in one way only,
whatever brackets, commas and quotes stand in these. It holds the elements, in their order, and the bound, at every
depth.
-/
namespace EvictingDeque

open Action Text

namespace Value

variable {ρ : Type}

/-- Integers, texts, and deques of such values. -/
inductive Legible : Value ρ → Prop
  | int (value : Int) : Legible (.int value)
  | text (value : String) : Legible (.text value)
  | nested {d : Deque (Value ρ)} (elements : ∀ element ∈ d.items, Legible element) : Legible (.nested d)

end Value

namespace Deque

/-- The texts of further elements, each behind its comma. -/
def further (texts : List String) : List Char := texts.flatMap fun text => ',' :: ' ' :: text.toList

theorem toList_joined (text : String) (texts : List String) :
    (joined (text :: texts)).toList = text.toList ++ further texts := by
  induction texts generalizing text with
  | nil => simp [joined, further]
  | cons next texts ih =>
    have hnext := ih next
    unfold joined at hnext ⊢
    rw [String.intercalate_cons_cons, String.toList_append, String.toList_append, hnext]
    simp [further]

theorem toList_written (texts : List String) (bound : Option Nat) :
    (written texts bound).toList =
      "deque([".toList ++ ((joined texts).toList ++ ']' :: ((boundText bound).toList ++ [')'])) := by
  simp [written, String.toList_append, List.append_assoc]

theorem boundText_append_inj {bound other : Option Nat} {rest others : List Char}
    (h : (boundText bound).toList ++ ')' :: rest = (boundText other).toList ++ ')' :: others) :
    bound = other ∧ rest = others := by
  have hstops (rest : List Char) : Stops (')' :: rest) := fun c hc => by
    cases hc
    rfl
  cases bound with
  | none =>
    cases other with
    | none => simpa [boundText] using h
    | some limit => simp [boundText, String.toList_append] at h
  | some limit =>
    cases other with
    | none => simp [boundText, String.toList_append] at h
    | some most =>
      have hdigits : (toString limit).toList ++ ')' :: rest = (toString most).toList ++ ')' :: others := by
        simpa [boundText, String.toList_append] using h
      obtain ⟨rfl, hsame⟩ := nat_append_inj (hstops rest) (hstops others) hdigits
      exact ⟨rfl, (List.cons.inj hsame).2⟩

end Deque

namespace Session

variable {s : Session} {text : Nat → String} {x y : Element}

theorem textsOf_eq_map (elements : List Element) : s.textsOf text elements = elements.map (s.textOf text) := by
  induction elements with
  | nil => rfl
  | cons element elements ih => exact congrArg (s.textOf text element :: ·) ih

theorem textOf_nested (d : Deque Element) :
    s.textOf text (.nested d) = Deque.written (d.items.map (s.textOf text)) d.bound :=
  congrArg (Deque.written · d.bound) (textsOf_eq_map d.items)

/-- Whatever legible value has a text that begins like the text of this one is this one, and goes on in the same way. -/
def ReadsBack (s : Session) (text : Nat → String) (x : Element) : Prop :=
  ∀ y : Element, y.Legible → ∀ rest others, Stops rest → Stops others →
    (s.textOf text x).toList ++ rest = (s.textOf text y).toList ++ others → x = y ∧ rest = others

/-- The first character tells integers, texts and deques apart, and is nothing that may stand behind an element. -/
inductive Begins : Element → Char → Prop
  | int {value : Int} {c : Char} (numeral : isNumeral c = true) : Begins (.int value) c
  | text (value : String) : Begins (.text value) '"'
  | nested (d : Deque Element) : Begins (.nested d) 'd'

theorem exists_begins (s : Session) (text : Nat → String) (h : x.Legible) :
    ∃ c rest, (s.textOf text x).toList = c :: rest ∧ Begins x c := by
  cases h with
  | int value =>
    cases hdigits : (toString value).toList with
    | nil =>
      have hsigned := toList_int value
      have hnone (n : Nat) : (toString n).toList ≠ [] := by
        rw [Nat.toString_eq_ofList_toDigits, String.toList_ofList]
        exact Nat.toDigits_ne_nil
      rw [hdigits] at hsigned
      split at hsigned
      · exact absurd hsigned.symm (hnone _)
      · cases hsigned
    | cons c rest => exact ⟨c, rest, hdigits, .int (isNumeral_of_mem_int (hdigits ▸ List.mem_cons_self))⟩
  | text value => exact ⟨'"', _, String.toList_ofList, .text value⟩
  | nested elements =>
    rw [textOf_nested]
    exact ⟨'d', _, Deque.toList_written _ _, .nested _⟩

theorem stops_further (texts : List String) (rest : List Char) : Stops (Deque.further texts ++ ']' :: rest) := by
  intro c hc
  cases texts with
  | nil =>
    cases hc
    rfl
  | cons text texts =>
    cases hc
    rfl

/-- The elements behind the first one. The list is over where no comma follows. -/
theorem further_append_inj {xs ys : List Element} {rest others : List Char} (hxs : ∀ x ∈ xs, s.ReadsBack text x)
    (hys : ∀ y ∈ ys, y.Legible)
    (h : Deque.further (xs.map (s.textOf text)) ++ ']' :: rest =
      Deque.further (ys.map (s.textOf text)) ++ ']' :: others) : xs = ys ∧ rest = others := by
  induction xs generalizing ys with
  | nil =>
    cases ys with
    | nil => simpa [Deque.further] using h
    | cons y ys => simp [Deque.further] at h
  | cons x xs ih =>
    cases ys with
    | nil => simp [Deque.further] at h
    | cons y ys =>
      have helements : (s.textOf text x).toList ++ (Deque.further (xs.map (s.textOf text)) ++ ']' :: rest) =
          (s.textOf text y).toList ++ (Deque.further (ys.map (s.textOf text)) ++ ']' :: others) := by
        simpa [Deque.further] using h
      obtain ⟨rfl, hmore⟩ := hxs x List.mem_cons_self y (hys y List.mem_cons_self) _ _ (stops_further _ _)
        (stops_further _ _) helements
      obtain ⟨rfl, hsame⟩ := ih (fun x hx => hxs x (List.mem_cons_of_mem _ hx))
        (fun y hy => hys y (List.mem_cons_of_mem _ hy)) hmore
      exact ⟨rfl, hsame⟩

theorem joined_append_inj {xs ys : List Element} {rest others : List Char} (hxs : ∀ x ∈ xs, s.ReadsBack text x)
    (hlegible : ∀ x ∈ xs, x.Legible) (hys : ∀ y ∈ ys, y.Legible)
    (h : (Deque.joined (xs.map (s.textOf text))).toList ++ ']' :: rest =
      (Deque.joined (ys.map (s.textOf text))).toList ++ ']' :: others) : xs = ys ∧ rest = others := by
  -- no element begins with the bracket that closes an empty list
  have hbracket {z : Element} (hz : z.Legible) {texts : List String} {rest others : List Char} :
      (Deque.joined (s.textOf text z :: texts)).toList ++ rest ≠ ']' :: others := by
    obtain ⟨c, first, hfirst, hbegins⟩ := exists_begins s text hz
    rw [Deque.toList_joined, hfirst]
    intro he
    cases (List.cons.inj he).1
    cases hbegins with
    | int hnumeral => cases hnumeral
  cases xs with
  | nil =>
    cases ys with
    | nil => exact ⟨rfl, (List.cons.inj (List.append_cancel_left h)).2⟩
    | cons y ys => exact absurd h.symm (hbracket (hys y List.mem_cons_self))
  | cons x xs =>
    cases ys with
    | nil => exact absurd h (hbracket (hlegible x List.mem_cons_self))
    | cons y ys =>
      simp only [List.map_cons, Deque.toList_joined, List.append_assoc] at h
      obtain ⟨rfl, hmore⟩ := hxs x List.mem_cons_self y (hys y List.mem_cons_self) _ _ (stops_further _ _)
        (stops_further _ _) h
      obtain ⟨rfl, hsame⟩ := further_append_inj (fun x hx => hxs x (List.mem_cons_of_mem _ hx))
        (fun y hy => hys y (List.mem_cons_of_mem _ hy)) hmore
      exact ⟨rfl, hsame⟩

/-- Texts that begin alike are texts of values of one kind. -/
theorem alike_of_append_eq (hx : x.Legible) (hy : y.Legible) {rest others : List Char}
    (h : (s.textOf text x).toList ++ rest = (s.textOf text y).toList ++ others) :
    (∃ m n, x = .int m ∧ y = .int n) ∨ (∃ v w, x = .text v ∧ y = .text w) ∨ ∃ d e, x = .nested d ∧ y = .nested e := by
  obtain ⟨c, xs, hxs, hbegins⟩ := exists_begins s text hx
  obtain ⟨first, ys, hys, hfirst⟩ := exists_begins s text hy
  rw [hxs, hys] at h
  cases (List.cons.inj h).1
  cases hbegins with
  | int hnumeral =>
    cases hfirst with
    | int => exact .inl ⟨_, _, rfl, rfl⟩
    | text | nested => cases hnumeral
  | text value =>
    cases hfirst with
    | int hnumeral => cases hnumeral
    | text => exact .inr (.inl ⟨_, _, rfl, rfl⟩)
  | nested d =>
    cases hfirst with
    | int hnumeral => cases hnumeral
    | nested => exact .inr (.inr ⟨_, _, rfl, rfl⟩)

/-- By induction on the value, since what follows an element of a deque is part of the text of that deque. -/
theorem readsBack_of_legible (hx : x.Legible) : s.ReadsBack text x := by
  induction hx with
  | int value =>
    intro y hy rest others hrest hothers h
    obtain ⟨_, _, ⟨⟩, rfl⟩ | ⟨_, _, hno, _⟩ | ⟨_, _, hno, _⟩ := alike_of_append_eq (.int value) hy h
    · obtain ⟨rfl, hsame⟩ := int_append_inj hrest hothers h
      exact ⟨rfl, hsame⟩
    · cases hno
    · cases hno
  | text value =>
    intro y hy rest others _ _ h
    obtain ⟨_, _, hno, _⟩ | ⟨_, other, ⟨⟩, rfl⟩ | ⟨_, _, hno, _⟩ := alike_of_append_eq (.text value) hy h
    · cases hno
    · have hquoted : quotedChars value.toList ++ rest = quotedChars other.toList ++ others := by
        simpa [textOf, quoted, String.toList_ofList] using h
      obtain ⟨hsame, hrest⟩ := quotedChars_append_inj hquoted
      exact ⟨congrArg Value.text (String.toList_inj.1 hsame), hrest⟩
    · cases hno
  | @nested d elements ih =>
    intro y hy rest others _ _ h
    obtain ⟨_, _, hno, _⟩ | ⟨_, _, hno, _⟩ | ⟨_, e, ⟨⟩, rfl⟩ := alike_of_append_eq (.nested elements) hy h
    · cases hno
    · cases hno
    · cases hy with
      | nested hlegible =>
        simp only [textOf_nested, Deque.toList_written, List.append_assoc, List.cons_append, List.nil_append] at h
        obtain ⟨hitems, hbehind⟩ := joined_append_inj ih elements hlegible (List.append_cancel_left h)
        obtain ⟨hbound, hrest⟩ := Deque.boundText_append_inj hbehind
        have hsame : d = e := by
          cases d
          cases e
          cases hitems
          cases hbound
          rfl
        exact ⟨congrArg Value.nested hsame, hrest⟩

theorem textOf_inj (hx : x.Legible) (hy : y.Legible) : s.textOf text x = s.textOf text y ↔ x = y := by
  refine ⟨fun h => ?_, congrArg _⟩
  have htexts : (s.textOf text x).toList ++ [] = (s.textOf text y).toList ++ [] := congrArg (String.toList · ++ []) h
  exact (readsBack_of_legible hx y hy [] [] nofun nofun htexts).1

end Session

namespace Meaning

variable {base : Session} {text : Nat → String}

theorem settles_writeItems {d : Deque Element} (h : ∀ element ∈ d.items, ∀ s,
    Settles (fun k => (upTo k).write element) s (base.textOf text element) s) (s : Session) :
    Settles (fun k => writeItems (upTo k).write d) s (Deque.written (d.items.map (base.textOf text)) d.bound) s := by
  have helements : ∀ values : List Element, (∀ element ∈ values, element ∈ d.items) →
      Settles (fun k => values.mapM (upTo k).write) s (values.map (base.textOf text)) s := by
    intro values hvalues
    induction values with
    | nil => exact .answer fun _ => rfl
    | cons element values ih =>
      simp only [List.mapM_cons]
      refine (h element (hvalues element List.mem_cons_self) s).bind ?_
      exact (ih fun other ho => hvalues other (List.mem_cons_of_mem _ ho)).bind (.answer fun _ => rfl)
  exact (helements d.items fun _ he => he).bind (.answer fun _ => rfl)

/-- Wherever it is written, from the depth of its nesting on. -/
theorem settles_write {x : Element} (hx : x.Legible) (s : Session) :
    Settles (fun k => (upTo k).write x) s (base.textOf text x) s := by
  induction hx generalizing s with
  | int value => exact Settles.succ (.answer fun _ => rfl) fun _ => rfl
  | text value => exact Settles.succ (.answer fun _ => rfl) fun _ => rfl
  | @nested d elements ih =>
    rw [Session.textOf_nested]
    exact Settles.succ (settles_writeItems ih s) fun _ => rfl

/-- The step that writes a register's deque. -/
theorem settles_written {d : Deque Element} {written : String} {name : String} {s : Session}
    (h : ∀ s, Settles (fun k => writeItems (upTo k).write d) s written s) (hd : s.ownedDeque? name = some d) :
    Settles (fun k => (upTo k).perform (.owned name .written)) s (.text written) s := by
  obtain ⟨depth, htext⟩ := h { s with pinned := d.owners ++ s.pinned }
  refine Settles.succ (a := fun k => (upTo k).performStep (.owned name .written)) ⟨depth, fun k hk => ?_⟩ fun _ => rfl
  have hrun : (OwnedOp.written : OwnedOp Element).run (upTo k) d { s with pinned := d.owners ++ s.pinned } =
      (.ok (.text written, d), { s with pinned := d.owners ++ s.pinned }) := bind_ok (htext k hk)
  have hresolve : (OwnedOp.written : OwnedOp Literal).mapM resolve s = (.ok .written, s) := rfl
  exact (runOwned_of_resolved hresolve hd hrun).trans rfl

end Meaning

/-- Both deques are written in any session, also from registers, and leave it as it was. -/
theorem written_form_unambiguous {d e : Deque Element} (hd : ∀ element ∈ d.items, element.Legible)
    (he : ∀ element ∈ e.items, element.Legible) :
    ∃ first second : String,
      (∀ s, Settles (fun k => writeItems (Meaning.upTo k).write d) s first s) ∧
      (∀ s, Settles (fun k => writeItems (Meaning.upTo k).write e) s second s) ∧
      (∀ s name, s.ownedDeque? name = some d →
        Settles (fun k => (Meaning.upTo k).perform (.owned name .written)) s (.text first) s) ∧
      (∀ s name, s.ownedDeque? name = some e →
        Settles (fun k => (Meaning.upTo k).perform (.owned name .written)) s (.text second) s) ∧
      (first = second ↔ d.items = e.items ∧ d.bound = e.bound) := by
  let base := Session.start [] none
  have hwritten {c : Deque Element} (hc : ∀ element ∈ c.items, element.Legible) (s : Session) :
      Settles (fun k => writeItems (Meaning.upTo k).write c) s
        (Deque.written (c.items.map (base.textOf fun _ => "")) c.bound) s :=
    Meaning.settles_writeItems (fun element h => Meaning.settles_write (hc element h)) s
  refine ⟨_, _, hwritten hd, hwritten he, fun s name hs => Meaning.settles_written (hwritten hd) hs,
    fun s name hs => Meaning.settles_written (hwritten he) hs, ?_⟩
  rw [← Session.textOf_nested, ← Session.textOf_nested, Session.textOf_inj (.nested hd) (.nested he)]
  refine ⟨fun h => ?_, fun h => ?_⟩
  · cases h
    exact ⟨rfl, rfl⟩
  · cases d
    cases e
    cases h.1
    cases h.2
    rfl

/-- A text and a deque in it. -/
def Deque.withTextAndDeque : Deque Element := ⟨[.text "a", .nested ⟨[.int 7], some 2⟩], none⟩

/-- One text that shows what is between the quotes of the other deque's written form. -/
def Deque.withTextOnly : Deque Element := ⟨[.text "a\", deque([7], maxlen=2)"], none⟩

theorem written_form_unambiguous_quotes :
    (∀ element ∈ Deque.withTextAndDeque.items, element.Legible) ∧
      (∀ element ∈ Deque.withTextOnly.items, element.Legible) ∧
      ∃ first second : String,
        (∀ s, Settles (fun k => writeItems (Meaning.upTo k).write Deque.withTextAndDeque) s first s) ∧
        (∀ s, Settles (fun k => writeItems (Meaning.upTo k).write Deque.withTextOnly) s second s) ∧
        first = "deque([\"a\", deque([7], maxlen=2)])" ∧ first ≠ second := by
  have hboth : ∀ element ∈ Deque.withTextAndDeque.items, element.Legible := by
    simp only [Deque.withTextAndDeque, List.forall_mem_cons, List.not_mem_nil, false_imp_iff, implies_true, and_true]
    exact ⟨.text "a", .nested (by simpa using .int 7)⟩
  have hone : ∀ element ∈ Deque.withTextOnly.items, element.Legible := by
    simp only [Deque.withTextOnly, List.forall_mem_cons, List.not_mem_nil, false_imp_iff, implies_true, and_true]
    exact .text _
  obtain ⟨first, second, hfirst, hsecond, -, -, hsame⟩ := written_form_unambiguous hboth hone
  refine ⟨hboth, hone, first, second, hfirst, hsecond, ?_, fun h => ?_⟩
  · obtain ⟨depth, htext⟩ := hfirst (Session.start [] none)
    have hwritten : writeItems (Meaning.upTo (depth + 2)).write Deque.withTextAndDeque (Session.start [] none) =
        (.ok (Deque.written [Text.quoted "a", Deque.written [toString (7 : Int)] (some 2)] none),
          Session.start [] none) := rfl
    cases (htext (depth + 2) (Nat.le_add_right ..)).symm.trans hwritten
    decide +kernel
  · have hitems := (hsame.1 h).1
    simp [Deque.withTextAndDeque, Deque.withTextOnly] at hitems

end EvictingDeque
