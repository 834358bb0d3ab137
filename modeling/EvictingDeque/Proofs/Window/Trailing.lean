import EvictingDeque.Deque.Bounds
import Mathlib.Data.List.DropRight

set_option autoImplicit false

/-!
# The part of a history that a bound keeps

`window bound history` is the trailing part of a history, or all of it without a bound. Cutting a history down
before it grows at its end makes no difference to what is kept of it afterwards, also where it is repeated: the copies
of a window that survive are the end of the copies of the whole history.
-/
namespace EvictingDeque.Deque

variable {α : Type}

def window (bound : Option Nat) (history : List α) : List α :=
  match bound with
  | none => history
  | some bound => history.rtake bound

/-- All copies of a history, one behind the other. -/
def copies (times : Nat) (history : List α) : List α := (List.replicate times history).flatten

theorem length_copies (times : Nat) (history : List α) : (copies times history).length = times * history.length := by
  simp [copies]

theorem copies_add (first second : Nat) (history : List α) :
    copies (first + second) history = copies first history ++ copies second history := by
  simp only [copies, List.replicate_add, List.flatten_append]

theorem copies_succ (times : Nat) (history : List α) : copies (times + 1) history = copies times history ++ history := by
  rw [copies_add]
  simp [copies]

theorem length_window (bound : Nat) (history : List α) :
    (window (some bound) history).length = min history.length bound := by
  simp only [window, List.rtake, List.length_drop]
  omega

theorem window_append_left (bound : Option Nat) (front back : List α) :
    window bound (window bound front ++ back) = window bound (front ++ back) := by
  cases bound with
  | none => rfl
  | some bound =>
    simp [window, List.rtake_eq_reverse_take_reverse, List.take_append, List.take_take]

theorem window_append_right (bound : Option Nat) (front back : List α) :
    window bound (front ++ window bound back) = window bound (front ++ back) := by
  cases bound with
  | none => rfl
  | some bound =>
    have hrest : bound - min bound back.length = bound - back.length := by omega
    simp [window, List.rtake_eq_reverse_take_reverse, List.take_append, List.take_take, hrest]

theorem window_copies (bound : Option Nat) (times : Nat) (history : List α) :
    window bound (copies times (window bound history)) = window bound (copies times history) := by
  induction times with
  | zero => rfl
  | succ times ih =>
    rw [copies_succ, copies_succ, window_append_right, ← window_append_left, ih, window_append_left]

/-- So many elements of the endless repetition stand in sufficiently many copies behind what is left of the current
one. -/
theorem cycleTake_eq_take (whole : List α) {count times : Nat} {rest : List α}
    (h : count ≤ rest.length + times * whole.length) :
    cycleTake whole count rest = (rest ++ copies times whole).take count := by
  induction count generalizing times rest with
  | zero => simp
  | succ count ih =>
    cases rest with
    | cons value rest =>
      have hrest : count ≤ rest.length + times * whole.length := by
        simp only [List.length_cons] at h
        omega
      simp [cycleTake, ih hrest]
    | nil =>
      cases times with
      | zero => simp at h
      | succ times =>
        cases whole with
        | nil => simp at h
        | cons value whole =>
          have hrest : count ≤ whole.length + times * (value :: whole).length := by
            simp only [List.length_nil, Nat.succ_mul, List.length_cons] at h ⊢
            omega
          rw [Nat.add_comm times 1, copies_add]
          simp [cycleTake, ih hrest, copies]

/-- Where the last `kept` elements of so many copies begin: behind some copies that are gone, and within the next one
behind what is skipped of it. -/
theorem start_of_tail {length kept times : Nat} (hkept : 0 < kept) (h : kept ≤ length * times) :
    ∃ gone whole, times = gone + 1 + whole ∧
      length * times - kept = gone * length + (length - kept % length) % length ∧
      kept = length - (length - kept % length) % length + whole * length := by
  have hlength : 0 < length := Nat.pos_of_ne_zero fun hzero => by simp [hzero] at h; omega
  have hpart : kept % length < length := Nat.mod_lt _ hlength
  have hsplit : length * (kept / length) + kept % length = kept := Nat.div_add_mod kept length
  have hcount : length * (kept / length) ≤ length * times := by omega
  obtain ⟨rest, hrest⟩ := Nat.exists_eq_add_of_le (Nat.le_of_mul_le_mul_left hcount hlength)
  have htotal : length * times = length * (kept / length) + length * rest := by
    rw [← Nat.mul_add, ← hrest]
  generalize kept / length = count at *
  by_cases hzero : kept % length = 0
  · have hskipped : (length - kept % length) % length = 0 := by simp [hzero]
    cases count with
    | zero => omega
    | succ whole =>
      refine ⟨rest, whole, by omega, ?_, ?_⟩ <;> rw [hskipped]
      · rw [Nat.mul_comm rest]
        omega
      · rw [Nat.mul_comm whole]
        simp only [Nat.mul_add] at hsplit
        omega
  · have hskipped : (length - kept % length) % length = length - kept % length := Nat.mod_eq_of_lt (by omega)
    cases rest with
    | zero => omega
    | succ gone =>
      refine ⟨gone, count, by omega, ?_, ?_⟩ <;> rw [hskipped]
      · rw [Nat.mul_comm gone]
        simp only [Nat.mul_add] at htotal
        omega
      · rw [Nat.mul_comm count]
        omega

/-- The survivors of a repetition, built without the others, are its last elements. -/
theorem cycleTake_eq_drop {items : List α} {kept times : Nat} (hkept : 0 < kept) (h : kept ≤ items.length * times) :
    cycleTake items kept (items.drop ((items.length - kept % items.length) % items.length)) =
      (copies times items).drop (items.length * times - kept) := by
  obtain ⟨gone, whole, htimes, hstart, hlength⟩ := start_of_tail hkept h
  have hskipped : (items.length - kept % items.length) % items.length ≤ items.length :=
    Nat.le_trans (Nat.mod_le _ _) (Nat.sub_le _ _)
  generalize (items.length - kept % items.length) % items.length = skipped at *
  have henough : kept ≤ (items.drop skipped).length + whole * items.length := by
    rw [List.length_drop, ← hlength]
  have hcopies : copies times items = copies gone items ++ (items ++ copies whole items) := by
    rw [htimes, copies_add, copies_add, List.append_assoc]
    simp [copies]
  rw [cycleTake_eq_take items henough, hstart, hcopies, ← length_copies, List.drop_length_add_append,
    List.drop_append_of_le_length hskipped]
  refine List.take_of_length_le ?_
  rw [List.length_append, List.length_drop, length_copies]
  exact Nat.le_of_eq hlength.symm

/-! Deques that hold the window of a history -/

theorem ofList_eq (values : List α) (bound : Option Nat) : ofList values bound = ⟨window bound values, bound⟩ := by
  cases bound with
  | none => simp [ofList, extendBack, evictions, empty, window]
  | some bound =>
    simp [ofList, extendBack, evictions, empty, window, List.rtake]

theorem extendBack_ofList (history values : List α) (bound : Option Nat) :
    (ofList history bound).extendBack values = ofList (history ++ values) bound :=
  (extendBack_append (empty bound) history values).symm

theorem pushBack_ofList (history : List α) (value : α) (bound : Option Nat) :
    ((ofList history bound).pushBack value).2 = ofList (history ++ [value]) bound := by
  rw [← extendBack_ofList, extendBack_cons, extendBack_nil]

theorem survivors?_eq (bound : Option Nat) (whole : List α) :
    survivors? bound whole.length = some (window bound whole).length ∨
      survivors? bound whole.length = none ∧ slotLimit < (window bound whole).length := by
  cases bound with
  | none =>
    have hlimit : slotLimit < Word.largestSize := by decide
    by_cases hl : Word.largestSize < whole.length
    · exact .inr ⟨if_pos hl, Nat.lt_trans hlimit hl⟩
    · exact .inl (if_neg hl)
  | some bound => exact .inl (congrArg some (length_window bound whole).symm)

theorem window_eq_drop (bound : Option Nat) (whole : List α) :
    window bound whole = whole.drop (whole.length - (window bound whole).length) := by
  cases bound with
  | none => simp [window]
  | some bound =>
    rw [length_window]
    have hgone : whole.length - min whole.length bound = whole.length - bound := by omega
    rw [hgone]
    rfl

theorem cycleTake_eq_window {bound : Option Nat} {items : List α} {times kept : Nat}
    (hk : kept = (window bound (copies times items)).length) :
    cycleTake items kept (items.drop ((items.length - kept % items.length) % items.length)) =
      window bound (copies times items) := by
  rcases Nat.eq_zero_or_pos kept with hzero | hpos
  · rw [List.length_eq_zero_iff.1 (hk.symm.trans hzero), hzero, cycleTake_zero]
  · have htotal : (copies times items).length = items.length * times := by rw [length_copies, Nat.mul_comm]
    have hle : kept ≤ items.length * times := by
      rw [window_eq_drop, List.length_drop] at hk
      omega
    rw [cycleTake_eq_drop hpos hle, window_eq_drop, ← hk, htotal]

/-- There is room for a repetition if there is room for what the bound keeps of it. -/
theorem repeated?_ofList (history : List α) (times : Nat) (bound : Option Nat) :
    (ofList history bound).repeated? times =
      if (window bound (copies times history)).length ≤ slotLimit then some (ofList (copies times history) bound)
      else none := by
  rw [ofList_eq, ofList_eq, ← window_copies]
  generalize window bound history = items
  unfold repeated?
  dsimp only
  split
  · rename_i hnone
    have hcopies : copies times items = [] := by
      rcases hnone with hitems | rfl
      · simp [copies, List.length_eq_zero_iff.1 hitems]
      · rfl
    have hwindow : window bound (copies times items) = [] := by
      rw [hcopies]
      cases bound <;> simp [window]
    simp [hwindow, empty]
  · rename_i hsome
    have htotal : items.length * times = (copies times items).length := by rw [length_copies, Nat.mul_comm]
    rw [htotal]
    rcases survivors?_eq bound (copies times items) with hkept | ⟨hkept, hroom⟩
    · have hbuilt := @cycleTake_eq_window α bound items times _ rfl
      rw [hkept, Option.bind_eq_bind, Option.bind_some, hbuilt]
      by_cases hroom : slotLimit < (window bound (copies times items)).length
      · rw [if_pos hroom, if_neg (by omega)]
        rfl
      · rw [if_neg hroom, if_pos (by omega)]
    · rw [hkept, if_neg (by omega)]
      rfl

end EvictingDeque.Deque
