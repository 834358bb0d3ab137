import EvictingDeque.Text.Quoted

set_option autoImplicit false

/-!
# Where numerals and quoted texts end

A numeral ends in front of the first character that is neither a digit nor a sign, a quoted text with the first double
quote that no backslash precedes. Whatever stands behind them, both can be told from it, and what is quoted can be read
back one character at a time.
-/
namespace EvictingDeque.Text

/-- Two runs of characters of one kind, each up to a character that is not of the kind. -/
theorem run_append_inj {p : Char → Bool} {xs ys rest others : List Char} (hxs : ∀ c ∈ xs, p c = true)
    (hys : ∀ c ∈ ys, p c = true) (hrest : ∀ c ∈ rest.head?, p c = false) (hothers : ∀ c ∈ others.head?, p c = false)
    (h : xs ++ rest = ys ++ others) : xs = ys ∧ rest = others := by
  have hstops {zs : List Char} (hzs : ∀ c ∈ zs.head?, p c = false) : zs.takeWhile p = [] := by
    cases zs with
    | nil => rfl
    | cons c zs => exact List.takeWhile_cons_of_neg (Bool.eq_false_iff.1 (hzs c rfl))
  have hsame : xs = ys := by
    have htaken := congrArg (List.takeWhile p) h
    rwa [List.takeWhile_append_of_pos hxs, List.takeWhile_append_of_pos hys, hstops hrest, hstops hothers,
      List.append_nil, List.append_nil] at htaken
  subst hsame
  exact ⟨rfl, List.append_cancel_left h⟩

/-! Numerals -/

def isNumeral (c : Char) : Bool := c.isDigit || c == '-'

/-- What follows does not continue a numeral. -/
def Stops (rest : List Char) : Prop := ∀ c ∈ rest.head?, isNumeral c = false

theorem isDigit_of_mem_nat {n : Nat} {c : Char} (h : c ∈ (toString n).toList) : c.isDigit = true := by
  rw [Nat.toString_eq_ofList_toDigits, String.toList_ofList] at h
  exact Nat.isDigit_of_mem_toDigits (by decide) (by decide) h

theorem isNumeral_of_isDigit {c : Char} (h : c.isDigit = true) : isNumeral c = true := by simp [isNumeral, h]

/-- A sign in front of negative numbers only. -/
theorem toList_int (n : Int) :
    (toString n).toList =
      if 0 ≤ n then (toString n.toNat).toList else '-' :: (toString (-n).toNat).toList := by
  change n.repr.toList = _
  rw [Int.repr_eq_if]
  split <;> simp [String.toList_append]

theorem isNumeral_of_mem_int {n : Int} {c : Char} (h : c ∈ (toString n).toList) : isNumeral c = true := by
  rw [toList_int] at h
  split at h
  · exact isNumeral_of_isDigit (isDigit_of_mem_nat h)
  · rcases List.mem_cons.1 h with rfl | hdigit
    · rfl
    · exact isNumeral_of_isDigit (isDigit_of_mem_nat hdigit)

theorem toList_nat_inj {m n : Nat} (h : (toString m).toList = (toString n).toList) : m = n := by
  rw [Nat.toString_eq_ofList_toDigits, Nat.toString_eq_ofList_toDigits, String.toList_ofList, String.toList_ofList] at h
  have hread := congrArg (Nat.ofDigitChars 10 · 0) h
  simpa only [Nat.ofDigitChars_ten_toDigits] using hread

theorem toList_nat_ne_sign {m : Nat} {rest : List Char} : (toString m).toList ≠ '-' :: rest := by
  intro h
  have hsign : '-' ∈ (toString m).toList := h ▸ List.mem_cons_self
  exact absurd (isDigit_of_mem_nat hsign) (by decide)

theorem toList_int_inj {m n : Int} (h : (toString m).toList = (toString n).toList) : m = n := by
  rw [toList_int, toList_int] at h
  split at h <;> split at h
  · have hsame := toList_nat_inj h
    omega
  · exact absurd h toList_nat_ne_sign
  · exact absurd h.symm toList_nat_ne_sign
  · have hsame := toList_nat_inj (List.cons.inj h).2
    omega

theorem nat_append_inj {m n : Nat} {rest others : List Char} (hrest : Stops rest) (hothers : Stops others)
    (h : (toString m).toList ++ rest = (toString n).toList ++ others) : m = n ∧ rest = others := by
  have hdigits {n : Nat} : ∀ c ∈ (toString n).toList, isNumeral c = true := fun _ hc =>
    isNumeral_of_isDigit (isDigit_of_mem_nat hc)
  obtain ⟨htext, hsame⟩ := run_append_inj hdigits hdigits hrest hothers h
  exact ⟨toList_nat_inj htext, hsame⟩

theorem int_append_inj {m n : Int} {rest others : List Char} (hrest : Stops rest) (hothers : Stops others)
    (h : (toString m).toList ++ rest = (toString n).toList ++ others) : m = n ∧ rest = others := by
  obtain ⟨htext, hsame⟩ :=
    run_append_inj (fun _ => isNumeral_of_mem_int) (fun _ => isNumeral_of_mem_int) hrest hothers h
  exact ⟨toList_int_inj htext, hsame⟩

/-! Codes in hexadecimal digits -/

def digitValue (c : Char) : Nat := if c.isDigit then c.toNat - '0'.toNat else c.toNat - 'a'.toNat + 10

def codeOf (digits : List Char) : Nat := digits.foldl (fun code c => 16 * code + digitValue c) 0

theorem digitValue_digitChar {digit : Nat} (h : digit < 16) : digitValue digit.digitChar = digit := by
  have hall : ∀ digit < 16, digitValue (Nat.digitChar digit) = digit := by decide
  exact hall digit h

theorem codeOf_hexadecimal (code : Nat) : codeOf (hexadecimal code) = code := by
  induction code using Nat.strongRecOn with
  | ind code ih =>
    unfold hexadecimal
    rw [Nat.toDigits_eq_if (by decide)]
    split
    · rename_i hsmall
      simpa [codeOf] using digitValue_digitChar hsmall
    · have hquotient := ih (code / 16) (Nat.div_lt_self (by omega) (by decide))
      have hdigit := digitValue_digitChar (Nat.mod_lt code (by decide : 0 < 16))
      unfold codeOf hexadecimal at hquotient
      rw [codeOf, List.foldl_append, hquotient, List.foldl_cons, List.foldl_nil, hdigit]
      exact Nat.div_add_mod code 16

theorem brace_not_mem_hexadecimal (code : Nat) : '\x7d' ∉ hexadecimal code := by
  induction code using Nat.strongRecOn with
  | ind code ih =>
    unfold hexadecimal
    rw [Nat.toDigits_eq_if (by decide)]
    split
    · exact fun h => Nat.digitChar_ne '\x7d' rfl (List.mem_singleton.1 h).symm
    · rename_i hlarge
      have hquotient : '\x7d' ∉ Nat.toDigits 16 (code / 16) := ih _ (Nat.div_lt_self (by omega) (by decide))
      rw [List.mem_append, not_or]
      exact ⟨hquotient, fun h => Nat.digitChar_ne '\x7d' rfl (List.mem_singleton.1 h).symm⟩

/-! Quoted texts -/

/-- The first character that is meant, and what stands behind it; nothing at the closing quote. -/
def unescape? : List Char → Option (Char × List Char)
  | '\\' :: 'u' :: '\x7b' :: rest =>
    some (Char.ofNat (codeOf (rest.takeWhile (· ≠ '\x7d'))), (rest.dropWhile (· ≠ '\x7d')).tail)
  | '\\' :: 't' :: rest => some ('\t', rest)
  | '\\' :: 'n' :: rest => some ('\n', rest)
  | '\\' :: 'r' :: rest => some ('\r', rest)
  | '\\' :: '0' :: rest => some ('\x00', rest)
  | '\\' :: c :: rest => some (c, rest)
  | c :: rest => if c = '"' then none else some (c, rest)
  | [] => none

theorem unescape?_escaped (c : Char) (rest : List Char) : unescape? (escaped c ++ rest) = some (c, rest) := by
  unfold escaped
  split
  · subst c
    rfl
  split
  · subst c
    rfl
  split
  · subst c
    rfl
  split
  · subst c
    rfl
  split
  · subst c
    rfl
  split
  · subst c
    rfl
  split
  · rename_i hquote hbackslash _ _ _ _ _
    simp [unescape?, hquote, hbackslash]
  · have hdigits : ∀ digit ∈ hexadecimal c.toNat, decide (digit ≠ '\x7d') = true := fun digit hd =>
      decide_eq_true fun he => brace_not_mem_hexadecimal c.toNat (he ▸ hd)
    have htaken : (hexadecimal c.toNat ++ '\x7d' :: rest).takeWhile (· ≠ '\x7d') = hexadecimal c.toNat := by
      rw [List.takeWhile_append_of_pos hdigits]
      simp
    have hdropped : (hexadecimal c.toNat ++ '\x7d' :: rest).dropWhile (· ≠ '\x7d') = '\x7d' :: rest := by
      rw [List.dropWhile_append_of_pos hdigits]
      simp
    simp only [List.append_assoc, List.cons_append, List.nil_append, unescape?, htaken, hdropped, codeOf_hexadecimal,
      Char.ofNat_toNat, List.tail_cons]

/-- The texts between the quotes are told from what follows the closing one. -/
theorem quotedChars_append_inj {xs ys rest others : List Char} (h : quotedChars xs ++ rest = quotedChars ys ++ others) :
    xs = ys ∧ rest = others := by
  have hbodies : xs.flatMap escaped ++ '"' :: rest = ys.flatMap escaped ++ '"' :: others := by
    simpa [quotedChars] using h
  clear h
  induction xs generalizing ys with
  | nil =>
    cases ys with
    | nil => simpa using hbodies
    | cons y ys =>
      have hread := congrArg unescape? hbodies
      rw [List.flatMap_cons, List.append_assoc, unescape?_escaped] at hread
      cases hread
  | cons x xs ih =>
    have hread := congrArg unescape? hbodies
    rw [List.flatMap_cons, List.append_assoc, unescape?_escaped] at hread
    cases ys with
    | nil => cases hread
    | cons y ys =>
      rw [List.flatMap_cons, List.append_assoc, unescape?_escaped] at hread
      obtain ⟨rfl, hmore⟩ := Prod.mk.inj (Option.some.inj hread)
      obtain ⟨rfl, hsame⟩ := ih hmore
      exact ⟨rfl, hsame⟩

end EvictingDeque.Text
