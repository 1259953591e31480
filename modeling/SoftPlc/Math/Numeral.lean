/-
# Signed decimal numerals and `strtoul`

A numeral is an optional sign and at least one digit. `strtoul` skips white space, takes
the longest numeral that follows, and gives its value as a 64-bit `unsigned long`. What
it returns is determined by the integer that was written, but it is that integer only
between zero and `ULONG_MAX`: a negative one is taken modulo the word, and one that is
too large in either direction gives `ULONG_MAX` and `ERANGE`.
-/

import SoftPlc.Math.Parse
import Mathlib.Data.List.DropRight

namespace SoftPlc.Math

/-- Whether a text begins with a minus sign, and what follows its sign. -/
def splitSign : List Char → Bool × List Char
  | '-' :: rest => (true, rest)
  | '+' :: rest => (false, rest)
  | rest => (false, rest)

/-- A size with its sign. -/
def signed (negative : Bool) (size : ℕ) : ℤ := if negative then -size else size

/-- The integer that a numeral denotes: an optional sign, digits and nothing else. -/
def numeralValue (text : List Char) : Option ℤ :=
  let (negative, digits) := splitSign text
  if digits ≠ [] ∧ digits.all Char.isDigit then some (signed negative (decimalValue digits))
  else none

/-- The `unsigned long` that `strtoul` makes of an integer. -/
def toUlong (number : ℤ) : ℕ :=
  if 2 ^ 64 ≤ number.natAbs then 2 ^ 64 - 1 else (number % 2 ^ 64).toNat

/-- `strtoul` sets `errno` to `ERANGE`. -/
def strtoulErange (text : List Char) : Prop :=
  2 ^ 64 ≤ decimalValue ((splitSign (text.dropWhile isSpace)).2.takeWhile Char.isDigit)

instance (text : List Char) : Decidable (strtoulErange text) :=
  inferInstanceAs (Decidable (_ ≤ _))

/-! ## Signs -/

theorem splitSign_append {number : List Char} (hnumber : number ≠ []) (rest : List Char) :
    splitSign (number ++ rest) = ((splitSign number).1, (splitSign number).2 ++ rest) := by
  cases number with
  | nil => exact absurd rfl hnumber
  | cons first others =>
      by_cases hminus : first = '-'
      · rw [hminus]
        rfl
      · by_cases hplus : first = '+'
        · rw [hplus]
          rfl
        · simp [splitSign, hminus, hplus]

/-- A text that begins with a digit has no sign. -/
theorem splitSign_of_isDigit {digit : Char} (hdigit : digit.isDigit = true) (rest : List Char) :
    splitSign (digit :: rest) = (false, digit :: rest) := by
  have hminus : digit ≠ '-' := by
    rintro rfl
    exact absurd hdigit (by decide)
  have hplus : digit ≠ '+' := by
    rintro rfl
    exact absurd hdigit (by decide)
  simp [splitSign, hminus, hplus]

/-- The sign of a text can stand before any digits. -/
theorem exists_sign (text : List Char) :
    ∃ sign, text = sign ++ (splitSign text).2 ∧
      ∀ digits, digits ≠ [] → digits.all Char.isDigit = true →
        splitSign (sign ++ digits) = ((splitSign text).1, digits) := by
  unfold splitSign
  split
  · exact ⟨['-'], rfl, fun _ _ _ => rfl⟩
  · exact ⟨['+'], rfl, fun _ _ _ => rfl⟩
  · refine ⟨[], rfl, fun digits hne hdigits => ?_⟩
    cases digits with
    | nil => exact absurd rfl hne
    | cons digit rest =>
        rw [List.all_cons, Bool.and_eq_true] at hdigits
        exact splitSign_of_isDigit hdigits.1 rest

/-! ## Numerals -/

theorem numeralValue_eq_some {number : List Char} {value : ℤ} :
    numeralValue number = some value ↔ (splitSign number).2 ≠ [] ∧
      (splitSign number).2.all Char.isDigit = true ∧
      signed (splitSign number).1 (decimalValue (splitSign number).2) = value := by
  unfold numeralValue
  dsimp only
  split_ifs with hdigits
  · rw [Option.some_inj]
    tauto
  · tauto

/-- No digit follows. -/
def NoDigit (rest : List Char) : Prop := ∀ char ∈ rest.head?, char.isDigit = false

/-- The longest run of digits. -/
theorem takeWhile_dropWhile_isDigit {digits rest : List Char}
    (hdigits : digits.all Char.isDigit = true) (hrest : NoDigit rest) :
    (digits ++ rest).takeWhile Char.isDigit = digits ∧
      (digits ++ rest).dropWhile Char.isDigit = rest := by
  rw [List.all_eq_true] at hdigits
  rw [List.takeWhile_append_of_pos hdigits, List.dropWhile_append_of_pos hdigits]
  cases rest with
  | nil => exact ⟨List.append_nil digits, rfl⟩
  | cons char others =>
      have hchar : char.isDigit = false := hrest char rfl
      simp [hchar]

/-- A text that begins with a numeral, which no digit follows. -/
structure Begins (text number rest : List Char) (value : ℤ) : Prop where
  text_eq : text = number ++ rest
  value_eq : numeralValue number = some value
  ends : NoDigit rest

/-- Its digits are the longest run behind its sign. -/
theorem Begins.digits {text number rest : List Char} {value : ℤ}
    (h : Begins text number rest value) :
    (splitSign text).2.takeWhile Char.isDigit ≠ [] ∧
      (splitSign text).2.dropWhile Char.isDigit = rest ∧
      signed (splitSign text).1 (decimalValue ((splitSign text).2.takeWhile Char.isDigit)) =
        value := by
  obtain ⟨hne, hdigits, hvalue⟩ := numeralValue_eq_some.mp h.value_eq
  have hnumber : number ≠ [] := by
    rintro rfl
    exact hne rfl
  rw [h.text_eq, splitSign_append hnumber]
  obtain ⟨htake, hdrop⟩ := takeWhile_dropWhile_isDigit hdigits h.ends
  rw [htake, hdrop]
  exact ⟨hne, rfl, hvalue⟩

/-- A text whose sign is followed by digits begins with a numeral. -/
theorem begins_of_digits {text : List Char}
    (hne : (splitSign text).2.takeWhile Char.isDigit ≠ []) :
    ∃ number, Begins text number ((splitSign text).2.dropWhile Char.isDigit)
      (signed (splitSign text).1
        (decimalValue ((splitSign text).2.takeWhile Char.isDigit))) := by
  obtain ⟨sign, htext, hsplit⟩ := exists_sign text
  have hdigits := List.all_takeWhile (p := Char.isDigit) (l := (splitSign text).2)
  refine ⟨sign ++ (splitSign text).2.takeWhile Char.isDigit, ?_, ?_, ?_⟩
  · rw [List.append_assoc, List.takeWhile_append_dropWhile]
    exact htext
  · rw [numeralValue_eq_some, hsplit _ hne hdigits]
    exact ⟨hne, hdigits, rfl⟩
  · intro char hchar
    have hhead := List.head?_dropWhile_not Char.isDigit (splitSign text).2
    rw [Option.mem_def.mp hchar] at hhead
    exact hhead

/-- A numeral with nothing behind it. -/
theorem begins_nil {text number : List Char} {value : ℤ} :
    Begins text number [] value ↔ text = number ∧ numeralValue text = some value := by
  constructor
  · rintro ⟨htext, hvalue, -⟩
    rw [List.append_nil] at htext
    exact ⟨htext, htext ▸ hvalue⟩
  · rintro ⟨rfl, hvalue⟩
    exact ⟨(List.append_nil text).symm, hvalue, fun _ hchar => by cases hchar⟩

/-- A numeral does not begin with white space. -/
theorem dropWhile_isSpace_of_numeralValue {number : List Char} {value : ℤ}
    (hvalue : numeralValue number = some value) : number.dropWhile isSpace = number := by
  cases number with
  | nil => rfl
  | cons first rest =>
      have hspace : isSpace first = false := by
        by_contra hspace
        simp only [isSpace, Bool.not_eq_false, Bool.or_eq_true, beq_iff_eq] at hspace
        rcases hspace with ((((rfl | rfl) | rfl) | rfl) | rfl) | rfl <;>
          exact absurd (numeralValue_eq_some.mp hvalue).2.1 (by simp [splitSign, Char.isDigit])
      exact List.dropWhile_cons_of_neg (by rw [hspace]; exact Bool.false_ne_true)

/-- A numeral ends with a digit. -/
theorem exists_concat_of_numeralValue {number : List Char} {value : ℤ}
    (hvalue : numeralValue number = some value) :
    ∃ front digit, number = front ++ [digit] ∧ digit.isDigit = true := by
  obtain ⟨hne, hdigits, -⟩ := numeralValue_eq_some.mp hvalue
  obtain ⟨sign, hnumber, -⟩ := exists_sign number
  obtain ⟨front, digit, hlast⟩ := (List.eq_nil_or_concat (splitSign number).2).resolve_left hne
  rw [List.concat_eq_append] at hlast
  refine ⟨sign ++ front, digit, ?_, ?_⟩
  · rw [List.append_assoc, ← hlast]
    exact hnumber
  · apply List.all_eq_true.mp hdigits
    simp [hlast]

/-- Cutting off what follows a numeral leaves the numeral. -/
theorem Begins.rdropWhile_eq {text number rest : List Char} {value : ℤ}
    (h : Begins text number rest value) {isTail : Char → Bool}
    (hrest : ∀ char ∈ rest, isTail char = true)
    (hdigit : ∀ char, char.isDigit = true → isTail char = false) :
    text.rdropWhile isTail = number := by
  obtain ⟨front, digit, rfl, hlast⟩ := exists_concat_of_numeralValue h.value_eq
  have hreverse : ∀ char ∈ rest.reverse, isTail char = true := fun char hchar =>
    hrest char (List.mem_reverse.mp hchar)
  rw [h.text_eq, List.rdropWhile, List.reverse_append, List.dropWhile_append_of_pos hreverse,
    ← List.rdropWhile]
  apply List.rdropWhile_concat_neg
  rw [hdigit digit hlast]
  exact Bool.false_ne_true

/-! ## The value of `strtoul` -/

/-- An integer is kept, shifted by the word, or too large in either direction. -/
theorem toUlong_cases (number : ℤ) :
    (0 ≤ number ∧ number < 2 ^ 64 ∧ (toUlong number : ℤ) = number) ∨
      (-2 ^ 64 < number ∧ number < 0 ∧ (toUlong number : ℤ) = number + 2 ^ 64) ∨
      (2 ^ 64 ≤ number.natAbs ∧ toUlong number = 2 ^ 64 - 1) := by
  unfold toUlong
  split_ifs <;> omega

theorem toUlong_signed (negative : Bool) (size : ℕ) :
    toUlong (signed negative size) = if 2 ^ 64 ≤ size then 2 ^ 64 - 1
      else if negative then (2 ^ 64 - size) % 2 ^ 64 else size := by
  unfold toUlong signed
  cases negative with
  | false =>
      simp only [Bool.false_eq_true, if_false, Int.natAbs_natCast]
      split_ifs
      · rfl
      · omega
  | true =>
      simp only [if_true, Int.natAbs_neg, Int.natAbs_natCast]
      split_ifs
      · rfl
      · omega

theorem strtoul_eq (text : List Char) :
    strtoul text =
      if (splitSign (text.dropWhile isSpace)).2.takeWhile Char.isDigit = [] then none
      else some
        (toUlong (signed (splitSign (text.dropWhile isSpace)).1
          (decimalValue ((splitSign (text.dropWhile isSpace)).2.takeWhile Char.isDigit))),
          (splitSign (text.dropWhile isSpace)).2.dropWhile Char.isDigit) := by
  rw [toUlong_signed]
  change (if (splitSign _).2.takeWhile _ = [] then none
    else if 2 ^ 64 ≤ decimalValue ((splitSign _).2.takeWhile _) then _ else _) = _
  split
  · rfl
  · split <;> rfl

/-- **What `strtoul` reads.** The numeral behind the white space, as an `unsigned
long`, and what follows it. -/
theorem strtoul_eq_some {text rest : List Char} {value : ℕ} :
    strtoul text = some (value, rest) ↔
      ∃ number integer, Begins (text.dropWhile isSpace) number rest integer ∧
        value = toUlong integer := by
  rw [strtoul_eq]
  constructor
  · intro hread
    split_ifs at hread with hne
    cases hread
    obtain ⟨number, hbegins⟩ := begins_of_digits hne
    exact ⟨number, _, hbegins, rfl⟩
  · rintro ⟨number, integer, hbegins, rfl⟩
    obtain ⟨hne, hrest, hvalue⟩ := hbegins.digits
    rw [if_neg hne, hrest, hvalue]

theorem Begins.strtoulErange_iff {text number rest : List Char} {value : ℤ}
    (h : Begins (text.dropWhile isSpace) number rest value) :
    strtoulErange text ↔ 2 ^ 64 ≤ value.natAbs := by
  obtain ⟨-, -, hvalue⟩ := h.digits
  rw [← hvalue, strtoulErange, signed]
  split_ifs <;> simp

end SoftPlc.Math
