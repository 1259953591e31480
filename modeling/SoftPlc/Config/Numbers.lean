/-
# Numbers in the configuration

Two functions turn text into a number: `parse_u32` for the fields of the scanner's
device table and `plc_cfg_u32` for a setting. Both hand the text to `strtoul` and then
look at what it returned, so neither sees the integer that was written. Here the integer
is read independently, as a signed numeral, and compared with the number the program
goes on with.

`strtoul` takes a negative numeral modulo the word. One just above minus two to the
sixty-four therefore comes back small and positive, passes every later check, and is
stored: `-18446744073709551615` is a timeout multiplier of one.
-/

import SoftPlc.Config.Parser
import SoftPlc.Math.Numeral
import SoftPlc.Scanner.Config

namespace SoftPlc.Config

open SoftPlc.Math SoftPlc.Scanner

/-- `plc_cfg_u32`, in an environment. -/
def plcCfgU32 (env : List Char → Option (List Char)) (table : List Entry) (key : List Char)
    (fallback : UInt32) : UInt32 :=
  match plcCfgStr env table key none with
  | none => fallback
  | some text =>
      match strtoul text with
      | none => fallback
      | some (number, rest) =>
          if strtoulErange text ∨ number = 0 ∨ 0xFFFFFFFF < number then fallback
          else if rest.dropWhile isBreak ≠ [] then fallback
          else UInt32.ofNat number

/-! ## What an accepted number should mean -/

/-- A token that is accepted denotes the number that is stored. -/
def TokenDenotes (token : List Char) (max : ℕ) : Prop :=
  ∀ stored, parseU32 token max = some stored → numeralValue token = some (stored : ℤ)

/-- A text without the white space around it. -/
def stripped (text : List Char) : List Char := (text.dropWhile isSpace).rdropWhile isSpace

/-- A setting that is used denotes the number that is returned. -/
def SettingDenotes (env : List Char → Option (List Char)) (table : List Entry)
    (key : List Char) (fallback : UInt32) : Prop :=
  plcCfgU32 env table key fallback ≠ fallback →
    ∃ text, plcCfgStr env table key none = some text ∧
      numeralValue (stripped text) = some ((plcCfgU32 env table key fallback).toNat : ℤ)

/-- The tokens that are accepted as another number: a negative one that comes back
within the bound, and, if the bound lets it through, one that does not fit a word or not
the field; or white space before a number, which is not part of a numeral. -/
def MisreadToken (token : List Char) (max : ℕ) : Prop :=
  ∃ written, numeralValue (token.dropWhile isSpace) = some written ∧
    ((-2 ^ 64 < written ∧ written < 0 ∧ written + 2 ^ 64 ≤ max) ∨
      (2 ^ 64 ≤ written.natAbs ∧ 2 ^ 64 - 1 ≤ max) ∨
      (2 ^ 32 ≤ written ∧ written < 2 ^ 64 ∧ written ≤ max) ∨
      (token.dropWhile isSpace ≠ token ∧ 0 ≤ written ∧ written ≤ max))

/-- The settings that are used as another number: a negative one that comes back as a
`uint32_t`, unless as the fallback. -/
def MisreadSetting (env : List Char → Option (List Char)) (table : List Entry)
    (key : List Char) (fallback : UInt32) : Prop :=
  ∃ text written, plcCfgStr env table key none = some text ∧
    numeralValue ((text.dropWhile isSpace).rdropWhile isBreak) = some written ∧
    -2 ^ 64 < written ∧ written + 2 ^ 64 ≤ 0xFFFFFFFF ∧ written + 2 ^ 64 ≠ fallback.toNat

/-! ## Tokens -/

theorem parseU32_eq_some {token : List Char} {max stored : ℕ} :
    parseU32 token max = some stored ↔
      ∃ written, numeralValue (token.dropWhile isSpace) = some written ∧
        toUlong written ≤ max ∧ stored = toUlong written % 2 ^ 32 := by
  unfold parseU32
  constructor
  · intro hparse
    split at hparse
    · cases hparse
    · next number rest hread =>
        split_ifs at hparse with hrefused
        rw [not_or, not_not, not_lt] at hrefused
        obtain ⟨rfl, hmax⟩ := hrefused
        obtain ⟨numeral, written, hbegins, rfl⟩ := strtoul_eq_some.mp hread
        exact ⟨written, (begins_nil.mp hbegins).2, hmax, (Option.some_inj.mp hparse).symm⟩
  · rintro ⟨written, hwritten, hmax, rfl⟩
    have hread : strtoul token = some (toUlong written, []) :=
      strtoul_eq_some.mpr ⟨_, written, begins_nil.mpr ⟨rfl, hwritten⟩, rfl⟩
    simp [hread, hmax]

theorem tokenDenotes_iff (token : List Char) (max : ℕ) :
    TokenDenotes token max ↔ ¬ MisreadToken token max := by
  unfold TokenDenotes MisreadToken
  simp only [parseU32_eq_some]
  constructor
  · rintro hdenotes ⟨written, hwritten, hkind⟩
    have hulong := toUlong_cases written
    have hmax : toUlong written ≤ max := by omega
    have hnumeral := hdenotes _ ⟨written, hwritten, hmax, rfl⟩
    rw [dropWhile_isSpace_of_numeralValue hnumeral] at hwritten hkind
    have hsame := Option.some_inj.mp (hwritten.symm.trans hnumeral)
    rcases hkind with hkind | hkind | hkind | hkind
    · omega
    · omega
    · omega
    · exact hkind.1 rfl
  · rintro hread stored ⟨written, hwritten, hmax, rfl⟩
    have hulong := toUlong_cases written
    have hkept : written = (toUlong written % 2 ^ 32 : ℕ) := by
      by_contra hother
      apply hread ⟨written, hwritten, _⟩
      rw [← or_assoc, ← or_assoc]
      exact .inl (by omega)
    have hspace : token.dropWhile isSpace = token := by
      by_contra hspace
      exact hread ⟨written, hwritten, .inr (.inr (.inr ⟨hspace, by omega⟩))⟩
    rw [← hspace, hwritten, ← hkept]

/-! ## Settings -/

/-- The blanks that may follow a number are white space, and none of them is a digit. -/
theorem isSpace_of_isBreak {char : Char} (hbreak : isBreak char = true) : isSpace char = true := by
  simp only [isBreak, Bool.or_eq_true, beq_iff_eq] at hbreak
  rcases hbreak with rfl | rfl <;> rfl

theorem isSpace_of_isDigit {char : Char} (hdigit : char.isDigit = true) :
    isSpace char = false := by
  by_contra hspace
  simp only [isSpace, Bool.not_eq_false, Bool.or_eq_true, beq_iff_eq] at hspace
  rcases hspace with ((((rfl | rfl) | rfl) | rfl) | rfl) | rfl <;> cases hdigit

theorem isBreak_of_isDigit {char : Char} (hdigit : char.isDigit = true) :
    isBreak char = false := by
  by_contra hbreak
  rw [Bool.not_eq_false] at hbreak
  exact absurd (isSpace_of_isBreak hbreak) (by rw [isSpace_of_isDigit hdigit]; decide)

/-- A configured text that is taken for a number: the numeral it begins with, behind
white space, is in range and only blanks follow. -/
structure Usable (text rest : List Char) (written : ℤ) : Prop where
  begins : ∃ number, Begins (text.dropWhile isSpace) number rest written
  fits : written.natAbs < 2 ^ 64
  ne_zero : toUlong written ≠ 0
  le_max : toUlong written ≤ 0xFFFFFFFF
  blanks : ∀ char ∈ rest, isBreak char = true

theorem plcCfgU32_of_usable {env : List Char → Option (List Char)} {table : List Entry}
    {key text rest : List Char} {written : ℤ} (htext : plcCfgStr env table key none = some text)
    (husable : Usable text rest written) (fallback : UInt32) :
    (plcCfgU32 env table key fallback).toNat = toUlong written := by
  obtain ⟨number, hbegins⟩ := husable.begins
  have hread : strtoul text = some (toUlong written, rest) :=
    strtoul_eq_some.mpr ⟨number, written, hbegins, rfl⟩
  have hchecks : ¬ (strtoulErange text ∨ toUlong written = 0 ∨ 0xFFFFFFFF < toUlong written) := by
    rw [hbegins.strtoulErange_iff]
    have hfits := husable.fits
    have hzero := husable.ne_zero
    have hmax := husable.le_max
    omega
  have hblanks : rest.dropWhile isBreak = [] := List.dropWhile_eq_nil_iff.mpr husable.blanks
  simp only [plcCfgU32, htext, hread, if_neg hchecks, hblanks, ne_eq, not_true_eq_false, if_false]
  rw [UInt32.toNat_ofNat', Nat.mod_eq_of_lt (Nat.lt_succ_of_le husable.le_max)]

/-- A number other than the fallback comes from a usable text. -/
theorem usable_of_plcCfgU32_ne {env : List Char → Option (List Char)} {table : List Entry}
    {key : List Char} {fallback : UInt32}
    (hused : plcCfgU32 env table key fallback ≠ fallback) :
    ∃ text rest written, plcCfgStr env table key none = some text ∧
      Usable text rest written := by
  unfold plcCfgU32 at hused
  split at hused
  · exact absurd rfl hused
  · next text htext =>
      split at hused
      · exact absurd rfl hused
      · next number rest hread =>
          obtain ⟨numeral, written, hbegins, rfl⟩ := strtoul_eq_some.mp hread
          split_ifs at hused with hchecks hblanks
          · exact absurd rfl hused
          · exact absurd rfl hused
          · rw [hbegins.strtoulErange_iff] at hchecks
            rw [not_not, List.dropWhile_eq_nil_iff] at hblanks
            exact ⟨text, rest, written, htext, ⟨numeral, hbegins⟩, by omega, by omega, by omega,
              hblanks⟩

/-- Without its blanks, a usable text is the numeral. -/
theorem Usable.numeralValue_eq {text rest : List Char} {written : ℤ}
    (h : Usable text rest written) {isTail : Char → Bool}
    (hbreak : ∀ char, isBreak char = true → isTail char = true)
    (hdigit : ∀ char, char.isDigit = true → isTail char = false) :
    numeralValue ((text.dropWhile isSpace).rdropWhile isTail) = some written := by
  obtain ⟨number, hbegins⟩ := h.begins
  rw [hbegins.rdropWhile_eq (fun char hchar => hbreak char (h.blanks char hchar)) hdigit]
  exact hbegins.value_eq

/-- A numeral between white space and blanks can be used if its value can. -/
theorem usable_of_numeralValue {text : List Char} {written : ℤ}
    (hnumeral : numeralValue ((text.dropWhile isSpace).rdropWhile isBreak) = some written)
    (hfits : written.natAbs < 2 ^ 64) (hzero : toUlong written ≠ 0)
    (hmax : toUlong written ≤ 0xFFFFFFFF) :
    Usable text ((text.dropWhile isSpace).rtakeWhile isBreak) written := by
  refine ⟨⟨_, List.rdropWhile_append_rtakeWhile.symm, hnumeral, ?_⟩, hfits, hzero, hmax,
    fun char hchar => List.mem_rtakeWhile_imp hchar⟩
  intro char hchar
  by_contra hdigit
  have hbreak := List.mem_rtakeWhile_imp (List.mem_of_mem_head? hchar)
  rw [isBreak_of_isDigit (Bool.not_eq_false _ ▸ hdigit)] at hbreak
  exact Bool.false_ne_true hbreak

theorem settingDenotes_iff (env : List Char → Option (List Char)) (table : List Entry)
    (key : List Char) (fallback : UInt32) :
    SettingDenotes env table key fallback ↔ ¬ MisreadSetting env table key fallback := by
  constructor
  · rintro hdenotes ⟨text, written, htext, hnumeral, hlow, hhigh, hfallback⟩
    have hulong := toUlong_cases written
    have husable := usable_of_numeralValue hnumeral (by omega) (by omega) (by omega)
    have hresult := plcCfgU32_of_usable htext husable fallback
    have hused : plcCfgU32 env table key fallback ≠ fallback := by
      intro hsame
      rw [hsame] at hresult
      omega
    obtain ⟨other, hother, hvalue⟩ := hdenotes hused
    cases htext.symm.trans hother
    rw [stripped, husable.numeralValue_eq (fun _ => isSpace_of_isBreak)
      (fun _ => isSpace_of_isDigit), Option.some_inj] at hvalue
    omega
  · intro hread hused
    obtain ⟨text, rest, written, htext, husable⟩ := usable_of_plcCfgU32_ne hused
    have hresult := plcCfgU32_of_usable htext husable fallback
    have hfits := husable.fits
    have hmax := husable.le_max
    refine ⟨text, htext, ?_⟩
    rw [stripped, husable.numeralValue_eq (fun _ => isSpace_of_isBreak)
      (fun _ => isSpace_of_isDigit), hresult, Option.some_inj]
    rcases toUlong_cases written with hkept | hshifted | hlarge
    · exact hkept.2.2.symm
    · exfalso
      apply hread ⟨text, written, htext, husable.numeralValue_eq (fun _ => id)
        (fun _ => isBreak_of_isDigit), hshifted.1, by omega, _⟩
      intro hsame
      apply hused
      apply UInt32.toNat_inj.mp
      omega
    · omega

/-- **Accepted numbers.** A token or a setting stands for the number the program goes on
with, unless it is one of those that are taken for another. -/
theorem accepted_numbers_iff (token : List Char) (max : ℕ)
    (env : List Char → Option (List Char)) (table : List Entry) (key : List Char)
    (fallback : UInt32) :
    (TokenDenotes token max ↔ ¬ MisreadToken token max) ∧
      (SettingDenotes env table key fallback ↔ ¬ MisreadSetting env table key fallback) :=
  ⟨tokenDenotes_iff token max, settingDenotes_iff env table key fallback⟩

/-- A numeral just above minus two to the sixty-four. -/
def nearWrap : List Char := "-18446744073709551615".toList

/-- An environment that holds it. -/
def nearWrapEnv : List Char → Option (List Char) := fun _ => some nearWrap

/-- It is accepted as a timeout multiplier and as a cycle time, and both times as one. -/
theorem nearWrap_misread :
    (parseU32 nearWrap 7 = some 1 ∧ ¬ TokenDenotes nearWrap 7) ∧
      plcCfgU32 nearWrapEnv [] "SOFTPLC_CYCLE_US".toList 10000 = 1 ∧
      ¬ SettingDenotes nearWrapEnv [] "SOFTPLC_CYCLE_US".toList 10000 := by
  have htoken : parseU32 nearWrap 7 = some 1 := by decide +kernel
  have hsetting : plcCfgU32 nearWrapEnv [] "SOFTPLC_CYCLE_US".toList 10000 = 1 := by
    decide +kernel
  refine ⟨⟨htoken, fun hdenotes => ?_⟩, hsetting, fun hdenotes => ?_⟩
  · exact absurd (hdenotes 1 htoken) (by decide +kernel)
  · obtain ⟨text, htext, hvalue⟩ := hdenotes (by rw [hsetting]; decide)
    have hnear : plcCfgStr nearWrapEnv [] "SOFTPLC_CYCLE_US".toList none = some nearWrap := by
      decide +kernel
    cases hnear.symm.trans htext
    rw [hsetting] at hvalue
    exact absurd hvalue (by decide +kernel)

end SoftPlc.Config
