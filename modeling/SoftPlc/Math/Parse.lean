/-
# Line-based parsing with the C string functions

A text is the list of its characters up to the terminating NUL. This module has
the library calls a hand-written C parser is made of, `strtok` and `strtoul`, and
the loop around them: one line at a time, numbered from one, stopping at the
first line that is refused. What each accepted line preserves, an accepted text
preserves.
-/

import Mathlib.Algebra.Order.Ring.Nat
import Mathlib.Data.List.Basic

namespace SoftPlc.Math

universe u v

variable {σ : Type u} {ε : Type v}

/-- The lines of a text. A final newline ends the last line and starts no other. -/
def textLines : List Char → List (List Char)
  | [] => []
  | char :: rest =>
      if char = '\n' then [] :: textLines rest
      else
        match textLines rest with
        | [] => [[char]]
        | line :: others => (char :: line) :: others

/-- All tokens `strtok` finds: the maximal runs without a delimiter. -/
def strtok (isDelimiter : Char → Bool) (line : List Char) : List (List Char) :=
  (line.splitOnP isDelimiter).filter fun token => token ≠ []

/-- `isspace` in the C locale. -/
def isSpace (char : Char) : Bool :=
  char == ' ' || char == '\t' || char == '\n' || char == '\x0b' || char == '\x0c' || char == '\r'

/-- The value of a digit string. -/
def decimalValue (digits : List Char) : ℕ :=
  digits.foldl (fun value digit => 10 * value + (digit.toNat - '0'.toNat)) 0

/-- `strtoul(text, &end, 10)` with a 64-bit `unsigned long`: the value and what
`end` points to, or nothing if no digits were found. A minus sign negates in the
unsigned type; a value out of range gives `ULONG_MAX`. -/
def strtoul (text : List Char) : Option (ℕ × List Char) :=
  let body := text.dropWhile isSpace
  let (negative, digits) :=
    match body with
    | '-' :: rest => (true, rest)
    | '+' :: rest => (false, rest)
    | rest => (false, rest)
  let numeral := digits.takeWhile Char.isDigit
  let value := decimalValue numeral
  if numeral = [] then none
  else if 2 ^ 64 ≤ value then some (2 ^ 64 - 1, digits.dropWhile Char.isDigit)
  else
    some (if negative then (2 ^ 64 - value) % 2 ^ 64 else value,
      digits.dropWhile Char.isDigit)

/-- Refuse with `what` unless the condition holds. -/
def require (what : ε) (condition : Prop) [Decidable condition] : Except ε Unit :=
  if condition then .ok () else .error what

/-- Refuse with `what` if there is no value. -/
def expect {α : Type u} (what : ε) : Option α → Except ε α
  | some value => .ok value
  | none => .error what

theorem require_eq_ok {what : ε} {condition : Prop} [Decidable condition] {done : Unit} :
    require what condition = .ok done ↔ condition := by
  unfold require
  split_ifs with hcondition <;> simp [hcondition]

theorem expect_eq_ok {α : Type u} {what : ε} {found : Option α} {value : α} :
    expect what found = .ok value ↔ found = some value := by
  cases found <;> simp [expect]

/-- A sequence of checks succeeds when its parts do. -/
theorem bind_eq_ok {α β : Type u} {first : Except ε α} {next : α → Except ε β} {result : β} :
    (first >>= next) = .ok result ↔ ∃ value, first = .ok value ∧ next value = .ok result := by
  cases first with
  | error what => simp [bind, Except.bind]
  | ok value => simp [bind, Except.bind]

/-- Two sequences with the same first check agree if they do after it succeeded. -/
theorem bind_congr_ok {α β : Type u} {first : Except ε α} {next other : α → Except ε β}
    (hnext : ∀ value, first = .ok value → next value = other value) :
    (first >>= next) = (first >>= other) := by
  cases first with
  | error what => rfl
  | ok value => exact hnext value rfl

/-- Parse lines one at a time, numbered from `number`, up to the first that is
refused. -/
def parseLines (parseLine : σ → List Char → Except ε σ) :
    ℕ → List (List Char) → σ → Except (ℕ × ε) σ
  | _, [], state => .ok state
  | number, line :: rest, state =>
      match parseLine state line with
      | .error what => .error (number, what)
      | .ok next => parseLines parseLine (number + 1) rest next

/-- What every accepted line carries on, from the lines before it to those with it, holds
of all lines of an accepted text. -/
theorem parseLines_history {parseLine : σ → List Char → Except ε σ}
    {inv : List (List Char) → σ → Prop}
    (carried : ∀ seen state line next, inv seen state → parseLine state line = .ok next →
      inv (seen ++ [line]) next)
    {number : ℕ} {seen lines : List (List Char)} {state final : σ} (hstate : inv seen state)
    (hparse : parseLines parseLine number lines state = .ok final) :
    inv (seen ++ lines) final := by
  induction lines generalizing number seen state with
  | nil =>
      cases hparse
      rw [List.append_nil]
      exact hstate
  | cons line rest ih =>
      unfold parseLines at hparse
      split at hparse
      · cases hparse
      · next next hline =>
          rw [List.append_cons]
          exact ih (carried seen state line next hstate hline) hparse

/-- What every accepted line preserves holds after an accepted text. -/
theorem parseLines_invariant {parseLine : σ → List Char → Except ε σ} {inv : σ → Prop}
    (preserved : ∀ state line next, inv state → parseLine state line = .ok next → inv next)
    {number : ℕ} {lines : List (List Char)} {state final : σ} (hstate : inv state)
    (hparse : parseLines parseLine number lines state = .ok final) : inv final :=
  @parseLines_history _ _ _ (fun _ => inv) (fun _ => preserved) number [] lines state final
    hstate hparse

/-- The same loop for a parser whose state outlives a refusal: the state after the last
accepted line, and the refusal if there was one. -/
def runLines (parseLine : σ → List Char → Except ε σ) :
    ℕ → List (List Char) → σ → σ × Option (ℕ × ε)
  | _, [], state => (state, none)
  | number, line :: rest, state =>
      match parseLine state line with
      | .error what => (state, some (number, what))
      | .ok next => runLines parseLine (number + 1) rest next

/-! ## Texts and their lines -/

/-- Lines, each ended by a newline. -/
def unlines (lines : List (List Char)) : List Char := lines.flatMap (· ++ ['\n'])

theorem textLines_append_newline {line : List Char} (hline : '\n' ∉ line) (rest : List Char) :
    textLines (line ++ '\n' :: rest) = line :: textLines rest := by
  induction line with
  | nil => simp [textLines]
  | cons char line ih =>
      simp only [List.mem_cons, not_or] at hline
      simp [textLines, Ne.symm hline.1, ih hline.2]

/-- The lines of a text that ends with a newline. -/
theorem textLines_unlines_append {lines : List (List Char)} (hlines : ∀ line ∈ lines, '\n' ∉ line)
    (rest : List Char) : textLines (unlines lines ++ rest) = lines ++ textLines rest := by
  induction lines with
  | nil => rfl
  | cons line lines ih =>
      rw [unlines, List.flatMap_cons, List.append_assoc, List.append_assoc]
      rw [List.singleton_append, textLines_append_newline (hlines line List.mem_cons_self)]
      rw [List.cons_append, ← ih fun other hother => hlines other (List.mem_cons_of_mem _ hother)]
      rfl

/-- A line that no newline ends. -/
theorem textLines_of_ne_nil {line : List Char} (hline : '\n' ∉ line) (hne : line ≠ []) :
    textLines line = [line] := by
  induction line with
  | nil => exact absurd rfl hne
  | cons char line ih =>
      simp only [List.mem_cons, not_or] at hline
      cases line with
      | nil => simp [textLines, Ne.symm hline.1]
      | cons next line =>
          rw [textLines, if_neg (Ne.symm hline.1), ih hline.2 (by simp)]

end SoftPlc.Math
