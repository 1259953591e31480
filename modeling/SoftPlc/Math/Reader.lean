/-
# Reading lines and tokens in place

How a C parser walks along a text with two fixed arrays. The line reader copies as many
characters as the buffer has room for, notes whether the line goes on, and skips to the
next line. The token loop takes tokens off a line with `strtok_r`, stores those that fit
an array of pointers, and goes on counting past it.

Neither array changes what is read, only whether it is complete. The reader walks along
`textLines`, and its buffer holds a whole line unless the line is marked as too long. The
token loop counts the tokens of `strtok`, and its array holds all of them if the count is
within it.
-/

import SoftPlc.Math.Parse
import Mathlib.Data.List.DropRight

namespace SoftPlc.Math

/-! ## Lines -/

/-- Copy up to `room` characters of a line. What is left of the text starts at the first
character that was not copied. -/
def fillLine : ℕ → List Char → List Char × List Char
  | 0, text => ([], text)
  | _ + 1, [] => ([], [])
  | room + 1, char :: rest =>
      if char = '\n' then ([], char :: rest)
      else ((char :: (fillLine room rest).1), (fillLine room rest).2)

/-- What one turn of the reader leaves: the buffer, whether the line went on behind it,
and the text from the next line on. -/
structure LineRead where
  line : List Char
  overlong : Bool
  rest : List Char
  deriving DecidableEq, Repr

/-- Read one line into a buffer and skip to the next. -/
def readLine (room : ℕ) (text : List Char) : LineRead :=
  let (line, after) := fillLine room text
  let overlong := match after with
    | [] => false
    | char :: _ => char ≠ '\n'
  { line, overlong, rest := (after.dropWhile (· ≠ '\n')).drop 1 }

/-- The line a text begins with, and what follows it: nothing, or a newline. -/
def firstLine (text : List Char) : List Char := text.takeWhile (· ≠ '\n')

def afterLine (text : List Char) : List Char := text.dropWhile (· ≠ '\n')

theorem newline_notMem_firstLine (text : List Char) : '\n' ∉ firstLine text := by
  intro hmem
  have hchar := List.mem_takeWhile_imp hmem
  simp at hchar

theorem firstLine_append_afterLine (text : List Char) :
    firstLine text ++ afterLine text = text :=
  List.takeWhile_append_dropWhile

theorem afterLine_cases (text : List Char) :
    afterLine text = [] ∨ ∃ rest, afterLine text = '\n' :: rest := by
  cases hafter : afterLine text with
  | nil => exact .inl rfl
  | cons char rest =>
      have hhead := List.head?_dropWhile_not (fun char : Char => decide (char ≠ '\n')) text
      rw [← afterLine, hafter] at hhead
      have hchar : char = '\n' := by simpa using hhead
      exact .inr ⟨rest, by rw [hchar]⟩

/-- The lines of a text are its first line and the lines behind it. -/
theorem textLines_eq_cons {text : List Char} (htext : text ≠ []) :
    textLines text = firstLine text :: textLines ((afterLine text).drop 1) := by
  have hline := newline_notMem_firstLine text
  rcases afterLine_cases text with hafter | ⟨rest, hafter⟩
  · have hsplit := firstLine_append_afterLine text
    rw [hafter, List.append_nil] at hsplit
    rw [hafter, hsplit, textLines_of_ne_nil (hsplit ▸ hline) htext]
    rfl
  · conv_lhs => rw [← firstLine_append_afterLine text, hafter]
    rw [textLines_append_newline hline, hafter, List.drop_one, List.tail_cons]

theorem fillLine_eq (room : ℕ) (text : List Char) :
    fillLine room text =
      ((firstLine text).take room, (firstLine text).drop room ++ afterLine text) := by
  induction room generalizing text with
  | zero => simp [fillLine, firstLine_append_afterLine]
  | succ room ih =>
      cases text with
      | nil => rfl
      | cons char rest =>
          by_cases hchar : char = '\n'
          · simp [fillLine, firstLine, afterLine, hchar]
          · simp [fillLine, firstLine, afterLine, hchar, ih]

/-- **What the reader reads.** The buffer holds the beginning of the first line, the mark
says whether there was more of it, and reading goes on behind that line. -/
theorem readLine_eq (room : ℕ) (text : List Char) :
    readLine room text =
      { line := (firstLine text).take room
        overlong := decide (room < (firstLine text).length)
        rest := (afterLine text).drop 1 } := by
  have hmore : ∀ char ∈ (firstLine text).drop room, decide (char ≠ '\n') = true := by
    intro char hchar
    apply decide_eq_true
    rintro rfl
    exact newline_notMem_firstLine text (List.mem_of_mem_drop hchar)
  have hrest : ((firstLine text).drop room ++ afterLine text).dropWhile (· ≠ '\n') =
      afterLine text := by
    rw [List.dropWhile_append_of_pos hmore, afterLine, List.dropWhile_idempotent]
  simp only [readLine, fillLine_eq, hrest, LineRead.mk.injEq, true_and, and_true]
  cases hcut : (firstLine text).drop room with
  | nil =>
      have hfits : ¬ room < (firstLine text).length :=
        Nat.not_lt.mpr (List.drop_eq_nil_iff.mp hcut)
      rcases afterLine_cases text with hafter | ⟨rest, hafter⟩ <;> simp [hafter, hfits]
  | cons char others =>
      have hlong : room < (firstLine text).length := by
        by_contra hfits
        rw [List.drop_eq_nil_of_le (Nat.not_lt.mp hfits)] at hcut
        cases hcut
      have hchar : char ≠ '\n' := of_decide_eq_true (hmore char (hcut ▸ List.mem_cons_self))
      simp [hlong, hchar]

/-- The reader moves on. -/
theorem readLine_rest_length_lt (room : ℕ) {text : List Char} (htext : text ≠ []) :
    (readLine room text).rest.length < text.length := by
  have hsplit := congrArg List.length (firstLine_append_afterLine text)
  have hne : text.length ≠ 0 := fun hzero => htext (List.length_eq_zero_iff.mp hzero)
  rw [readLine_eq, List.length_drop]
  rw [List.length_append] at hsplit
  omega

/-! ## Tokens -/

/-- `strtok_r`: the next token, and where the one after it is looked for. -/
def strtokR (isDelimiter : Char → Bool) (save : List Char) : Option (List Char × List Char) :=
  match save.dropWhile isDelimiter with
  | [] => none
  | first :: others =>
      let rest := first :: others
      some (rest.takeWhile (!isDelimiter ·), (rest.dropWhile (!isDelimiter ·)).drop 1)

/-- An array of tokens, and how many were found, which may be more. -/
structure Tokens (capacity : ℕ) where
  tok : Vector (List Char) capacity
  count : ℕ

variable {capacity : ℕ}

/-- Store a token if the array has room, and count it. -/
def Tokens.store (tokens : Tokens capacity) (token : List Char) : Tokens capacity where
  tok := if hroom : tokens.count < capacity then tokens.tok.set tokens.count token hroom
    else tokens.tok
  count := tokens.count + 1

/-- No token: only delimiters are left. -/
theorem strtokR_eq_none {isDelimiter : Char → Bool} {save : List Char} :
    strtokR isDelimiter save = none ↔ save.dropWhile isDelimiter = [] := by
  unfold strtokR
  split <;> simp [*]

/-- A token is a run without delimiters, up to the end or to the delimiter that
`strtok_r` overwrites. -/
theorem strtokR_eq_some {isDelimiter : Char → Bool} {save token rest : List Char}
    (hsome : strtokR isDelimiter save = some (token, rest)) :
    token ≠ [] ∧ (∀ char ∈ token, isDelimiter char = false) ∧
      ((save.dropWhile isDelimiter = token ∧ rest = []) ∨
        ∃ delimiter, isDelimiter delimiter = true ∧
          save.dropWhile isDelimiter = token ++ delimiter :: rest) := by
  unfold strtokR at hsome
  split at hsome
  · cases hsome
  · next first others hsave =>
      have hfirst : isDelimiter first = false := by
        have hhead := List.head?_dropWhile_not isDelimiter save
        rw [hsave] at hhead
        exact hhead
      cases hsome
      refine ⟨?_, ?_, ?_⟩
      · simp [hfirst]
      · intro char hchar
        simpa using List.mem_takeWhile_imp hchar
      · have hsplit : (first :: others).takeWhile (!isDelimiter ·) ++
            (first :: others).dropWhile (!isDelimiter ·) = first :: others :=
          List.takeWhile_append_dropWhile
        cases hafter : (first :: others).dropWhile (!isDelimiter ·) with
        | nil =>
            rw [hafter, List.append_nil] at hsplit
            exact .inl ⟨hsave.trans hsplit.symm, rfl⟩
        | cons delimiter rest =>
            have hdelimiter := List.head?_dropWhile_not (!isDelimiter ·) (first :: others)
            rw [hafter] at hdelimiter hsplit
            exact .inr ⟨delimiter, by simpa using hdelimiter, hsave.trans hsplit.symm⟩

theorem strtokR_rest_length_lt {isDelimiter : Char → Bool} {save token rest : List Char}
    (hsome : strtokR isDelimiter save = some (token, rest)) : rest.length < save.length := by
  have hskip := (List.dropWhile_suffix isDelimiter (l := save)).length_le
  obtain ⟨htoken, -, hrest⟩ := strtokR_eq_some hsome
  have hpos := List.length_pos_iff.mpr htoken
  rcases hrest with ⟨hsave, rfl⟩ | ⟨delimiter, -, hsave⟩
  · rw [hsave] at hskip
    exact lt_of_lt_of_le hpos hskip
  · rw [hsave, List.length_append, List.length_cons] at hskip
    omega

/-- Delimiters before a token are skipped. -/
theorem strtok_dropWhile (isDelimiter : Char → Bool) (line : List Char) :
    strtok isDelimiter (line.dropWhile isDelimiter) = strtok isDelimiter line := by
  induction line with
  | nil => rfl
  | cons char line ih =>
      by_cases hchar : isDelimiter char = true
      · rw [List.dropWhile_cons_of_pos hchar, ih, strtok, strtok,
          List.splitOnP_cons_eq_if_modifyHead, if_pos hchar]
        simp
      · rw [List.dropWhile_cons_of_neg hchar]

/-- The tokens of a line are the one `strtok_r` finds and those behind it. -/
theorem strtok_eq (isDelimiter : Char → Bool) (line : List Char) :
    strtok isDelimiter line =
      match strtokR isDelimiter line with
      | none => []
      | some (token, rest) => token :: strtok isDelimiter rest := by
  cases hnext : strtokR isDelimiter line with
  | none =>
      rw [← strtok_dropWhile, strtokR_eq_none.mp hnext]
      rfl
  | some found =>
      obtain ⟨token, rest⟩ := found
      obtain ⟨htoken, hchars, hrest⟩ := strtokR_eq_some hnext
      rw [← strtok_dropWhile isDelimiter line]
      rcases hrest with ⟨hline, rfl⟩ | ⟨delimiter, hdelimiter, hline⟩
      · rw [hline, strtok, List.splitOnP_eq_singleton hchars]
        simp [htoken, strtok]
      · rw [hline, strtok, List.splitOnP_append_cons_of_forall_mem hchars _ hdelimiter]
        simp [htoken, strtok]

theorem strtok_eq_nil {isDelimiter : Char → Bool} {line : List Char} :
    strtok isDelimiter line = [] ↔ ∀ char ∈ line, isDelimiter char = true := by
  rw [strtok_eq]
  cases hnext : strtokR isDelimiter line with
  | none => exact iff_of_true rfl (List.dropWhile_eq_nil_iff.mp (strtokR_eq_none.mp hnext))
  | some found =>
      apply iff_of_false (List.cons_ne_nil _ _)
      intro hall
      rw [strtokR_eq_none.mpr (List.dropWhile_eq_nil_iff.mpr hall)] at hnext
      cases hnext

/-- The token loop: `strtok_r` until it finds no more. -/
def readTokens (isDelimiter : Char → Bool) (save : List Char) (tokens : Tokens capacity) :
    Tokens capacity :=
  match hnext : strtokR isDelimiter save with
  | none => tokens
  | some (token, rest) =>
      have := strtokR_rest_length_lt hnext
      readTokens isDelimiter rest (tokens.store token)
termination_by save.length

/-- The array and the count after some tokens. -/
structure Tokens.Holds (tokens : Tokens capacity) (found : List (List Char)) : Prop where
  count_eq : tokens.count = found.length
  tok_eq : ∀ index < capacity, index < found.length → tokens.tok.toList[index]? = found[index]?

theorem Tokens.Holds.store {tokens : Tokens capacity} {found : List (List Char)}
    (h : tokens.Holds found) (token : List Char) :
    (tokens.store token).Holds (found ++ [token]) where
  count_eq := by
    rw [List.length_append, ← h.count_eq]
    rfl
  tok_eq := by
    intro index hcapacity hindex
    rw [List.length_append, List.length_singleton] at hindex
    have hcount := h.count_eq
    rcases Nat.lt_succ_iff_lt_or_eq.mp hindex with hbefore | rfl
    · rw [List.getElem?_append_left hbefore, ← h.tok_eq index hcapacity hbefore]
      unfold Tokens.store
      split_ifs with hroom
      · rw [Vector.toList_set, List.getElem?_set_ne (by omega)]
      · rfl
    · simp [Tokens.store, hcount, hcapacity]

/-- **What the token loop finds.** All tokens are counted, and those within the array are
stored in order. -/
theorem readTokens_holds (isDelimiter : Char → Bool) (save : List Char)
    {tokens : Tokens capacity} {found : List (List Char)} (h : tokens.Holds found) :
    (readTokens isDelimiter save tokens).Holds (found ++ strtok isDelimiter save) := by
  fun_induction readTokens isDelimiter save tokens generalizing found with
  | case1 save tokens hnone =>
      rw [strtok_eq, hnone, List.append_nil]
      exact h
  | case2 save tokens token rest hsome hshorter ih =>
      rw [strtok_eq, hsome, List.append_cons]
      exact ih (h.store token)

/-- As many tokens as the array has entries are all in it. -/
theorem Tokens.Holds.toList_eq {tokens : Tokens capacity} {found : List (List Char)}
    (h : tokens.Holds found) (hcount : tokens.count = capacity) : tokens.tok.toList = found := by
  have hlength : found.length = capacity := h.count_eq.symm.trans hcount
  apply List.ext_getElem?
  intro index
  by_cases hindex : index < capacity
  · exact h.tok_eq index hindex (hlength ▸ hindex)
  · rw [List.getElem?_eq_none (by simpa using hindex), List.getElem?_eq_none (by omega)]

end SoftPlc.Math
