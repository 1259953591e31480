/-
# Trailing comments

`strip_comment` takes every quote character on a line for the start of a quotation, also
one in the middle of a value that is not quoted. Such a value may leave a quotation open
at the end of its line, and a comment appended there is not recognised: it becomes part
of the value. On every other line a trailing comment changes nothing.
-/

import SoftPlc.Config.Parser

namespace SoftPlc.Config

open SoftPlc.Math

/-- What a setting line holds, left and right of its equals sign. -/
structure Splits (line left right : List Char) : Prop where
  trimmed : trim (stripComment line) = left ++ '=' :: right
  first : '=' ∉ left
  notHeader : (left ++ '=' :: right).head? ≠ some '['

/-- A line that is split like this is read as a setting. -/
theorem Splits.readLine {line left right : List Char} (h : Splits line left right)
    (hlength : line.length < lineBytes) (sectionName : List Char) :
    readLine sectionName line = readPair sectionName left right := by
  rw [Config.readLine, if_neg (Nat.not_le.mpr hlength), h.trimmed]
  have hhead := h.notHeader
  have hspan := span_append h.first right
  cases hshape : left ++ '=' :: right with
  | nil => simp at hshape
  | cons first rest =>
      rw [hshape] at hhead hspan
      have hbracket : first ≠ '[' := by simpa using hhead
      simp only [hbracket, if_false, readSetting, hspan]

/-! ## What trimming leaves of a longer text -/

/-- Trimming at the end removes blanks only. -/
theorem dropWhile_eq_trim_append (text : List Char) :
    ∃ blanks, (∀ char ∈ blanks, isBlank char = true) ∧
      text.dropWhile isBlank = trim text ++ blanks := by
  refine ⟨(text.dropWhile isBlank).rtakeWhile isBlank, ?_, ?_⟩
  · exact fun char hchar => List.mem_rtakeWhile_imp hchar
  · exact (List.rdropWhile_append_rtakeWhile ..).symm

/-- A character that is not blank keeps all that is before it. -/
theorem rdropWhile_append_cons {mark : Char} (hmark : isBlank mark = false)
    (text rest : List Char) :
    ∃ kept, (text ++ mark :: rest).rdropWhile isBlank = text ++ mark :: kept := by
  induction rest using List.reverseRecOn with
  | nil => exact ⟨[], List.rdropWhile_concat_neg _ _ _ (by simp [hmark])⟩
  | append_singleton rest last ih =>
      rw [← List.cons_append, ← List.append_assoc]
      by_cases hlast : isBlank last = true
      · rw [List.rdropWhile_concat_pos _ _ _ hlast]
        exact ih
      · rw [List.rdropWhile_concat_neg _ _ _ hlast, List.append_assoc, List.cons_append]
        exact ⟨rest ++ [last], rfl⟩

theorem trim_append_cons {mark : Char} (hmark : isBlank mark = false) (text rest : List Char) :
    ∃ kept, trim (text ++ mark :: rest) = text.dropWhile isBlank ++ mark :: kept := by
  have hleft : (text ++ mark :: rest).dropWhile isBlank =
      text.dropWhile isBlank ++ mark :: rest := by
    rw [List.dropWhile_append]
    split
    · next hempty =>
        rw [List.isEmpty_iff] at hempty
        simp [hempty, hmark]
    · rfl
  rw [trim, hleft]
  exact rdropWhile_append_cons hmark _ rest

/-- Behind blanks, such a character extends what trimming leaves. -/
theorem trim_extended {mark : Char} (hmark : isBlank mark = false) {blanks : List Char}
    (hblanks : ∀ char ∈ blanks, isBlank char = true) (text rest : List Char) :
    ∃ between kept, (∀ char ∈ between, isBlank char = true) ∧
      trim (text ++ blanks ++ mark :: rest) = trim text ++ between ++ mark :: kept := by
  obtain ⟨kept, hkept⟩ := trim_append_cons hmark (text ++ blanks) rest
  obtain ⟨between, hbetween, hdrop⟩ := dropWhile_eq_trim_append (text ++ blanks)
  rw [trim_append_blanks hblanks] at hdrop
  exact ⟨between, kept, hbetween, by rw [hkept, hdrop]⟩

/-! ## A comment behind a setting -/

/-- Behind an open quotation, the comment becomes part of the value. -/
theorem Splits.extended {line left right : List Char} (h : Splits line left right)
    (hopen : endsInQuote line = true) {blank mark : Char} (hblank : isBreak blank = true)
    (hmark : isMark mark = true) (comment : List Char) :
    ∃ blanks kept, (∀ char ∈ blanks, isBlank char = true) ∧
      Splits (line ++ blank :: mark :: comment) left (right ++ blanks ++ mark :: kept) := by
  have hquote : ∀ char ∈ (none : Option Char), isQuote char = true := fun char hchar => by
    cases hchar
  obtain ⟨hline, rest, hrest⟩ := stripFrom_append_of_open hblank hmark comment hquote hopen
  have htrimmed := h.trimmed
  rw [stripComment, hline] at htrimmed
  have hblanks : ∀ char ∈ [blank], isBlank char = true := by
    rintro char hchar
    rw [List.mem_singleton.mp hchar]
    exact (isBreak_cases hblank).2.2
  obtain ⟨blanks, kept, hbetween, htrim⟩ :=
    trim_extended (isMark_cases hmark).2.1 hblanks line rest
  refine ⟨blanks, kept, hbetween, ?_, h.first, ?_⟩
  · rw [stripComment, hrest, List.append_cons, htrim, htrimmed]
    simp
  · have hhead := h.notHeader
    cases left with
    | nil => simp
    | cons first others => simpa using hhead

/-- The extended value is another one. -/
theorem readPair_extended {sectionName left right blanks kept : List Char} {mark : Char}
    {entry : Entry} (hread : readPair sectionName left right = .ok (.setting entry))
    (hvalue : ∀ char ∈ (trim right).head?, isQuote char = false)
    (hmark : isMark mark = true) (hblanks : ∀ char ∈ blanks, isBlank char = true) :
    ∀ reading, readPair sectionName left (right ++ blanks ++ mark :: kept) = .ok reading →
      ∃ other, reading = .setting other ∧ other ≠ entry := by
  obtain ⟨between, kept', hbetween, htrim⟩ :=
    trim_extended (isMark_cases hmark).2.1 hblanks right kept
  have hplain : unquote (trim right) = trim right := unquote_of_head hvalue
  have hextended : unquote (trim (right ++ blanks ++ mark :: kept)) =
      trim right ++ between ++ mark :: kept' := by
    rw [htrim]
    apply unquote_of_head
    intro char hchar
    cases hright : trim right with
    | cons first others =>
        rw [hright] at hchar hvalue
        exact hvalue char hchar
    | nil =>
        rw [hright, List.nil_append] at hchar
        cases between with
        | nil =>
            cases hchar
            exact (isMark_cases hmark).1
        | cons first others =>
            have hfirst := hbetween first List.mem_cons_self
            obtain rfl : first = char := by simpa using hchar
            simp only [isBlank, Bool.or_eq_true, beq_iff_eq] at hfirst
            rcases hfirst with (rfl | rfl) | rfl <;> decide
  intro reading hreading
  simp only [readPair, hplain] at hread
  simp only [readPair, hextended] at hreading
  split at hread
  · cases hread
  · next qualified hqualified =>
      simp only [hqualified] at hreading
      split_ifs at hread hreading
      cases hread
      cases hreading
      refine ⟨_, rfl, fun heq => ?_⟩
      have hlength := congrArg (List.length ∘ Entry.value) heq
      simp at hlength

/-! ## The text around the line -/

/-- A line in the middle of a text. What follows it is empty or begins with a newline. -/
theorem textLines_middle {front : List (List Char)} (hfront : ∀ line ∈ front, '\n' ∉ line)
    {line after : List Char} (hline : '\n' ∉ line) (hne : line ≠ [])
    (hafter : after = [] ∨ ∃ rest, after = '\n' :: rest) :
    textLines (unlines front ++ (line ++ after)) = front ++ line :: textLines after.tail := by
  rw [textLines_unlines_append hfront]
  rcases hafter with rfl | ⟨rest, rfl⟩
  · rw [List.append_nil, textLines_of_ne_nil hline hne]
    rfl
  · rw [textLines_append_newline hline]
    rfl

/-- A line that reads the same in every section may take the place of another. -/
theorem readAll_congr {front later : List (List Char)} {line other : List Char}
    (hsame : ∀ sectionName, readLine sectionName other = readLine sectionName line)
    (sectionName : List Char) :
    readAll sectionName (front ++ other :: later) =
      readAll sectionName (front ++ line :: later) := by
  rw [readAll_append, readAll_append]
  simp only [readAll, hsame]

section Appended

variable {line left right : List Char} {blank mark : Char} {comment : List Char}
  (hblank : isBreak blank = true) (hmark : isMark mark = true)
  (hlength : (line ++ blank :: mark :: comment).length < lineBytes)

include hlength in
theorem length_lt_of_appended : line.length < lineBytes := by
  rw [List.length_append] at hlength
  omega

include hblank hmark hlength

/-- Outside a quotation the comment is stripped, and the line reads as before. -/
theorem readLine_appended (hclosed : endsInQuote line = false) (sectionName : List Char) :
    readLine sectionName (line ++ blank :: mark :: comment) = readLine sectionName line := by
  rw [readLine, readLine, if_neg (Nat.not_le.mpr hlength),
    if_neg (Nat.not_le.mpr (length_lt_of_appended hlength)),
    trim_stripComment_append hclosed hblank hmark]

/-- Inside a quotation the comment becomes a part of the value, so the settings of the
lines differ. -/
theorem Splits.readAll_appended_ne (hsplits : Splits line left right)
    (hvalue : ∀ char ∈ (trim right).head?, isQuote char = false)
    (hopen : endsInQuote line = true) {front later : List (List Char)}
    {sectionName : List Char} {table : List Entry}
    (htable : readAll sectionName (front ++ line :: later) = some table) :
    readAll sectionName (front ++ (line ++ blank :: mark :: comment) :: later) ≠
      some table := by
  intro hcommented
  obtain ⟨before, reading, hbefore, hread, hentry⟩ := readAll_middle htable
  obtain ⟨before', reading', hbefore', hread', hentry'⟩ := readAll_middle hcommented
  rw [hsplits.readLine (length_lt_of_appended hlength)] at hread
  obtain ⟨blanks, kept, hblanks, hextended⟩ := hsplits.extended hopen hblank hmark comment
  rw [hextended.readLine hlength] at hread'
  obtain ⟨entry, rfl⟩ := readPair_setting hread
  obtain ⟨other, rfl, hdiffers⟩ :=
    readPair_extended hread hvalue hmark hblanks reading' hread'
  obtain ⟨rest, hsplit⟩ := hentry entry rfl
  obtain ⟨rest', hsplit'⟩ := hentry' other rfl
  -- the lines in front give the same settings, so the two meet at the same place
  rw [hbefore] at hbefore'
  cases hbefore'
  rw [hsplit] at hsplit'
  have hcons := List.append_cancel_left hsplit'
  exact hdiffers (List.cons.inj hcons).1.symm

end Appended

/-- **When a trailing comment is harmless.** Take an accepted text, one of its setting
lines whose value does not begin with a quote, and a comment that leaves it within the
line buffer. Appending the comment keeps the status and the table exactly when the line
does not end inside a quotation. -/
theorem comment_harmless_iff {front : List (List Char)} {line left right after : List Char}
    (hfront : ∀ other ∈ front, '\n' ∉ other) (hline : '\n' ∉ line)
    (hafter : after = [] ∨ ∃ rest, after = '\n' :: rest)
    (haccepted : (plcConfigParse (unlines front ++ (line ++ after))).status = .ok)
    (hsplits : Splits line left right)
    (hvalue : ∀ char ∈ (trim right).head?, isQuote char = false)
    {blank mark : Char} {comment : List Char} (hblank : isBreak blank = true)
    (hmark : isMark mark = true) (hcomment : '\n' ∉ comment)
    (hlength : (line ++ blank :: mark :: comment).length < lineBytes) :
    let text := unlines front ++ (line ++ after)
    let commented := unlines front ++ (line ++ blank :: mark :: comment ++ after)
    ((plcConfigParse commented).status = (plcConfigParse text).status ∧
        (plcConfigParse commented).table = (plcConfigParse text).table) ↔
      endsInQuote line = false := by
  intro text commented
  have hne : line ≠ [] := by
    rintro rfl
    simpa [stripComment, stripFrom, trim] using hsplits.trimmed
  have hnewline : '\n' ∉ line ++ blank :: mark :: comment := by
    simp only [List.mem_append, List.mem_cons, not_or]
    refine ⟨hline, ?_, ?_, hcomment⟩
    · rintro rfl
      exact absurd hblank (by decide)
    · rintro rfl
      exact absurd hmark (by decide)
  have htextLines : textLines text = front ++ line :: textLines after.tail :=
    textLines_middle hfront hline hne hafter
  have hcommentedLines : textLines commented =
      front ++ (line ++ blank :: mark :: comment) :: textLines after.tail :=
    textLines_middle hfront hnewline (by simp) hafter
  have hok := plcConfigParse_of_status haccepted
  obtain ⟨htable, hadmissible⟩ := plcConfigParse_eq_ok.mp hok
  constructor
  · rintro ⟨hstatus, hsame⟩
    have hcommentedOk := plcConfigParse_of_status (hstatus.trans haccepted)
    have hcommented := (plcConfigParse_eq_ok.mp hcommentedOk).1
    rw [htextLines] at htable
    rw [hcommentedLines, hsame] at hcommented
    by_contra hnotClosed
    exact hsplits.readAll_appended_ne hblank hmark hlength hvalue
      (by simpa using hnotClosed) htable hcommented
  · intro hclosed
    have hcommented : readAll [] (textLines commented) = some (plcConfigParse text).table := by
      rw [hcommentedLines, readAll_congr (readLine_appended hblank hmark hlength hclosed),
        ← htextLines]
      exact htable
    rw [plcConfigParse_eq_ok.mpr ⟨hcommented, hadmissible⟩]
    exact ⟨haccepted.symm, rfl⟩

/-- An apostrophe in a value that is not quoted. -/
def apostropheLine : List Char := "note = it's".toList

/-- The comment behind it is taken for a part of the value. -/
theorem apostrophe_keeps_comment :
    plcConfigParse apostropheLine = ⟨.ok, [⟨"SOFTPLC_NOTE".toList, "it's".toList⟩], ""⟩ ∧
      plcConfigParse (apostropheLine ++ ' ' :: '#' :: " x".toList) =
        ⟨.ok, [⟨"SOFTPLC_NOTE".toList, "it's # x".toList⟩], ""⟩ := by
  decide +kernel

/-- The same comment behind a value without quotes. -/
theorem comment_harmless_iff_plainValue :
    (plcConfigParse "note = its # x".toList).table =
      (plcConfigParse "note = its".toList).table := by
  have hsplits : Splits "note = its".toList "note ".toList " its".toList :=
    ⟨by decide +kernel, by decide, by decide⟩
  have hfront : ∀ other ∈ ([] : List (List Char)), '\n' ∉ other := fun other hother => by
    cases hother
  have hvalue : ∀ char ∈ (trim " its".toList).head?, isQuote char = false := by
    have hhead : (trim " its".toList).head? = some 'i' := by decide +kernel
    intro char hchar
    rw [hhead] at hchar
    cases hchar
    rfl
  have hharmless := comment_harmless_iff hfront
    (show '\n' ∉ "note = its".toList by decide) (.inl rfl) (by decide +kernel) hsplits
    hvalue (show isBreak ' ' = true by decide) (show isMark '#' = true by decide)
    (show '\n' ∉ " x".toList by decide) (by decide)
  exact (hharmless.mpr (by decide +kernel)).2

end SoftPlc.Config
