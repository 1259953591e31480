/-
# Written settings are read back

A settings file as a tool would write it: one line `KEY = "VALUE"` for each setting, and
between them section headers, blank lines and comments. Parsing it gives back exactly
the settings that were written, in their order.

A value may hold anything but a double quote and a newline. What protects it is the
quotation: inside it no mark starts a comment, no apostrophe opens another quotation,
and the blanks at its ends are not the ends of the line.
-/

import SoftPlc.Config.Parser

namespace SoftPlc.Config

open SoftPlc.Math

/-- A setting that can be written: its key is in full and in the spelling of the table,
and key and value fit their fields. -/
structure Writable (entry : Entry) : Prop where
  stem : keyStem <+: entry.key
  keyChars : ∀ char ∈ entry.key, isKeyChar char = true
  keyLength : entry.key.length < plcConfigKeyMax
  valueLength : entry.value.length < plcConfigValueMax
  valueQuote : '"' ∉ entry.value
  valueNewline : '\n' ∉ entry.value

/-- `KEY = "VALUE"`. -/
def settingLine (entry : Entry) : List Char :=
  entry.key ++ ' ' :: '=' :: ' ' :: '"' :: (entry.value ++ ['"'])

/-- The lines that may stand between settings. Each may have a comment behind it. -/
inductive Filler : List Char → Prop
  | blank {line : List Char} (hblank : ∀ char ∈ line, isBlank char = true) : Filler line
  | comment {indent text : List Char} {mark : Char}
      (hindent : ∀ char ∈ indent, isBreak char = true) (hmark : isMark mark = true) :
      Filler (indent ++ mark :: text)
  | header {before inner after : List Char}
      (hbefore : ∀ char ∈ before, isBlank char = true)
      (hinner : ∀ char ∈ inner, isBlank char = true ∨ isKeyChar (foldChar char) = true)
      (hname : trim inner ≠ [] ∧ (trim inner).length < plcConfigKeyMax ∧
        ∀ char ∈ trim inner, isKeyChar (foldChar char) = true)
      (hafter : ∀ char ∈ after, isBlank char = true) :
      Filler (before ++ '[' :: (inner ++ ']' :: after))
  | commented {line text : List Char} {blank mark : Char} (hline : Filler line)
      (hblank : isBreak blank = true) (hmark : isMark mark = true) :
      Filler (line ++ blank :: mark :: text)

/-- A line of such a file. -/
inductive FileLine
  | setting (entry : Entry)
  | filler (line : List Char)

namespace FileLine

def text : FileLine → List Char
  | .setting entry => settingLine entry
  | .filler line => line

def entry? : FileLine → Option Entry
  | .setting entry => some entry
  | .filler _ => none

/-- What may be written: a filler within the limit of a line, or a writable setting. -/
def WellFormed : FileLine → Prop
  | .setting entry => Writable entry
  | .filler line => Filler line ∧ '\n' ∉ line ∧ line.length < lineBytes

end FileLine

/-! ## Characters of a key -/

/-- A character that a key or a section name may be written with is no quote, no mark and
no bracket. -/
theorem plain_of_foldChar {char : Char} (hkey : isKeyChar (foldChar char) = true) :
    isQuote char = false ∧ isMark char = false ∧ char ≠ ']' ∧ char ≠ '[' ∧ char ≠ '=' ∧
      char ≠ '\n' := by
  have hnot : ∀ other ∈ ['"', '\'', '#', ';', ']', '[', '=', '\n'], char ≠ other := by
    rintro other hother rfl
    have hnone : ['"', '\'', '#', ';', ']', '[', '=', '\n'].all
        (fun other => !isKeyChar (foldChar other)) = true := by decide
    have hchar := List.all_eq_true.mp hnone char hother
    simp [hkey] at hchar
  simp only [List.mem_cons, List.not_mem_nil, or_false, forall_eq_or_imp, forall_eq] at hnot
  obtain ⟨hdouble, hsingle, hhash, hsemi, hclose, hopen, heq, hnewline⟩ := hnot
  refine ⟨?_, ?_, hclose, hopen, heq, hnewline⟩
  · simp [isQuote, hdouble, hsingle]
  · simp [isMark, hhash, hsemi]

theorem plain_of_isBlank {char : Char} (hblank : isBlank char = true) :
    isQuote char = false ∧ isMark char = false ∧ char ≠ ']' := by
  simp only [isBlank, Bool.or_eq_true, beq_iff_eq] at hblank
  rcases hblank with (rfl | rfl) | rfl <;> decide

theorem not_isBlank_of_isKeyChar {char : Char} (hkey : isKeyChar char = true) :
    isBlank char = false := by
  by_contra hblank
  simp only [Bool.not_eq_false, isBlank, Bool.or_eq_true, beq_iff_eq] at hblank
  rcases hblank with (rfl | rfl) | rfl <;> exact absurd hkey (by decide)

/-- What stands between two delimiters is trimmed no further. -/
theorem trim_delimited {first last : Char} (hfirst : isBlank first = false)
    (hlast : isBlank last = false) (inner : List Char) :
    trim (first :: (inner ++ [last])) = first :: (inner ++ [last]) := by
  apply trim_eq_self
  · rintro char ⟨⟩
    exact hfirst
  · intro char hchar
    rw [← List.cons_append, List.getLast?_concat] at hchar
    cases hchar
    exact hlast

/-! ## Each kind of line -/

/-- A written setting is read as itself, in every section. -/
theorem readLine_settingLine {entry : Entry} (h : Writable entry) (sectionName : List Char) :
    readLine sectionName (settingLine entry) = .ok (.setting entry) := by
  have hplain : ∀ char ∈ entry.key,
      isQuote char = false ∧ isMark char = false ∧ char ≠ ']' ∧ char ≠ '[' ∧ char ≠ '=' ∧
        char ≠ '\n' := fun char hchar =>
    plain_of_foldChar (by
      rw [foldChar_of_isKeyChar (h.keyChars char hchar)]
      exact h.keyChars char hchar)
  obtain ⟨first, others, hcons⟩ : ∃ first others, entry.key = first :: others := by
    apply List.exists_cons_of_ne_nil
    intro hnil
    have hstem := h.stem
    rw [hnil, List.prefix_nil] at hstem
    exact absurd hstem (by decide)
  have hfirst : first ∈ entry.key := hcons ▸ List.mem_cons_self
  have hlength : (settingLine entry).length < lineBytes := by
    have hkey := h.keyLength
    have hvalue := h.valueLength
    simp only [settingLine, lineBytes, plcConfigKeyMax, plcConfigValueMax, List.length_append,
      List.length_cons, List.length_nil] at *
    omega
  -- the quotation protects the value
  have hstrip : stripComment (settingLine entry) = settingLine entry := by
    have hopening : ∀ char ∈ entry.key ++ [' ', '=', ' '],
        isQuote char = false ∧ isMark char = false := by
      intro char hchar
      rcases List.mem_append.mp hchar with hkey | hrest
      · exact ⟨(hplain char hkey).1, (hplain char hkey).2.1⟩
      · have hbetween : [' ', '=', ' '].all (fun char => !isQuote char && !isMark char) = true := by
          decide
        simpa using List.all_eq_true.mp hbetween char hrest
    obtain ⟨later, -, -, hsplit, -⟩ :=
      stripFrom_plain hopening true ('"' :: (entry.value ++ ['"']))
    have hquoted := stripFrom_quoted h.valueQuote (isBreak '"') []
    rw [List.append_assoc] at hsplit
    rw [stripComment, settingLine]
    refine hsplit.trans ?_
    rw [stripFrom, if_pos (by decide), hquoted]
    simp [stripFrom]
  have htrim : trim (settingLine entry) = settingLine entry := by
    have hdelimited := trim_delimited (not_isBlank_of_isKeyChar (h.keyChars first hfirst))
      (show isBlank '"' = false by decide) (others ++ ' ' :: '=' :: ' ' :: '"' :: entry.value)
    have hshape : settingLine entry =
        first :: (others ++ ' ' :: '=' :: ' ' :: '"' :: entry.value ++ ['"']) := by
      simp [settingLine, hcons]
    rwa [hshape]
  have hsplit : (settingLine entry).span (· ≠ '=') =
      (entry.key ++ [' '], '=' :: ' ' :: '"' :: (entry.value ++ ['"'])) := by
    have hnone : '=' ∉ entry.key ++ [' '] := by
      intro hmem
      rcases List.mem_append.mp hmem with hkey | hblank
      · exact (hplain '=' hkey).2.2.2.2.1 rfl
      · exact absurd hblank (by decide)
    rw [← span_append hnone, List.append_assoc]
    rfl
  have hkey : trim (entry.key ++ [' ']) = entry.key := by
    rw [trim_concat (by decide)]
    have hall : ∀ char ∈ entry.key, isBlank char = false := fun char hchar =>
      not_isBlank_of_isKeyChar (h.keyChars char hchar)
    exact trim_eq_self (fun char hchar => hall char (List.mem_of_mem_head? hchar))
      (fun char hchar => hall char (List.mem_of_mem_getLast? hchar))
  have hvalue : unquote (trim (' ' :: '"' :: (entry.value ++ ['"']))) = entry.value := by
    rw [← List.singleton_append, trim_blanks_append (List.forall_mem_singleton.mpr (by decide)),
      trim_delimited (by decide) (by decide), unquote_quoted]
  have hpair : readPair sectionName (entry.key ++ [' ']) (' ' :: '"' :: (entry.value ++ ['"'])) =
      .ok (.setting entry) := by
    simp only [readPair, hkey, hvalue, qualify_of_key h.stem h.keyChars h.keyLength,
      if_neg (Nat.not_le.mpr h.valueLength)]
  have hshape : settingLine entry =
      first :: (others ++ ' ' :: '=' :: ' ' :: '"' :: (entry.value ++ ['"'])) := by
    rw [settingLine, hcons]
    rfl
  rw [readLine, if_neg (Nat.not_le.mpr hlength), hstrip, htrim]
  rw [hshape] at hsplit ⊢
  have hbracket : first ≠ '[' := (hplain first hfirst).2.2.2.1
  simp only [hbracket, if_false, readSetting, hsplit, hpair]

/-- What is left of a filler: nothing, or a section header. -/
theorem Filler.trimmed {line : List Char} (h : Filler line) :
    endsInQuote line = false ∧
      (trim (stripComment line) = [] ∨
        ∃ inner, trim (stripComment line) = '[' :: (inner ++ [']']) ∧ ']' ∉ inner ∧
          trim inner ≠ [] ∧ (trim inner).length < plcConfigKeyMax ∧
          ∀ char ∈ trim inner, isKeyChar (foldChar char) = true) := by
  induction h with
  | @blank line hblank =>
      obtain ⟨hstrip, hclosed⟩ := stripComment_plain fun char hchar =>
        ⟨(plain_of_isBlank (hblank char hchar)).1, (plain_of_isBlank (hblank char hchar)).2.1⟩
      exact ⟨hclosed, .inl (by rw [hstrip, trim_blanks hblank])⟩
  | @comment indent text mark hindent hmark =>
      have hplain : ∀ char ∈ indent, isQuote char = false ∧ isMark char = false := fun char hchar =>
        ⟨(isBreak_cases (hindent char hchar)).1, (isBreak_cases (hindent char hchar)).2.1⟩
      obtain ⟨later, hempty, hlast, hstrip, hquote⟩ := stripFrom_plain hplain true (mark :: text)
      -- the mark stands at the start of the line or behind a blank
      have hlater : later = true := by
        rcases List.eq_nil_or_concat' indent with rfl | ⟨front, last, rfl⟩
        · exact hempty rfl
        · rw [hlast last (by simp)]
          exact hindent last (by simp)
      have hmarkQuote := (isMark_cases hmark).1
      refine ⟨?_, .inl ?_⟩
      · rw [endsInQuote, hquote]
        simp [quoteFrom, hmarkQuote, hmark, hlater]
      · have hcut : stripFrom none later (mark :: text) = [] := by
          simp [stripFrom, hmarkQuote, hmark, hlater]
        rw [stripComment, hstrip, hcut, List.append_nil]
        exact trim_blanks fun char hchar => (isBreak_cases (hindent char hchar)).2.2
  | @header before inner after hbefore hinner hname hafter =>
      have hplainInner : ∀ char ∈ inner,
          isQuote char = false ∧ isMark char = false ∧ char ≠ ']' := by
        intro char hchar
        rcases hinner char hchar with hblank | hkey
        · exact plain_of_isBlank hblank
        · obtain ⟨hquote, hmark, hclose, -⟩ := plain_of_foldChar hkey
          exact ⟨hquote, hmark, hclose⟩
      have hplain : ∀ char ∈ before ++ '[' :: (inner ++ ']' :: after),
          isQuote char = false ∧ isMark char = false := by
        intro char hchar
        simp only [List.mem_append, List.mem_cons] at hchar
        rcases hchar with hchar | rfl | hchar | rfl | hchar
        · exact ⟨(plain_of_isBlank (hbefore char hchar)).1,
            (plain_of_isBlank (hbefore char hchar)).2.1⟩
        · decide
        · exact ⟨(hplainInner char hchar).1, (hplainInner char hchar).2.1⟩
        · decide
        · exact ⟨(plain_of_isBlank (hafter char hchar)).1,
            (plain_of_isBlank (hafter char hchar)).2.1⟩
      obtain ⟨hstrip, hclosed⟩ := stripComment_plain hplain
      refine ⟨hclosed, .inr ⟨inner, ?_, fun hmem => (hplainInner ']' hmem).2.2 rfl, hname⟩⟩
      rw [hstrip, trim_blanks_append hbefore]
      have hsplit : '[' :: (inner ++ ']' :: after) = '[' :: (inner ++ [']']) ++ after := by simp
      rw [hsplit, trim_append_blanks hafter]
      exact trim_delimited (by decide) (by decide) inner
  | @commented line text blank mark hline hblank hmark ih =>
      obtain ⟨hclosed, htrimmed⟩ := ih
      refine ⟨?_, ?_⟩
      · exact quoteFrom_append_of_closed hblank hmark text hclosed
      · rw [trim_stripComment_append hclosed hblank hmark]
        exact htrimmed

/-- A filler within the limit of a line holds no setting. -/
theorem readLine_filler {line : List Char} (h : Filler line) (hlength : line.length < lineBytes)
    (sectionName : List Char) :
    readLine sectionName line = .ok .blank ∨
      ∃ next, readLine sectionName line = .ok (.header next) := by
  rw [readLine, if_neg (Nat.not_le.mpr hlength)]
  rcases h.trimmed.2 with hempty | ⟨inner, hheader, hclose, hne, hshort, hkey⟩
  · left
    rw [hempty]
  · right
    have hname : normalise plcConfigKeyMax (trim inner) = .ok ((trim inner).map foldChar) := by
      rw [normalise_eq_ok (by decide)]
      exact ⟨rfl, by simpa using hne, by simpa using hshort, hkey⟩
    have hread : readHeader (inner ++ [']']) = .ok (.header ((trim inner).map foldChar)) := by
      simp only [readHeader, span_append hclose, hname]
      rfl
    rw [hheader]
    exact ⟨(trim inner).map foldChar, by simp only [if_true, hread]⟩

/-! ## The file -/

/-- Its lines, and the settings it holds. -/
def linesOf (file : List FileLine) : List (List Char) := file.map FileLine.text

def entriesOf (file : List FileLine) : List Entry := file.filterMap FileLine.entry?

/-- The settings are read from the lines, from every section on. -/
theorem readAll_linesOf {file : List FileLine} (hfile : ∀ line ∈ file, line.WellFormed)
    (sectionName : List Char) : readAll sectionName (linesOf file) = some (entriesOf file) := by
  induction file generalizing sectionName with
  | nil => rfl
  | cons line rest ih =>
      have hline := hfile line List.mem_cons_self
      have hrest := ih fun other hother => hfile other (List.mem_cons_of_mem _ hother)
      unfold linesOf entriesOf at hrest ⊢
      rw [List.map_cons, readAll]
      cases line with
      | setting entry =>
          rw [FileLine.text, readLine_settingLine hline]
          simp only [hrest, Option.map_some]
          rfl
      | filler text =>
          rcases readLine_filler hline.1 hline.2.2 sectionName with hread | ⟨next, hread⟩
          · rw [FileLine.text, hread]
            exact hrest sectionName
          · rw [FileLine.text, hread]
            exact hrest next

theorem newline_notMem_text {line : FileLine} (h : line.WellFormed) : '\n' ∉ line.text := by
  cases line with
  | filler text => exact h.2.1
  | setting entry =>
      intro hmem
      simp only [FileLine.text, settingLine, List.mem_append, List.mem_cons, List.not_mem_nil,
        or_false] at hmem
      rcases hmem with hkey | hrest
      · exact absurd (h.keyChars '\n' hkey) (by decide)
      · simp [h.valueNewline] at hrest

/-- The last line may do without its newline. -/
theorem readAll_textLines {lines : List (List Char)} (hlines : ∀ line ∈ lines, '\n' ∉ line)
    {text : List Char} (htext : text = unlines lines ∨ text ++ ['\n'] = unlines lines)
    (sectionName : List Char) :
    readAll sectionName (textLines text) = readAll sectionName lines := by
  rcases htext with rfl | htext
  · have hsplit := textLines_unlines_append hlines []
    simp only [List.append_nil] at hsplit
    rw [hsplit]
    simp [textLines]
  · rcases List.eq_nil_or_concat' lines with rfl | ⟨front, last, rfl⟩
    · simp [unlines] at htext
    · have hfront : ∀ line ∈ front, '\n' ∉ line := fun line hline =>
        hlines line (List.mem_append_left _ hline)
      have hbody : text = unlines front ++ last := by
        rw [unlines, List.flatMap_append, List.flatMap_singleton, ← List.append_assoc] at htext
        exact List.append_cancel_right htext
      rw [hbody, textLines_unlines_append hfront]
      by_cases hempty : last = []
      · -- an empty last line is read as blank
        rw [hempty, readAll_append, readAll_append]
        rfl
      · rw [textLines_of_ne_nil (hlines last (by simp)) hempty]

/-- **Round trip.** A file of at most 64 writable settings with different keys, with any
fillers between them and with or without a last newline, is accepted, and its table is the
settings in their order. -/
theorem settings_round_trip {file : List FileLine} (hfile : ∀ line ∈ file, line.WellFormed)
    (hkeys : ((entriesOf file).map Entry.key).Nodup)
    (hcount : (entriesOf file).length ≤ plcConfigMaxEntries) {text : List Char}
    (htext : text = unlines (linesOf file) ∨ text ++ ['\n'] = unlines (linesOf file)) :
    plcConfigParse text = ⟨.ok, entriesOf file, ""⟩ := by
  have hlines : ∀ line ∈ linesOf file, '\n' ∉ line := by
    intro line hline
    obtain ⟨source, hsource, rfl⟩ := List.mem_map.mp hline
    exact newline_notMem_text (hfile source hsource)
  rw [plcConfigParse_eq_ok, readAll_textLines hlines htext]
  exact ⟨readAll_linesOf hfile [], hkeys, hcount⟩

/-- A comment, a section and a value that needs its quotes. -/
def guardedFile : List FileLine :=
  [.filler "# plant".toList, .filler "[eip]".toList,
    .setting ⟨"SOFTPLC_NOTE".toList, " it's #1; = [x] ".toList⟩]

theorem guardedFile_wellFormed : ∀ line ∈ guardedFile, line.WellFormed := by
  have hcomment : Filler ([] ++ '#' :: " plant".toList) :=
    .comment (fun char hchar => by cases hchar) (by decide)
  have hname : ∀ char ∈ "eip".toList, isKeyChar (foldChar char) = true :=
    List.all_eq_true.mp (by decide)
  have htrim : trim "eip".toList = "eip".toList := by decide
  have hheader : Filler ([] ++ '[' :: ("eip".toList ++ ']' :: [])) :=
    .header (fun char hchar => by cases hchar) (fun char hchar => .inr (hname char hchar))
      ⟨by decide, by decide, htrim ▸ hname⟩ (fun char hchar => by cases hchar)
  intro line hline
  simp only [guardedFile, List.mem_cons, List.not_mem_nil, or_false] at hline
  rcases hline with rfl | rfl | rfl
  · exact ⟨hcomment, by decide, by decide⟩
  · exact ⟨hheader, by decide, by decide⟩
  · exact ⟨by decide, List.all_eq_true.mp (by decide), by decide, by decide, by decide, by decide⟩

theorem settings_round_trip_guardedFile :
    plcConfigParse (unlines (linesOf guardedFile)) =
      ⟨.ok, [⟨"SOFTPLC_NOTE".toList, " it's #1; = [x] ".toList⟩], ""⟩ :=
  settings_round_trip guardedFile_wellFormed (by decide) (by decide) (.inl rfl)

end SoftPlc.Config
