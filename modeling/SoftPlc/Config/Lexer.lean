/-
# Reading one line of a settings file

The string functions of `plc_config.c`: cutting off a comment, trimming, dropping one
layer of quotes, and bringing a key into the spelling of an environment variable. A
text is a list of C characters without its terminator.

`strip_comment` follows quotes anywhere on a line, while `unquote` only knows quotes
around a whole value. `endsInQuote` says that the first of them is left inside a
quotation when the line ends.
-/

import SoftPlc.Core.ProtocolAdapter
import SoftPlc.Math.Parse
import Mathlib.Data.List.DropRight

namespace SoftPlc.Config

open SoftPlc.Math

/-- `PLC_CONFIG_KEY_MAX`, `PLC_CONFIG_VALUE_MAX` and `PLC_CONFIG_MAX_ENTRIES`. -/
def plcConfigKeyMax : ℕ := 64

def plcConfigValueMax : ℕ := 256

def plcConfigMaxEntries : ℕ := 64

/-- The size of the line buffer. -/
def lineBytes : ℕ := plcConfigValueMax + plcConfigKeyMax + 8

/-! ## Blanks -/

/-- What `trim` removes. -/
def isBlank (char : Char) : Bool := char == ' ' || char == '\t' || char == '\r'

/-- `trim`. -/
def trim (text : List Char) : List Char := (text.dropWhile isBlank).rdropWhile isBlank

/-- A blank at the end is trimmed. -/
theorem trim_concat {blank : Char} (hblank : isBlank blank = true) (text : List Char) :
    trim (text ++ [blank]) = trim text := by
  unfold trim
  rw [List.dropWhile_append]
  split
  · next hempty =>
      rw [List.isEmpty_iff] at hempty
      simp [hempty, hblank]
  · exact List.rdropWhile_concat_pos _ _ _ hblank

/-- So are all of them, at both ends. -/
theorem trim_append_blanks {blanks : List Char} (hblanks : ∀ char ∈ blanks, isBlank char = true)
    (text : List Char) : trim (text ++ blanks) = trim text := by
  induction blanks generalizing text with
  | nil => rw [List.append_nil]
  | cons blank blanks ih =>
      rw [List.append_cons, ih fun char hchar => hblanks char (List.mem_cons_of_mem _ hchar)]
      exact trim_concat (hblanks blank List.mem_cons_self) text

theorem trim_blanks_append {blanks : List Char} (hblanks : ∀ char ∈ blanks, isBlank char = true)
    (text : List Char) : trim (blanks ++ text) = trim text := by
  rw [trim, List.dropWhile_append_of_pos hblanks, ← trim]

theorem trim_blanks {blanks : List Char} (hblanks : ∀ char ∈ blanks, isBlank char = true) :
    trim blanks = [] := by
  rw [← List.append_nil blanks, trim_blanks_append hblanks]
  rfl

/-- A text that neither begins nor ends with a blank stays. -/
theorem trim_eq_self {text : List Char} (hfirst : ∀ char ∈ text.head?, isBlank char = false)
    (hlast : ∀ char ∈ text.getLast?, isBlank char = false) : trim text = text := by
  have hleft : text.dropWhile isBlank = text := by
    cases text with
    | nil => rfl
    | cons char rest => simp [hfirst char rfl]
  rw [trim, hleft]
  rcases List.eq_nil_or_concat' text with rfl | ⟨before, char, rfl⟩
  · rfl
  · have hchar : isBlank char = false := hlast char (by simp)
    exact List.rdropWhile_concat_neg _ _ _ (by simp [hchar])

/-- What trimming leaves begins with the first character that is not blank. -/
theorem head?_trim (text : List Char) : (trim text).head? = (text.dropWhile isBlank).head? := by
  unfold trim
  cases hbody : text.dropWhile isBlank with
  | nil => rfl
  | cons char rest =>
      have hchar : isBlank char = false := by
        have hhead := List.head?_dropWhile_not isBlank text
        simpa [hbody] using hhead
      have hkept : (char :: rest).rdropWhile isBlank ≠ [] := by
        intro hnil
        have hall := List.rdropWhile_eq_nil_iff.mp hnil char List.mem_cons_self
        simp [hchar] at hall
      obtain ⟨first, others, hcons⟩ := List.exists_cons_of_ne_nil hkept
      have hstarts := List.rdropWhile_prefix isBlank (char :: rest)
      rw [hcons, List.cons_prefix_cons] at hstarts
      rw [hcons, hstarts.1]
      rfl

/-! ## Comments -/

/-- The two quote characters. -/
def isQuote (char : Char) : Bool := char == '"' || char == '\''

/-- The two characters that start a comment. -/
def isMark (char : Char) : Bool := char == '#' || char == ';'

/-- After the start of the line and after these, a mark starts a comment. -/
def isBreak (char : Char) : Bool := char == ' ' || char == '\t'

/-- The loop of `strip_comment`, with its `quote` and whether a mark would start a
comment here. -/
def stripFrom : Option Char → Bool → List Char → List Char
  | _, _, [] => []
  | some quote, _, char :: rest =>
      char :: stripFrom (if char = quote then none else some quote) (isBreak char) rest
  | none, breaks, char :: rest =>
      if isQuote char then char :: stripFrom (some char) (isBreak char) rest
      else if isMark char ∧ breaks then []
      else char :: stripFrom none (isBreak char) rest

/-- `strip_comment`. -/
def stripComment (line : List Char) : List Char := stripFrom none true line

/-- Whether a quotation is open at the end of a line. One that a comment ends is
not. -/
def quoteFrom : Option Char → Bool → List Char → Bool
  | quote, _, [] => quote.isSome
  | some quote, _, char :: rest =>
      quoteFrom (if char = quote then none else some quote) (isBreak char) rest
  | none, breaks, char :: rest =>
      if isQuote char then quoteFrom (some char) (isBreak char) rest
      else if isMark char ∧ breaks then false
      else quoteFrom none (isBreak char) rest

def endsInQuote (line : List Char) : Bool := quoteFrom none true line

/-- A mark is neither a quote nor blank. -/
theorem isMark_cases {mark : Char} (hmark : isMark mark = true) :
    isQuote mark = false ∧ isBlank mark = false ∧ isBreak mark = false := by
  simp only [isMark, Bool.or_eq_true, beq_iff_eq] at hmark
  rcases hmark with rfl | rfl <;> decide

theorem isBreak_cases {char : Char} (hbreak : isBreak char = true) :
    isQuote char = false ∧ isMark char = false ∧ isBlank char = true := by
  simp only [isBreak, Bool.or_eq_true, beq_iff_eq] at hbreak
  rcases hbreak with rfl | rfl <;> decide

/-- Behind a closed line a comment is cut off, up to the blank before it. -/
theorem stripFrom_append_of_closed {blank mark : Char} (hblank : isBreak blank = true)
    (hmark : isMark mark = true) (comment : List Char) {quote : Option Char} {breaks : Bool}
    {line : List Char} (hclosed : quoteFrom quote breaks line = false) :
    stripFrom quote breaks (line ++ blank :: mark :: comment) = stripFrom quote breaks line ∨
      stripFrom quote breaks (line ++ blank :: mark :: comment) =
        stripFrom quote breaks line ++ [blank] := by
  induction line generalizing quote breaks with
  | nil =>
      cases quote with
      | some quote => cases hclosed
      | none =>
          right
          obtain ⟨hnoQuote, hnoMark, -⟩ := isBreak_cases hblank
          obtain ⟨hmarkQuote, -, -⟩ := isMark_cases hmark
          simp [stripFrom, hnoQuote, hnoMark, hblank, hmark, hmarkQuote]
  | cons char rest ih =>
      cases quote with
      | some quote =>
          simp only [quoteFrom] at hclosed
          simp only [List.cons_append, stripFrom, List.cons.injEq, true_and]
          exact ih hclosed
      | none =>
          simp only [quoteFrom] at hclosed
          simp only [List.cons_append, stripFrom]
          split_ifs at hclosed ⊢
          · simp only [List.cons_append, List.cons.injEq, true_and]
            exact ih hclosed
          · exact .inl rfl
          · simp only [List.cons_append, List.cons.injEq, true_and]
            exact ih hclosed

/-- The comment leaves the line closed. -/
theorem quoteFrom_append_of_closed {blank mark : Char} (hblank : isBreak blank = true)
    (hmark : isMark mark = true) (comment : List Char) {quote : Option Char} {breaks : Bool}
    {line : List Char} (hclosed : quoteFrom quote breaks line = false) :
    quoteFrom quote breaks (line ++ blank :: mark :: comment) = false := by
  induction line generalizing quote breaks with
  | nil =>
      cases quote with
      | some quote => cases hclosed
      | none =>
          obtain ⟨hnoQuote, hnoMark, -⟩ := isBreak_cases hblank
          obtain ⟨hmarkQuote, -, -⟩ := isMark_cases hmark
          simp [quoteFrom, hnoQuote, hnoMark, hblank, hmark, hmarkQuote]
  | cons char rest ih =>
      cases quote with
      | some quote =>
          simp only [List.cons_append, quoteFrom] at hclosed ⊢
          exact ih hclosed
      | none =>
          simp only [List.cons_append, quoteFrom] at hclosed ⊢
          split_ifs at hclosed ⊢
          · exact ih hclosed
          · rfl
          · exact ih hclosed

/-- Inside a quotation the mark is kept. -/
theorem stripFrom_append_of_open {blank mark : Char} (hblank : isBreak blank = true)
    (hmark : isMark mark = true) (comment : List Char) {quote : Option Char} {breaks : Bool}
    {line : List Char} (hquote : ∀ char ∈ quote, isQuote char = true)
    (hopen : quoteFrom quote breaks line = true) :
    stripFrom quote breaks line = line ∧
      ∃ kept, stripFrom quote breaks (line ++ blank :: mark :: comment) =
        line ++ blank :: mark :: kept := by
  induction line generalizing quote breaks with
  | nil =>
      cases quote with
      | none => cases hopen
      | some quote =>
          have hisQuote : isQuote quote = true := hquote quote rfl
          have hblankNe : blank ≠ quote := by
            rintro rfl
            simp [(isBreak_cases hblank).1] at hisQuote
          have hmarkNe : mark ≠ quote := by
            rintro rfl
            simp [(isMark_cases hmark).1] at hisQuote
          refine ⟨rfl, stripFrom (some quote) (isBreak mark) comment, ?_⟩
          simp [stripFrom, hblankNe, hmarkNe]
  | cons char rest ih =>
      cases quote with
      | some quote =>
          simp only [quoteFrom] at hopen
          have hnext : ∀ next ∈ (if char = quote then none else some quote),
              isQuote next = true := by
            split_ifs
            · exact fun next hnext => by cases hnext
            · exact hquote
          obtain ⟨hline, kept, hkept⟩ := ih hnext hopen
          refine ⟨by rw [stripFrom, hline], kept, ?_⟩
          rw [List.cons_append, stripFrom, hkept, List.cons_append]
      | none =>
          simp only [quoteFrom] at hopen
          simp only [List.cons_append, stripFrom]
          split_ifs at hopen ⊢ with hchar hcomment
          · obtain ⟨hline, kept, hkept⟩ :=
              ih (fun next hnext => by cases hnext; exact hchar) hopen
            exact ⟨by rw [hline], kept, by rw [hkept]⟩
          · obtain ⟨hline, kept, hkept⟩ := ih (fun next hnext => by cases hnext) hopen
            exact ⟨by rw [hline], kept, by rw [hkept]⟩

/-- A comment behind a closed line changes nothing that `trim` leaves. -/
theorem trim_stripComment_append {line : List Char} (hclosed : endsInQuote line = false)
    {blank mark : Char} (hblank : isBreak blank = true) (hmark : isMark mark = true)
    (comment : List Char) :
    trim (stripComment (line ++ blank :: mark :: comment)) = trim (stripComment line) := by
  rcases stripFrom_append_of_closed hblank hmark comment hclosed with hsame | hblankKept
  · rw [stripComment, hsame, stripComment]
  · rw [stripComment, hblankKept, trim_concat (isBreak_cases hblank).2.2, stripComment]

/-- A part of a line without quotes and marks passes unchanged. -/
theorem stripFrom_plain {plain : List Char}
    (hplain : ∀ char ∈ plain, isQuote char = false ∧ isMark char = false) (breaks : Bool)
    (rest : List Char) :
    ∃ later, (plain = [] → later = breaks) ∧
      (∀ last ∈ plain.getLast?, later = isBreak last) ∧
      stripFrom none breaks (plain ++ rest) = plain ++ stripFrom none later rest ∧
      quoteFrom none breaks (plain ++ rest) = quoteFrom none later rest := by
  induction plain generalizing breaks with
  | nil => exact ⟨breaks, fun _ => rfl, fun last hlast => (by cases hlast), rfl, rfl⟩
  | cons char plain ih =>
      obtain ⟨hnoQuote, hnoMark⟩ := hplain char List.mem_cons_self
      obtain ⟨later, hempty, hlast, hstrip, hquote⟩ :=
        ih (fun other hother => hplain other (List.mem_cons_of_mem _ hother)) (isBreak char)
      refine ⟨later, fun h => (by cases h), ?_, ?_, ?_⟩
      · intro last hmem
        cases plain with
        | nil =>
            cases hmem
            exact hempty rfl
        | cons next others => exact hlast last (by simpa using hmem)
      · simp [stripFrom, hnoQuote, hnoMark, hstrip]
      · simp [quoteFrom, hnoQuote, hnoMark, hquote]

/-- A line of such a part only is closed and has no comment. -/
theorem stripComment_plain {line : List Char}
    (hplain : ∀ char ∈ line, isQuote char = false ∧ isMark char = false) :
    stripComment line = line ∧ endsInQuote line = false := by
  obtain ⟨later, -, -, hstrip, hquote⟩ := stripFrom_plain hplain true []
  rw [List.append_nil] at hstrip hquote
  rw [stripComment, endsInQuote, hstrip, hquote]
  simp [stripFrom, quoteFrom]

/-- So does a quotation up to the closing quote. -/
theorem stripFrom_quoted {quote : Char} {quoted : List Char} (hquoted : quote ∉ quoted)
    (breaks : Bool) (rest : List Char) :
    stripFrom (some quote) breaks (quoted ++ quote :: rest) =
      quoted ++ quote :: stripFrom none (isBreak quote) rest := by
  induction quoted generalizing breaks with
  | nil => simp [stripFrom]
  | cons char quoted ih =>
      simp only [List.mem_cons, not_or] at hquoted
      simp [stripFrom, Ne.symm hquoted.1, ih hquoted.2]

/-! ## Quotes around a value -/

/-- `unquote`. -/
def unquote (text : List Char) : List Char :=
  match text with
  | first :: rest =>
      if isQuote first ∧ rest.getLast? = some first then rest.dropLast else text
  | [] => text

theorem unquote_quoted (value : List Char) : unquote ('"' :: (value ++ ['"'])) = value := by
  simp [unquote, isQuote]

/-- A value that begins with no quote is taken as it stands. -/
theorem unquote_of_head {text : List Char}
    (hhead : ∀ char ∈ text.head?, isQuote char = false) : unquote text = text := by
  cases text with
  | nil => rfl
  | cons first rest => simp [unquote, hhead first rfl]

/-! ## Keys -/

/-- What `normalise` makes of one character. -/
def foldChar (char : Char) : Char :=
  if char == '-' || char == '.' || char == ' ' then '_'
  else if char.isLower then char.toUpper
  else char

/-- The characters of a key. -/
def isKeyChar (char : Char) : Bool := char.isUpper || char.isDigit || char == '_'

/-- The loop of `normalise`, with what it has written so far. -/
def normaliseFrom (outLen : ℕ) (out : List Char) : List Char → Except PlcStatus (List Char)
  | [] => if out = [] then .error .errInval else .ok out
  | char :: rest =>
      if isKeyChar (foldChar char) = false then .error .errInval
      else if outLen ≤ out.length + 1 then .error .errNomem
      else normaliseFrom outLen (out ++ [foldChar char]) rest

/-- `normalise`, into a buffer of `outLen` bytes. -/
def normalise (outLen : ℕ) (text : List Char) : Except PlcStatus (List Char) :=
  normaliseFrom outLen [] text

theorem normaliseFrom_eq_ok {outLen : ℕ} {out text result : List Char}
    (hout : out.length < outLen) :
    normaliseFrom outLen out text = .ok result ↔
      result = out ++ text.map foldChar ∧ result ≠ [] ∧ result.length < outLen ∧
        ∀ char ∈ text, isKeyChar (foldChar char) = true := by
  induction text generalizing out with
  | nil =>
      simp only [normaliseFrom, List.map_nil, List.append_nil]
      split_ifs with hempty
      · simp only [hempty, false_iff]
        exact fun h => h.2.1 h.1
      · simp only [Except.ok.injEq]
        constructor
        · rintro rfl
          exact ⟨rfl, hempty, hout, fun char hchar => by cases hchar⟩
        · exact fun h => h.1.symm
  | cons char rest ih =>
      simp only [normaliseFrom]
      split_ifs with hchar hfull
      · simp [hchar]
      · simp only [false_iff, not_and]
        rintro rfl - hlength
        simp at hlength
        omega
      · rw [ih (by simpa using hfull)]
        simp only [Bool.not_eq_false] at hchar
        simp [hchar]

/-- What a normalised key is: every character folded, all of them characters of a key,
and short enough. -/
theorem normalise_eq_ok {outLen : ℕ} (houtLen : 0 < outLen) {text result : List Char} :
    normalise outLen text = .ok result ↔
      result = text.map foldChar ∧ result ≠ [] ∧ result.length < outLen ∧
        ∀ char ∈ text, isKeyChar (foldChar char) = true := by
  rw [normalise, normaliseFrom_eq_ok (by simpa using houtLen), List.nil_append]

/-- A character of a key is its own folding. -/
theorem foldChar_of_isKeyChar {char : Char} (hkey : isKeyChar char = true) :
    foldChar char = char := by
  have hplain : (char == '-' || char == '.' || char == ' ') = false := by
    by_contra hnot
    simp only [Bool.not_eq_false, Bool.or_eq_true, beq_iff_eq] at hnot
    rcases hnot with (rfl | rfl) | rfl <;> exact absurd hkey (by decide)
  have hlower : char.isLower = false := by
    by_contra hnot
    rw [Bool.not_eq_false] at hnot
    have hfrom : 'a'.val ≤ char.val := of_decide_eq_true (Bool.and_eq_true_iff.mp hnot).1
    simp only [isKeyChar, Bool.or_eq_true, beq_iff_eq] at hkey
    rcases hkey with (hupper | hdigit) | rfl
    · have hto : char.val ≤ 'Z'.val := (of_decide_eq_true hupper).2
      exact absurd (UInt32.le_trans hfrom hto) (by decide)
    · have hto : char.val ≤ '9'.val := of_decide_eq_true (Bool.and_eq_true_iff.mp hdigit).2
      exact absurd (UInt32.le_trans hfrom hto) (by decide)
    · exact absurd hfrom (by decide)
  simp only [foldChar, hplain, hlower, Bool.false_eq_true, if_false]

/-- Every normalised key normalises to itself. -/
theorem normalise_of_key {outLen : ℕ} {key : List Char} (hne : key ≠ [])
    (hlength : key.length < outLen) (hkey : ∀ char ∈ key, isKeyChar char = true) :
    normalise outLen key = .ok key := by
  have hfold : key.map foldChar = key :=
    (List.map_congr_left fun char hchar => foldChar_of_isKeyChar (hkey char hchar)).trans
      (List.map_id key)
  rw [normalise_eq_ok (Nat.zero_lt_of_lt hlength)]
  refine ⟨hfold.symm, hne, hlength, fun char hchar => ?_⟩
  rw [foldChar_of_isKeyChar (hkey char hchar)]
  exact hkey char hchar

/-- What every key begins with. -/
def keyStem : List Char := "SOFTPLC_".toList

/-- A result that has to fit a buffer. -/
def fits (outLen : ℕ) (text : List Char) : Except PlcStatus (List Char) :=
  if text.length < outLen then .ok text else .error .errNomem

/-- What a section contributes to a key. A null section and an empty one are the same
here; `[core]` and `[softplc]` contribute nothing either. -/
def sectionPart (sectionName : List Char) : Except PlcStatus (List Char) :=
  if sectionName = [] then .ok []
  else do
    let s ← normalise plcConfigKeyMax sectionName
    return if s = "CORE".toList ∨ s = "SOFTPLC".toList then [] else s

/-- `qualify`. -/
def qualify (outLen : ℕ) (sectionName key : List Char) : Except PlcStatus (List Char) := do
  let k ← normalise plcConfigKeyMax key
  if keyStem <+: k then fits outLen k
  else
    let s ← sectionPart sectionName
    fits outLen (if s ≠ [] then keyStem ++ s ++ '_' :: k else keyStem ++ k)

/-- A key in full is taken as it stands, in every section. -/
theorem qualify_of_key {key : List Char} (hstem : keyStem <+: key)
    (hkey : ∀ char ∈ key, isKeyChar char = true) (hlength : key.length < plcConfigKeyMax)
    (sectionName : List Char) : qualify plcConfigKeyMax sectionName key = .ok key := by
  have hne : key ≠ [] := by
    rintro rfl
    exact absurd (List.prefix_nil.mp hstem) (by decide)
  simp only [qualify, normalise_of_key hne hlength hkey, bind, Except.bind, hstem, if_true,
    fits, hlength]

/-! ## Splitting at a character -/

/-- The first stop is where a text is split. -/
theorem span_append {stop : Char} {left : List Char} (hleft : stop ∉ left) (right : List Char) :
    (left ++ stop :: right).span (· ≠ stop) = (left, stop :: right) := by
  have hall : ∀ char ∈ left, decide (char ≠ stop) = true := by
    intro char hchar
    rw [decide_eq_true_eq]
    rintro rfl
    exact hleft hchar
  rw [List.span_eq_takeWhile_dropWhile, List.takeWhile_append_of_pos hall,
    List.dropWhile_append_of_pos hall]
  simp

end SoftPlc.Config
