/-
# Setting lines, spellings and lookup

Which lines hold a setting can be seen from their first character, and every line of an
accepted text that does adds exactly one entry. A lookup finds an entry under each
spelling that resolves to its key.

A spelling without `SOFTPLC_` is completed only if it does not begin with it. So the key
`SOFTPLC_SOFTPLC_X`, which a section named `softplc_...` produces, is found under its full
name and not under `SOFTPLC_X`, which is the name of another setting.
-/

import Mathlib.Data.List.Nodup
import SoftPlc.Config.Parser

namespace SoftPlc.Config

open SoftPlc.Math

/-! ## Setting lines -/

/-- The first character of a line that is not blank. -/
def firstChar (line : List Char) : Option Char := (line.dropWhile isBlank).head?

/-- A line that is not blank, not a comment and not a section header. -/
def isSettingLine (line : List Char) : Bool :=
  match firstChar line with
  | none => false
  | some char => !isMark char && char != '['

/-- Of a line without a comment at its start, `trim` leaves the first character. -/
theorem head?_trim_stripComment (line : List Char) :
    (trim (stripComment line)).head? = firstChar line ∨
      trim (stripComment line) = [] ∧ ∃ mark, firstChar line = some mark ∧ isMark mark = true := by
  have hblanks : ∀ char ∈ line.takeWhile isBlank, isBlank char = true := fun char hchar =>
    List.mem_takeWhile_imp hchar
  have hplain : ∀ char ∈ line.takeWhile isBlank, isQuote char = false ∧ isMark char = false := by
    intro char hchar
    have hblank := hblanks char hchar
    simp only [isBlank, Bool.or_eq_true, beq_iff_eq] at hblank
    rcases hblank with (rfl | rfl) | rfl <;> decide
  obtain ⟨later, -, -, hstrip, -⟩ := stripFrom_plain hplain true (line.dropWhile isBlank)
  rw [List.takeWhile_append_dropWhile] at hstrip
  rw [stripComment, hstrip, trim_blanks_append hblanks, firstChar]
  cases hbody : line.dropWhile isBlank with
  | nil => exact .inl rfl
  | cons first rest =>
      have hfirst : isBlank first = false := by
        have hhead := List.head?_dropWhile_not isBlank line
        simpa [hbody] using hhead
      by_cases hcut : isMark first = true ∧ later = true
      · right
        simp [stripFrom, hcut, (isMark_cases hcut.1).1, trim]
      · left
        have hkept : ∃ others, stripFrom none later (first :: rest) = first :: others := by
          simp only [stripFrom, hcut, if_false]
          split_ifs <;> exact ⟨_, rfl⟩
        obtain ⟨others, hothers⟩ := hkept
        rw [hothers, head?_trim]
        simp [hfirst]

/-- A key that begins with a mark is refused. -/
theorem qualify_of_mark {sectionName key : List Char} {mark : Char}
    (hhead : key.head? = some mark) (hmark : isMark mark = true) {result : List Char} :
    qualify plcConfigKeyMax sectionName key ≠ .ok result := by
  intro hqualify
  obtain ⟨others, rfl⟩ : ∃ others, key = mark :: others := by
    cases key with
    | nil => cases hhead
    | cons first others => exact ⟨others, by rw [Option.some.inj hhead]⟩
  have hbad : isKeyChar (foldChar mark) = false := by
    simp only [isMark, Bool.or_eq_true, beq_iff_eq] at hmark
    rcases hmark with rfl | rfl <;> decide
  simp [qualify, normalise, normaliseFrom, hbad, bind, Except.bind] at hqualify

theorem readSetting_of_mark {sectionName rest : List Char} {mark : Char}
    (hmark : isMark mark = true) {reading : Reading} :
    readSetting sectionName (mark :: rest) ≠ .ok reading := by
  intro hread
  have hne : mark ≠ '=' := by
    rintro rfl
    exact absurd hmark (by decide)
  rw [readSetting, List.span_eq_takeWhile_dropWhile] at hread
  simp only [List.takeWhile_cons, ne_eq, hne, not_false_eq_true, decide_true, if_true] at hread
  split at hread
  · next left _ right heq =>
      obtain ⟨rfl, -⟩ := Prod.mk.inj heq
      unfold readPair at hread
      dsimp only at hread
      split at hread
      · cases hread
      · next qualified hqualified =>
          refine qualify_of_mark ?_ hmark hqualified
          rw [head?_trim]
          simp [(isMark_cases hmark).2.1]
  · cases hread

/-- The accepted lines that hold a setting are those that look like one. -/
theorem readLine_setting_iff {sectionName line : List Char} {reading : Reading}
    (hread : readLine sectionName line = .ok reading) :
    isSettingLine line = true ↔ ∃ entry, reading = .setting entry := by
  rw [readLine] at hread
  split_ifs at hread
  have hhead := head?_trim_stripComment line
  unfold isSettingLine
  cases htrim : trim (stripComment line) with
  | nil =>
      rw [htrim] at hread hhead
      cases hread
      rcases hhead with hnone | ⟨-, mark, hmark, hisMark⟩
      · simp [← hnone]
      · simp [hmark, hisMark]
  | cons first rest =>
      rw [htrim] at hread hhead
      rcases hhead with hfirst | ⟨hnil, -⟩
      · rw [← hfirst]
        dsimp only [List.head?] at hread ⊢
        split_ifs at hread with hbracket
        · obtain ⟨next, rfl⟩ := readHeader_header hread
          simp [hbracket]
        · obtain ⟨entry, rfl⟩ := readSetting_setting hread
          have hnoMark : isMark first = false := by
            by_contra hmark
            exact readSetting_of_mark (by simpa using hmark) hread
          simp [hnoMark, hbracket]
      · cases hnil

/-- There is one entry for each of them. -/
theorem length_of_readAll {sectionName : List Char} {lines : List (List Char)}
    {table : List Entry} (hread : readAll sectionName lines = some table) :
    table.length = lines.countP isSettingLine := by
  induction lines generalizing sectionName table with
  | nil =>
      cases hread
      rfl
  | cons line rest ih =>
      rw [readAll] at hread
      rw [List.countP_cons]
      cases hline : readLine sectionName line with
      | error what => simp [hline] at hread
      | ok reading =>
          have hiff := readLine_setting_iff hline
          cases reading with
          | blank =>
              simp only [hline] at hread
              simp [ih hread, hiff]
          | header next =>
              simp only [hline] at hread
              simp [ih hread, hiff]
          | setting entry =>
              simp only [hline] at hread
              obtain ⟨others, hothers, rfl⟩ := Option.map_eq_some_iff.mp hread
              simp [ih hothers, hiff]

/-! ## Spellings -/

/-- A buffer with enough room holds the text. -/
theorem fits_eq_ok {outLen : ℕ} {text result : List Char} :
    fits outLen text = .ok result ↔ result = text ∧ text.length < outLen := by
  unfold fits
  split_ifs with hfits
  · simp [hfits, eq_comm]
  · simp [hfits]

/-- Every character of a normalised text is one of a key. -/
theorem isKeyChar_of_normalise {text result : List Char}
    (hnormalise : normalise plcConfigKeyMax text = .ok result) :
    ∀ char ∈ result, isKeyChar char = true := by
  obtain ⟨rfl, -, -, hkey⟩ := (normalise_eq_ok (by decide)).mp hnormalise
  intro char hchar
  obtain ⟨source, hsource, rfl⟩ := List.mem_map.mp hchar
  exact hkey source hsource

/-- What a key of the table is. -/
structure IsKey (key : List Char) : Prop where
  stem : keyStem <+: key
  chars : ∀ char ∈ key, isKeyChar char = true
  length : key.length < plcConfigKeyMax

theorem isKeyChar_keyStem : ∀ char ∈ keyStem, isKeyChar char = true :=
  List.all_eq_true.mp (by decide)

/-- What a section contributes is made of characters of a key. -/
theorem isKeyChar_of_sectionPart {sectionName part : List Char}
    (hsection : sectionPart sectionName = .ok part) : ∀ char ∈ part, isKeyChar char = true := by
  unfold sectionPart at hsection
  split_ifs at hsection
  · cases hsection
    exact fun char hchar => by cases hchar
  · obtain ⟨s, hs, hpart⟩ := bind_eq_ok.mp hsection
    cases hpart
    split_ifs
    · exact fun char hchar => by cases hchar
    · exact isKeyChar_of_normalise hs

/-- A qualified key is the normalised text, or the stem and a section before it. -/
theorem qualify_cases {sectionName text key : List Char}
    (hqualify : qualify plcConfigKeyMax sectionName text = .ok key) :
    ∃ k, normalise plcConfigKeyMax text = .ok k ∧ key.length < plcConfigKeyMax ∧
      (keyStem <+: k ∧ key = k ∨
        ∃ between, (∀ char ∈ between, isKeyChar char = true) ∧
          key = keyStem ++ (between ++ k)) := by
  rw [qualify, bind_eq_ok] at hqualify
  obtain ⟨k, hk, hrest⟩ := hqualify
  refine ⟨k, hk, ?_⟩
  by_cases hstem : keyStem <+: k
  · rw [if_pos hstem] at hrest
    obtain ⟨rfl, hlength⟩ := fits_eq_ok.mp hrest
    exact ⟨hlength, .inl ⟨hstem, rfl⟩⟩
  · rw [if_neg hstem, bind_eq_ok] at hrest
    obtain ⟨s, hs, hfits⟩ := hrest
    have hchars := isKeyChar_of_sectionPart hs
    obtain ⟨rfl, hlength⟩ := fits_eq_ok.mp hfits
    refine ⟨hlength, .inr ?_⟩
    split_ifs
    · refine ⟨s ++ ['_'], fun char hchar => ?_, by simp⟩
      rcases List.mem_append.mp hchar with hsection | hline
      · exact hchars char hsection
      · rw [List.mem_singleton.mp hline]
        decide
    · exact ⟨[], fun char hchar => (by cases hchar), rfl⟩

/-- Qualification gives a key. -/
theorem qualify_isKey {sectionName text key : List Char}
    (hqualify : qualify plcConfigKeyMax sectionName text = .ok key) : IsKey key := by
  obtain ⟨k, hk, hlength, hshape⟩ := qualify_cases hqualify
  have hkChars := isKeyChar_of_normalise hk
  rcases hshape with ⟨hstem, rfl⟩ | ⟨between, hbetween, rfl⟩
  · exact ⟨hstem, hkChars, hlength⟩
  · refine ⟨List.prefix_append .., fun char hchar => ?_, hlength⟩
    rcases List.mem_append.mp hchar with hstem | hrest
    · exact isKeyChar_keyStem char hstem
    · rcases List.mem_append.mp hrest with hmiddle | hlast
      · exact hbetween char hmiddle
      · exact hkChars char hlast

/-- The spellings of a key: in full, or without `SOFTPLC_`, in any case and with `-`, `.`
or a space for `_`. What is left without `SOFTPLC_` must not begin with it. -/
def Spells (spelling key : List Char) : Prop :=
  spelling.map foldChar = key ∨
    spelling ≠ [] ∧ keyStem ++ spelling.map foldChar = key ∧
      ¬ keyStem <+: spelling.map foldChar

/-- Every spelling of a key resolves to it. -/
theorem qualify_of_spells {spelling key : List Char} (hkey : IsKey key)
    (hspells : Spells spelling key) : qualify plcConfigKeyMax [] spelling = .ok key := by
  have hnormalise : ∀ part, part ≠ [] → spelling.map foldChar = part →
      part.length < plcConfigKeyMax → (∀ char ∈ part, isKeyChar char = true) →
        normalise plcConfigKeyMax spelling = .ok part := by
    rintro part hne rfl hlength hchars
    rw [normalise_eq_ok (by decide)]
    exact ⟨rfl, hne, hlength, fun char hchar => hchars _ (List.mem_map_of_mem hchar)⟩
  rcases hspells with hfull | ⟨hne, hshort, hstem⟩
  · have hnonempty : key ≠ [] := by
      rintro rfl
      exact absurd (List.prefix_nil.mp hkey.stem) (by decide)
    simp only [qualify, hnormalise key hnonempty hfull hkey.length hkey.chars, bind, Except.bind,
      hkey.stem, if_true, fits, hkey.length]
  · have hpart := hnormalise (spelling.map foldChar) (by simpa using hne) rfl
      (by
        have hlength := hkey.length
        rw [← hshort, List.length_append] at hlength
        omega)
      (fun char hchar => hkey.chars char (hshort ▸ List.mem_append_right _ hchar))
    have hfits : fits plcConfigKeyMax (keyStem ++ spelling.map foldChar) = .ok key :=
      fits_eq_ok.mpr ⟨hshort.symm, hshort ▸ hkey.length⟩
    simp only [qualify, hpart, bind, Except.bind, hstem, if_false, sectionPart, if_true]
    simpa using hfits

/-! ## Lookup -/

theorem find_eq_some {table : List Entry} (hnodup : (table.map Entry.key).Nodup)
    {key : List Char} {entry : Entry} :
    find table key = some entry ↔ entry ∈ table ∧ entry.key = key := by
  constructor
  · intro hfind
    exact ⟨List.mem_of_find?_eq_some hfind, by simpa using List.find?_some hfind⟩
  · rintro ⟨hmem, rfl⟩
    obtain ⟨found, hfound⟩ := Option.isSome_iff_exists.mp
      (find_isSome_iff.mpr (List.mem_map_of_mem hmem))
    have hkey : found.key = entry.key := by simpa using List.find?_some hfound
    rw [hfound, List.inj_on_of_nodup_map hnodup (List.mem_of_find?_eq_some hfound) hmem hkey]

/-- An environment in which nothing is set. -/
def unset (_ : List Char) : Option (List Char) := none

/-- A spelling that resolves to an entry finds its value, if there is one. -/
theorem plcCfgStr_of_mem {table : List Entry} (hnodup : (table.map Entry.key).Nodup)
    {entry : Entry} (hmem : entry ∈ table) (hvalue : entry.value ≠ []) {spelling : List Char}
    (hresolves : qualify plcConfigKeyMax [] spelling = .ok entry.key)
    (fallback : Option (List Char)) :
    plcCfgStr unset table spelling fallback = some entry.value := by
  have hfind : find table entry.key = some entry := (find_eq_some hnodup).mpr ⟨hmem, rfl⟩
  have hkept : (some entry).filter (fun found => found.value ≠ []) = some entry := by
    simp [Option.filter, hvalue]
  simp only [plcCfgStr, hresolves, hfind, hkept]
  rfl

/-- Tables with the same entries answer alike. -/
theorem plcCfgStr_perm {table other : List Entry} (hnodup : (table.map Entry.key).Nodup)
    (hperm : table.Perm other) (env : List Char → Option (List Char)) (key : List Char)
    (fallback : Option (List Char)) :
    plcCfgStr env other key fallback = plcCfgStr env table key fallback := by
  have hnodup' : (other.map Entry.key).Nodup := (hperm.map Entry.key).nodup hnodup
  have hfind : ∀ qualified, find other qualified = find table qualified := by
    intro qualified
    apply Option.ext
    intro entry
    rw [find_eq_some hnodup, find_eq_some hnodup', hperm.mem_iff]
  simp only [plcCfgStr, hfind]

end SoftPlc.Config
