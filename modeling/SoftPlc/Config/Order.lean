/-
# No setting is lost or overridden

A text is read section by section, and a section line by line. The settings it holds
therefore do not depend on the order of the lines under a header or on the order of the
sections, and neither does the test that no two of them have the same key. `settings_kept`
says what the table of a text holds, which texts are refused, and what a rearrangement
changes, which is nothing that a lookup can see.

The table of a refused text is left out of the comparison: it holds the settings before
the refused line, and which these are does depend on the order.
-/

import SoftPlc.Config.Lookup
import SoftPlc.Math.Collect

namespace SoftPlc.Config

open SoftPlc.Math

/-! ## The order of lines and sections -/

/-- A section header and the lines under it. -/
structure Block where
  header : List Char
  body : List (List Char)

/-- A text by its sections. -/
structure Document where
  beginning : List (List Char)
  blocks : List Block

namespace Document

def lines (doc : Document) : List (List Char) :=
  doc.beginning ++ doc.blocks.flatMap fun block => block.header :: block.body

/-- Section headers stand at the start of the blocks and nowhere else. -/
structure Formed (doc : Document) : Prop where
  beginning : ∀ line ∈ doc.beginning, firstChar line ≠ some '['
  headers : ∀ block ∈ doc.blocks, firstChar block.header = some '['
  bodies : ∀ block ∈ doc.blocks, ∀ line ∈ block.body, firstChar line ≠ some '['

/-- The same sections with their lines in another order, and in another order. -/
def Rearranged (doc other : Document) : Prop :=
  doc.beginning.Perm other.beginning ∧
    ∃ blocks, doc.blocks.Perm blocks ∧
      List.Forall₂ (fun block block' =>
        block'.header = block.header ∧ block.body.Perm block'.body) blocks other.blocks

end Document

/-- A line that begins with a bracket is read as a header in every section, or refused. -/
theorem readLine_bracket {line : List Char} (hline : firstChar line = some '[')
    (sectionName : List Char) :
    readLine sectionName line = readLine [] line ∧
      ∀ reading, readLine sectionName line = .ok reading → ∃ next, reading = .header next := by
  obtain ⟨rest, htrim⟩ : ∃ rest, trim (stripComment line) = '[' :: rest := by
    rcases head?_trim_stripComment line with hhead | ⟨-, mark, hmark, hisMark⟩
    · rw [hline] at hhead
      cases htrim : trim (stripComment line) with
      | nil => simp [htrim] at hhead
      | cons first rest =>
          rw [htrim] at hhead
          exact ⟨rest, by rw [Option.some.inj hhead]⟩
    · rw [hline] at hmark
      cases hmark
      exact absurd hisMark (by decide)
  simp only [readLine, htrim, if_true]
  refine ⟨trivial, fun reading hread => ?_⟩
  split_ifs at hread
  exact readHeader_header hread

/-- Any other line is not read as a header. -/
theorem readLine_ne_header {sectionName line next : List Char}
    (hline : firstChar line ≠ some '[') : readLine sectionName line ≠ .ok (.header next) := by
  intro hread
  rw [readLine] at hread
  split_ifs at hread
  have hhead := head?_trim_stripComment line
  cases htrim : trim (stripComment line) with
  | nil =>
      rw [htrim] at hread
      cases hread
  | cons first rest =>
      rw [htrim] at hread hhead
      rcases hhead with hfirst | ⟨hnil, -⟩
      · dsimp only at hread
        split_ifs at hread with hbracket
        · exact hline (by rw [← hfirst, hbracket]; rfl)
        · obtain ⟨entry, hentry⟩ := readSetting_setting hread
          cases hentry
      · cases hnil

/-- The settings of one line that is not a header. -/
def lineResults (sectionName line : List Char) : Option (List Entry) :=
  match readLine sectionName line with
  | .ok .blank => some []
  | .ok (.setting entry) => some [entry]
  | _ => none

/-- The settings of one section. -/
def blockResults (block : Block) : Option (List Entry) :=
  match readLine [] block.header with
  | .ok (.header next) => readAll next block.body
  | _ => none

/-- Lines without headers are read one by one, and leave the section. -/
theorem readAll_plain {lines : List (List Char)}
    (hlines : ∀ line ∈ lines, firstChar line ≠ some '[') (sectionName : List Char) :
    readAll sectionName lines = collect (lineResults sectionName) lines ∧
      sectionAfter sectionName lines = sectionName := by
  induction lines with
  | nil => exact ⟨rfl, rfl⟩
  | cons line rest ih =>
      obtain ⟨hread, hsection⟩ :=
        ih fun other hother => hlines other (List.mem_cons_of_mem _ hother)
      have hnot : ∀ next, readLine sectionName line ≠ .ok (.header next) := fun next =>
        readLine_ne_header (hlines line List.mem_cons_self)
      simp only [readAll, sectionAfter, collect, lineResults]
      cases hline : readLine sectionName line with
      | error what => exact ⟨rfl, hsection⟩
      | ok reading =>
          cases reading with
          | blank =>
              refine ⟨?_, hsection⟩
              rw [hread]
              cases collect (lineResults sectionName) rest <;> rfl
          | header next => exact absurd hline (hnot next)
          | setting entry =>
              refine ⟨?_, hsection⟩
              simp only [hread]
              cases collect (lineResults sectionName) rest <;> rfl

/-- Sections are read one by one, whatever came before them. -/
theorem readAll_blocks {blocks : List Block}
    (hheaders : ∀ block ∈ blocks, firstChar block.header = some '[')
    (hbodies : ∀ block ∈ blocks, ∀ line ∈ block.body, firstChar line ≠ some '[')
    (sectionName : List Char) :
    readAll sectionName (blocks.flatMap fun block => block.header :: block.body) =
      collect blockResults blocks := by
  induction blocks generalizing sectionName with
  | nil => rfl
  | cons block rest ih =>
      have hrest := ih (fun other hother => hheaders other (List.mem_cons_of_mem _ hother))
        (fun other hother => hbodies other (List.mem_cons_of_mem _ hother))
      obtain ⟨hsame, hheader⟩ :=
        readLine_bracket (hheaders block List.mem_cons_self) sectionName
      rw [List.flatMap_cons, List.cons_append, readAll, collect, blockResults, hsame]
      cases hread : readLine [] block.header with
      | error what => rfl
      | ok reading =>
          obtain ⟨next, rfl⟩ := hheader reading (hsame.trans hread)
          simp only [readAll_append,
            (readAll_plain (hbodies block List.mem_cons_self) next).2, hrest next]
          rfl

/-- A text in parts is read in parts. -/
theorem Document.Formed.readAll {doc : Document} (h : doc.Formed) :
    readAll [] doc.lines =
      joinResults (collect (lineResults []) doc.beginning) (collect blockResults doc.blocks) := by
  obtain ⟨hread, hsection⟩ := readAll_plain h.beginning []
  rw [Document.lines, readAll_append, hread, hsection, readAll_blocks h.headers h.bodies]
  rfl

/-- A rearranged text has its headers where the text has them. -/
theorem Document.Formed.rearranged {doc other : Document} (h : doc.Formed)
    (hrearranged : doc.Rearranged other) : other.Formed := by
  obtain ⟨hbeginning, blocks, hperm, hblocks⟩ := hrearranged
  have hfrom : ∀ block' ∈ other.blocks, ∃ block ∈ doc.blocks,
      block'.header = block.header ∧ block.body.Perm block'.body := by
    intro block' hmem
    obtain ⟨block, hblock, hsame⟩ := exists_of_forall₂ hblocks hmem
    exact ⟨block, hperm.mem_iff.mpr hblock, hsame⟩
  refine ⟨fun line hline => h.beginning line (hbeginning.mem_iff.mpr hline), ?_, ?_⟩
  · intro block' hmem
    obtain ⟨block, hblock, hheader, -⟩ := hfrom block' hmem
    rw [hheader]
    exact h.headers block hblock
  · intro block' hmem line hline
    obtain ⟨block, hblock, -, hbody⟩ := hfrom block' hmem
    exact h.bodies block hblock line (hbody.mem_iff.mpr hline)

/-- Sections whose lines are in another order have the same settings. -/
theorem blockResults_congr {blocks blocks' : List Block}
    (hblocks : List.Forall₂ (fun block block' =>
      block'.header = block.header ∧ block.body.Perm block'.body) blocks blocks')
    (hplain : ∀ block ∈ blocks, ∀ line ∈ block.body, firstChar line ≠ some '[') :
    List.Forall₂ (fun block block' => SameResults (blockResults block) (blockResults block'))
      blocks blocks' := by
  induction hblocks with
  | nil => exact .nil
  | @cons block block' rest rest' hsame _ ih =>
      refine .cons ?_ (ih fun other hother => hplain other (List.mem_cons_of_mem _ hother))
      obtain ⟨hheader, hbody⟩ := hsame
      have hlines := hplain block List.mem_cons_self
      have hlines' : ∀ line ∈ block'.body, firstChar line ≠ some '[' := fun line hline =>
        hlines line (hbody.mem_iff.mpr hline)
      simp only [blockResults, hheader]
      split
      · next next _ =>
          rw [(readAll_plain hlines next).1, (readAll_plain hlines' next).1]
          exact collect_perm _ hbody
      · exact .none

/-- And the same settings, in some order. -/
theorem Document.Rearranged.sameResults {doc other : Document} (h : doc.Formed)
    (hrearranged : doc.Rearranged other) :
    SameResults (readAll [] doc.lines) (readAll [] other.lines) := by
  rw [h.readAll, (h.rearranged hrearranged).readAll]
  obtain ⟨hbeginning, blocks, hperm, hblocks⟩ := hrearranged
  have hplain : ∀ block ∈ blocks, ∀ line ∈ block.body, firstChar line ≠ some '[' :=
    fun block hblock => h.bodies block (hperm.mem_iff.mpr hblock)
  have hsections := collect_congr (blockResults_congr hblocks hplain)
  exact (collect_perm _ hbeginning).join ((collect_perm _ hperm).trans hsections)

theorem Admissible.perm {table other : List Entry} (h : Admissible table)
    (hperm : table.Perm other) : Admissible other :=
  ⟨(hperm.map Entry.key).nodup h.nodup, hperm.length_eq ▸ h.count⟩

/-- Texts with the same settings are accepted alike and answer alike. -/
theorem accepted_of_sameResults {text other : List Char}
    (hsame : SameResults (readAll [] (textLines text)) (readAll [] (textLines other)))
    (haccepted : (plcConfigParse text).status = .ok) :
    (plcConfigParse other).status = .ok ∧
      ∀ env key fallback, plcCfgStr env (plcConfigParse other).table key fallback =
        plcCfgStr env (plcConfigParse text).table key fallback := by
  obtain ⟨hread, hadmissible⟩ := plcConfigParse_eq_ok.mp (plcConfigParse_of_status haccepted)
  rw [hread] at hsame
  cases hother : readAll [] (textLines other) with
  | none =>
      rw [hother] at hsame
      cases hsame
  | some table =>
      rw [hother] at hsame
      cases hsame with
      | some hperm =>
          have hok := plcConfigParse_eq_ok.mpr ⟨hother, hadmissible.perm hperm⟩
          rw [hok]
          exact ⟨rfl, plcCfgStr_perm hadmissible.nodup hperm⟩

/-! ## The whole -/

/-- The line after some others resolves to this entry. -/
def Resolves (front : List (List Char)) (line : List Char) (entry : Entry) : Prop :=
  readLine (sectionAfter [] front) line = .ok (.setting entry)

/-- Every line that looks like a setting resolves to an entry of the table. -/
theorem resolves_of_accepted {text : List Char} (haccepted : (plcConfigParse text).status = .ok)
    {front later : List (List Char)} {line : List Char}
    (hlines : textLines text = front ++ line :: later) (hsetting : isSettingLine line = true) :
    ∃ entry, Resolves front line entry ∧ entry ∈ (plcConfigParse text).table := by
  have hread := (plcConfigParse_eq_ok.mp (plcConfigParse_of_status haccepted)).1
  rw [hlines] at hread
  obtain ⟨before, reading, -, hline, htable⟩ := readAll_middle hread
  obtain ⟨entry, rfl⟩ := (readLine_setting_iff hline).mp hsetting
  obtain ⟨after, hsplit⟩ := htable entry rfl
  exact ⟨entry, hline, by rw [hsplit]; simp⟩

/-- What a line resolves to has a key of the table. -/
theorem isKey_of_resolves {front : List (List Char)} {line : List Char} {entry : Entry}
    (hresolves : Resolves front line entry) : IsKey entry.key := by
  rw [Resolves, readLine] at hresolves
  split_ifs at hresolves
  split at hresolves
  · cases hresolves
  · next first rest htrim =>
      split_ifs at hresolves
      · obtain ⟨next, hnext⟩ := readHeader_header hresolves
        cases hnext
      · unfold readSetting at hresolves
        split at hresolves
        · unfold readPair at hresolves
          dsimp only at hresolves
          split at hresolves
          · cases hresolves
          · next qualified hqualified =>
              split_ifs at hresolves
              cases hresolves
              exact qualify_isKey hqualified
        · cases hresolves

/-- Two lines that resolve to one key are refused. -/
theorem refused_of_same_key {text : List Char} {front middle later : List (List Char)}
    {line line' : List Char} {entry entry' : Entry}
    (hlines : textLines text = front ++ line :: (middle ++ line' :: later))
    (hfirst : Resolves front line entry)
    (hsecond : Resolves (front ++ line :: middle) line' entry') (hkey : entry.key = entry'.key) :
    (plcConfigParse text).status ≠ .ok := by
  intro haccepted
  obtain ⟨hread, hadmissible⟩ := plcConfigParse_eq_ok.mp (plcConfigParse_of_status haccepted)
  have hsplit : textLines text = (front ++ line :: middle) ++ line' :: later := by
    rw [hlines]
    simp
  rw [hsplit] at hread
  obtain ⟨before, reading, hbefore, hline', htable⟩ := readAll_middle hread
  rw [Resolves] at hfirst hsecond
  rw [hsecond] at hline'
  cases hline'
  obtain ⟨after, htable⟩ := htable entry' rfl
  obtain ⟨before', reading', -, hline, hmem⟩ := readAll_middle hbefore
  rw [hfirst] at hline
  cases hline
  obtain ⟨after', hbefore'⟩ := hmem entry rfl
  -- the key stands twice in the table
  have hnodup := hadmissible.nodup
  rw [htable, hbefore'] at hnodup
  simp [hkey, List.nodup_append] at hnodup

/-- **No setting is lost.** Of an accepted text: one entry for each setting line, keys that
differ, and each line's value under every spelling that resolves to its key, among them all
the spellings of `Spells`. Of every text: lines that resolve to one key are refused, and
neither acceptance nor any lookup depends on the order of lines and sections. -/
theorem settings_kept (text : List Char) :
    ((plcConfigParse text).status = .ok →
      (plcConfigParse text).table.length = (textLines text).countP isSettingLine ∧
      ((plcConfigParse text).table.map Entry.key).Nodup ∧
      ∀ front line later, textLines text = front ++ line :: later →
        isSettingLine line = true →
          ∃ entry, Resolves front line entry ∧ entry ∈ (plcConfigParse text).table ∧
            (∀ spelling, Spells spelling entry.key →
              qualify plcConfigKeyMax [] spelling = .ok entry.key) ∧
            ∀ spelling fallback, qualify plcConfigKeyMax [] spelling = .ok entry.key →
              entry.value ≠ [] →
                plcCfgStr unset (plcConfigParse text).table spelling fallback =
                  some entry.value) ∧
    (∀ front line middle line' later entry entry',
      textLines text = front ++ line :: (middle ++ line' :: later) →
        Resolves front line entry → Resolves (front ++ line :: middle) line' entry' →
          entry.key = entry'.key → (plcConfigParse text).status ≠ .ok) ∧
    ∀ (doc other : Document) (text' : List Char), doc.Formed → textLines text = doc.lines →
      doc.Rearranged other →
      textLines text' = other.lines →
        ((plcConfigParse text').status = .ok ↔ (plcConfigParse text).status = .ok) ∧
          ((plcConfigParse text).status = .ok → ∀ env key fallback,
            plcCfgStr env (plcConfigParse text').table key fallback =
              plcCfgStr env (plcConfigParse text).table key fallback) := by
  refine ⟨fun haccepted => ?_, ?_, ?_⟩
  · obtain ⟨hread, hadmissible⟩ := plcConfigParse_eq_ok.mp (plcConfigParse_of_status haccepted)
    refine ⟨length_of_readAll hread, hadmissible.nodup, fun front line later hlines hsetting => ?_⟩
    obtain ⟨entry, hresolves, hmem⟩ := resolves_of_accepted haccepted hlines hsetting
    refine ⟨entry, hresolves, hmem, fun spelling hspells => ?_, ?_⟩
    · exact qualify_of_spells (isKey_of_resolves hresolves) hspells
    · intro spelling fallback hspelling hvalue
      exact plcCfgStr_of_mem hadmissible.nodup hmem hvalue hspelling fallback
  · intro front line middle line' later entry entry' hlines hfirst hsecond hkey
    exact refused_of_same_key hlines hfirst hsecond hkey
  · intro doc other text' hformed hlines hrearranged hlines'
    have hsame := hrearranged.sameResults hformed
    rw [← hlines, ← hlines'] at hsame
    refine ⟨⟨fun haccepted => (accepted_of_sameResults hsame.symm haccepted).1,
      fun haccepted => (accepted_of_sameResults hsame haccepted).1⟩,
      fun haccepted => (accepted_of_sameResults hsame haccepted).2⟩

/-- Two sections that both have a setting of the same name. -/
def siteText : List Char := "[eip]\nrpi = 20\nmode = x\n[scanner]\nrpi = 5\n".toList

/-- The same settings, with the sections and the lines of one of them turned round. -/
def rearrangedText : List Char := "[scanner]\nrpi = 5\n[eip]\nmode = x\nrpi = 20\n".toList

/-- The key of a setting spelled out under another section. -/
def repeatedText : List Char := "[eip]\nrpi = 20\n[scanner]\nSOFTPLC_EIP_RPI = 5\n".toList

/-- The sections of `siteText`. -/
def siteDocument : Document :=
  { beginning := []
    blocks :=
      [⟨"[eip]".toList, ["rpi = 20".toList, "mode = x".toList]⟩,
        ⟨"[scanner]".toList, ["rpi = 5".toList]⟩] }

/-- The sections of `rearrangedText`. -/
def rearrangedDocument : Document :=
  { beginning := []
    blocks :=
      [⟨"[scanner]".toList, ["rpi = 5".toList]⟩,
        ⟨"[eip]".toList, ["mode = x".toList, "rpi = 20".toList]⟩] }

theorem siteDocument_rearranged : siteDocument.Rearranged rearrangedDocument := by
  refine ⟨List.Perm.refl _, siteDocument.blocks.reverse, (List.reverse_perm _).symm, ?_⟩
  refine .cons ⟨rfl, List.Perm.refl _⟩ (.cons ⟨rfl, ?_⟩ .nil)
  exact List.Perm.swap _ _ []

/-- The first setting of both texts, by its key. -/
theorem resolves_eipRpi : Resolves ["[eip]".toList] "rpi = 20".toList
    ⟨"SOFTPLC_EIP_RPI".toList, "20".toList⟩ := by
  unfold Resolves
  decide +kernel

theorem settings_kept_siteText :
    (plcConfigParse siteText).table.length = 3 ∧
      plcCfgStr unset (plcConfigParse siteText).table "eip.rpi".toList none =
        some "20".toList ∧
      plcCfgStr unset (plcConfigParse rearrangedText).table "eip.rpi".toList none =
        some "20".toList ∧
      (plcConfigParse repeatedText).status ≠ .ok := by
  have haccepted : (plcConfigParse siteText).status = .ok := by decide +kernel
  have hfront : textLines siteText = ["[eip]".toList] ++ "rpi = 20".toList ::
      ["mode = x".toList, "[scanner]".toList, "rpi = 5".toList] := by
    decide +kernel
  have hlines : textLines siteText = siteDocument.lines := hfront
  have hlines' : textLines rearrangedText = rearrangedDocument.lines := by decide +kernel
  have hformed : siteDocument.Formed := ⟨by decide, by decide, by decide⟩
  obtain ⟨hlength, -, hall⟩ := (settings_kept siteText).1 haccepted
  obtain ⟨entry, hentry, -, hspells, hlookup⟩ := hall _ _ _ hfront (by decide)
  obtain rfl : entry = ⟨"SOFTPLC_EIP_RPI".toList, "20".toList⟩ := by
    have hresolves := resolves_eipRpi
    rw [Resolves] at hentry hresolves
    rw [hresolves] at hentry
    cases hentry
    rfl
  have hspelling : Spells "eip.rpi".toList "SOFTPLC_EIP_RPI".toList :=
    .inr ⟨by decide, by decide, by decide⟩
  have hvalue := hlookup "eip.rpi".toList none (hspells _ hspelling) (by decide)
  have hkept := ((settings_kept siteText).2.2 _ _ _ hformed hlines siteDocument_rearranged
    hlines').2 haccepted unset "eip.rpi".toList none
  have hcount : (textLines siteText).countP isSettingLine = 3 := by
    rw [hfront]
    decide
  refine ⟨hlength.trans hcount, hvalue, hkept.trans hvalue, ?_⟩
  -- the key comes twice, once for the section it is under and once in full
  have hrepeated : textLines repeatedText = ["[eip]".toList] ++ "rpi = 20".toList ::
      (["[scanner]".toList] ++ "SOFTPLC_EIP_RPI = 5".toList :: []) := by
    decide +kernel
  have hsecond : Resolves (["[eip]".toList] ++ "rpi = 20".toList :: ["[scanner]".toList])
      "SOFTPLC_EIP_RPI = 5".toList ⟨"SOFTPLC_EIP_RPI".toList, "5".toList⟩ := by
    unfold Resolves
    decide +kernel
  exact (settings_kept repeatedText).2.1 _ _ _ _ _ _ _ hrepeated resolves_eipRpi hsecond rfl

end SoftPlc.Config
