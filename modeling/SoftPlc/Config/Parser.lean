/-
# The settings table

`plc_config_parse` and `plc_cfg_str`. A line is read first, which depends on nothing but
the section it stands in, and its setting is then added to the table, which refuses a
key it already has and a sixty-fifth setting. An accepted text is therefore described
without a table: every line can be read, the keys differ, and there are not too many.

The table of a refused text keeps the settings before the line that was refused.
-/

import SoftPlc.Config.Lexer

namespace SoftPlc.Config

open SoftPlc.Math

/-- `entry_t`. -/
structure Entry where
  key : List Char
  value : List Char
  deriving DecidableEq, Repr

/-- What a line turns out to be. -/
inductive Reading
  | blank
  | header (sectionName : List Char)
  | setting (entry : Entry)
  deriving DecidableEq, Repr

/-- A section header, after its opening bracket. -/
def readHeader (rest : List Char) : Except String Reading :=
  match rest.span (· ≠ ']') with
  | (name, _ :: after) =>
      if trim after ≠ [] then .error "malformed section header"
      else
        match normalise plcConfigKeyMax (trim name) with
        | .ok sectionName => .ok (.header sectionName)
        | .error _ => .error ("bad section name '" ++ String.ofList (trim name) ++ "'")
  | (_, []) => .error "malformed section header"

/-- A setting, from what is left and right of its equals sign. -/
def readPair (sectionName left right : List Char) : Except String Reading :=
  let key := trim left
  let value := unquote (trim right)
  match qualify plcConfigKeyMax sectionName key with
  | .error _ => .error ("bad key '" ++ String.ofList key ++ "'")
  | .ok qualified =>
      if plcConfigValueMax ≤ value.length then
        .error ("value for " ++ String.ofList qualified ++ " exceeds " ++
          toString (plcConfigValueMax - 1) ++ " bytes")
      else .ok (.setting ⟨qualified, value⟩)

/-- A setting. -/
def readSetting (sectionName text : List Char) : Except String Reading :=
  match text.span (· ≠ '=') with
  | (left, _ :: right) => readPair sectionName left right
  | (_, []) => .error ("expected 'key = value', got '" ++ String.ofList text ++ "'")

/-- The part of the loop of `plc_config_parse` that does not touch the table. -/
def readLine (sectionName line : List Char) : Except String Reading :=
  if lineBytes ≤ line.length then
    .error ("longer than " ++ toString (lineBytes - 1) ++ " bytes")
  else
    match trim (stripComment line) with
    | [] => .ok .blank
    | first :: rest =>
        if first = '[' then readHeader rest else readSetting sectionName (first :: rest)

/-- `find`. -/
def find (table : List Entry) (key : List Char) : Option Entry :=
  table.find? fun entry => entry.key = key

/-- The variables of the loop: `section` and `g_entries`. -/
structure ParseState where
  sectionName : List Char := []
  table : List Entry := []
  deriving DecidableEq, Repr

/-- Add a setting to the table. -/
def addSetting (state : ParseState) (entry : Entry) : Except String ParseState :=
  if (find state.table entry.key).isSome then
    .error (String.ofList entry.key ++ " is already set")
  else if state.table.length = plcConfigMaxEntries then
    .error ("more than " ++ toString plcConfigMaxEntries ++ " settings")
  else .ok { state with table := state.table ++ [entry] }

/-- The body of the loop. -/
def parseLine (state : ParseState) (line : List Char) : Except String ParseState :=
  match readLine state.sectionName line with
  | .error what => .error what
  | .ok .blank => .ok state
  | .ok (.header sectionName) => .ok { state with sectionName := sectionName }
  | .ok (.setting entry) => addSetting state entry

/-- What a parse leaves: its status, the table and the diagnostic. -/
structure ParseResult where
  status : PlcStatus
  table : List Entry
  err : String
  deriving DecidableEq, Repr

/-- `plc_config_parse`. -/
def plcConfigParse (text : List Char) : ParseResult :=
  match runLines parseLine 1 (textLines text) {} with
  | (state, none) => ⟨.ok, state.table, ""⟩
  | (state, some (number, what)) =>
      ⟨.errInval, state.table, "line " ++ toString number ++ ": " ++ what⟩

/-- `plc_cfg_str`, in an environment. -/
def plcCfgStr (env : List Char → Option (List Char)) (table : List Entry) (key : List Char)
    (fallback : Option (List Char)) : Option (List Char) :=
  match qualify plcConfigKeyMax [] key with
  | .error _ => fallback
  | .ok qualified =>
      match (env qualified).filter (· ≠ []), (find table qualified).filter (·.value ≠ []) with
      | some value, _ => some value
      | none, some entry => some entry.value
      | none, none => fallback

/-! ## Accepted texts -/

/-- The settings of the lines from a section on, if all of them can be read. -/
def readAll : List Char → List (List Char) → Option (List Entry)
  | _, [] => some []
  | sectionName, line :: rest =>
      match readLine sectionName line with
      | .error _ => none
      | .ok .blank => readAll sectionName rest
      | .ok (.header next) => readAll next rest
      | .ok (.setting entry) => (readAll sectionName rest).map (entry :: ·)

/-- Keys differ and there are not too many of them. -/
structure Admissible (table : List Entry) : Prop where
  nodup : (table.map Entry.key).Nodup
  count : table.length ≤ plcConfigMaxEntries

theorem Admissible.of_append {first second : List Entry} (h : Admissible (first ++ second)) :
    Admissible first where
  nodup := by
    have hnodup := h.nodup
    rw [List.map_append] at hnodup
    exact (List.nodup_append.mp hnodup).1
  count := by
    have hcount := h.count
    rw [List.length_append] at hcount
    omega

theorem find_isSome_iff {table : List Entry} {key : List Char} :
    (find table key).isSome = true ↔ key ∈ table.map Entry.key := by
  simp [find, List.find?_isSome]

/-- A setting is added exactly when the table stays admissible. -/
theorem addSetting_eq_ok {state next : ParseState} {entry : Entry}
    (hadmissible : Admissible state.table) :
    addSetting state entry = .ok next ↔
      Admissible (state.table ++ [entry]) ∧
        next = { state with table := state.table ++ [entry] } := by
  have hiff : Admissible (state.table ++ [entry]) ↔
      entry.key ∉ state.table.map Entry.key ∧ state.table.length ≠ plcConfigMaxEntries := by
    have hcount := hadmissible.count
    constructor
    · intro h
      have hnodup := h.nodup
      have hlength := h.count
      rw [List.map_append, List.nodup_append] at hnodup
      rw [List.length_append, List.length_singleton] at hlength
      exact ⟨fun hmem => hnodup.2.2 _ hmem _ (by simp) rfl, by omega⟩
    · rintro ⟨hnew, hroom⟩
      refine ⟨?_, by rw [List.length_append, List.length_singleton]; omega⟩
      rw [List.map_append, List.nodup_append]
      refine ⟨hadmissible.nodup, by simp, fun key hkey other hother heq => ?_⟩
      rw [List.map_singleton, List.mem_singleton] at hother
      exact hnew (hother ▸ heq ▸ hkey)
  rw [hiff]
  unfold addSetting
  split_ifs with hfound hfull
  · simp [find_isSome_iff.mp hfound]
  · simp [hfull]
  · rw [find_isSome_iff] at hfound
    simp [hfound, hfull, eq_comm]

/-- An accepted run of the loop adds the settings it reads. -/
theorem readAll_of_runLines {lines : List (List Char)} {number : ℕ} {state final : ParseState}
    (hadmissible : Admissible state.table)
    (hrun : runLines parseLine number lines state = (final, none)) :
    ∃ entries, readAll state.sectionName lines = some entries ∧
      final.table = state.table ++ entries ∧ Admissible final.table := by
  induction lines generalizing number state with
  | nil =>
      cases hrun
      exact ⟨[], rfl, (List.append_nil _).symm, hadmissible⟩
  | cons line rest ih =>
      simp only [runLines, parseLine] at hrun
      cases hread : readLine state.sectionName line with
      | error what => simp [hread] at hrun
      | ok reading =>
          cases reading with
          | blank =>
              simp only [hread] at hrun
              simpa only [readAll, hread] using ih hadmissible hrun
          | header sectionName =>
              simp only [hread] at hrun
              have hsame : Admissible ({ state with sectionName } : ParseState).table :=
                hadmissible
              simpa only [readAll, hread] using ih hsame hrun
          | setting entry =>
              simp only [hread] at hrun
              cases hadd : addSetting state entry with
              | error what => simp [hadd] at hrun
              | ok next =>
                  obtain ⟨hnext, rfl⟩ := (addSetting_eq_ok hadmissible).mp hadd
                  simp only [hadd] at hrun
                  obtain ⟨entries, hentries, hfinal, hall⟩ := ih hnext hrun
                  refine ⟨entry :: entries, ?_, ?_, hall⟩
                  · simp only [readAll, hread]
                    rw [hentries]
                    rfl
                  · rw [hfinal, List.append_assoc]
                    rfl

/-- Lines that can be read are accepted when their settings fit the table. -/
theorem runLines_of_readAll {lines : List (List Char)} {state : ParseState}
    {entries : List Entry} (hread : readAll state.sectionName lines = some entries)
    (hadmissible : Admissible (state.table ++ entries)) (number : ℕ) :
    ∃ final, runLines parseLine number lines state = (final, none) ∧
      final.table = state.table ++ entries := by
  induction lines generalizing number state entries with
  | nil =>
      cases hread
      exact ⟨state, rfl, (List.append_nil _).symm⟩
  | cons line rest ih =>
      simp only [runLines, parseLine]
      simp only [readAll] at hread
      cases hline : readLine state.sectionName line with
      | error what => simp [hline] at hread
      | ok reading =>
          cases reading with
          | blank =>
              simp only [hline] at hread ⊢
              exact ih hread hadmissible (number + 1)
          | header sectionName =>
              simp only [hline] at hread ⊢
              have hrest : readAll ({ state with sectionName } : ParseState).sectionName rest =
                  some entries := hread
              exact ih hrest hadmissible (number + 1)
          | setting entry =>
              simp only [hline] at hread ⊢
              obtain ⟨others, hothers, rfl⟩ := Option.map_eq_some_iff.mp hread
              rw [List.append_cons] at hadmissible
              have hadd := (addSetting_eq_ok hadmissible.of_append.of_append).mpr
                ⟨hadmissible.of_append, rfl⟩
              have hrest : readAll
                  ({ state with table := state.table ++ [entry] } : ParseState).sectionName rest =
                    some others := hothers
              obtain ⟨final, hrun, htable⟩ := ih hrest hadmissible (number + 1)
              rw [hadd]
              exact ⟨final, hrun, htable.trans (List.append_cons ..).symm⟩

/-- **Accepted texts.** A text is accepted exactly when every line can be read in its
section and the settings, in their order, are an admissible table, which is then the
result. -/
theorem plcConfigParse_eq_ok {text : List Char} {table : List Entry} :
    plcConfigParse text = ⟨.ok, table, ""⟩ ↔
      readAll [] (textLines text) = some table ∧ Admissible table := by
  have hempty : Admissible ({} : ParseState).table := ⟨List.nodup_nil, Nat.zero_le _⟩
  constructor
  · intro hparse
    unfold plcConfigParse at hparse
    split at hparse
    · next state hrun =>
        obtain ⟨entries, hread, htable, hall⟩ := readAll_of_runLines hempty hrun
        cases hparse
        rw [htable] at hall ⊢
        exact ⟨hread, hall⟩
    · cases hparse
  · rintro ⟨hread, hadmissible⟩
    have hstart : readAll ({} : ParseState).sectionName (textLines text) = some table := hread
    obtain ⟨final, hrun, htable⟩ := runLines_of_readAll hstart hadmissible 1
    simp only [plcConfigParse, hrun, htable]
    rfl

/-- The status alone says that a text is accepted. -/
theorem plcConfigParse_of_status {text : List Char} (hstatus : (plcConfigParse text).status = .ok) :
    plcConfigParse text = ⟨.ok, (plcConfigParse text).table, ""⟩ := by
  unfold plcConfigParse at hstatus ⊢
  split at hstatus
  · rfl
  · cases hstatus

/-! ## Reading a text in parts -/

/-- The section in force after some lines. -/
def sectionAfter : List Char → List (List Char) → List Char
  | sectionName, [] => sectionName
  | sectionName, line :: rest =>
      match readLine sectionName line with
      | .ok (.header next) => sectionAfter next rest
      | _ => sectionAfter sectionName rest

/-- The settings of a text are those of its parts, each read in its section. -/
theorem readAll_append (sectionName : List Char) (first second : List (List Char)) :
    readAll sectionName (first ++ second) =
      (readAll sectionName first).bind fun entries =>
        (readAll (sectionAfter sectionName first) second).map (entries ++ ·) := by
  induction first generalizing sectionName with
  | nil => simp [readAll, sectionAfter]
  | cons line rest ih =>
      simp only [List.cons_append, readAll, sectionAfter]
      cases hread : readLine sectionName line with
      | error what => rfl
      | ok reading =>
          cases reading with
          | blank => exact ih sectionName
          | header next => exact ih next
          | setting entry =>
              simp only [ih sectionName]
              cases readAll sectionName rest with
              | none => rfl
              | some entries =>
                  cases readAll (sectionAfter sectionName rest) second <;> rfl

/-- The settings around a setting line. -/
theorem readAll_middle {front later : List (List Char)} {line sectionName : List Char}
    {table : List Entry} (hread : readAll sectionName (front ++ line :: later) = some table) :
    ∃ before reading, readAll sectionName front = some before ∧
      readLine (sectionAfter sectionName front) line = .ok reading ∧
      ∀ entry, reading = .setting entry → ∃ after, table = before ++ entry :: after := by
  rw [readAll_append] at hread
  obtain ⟨before, hbefore, hrest⟩ := Option.bind_eq_some_iff.mp hread
  obtain ⟨others, hothers, rfl⟩ := Option.map_eq_some_iff.mp hrest
  rw [readAll] at hothers
  cases hline : readLine (sectionAfter sectionName front) line with
  | error what => simp [hline] at hothers
  | ok reading =>
      refine ⟨before, reading, hbefore, rfl, fun entry hentry => ?_⟩
      subst hentry
      simp only [hline] at hothers
      obtain ⟨after, -, rfl⟩ := Option.map_eq_some_iff.mp hothers
      exact ⟨after, rfl⟩

/-! ## What a line can be read as -/

/-- A pair is read as a setting or refused. -/
theorem readPair_setting {sectionName left right : List Char} {reading : Reading}
    (hread : readPair sectionName left right = .ok reading) :
    ∃ entry, reading = .setting entry := by
  unfold readPair at hread
  dsimp only at hread
  split at hread
  · cases hread
  · split_ifs at hread
    cases hread
    exact ⟨_, rfl⟩

/-- A bracket starts a header or is refused. -/
theorem readHeader_header {rest : List Char} {reading : Reading}
    (hread : readHeader rest = .ok reading) : ∃ next, reading = .header next := by
  unfold readHeader at hread
  split at hread
  · split_ifs at hread
    split at hread
    · cases hread
      exact ⟨_, rfl⟩
    · cases hread
  · cases hread

theorem readSetting_setting {sectionName text : List Char} {reading : Reading}
    (hread : readSetting sectionName text = .ok reading) : ∃ entry, reading = .setting entry := by
  unfold readSetting at hread
  split at hread
  · exact readPair_setting hread
  · cases hread

end SoftPlc.Config
