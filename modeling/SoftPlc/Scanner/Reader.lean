/-
# Reading a device table

`eip_scanner_config_parse` as the source has it: a loop over the text with a line buffer
of 256 bytes, an array of nine token pointers, a fixed array of devices, fields of 8, 16
and 32 bits, and totals that are added up in 32 bits. The parser of `Scanner.Config` works
on whole lines, whole lists of tokens and numbers without a width.

The two agree on every text: no limit of the arrays and no narrowing shows, in the table or
in the diagnostic. That is what the layout of an accepted table rests on.
-/

import SoftPlc.Scanner.Rows
import Mathlib.Tactic.IntervalCases

namespace SoftPlc.Scanner.Reader

open SoftPlc.Math SoftPlc.Ipc

/-- `FIELDS_PER_DEVICE`. -/
abbrev fieldsPerDevice : ℕ := 9

/-- `eip_scanner_device_t`. -/
structure EipScannerDevice where
  address : List Char
  configAssembly : UInt16
  o2tAssembly : UInt16
  t2oAssembly : UInt16
  o2tBytes : UInt16
  t2oBytes : UInt16
  o2tRpiUs : UInt32
  t2oRpiUs : UInt32
  timeoutMultiplier : UInt8
  failsafePolicy : FailsafePolicy
  o2tOffset : UInt32
  t2oOffset : UInt32
  deriving DecidableEq, Repr

/-- A device after `memset`. -/
def EipScannerDevice.zero : EipScannerDevice where
  address := []
  configAssembly := 0
  o2tAssembly := 0
  t2oAssembly := 0
  o2tBytes := 0
  t2oBytes := 0
  o2tRpiUs := 0
  t2oRpiUs := 0
  timeoutMultiplier := 0
  failsafePolicy := .hold
  o2tOffset := 0
  t2oOffset := 0

/-- `eip_scanner_config_t`. The count stays within the array and the totals within a
frame, as the parser checks before it changes them. -/
structure EipScannerConfig where
  devices : Vector EipScannerDevice eipScannerMaxDevices
  deviceCount : UInt32
  totalO2tBytes : UInt32
  totalT2oBytes : UInt32
  count_le : deviceCount.toNat ≤ eipScannerMaxDevices
  o2t_le : totalO2tBytes.toNat ≤ plcIpcMaxFrameBytes
  t2o_le : totalT2oBytes.toNat ≤ plcIpcMaxFrameBytes

/-- A table after `memset`. -/
def EipScannerConfig.zero : EipScannerConfig where
  devices := Vector.replicate _ .zero
  deviceCount := 0
  totalO2tBytes := 0
  totalT2oBytes := 0
  count_le := Nat.zero_le _
  o2t_le := Nat.zero_le _
  t2o_le := Nat.zero_le _

/-- The fields of a device, checked in the order of the source and stored in their types.
Its slices start at the totals so far. -/
def parseDevice (cfg : EipScannerConfig) (tok : Vector (List Char) fieldsPerDevice) :
    Except String EipScannerDevice := do
  require "address too long" (tok[0].length < eipScannerAddrMax)
  let configAssembly ← expect "bad config assembly" (parseU32 tok[1] 0xFFFF)
  let o2tAssembly ← expect "bad O2T assembly" (parseU32 tok[2] 0xFFFF)
  let t2oAssembly ← expect "bad T2O assembly" (parseU32 tok[3] 0xFFFF)
  let o2tBytes ← expect "bad O2T length" (parseU32 tok[4] plcIpcMaxFrameBytes)
  let t2oBytes ← expect "bad T2O length" (parseU32 tok[5] plcIpcMaxFrameBytes)
  let rpiUs ← expect "bad RPI" (parseU32 tok[6] 0xFFFFFFFF)
  require "bad RPI" (rpiUs ≠ 0)
  let timeoutMultiplier ←
    expect "timeout multiplier must be 0..7 (x4 .. x512 of the RPI)" (parseU32 tok[7] 7)
  let failsafePolicy ← expect "failsafe must be 'hold' or 'clear'" (parseFailsafe tok[8])
  return {
    address := tok[0]
    configAssembly := UInt16.ofNat configAssembly
    o2tAssembly := UInt16.ofNat o2tAssembly
    t2oAssembly := UInt16.ofNat t2oAssembly
    o2tBytes := UInt16.ofNat o2tBytes
    t2oBytes := UInt16.ofNat t2oBytes
    o2tRpiUs := UInt32.ofNat rpiUs
    t2oRpiUs := UInt32.ofNat rpiUs
    timeoutMultiplier := UInt8.ofNat timeoutMultiplier
    failsafePolicy
    o2tOffset := cfg.totalO2tBytes
    t2oOffset := cfg.totalT2oBytes }

/-- The end of the loop: the totals grow by the device's slices, if they still fit. -/
def addDevice (cfg : EipScannerConfig) (hroom : cfg.deviceCount.toNat < eipScannerMaxDevices)
    (device : EipScannerDevice) : Except String EipScannerConfig :=
  if hfits : plcIpcMaxFrameBytes < (cfg.totalO2tBytes + device.o2tBytes.toUInt32).toNat ∨
      plcIpcMaxFrameBytes < (cfg.totalT2oBytes + device.t2oBytes.toUInt32).toNat then
    .error "aggregate image exceeds the IPC frame limit"
  else
    .ok {
      devices := cfg.devices.set cfg.deviceCount.toNat device hroom
      deviceCount := cfg.deviceCount + 1
      totalO2tBytes := cfg.totalO2tBytes + device.o2tBytes.toUInt32
      totalT2oBytes := cfg.totalT2oBytes + device.t2oBytes.toUInt32
      count_le := by
        rw [UInt32.toNat_add]
        exact (Nat.mod_le _ _).trans hroom
      o2t_le := Nat.le_of_not_lt (not_or.mp hfits).1
      t2o_le := Nat.le_of_not_lt (not_or.mp hfits).2 }

/-- The loop from the token count on. -/
def parseTokens (cfg : EipScannerConfig) (tokens : Tokens fieldsPerDevice) :
    Except String EipScannerConfig :=
  if tokens.count = 0 then .ok cfg
  else if tokens.count ≠ fieldsPerDevice then
    .error ("expected 9 fields: ip cfg o2t t2o o2t_len t2o_len " ++ "rpi_us tmo_mult failsafe")
  else if hroom : eipScannerMaxDevices ≤ cfg.deviceCount.toNat then .error "too many devices"
  else do
    let device ← parseDevice cfg tokens.tok
    addDevice cfg (Nat.lt_of_not_le hroom) device

/-- The loop from the line buffer on. The token array is not initialised; nothing past the
count is read. -/
def parseBuffer (cfg : EipScannerConfig) (read : LineRead) : Except String EipScannerConfig :=
  if read.overlong then .error "line too long"
  else
    parseTokens cfg
      (readTokens isSeparator (read.line.takeWhile (· ≠ '#')) ⟨Vector.replicate _ [], 0⟩)

/-- The loop over the text. -/
def parseText (cfg : EipScannerConfig) (lineNo : ℕ) (text : List Char) :
    Except (ℕ × String) EipScannerConfig :=
  if htext : text = [] then .ok cfg
  else
    match parseBuffer cfg (readLine lineMax text) with
    | .error what => .error (lineNo + 1, what)
    | .ok next =>
        have := readLine_rest_length_lt lineMax htext
        parseText next (lineNo + 1) (readLine lineMax text).rest
termination_by text.length

/-- `eip_scanner_config_parse`. -/
def eipScannerConfigParse (text : List Char) : Except ParseError EipScannerConfig :=
  match parseText .zero 0 text with
  | .error (line, what) => .error (.atLine line what)
  | .ok cfg => if cfg.deviceCount = 0 then .error .noDevices else .ok cfg

/-! ## The table without widths -/

/-- The values of a device. -/
def EipScannerDevice.row (device : EipScannerDevice) : DeviceRow where
  address := device.address
  configAssembly := device.configAssembly.toNat
  o2tAssembly := device.o2tAssembly.toNat
  t2oAssembly := device.t2oAssembly.toNat
  o2tBytes := device.o2tBytes.toNat
  t2oBytes := device.t2oBytes.toNat
  o2tRpiUs := device.o2tRpiUs.toNat
  t2oRpiUs := device.t2oRpiUs.toNat
  timeoutMultiplier := device.timeoutMultiplier.toNat
  failsafePolicy := device.failsafePolicy
  o2tOffset := device.o2tOffset.toNat
  t2oOffset := device.t2oOffset.toNat

/-- The devices up to the count, and the totals. -/
def EipScannerConfig.table (cfg : EipScannerConfig) : ScannerConfig where
  devices := (cfg.devices.toList.take cfg.deviceCount.toNat).map EipScannerDevice.row
  totalO2tBytes := cfg.totalO2tBytes.toNat
  totalT2oBytes := cfg.totalT2oBytes.toNat

theorem EipScannerConfig.length_table (cfg : EipScannerConfig) :
    cfg.table.devices.length = cfg.deviceCount.toNat := by
  simp [table, cfg.count_le]

theorem EipScannerConfig.table_zero : EipScannerConfig.zero.table = ScannerConfig.empty := by
  rfl

/-! ## No limit shows -/

/-- Adding a slice to a total does not wrap. -/
theorem toNat_add_slice {total : UInt32} (htotal : total.toNat ≤ plcIpcMaxFrameBytes)
    (bytes : UInt16) : (total + bytes.toUInt32).toNat = total.toNat + bytes.toNat := by
  have hbytes := bytes.toNat_lt
  have hframe : plcIpcMaxFrameBytes = 496 := rfl
  rw [UInt32.toNat_add, UInt16.toNat_toUInt32, Nat.mod_eq_of_lt (by omega)]

/-- The table after a device was stored at the count. -/
theorem take_set_concat {capacity : ℕ} {α : Type} (entries : Vector α capacity) {count : ℕ}
    (hroom : count < capacity) (entry : α) :
    (entries.set count entry hroom).toList.take (count + 1) =
      entries.toList.take count ++ [entry] := by
  rw [Vector.toList_set, List.take_add_one, List.take_set_of_le (Nat.le_refl count),
    List.getElem?_set_self (by simpa using hroom), Option.toList_some]

theorem addDevice_table (cfg : EipScannerConfig)
    (hroom : cfg.deviceCount.toNat < eipScannerMaxDevices) (device : EipScannerDevice) :
    EipScannerConfig.table <$> addDevice cfg hroom device = (do
      require "aggregate image exceeds the IPC frame limit"
        (cfg.table.totalO2tBytes + device.row.o2tBytes ≤ plcIpcMaxFrameBytes ∧
          cfg.table.totalT2oBytes + device.row.t2oBytes ≤ plcIpcMaxFrameBytes)
      return {
        devices := cfg.table.devices ++ [device.row]
        totalO2tBytes := cfg.table.totalO2tBytes + device.row.o2tBytes
        totalT2oBytes := cfg.table.totalT2oBytes + device.row.t2oBytes }) := by
  have ho2t := toNat_add_slice cfg.o2t_le device.o2tBytes
  have ht2o := toNat_add_slice cfg.t2o_le device.t2oBytes
  have hcount : (cfg.deviceCount + 1).toNat = cfg.deviceCount.toNat + 1 := by
    have hsixteen : eipScannerMaxDevices = 16 := rfl
    rw [UInt32.toNat_add, UInt32.toNat_one, Nat.mod_eq_of_lt (by omega)]
  have hdevices : ((cfg.devices.set cfg.deviceCount.toNat device hroom).toList.take
      (cfg.deviceCount + 1).toNat).map EipScannerDevice.row =
        cfg.table.devices ++ [device.row] := by
    rw [hcount, take_set_concat, List.map_append]
    rfl
  unfold addDevice require
  by_cases hfits : cfg.table.totalO2tBytes + device.row.o2tBytes ≤ plcIpcMaxFrameBytes ∧
      cfg.table.totalT2oBytes + device.row.t2oBytes ≤ plcIpcMaxFrameBytes
  · have hroomy : ¬ (plcIpcMaxFrameBytes <
        (cfg.totalO2tBytes + device.o2tBytes.toUInt32).toNat ∨
          plcIpcMaxFrameBytes < (cfg.totalT2oBytes + device.t2oBytes.toUInt32).toNat) := by
      rw [ho2t, ht2o, not_or, not_lt, not_lt]
      exact hfits
    rw [dif_neg hroomy, if_pos hfits]
    apply congrArg Except.ok
    rw [EipScannerConfig.table, hdevices, ho2t, ht2o]
    rfl
  · have hfull : plcIpcMaxFrameBytes < (cfg.totalO2tBytes + device.o2tBytes.toUInt32).toNat ∨
        plcIpcMaxFrameBytes < (cfg.totalT2oBytes + device.t2oBytes.toUInt32).toNat := by
      rw [ho2t, ht2o]
      rw [not_and_or, not_le, not_le] at hfits
      exact hfits
    rw [dif_pos hfull, if_neg hfits]
    rfl

/-- A number below the bound of a 16-bit field is stored as it is. -/
theorem toNat_ofNat_parseU32 {token : List Char} {max stored : ℕ}
    (hparse : parseU32 token max = some stored) (hmax : max < 2 ^ 16) :
    (UInt16.ofNat stored).toNat = stored :=
  UInt16.toNat_ofNat_of_lt' ((parseU32_le hparse).trans_lt hmax)

/-- **One row.** Storing the fields in their types and adding up in 32 bits gives the row
and the table that the numbers themselves give. -/
theorem parseDevice_addDevice (cfg : EipScannerConfig)
    (hroom : cfg.deviceCount.toNat < eipScannerMaxDevices)
    (tok : Vector (List Char) fieldsPerDevice) :
    EipScannerConfig.table <$> (parseDevice cfg tok >>= addDevice cfg hroom) =
      parseRow cfg.table tok[0] tok[1] tok[2] tok[3] tok[4] tok[5] tok[6] tok[7] tok[8] := by
  have hcount : require "too many devices" (cfg.table.devices.length < eipScannerMaxDevices) =
      .ok () := if_pos (cfg.length_table ▸ hroom)
  unfold parseDevice parseRow
  rw [hcount]
  simp only [bind_assoc, map_bind, pure_bind, addDevice_table]
  refine bind_congr_ok fun _ haddress => ?_
  apply bind_congr_ok
  intro config hconfig
  apply bind_congr_ok
  intro o2t ho2t
  apply bind_congr_ok
  intro t2o ht2o
  apply bind_congr_ok
  intro o2tBytes ho2tBytes
  apply bind_congr_ok
  intro t2oBytes ht2oBytes
  apply bind_congr_ok
  intro rpi hrpi
  apply bind_congr_ok
  intro _ _
  apply bind_congr_ok
  intro multiplier hmultiplier
  apply bind_congr_ok
  intro failsafe hfailsafe
  rw [expect_eq_ok] at hconfig ho2t ht2o ho2tBytes ht2oBytes hrpi hmultiplier
  have hmultiplierNat : (UInt8.ofNat multiplier).toNat = multiplier :=
    UInt8.toNat_ofNat_of_lt' ((parseU32_le hmultiplier).trans_lt (by decide))
  have hrpiNat : (UInt32.ofNat rpi).toNat = rpi :=
    UInt32.toNat_ofNat_of_lt' ((parseU32_le hrpi).trans_lt (by decide))
  simp only [EipScannerDevice.row, toNat_ofNat_parseU32 hconfig (by decide),
    toNat_ofNat_parseU32 ho2t (by decide), toNat_ofNat_parseU32 ht2o (by decide),
    toNat_ofNat_parseU32 ho2tBytes (by decide), toNat_ofNat_parseU32 ht2oBytes (by decide),
    hrpiNat, hmultiplierNat]
  rfl

/-- The entries of a token array. -/
theorem toList_tok (tok : Vector (List Char) fieldsPerDevice) :
    tok.toList = [tok[0], tok[1], tok[2], tok[3], tok[4], tok[5], tok[6], tok[7], tok[8]] := by
  apply List.ext_getElem
  · simp
  · intro index hindex hother
    simp only [Vector.length_toList] at hindex
    interval_cases index <;> simp

theorem parseTokens_table (cfg : EipScannerConfig) {tokens : Tokens fieldsPerDevice}
    {line : List Char} (htokens : tokens.Holds (strtok isSeparator (content line)))
    (hline : line.length ≤ lineMax) :
    EipScannerConfig.table <$> parseTokens cfg tokens = Scanner.parseLine cfg.table line := by
  have hcount := htokens.count_eq
  rw [Scanner.parseLine, if_neg (Nat.not_lt.mpr hline), ← content, parseTokens]
  by_cases hzero : tokens.count = 0
  · rw [if_pos hzero, List.length_eq_zero_iff.mp (hcount.symm.trans hzero)]
    rfl
  · rw [if_neg hzero]
    by_cases hnine : tokens.count = fieldsPerDevice
    · rw [if_neg (not_not_intro hnine), ← htokens.toList_eq hnine, toList_tok]
      dsimp only
      by_cases hroom : eipScannerMaxDevices ≤ cfg.deviceCount.toNat
      · rw [dif_pos hroom, parseRow, require, if_neg (by rw [cfg.length_table]; omega)]
        rfl
      · rw [dif_neg hroom]
        exact parseDevice_addDevice cfg (Nat.lt_of_not_le hroom) tokens.tok
    · rw [if_pos hnine]
      split
      · next hempty => simp [hempty, hzero] at hcount
      · next hfields => simp [hfields, hnine] at hcount
      · rfl

theorem parseBuffer_table (cfg : EipScannerConfig) (text : List Char) :
    EipScannerConfig.table <$> parseBuffer cfg (readLine lineMax text) =
      Scanner.parseLine cfg.table (firstLine text) := by
  rw [readLine_eq, parseBuffer]
  dsimp only
  by_cases hlong : lineMax < (firstLine text).length
  · rw [if_pos (decide_eq_true hlong), Scanner.parseLine, if_pos hlong]
    rfl
  · rw [if_neg (by simpa using hlong), List.take_of_length_le (Nat.le_of_not_lt hlong)]
    have hstart : Tokens.Holds ⟨Vector.replicate fieldsPerDevice [], 0⟩ [] :=
      ⟨rfl, fun _ _ hindex => by cases hindex⟩
    exact parseTokens_table cfg (readTokens_holds isSeparator _ hstart) (Nat.le_of_not_lt hlong)

theorem parseText_table (cfg : EipScannerConfig) (lineNo : ℕ) (text : List Char) :
    EipScannerConfig.table <$> parseText cfg lineNo text =
      parseLines Scanner.parseLine (lineNo + 1) (textLines text) cfg.table := by
  fun_induction parseText cfg lineNo text with
  | case1 cfg lineNo => rfl
  | case2 cfg lineNo text htext what hrefused =>
      have hline := parseBuffer_table cfg text
      rw [hrefused] at hline
      rw [textLines_eq_cons htext, parseLines, ← hline]
      rfl
  | case3 cfg lineNo text htext next hnext hshorter ih =>
      have hline := parseBuffer_table cfg text
      rw [hnext] at hline
      rw [textLines_eq_cons htext, parseLines, ← hline, ih, readLine_eq]
      rfl

/-- **The parser refines the one on whole lines.** On every text it gives the same table or
the same diagnostic. -/
theorem eipScannerConfigParse_table (text : List Char) :
    EipScannerConfig.table <$> eipScannerConfigParse text =
      Scanner.eipScannerConfigParse text := by
  have htext := parseText_table .zero 0 text
  rw [EipScannerConfig.table_zero] at htext
  rw [eipScannerConfigParse, Scanner.eipScannerConfigParse, ← htext]
  cases parseText .zero 0 text with
  | error refusal => rfl
  | ok cfg =>
      have hempty : cfg.deviceCount = 0 ↔ cfg.table.devices = [] := by
        rw [← List.length_eq_zero_iff, cfg.length_table, ← UInt32.toNat_inj]
        rfl
      by_cases hzero : cfg.deviceCount = 0
      · simp [hzero, hempty.mp hzero]
      · simp [hzero, mt hempty.mpr hzero]

/-! ## What an accepted text gives -/

/-- A table as it should be read from a text: a device for each row, in the order of the
lines and as the row says, and slices that tile both images in that order. -/
structure DeviceTable (text : List Char) (cfg : EipScannerConfig) : Prop where
  count_pos : 1 ≤ cfg.deviceCount.toNat
  count_le : cfg.deviceCount.toNat ≤ 16
  length_eq : cfg.table.devices.length = cfg.deviceCount.toNat
  rows : List.Forall₂ Describes ((textLines text).filter isDeviceLine) cfg.table.devices
  o2t : Tiles DeviceRow.o2tOffset DeviceRow.o2tBytes cfg.totalO2tBytes.toNat cfg.table.devices
  t2o : Tiles DeviceRow.t2oOffset DeviceRow.t2oBytes cfg.totalT2oBytes.toNat cfg.table.devices
  o2t_le : cfg.totalO2tBytes.toNat ≤ 496
  t2o_le : cfg.totalT2oBytes.toNat ≤ 496
  device : ∀ row ∈ cfg.table.devices,
    row.o2tRpiUs ≠ 0 ∧ row.t2oRpiUs ≠ 0 ∧ row.timeoutMultiplier ≤ 7
  short : ∀ line ∈ textLines text, line.length ≤ 255

theorem deviceCount_ne_zero {text : List Char} {cfg : EipScannerConfig}
    (hparse : eipScannerConfigParse text = .ok cfg) : cfg.deviceCount ≠ 0 := by
  unfold eipScannerConfigParse at hparse
  split at hparse
  · cases hparse
  · split_ifs at hparse with hzero
    cases hparse
    exact hzero

/-- **The layout of a device table.** Every text that is accepted gives such a table. -/
theorem device_table_layout {text : List Char} {cfg : EipScannerConfig}
    (hparse : eipScannerConfigParse text = .ok cfg) : DeviceTable text cfg := by
  have htable : Scanner.eipScannerConfigParse text = .ok cfg.table := by
    rw [← eipScannerConfigParse_table, hparse]
    rfl
  have hlaid := eipScannerConfigParse_laid htable
  have hlisted := eipScannerConfigParse_listed htable
  have ho2t : cfg.totalO2tBytes.toNat = totalSize DeviceRow.o2tBytes cfg.table.devices :=
    hlaid.o2t_total
  have ht2o : cfg.totalT2oBytes.toNat = totalSize DeviceRow.t2oBytes cfg.table.devices :=
    hlaid.t2o_total
  exact
    { count_pos := Nat.pos_of_ne_zero fun hzero =>
        deviceCount_ne_zero hparse (UInt32.toNat_inj.mp hzero)
      count_le := cfg.count_le
      length_eq := cfg.length_table
      rows := hlisted.rows
      o2t := ho2t ▸ hlaid.o2t_packed.tiles
      t2o := ht2o ▸ hlaid.t2o_packed.tiles
      o2t_le := cfg.o2t_le
      t2o_le := cfg.t2o_le
      device := fun _ hrow => hlisted.device hrow
      short := hlisted.short }

/-- A table with a heading, a blank line and a comment behind a row. -/
def commentedTable : List Char :=
  ("# two drives\n" ++
    "192.168.1.10 151 150 100 32 32 10000 2 hold\n" ++ "\n" ++
    "192.168.1.11 151 150 100 8 16 5000 3 clear   # a drive\n").toList

/-- It has two devices. -/
theorem device_table_layout_commented :
    ∃ cfg, eipScannerConfigParse commentedTable = .ok cfg ∧ cfg.deviceCount.toNat = 2 ∧
      DeviceTable commentedTable cfg := by
  have hlength : (Scanner.eipScannerConfigParse commentedTable).toOption.map
      (fun table => table.devices.length) = some 2 := by
    decide +kernel
  rw [← eipScannerConfigParse_table] at hlength
  cases hparse : eipScannerConfigParse commentedTable with
  | error refusal =>
      rw [hparse] at hlength
      cases hlength
  | ok cfg =>
      rw [hparse] at hlength
      have hcount : cfg.table.devices.length = 2 := Option.some_inj.mp hlength
      exact ⟨cfg, rfl, cfg.length_table ▸ hcount, device_table_layout hparse⟩

end SoftPlc.Scanner.Reader
