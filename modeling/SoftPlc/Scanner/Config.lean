/-
# The scanner's device table

One line of text for each remote device, nine fields a line. The parser packs
the devices' slices in table order into two aggregate images, and refuses a
table whose images do not fit a frame. An accepted table therefore carries its
own layout: offsets are running totals, and the totals are bounded.
-/

import SoftPlc.Ipc.Ring
import SoftPlc.Math.Parse
import SoftPlc.Math.Slices

namespace SoftPlc.Scanner

open SoftPlc.Math SoftPlc.Ipc

/-- `EIP_SCANNER_MAX_DEVICES`. -/
def eipScannerMaxDevices : ℕ := 16

/-- `EIP_SCANNER_ADDR_MAX`. -/
def eipScannerAddrMax : ℕ := 46

/-- The characters a line buffer holds besides its terminator. -/
def lineMax : ℕ := 255

/-- `eip_scanner_device_t`. Every number was checked against a bound within its
type before it was stored. -/
structure DeviceRow where
  address : List Char
  configAssembly : ℕ
  o2tAssembly : ℕ
  t2oAssembly : ℕ
  o2tBytes : ℕ
  t2oBytes : ℕ
  o2tRpiUs : ℕ
  t2oRpiUs : ℕ
  timeoutMultiplier : ℕ
  failsafePolicy : FailsafePolicy
  o2tOffset : ℕ
  t2oOffset : ℕ
  deriving DecidableEq, Repr

/-- `eip_scanner_config_t`. The device count is the length of the table. -/
structure ScannerConfig where
  devices : List DeviceRow
  totalO2tBytes : ℕ
  totalT2oBytes : ℕ
  deriving DecidableEq, Repr

/-- Why a table was refused: at a line, or because it has no devices. -/
inductive ParseError
  | atLine (line : ℕ) (what : String)
  | noDevices
  deriving DecidableEq, Repr

/-- The diagnostic that `fail` formats. -/
def ParseError.message : ParseError → String
  | .atLine line what => s!"line {line}: {what}"
  | .noDevices => "no devices configured"

/-- `parse_u32`. The value is stored in a `uint32_t`. -/
def parseU32 (token : List Char) (max : ℕ) : Option ℕ :=
  match strtoul token with
  | none => none
  | some (value, rest) => if rest ≠ [] ∨ max < value then none else some (value % 2 ^ 32)

/-- A number that `parse_u32` stores is within the bound. -/
theorem parseU32_le {token : List Char} {max stored : ℕ}
    (hparse : parseU32 token max = some stored) : stored ≤ max := by
  unfold parseU32 at hparse
  split at hparse
  · cases hparse
  · next value rest hread =>
      split_ifs at hparse with hrefused
      cases hparse
      rw [not_or, not_lt] at hrefused
      exact (Nat.mod_le _ _).trans hrefused.2

/-- The last field of a row. -/
def parseFailsafe (token : List Char) : Option FailsafePolicy :=
  if token = "hold".toList then some .hold
  else if token = "clear".toList then some .clear
  else none

/-- The fields of one row, checked in the order of the source, and its place
behind the rows before it. -/
def parseRow (cfg : ScannerConfig) (address config o2t t2o o2tLen t2oLen rpi multiplier
    failsafe : List Char) : Except String ScannerConfig := do
  require "too many devices" (cfg.devices.length < eipScannerMaxDevices)
  require "address too long" (address.length < eipScannerAddrMax)
  let configAssembly ← expect "bad config assembly" (parseU32 config 0xFFFF)
  let o2tAssembly ← expect "bad O2T assembly" (parseU32 o2t 0xFFFF)
  let t2oAssembly ← expect "bad T2O assembly" (parseU32 t2o 0xFFFF)
  let o2tBytes ← expect "bad O2T length" (parseU32 o2tLen plcIpcMaxFrameBytes)
  let t2oBytes ← expect "bad T2O length" (parseU32 t2oLen plcIpcMaxFrameBytes)
  let rpiUs ← expect "bad RPI" (parseU32 rpi 0xFFFFFFFF)
  require "bad RPI" (rpiUs ≠ 0)
  let timeoutMultiplier ←
    expect "timeout multiplier must be 0..7 (x4 .. x512 of the RPI)" (parseU32 multiplier 7)
  let failsafePolicy ← expect "failsafe must be 'hold' or 'clear'" (parseFailsafe failsafe)
  require "aggregate image exceeds the IPC frame limit"
    (cfg.totalO2tBytes + o2tBytes ≤ plcIpcMaxFrameBytes ∧
      cfg.totalT2oBytes + t2oBytes ≤ plcIpcMaxFrameBytes)
  let row : DeviceRow :=
    { address, configAssembly, o2tAssembly, t2oAssembly, o2tBytes, t2oBytes
      o2tRpiUs := rpiUs
      t2oRpiUs := rpiUs
      timeoutMultiplier, failsafePolicy
      o2tOffset := cfg.totalO2tBytes
      t2oOffset := cfg.totalT2oBytes }
  return {
    devices := cfg.devices ++ [row]
    totalO2tBytes := cfg.totalO2tBytes + o2tBytes
    totalT2oBytes := cfg.totalT2oBytes + t2oBytes }

/-- The separators of `strtok_r` in the parser. -/
def isSeparator (char : Char) : Bool := char == ' ' || char == '\t' || char == '\r'

/-- One line: a comment or blank line is skipped, a row is appended. -/
def parseLine (cfg : ScannerConfig) (line : List Char) : Except String ScannerConfig :=
  if lineMax < line.length then .error "line too long"
  else
    match strtok isSeparator (line.takeWhile (· ≠ '#')) with
    | [] => .ok cfg
    | [address, config, o2t, t2o, o2tLen, t2oLen, rpi, multiplier, failsafe] =>
        parseRow cfg address config o2t t2o o2tLen t2oLen rpi multiplier failsafe
    | _ =>
        .error ("expected 9 fields: ip cfg o2t t2o o2t_len t2o_len " ++
          "rpi_us tmo_mult failsafe")

/-- The table the parser starts from. -/
def ScannerConfig.empty : ScannerConfig :=
  { devices := [], totalO2tBytes := 0, totalT2oBytes := 0 }

/-- `eip_scanner_config_parse`. -/
def eipScannerConfigParse (text : List Char) : Except ParseError ScannerConfig :=
  match parseLines parseLine 1 (textLines text) .empty with
  | .error (line, what) => .error (.atLine line what)
  | .ok cfg => if cfg.devices = [] then .error .noDevices else .ok cfg

/-! ## What an accepted line does -/

/-- The part of a line before a comment. -/
def content (line : List Char) : List Char := line.takeWhile (· ≠ '#')

/-- The numbers and the policy of a row are those that its fields say. -/
structure DeviceRow.ReadFrom (row : DeviceRow) (config o2t t2o o2tLen t2oLen rpi multiplier
    failsafe : List Char) : Prop where
  config_eq : parseU32 config 0xFFFF = some row.configAssembly
  o2t_eq : parseU32 o2t 0xFFFF = some row.o2tAssembly
  t2o_eq : parseU32 t2o 0xFFFF = some row.t2oAssembly
  o2tLen_eq : parseU32 o2tLen plcIpcMaxFrameBytes = some row.o2tBytes
  t2oLen_eq : parseU32 t2oLen plcIpcMaxFrameBytes = some row.t2oBytes
  o2tRpi_eq : parseU32 rpi 0xFFFFFFFF = some row.o2tRpiUs
  t2oRpi_eq : row.t2oRpiUs = row.o2tRpiUs
  rpi_ne_zero : row.o2tRpiUs ≠ 0
  multiplier_eq : parseU32 multiplier 7 = some row.timeoutMultiplier
  failsafe_eq : parseFailsafe failsafe = some row.failsafePolicy

/-- A line has nine fields, and a row holds what they say. -/
def Describes (line : List Char) (row : DeviceRow) : Prop :=
  ∃ config o2t t2o o2tLen t2oLen rpi multiplier failsafe,
    strtok isSeparator (content line) =
      [row.address, config, o2t, t2o, o2tLen, t2oLen, rpi, multiplier, failsafe] ∧
    row.ReadFrom config o2t t2o o2tLen t2oLen rpi multiplier failsafe

/-- What an accepted row does to the table. -/
structure Appends (cfg next : ScannerConfig) (row : DeviceRow) : Prop where
  devices_eq : next.devices = cfg.devices ++ [row]
  o2t_total : next.totalO2tBytes = cfg.totalO2tBytes + row.o2tBytes
  t2o_total : next.totalT2oBytes = cfg.totalT2oBytes + row.t2oBytes
  o2t_offset : row.o2tOffset = cfg.totalO2tBytes
  t2o_offset : row.t2oOffset = cfg.totalT2oBytes
  count_lt : cfg.devices.length < eipScannerMaxDevices
  o2t_le : next.totalO2tBytes ≤ plcIpcMaxFrameBytes
  t2o_le : next.totalT2oBytes ≤ plcIpcMaxFrameBytes

theorem parseRow_appends {cfg next : ScannerConfig}
    {address config o2t t2o o2tLen t2oLen rpi multiplier failsafe : List Char}
    (hrow : parseRow cfg address config o2t t2o o2tLen t2oLen rpi multiplier failsafe =
      .ok next) :
    ∃ row, row.address = address ∧
      row.ReadFrom config o2t t2o o2tLen t2oLen rpi multiplier failsafe ∧
      Appends cfg next row := by
  unfold parseRow at hrow
  simp only [bind_eq_ok, require_eq_ok, expect_eq_ok] at hrow
  obtain ⟨_, hcount, _, _, _, hconfig, _, ho2t, _, ht2o, _, ho2tLen, _, ht2oLen, _, hrpi, _,
    hnonzero, _, hmultiplier, _, hfailsafe, _, hfits, hnext⟩ := hrow
  cases hnext
  exact ⟨_, rfl,
    ⟨hconfig, ho2t, ht2o, ho2tLen, ht2oLen, hrpi, rfl, hnonzero, hmultiplier, hfailsafe⟩,
    rfl, rfl, rfl, rfl, rfl, hcount, hfits.1, hfits.2⟩

/-- A line that fits the buffer is skipped or appends the row it describes. -/
theorem parseLine_cases {cfg next : ScannerConfig} {line : List Char}
    (hline : parseLine cfg line = .ok next) :
    line.length ≤ lineMax ∧
      ((strtok isSeparator (content line) = [] ∧ next = cfg) ∨
        ∃ row, Describes line row ∧ Appends cfg next row) := by
  unfold parseLine at hline
  split_ifs at hline with hlong
  refine ⟨Nat.le_of_not_lt hlong, ?_⟩
  split at hline
  · next hempty =>
      cases hline
      exact .inl ⟨hempty, rfl⟩
  · next hfields =>
      obtain ⟨row, rfl, hread, hrow⟩ := parseRow_appends hline
      exact .inr ⟨row, ⟨_, _, _, _, _, _, _, _, hfields, hread⟩, hrow⟩
  · cases hline

/-! ## The layout of an accepted table -/

/-- A table whose slices are packed in order, within its bounds. -/
structure ScannerConfig.Laid (cfg : ScannerConfig) : Prop where
  o2t_packed : Packed DeviceRow.o2tOffset DeviceRow.o2tBytes 0 cfg.devices
  t2o_packed : Packed DeviceRow.t2oOffset DeviceRow.t2oBytes 0 cfg.devices
  o2t_total : cfg.totalO2tBytes = totalSize DeviceRow.o2tBytes cfg.devices
  t2o_total : cfg.totalT2oBytes = totalSize DeviceRow.t2oBytes cfg.devices
  count_le : cfg.devices.length ≤ eipScannerMaxDevices
  o2t_le : cfg.totalO2tBytes ≤ plcIpcMaxFrameBytes
  t2o_le : cfg.totalT2oBytes ≤ plcIpcMaxFrameBytes

theorem ScannerConfig.Laid.empty : ScannerConfig.empty.Laid := by
  constructor <;> simp [ScannerConfig.empty, Packed, totalSize]

/-- An accepted row goes behind the table. -/
theorem ScannerConfig.Laid.appends {cfg next : ScannerConfig} {row : DeviceRow} (h : cfg.Laid)
    (hrow : Appends cfg next row) : next.Laid :=
  { o2t_packed := by
      rw [hrow.devices_eq]
      refine h.o2t_packed.concat ?_
      rw [hrow.o2t_offset, h.o2t_total, Nat.zero_add]
    t2o_packed := by
      rw [hrow.devices_eq]
      refine h.t2o_packed.concat ?_
      rw [hrow.t2o_offset, h.t2o_total, Nat.zero_add]
    o2t_total := by rw [hrow.devices_eq, hrow.o2t_total, h.o2t_total, totalSize_concat]
    t2o_total := by rw [hrow.devices_eq, hrow.t2o_total, h.t2o_total, totalSize_concat]
    count_le := by
      rw [hrow.devices_eq, List.length_append]
      exact hrow.count_lt
    o2t_le := hrow.o2t_le
    t2o_le := hrow.t2o_le }

/-- **The layout invariant.** Every accepted text is a packed table. -/
theorem eipScannerConfigParse_laid {text : List Char} {cfg : ScannerConfig}
    (hparse : eipScannerConfigParse text = .ok cfg) : cfg.Laid := by
  have hpreserved : ∀ (before : ScannerConfig) line after, before.Laid →
      parseLine before line = .ok after → after.Laid := by
    intro before line after hlaid hline
    obtain ⟨-, ⟨-, rfl⟩ | ⟨row, -, hrow⟩⟩ := parseLine_cases hline
    · exact hlaid
    · exact hlaid.appends hrow
  unfold eipScannerConfigParse at hparse
  split at hparse
  · cases hparse
  · next final hlines =>
      split_ifs at hparse
      cases hparse
      exact parseLines_invariant hpreserved .empty hlines

/-- The table of the example in the header of the source: two devices, one of
each policy. -/
example :
    (eipScannerConfigParse ("192.168.1.10 151 150 100 32 32 10000 2 hold\n".toList ++
        "# comment\n192.168.1.11 151 150 100 8 8 10000 2 clear".toList)).toOption.map
        (fun cfg => cfg.devices.map fun row => (row.t2oOffset, row.failsafePolicy)) =
      some [(0, .hold), (32, .clear)] := by
  decide +kernel

end SoftPlc.Scanner
