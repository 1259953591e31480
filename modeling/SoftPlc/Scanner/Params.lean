/-
# The parameters of a connection

`make_params` turns a row of the device table into what EIPScanner sends in its
ForwardOpen. The three assembly instances go into the connection path, one byte
each, and the two lengths into the low bits of the network connection parameters.

The parser admits sixteen bits for an assembly and nine for a length. The lengths
fit. An instance above 255 loses its high byte on the way, and the path then names
another object of the same device.
-/

import SoftPlc.Scanner.Config

namespace SoftPlc.Scanner

open SoftPlc.Math SoftPlc.Ipc

/-- The flags of EIPScanner's `NetworkConnectionParams` that are used here. Those for
the connection parameters leave the nine bits of the length free. -/
structure NetworkFlags where
  p2p : ℕ
  scheduledPriority : ℕ
  class1 : ℕ
  p2p_above : p2p % 2 ^ 9 = 0
  scheduledPriority_above : scheduledPriority % 2 ^ 9 = 0

/-- The fields of EIPScanner's `ConnectionParameters` that `make_params` sets. -/
structure ConnectionParameters where
  connectionPath : List Byte := []
  o2tRealTimeFormat : Bool := false
  originatorVendorId : ℕ := 0
  originatorSerialNumber : ℕ := 0
  o2tNetworkConnectionParams : ℕ := 0
  t2oNetworkConnectionParams : ℕ := 0
  o2tRpi : ℕ := 0
  t2oRpi : ℕ := 0
  connectionTimeoutMultiplier : ℕ := 0
  transportTypeTrigger : ℕ := 0
  deriving DecidableEq, Repr

/-- The flags and the length, in the order they are put in. -/
def networkConnectionParams (flags : NetworkFlags) (bytes : ℕ) : ℕ :=
  0 ||| flags.p2p ||| flags.scheduledPriority ||| bytes

/-- `make_params`. -/
def makeParams (flags : NetworkFlags) (row : DeviceRow) : ConnectionParameters where
  connectionPath :=
    [0x20, 0x04,
      0x24, UInt8.ofNat row.configAssembly,
      0x2C, UInt8.ofNat row.o2tAssembly,
      0x2C, UInt8.ofNat row.t2oAssembly]
  o2tRealTimeFormat := true
  originatorVendorId := 1
  originatorSerialNumber := 0x534F4654
  o2tNetworkConnectionParams := networkConnectionParams flags row.o2tBytes
  t2oNetworkConnectionParams := networkConnectionParams flags row.t2oBytes
  o2tRpi := row.o2tRpiUs
  t2oRpi := row.t2oRpiUs
  connectionTimeoutMultiplier := row.timeoutMultiplier
  transportTypeTrigger := 0 ||| flags.class1

/-! ## What the target reads -/

/-- A logical segment with an eight-bit value. -/
inductive Segment
  | classId (value : ℕ)
  | instanceId (value : ℕ)
  | connectionPoint (value : ℕ)
  deriving DecidableEq, Repr

/-- The segments of a path, if it has no others. -/
def decodeSegments : List Byte → Option (List Segment)
  | [] => some []
  | [_] => none
  | kind :: value :: rest => do
      let segment ←
        if kind = 0x20 then some (Segment.classId value.toNat)
        else if kind = 0x24 then some (Segment.instanceId value.toNat)
        else if kind = 0x2C then some (Segment.connectionPoint value.toNat)
        else none
      return segment :: (← decodeSegments rest)

/-- The configuration instance and the two connection points of a path into the
Assembly class. -/
def decodePath (path : List Byte) : Option (ℕ × ℕ × ℕ) :=
  match decodeSegments path with
  | some [.classId 4, .instanceId config, .connectionPoint o2t, .connectionPoint t2o] =>
      some (config, o2t, t2o)
  | _ => none

/-- The path carries each instance modulo 256. -/
theorem decodePath_makeParams (flags : NetworkFlags) (row : DeviceRow) :
    decodePath (makeParams flags row).connectionPath =
      some (row.configAssembly % 256, row.o2tAssembly % 256, row.t2oAssembly % 256) := by
  simp [decodePath, decodeSegments, makeParams]

/-- A length below 512 is found again in the low bits. -/
theorem networkConnectionParams_low (flags : NetworkFlags) {bytes : ℕ} (hbytes : bytes < 2 ^ 9) :
    networkConnectionParams flags bytes % 2 ^ 9 = bytes := by
  rw [networkConnectionParams, Nat.or_mod_two_pow, Nat.or_mod_two_pow, Nat.or_mod_two_pow,
    flags.p2p_above, flags.scheduledPriority_above, Nat.mod_eq_of_lt hbytes]
  simp

/-- The lengths of an accepted row are those of a frame. -/
theorem ScannerConfig.Laid.bytes_le {cfg : ScannerConfig} (hlaid : cfg.Laid) {row : DeviceRow}
    (hrow : row ∈ cfg.devices) :
    row.o2tBytes ≤ plcIpcMaxFrameBytes ∧ row.t2oBytes ≤ plcIpcMaxFrameBytes := by
  have ho2t := (hlaid.o2t_packed.end_le row hrow).2
  have ht2o := (hlaid.t2o_packed.end_le row hrow).2
  rw [Nat.zero_add, ← hlaid.o2t_total] at ho2t
  rw [Nat.zero_add, ← hlaid.t2o_total] at ht2o
  exact ⟨(Nat.le_add_left ..).trans (ho2t.trans hlaid.o2t_le),
    (Nat.le_add_left ..).trans (ht2o.trans hlaid.t2o_le)⟩

/-- **What the parameters keep of a row.** They give back the instances and the
lengths of an accepted row if and only if each instance fits a byte. -/
theorem params_lossless_iff (flags : NetworkFlags) {text : List Char} {cfg : ScannerConfig}
    {row : DeviceRow} (hparse : eipScannerConfigParse text = .ok cfg)
    (hrow : row ∈ cfg.devices) :
    (decodePath (makeParams flags row).connectionPath =
        some (row.configAssembly, row.o2tAssembly, row.t2oAssembly) ∧
      (makeParams flags row).o2tNetworkConnectionParams % 2 ^ 9 = row.o2tBytes ∧
      (makeParams flags row).t2oNetworkConnectionParams % 2 ^ 9 = row.t2oBytes) ↔
    row.configAssembly < 256 ∧ row.o2tAssembly < 256 ∧ row.t2oAssembly < 256 := by
  obtain ⟨ho2t, ht2o⟩ := (eipScannerConfigParse_laid hparse).bytes_le hrow
  have hframe : plcIpcMaxFrameBytes < 2 ^ 9 := by decide
  have hlow : (makeParams flags row).o2tNetworkConnectionParams % 2 ^ 9 = row.o2tBytes ∧
      (makeParams flags row).t2oNetworkConnectionParams % 2 ^ 9 = row.t2oBytes :=
    ⟨networkConnectionParams_low flags (ho2t.trans_lt hframe),
      networkConnectionParams_low flags (ht2o.trans_lt hframe)⟩
  rw [decodePath_makeParams, and_iff_left hlow]
  simp only [Option.some.injEq, Prod.mk.injEq]
  omega

/-- The flags of point-to-point connections with scheduled priority. -/
def scheduledFlags : NetworkFlags where
  p2p := 0x4000
  scheduledPriority := 0x0800
  class1 := 1
  p2p_above := by decide
  scheduledPriority_above := by decide

/-- The row of a drive, by its configuration assembly. -/
def configuredRow (configAssembly : ℕ) : DeviceRow :=
  { address := "10.0.0.1".toList
    configAssembly := configAssembly
    o2tAssembly := 150
    t2oAssembly := 100
    o2tBytes := 1
    t2oBytes := 2
    o2tRpiUs := 10000
    t2oRpiUs := 10000
    timeoutMultiplier := 2
    failsafePolicy := .hold
    o2tOffset := 0
    t2oOffset := 0 }

def wideAssembly : List Char := "10.0.0.1 300 150 100 1 2 10000 2 hold".toList

theorem parse_wideAssembly :
    eipScannerConfigParse wideAssembly = .ok ⟨[configuredRow 300], 1, 2⟩ := by
  decide +kernel

/-- An accepted row whose connection path names instance 44 instead of 300. -/
theorem wideAssembly_truncated :
    eipScannerConfigParse wideAssembly = .ok ⟨[configuredRow 300], 1, 2⟩ ∧
      decodePath (makeParams scheduledFlags (configuredRow 300)).connectionPath =
        some (44, 150, 100) := by
  exact ⟨parse_wideAssembly, decodePath_makeParams scheduledFlags (configuredRow 300)⟩

def narrowAssembly : List Char := "10.0.0.1 151 150 100 1 2 10000 2 hold".toList

theorem params_lossless_iff_narrowAssembly :
    ∃ cfg, eipScannerConfigParse narrowAssembly = .ok cfg ∧ configuredRow 151 ∈ cfg.devices ∧
      decodePath (makeParams scheduledFlags (configuredRow 151)).connectionPath =
        some (151, 150, 100) ∧
      (makeParams scheduledFlags (configuredRow 151)).t2oNetworkConnectionParams % 2 ^ 9 = 2 := by
  have hparse : eipScannerConfigParse narrowAssembly = .ok ⟨[configuredRow 151], 1, 2⟩ := by
    decide +kernel
  have hrow : configuredRow 151 ∈ [configuredRow 151] := List.mem_singleton_self _
  obtain ⟨hpath, -, ht2o⟩ := (params_lossless_iff scheduledFlags hparse hrow).mpr (by decide)
  exact ⟨_, hparse, hrow, hpath, ht2o⟩

end SoftPlc.Scanner
