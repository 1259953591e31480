/-
# The health byte tells the truth

Each device of the scanner has a health byte in front of the image, and a slice
inside it. The health byte says `ONLINE` when the slice is live: the current
connection is open and has delivered. That the connection is open is not enough,
and that the device once delivered is not either.

The flags behind it are compared with the wire. Every step keeps them in
agreement, for each device on its own, and an exchange then writes what the wire
says.
-/

import SoftPlc.Math.Run
import SoftPlc.Scanner.Backend

namespace SoftPlc.Scanner

open SoftPlc.Math SoftPlc.Ipc

/-! ## What the wire says -/

namespace Wire

/-- The current connection is open and a frame was accepted on it. -/
def Delivering (wire : Wire) : Prop :=
  ∃ link, wire.connection = some link ∧ link.accepted ≠ []

/-- The image of the last frame accepted on any connection, zeros if there was
none. -/
def heldImage (wire : Wire) (size : ℕ) : List Byte :=
  (wire.accepted.head?.map fun frame => fit 0 frame size).getD (List.replicate size 0)

@[simp]
theorem heldImage_length (wire : Wire) (size : ℕ) : (wire.heldImage size).length = size := by
  unfold heldImage
  cases wire.accepted.head? <;> simp

end Wire

/-- **The truth about one device.** A frame counts as its first `t2o_bytes` bytes,
extended with zeros. -/
structure TellsTruth (row : DeviceRow) (wire : Wire) (health : Byte) (slice : List Byte) :
    Prop where
  online_iff : health = eipDeviceOnline ↔ wire.Delivering
  live : ∀ link frame earlier, wire.connection = some link → link.accepted = frame :: earlier →
    slice = fit 0 frame row.t2oBytes
  failsafe : ¬ wire.Delivering →
    slice =
      match row.failsafePolicy with
      | .clear => List.replicate row.t2oBytes 0
      | .hold => wire.heldImage row.t2oBytes
  lost : ¬ wire.Delivering →
    health = if wire.delivered = 0 then eipDeviceOffline else eipDeviceFailsafe

/-! ## The flags agree with the wire -/

/-- A health byte reads `ONLINE` for the devices that count as online. -/
theorem deviceHealth_eq_online_iff {device : Device} :
    deviceHealth device = eipDeviceOnline ↔ isOnline device = true := by
  unfold deviceHealth
  split_ifs with honline hever
  · exact iff_of_true rfl honline
  · exact iff_of_false (by decide) honline
  · exact iff_of_false (by decide) honline

/-- The agreement between a device's record and its wire. -/
structure Line.Sound (line : Line) : Prop where
  latest_length : line.device.latest.length = line.device.cfg.t2oBytes
  connected_eq : line.device.connected = line.wire.connection.isSome
  hasData_iff : ∀ link, line.wire.connection = some link →
    (line.device.hasData = true ↔ link.accepted ≠ [])
  latest_eq : ∀ link frame earlier, line.wire.connection = some link →
    link.accepted = frame :: earlier → line.device.latest = fit 0 frame line.device.cfg.t2oBytes
  lastGood_eq : line.device.lastGood = line.wire.heldImage line.device.cfg.t2oBytes
  everData_iff : line.device.everData = true ↔ line.wire.delivered ≠ 0
  baseline : line.device.haveSeq = true → line.device.everData = true

namespace Line.Sound

variable {line : Line}

theorem start (row : DeviceRow) : (Line.start row).Sound := by
  constructor <;> simp [Line.start, Wire.heldImage]

/-- The retry time is nobody's business here. -/
theorem setRetry (h : line.Sound) (nextRetry : ℕ) :
    Line.Sound { line with device := { line.device with nextRetry := nextRetry } } :=
  { h with }

/-- A new connection has delivered nothing, and starts a new sequence. -/
theorem openConnection (h : line.Sound) : (openConnection line).Sound :=
  { latest_length := h.latest_length
    connected_eq := rfl
    hasData_iff := by
      rintro link ⟨⟩
      simp [Scanner.openConnection]
    latest_eq := by
      rintro link frame earlier ⟨⟩ hframe
      cases hframe
    lastGood_eq := h.lastGood_eq
    everData_iff := h.everData_iff
    baseline := nofun }

/-- A closed connection leaves what it delivered behind. -/
theorem closeConnection (h : line.Sound) (now : ℕ) : (closeConnection line now).Sound :=
  { latest_length := h.latest_length
    connected_eq := rfl
    hasData_iff := nofun
    latest_eq := nofun
    lastGood_eq := h.lastGood_eq
    everData_iff := h.everData_iff
    baseline := h.baseline }

/-- A frame the listener drops. It had a baseline to compare with, so the device
had delivered before. -/
theorem dropFrame (h : line.Sound) (hbaseline : line.device.haveSeq = true) :
    Line.Sound { line with wire := { line.wire with delivered := line.wire.delivered + 1 } } :=
  { h with
    everData_iff := by
      have hever := h.baseline hbaseline
      simp [hever] }

/-- A frame the listener accepts becomes the image and the held image. -/
theorem acceptFrame (h : line.Sound) {link : Link} (hlink : line.wire.connection = some link)
    (sequence : UInt16) (data : List Byte) :
    Line.Sound
      { device := acceptFrame line.device sequence data
        wire :=
          { connection := some { link with accepted := data :: link.accepted }
            accepted := data :: line.wire.accepted
            delivered := line.wire.delivered + 1 } } := by
  have hlatest : (Scanner.acceptFrame line.device sequence data).latest =
      fit 0 data line.device.cfg.t2oBytes := by
    rw [← h.latest_length]
    exact memset_memcpy_eq_fit data 0 rfl
  have hconnected : line.device.connected = true := by
    rw [h.connected_eq, hlink]
    rfl
  exact
    { latest_length := by
        rw [hlatest]
        exact fit_length _ _ _
      connected_eq := hconnected
      hasData_iff := by
        rintro link ⟨⟩
        simp [Scanner.acceptFrame]
      latest_eq := by
        rintro link frame earlier ⟨⟩ ⟨⟩
        exact hlatest
      lastGood_eq := hlatest
      everData_iff := by simp [Scanner.acceptFrame]
      baseline := fun _ => rfl }

theorem receiveFrame (h : line.Sound) {link : Link} (hlink : line.wire.connection = some link)
    (sequence : UInt16) (data : List Byte) : (receiveFrame line link sequence data).Sound := by
  unfold Scanner.receiveFrame
  split_ifs with hdrops
  · exact h.dropFrame hdrops.1
  · exact h.acceptFrame hlink sequence data

/-- Outputs are handed over to the connection, which stays what it is. -/
theorem handOver (h : line.Sound) : (handOver line).Sound := by
  unfold Scanner.handOver
  split_ifs with hconnected
  · cases hlink : line.wire.connection with
    | none =>
        rw [h.connected_eq, hlink] at hconnected
        cases hconnected
    | some link =>
        exact
          { h with
            connected_eq := by
              rw [h.connected_eq, hlink]
              rfl
            hasData_iff := by
              rintro handed ⟨⟩
              exact h.hasData_iff link hlink
            latest_eq := by
              rintro handed frame earlier ⟨⟩ hframe
              exact h.latest_eq link frame earlier hlink hframe }
  · exact h

/-- Staging outputs touches nothing the inputs depend on. -/
theorem stageOutputs (h : line.Sound) (o2t : List Byte) :
    Line.Sound { line with device := stageOutputs o2t line.device } := by
  unfold Scanner.stageOutputs
  split_ifs
  · exact { h with }
  · exact h

/-- Every move keeps the agreement. -/
theorem move (h : line.Sound) {next : Line} (hmove : LineMove line next) : next.Sound := by
  cases hmove with
  | stays => exact h
  | handsOver => exact h.handOver
  | receives link sequence data hlink => exact h.receiveFrame hlink sequence data
  | closes now => exact h.closeConnection now
  | tries nextRetry => exact h.setRetry nextRetry
  | opens nextRetry => exact (h.setRetry nextRetry).openConnection
  | stages o2t => exact h.stageOutputs o2t

/-- A device is online when its wire delivers. -/
theorem isOnline_iff (h : line.Sound) : isOnline line.device = true ↔ line.wire.Delivering := by
  rw [isOnline, Bool.and_eq_true, h.connected_eq, Option.isSome_iff_exists]
  constructor
  · rintro ⟨⟨link, hlink⟩, hdata⟩
    exact ⟨link, hlink, (h.hasData_iff link hlink).mp hdata⟩
  · rintro ⟨link, hlink, haccepted⟩
    exact ⟨⟨link, hlink⟩, (h.hasData_iff link hlink).mpr haccepted⟩

/-- What a device writes is the truth. -/
theorem tellsTruth (h : line.Sound) :
    TellsTruth line.device.cfg line.wire (deviceHealth line.device) (deviceSlice line.device) := by
  by_cases honline : isOnline line.device = true
  · have hdelivering := h.isOnline_iff.mp honline
    exact
      { online_iff := iff_of_true (if_pos honline) hdelivering
        live := by
          intro link frame earlier hlink hframe
          rw [deviceSlice, if_pos honline]
          exact h.latest_eq link frame earlier hlink hframe
        failsafe := absurd hdelivering
        lost := absurd hdelivering }
  · have hsilent : ¬ line.wire.Delivering := fun hdelivering =>
      honline (h.isOnline_iff.mpr hdelivering)
    have hever := h.everData_iff
    exact
      { online_iff := iff_of_false (mt deviceHealth_eq_online_iff.mp honline) hsilent
        live := by
          intro link frame earlier hlink hframe
          refine absurd ⟨link, hlink, ?_⟩ hsilent
          rw [hframe]
          exact nofun
        failsafe := by
          intro _
          cases hpolicy : line.device.cfg.failsafePolicy with
          | hold => simp only [deviceSlice, if_neg honline, hpolicy, h.lastGood_eq]
          | clear => simp only [deviceSlice, if_neg honline, hpolicy]
        lost := by
          intro _
          rw [deviceHealth, if_neg honline]
          by_cases hdelivered : line.wire.delivered = 0 <;> simp [hever, hdelivered] }

end Line.Sound

/-! ## Whole runs -/

/-- The devices are those of the table, and each agrees with its wire. -/
structure Backend.Sound (cfg : ScannerConfig) (backend : Backend) : Prop where
  cfg_eq : backend.cfg = cfg
  table : backend.lines.map (fun line => line.device.cfg) = cfg.devices
  lines : ∀ line ∈ backend.lines, line.Sound

namespace Backend.Sound

variable {cfg : ScannerConfig} {backend next : Backend}

theorem start (cfg : ScannerConfig) : (scannerInit cfg).Sound cfg := by
  refine ⟨rfl, ?_, ?_⟩
  · simp only [scannerInit, List.map_map]
    exact List.map_id _
  · intro line hline
    obtain ⟨row, -, rfl⟩ := List.mem_map.mp hline
    exact .start row

/-- The line at an index is one of them. -/
theorem line (h : backend.Sound cfg) {index : ℕ} {line : Line}
    (hline : backend.lines[index]? = some line) : line.Sound :=
  h.lines line (List.mem_of_getElem? hline)

/-- Every step keeps the devices and their agreement. -/
theorem step {act : Act} (h : backend.Sound cfg) (hstep : backend.step act = some next) :
    next.Sound cfg := by
  have hmoves := Backend.step_moves hstep
  exact
    { cfg_eq := hmoves.cfg_eq.trans h.cfg_eq
      table := hmoves.table_eq.trans h.table
      lines := hmoves.forall_lines (fun _ _ hline hmove => hline.move hmove) h.lines }

/-- The buffers of the program have the sizes of the table. -/
theorem shaped (h : backend.Sound cfg) : backend.Shaped := by
  refine ⟨?_, ?_, ?_⟩
  · rw [Backend.devices, List.map_map, h.cfg_eq]
    exact h.table
  · intro device hdevice
    obtain ⟨line, hline, rfl⟩ := List.mem_map.mp hdevice
    exact (h.lines line hline).latest_length
  · intro device hdevice
    obtain ⟨line, hline, rfl⟩ := List.mem_map.mp hdevice
    rw [(h.lines line hline).lastGood_eq]
    exact Wire.heldImage_length _ _

end Backend.Sound

/-- The devices that count as online are those whose health byte says so. -/
theorem scannerOnline_eq_count (backend : Backend) :
    scannerOnline backend = (backend.devices.map deviceHealth).count eipDeviceOnline := by
  rw [scannerOnline, List.count, List.countP_map]
  apply List.countP_congr
  intro device _
  rw [Function.comp_apply, beq_iff_eq]
  exact deviceHealth_eq_online_iff.symm

/-- An exchange does not change who is online. -/
theorem scannerOnline_exchange (backend : Backend) (o2t : List Byte) (images : Images) :
    scannerOnline (scannerExchange backend o2t images).1 = scannerOnline backend := by
  simp only [scannerOnline, Backend.devices, scannerExchange, List.map_map, List.countP_map]
  apply List.countP_congr
  intro line _
  simp only [Function.comp_apply, stageOutputs]
  split_ifs <;> rfl

/-- **The health byte tells the truth.** For every accepted table that passes the
core's size check, after every run of polls, listeners, connection attempts and
exchanges: an exchange, with the buffers of the service loop, writes for each
device a health byte and a slice that say what its wire says, and
`scanner_online` right after it counts the health bytes that read `ONLINE`. -/
theorem health_tells_truth {text : List Char} {cfg : ScannerConfig}
    (hparse : eipScannerConfigParse text = .ok cfg)
    (hsize : cfg.devices.length + cfg.totalT2oBytes ≤ plcIpcMaxFrameBytes)
    {schedule : List Act} {backend : Backend}
    (hrun : exec Backend.step (scannerInit cfg) schedule = some backend) (o2t : List Byte)
    {images : Images} (hhealth : images.health.length = cfg.devices.length)
    (ht2o : images.t2o.length = plcIpcMaxFrameBytes - cfg.devices.length) :
    (∀ (index : ℕ) (row : DeviceRow), cfg.devices[index]? = some row →
      ∃ (line : Line) (health : Byte), backend.lines[index]? = some line ∧
        (scannerExchange backend o2t images).2.1.health[index]? = some health ∧
        TellsTruth row line.wire health
          (((scannerExchange backend o2t images).2.1.t2o.drop row.t2oOffset).take
            row.t2oBytes)) ∧
      scannerOnline (scannerExchange backend o2t images).1 =
        (scannerExchange backend o2t images).2.1.health.count eipDeviceOnline := by
  have hpreserved : ∀ before act after, Backend.Sound cfg before →
      Backend.step before act = some after → Backend.Sound cfg after :=
    fun before act after hsound hstep => hsound.step hstep
  have hsound := exec_invariant_all hpreserved (Backend.Sound.start cfg) hrun
  have hcfg := hsound.cfg_eq
  have hlaid := eipScannerConfigParse_laid hparse
  rw [← hcfg] at hlaid hhealth
  obtain ⟨hbytes, hslices⟩ := scannerExchange_images hsound.shaped hlaid hhealth
    (by rw [hcfg, ht2o]; omega) o2t
  refine ⟨?_, ?_⟩
  · intro index row hrow
    rw [← hsound.table, List.getElem?_map] at hrow
    obtain ⟨line, hline, rfl⟩ := Option.map_eq_some_iff.mp hrow
    have hdevice : line.device ∈ backend.devices :=
      List.mem_map_of_mem (List.mem_of_getElem? hline)
    refine ⟨line, deviceHealth line.device, hline, ?_, ?_⟩
    · rw [hbytes, Backend.devices, List.map_map, List.getElem?_map, hline]
      rfl
    · rw [hslices line.device hdevice]
      exact (hsound.line hline).tellsTruth
  · rw [scannerOnline_exchange, hbytes]
    exact scannerOnline_eq_count backend

/-- A drive with two input bytes that holds its image, and one with one byte that
clears it. -/
def drives : List Char :=
  "10.0.0.1 151 150 100 1 2 10000 2 hold\n10.0.0.2 151 150 100 1 1 10000 2 clear\n".toList

/-- The table the parser makes of it. -/
def drivesTable : ScannerConfig :=
  { devices :=
      [ { address := "10.0.0.1".toList, configAssembly := 151, o2tAssembly := 150
          t2oAssembly := 100, o2tBytes := 1, t2oBytes := 2, o2tRpiUs := 10000, t2oRpiUs := 10000
          timeoutMultiplier := 2, failsafePolicy := .hold, o2tOffset := 0, t2oOffset := 0 },
        { address := "10.0.0.2".toList, configAssembly := 151, o2tAssembly := 150
          t2oAssembly := 100, o2tBytes := 1, t2oBytes := 1, o2tRpiUs := 10000, t2oRpiUs := 10000
          timeoutMultiplier := 2, failsafePolicy := .clear, o2tOffset := 1, t2oOffset := 2 } ]
    totalO2tBytes := 2
    totalT2oBytes := 3 }

theorem parse_drives : eipScannerConfigParse drives = .ok drivesTable := by
  decide +kernel

/-- The first drive delivers, drops off and reconnects without delivering; the
second delivers. -/
def reconnects : List Act :=
  [.connect 0 0 .opened, .connect 1 0 .opened, .poll, .receive 0 1 [7, 8], .receive 1 1 [9],
    .close 0 10, .connect 0 3000000 .opened]

/-- The reply buffer of the service loop, split behind the health bytes. -/
def replyBuffer : Images := ⟨[0, 0], List.replicate 494 5⟩

theorem health_tells_truth_reconnects :
    ∃ backend, exec Backend.step (scannerInit drivesTable) reconnects = some backend ∧
      (scannerExchange backend [1, 1] replyBuffer).2.1.health =
        [eipDeviceFailsafe, eipDeviceOnline] ∧
      (scannerExchange backend [1, 1] replyBuffer).2.1.t2o.take 3 = [7, 8, 9] ∧
      scannerOnline (scannerExchange backend [1, 1] replyBuffer).1 =
        (scannerExchange backend [1, 1] replyBuffer).2.1.health.count eipDeviceOnline := by
  have hview : (exec Backend.step (scannerInit drivesTable) reconnects).map
      (fun backend => ((scannerExchange backend [1, 1] replyBuffer).2.1.health,
        (scannerExchange backend [1, 1] replyBuffer).2.1.t2o.take 3)) =
      some ([eipDeviceFailsafe, eipDeviceOnline], [7, 8, 9]) := by
    decide +kernel
  obtain ⟨backend, hrun, hvalues⟩ := Option.map_eq_some_iff.mp hview
  have htruth := health_tells_truth parse_drives (by decide) hrun [1, 1]
    (show replyBuffer.health.length = drivesTable.devices.length from rfl)
    (by decide +kernel)
  exact ⟨backend, hrun, congrArg Prod.fst hvalues, congrArg Prod.snd hvalues, htruth.2⟩

end SoftPlc.Scanner
