/-
# The scanner backend

The scanner process opens one connection to each device of its table. The stack
delivers frames and reports closed connections through listeners; the service
loop swaps images with `scanner_exchange`. All of them work on one record for
each device.

The record has several flags about the same connection, set by different
functions: whether it is open, whether it has delivered anything, and whether
any connection ever has. Next to each record stands what really happened on the
wire. It is not part of the program; it is what the flags are compared with.

A poll is cut where the stack's listeners run: first the outputs are handed to
the open connections, then listeners fire, then closed connections are retried,
one device at a time.
-/

import SoftPlc.Scanner.Config

namespace SoftPlc.Scanner

open SoftPlc.Math SoftPlc.Ipc

/-- `EIP_DEVICE_OFFLINE`. -/
def eipDeviceOffline : Byte := 0

/-- `EIP_DEVICE_ONLINE`. -/
def eipDeviceOnline : Byte := 1

/-- `EIP_DEVICE_FAILSAFE`. -/
def eipDeviceFailsafe : Byte := 2

/-- `kReconnectInterval`, in microseconds. -/
def reconnectInterval : ℕ := 2000000

/-- `Device`. The session and connection handles are on the wire's side. -/
structure Device where
  cfg : DeviceRow
  connected : Bool
  hasData : Bool
  everData : Bool
  lastSeq : UInt16
  haveSeq : Bool
  lastGood : List Byte
  latest : List Byte
  toSend : List Byte
  nextRetry : ℕ
  deriving DecidableEq, Repr

/-- An open connection: what it sends, and the frames accepted on it, newest
first. -/
structure Link where
  sending : List Byte
  accepted : List (List Byte)
  deriving DecidableEq, Repr

/-- What happened on the wire of one device: the connection that is open, the
frames accepted on any connection, newest first, and the number of frames
delivered. -/
structure Wire where
  connection : Option Link
  accepted : List (List Byte)
  delivered : ℕ
  deriving DecidableEq, Repr

/-- A device with its wire. -/
structure Line where
  device : Device
  wire : Wire
  deriving DecidableEq, Repr

/-- The state of the backend: its table, its devices and its counters. -/
structure Backend where
  cfg : ScannerConfig
  lines : List Line
  forwardOpens : ℕ
  losses : ℕ
  outOfOrder : ℕ
  rejects : ℕ
  deriving DecidableEq, Repr

/-- A device of `scanner_init`, before its first connection. -/
def Line.start (row : DeviceRow) : Line :=
  { device :=
      { cfg := row
        connected := false
        hasData := false
        everData := false
        lastSeq := 0
        haveSeq := false
        lastGood := List.replicate row.t2oBytes 0
        latest := List.replicate row.t2oBytes 0
        toSend := List.replicate row.o2tBytes 0
        nextRetry := 0 }
    wire := { connection := none, accepted := [], delivered := 0 } }

/-- `scanner_init`. Its connection attempts are steps of their own. -/
def scannerInit (cfg : ScannerConfig) : Backend :=
  { cfg := cfg
    lines := cfg.devices.map Line.start
    forwardOpens := 0
    losses := 0
    outOfOrder := 0
    rejects := 0 }

/-- The records of the program, without the wires. -/
def Backend.devices (backend : Backend) : List Device := backend.lines.map Line.device

/-- Replace the line of one device. -/
def Backend.setLine (backend : Backend) (index : ℕ) (line : Line) : Backend :=
  { backend with lines := backend.lines.set index line }

/-- How an attempt to connect ends: the session is refused, `forwardOpen` is
rejected, or a connection opens. -/
inductive Attempt
  | noSession
  | rejected
  | opened
  deriving DecidableEq, Repr

/-- A new connection. Nothing has been received on it, whatever the last one left
behind. -/
def openConnection (line : Line) : Line :=
  { device := { line.device with hasData := false, haveSeq := false, connected := true }
    wire := { line.wire with connection := some ⟨line.device.toSend, []⟩ } }

/-- `connect_device`, with its retry gate. -/
def connectDevice (backend : Backend) (index : ℕ) (line : Line) (now : ℕ) (attempt : Attempt) :
    Backend :=
  if now < line.device.nextRetry then backend
  else
    let tried : Line :=
      { line with device := { line.device with nextRetry := now + reconnectInterval } }
    match attempt with
    | .noSession => backend.setLine index tried
    | .rejected => { backend.setLine index tried with rejects := backend.rejects + 1 }
    | .opened =>
        { backend.setLine index (openConnection tried) with
          forwardOpens := backend.forwardOpens + 1 }

/-- The receive listener drops a frame that is not newer than the last. -/
def dropsFrame (device : Device) (sequence : UInt16) : Prop :=
  device.haveSeq = true ∧ (sequence - device.lastSeq).toInt16 ≤ 0

instance (device : Device) (sequence : UInt16) : Decidable (dropsFrame device sequence) :=
  inferInstanceAs (Decidable (_ ∧ _))

/-- The receive listener for a frame it accepts. -/
def acceptFrame (device : Device) (sequence : UInt16) (data : List Byte) : Device :=
  let n := min data.length device.latest.length
  let latest := memset (memcpy device.latest 0 data n) n 0 (device.latest.length - n)
  { device with
    lastSeq := sequence
    haveSeq := true
    latest := latest
    lastGood := latest
    hasData := true
    everData := true }

/-- The receive listener on an open connection. -/
def receiveFrame (line : Line) (link : Link) (sequence : UInt16) (data : List Byte) : Line :=
  if dropsFrame line.device sequence then
    { line with wire := { line.wire with delivered := line.wire.delivered + 1 } }
  else
    { device := acceptFrame line.device sequence data
      wire :=
        { connection := some { link with accepted := data :: link.accepted }
          accepted := data :: line.wire.accepted
          delivered := line.wire.delivered + 1 } }

/-- The close listener. -/
def closeConnection (line : Line) (now : ℕ) : Line :=
  { device := { line.device with connected := false, nextRetry := now + reconnectInterval }
    wire := { line.wire with connection := none } }

/-- The first part of `scanner_poll`, for one device. The handle of a connection
is good as long as the connection is open. -/
def handOver (line : Line) : Line :=
  if line.device.connected then
    match line.wire.connection with
    | some link =>
        { line with
          wire := { line.wire with
            connection := some { link with sending := line.device.toSend } } }
    | none => { line with device := { line.device with connected := false } }
  else line

/-! ## Exchanging images -/

/-- The outputs of one device, staged for the next poll. -/
def stageOutputs (o2t : List Byte) (device : Device) : Device :=
  if device.cfg.o2tOffset + device.cfg.o2tBytes ≤ o2t.length then
    { device with
      toSend := memcpy device.toSend 0 (o2t.drop device.cfg.o2tOffset) device.cfg.o2tBytes }
  else device

/-- A device whose current connection has delivered. -/
def isOnline (device : Device) : Bool := device.connected && device.hasData

/-- The health byte of a device. -/
def deviceHealth (device : Device) : Byte :=
  if isOnline device then eipDeviceOnline
  else if device.everData then eipDeviceFailsafe
  else eipDeviceOffline

/-- The block a device contributes to the image. -/
def deviceSlice (device : Device) : List Byte :=
  if isOnline device then device.latest
  else
    match device.cfg.failsafePolicy with
    | .clear => List.replicate device.cfg.t2oBytes 0
    | .hold => device.lastGood

/-- The buffers of the caller: one health byte for each device, and the data. -/
structure Images where
  health : List Byte
  t2o : List Byte
  deriving DecidableEq, Repr

/-- The part of `scanner_exchange` for device `index` that writes to the caller's
buffers. A device whose slice does not fit is skipped. -/
def writeDevice (total : ℕ) (images : Images) (index : ℕ) (device : Device) : Images :=
  if total < device.cfg.t2oOffset + device.cfg.t2oBytes then images
  else
    { health := images.health.set index (deviceHealth device)
      t2o := memcpy images.t2o device.cfg.t2oOffset (deviceSlice device) device.cfg.t2oBytes }

/-- The loop of `scanner_exchange` from device `index` on. -/
def writeDevices (total : ℕ) : ℕ → List Device → Images → Images
  | _, [], images => images
  | index, device :: rest, images =>
      writeDevices total (index + 1) rest (writeDevice total images index device)

/-- `scanner_exchange`: outputs staged, images written, and the number of data
bytes. The source does both for one device before it goes on to the next; neither
reads what the other writes. -/
def scannerExchange (backend : Backend) (o2t : List Byte) (images : Images) :
    Backend × Images × ℕ :=
  let total := min backend.cfg.totalT2oBytes images.t2o.length
  ({ backend with
      lines := backend.lines.map fun line =>
        { line with device := stageOutputs o2t line.device } },
    writeDevices total 0 backend.devices images, total)

/-- `scanner_online`. -/
def scannerOnline (backend : Backend) : ℕ := backend.devices.countP isOnline

/-! ## Runs -/

/-- A step of the process: a poll hands over outputs, a listener fires, a closed
connection is retried, or the service loop exchanges images. -/
inductive Act
  | poll
  | receive (index : ℕ) (sequence : UInt16) (data : List Byte)
  | close (index : ℕ) (now : ℕ)
  | connect (index : ℕ) (now : ℕ) (attempt : Attempt)
  | exchange (o2t : List Byte) (images : Images)
  deriving DecidableEq, Repr

/-- One step. A listener fires only while its connection is open, and
`scanner_poll` retries a device only while it is not connected. -/
def Backend.step (backend : Backend) : Act → Option Backend
  | .poll => some { backend with lines := backend.lines.map handOver }
  | .receive index sequence data =>
      match backend.lines[index]? with
      | none => none
      | some line =>
          match line.wire.connection with
          | none => none
          | some link =>
              let dropped := if dropsFrame line.device sequence then 1 else 0
              some { backend.setLine index (receiveFrame line link sequence data) with
                outOfOrder := backend.outOfOrder + dropped }
  | .close index now =>
      match backend.lines[index]? with
      | none => none
      | some line =>
          if line.wire.connection = none then none
          else
            some { backend.setLine index (closeConnection line now) with
              losses := backend.losses + 1 }
  | .connect index now attempt =>
      match backend.lines[index]? with
      | none => none
      | some line =>
          if line.device.connected then none
          else some (connectDevice backend index line now attempt)
  | .exchange o2t images => some (scannerExchange backend o2t images).1

/-! ## What a step can do to a device -/

/-- Everything a step can do to one line. -/
inductive LineMove (line : Line) : Line → Prop
  | stays : LineMove line line
  | handsOver : LineMove line (handOver line)
  | receives (link : Link) (sequence : UInt16) (data : List Byte)
      (hlink : line.wire.connection = some link) :
      LineMove line (receiveFrame line link sequence data)
  | closes (now : ℕ) : LineMove line (closeConnection line now)
  | tries (nextRetry : ℕ) :
      LineMove line { line with device := { line.device with nextRetry := nextRetry } }
  | opens (nextRetry : ℕ) :
      LineMove line
        (openConnection { line with device := { line.device with nextRetry := nextRetry } })
  | stages (o2t : List Byte) :
      LineMove line { line with device := stageOutputs o2t line.device }

/-- No step changes a row of the table. -/
theorem LineMove.cfg_eq {line next : Line} (hmove : LineMove line next) :
    next.device.cfg = line.device.cfg := by
  cases hmove with
  | handsOver =>
      unfold handOver
      split_ifs
      · split <;> rfl
      · rfl
  | receives link sequence data =>
      unfold receiveFrame
      split_ifs <;> rfl
  | stages o2t =>
      simp only [stageOutputs]
      split_ifs <;> rfl
  | _ => rfl

/-- The lines of `next` are those of `backend`, each after a move. -/
structure Backend.Moves (backend next : Backend) : Prop where
  cfg_eq : next.cfg = backend.cfg
  length_eq : next.lines.length = backend.lines.length
  line : ∀ (index : ℕ) (after : Line), next.lines[index]? = some after →
    ∃ before, backend.lines[index]? = some before ∧ LineMove before after

/-- Changing one line is a move of that line. -/
theorem Backend.moves_set {backend next : Backend} {index : ℕ} {line new : Line}
    (hline : backend.lines[index]? = some line) (hmove : LineMove line new)
    (hcfg : next.cfg = backend.cfg) (hlines : next.lines = backend.lines.set index new) :
    backend.Moves next := by
  refine ⟨hcfg, by rw [hlines, List.length_set], ?_⟩
  intro other after hafter
  rw [hlines, List.getElem?_set] at hafter
  split_ifs at hafter with hsame hbound
  · cases hafter
    subst hsame
    exact ⟨line, hline, hmove⟩
  · exact ⟨after, hafter, .stays⟩

/-- Changing every line is a move of every line. -/
theorem Backend.moves_map {backend next : Backend} {change : Line → Line}
    (hmove : ∀ line, LineMove line (change line)) (hcfg : next.cfg = backend.cfg)
    (hlines : next.lines = backend.lines.map change) : backend.Moves next := by
  refine ⟨hcfg, by rw [hlines, List.length_map], ?_⟩
  intro index after hafter
  rw [hlines, List.getElem?_map] at hafter
  obtain ⟨before, hbefore, rfl⟩ := Option.map_eq_some_iff.mp hafter
  exact ⟨before, hbefore, hmove before⟩

theorem connectDevice_moves {backend : Backend} {index : ℕ} {line : Line}
    (hline : backend.lines[index]? = some line) (now : ℕ) (attempt : Attempt) :
    backend.Moves (connectDevice backend index line now attempt) := by
  unfold connectDevice
  split_ifs
  · exact ⟨rfl, rfl, fun _ after hafter => ⟨after, hafter, .stays⟩⟩
  · cases attempt with
    | noSession => exact Backend.moves_set hline (.tries _) rfl rfl
    | rejected => exact Backend.moves_set hline (.tries _) rfl rfl
    | opened => exact Backend.moves_set hline (.opens _) rfl rfl

/-- **What a step can do.** -/
theorem Backend.step_moves {backend next : Backend} {act : Act}
    (hstep : backend.step act = some next) : backend.Moves next := by
  cases act with
  | poll =>
      cases hstep
      exact Backend.moves_map (fun _ => .handsOver) rfl rfl
  | receive index sequence data =>
      simp only [Backend.step] at hstep
      split at hstep
      · cases hstep
      · next line hline =>
          split at hstep
          · cases hstep
          · next link hlink =>
              cases hstep
              exact Backend.moves_set hline (.receives link sequence data hlink) rfl rfl
  | close index now =>
      simp only [Backend.step] at hstep
      split at hstep
      · cases hstep
      · next line hline =>
          split_ifs at hstep
          cases hstep
          exact Backend.moves_set hline (.closes now) rfl rfl
  | connect index now attempt =>
      simp only [Backend.step] at hstep
      split at hstep
      · cases hstep
      · next line hline =>
          split_ifs at hstep
          cases hstep
          exact connectDevice_moves hline now attempt
  | exchange o2t images =>
      cases hstep
      exact Backend.moves_map (fun _ => .stages o2t) rfl rfl

namespace Backend.Moves

variable {backend next : Backend}

/-- The devices keep their rows. -/
theorem table_eq (h : backend.Moves next) :
    next.lines.map (fun line => line.device.cfg) =
      backend.lines.map (fun line => line.device.cfg) := by
  apply List.ext_getElem?
  intro index
  rw [List.getElem?_map, List.getElem?_map]
  cases hafter : next.lines[index]? with
  | none =>
      rw [List.getElem?_eq_none_iff, h.length_eq, ← List.getElem?_eq_none_iff] at hafter
      simp only [hafter, Option.map_none]
  | some after =>
      obtain ⟨before, hbefore, hmove⟩ := h.line index after hafter
      rw [hbefore]
      exact congrArg some hmove.cfg_eq

/-- What every move of a line preserves, a step preserves for all of them. -/
theorem forall_lines (h : backend.Moves next) {good : Line → Prop}
    (hpreserved : ∀ line after, good line → LineMove line after → good after)
    (hlines : ∀ line ∈ backend.lines, good line) : ∀ line ∈ next.lines, good line := by
  intro after hafter
  obtain ⟨index, hindex⟩ := List.mem_iff_getElem?.mp hafter
  obtain ⟨before, hbefore, hmove⟩ := h.line index after hindex
  exact hpreserved before after (hlines before (List.mem_of_getElem? hbefore)) hmove

end Backend.Moves

/-! ## The layout of the images -/

/-- Without a device to skip, the loop writes one health byte after the other, and
each device's block at its offset. -/
theorem writeDevices_eq {total : ℕ} {devices : List Device} (written free t2o : List Byte)
    (hfits : ∀ device ∈ devices, device.cfg.t2oOffset + device.cfg.t2oBytes ≤ total)
    (hhealth : devices.length ≤ free.length) :
    writeDevices total written.length devices ⟨written ++ free, t2o⟩ =
      { health := written ++ devices.map deviceHealth ++ free.drop devices.length
        t2o := devices.foldl
          (fun buffer device =>
            memcpy buffer device.cfg.t2oOffset (deviceSlice device) device.cfg.t2oBytes)
          t2o } := by
  induction devices generalizing written free t2o with
  | nil => simp [writeDevices]
  | cons device rest ih =>
      have hdevice : ¬ total < device.cfg.t2oOffset + device.cfg.t2oBytes :=
        Nat.not_lt.mpr (hfits device List.mem_cons_self)
      cases free with
      | nil => cases hhealth
      | cons byte free =>
          have hset : (written ++ byte :: free).set written.length (deviceHealth device) =
              (written ++ [deviceHealth device]) ++ free := by
            simp
          have hlength : written.length + 1 = (written ++ [deviceHealth device]).length := by
            simp
          rw [writeDevices, writeDevice, if_neg hdevice]
          simp only [hset]
          rw [hlength, ih _ _ _ (fun other hother => hfits other (List.mem_cons_of_mem _ hother))
            (Nat.le_of_succ_le_succ hhealth)]
          simp

/-- The blocks have the sizes of the table. -/
structure Backend.Shaped (backend : Backend) : Prop where
  table : backend.devices.map Device.cfg = backend.cfg.devices
  latest : ∀ device ∈ backend.devices, device.latest.length = device.cfg.t2oBytes
  lastGood : ∀ device ∈ backend.devices, device.lastGood.length = device.cfg.t2oBytes

theorem deviceSlice_length {device : Device} (hlatest : device.latest.length = device.cfg.t2oBytes)
    (hlastGood : device.lastGood.length = device.cfg.t2oBytes) :
    (deviceSlice device).length = device.cfg.t2oBytes := by
  unfold deviceSlice
  split_ifs
  · exact hlatest
  · cases device.cfg.failsafePolicy with
    | hold => exact hlastGood
    | clear => exact List.length_replicate

/-- The slices of the devices are packed like the rows of the table. -/
theorem Backend.Shaped.packed {backend : Backend} (h : backend.Shaped) (hlaid : backend.cfg.Laid) :
    Packed (DeviceRow.t2oOffset ∘ Device.cfg) (DeviceRow.t2oBytes ∘ Device.cfg) 0
      backend.devices := by
  apply Packed.of_map
  rw [h.table]
  exact hlaid.t2o_packed

theorem Backend.Shaped.block_length {backend : Backend} (h : backend.Shaped) :
    ∀ device ∈ backend.devices,
      (deviceSlice device).length = (DeviceRow.t2oBytes ∘ Device.cfg) device :=
  fun device hdevice => deviceSlice_length (h.latest device hdevice) (h.lastGood device hdevice)

theorem Backend.Shaped.totalSize_eq {backend : Backend} (h : backend.Shaped)
    (hlaid : backend.cfg.Laid) :
    totalSize (DeviceRow.t2oBytes ∘ Device.cfg) backend.devices = backend.cfg.totalT2oBytes := by
  rw [hlaid.t2o_total, ← h.table, totalSize, totalSize, List.map_map]

/-- **What an exchange writes.** With a packed table and buffers that hold it, an
exchange writes one health byte for each device and the devices' blocks one after
the other. -/
theorem scannerExchange_written {backend : Backend} (hshaped : backend.Shaped)
    (hlaid : backend.cfg.Laid) {images : Images}
    (hhealth : images.health.length = backend.cfg.devices.length)
    (ht2o : backend.cfg.totalT2oBytes ≤ images.t2o.length) (o2t : List Byte) :
    (scannerExchange backend o2t images).2 =
      (⟨backend.devices.map deviceHealth,
        (backend.devices.map deviceSlice).flatten ++
          images.t2o.drop backend.cfg.totalT2oBytes⟩, backend.cfg.totalT2oBytes) := by
  have hpacked := hshaped.packed hlaid
  have htotal := hshaped.totalSize_eq hlaid
  have hmin : min backend.cfg.totalT2oBytes images.t2o.length = backend.cfg.totalT2oBytes :=
    Nat.min_eq_left ht2o
  have hfits : ∀ device ∈ backend.devices,
      device.cfg.t2oOffset + device.cfg.t2oBytes ≤ backend.cfg.totalT2oBytes := by
    intro device hdevice
    have hend := (hpacked.end_le device hdevice).2
    rw [htotal, Nat.zero_add] at hend
    exact hend
  have hcount : backend.devices.length = backend.cfg.devices.length := by
    rw [← hshaped.table, List.length_map]
  have hdone : images.health.drop backend.devices.length = [] :=
    List.drop_of_length_le (Nat.le_of_eq (hhealth.trans hcount.symm))
  have hwritten := writeDevices_eq [] images.health images.t2o hfits
    (Nat.le_of_eq (hcount.trans hhealth.symm))
  have hlayout := foldl_memcpy_packed [] hpacked hshaped.block_length images.t2o
  simp only [List.nil_append, List.length_nil, hdone, List.append_nil] at hwritten
  simp only [Function.comp_apply, List.nil_append] at hlayout
  rw [hlayout, htotal] at hwritten
  simp only [scannerExchange, hmin, hwritten]

/-- Each device's health byte and block are found at their places. -/
theorem scannerExchange_images {backend : Backend} (hshaped : backend.Shaped)
    (hlaid : backend.cfg.Laid) {images : Images}
    (hhealth : images.health.length = backend.cfg.devices.length)
    (ht2o : backend.cfg.totalT2oBytes ≤ images.t2o.length) (o2t : List Byte) :
    (scannerExchange backend o2t images).2.1.health = backend.devices.map deviceHealth ∧
      ∀ device ∈ backend.devices,
        (((scannerExchange backend o2t images).2.1.t2o.drop device.cfg.t2oOffset).take
          device.cfg.t2oBytes) = deviceSlice device := by
  rw [scannerExchange_written hshaped hlaid hhealth ht2o]
  exact ⟨rfl, slice_flatten_packed [] (hshaped.packed hlaid) hshaped.block_length _⟩

end SoftPlc.Scanner
