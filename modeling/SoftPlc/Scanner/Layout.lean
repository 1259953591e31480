/-
# The layout of the aggregate image

Three places work out where a device's bytes stand. The parser gives each row its
offsets, the core publishes sizes when it opens the proxy, and the service loop
and the backend copy slices into the reply. The reply has one health byte for
each device and then the devices' slices in table order. Nothing in it is left
over from an earlier reply, and a device can change only its own bytes.

The scanner process reads a table of its own. Before it serves it compares three
numbers of that table with what the core published. They do not determine the
layout: two tables with the same totals may give the bytes between them to
different devices.
-/

import SoftPlc.Scanner.Health

namespace SoftPlc.Scanner

open SoftPlc.Math SoftPlc.Ipc

/-- What the scanner's `proxy_open` publishes about its table. The last two sizes
are also the image sizes of the adapter. -/
structure PublishedLayout where
  deviceCount : ℕ
  healthBytes : ℕ
  t2oTotalBytes : ℕ
  o2tTotalBytes : ℕ
  inputBytes : ℕ
  deriving DecidableEq, Repr

/-- `EIP_SCANNER_HEALTH_BYTES`. -/
def eipScannerHealthBytes (deviceCount : ℕ) : ℕ := deviceCount

/-- The scanner's `proxy_open` with the table it read: the size check, and the
layout it publishes. -/
def publishLayout (table : ScannerConfig) : Except PlcStatus PublishedLayout :=
  let health := eipScannerHealthBytes table.devices.length
  let inBytes := health + table.totalT2oBytes
  if plcIpcMaxFrameBytes < inBytes then .error .errInval
  else
    .ok
      { deviceCount := table.devices.length
        healthBytes := health
        t2oTotalBytes := table.totalT2oBytes
        o2tTotalBytes := table.totalO2tBytes
        inputBytes := inBytes }

/-- The reply buffer as the backend gets it: the cleared health bytes, and the
rest. -/
def replyImages (healthBytes : ℕ) (reply : List Byte) : Images :=
  let cleared := memset reply 0 0 healthBytes
  ⟨cleared.take healthBytes, cleared.drop healthBytes⟩

/-- The service loop between the pop of a request and the push of its reply. The
buffer `reply` still holds the reply before; the result is the buffer and the
length that is pushed. -/
def serveRequest (layout : PublishedLayout) (backend : Backend) (request reply : List Byte) :
    Backend × List Byte × ℕ :=
  let (next, images, data) :=
    scannerExchange backend request (replyImages layout.healthBytes reply)
  (next, images.health ++ images.t2o, layout.healthBytes + data)

/-- The payload of the reply. -/
def replyPayload (layout : PublishedLayout) (backend : Backend) (request reply : List Byte) :
    List Byte :=
  (serveRequest layout backend request reply).2.1.take
    (serveRequest layout backend request reply).2.2

/-- A published layout is that of its table, and fits a frame. -/
theorem of_publishLayout {table : ScannerConfig} {layout : PublishedLayout}
    (hopen : publishLayout table = .ok layout) :
    table.devices.length + table.totalT2oBytes ≤ plcIpcMaxFrameBytes ∧
      layout =
        { deviceCount := table.devices.length
          healthBytes := table.devices.length
          t2oTotalBytes := table.totalT2oBytes
          o2tTotalBytes := table.totalO2tBytes
          inputBytes := table.devices.length + table.totalT2oBytes } := by
  simp only [publishLayout] at hopen
  split_ifs at hopen with hsize
  cases hopen
  exact ⟨Nat.le_of_not_lt hsize, rfl⟩

/-! ## The states of the devices -/

/-- A vector of device states for a table: one record for each row, with the
buffers that `scanner_init` gave it. What the flags and the buffers hold is left
open. -/
structure Backend.Sized (cfg : ScannerConfig) (backend : Backend) : Prop
    extends backend.Shaped where
  cfg_eq : backend.cfg = cfg
  toSend : ∀ device ∈ backend.devices, device.toSend.length = device.cfg.o2tBytes

/-- The output buffer of a device keeps its size. -/
theorem LineMove.toSend_length {line next : Line} (hmove : LineMove line next)
    (hlength : line.device.toSend.length = line.device.cfg.o2tBytes) :
    next.device.toSend.length = next.device.cfg.o2tBytes := by
  cases hmove with
  | handsOver =>
      unfold handOver
      split_ifs
      · split <;> exact hlength
      · exact hlength
  | receives link sequence data =>
      unfold receiveFrame
      split_ifs <;> exact hlength
  | stages o2t =>
      simp only [stageOutputs]
      split_ifs with hfits
      · have hsrc : line.device.cfg.o2tBytes ≤ (o2t.drop line.device.cfg.o2tOffset).length := by
          rw [List.length_drop]
          omega
        exact (memcpy_zero_length hsrc (Nat.le_of_eq hlength.symm)).trans hlength
      · exact hlength
  | _ => exact hlength

/-- Every run of the backend reaches such a vector. -/
theorem Backend.Sized.run {cfg : ScannerConfig} {schedule : List Act} {backend : Backend}
    (hrun : exec Backend.step (scannerInit cfg) schedule = some backend) : backend.Sized cfg := by
  have hpreserved : ∀ before act after,
      Backend.Sound cfg before ∧
        (∀ line ∈ before.lines, line.device.toSend.length = line.device.cfg.o2tBytes) →
      Backend.step before act = some after →
      Backend.Sound cfg after ∧
        ∀ line ∈ after.lines, line.device.toSend.length = line.device.cfg.o2tBytes := by
    rintro before act after ⟨hsound, hlengths⟩ hstep
    refine ⟨hsound.step hstep, ?_⟩
    exact (Backend.step_moves hstep).forall_lines
      (fun line after hlength hmove => hmove.toSend_length hlength) hlengths
  have hstart : ∀ line ∈ (scannerInit cfg).lines,
      line.device.toSend.length = line.device.cfg.o2tBytes := by
    intro line hline
    obtain ⟨row, -, rfl⟩ := List.mem_map.mp hline
    exact List.length_replicate
  obtain ⟨hsound, hlengths⟩ :=
    exec_invariant_all hpreserved ⟨Backend.Sound.start cfg, hstart⟩ hrun
  refine ⟨hsound.shaped, hsound.cfg_eq, fun device hdevice => ?_⟩
  obtain ⟨line, hline, rfl⟩ := List.mem_map.mp hdevice
  exact hlengths line hline

/-! ## The reply -/

section Reply

variable {cfg : ScannerConfig} {layout : PublishedLayout} {backend : Backend}
  {request reply : List Byte}

/-- The buffer is cut behind the health bytes. -/
theorem replyImages_length {healthBytes : ℕ} (hreply : healthBytes ≤ reply.length) :
    (replyImages healthBytes reply).health.length = healthBytes ∧
      (replyImages healthBytes reply).t2o.length = reply.length - healthBytes := by
  have hsrc : healthBytes ≤ (List.replicate healthBytes (0 : Byte)).length := by
    rw [List.length_replicate]
  have hcleared : (memset reply 0 0 healthBytes).length = reply.length :=
    memcpy_zero_length hsrc hreply
  simp only [replyImages, List.length_take, List.length_drop, hcleared]
  exact ⟨Nat.min_eq_left hreply, trivial⟩

/-- A request fills the front of the buffer and leaves the rest of it. -/
theorem serveRequest_written (hlaid : cfg.Laid) (hopen : publishLayout cfg = .ok layout)
    (hsized : backend.Sized cfg) (request : List Byte)
    (hreply : reply.length = plcIpcMaxFrameBytes) :
    ∃ rest : List Byte, (serveRequest layout backend request reply).2 =
        (backend.devices.map deviceHealth ++ (backend.devices.map deviceSlice).flatten ++ rest,
          (backend.devices.map deviceHealth ++
            (backend.devices.map deviceSlice).flatten).length) ∧
      (backend.devices.map deviceHealth ++
        (backend.devices.map deviceSlice).flatten ++ rest).length = plcIpcMaxFrameBytes := by
  obtain ⟨hsize, rfl⟩ := of_publishLayout hopen
  obtain rfl := hsized.cfg_eq
  obtain ⟨hhealth, ht2o⟩ :=
    replyImages_length (show backend.cfg.devices.length ≤ reply.length by omega)
  have hwritten := scannerExchange_written hsized.toShaped hlaid hhealth (by omega) request
  have hpushed : (backend.devices.map deviceHealth ++
      (backend.devices.map deviceSlice).flatten).length =
      backend.cfg.devices.length + backend.cfg.totalT2oBytes := by
    rw [List.length_append, List.length_map, length_flatten_blocks hsized.block_length,
      hsized.totalSize_eq hlaid, ← hsized.table, List.length_map]
  refine ⟨(replyImages backend.cfg.devices.length reply).t2o.drop backend.cfg.totalT2oBytes,
    ?_, ?_⟩
  · simp only [serveRequest, hwritten, hpushed, List.append_assoc]
  · rw [List.length_append, hpushed, List.length_drop, ht2o]
    omega

/-- What the service loop pushes: health bytes, then slices. -/
theorem replyPayload_eq (hlaid : cfg.Laid) (hopen : publishLayout cfg = .ok layout)
    (hsized : backend.Sized cfg) (request : List Byte)
    (hreply : reply.length = plcIpcMaxFrameBytes) :
    replyPayload layout backend request reply =
      backend.devices.map deviceHealth ++ (backend.devices.map deviceSlice).flatten := by
  obtain ⟨rest, hserved, -⟩ := serveRequest_written hlaid hopen hsized request hreply
  rw [replyPayload, hserved, List.take_left]

/-- The service loop's buffer keeps its size. -/
theorem serveRequest_length (hlaid : cfg.Laid) (hopen : publishLayout cfg = .ok layout)
    (hsized : backend.Sized cfg) (request : List Byte)
    (hreply : reply.length = plcIpcMaxFrameBytes) :
    (serveRequest layout backend request reply).2.1.length = plcIpcMaxFrameBytes := by
  obtain ⟨rest, hserved, hlength⟩ := serveRequest_written hlaid hopen hsized request hreply
  rw [hserved, hlength]

/-- Each device is handed its own part of the outputs. -/
theorem serveRequest_toSend (hlaid : cfg.Laid) (hsized : backend.Sized cfg)
    (hrequest : request.length = cfg.totalO2tBytes) :
    (serveRequest layout backend request reply).1.devices.map Device.toSend =
      cfg.devices.map fun row => (request.drop row.o2tOffset).take row.o2tBytes := by
  obtain rfl := hsized.cfg_eq
  rw [← hsized.table, List.map_map]
  simp only [serveRequest, scannerExchange, Backend.devices, List.map_map]
  refine List.map_congr_left fun line hline => ?_
  have hdevice : line.device ∈ backend.devices := List.mem_map_of_mem hline
  have hrow : line.device.cfg ∈ backend.cfg.devices := by
    rw [← hsized.table]
    exact List.mem_map_of_mem hdevice
  have hend := (hlaid.o2t_packed.end_le _ hrow).2
  rw [← hlaid.o2t_total, ← hrequest, Nat.zero_add] at hend
  simp only [Function.comp_apply, stageOutputs, if_pos hend]
  exact memcpy_all _ (hsized.toSend line.device hdevice)

/-- A device changes only its own bytes of the image. -/
theorem image_isolated {other : Backend} (hlaid : cfg.Laid) (hsized : backend.Sized cfg)
    (hother : other.Sized cfg) {index : ℕ} {row : DeviceRow}
    (hrow : cfg.devices[index]? = some row)
    (hsame : ∀ place, place ≠ index → other.devices[place]? = backend.devices[place]?)
    {position : ℕ} (hhealth : position ≠ index)
    (hslice : ¬ (cfg.devices.length + row.t2oOffset ≤ position ∧
      position < cfg.devices.length + row.t2oOffset + row.t2oBytes)) :
    (other.devices.map deviceHealth ++ (other.devices.map deviceSlice).flatten)[position]? =
      (backend.devices.map deviceHealth ++
        (backend.devices.map deviceSlice).flatten)[position]? := by
  obtain rfl := hsized.cfg_eq
  have hcount : (backend.devices.map deviceHealth).length = backend.cfg.devices.length := by
    rw [List.length_map, ← hsized.table, List.length_map]
  have hotherCount : (other.devices.map deviceHealth).length = backend.cfg.devices.length := by
    rw [List.length_map, ← hother.cfg_eq, ← hother.table, List.length_map]
  by_cases hbefore : position < backend.cfg.devices.length
  · rw [List.getElem?_append_left (hotherCount ▸ hbefore),
      List.getElem?_append_left (hcount ▸ hbefore), List.getElem?_map, List.getElem?_map,
      hsame position hhealth]
  · have hafter : backend.cfg.devices.length ≤ position := Nat.le_of_not_lt hbefore
    have hfirst := hrow
    have hsecond := hrow
    rw [← hsized.table, List.getElem?_map] at hfirst
    rw [← hother.cfg_eq, ← hother.table, List.getElem?_map] at hsecond
    obtain ⟨device, hdevice, rfl⟩ := Option.map_eq_some_iff.mp hfirst
    obtain ⟨changed, hchanged, hcfg⟩ := Option.map_eq_some_iff.mp hsecond
    obtain ⟨front, back, -, hdevices, hothers⟩ := split_of_eq_outside hdevice hchanged hsame
    have hpacked := hsized.packed hlaid
    have hblock := hsized.block_length
    rw [hdevices] at hpacked hblock
    have hlength : (deviceSlice changed).length = (deviceSlice device).length := by
      rw [hother.block_length changed (List.mem_of_getElem? hchanged),
        hsized.block_length device (List.mem_of_getElem? hdevice)]
      exact congrArg DeviceRow.t2oBytes hcfg
    have hoffset : (front.map deviceSlice).flatten.length = device.cfg.t2oOffset := by
      rw [length_flatten_blocks fun entry hentry => hblock entry (List.mem_append_left _ hentry)]
      exact (Nat.zero_add _).symm.trans hpacked.offset_eq.symm
    have hsize : (deviceSlice changed).length = device.cfg.t2oBytes :=
      hlength.trans (hsized.block_length device (List.mem_of_getElem? hdevice))
    rw [List.getElem?_append_right (hotherCount ▸ hafter),
      List.getElem?_append_right (hcount ▸ hafter), hotherCount, hcount, hdevices, hothers,
      List.map_append, List.map_append, List.map_cons, List.map_cons]
    refine getElem?_flatten_of_outside _ _ hlength ?_
    rw [hoffset, hsize]
    omega

/-- **Layout and isolation of the aggregate image.** For every accepted table that
passes the core's size check, every vector of device states and every output
image: the reply has the size the core expects and is the health bytes and slices
in table order, whatever its buffer held before; each device is handed its own
part of the outputs; and states that differ in one device give replies that differ
only in its health byte and its slice. -/
theorem reply_layout {text : List Char} (hparse : eipScannerConfigParse text = .ok cfg)
    (hopen : publishLayout cfg = .ok layout) (hsized : backend.Sized cfg)
    (hrequest : request.length = layout.o2tTotalBytes)
    (hreply : reply.length = plcIpcMaxFrameBytes) :
    (replyPayload layout backend request reply).length = layout.inputBytes ∧
      replyPayload layout backend request reply =
        backend.devices.map deviceHealth ++ (backend.devices.map deviceSlice).flatten ∧
      (∀ stale : List Byte, stale.length = plcIpcMaxFrameBytes →
        replyPayload layout backend request stale =
          replyPayload layout backend request reply) ∧
      (serveRequest layout backend request reply).1.devices.map Device.toSend =
        cfg.devices.map (fun row => (request.drop row.o2tOffset).take row.o2tBytes) ∧
      ∀ (other : Backend) (index : ℕ) (row : DeviceRow), other.Sized cfg →
        cfg.devices[index]? = some row →
        (∀ place, place ≠ index → other.devices[place]? = backend.devices[place]?) →
        ∀ position, position ≠ index →
          ¬ (layout.healthBytes + row.t2oOffset ≤ position ∧
            position < layout.healthBytes + row.t2oOffset + row.t2oBytes) →
          (replyPayload layout other request reply)[position]? =
            (replyPayload layout backend request reply)[position]? := by
  have hlaid := eipScannerConfigParse_laid hparse
  have hpayload := replyPayload_eq hlaid hopen hsized request hreply
  refine ⟨?_, hpayload, ?_, ?_, ?_⟩
  · rw [hpayload, List.length_append, List.length_map, length_flatten_blocks hsized.block_length,
      hsized.totalSize_eq (hsized.cfg_eq ▸ hlaid), hsized.cfg_eq]
    obtain ⟨-, rfl⟩ := of_publishLayout hopen
    rw [← hsized.cfg_eq, ← hsized.table, List.length_map]
  · intro stale hstale
    rw [hpayload]
    exact replyPayload_eq hlaid hopen hsized request hstale
  · refine serveRequest_toSend hlaid hsized ?_
    obtain ⟨-, rfl⟩ := of_publishLayout hopen
    exact hrequest
  · intro other index row hother hrow hsame position hhealth hslice
    rw [hpayload, replyPayload_eq hlaid hopen hother request hreply]
    obtain ⟨-, rfl⟩ := of_publishLayout hopen
    exact image_isolated hlaid hsized hother hrow hsame hhealth hslice

end Reply

/-- The layout of the two drives. -/
def drivesLayout : PublishedLayout :=
  { deviceCount := 2, healthBytes := 2, t2oTotalBytes := 3, o2tTotalBytes := 2, inputBytes := 5 }

theorem publish_drives : publishLayout drivesTable = .ok drivesLayout := by
  decide

theorem reply_layout_drives :
    ∃ backend, exec Backend.step (scannerInit drivesTable) reconnects = some backend ∧
      replyPayload drivesLayout backend [1, 4] (List.replicate 496 5) = [2, 1, 7, 8, 9] ∧
      (serveRequest drivesLayout backend [1, 4] (List.replicate 496 5)).1.devices.map
        Device.toSend = [[1], [4]] := by
  have hview : (exec Backend.step (scannerInit drivesTable) reconnects).map
      (fun backend => replyPayload drivesLayout backend [1, 4] (List.replicate 496 5)) =
      some [2, 1, 7, 8, 9] := by
    decide +kernel
  obtain ⟨backend, hrun, hpayload⟩ := Option.map_eq_some_iff.mp hview
  have hlayout := reply_layout parse_drives publish_drives (Backend.Sized.run hrun)
    (show ([1, 4] : List Byte).length = drivesLayout.o2tTotalBytes from rfl)
    (List.length_replicate (n := 496) (a := 5))
  exact ⟨backend, hrun, hpayload, hlayout.2.2.2.1⟩

/-! ## The cross-check -/

/-- What the scanner process compares before it serves: its table against the
layout the core published. -/
def crossCheck (layout : PublishedLayout) (table : ScannerConfig) : Bool :=
  layout.deviceCount = table.devices.length ∧ layout.o2tTotalBytes = table.totalO2tBytes ∧
    layout.t2oTotalBytes = table.totalT2oBytes

/-- Where a row puts its device: offset and length in the outputs, offset and
length in the inputs. -/
def DeviceRow.place (row : DeviceRow) : ℕ × ℕ × ℕ × ℕ :=
  (row.o2tOffset, row.o2tBytes, row.t2oOffset, row.t2oBytes)

/-- The two length fields of a row. -/
def DeviceRow.lengths (row : DeviceRow) : ℕ × ℕ := (row.o2tBytes, row.t2oBytes)

/-- One image of two tables: the same number of devices, the same total and the
same lengths in all rows but the last give the same lengths in all rows. -/
theorem lengths_eq_of_dropLast {size : DeviceRow → ℕ} {core scanner : ScannerConfig}
    (hcount : core.devices.length = scanner.devices.length)
    (htotal : totalSize size core.devices = totalSize size scanner.devices)
    (hfront : core.devices.dropLast.map size = scanner.devices.dropLast.map size) :
    core.devices.map size = scanner.devices.map size := by
  rw [List.map_dropLast, List.map_dropLast] at hfront
  refine eq_of_dropLast_eq_of_sum_eq ?_ hfront htotal
  rw [List.length_map, List.length_map, hcount]

/-- Tables that agree in the four columns of a place put every device at the same one. -/
theorem place_eq_of_columns {rows others : List DeviceRow}
    (ho2tOffset : rows.map DeviceRow.o2tOffset = others.map DeviceRow.o2tOffset)
    (ho2tBytes : rows.map DeviceRow.o2tBytes = others.map DeviceRow.o2tBytes)
    (ht2oOffset : rows.map DeviceRow.t2oOffset = others.map DeviceRow.t2oOffset)
    (ht2oBytes : rows.map DeviceRow.t2oBytes = others.map DeviceRow.t2oBytes) :
    rows.map DeviceRow.place = others.map DeviceRow.place := by
  induction rows generalizing others with
  | nil =>
      have hnil := List.map_eq_nil_iff.mp ho2tOffset.symm
      rw [hnil]
  | cons row rows ih =>
      cases others with
      | nil => cases ho2tOffset
      | cons other others =>
          simp only [List.map_cons, List.cons.injEq] at *
          refine ⟨?_, ih ho2tOffset.2 ho2tBytes.2 ht2oOffset.2 ht2oBytes.2⟩
          rw [DeviceRow.place, DeviceRow.place, ho2tOffset.1, ho2tBytes.1, ht2oOffset.1,
            ht2oBytes.1]

/-- **What the cross-check is worth.** For two accepted tables, one published by
the core and one that passes the scanner's cross-check against it: both put every
device at the same place if and only if their length fields agree in every row but
the last. -/
theorem places_agree_iff {coreText scannerText : List Char} {core scanner : ScannerConfig}
    {layout : PublishedLayout} (hcore : eipScannerConfigParse coreText = .ok core)
    (hscanner : eipScannerConfigParse scannerText = .ok scanner)
    (hopen : publishLayout core = .ok layout) (hcheck : crossCheck layout scanner = true) :
    (∀ index : ℕ, core.devices[index]?.map DeviceRow.place =
        scanner.devices[index]?.map DeviceRow.place) ↔
      core.devices.dropLast.map DeviceRow.lengths =
        scanner.devices.dropLast.map DeviceRow.lengths := by
  have hcoreLaid := eipScannerConfigParse_laid hcore
  have hscannerLaid := eipScannerConfigParse_laid hscanner
  obtain ⟨-, rfl⟩ := of_publishLayout hopen
  simp only [crossCheck, decide_eq_true_eq] at hcheck
  obtain ⟨hcount, ho2t, ht2o⟩ := hcheck
  constructor
  · intro hplaces
    have htables : core.devices.map DeviceRow.place = scanner.devices.map DeviceRow.place := by
      apply List.ext_getElem?
      intro index
      rw [List.getElem?_map, List.getElem?_map, hplaces index]
    have hlengths := congrArg (List.map fun place => (place.2.1, place.2.2.2)) htables
    rw [List.map_map, List.map_map] at hlengths
    rw [List.map_dropLast, List.map_dropLast]
    exact congrArg List.dropLast hlengths
  · intro hlengths
    have houtputs := congrArg (List.map Prod.fst) hlengths
    have hinputs := congrArg (List.map Prod.snd) hlengths
    rw [List.map_map, List.map_map] at houtputs hinputs
    rw [hcoreLaid.o2t_total, hscannerLaid.o2t_total] at ho2t
    rw [hcoreLaid.t2o_total, hscannerLaid.t2o_total] at ht2o
    have ho2tBytes := lengths_eq_of_dropLast hcount ho2t houtputs
    have ht2oBytes := lengths_eq_of_dropLast hcount ht2o hinputs
    have ho2tOffsets := hcoreLaid.o2t_packed.offsets_eq hscannerLaid.o2t_packed ho2tBytes
    have ht2oOffsets := hcoreLaid.t2o_packed.offsets_eq hscannerLaid.t2o_packed ht2oBytes
    have hplaces := place_eq_of_columns ho2tOffsets ho2tBytes ht2oOffsets ht2oBytes
    intro index
    rw [← List.getElem?_map, hplaces, List.getElem?_map]

/-- Two drives of different sizes. -/
def smallThenLarge : List Char :=
  "10.0.0.1 151 150 100 1 1 10000 2 hold\n10.0.0.2 151 150 100 2 2 10000 2 hold\n".toList

/-- The same drives in the other order. -/
def largeThenSmall : List Char :=
  "10.0.0.2 151 150 100 2 2 10000 2 hold\n10.0.0.1 151 150 100 1 1 10000 2 hold\n".toList

/-- A row of these tables. -/
def driveRow (address : String) (bytes offset : ℕ) : DeviceRow :=
  { address := address.toList
    configAssembly := 151
    o2tAssembly := 150
    t2oAssembly := 100
    o2tBytes := bytes
    t2oBytes := bytes
    o2tRpiUs := 10000
    t2oRpiUs := 10000
    timeoutMultiplier := 2
    failsafePolicy := .hold
    o2tOffset := offset
    t2oOffset := offset }

theorem parse_smallThenLarge :
    eipScannerConfigParse smallThenLarge =
      .ok ⟨[driveRow "10.0.0.1" 1 0, driveRow "10.0.0.2" 2 1], 3, 3⟩ := by
  decide +kernel

theorem parse_largeThenSmall :
    eipScannerConfigParse largeThenSmall =
      .ok ⟨[driveRow "10.0.0.2" 2 0, driveRow "10.0.0.1" 1 2], 3, 3⟩ := by
  decide +kernel

/-- **A table the cross-check lets through.** The rows are swapped and the totals
are the same, so the scanner serves. The second byte it gives to its first device
is one the core gives to another. -/
theorem swapped_rows_pass :
    ∃ core scanner layout, eipScannerConfigParse smallThenLarge = .ok core ∧
      eipScannerConfigParse largeThenSmall = .ok scanner ∧ publishLayout core = .ok layout ∧
      crossCheck layout scanner = true ∧
      core.devices[0]?.map DeviceRow.place = some (0, 1, 0, 1) ∧
      scanner.devices[0]?.map DeviceRow.place = some (0, 2, 0, 2) ∧
      ¬ ∀ index : ℕ, core.devices[index]?.map DeviceRow.place =
        scanner.devices[index]?.map DeviceRow.place := by
  refine ⟨_, _, ⟨2, 2, 3, 3, 5⟩, parse_smallThenLarge, parse_largeThenSmall, by decide, by decide,
    rfl, rfl, fun hplaces => ?_⟩
  have hfirst := hplaces 0
  revert hfirst
  decide

/-- The drives of `smallThenLarge` at other addresses. -/
def movedDrives : List Char :=
  "# moved\n10.0.1.1 151 150 100 1 1 10000 2 hold\n10.0.1.2 151 150 100 2 2 10000 2 hold".toList

theorem places_agree_iff_moved :
    ∃ core scanner, eipScannerConfigParse smallThenLarge = .ok core ∧
      eipScannerConfigParse movedDrives = .ok scanner ∧ core ≠ scanner ∧
      ∀ index : ℕ, core.devices[index]?.map DeviceRow.place =
        scanner.devices[index]?.map DeviceRow.place := by
  have hmoved : eipScannerConfigParse movedDrives =
      .ok ⟨[driveRow "10.0.1.1" 1 0, driveRow "10.0.1.2" 2 1], 3, 3⟩ := by
    decide +kernel
  refine ⟨_, _, parse_smallThenLarge, hmoved, by decide, ?_⟩
  exact (places_agree_iff parse_smallThenLarge hmoved
    (show publishLayout _ = .ok ⟨2, 2, 3, 3, 5⟩ by decide) (by decide)).mpr (by decide)

end SoftPlc.Scanner
