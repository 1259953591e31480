/-
# The scan engine

One runtime owns a process image, a list of bound adapters and a list of programs.
A scan asks every adapter for one exchange, runs the programs, and latches the
outputs that the next scan will send. If an exchange fails and the configuration
says so, the scan ends there, with neither the programs run nor the outputs
latched.

What is outside the core, that is the adapters' own state, the field and the
programs' own variables, is the world `ω`, of which nothing is known. An adapter is
handed its outputs and its part of `%I`, and a program the whole image; neither can
change the size of what it is given. Clock readings are arguments. Each exchange
that reaches an adapter is kept in a list.
-/

import SoftPlc.Core.ProcessImage
import SoftPlc.Math.Slices

namespace SoftPlc

open SoftPlc.Math

/-- `PLC_MAX_BINDINGS`, `PLC_MAX_PROGRAMS` and `PLC_ADAPTER_ABI_VERSION`. -/
def plcMaxBindings : ℕ := 8

def plcMaxPrograms : ℕ := 8

def plcAdapterAbiVersion : ℕ := 1

/-- The fields of `plc_adapter_caps_t` that a binding reads. -/
structure BindingCaps where
  abiVersion : ℕ
  inputBytes : ℕ
  outputBytes : ℕ
  deriving DecidableEq, Repr

/-- `plc_protocol_adapter_t` once it is open: what it answers about itself, and how
it exchanges. -/
structure ProtocolAdapter (ω : Type) where
  getCaps : PlcStatus × BindingCaps
  exchange : ω → List Byte → List Byte → PlcStatus × List Byte × ω
  length_exchange : ∀ world out input, (exchange world out input).2.1.length = input.length

/-- `plc_io_binding_t`. -/
structure IoBinding (ω : Type) where
  adapter : ProtocolAdapter ω
  iOffset : ℕ
  qOffset : ℕ
  caps : BindingCaps

/-- `plc_pou_ctx_t` beside the image. -/
structure PouCtx where
  now : ℤ
  dt : ℤ
  scan : ℕ
  first : Bool
  deriving DecidableEq, Repr

/-- `plc_program_t`. -/
structure PlcProgram (ω : Type) where
  fn : PouCtx → ProcessImage → ω → ProcessImage × ω
  size_fn : ∀ ctx pi world area,
    plcPiAreaSize (fn ctx pi world).1 area = plcPiAreaSize pi area

/-- `plc_runtime_config_t`. -/
structure RuntimeConfig where
  cycleUs : ℕ
  iBytes : ℕ
  qBytes : ℕ
  mBytes : ℕ
  continueOnIoFault : Bool
  deriving DecidableEq, Repr

/-- `plc_runtime_config_init`. -/
def plcRuntimeConfigInit : RuntimeConfig :=
  { cycleUs := 10000, iBytes := 256, qBytes := 256, mBytes := 1024, continueOnIoFault := true }

/-- `plc_runtime_stats_t`. -/
structure RuntimeStats where
  scans : ℕ := 0
  overruns : ℕ := 0
  ioFaults : ℕ := 0
  lastScanUs : ℕ := 0
  maxScanUs : ℕ := 0
  lastJitterUs : ℕ := 0
  maxJitterUs : ℕ := 0
  deriving DecidableEq, Repr

/-- `plc_runtime_t`. -/
structure Runtime (ω : Type) where
  cfg : RuntimeConfig
  pi : ProcessImage
  bindings : List (IoBinding ω) := []
  programs : List (PlcProgram ω) := []
  qShadow : List Byte
  scanNo : ℕ := 0
  lastScanNs : ℤ := 0
  firstScan : Bool := true
  stats : RuntimeStats := {}

variable {ω : Type}

/-- `plc_runtime_create`, when the memory is granted. -/
def plcRuntimeCreate (cfg : RuntimeConfig) : Runtime ω where
  cfg := cfg
  pi := plcPiInit cfg.iBytes cfg.qBytes cfg.mBytes
  qShadow := List.replicate cfg.qBytes 0

/-- `plc_runtime_bind_adapter`. -/
def plcRuntimeBindAdapter (rt : Runtime ω) (adapter : ProtocolAdapter ω)
    (iOffset qOffset : ℕ) : Runtime ω × PlcStatus :=
  if plcMaxBindings ≤ rt.bindings.length then (rt, .errNomem)
  else
    let status := adapter.getCaps.1
    let caps := adapter.getCaps.2
    let iSize := plcPiAreaSize rt.pi .i
    let qSize := plcPiAreaSize rt.pi .q
    if status ≠ .ok then (rt, status)
    else if caps.abiVersion ≠ plcAdapterAbiVersion then (rt, .errProto)
    else if iSize < iOffset ∨ iSize - iOffset < caps.inputBytes then (rt, .errInval)
    else if qSize < qOffset ∨ qSize - qOffset < caps.outputBytes then (rt, .errInval)
    else ({ rt with bindings := rt.bindings ++ [⟨adapter, iOffset, qOffset, caps⟩] }, .ok)

/-- `plc_runtime_add_program`. -/
def plcRuntimeAddProgram (rt : Runtime ω) (program : PlcProgram ω) : Runtime ω × PlcStatus :=
  if plcMaxPrograms ≤ rt.programs.length then (rt, .errNomem)
  else ({ rt with programs := rt.programs ++ [program] }, .ok)

/-- The loop of `main` that binds the opened adapters back to back. It ends at the
first one that cannot be bound. -/
def mainLayout (rt : Runtime ω) (iOffset qOffset : ℕ) :
    List (ProtocolAdapter ω) → Runtime ω × PlcStatus
  | [] => (rt, .ok)
  | adapter :: rest =>
      match plcRuntimeBindAdapter rt adapter iOffset qOffset with
      | (bound, .ok) =>
          let caps := adapter.getCaps.2
          mainLayout bound (iOffset + caps.inputBytes) (qOffset + caps.outputBytes) rest
      | (unbound, status) => (unbound, status)

/-! ## The input phase -/

/-- An exchange that an adapter was asked for. -/
structure ExchangeCall (ω : Type) where
  binding : IoBinding ω
  world : ω
  out : List Byte
  input : List Byte

namespace ExchangeCall

/-- What the adapter answered. -/
def answer (call : ExchangeCall ω) : PlcStatus × List Byte × ω :=
  call.binding.adapter.exchange call.world call.out call.input

def status (call : ExchangeCall ω) : PlcStatus := call.answer.1

def filled (call : ExchangeCall ω) : List Byte := call.answer.2.1

end ExchangeCall

/-- What an exchange leaves: the returned status, the `in` buffer, the world, and
whether the adapter was asked. -/
structure ExchangeReply (ω : Type) where
  status : PlcStatus
  input : List Byte
  world : ω
  calls : List (ExchangeCall ω)

/-- `plc_adapter_exchange`. A null `out` is let through only for an adapter without
outputs; the `in` pointer is never null. -/
def plcAdapterExchange (binding : IoBinding ω) (out : Option (List Byte)) (input : List Byte)
    (world : ω) : ExchangeReply ω :=
  if binding.caps.outputBytes ≠ 0 ∧ out = none then ⟨.errInval, input, world, []⟩
  else
    let call : ExchangeCall ω := ⟨binding, world, out.getD [], input⟩
    ⟨call.status, call.filled, call.answer.2.2, [call]⟩

/-- The variables of `scan_io`. -/
structure IoPhase (ω : Type) where
  worst : PlcStatus
  inputs : List Byte
  world : ω
  calls : List (ExchangeCall ω)

/-- The body of the loop of `scan_io`. -/
def scanBinding (qShadow : List Byte) (io : IoPhase ω) (binding : IoBinding ω) : IoPhase ω :=
  let caps := binding.caps
  let out :=
    if caps.outputBytes ≠ 0 ∧ binding.qOffset ≤ qShadow.length then
      some (slice qShadow binding.qOffset caps.outputBytes)
    else none
  let input := slice io.inputs binding.iOffset caps.inputBytes
  let reply := plcAdapterExchange binding out input io.world
  { worst := if reply.status ≠ .ok then reply.status else io.worst
    inputs := memcpy io.inputs binding.iOffset reply.input caps.inputBytes
    world := reply.world
    calls := io.calls ++ reply.calls }

/-- `scan_io`. -/
def scanIo (rt : Runtime ω) (world : ω) : IoPhase ω :=
  rt.bindings.foldl (scanBinding rt.qShadow) ⟨.ok, rt.pi.area .i, world, []⟩

/-! ## A scan -/

/-- The programs in their order, on one context. -/
def runPrograms (ctx : PouCtx) : List (PlcProgram ω) → ProcessImage → ω → ProcessImage × ω
  | [], pi, world => (pi, world)
  | program :: rest, pi, world =>
      runPrograms ctx rest (program.fn ctx pi world).1 (program.fn ctx pi world).2

/-- A conversion to `uint64_t`. -/
def uint64 (value : ℤ) : ℕ := (value % 2 ^ 64).toNat

/-- The accounting at the end of `plc_runtime_scan_once`. -/
def scanAccount (rt : Runtime ω) (t0 t1 : ℤ) : Runtime ω :=
  let durUs := uint64 ((t1 - t0).tdiv 1000)
  let timed : RuntimeStats :=
    { rt.stats with
      scans := rt.stats.scans + 1
      lastScanUs := durUs
      maxScanUs := max durUs rt.stats.maxScanUs }
  let jitter := ((t0 - rt.lastScanNs).tdiv 1000 - rt.cfg.cycleUs).natAbs
  let stats : RuntimeStats :=
    if !rt.firstScan ∧ rt.cfg.cycleUs ≠ 0 then
      { timed with
        lastJitterUs := jitter
        maxJitterUs := max jitter timed.maxJitterUs
        overruns := if rt.cfg.cycleUs < durUs then timed.overruns + 1 else timed.overruns }
    else timed
  { rt with stats := stats, lastScanNs := t0, firstScan := false, scanNo := rt.scanNo + 1 }

/-- A scan, as seen from outside. -/
structure ScanResult (ω : Type) where
  status : PlcStatus
  rt : Runtime ω
  world : ω
  io : IoPhase ω

/-- The scan before it executes: the clock of the first one, and the input phase. -/
def scanInput (rt : Runtime ω) (t0 : ℤ) (io : IoPhase ω) : Runtime ω :=
  { rt with
    lastScanNs := if rt.firstScan then t0 else rt.lastScanNs
    pi := ⟨Function.update rt.pi.area .i io.inputs⟩
    stats :=
      if io.worst ≠ .ok then { rt.stats with ioFaults := rt.stats.ioFaults + 1 } else rt.stats }

/-- The context that a scan hands to its programs. -/
def scanCtx (rt : Runtime ω) (t0 : ℤ) : PouCtx where
  now := t0
  dt := if rt.firstScan then 0 else t0 - rt.lastScanNs
  scan := rt.scanNo
  first := rt.firstScan

/-- The execute and output phases, and the accounting. -/
def scanExecute (rt : Runtime ω) (t0 t1 : ℤ) (io : IoPhase ω) : ScanResult ω :=
  let executed := runPrograms (scanCtx rt t0) rt.programs rt.pi io.world
  let qShadow := memcpy rt.qShadow 0 (executed.1.area .q) rt.qShadow.length
  { status := io.worst
    rt := scanAccount { rt with pi := executed.1, qShadow := qShadow } t0 t1
    world := executed.2
    io := io }

/-- An I/O fault aborts the scan unless the configuration says to go on. -/
def IoPhase.Aborts (io : IoPhase ω) (cfg : RuntimeConfig) : Prop :=
  io.worst ≠ .ok ∧ cfg.continueOnIoFault = false

instance (io : IoPhase ω) (cfg : RuntimeConfig) : Decidable (io.Aborts cfg) :=
  inferInstanceAs (Decidable (_ ∧ _))

/-- `plc_runtime_scan_once`. The second clock reading is not taken in a scan that is
aborted. -/
def plcRuntimeScanOnce (rt : Runtime ω) (t0 t1 : ℤ) (world : ω) : ScanResult ω :=
  let io := scanIo rt world
  let begun := scanInput rt t0 io
  if io.Aborts rt.cfg then { status := io.worst, rt := begun, world := io.world, io := io }
  else scanExecute begun t0 t1 io

end SoftPlc
