/-
# The OpENer backend

The adapter process runs a CIP target stack on a thread of its own. The stack
reports to the application through call-backs, and the service loop on the other
thread reads what they left: two assembly buffers behind a mutex, a count of
connections and a run/idle flag.

Each function here is one call-back or one call of the backend interface. All of
them are atomic with respect to each other, because each takes the mutex or
makes one atomic access; how they interleave is the subject of
`SoftPlc.Opener.Service`.
-/

import SoftPlc.Ipc.Ring

namespace SoftPlc.Opener

open SoftPlc.Math SoftPlc.Ipc

/-- `eip_backend_config_t`, with the size checks of `opener_init`. -/
structure BackendConfig where
  producedAssembly : ℕ
  consumedAssembly : ℕ
  configAssembly : ℕ
  outputBytes : ℕ
  inputBytes : ℕ
  output_le : outputBytes ≤ plcIpcMaxFrameBytes
  input_le : inputBytes ≤ plcIpcMaxFrameBytes

/-- `EIP_DEFAULT_HEARTBEAT_INPUT_ONLY_ASSEMBLY`. -/
def heartbeatInputOnlyAssembly : ℕ := 152

/-- `EIP_DEFAULT_HEARTBEAT_LISTEN_ONLY_ASSEMBLY`. -/
def heartbeatListenOnlyAssembly : ℕ := 153

/-- The file-scope state of the backend: the assemblies the stack owns, the
hand-off buffers, the connection count, the run/idle flag and the count of
consumed-assembly updates. -/
structure Backend where
  produced : List Byte
  consumed : List Byte
  producedPending : List Byte
  consumedSnapshot : List Byte
  ioConnections : ℕ
  peerInRun : Bool
  assemblyWrites : ℕ
  deriving DecidableEq, Repr

/-- The state at start-up. The flag starts at RUN. -/
def Backend.start : Backend :=
  { produced := List.replicate plcIpcMaxFrameBytes 0
    consumed := List.replicate plcIpcMaxFrameBytes 0
    producedPending := List.replicate plcIpcMaxFrameBytes 0
    consumedSnapshot := List.replicate plcIpcMaxFrameBytes 0
    ioConnections := 0
    peerInRun := true
    assemblyWrites := 0 }

/-- `IoConnectionEvent`. -/
inductive IoConnectionEvent
  | opened
  | timedOut
  | closed
  deriving DecidableEq, Repr

/-- `CheckIoConnectionEvent`. The assembly ids are ignored, so connections of
every type count alike; the count saturates at zero. -/
def checkIoConnectionEvent (backend : Backend) (event : IoConnectionEvent) : Backend :=
  match event with
  | .opened => { backend with ioConnections := backend.ioConnections + 1 }
  | .closed | .timedOut => { backend with ioConnections := backend.ioConnections - 1 }

/-- `AfterAssemblyDataReceived` for an assembly instance. -/
def afterAssemblyDataReceived (cfg : BackendConfig) (backend : Backend) (instanceNumber : ℕ) :
    Backend :=
  if instanceNumber = cfg.consumedAssembly then
    { backend with
      consumedSnapshot := backend.consumed
      assemblyWrites := backend.assemblyWrites + 1 }
  else backend

/-- `BeforeAssemblyDataSend` for an assembly instance. -/
def beforeAssemblyDataSend (cfg : BackendConfig) (backend : Backend) (instanceNumber : ℕ) :
    Backend :=
  if instanceNumber = cfg.producedAssembly then
    { backend with produced := backend.producedPending }
  else backend

/-- `RunIdleChanged`. -/
def runIdleChanged (backend : Backend) (runIdleValue : UInt32) : Backend :=
  { backend with peerInRun := decide (runIdleValue &&& 1 = 1) }

/-- `opener_publish`. -/
def openerPublish (backend : Backend) (data : List Byte) (len : ℕ) : Backend :=
  let n := min len plcIpcMaxFrameBytes
  { backend with
    producedPending :=
      memset (memcpy backend.producedPending 0 data n) n 0 (plcIpcMaxFrameBytes - n) }

/-- `opener_fetch` into the buffer `data` of capacity `cap`. -/
def openerFetch (cfg : BackendConfig) (backend : Backend) (data : List Byte) (cap : ℕ) :
    List Byte × ℕ :=
  let n := min (min cfg.inputBytes cap) plcIpcMaxFrameBytes
  (memcpy data 0 backend.consumedSnapshot n, n)

/-- The service loop's buffer holds a whole frame, so a fetch returns the whole
input image. -/
theorem openerFetch_eq (cfg : BackendConfig) (backend : Backend) (data : List Byte)
    (hroom : cfg.inputBytes ≤ backend.consumedSnapshot.length) :
    (openerFetch cfg backend data plcIpcMaxFrameBytes).2 = cfg.inputBytes ∧
      (openerFetch cfg backend data plcIpcMaxFrameBytes).1.take cfg.inputBytes =
        backend.consumedSnapshot.take cfg.inputBytes := by
  have hsize : min (min cfg.inputBytes plcIpcMaxFrameBytes) plcIpcMaxFrameBytes =
      cfg.inputBytes := by
    have hle := cfg.input_le
    omega
  refine ⟨hsize, ?_⟩
  simp only [openerFetch, hsize]
  exact take_memcpy_zero data hroom

end SoftPlc.Opener
