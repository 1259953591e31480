/-
# What an unflagged reply means

The service loop answers a request with the snapshot of the consumed assembly,
and flags the answer if it counts no connection or the originator is idle. It
reads the snapshot, the count and the run/idle flag one after the other, while
the stack's call-backs go on.

A reply without the flag should carry live data: the newest data received on a
connection that is open, from an originator that has said it is in RUN. The count
does not say that. Input-only and listen-only connections are counted and deliver
nothing, an owner is counted before it has delivered anything, and the snapshot
outlives the connection it came from. The run/idle flag starts at RUN, so it does
not say that the originator has reported anything. The call-backs before the fetch
and those between the readings and the push say exactly which replies are live.
-/

import SoftPlc.Math.Run
import SoftPlc.Opener.Backend

namespace SoftPlc.Opener

open SoftPlc.Math SoftPlc.Ipc

/-! ## The stack's side -/

/-- The connection types the backend configures. -/
inductive ConnectionKind
  | exclusiveOwner
  | inputOnly
  | listenOnly
  deriving DecidableEq, Repr

/-- An I/O connection. -/
structure Connection where
  id : ℕ
  kind : ConnectionKind
  deriving DecidableEq, Repr

/-- The call-backs of the stack. A payload is received on a connection; the
assembly it goes to is that of the connection's type. -/
inductive Callback
  | opened (connection : Connection)
  | closed (connection : Connection)
  | timedOut (connection : Connection)
  | received (connection : Connection) (data : List Byte)
  | configured
  | sends
  | runIdle (value : UInt32)
  deriving DecidableEq, Repr

/-- The effect of a call-back. The stack writes an owner's payload into the
consumed assembly just before it reports it; a heartbeat carries no data. -/
def Callback.run (cfg : BackendConfig) (backend : Backend) : Callback → Backend
  | .opened _ => checkIoConnectionEvent backend .opened
  | .closed _ => checkIoConnectionEvent backend .closed
  | .timedOut _ => checkIoConnectionEvent backend .timedOut
  | .received connection data =>
      match connection.kind with
      | .exclusiveOwner =>
          afterAssemblyDataReceived cfg
            { backend with consumed := memcpy backend.consumed 0 data cfg.inputBytes }
            cfg.consumedAssembly
      | .inputOnly => afterAssemblyDataReceived cfg backend heartbeatInputOnlyAssembly
      | .listenOnly => afterAssemblyDataReceived cfg backend heartbeatListenOnlyAssembly
  | .configured => afterAssemblyDataReceived cfg backend cfg.configAssembly
  | .sends => beforeAssemblyDataSend cfg backend cfg.producedAssembly
  | .runIdle value => runIdleChanged backend value

/-- The connections open after a history of call-backs. -/
def openConnections (history : List Callback) : List Connection :=
  history.foldl
    (fun links callback =>
      match callback with
      | .opened connection => connection :: links
      | .closed connection | .timedOut connection => links.erase connection
      | _ => links)
    []

/-- The consumed-assembly data a call-back brings, and where from. -/
def Callback.data : Callback → Option (Connection × List Byte)
  | .received connection data =>
      if connection.kind = .exclusiveOwner then some (connection, data) else none
  | _ => none

/-- The consumed-assembly payloads of a history, oldest first. -/
def deliveries (history : List Callback) : List (Connection × List Byte) :=
  history.filterMap Callback.data

/-- The newest consumed-assembly data of a history, from any connection. -/
def newest (history : List Callback) : Option (List Byte) :=
  (deliveries history).getLast?.map Prod.snd

/-- The newest consumed-assembly data received on a connection that is open. -/
def newestOpen (history : List Callback) : Option (List Byte) :=
  ((deliveries history).filter
    fun received => received.1 ∈ openConnections history).getLast?.map Prod.snd

/-- The run/idle state a call-back reports, `true` for RUN. -/
def Callback.report : Callback → Option Bool
  | .runIdle value => some (decide (value &&& 1 = 1))
  | _ => none

/-- The last reported run/idle state of a history, if there was a report. -/
def lastReport (history : List Callback) : Option Bool :=
  (history.filterMap Callback.report).getLast?

/-- What the stack may report next: a connection opens once and ends once, and
delivers while it is open; an owner's payload fills the assembly. -/
def Allowed (cfg : BackendConfig) (history : List Callback) : Callback → Prop
  | .opened connection => .opened connection ∉ history
  | .closed connection | .timedOut connection => connection ∈ openConnections history
  | .received connection data =>
      connection ∈ openConnections history ∧
        (connection.kind = .exclusiveOwner → data.length = cfg.inputBytes)
  | .configured | .sends | .runIdle _ => True

instance (cfg : BackendConfig) (history : List Callback) (callback : Callback) :
    Decidable (Allowed cfg history callback) :=
  match callback with
  | .opened connection => inferInstanceAs (Decidable (Callback.opened connection ∉ history))
  | .closed connection => inferInstanceAs (Decidable (connection ∈ openConnections history))
  | .timedOut connection => inferInstanceAs (Decidable (connection ∈ openConnections history))
  | .received connection data =>
      inferInstanceAs (Decidable (connection ∈ openConnections history ∧
        (connection.kind = .exclusiveOwner → data.length = cfg.inputBytes)))
  | .configured | .sends | .runIdle _ => isTrue trivial

/-- **Live data.** The payload is the newest consumed-assembly data received on a
connection that is open, and the state the originator reported last is RUN. -/
def Live (history : List Callback) (payload : List Byte) : Prop :=
  newestOpen history = some payload ∧ lastReport history = some true

instance (history : List Callback) (payload : List Byte) : Decidable (Live history payload) :=
  inferInstanceAs (Decidable (_ ∧ _))

/-! ## The service loop -/

/-- The call-back histories at the readings of one service: at the fetch, at the
load of the connection count, and at the load of the run/idle flag unless that
was skipped. -/
structure Readings where
  fetched : List Callback
  counted : List Callback
  asked : Option (List Callback)
  deriving DecidableEq, Repr

/-- A pushed reply, with its readings and the history at the push. -/
structure Served where
  seq : UInt32
  flags : UInt32
  payload : List Byte
  readings : Readings
  pushed : List Callback
  deriving DecidableEq, Repr

/-- Where the service loop is with a request. The histories are not part of the
program: they record what the readings saw. -/
inductive Stage
  | waiting
  | popped (request : Frame)
  | published (request : Frame)
  | fetched (request : Frame) (n : ℕ) (fetched : List Callback)
  | connected (request : Frame) (n : ℕ) (fetched counted : List Callback)
  | decided (request : Frame) (n : ℕ) (flags : UInt32) (readings : Readings)
  deriving DecidableEq, Repr

/-- The adapter process: the backend, the loop's reply buffer and stage, and the
histories of call-backs and of replies. -/
structure Process where
  backend : Backend
  reply : List Byte
  stage : Stage
  history : List Callback
  served : List Served
  deriving DecidableEq, Repr

/-- A call-back of the stack, a request taken from the ring, or the next step of
the service loop. -/
inductive Act
  | callback (callback : Callback)
  | request (frame : Frame)
  | serve
  deriving DecidableEq, Repr

namespace Process

/-- A process that has just started. Its reply buffer is not initialised. -/
def start (reply : List Byte) : Process :=
  { backend := .start, reply := reply, stage := .waiting, history := [], served := [] }

/-- The body of the service loop after the pop, one access to shared state at a
time. The last step is the push. -/
def serve (cfg : BackendConfig) (s : Process) : Option Process :=
  match s.stage with
  | .waiting => none
  | .popped request =>
      some { s with
        backend := openerPublish s.backend request.data request.len.toNat
        stage := .published request }
  | .published request =>
      let result := openerFetch cfg s.backend s.reply plcIpcMaxFrameBytes
      some { s with reply := result.1, stage := .fetched request result.2 s.history }
  | .fetched request n fetched =>
      if s.backend.ioConnections = 0 then
        some { s with
          stage := .decided request n plcIpcFrameDataInvalid ⟨fetched, s.history, none⟩ }
      else some { s with stage := .connected request n fetched s.history }
  | .connected request n fetched counted =>
      some { s with
        stage := .decided request n (if s.backend.peerInRun then 0 else plcIpcFrameDataInvalid)
          ⟨fetched, counted, some s.history⟩ }
  | .decided request n flags readings =>
      some { s with
        stage := .waiting
        served := s.served ++
          [⟨request.seq, flags, s.reply.take n, readings, s.history⟩] }

/-- One step of the process. -/
def step (cfg : BackendConfig) (s : Process) : Act → Option Process
  | .callback callback =>
      if Allowed cfg s.history callback then
        some { s with
          backend := callback.run cfg s.backend
          history := s.history ++ [callback] }
      else none
  | .request frame =>
      match s.stage with
      | .waiting => some { s with stage := .popped frame }
      | _ => none
  | .serve => s.serve cfg

end Process

/-! ## The backend follows the history -/

@[simp]
theorem newest_concat (history : List Callback) (callback : Callback) :
    newest (history ++ [callback]) =
      match callback.data with
      | some received => some received.2
      | none => newest history := by
  unfold newest deliveries
  rw [List.filterMap_append]
  cases hdata : callback.data <;> simp [hdata]

@[simp]
theorem lastReport_concat (history : List Callback) (callback : Callback) :
    lastReport (history ++ [callback]) = callback.report.or (lastReport history) := by
  unfold lastReport
  rw [List.filterMap_append]
  cases hreport : callback.report <;> simp [hreport]

@[simp]
theorem openConnections_concat (history : List Callback) (callback : Callback) :
    openConnections (history ++ [callback]) =
      match callback with
      | .opened connection => connection :: openConnections history
      | .closed connection | .timedOut connection => (openConnections history).erase connection
      | _ => openConnections history := by
  simp only [openConnections, List.foldl_append, List.foldl_cons, List.foldl_nil]

/-- The consumed data the snapshot holds after a history. -/
def image (cfg : BackendConfig) (history : List Callback) : List Byte :=
  (newest history).getD (List.replicate cfg.inputBytes 0)

/-- The backend's state as a function of the call-backs so far. -/
structure Mirrors (cfg : BackendConfig) (backend : Backend) (history : List Callback) : Prop where
  count : backend.ioConnections = (openConnections history).length
  run : backend.peerInRun = (lastReport history).getD true
  room : cfg.inputBytes ≤ backend.consumed.length
  held : backend.consumed.take cfg.inputBytes = image cfg history
  snapshot : backend.consumedSnapshot = backend.consumed

namespace Mirrors

variable {cfg : BackendConfig} {backend : Backend} {history : List Callback}

theorem start (cfg : BackendConfig) : Mirrors cfg .start [] := by
  have hroom := cfg.input_le
  constructor <;>
    simp [Backend.start, openConnections, lastReport, image, newest, deliveries, hroom]

/-- The flag reads RUN unless IDLE was reported last. -/
theorem inRun_iff (h : Mirrors cfg backend history) :
    backend.peerInRun = true ↔ lastReport history ≠ some false := by
  rw [h.run]
  cases lastReport history with
  | none => simp
  | some running => cases running <;> simp

/-- A call-back for an assembly that was not written leaves the correspondence:
at most it publishes the consumed assembly again. -/
theorem afterAssembly (h : Mirrors cfg backend history) (instanceNumber : ℕ) :
    Mirrors cfg (afterAssemblyDataReceived cfg backend instanceNumber) history := by
  unfold afterAssemblyDataReceived
  split_ifs
  · exact { h with snapshot := rfl }
  · exact h

/-- A call-back that neither delivers nor reports leaves data and flag. -/
theorem extend {callback : Callback} (h : Mirrors cfg backend history)
    (hdata : callback.data = none) (hreport : callback.report = none) {connections : ℕ}
    (hcount : connections = (openConnections (history ++ [callback])).length) :
    Mirrors cfg { backend with ioConnections := connections } (history ++ [callback]) :=
  { count := hcount
    run := by
      rw [lastReport_concat, hreport]
      exact h.run
    room := h.room
    held := by
      rw [image, newest_concat, hdata]
      exact h.held
    snapshot := h.snapshot }

/-- An owner's payload is what the snapshot holds from then on. -/
theorem received (h : Mirrors cfg backend history) {connection : Connection} {data : List Byte}
    (howner : connection.kind = .exclusiveOwner) (hdata : data.length = cfg.inputBytes) :
    Mirrors cfg ((Callback.received connection data).run cfg backend)
      (history ++ [.received connection data]) := by
  have hfull : cfg.inputBytes ≤ data.length := Nat.le_of_eq hdata.symm
  simp only [Callback.run, howner, afterAssemblyDataReceived, if_true]
  exact
    { count := by
        rw [openConnections_concat]
        exact h.count
      run := by
        rw [lastReport_concat]
        exact h.run
      room := by
        rw [memcpy_zero_length hfull h.room]
        exact h.room
      held := by
        rw [take_memcpy_zero _ hfull, image, newest_concat, Callback.data, if_pos howner]
        exact List.take_of_length_le (Nat.le_of_eq hdata)
      snapshot := rfl }

/-- Every call-back the stack may make. -/
theorem callback (h : Mirrors cfg backend history) {callback : Callback}
    (hallowed : Allowed cfg history callback) :
    Mirrors cfg (callback.run cfg backend) (history ++ [callback]) := by
  cases callback with
  | opened connection =>
      refine h.extend rfl rfl ?_
      rw [openConnections_concat, List.length_cons, h.count]
  | closed connection =>
      refine h.extend rfl rfl ?_
      rw [openConnections_concat, List.length_erase_of_mem hallowed, h.count]
  | timedOut connection =>
      refine h.extend rfl rfl ?_
      rw [openConnections_concat, List.length_erase_of_mem hallowed, h.count]
  | received connection data =>
      obtain ⟨hopen, hlength⟩ := hallowed
      have hquiet : (connection.kind ≠ .exclusiveOwner) →
          Mirrors cfg backend (history ++ [.received connection data]) := by
        intro hkind
        have hnone : (Callback.received connection data).data = none := if_neg hkind
        refine h.extend hnone rfl ?_
        rw [openConnections_concat, h.count]
      cases hkind : connection.kind with
      | exclusiveOwner => exact h.received hkind (hlength hkind)
      | inputOnly =>
          simp only [Callback.run, hkind]
          exact (hquiet (by simp [hkind])).afterAssembly _
      | listenOnly =>
          simp only [Callback.run, hkind]
          exact (hquiet (by simp [hkind])).afterAssembly _
  | configured =>
      refine afterAssembly (h.extend rfl rfl ?_) cfg.configAssembly
      rw [openConnections_concat, h.count]
  | sends =>
      have hsame : Mirrors cfg backend (history ++ [.sends]) :=
        h.extend rfl rfl (by rw [openConnections_concat, h.count])
      simp only [Callback.run, beforeAssemblyDataSend, if_true]
      exact { hsame with }
  | runIdle value =>
      exact
        { count := by
            rw [openConnections_concat]
            exact h.count
          run := by
            rw [lastReport_concat]
            rfl
          room := h.room
          held := by
            rw [image, newest_concat]
            exact h.held
          snapshot := h.snapshot }

end Mirrors

/-! ## What a service saw -/

/-- The flags that the readings of a service call for. -/
def Readings.flags (readings : Readings) : UInt32 :=
  if openConnections readings.counted = [] then plcIpcFrameDataInvalid
  else if readings.asked.bind lastReport = some false then plcIpcFrameDataInvalid
  else 0

/-- A reply goes out unflagged when a connection was counted and the originator
was not found idle. -/
theorem Readings.flags_valid_iff (readings : Readings) :
    readings.flags &&& plcIpcFrameDataInvalid = 0 ↔
      openConnections readings.counted ≠ [] ∧ readings.asked.bind lastReport ≠ some false := by
  unfold Readings.flags
  split_ifs with hnone hidle
  · simp [hnone, plcIpcFrameDataInvalid]
  · simp [hidle, plcIpcFrameDataInvalid]
  · simp [hnone, hidle]

/-- The readings were made in this order, all before `now`. -/
structure Readings.Ordered (readings : Readings) (now : List Callback) : Prop where
  fetched_counted : readings.fetched <+: readings.counted
  counted_now : readings.counted <+: now
  counted_asked : ∀ asked ∈ readings.asked, readings.counted <+: asked
  asked_now : ∀ asked ∈ readings.asked, asked <+: now

/-- What is known of a service under way. -/
def Stage.Sound (cfg : BackendConfig) (reply : List Byte) (history : List Callback) :
    Stage → Prop
  | .waiting | .popped _ | .published _ => True
  | .fetched _ n atFetch => reply.take n = image cfg atFetch ∧ atFetch <+: history
  | .connected _ n atFetch atCount =>
      reply.take n = image cfg atFetch ∧ atFetch <+: atCount ∧ atCount <+: history ∧
        openConnections atCount ≠ []
  | .decided _ n flags readings =>
      reply.take n = image cfg readings.fetched ∧ readings.Ordered history ∧
        flags = readings.flags ∧
        (readings.asked = none → openConnections readings.counted = [])

/-- Call-backs after a reading do not change what it saw. -/
theorem Stage.Sound.extend {cfg : BackendConfig} {reply : List Byte} {history : List Callback}
    {stage : Stage} (h : stage.Sound cfg reply history) (callback : Callback) :
    stage.Sound cfg reply (history ++ [callback]) := by
  have hlonger : history <+: history ++ [callback] := List.prefix_append _ _
  cases stage with
  | waiting => trivial
  | popped request => trivial
  | published request => trivial
  | fetched request n atFetch =>
      obtain ⟨hreply, hfetch⟩ := h
      exact ⟨hreply, hfetch.trans hlonger⟩
  | connected request n atFetch atCount =>
      obtain ⟨hreply, hfetch, hcount, hopen⟩ := h
      exact ⟨hreply, hfetch, hcount.trans hlonger, hopen⟩
  | decided request n flags readings =>
      obtain ⟨hreply, hordered, hflags, hskipped⟩ := h
      refine ⟨hreply, ?_, hflags, hskipped⟩
      exact
        { hordered with
          counted_now := hordered.counted_now.trans hlonger
          asked_now := fun asked hasked => (hordered.asked_now asked hasked).trans hlonger }

/-- A pushed reply carries the data at its fetch and the flags of its readings. The
run/idle flag was loaded unless no connection was counted. -/
structure Served.Sound (cfg : BackendConfig) (served : Served) : Prop where
  payload_eq : served.payload = image cfg served.readings.fetched
  flags_eq : served.flags = served.readings.flags
  ordered : served.readings.Ordered served.pushed
  skipped : served.readings.asked = none → openConnections served.readings.counted = []

/-- The invariant of the process. -/
structure Process.Sound (cfg : BackendConfig) (s : Process) : Prop where
  mirrors : Mirrors cfg s.backend s.history
  stage : s.stage.Sound cfg s.reply s.history
  served : ∀ served ∈ s.served, served.Sound cfg

namespace Process.Sound

variable {cfg : BackendConfig} {s next : Process}

theorem start (cfg : BackendConfig) (reply : List Byte) : (Process.start reply).Sound cfg :=
  ⟨.start cfg, trivial, nofun⟩

/-- A step of the service loop. -/
theorem serve (h : s.Sound cfg) (hserve : s.serve cfg = some next) : next.Sound cfg := by
  have hstage := h.stage
  unfold Process.serve at hserve
  cases hcase : s.stage with
  | waiting =>
      rw [hcase] at hserve
      cases hserve
  | popped request =>
      rw [hcase] at hserve
      cases hserve
      exact ⟨{ h.mirrors with }, trivial, h.served⟩
  | published request =>
      rw [hcase] at hserve
      cases hserve
      have hroom : cfg.inputBytes ≤ s.backend.consumedSnapshot.length := by
        rw [h.mirrors.snapshot]
        exact h.mirrors.room
      obtain ⟨hsize, himage⟩ := openerFetch_eq cfg s.backend s.reply hroom
      refine ⟨h.mirrors, ⟨?_, List.prefix_rfl⟩, h.served⟩
      rw [hsize, himage, h.mirrors.snapshot]
      exact h.mirrors.held
  | fetched request n atFetch =>
      rw [hcase] at hserve hstage
      obtain ⟨hreply, hfetch⟩ := hstage
      simp only at hserve
      split_ifs at hserve with hcount
      · cases hserve
        have hnone : openConnections s.history = [] := by
          rw [h.mirrors.count] at hcount
          exact List.length_eq_zero_iff.mp hcount
        refine ⟨h.mirrors, ⟨hreply, ⟨hfetch, List.prefix_rfl, nofun, nofun⟩, ?_, ?_⟩, h.served⟩
        · exact (if_pos hnone).symm
        · intro _
          exact hnone
      · cases hserve
        refine ⟨h.mirrors, ⟨hreply, hfetch, List.prefix_rfl, ?_⟩, h.served⟩
        intro hnone
        rw [h.mirrors.count, hnone] at hcount
        exact hcount rfl
  | connected request n atFetch atCount =>
      rw [hcase] at hserve hstage
      obtain ⟨hreply, hfetch, hcount, hopen⟩ := hstage
      cases hserve
      refine ⟨h.mirrors, ⟨hreply, ⟨hfetch, hcount, ?_, ?_⟩, ?_, nofun⟩, h.served⟩
      · rintro asked ⟨⟩
        exact hcount
      · rintro asked ⟨⟩
        exact List.prefix_rfl
      · have hinRun := h.mirrors.inRun_iff
        by_cases hidle : lastReport s.history = some false
        · simp [Readings.flags, hopen, hidle, hinRun]
        · simp [Readings.flags, hopen, hidle, hinRun]
  | decided request n flags readings =>
      rw [hcase] at hserve hstage
      obtain ⟨hreply, hordered, hflags, hskipped⟩ := hstage
      cases hserve
      refine ⟨h.mirrors, trivial, ?_⟩
      intro served hserved
      rcases List.mem_append.mp hserved with hserved | hserved
      · exact h.served served hserved
      · rw [List.mem_singleton.mp hserved]
        exact ⟨hreply, hflags, hordered, hskipped⟩

/-- A step of the process. -/
theorem step {act : Act} (h : s.Sound cfg) (hstep : s.step cfg act = some next) :
    next.Sound cfg := by
  cases act with
  | callback callback =>
      simp only [Process.step, Option.ite_none_right_eq_some, Option.some.injEq] at hstep
      obtain ⟨hallowed, rfl⟩ := hstep
      exact ⟨h.mirrors.callback hallowed, h.stage.extend callback, h.served⟩
  | request frame =>
      simp only [Process.step] at hstep
      split at hstep
      · cases hstep
        exact ⟨h.mirrors, trivial, h.served⟩
      · cases hstep
  | serve => exact h.serve hstep

end Process.Sound

/-! ## Which unflagged replies are live -/

/-- The originator has reported its state before the push, and what it reported since
the run/idle flag was loaded, if anything, does not end in IDLE. -/
structure Readings.Told (readings : Readings) (pushed : List Callback) : Prop where
  reported : lastReport pushed ≠ none
  not_idle : ∀ asked ∈ readings.asked, lastReport (pushed.drop asked.length) ≠ some false

/-- The connection that delivered the newest payload before the fetch is still open at
the push, and no connection open then has delivered since the fetch. -/
structure Readings.Undisturbed (readings : Readings) (pushed : List Callback) : Prop where
  still_open : ∃ received ∈ (deliveries readings.fetched).getLast?,
    received.1 ∈ openConnections pushed
  none_newer : ∀ received ∈ deliveries (pushed.drop readings.fetched.length),
    received.1 ∉ openConnections pushed

/-- Another payload brought the same bytes as the newest one before the fetch: it came
on a connection that is open at the push, and none open then has delivered after it. -/
def Readings.Resent (cfg : BackendConfig) (readings : Readings) (pushed : List Callback) : Prop :=
  ∃ before connection after,
    deliveries pushed = before ++ (connection, image cfg readings.fetched) :: after ∧
      before.length + 1 ≠ (deliveries readings.fetched).length ∧
      connection ∈ openConnections pushed ∧
      ∀ received ∈ after, received.1 ∉ openConnections pushed

@[simp]
theorem deliveries_append (first second : List Callback) :
    deliveries (first ++ second) = deliveries first ++ deliveries second :=
  List.filterMap_append ..

theorem lastReport_append (first second : List Callback) :
    lastReport (first ++ second) = (lastReport second).or (lastReport first) := by
  unfold lastReport
  rw [List.filterMap_append, List.getLast?_append]

/-- The newest payload from an open connection is the last one that has nothing from an
open connection after it. -/
theorem newestOpen_eq_some_iff {history : List Callback} {payload : List Byte} :
    newestOpen history = some payload ↔
      ∃ before connection after,
        deliveries history = before ++ (connection, payload) :: after ∧
          connection ∈ openConnections history ∧
          ∀ received ∈ after, received.1 ∉ openConnections history := by
  unfold newestOpen
  rw [List.getLast?_filter, Option.map_eq_some_iff]
  constructor
  · rintro ⟨⟨connection, data⟩, hfind, rfl⟩
    obtain ⟨hopen, newer, older, hsplit, hnewer⟩ := List.find?_eq_some_iff_append.mp hfind
    refine ⟨older.reverse, connection, newer.reverse, ?_, by simpa using hopen, ?_⟩
    · rw [← List.reverse_reverse (deliveries history), hsplit]
      simp
    · intro received hreceived
      simpa using hnewer received (List.mem_reverse.mp hreceived)
  · rintro ⟨before, connection, after, hsplit, hopen, hnewer⟩
    refine ⟨(connection, payload), List.find?_eq_some_iff_append.mpr ⟨by simpa using hopen,
      after.reverse, before.reverse, by simp [hsplit], ?_⟩, rfl⟩
    intro received hreceived
    simpa using hnewer received (List.mem_reverse.mp hreceived)

namespace Readings

variable {cfg : BackendConfig} {readings : Readings} {pushed : List Callback}

theorem Ordered.fetched_now (h : readings.Ordered pushed) : readings.fetched <+: pushed :=
  h.fetched_counted.trans h.counted_now

/-- The payloads at the push are those at the fetch and those since. -/
theorem Ordered.deliveries_eq (h : readings.Ordered pushed) :
    deliveries pushed =
      deliveries readings.fetched ++ deliveries (pushed.drop readings.fetched.length) := by
  rw [← deliveries_append, ← List.prefix_iff_eq_append.mp h.fetched_now]
  simp

/-- An unflagged reply whose payload still counts, or has been sent again. -/
theorem Ordered.newestOpen_iff (h : readings.Ordered pushed) :
    newestOpen pushed = some (image cfg readings.fetched) ↔
      readings.Undisturbed pushed ∨ readings.Resent cfg pushed := by
  rw [newestOpen_eq_some_iff]
  constructor
  · rintro ⟨before, connection, after, hsplit, hopen, hnewer⟩
    by_cases hplace : before.length + 1 = (deliveries readings.fetched).length
    · -- the payload found is the last one before the fetch
      have hboth := h.deliveries_eq
      rw [hsplit, List.append_cons] at hboth
      obtain ⟨hfetched, hsince⟩ := List.append_inj hboth (by simpa using hplace)
      refine .inl ⟨⟨(connection, image cfg readings.fetched), ?_, hopen⟩, ?_⟩
      · rw [← hfetched]
        exact List.getLast?_concat
      · rw [← hsince]
        exact hnewer
    · exact .inr ⟨before, connection, after, hsplit, hplace, hopen, hnewer⟩
  · rintro (⟨⟨⟨connection, data⟩, hlast, hopen⟩, hnewer⟩ | hresent)
    · have himage : image cfg readings.fetched = data := by
        rw [image, newest, Option.mem_def.mp hlast]
        rfl
      obtain ⟨before, hfetched⟩ := List.getLast?_eq_some_iff.mp hlast
      refine ⟨before, connection, _, ?_, hopen, hnewer⟩
      rw [h.deliveries_eq, hfetched, himage]
      simp
    · obtain ⟨before, connection, after, hsplit, -, hopen, hnewer⟩ := hresent
      exact ⟨before, connection, after, hsplit, hopen, hnewer⟩

/-- What the flag did not check: a report that came at all, and one that came later. -/
theorem Ordered.lastReport_iff (h : readings.Ordered pushed) {asked : List Callback}
    (hasked : readings.asked = some asked) (hloaded : lastReport asked ≠ some false) :
    lastReport pushed = some true ↔ readings.Told pushed := by
  obtain ⟨since, rfl⟩ := h.asked_now asked hasked
  have hdrop : (asked ++ since).drop asked.length = since := List.drop_left
  rw [lastReport_append]
  constructor
  · intro hrun
    refine ⟨?_, ?_⟩
    · rw [lastReport_append, hrun]
      exact Option.some_ne_none true
    · intro other hother hidle
      obtain rfl : asked = other := Option.some.inj (hasked.symm.trans hother)
      rw [hdrop] at hidle
      rw [hidle] at hrun
      cases hrun
  · rintro ⟨hreported, hidle⟩
    have hsince := hidle asked hasked
    rw [hdrop] at hsince
    rw [lastReport_append] at hreported
    cases hnew : lastReport since with
    | some running =>
        rw [hnew] at hsince
        cases running with
        | true => rfl
        | false => exact absurd rfl hsince
    | none =>
        rw [hnew] at hreported
        cases hold : lastReport asked with
        | none => exact absurd hold hreported
        | some running =>
            rw [hold] at hloaded
            cases running with
            | true => rfl
            | false => exact absurd rfl hloaded

end Readings

/-- **When an unflagged reply is live.** Take any run of call-backs and services,
interleaved at every access, and any reply it pushed without the invalid flag. Its
payload is live at the push exactly when the originator has reported its state, and not
IDLE since the load of the run/idle flag, and the newest payload before the fetch came
on a connection that is still open, with nothing newer from an open connection, or else
another payload with the same bytes stands in its place. -/
theorem unflagged_live_iff (cfg : BackendConfig) (reply : List Byte) (schedule : List Act)
    (s : Process) (served : Served)
    (hrun : exec (Process.step cfg) (Process.start reply) schedule = some s)
    (hserved : served ∈ s.served) (hvalid : served.flags &&& plcIpcFrameDataInvalid = 0) :
    served.readings.Ordered served.pushed ∧
      (Live served.pushed served.payload ↔
        served.readings.Told served.pushed ∧
          (served.readings.Undisturbed served.pushed ∨
            served.readings.Resent cfg served.pushed)) := by
  have hpreserved : ∀ before act after, Process.Sound cfg before →
      Process.step cfg before act = some after → Process.Sound cfg after :=
    fun before act after hsound hstep => hsound.step hstep
  have hfinal := exec_invariant_all hpreserved (Process.Sound.start cfg reply) hrun
  have hsound := hfinal.served served hserved
  have hordered := hsound.ordered
  rw [hsound.flags_eq, Readings.flags_valid_iff] at hvalid
  obtain ⟨hopen, hloaded⟩ := hvalid
  refine ⟨hordered, ?_⟩
  cases hasked : served.readings.asked with
  | none => exact absurd (hsound.skipped hasked) hopen
  | some asked =>
      rw [hasked, Option.bind_some] at hloaded
      rw [Live, hsound.payload_eq, hordered.newestOpen_iff,
        hordered.lastReport_iff hasked hloaded]
      exact And.comm

/-- Two input bytes on the default assemblies. -/
def sampleConfig : BackendConfig :=
  { producedAssembly := 100
    consumedAssembly := 150
    configAssembly := 151
    outputBytes := 2
    inputBytes := 2
    output_le := two_le_plcIpcMaxFrameBytes
    input_le := two_le_plcIpcMaxFrameBytes }

/-- A controller that owns the outputs. -/
def owner : Connection := ⟨0, .exclusiveOwner⟩

/-- A panel that only looks at the inputs. -/
def panel : Connection := ⟨1, .inputOnly⟩

/-- A request and the steps that serve it while a connection is counted. -/
def requestServed : List Act := .request .zeroed :: List.replicate 5 .serve

/-- The owner runs, delivers and drops off, and a panel that never delivers anything
stays connected. -/
def ownerDropsOff : List Callback :=
  [.opened owner, .opened panel, .runIdle 1, .received owner [1, 2], .timedOut owner]

/-- The reply to a request served after `history` with nothing in between. -/
def servedAfter (history : List Callback) (payload : List Byte) : Served :=
  { seq := 0, flags := 0, payload := payload, readings := ⟨history, history, some history⟩,
    pushed := history }

/-- The panel keeps the count above zero, so the data of the owner that dropped
off goes out unflagged. -/
theorem dropped_owner_passes_for_live :
    (exec (Process.step sampleConfig) (Process.start [])
        (ownerDropsOff.map .callback ++ requestServed)).map Process.served =
        some [servedAfter ownerDropsOff [1, 2]] ∧
      openConnections ownerDropsOff = [panel] ∧ lastReport ownerDropsOff = some true ∧
      newestOpen ownerDropsOff = none ∧ ¬ Live ownerDropsOff [1, 2] := by
  decide +kernel

/-- The owner connects, runs and delivers. -/
def ownerRuns : List Callback := [.opened owner, .runIdle 1, .received owner [1, 2]]

/-- A panel connects and delivers its heartbeat while a request is served. -/
def panelJoins : List Act :=
  ownerRuns.map .callback ++
    [.request .zeroed, .serve, .serve, .callback (.opened panel), .serve, .serve,
      .callback (.received panel []), .serve]

/-- The reply to that request. -/
def servedMeanwhile : Served :=
  { seq := 0
    flags := 0
    payload := [1, 2]
    readings :=
      { fetched := ownerRuns
        counted := ownerRuns ++ [.opened panel]
        asked := some (ownerRuns ++ [.opened panel]) }
    pushed := ownerRuns ++ [.opened panel, .received panel []] }

theorem unflagged_live_iff_panelJoins :
    ∃ s, exec (Process.step sampleConfig) (Process.start []) panelJoins = some s ∧
      servedMeanwhile ∈ s.served ∧ Live servedMeanwhile.pushed servedMeanwhile.payload := by
  have hview : (exec (Process.step sampleConfig) (Process.start []) panelJoins).map
      Process.served = some [servedMeanwhile] := by
    decide +kernel
  obtain ⟨s, hrun, hserved⟩ := Option.map_eq_some_iff.mp hview
  have hmem : servedMeanwhile ∈ s.served := by
    rw [hserved]
    exact List.mem_singleton_self _
  have htold : servedMeanwhile.readings.Told servedMeanwhile.pushed :=
    ⟨by decide +kernel, by decide +kernel⟩
  have hundisturbed : servedMeanwhile.readings.Undisturbed servedMeanwhile.pushed :=
    ⟨⟨(owner, [1, 2]), by decide +kernel, by decide +kernel⟩, by decide +kernel⟩
  have hiff := (unflagged_live_iff sampleConfig [] panelJoins s _ hrun hmem (by decide)).2
  exact ⟨s, hrun, hmem, hiff.mpr ⟨htold, .inl hundisturbed⟩⟩

end SoftPlc.Opener
