/-
# Core and adapter, one call at a time

`proxy_exchange` in the core and the service loop of an adapter process, with
each ring call and each semaphore call as one step, interleaved freely. The
adapter may die at any step and a new process takes its place on the same
region and semaphores. Both roles are covered; they differ only in how the core
ends a matched exchange and in the flags a reply may carry.

Beside the code's own state the system keeps histories that no step reads.
Exchanges are numbered from one, and every queued frame is listed with the
number of the exchange it belongs to, which is what a wrapping sequence number
can only approximate. `Linked` says that these lists are the contents of the
rings.

`Move` says once what a step can do, in terms of the lists. Everything about
runs is derived from it.
-/

import SoftPlc.Adapters.Proxy
import SoftPlc.Math.Run

namespace SoftPlc.Cyclic

open SoftPlc.Math SoftPlc.Ipc SoftPlc.Adapters

/-- The two adapter processes that share this protocol. -/
inductive Role
  | adapter
  | scanner
  deriving DecidableEq, Repr

/-- A frame together with the number of the exchange it belongs to. -/
structure Tagged where
  number : ℕ
  message : Message
  deriving DecidableEq

/-- The locals of one `proxy_exchange` call. The number is history. -/
@[ext]
structure Exchange where
  number : ℕ
  seq : UInt32
  out : List Byte
  input : List Byte
  startUs : ℕ
  out_le : out.length ≤ plcIpcMaxFrameBytes

instance : DecidableEq Exchange :=
  fun _ _ => decidable_of_iff _ Exchange.ext_iff.symm

/-- The request an exchange pushes. -/
def Exchange.request (exchange : Exchange) : Tagged :=
  ⟨exchange.number, ⟨exchange.seq, 0, exchange.out, exchange.out_le⟩⟩

/-- The next call of `proxy_exchange`. -/
inductive CoreStage
  | idle
  | drainRing (exchange : Exchange)
  | drainDoorbell (exchange : Exchange)
  | pushRequest (exchange : Exchange)
  | postRequest (exchange : Exchange)
  | waitReply (exchange : Exchange)
  | popReply (exchange : Exchange)
  deriving DecidableEq

/-- The next call of the service loop. The numbers are history. -/
inductive ServerStage
  | waitRequest
  | popRequest
  | serve (number : ℕ) (frame : Frame)
  | pushReply (reply : Tagged)
  | drainReplies (number : ℕ)
  | postReply (number : ℕ)
  deriving DecidableEq

/-- What an exchange returned: the size of the caller's buffer, the status and
the buffer's contents. -/
structure Result where
  number : ℕ
  inLen : ℕ
  status : PlcStatus
  image : List Byte
  deriving DecidableEq

/-- The mapped region, the doorbells and the two parties, then the histories:
exchanges started, the contents of the two rings, the replies made, the results
returned, doorbells taken by a process that died before its pop, and replies
pushed by a process that died before its post. -/
structure System where
  proxy : Proxy
  req : Ring
  rsp : Ring
  semReq : ℕ
  semRsp : ℕ
  core : CoreStage
  server : ServerStage
  scratch : Frame
  frame : Frame
  started : ℕ
  requests : List Tagged
  replies : List Tagged
  made : List Tagged
  results : List Result
  lost : ℕ
  stranded : List ℕ

/-- What an operation of the core reads from its surroundings: the clock, twice,
and the published number of devices online. -/
structure Reading where
  now : ℕ
  later : ℕ
  devicesOnline : ℕ
  deriving DecidableEq, Repr

/-- The moves. The environment chooses the buffers of an exchange, the clock,
whether a wait times out, what the backend answers, and when the adapter
process dies. -/
inductive Act
  | exchange (out input : List Byte) (now : ℕ)
  | core (reading : Reading)
  | timeout (now : ℕ)
  | server
  | reply (flags : UInt32) (payload : List Byte)
  | die
  deriving DecidableEq, Repr

/-- `PLC_IPC_MAX_FRAME_BYTES` as the capacity argument of a pop. -/
def popCap : UInt32 := UInt32.ofNat plcIpcMaxFrameBytes

theorem popCap_le : popCap.toNat ≤ plcIpcMaxFrameBytes := by decide

/-- How a role ends a matched exchange. -/
def Role.finish (role : Role) (proxy : Proxy) (frame : Frame) (exchange : Exchange)
    (reading : Reading) : Proxy × PlcStatus × List Byte :=
  let times : Times := ⟨exchange.startUs, reading.now, reading.later⟩
  match role with
  | .adapter => eipProxyFinish proxy frame exchange.input times
  | .scanner =>
      scannerProxyFinish proxy frame exchange.input times reading.devicesOnline

namespace System

/-- A freshly opened proxy. -/
def start (caps : ProxyCaps) (openedUs : ℕ) : System :=
  { proxy := proxyOpen caps openedUs
    req := plcSpscInit
    rsp := plcSpscInit
    semReq := 0
    semRsp := 0
    core := .idle
    server := .waitRequest
    scratch := Frame.zeroed
    frame := Frame.zeroed
    started := 0
    requests := []
    replies := []
    made := []
    results := []
    lost := 0
    stranded := [] }

/-- An exchange returns. -/
def returning (s : System) (exchange : Exchange) (outcome : Proxy × PlcStatus × List Byte) :
    System :=
  { s with
    proxy := outcome.1
    core := .idle
    results := s.results ++
      [⟨exchange.number, exchange.input.length, outcome.2.1, outcome.2.2⟩] }

/-- The push of a request. A refused one is a miss. -/
def corePush (s : System) (exchange : Exchange) (now : ℕ) : System :=
  match plcSpscPush s.req exchange.seq exchange.out with
  | (req, .ok) =>
      { s with
        req := req
        requests := s.requests ++ [exchange.request]
        core := .postRequest exchange }
  | (req, _) =>
      ({ s with req := req }).returning exchange
        (proxyFail s.proxy exchange.input .errTimeout now)

/-- One turn of the pop loop: nothing left, a late reply, a fault, or ours. -/
def corePop (role : Role) (s : System) (exchange : Exchange) (reading : Reading) : System :=
  match plcSpscPop s.rsp s.scratch popCap with
  | (rsp, .ok, frame) =>
      let popped := { s with rsp := rsp, scratch := frame, replies := s.replies.tail }
      if (frame.seq - exchange.seq).toInt32 < 0 then popped
      else if frame.seq ≠ exchange.seq then
        popped.returning exchange
          (proxyFail (countProtocolError s.proxy) exchange.input .errProto reading.now)
      else popped.returning exchange (role.finish s.proxy frame exchange reading)
  | (rsp, .errAgain, _) => { s with rsp := rsp, core := .waitReply exchange }
  | (rsp, _, _) =>
      ({ s with rsp := rsp, replies := s.replies.tail }).returning exchange
        (proxyFail (countProtocolError s.proxy) exchange.input .errProto reading.now)

/-- The next call of the core. It is blocked on an empty doorbell. -/
def coreStep (role : Role) (s : System) (reading : Reading) : Option System :=
  match s.core with
  | .idle => none
  | .drainRing exchange =>
      some { s with rsp := plcSpscDrain s.rsp, replies := [], core := .drainDoorbell exchange }
  | .drainDoorbell exchange => some { s with semRsp := 0, core := .pushRequest exchange }
  | .pushRequest exchange => some (s.corePush exchange reading.now)
  | .postRequest exchange =>
      some { s with semReq := s.semReq + 1, core := .waitReply exchange }
  | .waitReply exchange =>
      if s.proxy.caps.exchangeTimeoutUs ≤ reading.now - exchange.startUs then
        some (s.returning exchange
          (proxyFail s.proxy exchange.input .errTimeout reading.later))
      else if 0 < s.semRsp then
        some { s with semRsp := s.semRsp - 1, core := .popReply exchange }
      else none
  | .popReply exchange => some (s.corePop role exchange reading)

/-- The pop of a request. A malformed frame is dropped. -/
def serverPop (s : System) : System :=
  match plcSpscPop s.req s.frame popCap with
  | (req, .ok, frame) =>
      { s with
        req := req
        frame := frame
        requests := s.requests.tail
        server := .serve ((s.requests.head?.map Tagged.number).getD 0) frame }
  | (req, .errAgain, _) => { s with req := req, server := .waitRequest }
  | (req, _, _) => { s with req := req, requests := s.requests.tail, server := .waitRequest }

/-- The push of a reply. A refused one is dropped and the ring drained next. -/
def serverPush (s : System) (reply : Tagged) : System :=
  match plcSpscPushFlagged s.rsp reply.message.seq reply.message.flags
      reply.message.payload with
  | (rsp, .ok) =>
      { s with
        rsp := rsp, replies := s.replies ++ [reply], server := .postReply reply.number }
  | (rsp, _) => { s with rsp := rsp, server := .drainReplies reply.number }

/-- The next call of the service loop. -/
def serverStep (s : System) : Option System :=
  match s.server with
  | .waitRequest =>
      if 0 < s.semReq then some { s with semReq := s.semReq - 1, server := .popRequest }
      else none
  | .popRequest => some s.serverPop
  | .serve _ _ => none
  | .pushReply reply => some (s.serverPush reply)
  | .drainReplies _ =>
      some { s with rsp := plcSpscDrain s.rsp, replies := [], server := .waitRequest }
  | .postReply _ => some { s with semRsp := s.semRsp + 1, server := .waitRequest }

/-- The process dies, and its successor enters the service loop. -/
def die (s : System) : System :=
  match s.server with
  | .popRequest => { s with server := .waitRequest, lost := s.lost + 1 }
  | .postReply number =>
      { s with server := .waitRequest, stranded := s.stranded ++ [number] }
  | _ => { s with server := .waitRequest }

/-! A death changes the server's stage and the two histories of losses. -/

@[simp]
theorem die_core (s : System) : s.die.core = s.core := by
  unfold die
  split <;> rfl

@[simp]
theorem die_server (s : System) : s.die.server = .waitRequest := by
  unfold die
  split <;> rfl

@[simp]
theorem die_semReq (s : System) : s.die.semReq = s.semReq := by
  unfold die
  split <;> rfl

@[simp]
theorem die_semRsp (s : System) : s.die.semRsp = s.semRsp := by
  unfold die
  split <;> rfl

@[simp]
theorem die_requests (s : System) : s.die.requests = s.requests := by
  unfold die
  split <;> rfl

@[simp]
theorem die_replies (s : System) : s.die.replies = s.replies := by
  unfold die
  split <;> rfl

/-- One move. A call whose arguments are rejected changes nothing; the honest
adapter echoes the sequence number; the scanner sets no flags. -/
def step (role : Role) (s : System) : Act → Option System
  | .exchange out input now =>
      match s.core with
      | .idle =>
          if hadmits : proxyAdmits s.proxy out.length input.length = none then
            some { s with
              core := .drainRing ⟨s.started + 1, s.proxy.nextSeq, out, input, now,
                out_le_of_proxyAdmits hadmits⟩
              proxy := { s.proxy with nextSeq := s.proxy.nextSeq + 1 }
              started := s.started + 1 }
          else some s
      | _ => none
  | .core reading => s.coreStep role reading
  | .timeout now =>
      match s.core with
      | .waitReply exchange =>
          some (s.returning exchange (proxyFail s.proxy exchange.input .errTimeout now))
      | _ => none
  | .server => s.serverStep
  | .reply flags payload =>
      match s.server with
      | .serve number frame =>
          if role = .scanner ∧ flags ≠ 0 then none
          else if hlen : payload.length ≤ plcIpcMaxFrameBytes then
            let reply : Tagged := ⟨number, ⟨frame.seq, flags, payload, hlen⟩⟩
            some { s with made := s.made ++ [reply], server := .pushReply reply }
          else none
      | _ => none
  | .die => some s.die

end System

/-! ## The lists are the contents of the rings -/

/-- Each ring holds exactly the listed frames. -/
structure Linked (s : System) : Prop where
  req : Represents s.req (s.requests.map Tagged.message)
  rsp : Represents s.rsp (s.replies.map Tagged.message)

/-- How a matched exchange may end: with the image of the reply, or without
success. -/
structure Ends (s : System) (exchange : Exchange) (reply : Tagged)
    (outcome : Proxy × PlcStatus × List Byte) : Prop where
  nextSeq : outcome.1.nextSeq = s.proxy.nextSeq
  protocolErrors : outcome.1.stats.protocolErrors = s.proxy.stats.protocolErrors
  image : outcome.2.1 = .ok →
    outcome.2.2 = fit 0 reply.message.payload exchange.input.length

/-- Everything a step can do. The contents of the rings are given by the lists;
the ring records themselves are left open. -/
inductive Move (s : System) : Act → System → Prop
  | rejected (out input : List Byte) (now : ℕ) : Move s (.exchange out input now) s
  | begins (exchange : Exchange) (hcore : s.core = .idle)
      (hnumber : exchange.number = s.started + 1) (hseq : exchange.seq = s.proxy.nextSeq) :
      Move s (.exchange exchange.out exchange.input exchange.startUs) { s with
        core := .drainRing exchange
        proxy := { s.proxy with nextSeq := s.proxy.nextSeq + 1 }
        started := s.started + 1 }
  | drainsRing (reading : Reading) (exchange : Exchange) (rsp : Ring)
      (hcore : s.core = .drainRing exchange) :
      Move s (.core reading) { s with rsp := rsp, replies := [], core := .drainDoorbell exchange }
  | drainsDoorbell (reading : Reading) (exchange : Exchange)
      (hcore : s.core = .drainDoorbell exchange) :
      Move s (.core reading) { s with semRsp := 0, core := .pushRequest exchange }
  | pushes (reading : Reading) (exchange : Exchange) (req : Ring)
      (hcore : s.core = .pushRequest exchange) (hroom : s.requests.length < 4) :
      Move s (.core reading) { s with
        req := req
        requests := s.requests ++ [exchange.request]
        core := .postRequest exchange }
  | misses (act : Act) (exchange : Exchange) (req : Ring) (now : ℕ)
      (hact : (∃ reading, act = .core reading) ∨ ∃ reading, act = .timeout reading)
      (hcore : s.core = .pushRequest exchange ∨ s.core = .waitReply exchange) :
      Move s act (({ s with req := req }).returning exchange
        (proxyFail s.proxy exchange.input .errTimeout now))
  | posts (reading : Reading) (exchange : Exchange) (hcore : s.core = .postRequest exchange) :
      Move s (.core reading) { s with semReq := s.semReq + 1, core := .waitReply exchange }
  | wakes (reading : Reading) (exchange : Exchange) (hcore : s.core = .waitReply exchange)
      (hposted : 0 < s.semRsp) :
      Move s (.core reading) { s with semRsp := s.semRsp - 1, core := .popReply exchange }
  | empties (reading : Reading) (exchange : Exchange) (rsp : Ring)
      (hcore : s.core = .popReply exchange) (hreplies : s.replies = []) :
      Move s (.core reading) { s with rsp := rsp, core := .waitReply exchange }
  | discards (reading : Reading) (exchange : Exchange) (rsp : Ring) (frame : Frame)
      (reply : Tagged) (rest : List Tagged) (hcore : s.core = .popReply exchange)
      (hreplies : s.replies = reply :: rest)
      (hlate : (reply.message.seq - exchange.seq).toInt32 < 0) :
      Move s (.core reading) { s with rsp := rsp, scratch := frame, replies := rest }
  | faults (reading : Reading) (exchange : Exchange) (rsp : Ring) (frame : Frame) (now : ℕ)
      (reply : Tagged) (rest : List Tagged) (hcore : s.core = .popReply exchange)
      (hreplies : s.replies = reply :: rest)
      (hlate : ¬ (reply.message.seq - exchange.seq).toInt32 < 0)
      (hseq : reply.message.seq ≠ exchange.seq) :
      Move s (.core reading)
        (({ s with rsp := rsp, scratch := frame, replies := rest }).returning exchange
          (proxyFail (countProtocolError s.proxy) exchange.input .errProto now))
  | pairs (reading : Reading) (exchange : Exchange) (rsp : Ring) (frame : Frame) (reply : Tagged)
      (rest : List Tagged) (outcome : Proxy × PlcStatus × List Byte)
      (hcore : s.core = .popReply exchange) (hreplies : s.replies = reply :: rest)
      (hseq : reply.message.seq = exchange.seq) (hends : Ends s exchange reply outcome) :
      Move s (.core reading)
        (({ s with rsp := rsp, scratch := frame, replies := rest }).returning exchange outcome)
  | serverWakes (hserver : s.server = .waitRequest) (hposted : 0 < s.semReq) :
      Move s .server { s with semReq := s.semReq - 1, server := .popRequest }
  | serverEmpties (req : Ring) (hserver : s.server = .popRequest)
      (hrequests : s.requests = []) :
      Move s .server { s with req := req, server := .waitRequest }
  | takes (req : Ring) (frame : Frame) (request : Tagged) (rest : List Tagged)
      (hserver : s.server = .popRequest) (hrequests : s.requests = request :: rest)
      (hseq : frame.seq = request.message.seq) :
      Move s .server { s with
        req := req, frame := frame, requests := rest, server := .serve request.number frame }
  | answers (number : ℕ) (frame : Frame) (reply : Tagged)
      (hserver : s.server = .serve number frame) (hnumber : reply.number = number)
      (hseq : reply.message.seq = frame.seq) :
      Move s (.reply reply.message.flags reply.message.payload)
        { s with made := s.made ++ [reply], server := .pushReply reply }
  | replies (reply : Tagged) (rsp : Ring) (hserver : s.server = .pushReply reply)
      (hroom : s.replies.length < 4) :
      Move s .server { s with
        rsp := rsp, replies := s.replies ++ [reply], server := .postReply reply.number }
  | refuses (reply : Tagged) (rsp : Ring) (hserver : s.server = .pushReply reply)
      (hfull : s.replies.length = 4) :
      Move s .server { s with rsp := rsp, server := .drainReplies reply.number }
  | drains (number : ℕ) (rsp : Ring) (hserver : s.server = .drainReplies number) :
      Move s .server { s with rsp := rsp, replies := [], server := .waitRequest }
  | rings (number : ℕ) (hserver : s.server = .postReply number) :
      Move s .server { s with semRsp := s.semRsp + 1, server := .waitRequest }
  | dies : Move s .die s.die

namespace Linked

variable {s : System}

/-- Fresh rings hold nothing. -/
theorem start (caps : ProxyCaps) (openedUs : ℕ) : Linked (System.start caps openedUs) :=
  ⟨represents_plcSpscInit, represents_plcSpscInit⟩

/-- The request ring counts the listed requests. -/
theorem req_count (h : Linked s) : (plcSpscCount s.req).toNat = s.requests.length := by
  obtain ⟨base, hreq⟩ := h.req
  have hcount := hreq.count_eq
  rw [List.length_map] at hcount
  exact hcount

/-- The reply ring counts the listed replies. -/
theorem rsp_count (h : Linked s) : (plcSpscCount s.rsp).toNat = s.replies.length := by
  obtain ⟨base, hrsp⟩ := h.rsp
  have hcount := hrsp.count_eq
  rw [List.length_map] at hcount
  exact hcount

/-- The core's push of a request. -/
theorem corePush (h : Linked s) (reading : Reading) {exchange : Exchange}
    (hcore : s.core = .pushRequest exchange) :
    Move s (.core reading) (s.corePush exchange reading.now) ∧
      Linked (s.corePush exchange reading.now) := by
  have hlength : (s.requests.map Tagged.message).length = s.requests.length := by simp
  rcases Nat.lt_or_ge s.requests.length 4 with hroom | hfull
  · obtain ⟨req, hpush, hreq⟩ :=
      plcSpscPushFlagged_of_room h.req (by omega) exchange.request.message
    have hstep : s.corePush exchange reading.now =
        { s with
          req := req
          requests := s.requests ++ [exchange.request]
          core := .postRequest exchange } := by
      simp only [System.corePush, plcSpscPush]
      rw [show plcSpscPushFlagged s.req exchange.seq 0 exchange.out = (req, .ok) from hpush]
    rw [hstep]
    refine ⟨.pushes reading exchange req hcore hroom, ?_, h.rsp⟩
    simpa using hreq
  · have hfour : (s.requests.map Tagged.message).length = 4 := by
      obtain ⟨base, hreq⟩ := h.req
      have hbound := hreq.room
      omega
    have hstep : s.corePush exchange reading.now =
        ({ s with req := s.req }).returning exchange
          (proxyFail s.proxy exchange.input .errTimeout reading.now) := by
      simp only [System.corePush, plcSpscPush]
      rw [show plcSpscPushFlagged s.req exchange.seq 0 exchange.out = (s.req, .errAgain) from
        plcSpscPushFlagged_of_full h.req hfour exchange.request.message]
    rw [hstep]
    exact ⟨.misses _ exchange s.req reading.now (.inl ⟨_, rfl⟩) (.inl hcore), h.req, h.rsp⟩

/-- A matched reply ends the exchange with its own image, in either role. -/
theorem ends_finish (role : Role) (reading : Reading) (exchange : Exchange) {frame : Frame}
    {reply : Tagged} (hdelivers : frame.Delivers reply.message plcIpcMaxFrameBytes) :
    Ends s exchange reply (role.finish s.proxy frame exchange reading) := by
  have himage := replyImage_eq_fit exchange.input hdelivers
  cases role with
  | adapter =>
      refine ⟨by simp [Role.finish], by simp [Role.finish], fun hok => ?_⟩
      rw [← himage]
      exact eipProxyFinish_image _ _ _ _ hok
  | scanner => exact ⟨rfl, rfl, fun _ => himage⟩

/-- The core's pop of a reply. -/
theorem corePop (role : Role) (h : Linked s) (reading : Reading) {exchange : Exchange}
    (hcore : s.core = .popReply exchange) :
    Move s (.core reading) (s.corePop role exchange reading) ∧
      Linked (s.corePop role exchange reading) := by
  cases hreplies : s.replies with
  | nil =>
      have hempty : Represents s.rsp [] := by simpa [hreplies] using h.rsp
      have hstep : s.corePop role exchange reading =
          { s with rsp := s.rsp, core := .waitReply exchange } := by
        simp only [System.corePop, plcSpscPop_of_empty hempty s.scratch popCap_le]
      rw [hstep]
      exact ⟨.empties reading exchange s.rsp hcore hreplies, h.req, h.rsp⟩
  | cons reply rest =>
      have hqueue : Represents s.rsp (reply.message :: rest.map Tagged.message) := by
        simpa [hreplies] using h.rsp
      obtain ⟨rsp, frame, hpop, hdelivers, hrsp⟩ :=
        plcSpscPop_of_nonempty hqueue s.scratch popCap_le
      have hseq := hdelivers.seq_eq
      simp only [System.corePop, hpop, hreplies, List.tail_cons]
      split_ifs with hlate hother
      · rw [hseq] at hlate
        exact ⟨.discards reading exchange rsp frame reply rest hcore hreplies hlate, h.req, hrsp⟩
      · rw [hseq] at hlate hother
        exact ⟨.faults reading exchange rsp frame reading.now reply rest hcore hreplies hlate
          hother, h.req, hrsp⟩
      · rw [hseq, not_not] at hother
        exact ⟨.pairs reading exchange rsp frame reply rest _ hcore hreplies hother
          (ends_finish role reading exchange hdelivers), h.req, hrsp⟩

/-- The core's next call. -/
theorem coreStep {role : Role} (h : Linked s) {reading : Reading} {next : System}
    (hstep : s.coreStep role reading = some next) : Move s (.core reading) next ∧ Linked next := by
  unfold System.coreStep at hstep
  split at hstep
  · cases hstep
  · rename_i exchange hcore
    cases hstep
    exact ⟨.drainsRing reading exchange _ hcore, h.req, represents_plcSpscDrain h.rsp⟩
  · rename_i exchange hcore
    cases hstep
    exact ⟨.drainsDoorbell reading exchange hcore, h.req, h.rsp⟩
  · cases hstep
    exact h.corePush reading ‹_›
  · rename_i exchange hcore
    cases hstep
    exact ⟨.posts reading exchange hcore, h.req, h.rsp⟩
  · rename_i exchange hcore
    split at hstep
    · cases hstep
      exact ⟨.misses _ exchange s.req reading.later (.inl ⟨_, rfl⟩) (.inr hcore), h.req, h.rsp⟩
    · split at hstep
      · rename_i hposted
        cases hstep
        exact ⟨.wakes reading exchange hcore hposted, h.req, h.rsp⟩
      · cases hstep
  · cases hstep
    exact h.corePop role reading ‹_›

/-- The adapter's pop of a request. -/
theorem serverPop (h : Linked s) (hserver : s.server = .popRequest) :
    Move s .server s.serverPop ∧ Linked s.serverPop := by
  cases hrequests : s.requests with
  | nil =>
      have hempty : Represents s.req [] := by simpa [hrequests] using h.req
      have hstep : s.serverPop = { s with req := s.req, server := .waitRequest } := by
        simp only [System.serverPop, plcSpscPop_of_empty hempty s.frame popCap_le]
      rw [hstep]
      exact ⟨.serverEmpties s.req hserver hrequests, h.req, h.rsp⟩
  | cons request rest =>
      have hqueue : Represents s.req (request.message :: rest.map Tagged.message) := by
        simpa [hrequests] using h.req
      obtain ⟨req, frame, hpop, hdelivers, hreq⟩ := plcSpscPop_of_nonempty hqueue s.frame popCap_le
      have hstep : s.serverPop =
          { s with
            req := req
            frame := frame
            requests := rest
            server := .serve request.number frame } := by
        simp only [System.serverPop, hpop, hrequests, List.tail_cons, List.head?_cons,
          Option.map_some, Option.getD_some]
      rw [hstep]
      exact ⟨.takes req frame request rest hserver hrequests hdelivers.seq_eq, hreq, h.rsp⟩

/-- The adapter's push of a reply. -/
theorem serverPush (h : Linked s) {reply : Tagged} (hserver : s.server = .pushReply reply) :
    Move s .server (s.serverPush reply) ∧ Linked (s.serverPush reply) := by
  have hlength : (s.replies.map Tagged.message).length = s.replies.length := by simp
  rcases Nat.lt_or_ge s.replies.length 4 with hroom | hfull
  · obtain ⟨rsp, hpush, hrsp⟩ := plcSpscPushFlagged_of_room h.rsp (by omega) reply.message
    simp only [System.serverPush, hpush]
    refine ⟨.replies reply rsp hserver hroom, h.req, ?_⟩
    simpa using hrsp
  · have hfour : (s.replies.map Tagged.message).length = 4 := by
      obtain ⟨base, hrsp⟩ := h.rsp
      have hbound := hrsp.room
      omega
    simp only [System.serverPush, plcSpscPushFlagged_of_full h.rsp hfour reply.message]
    exact ⟨.refuses reply s.rsp hserver (by omega), h.req, h.rsp⟩

/-- The adapter's next call. -/
theorem serverStep (h : Linked s) {next : System} (hstep : s.serverStep = some next) :
    Move s .server next ∧ Linked next := by
  unfold System.serverStep at hstep
  split at hstep
  · rename_i hserver
    split at hstep
    · rename_i hposted
      cases hstep
      exact ⟨.serverWakes hserver hposted, h.req, h.rsp⟩
    · cases hstep
  · cases hstep
    exact h.serverPop ‹_›
  · cases hstep
  · cases hstep
    exact h.serverPush ‹_›
  · rename_i number hserver
    cases hstep
    exact ⟨.drains number _ hserver, h.req, represents_plcSpscDrain h.rsp⟩
  · rename_i number hserver
    cases hstep
    exact ⟨.rings number hserver, h.req, h.rsp⟩

theorem die (h : Linked s) : Linked s.die := by
  unfold System.die
  split <;> exact ⟨h.req, h.rsp⟩

/-- **What a step can do.** Every step is one of the moves, and leaves the lists
and the rings in agreement. -/
theorem step {role : Role} (h : Linked s) {act : Act} {next : System}
    (hstep : s.step role act = some next) : Move s act next ∧ Linked next := by
  cases act with
  | exchange out input now =>
      simp only [System.step] at hstep
      split at hstep
      · rename_i hcore
        split at hstep
        · rename_i hadmits
          cases hstep
          exact ⟨.begins ⟨s.started + 1, s.proxy.nextSeq, out, input, now,
            out_le_of_proxyAdmits hadmits⟩ hcore rfl rfl, h.req, h.rsp⟩
        · cases hstep
          exact ⟨.rejected out input now, h⟩
      · cases hstep
  | core reading => exact h.coreStep hstep
  | timeout now =>
      simp only [System.step] at hstep
      split at hstep
      · rename_i exchange hcore
        cases hstep
        exact ⟨.misses _ exchange s.req now (.inr ⟨_, rfl⟩) (.inr hcore), h.req, h.rsp⟩
      · cases hstep
  | server => exact h.serverStep hstep
  | reply flags payload =>
      simp only [System.step] at hstep
      split at hstep
      · rename_i number frame hserver
        split at hstep
        · cases hstep
        · split at hstep
          · rename_i hlen
            cases hstep
            exact ⟨.answers number frame ⟨number, ⟨frame.seq, flags, payload, hlen⟩⟩ hserver
              rfl rfl, h.req, h.rsp⟩
          · cases hstep
      · cases hstep
  | die =>
      cases hstep
      exact ⟨.dies, h.die⟩

end Linked

/-- **The run rule.** An invariant that every move keeps holds in every state a
run reaches. The condition `ok` is on the steps, for results about runs that
avoid some of them. -/
theorem run_invariant {role : Role} {ok : System → Act → Prop} {inv : System → Prop}
    {caps : ProxyCaps} {openedUs : ℕ} {schedule : List Act} {s : System}
    (hstart : inv (System.start caps openedUs))
    (hmove : ∀ before act after, Linked before → inv before → ok before act →
      Move before act after → inv after)
    (hmeets : Meets (System.step role) ok (System.start caps openedUs) schedule)
    (hrun : exec (System.step role) (System.start caps openedUs) schedule = some s) :
    Linked s ∧ inv s := by
  have hpreserved : ∀ before act after, Linked before ∧ inv before → ok before act →
      before.step role act = some after → Linked after ∧ inv after := by
    rintro before act after ⟨hlinked, hinv⟩ hok hstep
    obtain ⟨hmoved, hnext⟩ := hlinked.step hstep
    exact ⟨hnext, hmove before act after hlinked hinv hok hmoved⟩
  have hfinal := exec_invariant hpreserved ⟨Linked.start caps openedUs, hstart⟩ hmeets hrun
  exact hfinal

/-! ## Schedules on a small configuration -/

/-- A small image, held on failure. -/
def sampleCaps : ProxyCaps :=
  { inputBytes := 2
    outputBytes := 1
    failsafePolicy := .hold
    exchangeTimeoutUs := 1000
    failsafeTimeoutUs := 5000
    input_le := two_le_plcIpcMaxFrameBytes
    output_le := by decide }

/-- The core sends a request, up to its wait for the reply. -/
def sending (out : List Byte) : List Act :=
  .exchange out [0, 0] 10 :: List.replicate 4 (.core ⟨20, 21, 1⟩)

/-- The adapter takes a request, answers it, and rings the doorbell. -/
def answering (payload : List Byte) : List Act :=
  [.server, .server, .reply 0 payload, .server, .server]

end SoftPlc.Cyclic
