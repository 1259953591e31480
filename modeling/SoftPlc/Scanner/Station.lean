/-
# The image and the count beside it

The scanner's proxy takes its state from a count of devices online. The count
does not travel with the image. The service loop pushes the reply, rings the
doorbell, and only then asks the backend how many devices are online and stores
the answer; the core loads it after it has copied the image. In between, either
side may be anywhere, and the stack thread opens, serves and closes connections
all the time.

The station is the core's `proxy_exchange`, the service loop and the backend, with
each ring call, semaphore call, backend call and access to the count as one step.
Beside its state it keeps, for every reply, the backend whose images it carries,
and for the count the backend it was taken from.
-/

import SoftPlc.Cyclic.System
import SoftPlc.Scanner.Layout

namespace SoftPlc.Scanner

open SoftPlc.Math SoftPlc.Ipc SoftPlc.Adapters

/-- A reply. The backend whose images it carries is history. -/
structure Reply where
  message : Message
  made : Backend
  deriving DecidableEq

namespace Station

/-- The next call of `proxy_exchange`. A matched reply is followed by the load of
the count; which reply it was is history. -/
inductive CoreStage
  | idle
  | drainRing (exchange : Cyclic.Exchange)
  | drainDoorbell (exchange : Cyclic.Exchange)
  | pushRequest (exchange : Cyclic.Exchange)
  | postRequest (exchange : Cyclic.Exchange)
  | waitReply (exchange : Cyclic.Exchange)
  | popReply (exchange : Cyclic.Exchange)
  | loadOnline (exchange : Cyclic.Exchange) (frame : Frame) (reply : Option Reply)
  deriving DecidableEq

/-- The next call of the service loop. -/
inductive ServerStage
  | waitRequest
  | popRequest
  | exchangeImages (frame : Frame)
  | pushReply (reply : Reply)
  | drainReplies
  | postReply
  | countOnline
  | storeOnline (count : ℕ) (counted : Backend)
  deriving DecidableEq

/-- What an exchange returned, and the adapter state it left. For a success the
last two fields are history: the backend behind the image, and the backend behind
the count, if there was a count. -/
structure Result where
  inLen : ℕ
  status : PlcStatus
  image : List Byte
  state : AdapterState
  made : Option Backend
  counted : Option Backend
  deriving DecidableEq

/-- The moves. The environment chooses the buffers and the clock, whether a wait
times out or fails, and what the stack thread does. -/
inductive Act
  | exchange (out input : List Byte) (now : ℕ)
  | core (now later : ℕ)
  | timeout (now : ℕ)
  | fault (now : ℕ)
  | server
  | stack (act : Scanner.Act)
  deriving DecidableEq, Repr

end Station

/-- The mapped region with its doorbells and the count, the two parties and the
backend, then the histories: the contents of the reply ring, the backend the count
was taken from, and the results. -/
structure Station where
  proxy : Proxy
  req : Ring
  rsp : Ring
  semReq : ℕ
  semRsp : ℕ
  devicesOnline : ℕ
  core : Station.CoreStage
  server : Station.ServerStage
  backend : Backend
  scratch : Frame
  frame : Frame
  reply : List Byte
  replies : List Reply
  counted : Option Backend
  results : List Station.Result

namespace Station

/-- A freshly opened proxy, and a scanner process that enters its service loop. -/
def start (cfg : ScannerConfig) (caps : ProxyCaps) (openedUs : ℕ) (reply : List Byte) :
    Station :=
  { proxy := proxyOpen caps openedUs
    req := plcSpscInit
    rsp := plcSpscInit
    semReq := 0
    semRsp := 0
    devicesOnline := 0
    core := .idle
    server := .waitRequest
    backend := scannerInit cfg
    scratch := Frame.zeroed
    frame := Frame.zeroed
    reply := reply
    replies := []
    counted := none
    results := [] }

/-- An exchange returns. -/
def returning (s : Station) (exchange : Cyclic.Exchange) (outcome : Proxy × PlcStatus × List Byte)
    (made counted : Option Backend) : Station :=
  { s with
    proxy := outcome.1
    core := .idle
    results := s.results ++
      [{ inLen := exchange.input.length
         status := outcome.2.1
         image := outcome.2.2
         state := outcome.1.state
         made := made
         counted := counted }] }

/-- An exchange misses. -/
def missing (s : Station) (exchange : Cyclic.Exchange) (miss : Miss) (now : ℕ) : Station :=
  s.returning exchange (proxyMiss s.proxy exchange.input miss now) none none

/-- One turn of the pop loop: nothing left, a late reply, a fault, or ours. -/
def corePop (s : Station) (exchange : Cyclic.Exchange) (now : ℕ) : Station :=
  match plcSpscPop s.rsp s.scratch Cyclic.popCap with
  | (rsp, .ok, frame) =>
      let popped := { s with rsp := rsp, scratch := frame, replies := s.replies.tail }
      if (frame.seq - exchange.seq).toInt32 < 0 then popped
      else if frame.seq ≠ exchange.seq then popped.missing exchange .proto now
      else { popped with core := .loadOnline exchange frame s.replies.head? }
  | (rsp, .errAgain, _) => { s with rsp := rsp, core := .waitReply exchange }
  | (rsp, _, _) =>
      ({ s with rsp := rsp, replies := s.replies.tail }).missing exchange .proto now

/-- The next call of the core, which may read the clock twice. It is blocked on an
empty doorbell. -/
def coreStep (s : Station) (now later : ℕ) : Option Station :=
  match s.core with
  | .idle => none
  | .drainRing exchange =>
      some { s with rsp := plcSpscDrain s.rsp, replies := [], core := .drainDoorbell exchange }
  | .drainDoorbell exchange => some { s with semRsp := 0, core := .pushRequest exchange }
  | .pushRequest exchange =>
      match plcSpscPush s.req exchange.seq exchange.out with
      | (req, .ok) => some { s with req := req, core := .postRequest exchange }
      | (req, _) => some (({ s with req := req }).missing exchange .timeout now)
  | .postRequest exchange => some { s with semReq := s.semReq + 1, core := .waitReply exchange }
  | .waitReply exchange =>
      if s.proxy.caps.exchangeTimeoutUs ≤ now - exchange.startUs then
        some (s.missing exchange .timeout later)
      else if 0 < s.semRsp then
        some { s with semRsp := s.semRsp - 1, core := .popReply exchange }
      else none
  | .popReply exchange => some (s.corePop exchange now)
  | .loadOnline exchange frame reply =>
      some (s.returning exchange
        (scannerProxyFinish s.proxy frame exchange.input
          ⟨exchange.startUs, now, later⟩ s.devicesOnline)
        (reply.map Reply.made) s.counted)

/-- The images of a request are exchanged. A reply that is too long for a frame
would be refused by the push. -/
def exchangeImages (layout : PublishedLayout) (s : Station) (frame : Frame) : Station :=
  let request := frame.data.take frame.len.toNat
  let (next, buffer, length) := serveRequest layout s.backend request s.reply
  let served := { s with backend := next, reply := buffer }
  if hlen : (buffer.take length).length ≤ plcIpcMaxFrameBytes then
    { served with
      server := .pushReply ⟨⟨frame.seq, 0, buffer.take length, hlen⟩, s.backend⟩ }
  else { served with server := .drainReplies }

/-- The next call of the service loop. -/
def serverStep (layout : PublishedLayout) (s : Station) : Option Station :=
  match s.server with
  | .waitRequest =>
      if 0 < s.semReq then some { s with semReq := s.semReq - 1, server := .popRequest }
      else none
  | .popRequest =>
      match plcSpscPop s.req s.frame Cyclic.popCap with
      | (req, .ok, frame) =>
          some { s with req := req, frame := frame, server := .exchangeImages frame }
      | (req, _, _) => some { s with req := req, server := .waitRequest }
  | .exchangeImages frame => some (s.exchangeImages layout frame)
  | .pushReply reply =>
      match plcSpscPush s.rsp reply.message.seq reply.message.payload with
      | (rsp, .ok) =>
          some { s with rsp := rsp, replies := s.replies ++ [reply], server := .postReply }
      | (rsp, _) => some { s with rsp := rsp, server := .drainReplies }
  | .drainReplies =>
      some { s with rsp := plcSpscDrain s.rsp, replies := [], server := .countOnline }
  | .postReply => some { s with semRsp := s.semRsp + 1, server := .countOnline }
  | .countOnline =>
      some { s with server := .storeOnline (scannerOnline s.backend) s.backend }
  | .storeOnline count counted =>
      some { s with devicesOnline := count, counted := some counted, server := .waitRequest }

/-- One move. The stack thread does everything the backend does but exchange
images, which the service loop does. -/
def step (layout : PublishedLayout) (s : Station) : Act → Option Station
  | .exchange out input now =>
      match s.core with
      | .idle =>
          if hadmits : proxyAdmits s.proxy out.length input.length = none then
            some { s with
              core := .drainRing ⟨0, s.proxy.nextSeq, out, input, now,
                out_le_of_proxyAdmits hadmits⟩
              proxy := { s.proxy with nextSeq := s.proxy.nextSeq + 1 } }
          else some s
      | _ => none
  | .core now later => s.coreStep now later
  | .timeout now =>
      match s.core with
      | .waitReply exchange => some (s.missing exchange .timeout now)
      | _ => none
  | .fault now =>
      match s.core with
      | .waitReply exchange => some (s.missing exchange .io now)
      | _ => none
  | .server => s.serverStep layout
  | .stack (.exchange _ _) => none
  | .stack act => (s.backend.step act).map fun next => { s with backend := next }

end Station

/-! ## What the image and the count stand for -/

/-- A run of the backend leads to this one. -/
def Backend.Reached (cfg : ScannerConfig) (backend : Backend) : Prop :=
  ∃ schedule, exec Backend.step (scannerInit cfg) schedule = some backend

namespace Backend.Reached

variable {cfg : ScannerConfig} {backend next : Backend}

theorem step {act : Act} (h : backend.Reached cfg) (hstep : backend.step act = some next) :
    next.Reached cfg := by
  obtain ⟨schedule, hrun⟩ := h
  exact ⟨schedule ++ [act], (exec_concat hrun).trans hstep⟩

theorem sized (h : backend.Reached cfg) : backend.Sized cfg :=
  h.elim fun _ hrun => Backend.Sized.run hrun

theorem sound (h : backend.Reached cfg) : backend.Sound cfg :=
  h.elim fun _ hrun =>
    exec_invariant_all (fun _ _ _ hsound hstep => hsound.step hstep) (.start cfg) hrun

/-- Some device is online when some wire delivers. -/
theorem exists_online_iff (h : backend.Reached cfg) :
    (∃ device ∈ backend.devices, isOnline device = true) ↔
      ∃ line ∈ backend.lines, line.wire.Delivering := by
  simp only [Backend.devices, List.mem_map, exists_exists_and_eq_and]
  exact exists_congr fun line => and_congr_right fun hline =>
    (h.sound.lines line hline).isOnline_iff

end Backend.Reached

namespace Station

/-- The count that was stored, zero if none was. -/
def storedCount (counted : Option Backend) : ℕ := (counted.map scannerOnline).getD 0

/-- A reply carries the images of the backend it was made from. -/
structure Carries (cfg : ScannerConfig) (reply : Reply) : Prop where
  reached : reply.made.Reached cfg
  payload_eq : reply.message.payload =
    reply.made.devices.map deviceHealth ++ (reply.made.devices.map deviceSlice).flatten
  flags_eq : reply.message.flags = 0

/-- What a success returned: the images of one backend, and the state that follows
from the count of another. -/
structure Explained (cfg : ScannerConfig) (result : Result) (made : Backend) : Prop where
  made_eq : result.made = some made
  made_reached : made.Reached cfg
  image_eq : result.image =
    fit 0 (made.devices.map deviceHealth ++ (made.devices.map deviceSlice).flatten) result.inLen
  counted_reached : ∀ counted ∈ result.counted, counted.Reached cfg
  state_eq : result.state = if storedCount result.counted = 0 then .degraded else .online

/-- The core has a reply in its hand. -/
def CoreStage.holding : CoreStage → Bool
  | .loadOnline .. => true
  | _ => false

/-- The service loop has a reply or a count in its hand. -/
def ServerStage.holding : ServerStage → Bool
  | .pushReply _ | .storeOnline .. => true
  | _ => false

/-- The invariant: every reply carries its images, and the count is that of the
backend it was taken from. -/
structure Sound (cfg : ScannerConfig) (s : Station) : Prop where
  backend : s.backend.Reached cfg
  reply : s.reply.length = plcIpcMaxFrameBytes
  rsp : Represents s.rsp (s.replies.map Reply.message)
  replies : ∀ reply ∈ s.replies, Carries cfg reply
  pushing : ∀ reply, s.server = .pushReply reply → Carries cfg reply
  storing : ∀ count counted, s.server = .storeOnline count counted →
    count = scannerOnline counted ∧ counted.Reached cfg
  loading : ∀ exchange frame reply, s.core = .loadOnline exchange frame reply →
    ∃ accepted, reply = some accepted ∧ Carries cfg accepted ∧
      frame.Delivers accepted.message plcIpcMaxFrameBytes
  devicesOnline : s.devicesOnline = storedCount s.counted
  counted : ∀ counted ∈ s.counted, counted.Reached cfg
  results : ∀ result ∈ s.results, result.status = .ok → ∃ made, Explained cfg result made

namespace Sound

variable {cfg : ScannerConfig} {layout : PublishedLayout} {s : Station}

theorem start (cfg : ScannerConfig) (caps : ProxyCaps) (openedUs : ℕ) {reply : List Byte}
    (hreply : reply.length = plcIpcMaxFrameBytes) :
    Sound cfg (Station.start cfg caps openedUs reply) where
  backend := ⟨[], rfl⟩
  reply := hreply
  rsp := represents_plcSpscInit
  replies := fun _ h => by cases h
  pushing := fun _ h => by cases h
  storing := fun _ _ h => by cases h
  loading := fun _ _ _ h => by cases h
  devicesOnline := rfl
  counted := fun _ h => by cases h
  results := fun _ h => by cases h

/-- The core goes on, without a reply in its hand. -/
theorem set_core (h : Sound cfg s) {core : CoreStage} {proxy : Proxy} {req : Ring}
    {semReq semRsp : ℕ} (hcore : core.holding = false) :
    Sound cfg
      { s with core := core, proxy := proxy, req := req, semReq := semReq, semRsp := semRsp } :=
  { h with
    loading := fun exchange frame reply hload => by
      rw [show core = _ from hload] at hcore
      cases hcore }

/-- The service loop goes on, without a reply or a count in its hand. -/
theorem set_server (h : Sound cfg s) {server : ServerStage} {req : Ring} {frame : Frame}
    {semReq semRsp : ℕ} (hserver : server.holding = false) :
    Sound cfg
      { s with server := server, req := req, frame := frame, semReq := semReq, semRsp := semRsp } :=
  { h with
    pushing := fun reply hpush => by
      rw [show server = _ from hpush] at hserver
      cases hserver
    storing := fun count counted hstore => by
      rw [show server = _ from hstore] at hserver
      cases hserver }

/-- Replies leave the ring. -/
theorem set_rsp (h : Sound cfg s) {rsp : Ring} {replies : List Reply}
    (hrsp : Represents rsp (replies.map Reply.message))
    (hkept : ∀ reply ∈ replies, reply ∈ s.replies) (scratch : Frame) :
    Sound cfg { s with rsp := rsp, replies := replies, scratch := scratch } :=
  { h with rsp := hrsp, replies := fun reply hmem => h.replies reply (hkept reply hmem) }

/-- Either side empties the ring. -/
theorem drained (h : Sound cfg s) :
    Sound cfg { s with rsp := plcSpscDrain s.rsp, replies := [] } :=
  h.set_rsp (represents_plcSpscDrain h.rsp) (List.forall_mem_nil _) s.scratch

/-- An exchange that returns explains its success. -/
theorem returning (h : Sound cfg s) {exchange : Cyclic.Exchange}
    {outcome : Proxy × PlcStatus × List Byte} {made counted : Option Backend}
    (hresult : outcome.2.1 = .ok → ∃ backend, Explained cfg
      ⟨exchange.input.length, outcome.2.1, outcome.2.2, outcome.1.state, made, counted⟩ backend) :
    Sound cfg (s.returning exchange outcome made counted) :=
  { h with
    loading := fun _ _ _ hload => by cases hload
    results := by
      intro result hmem hok
      rcases List.mem_append.mp hmem with hearlier | hnew
      · exact h.results result hearlier hok
      · obtain rfl := List.mem_singleton.mp hnew
        exact hresult hok }

/-- A miss is no success. -/
theorem missing (h : Sound cfg s) (exchange : Cyclic.Exchange) (miss : Miss) (now : ℕ) :
    Sound cfg (s.missing exchange miss now) := by
  refine h.returning fun hok => ?_
  cases miss <;> simp [proxyMiss] at hok

theorem corePop (h : Sound cfg s) (exchange : Cyclic.Exchange) (now : ℕ) :
    Sound cfg (s.corePop exchange now) := by
  unfold Station.corePop
  cases hreplies : s.replies with
  | nil =>
      have hempty := h.rsp
      rw [hreplies] at hempty
      rw [plcSpscPop_of_empty hempty s.scratch Cyclic.popCap_le]
      exact (h.set_rsp hempty (List.forall_mem_nil _) s.scratch).set_core rfl
  | cons reply rest =>
      have hnonempty := h.rsp
      rw [hreplies] at hnonempty
      obtain ⟨popped, frame, hpop, hdelivers, hrest⟩ :=
        plcSpscPop_of_nonempty hnonempty s.scratch Cyclic.popCap_le
      have hkept : ∀ later ∈ rest, later ∈ s.replies := fun later hlater =>
        hreplies ▸ List.mem_cons_of_mem _ hlater
      have hpopped := h.set_rsp hrest hkept frame
      simp only [hpop, List.tail_cons, List.head?_cons]
      split_ifs with hlate hours
      · exact hpopped
      · exact hpopped.missing exchange .proto now
      · have hcarries := h.replies reply (hreplies ▸ List.mem_cons_self)
        exact
          { hpopped with
            loading := fun _ _ _ hload => by
              cases hload
              exact ⟨reply, rfl, hcarries, hdelivers⟩ }

theorem coreStep (h : Sound cfg s) {now later : ℕ} {next : Station}
    (hstep : s.coreStep now later = some next) : Sound cfg next := by
  unfold Station.coreStep at hstep
  cases hcore : s.core with
  | idle => simp only [hcore, reduceCtorEq] at hstep
  | drainRing exchange =>
      simp only [hcore, Option.some.injEq] at hstep
      subst hstep
      exact h.drained.set_core rfl
  | drainDoorbell exchange =>
      simp only [hcore, Option.some.injEq] at hstep
      subst hstep
      exact h.set_core rfl
  | pushRequest exchange =>
      simp only [hcore] at hstep
      split at hstep <;> cases hstep
      · exact h.set_core rfl
      · refine Sound.missing (h.set_core ?_) exchange .timeout _
        rfl
  | postRequest exchange =>
      simp only [hcore, Option.some.injEq] at hstep
      subst hstep
      exact h.set_core rfl
  | waitReply exchange =>
      simp only [hcore] at hstep
      split_ifs at hstep with hbudget hrung <;> cases hstep
      · exact h.missing exchange .timeout _
      · exact h.set_core rfl
  | popReply exchange =>
      simp only [hcore, Option.some.injEq] at hstep
      subst hstep
      exact h.corePop exchange now
  | loadOnline exchange frame reply =>
      simp only [hcore, Option.some.injEq] at hstep
      subst hstep
      obtain ⟨accepted, rfl, hcarries, hdelivers⟩ := h.loading exchange frame reply hcore
      refine h.returning fun _ => ⟨accepted.made, ?_⟩
      exact
        { made_eq := rfl
          made_reached := hcarries.reached
          image_eq := by
            rw [← hcarries.payload_eq]
            exact replyImage_eq_fit exchange.input hdelivers
          counted_reached := h.counted
          state_eq := by rw [← h.devicesOnline]; rfl }

/-- The reply to a request carries the images of the backend as it is. -/
theorem exchangeImages (hlaid : cfg.Laid) (hopen : publishLayout cfg = .ok layout)
    (h : Sound cfg s) (frame : Frame) : Sound cfg (s.exchangeImages layout frame) := by
  have hsized := h.backend.sized
  have hpayload := replyPayload_eq hlaid hopen hsized (frame.data.take frame.len.toNat) h.reply
  have hbuffer := serveRequest_length hlaid hopen hsized (frame.data.take frame.len.toNat) h.reply
  have hbackend : (serveRequest layout s.backend (frame.data.take frame.len.toNat)
      s.reply).1.Reached cfg :=
    h.backend.step (show s.backend.step
      (.exchange _ (replyImages layout.healthBytes s.reply)) = some _ from rfl)
  have hserved : Sound cfg
      { s with
        backend := (serveRequest layout s.backend (frame.data.take frame.len.toNat) s.reply).1
        reply := (serveRequest layout s.backend (frame.data.take frame.len.toNat) s.reply).2.1 } :=
    { h with backend := hbackend, reply := hbuffer }
  simp only [Station.exchangeImages]
  split_ifs with hlen
  · exact
      { hserved with
        pushing := fun reply hserver => by
          cases hserver
          exact ⟨h.backend, hpayload, rfl⟩
        storing := fun _ _ hserver => by cases hserver }
  · exact hserved.set_server rfl

theorem serverStep (hlaid : cfg.Laid) (hopen : publishLayout cfg = .ok layout)
    (h : Sound cfg s) {next : Station} (hstep : s.serverStep layout = some next) :
    Sound cfg next := by
  unfold Station.serverStep at hstep
  cases hserver : s.server with
  | waitRequest =>
      simp only [hserver] at hstep
      split_ifs at hstep
      cases hstep
      exact h.set_server rfl
  | popRequest =>
      simp only [hserver] at hstep
      split at hstep <;> cases hstep <;> exact h.set_server rfl
  | exchangeImages frame =>
      simp only [hserver, Option.some.injEq] at hstep
      subst hstep
      exact h.exchangeImages hlaid hopen frame
  | pushReply reply =>
      have hcarries := h.pushing reply hserver
      simp only [hserver, plcSpscPush, ← hcarries.flags_eq] at hstep
      by_cases hroom : (s.replies.map Reply.message).length < 4
      · obtain ⟨pushed, hpush, hrsp⟩ := plcSpscPushFlagged_of_room h.rsp hroom reply.message
        simp only [hpush, Option.some.injEq] at hstep
        subst hstep
        have hreplies : ∀ queued ∈ s.replies ++ [reply], Carries cfg queued := by
          intro queued hqueued
          rcases List.mem_append.mp hqueued with hearlier | hnew
          · exact h.replies queued hearlier
          · exact List.mem_singleton.mp hnew ▸ hcarries
        have hqueued : Sound cfg { s with rsp := pushed, replies := s.replies ++ [reply] } :=
          { h with rsp := by rwa [List.map_append], replies := hreplies }
        exact hqueued.set_server rfl
      · obtain ⟨base, hring⟩ := h.rsp
        have hfull : (s.replies.map Reply.message).length = 4 := by
          have := hring.room
          omega
        simp only [plcSpscPushFlagged_of_full h.rsp hfull, Option.some.injEq] at hstep
        subst hstep
        exact h.set_server rfl
  | drainReplies =>
      simp only [hserver, Option.some.injEq] at hstep
      subst hstep
      exact h.drained.set_server rfl
  | postReply =>
      simp only [hserver, Option.some.injEq] at hstep
      subst hstep
      exact h.set_server rfl
  | countOnline =>
      simp only [hserver, Option.some.injEq] at hstep
      subst hstep
      exact
        { h with
          pushing := fun _ hserver => by cases hserver
          storing := fun count counted hcount => by
            cases hcount
            exact ⟨rfl, h.backend⟩ }
  | storeOnline count counted =>
      simp only [hserver, Option.some.injEq] at hstep
      subst hstep
      obtain ⟨hcount, hreached⟩ := h.storing count counted hserver
      have hstored : Sound cfg { s with devicesOnline := count, counted := some counted } :=
        { h with
          devicesOnline := hcount
          counted := fun backend hbackend => Option.some.inj hbackend ▸ hreached }
      exact hstored.set_server rfl

theorem step (hlaid : cfg.Laid) (hopen : publishLayout cfg = .ok layout) (h : Sound cfg s)
    {act : Act} {next : Station} (hstep : s.step layout act = some next) : Sound cfg next := by
  cases act with
  | exchange out input now =>
      simp only [Station.step] at hstep
      split at hstep
      · split_ifs at hstep <;> cases hstep
        · exact h.set_core rfl
        · exact h
      · cases hstep
  | core now later => exact h.coreStep hstep
  | timeout now =>
      simp only [Station.step] at hstep
      split at hstep <;> cases hstep
      exact h.missing _ .timeout now
  | fault now =>
      simp only [Station.step] at hstep
      split at hstep <;> cases hstep
      exact h.missing _ .io now
  | server => exact h.serverStep hlaid hopen hstep
  | stack act =>
      have hbackend : (s.backend.step act).map (fun after => { s with backend := after }) =
          some next := by
        cases act with
        | exchange o2t images => cases hstep
        | _ => exact hstep
      obtain ⟨after, hafter, rfl⟩ := Option.map_eq_some_iff.mp hbackend
      exact { h with backend := h.backend.step hafter }

end Sound

/-! ## State and image -/

/-- Some device is delivering. A count that was never stored stands for a scanner
with no connection. -/
def SomeDelivering (backend : Option Backend) : Prop :=
  ∃ taken ∈ backend, ∃ line ∈ taken.lines, line.wire.Delivering

/-- The adapter state says what the health bytes say. -/
def Result.Agrees (result : Result) (deviceCount : ℕ) : Prop :=
  result.state =
    if eipDeviceOnline ∈ result.image.take deviceCount then .online else .degraded

instance (result : Result) (deviceCount : ℕ) : Decidable (result.Agrees deviceCount) :=
  inferInstanceAs (Decidable (_ = _))

/-- The stored count is positive when some device was delivering as it was taken. -/
theorem storedCount_pos_iff {cfg : ScannerConfig} {counted : Option Backend}
    (hreached : ∀ backend ∈ counted, backend.Reached cfg) :
    0 < storedCount counted ↔ SomeDelivering counted := by
  cases counted with
  | none => simp [storedCount, SomeDelivering]
  | some backend =>
      have hbackend := (hreached backend rfl).exists_online_iff
      simp only [storedCount, SomeDelivering, Option.map_some, Option.getD_some, scannerOnline,
        List.countP_pos_iff, Option.mem_some_iff, exists_eq_left', hbackend]

/-- The health bytes of an image hold `ONLINE` when some device was delivering as
it was made. -/
theorem online_mem_health_iff {cfg : ScannerConfig} {backend : Backend}
    (hreached : backend.Reached cfg) :
    eipDeviceOnline ∈ backend.devices.map deviceHealth ↔ SomeDelivering (some backend) := by
  simp only [SomeDelivering, Option.mem_some_iff, exists_eq_left', ← hreached.exists_online_iff,
    List.mem_map, deviceHealth_eq_online_iff]

/-- **When the state agrees with the image.** In every interleaving of the two
sides and the stack thread, over any number of exchanges: a full-length success
leaves the state that its health bytes call for exactly when some device was
delivering as the count was taken if and only if one was as the image was made. -/
theorem state_agrees_iff {text : List Char} {cfg : ScannerConfig}
    (hparse : eipScannerConfigParse text = .ok cfg) {layout : PublishedLayout}
    (hopen : publishLayout cfg = .ok layout) {caps : ProxyCaps}
    (hcaps : caps.inputBytes = layout.inputBytes) {openedUs : ℕ} {reply : List Byte}
    (hreply : reply.length = plcIpcMaxFrameBytes) {schedule : List Act} {s : Station}
    (hrun : exec (Station.step layout) (Station.start cfg caps openedUs reply) schedule = some s)
    {result : Result} (hresult : result ∈ s.results) (hok : result.status = .ok)
    (hlen : result.inLen = caps.inputBytes) :
    result.Agrees layout.deviceCount ↔
      (SomeDelivering result.counted ↔ SomeDelivering result.made) := by
  have hlaid := eipScannerConfigParse_laid hparse
  have hsound := exec_invariant_all
    (fun _ _ _ hbefore hstep => Sound.step hlaid hopen hbefore hstep)
    (Sound.start cfg caps openedUs hreply) hrun
  obtain ⟨made, hexplained⟩ := hsound.results result hresult hok
  have hhealth : result.image.take layout.deviceCount = made.devices.map deviceHealth := by
    have hsized := hexplained.made_reached.sized
    have hcount : layout.deviceCount = (made.devices.map deviceHealth).length := by
      obtain ⟨-, rfl⟩ := of_publishLayout hopen
      rw [List.length_map, ← hsized.cfg_eq, ← hsized.table, List.length_map]
    have hfits : layout.deviceCount ≤ result.inLen := by
      rw [hlen, hcaps]
      obtain ⟨-, rfl⟩ := of_publishLayout hopen
      exact Nat.le_add_right _ _
    have hblock : layout.deviceCount ≤ (made.devices.map deviceHealth ++
        (made.devices.map deviceSlice).flatten).length := by
      rw [hcount, List.length_append]
      exact Nat.le_add_right _ _
    rw [hexplained.image_eq, take_fit 0 hfits hblock, hcount]
    exact List.take_left
  rw [Result.Agrees, hhealth, hexplained.state_eq, hexplained.made_eq,
    ← online_mem_health_iff hexplained.made_reached,
    ← storedCount_pos_iff hexplained.counted_reached]
  by_cases honline : eipDeviceOnline ∈ made.devices.map deviceHealth
  · by_cases hcount : storedCount result.counted = 0 <;> simp [honline, hcount, Nat.pos_iff_ne_zero]
  · by_cases hcount : storedCount result.counted = 0 <;> simp [honline, hcount, Nat.pos_iff_ne_zero]

theorem drivesInput_le : drivesLayout.inputBytes ≤ plcIpcMaxFrameBytes := by decide

theorem drivesOutput_le : drivesLayout.o2tTotalBytes ≤ plcIpcMaxFrameBytes := by decide

/-- The core's adapter for the two drives. -/
def drivesCaps : ProxyCaps :=
  { inputBytes := drivesLayout.inputBytes
    outputBytes := drivesLayout.o2tTotalBytes
    exchangeTimeoutUs := 5000
    failsafeTimeoutUs := 50000
    failsafePolicy := .clear
    input_le := drivesInput_le
    output_le := drivesOutput_le }

/-- The first drive delivers before the first exchange. The service loop answers
the request and rings. -/
def firstReply : List Act :=
  [.stack (.connect 0 0 .opened), .stack (.receive 0 1 [7, 8]),
    .exchange [1, 4] [0, 0, 0, 0, 0] 100, .core 100 100, .core 100 100, .core 100 100,
    .core 100 100, .server, .server, .server, .server, .server]

/-- The core takes the reply and loads the count. -/
def acceptReply : List Act := [.core 110 110, .core 110 110, .core 110 110]

/-- The service loop counts and stores. -/
def publishCount : List Act := [.server, .server]

/-- The station of the two drives after a schedule. -/
def drivesRun (schedule : List Act) : Option Station :=
  exec (Station.step drivesLayout)
    (Station.start drivesTable drivesCaps 10 (List.replicate 496 0)) schedule

/-- The one exchange of a schedule, by what it returned. -/
theorem exists_of_drivesRun {schedule : List Act} {status : PlcStatus} {inLen : ℕ}
    {image : List Byte} {state : AdapterState}
    (hview : (drivesRun schedule).map (fun s => s.results.map fun result =>
        (result.status, result.inLen, result.image, result.state)) =
      some [(status, inLen, image, state)]) :
    ∃ s result, drivesRun schedule = some s ∧ s.results = [result] ∧ result.status = status ∧
      result.inLen = inLen ∧ result.image = image ∧ result.state = state := by
  obtain ⟨s, hrun, hresults⟩ := Option.map_eq_some_iff.mp hview
  obtain ⟨result, hresult, hvalues⟩ := List.map_eq_singleton_iff.mp hresults
  simp only [Prod.mk.injEq] at hvalues
  exact ⟨s, result, hrun, hresult, hvalues⟩

/-- The count is loaded before it is stored: the image shows a drive online and
the adapter is degraded. -/
theorem firstReply_degraded :
    ∃ s result, drivesRun (firstReply ++ acceptReply) = some s ∧ s.results = [result] ∧
      result.status = .ok ∧ result.inLen = drivesCaps.inputBytes ∧
      result.image = [eipDeviceOnline, eipDeviceOffline, 7, 8, 0] ∧
      result.state = .degraded ∧ ¬ result.Agrees drivesLayout.deviceCount := by
  have hview : (drivesRun (firstReply ++ acceptReply)).map
      (fun s => s.results.map fun result =>
        (result.status, result.inLen, result.image, result.state)) =
      some [(.ok, 5, [1, 0, 7, 8, 0], .degraded)] := by
    decide +kernel
  obtain ⟨s, result, hrun, hresult, hstatus, hlen, himage, hstate⟩ := exists_of_drivesRun hview
  refine ⟨s, result, hrun, hresult, hstatus, hlen, himage, hstate, ?_⟩
  rw [Result.Agrees, himage, hstate]
  decide

/-- With the count stored in time, the two agree. -/
theorem state_agrees_iff_published :
    ∃ s result, drivesRun (firstReply ++ publishCount ++ acceptReply) = some s ∧
      s.results = [result] ∧ result.state = .online ∧
      (SomeDelivering result.counted ↔ SomeDelivering result.made) := by
  have hview : (drivesRun (firstReply ++ publishCount ++ acceptReply)).map
      (fun s => s.results.map fun result =>
        (result.status, result.inLen, result.image, result.state)) =
      some [(.ok, 5, [1, 0, 7, 8, 0], .online)] := by
    decide +kernel
  obtain ⟨s, result, hrun, hresult, hstatus, hlen, himage, hstate⟩ := exists_of_drivesRun hview
  have hmem : result ∈ s.results := hresult ▸ List.mem_singleton_self result
  have hagrees := state_agrees_iff parse_drives publish_drives
    (show drivesCaps.inputBytes = drivesLayout.inputBytes from rfl)
    (List.length_replicate (n := 496) (a := 0)) hrun hmem hstatus hlen
  refine ⟨s, result, hrun, hresult, hstate, hagrees.mp ?_⟩
  rw [Result.Agrees, himage, hstate]
  decide

end Station

end SoftPlc.Scanner
