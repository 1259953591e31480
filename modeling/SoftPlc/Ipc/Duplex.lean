/-
# The two rings as the core and the adapter use them

`proxy_exchange` in the core and the service loop in the adapter process, with
every ring access and every semaphore operation as one step. The core drains
the reply ring, pushes a request, and pops replies until it finds its own. The
adapter pops one request per doorbell and pushes one reply.

The roles are not quite those of `Spsc`: when the adapter finds the reply ring
full it drops its reply and *drains the ring itself*, so the tail of the reply
ring has two writers. A drain that lands inside a pop lets the next push write
the slot the pop is still reading. The counterexample below is such a run: the
core returns with the newest sequence number and the oldest payload.

Outside that window the ring is sound. The argument still has to cover a drain
of the core whose tail store is late, and it rests on a count: at most five
requests are unanswered when the core loads the head, and the adapter drops one
of their replies before it can move the tail past the core's.
-/

import SoftPlc.Ipc.Spsc

namespace SoftPlc.Ipc

open SoftPlc.Math

/-- Where `proxy_exchange` is: between exchanges, or at one of its ring or
semaphore operations, with the sequence number it is waiting for. -/
inductive CorePc
  | idle
  | drainRsp (seq : UInt32) (out : List Byte) (call : DrainCall)
  | drainSem (seq : UInt32) (out : List Byte)
  | pushReq (seq : UInt32) (call : PushCall)
  | postReq (seq : UInt32)
  | waitRsp (seq : UInt32)
  | popRsp (seq : UInt32) (call : PopCall)
  deriving DecidableEq

/-- Where the service loop is. `serve` is between a popped request and the
push of its reply. -/
inductive AdapterPc
  | waitReq
  | popReq (call : PopCall)
  | serve (frame : Frame)
  | pushRsp (call : PushCall)
  | drainRsp (call : DrainCall)
  | postRsp
  deriving DecidableEq

/-- The mapped region, the doorbells and the two parties. `scratch` and `frame`
are the buffers the pops fill. The last two fields are histories: the replies
whose push completed, and the frames the core's pops returned. -/
structure Duplex where
  req : Ring
  rsp : Ring
  semReq : ℕ
  semRsp : ℕ
  core : CorePc
  adapter : AdapterPc
  nextSeq : UInt32
  scratch : Frame
  frame : Frame
  sent : List Message
  received : List Frame

/-- The moves. The environment chooses the outputs of an exchange, whether a
wait times out, and what the adapter's backend answers. -/
inductive DuplexAct
  | exchange (out : List Byte)
  | core
  | timeout
  | adapter
  | reply (flags : UInt32) (payload : List Byte)
  deriving DecidableEq, Repr

namespace Duplex

/-- Fresh rings, as `proxy_open` publishes them. -/
def start : Duplex :=
  { req := plcSpscInit
    rsp := plcSpscInit
    semReq := 0
    semRsp := 0
    core := .idle
    adapter := .waitReq
    nextSeq := 1
    scratch := Frame.zeroed
    frame := Frame.zeroed
    sent := []
    received := [] }

/-- `PLC_IPC_MAX_FRAME_BYTES` as the capacity argument of a pop. -/
def popCap : UInt32 := UInt32.ofNat plcIpcMaxFrameBytes

/-- One access of the core's push on the request ring. A refused push ends the
exchange as a miss. -/
def corePush (s : Duplex) (seq : UInt32) (call : PushCall) : Duplex :=
  match call.step s.req with
  | (req, .running next) => { s with req := req, core := .pushReq seq next }
  | (req, .returned .ok) => { s with req := req, core := .postReq seq }
  | (req, .returned _) => { s with req := req, core := .idle }

/-- One access of the core's pop on the reply ring. A late reply is discarded
and the pop repeated; a match, a sequence fault and a malformed frame all end
the exchange. -/
def corePop (s : Duplex) (seq : UInt32) (call : PopCall) : Duplex :=
  match call.step s.rsp with
  | (rsp, .running next) => { s with rsp := rsp, core := .popRsp seq next }
  | (rsp, .returned (.ok, frame)) =>
      { s with
        rsp := rsp
        scratch := frame
        received := s.received ++ [frame]
        core := if (frame.seq - seq).toInt32 < 0 then
            .popRsp seq ⟨frame, popCap, .loadTail⟩
          else .idle }
  | (rsp, .returned (.errAgain, _)) => { s with rsp := rsp, core := .waitRsp seq }
  | (rsp, .returned _) => { s with rsp := rsp, core := .idle }

/-- One access of the core's drain of the reply ring. -/
def coreDrain (s : Duplex) (seq : UInt32) (out : List Byte) (call : DrainCall) : Duplex :=
  match call.step s.rsp with
  | (rsp, .running next) => { s with rsp := rsp, core := .drainRsp seq out next }
  | (rsp, .returned ()) => { s with rsp := rsp, core := .drainSem seq out }

/-- The next operation of the core, when it does not depend on a choice. -/
def coreStep (s : Duplex) : Option Duplex :=
  match s.core with
  | .idle => none
  | .drainRsp seq out call => some (s.coreDrain seq out call)
  | .drainSem seq out =>
      -- `plc_sem_drain` takes one post at a time until there is none.
      if 0 < s.semRsp then some { s with semRsp := s.semRsp - 1 }
      else
        match pushBegin seq 0 out with
        | .running call => some { s with core := .pushReq seq call }
        | .returned _ => some { s with core := .idle }
  | .pushReq seq call => some (s.corePush seq call)
  | .postReq seq => some { s with semReq := s.semReq + 1, core := .waitRsp seq }
  | .waitRsp seq =>
      if 0 < s.semRsp then
        some { s with
          semRsp := s.semRsp - 1, core := .popRsp seq ⟨s.scratch, popCap, .loadTail⟩ }
      else none
  | .popRsp seq call => some (s.corePop seq call)

/-- One access of the adapter's pop on the request ring. -/
def adapterPop (s : Duplex) (call : PopCall) : Duplex :=
  match call.step s.req with
  | (req, .running next) => { s with req := req, adapter := .popReq next }
  | (req, .returned (.ok, frame)) =>
      { s with req := req, frame := frame, adapter := .serve frame }
  | (req, .returned _) => { s with req := req, adapter := .waitReq }

/-- One access of the adapter's push on the reply ring. A push that fails is
followed by the adapter's own drain of that ring. -/
def adapterPush (s : Duplex) (call : PushCall) : Duplex :=
  match call.step s.rsp with
  | (rsp, .running next) => { s with rsp := rsp, adapter := .pushRsp next }
  | (rsp, .returned .ok) =>
      { s with rsp := rsp, adapter := .postRsp, sent := s.sent ++ [call.message] }
  | (rsp, .returned _) => { s with rsp := rsp, adapter := .drainRsp .loadHead }

/-- One access of the adapter's drain of the reply ring. -/
def adapterDrain (s : Duplex) (call : DrainCall) : Duplex :=
  match call.step s.rsp with
  | (rsp, .running next) => { s with rsp := rsp, adapter := .drainRsp next }
  | (rsp, .returned ()) => { s with rsp := rsp, adapter := .waitReq }

/-- The next operation of the adapter, when it does not depend on a choice. A
doorbell wait that times out leaves the loop where it was. -/
def adapterStep (s : Duplex) : Option Duplex :=
  match s.adapter with
  | .waitReq =>
      if 0 < s.semReq then
        some { s with
          semReq := s.semReq - 1, adapter := .popReq ⟨s.frame, popCap, .loadTail⟩ }
      else none
  | .popReq call => some (s.adapterPop call)
  | .serve _ => none
  | .pushRsp call => some (s.adapterPush call)
  | .drainRsp call => some (s.adapterDrain call)
  | .postRsp => some { s with semRsp := s.semRsp + 1, adapter := .waitReq }

/-- One move. Images are bounded by the frame size, which `proxy_open` and the
backends' own buffers enforce. -/
def step (s : Duplex) : DuplexAct → Option Duplex
  | .exchange out =>
      match s.core with
      | .idle =>
          if out.length ≤ plcIpcMaxFrameBytes then
            some { s with core := .drainRsp s.nextSeq out .loadHead, nextSeq := s.nextSeq + 1 }
          else none
      | _ => none
  | .core => s.coreStep
  | .timeout =>
      match s.core with
      | .waitRsp _ => some { s with core := .idle }
      | _ => none
  | .adapter => s.adapterStep
  | .reply flags payload =>
      match s.adapter with
      | .serve frame =>
          match pushBegin frame.seq flags payload with
          | .running call => some { s with adapter := .pushRsp call }
          | .returned _ => none
      | _ => none

end Duplex

/-! ## What the rings must guarantee -/

/-- The core's push in progress on the request ring. -/
def CorePc.pushing : CorePc → Option PushCall
  | .pushReq _ call => some call
  | _ => none

/-- The core's pop in progress on the reply ring. -/
def CorePc.popping : CorePc → Option PopCall
  | .popRsp _ call => some call
  | _ => none

/-- The adapter's push in progress on the reply ring. -/
def AdapterPc.pushing : AdapterPc → Option PushCall
  | .pushRsp call => some call
  | _ => none

/-- The adapter's pop in progress on the request ring. -/
def AdapterPc.popping : AdapterPc → Option PopCall
  | .popReq call => some call
  | _ => none

/-- The requests the adapter has taken and not yet disposed of. -/
def AdapterPc.hand : AdapterPc → ℕ
  | .serve _ | .pushRsp _ | .drainRsp _ => 1
  | .waitReq | .popReq _ | .postRsp => 0

theorem AdapterPc.hand_le (adapter : AdapterPc) : adapter.hand ≤ 1 := by
  cases adapter <;> simp [AdapterPc.hand]

namespace Duplex

/-- **Ring integrity.** Neither ring holds more than its four slots; every frame
the core popped is one message of one completed push; and the slot the core's
pop is reading is not the slot the adapter's push is about to write. -/
structure Intact (s : Duplex) : Prop where
  req_count : (s.req.head - s.req.tail).toNat ≤ 4
  rsp_count : (s.rsp.head - s.rsp.tail).toNat ≤ 4
  whole : ∀ frame ∈ s.received, ∃ message ∈ s.sent,
    frame.Delivers message plcIpcMaxFrameBytes
  apart : ∀ pop push readCursor writeCursor, s.core.popping = some pop →
    s.adapter.pushing = some push → pop.slotRead = some readCursor →
    push.slotWrite = some writeCursor → slotIndex readCursor ≠ slotIndex writeCursor

/-- The core is inside a pop on the reply ring and has loaded the tail. -/
def coreHoldsTail (s : Duplex) : Bool :=
  match s.core with
  | .popRsp _ call => call.heldTail.isSome
  | _ => false

/-- A pop that holds no tail has made no access yet. -/
theorem pc_of_not_coreHoldsTail {s : Duplex} {pop : PopCall}
    (hfree : s.coreHoldsTail = false) (hpop : s.core.popping = some pop) :
    pop.pc = .loadTail := by
  unfold coreHoldsTail at hfree
  generalize s.core = core at hfree hpop
  cases core with
  | popRsp seq call =>
      cases hpop
      simp only [PopCall.heldTail] at hfree
      split at hfree
      · assumption
      all_goals cases hfree
  | _ => cases hpop

/-- The adapter's next step stores the tail of the reply ring. -/
def adapterStoresTail (s : Duplex) : Bool :=
  match s.adapter with
  | .drainRsp (.storeTail _) => true
  | _ => false

/-- The condition under which the rings are sound: the adapter does not store
the reply tail while a pop of the core depends on it. -/
def DrainApart (s : Duplex) (act : DuplexAct) : Prop :=
  act = .adapter → s.adapterStoresTail = true → s.coreHoldsTail = false

instance (s : Duplex) (act : DuplexAct) : Decidable (s.DrainApart act) :=
  inferInstanceAs (Decidable (_ → _ → _))

/-! ## The run that mixes two replies -/

/-- An exchange that pushes its request and gives up. -/
def abandoned : List DuplexAct :=
  .exchange [] :: List.replicate 10 .core ++ [.timeout]

/-- The adapter wakes and takes one request. -/
def taking : List DuplexAct := List.replicate 7 .adapter

/-- The adapter replies with one byte and rings the doorbell. -/
def answering (value : Byte) : List DuplexAct :=
  .reply 0 [value] :: List.replicate 8 .adapter

/-- The adapter has taken the first request and five more are pushed. The core
is paused after loading the tail of its pop while the adapter answers four
requests, drops the fifth reply, drains, and starts on the sixth. -/
def mixing : List DuplexAct :=
  abandoned ++ taking ++ abandoned ++ abandoned ++ abandoned ++ abandoned ++
    (.exchange [] :: List.replicate 2 .core) ++
    answering 1 ++ taking ++ List.replicate 9 .core ++ answering 2 ++
    List.replicate 3 .core ++
    taking ++ answering 3 ++ taking ++ answering 4 ++
    taking ++ (.reply 0 [5] :: List.replicate 4 .adapter) ++
    taking ++ (.reply 0 [6] :: List.replicate 3 .adapter) ++
    List.replicate 5 .core

end Duplex

/-! ## The invariant -/

/-- The cursor the core's drain is about to store. -/
def CorePc.draining : CorePc → Option UInt32
  | .drainRsp _ _ (.storeTail head) => some head
  | _ => none

/-- What the core's position says about the two lower bounds of the reply ring.
They differ only while the core has loaded the head for its drain and not yet
stored the tail. Then `outstanding` requests can still add replies, and once
the adapter's own drain has overtaken the core's, one of them is gone. -/
def CorePc.Pending (core : CorePc) (base published outstanding low taken : ℕ) : Prop :=
  match core.draining with
  | some head =>
      ∃ stop, head = wrap (base + stop) ∧ stop ≤ published ∧ low = min taken stop ∧
        published - stop + outstanding ≤ 5 ∧
        (stop < taken → published - stop + outstanding ≤ 4)
  | none => low = taken

namespace CorePc.Pending

variable {core : CorePc} {base published outstanding low taken : ℕ}

/-- While a reply is in the adapter's hand, room above the tail is room above
the lower bound too. -/
theorem room (h : core.Pending base published (outstanding + 1) low taken)
    (hroom : published < taken + 4) : published < low + 4 := by
  unfold CorePc.Pending at h
  generalize core.draining = draining at h
  cases draining with
  | some head =>
      obtain ⟨stop, -, hstop, hlow, -, hovertaken⟩ := h
      omega
  | none =>
      have hequal : low = taken := h
      omega

/-- The adapter publishes the reply in its hand. -/
theorem publish (h : core.Pending base published (outstanding + 1) low taken) :
    core.Pending base (published + 1) outstanding low taken := by
  unfold CorePc.Pending at h ⊢
  generalize core.draining = draining at h
  cases draining with
  | some head =>
      obtain ⟨stop, hhead, hstop, hlow, hbound, hovertaken⟩ := h
      exact ⟨stop, hhead, by omega, hlow, by omega, by omega⟩
  | none => exact h

/-- The adapter drops the reply in its hand and moves the tail to the head. -/
theorem drained (h : core.Pending base published (outstanding + 1) low taken)
    (htaken : taken ≤ published) : ∃ floor, low ≤ floor ∧ floor ≤ published ∧
      core.Pending base published outstanding floor published := by
  unfold CorePc.Pending at h ⊢
  generalize core.draining = draining at h
  cases draining with
  | some head =>
      obtain ⟨stop, hhead, hstop, hlow, hbound, -⟩ := h
      exact ⟨stop, by omega, hstop, stop, hhead, hstop, by omega, by omega, by omega⟩
  | none =>
      have hequal : low = taken := h
      exact ⟨published, by omega, le_rfl, rfl⟩

end CorePc.Pending

/-- Both rings satisfy the representation invariant and every call in progress
has loaded what the log says. `asked` is the log of the request ring. -/
structure DuplexInv (base : ℕ) (asked : List Message) (askedTaken low taken : ℕ)
    (s : Duplex) : Prop where
  req : RingInv base asked askedTaken askedTaken s.req s.core.pushing
  reqPop : ∀ call, s.adapter.popping = some call → call.Tracks s.req asked[askedTaken]?
  rsp : RingInv base s.sent low taken s.rsp s.adapter.pushing
  rspPop : ∀ call, s.core.popping = some call →
    call.cap = Duplex.popCap ∧ call.Tracks s.rsp s.sent[taken]?
  rspDrain : ∀ head, s.adapter = .drainRsp (.storeTail head) → head = s.rsp.head
  pending : s.core.Pending base s.sent.length
    (asked.length - askedTaken + s.adapter.hand) low taken
  whole : ∀ frame ∈ s.received, ∃ message ∈ s.sent,
    frame.Delivers message plcIpcMaxFrameBytes

/-- Some choice of logs and bounds satisfies the invariant. -/
def Duplex.Sound (base : ℕ) (s : Duplex) : Prop :=
  ∃ asked askedTaken low taken, DuplexInv base asked askedTaken low taken s

namespace DuplexInv

variable {base : ℕ} {asked : List Message} {askedTaken low taken : ℕ} {s : Duplex}

/-- Fresh rings satisfy the invariant. -/
theorem start : DuplexInv 0 [] 0 0 0 Duplex.start where
  req := RingInv.empty 0 _
  reqPop := fun call hcall => by cases hcall
  rsp := RingInv.empty 0 _
  rspPop := fun call hcall => by cases hcall
  rspDrain := fun head hhead => by cases hhead
  pending := rfl
  whole := fun frame hframe => by cases hframe

/-! ### Moves of the core -/

/-- The core moves on without touching a ring. -/
theorem set_core (h : DuplexInv base asked askedTaken low taken s) {core : CorePc}
    {semReq semRsp : ℕ} {nextSeq : UInt32}
    (hpushing : ∀ call, core.pushing = some call → ¬ call.Filling ∧ call.Progress s.req)
    (hpopping : ∀ call, core.popping = some call →
      call.cap = Duplex.popCap ∧ call.Tracks s.rsp s.sent[taken]?)
    (hpending : core.Pending base s.sent.length
      (asked.length - askedTaken + s.adapter.hand) low taken) :
    DuplexInv base asked askedTaken low taken
      { s with core := core, semReq := semReq, semRsp := semRsp, nextSeq := nextSeq } where
  req := h.req.set_producer hpushing
  reqPop := h.reqPop
  rsp := h.rsp
  rspPop := hpopping
  rspDrain := h.rspDrain
  pending := hpending
  whole := h.whole

/-- The core moves on to a place where no call of its own is under way. -/
theorem core_between (h : DuplexInv base asked askedTaken low taken s) {core : CorePc}
    {semReq semRsp : ℕ} {nextSeq : UInt32} (hpushing : core.pushing = none)
    (hpopping : core.popping = none)
    (hpending : core.Pending base s.sent.length
      (asked.length - askedTaken + s.adapter.hand) low taken) :
    Duplex.Sound base
      { s with core := core, semReq := semReq, semRsp := semRsp, nextSeq := nextSeq } := by
  refine ⟨asked, askedTaken, low, taken, h.set_core ?_ ?_ hpending⟩
  · intro call hcall
    cases hpushing.symm.trans hcall
  · intro call hcall
    cases hpopping.symm.trans hcall

/-- Every access of the core's drain keeps the invariant. -/
theorem coreDrain (h : DuplexInv base asked askedTaken low taken s) {seq : UInt32}
    {out : List Byte} {call : DrainCall} (hcore : s.core = .drainRsp seq out call) :
    (s.coreDrain seq out call).Sound base := by
  have hpending := h.pending
  rw [hcore] at hpending
  cases call with
  | loadHead =>
      have hroom := h.req.room
      have hhand := s.adapter.hand_le
      have hequal : low = taken := hpending
      have htaken := h.rsp.taken_le
      apply h.core_between rfl rfl
      exact ⟨s.sent.length, h.rsp.head_eq, le_rfl, by omega, by omega, by omega⟩
  | storeTail head =>
      obtain ⟨stop, rfl, hstop, hlow, -, -⟩ := hpending
      refine ⟨asked, askedTaken, stop, stop, ?_⟩
      exact
        { req := h.req.set_producer fun call hcall => by cases hcall
          reqPop := h.reqPop
          rsp := h.rsp.set_tail (by omega) le_rfl hstop
          rspPop := fun call hcall => by cases hcall
          rspDrain := h.rspDrain
          pending := rfl
          whole := h.whole }

/-- Every access of the core's push keeps the invariant. -/
theorem corePush (h : DuplexInv base asked askedTaken low taken s) {seq : UInt32}
    {call : PushCall} (hcore : s.core = .pushReq seq call) :
    (s.corePush seq call).Sound base := by
  have hreq := h.req
  have hpending := h.pending
  rw [hcore] at hreq hpending
  have htail := call.step_tail s.req
  unfold Duplex.corePush
  split
  · rename_i ring next hstep
    rw [hstep] at htail
    obtain ⟨-, hnext⟩ := hreq.push_running (fun _ _ hroom => hroom) hstep
    refine ⟨asked, askedTaken, low, taken, ?_⟩
    exact
      { h with
        req := hnext
        reqPop := fun pop hpop => (h.reqPop pop hpop).mono htail fun _ hmessage => hmessage
        rspPop := fun pop hpop => by cases hpop
        pending := hpending }
  · rename_i ring hstep
    rw [hstep] at htail
    rcases hreq.push_returned hstep with ⟨-, -, hnext⟩ | ⟨hagain, -⟩
    · refine ⟨asked ++ [call.message], askedTaken, low, taken, ?_⟩
      exact
        { h with
          req := hnext
          reqPop := fun pop hpop => (h.reqPop pop hpop).mono htail fun message hmessage => by
            rw [List.getElem?_append_left (List.getElem?_eq_some_iff.mp hmessage).1, hmessage]
          rspPop := fun pop hpop => by cases hpop
          pending := hpending }
    · cases hagain
  · rename_i ring status hne hstep
    rcases hreq.push_returned hstep with ⟨hok, -⟩ | ⟨-, rfl, -, hnext⟩
    · exact absurd hok hne
    · refine ⟨asked, askedTaken, low, taken, ?_⟩
      exact
        { h with
          req := hnext
          rspPop := fun pop hpop => by cases hpop
          pending := hpending }

/-- Every access of the core's pop keeps the invariant, and what it returns is
a whole message. -/
theorem corePop (h : DuplexInv base asked askedTaken low taken s) {seq : UInt32}
    {call : PopCall} (hcore : s.core = .popRsp seq call) :
    (s.corePop seq call).Sound base := by
  have hpending := h.pending
  rw [hcore] at hpending
  have hequal : low = taken := hpending
  obtain ⟨hcap, htracks⟩ := h.rspPop call (by rw [hcore]; rfl)
  have hreq : RingInv base asked askedTaken askedTaken s.req none :=
    h.req.set_producer fun call hcall => by cases hcall
  unfold Duplex.corePop
  split
  · rename_i ring next hstep
    obtain ⟨rfl, hsame, hnext⟩ := h.rsp.pop_running htracks hstep
    refine ⟨asked, askedTaken, low, taken, h.set_core (fun call hcall => by cases hcall) ?_ hequal⟩
    intro pop hpop
    cases hpop
    exact ⟨hsame.trans hcap, hnext⟩
  · rename_i ring frame hstep
    rcases h.rsp.pop_returned htracks hstep with ⟨hagain, -⟩ |
      ⟨-, rfl, message, holdest, hdelivers⟩
    · cases hagain
    · obtain ⟨hlt, hget⟩ := List.getElem?_eq_some_iff.mp holdest
      rw [hcap] at hdelivers
      refine ⟨asked, askedTaken, taken + 1, taken + 1, ?_⟩
      refine
        { req := ?_
          reqPop := h.reqPop
          rsp := h.rsp.set_tail (by omega) le_rfl hlt
          rspPop := ?_
          rspDrain := h.rspDrain
          pending := ?_
          whole := ?_ }
      · split <;> exact hreq
      · intro pop hpop
        split at hpop <;> cases hpop
        exact ⟨rfl, trivial⟩
      · split <;> rfl
      · intro other hother
        rcases List.mem_append.mp hother with hold | hnew
        · exact h.whole other hold
        · rw [List.mem_singleton.mp hnew]
          exact ⟨message, List.mem_of_getElem? holdest, hdelivers⟩
  · rename_i ring frame hstep
    rcases h.rsp.pop_returned htracks hstep with ⟨-, rfl, -⟩ | ⟨hok, -⟩
    · exact h.core_between rfl rfl hequal
    · cases hok
  · rename_i ring result hok hagain hstep
    obtain ⟨status, frame⟩ := result
    rcases h.rsp.pop_returned htracks hstep with ⟨rfl, -⟩ | ⟨rfl, -⟩
    · exact absurd rfl (hagain frame)
    · exact absurd rfl (hok frame)

/-! ### Moves of the adapter -/

/-- The adapter moves on without touching a ring or disposing of a request. -/
theorem set_adapter (h : DuplexInv base asked askedTaken low taken s) {adapter : AdapterPc}
    {semReq semRsp : ℕ}
    (hpushing : ∀ call, adapter.pushing = some call → ¬ call.Filling ∧ call.Progress s.rsp)
    (hpopping : ∀ call, adapter.popping = some call → call.Tracks s.req asked[askedTaken]?)
    (hdrain : ∀ head, adapter = .drainRsp (.storeTail head) → head = s.rsp.head)
    (hhand : adapter.hand = s.adapter.hand) :
    DuplexInv base asked askedTaken low taken
      { s with adapter := adapter, semReq := semReq, semRsp := semRsp } where
  req := h.req
  reqPop := hpopping
  rsp := h.rsp.set_producer hpushing
  rspPop := h.rspPop
  rspDrain := hdrain
  pending := by
    simp only [hhand]
    exact h.pending
  whole := h.whole

/-- The adapter moves on to a place where it has not begun a push, a pop or a drain. -/
theorem adapter_between (h : DuplexInv base asked askedTaken low taken s) {adapter : AdapterPc}
    {semReq semRsp : ℕ} (hpushing : adapter.pushing = none) (hpopping : adapter.popping = none)
    (hdrain : ∀ head, adapter ≠ .drainRsp (.storeTail head))
    (hhand : adapter.hand = s.adapter.hand) :
    Duplex.Sound base { s with adapter := adapter, semReq := semReq, semRsp := semRsp } := by
  refine ⟨asked, askedTaken, low, taken, h.set_adapter ?_ ?_ ?_ hhand⟩
  · intro call hcall
    cases hpushing.symm.trans hcall
  · intro call hcall
    cases hpopping.symm.trans hcall
  · intro head hhead
    exact absurd hhead (hdrain head)

/-- The adapter starts its pop or moves on in it. -/
theorem adapter_popping (h : DuplexInv base asked askedTaken low taken s) {call : PopCall}
    {semReq semRsp : ℕ} (htracks : call.Tracks s.req asked[askedTaken]?)
    (hhand : (AdapterPc.popReq call).hand = s.adapter.hand) :
    Duplex.Sound base
      { s with adapter := .popReq call, semReq := semReq, semRsp := semRsp } := by
  refine ⟨asked, askedTaken, low, taken, h.set_adapter (fun call hcall => by cases hcall) ?_
    (fun head hhead => by cases hhead) hhand⟩
  intro pop hpop
  cases hpop
  exact htracks

/-- Every access of the adapter's pop keeps the invariant. Taking a request
moves it from the ring to the adapter's hand. -/
theorem adapterPop (h : DuplexInv base asked askedTaken low taken s) {call : PopCall}
    (hadapter : s.adapter = .popReq call) : (s.adapterPop call).Sound base := by
  have htracks := h.reqPop call (by rw [hadapter]; rfl)
  have hpending := h.pending
  rw [hadapter] at hpending
  unfold Duplex.adapterPop
  split
  · rename_i ring next hstep
    obtain ⟨rfl, -, hnext⟩ := h.req.pop_running htracks hstep
    exact h.adapter_popping hnext (by rw [hadapter]; rfl)
  · rename_i ring frame hstep
    rcases h.req.pop_returned htracks hstep with ⟨hagain, -⟩ | ⟨-, rfl, message, holdest, -⟩
    · cases hagain
    · obtain ⟨hlt, -⟩ := List.getElem?_eq_some_iff.mp holdest
      have houtstanding : asked.length - (askedTaken + 1) + 1 = asked.length - askedTaken := by
        omega
      refine ⟨asked, askedTaken + 1, low, taken, ?_⟩
      exact
        { req := h.req.set_tail (by omega) le_rfl hlt
          reqPop := fun pop hpop => by cases hpop
          rsp := h.rsp.set_producer fun call hcall => by cases hcall
          rspPop := h.rspPop
          rspDrain := fun head hhead => by cases hhead
          pending := by
            simp only [AdapterPc.hand, houtstanding]
            exact hpending
          whole := h.whole }
  · rename_i ring result hok hstep
    obtain ⟨status, frame⟩ := result
    rcases h.req.pop_returned htracks hstep with ⟨-, rfl, -⟩ | ⟨rfl, -⟩
    · exact h.adapter_between rfl rfl (fun _ hdrain => by cases hdrain) (by rw [hadapter]; rfl)
    · exact absurd rfl (hok frame)

/-- Every access of the adapter's push keeps the invariant. -/
theorem adapterPush (h : DuplexInv base asked askedTaken low taken s) {call : PushCall}
    (hadapter : s.adapter = .pushRsp call) : (s.adapterPush call).Sound base := by
  have hrsp := h.rsp
  have hpending := h.pending
  rw [hadapter] at hrsp hpending
  have htail := call.step_tail s.rsp
  unfold Duplex.adapterPush
  split
  · rename_i ring next hstep
    rw [hstep] at htail
    obtain ⟨-, hnext⟩ := hrsp.push_running (fun _ _ hroom => hpending.room hroom) hstep
    refine ⟨asked, askedTaken, low, taken, ?_⟩
    exact
      { h with
        reqPop := fun pop hpop => by cases hpop
        rsp := hnext
        rspPop := fun pop hpop =>
          ⟨(h.rspPop pop hpop).1, (h.rspPop pop hpop).2.mono htail fun _ hmessage => hmessage⟩
        rspDrain := fun head hhead => by cases hhead
        pending := hpending }
  · rename_i ring hstep
    rw [hstep] at htail
    rcases hrsp.push_returned hstep with ⟨-, -, hnext⟩ | ⟨hagain, -⟩
    · refine ⟨asked, askedTaken, low, taken, ?_⟩
      refine
        { req := h.req
          reqPop := fun pop hpop => by cases hpop
          rsp := hnext
          rspPop := fun pop hpop => ⟨(h.rspPop pop hpop).1, ?_⟩
          rspDrain := fun head hhead => by cases hhead
          pending := ?_
          whole := ?_ }
      · refine (h.rspPop pop hpop).2.mono htail fun message hmessage => ?_
        rw [List.getElem?_append_left (List.getElem?_eq_some_iff.mp hmessage).1, hmessage]
      · rw [List.length_append, List.length_singleton]
        exact hpending.publish
      · intro frame hframe
        obtain ⟨message, hmem, hdelivers⟩ := h.whole frame hframe
        exact ⟨message, List.mem_append_left _ hmem, hdelivers⟩
    · cases hagain
  · rename_i ring status hne hstep
    rcases hrsp.push_returned hstep with ⟨hok, -⟩ | ⟨-, rfl, -, -⟩
    · exact absurd hok hne
    · exact h.adapter_between rfl rfl (fun _ hdrain => by cases hdrain) (by rw [hadapter]; rfl)

/-- Every access of the adapter's drain keeps the invariant, provided its tail
store does not fall inside a pop of the core. -/
theorem adapterDrain (h : DuplexInv base asked askedTaken low taken s) {call : DrainCall}
    (hadapter : s.adapter = .drainRsp call) (hapart : s.DrainApart .adapter) :
    (s.adapterDrain call).Sound base := by
  cases call with
  | loadHead =>
      refine ⟨asked, askedTaken, low, taken, h.set_adapter (fun call hcall => by cases hcall)
        (fun call hcall => by cases hcall) ?_ (by rw [hadapter]; rfl)⟩
      intro head hhead
      cases hhead
      rfl
  | storeTail head =>
      have hhead := h.rspDrain head hadapter
      subst hhead
      have hpending := h.pending
      rw [hadapter] at hpending
      obtain ⟨floor, hlow, hfloor, hdrained⟩ := hpending.drained h.rsp.taken_le
      have hfree := hapart rfl (by simp [Duplex.adapterStoresTail, hadapter])
      have hrsp := h.rsp.set_tail hlow hfloor le_rfl
      rw [← h.rsp.head_eq] at hrsp
      refine ⟨asked, askedTaken, floor, s.sent.length, ?_⟩
      refine
        { req := h.req
          reqPop := fun pop hpop => by cases hpop
          rsp := hrsp.set_producer fun call hcall => by cases hcall
          rspPop := fun pop hpop => ⟨(h.rspPop pop hpop).1, ?_⟩
          rspDrain := fun head hhead => by cases hhead
          pending := hdrained
          whole := h.whole }
      -- A pop that has not loaded the tail depends on nothing yet.
      have hloading := Duplex.pc_of_not_coreHoldsTail hfree hpop
      simp [PopCall.Tracks, hloading]

/-- The core's next operation keeps the invariant. -/
theorem coreStep (h : DuplexInv base asked askedTaken low taken s) {next : Duplex}
    (hstep : s.coreStep = some next) : next.Sound base := by
  have hpending := h.pending
  unfold Duplex.coreStep at hstep
  split at hstep
  · cases hstep
  · cases hstep
    exact h.coreDrain ‹_›
  · rename_i seq out hcore
    rw [hcore] at hpending
    split at hstep
    · cases hstep
      refine ⟨asked, askedTaken, low, taken, ?_⟩
      exact { h with }
    · split at hstep
      · rename_i call hbegin
        cases hstep
        refine ⟨asked, askedTaken, low, taken, h.set_core ?_ (fun call hcall => by cases hcall)
          hpending⟩
        intro push hpush
        cases hpush
        exact pushBegin_running hbegin s.req
      · cases hstep
        exact h.core_between rfl rfl hpending
  · cases hstep
    exact h.corePush ‹_›
  · rename_i seq hcore
    rw [hcore] at hpending
    cases hstep
    exact h.core_between rfl rfl hpending
  · rename_i seq hcore
    rw [hcore] at hpending
    split at hstep
    · cases hstep
      refine ⟨asked, askedTaken, low, taken, h.set_core (fun call hcall => by cases hcall) ?_
        hpending⟩
      intro pop hpop
      cases hpop
      exact ⟨rfl, trivial⟩
    · cases hstep
  · cases hstep
    exact h.corePop ‹_›

/-- The adapter's next operation keeps the invariant. -/
theorem adapterStep (h : DuplexInv base asked askedTaken low taken s) {next : Duplex}
    (hapart : s.DrainApart .adapter) (hstep : s.adapterStep = some next) :
    next.Sound base := by
  unfold Duplex.adapterStep at hstep
  split at hstep
  · rename_i hadapter
    split at hstep
    · cases hstep
      exact h.adapter_popping trivial (by rw [hadapter]; rfl)
    · cases hstep
  · cases hstep
    exact h.adapterPop ‹_›
  · cases hstep
  · cases hstep
    exact h.adapterPush ‹_›
  · cases hstep
    exact h.adapterDrain ‹_› hapart
  · rename_i hadapter
    cases hstep
    exact h.adapter_between rfl rfl (fun _ hdrain => by cases hdrain) (by rw [hadapter]; rfl)

/-- The invariant implies ring integrity. -/
theorem intact (h : DuplexInv base asked askedTaken low taken s) : s.Intact where
  req_count := h.req.count_le
  rsp_count := h.rsp.count_le
  whole := h.whole
  apart := by
    intro pop push readCursor writeCursor hpop hpush hread hwrite
    obtain ⟨-, htracks⟩ := h.rspPop pop hpop
    obtain ⟨hreads, message, holdest⟩ := htracks.of_slotRead hread
    obtain ⟨hwrites, hfilling⟩ := (h.rsp.progress push hpush).of_slotWrite hwrite
    obtain ⟨hlt, -⟩ := List.getElem?_eq_some_iff.mp holdest
    rw [hreads, hwrites, h.rsp.tail_eq, slotIndex_wrap]
    exact (h.rsp.slotIndex_head_ne (h.rsp.free push hpush hfilling) h.rsp.low_le hlt).symm

end DuplexInv

namespace Duplex

/-- One move that keeps the drain apart keeps the invariant. -/
theorem Sound.step {base : ℕ} {s next : Duplex} {act : DuplexAct} (h : s.Sound base)
    (hapart : s.DrainApart act) (hstep : s.step act = some next) : next.Sound base := by
  obtain ⟨asked, askedTaken, low, taken, hinv⟩ := h
  have hpending := hinv.pending
  cases act with
  | exchange out =>
      simp only [Duplex.step] at hstep
      split at hstep
      · rename_i hcore
        rw [hcore] at hpending
        split at hstep
        · cases hstep
          exact hinv.core_between rfl rfl hpending
        · cases hstep
      · cases hstep
  | core => exact hinv.coreStep hstep
  | timeout =>
      simp only [Duplex.step] at hstep
      split at hstep
      · rename_i hcore
        rw [hcore] at hpending
        cases hstep
        exact hinv.core_between rfl rfl hpending
      · cases hstep
  | adapter => exact hinv.adapterStep hapart hstep
  | reply flags payload =>
      simp only [Duplex.step] at hstep
      split at hstep
      · rename_i frame hadapter
        split at hstep
        · rename_i call hbegin
          cases hstep
          refine ⟨asked, askedTaken, low, taken, hinv.set_adapter ?_
            (fun call hcall => by cases hcall) (fun head hhead => by cases hhead)
            (by rw [hadapter]; rfl)⟩
          intro push hpush
          cases hpush
          exact pushBegin_running hbegin s.rsp
        · cases hstep
      · cases hstep

/-- **Ring integrity while the drain keeps apart.** In every run in which the
adapter never stores the reply tail inside a pop of the core, both rings keep
their bound, every frame the core popped is one whole reply, and no slot is
written while it is being read. -/
theorem intact_of_drainApart (schedule : List DuplexAct) (s : Duplex)
    (hapart : Meets step DrainApart start schedule) (hrun : exec step start schedule = some s) :
    s.Intact := by
  have hsound : s.Sound 0 :=
    exec_invariant (fun _ _ _ hinv hapart hstep => Sound.step hinv hapart hstep)
      ⟨[], 0, 0, 0, DuplexInv.start⟩ hapart hrun
  obtain ⟨asked, askedTaken, low, taken, hinv⟩ := hsound
  exact hinv.intact

/-- Five exchanges are given up before the adapter answers. Its fifth reply finds the
ring full, so it drains it, between two exchanges of the core. The sixth exchange is
answered. -/
def drainedBetween : List DuplexAct :=
  abandoned ++ taking ++ abandoned ++ abandoned ++ abandoned ++ abandoned ++
    answering 1 ++ taking ++ answering 2 ++ taking ++ answering 3 ++ taking ++ answering 4 ++
    taking ++ (.reply 0 [5] :: List.replicate 4 .adapter) ++
    (.exchange [] :: List.replicate 14 .core) ++ taking ++ answering 6 ++ List.replicate 8 .core

theorem intact_of_drainApart_drainedBetween :
    ∃ s, exec step start drainedBetween = some s ∧ s.received.map Frame.seq = [6] ∧
      s.sent.map Message.seq = [1, 2, 3, 4, 6] ∧ s.Intact := by
  have hview : (exec step start drainedBetween).map
      (fun s => (s.received.map Frame.seq, s.sent.map Message.seq)) =
      some ([6], [1, 2, 3, 4, 6]) := by
    decide +kernel
  obtain ⟨s, hrun, hvalues⟩ := Option.map_eq_some_iff.mp hview
  obtain ⟨hreceived, hsent⟩ := Prod.mk.inj hvalues
  have hapart : Meets step DrainApart start drainedBetween := by decide +kernel
  exact ⟨s, hrun, hreceived, hsent, intact_of_drainApart drainedBetween s hapart hrun⟩

/-- **The drain breaks the ring.** At the end of `mixing` the exchange has
returned with sequence number 6, the one it was waiting for, and the payload of
reply 1. No completed push sent that frame. -/
theorem mixing_not_intact :
    ∃ s frame, exec step start mixing = some s ∧ s.core = .idle ∧ s.received = [frame] ∧
      frame.seq = 6 ∧ frame.data.take frame.len.toNat = [1] ∧
      s.sent.map (fun message => (message.seq, message.payload)) =
        [(1, [1]), (2, [2]), (3, [3]), (4, [4])] ∧ ¬ s.Intact := by
  have hview : (exec step start mixing).map (fun s =>
      (s.core, s.received.map fun frame => (frame.seq, frame.data.take frame.len.toNat),
        s.sent.map fun message => (message.seq, message.payload))) =
      some (.idle, [(6, [1])], [(1, [1]), (2, [2]), (3, [3]), (4, [4])]) := by
    decide +kernel
  obtain ⟨s, hrun, hvalues⟩ := Option.map_eq_some_iff.mp hview
  simp only [Prod.mk.injEq] at hvalues
  obtain ⟨hcore, hreceived, hsent⟩ := hvalues
  obtain ⟨frame, hframe, hfields⟩ := List.map_eq_singleton_iff.mp hreceived
  obtain ⟨hseq, hpayload⟩ := Prod.mk.inj hfields
  refine ⟨s, frame, hrun, hcore, hframe, hseq, hpayload, hsent, fun hintact => ?_⟩
  obtain ⟨message, hmem, hdelivers⟩ := hintact.whole frame (by simp [hframe])
  have hlisted := List.mem_map_of_mem (f := fun m : Message => (m.seq, m.payload)) hmem
  rw [hsent, ← hdelivers.seq_eq, hseq] at hlisted
  simp at hlisted

end Duplex

end SoftPlc.Ipc
