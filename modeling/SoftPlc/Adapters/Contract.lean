/-
# One failsafe rule for all adapters

The loopback adapter, the adapter-role proxy and the scanner-role proxy each
carry their own copy of the failsafe escalation. This module puts them behind
the vtable they share and shows that all three follow the same rule.

The copies differ in which state they enter inside the window, and only one of
them always leaves `FAULTED` there. The difference never shows: as long as the
clock does not go backwards, a faulted adapter stays past the window until
something fresh arrives. That is the one invariant the comparison needs.
-/

import SoftPlc.Adapters.FailsafeRule
import SoftPlc.Adapters.Loopback
import SoftPlc.Adapters.Proxy

namespace SoftPlc.Adapters

open SoftPlc.Math SoftPlc.Ipc

/-- The fields of an adapter's record that the rule is about. -/
structure Record where
  caps : AdapterCaps
  stats : AdapterStats
  state : AdapterState
  stale : Staleness
  openedUs : ℕ
  lastGood : List Byte

/-- A record that stands where the rule stands. -/
structure Tracks (record : Record) (rule : RuleState) : Prop where
  origin : (if record.stale.haveGood then record.stale.lastGoodUs else record.openedUs) =
    rule.since
  positive : 0 < rule.since
  image : record.lastGood.take record.caps.inputBytes = rule.lastFresh
  room : record.caps.inputBytes ≤ record.lastGood.length
  opened : record.state ≠ .closed
  faulted : record.state = .faulted ↔ rule.faulted = true
  past : rule.faulted = true → record.caps.failsafeTimeoutUs ≤ rule.clock - rule.since
  activations : record.stats.failsafeActivations = rule.activations
  exchanges : record.stats.exchanges = rule.exchanges
  timeouts : record.stats.timeouts = rule.timeouts

namespace Tracks

variable {record : Record} {rule : RuleState}

/-- One step of the rule under the record's parameters. -/
abbrev next (record : Record) (rule : RuleState) (event : Event) : RuleState × List Byte :=
  ruleStep record.caps.failsafePolicy record.caps.failsafeTimeoutUs record.caps.inputBytes rule
    event

/-- The age an adapter computes is the rule's. -/
theorem age_eq (h : Tracks record rule) (now : ℕ) :
    plcStalenessAgeUs record.stale record.openedUs now = now - rule.since :=
  plcStalenessAgeUs_eq_sub h.origin h.positive

/-- Inside the window a record is not faulted. -/
theorem not_faulted (h : Tracks record rule) {now : ℕ} (hclock : rule.clock ≤ now)
    (hwithin : ¬ record.caps.failsafeTimeoutUs ≤ now - rule.since) :
    record.state ≠ .faulted := by
  intro hstate
  have hpast := h.past (h.faulted.mp hstate)
  omega

/-- The image a policy writes over the caller's buffer is the rule's. -/
theorem applyFailsafe (h : Tracks record rule) (policy : FailsafePolicy) {input : List Byte}
    (hinput : input.length = record.caps.inputBytes) :
    plcAdapterApplyFailsafe policy input record.lastGood input.length =
      failsafeImage policy record.caps.inputBytes rule.lastFresh := by
  rw [plcAdapterApplyFailsafe_eq policy rfl, hinput, h.image]
  cases policy <;> rfl

/-- The last fresh image has the size of the input image. -/
theorem lastFresh_length (h : Tracks record rule) :
    rule.lastFresh.length = record.caps.inputBytes := by
  rw [← h.image]
  exact List.length_take_of_le h.room

/-- So has what the policy makes of it. -/
theorem failsafeImage_length (h : Tracks record rule) (policy : FailsafePolicy) :
    (failsafeImage policy record.caps.inputBytes rule.lastFresh).length =
      record.caps.inputBytes := by
  cases policy with
  | hold => exact h.lastFresh_length
  | clear => exact List.length_replicate

end Tracks

/-- Following the rule for one exchange: the rule's image, all of it written, and
a record that stands where the rule now stands. -/
structure Follows (before after : Record) (rule : RuleState) (event : Event)
    (image : List Byte) : Prop where
  image_eq : image = (Tracks.next before rule event).2
  written : image.length = before.caps.inputBytes
  tracks : Tracks after (Tracks.next before rule event).1
  caps_eq : after.caps = before.caps

/-- What every copy of the escalation does on a miss, field by field. Inside the
window the copies choose the state differently; none enters `FAULTED`. -/
structure Escalates (before after : Record) (input image : List Byte) (now : ℕ) : Prop where
  caps_eq : after.caps = before.caps
  stale_eq : after.stale = before.stale
  opened_eq : after.openedUs = before.openedUs
  lastGood_eq : after.lastGood = before.lastGood
  exchanges_eq : after.stats.exchanges = before.stats.exchanges
  timeouts_eq : after.stats.timeouts = before.stats.timeouts + 1
  past : before.caps.failsafeTimeoutUs ≤
      plcStalenessAgeUs before.stale before.openedUs now →
    after.state = .faulted ∧
      after.stats.failsafeActivations =
        before.stats.failsafeActivations + (if before.state = .faulted then 0 else 1) ∧
      image = plcAdapterApplyFailsafe before.caps.failsafePolicy input before.lastGood
        input.length
  within : ¬ before.caps.failsafeTimeoutUs ≤
      plcStalenessAgeUs before.stale before.openedUs now →
    (before.state ≠ .closed → after.state ≠ .closed) ∧
      (before.state ≠ .faulted → after.state ≠ .faulted) ∧
      after.stats.failsafeActivations = before.stats.failsafeActivations ∧
      image = plcAdapterApplyFailsafe .hold input before.lastGood input.length

/-- What every adapter does with a fresh image, field by field. -/
structure Refreshes (before after : Record) (image : List Byte) (now : ℕ) : Prop where
  caps_eq : after.caps = before.caps
  stale_eq : after.stale = plcStalenessMarkFresh now
  lastGood_eq : after.lastGood = memcpy before.lastGood 0 image before.caps.inputBytes
  exchanges_eq : after.stats.exchanges = before.stats.exchanges + 1
  timeouts_eq : after.stats.timeouts = before.stats.timeouts
  activations_eq : after.stats.failsafeActivations = before.stats.failsafeActivations
  opened : after.state ≠ .closed
  not_faulted : after.state ≠ .faulted

section Follows

variable {before after : Record} {rule : RuleState} {input image : List Byte} {now : ℕ}

/-- An escalation does not close the adapter. -/
theorem Escalates.opened (h : Escalates before after input image now)
    (hopened : before.state ≠ .closed) : after.state ≠ .closed := by
  by_cases hage : before.caps.failsafeTimeoutUs ≤
      plcStalenessAgeUs before.stale before.openedUs now
  · rw [(h.past hage).1]
    exact nofun
  · exact (h.within hage).1 hopened

/-- After an escalation the record stands at a rule that counted one more miss,
whatever it then says of the fault. -/
theorem Escalates.tracks (h : Escalates before after input image now)
    (htracks : Tracks before rule) {faulted : Bool} {activations : ℕ}
    (hfaulted : after.state = .faulted ↔ faulted = true)
    (hpast : faulted = true → before.caps.failsafeTimeoutUs ≤ now - rule.since)
    (hactivations : after.stats.failsafeActivations = activations) :
    Tracks after
      { rule with
        faulted := faulted
        activations := activations
        timeouts := rule.timeouts + 1
        clock := now } where
  origin := by
    rw [h.stale_eq, h.opened_eq]
    exact htracks.origin
  positive := htracks.positive
  image := by
    rw [h.caps_eq, h.lastGood_eq]
    exact htracks.image
  room := by
    rw [h.caps_eq, h.lastGood_eq]
    exact htracks.room
  opened := h.opened htracks.opened
  faulted := hfaulted
  past := by
    rw [h.caps_eq]
    exact hpast
  activations := hactivations
  exchanges := h.exchanges_eq.trans htracks.exchanges
  timeouts := h.timeouts_eq.trans (congrArg (· + 1) htracks.timeouts)

/-- The escalation follows the rule. -/
theorem Escalates.follows (h : Escalates before after input image now)
    (htracks : Tracks before rule) (hclock : rule.clock ≤ now)
    (hinput : input.length = before.caps.inputBytes) :
    Follows before after rule ⟨.miss, now⟩ image := by
  have hpast := h.past
  have hwithin := h.within
  rw [htracks.age_eq] at hpast hwithin
  by_cases hage : before.caps.failsafeTimeoutUs ≤ now - rule.since
  · obtain ⟨hstate, hactivations, hwritten⟩ := hpast hage
    have hcount : after.stats.failsafeActivations =
        rule.activations + if rule.faulted then 0 else 1 := by
      rw [hactivations, htracks.activations]
      congr 1
      exact if_congr htracks.faulted rfl rfl
    have hnext : Tracks.next before rule ⟨.miss, now⟩ =
        ({ rule with
            faulted := true
            activations := rule.activations + if rule.faulted then 0 else 1
            timeouts := rule.timeouts + 1
            clock := now },
          failsafeImage before.caps.failsafePolicy before.caps.inputBytes rule.lastFresh) :=
      if_pos hage
    have happlied := htracks.applyFailsafe before.caps.failsafePolicy hinput
    refine ⟨?_, ?_, ?_, h.caps_eq⟩
    · rw [hnext, hwritten, happlied]
    · rw [hwritten, happlied]
      exact htracks.failsafeImage_length _
    · rw [hnext]
      exact h.tracks htracks (by simp [hstate]) (fun _ => hage) hcount
  · obtain ⟨-, hstate, hactivations, hwritten⟩ := hwithin hage
    have hnext : Tracks.next before rule ⟨.miss, now⟩ =
        ({ rule with faulted := false, timeouts := rule.timeouts + 1, clock := now },
          rule.lastFresh) :=
      if_neg hage
    have hnot := hstate (htracks.not_faulted hclock hage)
    have happlied := htracks.applyFailsafe .hold hinput
    refine ⟨?_, ?_, ?_, h.caps_eq⟩
    · rw [hnext, hwritten, happlied]
      rfl
    · rw [hwritten, happlied]
      exact htracks.failsafeImage_length .hold
    · rw [hnext]
      exact h.tracks htracks (by simp [hnot]) (fun hfault => by cases hfault)
        (hactivations.trans htracks.activations)

/-- Storing a fresh image follows the rule. -/
theorem Refreshes.follows (h : Refreshes before after image now) (htracks : Tracks before rule)
    (hnow : 0 < now) (himage : image.length = before.caps.inputBytes) :
    Follows before after rule ⟨.fresh image, now⟩ image := by
  have hroom := htracks.room
  have hsrc : before.caps.inputBytes ≤ image.length := Nat.le_of_eq himage.symm
  refine ⟨rfl, himage, ?_, h.caps_eq⟩
  exact
    { origin := by rw [h.stale_eq]; rfl
      positive := hnow
      image := by
        rw [h.caps_eq, h.lastGood_eq, take_memcpy_zero _ hsrc, ← himage]
        exact List.take_length
      room := by
        rw [h.caps_eq, h.lastGood_eq, memcpy_zero_length hsrc hroom]
        exact hroom
      opened := h.opened
      faulted := by simp [h.not_faulted, ruleStep]
      past := nofun
      activations := h.activations_eq.trans htracks.activations
      exchanges := h.exchanges_eq.trans (congrArg (· + 1) htracks.exchanges)
      timeouts := h.timeouts_eq.trans htracks.timeouts }

end Follows

/-! ## The three copies -/

/-- The rule's view of a proxy. -/
def Proxy.record (proxy : Proxy) : Record :=
  { caps := proxy.caps.toAdapterCaps
    stats := proxy.stats
    state := proxy.state
    stale := proxy.stale
    openedUs := proxy.openedUs
    lastGood := proxy.lastGood }

/-- The rule's view of the loopback adapter. -/
def Loopback.record (impl : Loopback) : Record :=
  { caps := impl.caps.toAdapterCaps
    stats := impl.stats
    state := impl.state
    stale := impl.stale
    openedUs := impl.openedUs
    lastGood := impl.lastGood }

/-- The proxies' `proxy_fail`. -/
theorem proxyFail_escalates (proxy : Proxy) (input : List Byte) (reason : PlcStatus) (now : ℕ) :
    Escalates proxy.record (proxyFail proxy input reason now).1.record input
      (proxyFail proxy input reason now).2.2 now := by
  by_cases hpast : proxy.caps.failsafeTimeoutUs ≤
      plcStalenessAgeUs proxy.stale proxy.openedUs now
  · by_cases hstate : proxy.state = .faulted
    · constructor <;> simp [proxyFail, Proxy.record, hpast, hstate]
    · constructor <;> simp [proxyFail, Proxy.record, hpast, hstate]
  · constructor <;> simp [proxyFail, Proxy.record, hpast]
    constructor <;> intro hstate <;> split_ifs <;> simp_all

/-- Every kind of miss of a proxy escalates. A protocol error is counted first, in
a counter the rule does not speak of. -/
theorem proxyMiss_escalates (proxy : Proxy) (input : List Byte) (miss : Miss) (now : ℕ) :
    Escalates proxy.record (proxyMiss proxy input miss now).1.record input
      (proxyMiss proxy input miss now).2.2 now := by
  cases miss with
  | timeout => exact proxyFail_escalates proxy input .errTimeout now
  | io => exact { proxyFail_escalates (countProtocolError proxy) input .errIo now with }
  | proto => exact { proxyFail_escalates (countProtocolError proxy) input .errProto now with }

/-- The injected timeout of the loopback adapter. -/
theorem lbMiss_escalates (impl : Loopback) (input : List Byte) (now : ℕ) :
    Escalates impl.record (lbMiss impl input now).1.record input
      (lbMiss impl input now).2.2 now := by
  by_cases hpast : impl.caps.failsafeTimeoutUs ≤
      plcStalenessAgeUs impl.stale impl.openedUs now
  · by_cases hstate : impl.state = .faulted
    · constructor <;> simp [lbMiss, Loopback.record, hpast, hstate]
    · constructor <;> simp [lbMiss, Loopback.record, hpast, hstate]
  · constructor <;> simp [lbMiss, Loopback.record, hpast]

/-- What both proxies do with a matched reply. -/
theorem proxyFresh_refreshes (proxy : Proxy) (frame : Frame) {input : List Byte}
    (times : Times) {state : AdapterState} (hinput : input.length = proxy.caps.inputBytes)
    (hopened : state ≠ .closed) (hstate : state ≠ .faulted) :
    Refreshes proxy.record
      (Proxy.record { (proxyFresh proxy frame input times).1 with state := state })
      (replyImage frame input) times.finish where
  caps_eq := rfl
  stale_eq := rfl
  lastGood_eq := by
    simp only [proxyFresh, Proxy.record, hinput]
  exchanges_eq := rfl
  timeouts_eq := rfl
  activations_eq := rfl
  opened := hopened
  not_faulted := hstate

/-- The fresh branch of the loopback adapter. -/
theorem lbFresh_refreshes (impl : Loopback) (out : List Byte) {input : List Byte} (now : ℕ)
    (hinput : input.length = impl.caps.inputBytes) :
    Refreshes impl.record (lbFresh impl out input now).1.record
      (lbFresh impl out input now).2.2 now where
  caps_eq := rfl
  stale_eq := rfl
  lastGood_eq := by
    simp only [lbFresh, Loopback.record, hinput]
  exchanges_eq := rfl
  timeouts_eq := rfl
  activations_eq := rfl
  opened := nofun
  not_faulted := nofun

/-! ## Behind the vtable -/

/-- An open `plc_protocol_adapter_t`. -/
inductive Adapter
  | loopback (impl : Loopback)
  | eip (proxy : Proxy)
  | scanner (proxy : Proxy)
  deriving DecidableEq

/-- What the peer of a proxy does during an exchange: a matched reply, with the
number of devices it reports online, or a miss. -/
inductive Peer
  | replies (frame : Frame) (devicesOnline : ℕ)
  | silent (miss : Miss)
  deriving DecidableEq, Repr

/-- One call of `exchange` with its surroundings. The test hook applies to the
loopback adapter before the call, the peer to the proxies. -/
structure Call where
  out : List Byte
  input : List Byte
  times : Times
  peer : Peer
  hook : Option ℕ
  deriving DecidableEq, Repr

namespace Adapter

/-- The loopback adapter as the call finds it. -/
def hooked (impl : Loopback) (call : Call) : Loopback :=
  match call.hook with
  | some count => plcLoopbackForceTimeouts impl count
  | none => impl

/-- A proxy past its argument checks ends its exchange. -/
def proxyEnd (finish : Proxy → Frame → ℕ → Proxy × PlcStatus × List Byte) (proxy : Proxy)
    (call : Call) : Proxy × PlcStatus × List Byte :=
  match proxyAdmits proxy call.out.length call.input.length with
  | some status => (proxy, status, call.input)
  | none =>
      let counted : Proxy := { proxy with nextSeq := proxy.nextSeq + 1 }
      match call.peer with
      | .replies frame devicesOnline => finish counted frame devicesOnline
      | .silent miss => proxyMiss counted call.input miss call.times.finish

/-- `proxy_exchange` of the adapter role, as its peer lets it end. -/
def eipExchange (proxy : Proxy) (call : Call) : Proxy × PlcStatus × List Byte :=
  proxyEnd (fun counted frame _ => eipProxyFinish counted frame call.input call.times) proxy call

/-- `proxy_exchange` of the scanner role. -/
def scannerExchange (proxy : Proxy) (call : Call) : Proxy × PlcStatus × List Byte :=
  proxyEnd
    (fun counted frame devicesOnline =>
      scannerProxyFinish counted frame call.input call.times devicesOnline) proxy call

/-- `plc_adapter_exchange` through the vtable. -/
def exchange (adapter : Adapter) (call : Call) : Adapter × PlcStatus × List Byte :=
  match adapter with
  | .loopback impl =>
      let result := lbExchange (hooked impl call) call.out call.input call.times.finish
      (.loopback result.1, result.2)
  | .eip proxy =>
      let result := eipExchange proxy call
      (.eip result.1, result.2)
  | .scanner proxy =>
      let result := scannerExchange proxy call
      (.scanner result.1, result.2)

/-- The record behind the vtable. -/
def record : Adapter → Record
  | .loopback impl => impl.record
  | .eip proxy => proxy.record
  | .scanner proxy => proxy.record

/-- What a call brings: a fresh image, or a miss. -/
def outcome (adapter : Adapter) (call : Call) : Outcome :=
  match adapter with
  | .loopback impl =>
      if (hooked impl call).forceTimeouts ≠ 0 then .miss
      else .fresh ((lbMirror impl call.out).take call.input.length)
  | .eip _ | .scanner _ =>
      match call.peer with
      | .replies frame _ => .fresh (replyImage frame call.input)
      | .silent _ => .miss

/-- A call as the rule sees it. -/
def event (adapter : Adapter) (call : Call) : Event :=
  ⟨adapter.outcome call, call.times.finish⟩

/-- The image a call returns, as a machine. -/
def answer (adapter : Adapter) (call : Call) : Adapter × List Byte :=
  ((adapter.exchange call).1, (adapter.exchange call).2.2)

/-- The adapter role is the only one that reads the flags of a reply. -/
def readsFlags : Adapter → Bool
  | .eip _ => true
  | .loopback _ | .scanner _ => false

/-- The mirror keeps the size it was allocated with. -/
def Sized : Adapter → Prop
  | .loopback impl => impl.mirror.length = loopbackMaxBytes
  | .eip _ | .scanner _ => True

/-- The test hook changes nothing the rule is about. -/
theorem hooked_record (impl : Loopback) (call : Call) :
    (hooked impl call).record = impl.record := by
  unfold hooked
  split <;> rfl

theorem hooked_mirror (impl : Loopback) (call : Call) :
    (hooked impl call).mirror = impl.mirror := by
  unfold hooked
  split <;> rfl

theorem hooked_caps (impl : Loopback) (call : Call) : (hooked impl call).caps = impl.caps := by
  unfold hooked
  split <;> rfl

end Adapter

/-! ## One exchange follows the rule -/

/-- A call as the core makes it: outputs within bounds, an input buffer of the
full size, and a reply that is a frame. -/
structure Fits (caps : AdapterCaps) (call : Call) : Prop where
  out_le : call.out.length ≤ caps.outputBytes
  input_eq : call.input.length = caps.inputBytes
  frame_ok : ∀ frame devicesOnline, call.peer = .replies frame devicesOnline →
    frame.len.toNat ≤ frame.data.length

/-- A call whose outcome is a fresh image or a miss: at a positive clock reading
and, where flags are read, without a reply flagged invalid. -/
structure Admissible (caps : AdapterCaps) (readsFlags : Bool) (call : Call) : Prop
    extends Fits caps call where
  positive : 0 < call.times.finish
  unflagged : readsFlags = true → ∀ frame devicesOnline,
    call.peer = .replies frame devicesOnline → frame.flags &&& plcIpcFrameDataInvalid = 0

section Exchange

variable {rule : RuleState} {call : Call} {readsFlags : Bool}

/-- The mirror keeps its size under outputs within bounds. -/
theorem lbMirror_length {impl : Loopback} (hmirror : impl.mirror.length = loopbackMaxBytes)
    (hcall : Fits impl.caps.toAdapterCaps call) :
    (lbMirror impl call.out).length = loopbackMaxBytes := by
  have hfits : call.out.length ≤ impl.mirror.length := by
    rw [hmirror]
    exact Nat.le_trans hcall.out_le impl.caps.output_le
  rw [lbMirror, memcpy_zero_length (Nat.le_refl _) hfits, hmirror]

/-- A call that fits reaches the branches of `lb_exchange` that exchange. -/
theorem lbExchange_admitted {impl : Loopback} (hopened : impl.state ≠ .closed)
    (hcall : Fits impl.caps.toAdapterCaps call) :
    lbExchange impl call.out call.input call.times.finish =
      if impl.forceTimeouts ≠ 0 then lbMiss impl call.input call.times.finish
      else lbFresh impl call.out call.input call.times.finish := by
  have hsizes : ¬ (impl.caps.outputBytes < call.out.length ∨
      impl.caps.inputBytes < call.input.length) := by
    have hout := hcall.out_le
    have hin := hcall.input_eq
    omega
  rw [lbExchange, if_neg hopened, if_neg hsizes]

/-- The loopback adapter follows the rule. -/
theorem lbExchange_follows {impl : Loopback} (htracks : Tracks impl.record rule)
    (hmirror : impl.mirror.length = loopbackMaxBytes)
    (hcall : Admissible impl.caps.toAdapterCaps readsFlags call)
    (hclock : rule.clock ≤ call.times.finish) :
    Follows impl.record (lbExchange impl call.out call.input call.times.finish).1.record rule
      ⟨if impl.forceTimeouts ≠ 0 then .miss
        else .fresh ((lbMirror impl call.out).take call.input.length), call.times.finish⟩
      (lbExchange impl call.out call.input call.times.finish).2.2 := by
  rw [lbExchange_admitted htracks.opened hcall.toFits]
  split_ifs with hforced
  · exact (lbMiss_escalates impl call.input call.times.finish).follows htracks hclock
      hcall.input_eq
  · have hfresh := lbFresh_refreshes impl call.out call.times.finish hcall.input_eq
    have himage : (lbFresh impl call.out call.input call.times.finish).2.2 =
        (lbMirror impl call.out).take call.input.length := memcpy_all _ rfl
    rw [himage] at hfresh ⊢
    refine hfresh.follows htracks hcall.positive ?_
    rw [List.length_take_of_le]
    · exact hcall.input_eq
    · rw [lbMirror_length hmirror hcall.toFits, hcall.input_eq]
      exact impl.caps.input_le

/-- A call that fits passes the argument checks of an open proxy. -/
theorem proxyAdmits_none {proxy : Proxy} (hopened : proxy.state ≠ .closed)
    (hcall : Fits proxy.caps.toAdapterCaps call) :
    proxyAdmits proxy call.out.length call.input.length = none := by
  have hsizes : ¬ (proxy.caps.outputBytes < call.out.length ∨
      proxy.caps.inputBytes < call.input.length) := by
    have hout := hcall.out_le
    have hin := hcall.input_eq
    omega
  rw [proxyAdmits, if_neg hopened, if_neg hsizes]

/-- A proxy follows the rule if it takes a matched reply as fresh, whatever open
state it then enters. -/
theorem proxyEnd_follows {proxy : Proxy}
    {finish : Proxy → Frame → ℕ → Proxy × PlcStatus × List Byte}
    (htracks : Tracks proxy.record rule)
    (hcall : Admissible proxy.caps.toAdapterCaps readsFlags call)
    (hclock : rule.clock ≤ call.times.finish)
    (hfinish : ∀ counted frame devicesOnline, call.peer = .replies frame devicesOnline →
      ∃ state : AdapterState, state ≠ .closed ∧ state ≠ .faulted ∧
        finish counted frame devicesOnline =
          ({ (proxyFresh counted frame call.input call.times).1 with state := state }, .ok,
            replyImage frame call.input)) :
    Follows proxy.record (Adapter.proxyEnd finish proxy call).1.record rule
      ⟨match call.peer with
        | .replies frame _ => .fresh (replyImage frame call.input)
        | .silent _ => .miss, call.times.finish⟩
      (Adapter.proxyEnd finish proxy call).2.2 := by
  unfold Adapter.proxyEnd
  rw [proxyAdmits_none htracks.opened hcall.toFits]
  have hcounted : Tracks (Proxy.record { proxy with nextSeq := proxy.nextSeq + 1 }) rule :=
    htracks
  cases hpeer : call.peer with
  | replies frame devicesOnline =>
      obtain ⟨state, hopened, hfaulted, heq⟩ :=
        hfinish { proxy with nextSeq := proxy.nextSeq + 1 } frame devicesOnline hpeer
      have hlength := replyImage_length call.input (hcall.frame_ok frame devicesOnline hpeer)
      simp only [heq]
      exact (proxyFresh_refreshes _ frame call.times hcall.input_eq hopened hfaulted).follows
        hcounted hcall.positive (hlength.trans hcall.input_eq)
  | silent miss =>
      exact (proxyMiss_escalates _ call.input miss call.times.finish).follows hcounted hclock
        hcall.input_eq

/-- **One exchange of any adapter follows the rule.** -/
theorem Adapter.answer_follows {adapter : Adapter} (htracks : Tracks adapter.record rule)
    (hsized : adapter.Sized) (hcall : Admissible adapter.record.caps adapter.readsFlags call)
    (hclock : rule.clock ≤ call.times.finish) :
    Follows adapter.record (adapter.answer call).1.record rule (adapter.event call)
      (adapter.answer call).2 := by
  cases adapter with
  | loopback impl =>
      have hbefore : Tracks (hooked impl call).record rule := by
        rw [hooked_record]
        exact htracks
      have hmirror : (hooked impl call).mirror.length = loopbackMaxBytes := by
        rw [hooked_mirror]
        exact hsized
      have hhooked :
          Admissible (hooked impl call).caps.toAdapterCaps false call := by
        rw [hooked_caps]
        exact hcall
      have hfollows := lbExchange_follows hbefore hmirror hhooked hclock
      rw [hooked_record] at hfollows
      have hsame : lbMirror (hooked impl call) call.out = lbMirror impl call.out := by
        rw [lbMirror, lbMirror, hooked_mirror]
      rw [hsame] at hfollows
      exact hfollows
  | eip proxy =>
      refine proxyEnd_follows htracks hcall hclock ?_
      intro counted frame devicesOnline hpeer
      have hflags := hcall.unflagged rfl frame devicesOnline hpeer
      exact ⟨.online, nofun, nofun, if_neg (not_not.mpr hflags)⟩
  | scanner proxy =>
      refine proxyEnd_follows htracks hcall hclock ?_
      intro counted frame devicesOnline hpeer
      refine ⟨if devicesOnline = 0 then .degraded else .online, ?_, ?_, rfl⟩
      · split_ifs <;> exact nofun
      · split_ifs <;> exact nofun

/-- An admissible call leaves the kind of the adapter and the size of its
mirror. -/
theorem Adapter.answer_kind {adapter : Adapter} (hsized : adapter.Sized)
    (hcall : Admissible adapter.record.caps adapter.readsFlags call) :
    (adapter.answer call).1.Sized ∧ (adapter.answer call).1.readsFlags = adapter.readsFlags := by
  cases adapter with
  | eip proxy => exact ⟨trivial, rfl⟩
  | scanner proxy => exact ⟨trivial, rfl⟩
  | loopback impl =>
      refine ⟨?_, rfl⟩
      have hmirror : (hooked impl call).mirror.length = loopbackMaxBytes := by
        rw [hooked_mirror]
        exact hsized
      have hhooked : Admissible (hooked impl call).caps.toAdapterCaps false call := by
        rw [hooked_caps]
        exact hcall
      have hwritten := lbMirror_length hmirror hhooked.toFits
      simp only [answer, exchange, Sized, lbExchange]
      split_ifs
      · exact hmirror
      · exact hmirror
      · rw [lbMiss_mirror]
        exact hmirror
      · exact hwritten

end Exchange

/-! ## Whole runs -/

/-- An adapter of any kind, just opened at clock reading `openedUs`. -/
inductive Opened (openedUs : ℕ) : Adapter → Prop
  | loopback (caps : LoopbackCaps) (forceTimeouts : ℕ) :
      Opened openedUs (.loopback (lbOpen caps openedUs forceTimeouts))
  | eip (caps : ProxyCaps) : Opened openedUs (.eip (proxyOpen caps openedUs))
  | scanner (caps : ProxyCaps) : Opened openedUs (.scanner (proxyOpen caps openedUs))

/-- The calls the rule is about: admissible ones at readings that do not
decrease, the first not before the adapter was opened. -/
structure Schedule (adapter : Adapter) (openedUs : ℕ) (calls : List Call) : Prop where
  admissible : ∀ call ∈ calls, Admissible adapter.record.caps adapter.readsFlags call
  clock : List.IsChain (· ≤ ·) (openedUs :: calls.map fun call => call.times.finish)

/-- The exchanges of a run as the rule sees them. -/
def Adapter.events (adapter : Adapter) (calls : List Call) : List Event :=
  viewed Adapter.answer Adapter.event adapter calls

/-- An adapter of a given kind and capabilities that stands where the rule
stands. -/
structure Adapter.Stands (caps : AdapterCaps) (readsFlags : Bool) (adapter : Adapter)
    (rule : RuleState) : Prop where
  tracks : Tracks adapter.record rule
  sized : adapter.Sized
  caps_eq : adapter.record.caps = caps
  flags_eq : adapter.readsFlags = readsFlags

/-- A just opened proxy stands at the start of the rule. -/
theorem proxyOpen_tracks {openedUs : ℕ} (hpositive : 0 < openedUs) (caps : ProxyCaps) :
    Tracks (proxyOpen caps openedUs).record (ruleStart caps.inputBytes openedUs) := by
  have hroom := caps.input_le
  constructor <;> simp [proxyOpen, Proxy.record, ruleStart, hpositive, hroom]

/-- So does every just opened adapter. -/
theorem Opened.stands {openedUs : ℕ} (hpositive : 0 < openedUs) {adapter : Adapter}
    (hopened : Opened openedUs adapter) :
    adapter.Stands adapter.record.caps adapter.readsFlags
      (ruleStart adapter.record.caps.inputBytes openedUs) := by
  cases hopened with
  | loopback caps forceTimeouts =>
      have hroom := caps.input_le
      have htracks : Tracks (lbOpen caps openedUs forceTimeouts).record
          (ruleStart caps.inputBytes openedUs) := by
        constructor <;> simp [lbOpen, Loopback.record, ruleStart, hpositive, hroom]
      exact ⟨htracks, List.length_replicate, rfl, rfl⟩
  | eip caps => exact ⟨proxyOpen_tracks hpositive caps, trivial, rfl, rfl⟩
  | scanner caps => exact ⟨proxyOpen_tracks hpositive caps, trivial, rfl, rfl⟩

/-- One step of a run, in the form the simulation asks for. -/
theorem Adapter.Stands.step {caps : AdapterCaps} {readsFlags : Bool} {adapter : Adapter}
    {rule : RuleState} {call : Call} (h : adapter.Stands caps readsFlags rule)
    (hcall : Admissible caps readsFlags call) (hclock : ClockForward rule (adapter.event call)) :
    (adapter.answer call).2 =
        (ruleStep caps.failsafePolicy caps.failsafeTimeoutUs caps.inputBytes rule
          (adapter.event call)).2 ∧
      (adapter.answer call).2.length = caps.inputBytes ∧
      (adapter.answer call).1.Stands caps readsFlags
        (ruleStep caps.failsafePolicy caps.failsafeTimeoutUs caps.inputBytes rule
          (adapter.event call)).1 := by
  obtain ⟨htracks, hsized, rfl, rfl⟩ := h
  have hfollows := answer_follows htracks hsized hcall hclock
  obtain ⟨hsized, hflags⟩ := answer_kind hsized hcall
  exact ⟨hfollows.image_eq, hfollows.written, hfollows.tracks, hsized, hfollows.caps_eq, hflags⟩

/-- Every run of a just opened adapter follows the rule. -/
theorem Opened.followsRule {openedUs : ℕ} (hpositive : 0 < openedUs) {adapter : Adapter}
    (hopened : Opened openedUs adapter) {calls : List Call}
    (hschedule : Schedule adapter openedUs calls) :
    FollowsRule adapter.record.caps.failsafePolicy adapter.record.caps.failsafeTimeoutUs
      adapter.record.caps.inputBytes openedUs (adapter.events calls)
      (trace Adapter.answer adapter calls).2 (trace Adapter.answer adapter calls).1.record.state
      (trace Adapter.answer adapter calls).1.record.stats := by
  have hclock : List.IsChain (· ≤ ·) (openedUs :: (adapter.events calls).map Event.now) := by
    rw [Adapter.events, map_viewed Adapter.answer Adapter.event Event.now (fun _ _ => rfl)]
    exact hschedule.clock
  have hforward := along_clockForward adapter.record.caps.failsafePolicy
    adapter.record.caps.failsafeTimeoutUs adapter.record.caps.inputBytes
    (ruleStart adapter.record.caps.inputBytes openedUs) (adapter.events calls) hclock
  obtain ⟨himages, hwritten, hfinal⟩ := trace_simulates
    (Adapter.Stands adapter.record.caps adapter.readsFlags)
    (fun image => image.length = adapter.record.caps.inputBytes)
    (fun _ _ _ => Adapter.Stands.step) (hopened.stands hpositive) hschedule.admissible hforward
  exact followsRule_of_trace _ _ _ hclock hwritten (Prod.ext rfl himages.symm)
    hfinal.tracks.faulted hfinal.tracks.activations hfinal.tracks.exchanges
    hfinal.tracks.timeouts

/-- **One failsafe rule.** Every adapter, from when it was opened and for every
run of admissible calls, follows the failsafe rule. Two adapters with the same
parameters and the same outcomes at the same readings therefore return the same
images and count the same escalations, whatever their kinds. -/
theorem one_failsafe_rule {openedUs : ℕ} (hpositive : 0 < openedUs) {adapter : Adapter}
    (hopened : Opened openedUs adapter) {calls : List Call}
    (hschedule : Schedule adapter openedUs calls) :
    FollowsRule adapter.record.caps.failsafePolicy adapter.record.caps.failsafeTimeoutUs
        adapter.record.caps.inputBytes openedUs (adapter.events calls)
        (trace Adapter.answer adapter calls).2
        (trace Adapter.answer adapter calls).1.record.state
        (trace Adapter.answer adapter calls).1.record.stats ∧
      ∀ other otherCalls, Opened openedUs other → Schedule other openedUs otherCalls →
        other.record.caps.failsafePolicy = adapter.record.caps.failsafePolicy →
        other.record.caps.failsafeTimeoutUs = adapter.record.caps.failsafeTimeoutUs →
        other.record.caps.inputBytes = adapter.record.caps.inputBytes →
        other.events otherCalls = adapter.events calls →
        (trace Adapter.answer other otherCalls).2 = (trace Adapter.answer adapter calls).2 ∧
          (trace Adapter.answer other otherCalls).1.record.stats.failsafeActivations =
            (trace Adapter.answer adapter calls).1.record.stats.failsafeActivations := by
  have hfollows := hopened.followsRule hpositive hschedule
  refine ⟨hfollows, ?_⟩
  intro other otherCalls hother hotherSchedule hpolicy htimeout hsize hevents
  have hotherFollows := hother.followsRule hpositive hotherSchedule
  rw [hpolicy, htimeout, hsize, hevents] at hotherFollows
  exact ⟨hotherFollows.images_eq.trans hfollows.images_eq.symm,
    hotherFollows.activations_eq.trans hfollows.activations_eq.symm⟩

/-- Two-byte images that are cleared after 30 ms. -/
def pairCaps : AdapterCaps :=
  { inputBytes := 2
    outputBytes := 2
    failsafePolicy := .clear
    exchangeTimeoutUs := 1000
    failsafeTimeoutUs := 30000 }

/-- A loopback adapter with these images. -/
def pairLoopback : Adapter :=
  .loopback (lbOpen { pairCaps with input_le := by decide, output_le := by decide } 100 0)

/-- The same for a proxy. -/
def pairProxyCaps : ProxyCaps := { pairCaps with input_le := by decide, output_le := by decide }

/-- An adapter-role proxy with these images. -/
def pairProxy : Adapter := .eip (proxyOpen pairProxyCaps 100)

/-- A call that sends and expects two bytes. -/
def pairCall (finish : ℕ) (peer : Peer) (hook : Option ℕ) : Call :=
  { out := [1, 2], input := [9, 9], times := ⟨0, 0, finish⟩, peer := peer, hook := hook }

/-- Two bytes from the peer. -/
def pairReply : Peer :=
  .replies { seq := 1, len := 2, flags := 0, data := [1, 2] } 0

/-- A mirrored exchange, then two injected timeouts. -/
def loopbackCalls : List Call :=
  [pairCall 1000 pairReply none, pairCall 20000 pairReply (some 2), pairCall 40000 pairReply none]

/-- A reply, then a timeout and a framing fault. -/
def proxyCalls : List Call :=
  [pairCall 1000 pairReply none, pairCall 20000 (.silent .timeout) none,
    pairCall 40000 (.silent .proto) none]

theorem pairCall_fits {caps : AdapterCaps} (hout : caps.outputBytes = 2)
    (hin : caps.inputBytes = 2) (finish : ℕ) (hook : Option ℕ) {peer : Peer}
    (hpeer : ∀ frame devicesOnline, peer = .replies frame devicesOnline →
      frame.len.toNat ≤ frame.data.length) :
    Fits caps (pairCall finish peer hook) :=
  ⟨Nat.le_of_eq hout.symm, hin.symm, hpeer⟩

theorem pairReply_ok (frame : Frame) (devicesOnline : ℕ)
    (hreply : pairReply = .replies frame devicesOnline) :
    frame.len.toNat ≤ frame.data.length ∧ frame.flags &&& plcIpcFrameDataInvalid = 0 := by
  cases hreply
  decide

theorem pairCall_admissible {caps : AdapterCaps} (hout : caps.outputBytes = 2)
    (hin : caps.inputBytes = 2) (readsFlags : Bool) {finish : ℕ} (hpositive : 0 < finish)
    (hook : Option ℕ) {peer : Peer} (hpeer : peer = pairReply ∨ ∃ miss, peer = .silent miss) :
    Admissible caps readsFlags (pairCall finish peer hook) := by
  rcases hpeer with rfl | ⟨miss, rfl⟩
  · exact ⟨pairCall_fits hout hin finish hook fun frame n h => (pairReply_ok frame n h).1,
      hpositive, fun _ frame n h => (pairReply_ok frame n h).2⟩
  · exact ⟨pairCall_fits hout hin finish hook nofun, hpositive, nofun⟩

theorem one_failsafe_rule_twoKinds :
    (FollowsRule .clear 30000 2 100 (pairLoopback.events loopbackCalls)
        (trace Adapter.answer pairLoopback loopbackCalls).2
        (trace Adapter.answer pairLoopback loopbackCalls).1.record.state
        (trace Adapter.answer pairLoopback loopbackCalls).1.record.stats ∧
      (trace Adapter.answer pairProxy proxyCalls).2 =
        (trace Adapter.answer pairLoopback loopbackCalls).2) ∧
      (trace Adapter.answer pairLoopback loopbackCalls).2 = [[1, 2], [1, 2], [0, 0]] := by
  have hloopback : Schedule pairLoopback 100 loopbackCalls := by
    refine ⟨?_, by decide⟩
    intro call hcall
    simp only [loopbackCalls, List.mem_cons, List.not_mem_nil, or_false] at hcall
    rcases hcall with rfl | rfl | rfl
    all_goals exact pairCall_admissible rfl rfl _ (by decide) _ (.inl rfl)
  have hproxy : Schedule pairProxy 100 proxyCalls := by
    refine ⟨?_, by decide⟩
    intro call hcall
    simp only [proxyCalls, List.mem_cons, List.not_mem_nil, or_false] at hcall
    rcases hcall with rfl | rfl | rfl
    · exact pairCall_admissible rfl rfl _ (by decide) _ (.inl rfl)
    · exact pairCall_admissible rfl rfl _ (by decide) _ (.inr ⟨_, rfl⟩)
    · exact pairCall_admissible rfl rfl _ (by decide) _ (.inr ⟨_, rfl⟩)
  obtain ⟨hfollows, hagree⟩ := one_failsafe_rule (by decide) (.loopback _ 0) hloopback
  obtain ⟨himages, -⟩ := hagree pairProxy proxyCalls (.eip _) hproxy rfl rfl rfl (by decide +kernel)
  exact ⟨⟨hfollows, himages⟩, by decide +kernel⟩

end SoftPlc.Adapters
