/-
# The out-of-process proxies

The core side of the two EtherNet/IP adapters. Both keep the same record and end
an exchange in the same few ways: a reply that matched, or a miss. What is
common is written once. The adapter role also looks at the reply's flags, and
may find the peer's data unusable; the scanner role always accepts the image and
derives its state from the number of devices online.

The functions here are the ends of `proxy_exchange`. The ring and doorbell
operations before them are in `SoftPlc.Cyclic.System`, which calls these.
Every clock reading is an argument.
-/

import SoftPlc.Ipc.Ring

namespace SoftPlc.Adapters

open SoftPlc.Math SoftPlc.Ipc

/-- Capabilities that `proxy_open` accepts: neither image exceeds a frame. The
scanner's parser and size check give the same bounds. -/
structure ProxyCaps extends AdapterCaps where
  input_le : inputBytes ≤ plcIpcMaxFrameBytes
  output_le : outputBytes ≤ plcIpcMaxFrameBytes
  deriving DecidableEq

/-- `eip_proxy_t` and `scanner_proxy_t`: the fields of the cyclic exchange. -/
structure Proxy where
  caps : ProxyCaps
  stats : AdapterStats
  state : AdapterState
  nextSeq : UInt32
  stale : Staleness
  openedUs : ℕ
  lastGood : List Byte
  deriving DecidableEq

/-- The record `proxy_open` leaves at clock reading `openedUs`. -/
def proxyOpen (caps : ProxyCaps) (openedUs : ℕ) : Proxy :=
  { caps := caps
    stats := {}
    state := .opening
    nextSeq := 1
    stale := {}
    openedUs := openedUs
    lastGood := List.replicate plcIpcMaxFrameBytes 0 }

/-- The clock readings an exchange ends with: when it started, when its round
trip was measured, and when the staleness clock was read or refreshed. -/
structure Times where
  start : ℕ
  replied : ℕ
  finish : ℕ
  deriving DecidableEq, Repr

/-- `proxy_fail`. The buffer `input` is the caller's, all of its `in_len`
bytes. -/
def proxyFail (proxy : Proxy) (input : List Byte) (reason : PlcStatus) (now : ℕ) :
    Proxy × PlcStatus × List Byte :=
  let age := plcStalenessAgeUs proxy.stale proxy.openedUs now
  let missed : Proxy :=
    { proxy with
      stats := { proxy.stats with timeouts := proxy.stats.timeouts + 1, staleForUs := age } }
  if proxy.caps.failsafeTimeoutUs ≤ age then
    let faulted : Proxy :=
      if missed.state ≠ .faulted then
        { missed with
          state := .faulted
          stats := { missed.stats with
            failsafeActivations := missed.stats.failsafeActivations + 1 } }
      else missed
    (faulted, reason,
      plcAdapterApplyFailsafe proxy.caps.failsafePolicy input proxy.lastGood input.length)
  else
    ({ missed with state := if missed.state = .online then .degraded else missed.state },
      reason, plcAdapterApplyFailsafe .hold input proxy.lastGood input.length)

/-- `proxy_unusable`. -/
def proxyUnusable (proxy : Proxy) (input : List Byte) (now : ℕ) :
    Proxy × PlcStatus × List Byte :=
  ({ proxy with
      stats := { proxy.stats with dataInvalid := proxy.stats.dataInvalid + 1, staleForUs := 0 }
      stale := plcStalenessMarkFresh now
      state := .degraded },
    .errAgain,
    plcAdapterApplyFailsafe proxy.caps.failsafePolicy input proxy.lastGood input.length)

/-- The image a matched reply leaves in the caller's buffer: what there is,
then zeros. -/
def replyImage (frame : Frame) (input : List Byte) : List Byte :=
  let got := min frame.len.toNat input.length
  memset (memcpy input 0 frame.data got) got 0 (input.length - got)

/-- What both roles do with a matched reply before they set the state. -/
def proxyFresh (proxy : Proxy) (frame : Frame) (input : List Byte) (times : Times) :
    Proxy × List Byte :=
  let image := replyImage frame input
  let rtt := times.replied - times.start
  ({ proxy with
      lastGood := memcpy proxy.lastGood 0 image input.length
      stats := { proxy.stats with
        exchanges := proxy.stats.exchanges + 1
        staleForUs := 0
        lastRttUs := rtt
        maxRttUs := max proxy.stats.maxRttUs rtt }
      stale := plcStalenessMarkFresh times.finish },
    image)

/-- The end of the adapter role's `proxy_exchange` once a reply matched. -/
def eipProxyFinish (proxy : Proxy) (frame : Frame) (input : List Byte) (times : Times) :
    Proxy × PlcStatus × List Byte :=
  if frame.flags &&& plcIpcFrameDataInvalid ≠ 0 then proxyUnusable proxy input times.finish
  else
    let (fresh, image) := proxyFresh proxy frame input times
    ({ fresh with state := .online }, .ok, image)

/-- The end of the scanner role's `proxy_exchange` once a reply matched. The
state says whether any device is online; the image is accepted either way. -/
def scannerProxyFinish (proxy : Proxy) (frame : Frame) (input : List Byte) (times : Times)
    (devicesOnline : ℕ) : Proxy × PlcStatus × List Byte :=
  let (fresh, image) := proxyFresh proxy frame input times
  ({ fresh with state := if devicesOnline = 0 then .degraded else .online }, .ok, image)

/-- `p->stats.protocol_errors++`. -/
def countProtocolError (proxy : Proxy) : Proxy :=
  { proxy with
    stats := { proxy.stats with protocolErrors := proxy.stats.protocolErrors + 1 } }

/-- The ways `proxy_exchange` misses: the budget or a full request ring, a failed
wait, a sequence or framing fault. -/
inductive Miss
  | timeout
  | io
  | proto
  deriving DecidableEq, Repr

/-- The end of `proxy_exchange` on a miss. -/
def proxyMiss (proxy : Proxy) (input : List Byte) (miss : Miss) (now : ℕ) :
    Proxy × PlcStatus × List Byte :=
  match miss with
  | .timeout => proxyFail proxy input .errTimeout now
  | .io => proxyFail (countProtocolError proxy) input .errIo now
  | .proto => proxyFail (countProtocolError proxy) input .errProto now

/-- The argument checks at the head of `proxy_exchange`. -/
def proxyAdmits (proxy : Proxy) (outLen inLen : ℕ) : Option PlcStatus :=
  if proxy.state = .closed then some .errState
  else if proxy.caps.outputBytes < outLen ∨ proxy.caps.inputBytes < inLen then some .errInval
  else none

/-- An admitted output image fits a frame. -/
theorem out_le_of_proxyAdmits {proxy : Proxy} {outLen inLen : ℕ}
    (hadmits : proxyAdmits proxy outLen inLen = none) : outLen ≤ plcIpcMaxFrameBytes := by
  have hcaps := proxy.caps.output_le
  simp only [proxyAdmits] at hadmits
  split_ifs at hadmits with hclosed hbytes
  omega

/-! ## What an exchange leaves alone -/

section Frame

variable (proxy : Proxy) (frame : Frame) (input : List Byte) (times : Times)

@[simp]
theorem proxyFail_nextSeq (reason : PlcStatus) (now : ℕ) :
    (proxyFail proxy input reason now).1.nextSeq = proxy.nextSeq := by
  simp only [proxyFail]
  split_ifs <;> rfl

@[simp]
theorem proxyFail_protocolErrors (reason : PlcStatus) (now : ℕ) :
    (proxyFail proxy input reason now).1.stats.protocolErrors = proxy.stats.protocolErrors := by
  simp only [proxyFail]
  split_ifs <;> rfl

@[simp]
theorem proxyFail_status (reason : PlcStatus) (now : ℕ) :
    (proxyFail proxy input reason now).2.1 = reason := by
  simp only [proxyFail]
  split_ifs <;> rfl

@[simp]
theorem eipProxyFinish_nextSeq :
    (eipProxyFinish proxy frame input times).1.nextSeq = proxy.nextSeq := by
  simp only [eipProxyFinish]
  split_ifs <;> rfl

@[simp]
theorem eipProxyFinish_protocolErrors :
    (eipProxyFinish proxy frame input times).1.stats.protocolErrors =
      proxy.stats.protocolErrors := by
  simp only [eipProxyFinish]
  split_ifs <;> rfl

/-- The adapter role reports success only with the reply's image. -/
theorem eipProxyFinish_image (hok : (eipProxyFinish proxy frame input times).2.1 = .ok) :
    (eipProxyFinish proxy frame input times).2.2 = replyImage frame input := by
  simp only [eipProxyFinish] at hok ⊢
  split_ifs at hok ⊢ with hflag
  · cases hok
  · rfl

end Frame

/-- A matched reply defines the whole buffer, provided its length field is
within its data. -/
theorem replyImage_length {frame : Frame} (input : List Byte)
    (hframe : frame.len.toNat ≤ frame.data.length) :
    (replyImage frame input).length = input.length := by
  simp only [replyImage, memset, memcpy, List.take_zero, List.nil_append, List.length_append,
    List.length_take, List.length_drop, List.length_replicate]
  omega

/-- The image of a delivered reply is its payload, cut or zero-extended. -/
theorem replyImage_eq_fit {frame : Frame} {message : Message} (input : List Byte)
    (hdelivers : frame.Delivers message plcIpcMaxFrameBytes) :
    replyImage frame input = fit 0 message.payload input.length := by
  have hlen : frame.len.toNat = message.payload.length := by
    rw [hdelivers.len_eq, Nat.min_eq_left message.bounded]
  have hdata : frame.data.take message.payload.length = message.payload := by
    rw [← hlen, hdelivers.payload_eq, List.take_of_length_le message.bounded]
  have hcopy : ∀ got, got ≤ message.payload.length →
      frame.data.take got = message.payload.take got := by
    intro got hgot
    conv_rhs => rw [← hdata]
    rw [List.take_take, Nat.min_eq_left hgot]
  have hmemcpy : memcpy input 0 frame.data (min message.payload.length input.length) =
      memcpy input 0 message.payload (min message.payload.length input.length) := by
    simp only [memcpy, hcopy _ (Nat.min_le_left _ _)]
  simp only [replyImage, hlen, hmemcpy]
  exact memset_memcpy_eq_fit message.payload 0 rfl

end SoftPlc.Adapters
