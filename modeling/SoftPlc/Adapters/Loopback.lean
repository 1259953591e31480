/-
# The loopback adapter

The in-process reference adapter: outputs come back as inputs, and a test hook
can make the next exchanges fail. It is the one adapter without a peer, so the
whole of it is one function.
-/

import SoftPlc.Core.ProtocolAdapter

namespace SoftPlc.Adapters

open SoftPlc.Math

/-- `LOOPBACK_MAX_BYTES`. -/
def loopbackMaxBytes : ℕ := 512

/-- Capabilities that `lb_open` accepts. -/
structure LoopbackCaps extends AdapterCaps where
  input_le : inputBytes ≤ loopbackMaxBytes
  output_le : outputBytes ≤ loopbackMaxBytes
  deriving DecidableEq

/-- `loopback_impl_t`. -/
structure Loopback where
  caps : LoopbackCaps
  stats : AdapterStats
  state : AdapterState
  stale : Staleness
  openedUs : ℕ
  lastGood : List Byte
  mirror : List Byte
  forceTimeouts : ℕ
  deriving DecidableEq

/-- The record `lb_open` leaves at clock reading `openedUs`. The fault injection
is not reset. -/
def lbOpen (caps : LoopbackCaps) (openedUs forceTimeouts : ℕ) : Loopback :=
  { caps := caps
    stats := {}
    state := .online
    stale := {}
    openedUs := openedUs
    lastGood := List.replicate loopbackMaxBytes 0
    mirror := List.replicate loopbackMaxBytes 0
    forceTimeouts := forceTimeouts }

/-- `plc_loopback_force_timeouts`. -/
def plcLoopbackForceTimeouts (impl : Loopback) (count : ℕ) : Loopback :=
  { impl with forceTimeouts := count }

/-- The branch of `lb_exchange` for an injected timeout. Inside the window the
state becomes `DEGRADED` whatever it was. -/
def lbMiss (impl : Loopback) (input : List Byte) (now : ℕ) :
    Loopback × PlcStatus × List Byte :=
  let age := plcStalenessAgeUs impl.stale impl.openedUs now
  let missed : Loopback :=
    { impl with
      forceTimeouts := impl.forceTimeouts - 1
      stats := { impl.stats with timeouts := impl.stats.timeouts + 1, staleForUs := age } }
  if impl.caps.failsafeTimeoutUs ≤ age then
    let faulted : Loopback :=
      if missed.state ≠ .faulted then
        { missed with
          state := .faulted
          stats := { missed.stats with
            failsafeActivations := missed.stats.failsafeActivations + 1 } }
      else missed
    (faulted, .errTimeout,
      plcAdapterApplyFailsafe impl.caps.failsafePolicy input impl.lastGood input.length)
  else
    ({ missed with state := .degraded }, .errTimeout,
      plcAdapterApplyFailsafe .hold input impl.lastGood input.length)

/-- A miss leaves the mirror alone. -/
@[simp]
theorem lbMiss_mirror (impl : Loopback) (input : List Byte) (now : ℕ) :
    (lbMiss impl input now).1.mirror = impl.mirror := by
  simp only [lbMiss]
  split_ifs <;> rfl

/-- The mirror after the outputs were copied into it. -/
def lbMirror (impl : Loopback) (out : List Byte) : List Byte :=
  memcpy impl.mirror 0 out out.length

/-- The branch of `lb_exchange` that returns fresh inputs. -/
def lbFresh (impl : Loopback) (out input : List Byte) (now : ℕ) :
    Loopback × PlcStatus × List Byte :=
  let mirror := lbMirror impl out
  let image := memcpy input 0 mirror input.length
  ({ impl with
      mirror := mirror
      lastGood := memcpy impl.lastGood 0 image input.length
      stats := { impl.stats with exchanges := impl.stats.exchanges + 1, staleForUs := 0 }
      stale := plcStalenessMarkFresh now
      state := .online }, .ok, image)

/-- `lb_exchange` at clock reading `now`. -/
def lbExchange (impl : Loopback) (out input : List Byte) (now : ℕ) :
    Loopback × PlcStatus × List Byte :=
  if impl.state = .closed then (impl, .errState, input)
  else if impl.caps.outputBytes < out.length ∨ impl.caps.inputBytes < input.length then
    (impl, .errInval, input)
  else if impl.forceTimeouts ≠ 0 then lbMiss impl input now
  else lbFresh impl out input now

end SoftPlc.Adapters
