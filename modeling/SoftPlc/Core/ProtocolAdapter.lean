/-
# The protocol adapter contract

The vocabulary every adapter shares with the PLC core: status codes, the
failsafe policy, the adapter state, and the two helpers that give the failsafe
rule its single implementation, the staleness clock and the image it writes.
Clock readings are arguments, because they are inputs of the code and not state.
Cumulative counters and microsecond readings are unbounded counts.
-/

import SoftPlc.Math.Buffer

namespace SoftPlc

open SoftPlc.Math

/-- One octet of a process image or a frame. -/
abbrev Byte := UInt8

/-- `plc_status_t`. -/
inductive PlcStatus
  | ok
  | errInval
  | errNomem
  | errIo
  | errTimeout
  | errProto
  | errState
  | errUnsupported
  | errAgain
  | errNotfound
  deriving DecidableEq, Repr

/-- `plc_failsafe_policy_t`. -/
inductive FailsafePolicy
  | hold
  | clear
  deriving DecidableEq, Repr

/-- `plc_adapter_state_t`. -/
inductive AdapterState
  | closed
  | opening
  | online
  | degraded
  | faulted
  deriving DecidableEq, Repr

/-- The fields of `plc_adapter_caps_t` that the cyclic exchange reads. -/
structure AdapterCaps where
  inputBytes : ℕ
  outputBytes : ℕ
  failsafePolicy : FailsafePolicy
  exchangeTimeoutUs : ℕ
  failsafeTimeoutUs : ℕ
  deriving DecidableEq, Repr

/-- `plc_adapter_stats_t`, cleared by `open`. -/
structure AdapterStats where
  exchanges : ℕ := 0
  timeouts : ℕ := 0
  staleForUs : ℕ := 0
  failsafeActivations : ℕ := 0
  dataInvalid : ℕ := 0
  protocolErrors : ℕ := 0
  lastRttUs : ℕ := 0
  maxRttUs : ℕ := 0
  deriving DecidableEq, Repr

/-- `plc_staleness_t`. -/
structure Staleness where
  lastGoodUs : ℕ := 0
  haveGood : Bool := false
  deriving DecidableEq, Repr

/-- `plc_staleness_mark_fresh` at clock reading `now`. -/
def plcStalenessMarkFresh (now : ℕ) : Staleness :=
  { lastGoodUs := now, haveGood := true }

/-- `plc_staleness_age_us` at clock reading `now`. A zero origin is read as
"no age yet", so an origin is a time only when it is positive. -/
def plcStalenessAgeUs (stale : Staleness) (openedUs now : ℕ) : ℕ :=
  let since := if stale.haveGood then stale.lastGoodUs else openedUs
  if since ≠ 0 ∧ since < now then now - since else 0

/-- `plc_adapter_apply_failsafe`. The image `last_good` is never null at the
call sites, so the null test of the source has no counterpart. -/
def plcAdapterApplyFailsafe (policy : FailsafePolicy) (buffer lastGood : List Byte)
    (len : ℕ) : List Byte :=
  if len = 0 then buffer
  else
    match policy with
    | .clear => memset buffer 0 0 len
    | .hold => memcpy buffer 0 lastGood len

/-- The age never decreases while nothing refreshes the clock. -/
theorem plcStalenessAgeUs_mono (stale : Staleness) (openedUs : ℕ) {first second : ℕ}
    (hle : first ≤ second) :
    plcStalenessAgeUs stale openedUs first ≤ plcStalenessAgeUs stale openedUs second := by
  simp only [plcStalenessAgeUs]
  split_ifs <;> omega

/-- From a positive origin the age is the time elapsed since it. -/
theorem plcStalenessAgeUs_eq_sub {stale : Staleness} {openedUs now since : ℕ}
    (hsince : (if stale.haveGood then stale.lastGoodUs else openedUs) = since)
    (hpos : 0 < since) : plcStalenessAgeUs stale openedUs now = now - since := by
  simp only [plcStalenessAgeUs, hsince]
  split_ifs <;> omega

/-- Under either policy the failsafe defines every byte of a buffer of the
requested size. -/
theorem plcAdapterApplyFailsafe_eq (policy : FailsafePolicy) {buffer lastGood : List Byte}
    {len : ℕ} (hbuffer : buffer.length = len) :
    plcAdapterApplyFailsafe policy buffer lastGood len =
      match policy with
      | .clear => List.replicate len 0
      | .hold => lastGood.take len := by
  by_cases hlen : len = 0
  · subst hlen
    have hnil : buffer = [] := List.length_eq_zero_iff.mp hbuffer
    cases policy <;> simp [plcAdapterApplyFailsafe, hnil]
  · simp only [plcAdapterApplyFailsafe, if_neg hlen]
    cases policy with
    | hold => exact memcpy_all lastGood hbuffer
    | clear => exact memset_all 0 hbuffer

end SoftPlc
