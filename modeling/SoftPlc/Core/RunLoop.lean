/-
# The paced loop

`plc_runtime_run` as the steps between which a signal can be delivered: the call, the
store that clears the stop flag, each reading of the clock, the loop test, the two
halves of a scan, the tests after it, and the sleep. Time passes before a step, by
any amount, and the handler may run between any two steps. It only sets the flag.

The sleep ends at or after its deadline, and an interrupted sleep is begun again on
the same absolute deadline. A deadline that is no valid `timespec` would be refused
at once; none is ever slept on, since the clock does not run below zero.

`Trail` is a history of the call that no step reads.
-/

import SoftPlc.Core.Runtime
import SoftPlc.Math.Pace
import SoftPlc.Math.Progress

namespace SoftPlc

open SoftPlc.Math

/-- `struct timespec`. -/
structure Timespec where
  tvSec : ℤ
  tvNsec : ℤ
  deriving DecidableEq, Repr

namespace Timespec

/-- The `timespec` that `sleep_until` builds, by the divisions of C. -/
def ofNs (deadlineNs : ℤ) : Timespec :=
  ⟨deadlineNs.tdiv 1000000000, deadlineNs.tmod 1000000000⟩

/-- `clock_nanosleep` answers `EINVAL` to any other one. -/
def Valid (ts : Timespec) : Prop :=
  0 ≤ ts.tvSec ∧ 0 ≤ ts.tvNsec ∧ ts.tvNsec < 1000000000

instance (ts : Timespec) : Decidable ts.Valid :=
  inferInstanceAs (Decidable (_ ∧ _ ∧ _))

/-- The instant it names. -/
def ns (ts : Timespec) : ℤ := ts.tvSec * 1000000000 + ts.tvNsec

theorem ns_ofNs (deadlineNs : ℤ) : (ofNs deadlineNs).ns = deadlineNs :=
  Int.tdiv_mul_add_tmod deadlineNs 1000000000

theorem valid_ofNs {deadlineNs : ℤ} (hnonneg : 0 ≤ deadlineNs) : (ofNs deadlineNs).Valid :=
  ⟨Int.tdiv_nonneg hnonneg (by decide), Int.tmod_nonneg _ hnonneg,
    Int.tmod_lt_of_pos _ (by decide)⟩

end Timespec

/-- Whether `clock_nanosleep` may return something other than `EINTR`. -/
def SleepEnds (deadlineNs : ℤ) (clock : ℕ) : Prop :=
  ¬ (Timespec.ofNs deadlineNs).Valid ∨ (Timespec.ofNs deadlineNs).ns ≤ clock

instance (deadlineNs : ℤ) (clock : ℕ) : Decidable (SleepEnds deadlineNs clock) :=
  inferInstanceAs (Decidable (_ ∨ _))

/-- A sleep on a deadline of the clock ends exactly when it is reached. -/
theorem sleepEnds_iff {deadlineNs : ℤ} (hnonneg : 0 ≤ deadlineNs) (clock : ℕ) :
    SleepEnds deadlineNs clock ↔ deadlineNs ≤ clock := by
  rw [SleepEnds, Timespec.ns_ofNs]
  exact or_iff_right (not_not_intro (Timespec.valid_ofNs hnonneg))

variable {ω : Type}

/-- Where the call stands, with its local variables. -/
inductive RunStage (ω : Type) where
  /-- The handlers are installed; `plc_runtime_run` is not called yet. -/
  | main
  /-- Before `rt->stop = 0`. -/
  | clear
  /-- Before the first reading of the clock. -/
  | readStart
  /-- At the loop test. -/
  | check (deadline : ℤ)
  /-- Before the input phase of a scan. -/
  | scan (deadline : ℤ)
  /-- Between the input phase and the rest of the scan. -/
  | execute (deadline t0 : ℤ) (io : IoPhase ω)
  /-- After a scan, before the tests on its status and on `max_scans`. -/
  | scanned (deadline : ℤ) (status : PlcStatus)
  /-- Before the deadline is moved. -/
  | pace (deadline : ℤ)
  /-- In `sleep_until`. -/
  | sleep (deadline : ℤ)
  | returned (status : PlcStatus)

/-- What happened in a call. -/
structure Trail where
  /-- The deadline at entry, then those slept on. -/
  deadlines : List ℤ := []
  starts : List ℤ := []
  /-- The clock as it was read after a scan. -/
  readings : List ℤ := []
  completed : ℕ := 0
  /-- A stop was requested; a loop test came after that; a scan started after that. -/
  requested : Bool := false
  checked : Bool := false
  late : Bool := false

structure RunState (ω : Type) where
  rt : Runtime ω
  world : ω
  /-- `rt->stop`. -/
  stop : Bool
  /-- `CLOCK_MONOTONIC`, in nanoseconds. -/
  clock : ℕ
  stage : RunStage ω
  trail : Trail := {}

/-- What can happen next. -/
inductive RunAct where
  /-- Time passes, then the call takes its next step. -/
  | go (wait : ℕ)
  /-- `on_signal`, which calls `plc_runtime_request_stop`. -/
  | signal
  /-- `clock_nanosleep` returns `EINTR`. -/
  | interrupt
  deriving DecidableEq, Repr

/-- The steps of the call itself. -/
def RunAct.own : RunAct → Bool
  | .go _ => true
  | _ => false

namespace RunState

/-- `period`. -/
def period (s : RunState ω) : ℤ := s.rt.cfg.cycleUs * 1000

/-- The input phase, and the end of a scan that is aborted. -/
def beginScan (s : RunState ω) (deadline : ℤ) : RunState ω :=
  let io := scanIo s.rt s.world
  let begun : RunState ω :=
    { s with
      rt := scanInput s.rt s.clock io
      trail :=
        { s.trail with
          starts := s.trail.starts ++ [(s.clock : ℤ)]
          late := s.trail.late || s.trail.checked } }
  if io.Aborts s.rt.cfg then { begun with world := io.world, stage := .scanned deadline io.worst }
  else { begun with stage := .execute deadline s.clock io }

/-- The rest of a scan. -/
def endScan (s : RunState ω) (deadline t0 : ℤ) (io : IoPhase ω) : RunState ω :=
  let result := scanExecute s.rt t0 s.clock io
  { s with
    rt := result.rt
    world := result.world
    stage := .scanned deadline result.status
    trail := { s.trail with completed := s.trail.completed + 1 } }

/-- Where the loop goes after a scan. -/
def afterScan (maxScans : ℕ) (s : RunState ω) (deadline : ℤ) (status : PlcStatus) :
    RunStage ω :=
  if status ≠ .ok ∧ s.rt.cfg.continueOnIoFault = false then .returned status
  else if maxScans ≠ 0 ∧ maxScans ≤ s.rt.scanNo then .returned .ok
  else if 0 < s.period then .pace deadline
  else .check deadline

/-- The next deadline: a period later, or now when that has passed. -/
def nextDeadline (s : RunState ω) (deadline : ℤ) : ℤ :=
  if deadline + s.period < s.clock then s.clock else deadline + s.period

/-- One step of the call. -/
def go (maxScans : ℕ) (s : RunState ω) : Option (RunState ω) :=
  match s.stage with
  | .main => some { s with stage := .clear }
  | .clear => some { s with stop := false, stage := .readStart }
  | .readStart =>
      some { s with
        stage := .check s.clock
        trail := { s.trail with deadlines := [(s.clock : ℤ)] } }
  | .check deadline =>
      some { s with
        stage := if s.stop then .returned .ok else .scan deadline
        trail := { s.trail with checked := s.trail.checked || s.trail.requested } }
  | .scan deadline => some (s.beginScan deadline)
  | .execute deadline t0 io => some (s.endScan deadline t0 io)
  | .scanned deadline status => some { s with stage := s.afterScan maxScans deadline status }
  | .pace deadline =>
      some { s with
        stage := .sleep (s.nextDeadline deadline)
        trail :=
          { s.trail with
            deadlines := s.trail.deadlines ++ [s.nextDeadline deadline]
            readings := s.trail.readings ++ [(s.clock : ℤ)] } }
  | .sleep deadline =>
      if SleepEnds deadline s.clock then some { s with stage := .check deadline } else none
  | .returned _ => none

/-- One step of the system. -/
def step (maxScans : ℕ) (s : RunState ω) : RunAct → Option (RunState ω)
  | .go wait => go maxScans { s with clock := s.clock + wait }
  | .signal => some { s with stop := true, trail := { s.trail with requested := true } }
  | .interrupt =>
      match s.stage with
      | .sleep _ => some s
      | _ => none

/-- `main` with its handlers installed, on any runtime. -/
def installed (rt : Runtime ω) (world : ω) (clock : ℕ) : RunState ω :=
  { rt := rt, world := world, stop := false, clock := clock, stage := .main }

/-- A call of `plc_runtime_run`, whatever the flag was left at. -/
def called (rt : Runtime ω) (world : ω) (stop : Bool) (clock : ℕ) : RunState ω :=
  { rt := rt, world := world, stop := stop, clock := clock, stage := .clear }

/-- The call is over. -/
def Returned (s : RunState ω) : Prop := ∃ status, s.stage = .returned status

/-- What a scan can change, and where the call stands. -/
def scanView (s : RunState ω) : Runtime ω × ω × RunStage ω := (s.rt, s.world, s.stage)

/-- Without a signal in between, the two halves of a scan are
`plc_runtime_scan_once`. -/
theorem scan_halves {maxScans : ℕ} {s : RunState ω} {deadline : ℤ}
    (hstage : s.stage = .scan deadline) (before during : ℕ)
    (hgoes : ¬ (scanIo s.rt s.world).Aborts s.rt.cfg) :
    let result := plcRuntimeScanOnce s.rt (s.clock + before : ℕ) (s.clock + before + during : ℕ)
      s.world
    (exec (step maxScans) s [.go before, .go during]).map scanView =
      some (result.rt, result.world, .scanned deadline result.status) := by
  simp only [exec, step, go, hstage, Option.bind_some, beginScan, hgoes, if_false,
    plcRuntimeScanOnce]
  rfl

/-- A scan that is aborted is over after its input phase. -/
theorem scan_aborted {maxScans : ℕ} {s : RunState ω} {deadline : ℤ}
    (hstage : s.stage = .scan deadline) (before : ℕ) (t1 : ℤ)
    (haborts : (scanIo s.rt s.world).Aborts s.rt.cfg) :
    let result := plcRuntimeScanOnce s.rt (s.clock + before : ℕ) t1 s.world
    (step maxScans s (.go before)).map scanView =
      some (result.rt, result.world, .scanned deadline result.status) := by
  simp only [step, go, hstage, beginScan, haborts, if_true, plcRuntimeScanOnce]
  rfl

/-! ## What a step can do -/

/-- The steps of the call, each with the place it is taken from. -/
inductive Move (maxScans : ℕ) (s : RunState ω) : RunState ω → Prop
  | calls (hstage : s.stage = .main) : Move maxScans s { s with stage := .clear }
  | clears (hstage : s.stage = .clear) :
      Move maxScans s { s with stop := false, stage := .readStart }
  | enters (hstage : s.stage = .readStart) :
      Move maxScans s { s with
        stage := .check s.clock
        trail := { s.trail with deadlines := [(s.clock : ℤ)] } }
  | checks (deadline : ℤ) (hstage : s.stage = .check deadline) :
      Move maxScans s { s with
        stage := if s.stop then .returned .ok else .scan deadline
        trail := { s.trail with checked := s.trail.checked || s.trail.requested } }
  | begins (deadline : ℤ) (hstage : s.stage = .scan deadline) :
      Move maxScans s (s.beginScan deadline)
  | executes (deadline t0 : ℤ) (io : IoPhase ω) (hstage : s.stage = .execute deadline t0 io) :
      Move maxScans s (s.endScan deadline t0 io)
  | decides (deadline : ℤ) (status : PlcStatus) (hstage : s.stage = .scanned deadline status) :
      Move maxScans s { s with stage := s.afterScan maxScans deadline status }
  | paces (deadline : ℤ) (hstage : s.stage = .pace deadline) :
      Move maxScans s { s with
        stage := .sleep (s.nextDeadline deadline)
        trail :=
          { s.trail with
            deadlines := s.trail.deadlines ++ [s.nextDeadline deadline]
            readings := s.trail.readings ++ [(s.clock : ℤ)] } }
  | wakes (deadline : ℤ) (hstage : s.stage = .sleep deadline)
      (hends : SleepEnds deadline s.clock) : Move maxScans s { s with stage := .check deadline }

theorem go_moves {maxScans : ℕ} {s next : RunState ω} (hstep : go maxScans s = some next) :
    Move maxScans s next := by
  unfold go at hstep
  split at hstep
  case h_9 deadline hstage =>
    split_ifs at hstep with hends
    cases hstep
    exact .wakes deadline hstage hends
  case h_10 => cases hstep
  all_goals
    cases hstep
    constructor
    assumption

/-- An interrupted sleep is begun again. -/
theorem step_interrupt {maxScans : ℕ} {s next : RunState ω}
    (hstep : step maxScans s .interrupt = some next) : next = s := by
  unfold step at hstep
  dsimp only at hstep
  split at hstep
  · exact (Option.some.inj hstep).symm
  · cases hstep

end RunState

end SoftPlc
