/-
# The demo program

A conveyor interlock: START has to be held for half a second before the motor runs,
and STOP, wired normally closed, drops it. A stop is meant to need a deliberate
restart, which is why the latch is set by the edge of the delay and not by its level.

The edge comes when the delay is over. If STOP is pressed while the delay is still
running and released before it is over, the edge comes after the stop, and the motor
starts with START held all the while.
-/

import SoftPlc.Core.Blocks
import SoftPlc.Core.Runtime
import SoftPlc.Core.Timers

namespace SoftPlc.App

open SoftPlc.Math

/-- `demo_state_t`. -/
structure DemoState where
  startDelay : Ton
  startEdge : RTrig
  lampPulse : Tp
  partEdge : RTrig
  partCounter : Ctu
  running : Rs
  deriving DecidableEq, Repr

/-- A zero-initialised state. -/
def DemoState.zeroed : DemoState where
  startDelay := { IN := false, Q := false, PT := 0, ET := 0 }
  startEdge := {}
  lampPulse := { IN := false, Q := false, PT := 0, ET := 0, mPrev := false }
  partEdge := {}
  partCounter := {}
  running := {}

/-- `PLC_TIME_MS`. -/
def plcTimeMs (value : ℤ) : ℤ := value * 1000000

/-- The blocks of `demo_program`, from the inputs it has read. -/
def demoBlocks (start stopNc partSense : Bool) (dt : ℤ) (st : DemoState) : DemoState :=
  let stopPressed := !stopNc
  let startDelay := plcTonRun { st.startDelay with IN := start, PT := plcTimeMs 500 } dt
  let startEdge := plcRTrigRun { st.startEdge with CLK := startDelay.Q }
  let running := plcRsRun { st.running with S := startEdge.Q, R1 := stopPressed }
  let partEdge := plcRTrigRun { st.partEdge with CLK := partSense }
  let lampPulse := plcTpRun { st.lampPulse with IN := partEdge.Q, PT := plcTimeMs 200 } dt
  let partCounter :=
    plcCtuRun { st.partCounter with CU := partEdge.Q, R := stopPressed, PV := 1000 }
  { startDelay, startEdge, lampPulse, partEdge, partCounter, running }

/-- What `demo_program` writes. -/
def demoOutputs (pi : ProcessImage) (st : DemoState) : ProcessImage :=
  let motor := plcPiSetBit pi .q 0 0 st.running.Q1
  let lamp := plcPiSetBit motor .q 0 1 st.lampPulse.Q
  plcPiSetWord lamp .q 2 (UInt16.ofInt st.partCounter.CV)

theorem plcPiAreaSize_demoOutputs (pi : ProcessImage) (st : DemoState) (area : PlcArea) :
    plcPiAreaSize (demoOutputs pi st) area = plcPiAreaSize pi area := by
  rw [demoOutputs, plcPiAreaSize_setWord, plcPiAreaSize_setBit, plcPiAreaSize_setBit]

/-- `demo_program`. Its state is all the world it knows. -/
def demoProgram : PlcProgram DemoState where
  fn ctx pi st :=
    let start := plcPiGetBit pi .i 0 0
    let stopNc := plcPiGetBit pi .i 0 1
    let partSense := plcPiGetBit pi .i 0 2
    let st := demoBlocks start stopNc partSense ctx.dt st
    (demoOutputs pi st, st)
  size_fn _ pi _ area := plcPiAreaSize_demoOutputs pi _ area

/-! ## Runs -/

/-- A run: the image at the start, what is done to it before each scan, and the
contexts of the scans. -/
structure DemoRun where
  pi : ProcessImage
  access : ℕ → ImageAccess
  ctx : ℕ → PouCtx

namespace DemoRun

/-- The image and the state after a number of scans. -/
def after (run : DemoRun) : ℕ → ProcessImage × DemoState
  | 0 => (run.pi, .zeroed)
  | k + 1 => demoProgram.fn (run.ctx k) ((run.access k).apply (after run k).1) (after run k).2

variable (run : DemoRun)

/-- The image a scan sees. -/
def seen (k : ℕ) : ProcessImage := (run.access k).apply (run.after k).1

/-- `%IX0.0`, `%IX0.1` and `%IX0.2` at a scan. -/
def start (k : ℕ) : Bool := plcPiGetBit (run.seen k) .i 0 0

def stopNc (k : ℕ) : Bool := plcPiGetBit (run.seen k) .i 0 1

def partSense (k : ℕ) : Bool := plcPiGetBit (run.seen k) .i 0 2

def dt (k : ℕ) : ℤ := (run.ctx k).dt

/-- `%QX0.0` after a scan. -/
def motor (k : ℕ) : Bool := plcPiGetBit (run.after (k + 1)).1 .q 0 0

theorem after_succ_snd (k : ℕ) :
    (run.after (k + 1)).2 =
      demoBlocks (run.start k) (run.stopNc k) (run.partSense k) (run.dt k) (run.after k).2 := rfl

theorem after_succ_fst (k : ℕ) :
    (run.after (k + 1)).1 = demoOutputs (run.seen k) (run.after (k + 1)).2 := rfl

theorem size_seen (k : ℕ) (area : PlcArea) :
    plcPiAreaSize (run.seen k) area = plcPiAreaSize run.pi area := by
  induction k with
  | zero => exact (run.access 0).size_apply run.pi area
  | succ k ih =>
      rw [seen, (run.access (k + 1)).size_apply, after_succ_fst, plcPiAreaSize_demoOutputs, ih]

/-- The motor output is the latch, if there is an output byte. -/
theorem motor_eq (k : ℕ) :
    run.motor k = (decide (0 < plcPiAreaSize run.pi .q) && (run.after (k + 1)).2.running.Q1) := by
  rw [motor, after_succ_fst, demoOutputs, plcPiGetBit_setWord (by decide) _ (by decide)]
  by_cases hsize : 0 < plcPiAreaSize run.pi .q
  · have hseen : 0 < plcPiAreaSize (run.seen k) .q := by rwa [size_seen]
    rw [plcPiGetBit_setBit (by rwa [plcPiAreaSize_setBit]) (by decide) (by decide),
      if_neg (by decide), plcPiGetBit_setBit hseen (by decide) (by decide), if_pos rfl,
      decide_eq_true hsize, Bool.true_and]
  · rw [decide_eq_false hsize, Bool.false_and, plcPiGetBit]
    split
    · rfl
    · next place hslot =>
        have hfits := (slot_eq_some.mp hslot).2
        rw [plcPiAreaSize_setBit, plcPiAreaSize_setBit, size_seen] at hfits
        omega

/-! ## The latch -/

/-- The delay is over: a `TON` over START. -/
def delayed (k : ℕ) : Bool := (tonAfter (plcTimeMs 500) run.start run.dt k).Q

theorem startDelay_eq (k : ℕ) :
    (run.after k).2.startDelay.Q = run.delayed k ∧
      (run.after k).2.startDelay.ET = (tonAfter (plcTimeMs 500) run.start run.dt k).ET := by
  induction k with
  | zero => exact ⟨rfl, rfl⟩
  | succ k ih =>
      obtain ⟨hQ, hET⟩ := ih
      have hrun : (run.after (k + 1)).2.startDelay =
          tonAfter (plcTimeMs 500) run.start run.dt (k + 1) := by
        rw [after_succ_snd, tonAfter]
        simp only [demoBlocks, hQ, hET, delayed, tonAfter_PT]
      exact ⟨by rw [hrun, delayed], by rw [hrun]⟩

theorem startEdge_mPrev (k : ℕ) : (run.after k).2.startEdge.mPrev = run.delayed k := by
  cases k with
  | zero => rfl
  | succ k => exact (run.startDelay_eq (k + 1)).1

/-- The latch is set by the end of the delay and reset by STOP. -/
theorem running_succ (k : ℕ) :
    (run.after (k + 1)).2.running.Q1 =
      (run.stopNc k && (run.delayed (k + 1) && !run.delayed k || (run.after k).2.running.Q1)) := by
  rw [← (startDelay_eq run (k + 1)).1, ← startEdge_mPrev run k, after_succ_snd]
  simp only [demoBlocks, plcRsRun, plcRTrigRun, Bool.not_not]

/-! ## Stop and restart -/

/-- A stop shows at once, and after it the motor runs only if START was released. -/
def NeedsRestart (scans : ℕ) : Prop :=
  ∀ stopped < scans, run.stopNc stopped = false →
    run.motor stopped = false ∧
      ∀ k, stopped < k → k < scans → run.motor k = true →
        ∃ j, stopped ≤ j ∧ j < k ∧ run.start j = false

/-- STOP is not pressed and released again while the delay runs: if it is pressed at
some scan of a delay, it is pressed at the scan that ends it. -/
def StopOutlastsDelay (scans : ℕ) : Prop :=
  ∀ rise stopped k, rise ≤ stopped → stopped ≤ k → k + 1 < scans →
    ShowsSince run.start true rise (k + 1) → run.stopNc stopped = false →
    run.dt rise + elapsed run.dt rise k < plcTimeMs 500 →
    plcTimeMs 500 ≤ run.dt rise + elapsed run.dt rise (k + 1) → run.stopNc (k + 1) = false

variable {run}

theorem motor_stopped {k : ℕ} (hstop : run.stopNc k = false) : run.motor k = false := by
  rw [motor_eq, running_succ, hstop, Bool.false_and, Bool.and_false]

/-- The delay ends at a scan exactly if its time does. -/
theorem delayed_iff (hdt : ∀ k, 0 ≤ run.dt k) {rise k : ℕ}
    (hsince : ShowsSince run.start true rise k) :
    run.delayed (k + 1) = true ↔ plcTimeMs 500 ≤ run.dt rise + elapsed run.dt rise k :=
  tonAfter_Q_iff (by decide) hdt hsince

/-- While START is held after a stop, the latch stays down. -/
theorem running_after_stop (hdt : ∀ k, 0 ≤ run.dt k) {scans stopped k : ℕ}
    (houtlasts : run.StopOutlastsDelay scans) (hstop : run.stopNc stopped = false)
    (hle : stopped ≤ k) (hk : k < scans)
    (hheld : ∀ j, stopped ≤ j → j < k → run.start j = true) :
    (run.after (k + 1)).2.running.Q1 = false := by
  induction k, hle using Nat.le_induction with
  | base => rw [running_succ, hstop, Bool.false_and]
  | succ k hle ih =>
      have hbefore := ih (by omega) fun j hfrom hto => hheld j hfrom (by omega)
      rw [running_succ, hbefore, Bool.or_false]
      by_contra hset
      simp only [Bool.not_eq_false, Bool.and_eq_true, Bool.not_eq_true'] at hset
      obtain ⟨hgo, hover, hrunning⟩ := hset
      -- the delay ends at this scan, so START is on since before the stop
      have hon : run.start (k + 1) = true := by
        by_contra hoff
        rw [delayed, (tonAfter_of_off (Bool.eq_false_of_not_eq_true hoff)).2] at hover
        cases hover
      obtain ⟨rise, hsince⟩ := exists_showsSince hon
      have hshows : Shows run.start true stopped (k + 1) := by
        intro j hfrom hto
        rcases Nat.le_succ_iff.mp hto with hto | rfl
        · exact hheld j hfrom (by omega)
        · exact hon
      have hrise : rise ≤ stopped := hsince.le_of_shows hshows
      have hearlier : ShowsSince run.start true rise k :=
        ⟨hrise.trans hle, hsince.change, fun j hfrom hto => hsince.shows j hfrom (by omega)⟩
      have hshort : run.dt rise + elapsed run.dt rise k < plcTimeMs 500 := by
        by_contra hlong
        rw [(delayed_iff hdt hearlier).mpr (not_lt.mp hlong)] at hrunning
        cases hrunning
      rw [houtlasts rise stopped k hrise hle hk hsince hstop hshort
        ((delayed_iff hdt hsince).mp hover)] at hgo
      cases hgo

/-- **When a stop needs a restart.** Up to any scan, it does if and only if STOP is
never pressed and released within a running delay, unless there is no output to see
it on. -/
theorem needs_restart_iff (hdt : ∀ k, 0 ≤ run.dt k) (scans : ℕ) :
    run.NeedsRestart scans ↔
      plcPiAreaSize run.pi .q = 0 ∨ run.StopOutlastsDelay scans := by
  constructor
  · intro hneeds
    rw [or_iff_not_imp_left]
    intro hsize rise stopped k hrise hle hk hsince hstop hshort hlong
    by_contra hgo
    -- the delay ends at this scan and nothing holds the latch down
    have hearlier : ShowsSince run.start true rise k :=
      ⟨hrise.trans hle, hsince.change, fun j hfrom hto => hsince.shows j hfrom (by omega)⟩
    have hrunning : run.delayed (k + 1) = false := by
      by_contra hover
      exact absurd ((delayed_iff hdt hearlier).mp (Bool.eq_true_of_not_eq_false hover))
        (not_le.mpr hshort)
    have hmotor : run.motor (k + 1) = true := by
      rw [motor_eq, decide_eq_true (Nat.pos_of_ne_zero hsize), running_succ,
        (delayed_iff hdt hsince).mpr hlong, hrunning, Bool.eq_true_of_not_eq_false hgo]
      rfl
    obtain ⟨j, hfrom, hto, hreleased⟩ :=
      (hneeds stopped (by omega) hstop).2 (k + 1) (by omega) hk hmotor
    rw [hsince.shows j (hrise.trans hfrom) (by omega)] at hreleased
    cases hreleased
  · intro hcondition stopped _ hstop
    refine ⟨motor_stopped hstop, fun k hlater hk hmotor => ?_⟩
    rw [motor_eq, Bool.and_eq_true] at hmotor
    have hsize : 0 < plcPiAreaSize run.pi .q := of_decide_eq_true hmotor.1
    have houtlasts := hcondition.resolve_left (by omega)
    by_contra hnone
    have hheld : ∀ j, stopped ≤ j → j < k → run.start j = true := by
      intro j hfrom hto
      by_contra hoff
      exact hnone ⟨j, hfrom, hto, Bool.eq_false_of_not_eq_true hoff⟩
    rw [running_after_stop hdt houtlasts hstop hlater.le hk hheld] at hmotor
    cases hmotor.2

/-- Put levels on START and STOP. -/
def press (start stopNc : Bool) : ImageAccess where
  apply pi := plcPiSetBit (plcPiSetBit pi .i 0 0 start) .i 0 1 stopNc
  size_apply pi area := by rw [plcPiAreaSize_setBit, plcPiAreaSize_setBit]

/-- A run over given levels and times, with one byte of inputs and four of outputs. -/
def pressed (start stopNc : ℕ → Bool) (dt : ℕ → ℤ) : DemoRun where
  pi := plcPiInit 1 4 0
  access k := press (start k) (stopNc k)
  ctx k := { now := 0, dt := dt k, scan := k, first := k = 0 }

theorem pressed_levels (start stopNc : ℕ → Bool) (dt : ℕ → ℤ) (k : ℕ) :
    (pressed start stopNc dt).start k = start k ∧
      (pressed start stopNc dt).stopNc k = stopNc k := by
  have hsize : 0 < plcPiAreaSize ((pressed start stopNc dt).after k).1 .i := by
    have hseen := (pressed start stopNc dt).size_seen k .i
    rw [seen, ((pressed start stopNc dt).access k).size_apply] at hseen
    rw [hseen]
    exact Nat.one_pos
  have hpressed : 0 < plcPiAreaSize
      (plcPiSetBit ((pressed start stopNc dt).after k).1 .i 0 0 (start k)) .i := by
    rwa [plcPiAreaSize_setBit]
  constructor
  · refine (plcPiGetBit_setBit hpressed (by decide) (by decide) _).trans ?_
    rw [if_neg (by decide), plcPiGetBit_setBit hsize (by decide) (by decide), if_pos rfl]
  · exact (plcPiGetBit_setBit hpressed (by decide) (by decide) _).trans (if_pos rfl)

/-- START is held throughout, and STOP is pressed at the second scan, halfway through
the delay. -/
def heldStart : DemoRun := pressed (fun _ => true) (fun k => k ≠ 1) fun k => plcTimeMs (250 * k)

/-- The motor starts after a stop, with START never released. -/
theorem heldStart_restarts :
    (∀ k, 0 ≤ heldStart.dt k) ∧ heldStart.stopNc 1 = false ∧ heldStart.start 1 = true ∧
      heldStart.motor 2 = true ∧ ¬ heldStart.NeedsRestart 3 := by
  have hdt : ∀ k, 0 ≤ heldStart.dt k := by
    intro k
    simp only [heldStart, pressed, dt, plcTimeMs]
    omega
  have hstop : heldStart.stopNc 1 = false := (pressed_levels ..).2
  have hmotor : heldStart.motor 2 = true := by decide +kernel
  refine ⟨hdt, hstop, (pressed_levels ..).1, hmotor, fun hneeds => ?_⟩
  obtain ⟨j, -, -, hreleased⟩ := (hneeds 1 (by decide) hstop).2 2 (by decide) (by decide) hmotor
  rw [heldStart, (pressed_levels ..).1] at hreleased
  cases hreleased

/-- STOP is pressed at the second scan with START released, and START held again from
the third on. -/
def releasedStart : DemoRun :=
  pressed (fun k => k ≠ 1) (fun k => k ≠ 1) fun _ => plcTimeMs 250

theorem needs_restart_iff_releasedStart :
    releasedStart.stopNc 1 = false ∧ releasedStart.motor 3 = true ∧
      releasedStart.NeedsRestart 4 := by
  have hdt : ∀ k, 0 ≤ releasedStart.dt k := fun _ => show 0 ≤ plcTimeMs 250 by decide
  refine ⟨(pressed_levels ..).2, by decide +kernel, (needs_restart_iff hdt 4).mpr (.inr ?_)⟩
  intro rise stopped k hrise hle _ hsince hstop
  rw [releasedStart, (pressed_levels ..).2, decide_eq_false_iff_not, not_not] at hstop
  -- START is off at the only scan with STOP pressed
  have hheld := hsince.shows stopped hrise (by omega)
  rw [releasedStart, (pressed_levels ..).1] at hheld
  exact absurd hstop (of_decide_eq_true hheld)

end DemoRun

end SoftPlc.App
