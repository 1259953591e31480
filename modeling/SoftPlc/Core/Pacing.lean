/-
# Lost cycles, no bursts, no drift

The deadlines, scan starts and clock readings of a call of `plc_runtime_run` form a
paced history, whatever the scans and the wake-ups take and whenever a signal comes.
The bounds on the scan starts and the exact grid of a call that keeps up are then
those of any paced task.
-/

import SoftPlc.Core.RunLoop

namespace SoftPlc

open SoftPlc.Math

variable {ω : Type} {maxScans : ℕ} {period deadline : ℤ}

namespace RunState

/-- The deadline in use is the last one set. -/
structure Current (s : RunState ω) (deadline : ℤ) : Prop where
  count : s.trail.deadlines.length = s.trail.readings.length + 1
  last : s.trail.deadlines.getD s.trail.readings.length 0 = deadline
  nonneg : 0 ≤ deadline

/-- How far the history has got at each place of the call. -/
def Recorded (s : RunState ω) : Prop :=
  match s.stage with
  | .main | .clear | .readStart =>
      s.trail.deadlines = [] ∧ s.trail.starts = [] ∧ s.trail.readings = []
  | .check deadline | .scan deadline =>
      s.Current deadline ∧ s.trail.starts.length = s.trail.readings.length ∧
        deadline ≤ s.clock
  | .execute deadline _ _ | .scanned deadline _ | .pace deadline =>
      s.Current deadline ∧ s.trail.starts.length = s.trail.readings.length + 1 ∧
        s.trail.starts.getD s.trail.readings.length 0 ≤ s.clock
  | .sleep deadline =>
      s.Current deadline ∧ s.trail.starts.length = s.trail.readings.length
  | .returned _ =>
      s.trail.deadlines.length = s.trail.readings.length + 1 ∧
        s.trail.starts.length ≤ s.trail.readings.length + 1

/-- The invariant of a call. -/
structure Keeps (period : ℤ) (s : RunState ω) : Prop where
  period_eq : s.period = period
  paced : Paced period s.trail.deadlines s.trail.starts s.trail.readings
  recorded : s.Recorded

theorem Keeps.called {rt : Runtime ω} (world : ω) (stop : Bool) (clock : ℕ) :
    Keeps (rt.cfg.cycleUs * 1000) (called rt world stop clock) where
  period_eq := rfl
  paced := by constructor <;> exact fun i hi => absurd hi (Nat.not_lt_zero i)
  recorded := ⟨rfl, rfl, rfl⟩

/-- The history stands while time passes and the flag is set. -/
theorem Keeps.later {s next : RunState ω} (h : s.Keeps period) (hrt : next.rt = s.rt)
    (hstage : next.stage = s.stage) (hdeadlines : next.trail.deadlines = s.trail.deadlines)
    (hstarts : next.trail.starts = s.trail.starts)
    (hreadings : next.trail.readings = s.trail.readings) (hclock : s.clock ≤ next.clock) :
    next.Keeps period := by
  have hkept : ∀ deadline, s.Current deadline → next.Current deadline := by
    rintro deadline ⟨hcount, hlast, hnonneg⟩
    rw [← hdeadlines, ← hreadings] at hcount hlast
    exact ⟨hcount, hlast, hnonneg⟩
  have hrecorded := h.recorded
  refine ⟨?_, ?_, ?_⟩
  · rw [RunState.period, hrt]
    exact h.period_eq
  · rw [hdeadlines, hstarts, hreadings]
    exact h.paced
  · unfold Recorded at hrecorded ⊢
    rw [hstage, hdeadlines, hstarts, hreadings]
    cases hplace : s.stage <;> simp only [hplace] at hrecorded ⊢
    case check | scan | execute | scanned | pace =>
      obtain ⟨hcurrent, hcount, hbefore⟩ := hrecorded
      exact ⟨hkept _ hcurrent, hcount, hbefore.trans (Int.ofNat_le.mpr hclock)⟩
    case sleep => exact ⟨hkept _ hrecorded.1, hrecorded.2⟩
    all_goals exact hrecorded

theorem nextDeadline_eq_max (s : RunState ω) (deadline : ℤ) :
    s.nextDeadline deadline = max (deadline + s.period) s.clock := by
  unfold nextDeadline
  split
  · next hlate => exact (max_eq_right hlate.le).symm
  · next hintime => exact (max_eq_left (not_lt.mp hintime)).symm

/-- A scan starts once its deadline is reached. -/
theorem Keeps.beginScan {s : RunState ω} (h : s.Keeps period)
    (hstage : s.stage = .scan deadline) : (s.beginScan deadline).Keeps period := by
  have hrecorded := h.recorded
  simp only [Recorded, hstage] at hrecorded
  obtain ⟨hcurrent, hcount, hclock⟩ := hrecorded
  have hwaited : s.trail.deadlines.getD s.trail.starts.length 0 ≤ s.clock := by
    rw [hcount, hcurrent.last]
    exact hclock
  have hpaced := h.paced.add_start hcount hwaited
  unfold RunState.beginScan
  dsimp only
  split
  all_goals
    refine ⟨h.period_eq, hpaced, ⟨hcurrent.count, hcurrent.last, hcurrent.nonneg⟩, ?_, ?_⟩
    · rw [List.length_append, List.length_singleton, hcount]
    · rw [getD_concat, if_pos hcount.symm]

/-- The deadline stays the current one while only the place changes. -/
theorem Keeps.moveTo {s : RunState ω} (h : s.Keeps period) {stage : RunStage ω}
    (hrecorded : Recorded { s with stage := stage }) : Keeps period { s with stage := stage } :=
  ⟨h.period_eq, h.paced, hrecorded⟩

theorem Current.moveTo {s : RunState ω} (h : s.Current deadline) (stage : RunStage ω) :
    Current { s with stage := stage } deadline :=
  ⟨h.count, h.last, h.nonneg⟩

/-- Every step of a call with a period keeps the history paced. -/
theorem Keeps.move {s next : RunState ω} (h : s.Keeps period) (hperiod : 0 < period)
    (hmove : Move maxScans s next) : next.Keeps period := by
  have hrecorded := h.recorded
  cases hmove with
  | calls hstage =>
      simp only [Recorded, hstage] at hrecorded
      exact h.moveTo hrecorded
  | clears hstage =>
      simp only [Recorded, hstage] at hrecorded
      exact ⟨h.period_eq, h.paced, hrecorded⟩
  | enters hstage =>
      simp only [Recorded, hstage] at hrecorded
      obtain ⟨-, hstarts, hreadings⟩ := hrecorded
      refine ⟨h.period_eq, ?_, ⟨?_, ?_, Int.natCast_nonneg s.clock⟩, ?_, le_rfl⟩
      · simp only [hstarts, hreadings]
        constructor <;> exact fun i hi => absurd hi (Nat.not_lt_zero i)
      all_goals simp [hstarts, hreadings]
  | checks deadline hstage =>
      simp only [Recorded, hstage] at hrecorded
      obtain ⟨hcurrent, hcount, hclock⟩ := hrecorded
      refine ⟨h.period_eq, h.paced, ?_⟩
      cases s.stop with
      | true => exact ⟨hcurrent.count, hcount.trans_le (Nat.le_succ _)⟩
      | false => exact ⟨⟨hcurrent.count, hcurrent.last, hcurrent.nonneg⟩, hcount, hclock⟩
  | begins deadline hstage => exact h.beginScan hstage
  | executes deadline t0 io hstage =>
      simp only [Recorded, hstage] at hrecorded
      obtain ⟨hcurrent, hcount, hclock⟩ := hrecorded
      exact ⟨h.period_eq, h.paced, ⟨hcurrent.count, hcurrent.last, hcurrent.nonneg⟩, hcount,
        hclock⟩
  | decides deadline status hstage =>
      simp only [Recorded, hstage] at hrecorded
      obtain ⟨hcurrent, hcount, hclock⟩ := hrecorded
      have hpace : 0 < s.period := h.period_eq ▸ hperiod
      apply h.moveTo
      simp only [Recorded, afterScan, hpace, if_true]
      split_ifs
      · exact ⟨hcurrent.count, hcount.le⟩
      · exact ⟨hcurrent.count, hcount.le⟩
      · exact ⟨hcurrent.moveTo _, hcount, hclock⟩
  | paces deadline hstage =>
      simp only [Recorded, hstage] at hrecorded
      obtain ⟨hcurrent, hcount, hclock⟩ := hrecorded
      have hpaced := h.paced.add_reading hcurrent.count hcount hclock
      have hdeadline : s.nextDeadline deadline = max (deadline + period) s.clock := by
        rw [nextDeadline_eq_max, h.period_eq]
      rw [hcurrent.last, ← hdeadline] at hpaced
      refine ⟨h.period_eq, hpaced, ⟨?_, ?_, ?_⟩, ?_⟩
      · simp only [List.length_append, List.length_singleton, hcurrent.count]
      · simp only [List.length_append, List.length_singleton]
        rw [getD_concat, if_pos hcurrent.count.symm]
      · rw [hdeadline]
        exact (Int.natCast_nonneg s.clock).trans (le_max_right ..)
      · simp only [List.length_append, List.length_singleton, hcount]
  | wakes deadline hstage hends =>
      simp only [Recorded, hstage] at hrecorded
      obtain ⟨hcurrent, hcount⟩ := hrecorded
      exact h.moveTo ⟨hcurrent.moveTo _, hcount,
        (sleepEnds_iff hcurrent.nonneg s.clock).mp hends⟩

/-- So does every step of the system. -/
theorem Keeps.step (hperiod : 0 < period) (s : RunState ω) (act : RunAct) (next : RunState ω)
    (h : s.Keeps period) (hstep : step maxScans s act = some next) : next.Keeps period := by
  cases act with
  | go wait =>
      have hwaited : Keeps period { s with clock := s.clock + wait } :=
        h.later rfl rfl rfl rfl rfl (Nat.le_add_right s.clock wait)
      exact hwaited.move hperiod (go_moves hstep)
  | signal =>
      cases hstep
      exact h.later rfl rfl rfl rfl rfl le_rfl
  | interrupt =>
      rw [step_interrupt hstep]
      exact h

/-- In every state of a call, no more scans have started than deadlines were set. -/
theorem Keeps.starts_le {s : RunState ω} (h : s.Keeps period) :
    s.trail.starts.length ≤ s.trail.readings.length + 1 ∧
      s.trail.deadlines.length ≤ s.trail.readings.length + 1 := by
  have hrecorded := h.recorded
  unfold Recorded at hrecorded
  cases hstage : s.stage <;> simp only [hstage] at hrecorded
  case main | clear | readStart => simp [hrecorded]
  case returned => exact ⟨hrecorded.2, hrecorded.1.le⟩
  all_goals
    have hcount := hrecorded.1.count
    omega

/-- **Cycles are lost, never run in a burst, and never drift.** The scan starts of a
call stay on or behind the grid of its period, two of them are at least the periods
between them apart, less one, and while every reading after a scan is in time, the
deadlines are the grid. -/
theorem starts_paced (rt : Runtime ω) (world : ω) (stop : Bool) (clock maxScans : ℕ)
    (hcycle : 0 < rt.cfg.cycleUs) {acts : List RunAct} {s : RunState ω}
    (hrun : exec (step maxScans) (called rt world stop clock) acts = some s) :
    let period : ℤ := rt.cfg.cycleUs * 1000
    let entry := s.trail.deadlines.getD 0 0
    (∀ i < s.trail.starts.length, entry + i * period ≤ s.trail.starts.getD i 0) ∧
      (∀ i j, i < j → j < s.trail.starts.length →
        ((j : ℤ) - i - 1) * period ≤ s.trail.starts.getD j 0 - s.trail.starts.getD i 0) ∧
      (∀ i, i + 2 < s.trail.starts.length →
        period ≤ s.trail.starts.getD (i + 2) 0 - s.trail.starts.getD i 0) ∧
      ∀ n < s.trail.deadlines.length,
        (∀ i < n, s.trail.readings.getD i 0 ≤ entry + (i + 1) * period) →
          s.trail.deadlines.getD n 0 = entry + n * period := by
  intro period entry
  have hperiod : 0 < period := by
    have hcast : (0 : ℤ) < rt.cfg.cycleUs := Int.natCast_pos.mpr hcycle
    show 0 < (rt.cfg.cycleUs : ℤ) * 1000
    omega
  have hkeeps : s.Keeps period :=
    exec_invariant_all (Keeps.step hperiod) (Keeps.called world stop clock) hrun
  obtain ⟨hstarts, hdeadlines⟩ := hkeeps.starts_le
  have hspread := fun i j (hlt : i < j) (hj : j < s.trail.starts.length) =>
    hkeeps.paced.spread hstarts hlt hj
  refine ⟨fun i hi => hkeeps.paced.le_start hstarts hi, hspread, ?_, ?_⟩
  · intro i hi
    have htwo := hspread i (i + 2) (by omega) hi
    push_cast at htwo
    linarith
  · intro n hn hintime
    exact hkeeps.paced.on_grid (by omega) hintime

/-- A runtime with a cycle of one microsecond and nothing bound. -/
def microRuntime : Runtime Unit := plcRuntimeCreate { plcRuntimeConfigInit with cycleUs := 1 }

/-- Entry at 5, a first scan of three periods, and two scans after it. -/
def overrunningCall : List RunAct :=
  [.go 0, .go 0, .go 0, .go 0, .go 3000, .go 0, .go 0, .go 0,
    .go 0, .go 0, .go 0, .go 0, .go 0, .go 1000, .go 0, .go 0]

theorem starts_paced_overrunningCall :
    ∃ s, exec (step 0) (called microRuntime () true 5) overrunningCall = some s ∧
      s.trail.deadlines = [5, 3005, 4005] ∧ s.trail.starts = [5, 3005, 4005] ∧
      (1000 : ℤ) ≤ s.trail.starts.getD 2 0 - s.trail.starts.getD 0 0 := by
  have hview : (exec (step 0) (called microRuntime () true 5) overrunningCall).map
      (fun s => (s.trail.deadlines, s.trail.starts)) =
        some ([5, 3005, 4005], [5, 3005, 4005]) := by
    decide +kernel
  obtain ⟨s, hrun, hlists⟩ := Option.map_eq_some_iff.mp hview
  obtain ⟨hdeadlines, hstarts⟩ := Prod.mk.inj hlists
  obtain ⟨-, -, hthree, -⟩ :=
    starts_paced microRuntime () true 5 0 (by decide) hrun
  exact ⟨s, hrun, hdeadlines, hstarts, hthree 0 (by rw [hstarts]; decide)⟩

end RunState

end SoftPlc
