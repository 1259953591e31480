/-
# How a call of `plc_runtime_run` ends

A call ends by a stop request, by a fault it does not tolerate, or by its scan limit.

The first statement of the call clears the stop flag. A request that came earlier,
with the handlers already installed, is therefore forgotten, and the loop scans on.
Any later request ends the call: no scan starts after the loop test that follows it,
and at most six more steps are taken.

The scan limit is compared with `scan_no`, which counts from the creation of the
runtime and not from the call. A call for `n` scans of a runtime that has completed
`k` already completes `n - k`, and at least one.
-/

import SoftPlc.Core.Pacing

namespace SoftPlc

open SoftPlc.Math

variable {ω : Type} {maxScans : ℕ}

/-- The call has cleared the flag. -/
def RunStage.Cleared : RunStage ω → Prop
  | .main | .clear => False
  | _ => True

/-- What the call returned. -/
def RunStage.result : RunStage ω → Option PlcStatus
  | .returned status => some status
  | _ => none

namespace RunState

/-- A call that has not returned can go on, at the latest when its deadline comes. -/
theorem exists_go (maxScans : ℕ) {s : RunState ω} (hpending : ¬ s.Returned) :
    ∃ wait next, step maxScans s (.go wait) = some next := by
  cases hstage : s.stage with
  | sleep deadline =>
      refine ⟨deadline.toNat, ?_⟩
      have hends : SleepEnds deadline (s.clock + deadline.toNat) := by
        right
        rw [Timespec.ns_ofNs]
        push_cast
        have := Int.self_le_toNat deadline
        omega
      simp only [step, go, hstage, hends, if_true]
      exact ⟨_, rfl⟩
  | returned status => exact absurd ⟨status, hstage⟩ hpending
  | main | clear | readStart | check | scan | execute | scanned | pace =>
      refine ⟨0, ?_⟩
      simp only [step, go, hstage]
      exact ⟨_, rfl⟩

/-! ## A stop request -/

/-- A signal comes only after the call has cleared the flag. -/
def Timely (s : RunState ω) (act : RunAct) : Prop := act = .signal → s.stage.Cleared

/-- The invariant of calls with timely signals. -/
structure Heeds (s : RunState ω) : Prop where
  flag : s.trail.requested = true → s.stop = true ∧ s.stage.Cleared
  ended : s.trail.checked = true → s.Returned
  inTime : s.trail.late = false

theorem Heeds.move {s next : RunState ω} (h : s.Heeds) (hmove : Move maxScans s next) :
    next.Heeds := by
  have hunchecked : s.trail.checked = false := by
    by_contra hchecked
    obtain ⟨status, hreturned⟩ := h.ended (by simpa using hchecked)
    cases hmove <;> simp_all
  have hended : s.trail.checked = true → next.Returned := by simp [hunchecked]
  have hstop : s.trail.requested = true → s.stop = true := fun hrequested =>
    (h.flag hrequested).1
  cases hmove with
  | calls hstage =>
      -- nothing was requested before the flag is cleared
      refine ⟨fun hrequested => ?_, hended, h.inTime⟩
      simpa [hstage, RunStage.Cleared] using (h.flag hrequested).2
  | clears hstage =>
      refine ⟨fun hrequested => ?_, hended, h.inTime⟩
      simpa [hstage, RunStage.Cleared] using (h.flag hrequested).2
  | checks deadline hstage =>
      refine ⟨fun hrequested => ⟨hstop hrequested, ?_⟩, ?_, h.inTime⟩
      · simp only [hstop hrequested, if_true]
        trivial
      · -- the test that follows a request finds the flag set
        simp only [hunchecked, Bool.false_or]
        exact fun hrequested => ⟨.ok, by simp only [hstop hrequested, if_true]⟩
  | begins deadline hstage =>
      unfold beginScan
      dsimp only
      split
      all_goals
        refine ⟨fun hrequested => ⟨hstop hrequested, trivial⟩, by simp [hunchecked], ?_⟩
        simp only [h.inTime, hunchecked, Bool.or_false]
  | decides deadline status hstage =>
      refine ⟨fun hrequested => ⟨hstop hrequested, ?_⟩, hended, h.inTime⟩
      simp only [afterScan]
      split_ifs <;> trivial
  | enters | executes | paces | wakes =>
      exact ⟨fun hrequested => ⟨hstop hrequested, trivial⟩, hended, h.inTime⟩

theorem Heeds.step (s : RunState ω) (act : RunAct) (next : RunState ω) (h : s.Heeds)
    (htimely : s.Timely act) (hstep : step maxScans s act = some next) : next.Heeds := by
  cases act with
  | go wait =>
      have hwaited : Heeds { s with clock := s.clock + wait } := ⟨h.flag, h.ended, h.inTime⟩
      exact hwaited.move (go_moves hstep)
  | signal =>
      cases hstep
      exact ⟨fun _ => ⟨rfl, htimely rfl⟩, h.ended, h.inTime⟩
  | interrupt =>
      rw [step_interrupt hstep]
      exact h

/-- How many steps a call that was asked to stop has left. -/
def stopRank (s : RunState ω) : ℕ :=
  match s.stage with
  | .main | .clear | .returned _ => 0
  | .check _ => 1
  | .readStart | .sleep _ => 2
  | .pace _ => 3
  | .scanned _ _ => 4
  | .execute _ _ _ => 5
  | .scan _ => 6

/-- The flag is set for good. -/
def Asked (s : RunState ω) : Prop := s.stop = true ∧ s.stage.Cleared

/-- A call that was asked to stop stays so, and each of its steps brings it nearer to
its end. -/
theorem Asked.move {s next : RunState ω} (h : s.Asked) (hmove : Move maxScans s next) :
    next.Asked ∧ next.stopRank + 1 ≤ s.stopRank := by
  obtain ⟨hstop, hcleared⟩ := h
  cases hmove with
  | calls hstage | clears hstage => simp [hstage, RunStage.Cleared] at hcleared
  | checks deadline hstage =>
      simp only [Asked, stopRank, hstage, hstop, if_true]
      exact ⟨⟨trivial, trivial⟩, le_rfl⟩
  | begins deadline hstage =>
      unfold beginScan
      dsimp only
      split
      all_goals
        simp only [Asked, stopRank, hstage]
        exact ⟨⟨hstop, trivial⟩, by decide⟩
  | decides deadline status hstage =>
      simp only [Asked, stopRank, afterScan, hstage]
      split_ifs <;> exact ⟨⟨hstop, trivial⟩, by simp⟩
  | enters hstage | executes _ _ _ hstage | paces _ hstage | wakes _ hstage =>
      simp only [Asked, stopRank, endScan, hstage]
      exact ⟨⟨hstop, trivial⟩, le_rfl⟩

theorem Asked.step {s next : RunState ω} {act : RunAct} (h : s.Asked)
    (hstep : step maxScans s act = some next) :
    next.Asked ∧ next.stopRank + (if act.own = true then 1 else 0) ≤ s.stopRank := by
  cases act with
  | go wait =>
      have hwaited : Asked { s with clock := s.clock + wait } := h
      exact hwaited.move (go_moves hstep)
  | signal =>
      cases hstep
      exact ⟨⟨rfl, h.2⟩, le_rfl⟩
  | interrupt =>
      rw [step_interrupt hstep]
      exact ⟨h, le_rfl⟩

/-- A call that was asked to stop returns. -/
theorem Asked.finishes {s : RunState ω} (h : s.Asked) :
    Finishes (RunState.step maxScans) RunAct.own (fun _ _ => True) Returned s := by
  refine finishes_of_rank (fun state act next hasked _ hstep => (hasked.step hstep).1)
    (fun state act next hasked _ hstep => (hasked.step hstep).2) ?_ h
  intro state _ hpending
  obtain ⟨wait, next, hstep⟩ := exists_go maxScans hpending
  exact ⟨.go wait, next, rfl, trivial, hstep⟩

/-- **A timely stop request is heeded.** If every signal comes after the call has
cleared the flag, no scan starts after the first loop test that follows a request, and
from the request on the call is sure to return. -/
theorem request_heeded (rt : Runtime ω) (world : ω) (clock maxScans : ℕ)
    {acts : List RunAct} {s : RunState ω}
    (hrun : exec (step maxScans) (installed rt world clock) acts = some s)
    (htimely : Meets (step maxScans) Timely (installed rt world clock) acts) :
    s.trail.late = false ∧
      (s.trail.requested = true →
        Finishes (step maxScans) RunAct.own (fun _ _ => True) Returned s) := by
  have hstart : (installed rt world clock).Heeds :=
    ⟨fun h => (by cases h), fun h => (by cases h), rfl⟩
  have hheeds : s.Heeds := exec_invariant Heeds.step hstart htimely hrun
  exact ⟨hheeds.inTime, fun hrequested => Asked.finishes (hheeds.flag hrequested)⟩

/-- A request during the first scan. -/
def requestInScan : List RunAct := [.go 0, .go 0, .go 0, .go 0, .go 0, .signal, .go 0]

theorem request_heeded_requestInScan :
    ∃ s, exec (step 0) (installed microRuntime () 0) requestInScan = some s ∧
      s.trail.requested = true ∧ s.trail.late = false ∧
      Finishes (step 0) RunAct.own (fun _ _ => True) Returned s := by
  have hview : (exec (step 0) (installed microRuntime () 0) requestInScan).map
      (fun s => s.trail.requested) = some true := by
    decide +kernel
  obtain ⟨s, hrun, hrequested⟩ := Option.map_eq_some_iff.mp hview
  have htimely : Meets (step 0) Timely (installed microRuntime () 0) requestInScan := by
    have hgo : ∀ s : RunState Unit, s.Timely (.go 0) := fun s h => by cases h
    exact ⟨hgo _, hgo _, hgo _, hgo _, hgo _, fun _ => trivial, hgo _, trivial⟩
  obtain ⟨hintime, hfinishes⟩ := request_heeded microRuntime () 0 0 hrun htimely
  exact ⟨s, hrun, hrequested, hintime, hfinishes hrequested⟩

/-- A request before the call: the call forgets it, tests its flag and scans. -/
theorem earlyRequest_lost :
    (exec (step 0) (installed microRuntime () 0)
        [.signal, .go 0, .go 0, .go 0, .go 0, .go 0]).map
      (fun s => (s.trail.requested, s.stop, s.trail.late)) = some (true, false, true) := by
  decide +kernel

/-! ## The scan limit -/

/-- No stop is requested. -/
def Unasked (_ : RunState ω) (act : RunAct) : Prop := act ≠ .signal

/-- A state that a call gets to when no stop is requested. -/
def Reaches (maxScans : ℕ) (start s : RunState ω) : Prop :=
  ∃ acts, exec (step maxScans) start acts = some s ∧ Meets (step maxScans) Unasked start acts

/-- No scan of the call meets an I/O fault. -/
def FaultFree (maxScans : ℕ) (start : RunState ω) : Prop :=
  ∀ s, Reaches maxScans start s → ∀ deadline, s.stage = .scan deadline →
    (scanIo s.rt s.world).worst = .ok

/-- The call is sure to return, and returns `PLC_OK` after exactly `count` scans. -/
def Completes (maxScans count : ℕ) (start : RunState ω) : Prop :=
  Finishes (step maxScans) RunAct.own Unasked Returned start ∧
    ∀ s, Reaches maxScans start s → s.Returned →
      s.stage.result = some .ok ∧ s.trail.completed = count

/-- How many scans are left to a call that is to complete `target`, in each place. -/
def Left (rt : Runtime ω) (target : ℕ) (s : RunState ω) : Prop :=
  match s.stage with
  | .main | .clear | .readStart => s.trail.completed = 0
  | .check _ | .scan _ | .pace _ | .sleep _ => s.trail.completed < target
  | .execute _ _ io => s.trail.completed < target ∧ ¬ io.Aborts rt.cfg
  | .scanned _ status =>
      0 < s.trail.completed ∧ s.trail.completed ≤ target ∧
        ¬ (status ≠ .ok ∧ rt.cfg.continueOnIoFault = false)
  | .returned status => s.trail.completed = target ∧ status = .ok

/-- The invariant of a call that nobody asks to stop. -/
structure Counts (rt : Runtime ω) (target : ℕ) (s : RunState ω) : Prop where
  cfg : s.rt.cfg = rt.cfg
  scanNo : s.rt.scanNo = rt.scanNo + s.trail.completed
  running : s.stage.Cleared → s.stop = false
  left : s.Left rt target

/-- The steps left to such a call: at most six for each scan, and three before the
first. -/
def scanRank (target : ℕ) (s : RunState ω) : ℕ :=
  let scans := target - s.trail.completed
  match s.stage with
  | .main => 6 * target + 3
  | .clear => 6 * target + 2
  | .readStart => 6 * target + 1
  | .check _ => 6 * scans
  | .scan _ => 6 * scans - 1
  | .execute _ _ _ => 6 * scans - 2
  | .scanned _ _ => 6 * scans + 3
  | .pace _ => 6 * scans + 2
  | .sleep _ => 6 * scans + 1
  | .returned _ => 0

theorem Counts.move {rt : Runtime ω} {n target : ℕ} {s next : RunState ω}
    (h : s.Counts rt target) (hn : 0 < n) (htarget : target = max 1 (n - rt.scanNo))
    (hgoes : ∀ deadline, s.stage = .scan deadline →
      ¬ (scanIo s.rt s.world).Aborts s.rt.cfg)
    (hmove : Move n s next) :
    next.Counts rt target ∧ next.scanRank target + 1 ≤ s.scanRank target := by
  obtain ⟨hcfg, hscanNo, hrunning, hleft⟩ := h
  have hpositive : 0 < target := htarget ▸ lt_max_of_lt_left Nat.one_pos
  cases hmove with
  | calls hstage =>
      simp only [Left, hstage] at hleft
      refine ⟨⟨hcfg, hscanNo, False.elim, hleft⟩, ?_⟩
      simp [scanRank, hstage]
  | clears hstage =>
      simp only [Left, hstage] at hleft
      refine ⟨⟨hcfg, hscanNo, fun _ => rfl, hleft⟩, ?_⟩
      simp [scanRank, hstage]
  | enters hstage =>
      simp only [Left, hstage] at hleft
      simp only [hstage] at hrunning
      refine ⟨⟨hcfg, hscanNo, fun _ => hrunning trivial, ?_⟩, ?_⟩
      · simpa only [Left, hleft] using hpositive
      · simp [scanRank, hstage, hleft]
  | checks deadline hstage =>
      simp only [Left, hstage] at hleft
      simp only [hstage] at hrunning
      have hstop : s.stop = false := hrunning trivial
      simp only [hstop, Bool.false_eq_true, if_false]
      refine ⟨⟨hcfg, hscanNo, fun _ => rfl, hleft⟩, ?_⟩
      simp only [scanRank, hstage]
      omega
  | begins deadline hstage =>
      simp only [Left, hstage] at hleft
      simp only [hstage] at hrunning
      have hgo := hgoes deadline hstage
      simp only [beginScan, hgo, if_false]
      refine ⟨⟨hcfg, hscanNo, fun _ => hrunning trivial, hleft, hcfg ▸ hgo⟩, ?_⟩
      simp only [scanRank, hstage]
      omega
  | executes deadline t0 io hstage =>
      simp only [Left, hstage] at hleft
      simp only [hstage] at hrunning
      refine ⟨⟨hcfg, ?_, fun _ => hrunning trivial, Nat.succ_pos _, hleft.1, hleft.2⟩, ?_⟩
      · show s.rt.scanNo + 1 = rt.scanNo + (s.trail.completed + 1)
        omega
      · simp only [scanRank, hstage, endScan]
        omega
  | decides deadline status hstage =>
      simp only [Left, hstage] at hleft
      simp only [hstage] at hrunning
      obtain ⟨hsome, hle, htolerated⟩ := hleft
      simp only [afterScan, hcfg, htolerated, if_false]
      split_ifs with hlimit hperiod
      · refine ⟨⟨hcfg, hscanNo, fun _ => hrunning trivial, ?_, rfl⟩, ?_⟩
        · show s.trail.completed = target
          omega
        · simp [scanRank, hstage]
      all_goals
        -- the limit is not reached, so the target is not either
        have hmore : s.trail.completed < target := by omega
        refine ⟨⟨hcfg, hscanNo, fun _ => hrunning trivial, hmore⟩, ?_⟩
        simp [scanRank, hstage]
  | paces deadline hstage | wakes deadline hstage =>
      simp only [Left, hstage] at hleft
      simp only [hstage] at hrunning
      refine ⟨⟨hcfg, hscanNo, fun _ => hrunning trivial, hleft⟩, ?_⟩
      simp [scanRank, hstage]

theorem Counts.step {rt : Runtime ω} {n target : ℕ} {s next : RunState ω} {act : RunAct}
    (h : s.Counts rt target) (hn : 0 < n) (htarget : target = max 1 (n - rt.scanNo))
    (hgoes : ∀ deadline, s.stage = .scan deadline →
      ¬ (scanIo s.rt s.world).Aborts s.rt.cfg)
    (hunasked : s.Unasked act) (hstep : step n s act = some next) :
    next.Counts rt target ∧
      next.scanRank target + (if act.own = true then 1 else 0) ≤ s.scanRank target := by
  cases act with
  | go wait =>
      have hwaited : Counts rt target { s with clock := s.clock + wait } :=
        ⟨h.cfg, h.scanNo, h.running, h.left⟩
      exact hwaited.move hn htarget hgoes (go_moves hstep)
  | signal => exact absurd rfl hunasked
  | interrupt =>
      rw [step_interrupt hstep]
      exact ⟨h, le_rfl⟩

theorem Reaches.step {start s next : RunState ω} {act : RunAct}
    (h : Reaches maxScans start s) (hunasked : s.Unasked act)
    (hstep : step maxScans s act = some next) : Reaches maxScans start next := by
  obtain ⟨acts, hrun, hmeets⟩ := h
  exact ⟨acts ++ [act], (exec_concat hrun).trans hstep, meets_concat hrun hmeets hunasked⟩

/-- A call whose faults are tolerated, or that meets none, is never aborted. -/
theorem not_aborts {rt : Runtime ω} {start s : RunState ω}
    (hfault : rt.cfg.continueOnIoFault = true ∨ FaultFree maxScans start)
    (hcfg : s.rt.cfg = rt.cfg) (hreaches : Reaches maxScans start s) {deadline : ℤ}
    (hstage : s.stage = .scan deadline) : ¬ (scanIo s.rt s.world).Aborts s.rt.cfg := by
  rintro ⟨hworst, habort⟩
  rcases hfault with hcontinue | hfree
  · rw [hcfg, hcontinue] at habort
    cases habort
  · exact hworst (hfree s hreaches deadline hstage)

/-- A call for `n` scans completes what `scan_no` leaves of them, and at least one. -/
theorem completes_rest (rt : Runtime ω) (world : ω) (stop : Bool) (clock : ℕ) {n : ℕ}
    (hn : 0 < n)
    (hfault : rt.cfg.continueOnIoFault = true ∨ FaultFree n (called rt world stop clock)) :
    Completes n (max 1 (n - rt.scanNo)) (called rt world stop clock) := by
  let start := called rt world stop clock
  let target := max 1 (n - rt.scanNo)
  let inv : RunState ω → Prop := fun s => s.Counts rt target ∧ Reaches n start s
  have hstart : inv start := ⟨⟨rfl, rfl, False.elim, rfl⟩, [], rfl, trivial⟩
  have hboth : ∀ s act next, inv s → s.Unasked act → step n s act = some next →
      inv next ∧ next.scanRank target + (if act.own = true then 1 else 0) ≤
        s.scanRank target := by
    rintro s act next ⟨hcounts, hreaches⟩ hunasked hstep
    have hgoes := fun deadline (hstage : s.stage = .scan deadline) =>
      not_aborts hfault hcounts.cfg hreaches hstage
    obtain ⟨hnext, hrank⟩ := hcounts.step hn rfl hgoes hunasked hstep
    exact ⟨⟨hnext, hreaches.step hunasked hstep⟩, hrank⟩
  have hpreserved := fun s act next hs hunasked hstep => (hboth s act next hs hunasked hstep).1
  constructor
  · refine finishes_of_rank hpreserved
      (fun s act next hs hunasked hstep => (hboth s act next hs hunasked hstep).2) ?_ hstart
    intro s _ hpending
    obtain ⟨wait, next, hstep⟩ := exists_go n hpending
    exact ⟨.go wait, next, rfl, fun h => (by cases h), hstep⟩
  · rintro s ⟨acts, hrun, hmeets⟩ ⟨status, hstage⟩
    have hleft := (exec_invariant hpreserved hstart hmeets hrun).1.left
    simp only [Left, hstage] at hleft
    rw [hstage, hleft.2]
    exact ⟨rfl, hleft.1⟩

/-- **When a call for `n` scans completes `n`.** Nothing asks it to stop, and no fault
aborts it. Then it does so exactly on a runtime that has not completed a scan yet, or
when it is called for a single one. -/
theorem completes_iff (rt : Runtime ω) (world : ω) (stop : Bool) (clock : ℕ) {n : ℕ}
    (hn : 0 < n)
    (hfault : rt.cfg.continueOnIoFault = true ∨ FaultFree n (called rt world stop clock)) :
    Completes n n (called rt world stop clock) ↔ rt.scanNo = 0 ∨ n = 1 := by
  have hrest := completes_rest rt world stop clock hn hfault
  constructor
  · rintro ⟨hfinishes, hcount⟩
    obtain ⟨acts, s, hrun, hmeets, hreturned⟩ := hfinishes.exists_done
    have hall := (hcount s ⟨acts, hrun, hmeets⟩ hreturned).2
    have hleft := (hrest.2 s ⟨acts, hrun, hmeets⟩ hreturned).2
    omega
  · intro hfresh
    rwa [show max 1 (n - rt.scanNo) = n by omega] at hrest

theorem completes_iff_microRuntime :
    Completes 3 3 (called microRuntime () false 0) :=
  (completes_iff microRuntime () false 0 (show 0 < 3 by decide) (.inl rfl)).mpr (.inl rfl)

/-- A runtime on which one scan was made with `plc_runtime_scan_once`. -/
def scannedRuntime : Runtime Unit := (plcRuntimeScanOnce microRuntime 0 0 ()).rt

/-- Two more scans are asked of it, and it makes one. -/
theorem secondCall_short :
    (exec (step 2) (called scannedRuntime () false 0)
        [.go 0, .go 0, .go 0, .go 0, .go 0, .go 0]).map
      (fun s => (s.stage.result, s.trail.completed)) = some (some .ok, 1) := by
  decide +kernel

end RunState

end SoftPlc
