/-
# The part count of the demo program

Each part that passes the sensor is a rising edge of `%IX0.2`. The program finds the edge
with one block and counts it with another, which looks for an edge of its own in the
output of the first. That output is up for one scan at a time, since an edge needs the
sensor to be off at the scan before, so the counter misses none.

STOP holds the count at zero. An edge at such a scan is seen and not counted.
-/

import SoftPlc.App.Demo

namespace SoftPlc.App.DemoRun

open SoftPlc.Math

variable (run : DemoRun)

/-- `%QW2` after a scan. -/
def partCount (k : ℕ) : UInt16 := plcPiGetWord (run.after (k + 1)).1 .q 2

/-- A part comes: `%IX0.2` is on, and was off at the scan before. -/
def partComes (k : ℕ) : Bool := run.partSense k && !levelBefore run.partSense k

/-- The number of parts that come from one scan to before another. -/
def partsFrom (first last : ℕ) : ℕ :=
  ((Finset.Ico first last).filter fun k => run.partComes k = true).card

/-- The counter after a number of scans. -/
def counted (k : ℕ) : ℤ := (run.after k).2.partCounter.CV

/-! ## One scan -/

theorem partEdge_mPrev (k : ℕ) : (run.after k).2.partEdge.mPrev = levelBefore run.partSense k := by
  cases k with
  | zero => rfl
  | succ k => rfl

/-- The first block finds the parts. -/
theorem partEdge_Q (k : ℕ) : (run.after (k + 1)).2.partEdge.Q = run.partComes k := by
  rw [partComes, ← partEdge_mPrev, after_succ_snd]
  rfl

theorem partCounter_mPrev (k : ℕ) :
    (run.after (k + 1)).2.partCounter.mPrev = run.partComes k := by
  rw [← partEdge_Q, after_succ_snd]
  rfl

/-- No two parts come at successive scans, so the counter sees an edge at each. -/
theorem partCounter_ready {k : ℕ} (hpart : run.partComes k = true) :
    (run.after k).2.partCounter.mPrev = false := by
  cases k with
  | zero => rfl
  | succ k =>
      rw [partCounter_mPrev, partComes]
      rw [partComes, Bool.and_eq_true, Bool.not_eq_true'] at hpart
      have hoff : run.partSense k = false := hpart.2
      rw [hoff, Bool.false_and]

/-- The counter is reset by STOP and otherwise counts the parts up to its limit. -/
theorem counted_succ (k : ℕ) :
    run.counted (k + 1) =
      if run.stopNc k = false then 0
      else if run.partComes k = true ∧ run.counted k < int16Max then run.counted k + 1
      else run.counted k := by
  have hedge : (run.partComes k && !(run.after k).2.partCounter.mPrev) = run.partComes k := by
    cases hpart : run.partComes k with
    | false => rfl
    | true => rw [run.partCounter_ready hpart, Bool.true_and, Bool.not_false]
  have hstep : run.counted (k + 1) =
      if (!run.stopNc k) = true then 0
      else if (run.partComes k && !(run.after k).2.partCounter.mPrev &&
        decide (run.counted k < int16Max)) = true then run.counted k + 1
      else run.counted k := by
    rw [← partEdge_Q, counted, after_succ_snd]
    rfl
  rw [hstep, hedge]
  simp only [Bool.not_eq_true', Bool.and_eq_true, decide_eq_true_eq]

theorem counted_stopped {k : ℕ} (hstop : run.stopNc k = false) : run.counted (k + 1) = 0 := by
  rw [counted_succ, if_pos hstop]

/-! ## Runs -/

theorem partsFrom_succ {first last : ℕ} (hle : first ≤ last) :
    run.partsFrom first (last + 1) =
      run.partsFrom first last + if run.partComes last = true then 1 else 0 := by
  rw [partsFrom, Nat.Ico_succ_right_eq_insert_Ico hle, Finset.filter_insert]
  split_ifs with hpart
  · exact Finset.card_insert_of_notMem fun hmem =>
      Finset.right_notMem_Ico (Finset.mem_filter.mp hmem).1
  · rfl

/-- From a scan at which the counter is zero it counts the parts, as long as STOP is not
pressed. -/
theorem counted_eq {first last : ℕ} (hle : first ≤ last) (hzero : run.counted first = 0)
    (hgo : ∀ k, first ≤ k → k < last → run.stopNc k = true) :
    run.counted last = min 32767 (run.partsFrom first last : ℤ) := by
  induction last, hle using Nat.le_induction with
  | base => simp [hzero, partsFrom]
  | succ last hle ih =>
      have hbefore := ih fun k hfrom hto => hgo k hfrom (Nat.lt_succ_of_lt hto)
      have hrunning : ¬ run.stopNc last = false := by
        simp [hgo last hle (Nat.lt_succ_self last)]
      rw [counted_succ, if_neg hrunning, partsFrom_succ run hle, hbefore, int16Max]
      cases run.partComes last with
      | false => simp
      | true =>
          simp only [true_and, if_true, Nat.cast_add, Nat.cast_one]
          split_ifs with hroom <;> omega

variable {run}

/-- The output word holds the count, if there is room for it. -/
theorem partCount_toNat (hsize : 4 ≤ plcPiAreaSize run.pi .q) {k count : ℕ}
    (hcount : run.counted (k + 1) = min 32767 (count : ℤ)) :
    (run.partCount k).toNat = min 32767 count := by
  have hseen : 2 + 2 ≤ plcPiAreaSize (run.seen k) .q := by rwa [size_seen]
  have hword : run.partCount k = UInt16.ofInt (run.counted (k + 1)) := by
    rw [partCount, after_succ_fst, demoOutputs]
    exact plcPiGetWord_setWord (by rwa [plcPiAreaSize_setBit, plcPiAreaSize_setBit]) _
  have hcast : (min 32767 (count : ℤ)) = ((min 32767 count : ℕ) : ℤ) := by omega
  rw [hword, hcount, hcast, UInt16.ofInt, UInt16.toNat_ofNat']
  omega

/-- **Each part is counted once.** After every scan `%QW2` is the number of parts that
came after the last scan with STOP pressed, or since the start if there is none, up to
the limit of the counter. It is zero at every scan with STOP pressed. -/
theorem parts_counted_once (hsize : 4 ≤ plcPiAreaSize run.pi .q) (k : ℕ) :
    (∀ stopped ≤ k, run.stopNc stopped = false →
      (∀ j, stopped < j → j ≤ k → run.stopNc j = true) →
        (run.partCount k).toNat = min 32767 (run.partsFrom (stopped + 1) (k + 1))) ∧
    ((∀ j ≤ k, run.stopNc j = true) →
      (run.partCount k).toNat = min 32767 (run.partsFrom 0 (k + 1))) ∧
    (run.stopNc k = false → run.partCount k = 0) := by
  refine ⟨?_, ?_, ?_⟩
  · intro stopped hle hstop hgo
    apply partCount_toNat hsize
    apply run.counted_eq (Nat.succ_le_succ hle) (run.counted_stopped hstop)
    intro j hfrom hto
    exact hgo j hfrom (Nat.le_of_lt_succ hto)
  · intro hgo
    apply partCount_toNat hsize
    apply run.counted_eq (Nat.zero_le _) rfl
    intro j _ hto
    exact hgo j (Nat.le_of_lt_succ hto)
  · intro hstop
    have hzero : (run.partCount k).toNat = min 32767 0 := by
      apply partCount_toNat hsize
      exact run.counted_stopped hstop
    exact UInt16.toNat_inj.mp hzero

/-- Two parts come while the conveyor runs, and a third at the scan with STOP pressed. -/
def threeParts : DemoRun where
  pi := plcPiInit 1 4 0
  access k :=
    { apply := fun pi =>
        plcPiSetBit (plcPiSetBit pi .i 0 1 (decide (k ≠ 5))) .i 0 2 (decide (k % 2 = 1))
      size_apply := fun pi area => by rw [plcPiAreaSize_setBit, plcPiAreaSize_setBit] }
  ctx k := { now := 0, dt := 0, scan := k, first := k = 0 }

theorem parts_counted_once_threeParts :
    (threeParts.partCount 4).toNat = 2 ∧ threeParts.partCount 5 = 0 := by
  have hsize : 4 ≤ plcPiAreaSize threeParts.pi .q := by decide
  have hgo : ∀ j ≤ 4, threeParts.stopNc j = true := by decide +kernel
  have hparts : threeParts.partsFrom 0 5 = 2 := by decide +kernel
  constructor
  · rw [(parts_counted_once hsize 4).2.1 hgo, hparts]
    rfl
  · exact (parts_counted_once hsize 5).2.2 (by decide +kernel)

end SoftPlc.App.DemoRun
