/-
# The delay timers

`TON` raises its output once the input has been on for `PT`, and `TOF` keeps it up
until the input has been off for `PT`. Both add up the times of the scans. They begin
with the scan that shows the change, whose time lies before the change was seen, so
that a long scan at the change shortens the delay by its own length. The pulse timer
`TP` begins one scan later.

Times are integers, and no sum of them is taken to overflow.
-/

import SoftPlc.Math.Signal

namespace SoftPlc

open SoftPlc.Math

/-- `plc_ton_t`. -/
structure Ton where
  IN : Bool
  Q : Bool
  PT : ℤ
  ET : ℤ
  deriving DecidableEq, Repr

/-- `plc_tof_t`. -/
structure Tof where
  IN : Bool
  Q : Bool
  PT : ℤ
  ET : ℤ
  mPrev : Bool
  mRunning : Bool
  deriving DecidableEq, Repr

/-- `plc_tp_t`. -/
structure Tp where
  IN : Bool
  Q : Bool
  PT : ℤ
  ET : ℤ
  mPrev : Bool
  deriving DecidableEq, Repr

/-- `accumulate`. -/
def accumulate (et dt pt : ℤ) : ℤ :=
  let dt := if dt < 0 then 0 else dt
  if pt ≤ et then pt
  else if pt < et + dt then pt
  else et + dt

/-- `plc_ton_run`. -/
def plcTonRun (fb : Ton) (dt : ℤ) : Ton :=
  if !fb.IN then { fb with ET := 0, Q := false }
  else
    let ET := accumulate fb.ET dt fb.PT
    { fb with ET := ET, Q := fb.PT ≤ ET }

/-- `plc_tof_run`. -/
def plcTofRun (fb : Tof) (dt : ℤ) : Tof :=
  if fb.IN then { fb with ET := 0, Q := true, mRunning := false, mPrev := fb.IN }
  else
    -- a falling edge starts the delay
    let fb := if fb.mPrev then { fb with ET := 0, mRunning := true } else fb
    if fb.mRunning then
      let ET := accumulate fb.ET dt fb.PT
      if fb.PT ≤ ET then { fb with ET := ET, Q := false, mRunning := false, mPrev := fb.IN }
      else { fb with ET := ET, mPrev := fb.IN }
    else { fb with mPrev := fb.IN }

/-- `plc_tp_run`. -/
def plcTpRun (fb : Tp) (dt : ℤ) : Tp :=
  -- a rising edge starts the pulse, and does not restart it
  if !fb.Q && fb.IN && !fb.mPrev then { fb with Q := true, ET := 0, mPrev := fb.IN }
  else if fb.Q then
    let ET := accumulate fb.ET dt fb.PT
    { fb with ET := ET, Q := !decide (fb.PT ≤ ET), mPrev := fb.IN }
  else if !fb.IN then { fb with ET := 0, mPrev := fb.IN }
  else { fb with mPrev := fb.IN }

/-! ## Traces -/

/-- A zero-initialised block with a preset time, after a number of scans. -/
def tonAfter (PT : ℤ) (signal : ℕ → Bool) (dt : ℕ → ℤ) : ℕ → Ton
  | 0 => { IN := false, Q := false, PT := PT, ET := 0 }
  | k + 1 => plcTonRun { tonAfter PT signal dt k with IN := signal k } (dt k)

def tofAfter (PT : ℤ) (signal : ℕ → Bool) (dt : ℕ → ℤ) : ℕ → Tof
  | 0 => { IN := false, Q := false, PT := PT, ET := 0, mPrev := false, mRunning := false }
  | k + 1 => plcTofRun { tofAfter PT signal dt k with IN := signal k } (dt k)

variable {PT : ℤ} {signal : ℕ → Bool} {dt : ℕ → ℤ} {j k : ℕ}

theorem accumulate_eq_min {et time pt : ℤ} (htime : 0 ≤ time) (het : et ≤ pt) :
    accumulate et time pt = min pt (et + time) := by
  unfold accumulate
  dsimp only
  split_ifs <;> omega

/-! ## The on-delay -/

@[simp]
theorem tonAfter_PT (PT : ℤ) (signal : ℕ → Bool) (dt : ℕ → ℤ) (k : ℕ) :
    (tonAfter PT signal dt k).PT = PT := by
  induction k with
  | zero => rfl
  | succ k ih =>
      rw [tonAfter, plcTonRun]
      split_ifs <;> exact ih

theorem tonAfter_of_off (hoff : signal k = false) :
    (tonAfter PT signal dt (k + 1)).ET = 0 ∧ (tonAfter PT signal dt (k + 1)).Q = false := by
  simp [tonAfter, plcTonRun, hoff]

theorem tonAfter_of_on (hon : signal k = true) :
    (tonAfter PT signal dt (k + 1)).ET = accumulate (tonAfter PT signal dt k).ET (dt k) PT ∧
      ((tonAfter PT signal dt (k + 1)).Q = true ↔
        PT ≤ (tonAfter PT signal dt (k + 1)).ET) := by
  simp [tonAfter, plcTonRun, hon]

/-- The time is zero when the input comes on. -/
theorem tonAfter_ET_at_change (hchange : levelBefore signal k ≠ true) :
    (tonAfter PT signal dt k).ET = 0 := by
  cases k with
  | zero => rfl
  | succ k =>
      have hoff : signal k = false := Bool.eq_false_of_not_eq_true hchange
      exact (tonAfter_of_off hoff).1

/-- While the input is on the block counts from the scan before the change. -/
theorem tonAfter_since (hPT : 0 < PT) (hdt : ∀ i, 0 ≤ dt i)
    (hsince : ShowsSince signal true j k) :
    (tonAfter PT signal dt (k + 1)).ET = min PT (dt j + elapsed dt j k) := by
  apply hsince.rec_on_scans
  · intro hon
    rw [(tonAfter_of_on hon).1, tonAfter_ET_at_change hsince.change,
      accumulate_eq_min (hdt j) hPT.le, elapsed_self, zero_add, add_zero]
  · intro i hle _ hon ih
    rw [(tonAfter_of_on hon).1, ih, accumulate_eq_min (hdt _) (min_le_left _ _),
      elapsed_succ dt hle]
    have := hdt (i + 1)
    omega

theorem tonAfter_Q_iff (hPT : 0 < PT) (hdt : ∀ i, 0 ≤ dt i)
    (hsince : ShowsSince signal true j k) :
    (tonAfter PT signal dt (k + 1)).Q = true ↔ PT ≤ dt j + elapsed dt j k := by
  rw [(tonAfter_of_on (hsince.shows k hsince.le le_rfl)).2, tonAfter_since hPT hdt hsince,
    le_min_iff]
  exact and_iff_right le_rfl

/-! ## The off-delay -/

@[simp]
theorem plcTofRun_PT (fb : Tof) (time : ℤ) : (plcTofRun fb time).PT = fb.PT := by
  unfold plcTofRun
  dsimp only
  split_ifs <;> rfl

@[simp]
theorem plcTofRun_mPrev (fb : Tof) (time : ℤ) : (plcTofRun fb time).mPrev = fb.IN := by
  unfold plcTofRun
  dsimp only
  split_ifs <;> rfl

@[simp]
theorem tofAfter_PT (PT : ℤ) (signal : ℕ → Bool) (dt : ℕ → ℤ) (k : ℕ) :
    (tofAfter PT signal dt k).PT = PT := by
  induction k with
  | zero => rfl
  | succ k ih => rw [tofAfter, plcTofRun_PT, ih]

@[simp]
theorem tofAfter_mPrev (PT : ℤ) (signal : ℕ → Bool) (dt : ℕ → ℤ) (k : ℕ) :
    (tofAfter PT signal dt k).mPrev = levelBefore signal k := by
  cases k with
  | zero => rfl
  | succ k => rw [tofAfter, plcTofRun_mPrev, levelBefore]

/-- The output follows the input up. -/
theorem tofAfter_of_on (hon : levelBefore signal k = true) :
    (tofAfter PT signal dt k).Q = true := by
  cases k with
  | zero => cases hon
  | succ k =>
      have hon : signal k = true := hon
      simp [tofAfter, plcTofRun, hon]

/-- A block whose delay has counted a time: it runs and holds the output up to `PT`. -/
structure Tof.Delayed (fb : Tof) (time : ℤ) : Prop where
  Q : fb.Q = true ↔ time < fb.PT
  running : fb.mRunning = true ↔ time < fb.PT
  ET : time < fb.PT → fb.ET = time

/-- The scan with the falling edge counts its own time. -/
theorem Tof.Delayed.edge {fb : Tof} {time : ℤ} (hoff : fb.IN = false)
    (hprev : fb.mPrev = true) (hQ : fb.Q = true) (hPT : 0 < fb.PT) (htime : 0 ≤ time) :
    (plcTofRun fb time).Delayed time := by
  have hET := accumulate_eq_min htime hPT.le
  rw [zero_add] at hET
  rw [plcTofRun, hoff, hprev]
  by_cases hlate : fb.PT ≤ time
  · rw [min_eq_left hlate] at hET
    constructor <;> simp [hET, hlate]
  · rw [min_eq_right (by omega)] at hET
    constructor <;> simp [hET, hlate, hQ] <;> omega

/-- A further scan with the input off counts its time too. -/
theorem Tof.Delayed.scan {fb : Tof} {counted time : ℤ} (h : fb.Delayed counted)
    (hprev : fb.mPrev = false) (htime : 0 ≤ time) :
    (plcTofRun { fb with IN := false } time).Delayed (counted + time) := by
  rw [plcTofRun]
  by_cases hdone : counted < fb.PT
  · have hET := accumulate_eq_min htime hdone.le
    by_cases hlate : fb.PT ≤ counted + time
    · rw [min_eq_left hlate] at hET
      constructor <;> simp [hprev, h.running.mpr hdone, h.ET hdone, hET, hlate]
    · rw [min_eq_right (by omega)] at hET
      constructor <;> simp [hprev, h.running.mpr hdone, h.ET hdone, hET, hlate, h.Q.mpr hdone] <;>
        omega
  · have hstopped : fb.mRunning = false := Bool.eq_false_of_not_eq_true (mt h.running.mp hdone)
    have hlow : fb.Q = false := Bool.eq_false_of_not_eq_true (mt h.Q.mp hdone)
    constructor <;> simp [hprev, hstopped, hlow] <;> omega

/-- While the input is off after an edge the delay counts from the scan before it. -/
theorem tofAfter_since (hPT : 0 < PT) (hdt : ∀ i, 0 ≤ dt i)
    (hsince : ShowsSince signal false j k) :
    (tofAfter PT signal dt (k + 1)).Delayed (dt j + elapsed dt j k) := by
  apply hsince.rec_on_scans
  · intro hoff
    have hbefore : levelBefore signal j = true := Bool.eq_true_of_not_eq_false hsince.change
    rw [elapsed_self, add_zero]
    exact .edge hoff (by simp [hbefore]) (tofAfter_of_on hbefore) (by simpa using hPT) (hdt j)
  · intro i hle hbefore hoff ih
    rw [elapsed_succ dt hle, ← add_assoc, tofAfter, hoff]
    exact ih.scan (by simp [levelBefore, hbefore]) (hdt _)

/-! ## The delays -/

/-- The output of `TON` is up only when the input has been observed on for `PT`. -/
def TonDelays (PT : ℤ) (signal : ℕ → Bool) (dt : ℕ → ℤ) (k : ℕ) : Prop :=
  (tonAfter PT signal dt (k + 1)).Q = true →
    ∃ j ≤ k, Shows signal true j k ∧ PT ≤ elapsed dt j k

/-- The output of `TOF` stays up until the input has been observed off for `PT`. -/
def TofDelays (PT : ℤ) (signal : ℕ → Bool) (dt : ℕ → ℤ) (k : ℕ) : Prop :=
  ∀ j, ShowsSince signal false j k → elapsed dt j k < PT →
    (tofAfter PT signal dt (k + 1)).Q = true

theorem tonDelays_iff (hPT : 0 < PT) (hdt : ∀ i, 0 ≤ dt i) :
    TonDelays PT signal dt k ↔ ∀ j, ShowsSince signal true j k →
      elapsed dt j k < PT → dt j + elapsed dt j k < PT := by
  constructor
  · intro hdelays j hsince hshort
    by_contra hcut
    have hQ := (tonAfter_Q_iff hPT hdt hsince).mpr (not_lt.mp hcut)
    obtain ⟨i, -, hshows, hlong⟩ := hdelays hQ
    have hanti : elapsed dt i k ≤ elapsed dt j k := elapsed_anti hdt (hsince.le_of_shows hshows)
    omega
  · intro hcounts hQ
    have hon : signal k = true := by
      by_contra hoff
      rw [(tonAfter_of_off (Bool.eq_false_of_not_eq_true hoff)).2] at hQ
      cases hQ
    obtain ⟨j, hsince⟩ := exists_showsSince hon
    refine ⟨j, hsince.le, hsince.shows, ?_⟩
    by_contra hshort
    exact absurd ((tonAfter_Q_iff hPT hdt hsince).mp hQ)
      (not_le.mpr (hcounts j hsince (not_le.mp hshort)))

theorem tofDelays_iff (hPT : 0 < PT) (hdt : ∀ i, 0 ≤ dt i) :
    TofDelays PT signal dt k ↔ ∀ j, ShowsSince signal false j k →
      elapsed dt j k < PT → dt j + elapsed dt j k < PT := by
  apply forall₂_congr
  intro j hsince
  rw [(tofAfter_since hPT hdt hsince).Q, tofAfter_PT]

/-- After a scan both delays are kept exactly if the time of the scan that showed the
last change did not make up what was missing of `PT`. -/
theorem delays_kept_iff (hPT : 0 < PT) (hdt : ∀ i, 0 ≤ dt i) :
    TonDelays PT signal dt k ∧ TofDelays PT signal dt k ↔
      ∀ level j, ShowsSince signal level j k →
        elapsed dt j k < PT → dt j + elapsed dt j k < PT := by
  rw [tonDelays_iff hPT hdt, tofDelays_iff hPT hdt, Bool.forall_bool, and_comm]

/-- An input that comes on at the second scan. -/
def risen (k : ℕ) : Bool := 1 ≤ k

/-- An input that goes off at the second scan. -/
def fallen (k : ℕ) : Bool := k < 1

/-- A second scan that comes late by the whole delay. -/
def stalled (k : ℕ) : ℤ := if k = 1 then 100 else 0

/-- A stalled scan in which the input changes leaves nothing of either delay. -/
theorem stalled_cuts_delays :
    (∀ k, 0 ≤ stalled k) ∧ ¬ TonDelays 100 risen stalled 1 ∧ ¬ TofDelays 100 fallen stalled 1 := by
  have hdt : ∀ k, 0 ≤ stalled k := by
    intro k
    unfold stalled
    split_ifs <;> decide
  have hrisen : ShowsSince risen true 1 1 := by
    refine ⟨le_rfl, by decide, fun i hstart _ => decide_eq_true hstart⟩
  have hfallen : ShowsSince fallen false 1 1 := by
    refine ⟨le_rfl, by decide, fun i hstart _ => decide_eq_false (not_lt.mpr hstart)⟩
  refine ⟨hdt, fun hton => ?_, fun htof => ?_⟩
  · exact absurd ((tonDelays_iff (by decide) hdt).mp hton 1 hrisen (by simp)) (by decide)
  · exact absurd ((tofDelays_iff (by decide) hdt).mp htof 1 hfallen (by simp)) (by decide)

/-- Scans ten apart, of which the second follows the first at once. -/
def prompt (k : ℕ) : ℤ := if k = 1 then 0 else 10

theorem delays_kept_iff_prompt :
    (tonAfter 100 risen prompt 12).Q = true ∧
      TonDelays 100 risen prompt 11 ∧ TofDelays 100 risen prompt 11 := by
  have hdt : ∀ k, 0 ≤ prompt k := by
    intro k
    unfold prompt
    split_ifs <;> decide
  refine ⟨by decide +kernel, (delays_kept_iff (by decide) hdt).mpr ?_⟩
  intro level j hsince hshort
  have hlevel : risen 11 = level := hsince.shows 11 hsince.le le_rfl
  subst hlevel
  -- the change is at the second scan, whose own time is zero
  have hle : j ≤ 1 := hsince.le_of_shows fun i hstart _ => decide_eq_true hstart
  have hrisen : 1 ≤ j := of_decide_eq_true (hsince.shows j le_rfl hsince.le)
  obtain rfl : j = 1 := le_antisymm hle hrisen
  rwa [prompt, if_pos rfl, zero_add]

end SoftPlc
