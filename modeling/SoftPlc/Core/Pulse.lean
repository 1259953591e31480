/-
# The pulse timer

`TP` answers a rising edge with a pulse of length `PT`. An edge while a pulse runs does
not restart it, and neither does an edge at the scan that ends it. Which edges start a
pulse therefore depends on the output of the block itself: a trigger is an edge that
finds the output down.

The pulse begins with the scan of its trigger, whose own time is not counted. It runs
for as long as the scans after the trigger add up to less than `PT`, whatever the input
does in the meantime.
-/

import SoftPlc.Core.ScanTime

namespace SoftPlc

open SoftPlc.Math

/-- A zero-initialised block with a preset time, after a number of scans. -/
def tpAfter (PT : ℤ) (signal : ℕ → Bool) (dt : ℕ → ℤ) : ℕ → Tp
  | 0 => { IN := false, Q := false, PT := PT, ET := 0, mPrev := false }
  | k + 1 => plcTpRun { tpAfter PT signal dt k with IN := signal k } (dt k)

/-- The input rises at a scan that finds the output down. -/
structure TpTrigger (PT : ℤ) (signal : ℕ → Bool) (dt : ℕ → ℤ) (s : ℕ) : Prop where
  on : signal s = true
  before : levelBefore signal s = false
  down : (tpAfter PT signal dt s).Q = false

/-- `plc_tp_run` in its own type. -/
def plcTpRunInt64 (fb : Tp) (dt : ℤ) : Option Tp :=
  if !fb.Q && fb.IN && !fb.mPrev then some { fb with Q := true, ET := 0, mPrev := fb.IN }
  else if fb.Q then
    (accumulateInt64 fb.ET dt fb.PT).map fun ET =>
      { fb with ET := ET, Q := !decide (fb.PT ≤ ET), mPrev := fb.IN }
  else if !fb.IN then some { fb with ET := 0, mPrev := fb.IN }
  else some { fb with mPrev := fb.IN }

/-- The block in its own type. After an overflow nothing is known of it. -/
def tpAfterInt64 (PT : ℤ) (signal : ℕ → Bool) (dt : ℕ → ℤ) : ℕ → Option Tp
  | 0 => some { IN := false, Q := false, PT := PT, ET := 0, mPrev := false }
  | k + 1 => do
      let fb ← tpAfterInt64 PT signal dt k
      plcTpRunInt64 { fb with IN := signal k } (dt k)

/-! ## One scan -/

@[simp]
theorem plcTpRun_PT (fb : Tp) (time : ℤ) : (plcTpRun fb time).PT = fb.PT := by
  unfold plcTpRun
  dsimp only
  split_ifs <;> rfl

@[simp]
theorem plcTpRun_mPrev (fb : Tp) (time : ℤ) : (plcTpRun fb time).mPrev = fb.IN := by
  unfold plcTpRun
  dsimp only
  split_ifs <;> rfl

variable {PT : ℤ} {signal : ℕ → Bool} {dt : ℕ → ℤ} {s k : ℕ}

@[simp]
theorem tpAfter_PT (PT : ℤ) (signal : ℕ → Bool) (dt : ℕ → ℤ) (k : ℕ) :
    (tpAfter PT signal dt k).PT = PT := by
  induction k with
  | zero => rfl
  | succ k ih => rw [tpAfter, plcTpRun_PT, ih]

@[simp]
theorem tpAfter_mPrev (PT : ℤ) (signal : ℕ → Bool) (dt : ℕ → ℤ) (k : ℕ) :
    (tpAfter PT signal dt k).mPrev = levelBefore signal k := by
  cases k with
  | zero => rfl
  | succ k => rw [tpAfter, plcTpRun_mPrev, levelBefore]

/-- A trigger raises the output and starts the time. -/
theorem TpTrigger.starts (h : TpTrigger PT signal dt s) :
    (tpAfter PT signal dt (s + 1)).Q = true ∧ (tpAfter PT signal dt (s + 1)).ET = 0 := by
  simp [tpAfter, plcTpRun, h.on, h.before, h.down]

/-- A scan of a running pulse adds its time, and ends the pulse at `PT`. -/
theorem tpAfter_of_up (hup : (tpAfter PT signal dt k).Q = true) :
    (tpAfter PT signal dt (k + 1)).ET = accumulate (tpAfter PT signal dt k).ET (dt k) PT ∧
      ((tpAfter PT signal dt (k + 1)).Q = true ↔
        (tpAfter PT signal dt (k + 1)).ET < PT) := by
  simp [tpAfter, plcTpRun, hup]

/-- Without a trigger an output that is down stays down, and the time is kept or reset. -/
theorem tpAfter_of_down (hdown : (tpAfter PT signal dt k).Q = false)
    (hnone : ¬ TpTrigger PT signal dt k) :
    (tpAfter PT signal dt (k + 1)).Q = false ∧
      ((tpAfter PT signal dt (k + 1)).ET = (tpAfter PT signal dt k).ET ∨
        (tpAfter PT signal dt (k + 1)).ET = 0) := by
  have hedge : (signal k && !levelBefore signal k) = false := by
    by_contra hrises
    simp only [Bool.not_eq_false, Bool.and_eq_true, Bool.not_eq_true'] at hrises
    exact hnone ⟨hrises.1, hrises.2, hdown⟩
  simp only [tpAfter, plcTpRun, hdown, tpAfter_mPrev, Bool.not_false, Bool.true_and, hedge]
  cases signal k with
  | true => exact ⟨rfl, .inl rfl⟩
  | false => exact ⟨rfl, .inr rfl⟩

/-- What a scan can do to the block. -/
theorem tpAfter_cases (PT : ℤ) (signal : ℕ → Bool) (dt : ℕ → ℤ) (k : ℕ) :
    TpTrigger PT signal dt k ∨ (tpAfter PT signal dt k).Q = true ∨
      (tpAfter PT signal dt k).Q = false ∧ ¬ TpTrigger PT signal dt k := by
  cases hQ : (tpAfter PT signal dt k).Q with
  | true => exact .inr (.inl rfl)
  | false =>
      by_cases htrigger : TpTrigger PT signal dt k
      · exact .inl htrigger
      · exact .inr (.inr ⟨rfl, htrigger⟩)

/-! ## The time -/

/-- The time stays within `PT` and within the times of the scans so far. -/
structure TpBounds (PT : ℤ) (signal : ℕ → Bool) (dt : ℕ → ℤ) (k : ℕ) : Prop where
  nonneg : 0 ≤ (tpAfter PT signal dt k).ET
  le_PT : (tpAfter PT signal dt k).ET ≤ PT
  le_total : (tpAfter PT signal dt k).ET ≤ ∑ i ∈ Finset.range k, dt i

theorem tpAfter_bounds (hPT : 0 < PT) (hdt : ∀ i, 0 ≤ dt i) (k : ℕ) :
    TpBounds PT signal dt k := by
  induction k with
  | zero => exact ⟨le_rfl, hPT.le, le_rfl⟩
  | succ k ih =>
      have htotal : 0 ≤ ∑ i ∈ Finset.range k, dt i := ih.nonneg.trans ih.le_total
      have hnext := hdt k
      have hsum : ∑ i ∈ Finset.range (k + 1), dt i = (∑ i ∈ Finset.range k, dt i) + dt k :=
        Finset.sum_range_succ dt k
      rcases tpAfter_cases PT signal dt k with htrigger | hup | ⟨hdown, hnone⟩
      · have hzero := htrigger.starts.2
        constructor <;> omega
      · have hET := (tpAfter_of_up hup).1
        rw [accumulate_eq_min hnext ih.le_PT] at hET
        have hnonneg := ih.nonneg
        have hle := ih.le_total
        constructor <;> omega
      · obtain ⟨hnonneg, hPT, hle⟩ := ih
        rcases (tpAfter_of_down hdown hnone).2 with hET | hET
        all_goals constructor <;> omega

/-- While the output is up after the scans since a trigger, the time counts them. -/
theorem TpTrigger.counts (h : TpTrigger PT signal dt s) (hPT : 0 < PT) (hdt : ∀ i, 0 ≤ dt i)
    (hle : s ≤ k) (hruns : ∀ i, s ≤ i → i < k → (tpAfter PT signal dt (i + 1)).Q = true) :
    (tpAfter PT signal dt (k + 1)).ET = min PT (elapsed dt s k) := by
  induction k, hle using Nat.le_induction with
  | base => rw [h.starts.2, elapsed_self, min_eq_right hPT.le]
  | succ k hle ih =>
      have hbefore := ih fun i hfrom hto => hruns i hfrom (Nat.lt_succ_of_lt hto)
      have hup := hruns k hle (Nat.lt_succ_self k)
      have hnext := hdt (k + 1)
      rw [(tpAfter_of_up hup).1, hbefore, accumulate_eq_min hnext (min_le_left ..),
        elapsed_succ dt hle]
      omega

/-! ## The pulse -/

/-- A pulse runs for as long as the scans after its trigger stay below `PT`. -/
theorem TpTrigger.runs (h : TpTrigger PT signal dt s) (hPT : 0 < PT) (hdt : ∀ i, 0 ≤ dt i)
    (hle : s ≤ k) (hshort : elapsed dt s k < PT) : (tpAfter PT signal dt (k + 1)).Q = true := by
  induction k using Nat.strong_induction_on with
  | _ k ih =>
      rcases Nat.eq_or_lt_of_le hle with rfl | hlt
      · exact h.starts.1
      · obtain ⟨last, rfl⟩ : ∃ last, k = last + 1 := Nat.exists_eq_succ_of_ne_zero (by omega)
        have hearlier : ∀ i, s ≤ i → i < last + 1 → (tpAfter PT signal dt (i + 1)).Q = true := by
          intro i hfrom hto
          apply ih i hto hfrom
          exact lt_of_le_of_lt (elapsed_mono hdt (Nat.le_of_lt hto)) hshort
        rw [(tpAfter_of_up (hearlier last (by omega) (Nat.lt_succ_self last))).2,
          h.counts hPT hdt hle hearlier]
        exact min_lt_of_right_lt hshort

/-- An output that is up goes back to a trigger. -/
theorem exists_tpTrigger (hPT : 0 < PT) (hdt : ∀ i, 0 ≤ dt i)
    (hup : (tpAfter PT signal dt (k + 1)).Q = true) :
    ∃ s ≤ k, TpTrigger PT signal dt s ∧ elapsed dt s k < PT := by
  induction k with
  | zero =>
      have htrigger : TpTrigger PT signal dt 0 := by
        by_contra hnone
        rw [(tpAfter_of_down rfl hnone).1] at hup
        cases hup
      exact ⟨0, le_rfl, htrigger, by rwa [elapsed_self]⟩
  | succ k ih =>
      rcases tpAfter_cases PT signal dt (k + 1) with htrigger | hbefore | ⟨hdown, hnone⟩
      · exact ⟨k + 1, le_rfl, htrigger, by rwa [elapsed_self]⟩
      · obtain ⟨s, hle, htrigger, hshort⟩ := ih hbefore
        have hruns : ∀ i, s ≤ i → i < k + 1 → (tpAfter PT signal dt (i + 1)).Q = true := by
          intro i hfrom hto
          apply htrigger.runs hPT hdt hfrom
          exact lt_of_le_of_lt (elapsed_mono hdt (Nat.le_of_lt_succ hto)) hshort
        have hET := htrigger.counts hPT hdt (Nat.le_succ_of_le hle) hruns
        rw [(tpAfter_of_up hbefore).2, hET] at hup
        refine ⟨s, Nat.le_succ_of_le hle, htrigger, ?_⟩
        exact (min_lt_iff.mp hup).resolve_left (lt_irrefl PT)
      · rw [(tpAfter_of_down hdown hnone).1] at hup
        cases hup

/-! ## Signed overflow -/

theorem plcTpRunInt64_eq_some {fb : Tp} {time : ℤ} (het : 0 ≤ fb.ET) (htime : 0 ≤ time)
    (hsum : fb.ET + time < 2 ^ 62) : plcTpRunInt64 fb time = some (plcTpRun fb time) := by
  simp only [plcTpRunInt64, plcTpRun, accumulateInt64_eq_some het htime hsum, Option.map_some]
  split_ifs <;> rfl

theorem tpAfterInt64_eq_some (hPT : 0 < PT) (hdt : ∀ i, 0 ≤ dt i)
    (htotal : ∑ i ∈ Finset.range k, dt i < 2 ^ 62) :
    tpAfterInt64 PT signal dt k = some (tpAfter PT signal dt k) := by
  induction k with
  | zero => rfl
  | succ k ih =>
      rw [Finset.sum_range_succ] at htotal
      have hnext := hdt k
      have hbounds : TpBounds PT signal dt k := tpAfter_bounds hPT hdt k
      rw [tpAfterInt64, ih (by omega), Option.bind_eq_bind, Option.bind_some, tpAfter]
      have hsum : (tpAfter PT signal dt k).ET + dt k < 2 ^ 62 :=
        lt_of_le_of_lt (add_le_add_left hbounds.le_total (dt k)) htotal
      exact plcTpRunInt64_eq_some hbounds.nonneg hnext hsum

/-- **The trace of a pulse timer.** For every input and all scan times whose sum stays
below `2 ^ 62`, nothing overflows, and after each scan: the output is up exactly if the
scans after some trigger add up to less than `PT`; while a pulse runs, and at the scan
that ends it, the time is what these scans add up to, cut at `PT`; and the time lies
between zero and `PT`. -/
theorem pulse_trace (hPT : 0 < PT) (hdt : ∀ i, 0 ≤ dt i)
    (htotal : ∑ i ∈ Finset.range (k + 1), dt i < 2 ^ 62) :
    let fb := tpAfter PT signal dt (k + 1)
    tpAfterInt64 PT signal dt (k + 1) = some fb ∧
    (fb.Q = true ↔ ∃ s ≤ k, TpTrigger PT signal dt s ∧ elapsed dt s k < PT) ∧
    (∀ s ≤ k, TpTrigger PT signal dt s →
      (∀ i, s ≤ i → i < k → (tpAfter PT signal dt (i + 1)).Q = true) →
        fb.ET = min PT (elapsed dt s k)) ∧
    0 ≤ fb.ET ∧ fb.ET ≤ PT := by
  intro fb
  have hbounds : TpBounds PT signal dt (k + 1) := tpAfter_bounds hPT hdt (k + 1)
  refine ⟨tpAfterInt64_eq_some hPT hdt htotal, ⟨exists_tpTrigger hPT hdt, ?_⟩, ?_,
    hbounds.nonneg, hbounds.le_PT⟩
  · rintro ⟨s, hle, htrigger, hshort⟩
    exact htrigger.runs hPT hdt hle hshort
  · intro s hle htrigger hruns
    exact htrigger.counts hPT hdt hle hruns

/-- An input that rises again at the scan that ends its pulse, and is then held. -/
def reTriggered (k : ℕ) : Bool := k ≠ 1

theorem pulse_trace_reTriggered :
    (tpAfter 20 reTriggered (fun _ => 10) 2).Q = true ∧
      (tpAfter 20 reTriggered (fun _ => 10) 4).Q = false ∧
      ¬ ∃ s ≤ 3, TpTrigger 20 reTriggered (fun _ => 10) s ∧ elapsed (fun _ => 10) s 3 < 20 := by
  have hdown : (tpAfter 20 reTriggered (fun _ => 10) 4).Q = false := by decide
  have hten : (0 : ℤ) ≤ 10 := by decide
  have htrace := @pulse_trace 20 reTriggered (fun _ => 10) 3 (by decide) (fun _ => hten)
    (by decide)
  refine ⟨by decide, hdown, fun hexists => ?_⟩
  rw [htrace.2.1.mpr hexists] at hdown
  cases hdown

end SoftPlc
