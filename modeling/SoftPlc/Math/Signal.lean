/-
# Sampled signals

A cyclic program sees a boolean signal once in each scan, together with the time
since the scan before. Between two scans nothing is known of the signal. It has been
observed at a level from the first scan that showed it to the last, so the time of
that first scan, which reaches back before it, does not count.
-/

import Mathlib.Algebra.Order.BigOperators.Group.Finset
import Mathlib.Algebra.Order.Ring.Int
import Mathlib.Order.Interval.Finset.Nat
import Mathlib.Algebra.BigOperators.Intervals

namespace SoftPlc.Math

/-- The level at the scan before, `false` if there is none. -/
def levelBefore (signal : ℕ → Bool) : ℕ → Bool
  | 0 => false
  | k + 1 => signal k

/-- The signal shows a level at every scan from `j` to `k`. -/
def Shows (signal : ℕ → Bool) (level : Bool) (j k : ℕ) : Prop :=
  ∀ i, j ≤ i → i ≤ k → signal i = level

/-- The signal changes to a level at `j` and keeps it up to `k`. -/
structure ShowsSince (signal : ℕ → Bool) (level : Bool) (j k : ℕ) : Prop where
  le : j ≤ k
  change : levelBefore signal j ≠ level
  shows : Shows signal level j k

/-- The time from scan `j` to scan `k`. -/
def elapsed (dt : ℕ → ℤ) (j k : ℕ) : ℤ := ∑ i ∈ Finset.Ioc j k, dt i

variable {signal : ℕ → Bool} {level : Bool} {dt : ℕ → ℤ} {j k : ℕ}

@[simp]
theorem elapsed_self (dt : ℕ → ℤ) (j : ℕ) : elapsed dt j j = 0 := by
  rw [elapsed, Finset.Ioc_self, Finset.sum_empty]

theorem elapsed_succ (dt : ℕ → ℤ) (hle : j ≤ k) :
    elapsed dt j (k + 1) = elapsed dt j k + dt (k + 1) :=
  Finset.sum_Ioc_succ_top hle dt

/-- A later start leaves less time. -/
theorem elapsed_anti (hdt : ∀ i, 0 ≤ dt i) {i : ℕ} (hle : j ≤ i) :
    elapsed dt i k ≤ elapsed dt j k := by
  apply Finset.sum_le_sum_of_subset_of_nonneg (Finset.Ioc_subset_Ioc_left hle)
  exact fun other _ _ => hdt other

/-- A later end leaves more time. -/
theorem elapsed_mono (hdt : ∀ i, 0 ≤ dt i) {i : ℕ} (hle : i ≤ k) :
    elapsed dt j i ≤ elapsed dt j k := by
  apply Finset.sum_le_sum_of_subset_of_nonneg (Finset.Ioc_subset_Ioc_right hle)
  exact fun other _ _ => hdt other

/-- What the change establishes and every further scan at the level advances holds at
the last of them. -/
theorem ShowsSince.rec_on_scans {Holds : ℕ → Prop} (h : ShowsSince signal level j k)
    (change : signal j = level → Holds j)
    (scan : ∀ i, j ≤ i → signal i = level → signal (i + 1) = level → Holds i → Holds (i + 1)) :
    Holds k := by
  obtain ⟨hle, -, hshows⟩ := h
  induction k, hle using Nat.le_induction with
  | base => exact change (hshows j le_rfl le_rfl)
  | succ k hle ih =>
      have hbefore : Shows signal level j k :=
        fun i hstart hend => hshows i hstart (Nat.le_succ_of_le hend)
      apply scan k hle (hbefore k hle le_rfl) (hshows (k + 1) (Nat.le_succ_of_le hle) le_rfl)
      exact ih hbefore

/-- A signal that shows `true` changed to it at some scan. -/
theorem exists_showsSince (htrue : signal k = true) : ∃ j, ShowsSince signal true j k := by
  induction k with
  | zero =>
      refine ⟨0, le_rfl, nofun, fun i _ hend => ?_⟩
      rw [Nat.le_zero.mp hend, htrue]
  | succ k ih =>
      by_cases hbefore : signal k = true
      · obtain ⟨j, hle, hchange, hshows⟩ := ih hbefore
        refine ⟨j, Nat.le_succ_of_le hle, hchange, fun i hstart hend => ?_⟩
        rcases Nat.le_succ_iff.mp hend with hend | rfl
        · exact hshows i hstart hend
        · exact htrue
      · refine ⟨k + 1, le_rfl, hbefore, fun i hstart hend => ?_⟩
        rw [le_antisymm hend hstart, htrue]

/-- No level is shown from before the change to it. -/
theorem ShowsSince.le_of_shows (h : ShowsSince signal level j k) {i : ℕ}
    (hshows : Shows signal level i k) : j ≤ i := by
  by_contra hearlier
  obtain ⟨before, rfl⟩ : ∃ before, j = before + 1 := Nat.exists_eq_succ_of_ne_zero (by omega)
  exact h.change (hshows before (by omega) (Nat.le_of_succ_le h.le))

end SoftPlc.Math
