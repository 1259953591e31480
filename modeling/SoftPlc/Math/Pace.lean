/-
# Pacing by absolute deadlines

A periodic task sleeps until a deadline, starts, works, reads the clock, and sets
the next deadline one period after the last one, or at the reading when that is
already later. A late task thus loses cycles. Two facts follow for every pattern of
delays. Starts never come closer together than the whole periods between them, less
one; and a task that is never late keeps the deadlines of a fixed grid.

The three lists hold what has happened so far, in order. Deadline `i` is the one
that start `i` waits for, and reading `i` is taken after start `i`.
-/

import Mathlib.Algebra.Order.Ring.Int
import Mathlib.Data.List.GetD
import Mathlib.Tactic.Ring
import Mathlib.Tactic.Linarith
import SoftPlc.Math.Run

namespace SoftPlc.Math

/-- Look up an entry after one more was added at the end. -/
theorem getD_concat (entries : List ℤ) (last : ℤ) (index : ℕ) :
    (entries ++ [last]).getD index 0 =
      if index = entries.length then last else entries.getD index 0 := by
  rcases lt_trichotomy index entries.length with hlt | heq | hgt
  · rw [if_neg hlt.ne, List.getD_append _ _ _ _ hlt]
  · rw [if_pos heq, heq, List.getD_append_right _ _ _ _ le_rfl]
    simp
  · rw [if_neg hgt.ne', List.getD_eq_default _ _ hgt.le,
      List.getD_eq_default _ _ (by simpa using Nat.succ_le_of_lt hgt)]

/-- A history of a paced task. -/
structure Paced (period : ℤ) (deadlines starts readings : List ℤ) : Prop where
  next : ∀ i < readings.length, deadlines.getD (i + 1) 0 =
    max (deadlines.getD i 0 + period) (readings.getD i 0)
  waited : ∀ i < starts.length, deadlines.getD i 0 ≤ starts.getD i 0
  read : ∀ i < readings.length, starts.getD i 0 ≤ readings.getD i 0

namespace Paced

variable {period : ℤ} {deadlines starts readings : List ℤ}

/-- A task that waited for the last deadline may start. -/
theorem add_start (hpaced : Paced period deadlines starts readings) {start : ℤ}
    (hcount : starts.length = readings.length)
    (hwaited : deadlines.getD starts.length 0 ≤ start) :
    Paced period deadlines (starts ++ [start]) readings where
  next := hpaced.next
  waited := by
    intro i hi
    rw [List.length_append, List.length_singleton] at hi
    rw [getD_concat]
    split
    · next heq => exact heq ▸ hwaited
    · next hne => exact hpaced.waited i (by omega)
  read := by
    intro i hi
    rw [getD_concat, if_neg (by omega)]
    exact hpaced.read i hi

/-- A reading after the last start sets the next deadline. -/
theorem add_reading (hpaced : Paced period deadlines starts readings) {reading : ℤ}
    (hdeadlines : deadlines.length = readings.length + 1)
    (hstarts : starts.length = readings.length + 1)
    (hread : starts.getD readings.length 0 ≤ reading) :
    Paced period
      (deadlines ++ [max (deadlines.getD readings.length 0 + period) reading])
      starts (readings ++ [reading]) where
  next := by
    intro i hi
    rw [List.length_append, List.length_singleton] at hi
    rw [getD_concat, getD_concat, getD_concat, if_neg (show i ≠ deadlines.length by omega)]
    by_cases hlast : i = readings.length
    · rw [if_pos (by omega), if_pos hlast, hlast]
    · rw [if_neg (by omega), if_neg hlast]
      exact hpaced.next i (by omega)
  waited := by
    intro i hi
    rw [getD_concat, if_neg (by omega)]
    exact hpaced.waited i hi
  read := by
    intro i hi
    rw [List.length_append, List.length_singleton] at hi
    rw [getD_concat]
    split
    · next heq => exact heq ▸ hread
    · next hne => exact hpaced.read i (by omega)

/-- Each deadline is at least a period after the one before it. -/
theorem deadline_add_le (hpaced : Paced period deadlines starts readings) (i steps : ℕ)
    (hbound : i + steps ≤ readings.length) :
    deadlines.getD i 0 + steps * period ≤ deadlines.getD (i + steps) 0 := by
  induction steps with
  | zero => simp
  | succ steps ih =>
      have hnext := hpaced.next (i + steps) (by omega)
      have hmax := le_max_left (deadlines.getD (i + steps) 0 + period)
        (readings.getD (i + steps) 0)
      have hsteps := ih (by omega)
      rw [← add_assoc, hnext]
      push_cast
      linarith

/-- Start `i` comes no earlier than `i` periods after the first deadline. -/
theorem le_start (hpaced : Paced period deadlines starts readings)
    (hcount : starts.length ≤ readings.length + 1) {i : ℕ} (hi : i < starts.length) :
    deadlines.getD 0 0 + i * period ≤ starts.getD i 0 := by
  have hgrid := hpaced.deadline_add_le 0 i (by omega)
  rw [Nat.zero_add] at hgrid
  exact hgrid.trans (hpaced.waited i hi)

/-- **No burst.** Between two starts lie the periods between them, less one. -/
theorem spread (hpaced : Paced period deadlines starts readings)
    (hcount : starts.length ≤ readings.length + 1) {i j : ℕ} (hlt : i < j)
    (hj : j < starts.length) :
    ((j : ℤ) - i - 1) * period ≤ starts.getD j 0 - starts.getD i 0 := by
  obtain ⟨steps, rfl⟩ := Nat.exists_eq_add_of_lt hlt
  -- the deadline after start `i` is not before it
  have hafter : starts.getD i 0 ≤ deadlines.getD (i + 1) 0 :=
    calc starts.getD i 0 ≤ readings.getD i 0 := hpaced.read i (by omega)
      _ ≤ deadlines.getD (i + 1) 0 := hpaced.next i (by omega) ▸ le_max_right ..
  have hgrid := hpaced.deadline_add_le (i + 1) steps (by omega)
  have hwaited := hpaced.waited (i + steps + 1) hj
  rw [show i + 1 + steps = i + steps + 1 by omega] at hgrid
  push_cast
  linarith

/-- **No drift.** While no reading is late, the deadlines lie on the grid. -/
theorem on_grid (hpaced : Paced period deadlines starts readings) {n : ℕ}
    (hn : n ≤ readings.length)
    (hintime : ∀ i < n, readings.getD i 0 ≤ deadlines.getD 0 0 + (i + 1) * period) :
    deadlines.getD n 0 = deadlines.getD 0 0 + n * period := by
  induction n with
  | zero => simp
  | succ n ih =>
      have hgrid := ih (by omega) fun i hi => hintime i (by omega)
      have hlast := hintime n (by omega)
      rw [hpaced.next n (by omega), hgrid, max_eq_left (by linarith)]
      push_cast
      ring

end Paced

end SoftPlc.Math
