/-
# Runs that end

A party of a labelled system is sure to finish when it has only so many steps of
its own left, whatever the others do between them, and can always take the next one
until it is done. `Finishes` states both. A rank that the party's own steps lower and
no other step raises proves it, and then some run does reach the end.
-/

import SoftPlc.Math.Run

namespace SoftPlc.Math

universe u v

variable {σ : Type u} {α : Type v}

/-- A run that meets a condition goes on with a step that meets it. -/
theorem meets_concat {step : σ → α → Option σ} {ok : σ → α → Prop} {start state : σ}
    {schedule : List α} {label : α} (hrun : exec step start schedule = some state)
    (hmeets : Meets step ok start schedule) (hok : ok state label) :
    Meets step ok start (schedule ++ [label]) := by
  induction schedule generalizing start with
  | nil =>
      cases hrun
      refine ⟨hok, ?_⟩
      split <;> trivial
  | cons first rest ih =>
      obtain ⟨next, hstep, hrest⟩ := exec_cons_eq_some.mp hrun
      obtain ⟨hfirst, hmeets⟩ := (meets_cons hstep).mp hmeets
      exact (meets_cons hstep).mpr ⟨hfirst, ih hrest hmeets⟩

/-- In every run that meets `ok`, the party takes at most so many own steps, and
while it is not done it can take one. -/
def Finishes (step : σ → α → Option σ) (own : α → Bool) (ok : σ → α → Prop)
    (done : σ → Prop) (start : σ) : Prop :=
  ∃ bound, ∀ schedule state, exec step start schedule = some state →
    Meets step ok start schedule →
      schedule.countP own ≤ bound ∧
        (¬ done state → ∃ label next, own label = true ∧ ok state label ∧
          step state label = some next)

section Rank

variable {step : σ → α → Option σ} {own : α → Bool} {ok : σ → α → Prop}
  {done inv : σ → Prop} {rank : σ → ℕ}

/-- The own steps of a run are paid for by the rank. -/
theorem countP_add_rank_le
    (preserved : ∀ state label next, inv state → ok state label →
      step state label = some next → inv next)
    (lowered : ∀ state label next, inv state → ok state label →
      step state label = some next →
        rank next + (if own label = true then 1 else 0) ≤ rank state)
    {start final : σ} {schedule : List α} (hstart : inv start)
    (hmeets : Meets step ok start schedule)
    (hrun : exec step start schedule = some final) :
    schedule.countP own + rank final ≤ rank start := by
  induction schedule generalizing start with
  | nil =>
      cases hrun
      simp
  | cons label rest ih =>
      obtain ⟨next, hstep, hrest⟩ := exec_cons_eq_some.mp hrun
      obtain ⟨hok, hmeets⟩ := (meets_cons hstep).mp hmeets
      have hlater := ih (preserved start label next hstart hok hstep) hmeets hrest
      have hfirst := lowered start label next hstart hok hstep
      rw [List.countP_cons]
      omega

/-- **The ranking rule.** -/
theorem finishes_of_rank
    (preserved : ∀ state label next, inv state → ok state label →
      step state label = some next → inv next)
    (lowered : ∀ state label next, inv state → ok state label →
      step state label = some next →
        rank next + (if own label = true then 1 else 0) ≤ rank state)
    (enabled : ∀ state, inv state → ¬ done state →
      ∃ label next, own label = true ∧ ok state label ∧ step state label = some next)
    {start : σ} (hstart : inv start) : Finishes step own ok done start := by
  refine ⟨rank start, fun schedule state hrun hmeets => ⟨?_, ?_⟩⟩
  · have hpaid := countP_add_rank_le preserved lowered hstart hmeets hrun
    omega
  · exact enabled state (exec_invariant preserved hstart hmeets hrun)

end Rank

/-- What is sure to finish does finish in some run. -/
theorem Finishes.exists_done {step : σ → α → Option σ} {own : α → Bool}
    {ok : σ → α → Prop} {done : σ → Prop} {start : σ}
    (hfinishes : Finishes step own ok done start) :
    ∃ schedule final, exec step start schedule = some final ∧
      Meets step ok start schedule ∧ done final := by
  obtain ⟨bound, hbound⟩ := hfinishes
  by_contra hnever
  push Not at hnever
  -- otherwise there are runs with any number of own steps
  have hlong : ∀ count, ∃ schedule state, exec step start schedule = some state ∧
      Meets step ok start schedule ∧ schedule.countP own = count := by
    intro count
    induction count with
    | zero => exact ⟨[], start, rfl, trivial, rfl⟩
    | succ count ih =>
        obtain ⟨schedule, state, hrun, hmeets, hcount⟩ := ih
        obtain ⟨label, next, hown, hok, hstep⟩ :=
          (hbound schedule state hrun hmeets).2 (hnever schedule state hrun hmeets)
        refine ⟨schedule ++ [label], next, (exec_concat hrun).trans hstep,
          meets_concat hrun hmeets hok, ?_⟩
        rw [List.countP_append, hcount, List.countP_singleton, if_pos hown]
  obtain ⟨schedule, state, hrun, hmeets, hcount⟩ := hlong (bound + 1)
  have hle := (hbound schedule state hrun hmeets).1
  omega

end SoftPlc.Math
