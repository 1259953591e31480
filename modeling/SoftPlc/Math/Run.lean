/-
# Runs of a labelled step function

A concurrent system is presented here by one partial step function: the label
says which party moves and how the environment answers it, and `none` says the
label is not enabled. A schedule is a list of labels, so a run is a computable
object and a concrete run can be evaluated.

`Meets` records a condition on every step a schedule takes, evaluated at the
state *before* the step. It is the form in which an environment assumption, or
the avoidance of one particular step, enters a safety theorem. `exec_invariant`
is the only induction over runs: each safety result supplies an invariant and
its preservation by one step.
-/

import Mathlib.Algebra.Order.Ring.Nat
import Mathlib.Data.List.Basic

namespace SoftPlc.Math

universe u v w

variable {σ : Type u} {α : Type v}

/-- Run a schedule, failing at the first label that is not enabled. -/
def exec (step : σ → α → Option σ) : σ → List α → Option σ
  | state, [] => some state
  | state, label :: rest => (step state label).bind fun next => exec step next rest

/-- The first label of a successful run is enabled, and the rest runs from the
state it leads to. -/
theorem exec_cons_eq_some {step : σ → α → Option σ} {state final : σ}
    {label : α} {rest : List α} :
    exec step state (label :: rest) = some final ↔
      ∃ next, step state label = some next ∧ exec step next rest = some final := by
  simp only [exec, Option.bind_eq_some_iff]

/-- Running the labels that others stand for. -/
theorem exec_map {β : Type w} (step : σ → α → Option σ) (label : β → α) (start : σ)
    (schedule : List β) :
    exec step start (schedule.map label) =
      exec (fun state first => step state (label first)) start schedule := by
  induction schedule generalizing start with
  | nil => rfl
  | cons first rest ih =>
      rw [List.map_cons, exec, exec]
      simp only [ih]

/-- A run goes on with another schedule. -/
theorem exec_append {step : σ → α → Option σ} {start state : σ} {schedule : List α}
    (hrun : exec step start schedule = some state) (later : List α) :
    exec step start (schedule ++ later) = exec step state later := by
  induction schedule generalizing start with
  | nil =>
      cases hrun
      rfl
  | cons first rest ih =>
      obtain ⟨next, hstep, hrest⟩ := exec_cons_eq_some.mp hrun
      rw [List.cons_append, exec, hstep, Option.bind_some]
      exact ih hrest

/-- A run goes on with one more label. -/
theorem exec_concat {step : σ → α → Option σ} {start state : σ} {schedule : List α} {label : α}
    (hrun : exec step start schedule = some state) :
    exec step start (schedule ++ [label]) = step state label :=
  (exec_append hrun [label]).trans (Option.bind_fun_some _)

/-- The last label of a successful run is enabled where the others lead. -/
theorem exec_concat_eq_some {step : σ → α → Option σ} {start final : σ} {schedule : List α}
    {label : α} :
    exec step start (schedule ++ [label]) = some final ↔
      ∃ middle, exec step start schedule = some middle ∧ step middle label = some final := by
  induction schedule generalizing start with
  | nil => simp [exec]
  | cons first rest ih =>
      simp only [List.cons_append, exec_cons_eq_some, ih]
      constructor
      · rintro ⟨next, hstep, middle, hrest, hlast⟩
        exact ⟨middle, ⟨next, hstep, hrest⟩, hlast⟩
      · rintro ⟨middle, ⟨next, hstep, hrest⟩, hlast⟩
        exact ⟨next, hstep, middle, hrest, hlast⟩

/-- Every step the schedule takes satisfies `ok` at the state before it. -/
def Meets (step : σ → α → Option σ) (ok : σ → α → Prop) : σ → List α → Prop
  | _, [] => True
  | state, label :: rest =>
      ok state label ∧
        match step state label with
        | none => True
        | some next => Meets step ok next rest

/-- A decidable condition on steps gives a decidable condition on runs. -/
instance decidableMeets (step : σ → α → Option σ) (ok : σ → α → Prop)
    [∀ state label, Decidable (ok state label)] :
    ∀ (state : σ) (schedule : List α), Decidable (Meets step ok state schedule)
  | _, [] => inferInstanceAs (Decidable True)
  | state, label :: rest =>
      have : Decidable (match step state label with
          | none => True
          | some next => Meets step ok next rest) :=
        match step state label with
        | none => inferInstanceAs (Decidable True)
        | some next => decidableMeets step ok next rest
      inferInstanceAs (Decidable (_ ∧ _))

/-- Split the condition at the first step of an enabled schedule. -/
theorem meets_cons {step : σ → α → Option σ} {ok : σ → α → Prop}
    {state next : σ} {label : α} {rest : List α} (hstep : step state label = some next) :
    Meets step ok state (label :: rest) ↔ ok state label ∧ Meets step ok next rest := by
  simp only [Meets, hstep]

/-- A condition that every step meets is met by every run. -/
theorem meets_of_forall {step : σ → α → Option σ} {ok : σ → α → Prop}
    (hall : ∀ state label, ok state label) (state : σ) (schedule : List α) :
    Meets step ok state schedule := by
  induction schedule generalizing state with
  | nil => trivial
  | cons label rest ih =>
      refine ⟨hall state label, ?_⟩
      cases step state label with
      | none => trivial
      | some next => exact ih next

/-- **The invariant rule.** A property of the starting state that every step
meeting `ok` preserves holds wherever a run meeting `ok` leads. -/
theorem exec_invariant {step : σ → α → Option σ} {ok : σ → α → Prop}
    {inv : σ → Prop}
    (preserved : ∀ state label next, inv state → ok state label →
      step state label = some next → inv next)
    {start final : σ} {schedule : List α} (hstart : inv start)
    (hmeets : Meets step ok start schedule)
    (hrun : exec step start schedule = some final) : inv final := by
  induction schedule generalizing start with
  | nil =>
      cases hrun
      exact hstart
  | cons label rest ih =>
      obtain ⟨next, hstep, hrest⟩ := exec_cons_eq_some.mp hrun
      obtain ⟨hok, hmeets⟩ := (meets_cons hstep).mp hmeets
      exact ih (preserved start label next hstart hok hstep) hmeets hrest

/-- The invariant rule when steps are unconditioned. -/
theorem exec_invariant_all {step : σ → α → Option σ} {inv : σ → Prop}
    (preserved : ∀ state label next, inv state →
      step state label = some next → inv next)
    {start final : σ} {schedule : List α} (hstart : inv start)
    (hrun : exec step start schedule = some final) : inv final := by
  have hmeets : Meets step (fun _ _ => True) start schedule :=
    meets_of_forall (fun _ _ => trivial) start schedule
  exact exec_invariant
    (fun state label next hinv _ hstep => preserved state label next hinv hstep)
    hstart hmeets hrun

/-- The rule for a condition on the labels alone. -/
theorem exec_invariant_of_mem {step : σ → α → Option σ} {allowed : α → Prop} {inv : σ → Prop}
    (preserved : ∀ state label next, inv state → allowed label →
      step state label = some next → inv next)
    {start final : σ} {schedule : List α} (hstart : inv start)
    (hallowed : ∀ label ∈ schedule, allowed label)
    (hrun : exec step start schedule = some final) : inv final := by
  induction schedule generalizing start with
  | nil =>
      cases hrun
      exact hstart
  | cons label rest ih =>
      obtain ⟨next, hstep, hrest⟩ := exec_cons_eq_some.mp hrun
      obtain ⟨hfirst, hlater⟩ := List.forall_mem_cons.mp hallowed
      exact ih (preserved start label next hstart hfirst hstep) hlater hrest

/-- A counter of the steps that violate a condition stands still exactly in the
runs that meet it. Counting may rely on an invariant of the system. -/
theorem meets_iff_counter_eq {step : σ → α → Option σ} {ok : σ → α → Prop}
    [∀ state label, Decidable (ok state label)] {inv : σ → Prop} {counter : σ → ℕ}
    (preserved : ∀ state label next, inv state →
      step state label = some next → inv next)
    (hcount : ∀ state label next, inv state → step state label = some next →
      counter next = counter state + if ok state label then 0 else 1)
    {start final : σ} {schedule : List α} (hstart : inv start)
    (hrun : exec step start schedule = some final) :
    counter start ≤ counter final ∧
      (Meets step ok start schedule ↔ counter final = counter start) := by
  induction schedule generalizing start with
  | nil =>
      cases hrun
      simp [Meets]
  | cons label rest ih =>
      obtain ⟨next, hstep, hrest⟩ := exec_cons_eq_some.mp hrun
      have hnext := hcount start label next hstart hstep
      obtain ⟨hlater, hmeets⟩ := ih (preserved start label next hstart hstep) hrest
      rw [meets_cons hstep]
      by_cases hok : ok start label
      · simp only [hok, if_true, Nat.add_zero] at hnext
        rw [hnext] at hlater hmeets
        exact ⟨hlater, by simp only [hok, true_and, hmeets]⟩
      · simp only [hok, if_false] at hnext
        refine ⟨by omega, ?_⟩
        simp only [hok, false_and, false_iff]
        omega

/-- A property holds in every state a schedule visits, the last included. -/
def Always (step : σ → α → Option σ) (good : σ → Prop) : σ → List α → Prop
  | state, [] => good state
  | state, label :: rest =>
      good state ∧
        match step state label with
        | none => True
        | some next => Always step good next rest

/-- **The exact condition on runs.** If, from a good state, exactly the steps
that meet `ok` lead to a good state, then the runs that stay good throughout are
exactly the runs that meet `ok` throughout. -/
theorem meets_iff_always {step : σ → α → Option σ} {ok : σ → α → Prop}
    {inv good : σ → Prop}
    (preserved : ∀ state label next, inv state →
      step state label = some next → inv next)
    (exact_step : ∀ state label next, inv state → good state →
      step state label = some next → (ok state label ↔ good next))
    {start final : σ} {schedule : List α} (hinv : inv start) (hgood : good start)
    (hrun : exec step start schedule = some final) :
    Meets step ok start schedule ↔ Always step good start schedule := by
  induction schedule generalizing start with
  | nil =>
      simp only [Meets, Always]
      exact ⟨fun _ => hgood, fun _ => trivial⟩
  | cons label rest ih =>
      obtain ⟨next, hstep, hrest⟩ := exec_cons_eq_some.mp hrun
      have hinvNext := preserved start label next hinv hstep
      have hexact := exact_step start label next hinv hgood hstep
      rw [meets_cons hstep]
      simp only [Always, hstep, hgood, true_and]
      constructor
      · rintro ⟨hok, hmeets⟩
        exact (ih hinvNext (hexact.mp hok) hrest).mp hmeets
      · intro halways
        have hgoodNext : good next := by
          cases rest with
          | nil => exact halways
          | cons label' rest' => exact halways.1
        exact ⟨hexact.mpr hgoodNext, (ih hinvNext hgoodNext hrest).mpr halways⟩

end SoftPlc.Math
