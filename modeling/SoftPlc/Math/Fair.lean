/-
# Fair turns

A scheduler hands out turns to the parties of a labelled system. A party that cannot
step lets its turn pass. The scheduler is fair if it works in rounds, in each of which
every party has a turn, however often and in whatever order. Labels that belong to no
party, such as signals from outside, may come at any time or never.

To show that every fair schedule ends, name for each state the party that is to help
next. Its turn lowers a rank; the turns of the others do not raise it, and leave the
helper the same as long as they do not lower it either. Then each round lowers the
rank, so there are only as many rounds as the rank says.
-/

import SoftPlc.Math.Run

namespace SoftPlc.Math

universe u v w

variable {σ : Type u} {α : Type v} {κ : Type w}

/-- A turn: the step if there is one. -/
def turn (step : σ → α → Option σ) (state : σ) (label : α) : σ := (step state label).getD state

/-- The state after a number of turns. -/
def turns (step : σ → α → Option σ) (state : σ) (labels : List α) : σ :=
  labels.foldl (turn step) state

/-- Every party has a turn. -/
def Round (party : α → Option κ) (labels : List α) : Prop :=
  ∀ who, ∃ label ∈ labels, party label = some who

/-- A rank that falls with each turn of the party that is to help. -/
structure Helped (step : σ → α → Option σ) (party : α → Option κ) (inv done : σ → Prop)
    (rank : σ → ℕ) (helper : σ → κ) : Prop where
  kept : ∀ state label next, inv state → step state label = some next → inv next
  settled : ∀ state label next, inv state → done state → step state label = some next → done next
  lowers : ∀ state label, inv state → ¬ done state → party label = some (helper state) →
    ∃ next, step state label = some next ∧ rank next < rank state
  waits : ∀ state label next, inv state → ¬ done state → step state label = some next →
    rank next < rank state ∨ rank next = rank state ∧ helper next = helper state

namespace Helped

variable {step : σ → α → Option σ} {party : α → Option κ} {inv done : σ → Prop} {rank : σ → ℕ}
  {helper : σ → κ} {state : σ}

theorem inv_turn (h : Helped step party inv done rank helper) (hinv : inv state) (label : α) :
    inv (turn step state label) := by
  cases hstep : step state label with
  | none =>
      rw [turn, hstep]
      exact hinv
  | some next =>
      rw [turn, hstep]
      exact h.kept state label next hinv hstep

theorem done_turn (h : Helped step party inv done rank helper) (hinv : inv state)
    (hdone : done state) (label : α) : done (turn step state label) := by
  cases hstep : step state label with
  | none =>
      rw [turn, hstep]
      exact hdone
  | some next =>
      rw [turn, hstep]
      exact h.settled state label next hinv hdone hstep

/-- A turn lowers the rank, or it changes neither rank nor helper and was not the
helper's. -/
theorem turn_cases (h : Helped step party inv done rank helper) (hinv : inv state)
    (hnot : ¬ done state) (label : α) :
    rank (turn step state label) < rank state ∨
      rank (turn step state label) = rank state ∧
        helper (turn step state label) = helper state ∧ party label ≠ some (helper state) := by
  by_cases hhelps : party label = some (helper state)
  · obtain ⟨next, hstep, hlower⟩ := h.lowers state label hinv hnot hhelps
    rw [turn, hstep]
    exact .inl hlower
  · cases hstep : step state label with
    | none =>
        rw [turn, hstep]
        exact .inr ⟨rfl, rfl, hhelps⟩
    | some next =>
        rw [turn, hstep]
        obtain hlower | ⟨hsame, hhelper⟩ := h.waits state label next hinv hnot hstep
        · exact .inl hlower
        · exact .inr ⟨hsame, hhelper, hhelps⟩

theorem inv_turns (h : Helped step party inv done rank helper) (hinv : inv state)
    (labels : List α) : inv (turns step state labels) := by
  induction labels generalizing state with
  | nil => exact hinv
  | cons label rest ih => exact ih (h.inv_turn hinv label)

theorem done_turns (h : Helped step party inv done rank helper) (hinv : inv state)
    (hdone : done state) (labels : List α) : done (turns step state labels) := by
  induction labels generalizing state with
  | nil => exact hdone
  | cons label rest ih => exact ih (h.inv_turn hinv label) (h.done_turn hinv hdone label)

/-- A sequence of turns that does not get anywhere has left the helper out. -/
theorem turns_cases (h : Helped step party inv done rank helper) (hinv : inv state)
    (labels : List α) :
    done (turns step state labels) ∨ rank (turns step state labels) < rank state ∨
      rank (turns step state labels) = rank state ∧
        helper (turns step state labels) = helper state ∧
        ∀ label ∈ labels, party label ≠ some (helper state) := by
  induction labels generalizing state with
  | nil => exact .inr (.inr ⟨rfl, rfl, nofun⟩)
  | cons label rest ih =>
      by_cases hdone : done state
      · exact .inl (h.done_turns hinv hdone (label :: rest))
      · have hlater := ih (h.inv_turn hinv label)
        obtain hlower | ⟨hsame, hhelper, hother⟩ := h.turn_cases hinv hdone label
        · obtain hend | hless | ⟨heq, -, -⟩ := hlater
          · exact .inl hend
          · exact .inr (.inl (hless.trans hlower))
          · exact .inr (.inl (heq.trans_lt hlower))
        · rw [hsame, hhelper] at hlater
          obtain hend | hless | ⟨heq, hhelp, hrest⟩ := hlater
          · exact .inl hend
          · exact .inr (.inl hless)
          · exact .inr (.inr ⟨heq, hhelp, List.forall_mem_cons.mpr ⟨hother, hrest⟩⟩)

/-- A round lowers the rank unless all is done. -/
theorem round (h : Helped step party inv done rank helper) (hinv : inv state)
    {labels : List α} (hround : Round party labels) :
    done (turns step state labels) ∨ rank (turns step state labels) < rank state := by
  obtain hdone | hlower | ⟨-, -, hleftOut⟩ := h.turns_cases hinv labels
  · exact .inl hdone
  · exact .inr hlower
  · obtain ⟨label, hlabel, hparty⟩ := hround (helper state)
    exact absurd hparty (hleftOut label hlabel)

/-- **The fair rule.** More rounds than the rank says are enough. -/
theorem rounds (h : Helped step party inv done rank helper) (hinv : inv state)
    {schedule : List (List α)} (hrounds : ∀ labels ∈ schedule, Round party labels)
    (hmany : rank state < schedule.length) : done (turns step state schedule.flatten) := by
  induction schedule generalizing state with
  | nil => exact absurd hmany (Nat.not_lt_zero _)
  | cons labels rest ih =>
      obtain ⟨hfirst, hrest⟩ := List.forall_mem_cons.mp hrounds
      have hinvNext := h.inv_turns hinv labels
      rw [List.flatten_cons, turns, List.foldl_append]
      obtain hdone | hlower := h.round hinv hfirst
      · exact h.done_turns hinvNext hdone rest.flatten
      · refine ih hinvNext hrest ?_
        rw [List.length_cons] at hmany
        exact hlower.trans_le (Nat.le_of_lt_succ hmany)

end Helped

end SoftPlc.Math
