/-
# Sections under one lock

Several parties share a memory and one lock. A party in its section runs the operations
of the section one at a time, while the others go on with operations of their own
outside any section. Two sections never overlap, but a section and the others' own
operations do.

If those commute with the operations of every section of another party, each section
might as well have happened at once, at the moment the lock was taken: completing the
section that is under way gives the memory that the sections and the own operations
give one after the other. This is all that a lock is for, and the only place where its
steps are looked at.
-/

import SoftPlc.Math.Run

namespace SoftPlc.Math

universe u v w

variable {σ : Type u} {ω : Type v} {κ : Type w}

/-- A memory and its lock. While the lock is held, `held` has the holder and what is left
of its section. -/
structure Guarded (σ : Type u) (ω : Type v) (κ : Type w) where
  memory : σ
  held : Option (κ × List ω) := none

/-- Take the lock, run the next operation of the section, release the lock, or run an
operation outside any section. -/
inductive GuardedLabel (ω : Type v) (κ : Type w)
  | enter (who : κ) (ops : List ω)
  | work (who : κ)
  | leave (who : κ)
  | own (who : κ) (op : ω)

/-- The party that takes a step. -/
def GuardedLabel.party : GuardedLabel ω κ → κ
  | .enter who _ | .work who | .leave who | .own who _ => who

/-- Run operations one after the other. -/
def runAll (run : ω → σ → σ) (ops : List ω) (memory : σ) : σ :=
  ops.foldl (fun memory op => run op memory) memory

namespace Guarded

/-- One step. A party in its section does nothing else. -/
def step [DecidableEq κ] (run : ω → σ → σ) (g : Guarded σ ω κ) :
    GuardedLabel ω κ → Option (Guarded σ ω κ)
  | .enter who ops =>
      match g.held with
      | none => some { g with held := some (who, ops) }
      | some _ => none
  | .work who =>
      match g.held with
      | some (holder, op :: rest) =>
          if holder = who then some ⟨run op g.memory, some (holder, rest)⟩ else none
      | _ => none
  | .leave who =>
      match g.held with
      | some (holder, []) => if holder = who then some { g with held := none } else none
      | _ => none
  | .own who op =>
      if g.held.map Prod.fst = some who then none
      else some { g with memory := run op g.memory }

/-- The memory once the section under way is completed. -/
def completed (run : ω → σ → σ) (g : Guarded σ ω κ) : σ :=
  match g.held with
  | none => g.memory
  | some (_, ops) => runAll run ops g.memory

end Guarded

/-- The effect of a step if a section happens when the lock is taken. -/
def atOnce (run : ω → σ → σ) (memory : σ) : GuardedLabel ω κ → σ
  | .enter _ ops => runAll run ops memory
  | .own _ op => run op memory
  | .work _ | .leave _ => memory

/-- What each party does in its sections and what outside them. -/
structure Discipline (ω : Type v) (κ : Type w) where
  inside : κ → ω → Prop
  outside : κ → ω → Prop

/-- A label that keeps to the discipline. -/
def Discipline.Keeps (rules : Discipline ω κ) : GuardedLabel ω κ → Prop
  | .enter who ops => ∀ op ∈ ops, rules.inside who op
  | .own who op => rules.outside who op
  | .work _ | .leave _ => True

/-- What a party does outside its sections commutes with what another does inside. -/
def Discipline.Apart (rules : Discipline ω κ) (run : ω → σ → σ) : Prop :=
  ∀ who other mine theirs memory, who ≠ other → rules.outside who mine →
    rules.inside other theirs → run mine (run theirs memory) = run theirs (run mine memory)

variable {run : ω → σ → σ} {rules : Discipline ω κ}

theorem Discipline.Apart.runAll (h : rules.Apart run) {who other : κ} (hother : who ≠ other)
    {mine : ω} (hmine : rules.outside who mine) {ops : List ω}
    (hops : ∀ op ∈ ops, rules.inside other op) (memory : σ) :
    Math.runAll run ops (run mine memory) = run mine (Math.runAll run ops memory) := by
  induction ops generalizing memory with
  | nil => rfl
  | cons op rest ih =>
      obtain ⟨hop, hrest⟩ := List.forall_mem_cons.mp hops
      have hswap := h who other mine op memory hother hmine hop
      show Math.runAll run rest (run op (run mine memory)) =
        run mine (Math.runAll run rest (run op memory))
      rw [← hswap, ih hrest]

namespace Guarded

variable [DecidableEq κ] {g next : Guarded σ ω κ}

/-- The section under way keeps to the discipline. -/
def Proper (rules : Discipline ω κ) (g : Guarded σ ω κ) : Prop :=
  ∀ holder ops, g.held = some (holder, ops) → ∀ op ∈ ops, rules.inside holder op

/-- One step does at once what it does. -/
theorem completed_step (h : rules.Apart run) {label : GuardedLabel ω κ} (hproper : g.Proper rules)
    (hkeeps : rules.Keeps label) (hstep : g.step run label = some next) :
    next.completed run = atOnce run (g.completed run) label ∧ next.Proper rules := by
  cases label with
  | enter who ops =>
      cases hheld : g.held with
      | none =>
          simp only [step, hheld, Option.some.injEq] at hstep
          subst hstep
          refine ⟨by simp only [completed, atOnce, hheld], ?_⟩
          intro holder others hothers
          cases hothers
          exact hkeeps
      | some pair => simp [step, hheld] at hstep
  | work who =>
      simp only [step] at hstep
      split at hstep
      · rename_i holder op rest hheld
        split_ifs at hstep
        cases hstep
        refine ⟨by simp only [completed, atOnce, hheld]; rfl, ?_⟩
        intro other ops hops
        cases hops
        exact (List.forall_mem_cons.mp (hproper holder (op :: rest) hheld)).2
      · cases hstep
  | leave who =>
      simp only [step] at hstep
      split at hstep
      · rename_i holder hheld
        split_ifs at hstep
        cases hstep
        refine ⟨by simp only [completed, atOnce, hheld]; rfl, ?_⟩
        intro other ops hops
        cases hops
      · cases hstep
  | own who op =>
      simp only [step] at hstep
      split_ifs at hstep with hmine
      cases hstep
      refine ⟨?_, hproper⟩
      cases hheld : g.held with
      | none => simp only [completed, atOnce, hheld]
      | some pair =>
          obtain ⟨holder, ops⟩ := pair
          have hother : who ≠ holder := by
            rintro rfl
            exact hmine (by rw [hheld]; rfl)
          simp only [completed, atOnce, hheld]
          exact h.runAll hother hkeeps (hproper holder ops hheld) g.memory

/-- Whoever holds the lock took this step or held it before. -/
theorem holder_step {label : GuardedLabel ω κ} {holder : κ} {ops : List ω}
    (hstep : g.step run label = some next) (hheld : next.held = some (holder, ops)) :
    label.party = holder ∨ ∃ earlier, g.held = some (holder, earlier) := by
  cases label with
  | enter who others =>
      simp only [step] at hstep
      split at hstep
      · cases hstep
        cases hheld
        exact .inl rfl
      · cases hstep
  | work who =>
      simp only [step] at hstep
      split at hstep
      · rename_i owner op rest howner
        split_ifs at hstep
        cases hstep
        cases hheld
        exact .inr ⟨_, howner⟩
      · cases hstep
  | leave who =>
      simp only [step] at hstep
      split at hstep
      · split_ifs at hstep
        cases hstep
        cases hheld
      · cases hstep
  | own who op =>
      simp only [step] at hstep
      split_ifs at hstep
      cases hstep
      exact .inr ⟨_, hheld⟩

/-- Who leaves the lock does not hold it. -/
theorem held_leave {who : κ} (hstep : g.step run (.leave who) = some next) : next.held = none := by
  simp only [step] at hstep
  split at hstep
  · split_ifs at hstep
    cases hstep
    rfl
  · cases hstep

/-- **A section happens at once.** Along every run that keeps to the discipline, the
memory with the section under way completed is what the sections and the own operations
give when each section happens at the moment the lock is taken. -/
theorem completed_exec (h : rules.Apart run) {memory : σ} {schedule : List (GuardedLabel ω κ)}
    (hkeeps : ∀ label ∈ schedule, rules.Keeps label)
    (hrun : exec (step run) ⟨memory, none⟩ schedule = some g) :
    g.completed run = schedule.foldl (atOnce run) memory ∧ g.Proper rules := by
  have hgeneral : ∀ (start : Guarded σ ω κ), start.Proper rules →
      exec (step run) start schedule = some g →
      g.completed run = schedule.foldl (atOnce run) (start.completed run) ∧ g.Proper rules := by
    clear hrun
    induction schedule with
    | nil =>
        intro start hproper hrun
        cases hrun
        exact ⟨rfl, hproper⟩
    | cons label rest ih =>
        intro start hproper hrun
        obtain ⟨hlabel, hrest⟩ := List.forall_mem_cons.mp hkeeps
        obtain ⟨next, hstep, hlater⟩ := exec_cons_eq_some.mp hrun
        obtain ⟨hcompleted, hnext⟩ := completed_step h hproper hlabel hstep
        rw [List.foldl_cons, ← hcompleted]
        exact ih hrest next hnext hlater
  apply hgeneral ⟨memory, none⟩ _ hrun
  intro holder ops hheld
  cases hheld

end Guarded

end SoftPlc.Math
