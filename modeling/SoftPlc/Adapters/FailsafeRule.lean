/-
# The failsafe rule

What an adapter owes the core when exchanges fail, stated without any adapter.
An exchange either brings a fresh image or misses. A miss inside the failsafe
window repeats the last fresh image; a miss at or past it applies the policy.
One escalation is counted for each maximal run of misses that reaches the
window's end.

The rule appears twice. `ruleImages`, `ages` and `escalations` read it off a
whole history. `ruleStep` is the machine that follows it one exchange at a time,
and is what the adapters are compared with. The two agree on every history whose
clock does not go backwards.
-/

import SoftPlc.Core.ProtocolAdapter
import SoftPlc.Math.Trace

namespace SoftPlc.Adapters

open SoftPlc.Math

/-- What an exchange brought. -/
inductive Outcome
  | fresh (image : List Byte)
  | miss
  deriving DecidableEq, Repr

/-- An exchange as the rule sees it: its outcome and the clock. -/
structure Event where
  outcome : Outcome
  now : ℕ
  deriving DecidableEq, Repr

section Rule

variable (policy : FailsafePolicy) (timeoutUs size : ℕ)

/-- The image the policy prescribes once the window has passed. -/
def failsafeImage (lastFresh : List Byte) : List Byte :=
  match policy with
  | .hold => lastFresh
  | .clear => List.replicate size 0

/-- The images of a history, given the time and the image of the last fresh
exchange before it. -/
def ruleImages : ℕ → List Byte → List Event → List (List Byte)
  | _, _, [] => []
  | _, _, ⟨.fresh image, now⟩ :: rest => image :: ruleImages now image rest
  | since, lastFresh, ⟨.miss, now⟩ :: rest =>
      (if now - since < timeoutUs then lastFresh else failsafeImage policy size lastFresh) ::
        ruleImages since lastFresh rest

/-- The age at each miss of a history, and nothing at a fresh exchange. -/
def ages : ℕ → List Event → List (Option ℕ)
  | _, [] => []
  | _, ⟨.fresh _, now⟩ :: rest => none :: ages now rest
  | since, ⟨.miss, now⟩ :: rest => some (now - since) :: ages since rest

/-- A miss at or past the end of the window. -/
def reaches (age : Option ℕ) : Bool := age.any fun elapsed => decide (timeoutUs ≤ elapsed)

/-- The last exchange of a history was a miss at or past the end of the window. -/
def endsPastWindow (since : ℕ) (events : List Event) : Bool :=
  ((ages since events).getLast?.map (reaches timeoutUs)).getD false

/-- The number of maximal runs of misses that reach the end of the window. The
runs are what lies between the fresh exchanges. -/
def escalations (since : ℕ) (events : List Event) : ℕ :=
  ((ages since events).splitOnP Option.isNone).countP fun run => run.any (reaches timeoutUs)

/-! ## The rule as a machine -/

/-- What the rule remembers between exchanges. -/
structure RuleState where
  since : ℕ
  lastFresh : List Byte
  faulted : Bool
  activations : ℕ
  exchanges : ℕ
  timeouts : ℕ
  clock : ℕ

/-- The rule's state after an adapter was opened. -/
def ruleStart (openedUs : ℕ) : RuleState :=
  { since := openedUs
    lastFresh := List.replicate size 0
    faulted := false
    activations := 0
    exchanges := 0
    timeouts := 0
    clock := openedUs }

/-- One exchange under the rule. -/
def ruleStep (rule : RuleState) (event : Event) : RuleState × List Byte :=
  match event.outcome with
  | .fresh image =>
      ({ rule with
          since := event.now
          lastFresh := image
          faulted := false
          exchanges := rule.exchanges + 1
          clock := event.now }, image)
  | .miss =>
      if timeoutUs ≤ event.now - rule.since then
        ({ rule with
            faulted := true
            activations := rule.activations + if rule.faulted then 0 else 1
            timeouts := rule.timeouts + 1
            clock := event.now }, failsafeImage policy size rule.lastFresh)
      else
        ({ rule with faulted := false, timeouts := rule.timeouts + 1, clock := event.now },
          rule.lastFresh)

/-- The clock does not go backwards. -/
def ClockForward (rule : RuleState) (event : Event) : Prop := rule.clock ≤ event.now

/-! ## The machine follows the history -/

/-- What a miss leaves: the origin of the age, and the fault it decides. -/
theorem ruleStep_miss (rule : RuleState) (now : ℕ) :
    (ruleStep policy timeoutUs size rule ⟨.miss, now⟩).1.since = rule.since ∧
      (ruleStep policy timeoutUs size rule ⟨.miss, now⟩).1.clock = now ∧
      (ruleStep policy timeoutUs size rule ⟨.miss, now⟩).1.faulted =
        reaches timeoutUs (some (now - rule.since)) := by
  by_cases hpast : timeoutUs ≤ now - rule.since <;> simp [ruleStep, reaches, hpast]

theorem ruleStep_clock (rule : RuleState) (event : Event) :
    (ruleStep policy timeoutUs size rule event).1.clock = event.now := by
  unfold ruleStep
  split
  · rfl
  · split <;> rfl

/-- Readings that never decrease keep the machine's clock going forward. -/
theorem along_clockForward (rule : RuleState) (events : List Event)
    (hchain : List.IsChain (· ≤ ·) (rule.clock :: events.map Event.now)) :
    Along (ruleStep policy timeoutUs size) ClockForward rule events := by
  induction events generalizing rule with
  | nil => trivial
  | cons event rest ih =>
      rw [List.map_cons, List.isChain_cons_cons] at hchain
      refine ⟨hchain.1, ih _ ?_⟩
      rw [ruleStep_clock]
      exact hchain.2

/-- The machine's images are those of the history. -/
theorem trace_ruleStep_images (rule : RuleState) (events : List Event) :
    (trace (ruleStep policy timeoutUs size) rule events).2 =
      ruleImages policy timeoutUs size rule.since rule.lastFresh events := by
  induction events generalizing rule with
  | nil => rfl
  | cons event rest ih =>
      obtain ⟨outcome, now⟩ := event
      cases outcome with
      | fresh image => simp only [trace, ruleImages, ruleStep, ih]
      | miss =>
          simp only [trace, ruleImages, ih, ruleStep]
          by_cases hpast : timeoutUs ≤ now - rule.since
          · rw [if_pos hpast, if_neg (Nat.not_lt.mpr hpast)]
          · rw [if_neg hpast, if_pos (Nat.lt_of_not_le hpast)]

/-- Every exchange is counted once, as fresh or as missed. -/
theorem trace_ruleStep_counted (rule : RuleState) (events : List Event) :
    (trace (ruleStep policy timeoutUs size) rule events).1.exchanges +
        (trace (ruleStep policy timeoutUs size) rule events).1.timeouts =
      rule.exchanges + rule.timeouts + events.length := by
  induction events generalizing rule with
  | nil => rfl
  | cons event rest ih =>
      simp only [trace, ih, List.length_cons]
      unfold ruleStep
      split
      · simp only
        omega
      · split <;> simp only <;> omega

/-- The machine is faulted exactly when the last exchange was a miss at or past
the end of the window; before any exchange it is what it was. -/
theorem trace_ruleStep_faulted (rule : RuleState) (events : List Event) :
    (trace (ruleStep policy timeoutUs size) rule events).1.faulted =
      ((ages rule.since events).getLast?.map (reaches timeoutUs)).getD rule.faulted := by
  induction events generalizing rule with
  | nil => rfl
  | cons event rest ih =>
      obtain ⟨outcome, now⟩ := event
      cases outcome with
      | fresh image =>
          simp only [trace, ih, ruleStep, ages, List.getLast?_cons, Option.map_some,
            Option.getD_some]
          exact (Option.getD_map (reaches timeoutUs) none _).symm ▸ rfl
      | miss =>
          obtain ⟨hsince, -, hfaulted⟩ :=
            ruleStep_miss policy timeoutUs size rule now
          simp only [trace, ih, ages, hsince, hfaulted, List.getLast?_cons, Option.map_some,
            Option.getD_some]
          exact Option.getD_map (reaches timeoutUs) _ _

/-- **Counting escalations.** The machine counts the runs of misses that reach
the end of the window, leaving out the first one if it was already faulted. It
relies on the clock: a faulted machine stays past the window until something
fresh arrives. -/
theorem trace_ruleStep_activations (rule : RuleState) (events : List Event)
    (hclock : Along (ruleStep policy timeoutUs size) ClockForward rule events)
    (hfaulted : rule.faulted = true → timeoutUs ≤ rule.clock - rule.since) :
    ∃ run runs, (ages rule.since events).splitOnP Option.isNone = run :: runs ∧
      (trace (ruleStep policy timeoutUs size) rule events).1.activations =
        rule.activations + (if run.any (reaches timeoutUs) = true ∧ rule.faulted = false then 1
          else 0) + runs.countP fun run => run.any (reaches timeoutUs) := by
  induction events generalizing rule with
  | nil => exact ⟨[], [], rfl, by simp [trace]⟩
  | cons event rest ih =>
      obtain ⟨hforward, hlater⟩ := hclock
      obtain ⟨outcome, now⟩ := event
      cases outcome with
      | fresh image =>
          obtain ⟨run, runs, hruns, hcount⟩ := ih _ hlater (by simp [ruleStep])
          refine ⟨[], run :: runs, ?_, ?_⟩
          · rw [ages, List.splitOnP_cons_eq_if_modifyHead]
            exact congrArg ([] :: ·) hruns
          · simp only [trace, hcount]
            simp [ruleStep, List.countP_cons]
            omega
      | miss =>
          obtain ⟨hsince, hclock, hfault⟩ :=
            ruleStep_miss policy timeoutUs size rule now
          obtain ⟨run, runs, hruns, hcount⟩ := ih _ hlater (by
            rw [hsince, hclock, hfault]
            simp [reaches])
          rw [hsince] at hruns
          refine ⟨some (now - rule.since) :: run, runs, ?_, ?_⟩
          · rw [ages, List.splitOnP_cons_eq_if_modifyHead, hruns]
            rfl
          · simp only [trace, hcount, hfault, List.any_cons]
            by_cases hpast : timeoutUs ≤ now - rule.since
            · cases hwas : rule.faulted <;> simp [ruleStep, reaches, hpast, hwas]
            · -- Not yet faulted, or the clock would have gone backwards.
              have hwas : rule.faulted = false := by
                by_contra hnot
                have hage := hfaulted (by simpa using hnot)
                have hle : rule.clock ≤ now := hforward
                omega
              simp [ruleStep, reaches, hpast, hwas]

/-- **The failsafe rule, for a whole history.** What a run of exchanges returned
and left behind is what the rule says about its outcomes and clock. -/
structure FollowsRule (openedUs : ℕ) (events : List Event) (images : List (List Byte))
    (state : AdapterState) (stats : AdapterStats) : Prop where
  images_eq : images =
    ruleImages policy timeoutUs size openedUs (List.replicate size 0) events
  written : ∀ image ∈ images, image.length = size
  faulted_iff : state = .faulted ↔ endsPastWindow timeoutUs openedUs events = true
  activations_eq : stats.failsafeActivations = escalations timeoutUs openedUs events
  counted : stats.exchanges + stats.timeouts = events.length

/-- The machine's trace follows the rule, and so does any run that agrees with it
in what the rule speaks of. -/
theorem followsRule_of_trace {openedUs : ℕ} {events : List Event} {images : List (List Byte)}
    {state : AdapterState} {stats : AdapterStats} {rule : RuleState}
    (hclock : List.IsChain (· ≤ ·) (openedUs :: events.map Event.now))
    (hwritten : ∀ image ∈ images, image.length = size)
    (htrace : trace (ruleStep policy timeoutUs size) (ruleStart size openedUs) events =
      (rule, images))
    (hstate : state = .faulted ↔ rule.faulted = true)
    (hactivations : stats.failsafeActivations = rule.activations)
    (hexchanges : stats.exchanges = rule.exchanges) (htimeouts : stats.timeouts = rule.timeouts) :
    FollowsRule policy timeoutUs size openedUs events images state stats := by
  have himages :=
    trace_ruleStep_images policy timeoutUs size (ruleStart size openedUs) events
  have hfaulted :=
    trace_ruleStep_faulted policy timeoutUs size (ruleStart size openedUs) events
  have hcounted :=
    trace_ruleStep_counted policy timeoutUs size (ruleStart size openedUs) events
  obtain ⟨run, runs, hruns, hcount⟩ :=
    trace_ruleStep_activations policy timeoutUs size (ruleStart size openedUs) events
      (along_clockForward policy timeoutUs size (ruleStart size openedUs) events hclock)
      (fun hfault => by cases hfault)
  rw [htrace] at himages hfaulted hcounted hcount
  simp only [ruleStart] at himages hfaulted hcounted hcount hruns
  exact
    { images_eq := himages
      written := hwritten
      faulted_iff := by
        rw [hstate, hfaulted]
        rfl
      activations_eq := by
        rw [hactivations, hcount]
        simp only [escalations, hruns, List.countP_cons]
        simp only [and_true]
        omega
      counted := by
        rw [hexchanges, htimeouts, hcounted]
        omega }

end Rule

end SoftPlc.Adapters
