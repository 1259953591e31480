/-
# How a stack process ends

Each of the two stack processes has a thread that serves the core and a thread that
keeps the protocol stack going. The serving thread leaves its loop when it is told to
stop, when its doorbell fails, or when the core has been silent for too long. The last
reason is a safety function: a stack that outlives its core goes on producing the last
outputs it was given, so it has to drop its connections.

The adapter role raises a flag of its own before it joins the other thread. The
scanner role does not: its stack thread reads only the flag that a signal sets. So a
scanner that has found its core gone declares itself closed and then waits for a
thread that nobody told to end, with every connection up.
-/

import Mathlib.Data.List.Induction
import SoftPlc.Core.ProtocolAdapter
import SoftPlc.Math.Fair

namespace SoftPlc.Adapters

open SoftPlc.Math

/-- The two stack processes. -/
inductive StackRole
  | adapter
  | scanner
  deriving DecidableEq, Repr

/-- Where the serving thread stands: at the head of its loop, in the wait for the
doorbell, or at one of the statements behind the loop. -/
inductive MainPoint
  | check
  | wait
  | left
  | raise
  | join
  | shutdown
  | close
  | exited
  deriving DecidableEq, Repr

/-- Where the stack thread stands. -/
inductive StackPoint
  | head
  | cycling
  | done
  deriving DecidableEq, Repr

/-- A stack process once its backend is up. The flags are `g_stop` and `g_end_stack`;
`image` is what the stack produces, `sent` the frames it has produced. -/
structure StackProcess where
  main : MainPoint := .check
  stack : StackPoint := .head
  stop : Bool := false
  endStack : Bool := false
  lastRequestUs : ℕ
  published : AdapterState := .online
  connected : Bool := true
  image : List Byte := []
  sent : List (List Byte) := []
  deriving DecidableEq, Repr

/-- How a wait for the doorbell ends: with the status of the pop that follows it, the
outputs in the frame and a clock reading, by timing out, or with an error. -/
inductive WaitEnd
  | rung (popped : PlcStatus) (outputs : List Byte) (now : ℕ)
  | timedOut (now : ℕ)
  | failed
  deriving DecidableEq, Repr

/-- A signal, a step of the serving thread, or one of the stack thread. Of a pass
through the stack the label says how it ended and whether a frame was produced. -/
inductive ProcessLabel
  | signal
  | wait (outcome : WaitEnd)
  | main
  | stack (ok sends : Bool)
  deriving DecidableEq, Repr

namespace StackProcess

/-- The pops after which `last_request_us` is set. A malformed frame counts for the
adapter role only. -/
def takes (role : StackRole) (popped : PlcStatus) : Bool :=
  match role with
  | .adapter => popped ≠ .errAgain
  | .scanner => popped = .ok

/-- The body of the service loop, from the return of the wait. -/
def serve (role : StackRole) (coreTimeoutUs : ℕ) (process : StackProcess) : WaitEnd → StackProcess
  | .timedOut now =>
      { process with
        main := if coreTimeoutUs ≤ now - process.lastRequestUs then .left else .check }
  | .failed => { process with main := .left }
  | .rung popped outputs now =>
      { process with
        main := .check
        lastRequestUs := if takes role popped then now else process.lastRequestUs
        image := if popped = .ok then outputs else process.image }

/-- The serving thread outside the wait. A join is taken only when the other thread
has returned. -/
def advance (role : StackRole) (process : StackProcess) : Option StackProcess :=
  match process.main with
  | .check => some { process with main := if process.stop then .left else .wait }
  | .wait => none
  | .left =>
      some { process with
        published := .closed
        main := match role with
          | .adapter => .raise
          | .scanner => .join }
  | .raise => some { process with endStack := true, main := .join }
  | .join => if process.stack = .done then some { process with main := .shutdown } else none
  | .shutdown => some { process with connected := false, main := .close }
  | .close => some { process with main := .exited }
  | .exited => none

/-- The flag in the loop condition of `stack_thread`. -/
def endFlag (role : StackRole) (process : StackProcess) : Bool :=
  match role with
  | .adapter => process.endStack
  | .scanner => process.stop

/-- `stack_thread`. A failed pass ends the thread in the adapter role only. -/
def cycle (role : StackRole) (process : StackProcess) (ok sends : Bool) : Option StackProcess :=
  match process.stack with
  | .head =>
      some { process with stack := if endFlag role process then .done else .cycling }
  | .cycling =>
      some { process with
        stack := if role = .adapter ∧ ok = false then .done else .head
        sent := if sends then process.sent ++ [process.image] else process.sent }
  | .done => none

/-- One step of a stack process. -/
def step (role : StackRole) (coreTimeoutUs : ℕ) (process : StackProcess) :
    ProcessLabel → Option StackProcess
  | .signal => some { process with stop := true }
  | .wait outcome =>
      if process.main = .wait then some (serve role coreTimeoutUs process outcome) else none
  | .main => advance role process
  | .stack ok sends => cycle role process ok sends

/-- A process that begins to serve. -/
def start (now : ℕ) : StackProcess := { lastRequestUs := now }

variable {role : StackRole} {coreTimeoutUs : ℕ} {process next : StackProcess}

/-- Everything a step can be. -/
theorem step_cases {label : ProcessLabel} (h : step role coreTimeoutUs process label = some next) :
    label = .signal ∧ next = { process with stop := true } ∨
      (∃ outcome, label = .wait outcome ∧ process.main = .wait ∧
        next = serve role coreTimeoutUs process outcome) ∨
      label = .main ∧ advance role process = some next ∨
      ∃ ok sends, label = .stack ok sends ∧ cycle role process ok sends = some next := by
  cases label with
  | signal => exact .inl ⟨rfl, (Option.some.inj h).symm⟩
  | wait outcome =>
      simp only [step] at h
      split_ifs at h with hwait
      exact .inr (.inl ⟨outcome, rfl, hwait, (Option.some.inj h).symm⟩)
  | main => exact .inr (.inr (.inl ⟨rfl, h⟩))
  | stack ok sends => exact .inr (.inr (.inr ⟨ok, sends, rfl, h⟩))

/-- A step of the stack thread touches neither the serving thread nor a flag. -/
theorem cycle_keeps {ok sends : Bool} (h : cycle role process ok sends = some next) :
    process.stack ≠ .done ∧
      ∃ stack sent, next = { process with stack := stack, sent := sent } := by
  cases hstack : process.stack with
  | head =>
      simp only [cycle, hstack, Option.some.injEq] at h
      exact ⟨nofun, _, _, h.symm⟩
  | cycling =>
      simp only [cycle, hstack, Option.some.injEq] at h
      exact ⟨nofun, _, _, h.symm⟩
  | done => simp [cycle, hstack] at h

/-- Outside the wait the serving thread touches neither the other thread nor the
request's time. -/
theorem advance_keeps (h : advance role process = some next) :
    next.stop = process.stop ∧ next.stack = process.stack ∧
      next.lastRequestUs = process.lastRequestUs := by
  unfold advance at h
  split at h <;> first
    | cases h
      exact ⟨rfl, rfl, rfl⟩
    | split_ifs at h
      cases h
      exact ⟨rfl, rfl, rfl⟩
    | cases h

theorem serve_keeps (role : StackRole) (coreTimeoutUs : ℕ) (process : StackProcess)
    (outcome : WaitEnd) :
    (serve role coreTimeoutUs process outcome).stop = process.stop ∧
      (serve role coreTimeoutUs process outcome).stack = process.stack := by
  cases outcome <;> exact ⟨rfl, rfl⟩

end StackProcess

/-- How far behind the loop a point lies. -/
def MainPoint.place : MainPoint → ℕ
  | .check | .wait => 0
  | .left => 1
  | .raise => 2
  | .join => 3
  | .shutdown => 4
  | .close => 5
  | .exited => 6

/-- The steps that the stack thread has left once its flag is raised. -/
def StackPoint.remaining : StackPoint → ℕ
  | .cycling => 2
  | .head => 1
  | .done => 0

namespace StackProcess

/-- A service loop goes back to its head or is left. -/
theorem serve_place (role : StackRole) (coreTimeoutUs : ℕ) (process : StackProcess)
    (outcome : WaitEnd) : (serve role coreTimeoutUs process outcome).main.place ≤ 1 := by
  cases outcome with
  | rung popped outputs now => exact Nat.zero_le 1
  | timedOut now =>
      simp only [serve]
      split_ifs <;> decide
  | failed => exact le_rfl

/-- What has been done once the serving thread stands behind a statement. -/
structure Orderly (role : StackRole) (process : StackProcess) : Prop where
  declared : 2 ≤ process.main.place → process.published = .closed
  raised : role = .adapter → 3 ≤ process.main.place → process.endStack = true
  joined : 4 ≤ process.main.place → process.stack = .done
  dropped : 5 ≤ process.main.place → process.connected = false
  held : process.main.place < 5 → process.connected = true

theorem Orderly.serve (h : Orderly role process) (hmain : process.main = .wait)
    (outcome : WaitEnd) : Orderly role (serve role coreTimeoutUs process outcome) := by
  have hplace := serve_place role coreTimeoutUs process outcome
  have hconnected : (StackProcess.serve role coreTimeoutUs process outcome).connected = true := by
    have hwas := h.held (by rw [hmain]; decide)
    cases outcome <;> exact hwas
  constructor
  case held => exact fun _ => hconnected
  all_goals omega

theorem Orderly.advance (h : Orderly role process) (hstep : advance role process = some next) :
    Orderly role next := by
  obtain ⟨hdeclared, hraised, hjoined, hdropped, hheld⟩ := h
  cases hmain : process.main with
  | check =>
      simp only [StackProcess.advance, hmain, Option.some.injEq] at hstep
      rw [hmain] at hheld
      subst hstep
      cases hstop : process.stop <;>
        constructor <;> simp_all [MainPoint.place]
  | wait => simp [StackProcess.advance, hmain] at hstep
  | left =>
      simp only [StackProcess.advance, hmain, Option.some.injEq] at hstep
      subst hstep
      cases role <;> constructor <;> simp_all [MainPoint.place]
  | raise =>
      simp only [StackProcess.advance, hmain, Option.some.injEq] at hstep
      subst hstep
      constructor <;> simp_all [MainPoint.place]
  | join =>
      simp only [StackProcess.advance, hmain] at hstep
      split_ifs at hstep with hdone
      cases hstep
      constructor <;> simp_all [MainPoint.place]
  | shutdown =>
      simp only [StackProcess.advance, hmain, Option.some.injEq] at hstep
      subst hstep
      constructor <;> simp_all [MainPoint.place]
  | close =>
      simp only [StackProcess.advance, hmain, Option.some.injEq] at hstep
      subst hstep
      constructor <;> simp_all [MainPoint.place]
  | exited => simp [StackProcess.advance, hmain] at hstep

theorem Orderly.step {label : ProcessLabel} (h : Orderly role process)
    (hstep : step role coreTimeoutUs process label = some next) : Orderly role next := by
  obtain ⟨-, rfl⟩ | ⟨outcome, -, hwait, rfl⟩ | ⟨-, hadvance⟩ | ⟨ok, sends, -, hcycle⟩ :=
    step_cases hstep
  · exact { h with }
  · exact h.serve hwait outcome
  · exact h.advance hadvance
  · obtain ⟨hstack, stack, sent, rfl⟩ := cycle_keeps hcycle
    exact { h with joined := fun hplace => absurd (h.joined hplace) hstack }

theorem orderly_start (role : StackRole) (now : ℕ) : Orderly role (start now) := by
  constructor <;> simp [start, MainPoint.place]

theorem orderly_of_exec {now : ℕ} {schedule : List ProcessLabel}
    (hrun : exec (step role coreTimeoutUs) (start now) schedule = some process) :
    Orderly role process :=
  exec_invariant_all (fun _ _ _ => Orderly.step) (orderly_start role now) hrun

/-! ## Ending -/

/-- The threads of a stack process. -/
inductive Thread
  | serving
  | stack
  deriving DecidableEq, Repr

/-- Whose turn a label is. Behind its loop the serving thread does not wait for the
doorbell any more. -/
def thread : ProcessLabel → Option Thread
  | .main => some .serving
  | .stack _ _ => some .stack
  | .signal | .wait _ => none

/-- The steps that the stack thread has left, once it is to end. -/
def stackRank (role : StackRole) (process : StackProcess) : ℕ :=
  if endFlag role process then process.stack.remaining else 2

/-- What is left to do behind the loop: the statements of the serving thread, and the
steps of the other. -/
def rank (role : StackRole) (process : StackProcess) : ℕ :=
  6 - process.main.place + stackRank role process

/-- Whose turn it is to help: the stack thread's, if the serving thread waits for it. -/
def helper (process : StackProcess) : Thread :=
  if process.main = .join ∧ process.stack ≠ .done then .stack else .serving

/-- A process that has left its loop. The scanner role ends by a signal only. -/
structure Departing (role : StackRole) (process : StackProcess) : Prop where
  orderly : Orderly role process
  left : 1 ≤ process.main.place
  signalled : role = .scanner → process.stop = true

/-- Behind the loop the serving thread goes on from place to place. It never lowers a
flag, and the stack thread is never farther from its end. -/
theorem advance_behind (hleft : 1 ≤ process.main.place)
    (hstep : advance role process = some next) :
    process.main.place < next.main.place ∧ next.main.place ≤ 6 ∧ next.stop = process.stop ∧
      stackRank role next ≤ stackRank role process := by
  have hraise : process.stack.remaining ≤ 2 := by
    cases process.stack <;> decide
  cases hmain : process.main with
  | check => simp [hmain, MainPoint.place] at hleft
  | wait => simp [hmain, MainPoint.place] at hleft
  | left =>
      simp only [advance, hmain, Option.some.injEq] at hstep
      subst hstep
      cases role <;>
        exact ⟨by simp [MainPoint.place], by simp [MainPoint.place], rfl, le_rfl⟩
  | raise =>
      simp only [advance, hmain, Option.some.injEq] at hstep
      subst hstep
      refine ⟨by simp [MainPoint.place], by simp [MainPoint.place], rfl, ?_⟩
      cases role with
      | adapter =>
          show process.stack.remaining ≤ if process.endStack then process.stack.remaining else 2
          split_ifs
          · exact le_rfl
          · exact hraise
      | scanner => exact le_rfl
  | join =>
      simp only [advance, hmain] at hstep
      split_ifs at hstep with hdone
      cases hstep
      exact ⟨by simp [MainPoint.place], by simp [MainPoint.place], rfl, le_rfl⟩
  | shutdown =>
      simp only [advance, hmain, Option.some.injEq] at hstep
      subst hstep
      exact ⟨by simp [MainPoint.place], by simp [MainPoint.place], rfl, le_rfl⟩
  | close =>
      simp only [advance, hmain, Option.some.injEq] at hstep
      subst hstep
      exact ⟨by simp [MainPoint.place], by simp [MainPoint.place], rfl, le_rfl⟩
  | exited => simp [advance, hmain] at hstep

/-- Behind the loop the serving thread can go on, unless it waits for the other. -/
theorem advance_enabled (hleft : 1 ≤ process.main.place) (hnot : process.main ≠ .exited)
    (hjoin : process.main = .join → process.stack = .done) :
    (advance role process).isSome = true := by
  cases hmain : process.main with
  | check => simp [hmain, MainPoint.place] at hleft
  | wait => simp [hmain, MainPoint.place] at hleft
  | join => simp [advance, hmain, hjoin hmain]
  | exited => exact absurd hmain hnot
  | left | raise | shutdown | close => simp [advance, hmain]

/-- A stack thread that is to end does so in two steps. -/
theorem cycle_lowers (hflag : endFlag role process = true) (hstack : process.stack ≠ .done)
    (ok sends : Bool) :
    ∃ next, cycle role process ok sends = some next ∧
      stackRank role next < stackRank role process := by
  have hflagged : ∀ stack sent,
      stackRank role { process with stack := stack, sent := sent } = stack.remaining := by
    intro stack sent
    cases role <;> exact if_pos hflag
  have hrank : stackRank role process = process.stack.remaining := if_pos hflag
  rw [hrank]
  cases hpoint : process.stack with
  | head =>
      refine ⟨{ process with stack := .done }, ?_, ?_⟩
      · simp only [cycle, hpoint, hflag, if_true]
      · rw [hflagged .done process.sent]
        decide
  | cycling =>
      simp only [cycle, hpoint, Option.some.injEq, exists_eq_left', hflagged]
      split_ifs <;> decide
  | done => exact absurd hpoint hstack

theorem Departing.flag (h : Departing role process) (hplace : 3 ≤ process.main.place) :
    endFlag role process = true := by
  cases role with
  | adapter => exact h.orderly.raised rfl hplace
  | scanner => exact h.signalled rfl

/-- Behind the loop there is nothing to wait for at the doorbell. -/
theorem behind_cases {label : ProcessLabel} (hleft : 1 ≤ process.main.place)
    (hstep : step role coreTimeoutUs process label = some next) :
    next = { process with stop := true } ∨ advance role process = some next ∨
      ∃ ok sends, cycle role process ok sends = some next := by
  obtain ⟨-, hnext⟩ | ⟨outcome, -, hwait, -⟩ | ⟨-, hadvance⟩ | ⟨ok, sends, -, hcycle⟩ :=
    step_cases hstep
  · exact .inl hnext
  · simp [hwait, MainPoint.place] at hleft
  · exact .inr (.inl hadvance)
  · exact .inr (.inr ⟨ok, sends, hcycle⟩)

theorem Departing.step {label : ProcessLabel} (h : Departing role process)
    (hstep : step role coreTimeoutUs process label = some next) : Departing role next := by
  refine ⟨h.orderly.step hstep, ?_, ?_⟩
  · obtain rfl | hadvance | ⟨ok, sends, hcycle⟩ := behind_cases h.left hstep
    · exact h.left
    · exact h.left.trans (advance_behind h.left hadvance).1.le
    · obtain ⟨-, stack, sent, rfl⟩ := cycle_keeps hcycle
      exact h.left
  · intro hrole
    obtain rfl | hadvance | ⟨ok, sends, hcycle⟩ := behind_cases h.left hstep
    · rfl
    · rw [(advance_behind h.left hadvance).2.2.1]
      exact h.signalled hrole
    · obtain ⟨-, stack, sent, rfl⟩ := cycle_keeps hcycle
      exact h.signalled hrole

/-- A signal leaves what is left to do as it is, or shortens it. -/
theorem stackRank_signal (role : StackRole) (process : StackProcess) :
    stackRank role { process with stop := true } ≤ stackRank role process := by
  have hremaining : process.stack.remaining ≤ 2 := by
    cases process.stack <;> decide
  cases role with
  | adapter => exact le_rfl
  | scanner =>
      show process.stack.remaining ≤ if process.stop then process.stack.remaining else 2
      split_ifs
      · exact le_rfl
      · exact hremaining

/-- While the serving thread waits to join, its flag is up; before that, the other
thread may go round as often as it likes. -/
theorem stackRank_cycle {ok sends : Bool} (hcycle : cycle role process ok sends = some next) :
    stackRank role next < stackRank role process ∨
      endFlag role process = false ∧ stackRank role next = stackRank role process := by
  obtain ⟨hstack, stack, sent, hnext⟩ := cycle_keeps hcycle
  cases hflag : endFlag role process with
  | true =>
      obtain ⟨other, hother, hlower⟩ := cycle_lowers hflag hstack ok sends
      rw [hcycle, Option.some.injEq] at hother
      exact .inl (hother ▸ hlower)
  | false =>
      refine .inr ⟨rfl, ?_⟩
      subst hnext
      cases role <;> simp_all [stackRank, endFlag]

/-- The process ends under every fair scheduler. -/
theorem departing_helped (role : StackRole) (coreTimeoutUs : ℕ) :
    Helped (step role coreTimeoutUs) thread (Departing role) (fun process => process.main = .exited)
      (rank role) helper where
  kept _ _ _ := Departing.step
  settled process label next h hdone hstep := by
    obtain rfl | hadvance | ⟨ok, sends, hcycle⟩ := behind_cases h.left hstep
    · exact hdone
    · simp [advance, hdone] at hadvance
    · obtain ⟨-, stack, sent, rfl⟩ := cycle_keeps hcycle
      exact hdone
  lowers process label h hnot hturn := by
    unfold helper at hturn
    split_ifs at hturn with hwaits
    · -- the serving thread waits to join, so the flag is up
      obtain ⟨hjoin, hstack⟩ := hwaits
      have hflag := h.flag (by rw [hjoin]; decide)
      cases label with
      | stack ok sends =>
          obtain ⟨next, hcycle, hlower⟩ := cycle_lowers hflag hstack ok sends
          obtain ⟨-, stack, sent, rfl⟩ := cycle_keeps hcycle
          exact ⟨_, hcycle, Nat.add_lt_add_left hlower _⟩
      | signal | wait _ | main => cases hturn
    · cases label with
      | main =>
          have hjoin : process.main = .join → process.stack = .done := by
            intro hjoin
            by_contra hstack
            exact hwaits ⟨hjoin, hstack⟩
          obtain ⟨next, hadvance⟩ := Option.isSome_iff_exists.mp (advance_enabled h.left hnot hjoin)
          obtain ⟨hplace, hend, -, hstack⟩ := advance_behind h.left hadvance
          refine ⟨next, hadvance, ?_⟩
          simp only [rank]
          omega
      | signal | wait _ | stack _ _ => cases hturn
  waits process label next h hnot hstep := by
    obtain rfl | hadvance | ⟨ok, sends, hcycle⟩ := behind_cases h.left hstep
    · obtain hlower | hsame := (stackRank_signal role process).lt_or_eq
      · exact .inl (Nat.add_lt_add_left hlower _)
      · exact .inr ⟨congrArg (6 - process.main.place + ·) hsame, rfl⟩
    · obtain ⟨hplace, hend, -, hstack⟩ := advance_behind h.left hadvance
      refine .inl ?_
      simp only [rank]
      omega
    · have hkeeps := cycle_keeps hcycle
      obtain hlower | ⟨hflag, hsame⟩ := stackRank_cycle hcycle
      · obtain ⟨-, stack, sent, rfl⟩ := hkeeps
        exact .inl (Nat.add_lt_add_left hlower _)
      · obtain ⟨-, stack, sent, rfl⟩ := hkeeps
        refine .inr ⟨congrArg (6 - process.main.place + ·) hsame, ?_⟩
        have hjoin : process.main ≠ .join := by
          intro hjoin
          rw [h.flag (by rw [hjoin]; decide)] at hflag
          cases hflag
        simp [helper, hjoin]

/-- **A stack process that leaves its loop ends.** Whatever made it leave, under every
scheduler that gives both threads a turn in each of eight rounds, and whatever signals
come meanwhile, the adapter role has dropped its connections and exited. So has the
scanner role, if it has been signalled. -/
theorem departs {role : StackRole} {coreTimeoutUs now : ℕ} {schedule : List ProcessLabel}
    {process : StackProcess}
    (hrun : exec (step role coreTimeoutUs) (start now) schedule = some process)
    (hleft : 1 ≤ process.main.place) (hsignalled : role = .scanner → process.stop = true)
    {rounds : List (List ProcessLabel)} (hrounds : ∀ labels ∈ rounds, Round thread labels)
    (hmany : 8 ≤ rounds.length) :
    (turns (step role coreTimeoutUs) process rounds.flatten).main = .exited ∧
      (turns (step role coreTimeoutUs) process rounds.flatten).connected = false := by
  have hdeparting : Departing role process := ⟨orderly_of_exec hrun, hleft, hsignalled⟩
  have hhelped := departing_helped role coreTimeoutUs
  have hrank : rank role process < rounds.length := by
    have hstack : stackRank role process ≤ 2 := by
      simp only [stackRank]
      split_ifs
      · cases process.stack <;> decide
      · exact le_rfl
    simp only [rank]
    omega
  have hexited := hhelped.rounds hdeparting hrounds hrank
  refine ⟨hexited, ?_⟩
  refine (hhelped.inv_turns hdeparting rounds.flatten).orderly.dropped ?_
  rw [hexited]
  decide

/-- A scheduler that gives each thread one turn. -/
def oneEach : List ProcessLabel := [.stack true true, .main]

theorem round_oneEach : Round thread oneEach := by
  intro who
  cases who with
  | serving => exact ⟨.main, by decide, rfl⟩
  | stack => exact ⟨.stack true true, by decide, rfl⟩

/-- An adapter process that finds its core silent. -/
def silentCore : List ProcessLabel := [.main, .wait (.timedOut 2500000)]

theorem departs_silentCore :
    (turns (step .adapter 2000000) { start 0 with main := .left }
        (List.replicate 8 oneEach).flatten).main = .exited ∧
      (turns (step .adapter 2000000) { start 0 with main := .left }
        (List.replicate 8 oneEach).flatten).connected = false := by
  have hrun : exec (step .adapter 2000000) (start 0) silentCore =
      some { start 0 with main := .left } := by decide
  have hrounds : ∀ labels ∈ List.replicate 8 oneEach, Round thread labels := by
    intro labels hlabels
    rw [List.eq_of_mem_replicate hlabels]
    exact round_oneEach
  exact departs hrun (by decide) nofun hrounds (by decide)

/-! ## Lingering -/

/-- What stays true of a scanner process while no signal comes. -/
structure Lingers (process : StackProcess) : Prop where
  orderly : Orderly .scanner process
  unstopped : process.stop = false
  running : process.stack ≠ .done

/-- The stack thread of a scanner that was not signalled does not end. -/
theorem Lingers.step {label : ProcessLabel} (h : Lingers process) (hlabel : label ≠ .signal)
    (hstep : step .scanner coreTimeoutUs process label = some next) : Lingers next := by
  have hthreads : next.stop = false ∧ next.stack ≠ .done := by
    obtain ⟨hsignal, -⟩ | ⟨outcome, -, -, rfl⟩ | ⟨-, hadvance⟩ | ⟨ok, sends, -, hcycle⟩ :=
      step_cases hstep
    · exact absurd hsignal hlabel
    · obtain ⟨hstop, hstack⟩ := serve_keeps .scanner coreTimeoutUs process outcome
      rw [hstop, hstack]
      exact ⟨h.unstopped, h.running⟩
    · obtain ⟨hstop, hstack, -⟩ := advance_keeps hadvance
      rw [hstop, hstack]
      exact ⟨h.unstopped, h.running⟩
    · cases hpoint : process.stack with
      | head =>
          simp only [cycle, hpoint, endFlag, h.unstopped, Option.some.injEq] at hcycle
          subst hcycle
          exact ⟨rfl, nofun⟩
      | cycling =>
          simp only [cycle, hpoint, Option.some.injEq] at hcycle
          subst hcycle
          exact ⟨h.unstopped, nofun⟩
      | done => exact absurd hpoint h.running
  exact ⟨h.orderly.step hstep, hthreads.1, hthreads.2⟩

/-- Its serving thread comes to the join, with everything as it was but the state it
has published. -/
theorem Lingers.comes_to_join (h : Lingers process) (hleft : 1 ≤ process.main.place)
    (coreTimeoutUs : ℕ) :
    ∃ more next, .signal ∉ more ∧
      exec (StackProcess.step .scanner coreTimeoutUs) process more = some next ∧
      next.main = .join ∧ next.published = .closed ∧ next.stack = process.stack ∧
      next.stop = false ∧ next.image = process.image ∧ next.sent = process.sent := by
  cases hmain : process.main with
  | check => simp [hmain, MainPoint.place] at hleft
  | wait => simp [hmain, MainPoint.place] at hleft
  | left =>
      exact ⟨[.main], { process with published := .closed, main := .join }, by decide,
        by simp [exec, StackProcess.step, advance, hmain], rfl, rfl, rfl, h.unstopped, rfl, rfl⟩
  | raise =>
      refine ⟨[.main], { process with endStack := true, main := .join }, by decide,
        by simp [exec, StackProcess.step, advance, hmain], rfl, ?_, rfl, h.unstopped, rfl, rfl⟩
      exact h.orderly.declared (by rw [hmain]; decide)
  | join =>
      refine ⟨[], process, List.not_mem_nil, rfl, hmain, ?_, rfl, h.unstopped, rfl, rfl⟩
      exact h.orderly.declared (by rw [hmain]; decide)
  | shutdown => exact absurd (h.orderly.joined (by rw [hmain]; decide)) h.running
  | close => exact absurd (h.orderly.joined (by rw [hmain]; decide)) h.running
  | exited => exact absurd (h.orderly.joined (by rw [hmain]; decide)) h.running

/-- Its stack thread goes on producing. -/
theorem exec_polls (hhead : process.stack = .head) (hstop : process.stop = false)
    (coreTimeoutUs count : ℕ) :
    exec (StackProcess.step .scanner coreTimeoutUs) process
        (List.replicate (2 * count) (.stack true true)) =
      some { process with sent := process.sent ++ List.replicate count process.image } := by
  induction count generalizing process with
  | zero => simp [exec]
  | succ count ih =>
      have htwo : 2 * (count + 1) = 2 * count + 1 + 1 := by omega
      have hnext : exec (StackProcess.step .scanner coreTimeoutUs) process
          (List.replicate (2 * (count + 1)) (.stack true true)) =
          exec (StackProcess.step .scanner coreTimeoutUs)
            { process with sent := process.sent ++ [process.image] }
            (List.replicate (2 * count) (.stack true true)) := by
        rw [htwo, List.replicate_succ, List.replicate_succ]
        simp [exec, StackProcess.step, cycle, hhead, endFlag, hstop]
      have hrest := @ih { process with sent := process.sent ++ [process.image] } hhead hstop
      rw [hnext, hrest, List.replicate_succ, List.append_assoc]
      rfl

/-- **A scanner that was not signalled never lets go.** Whatever the core, the doorbell
and the clock do, its stack thread does not end, its connections stay up and it does
not exit. Once it has left its loop, because the core fell silent for instance, it can
go on for ever sending the last outputs it was given, while its published state is
closed. -/
theorem scanner_lingers {coreTimeoutUs now : ℕ} {schedule : List ProcessLabel}
    {process : StackProcess}
    (hrun : exec (step .scanner coreTimeoutUs) (start now) schedule = some process)
    (hunsignalled : .signal ∉ schedule) :
    process.connected = true ∧ process.stack ≠ .done ∧ process.main ≠ .exited ∧
      (1 ≤ process.main.place → ∀ count, ∃ more next, .signal ∉ more ∧
        exec (step .scanner coreTimeoutUs) process more = some next ∧
        next.published = .closed ∧
        next.sent = process.sent ++ List.replicate count process.image) := by
  have hstart : Lingers (start now) := ⟨orderly_start .scanner now, rfl, nofun⟩
  have hlingers : Lingers process := exec_invariant_of_mem (fun _ _ _ => Lingers.step) hstart
    (fun _ hlabel hsignal => hunsignalled (hsignal ▸ hlabel)) hrun
  have hplace : process.main.place < 4 := by
    by_contra hbehind
    exact hlingers.running (hlingers.orderly.joined (Nat.le_of_not_lt hbehind))
  refine ⟨hlingers.orderly.held (by omega), hlingers.running, ?_, ?_⟩
  · intro hexited
    rw [hexited] at hplace
    exact absurd hplace (by decide)
  intro hleft count
  obtain ⟨joining, joined, hquiet, hjoining, -, hclosed, hstack, hstop, himage, hsent⟩ :=
    hlingers.comes_to_join hleft coreTimeoutUs
  -- a pass that is under way is brought to its end first
  obtain ⟨ending, ended, hendingQuiet, hending, hhead, hendedStop, hendedClosed, hendedImage,
      hendedSent⟩ : ∃ ending ended, .signal ∉ ending ∧
        exec (step .scanner coreTimeoutUs) joined ending = some ended ∧ ended.stack = .head ∧
        ended.stop = false ∧ ended.published = .closed ∧ ended.image = process.image ∧
        ended.sent = process.sent := by
    cases hpoint : process.stack with
    | head =>
        exact ⟨[], joined, List.not_mem_nil, rfl, hstack.trans hpoint, hstop, hclosed, himage,
          hsent⟩
    | cycling =>
        refine ⟨[.stack true false], { joined with stack := .head }, by decide, ?_, rfl, hstop,
          hclosed, himage, hsent⟩
        simp [exec, step, cycle, hstack, hpoint]
    | done => exact absurd hpoint hlingers.running
  have hpolls := exec_polls hhead hendedStop coreTimeoutUs count
  have hmore : .signal ∉ joining ++ (ending ++ List.replicate (2 * count) (.stack true true)) := by
    simp [hquiet, hendingQuiet, List.mem_replicate]
  refine ⟨_, _, hmore, (exec_append hjoining _).trans ((exec_append hending _).trans hpolls),
    hendedClosed, ?_⟩
  show ended.sent ++ List.replicate count ended.image = _
  rw [hendedSent, hendedImage]

/-- A scanner process that finds its core silent, after one request. -/
def silentAfterRequest : List ProcessLabel :=
  [.main, .wait (.rung .ok [7] 1000), .main, .wait (.timedOut 2501000), .main]

theorem scanner_lingers_silentAfterRequest :
    exec (step .scanner 2000000) (start 0) silentAfterRequest =
        some { start 1000 with main := .join, published := .closed, image := [7] } ∧
      ∀ count, ∃ more next, .signal ∉ more ∧
        exec (step .scanner 2000000)
          { start 1000 with main := .join, published := .closed, image := [7] } more = some next ∧
        next.published = .closed ∧ next.sent = List.replicate count [7] := by
  have hrun : exec (step .scanner 2000000) (start 0) silentAfterRequest =
      some { start 1000 with main := .join, published := .closed, image := [7] } := by decide
  exact ⟨hrun, (scanner_lingers hrun (by decide)).2.2.2 (by decide)⟩

/-! ## Silence -/

/-- The clock reading of a request that was taken. -/
def taken (role : StackRole) : ProcessLabel → Option ℕ
  | .wait (.rung popped _ now) => if takes role popped then some now else none
  | _ => none

/-- The clock reading at which the doorbell was heard. -/
def woken : ProcessLabel → Option ℕ
  | .wait (.rung _ _ now) => some now
  | _ => none

/-- A clock reading of the serving thread. -/
def reading : ProcessLabel → Option ℕ
  | .wait (.rung _ _ now) => some now
  | .wait (.timedOut now) => some now
  | _ => none

/-- The latest of the readings that a view picks, or else when serving began. -/
def latest (view : ProcessLabel → Option ℕ) (began : ℕ) (schedule : List ProcessLabel) : ℕ :=
  (schedule.filterMap view).getLast?.getD began

theorem latest_concat (view : ProcessLabel → Option ℕ) (began : ℕ)
    (schedule : List ProcessLabel) (label : ProcessLabel) :
    latest view began (schedule ++ [label]) = (view label).getD (latest view began schedule) := by
  cases hview : view label <;> simp [latest, List.filterMap_append, hview]

/-- A reading that does not go back, and is at most `waitUs` later if the wait timed
out. -/
def InTime (waitUs clock : ℕ) : ProcessLabel → Prop
  | .wait (.rung _ _ now) => clock ≤ now
  | .wait (.timedOut now) => clock ≤ now ∧ now ≤ clock + waitUs
  | _ => True

/-- The same for every label of a schedule, from a first reading on. -/
def Timely (waitUs : ℕ) : ℕ → List ProcessLabel → Prop
  | _, [] => True
  | clock, label :: rest =>
      InTime waitUs clock label ∧ Timely waitUs ((reading label).getD clock) rest

theorem timely_concat {waitUs began : ℕ} {schedule : List ProcessLabel} {label : ProcessLabel} :
    Timely waitUs began (schedule ++ [label]) ↔
      Timely waitUs began schedule ∧ InTime waitUs (latest reading began schedule) label := by
  induction schedule generalizing began with
  | nil => simp [Timely, latest]
  | cons first rest ih =>
      have hlatest : latest reading began (first :: rest) =
          latest reading ((reading first).getD began) rest := by
        cases hfirst : reading first <;> simp [latest, hfirst, List.getLast?_cons]
      rw [List.cons_append, Timely, Timely, ih, hlatest, and_assoc]

/-- What the serving thread knows of the time: when it took the last request, and, while
it serves, that it has not been silent for too long since, or was just woken. -/
structure OnTime (role : StackRole) (coreTimeoutUs began : ℕ) (schedule : List ProcessLabel)
    (process : StackProcess) : Prop where
  request_eq : process.lastRequestUs = latest (taken role) began schedule
  request_le : process.lastRequestUs ≤ latest reading began schedule
  serving : process.main.place = 0 →
    latest reading began schedule < process.lastRequestUs + coreTimeoutUs ∨
      latest reading began schedule = latest woken began schedule

/-- A step without a clock reading changes nothing about the time, and does not lead
back into the loop. -/
theorem OnTime.silent {began : ℕ} {schedule : List ProcessLabel} {label : ProcessLabel}
    (h : OnTime role coreTimeoutUs began schedule process) (hreading : reading label = none)
    (hrequest : next.lastRequestUs = process.lastRequestUs)
    (hplace : next.main.place = 0 → process.main.place = 0) :
    OnTime role coreTimeoutUs began (schedule ++ [label]) next := by
  have hnone : taken role label = none ∧ woken label = none := by
    cases label with
    | signal | main | stack _ _ => exact ⟨rfl, rfl⟩
    | wait outcome =>
        cases outcome with
        | failed => exact ⟨rfl, rfl⟩
        | rung _ _ _ | timedOut _ => cases hreading
  constructor
  case request_eq => rw [latest_concat, hnone.1, hrequest, h.request_eq, Option.getD_none]
  case request_le =>
    rw [latest_concat, hreading, hrequest]
    exact h.request_le
  case serving =>
    intro hserving
    rw [latest_concat, latest_concat, hreading, hnone.2, hrequest]
    exact h.serving (hplace hserving)

theorem OnTime.step {waitUs began : ℕ} {schedule : List ProcessLabel} {label : ProcessLabel}
    (h : OnTime role coreTimeoutUs began schedule process)
    (htimely : Timely waitUs began (schedule ++ [label]))
    (hstep : step role coreTimeoutUs process label = some next) :
    OnTime role coreTimeoutUs began (schedule ++ [label]) next := by
  obtain ⟨rfl, rfl⟩ | ⟨outcome, rfl, hwait, rfl⟩ | ⟨rfl, hadvance⟩ | ⟨ok, sends, rfl, hcycle⟩ :=
    step_cases hstep
  · exact h.silent rfl rfl id
  · have hintime := (timely_concat.mp htimely).2
    cases outcome with
    | failed => exact h.silent rfl rfl nofun
    | timedOut now =>
        have hle := h.request_le.trans hintime.1
        constructor
        case request_eq =>
          rw [latest_concat]
          exact h.request_eq
        case request_le =>
          rw [latest_concat]
          exact hle
        case serving =>
          intro hserving
          rw [latest_concat]
          simp only [serve] at hserving
          split_ifs at hserving with hsilent
          · cases hserving
          · refine .inl ?_
            show now < process.lastRequestUs + coreTimeoutUs
            omega
    | rung popped outputs now =>
        have hle := h.request_le.trans hintime
        constructor
        case request_eq =>
          rw [latest_concat, ← h.request_eq]
          cases htakes : takes role popped <;> simp [serve, taken, htakes]
        case request_le =>
          rw [latest_concat]
          simp only [serve, reading, Option.getD_some]
          split_ifs
          · exact le_rfl
          · exact hle
        case serving =>
          intro _
          rw [latest_concat, latest_concat]
          exact .inr rfl
  · refine h.silent rfl (advance_keeps hadvance).2.2 ?_
    intro hserving
    by_contra hleft
    have hplace := (advance_behind (Nat.one_le_iff_ne_zero.mpr hleft) hadvance).1
    omega
  · obtain ⟨-, stack, sent, rfl⟩ := cycle_keeps hcycle
    exact h.silent rfl rfl id

theorem onTime_of_exec {waitUs began : ℕ} {schedule : List ProcessLabel}
    (htimely : Timely waitUs began schedule)
    (hrun : exec (StackProcess.step role coreTimeoutUs) (start began) schedule = some process) :
    OnTime role coreTimeoutUs began schedule process := by
  induction schedule using List.reverseRecOn generalizing process with
  | nil =>
      cases hrun
      exact ⟨rfl, le_rfl, fun _ => .inr rfl⟩
  | append_singleton schedule label ih =>
      obtain ⟨middle, hbefore, hstep⟩ := exec_concat_eq_some.mp hrun
      exact (ih (timely_concat.mp htimely).1 hbefore).step htimely hstep

/-- **Silence is noticed, and only silence.** Whatever came before, a wait that times out
ends the service exactly if no request has been taken for the core timeout. It then does
so at most one wait after the timeout has passed, or after the doorbell was last
heard, if that was later. -/
theorem silence_noticed {role : StackRole} {coreTimeoutUs waitUs began now : ℕ}
    {schedule : List ProcessLabel} {process : StackProcess}
    (htimely : Timely waitUs began (schedule ++ [.wait (.timedOut now)]))
    (hrun : exec (StackProcess.step role coreTimeoutUs) (start began)
      (schedule ++ [.wait (.timedOut now)]) = some process) :
    (process.main = .left ↔ latest (taken role) began schedule + coreTimeoutUs ≤ now) ∧
      (process.main = .left →
        now ≤ max (latest (taken role) began schedule + coreTimeoutUs)
          (latest woken began schedule) + waitUs) := by
  obtain ⟨waiting, hbefore, hstep⟩ := exec_concat_eq_some.mp hrun
  obtain ⟨hearlier, hforward, hwait⟩ := timely_concat.mp htimely
  have hontime := onTime_of_exec hearlier hbefore
  have hle := hontime.request_le.trans hforward
  simp only [StackProcess.step] at hstep
  split_ifs at hstep with hmain
  cases hstep
  have hserving := hontime.serving (by rw [hmain]; rfl)
  rw [← hontime.request_eq]
  have hleft : (serve role coreTimeoutUs waiting (.timedOut now)).main = .left ↔
      waiting.lastRequestUs + coreTimeoutUs ≤ now := by
    simp only [serve]
    split_ifs with hsilent
    · simp only [true_iff]
      omega
    · simp only [false_iff]
      omega
  refine ⟨hleft, fun _ => ?_⟩
  omega

/-- A core that is served once and falls silent, with one stray doorbell after it. -/
def servedOnce : List ProcessLabel :=
  [.main, .wait (.rung .ok [7] 1000), .main, .wait (.rung .errAgain [] 400000), .main]

theorem silence_noticed_servedOnce :
    latest (taken .adapter) 0 servedOnce + 800000 ≤ 900000 ∧
      900000 ≤ max (latest (taken .adapter) 0 servedOnce + 800000)
        (latest woken 0 servedOnce) + 500000 := by
  have htimely : Timely 500000 0 (servedOnce ++ [.wait (.timedOut 900000)]) := by
    simp [Timely, InTime, reading, servedOnce]
  have hrun : exec (StackProcess.step .adapter 800000) (start 0)
      (servedOnce ++ [.wait (.timedOut 900000)]) =
      some { start 1000 with main := .left, image := [7] } := by decide
  obtain ⟨hleft, hbound⟩ := silence_noticed htimely hrun
  exact ⟨hleft.mp rfl, hbound rfl⟩

end StackProcess

end SoftPlc.Adapters
