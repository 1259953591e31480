/-
# The wait loop of an exchange against an untrusted peer

The loops of `proxy_exchange` that wait for a reply, one shared access at a time,
while the peer overwrites the head and all slots of the response ring as it likes.
Both roles have the same loops.

No write of the peer makes a pop read outside the slot it addresses. But the inner
loop tests neither a count nor the clock, so a peer that keeps publishing late frames
holds the core between two evaluations of the time budget for as long as it likes. The
core gets back to its budget when the head it loads runs at most a fixed number of
frames past the tail of the last evaluation and never behind the tail.
-/

import SoftPlc.Cyclic.System
import SoftPlc.Ipc.RingCalls

namespace SoftPlc.Cyclic

open SoftPlc.Math SoftPlc.Ipc

/-- Where the core stands in the loops. -/
inductive WaitStage
  /-- Before the evaluation of the budget. -/
  | evaluate
  /-- In `plc_sem_wait_timeout`. -/
  | semWait
  /-- Before a call of `plc_spsc_pop`. -/
  | enterPop
  | pop (call : PopCall)
  | matched
  | failed (status : PlcStatus)

structure WaitState where
  rsp : Ring
  scratch : Frame
  seq : UInt32
  t0 : ℕ
  budget : ℕ
  stage : WaitStage
  /-- Since the last evaluation: the pops begun, the steps of the core, and where the
  tail stood then. -/
  pops : ℕ
  steps : ℕ
  mark : UInt32

inductive WaitAct
  /-- The next step of the core, with the clock and the answer of the semaphore. -/
  | core (now : ℕ) (sem : PlcStatus)
  /-- The peer writes the head and the slots, which are what the region holds. -/
  | peer (head : UInt32) (slots : Fin 4 → Frame)
      (sized : ∀ index, (slots index).data.length = plcIpcMaxFrameBytes)

namespace WaitState

/-- The loops are entered. -/
def start (rsp : Ring) (scratch : Frame) (seq : UInt32) (t0 budget : ℕ) : WaitState :=
  { rsp := rsp, scratch := scratch, seq := seq, t0 := t0, budget := budget,
    stage := .evaluate, pops := 0, steps := 0, mark := rsp.tail }

/-- What the inner loop does with the result of a pop. -/
def popped (s : WaitState) (status : PlcStatus) (frame : Frame) : WaitState :=
  match status with
  | .errAgain => { s with stage := .evaluate }
  | .ok =>
      if (frame.seq - s.seq).toInt32 < 0 then { s with scratch := frame, stage := .enterPop }
      else if frame.seq ≠ s.seq then { s with scratch := frame, stage := .failed .errProto }
      else { s with scratch := frame, stage := .matched }
  | _ => { s with stage := .failed .errProto }

/-- One step of the core. -/
def coreStep (s : WaitState) (now : ℕ) (sem : PlcStatus) : Option WaitState :=
  match s.stage with
  | .evaluate =>
      some { s with
        stage := if s.budget ≤ now - s.t0 then .failed .errTimeout else .semWait
        pops := 0
        steps := 0
        mark := s.rsp.tail }
  | .semWait =>
      some { s with
        stage :=
          if sem = .errTimeout then .failed .errTimeout
          else if sem ≠ .ok then .failed .errIo
          else .enterPop
        steps := s.steps + 1 }
  | .enterPop =>
      let begun := { s with pops := s.pops + 1, steps := s.steps + 1 }
      match popBegin s.scratch popCap with
      | .running call => some { begun with stage := .pop call }
      | .returned (status, frame) => some (begun.popped status frame)
  | .pop call =>
      match call.step s.rsp with
      | (rsp, .running later) =>
          some { s with rsp := rsp, stage := .pop later, steps := s.steps + 1 }
      | (rsp, .returned (status, frame)) =>
          some (popped { s with rsp := rsp, steps := s.steps + 1 } status frame)
  | .matched | .failed _ => none

def step (s : WaitState) : WaitAct → Option WaitState
  | .core now sem => s.coreStep now sem
  | .peer head slots _ => some { s with rsp := { s.rsp with head := head, slots := slots } }

/-- A pop of these loops reads the slot that the tail addresses. -/
structure Addresses (call : PopCall) (tail : UInt32) : Prop where
  cap_eq : call.cap = popCap
  tail_eq : ∀ held, call.heldTail = some held → held = tail

/-- What holds whatever the peer writes. -/
structure Fits (s : WaitState) : Prop where
  sized : ∀ index, (s.rsp.slots index).data.length = plcIpcMaxFrameBytes
  addresses : ∀ call, s.stage = .pop call → Addresses call s.rsp.tail

/-- The result of a pop leaves the ring alone and no pop running. -/
theorem popped_rsp (s : WaitState) (status : PlcStatus) (frame : Frame) :
    (s.popped status frame).rsp = s.rsp ∧
      ∀ call, (s.popped status frame).stage ≠ .pop call := by
  unfold popped
  split
  · exact ⟨rfl, fun call h => by cases h⟩
  · split_ifs <;> exact ⟨rfl, fun call h => by cases h⟩
  · exact ⟨rfl, fun call h => by cases h⟩

/-- A pop writes the tail only, and only in the access it returns from. -/
theorem popCall_step {call : PopCall} {ring : Ring} (h : Addresses call ring.tail) :
    (call.step ring).1.slots = ring.slots ∧
      ∀ later, (call.step ring).2 = .running later →
        (call.step ring).1.tail = ring.tail ∧ Addresses later ring.tail := by
  obtain ⟨hcap, htail⟩ := h
  obtain ⟨out, cap, pc⟩ := call
  simp only at hcap
  subst hcap
  cases pc with
  | loadTail =>
      refine ⟨rfl, fun later hlater => ?_⟩
      cases hlater
      exact ⟨rfl, rfl, fun held hheld => (Option.some.inj hheld).symm⟩
  | storeTail tail frame => exact ⟨rfl, fun later hlater => by cases hlater⟩
  | skipTail tail => exact ⟨rfl, fun later hlater => by cases hlater⟩
  | loadHead tail =>
      have heq : tail = ring.tail := htail tail rfl
      simp only [PopCall.step]
      split_ifs
      · exact ⟨rfl, fun later hlater => by cases hlater⟩
      · refine ⟨rfl, fun later hlater => ?_⟩
        cases hlater
        exact ⟨rfl, rfl, fun held hheld => (Option.some.inj hheld).symm.trans heq⟩
  | readFlags tail seq len =>
      have heq : tail = ring.tail := htail tail rfl
      simp only [PopCall.step]
      split_ifs
      all_goals
        refine ⟨rfl, fun later hlater => ?_⟩
        cases hlater
        exact ⟨rfl, rfl, fun held hheld => (Option.some.inj hheld).symm.trans heq⟩
  | readSeq tail | readLen tail seq | copyData tail seq len flags =>
      have heq : tail = ring.tail := htail tail rfl
      refine ⟨rfl, fun later hlater => ?_⟩
      cases hlater
      exact ⟨rfl, rfl, fun held hheld => (Option.some.inj hheld).symm.trans heq⟩

theorem popBegin_popCap (scratch : Frame) :
    popBegin scratch popCap = .running ⟨scratch, popCap, .loadTail⟩ :=
  if_neg (Nat.not_lt.mpr popCap_le)

theorem Fits.step (s : WaitState) (act : WaitAct) (next : WaitState) (h : s.Fits)
    (hstep : s.step act = some next) : next.Fits := by
  cases act with
  | peer head slots sized =>
      cases hstep
      exact ⟨sized, h.addresses⟩
  | core now sem =>
      cases hstage : s.stage with
      | evaluate =>
          simp only [WaitState.step, coreStep, hstage, Option.some.injEq] at hstep
          subst hstep
          refine ⟨h.sized, fun call hcall => ?_⟩
          dsimp only at hcall
          split_ifs at hcall
      | semWait =>
          simp only [WaitState.step, coreStep, hstage, Option.some.injEq] at hstep
          subst hstep
          refine ⟨h.sized, fun call hcall => ?_⟩
          dsimp only at hcall
          split_ifs at hcall
      | enterPop =>
          simp only [WaitState.step, coreStep, hstage, popBegin_popCap,
            Option.some.injEq] at hstep
          subst hstep
          refine ⟨h.sized, fun call hcall => ?_⟩
          cases hcall
          exact ⟨rfl, fun held hheld => by cases hheld⟩
      | pop call =>
          obtain ⟨hslots, hrunning⟩ := popCall_step (h.addresses call hstage)
          simp only [WaitState.step, coreStep, hstage] at hstep
          split at hstep
          · next rsp later heq =>
              rw [heq] at hslots hrunning
              obtain ⟨htail, haddresses⟩ := hrunning later rfl
              cases hstep
              refine ⟨fun index => hslots ▸ h.sized index, fun call hcall => ?_⟩
              cases hcall
              exact htail.symm ▸ haddresses
          · next rsp status frame heq =>
              rw [heq] at hslots
              cases hstep
              refine ⟨fun index => ?_, fun call hcall => absurd hcall ((popped_rsp _ _ _).2 call)⟩
              rw [(popped_rsp _ _ _).1]
              exact hslots ▸ h.sized index
      | matched =>
          simp only [WaitState.step, coreStep, hstage] at hstep
          cases hstep
      | failed status =>
          simp only [WaitState.step, coreStep, hstage] at hstep
          cases hstep

/-- Whenever a pop loads the head, the head is not behind the tail, and at most
`limit` past the tail of the last evaluation. -/
def HeadWithin (limit : ℕ) (s : WaitState) (act : WaitAct) : Prop :=
  match act, s.stage with
  | .core _ _, .pop ⟨_, _, .loadHead _⟩ =>
      (s.rsp.tail - s.mark).toNat ≤ (s.rsp.head - s.mark).toNat ∧
        (s.rsp.head - s.mark).toNat ≤ limit
  | _, _ => True

/-- The accesses a pop has made, at most. -/
def accesses : PopPc → ℕ
  | .loadTail => 0
  | .loadHead _ => 1
  | .readSeq _ => 2
  | .readLen _ _ => 3
  | .readFlags _ _ _ => 4
  | .copyData _ _ _ _ => 5
  | .storeTail _ _ => 6
  | .skipTail _ => 6

/-- A pop that found a frame. -/
def found : PopPc → Bool
  | .loadTail | .loadHead _ => false
  | _ => true

/-- How much the core has done since the last evaluation. -/
def Spent (limit : ℕ) (s : WaitState) : Prop :=
  match s.stage with
  | .semWait => s.pops = 0 ∧ s.steps = 0 ∧ s.mark = s.rsp.tail
  | .enterPop =>
      (s.rsp.tail - s.mark).toNat = s.pops ∧ s.pops ≤ limit ∧ s.steps ≤ 8 * s.pops + 1
  | .pop call =>
      (s.rsp.tail - s.mark).toNat + 1 = s.pops ∧ s.pops ≤ limit + 1 ∧
        s.steps + 6 ≤ 8 * s.pops + accesses call.pc ∧
        (found call.pc = true → s.pops ≤ limit ∧ s.pops < 2 ^ 32)
  | .evaluate | .matched | .failed _ =>
      s.pops ≤ limit + 1 ∧ s.steps ≤ 8 * (limit + 1) + 1

/-- In each of them, the pops and the steps are bounded. -/
theorem Spent.bounded {limit : ℕ} {s : WaitState} (h : s.Spent limit) :
    s.pops ≤ limit + 1 ∧ s.steps ≤ 8 * (limit + 1) + 1 := by
  unfold Spent at h
  cases hstage : s.stage with
  | pop call =>
      simp only [hstage] at h
      have hmade : accesses call.pc ≤ 6 := by
        cases call.pc <;> simp [accesses]
      omega
  | evaluate | semWait | enterPop | matched | failed status =>
      simp only [hstage] at h
      omega

/-- A frame was taken, and the tail is one further. -/
theorem tail_advanced {tail mark : UInt32} {count : ℕ} (hcount : (tail - mark).toNat + 1 = count)
    (hlt : count < 2 ^ 32) : (tail + 1 - mark).toNat = count := by
  have htail := tail.toNat_lt
  have hmark := mark.toNat_lt
  have hone : (1 : UInt32).toNat = 1 := rfl
  rw [UInt32.toNat_sub] at hcount ⊢
  rw [UInt32.toNat_add, hone]
  omega

/-- Cursors at the same distance from a third are equal. -/
theorem eq_of_distance_eq {first second mark : UInt32}
    (heq : (first - mark).toNat = (second - mark).toNat) : first = second := by
  have hfirst := first.toNat_lt
  have hsecond := second.toNat_lt
  have hmark := mark.toNat_lt
  rw [UInt32.toNat_sub, UInt32.toNat_sub] at heq
  apply UInt32.toNat_inj.mp
  omega

/-- After a pop that took a frame. -/
theorem Spent.popped {limit : ℕ} {s : WaitState} (hdistance : (s.rsp.tail - s.mark).toNat = s.pops)
    (hpops : s.pops ≤ limit) (hsteps : s.steps ≤ 8 * s.pops + 1) (status : PlcStatus)
    (frame : Frame) : (s.popped status frame).Spent limit := by
  have hbounded : s.pops ≤ limit + 1 ∧ s.steps ≤ 8 * (limit + 1) + 1 := by omega
  unfold WaitState.popped
  split
  · exact hbounded
  · split_ifs
    · exact ⟨hdistance, hpops, hsteps⟩
    · exact hbounded
    · exact hbounded
  · exact hbounded

/-- One access of a pop. -/
theorem Spent.access {limit : ℕ} {s next : WaitState} {call : PopCall} {now : ℕ}
    {sem : PlcStatus} (h : s.Spent limit) (hfits : s.Fits) (hstage : s.stage = .pop call)
    (hwithin : s.HeadWithin limit (.core now sem)) (hstep : s.coreStep now sem = some next) :
    next.Spent limit := by
  have haddresses := hfits.addresses call hstage
  obtain ⟨out, cap, pc⟩ := call
  simp only [Spent, hstage] at h
  obtain ⟨hdistance, hpops, hsteps, hfound⟩ := h
  cases pc with
  | loadTail =>
      simp only [coreStep, hstage, PopCall.step, Option.some.injEq] at hstep
      subst hstep
      simp only [accesses] at hsteps
      exact ⟨hdistance, hpops, by simp only [accesses]; omega, fun hnot => by cases hnot⟩
  | loadHead tail =>
      have htail : tail = s.rsp.tail := haddresses.tail_eq tail rfl
      simp only [HeadWithin, hstage] at hwithin
      simp only [accesses] at hsteps
      simp only [coreStep, hstage, PopCall.step] at hstep
      by_cases hempty : tail = s.rsp.head
      · simp only [hempty, if_true, Option.some.injEq] at hstep
        subst hstep
        refine ⟨hpops, ?_⟩
        show s.steps + 1 ≤ 8 * (limit + 1) + 1
        omega
      · simp only [hempty, if_false, Option.some.injEq] at hstep
        subst hstep
        -- the head lies strictly beyond the tail, and within the limit
        have hne : (s.rsp.tail - s.mark).toNat ≠ (s.rsp.head - s.mark).toNat :=
          fun heq => hempty (htail.trans (eq_of_distance_eq heq))
        have hhead := (s.rsp.head - s.mark).toNat_lt
        refine ⟨hdistance, hpops, ?_, fun _ => ?_⟩
        · simp only [accesses]
          omega
        · show s.pops ≤ limit ∧ s.pops < 2 ^ 32
          omega
  | readSeq tail | readLen tail seq | copyData tail seq len flags =>
      simp only [coreStep, hstage, PopCall.step, Option.some.injEq] at hstep
      subst hstep
      simp only [accesses] at hsteps
      exact ⟨hdistance, hpops, by simp only [accesses]; omega, fun _ => hfound rfl⟩
  | readFlags tail seq len =>
      simp only [accesses] at hsteps
      simp only [coreStep, hstage, PopCall.step] at hstep
      split_ifs at hstep
      all_goals
        cases hstep
        exact ⟨hdistance, hpops, by simp only [accesses]; omega, fun _ => hfound rfl⟩
  | storeTail tail frame | skipTail tail =>
      have htail : tail = s.rsp.tail := haddresses.tail_eq tail rfl
      obtain ⟨hlimit, hlt⟩ := hfound rfl
      simp only [accesses] at hsteps
      simp only [coreStep, hstage, PopCall.step, Option.some.injEq] at hstep
      subst hstep
      apply Spent.popped
      · rw [htail]
        exact tail_advanced hdistance hlt
      · exact hlimit
      · show s.steps + 1 ≤ 8 * s.pops + 1
        omega

theorem Spent.step {limit : ℕ} {s next : WaitState} {act : WaitAct} (h : s.Spent limit)
    (hfits : s.Fits) (hwithin : s.HeadWithin limit act) (hstep : s.step act = some next) :
    next.Spent limit := by
  cases act with
  | peer head slots sized =>
      cases hstep
      exact h
  | core now sem =>
      cases hstage : s.stage with
      | evaluate =>
          simp only [WaitState.step, coreStep, hstage, Option.some.injEq] at hstep
          subst hstep
          unfold Spent
          split_ifs <;> simp
      | semWait =>
          simp only [Spent, hstage] at h
          obtain ⟨hpops, hsteps, hmark⟩ := h
          simp only [WaitState.step, coreStep, hstage, Option.some.injEq] at hstep
          subst hstep
          unfold Spent
          split_ifs <;> simp [hpops, hsteps, hmark]
      | enterPop =>
          simp only [Spent, hstage] at h
          obtain ⟨hdistance, hpops, hsteps⟩ := h
          simp only [WaitState.step, coreStep, hstage, popBegin_popCap,
            Option.some.injEq] at hstep
          subst hstep
          refine ⟨congrArg (· + 1) hdistance, Nat.succ_le_succ hpops, ?_, fun hnot => by cases hnot⟩
          simp only [accesses]
          omega
      | pop call => exact h.access hfits hstage hwithin hstep
      | matched =>
          simp only [WaitState.step, coreStep, hstage] at hstep
          cases hstep
      | failed status =>
          simp only [WaitState.step, coreStep, hstage] at hstep
          cases hstep

end WaitState

end SoftPlc.Cyclic
