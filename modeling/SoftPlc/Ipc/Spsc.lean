/-
# The ring under its documented roles

One producer that only pushes and one consumer that only pops and drains, with
every access of the two interleaved freely and the producer allowed to die
between any two of its accesses. The start is an empty ring with arbitrary
cursors and arbitrary slot memory.

Two histories are kept beside the shared memory. `accepted` lists the messages
whose push returned `PLC_OK`. `fates` says what the consumer did with the oldest
of them, one entry each: delivered by a pop, or skipped by a drain, which
disposes of as many as its tail store passes over. The histories are never read
by a step. The result is a linearisation: the fates describe a prefix of the
accepted messages, the queue is the rest.
-/

import SoftPlc.Ipc.RingCalls
import SoftPlc.Math.Run

namespace SoftPlc.Ipc

open SoftPlc.Math

/-- What the consumer did with one accepted message. -/
inductive Fate
  | popped (cap : UInt32) (frame : Frame)
  | malformed
  | skipped
  deriving DecidableEq, Repr

/-- The consumer between calls, or inside one. -/
inductive Consumer
  | idle
  | popping (call : PopCall)
  | draining (call : DrainCall)
  deriving DecidableEq

/-- A ring with its two parties and the two histories. A producer that is
between calls and one that has died look the same to the ring. -/
structure Spsc where
  ring : Ring
  producer : Option PushCall
  consumer : Consumer
  accepted : List Message
  fates : List Fate

/-- The moves of the two parties. -/
inductive SpscAct
  | push (seq flags : UInt32) (data : List Byte)
  | produce
  | die
  | pop (out : Frame) (cap : UInt32)
  | drain
  | consume
  deriving DecidableEq, Repr

namespace Spsc

/-- An empty ring with both cursors at `cursor`. -/
def start (cursor : UInt32) (slots : Fin 4 → Frame) : Spsc :=
  { ring := { head := cursor, tail := cursor, slots := slots }
    producer := none
    consumer := .idle
    accepted := []
    fates := [] }

/-- One access of the push in progress. -/
def produce (s : Spsc) (call : PushCall) : Spsc :=
  match call.step s.ring with
  | (ring, .running next) => { s with ring := ring, producer := some next }
  | (ring, .returned .ok) =>
      { s with ring := ring, producer := none, accepted := s.accepted ++ [call.message] }
  | (ring, .returned _) => { s with ring := ring, producer := none }

/-- One access of the pop in progress. -/
def popAccess (s : Spsc) (call : PopCall) : Spsc :=
  match call.step s.ring with
  | (ring, .running next) => { s with ring := ring, consumer := .popping next }
  | (ring, .returned (.ok, frame)) =>
      { s with
        ring := ring, consumer := .idle, fates := s.fates ++ [.popped call.cap frame] }
  | (ring, .returned (.errProto, _)) =>
      { s with ring := ring, consumer := .idle, fates := s.fates ++ [.malformed] }
  | (ring, .returned _) => { s with ring := ring, consumer := .idle }

/-- One access of the drain in progress. Its tail store passes over as many
frames as it moves the tail by. -/
def drainAccess (s : Spsc) (call : DrainCall) : Spsc :=
  match call.step s.ring with
  | (ring, .running next) => { s with ring := ring, consumer := .draining next }
  | (ring, .returned ()) =>
      { s with
        ring := ring
        consumer := .idle
        fates := s.fates ++ List.replicate (ring.tail - s.ring.tail).toNat .skipped }

/-- One move. A call can be entered only between calls. -/
def step (s : Spsc) : SpscAct → Option Spsc
  | .push seq flags data =>
      match s.producer with
      | some _ => none
      | none =>
          match pushBegin seq flags data with
          | .running call => some { s with producer := some call }
          | .returned _ => some s
  | .produce => s.producer.map s.produce
  | .die => some { s with producer := none }
  | .pop out cap =>
      match s.consumer with
      | .idle =>
          match popBegin out cap with
          | .running call => some { s with consumer := .popping call }
          | .returned _ => some s
      | _ => none
  | .drain =>
      match s.consumer with
      | .idle => some { s with consumer := .draining .loadHead }
      | _ => none
  | .consume =>
      match s.consumer with
      | .idle => none
      | .popping call => some (s.popAccess call)
      | .draining call => some (s.drainAccess call)

/-- The frames the pops returned, with the capacity each was called with. -/
def popped (s : Spsc) : List (UInt32 × Frame) :=
  s.fates.filterMap fun fate =>
    match fate with
    | .popped cap frame => some (cap, frame)
    | .malformed => none
    | .skipped => none

end Spsc

/-- The moves of the producer, its death included. -/
def SpscAct.byProducer : SpscAct → Bool
  | .push _ _ _ | .produce | .die => true
  | .pop _ _ | .drain | .consume => false

/-- A fate that is right for its message. No message may be dropped as
malformed. -/
def Fate.RightFor (fate : Fate) (message : Message) : Prop :=
  match fate with
  | .popped cap frame => frame.Delivers message cap.toNat
  | .malformed => False
  | .skipped => True

/-- **Linearisation.** The fates are right for the oldest accepted messages,
and the queue holds the others. -/
structure Spsc.Linearised (s : Spsc) : Prop where
  fates_le : s.fates.length ≤ s.accepted.length
  fates_right : List.Forall₂ Fate.RightFor s.fates (s.accepted.take s.fates.length)
  queued : List.Forall₂ Frame.Carries s.ring.queue (s.accepted.drop s.fates.length)

/-! ## The invariant -/

/-- Where the consumer stands relative to the tail index `taken`. -/
def Consumer.Ok (consumer : Consumer) (base : ℕ) (accepted : List Message) (taken : ℕ)
    (ring : Ring) : Prop :=
  match consumer with
  | .idle => True
  | .popping call => call.Tracks ring accepted[taken]?
  | .draining .loadHead => True
  | .draining (.storeTail head) =>
      ∃ stop, taken ≤ stop ∧ stop ≤ accepted.length ∧ head = wrap (base + stop)

/-- The consumer is not disturbed by a step that keeps the tail and only
extends the log. -/
theorem Consumer.Ok.mono {consumer : Consumer} {base taken : ℕ}
    {accepted accepted' : List Message} {ring ring' : Ring}
    (h : consumer.Ok base accepted taken ring) (htail : ring'.tail = ring.tail)
    (hextends : accepted <+: accepted') : consumer.Ok base accepted' taken ring' := by
  obtain ⟨rest, rfl⟩ := hextends
  cases consumer with
  | idle => trivial
  | popping call =>
      refine PopCall.Tracks.mono h htail fun message hmessage => ?_
      obtain ⟨hlt, -⟩ := List.getElem?_eq_some_iff.mp hmessage
      rw [List.getElem?_append_left hlt, hmessage]
  | draining call =>
      cases call with
      | loadHead => trivial
      | storeTail head =>
          obtain ⟨stop, hlow, hhigh, hhead⟩ := h
          refine ⟨stop, hlow, ?_, hhead⟩
          simp only [List.length_append]
          omega

/-- The invariant of the documented roles. -/
structure SpscInv (base : ℕ) (s : Spsc) : Prop where
  ring_inv : RingInv base s.accepted s.fates.length s.fates.length s.ring s.producer
  consumer_ok : s.consumer.Ok base s.accepted s.fates.length s.ring
  fates_right : List.Forall₂ Fate.RightFor s.fates (s.accepted.take s.fates.length)

namespace SpscInv

variable {base : ℕ} {s : Spsc}

/-- The empty ring satisfies the invariant, wherever its cursors stand. -/
theorem start (cursor : UInt32) (slots : Fin 4 → Frame) :
    SpscInv cursor.toNat (Spsc.start cursor slots) where
  ring_inv := RingInv.empty cursor slots
  consumer_ok := trivial
  fates_right := .nil

/-- The producer enters or abandons a call. -/
theorem set_producer (h : SpscInv base s) {next : Option PushCall}
    (hnext : ∀ call, next = some call → ¬ call.Filling ∧ call.Progress s.ring) :
    SpscInv base { s with producer := next } :=
  { ring_inv := h.ring_inv.set_producer hnext
    consumer_ok := h.consumer_ok
    fates_right := h.fates_right }

/-- Every access of a push keeps the invariant. -/
theorem produce (h : SpscInv base s) {call : PushCall} (hproducer : s.producer = some call) :
    SpscInv base (s.produce call) := by
  have hring := h.ring_inv
  rw [hproducer] at hring
  have htail := call.step_tail s.ring
  unfold Spsc.produce
  split
  · rename_i ring next hstep
    rw [hstep] at htail
    obtain ⟨-, hnext⟩ := hring.push_running (fun _ _ hroom => hroom) hstep
    exact ⟨hnext, h.consumer_ok.mono htail (List.prefix_refl _), h.fates_right⟩
  · rename_i ring hstep
    rw [hstep] at htail
    rcases hring.push_returned hstep with ⟨-, -, hnext⟩ | ⟨hagain, -⟩
    · refine ⟨hnext, h.consumer_ok.mono htail (List.prefix_append _ _), ?_⟩
      rw [List.take_append_of_le_length h.ring_inv.taken_le]
      exact h.fates_right
    · cases hagain
  · rename_i ring status hne hstep
    rcases hring.push_returned hstep with ⟨hok, -⟩ | ⟨-, hsame, -, hnext⟩
    · exact absurd hok hne
    · subst hsame
      exact ⟨hnext, h.consumer_ok, h.fates_right⟩

/-- Every access of a pop keeps the invariant. -/
theorem popAccess (h : SpscInv base s) {call : PopCall}
    (hconsumer : s.consumer = .popping call) : SpscInv base (s.popAccess call) := by
  have htracks := h.consumer_ok
  rw [hconsumer] at htracks
  unfold Spsc.popAccess
  split
  · rename_i ring next hstep
    obtain ⟨rfl, -, hnext⟩ := h.ring_inv.pop_running htracks hstep
    exact ⟨h.ring_inv, hnext, h.fates_right⟩
  · rename_i ring frame hstep
    rcases h.ring_inv.pop_returned htracks hstep with ⟨hagain, -⟩ |
      ⟨-, rfl, message, holdest, hdelivers⟩
    · cases hagain
    · obtain ⟨hlt, hget⟩ := List.getElem?_eq_some_iff.mp holdest
      refine ⟨?_, trivial, ?_⟩
      · simp only [List.length_append, List.length_singleton]
        exact h.ring_inv.set_tail (by omega) le_rfl hlt
      · simp only [List.length_append, List.length_singleton]
        rw [List.take_succ_eq_append_getElem hlt, hget]
        exact List.rel_append h.fates_right (.cons hdelivers .nil)
  · rename_i ring frame hstep
    rcases h.ring_inv.pop_returned htracks hstep with ⟨hagain, -⟩ | ⟨hok, -⟩
    · cases hagain
    · cases hok
  · rename_i ring result hok hproto hstep
    obtain ⟨status, frame⟩ := result
    rcases h.ring_inv.pop_returned htracks hstep with ⟨-, rfl, -⟩ | ⟨rfl, -⟩
    · exact ⟨h.ring_inv, trivial, h.fates_right⟩
    · exact absurd rfl (hok frame)

/-- Every access of a drain keeps the invariant. The store disposes of exactly
the messages that were queued at the load, however many were pushed since. -/
theorem drainAccess (h : SpscInv base s) {call : DrainCall}
    (hconsumer : s.consumer = .draining call) : SpscInv base (s.drainAccess call) := by
  have hok := h.consumer_ok
  rw [hconsumer] at hok
  have hring := h.ring_inv
  have htaken := hring.taken_le
  have hroom := hring.room
  cases call with
  | loadHead => exact ⟨hring, ⟨s.accepted.length, htaken, le_rfl, hring.head_eq⟩, h.fates_right⟩
  | storeTail head =>
      obtain ⟨stop, hlow, hhigh, rfl⟩ := hok
      have hskip : (wrap (base + stop) - s.ring.tail).toNat = stop - s.fates.length := by
        rw [hring.tail_eq, wrap_sub_toNat (by omega) (by omega)]
        omega
      have hlength : s.fates.length + (stop - s.fates.length) = stop := by omega
      refine ⟨?_, trivial, ?_⟩
      · simp only [Spsc.drainAccess, DrainCall.step, hskip, List.length_append,
          List.length_replicate, hlength]
        exact hring.set_tail hlow le_rfl hhigh
      · simp only [Spsc.drainAccess, DrainCall.step, hskip, List.length_append,
          List.length_replicate, hlength]
        have hsplit : s.accepted.take stop = s.accepted.take s.fates.length ++
            (s.accepted.drop s.fates.length).take (stop - s.fates.length) := by
          rw [← hlength, List.take_add, hlength]
        rw [hsplit]
        refine List.rel_append h.fates_right ?_
        rw [List.forall₂_iff_get]
        refine ⟨by simp; omega, fun index hfate hmessage => ?_⟩
        simp [Fate.RightFor]

/-- One move keeps the invariant. -/
theorem step (h : SpscInv base s) {act : SpscAct} {next : Spsc}
    (hstep : s.step act = some next) : SpscInv base next := by
  cases act with
  | push seq flags data =>
      simp only [Spsc.step] at hstep
      split at hstep
      · cases hstep
      · split at hstep
        · rename_i call hbegin
          cases hstep
          refine h.set_producer fun other hother => ?_
          cases hother
          exact pushBegin_running hbegin s.ring
        · cases hstep
          exact h
  | produce =>
      obtain ⟨call, hproducer, rfl⟩ := Option.map_eq_some_iff.mp hstep
      exact h.produce hproducer
  | die =>
      cases hstep
      exact h.set_producer fun call hcall => by cases hcall
  | pop out cap =>
      simp only [Spsc.step] at hstep
      split at hstep
      · split at hstep
        · rename_i call hbegin
          cases hstep
          simp only [popBegin] at hbegin
          split at hbegin
          · cases hbegin
          · cases hbegin
            exact ⟨h.ring_inv, trivial, h.fates_right⟩
        · cases hstep
          exact h
      · cases hstep
  | drain =>
      simp only [Spsc.step] at hstep
      split at hstep
      · cases hstep
        exact ⟨h.ring_inv, trivial, h.fates_right⟩
      · cases hstep
  | consume =>
      simp only [Spsc.step] at hstep
      split at hstep
      · cases hstep
      · cases hstep
        exact h.popAccess ‹_›
      · cases hstep
        exact h.drainAccess ‹_›

/-- Every run from an empty ring keeps the invariant. -/
theorem run {cursor : UInt32} {slots : Fin 4 → Frame} {schedule : List SpscAct}
    (hrun : exec Spsc.step (Spsc.start cursor slots) schedule = some s) :
    SpscInv cursor.toNat s :=
  exec_invariant_all (fun _ _ _ hinv hstep => hinv.step hstep) (SpscInv.start cursor slots) hrun

/-- The invariant is a linearisation. -/
theorem linearised (h : SpscInv base s) : s.Linearised where
  fates_le := h.ring_inv.taken_le
  fates_right := h.fates_right
  queued := by
    obtain ⟨start, hrepresents⟩ := h.ring_inv.represents
    exact hrepresents.queue_carries

/-- A producer move that publishes nothing leaves the consumer's view of the
queue as it was. -/
theorem queue_eq (h : SpscInv base s) {act : SpscAct} {next : Spsc}
    (hact : act.byProducer = true) (hstep : s.step act = some next)
    (hsame : next.accepted = s.accepted) : next.ring.queue = s.ring.queue := by
  cases act with
  | push seq flags data =>
      simp only [Spsc.step] at hstep
      split at hstep
      · cases hstep
      · split at hstep <;> cases hstep <;> rfl
  | die =>
      cases hstep
      rfl
  | produce =>
      obtain ⟨call, hproducer, rfl⟩ := Option.map_eq_some_iff.mp hstep
      have hring := h.ring_inv
      rw [hproducer] at hring
      -- Only the head store publishes, and it extends the history.
      have hpc : ∀ head, call.pc ≠ .storeHead head := by
        intro head hpc
        simp [Spsc.produce, PushCall.step, hpc] at hsame
      have hqueue := hring.push_queue hpc
      unfold Spsc.produce
      split <;> (rename_i hcall; rw [hcall] at hqueue; exact hqueue)
  | pop out cap => cases hact
  | drain => cases hact
  | consume => cases hact

end SpscInv

/-- The popped frames deliver a subsequence of the accepted messages. -/
theorem Spsc.Linearised.popped_sublist {s : Spsc} (h : s.Linearised) :
    List.SublistForall₂ (fun (result : UInt32 × Frame) message =>
      result.2.Delivers message result.1.toNat) s.popped s.accepted := by
  have hgeneral : ∀ (fates : List Fate) (messages : List Message),
      List.Forall₂ Fate.RightFor fates messages →
      List.SublistForall₂ (fun (result : UInt32 × Frame) message =>
        result.2.Delivers message result.1.toNat)
        ({ s with fates := fates }).popped messages := by
    intro fates messages hright
    induction hright with
    | nil => exact .nil
    | @cons fate message fates messages hfate _ ih =>
        cases fate with
        | popped cap frame => exact .cons hfate ih
        | malformed => exact hfate.elim
        | skipped => exact .cons_right ih
  have hextends := hgeneral s.fates (s.accepted.take s.fates.length) h.fates_right
  rw [List.sublistForall₂_iff] at hextends ⊢
  obtain ⟨source, hsource, hsublist⟩ := hextends
  exact ⟨source, hsource, hsublist.trans (List.take_sublist _ _)⟩

/-- **Ring correctness under the documented roles.** In every state a run can
reach from an empty ring: the fates of the oldest accepted messages are right
and the queue holds the others; the frames popped deliver, in order and without
repetition, a subsequence of the accepted messages; and no producer move other
than a completed push, whether it is part of a push that will be refused, of
one the producer dies in, or the death itself, changes the consumer's view. -/
theorem spsc_ring_correct (cursor : UInt32) (slots : Fin 4 → Frame)
    (schedule : List SpscAct) (s : Spsc)
    (hrun : exec Spsc.step (Spsc.start cursor slots) schedule = some s) :
    s.Linearised ∧
      List.SublistForall₂ (fun (result : UInt32 × Frame) message =>
        result.2.Delivers message result.1.toNat) s.popped s.accepted ∧
      ∀ act next, act.byProducer = true → s.step act = some next →
        next.accepted = s.accepted → next.ring.queue = s.ring.queue :=
  have hinv := SpscInv.run hrun
  ⟨hinv.linearised, hinv.linearised.popped_sublist,
    fun _ _ hact hstep hsame => hinv.queue_eq hact hstep hsame⟩

/-- A two-byte message pushed across the cursor wrap, then popped with room for
one byte. -/
def acrossWrap : List SpscAct :=
  [.push 9 1 [7, 8]] ++ List.replicate 7 .produce ++
    [.pop Frame.zeroed 1] ++ List.replicate 7 .consume

theorem spsc_ring_correct_acrossWrap :
    ∃ s, exec Spsc.step (Spsc.start 4294967295 fun _ => Frame.zeroed) acrossWrap = some s ∧
      s.ring.head = 0 ∧ s.popped.map (fun result => result.2.seq) = [9] ∧ s.Linearised := by
  have hview : (exec Spsc.step (Spsc.start 4294967295 fun _ => Frame.zeroed) acrossWrap).map
      (fun s => (s.ring.head, s.popped.map fun result => result.2.seq)) = some (0, [9]) := by
    decide +kernel
  obtain ⟨s, hrun, hvalues⟩ := Option.map_eq_some_iff.mp hview
  obtain ⟨hhead, hpopped⟩ := Prod.mk.inj hvalues
  exact ⟨s, hrun, hhead, hpopped, (spsc_ring_correct _ _ acrossWrap s hrun).1⟩

end SoftPlc.Ipc
