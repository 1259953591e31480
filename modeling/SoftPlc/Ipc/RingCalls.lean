/-
# Ring calls, one shared access at a time

The calls of `Ring` split at every cursor load, cursor store and slot field
access. A call in progress is its program counter together with the values it
has loaded so far; one step performs one access, in the order of the source.
Running a call without interruption gives back the function of `Ring`, so the
two presentations cannot drift apart.

`RingInv` is the representation invariant under arbitrary interleaving. It
relates the ring to the log of published messages by unbounded indices, covers
a producer that has written part of a slot, and has two lower bounds: `taken`,
where the tail stands, and `low`, the lowest index the tail may still be set
to. With documented roles the two coincide. They differ only while a drain
whose cursor load is already stale has still to store the tail.
-/

import SoftPlc.Ipc.Ring

namespace SoftPlc.Ipc

open SoftPlc.Math

/-- What one step of a call leads to. -/
inductive Outcome (κ ρ : Type) where
  | running (call : κ)
  | returned (result : ρ)
  deriving DecidableEq

/-- Run a call to its return without interruption, for at most `fuel` steps. -/
def runCall {κ ρ : Type} (step : κ → Ring → Ring × Outcome κ ρ) :
    ℕ → κ → Ring → Option (Ring × ρ)
  | 0, _, _ => none
  | fuel + 1, call, ring =>
      match step call ring with
      | (next, .running later) => runCall step fuel later next
      | (next, .returned result) => some (next, result)

/-- Overwrite part of the slot a cursor points at. -/
def Ring.modifySlot (ring : Ring) (cursor : UInt32) (change : Frame → Frame) : Ring :=
  { ring with
    slots := Function.update ring.slots (slotIndex cursor)
      (change (ring.slots (slotIndex cursor))) }

/-! ## Push -/

/-- The next access of `plc_spsc_push_flagged`, with the loaded head cursor. -/
inductive PushPc
  | loadHead
  | loadTail (head : UInt32)
  | writeSeq (head : UInt32)
  | writeLen (head : UInt32)
  | writeFlags (head : UInt32)
  | writeData (head : UInt32)
  | storeHead (head : UInt32)
  deriving DecidableEq, Repr

/-- A push in progress. -/
structure PushCall where
  message : Message
  pc : PushPc
  deriving DecidableEq

/-- Enter `plc_spsc_push_flagged`; a bad length returns before any access. -/
def pushBegin (seq flags : UInt32) (data : List Byte) : Outcome PushCall PlcStatus :=
  if hlen : data.length ≤ plcIpcMaxFrameBytes then
    .running ⟨⟨seq, flags, data, hlen⟩, .loadHead⟩
  else .returned .errInval

/-- One access of `plc_spsc_push_flagged`. -/
def PushCall.step (call : PushCall) (ring : Ring) : Ring × Outcome PushCall PlcStatus :=
  let message := call.message
  match call.pc with
  | .loadHead => (ring, .running ⟨message, .loadTail ring.head⟩)
  | .loadTail head =>
      if plcIpcRingSlots ≤ (head - ring.tail).toNat then (ring, .returned .errAgain)
      else (ring, .running ⟨message, .writeSeq head⟩)
  | .writeSeq head =>
      (ring.modifySlot head fun slot => { slot with seq := message.seq },
        .running ⟨message, .writeLen head⟩)
  | .writeLen head =>
      (ring.modifySlot head fun slot => { slot with len := message.len },
        .running ⟨message, .writeFlags head⟩)
  | .writeFlags head =>
      (ring.modifySlot head fun slot => { slot with flags := message.flags },
        .running ⟨message,
          if message.payload.length = 0 then .storeHead head else .writeData head⟩)
  | .writeData head =>
      (ring.modifySlot head fun slot =>
          { slot with data := memcpy slot.data 0 message.payload message.payload.length },
        .running ⟨message, .storeHead head⟩)
  | .storeHead head => ({ ring with head := head + 1 }, .returned .ok)

/-- The slot cursor the next access writes through, if it writes a slot. -/
def PushCall.slotWrite (call : PushCall) : Option UInt32 :=
  match call.pc with
  | .writeSeq head | .writeLen head | .writeFlags head | .writeData head => some head
  | .loadHead | .loadTail _ | .storeHead _ => none

/-- The room check has passed and the slot is being filled or published. -/
def PushCall.Filling (call : PushCall) : Prop :=
  match call.pc with
  | .loadHead | .loadTail _ => False
  | _ => True

/-- A push never stores the tail. -/
theorem PushCall.step_tail (call : PushCall) (ring : Ring) :
    (call.step ring).1.tail = ring.tail := by
  obtain ⟨message, pc⟩ := call
  cases pc with
  | loadTail head =>
      simp only [PushCall.step]
      split <;> rfl
  | _ => rfl

/-- Without interruption the accesses of a push have the effect of the call. -/
theorem runCall_push (ring : Ring) (message : Message) :
    runCall PushCall.step 7 ⟨message, .loadHead⟩ ring =
      some (plcSpscPushFlagged ring message.seq message.flags message.payload) := by
  by_cases hfull : plcIpcRingSlots ≤ (ring.head - ring.tail).toNat
  · simp [runCall, PushCall.step, plcSpscPushFlagged, hfull, message.bounded]
  · obtain ⟨seq, flags, payload, bounded⟩ := message
    cases payload with
    | nil =>
        simp [runCall, PushCall.step, plcSpscPushFlagged, hfull, Ring.modifySlot, Frame.write]
    | cons byte rest =>
        have hlen : rest.length + 1 ≤ plcIpcMaxFrameBytes := bounded
        simp [runCall, PushCall.step, plcSpscPushFlagged, hfull, hlen, Ring.modifySlot,
          Frame.write]

/-! ## Pop -/

/-- The next access of `plc_spsc_pop`, with the values loaded so far. -/
inductive PopPc
  | loadTail
  | loadHead (tail : UInt32)
  | readSeq (tail : UInt32)
  | readLen (tail seq : UInt32)
  | readFlags (tail seq len : UInt32)
  | copyData (tail seq len flags : UInt32)
  | storeTail (tail : UInt32) (out : Frame)
  | skipTail (tail : UInt32)
  deriving DecidableEq, Repr

/-- A pop in progress, with the caller's frame and capacity. -/
structure PopCall where
  out : Frame
  cap : UInt32
  pc : PopPc
  deriving DecidableEq

/-- Enter `plc_spsc_pop`. -/
def popBegin (out : Frame) (cap : UInt32) : Outcome PopCall (PlcStatus × Frame) :=
  if plcIpcMaxFrameBytes < cap.toNat then .returned (.errInval, out)
  else .running ⟨out, cap, .loadTail⟩

/-- One access of `plc_spsc_pop`. A frame with nothing to copy goes straight
from the flags to the tail store. -/
def PopCall.step (call : PopCall) (ring : Ring) :
    Ring × Outcome PopCall (PlcStatus × Frame) :=
  let out := call.out
  let cap := call.cap
  match call.pc with
  | .loadTail => (ring, .running ⟨out, cap, .loadHead ring.tail⟩)
  | .loadHead tail =>
      if tail = ring.head then (ring, .returned (.errAgain, out))
      else (ring, .running ⟨out, cap, .readSeq tail⟩)
  | .readSeq tail =>
      (ring, .running ⟨out, cap, .readLen tail (ring.slots (slotIndex tail)).seq⟩)
  | .readLen tail seq =>
      (ring, .running ⟨out, cap, .readFlags tail seq (ring.slots (slotIndex tail)).len⟩)
  | .readFlags tail seq len =>
      let flags := (ring.slots (slotIndex tail)).flags
      if plcIpcMaxFrameBytes < len.toNat then (ring, .running ⟨out, cap, .skipTail tail⟩)
      else if clampLen len cap = 0 then
        (ring, .running ⟨out, cap, .storeTail tail (out.deliver seq len flags [] cap)⟩)
      else (ring, .running ⟨out, cap, .copyData tail seq len flags⟩)
  | .copyData tail seq len flags =>
      (ring, .running ⟨out, cap,
        .storeTail tail (out.deliver seq len flags (ring.slots (slotIndex tail)).data cap)⟩)
  | .storeTail tail frame => ({ ring with tail := tail + 1 }, .returned (.ok, frame))
  | .skipTail tail => ({ ring with tail := tail + 1 }, .returned (.errProto, out))

/-- The tail cursor the call has loaded and not yet replaced. -/
def PopCall.heldTail (call : PopCall) : Option UInt32 :=
  match call.pc with
  | .loadTail => none
  | .loadHead tail | .readSeq tail | .readLen tail _ | .readFlags tail _ _
  | .copyData tail _ _ _ | .storeTail tail _ | .skipTail tail => some tail

/-- The slot cursor a pop is reading from: set from the first slot read until
the tail store. -/
def PopCall.slotRead (call : PopCall) : Option UInt32 :=
  match call.pc with
  | .loadTail | .loadHead _ => none
  | .readSeq tail | .readLen tail _ | .readFlags tail _ _
  | .copyData tail _ _ _ | .storeTail tail _ | .skipTail tail => some tail

/-- Delivering no bytes leaves the buffer alone, whatever the slot holds. -/
theorem Frame.deliver_of_kept_zero (out : Frame) (seq len flags : UInt32)
    (data other : List Byte) {cap : UInt32} (hzero : clampLen len cap = 0) :
    out.deliver seq len flags data cap = out.deliver seq len flags other cap := by
  simp [Frame.deliver, hzero]

/-- Without interruption the accesses of a pop have the effect of the call. -/
theorem runCall_pop (ring : Ring) (out : Frame) {cap : UInt32}
    (hcap : cap.toNat ≤ plcIpcMaxFrameBytes) :
    runCall PopCall.step 7 ⟨out, cap, .loadTail⟩ ring = some (plcSpscPop ring out cap) := by
  have hcap' : ¬ plcIpcMaxFrameBytes < cap.toNat := Nat.not_lt.mpr hcap
  by_cases hempty : ring.tail = ring.head
  · simp [runCall, PopCall.step, plcSpscPop, hcap', hempty]
  · by_cases hlen : plcIpcMaxFrameBytes < (ring.slots (slotIndex ring.tail)).len.toNat
    · simp [runCall, PopCall.step, plcSpscPop, hcap', hempty, hlen]
    · by_cases hzero : clampLen (ring.slots (slotIndex ring.tail)).len cap = 0
      · simp only [runCall, PopCall.step, plcSpscPop, if_neg hcap', if_neg hempty, if_neg hlen,
          if_pos hzero, Option.some.injEq, Prod.mk.injEq, true_and]
        exact Frame.deliver_of_kept_zero _ _ _ _ _ _ hzero
      · simp only [runCall, PopCall.step, plcSpscPop, if_neg hcap', if_neg hempty, if_neg hlen,
          if_neg hzero]

/-! ## Drain -/

/-- The next access of `plc_spsc_drain`. -/
inductive DrainCall
  | loadHead
  | storeTail (head : UInt32)
  deriving DecidableEq, Repr

/-- One access of `plc_spsc_drain`. -/
def DrainCall.step (call : DrainCall) (ring : Ring) : Ring × Outcome DrainCall Unit :=
  match call with
  | .loadHead => (ring, .running (.storeTail ring.head))
  | .storeTail head => ({ ring with tail := head }, .returned ())

/-- Without interruption the accesses of a drain have the effect of the call. -/
theorem runCall_drain (ring : Ring) :
    runCall DrainCall.step 2 .loadHead ring = some (plcSpscDrain ring, ()) := rfl

/-! ## The representation invariant -/

/-- What a push in progress has established about the slot it fills. -/
def PushCall.Progress (call : PushCall) (ring : Ring) : Prop :=
  let slot := ring.slots (slotIndex ring.head)
  let message := call.message
  match call.pc with
  | .loadHead => True
  | .loadTail head => head = ring.head
  | .writeSeq head => head = ring.head
  | .writeLen head => head = ring.head ∧ slot.seq = message.seq
  | .writeFlags head => head = ring.head ∧ slot.seq = message.seq ∧ slot.len = message.len
  | .writeData head =>
      head = ring.head ∧ slot.seq = message.seq ∧ slot.len = message.len ∧
        slot.flags = message.flags
  | .storeHead head => head = ring.head ∧ slot.Carries message

/-- A push that has just been entered has established nothing and needs
nothing. -/
theorem pushBegin_running {seq flags : UInt32} {data : List Byte} {call : PushCall}
    (hbegin : pushBegin seq flags data = .running call) (ring : Ring) :
    ¬ call.Filling ∧ call.Progress ring := by
  unfold pushBegin at hbegin
  split at hbegin
  · cases hbegin
    exact ⟨id, trivial⟩
  · cases hbegin

/-- A slot access of a push goes through the current head, and only once the
room check has passed. -/
theorem PushCall.Progress.of_slotWrite {call : PushCall} {ring : Ring} {cursor : UInt32}
    (h : call.Progress ring) (hwrite : call.slotWrite = some cursor) :
    cursor = ring.head ∧ call.Filling := by
  obtain ⟨message, pc⟩ := call
  cases pc with
  | loadHead => cases hwrite
  | loadTail head => cases hwrite
  | writeSeq head =>
      cases hwrite
      exact ⟨h, trivial⟩
  | storeHead head => cases hwrite
  | _ =>
      cases hwrite
      exact ⟨h.1, trivial⟩

/-- What a pop in progress has established: it holds the current tail, and
what it has read so far belongs to `oldest`, the message under the tail. The
values are compared with the log and not with the slot, so no later write can
disturb the relation. -/
def PopCall.Tracks (call : PopCall) (ring : Ring) (oldest : Option Message) : Prop :=
  match call.pc with
  | .loadTail => True
  | .loadHead tail => tail = ring.tail
  | .readSeq tail => tail = ring.tail ∧ ∃ message, oldest = some message
  | .readLen tail seq =>
      tail = ring.tail ∧ ∃ message, oldest = some message ∧ seq = message.seq
  | .readFlags tail seq len =>
      tail = ring.tail ∧ ∃ message, oldest = some message ∧ seq = message.seq ∧
        len = message.len
  | .copyData tail seq len flags =>
      tail = ring.tail ∧ ∃ message, oldest = some message ∧ seq = message.seq ∧
        len = message.len ∧ flags = message.flags
  | .storeTail tail frame =>
      tail = ring.tail ∧ ∃ message, oldest = some message ∧
        frame.Delivers message call.cap.toNat
  | .skipTail _ => False

/-- A pop keeps track while the tail stays and the log only grows. -/
theorem PopCall.Tracks.mono {call : PopCall} {ring ring' : Ring}
    {oldest oldest' : Option Message} (h : call.Tracks ring oldest)
    (htail : ring'.tail = ring.tail)
    (holdest : ∀ message, oldest = some message → oldest' = some message) :
    call.Tracks ring' oldest' := by
  obtain ⟨out, cap, pc⟩ := call
  cases pc with
  | loadTail => trivial
  | loadHead tail => exact Eq.trans h htail.symm
  | readSeq tail =>
      obtain ⟨rfl, message, hmessage⟩ := h
      exact ⟨htail.symm, message, holdest _ hmessage⟩
  | readLen tail seq =>
      obtain ⟨rfl, message, hmessage, hread⟩ := h
      exact ⟨htail.symm, message, holdest _ hmessage, hread⟩
  | readFlags tail seq len =>
      obtain ⟨rfl, message, hmessage, hread⟩ := h
      exact ⟨htail.symm, message, holdest _ hmessage, hread⟩
  | copyData tail seq len flags =>
      obtain ⟨rfl, message, hmessage, hread⟩ := h
      exact ⟨htail.symm, message, holdest _ hmessage, hread⟩
  | storeTail tail frame =>
      obtain ⟨rfl, message, hmessage, hread⟩ := h
      exact ⟨htail.symm, message, holdest _ hmessage, hread⟩
  | skipTail tail => exact h.elim

/-- A slot read of a pop goes through the current tail, where there is a
message. -/
theorem PopCall.Tracks.of_slotRead {call : PopCall} {ring : Ring} {oldest : Option Message}
    {cursor : UInt32} (h : call.Tracks ring oldest) (hread : call.slotRead = some cursor) :
    cursor = ring.tail ∧ ∃ message, oldest = some message := by
  obtain ⟨out, cap, pc⟩ := call
  cases pc with
  | loadTail => cases hread
  | loadHead tail => cases hread
  | readSeq tail =>
      cases hread
      exact h
  | skipTail tail => exact h.elim
  | _ =>
      cases hread
      obtain ⟨htail, message, holdest, -⟩ := h
      exact ⟨htail, message, holdest⟩

/-- The ring holds the published messages `log`, the first at unbounded index
`base`. The tail stands at `taken`, no party may set it below `low`, and every
slot from `low` on is whole even while the producer fills the next one. -/
structure RingInv (base : ℕ) (log : List Message) (low taken : ℕ) (ring : Ring)
    (producer : Option PushCall) : Prop where
  head_eq : ring.head = wrap (base + log.length)
  tail_eq : ring.tail = wrap (base + taken)
  low_le : low ≤ taken
  taken_le : taken ≤ log.length
  room : log.length ≤ low + 4
  free : ∀ call, producer = some call → call.Filling → log.length < low + 4
  progress : ∀ call, producer = some call → call.Progress ring
  intact : ∀ (index : ℕ) (hindex : index < log.length), low ≤ index →
    (ring.slots (slotOf (base + index))).Carries log[index]

namespace RingInv

variable {base : ℕ} {log : List Message} {low taken : ℕ} {ring : Ring}
  {producer : Option PushCall}

/-- An empty ring satisfies the invariant, wherever its cursors stand. -/
theorem empty (cursor : UInt32) (slots : Fin 4 → Frame) :
    RingInv cursor.toNat [] 0 0 { head := cursor, tail := cursor, slots := slots } none where
  head_eq := by simp
  tail_eq := by simp
  low_le := le_rfl
  taken_le := le_rfl
  room := Nat.zero_le _
  free := fun call hcall => by cases hcall
  progress := fun call hcall => by cases hcall
  intact := fun index hindex => absurd hindex (Nat.not_lt_zero index)

/-- The cursor difference is the number of queued messages. -/
theorem count_eq (h : RingInv base log low taken ring producer) :
    (ring.head - ring.tail).toNat = log.length - taken := by
  have hlow := h.low_le
  have htaken := h.taken_le
  have hroom := h.room
  rw [h.head_eq, h.tail_eq, wrap_sub_toNat (by omega) (by omega)]
  omega

/-- The occupancy bound of the ring. -/
theorem count_le (h : RingInv base log low taken ring producer) :
    (ring.head - ring.tail).toNat ≤ 4 := by
  have hlow := h.low_le
  have hroom := h.room
  rw [h.count_eq]
  omega

/-- With the bounds at the tail, the ring holds exactly what is not taken. -/
theorem represents (h : RingInv base log low taken ring producer) :
    Represents ring (log.drop taken) := by
  have hlow := h.low_le
  have htaken := h.taken_le
  have hroom := h.room
  refine ⟨base + taken, h.tail_eq, ?_, by simp only [List.length_drop]; omega, ?_⟩
  · rw [h.head_eq, List.length_drop]
    congr 1
    omega
  · intro offset hoffset
    rw [List.length_drop] at hoffset
    rw [List.getElem_drop, Nat.add_assoc]
    exact h.intact (taken + offset) (by omega) (by omega)

/-- A slot at or above `low` is not the one being filled. -/
theorem slotIndex_head_ne (h : RingInv base log low taken ring producer)
    (hfree : log.length < low + 4) {index : ℕ} (hlow : low ≤ index)
    (hindex : index < log.length) : slotIndex ring.head ≠ slotOf (base + index) := by
  rw [h.head_eq, slotIndex_wrap]
  exact (slotOf_ne (by omega) (by omega)).symm

/-- The producer enters or abandons a call: nothing shared changes. A producer
that dies leaves the slot it was filling below `low`. -/
theorem set_producer (h : RingInv base log low taken ring producer)
    {next : Option PushCall}
    (hnext : ∀ call, next = some call → ¬ call.Filling ∧ call.Progress ring) :
    RingInv base log low taken ring next :=
  { h with
    free := fun call hcall hfilling => absurd hfilling (hnext call hcall).1
    progress := fun call hcall => (hnext call hcall).2 }

/-- Some party stores the tail at `stop`, and from then on none may go below
`floor`. This is the only way `low` and `taken` change. -/
theorem set_tail (h : RingInv base log low taken ring producer) {floor stop : ℕ}
    (hfloor : low ≤ floor) (hstop : floor ≤ stop) (hlog : stop ≤ log.length) :
    RingInv base log floor stop { ring with tail := wrap (base + stop) } producer where
  head_eq := h.head_eq
  tail_eq := rfl
  low_le := hstop
  taken_le := hlog
  room := by have hroom := h.room; omega
  free := fun call hcall hfilling => by
    have hfree := h.free call hcall hfilling
    omega
  progress := h.progress
  intact := fun index hindex hlow => h.intact index hindex (by omega)

/-- Writing a field of the slot under the head cursor keeps every message that
may still be read. -/
theorem fill (h : RingInv base log low taken ring producer) (hfree : log.length < low + 4)
    (change : Frame → Frame) {next : PushCall}
    (hprogress : next.Progress (ring.modifySlot ring.head change)) :
    RingInv base log low taken (ring.modifySlot ring.head change) (some next) where
  head_eq := h.head_eq
  tail_eq := h.tail_eq
  low_le := h.low_le
  taken_le := h.taken_le
  room := h.room
  free := fun _ _ _ => hfree
  progress := by
    intro call hcall
    cases hcall
    exact hprogress
  intact := by
    intro index hindex hlow
    have hne := h.slotIndex_head_ne hfree hlow hindex
    simpa [Ring.modifySlot, Function.update_of_ne hne.symm] using h.intact index hindex hlow

/-- Writing the slot under the head cursor leaves the consumer's view alone. -/
theorem queue_modifySlot (h : RingInv base log low taken ring producer)
    (hfree : log.length < low + 4) (change : Frame → Frame) :
    (ring.modifySlot ring.head change).queue = ring.queue := by
  have hlow := h.low_le
  refine List.map_congr_left fun offset hoffset => ?_
  have hcount : offset < log.length - taken := by
    simpa [plcSpscCount, Ring.modifySlot, h.count_eq] using hoffset
  have hcursor : ring.tail + UInt32.ofNat offset = wrap (base + (taken + offset)) := by
    rw [h.tail_eq, ← Nat.add_assoc, wrap_add (base + taken)]
  have hne : slotIndex ring.head ≠ slotOf (base + (taken + offset)) :=
    h.slotIndex_head_ne hfree (by omega) (by omega)
  simp only [Ring.modifySlot, hcursor, slotIndex_wrap]
  rw [Function.update_of_ne hne.symm]

variable {call : PushCall}

/-- Until the head store a push changes nothing the consumer can see. -/
theorem push_queue (h : RingInv base log low taken ring (some call))
    (hpc : ∀ head, call.pc ≠ .storeHead head) :
    (call.step ring).1.queue = ring.queue := by
  obtain ⟨message, pc⟩ := call
  have hprogress := h.progress _ rfl
  have hfree := h.free _ rfl
  cases pc with
  | loadHead => rfl
  | loadTail head =>
      simp only [PushCall.step]
      split <;> rfl
  | writeSeq head =>
      have hhead : head = ring.head := hprogress
      subst hhead
      exact h.queue_modifySlot (hfree trivial) _
  | writeLen head =>
      obtain ⟨rfl, -⟩ := hprogress
      exact h.queue_modifySlot (hfree trivial) _
  | writeFlags head =>
      obtain ⟨rfl, -⟩ := hprogress
      exact h.queue_modifySlot (hfree trivial) _
  | writeData head =>
      obtain ⟨rfl, -⟩ := hprogress
      exact h.queue_modifySlot (hfree trivial) _
  | storeHead head => exact absurd rfl (hpc head)

/-- A push keeps the invariant until it returns. The room check is made
against the tail as it stands, so passing it must also leave room above `low`. -/
theorem push_running (h : RingInv base log low taken ring (some call))
    (hcheck : ∀ head, call.pc = .loadTail head → log.length < taken + 4 →
      log.length < low + 4)
    {ring' : Ring} {next : PushCall} (hstep : call.step ring = (ring', .running next)) :
    next.message = call.message ∧ RingInv base log low taken ring' (some next) := by
  obtain ⟨message, pc⟩ := call
  have hprogress := h.progress _ rfl
  have hfree := h.free _ rfl
  cases pc with
  | loadHead =>
      cases hstep
      exact ⟨rfl, h.set_producer fun call hcall => by cases hcall; exact ⟨id, rfl⟩⟩
  | loadTail head =>
      have hhead : head = ring.head := hprogress
      subst hhead
      simp only [PushCall.step, h.count_eq, plcIpcRingSlots] at hstep
      split at hstep
      · cases hstep
      · cases hstep
        have hroom := hcheck _ rfl (by omega)
        exact ⟨rfl, { h with
          free := fun _ _ _ => hroom
          progress := fun call hcall => by cases hcall; rfl }⟩
  | writeSeq head =>
      have hhead : head = ring.head := hprogress
      subst hhead
      cases hstep
      refine ⟨rfl, h.fill (hfree trivial) _ ⟨rfl, ?_⟩⟩
      simp [Ring.modifySlot]
  | writeLen head =>
      obtain ⟨hhead, hseq⟩ := hprogress
      subst hhead
      cases hstep
      refine ⟨rfl, h.fill (hfree trivial) _ ⟨rfl, ?_, ?_⟩⟩
      · simpa [Ring.modifySlot] using hseq
      · simp [Ring.modifySlot]
  | writeFlags head =>
      obtain ⟨hhead, hseq, hlen⟩ := hprogress
      subst hhead
      cases hstep
      refine ⟨rfl, h.fill (hfree trivial) _ ?_⟩
      -- An empty payload is complete once its flags are written.
      by_cases hempty : message.payload.length = 0
      · simp only [if_pos hempty]
        refine ⟨rfl, ?_, ?_, ?_, ?_⟩
        · simpa [Ring.modifySlot] using hseq
        · simpa [Ring.modifySlot] using hlen
        · simp [Ring.modifySlot]
        · simp [List.length_eq_zero_iff.mp hempty]
      · simp only [if_neg hempty]
        refine ⟨rfl, ?_, ?_, ?_⟩
        · simpa [Ring.modifySlot] using hseq
        · simpa [Ring.modifySlot] using hlen
        · simp [Ring.modifySlot]
  | writeData head =>
      obtain ⟨hhead, hseq, hlen, hflags⟩ := hprogress
      subst hhead
      cases hstep
      refine ⟨rfl, h.fill (hfree trivial) _ ⟨rfl, ?_, ?_, ?_, ?_⟩⟩
      · simpa [Ring.modifySlot] using hseq
      · simpa [Ring.modifySlot] using hlen
      · simpa [Ring.modifySlot] using hflags
      · simp only [Ring.modifySlot, Function.update_self]
        rw [take_memcpy_zero _ le_rfl, List.take_length]
  | storeHead head => cases hstep

/-- A push returns either with its message appended to the log, or refused
because four messages were queued, with nothing touched. -/
theorem push_returned (h : RingInv base log low taken ring (some call))
    {ring' : Ring} {status : PlcStatus} (hstep : call.step ring = (ring', .returned status)) :
    (status = .ok ∧ (∃ head, call.pc = .storeHead head) ∧
        RingInv base (log ++ [call.message]) low taken ring' none) ∨
      (status = .errAgain ∧ ring' = ring ∧ log.length = taken + 4 ∧
        RingInv base log low taken ring none) := by
  obtain ⟨message, pc⟩ := call
  have hprogress := h.progress _ rfl
  have hfree := h.free _ rfl
  cases pc with
  | loadTail head =>
      have hhead : head = ring.head := hprogress
      subst hhead
      simp only [PushCall.step, h.count_eq, plcIpcRingSlots] at hstep
      split at hstep
      · cases hstep
        have hlow := h.low_le
        have hroom := h.room
        exact .inr ⟨rfl, rfl, by omega, h.set_producer fun call hcall => by cases hcall⟩
      · cases hstep
  | storeHead head =>
      obtain ⟨hhead, hcarries⟩ := hprogress
      subst hhead
      cases hstep
      have htaken := h.taken_le
      have hroom := hfree trivial
      refine .inl ⟨rfl, ⟨_, rfl⟩, ?_, h.tail_eq, h.low_le, ?_, ?_, ?_, ?_, ?_⟩
      · simp only [h.head_eq, List.length_append, List.length_singleton, ← Nat.add_assoc]
        exact (wrap_succ _).symm
      · simp only [List.length_append, List.length_singleton]
        omega
      · simp only [List.length_append, List.length_singleton]
        omega
      · intro call hcall
        cases hcall
      · intro call hcall
        cases hcall
      · intro index hindex hlow
        simp only [List.length_append, List.length_singleton] at hindex
        rcases Nat.lt_succ_iff_lt_or_eq.mp hindex with hold | hnew
        · rw [List.getElem_append_left hold]
          exact h.intact index hold hlow
        · subst hnew
          rw [List.getElem_concat_length rfl]
          simpa [h.head_eq] using hcarries
  | loadHead => cases hstep
  | writeSeq head => cases hstep
  | writeLen head => cases hstep
  | writeFlags head => cases hstep
  | writeData head => cases hstep

/-- The slot under the tail carries the oldest message that is not taken. -/
theorem tail_carries (h : RingInv base log low taken ring producer) {message : Message}
    (holdest : log[taken]? = some message) :
    (ring.slots (slotIndex ring.tail)).Carries message := by
  obtain ⟨hlt, hget⟩ := List.getElem?_eq_some_iff.mp holdest
  rw [h.tail_eq, slotIndex_wrap, ← hget]
  exact h.intact taken hlt h.low_le

variable {pop : PopCall}

/-- A pop reads the oldest message and touches nothing until it returns. -/
theorem pop_running (h : RingInv base log low taken ring producer)
    (htracks : pop.Tracks ring log[taken]?) {ring' : Ring} {next : PopCall}
    (hstep : pop.step ring = (ring', .running next)) :
    ring' = ring ∧ next.cap = pop.cap ∧ next.Tracks ring log[taken]? := by
  obtain ⟨out, cap, pc⟩ := pop
  cases pc with
  | loadTail =>
      cases hstep
      exact ⟨rfl, rfl, rfl⟩
  | loadHead tail =>
      have htail : tail = ring.tail := htracks
      subst htail
      simp only [PopCall.step] at hstep
      split at hstep
      · cases hstep
      · cases hstep
        have htaken := h.taken_le
        -- The cursors differ, so there is a message under the tail.
        have hlt : taken < log.length := by
          rcases Nat.lt_or_eq_of_le htaken with hlt | hequal
          · exact hlt
          · exact absurd (by rw [h.tail_eq, h.head_eq, hequal]) ‹¬ ring.tail = ring.head›
        exact ⟨rfl, rfl, rfl, log[taken], List.getElem?_eq_getElem hlt⟩
  | readSeq tail =>
      obtain ⟨rfl, message, holdest⟩ := htracks
      cases hstep
      exact ⟨rfl, rfl, rfl, message, holdest, (h.tail_carries holdest).seq_eq⟩
  | readLen tail seq =>
      obtain ⟨rfl, message, holdest, hseq⟩ := htracks
      cases hstep
      exact ⟨rfl, rfl, rfl, message, holdest, hseq, (h.tail_carries holdest).len_eq⟩
  | readFlags tail seq len =>
      obtain ⟨rfl, message, holdest, rfl, rfl⟩ := htracks
      have hcarries := h.tail_carries holdest
      have hlen : ¬ plcIpcMaxFrameBytes < message.len.toNat := by
        rw [message.len_toNat]
        exact Nat.not_lt.mpr message.bounded
      simp only [PopCall.step, if_neg hlen] at hstep
      split at hstep
      · cases hstep
        rename_i hzero
        rw [hcarries.flags_eq, Frame.deliver_of_kept_zero _ _ _ _ _ message.payload hzero]
        exact ⟨rfl, rfl, rfl, message, holdest,
          Frame.deliver_delivers out List.take_length cap⟩
      · cases hstep
        exact ⟨rfl, rfl, rfl, message, holdest, rfl, rfl, hcarries.flags_eq⟩
  | copyData tail seq len flags =>
      obtain ⟨rfl, message, holdest, rfl, rfl, rfl⟩ := htracks
      cases hstep
      exact ⟨rfl, rfl, rfl, message, holdest,
        Frame.deliver_delivers out (h.tail_carries holdest).payload_eq cap⟩
  | storeTail tail frame => cases hstep
  | skipTail tail => cases hstep

/-- A pop returns either because nothing is queued, or with the oldest message
delivered and the tail moved past it. It never reports a malformed frame. -/
theorem pop_returned (h : RingInv base log low taken ring producer)
    (htracks : pop.Tracks ring log[taken]?) {ring' : Ring} {status : PlcStatus}
    {frame : Frame} (hstep : pop.step ring = (ring', .returned (status, frame))) :
    (status = .errAgain ∧ ring' = ring ∧ taken = log.length) ∨
      (status = .ok ∧ ring' = { ring with tail := wrap (base + (taken + 1)) } ∧
        ∃ message, log[taken]? = some message ∧ frame.Delivers message pop.cap.toNat) := by
  obtain ⟨out, cap, pc⟩ := pop
  cases pc with
  | loadHead tail =>
      have htail : tail = ring.tail := htracks
      subst htail
      simp only [PopCall.step] at hstep
      split at hstep
      · cases hstep
        have hlow := h.low_le
        have htaken := h.taken_le
        have hroom := h.room
        have hcursors : wrap (base + taken) = wrap (base + log.length) := by
          rw [← h.tail_eq, ← h.head_eq]
          assumption
        rw [wrap_inj (by omega) (by omega)] at hcursors
        exact .inl ⟨rfl, rfl, by omega⟩
      · cases hstep
  | storeTail tail delivered =>
      obtain ⟨rfl, message, holdest, hdelivers⟩ := htracks
      cases hstep
      refine .inr ⟨rfl, ?_, message, holdest, hdelivers⟩
      rw [h.tail_eq, ← Nat.add_assoc, wrap_succ]
  | skipTail tail => exact htracks.elim
  | loadTail => cases hstep
  | readSeq tail => cases hstep
  | readLen tail seq => cases hstep
  | readFlags tail seq len =>
      simp only [PopCall.step] at hstep
      split at hstep
      · cases hstep
      · split at hstep <;> cases hstep
  | copyData tail seq len flags => cases hstep

end RingInv

end SoftPlc.Ipc
