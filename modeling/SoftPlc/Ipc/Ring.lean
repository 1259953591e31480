/-
# The single-producer single-consumer ring

The shared-memory ring of the copy API: two free-running cursors and four frame
slots. This module holds the ring as data and its calls as functions, each the
effect of one uninterrupted call. `RingCalls` splits the same calls into their
individual loads and stores.

The view a consumer has of a ring is `Ring.queue`, read off the slots between
the cursors. `Represents` relates it to a list of messages, and the last part
of the module shows that push, pop and drain are the operations of a bounded
FIFO on that list. Slot memory is reused without being cleared, so a slot
*carries* a message rather than being equal to one.
-/

import SoftPlc.Core.ProtocolAdapter
import SoftPlc.Math.Cursor
import Mathlib.Data.List.Forall2
import Mathlib.Logic.Function.Basic

namespace SoftPlc.Ipc

open SoftPlc.Math

/-- `PLC_IPC_MAX_FRAME_BYTES`. -/
def plcIpcMaxFrameBytes : ℕ := 496

/-- `PLC_IPC_RING_SLOTS`. -/
def plcIpcRingSlots : ℕ := 4

/-- `PLC_IPC_FRAME_DATA_INVALID`. -/
def plcIpcFrameDataInvalid : UInt32 := 1

/-- `plc_ipc_frame_t`. Only the first `len` bytes of `data` are meaningful. -/
structure Frame where
  seq : UInt32
  len : UInt32
  flags : UInt32
  data : List Byte
  deriving DecidableEq, Repr

/-- Two bytes fit a frame. -/
theorem two_le_plcIpcMaxFrameBytes : 2 ≤ plcIpcMaxFrameBytes := by decide

/-- A frame of zeroed memory. -/
def Frame.zeroed : Frame :=
  { seq := 0, len := 0, flags := 0, data := List.replicate plcIpcMaxFrameBytes 0 }

/-- `plc_spsc_ring_t`. -/
structure Ring where
  head : UInt32
  tail : UInt32
  slots : Fin 4 → Frame

/-- What one push publishes: the caller's arguments once the length check has
passed. The payload is a list, so it is its own length and never null. -/
structure Message where
  seq : UInt32
  flags : UInt32
  payload : List Byte
  bounded : payload.length ≤ plcIpcMaxFrameBytes
  deriving DecidableEq

/-- The `len` field a message is published with. -/
def Message.len (message : Message) : UInt32 := UInt32.ofNat message.payload.length

/-- `cursor & (PLC_IPC_RING_SLOTS - 1)`. -/
def slotIndex (cursor : UInt32) : Fin 4 :=
  ⟨(cursor &&& UInt32.ofNat (plcIpcRingSlots - 1)).toNat, by
    have hand : (cursor &&& UInt32.ofNat (plcIpcRingSlots - 1)).toNat ≤ 3 := by
      rw [UInt32.toNat_and]
      exact Nat.and_le_right
    omega⟩

/-- The slot's contents after a push of `message` has written all four fields.
An empty payload skips the copy. -/
def Frame.write (slot : Frame) (message : Message) : Frame :=
  { seq := message.seq
    len := message.len
    flags := message.flags
    data := if message.payload.length = 0 then slot.data
      else memcpy slot.data 0 message.payload message.payload.length }

/-- `plc_spsc_init`. -/
def plcSpscInit : Ring := { head := 0, tail := 0, slots := fun _ => Frame.zeroed }

/-- `plc_spsc_push_flagged` as one uninterrupted call. -/
def plcSpscPushFlagged (ring : Ring) (seq flags : UInt32) (data : List Byte) :
    Ring × PlcStatus :=
  if hlen : data.length ≤ plcIpcMaxFrameBytes then
    if plcIpcRingSlots ≤ (ring.head - ring.tail).toNat then (ring, .errAgain)
    else
      let slot := slotIndex ring.head
      ({ ring with
          slots := Function.update ring.slots slot
            ((ring.slots slot).write ⟨seq, flags, data, hlen⟩)
          head := ring.head + 1 }, .ok)
  else (ring, .errInval)

/-- `plc_spsc_push`. -/
def plcSpscPush (ring : Ring) (seq : UInt32) (data : List Byte) : Ring × PlcStatus :=
  plcSpscPushFlagged ring seq 0 data

/-- `(len < cap) ? len : cap`. -/
def clampLen (len cap : UInt32) : UInt32 := if len < cap then len else cap

theorem clampLen_toNat (len cap : UInt32) :
    (clampLen len cap).toNat = min len.toNat cap.toNat := by
  simp only [clampLen]
  split_ifs with hlt <;> rw [UInt32.lt_iff_toNat_lt] at hlt <;> omega

/-- The frame a pop hands out: the length is clamped to the caller's capacity
and exactly that many bytes are copied over the caller's buffer. -/
def Frame.deliver (out : Frame) (seq len flags : UInt32) (data : List Byte) (cap : UInt32) :
    Frame :=
  { seq := seq
    len := clampLen len cap
    flags := flags
    data := if clampLen len cap = 0 then out.data
      else memcpy out.data 0 data (clampLen len cap).toNat }

/-- `plc_spsc_pop` as one uninterrupted call. The peer writes the length field,
so an impossible one is skipped and reported instead of being used. -/
def plcSpscPop (ring : Ring) (out : Frame) (cap : UInt32) : Ring × PlcStatus × Frame :=
  if plcIpcMaxFrameBytes < cap.toNat then (ring, .errInval, out)
  else if ring.tail = ring.head then (ring, .errAgain, out)
  else
    let slot := ring.slots (slotIndex ring.tail)
    if plcIpcMaxFrameBytes < slot.len.toNat then
      ({ ring with tail := ring.tail + 1 }, .errProto, out)
    else
      ({ ring with tail := ring.tail + 1 }, .ok,
        out.deliver slot.seq slot.len slot.flags slot.data cap)

/-- `plc_spsc_count`. -/
def plcSpscCount (ring : Ring) : UInt32 := ring.head - ring.tail

/-- `plc_spsc_drain` as one uninterrupted call. -/
def plcSpscDrain (ring : Ring) : Ring := { ring with tail := ring.head }

/-! ## Slots under unbounded cursors -/

/-- The slot of the frame with the given unbounded index. -/
def slotOf (index : ℕ) : Fin 4 := ⟨index % 4, Nat.mod_lt _ (by decide)⟩

@[simp]
theorem slotIndex_wrap (index : ℕ) : slotIndex (wrap index) = slotOf index := by
  apply Fin.ext
  exact wrap_and_mask index (k := 2) (by decide)

/-- Frames less than a lap apart live in different slots. -/
theorem slotOf_ne {low high : ℕ} (hlt : low < high) (hlap : high < low + 4) :
    slotOf low ≠ slotOf high := by
  intro hequal
  have hmod : low % 4 = high % 4 := congrArg Fin.val hequal
  omega

/-! ## Messages in slots -/

/-- A slot holding a message: the three words agree, and so do the first `len`
bytes of the data. -/
structure Frame.Carries (frame : Frame) (message : Message) : Prop where
  seq_eq : frame.seq = message.seq
  len_eq : frame.len = message.len
  flags_eq : frame.flags = message.flags
  payload_eq : frame.data.take message.payload.length = message.payload

/-- A frame handed out for `message` to a caller with capacity `cap`: the
pushed sequence number and flags, and the first `min len cap` payload bytes. -/
structure Frame.Delivers (frame : Frame) (message : Message) (cap : ℕ) : Prop where
  seq_eq : frame.seq = message.seq
  flags_eq : frame.flags = message.flags
  len_eq : frame.len.toNat = min message.payload.length cap
  payload_eq : frame.data.take frame.len.toNat = message.payload.take cap

theorem Message.len_toNat (message : Message) :
    message.len.toNat = message.payload.length := by
  have hbound := message.bounded
  simp only [plcIpcMaxFrameBytes] at hbound
  simp only [Message.len, UInt32.toNat_ofNat']
  exact Nat.mod_eq_of_lt (by omega)

/-- Writing the four fields of a slot makes it carry the message. -/
theorem Frame.write_carries (slot : Frame) (message : Message) :
    (slot.write message).Carries message where
  seq_eq := rfl
  len_eq := rfl
  flags_eq := rfl
  payload_eq := by
    simp only [Frame.write]
    split_ifs with hempty
    · simp [List.length_eq_zero_iff.mp hempty]
    · rw [take_memcpy_zero _ le_rfl, List.take_length]

/-- A pop from a slot that carries a message delivers that message. -/
theorem Frame.deliver_delivers {message : Message} (out : Frame) {data : List Byte}
    (hdata : data.take message.payload.length = message.payload) (cap : UInt32) :
    (out.deliver message.seq message.len message.flags data cap).Delivers
      message cap.toNat where
  seq_eq := rfl
  flags_eq := rfl
  len_eq := by
    rw [← message.len_toNat]
    exact clampLen_toNat message.len cap
  payload_eq := by
    have hdataLength : message.payload.length ≤ data.length := by
      have hlength := congrArg List.length hdata
      simp only [List.length_take] at hlength
      omega
    have hkept : (clampLen message.len cap).toNat = min message.payload.length cap.toNat := by
      rw [clampLen_toNat, message.len_toNat]
    have htake : data.take (clampLen message.len cap).toNat = message.payload.take cap.toNat := by
      conv_rhs => rw [← hdata]
      rw [List.take_take, hkept, Nat.min_comm]
    simp only [Frame.deliver]
    split_ifs with hzero
    · rw [← htake, hzero]
      simp
    · rw [take_memcpy_zero _ (by omega), htake]

/-! ## The consumer's view -/

/-- The frames between the cursors, oldest first. -/
def Ring.queue (ring : Ring) : List Frame :=
  (List.range (plcSpscCount ring).toNat).map fun offset =>
    ring.slots (slotIndex (ring.tail + UInt32.ofNat offset))

/-- The ring holds exactly `messages`, the oldest at unbounded index `base`. -/
structure RepresentsFrom (base : ℕ) (ring : Ring) (messages : List Message) : Prop where
  tail_eq : ring.tail = wrap base
  head_eq : ring.head = wrap (base + messages.length)
  room : messages.length ≤ 4
  carries : ∀ (offset : ℕ) (hoffset : offset < messages.length),
    (ring.slots (slotOf (base + offset))).Carries messages[offset]

/-- The ring holds exactly `messages`, wherever its cursors have got to. -/
def Represents (ring : Ring) (messages : List Message) : Prop :=
  ∃ base, RepresentsFrom base ring messages

namespace RepresentsFrom

variable {base : ℕ} {ring : Ring} {messages : List Message}

/-- The cursor difference is the number of messages. -/
theorem count_eq (h : RepresentsFrom base ring messages) :
    (ring.head - ring.tail).toNat = messages.length := by
  have hroom := h.room
  rw [h.head_eq, h.tail_eq, wrap_sub_toNat (by omega) (by omega)]
  omega

/-- The cursors coincide exactly when there is nothing to read. -/
theorem tail_eq_head_iff (h : RepresentsFrom base ring messages) :
    ring.tail = ring.head ↔ messages = [] := by
  have hroom := h.room
  rw [h.head_eq, h.tail_eq, wrap_inj (by omega) (by omega), ← List.length_eq_zero_iff]
  omega

/-- Each frame of the queue carries its message. -/
theorem queue_carries (h : RepresentsFrom base ring messages) :
    List.Forall₂ Frame.Carries ring.queue messages := by
  have hlength : ring.queue.length = messages.length := by
    simp [Ring.queue, plcSpscCount, h.count_eq]
  rw [List.forall₂_iff_get]
  refine ⟨hlength, fun offset hqueue hmessages => ?_⟩
  have hcursor : ring.tail + UInt32.ofNat offset = wrap (base + offset) := by
    rw [h.tail_eq, wrap_add]
  simpa [Ring.queue, hcursor] using h.carries offset hmessages

end RepresentsFrom

/-- A fresh ring is empty. -/
theorem represents_plcSpscInit : Represents plcSpscInit [] :=
  ⟨0, rfl, rfl, by simp, fun offset hoffset => absurd hoffset (by simp)⟩

/-- A push on a full ring is refused and touches nothing. -/
theorem plcSpscPushFlagged_of_full {ring : Ring} {messages : List Message}
    (h : Represents ring messages) (hfull : messages.length = 4) (message : Message) :
    plcSpscPushFlagged ring message.seq message.flags message.payload = (ring, .errAgain) := by
  obtain ⟨base, h⟩ := h
  have hcount := h.count_eq
  simp [plcSpscPushFlagged, message.bounded, plcIpcRingSlots, hcount, hfull]

/-- A push on a ring with room appends its message. -/
theorem plcSpscPushFlagged_of_room {ring : Ring} {messages : List Message}
    (h : Represents ring messages) (hroom : messages.length < 4) (message : Message) :
    ∃ pushed, plcSpscPushFlagged ring message.seq message.flags message.payload =
        (pushed, .ok) ∧ Represents pushed (messages ++ [message]) := by
  obtain ⟨base, h⟩ := h
  have hcount := h.count_eq
  have hfree : ¬ 4 ≤ messages.length := by omega
  have hpush : plcSpscPushFlagged ring message.seq message.flags message.payload =
      ({ ring with
          slots := Function.update ring.slots (slotIndex ring.head)
            ((ring.slots (slotIndex ring.head)).write message)
          head := ring.head + 1 }, .ok) := by
    simp [plcSpscPushFlagged, message.bounded, plcIpcRingSlots, hcount, hfree]
  refine ⟨_, hpush, base, h.tail_eq, ?_, by simp; omega, ?_⟩
  · simp only [h.head_eq, List.length_append, List.length_singleton, ← Nat.add_assoc]
    exact (wrap_succ _).symm
  · intro offset hoffset
    simp only [h.head_eq, slotIndex_wrap]
    simp only [List.length_append, List.length_singleton] at hoffset
    -- Either an older message in another slot, or the one just written.
    rcases Nat.lt_succ_iff_lt_or_eq.mp hoffset with hold | hnew
    · rw [Function.update_of_ne (slotOf_ne (by omega) (by omega)),
        List.getElem_append_left hold]
      exact h.carries offset hold
    · subst hnew
      simp only [Function.update_self, List.getElem_concat_length]
      exact Frame.write_carries _ message

/-- A pop on an empty ring reports that and touches nothing. -/
theorem plcSpscPop_of_empty {ring : Ring} (h : Represents ring []) (out : Frame)
    {cap : UInt32} (hcap : cap.toNat ≤ plcIpcMaxFrameBytes) :
    plcSpscPop ring out cap = (ring, .errAgain, out) := by
  obtain ⟨base, h⟩ := h
  have hequal := h.tail_eq_head_iff.mpr rfl
  simp [plcSpscPop, hequal, Nat.not_lt.mpr hcap]

/-- A pop delivers the oldest message and removes it. -/
theorem plcSpscPop_of_nonempty {ring : Ring} {message : Message} {messages : List Message}
    (h : Represents ring (message :: messages)) (out : Frame)
    {cap : UInt32} (hcap : cap.toNat ≤ plcIpcMaxFrameBytes) :
    ∃ popped frame, plcSpscPop ring out cap = (popped, .ok, frame) ∧
      frame.Delivers message cap.toNat ∧ Represents popped messages := by
  obtain ⟨base, h⟩ := h
  have hne : ring.tail ≠ ring.head := fun hequal => by
    simpa using h.tail_eq_head_iff.mp hequal
  have hcarries := h.carries 0 (by simp)
  simp only [Nat.add_zero, List.getElem_cons_zero] at hcarries
  have hlen : ¬ plcIpcMaxFrameBytes < message.len.toNat := by
    rw [message.len_toNat]
    exact Nat.not_lt.mpr message.bounded
  have hpop : plcSpscPop ring out cap = ({ ring with tail := ring.tail + 1 }, .ok,
      out.deliver message.seq message.len message.flags (ring.slots (slotOf base)).data cap) := by
    have hslot : slotIndex ring.tail = slotOf base := by rw [h.tail_eq, slotIndex_wrap]
    simp only [plcSpscPop, if_neg (Nat.not_lt.mpr hcap), if_neg hne, hslot,
      hcarries.len_eq, hcarries.seq_eq, hcarries.flags_eq, if_neg hlen]
  refine ⟨_, _, hpop, Frame.deliver_delivers out hcarries.payload_eq cap, base + 1, ?_, ?_, ?_, ?_⟩
  · rw [h.tail_eq, wrap_succ]
  · rw [h.head_eq, List.length_cons]
    congr 1
    omega
  · have hroom := h.room
    simp only [List.length_cons] at hroom
    omega
  · intro offset hoffset
    have hnext := h.carries (offset + 1) (by simpa using hoffset)
    rw [List.getElem_cons_succ] at hnext
    have hindex : base + (offset + 1) = base + 1 + offset := by omega
    rwa [hindex] at hnext

/-- A drain leaves nothing to read. -/
theorem represents_plcSpscDrain {ring : Ring} {messages : List Message}
    (h : Represents ring messages) : Represents (plcSpscDrain ring) [] := by
  obtain ⟨base, h⟩ := h
  exact ⟨base + messages.length, h.head_eq, h.head_eq, by simp,
    fun offset hoffset => absurd hoffset (by simp)⟩

end SoftPlc.Ipc
