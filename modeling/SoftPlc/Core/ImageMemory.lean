/-
# The process image is a memory of bits

The accessors of the image read and write single bits, bytes, words, double words and
blocks, at any offset and with any overlap. Underneath there is one memory, whose
places are the bits of the three areas. A write that lies inside its area defines the
bits it addresses, and any other write defines none. Every read is put together from
the latest values of the bits it covers, the lowest byte and the lowest bit first.

Offsets and lengths are natural numbers. The test of `slot` never adds them, so it gives
the same answer in `size_t`, however large they are.
-/

import SoftPlc.Core.ProcessImage
import SoftPlc.Math.Latest

namespace SoftPlc

open SoftPlc.Math

/-- A bit of the image. -/
structure BitPlace where
  area : PlcArea
  byte : ℕ
  bit : Fin 8
  deriving DecidableEq

/-- The value of a bit. -/
def ProcessImage.bit (pi : ProcessImage) (place : BitPlace) : Bool :=
  (pi.byteAt place.area place.byte).toNat.testBit place.bit

/-- The calls that write. -/
inductive ImageWrite
  | setBit (area : PlcArea) (byte bit : ℕ) (value : Bool)
  | setByte (area : PlcArea) (off : ℕ) (value : Byte)
  | setWord (area : PlcArea) (off : ℕ) (value : UInt16)
  | setDword (area : PlcArea) (off : ℕ) (value : UInt32)
  | write (area : PlcArea) (off : ℕ) (src : List Byte)

namespace ImageWrite

/-- The image after a call. -/
def apply (pi : ProcessImage) : ImageWrite → ProcessImage
  | setBit area byte bit value => plcPiSetBit pi area byte bit value
  | setByte area off value => plcPiSetByte pi area off value
  | setWord area off value => plcPiSetWord pi area off value
  | setDword area off value => plcPiSetDword pi area off value
  | write area off src => (plcPiWrite pi area off src).1

/-- The call lies wholly inside its area. -/
def Inside (size : PlcArea → ℕ) : ImageWrite → Prop
  | setBit area byte bit _ => byte < size area ∧ bit < 8
  | setByte area off _ => off + 1 ≤ size area
  | setWord area off _ => off + 2 ≤ size area
  | setDword area off _ => off + 4 ≤ size area
  | write area off src => off + src.length ≤ size area

instance (size : PlcArea → ℕ) : (call : ImageWrite) → Decidable (call.Inside size)
  | setBit area byte bit _ => inferInstanceAs (Decidable (byte < size area ∧ bit < 8))
  | setByte area off _ => inferInstanceAs (Decidable (off + 1 ≤ size area))
  | setWord area off _ => inferInstanceAs (Decidable (off + 2 ≤ size area))
  | setDword area off _ => inferInstanceAs (Decidable (off + 4 ≤ size area))
  | write area off src => inferInstanceAs (Decidable (off + src.length ≤ size area))

/-- What a number of `width` bytes at an offset puts at a bit, if it covers it. -/
def numberBit (area : PlcArea) (off width value : ℕ) (place : BitPlace) : Option Bool :=
  if place.area = area ∧ off ≤ place.byte ∧ place.byte < off + width then
    some (value.testBit (8 * (place.byte - off) + place.bit))
  else none

/-- What a call puts at a bit, if it addresses it. -/
def value : ImageWrite → BitPlace → Option Bool
  | setBit area byte bit value, place =>
      if place.area = area ∧ place.byte = byte ∧ place.bit = bit then some value else none
  | setByte area off value, place => numberBit area off 1 value.toNat place
  | setWord area off value, place => numberBit area off 2 value.toNat place
  | setDword area off value, place => numberBit area off 4 value.toNat place
  | write area off src, place =>
      if place.area = area ∧ off ≤ place.byte ∧ place.byte < off + src.length then
        some ((src.getD (place.byte - off) 0).toNat.testBit place.bit)
      else none

/-- The bits a call defines in areas of given sizes. -/
def effect (size : PlcArea → ℕ) (call : ImageWrite) (place : BitPlace) : Option Bool :=
  if call.Inside size then call.value place else none

end ImageWrite

/-- The bytes of a memory of bits. -/
def recalledBytes (memory : BitPlace → Bool) (area : PlcArea) (off len : ℕ) : List Byte :=
  (List.range len).map fun j =>
    UInt8.ofNat (Nat.ofBits fun bit : Fin 8 => memory ⟨area, off + j, bit⟩)

/-! ## Reads -/

section Reads

variable {pi : ProcessImage} {area : PlcArea} {off len : ℕ}

theorem slot_eq_none (hout : ¬ off + len ≤ plcPiAreaSize pi area) :
    slot pi area off len = none := by
  rw [Option.eq_none_iff_forall_ne_some]
  intro place hslot
  exact hout (slot_eq_some.mp hslot).2

theorem recalledBytes_bit (pi : ProcessImage) (area : PlcArea) (off len : ℕ) :
    recalledBytes pi.bit area off len = (List.range len).map fun j => pi.byteAt area (off + j) := by
  apply List.map_congr_left
  intro j _
  exact ofNat_ofBits_testBit (pi.byteAt area (off + j))

/-- The bytes of an area, from its list and one at a time. -/
theorem take_drop_area (hfits : off + len ≤ plcPiAreaSize pi area) :
    ((pi.area area).drop off).take len =
      (List.range len).map fun j => pi.byteAt area (off + j) := by
  have hsize : off + len ≤ (pi.area area).length := hfits
  apply List.ext_getElem
  · rw [List.length_take, List.length_drop, List.length_map, List.length_range]
    omega
  · intro j hleft hright
    rw [List.length_map, List.length_range] at hright
    rw [List.getElem_take, List.getElem_drop, List.getElem_map, List.getElem_range]
    exact (List.getD_eq_getElem _ _ (by omega)).symm

/-- What the reading calls return, from a memory of bits. -/
structure Recalls (pi : ProcessImage) (size : PlcArea → ℕ) (memory : BitPlace → Bool) : Prop where
  getBit : ∀ area byte bit, plcPiGetBit pi area byte bit =
    if h : byte < size area ∧ bit < 8 then memory ⟨area, byte, ⟨bit, h.2⟩⟩ else false
  getByte : ∀ area off, (plcPiGetByte pi area off).toNat =
    if off + 1 ≤ size area then leValue (recalledBytes memory area off 1) else 0
  getWord : ∀ area off, (plcPiGetWord pi area off).toNat =
    if off + 2 ≤ size area then leValue (recalledBytes memory area off 2) else 0
  getDword : ∀ area off, (plcPiGetDword pi area off).toNat =
    if off + 4 ≤ size area then leValue (recalledBytes memory area off 4) else 0
  read : ∀ area off len, plcPiRead pi area off len =
    if off + len ≤ size area then .ok (recalledBytes memory area off len) else .error .errInval

/-- Every image is read from its own bits. -/
theorem recalls_bit (pi : ProcessImage) : Recalls pi (plcPiAreaSize pi) pi.bit where
  getBit area byte bit := by
    split_ifs with hinside
    · rw [plcPiGetBit_eq hinside.1 hinside.2, readBit_eq_testBit _ hinside.2]
      rfl
    · unfold plcPiGetBit
      split
      · rfl
      · next place hslot =>
          have hbyte := (slot_eq_some.mp hslot).2
          exact if_pos (by omega)
  getByte area off := by
    unfold plcPiGetByte
    split_ifs with hfits
    · rw [slot_eq_some.mpr ⟨rfl, hfits⟩, recalledBytes_bit]
      simp [leValue]
    · rw [slot_eq_none hfits]
      rfl
  getWord area off := by
    unfold plcPiGetWord
    split_ifs with hfits
    · rw [slot_eq_some.mpr ⟨rfl, hfits⟩, recalledBytes_bit]
      exact toNat_word _ _
    · rw [slot_eq_none hfits]
      rfl
  getDword area off := by
    unfold plcPiGetDword
    split_ifs with hfits
    · rw [slot_eq_some.mpr ⟨rfl, hfits⟩, recalledBytes_bit]
      exact toNat_dword _ _ _ _
    · rw [slot_eq_none hfits]
      rfl
  read area off len := by
    unfold plcPiRead
    split_ifs with hfits
    · rw [slot_eq_some.mpr ⟨rfl, hfits⟩, recalledBytes_bit]
      exact congrArg Except.ok (take_drop_area hfits)
    · rw [slot_eq_none hfits]

end Reads

/-! ## Writes -/

section Writes

variable {pi : ProcessImage} {area : PlcArea} {off : ℕ} {bytes : List Byte}

/-- A store defines the bits of its bytes. -/
theorem bit_store (hfits : off + bytes.length ≤ plcPiAreaSize pi area) (place : BitPlace) :
    (pi.store area off bytes).bit place =
      if place.area = area ∧ off ≤ place.byte ∧ place.byte < off + bytes.length then
        (bytes.getD (place.byte - off) 0).toNat.testBit place.bit
      else pi.bit place := by
  obtain ⟨sibling, byte, bit⟩ := place
  by_cases harea : sibling = area
  · subst harea
    simp only [ProcessImage.bit, byteAt_store hfits, true_and]
    split_ifs <;> rfl
  · simp only [ProcessImage.bit, byteAt_store_of_ne harea, harea, false_and, if_false]

/-- So does the store of a number that was taken apart. -/
theorem bit_store_number {value : ℕ} (hfits : off + bytes.length ≤ plcPiAreaSize pi area)
    (hvalue : leValue bytes = value) (place : BitPlace) :
    (pi.store area off bytes).bit place =
      (ImageWrite.numberBit area off bytes.length value place).getD (pi.bit place) := by
  rw [bit_store hfits, ImageWrite.numberBit]
  split_ifs with hcovered
  · have hbyte : (8 * (place.byte - off) + place.bit) / 8 = place.byte - off := by omega
    have hbit : (8 * (place.byte - off) + place.bit) % 8 = place.bit := by omega
    rw [Option.getD_some, ← hvalue, testBit_leValue, hbyte, hbit]
  · rfl

theorem bit_setBit {byte bit : ℕ} (hbyte : byte < plcPiAreaSize pi area) (hbit : bit < 8)
    (value : Bool) (place : BitPlace) :
    (plcPiSetBit pi area byte bit value).bit place =
      ((ImageWrite.setBit area byte bit value).value place).getD (pi.bit place) := by
  obtain ⟨sibling, other, index⟩ := place
  rw [plcPiSetBit_eq hbyte hbit, bit_store hbyte]
  simp only [ImageWrite.value, List.length_singleton]
  by_cases hplace : sibling = area ∧ other = byte
  · obtain ⟨rfl, rfl⟩ := hplace
    rw [if_pos ⟨rfl, le_rfl, Nat.lt_succ_self other⟩, Nat.sub_self, List.getD_cons_zero,
      ← readBit_eq_testBit _ index.isLt, readBit_writeBit _ value hbit index.isLt]
    by_cases hindex : (index : ℕ) = bit
    · rw [if_pos hindex, if_pos ⟨rfl, rfl, hindex⟩, Option.getD_some]
    · rw [if_neg hindex, if_neg fun h => hindex h.2.2, readBit_eq_testBit _ index.isLt]
      rfl
  · rw [if_neg fun h => hplace ⟨h.1, by omega⟩, if_neg fun h => hplace ⟨h.1, h.2.1⟩]
    rfl

/-- A call that does not lie inside its area changes nothing. -/
theorem ImageWrite.apply_of_not_inside {call : ImageWrite}
    (hout : ¬ call.Inside (plcPiAreaSize pi)) : call.apply pi = pi := by
  cases call with
  | setBit area byte bit value =>
      simp only [apply, plcPiSetBit]
      split
      · rfl
      · next place hslot =>
          have hbyte := (slot_eq_some.mp hslot).2
          exact if_pos (Nat.lt_of_not_le fun hbit => hout ⟨hbyte, Nat.lt_succ_of_le hbit⟩)
  | setByte area off value => rw [apply, plcPiSetByte, slot_eq_none hout]
  | setWord area off value => rw [apply, plcPiSetWord, slot_eq_none hout]
  | setDword area off value => rw [apply, plcPiSetDword, slot_eq_none hout]
  | write area off src => rw [apply, plcPiWrite, slot_eq_none hout]

/-- A call inside its area stores some bytes there. -/
theorem ImageWrite.apply_of_inside {call : ImageWrite} (hinside : call.Inside (plcPiAreaSize pi)) :
    (∃ area off bytes, call.apply pi = pi.store area off bytes ∧
      off + bytes.length ≤ plcPiAreaSize pi area) ∧
    ∀ place, (call.apply pi).bit place = (call.value place).getD (pi.bit place) := by
  cases call with
  | setBit area byte bit value =>
      refine ⟨⟨area, byte, _, plcPiSetBit_eq hinside.1 hinside.2 value, hinside.1⟩, ?_⟩
      exact bit_setBit hinside.1 hinside.2 value
  | setByte area off value =>
      have happly : apply pi (.setByte area off value) = pi.store area off [value] := by
        rw [apply, plcPiSetByte, slot_eq_some.mpr ⟨rfl, hinside⟩]
      refine ⟨⟨area, off, _, happly, hinside⟩, fun place => ?_⟩
      rw [happly]
      exact bit_store_number hinside (by simp [leValue]) place
  | setWord area off value =>
      have happly : apply pi (.setWord area off value) =
          pi.store area off [(value &&& 0xFF).toUInt8, (value >>> 8).toUInt8] := by
        rw [apply, plcPiSetWord, slot_eq_some.mpr ⟨rfl, hinside⟩]
      refine ⟨⟨area, off, _, happly, hinside⟩, fun place => ?_⟩
      rw [happly]
      exact bit_store_number hinside (leValue_word value) place
  | setDword area off value =>
      have happly : apply pi (.setDword area off value) = pi.store area off
          [(value &&& 0xFF).toUInt8, ((value >>> 8) &&& 0xFF).toUInt8,
            ((value >>> 16) &&& 0xFF).toUInt8, ((value >>> 24) &&& 0xFF).toUInt8] := by
        rw [apply, plcPiSetDword, slot_eq_some.mpr ⟨rfl, hinside⟩]
      refine ⟨⟨area, off, _, happly, hinside⟩, fun place => ?_⟩
      rw [happly]
      exact bit_store_number hinside (leValue_dword value) place
  | write area off src =>
      have happly : apply pi (.write area off src) = pi.store area off src := by
        rw [apply, plcPiWrite, slot_eq_some.mpr ⟨rfl, hinside⟩]
      refine ⟨⟨area, off, _, happly, hinside⟩, fun place => ?_⟩
      rw [happly, bit_store hinside, value]
      split_ifs <;> rfl

theorem ImageWrite.size_apply (call : ImageWrite) (pi : ProcessImage) :
    plcPiAreaSize (call.apply pi) = plcPiAreaSize pi := by
  by_cases hinside : call.Inside (plcPiAreaSize pi)
  · obtain ⟨⟨area, off, bytes, happly, hfits⟩, -⟩ := apply_of_inside hinside
    funext sized
    rw [happly, plcPiAreaSize_store hfits]
  · rw [apply_of_not_inside hinside]

/-- Either way the call is a write of the memory. -/
theorem ImageWrite.bit_apply (call : ImageWrite) (pi : ProcessImage) (place : BitPlace) :
    (call.apply pi).bit place =
      (call.effect (plcPiAreaSize pi) place).getD (pi.bit place) := by
  rw [effect]
  split_ifs with hinside
  · exact (apply_of_inside hinside).2 place
  · rw [apply_of_not_inside hinside]
    rfl

theorem plcPiWrite_status (pi : ProcessImage) (area : PlcArea) (off : ℕ) (src : List Byte) :
    (plcPiWrite pi area off src).2 =
      if off + src.length ≤ plcPiAreaSize pi area then .ok else .errInval := by
  unfold plcPiWrite
  split_ifs with hfits
  · rw [slot_eq_some.mpr ⟨rfl, hfits⟩]
  · rw [slot_eq_none hfits]

end Writes

/-! ## The law -/

/-- The test of `slot` in `size_t`. -/
def slotRefuses (size off len : UInt64) : Bool := size < off || size - off < len

theorem slot_eq_none_iff {pi : ProcessImage} {area : PlcArea} {size : UInt64}
    (hsize : size.toNat = plcPiAreaSize pi area) (off len : UInt64) :
    slot pi area off.toNat len.toNat = none ↔ slotRefuses size off len = true := by
  simp only [slot, slotRefuses, ← hsize, Bool.or_eq_true, decide_eq_true_eq, UInt64.lt_iff_toNat_lt]
  by_cases hoff : size.toNat < off.toNat
  · simp [hoff]
  · -- the subtraction is made only when it does not wrap around
    have hsub : (size - off).toNat = size.toNat - off.toNat :=
      UInt64.toNat_sub_of_le size off (UInt64.le_iff_toNat_le.mpr (not_lt.mp hoff))
    rw [hsub]
    split_ifs with hout <;> simp [hout]

/-- The sizes that `plc_pi_init` was asked for. -/
def areaSizes (iBytes qBytes mBytes : ℕ) : PlcArea → ℕ
  | .i => iBytes
  | .q => qBytes
  | .m => mBytes

theorem size_plcPiInit (iBytes qBytes mBytes : ℕ) :
    plcPiAreaSize (plcPiInit iBytes qBytes mBytes) = areaSizes iBytes qBytes mBytes := by
  funext area
  cases area <;> exact List.length_replicate

/-- A new image is zero. -/
theorem bit_plcPiInit (iBytes qBytes mBytes : ℕ) :
    (plcPiInit iBytes qBytes mBytes).bit = fun _ => false := by
  funext place
  obtain ⟨area, byte, bit⟩ := place
  cases area <;> simp [ProcessImage.bit, ProcessImage.byteAt, plcPiInit]

/-- **The memory law of the process image.** After any calls on a new image, every read
is put together from the latest values of the bits it covers, and is zero or refused if
it does not lie inside its area. A further call inside its area changes exactly the bits
it addresses, and any other changes nothing. The offsets may be any of `size_t`. -/
theorem image_memory_law (iBytes qBytes mBytes : ℕ) (calls : List ImageWrite) :
    let size := areaSizes iBytes qBytes mBytes
    let pi := calls.foldl (fun pi call => call.apply pi) (plcPiInit iBytes qBytes mBytes)
    Recalls pi size (latest (fun _ => false) (calls.map (ImageWrite.effect size))) ∧
    (∀ call : ImageWrite,
      (call.Inside size → ∀ place,
        (call.apply pi).bit place = (call.value place).getD (pi.bit place)) ∧
      (¬ call.Inside size → call.apply pi = pi)) ∧
    (∀ area off src, (plcPiWrite pi area off src).2 =
      if off + src.length ≤ size area then .ok else .errInval) ∧
    ∀ (area : PlcArea) (bytes off len : UInt64), bytes.toNat = size area →
      (slot pi area off.toNat len.toNat = none ↔ slotRefuses bytes off len = true) := by
  intro size pi
  have hmemory := foldl_latest
    (fun state call (hsize : plcPiAreaSize state = size) =>
      (ImageWrite.size_apply call state).trans hsize)
    (fun state call place hsize => hsize ▸ ImageWrite.bit_apply call state place)
    (size_plcPiInit iBytes qBytes mBytes) calls
  obtain ⟨hsize, hbits⟩ := hmemory
  have hsize : plcPiAreaSize pi = size := hsize
  have hbits : pi.bit = latest (fun _ => false) (calls.map (ImageWrite.effect size)) := by
    funext place
    rw [← bit_plcPiInit iBytes qBytes mBytes]
    exact hbits place
  refine ⟨?_, fun call => ⟨?_, ?_⟩, ?_, ?_⟩
  · have hrecalls := recalls_bit pi
    rwa [hsize, hbits] at hrecalls
  · intro hinside
    rw [← hsize] at hinside
    exact (ImageWrite.apply_of_inside hinside).2
  · intro hout
    rw [← hsize] at hout
    exact ImageWrite.apply_of_not_inside hout
  · intro area off src
    rw [← hsize]
    exact plcPiWrite_status pi area off src
  · intro area bytes off len hbytes
    rw [← hsize] at hbytes
    exact slot_eq_none_iff hbytes off len

/-- A double word that covers a word, one bit of which was cleared. The write that does
not fit is dropped. -/
example :
    let calls : List ImageWrite :=
      [.setWord .m 1 0xABCD, .setDword .m 5 0xFFFFFFFF, .setBit .m 2 0 false]
    let pi := calls.foldl (fun pi call => call.apply pi) (plcPiInit 0 0 6)
    plcPiGetDword pi .m 0 = 0x00AACD00 ∧ plcPiGetByte pi .m 5 = 0 := by
  decide +kernel

end SoftPlc
