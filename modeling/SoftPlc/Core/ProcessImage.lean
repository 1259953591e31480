/-
# The process image

The inputs `%I`, the outputs `%Q` and the markers `%M` are three areas of plain
bytes owned by the core. Adapters and programs are handed parts of them; nothing
resizes an area once it is made.

Programs go through accessors, which find the place of what they are asked for or
else read zero and write nothing.
-/

import SoftPlc.Core.ProtocolAdapter
import SoftPlc.Math.Bits

namespace SoftPlc

open SoftPlc.Math

/-- `plc_area_t`. -/
inductive PlcArea
  | i
  | q
  | m
  deriving DecidableEq, Repr

/-- `plc_process_image_t` between `plc_pi_init` and `plc_pi_free`, where no area is
null. -/
structure ProcessImage where
  area : PlcArea → List Byte

/-- `plc_pi_area_size`. -/
def plcPiAreaSize (pi : ProcessImage) (area : PlcArea) : ℕ := (pi.area area).length

/-- `plc_pi_init`, when the memory is granted. -/
def plcPiInit (iBytes qBytes mBytes : ℕ) : ProcessImage where
  area
    | .i => List.replicate iBytes 0
    | .q => List.replicate qBytes 0
    | .m => List.replicate mBytes 0

/-- What code that holds the image does to it. -/
structure ImageAccess where
  apply : ProcessImage → ProcessImage
  size_apply : ∀ pi area, plcPiAreaSize (apply pi) area = plcPiAreaSize pi area

/-! ## Accessors -/

/-- `slot`: where the bytes lie, if they lie inside the area. -/
def slot (pi : ProcessImage) (area : PlcArea) (off len : ℕ) : Option ℕ :=
  let size := plcPiAreaSize pi area
  if size < off ∨ size - off < len then none else some off

/-- The byte a pointer from `slot` points at. -/
def ProcessImage.byteAt (pi : ProcessImage) (area : PlcArea) (place : ℕ) : Byte :=
  (pi.area area).getD place 0

/-- Write bytes through a pointer from `slot`. -/
def ProcessImage.store (pi : ProcessImage) (area : PlcArea) (place : ℕ) (bytes : List Byte) :
    ProcessImage :=
  ⟨Function.update pi.area area (memcpy (pi.area area) place bytes bytes.length)⟩

/-- `plc_pi_get_bit`. -/
def plcPiGetBit (pi : ProcessImage) (area : PlcArea) (byte bit : ℕ) : Bool :=
  match slot pi area byte 1 with
  | none => false
  | some place => if 7 < bit then false else readBit (pi.byteAt area place) bit

/-- `plc_pi_set_bit`. -/
def plcPiSetBit (pi : ProcessImage) (area : PlcArea) (byte bit : ℕ) (value : Bool) :
    ProcessImage :=
  match slot pi area byte 1 with
  | none => pi
  | some place =>
      if 7 < bit then pi
      else pi.store area place [writeBit (pi.byteAt area place) bit value]

/-- `plc_pi_get_byte`. -/
def plcPiGetByte (pi : ProcessImage) (area : PlcArea) (off : ℕ) : Byte :=
  match slot pi area off 1 with
  | none => 0
  | some place => pi.byteAt area place

/-- `plc_pi_set_byte`. -/
def plcPiSetByte (pi : ProcessImage) (area : PlcArea) (off : ℕ) (value : Byte) : ProcessImage :=
  match slot pi area off 1 with
  | none => pi
  | some place => pi.store area place [value]

/-- `plc_pi_get_word`. -/
def plcPiGetWord (pi : ProcessImage) (area : PlcArea) (off : ℕ) : UInt16 :=
  match slot pi area off 2 with
  | none => 0
  | some place =>
      (pi.byteAt area place).toUInt16 ||| (pi.byteAt area (place + 1)).toUInt16 <<< 8

/-- `plc_pi_set_word`. -/
def plcPiSetWord (pi : ProcessImage) (area : PlcArea) (off : ℕ) (value : UInt16) :
    ProcessImage :=
  match slot pi area off 2 with
  | none => pi
  | some place => pi.store area place [(value &&& 0xFF).toUInt8, (value >>> 8).toUInt8]

/-- `plc_pi_get_dword`. -/
def plcPiGetDword (pi : ProcessImage) (area : PlcArea) (off : ℕ) : UInt32 :=
  match slot pi area off 4 with
  | none => 0
  | some place =>
      (pi.byteAt area place).toUInt32 ||| (pi.byteAt area (place + 1)).toUInt32 <<< 8 |||
        (pi.byteAt area (place + 2)).toUInt32 <<< 16 |||
        (pi.byteAt area (place + 3)).toUInt32 <<< 24

/-- `plc_pi_set_dword`. -/
def plcPiSetDword (pi : ProcessImage) (area : PlcArea) (off : ℕ) (value : UInt32) :
    ProcessImage :=
  match slot pi area off 4 with
  | none => pi
  | some place =>
      pi.store area place
        [(value &&& 0xFF).toUInt8, ((value >>> 8) &&& 0xFF).toUInt8,
          ((value >>> 16) &&& 0xFF).toUInt8, ((value >>> 24) &&& 0xFF).toUInt8]

/-- `plc_pi_write` of all the bytes at `src`. -/
def plcPiWrite (pi : ProcessImage) (area : PlcArea) (off : ℕ) (src : List Byte) :
    ProcessImage × PlcStatus :=
  match slot pi area off src.length with
  | none => (pi, .errInval)
  | some place => (pi.store area place src, .ok)

/-- `plc_pi_read`: what it copies out. -/
def plcPiRead (pi : ProcessImage) (area : PlcArea) (off len : ℕ) :
    Except PlcStatus (List Byte) :=
  match slot pi area off len with
  | none => .error .errInval
  | some place => .ok (((pi.area area).drop place).take len)

theorem slot_eq_some {pi : ProcessImage} {area : PlcArea} {off len place : ℕ} :
    slot pi area off len = some place ↔ place = off ∧ off + len ≤ plcPiAreaSize pi area := by
  simp only [slot]
  split_ifs with hout
  · simp only [false_iff]
    omega
  · rw [Option.some.injEq]
    omega

section Store

variable {pi : ProcessImage} {area : PlcArea} {place : ℕ} {bytes : List Byte}

theorem plcPiAreaSize_store (hfits : place + bytes.length ≤ plcPiAreaSize pi area)
    (other : PlcArea) :
    plcPiAreaSize (pi.store area place bytes) other = plcPiAreaSize pi other := by
  by_cases heq : other = area
  · subst heq
    simp only [plcPiAreaSize, ProcessImage.store, Function.update_self]
    exact memcpy_length le_rfl hfits
  · simp only [plcPiAreaSize, ProcessImage.store, Function.update_of_ne heq]

/-- A store defines the bytes it is given and no others of its area. -/
theorem byteAt_store (hfits : place + bytes.length ≤ plcPiAreaSize pi area) (other : ℕ) :
    (pi.store area place bytes).byteAt area other =
      if place ≤ other ∧ other < place + bytes.length then bytes.getD (other - place) 0
      else pi.byteAt area other := by
  simp only [ProcessImage.byteAt, ProcessImage.store, Function.update_self]
  exact getD_memcpy le_rfl hfits other 0

/-- Nor any byte of another area. -/
theorem byteAt_store_of_ne {sibling : PlcArea} (hne : sibling ≠ area) (other : ℕ) :
    (pi.store area place bytes).byteAt sibling other = pi.byteAt sibling other := by
  simp only [ProcessImage.byteAt, ProcessImage.store, Function.update_of_ne hne]

end Store

section Bits

variable {pi : ProcessImage} {area : PlcArea} {byte bit other off : ℕ}

theorem plcPiGetBit_eq (hbyte : byte < plcPiAreaSize pi area) (hbit : bit < 8) :
    plcPiGetBit pi area byte bit = readBit (pi.byteAt area byte) bit := by
  rw [plcPiGetBit, slot_eq_some.mpr ⟨rfl, hbyte⟩]
  exact if_neg (by omega)

theorem plcPiSetBit_eq (hbyte : byte < plcPiAreaSize pi area) (hbit : bit < 8) (value : Bool) :
    plcPiSetBit pi area byte bit value =
      pi.store area byte [writeBit (pi.byteAt area byte) bit value] := by
  rw [plcPiSetBit, slot_eq_some.mpr ⟨rfl, hbyte⟩]
  exact if_neg (by omega)

theorem plcPiAreaSize_setBit (value : Bool) (sized : PlcArea) :
    plcPiAreaSize (plcPiSetBit pi area byte bit value) sized = plcPiAreaSize pi sized := by
  unfold plcPiSetBit
  split
  · rfl
  · next place hslot =>
      obtain ⟨rfl, hfits⟩ := slot_eq_some.mp hslot
      split_ifs
      · rfl
      · exact plcPiAreaSize_store hfits sized

theorem plcPiAreaSize_setWord (value : UInt16) (sized : PlcArea) :
    plcPiAreaSize (plcPiSetWord pi area off value) sized = plcPiAreaSize pi sized := by
  unfold plcPiSetWord
  split
  · rfl
  · next place hslot =>
      obtain ⟨rfl, hfits⟩ := slot_eq_some.mp hslot
      exact plcPiAreaSize_store hfits sized

/-- A bit that was written, and the bits of its byte. -/
theorem plcPiGetBit_setBit (hbyte : byte < plcPiAreaSize pi area) (hbit : bit < 8)
    (hother : other < 8) (value : Bool) :
    plcPiGetBit (plcPiSetBit pi area byte bit value) area byte other =
      if other = bit then value else plcPiGetBit pi area byte other := by
  have hsize := hbyte
  rw [← plcPiAreaSize_setBit value area] at hsize
  rw [plcPiGetBit_eq hsize hother, plcPiGetBit_eq hbyte hother, plcPiSetBit_eq hbyte hbit,
    byteAt_store hbyte, if_pos ⟨le_rfl, Nat.lt_succ_self _⟩, Nat.sub_self]
  exact readBit_writeBit _ value hbit hother

/-- A word leaves the bytes before it alone. -/
theorem plcPiGetBit_setWord (hbefore : byte < off) (value : UInt16) (hother : other < 8) :
    plcPiGetBit (plcPiSetWord pi area off value) area byte other =
      plcPiGetBit pi area byte other := by
  unfold plcPiSetWord
  split
  · rfl
  · next place hslot =>
      obtain ⟨rfl, hfits⟩ := slot_eq_some.mp hslot
      have hbyte : byte < plcPiAreaSize pi area := by omega
      have hsize : byte < plcPiAreaSize
          (pi.store area place [(value &&& 0xFF).toUInt8, (value >>> 8).toUInt8]) area := by
        rwa [plcPiAreaSize_store hfits]
      rw [plcPiGetBit_eq hsize hother, plcPiGetBit_eq hbyte hother, byteAt_store hfits,
        if_neg (by omega)]

/-- A word that was written. -/
theorem plcPiGetWord_setWord (hfits : off + 2 ≤ plcPiAreaSize pi area) (value : UInt16) :
    plcPiGetWord (plcPiSetWord pi area off value) area off = value := by
  have hsize := hfits
  rw [← plcPiAreaSize_setWord value area] at hsize
  rw [plcPiGetWord, slot_eq_some.mpr ⟨rfl, hsize⟩, plcPiSetWord, slot_eq_some.mpr ⟨rfl, hfits⟩]
  apply UInt16.toNat_inj.mp
  have hfirst : off < off + 2 := Nat.lt_add_of_pos_right (by decide)
  rw [toNat_word, byteAt_store hfits, byteAt_store hfits, if_pos ⟨le_rfl, hfirst⟩,
    if_pos ⟨Nat.le_succ off, Nat.lt_succ_self _⟩, Nat.sub_self, Nat.add_sub_cancel_left]
  exact leValue_word value

end Bits

end SoftPlc
