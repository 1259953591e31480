/-
# Bits and bytes

A bit is read with a shift and a mask, and written by masking it in or out. Writing
a bit sets that bit and no other.

A number of several bytes lies in memory with its lowest byte first. The shifts and
masks that take it apart and put it together again are those of two and of four bytes.
-/

import Mathlib.Algebra.Order.Ring.Nat
import Mathlib.Data.Nat.Bitwise

namespace SoftPlc.Math

/-- `(byte >> bit) & 1`. -/
def readBit (byte : UInt8) (bit : ℕ) : Bool := (byte >>> UInt8.ofNat bit) &&& 1 == 1

/-- `byte | (1 << bit)` or `byte & ~(1 << bit)`. -/
def writeBit (byte : UInt8) (bit : ℕ) (value : Bool) : UInt8 :=
  if value then byte ||| (1 <<< UInt8.ofNat bit) else byte &&& ~~~(1 <<< UInt8.ofNat bit)

theorem readBit_eq_getLsbD (byte : UInt8) {bit : ℕ} (hbit : bit < 8) :
    readBit byte bit = byte.toBitVec.getLsbD bit := by
  have hmask : ((byte >>> UInt8.ofNat bit) &&& 1).toNat = (byte.toNat.testBit bit).toNat := by
    have hshift : (UInt8.ofNat bit).toNat % 8 = bit := by
      rw [UInt8.toNat_ofNat_of_lt' (hbit.trans (by decide)), Nat.mod_eq_of_lt hbit]
    rw [UInt8.toNat_and, UInt8.toNat_shiftRight, hshift, UInt8.toNat_one, Nat.and_one_is_mod,
      Nat.shiftRight_eq_div_pow, Nat.testBit_eq_decide_div_mod_eq]
    rcases Nat.mod_two_eq_zero_or_one (byte.toNat / 2 ^ bit) with hlow | hlow <;> simp [hlow]
  rw [readBit, BitVec.getLsbD, UInt8.toNat_toBitVec, Bool.eq_iff_iff, beq_iff_eq,
    ← UInt8.toNat_inj, hmask]
  cases byte.toNat.testBit bit <;> simp

theorem readBit_eq_testBit (byte : UInt8) {bit : ℕ} (hbit : bit < 8) :
    readBit byte bit = byte.toNat.testBit bit :=
  readBit_eq_getLsbD byte hbit

/-- A bit that was written, and the bits beside it. -/
theorem readBit_writeBit (byte : UInt8) {bit other : ℕ} (value : Bool) (hbit : bit < 8)
    (hother : other < 8) :
    readBit (writeBit byte bit value) other =
      if other = bit then value else readBit byte other := by
  rw [readBit_eq_getLsbD _ hother, readBit_eq_getLsbD _ hother, writeBit]
  by_cases heq : other = bit
  · subst heq
    cases value <;> simp [hother, Nat.mod_eq_of_lt hbit]
  · have hdiff : ¬ other < bit → ¬ other - bit = 0 := by omega
    cases value <;> by_cases hlt : other < bit <;>
      simp [hother, Nat.mod_eq_of_lt hbit, heq, hlt, hdiff]

/-! ## Numbers of several bytes -/

/-- The number whose bytes are given, the lowest first. -/
def leValue : List UInt8 → ℕ
  | [] => 0
  | low :: rest => 2 ^ 8 * leValue rest + low.toNat

/-- A bit of the number is a bit of one of its bytes. -/
theorem testBit_leValue (bytes : List UInt8) (bit : ℕ) :
    (leValue bytes).testBit bit = (bytes.getD (bit / 8) 0).toNat.testBit (bit % 8) := by
  induction bytes generalizing bit with
  | nil => simp [leValue]
  | cons low rest ih =>
      rw [leValue, Nat.testBit_two_pow_mul_add _ low.toNat_lt]
      rcases Nat.lt_or_ge bit 8 with hlow | hhigh
      · rw [if_pos hlow, Nat.div_eq_of_lt hlow, Nat.mod_eq_of_lt hlow]
        rfl
      · obtain ⟨above, rfl⟩ := Nat.exists_eq_add_of_le hhigh
        rw [if_neg (by omega), ih, Nat.add_sub_cancel_left, Nat.add_div_left above (by decide),
          Nat.add_mod_left]
        rfl

/-- A byte is its bits. -/
theorem ofNat_ofBits_testBit (byte : UInt8) :
    UInt8.ofNat (Nat.ofBits fun bit : Fin 8 => byte.toNat.testBit bit) = byte := by
  rw [Nat.ofBits_testBit, Nat.mod_eq_of_lt byte.toNat_lt, UInt8.ofNat_toNat]

/-- A number that was taken apart. -/
theorem leValue_word (value : UInt16) :
    leValue [(value &&& 0xFF).toUInt8, (value >>> 8).toUInt8] = value.toNat := by
  have hlow : (value &&& 0xFF).toNat = value.toNat % 2 ^ 8 :=
    Nat.and_two_pow_sub_one_eq_mod value.toNat 8
  have hhigh : (value >>> 8).toNat = value.toNat / 2 ^ 8 := Nat.shiftRight_eq_div_pow value.toNat 8
  have hlt := value.toNat_lt
  simp only [leValue, UInt16.toNat_toUInt8, hlow, hhigh]
  omega

theorem leValue_dword (value : UInt32) :
    leValue [(value &&& 0xFF).toUInt8, ((value >>> 8) &&& 0xFF).toUInt8,
      ((value >>> 16) &&& 0xFF).toUInt8, ((value >>> 24) &&& 0xFF).toUInt8] = value.toNat := by
  have hmask (word : UInt32) : (word &&& 0xFF).toUInt8.toNat = word.toNat % 2 ^ 8 := by
    have hlow : (word &&& 0xFF).toNat = word.toNat % 2 ^ 8 :=
      Nat.and_two_pow_sub_one_eq_mod word.toNat 8
    rw [UInt32.toNat_toUInt8, hlow, Nat.mod_mod]
  have hsecond : (value >>> 8).toNat = value.toNat / 2 ^ 8 :=
    Nat.shiftRight_eq_div_pow value.toNat 8
  have hthird : (value >>> 16).toNat = value.toNat / 2 ^ 16 :=
    Nat.shiftRight_eq_div_pow value.toNat 16
  have hfourth : (value >>> 24).toNat = value.toNat / 2 ^ 24 :=
    Nat.shiftRight_eq_div_pow value.toNat 24
  have hlt := value.toNat_lt
  simp only [leValue, hmask, hsecond, hthird, hfourth]
  omega

/-- Bits that are put above those of a number add to it. -/
theorem or_shiftLeft_toNat {low high shift : ℕ} (hlow : low < 2 ^ shift) :
    low ||| high <<< shift = 2 ^ shift * high + low := by
  rw [Nat.two_pow_add_eq_or_of_lt hlow, Nat.shiftLeft_eq, Nat.or_comm, Nat.mul_comm]

/-- A number that is put together. -/
theorem toNat_word (first second : UInt8) :
    (first.toUInt16 ||| second.toUInt16 <<< 8).toNat = leValue [first, second] := by
  have hfirst := first.toNat_lt
  have hsecond := second.toNat_lt
  have hshift : (second.toUInt16 <<< 8).toNat = second.toNat <<< 8 := by
    have hfits : second.toNat <<< 8 < 2 ^ 16 := by
      rw [Nat.shiftLeft_eq]
      omega
    rw [UInt16.toNat_shiftLeft, UInt8.toNat_toUInt16]
    exact Nat.mod_eq_of_lt hfits
  rw [UInt16.toNat_or, hshift, UInt8.toNat_toUInt16, or_shiftLeft_toNat hfirst]
  simp only [leValue]
  omega

theorem toNat_dword (first second third fourth : UInt8) :
    (first.toUInt32 ||| second.toUInt32 <<< 8 ||| third.toUInt32 <<< 16 |||
        fourth.toUInt32 <<< 24).toNat = leValue [first, second, third, fourth] := by
  have hshift (byte : UInt8) {shift : UInt32} (hfits : shift.toNat ≤ 24) :
      (byte.toUInt32 <<< shift).toNat = byte.toNat <<< shift.toNat := by
    have hbyte := byte.toNat_lt
    have hamount : shift.toNat % 32 = shift.toNat := Nat.mod_eq_of_lt (by omega)
    rw [UInt32.toNat_shiftLeft, UInt8.toNat_toUInt32, hamount]
    apply Nat.mod_eq_of_lt
    calc byte.toNat <<< shift.toNat = byte.toNat * 2 ^ shift.toNat := Nat.shiftLeft_eq _ _
      _ ≤ byte.toNat * 2 ^ 24 := Nat.mul_le_mul_left _ (Nat.pow_le_pow_right (by decide) hfits)
      _ < 2 ^ 32 := by omega
  have hfirst := first.toNat_lt
  have hsecond := second.toNat_lt
  have hthird := third.toNat_lt
  rw [UInt32.toNat_or, UInt32.toNat_or, UInt32.toNat_or, hshift second (by decide),
    hshift third (by decide), hshift fourth (by decide), UInt8.toNat_toUInt32]
  have hlow : 2 ^ 8 * second.toNat + first.toNat < 2 ^ 16 := by omega
  calc first.toNat ||| second.toNat <<< 8 ||| third.toNat <<< 16 ||| fourth.toNat <<< 24
      = 2 ^ 8 * second.toNat + first.toNat ||| third.toNat <<< 16 ||| fourth.toNat <<< 24 := by
        rw [or_shiftLeft_toNat hfirst]
    _ = 2 ^ 16 * third.toNat + (2 ^ 8 * second.toNat + first.toNat) ||| fourth.toNat <<< 24 := by
        rw [or_shiftLeft_toNat hlow]
    _ = 2 ^ 24 * fourth.toNat +
          (2 ^ 16 * third.toNat + (2 ^ 8 * second.toNat + first.toNat)) :=
        or_shiftLeft_toNat (by omega)
    _ = leValue [first, second, third, fourth] := by
        simp only [leValue]
        omega

end SoftPlc.Math
