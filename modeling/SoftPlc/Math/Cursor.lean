/-
# Free-running 32-bit cursors

A ring cursor or a sequence number is a `UInt32` that is only ever incremented,
so it is the image of an unbounded count under wrap-around. The lemmas below
transfer the three tests made on such counters to the counts themselves: the
modular distance, equality, and the sign of the difference. Each holds as long
as the counts are close, however often both have wrapped.
-/

import Mathlib.Algebra.Order.Ring.Nat

namespace SoftPlc.Math

/-- The 32-bit image of an unbounded count. -/
def wrap (count : ℕ) : UInt32 := UInt32.ofNat count

@[simp]
theorem wrap_toNat (count : ℕ) : (wrap count).toNat = count % 2 ^ 32 := by
  simp [wrap]

/-- Every cursor value is the image of some count. -/
@[simp]
theorem wrap_of_toNat (cursor : UInt32) : wrap cursor.toNat = cursor := by
  simp [wrap]

/-- Advancing the cursor is counting on. -/
theorem wrap_add (count steps : ℕ) : wrap (count + steps) = wrap count + UInt32.ofNat steps := by
  simp [wrap, UInt32.ofNat_add]

/-- Incrementing the cursor is counting once more. -/
theorem wrap_succ (count : ℕ) : wrap (count + 1) = wrap count + 1 :=
  wrap_add count 1

/-- The modular distance of two close counts is their true distance. -/
theorem wrap_sub_toNat {low high : ℕ} (hle : low ≤ high) (hclose : high - low < 2 ^ 32) :
    (wrap high - wrap low).toNat = high - low := by
  rw [UInt32.toNat_sub, wrap_toNat, wrap_toNat]
  omega

/-- Two close counts are equal exactly when their cursors are. -/
theorem wrap_inj {low high : ℕ} (hle : low ≤ high) (hclose : high - low < 2 ^ 32) :
    wrap low = wrap high ↔ low = high := by
  rw [← UInt32.toNat_inj, wrap_toNat, wrap_toNat]
  omega

/-- Masking a cursor with `2 ^ k - 1` reduces the count modulo `2 ^ k`. -/
theorem wrap_and_mask (count : ℕ) {k : ℕ} (hk : k ≤ 32) :
    (wrap count &&& wrap (2 ^ k - 1)).toNat = count % 2 ^ k := by
  have hpow := Nat.pow_le_pow_right (show 0 < 2 by decide) hk
  have hpos := Nat.two_pow_pos k
  have hmask : 2 ^ k - 1 < 2 ^ 32 := by omega
  rw [UInt32.toNat_and, wrap_toNat, wrap_toNat, Nat.mod_eq_of_lt hmask,
    Nat.and_two_pow_sub_one_eq_mod, Nat.mod_mod_of_dvd _ (Nat.pow_dvd_pow 2 hk)]

/-- The sign of a 32-bit value read as two's complement. -/
theorem toInt32_neg_iff (value : UInt32) :
    value.toInt32 < 0 ↔ 2 ^ 31 ≤ value.toNat := by
  have hlt := value.toNat_lt
  rw [Int32.lt_iff_toInt_lt]
  have hint : value.toInt32.toInt = value.toBitVec.toInt := rfl
  rw [hint, BitVec.toInt_eq_toNat_cond]
  simp only [UInt32.toNat_toBitVec, Int32.toInt_zero]
  split <;> omega

/-- The signed difference of an older count and a newer one is negative, as
long as fewer than `2 ^ 31` counts lie between them. -/
theorem signed_sub_neg_iff {older newer : ℕ} (hle : older ≤ newer)
    (hclose : newer - older < 2 ^ 31) :
    (wrap older - wrap newer).toInt32 < 0 ↔ older < newer := by
  rw [toInt32_neg_iff, UInt32.toNat_sub, wrap_toNat, wrap_toNat]
  omega

end SoftPlc.Math
