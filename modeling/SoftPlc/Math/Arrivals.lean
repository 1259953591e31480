/-
# Numbered frames on a lossy wire

A sender numbers its frames, and the wire may lose, repeat and reorder them. The
receiver keeps the newest. It sees only 16 bits of a number and compares it with
the last one it kept by the sign of the difference. The sign is right as long as no
frame is further from the newest one before it than half of the circle.
-/

import Mathlib.Algebra.Order.Ring.Nat
import Mathlib.Data.List.Basic

namespace SoftPlc.Math

/-- The 16 bits that a frame carries of its number. -/
def serial (number : ℕ) : UInt16 := UInt16.ofNat number

/-- The sign of the difference of two serials tells which number is newer, as long
as fewer than `2 ^ 15` numbers lie between them. -/
theorem serial_sub_nonpos_iff {number newest : ℕ} (hahead : number ≤ newest + (2 ^ 15 - 1))
    (hbehind : newest ≤ number + (2 ^ 15 - 1)) :
    (serial number - serial newest).toInt16 ≤ 0 ↔ number ≤ newest := by
  rw [Int16.le_iff_toInt_le]
  have hint : (serial number - serial newest).toInt16.toInt =
      (serial number - serial newest).toBitVec.toInt := rfl
  rw [hint, BitVec.toInt_eq_toNat_cond]
  simp only [UInt16.toNat_toBitVec, UInt16.toNat_sub, serial, UInt16.toNat_ofNat', Int16.toInt_zero]
  split <;> omega

/-! ## What has arrived -/

/-- Each number is within the window around the highest before it. -/
def Within (window : ℕ) : List ℕ → List ℕ → Prop
  | _, [] => True
  | before, number :: rest =>
      (∀ highest ∈ before.max?, number ≤ highest + window ∧ highest ≤ number + window) ∧
        Within window (before ++ [number]) rest

instance decidableWithin (window : ℕ) : ∀ before numbers, Decidable (Within window before numbers)
  | _, [] => isTrue trivial
  | before, number :: rest =>
      have := decidableWithin window (before ++ [number]) rest
      inferInstanceAs (Decidable (_ ∧ _))

/-- How many numbers are not newer than all before them. -/
def notNewer : List ℕ → List ℕ → ℕ
  | _, [] => 0
  | before, number :: rest =>
      (if ∃ earlier ∈ before, number ≤ earlier then 1 else 0) + notNewer (before ++ [number]) rest

variable {before : List ℕ} {number highest : ℕ}

/-- Something before it is as new, if the highest is. -/
theorem exists_not_newer_iff (hhighest : before.max? = some highest) :
    (∃ earlier ∈ before, number ≤ earlier) ↔ number ≤ highest := by
  obtain ⟨hmem, hbound⟩ := List.max?_eq_some_iff.mp hhighest
  constructor
  · rintro ⟨earlier, hearlier, hle⟩
    exact hle.trans (hbound earlier hearlier)
  · exact fun hle => ⟨highest, hmem, hle⟩

theorem max?_concat_of_le (hhighest : before.max? = some highest) (hle : number ≤ highest) :
    (before ++ [number]).max? = some highest := by
  obtain ⟨hmem, hbound⟩ := List.max?_eq_some_iff.mp hhighest
  apply List.max?_eq_some_iff.mpr
  refine ⟨List.mem_append_left _ hmem, fun other hother => ?_⟩
  rcases List.mem_append.mp hother with hbefore | hlast
  · exact hbound other hbefore
  · exact (List.mem_singleton.mp hlast).trans_le hle

theorem max?_concat_of_newer (hnewer : ∀ earlier ∈ before, earlier ≤ number) :
    (before ++ [number]).max? = some number := by
  apply List.max?_eq_some_iff.mpr
  refine ⟨List.mem_append_right _ (List.mem_singleton_self number), fun other hother => ?_⟩
  rcases List.mem_append.mp hother with hbefore | hlast
  · exact hnewer other hbefore
  · exact (List.mem_singleton.mp hlast).le

end SoftPlc.Math
