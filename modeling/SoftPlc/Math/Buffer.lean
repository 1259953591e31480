/-
# Byte buffers under `memcpy` and `memset`

A C buffer is a list, and the two block operations overwrite a range of it and
leave the rest. Both take the destination offset explicitly, so a write through
`dst + offset` is a write at `offset`. The lemmas say when a sequence of writes
has defined the whole buffer, which is what makes a result independent of what
the buffer held before.
-/

import Mathlib.Algebra.Order.Ring.Nat
import Mathlib.Data.List.Basic
import Mathlib.Data.List.TakeDrop

namespace SoftPlc.Math

universe u

variable {β : Type u}

/-- `memcpy(dst + offset, src, n)`. -/
def memcpy (dst : List β) (offset : ℕ) (src : List β) (n : ℕ) : List β :=
  dst.take offset ++ src.take n ++ dst.drop (offset + n)

/-- `memset(dst + offset, value, n)`. -/
def memset (dst : List β) (offset : ℕ) (value : β) (n : ℕ) : List β :=
  memcpy dst offset (List.replicate n value) n

/-- Cut a block to `n` bytes, or extend it to `n` bytes with `fill`. -/
def fit (fill : β) (block : List β) (n : ℕ) : List β :=
  block.take n ++ List.replicate (n - block.length) fill

@[simp]
theorem fit_length (fill : β) (block : List β) (n : ℕ) : (fit fill block n).length = n := by
  simp only [fit, List.length_append, List.length_take, List.length_replicate]
  omega

/-- Fitting a block keeps its head. -/
theorem take_fit (fill : β) {block : List β} {n k : ℕ} (hfits : k ≤ n) (hblock : k ≤ block.length) :
    (fit fill block n).take k = block.take k := by
  have hcut : k ≤ (block.take n).length := by
    rw [List.length_take]
    omega
  rw [fit, List.take_append_of_le_length hcut, List.take_take, Nat.min_eq_left hfits]

/-- Copying over the start of a buffer makes the copied bytes its prefix. -/
theorem take_memcpy_zero (dst : List β) {src : List β} {n : ℕ} (hsrc : n ≤ src.length) :
    (memcpy dst 0 src n).take n = src.take n := by
  have hlength : (src.take n).length = n := List.length_take_of_le hsrc
  simp only [memcpy, List.take_zero, List.nil_append]
  rw [List.take_append_of_le_length (Nat.le_of_eq hlength.symm),
    List.take_of_length_le (Nat.le_of_eq hlength)]

/-- Copying within a buffer keeps its size. -/
theorem memcpy_length {dst src : List β} {offset n : ℕ} (hsrc : n ≤ src.length)
    (hdst : offset + n ≤ dst.length) : (memcpy dst offset src n).length = dst.length := by
  simp only [memcpy, List.length_append, List.length_take, List.length_drop]
  omega

theorem memcpy_zero_length {dst src : List β} {n : ℕ} (hsrc : n ≤ src.length)
    (hdst : n ≤ dst.length) : (memcpy dst 0 src n).length = dst.length :=
  memcpy_length hsrc (by rwa [Nat.zero_add])

/-- A copy within a buffer defines the bytes it copies and no others. -/
theorem getD_memcpy {dst src : List β} {offset n : ℕ} (hsrc : n ≤ src.length)
    (hdst : offset + n ≤ dst.length) (place : ℕ) (fill : β) :
    (memcpy dst offset src n).getD place fill =
      if offset ≤ place ∧ place < offset + n then src.getD (place - offset) fill
      else dst.getD place fill := by
  have hfront : (dst.take offset).length = offset := List.length_take_of_le (by omega)
  have hcopied : (dst.take offset ++ src.take n).length = offset + n := by
    rw [List.length_append, hfront, List.length_take_of_le hsrc]
  simp only [memcpy, List.getD_eq_getElem?_getD]
  split_ifs with hinside
  · rw [List.getElem?_append_left (by omega), List.getElem?_append_right (by omega), hfront,
      List.getElem?_take_of_lt (by omega)]
  · rcases Nat.lt_or_ge place offset with hbefore | hafter
    · rw [List.getElem?_append_left (by omega), List.getElem?_append_left (by omega),
        List.getElem?_take_of_lt hbefore]
    · rw [List.getElem?_append_right (by omega), hcopied, List.getElem?_drop,
        Nat.add_sub_cancel' (by omega)]

/-- A copy over the whole buffer does not depend on what the buffer held. -/
theorem memcpy_all {dst : List β} (src : List β) {n : ℕ} (hdst : dst.length = n) :
    memcpy dst 0 src n = src.take n := by
  simp [memcpy, ← hdst]

/-- Clearing a whole buffer. -/
theorem memset_all {dst : List β} (value : β) {n : ℕ} (hdst : dst.length = n) :
    memset dst 0 value n = List.replicate n value := by
  simp [memset, memcpy_all _ hdst]

/-- Copying what there is and clearing the rest defines the whole buffer. -/
theorem memset_memcpy_eq_fit {dst : List β} (src : List β) (value : β) {n : ℕ}
    (hdst : dst.length = n) :
    memset (memcpy dst 0 src (min src.length n)) (min src.length n) value
        (n - min src.length n) = fit value src n := by
  rcases Nat.le_total src.length n with hle | hle
  · have hend : n ≤ src.length + (n - src.length) := by omega
    simp [memset, memcpy, fit, hdst, Nat.min_eq_left hle, List.take_of_length_le hle, hend]
  · simp [memset, memcpy, fit, hdst, Nat.min_eq_right hle, Nat.sub_eq_zero_of_le hle]

/-- Writing one element after the other is copying a block. -/
theorem foldl_set_range {dst : List β} {offset n : ℕ} (item : ℕ → β)
    (hdst : offset + n ≤ dst.length) :
    (List.range n).foldl (fun buffer i => buffer.set (offset + i) (item i)) dst =
      memcpy dst offset ((List.range n).map item) n := by
  induction n with
  | zero => simp [memcpy]
  | succ n ih =>
      have hplace : offset + n < dst.length := by omega
      have hfront : (dst.take offset ++ (List.range n).map item).length = offset + n := by
        rw [List.length_append, List.length_take_of_le (by omega), List.length_map,
          List.length_range]
      have hwhole : ∀ k, ((List.range k).map item).take k = (List.range k).map item := by
        intro k
        exact List.take_of_length_le (by simp)
      rw [List.range_succ, List.foldl_append, ih (by omega), ← List.range_succ]
      simp only [memcpy, hwhole, List.foldl_cons, List.foldl_nil]
      rw [List.drop_eq_getElem_cons hplace, List.set_append_right _ _ (by omega), hfront,
        Nat.sub_self, List.set_cons_zero, List.range_succ, List.map_append]
      simp [Nat.add_assoc]

end SoftPlc.Math
