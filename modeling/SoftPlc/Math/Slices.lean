/-
# Packed slices of a buffer

A table of blocks is packed when each block starts where the one before it ends.
Writing every block at its own offset then lays them out one after the other,
and reading at a block's offset gives that block back, whatever the buffer held
before.
-/

import SoftPlc.Math.Buffer

namespace SoftPlc.Math

universe u v w

variable {α : Type u} {β : Type v} {γ : Type w}

/-- Each entry starts where the one before it ends, the first at `start`. -/
def Packed (offset size : α → ℕ) : ℕ → List α → Prop
  | _, [] => True
  | start, entry :: rest =>
      offset entry = start ∧ Packed offset size (start + size entry) rest

/-- The bytes at an offset. -/
def slice (buffer : List β) (offset size : ℕ) : List β := (buffer.drop offset).take size

@[simp]
theorem slice_zero (buffer : List β) (offset : ℕ) : slice buffer offset 0 = [] :=
  List.take_zero

/-- The bytes that a table takes up. -/
def totalSize (size : α → ℕ) (table : List α) : ℕ := (table.map size).sum

variable {offset size : α → ℕ}

@[simp]
theorem totalSize_cons (size : α → ℕ) (entry : α) (rest : List α) :
    totalSize size (entry :: rest) = size entry + totalSize size rest := by
  simp [totalSize]

@[simp]
theorem totalSize_concat (size : α → ℕ) (table : List α) (entry : α) :
    totalSize size (table ++ [entry]) = totalSize size table + size entry := by
  simp [totalSize]

/-- A table stays packed when the next entry starts at its end. -/
theorem Packed.concat {start : ℕ} {table : List α} {entry : α}
    (hpacked : Packed offset size start table)
    (hentry : offset entry = start + totalSize size table) :
    Packed offset size start (table ++ [entry]) := by
  induction table generalizing start with
  | nil => exact ⟨hentry, trivial⟩
  | cons first rest ih =>
      obtain ⟨hfirst, hrest⟩ := hpacked
      refine ⟨hfirst, ih hrest ?_⟩
      rw [hentry, totalSize_cons]
      omega

/-- A table is packed if the table it is read from is. -/
theorem Packed.of_map {read : γ → α} {start : ℕ} {table : List γ}
    (hpacked : Packed offset size start (table.map read)) :
    Packed (offset ∘ read) (size ∘ read) start table := by
  induction table generalizing start with
  | nil => trivial
  | cons first rest ih =>
      obtain ⟨hfirst, hrest⟩ := hpacked
      exact ⟨hfirst, ih hrest⟩

/-- An entry of a packed table starts where the entries before it end. -/
theorem Packed.offset_eq {start : ℕ} {front back : List α} {entry : α}
    (hpacked : Packed offset size start (front ++ entry :: back)) :
    offset entry = start + totalSize size front := by
  induction front generalizing start with
  | nil => exact hpacked.1
  | cons first rest ih =>
      rw [ih hpacked.2, totalSize_cons, Nat.add_assoc]

/-- The sizes of a packed table determine its offsets. -/
theorem Packed.offsets_eq {start : ℕ} {first second : List α}
    (hfirst : Packed offset size start first) (hsecond : Packed offset size start second)
    (hsizes : first.map size = second.map size) : first.map offset = second.map offset := by
  induction first generalizing start second with
  | nil =>
      cases second with
      | nil => rfl
      | cons entry rest => cases hsizes
  | cons entry rest ih =>
      cases second with
      | nil => cases hsizes
      | cons other others =>
          obtain ⟨hentry, hrest⟩ := hfirst
          obtain ⟨hother, hothers⟩ := hsecond
          obtain ⟨hsize, hsizes⟩ := List.cons.inj hsizes
          rw [← hsize] at hothers
          rw [List.map_cons, List.map_cons, hentry, hother, ih hrest hothers hsizes]

/-- All numbers but the last, with how many there are and their sum, determine the
last. -/
theorem eq_of_dropLast_eq_of_sum_eq {first second : List ℕ}
    (hlength : first.length = second.length) (hfront : first.dropLast = second.dropLast)
    (hsum : first.sum = second.sum) : first = second := by
  rcases List.eq_nil_or_concat first with rfl | ⟨front, last, rfl⟩
  · exact (List.length_eq_zero_iff.mp hlength.symm).symm
  · rcases List.eq_nil_or_concat second with rfl | ⟨others, other, rfl⟩
    · simp at hlength
    · simp only [List.concat_eq_append, List.dropLast_concat] at hfront hsum ⊢
      subst hfront
      simp only [List.sum_append, List.sum_singleton, Nat.add_left_cancel_iff] at hsum
      rw [hsum]

/-- No entry of a packed table reaches past its end. -/
theorem Packed.end_le {start : ℕ} {table : List α} (hpacked : Packed offset size start table) :
    ∀ entry ∈ table, start ≤ offset entry ∧
      offset entry + size entry ≤ start + totalSize size table := by
  induction table generalizing start with
  | nil => nofun
  | cons first rest ih =>
      obtain ⟨hfirst, hrest⟩ := hpacked
      intro entry hentry
      rw [totalSize_cons]
      rcases List.mem_cons.mp hentry with rfl | hentry
      · omega
      · have hbounds := ih hrest entry hentry
        omega

/-- The entries of a packed table lie one behind the other. -/
theorem Packed.pairwise {start : ℕ} {table : List α} (hpacked : Packed offset size start table) :
    table.Pairwise fun first second => offset first + size first ≤ offset second := by
  induction table generalizing start with
  | nil => exact .nil
  | cons first rest ih =>
      obtain ⟨hfirst, hrest⟩ := hpacked
      apply List.Pairwise.cons _ (ih hrest)
      intro second hsecond
      rw [hfirst]
      exact (hrest.end_le second hsecond).1

/-- The entries of a packed table leave no gap. -/
theorem Packed.exists_mem {start : ℕ} {table : List α} (hpacked : Packed offset size start table)
    {position : ℕ} (hstart : start ≤ position) (hend : position < start + totalSize size table) :
    ∃ entry ∈ table, offset entry ≤ position ∧ position < offset entry + size entry := by
  induction table generalizing start with
  | nil => exact absurd hend (Nat.not_lt.mpr hstart)
  | cons first rest ih =>
      obtain ⟨hfirst, hrest⟩ := hpacked
      rw [totalSize_cons] at hend
      by_cases hinside : position < start + size first
      · exact ⟨first, List.mem_cons_self, hfirst.symm ▸ hstart, hfirst.symm ▸ hinside⟩
      · obtain ⟨entry, hentry, hbounds⟩ := ih hrest (Nat.le_of_not_lt hinside) (by omega)
        exact ⟨entry, List.mem_cons_of_mem _ hentry, hbounds⟩

/-- A table tiles a buffer: each entry starts at the sum of the sizes before it and ends
within the buffer, whose size is the sum of them all, and every position is in the slice of
exactly one entry. -/
structure Tiles (offset size : α → ℕ) (total : ℕ) (table : List α) : Prop where
  offset_eq : ∀ front entry back, table = front ++ entry :: back →
    offset entry = (front.map size).sum
  total_eq : total = (table.map size).sum
  within : ∀ entry ∈ table, offset entry + size entry ≤ total
  covers : ∀ position < total, ∃! index : Fin table.length,
    offset table[index] ≤ position ∧ position < offset table[index] + size table[index]

theorem Packed.tiles {table : List α} (hpacked : Packed offset size 0 table) :
    Tiles offset size (totalSize size table) table where
  offset_eq := by
    rintro front entry back rfl
    rw [hpacked.offset_eq, Nat.zero_add, totalSize]
  total_eq := rfl
  within := by
    intro entry hentry
    have hend := (hpacked.end_le entry hentry).2
    omega
  covers := by
    intro position hposition
    obtain ⟨entry, hentry, hinside⟩ :=
      hpacked.exists_mem (Nat.zero_le position) (by rw [Nat.zero_add]; exact hposition)
    obtain ⟨index, hindex, rfl⟩ := List.mem_iff_getElem.mp hentry
    refine ⟨⟨index, hindex⟩, hinside, ?_⟩
    rintro ⟨other, hother⟩ hboth
    -- of two different entries, the earlier one ends before the later one starts
    have hordered := List.pairwise_iff_getElem.mp hpacked.pairwise
    dsimp only [Fin.getElem_fin] at hboth
    apply Fin.ext
    rcases Nat.lt_trichotomy other index with hlt | heq | hgt
    · have hle := hordered other index hother hindex hlt
      omega
    · exact heq
    · have hle := hordered index other hindex hother hgt
      omega

/-- Writing at the end of what is already written. -/
theorem memcpy_at_end (written rest block : List β) :
    memcpy (written ++ rest) written.length block block.length =
      written ++ block ++ rest.drop block.length := by
  simp [memcpy, List.drop_append]

/-- **Laying out a packed table.** Writing each block at its offset puts the
blocks one after the other behind what was already written. -/
theorem foldl_memcpy_packed {block : α → List β} (written : List β) {table : List α}
    (hpacked : Packed offset size written.length table)
    (hblock : ∀ entry ∈ table, (block entry).length = size entry) (rest : List β) :
    table.foldl (fun buffer entry => memcpy buffer (offset entry) (block entry) (size entry))
        (written ++ rest) =
      written ++ (table.map block).flatten ++ rest.drop (totalSize size table) := by
  induction table generalizing written rest with
  | nil => simp [totalSize]
  | cons entry others ih =>
      obtain ⟨hoffset, hothers⟩ := hpacked
      have hsize := hblock entry List.mem_cons_self
      have hpackedRest : Packed offset size (written ++ block entry).length others := by
        rw [List.length_append, hsize]
        exact hothers
      rw [List.foldl_cons, hoffset, ← hsize, memcpy_at_end,
        ih _ hpackedRest (fun other hother => hblock other (List.mem_cons_of_mem _ hother))]
      rw [totalSize_cons, ← hsize, List.drop_drop]
      simp

/-- **Reading a packed table.** In blocks laid out one after the other, each stands
at its offset. -/
theorem slice_flatten_packed {block : α → List β} (written : List β) {table : List α}
    (hpacked : Packed offset size written.length table)
    (hblock : ∀ entry ∈ table, (block entry).length = size entry) (rest : List β) :
    ∀ entry ∈ table,
      ((written ++ (table.map block).flatten ++ rest).drop (offset entry)).take (size entry) =
        block entry := by
  induction table generalizing written with
  | nil => nofun
  | cons first others ih =>
      obtain ⟨hoffset, hothers⟩ := hpacked
      have hsize := hblock first List.mem_cons_self
      intro entry hentry
      rcases List.mem_cons.mp hentry with rfl | hentry
      · rw [hoffset, ← hsize]
        simp
      · have hpackedRest : Packed offset size (written ++ block first).length others := by
          rw [List.length_append, hsize]
          exact hothers
        have hslice := ih _ hpackedRest
          (fun other hother => hblock other (List.mem_cons_of_mem _ hother)) entry hentry
        simpa using hslice

/-- Blocks laid out one after the other take up the total size. -/
theorem length_flatten_blocks {block : α → List β} {table : List α}
    (hblock : ∀ entry ∈ table, (block entry).length = size entry) :
    (table.map block).flatten.length = totalSize size table := by
  rw [List.length_flatten, List.map_map, totalSize]
  exact congrArg List.sum (List.map_congr_left hblock)

/-- Layouts that differ in one block, of the same size in both, differ only inside
that block. -/
theorem getElem?_flatten_of_outside (front back : List (List β)) {first second : List β}
    (hlength : first.length = second.length) {position : ℕ}
    (houtside : ¬ (front.flatten.length ≤ position ∧
      position < front.flatten.length + first.length)) :
    (front ++ first :: back).flatten[position]? = (front ++ second :: back).flatten[position]? := by
  simp only [List.flatten_append, List.flatten_cons]
  by_cases hbefore : position < front.flatten.length
  · rw [List.getElem?_append_left hbefore, List.getElem?_append_left hbefore]
  · have hstart : front.flatten.length ≤ position := Nat.le_of_not_lt hbefore
    have hend : first.length ≤ position - front.flatten.length := by omega
    rw [List.getElem?_append_right hstart, List.getElem?_append_right hstart,
      List.getElem?_append_right hend, List.getElem?_append_right (hlength ▸ hend), hlength]

/-- Lists that agree outside one place are the same around it. -/
theorem split_of_eq_outside {first second : List α} {place : ℕ} {before after : α}
    (hfirst : first[place]? = some before) (hsecond : second[place]? = some after)
    (hsame : ∀ other, other ≠ place → second[other]? = first[other]?) :
    ∃ front back, front.length = place ∧ first = front ++ before :: back ∧
      second = front ++ after :: back := by
  obtain ⟨hlt, rfl⟩ := List.getElem?_eq_some_iff.mp hfirst
  have hset : second = first.set place after := by
    apply List.ext_getElem?
    intro other
    by_cases hother : other = place
    · rw [hother, hsecond, List.getElem?_set_self hlt]
    · rw [hsame other hother, List.getElem?_set_ne (Ne.symm hother)]
  refine ⟨first.take place, first.drop (place + 1), List.length_take_of_le (Nat.le_of_lt hlt),
    ?_, ?_⟩
  · rw [List.getElem_cons_drop, List.take_append_drop]
  · rw [hset, List.set_eq_take_append_cons_drop, if_pos hlt]

end SoftPlc.Math
