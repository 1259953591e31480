/-
# A relay of two cells

One party puts values into a front cell, the front is passed on to a back cell now and
then, and values are taken from the back. A value may be passed over and a value may be
taken several times, but what is taken was put, and later takes never go back to an
earlier value. `Sampled` is that relation between the list of values put and the list
of values taken.
-/

import Mathlib.Algebra.Order.Ring.Nat
import Mathlib.Data.List.Forall2
import Mathlib.Data.List.Induction
import Mathlib.Data.List.NodupEquivFin

namespace SoftPlc.Math

universe u v w

variable {α : Type u}

/-- The values seen are values of the list, in its order, each any number of times, and
none behind a place. -/
def SampledTo (place : ℕ) (values seen : List α) : Prop :=
  ∃ places : List ℕ, places.Pairwise (· ≤ ·) ∧ (∀ earlier ∈ places, earlier ≤ place) ∧
    List.Forall₂ (fun place value => values[place]? = some value) places seen

/-- The values seen are values of the list, in its order, each any number of times. -/
def Sampled (values seen : List α) : Prop := ∃ place, SampledTo place values seen

namespace SampledTo

variable {place later : ℕ} {values seen : List α} {value : α}

theorem nil (place : ℕ) (values : List α) : SampledTo place values [] :=
  ⟨[], .nil, by simp, .nil⟩

theorem mono (h : SampledTo place values seen) (hle : place ≤ later) :
    SampledTo later values seen := by
  obtain ⟨places, hordered, hbound, hseen⟩ := h
  exact ⟨places, hordered, fun earlier hearlier => (hbound earlier hearlier).trans hle, hseen⟩

/-- New values do not disturb the old ones. -/
theorem append (h : SampledTo place values seen) (more : List α) :
    SampledTo place (values ++ more) seen := by
  obtain ⟨places, hordered, hbound, hseen⟩ := h
  refine ⟨places, hordered, hbound, hseen.imp ?_⟩
  intro earlier value hvalue
  obtain ⟨hlt, -⟩ := List.getElem?_eq_some_iff.mp hvalue
  rw [List.getElem?_append_left hlt]
  exact hvalue

theorem take (h : SampledTo place values seen) (hvalue : values[place]? = some value) :
    SampledTo place values (seen ++ [value]) := by
  obtain ⟨places, hordered, hbound, hseen⟩ := h
  refine ⟨places ++ [place], ?_, ?_, ?_⟩
  · apply List.pairwise_append.mpr
    refine ⟨hordered, List.pairwise_singleton _ _, ?_⟩
    intro earlier hearlier last hlast
    rw [List.mem_singleton.mp hlast]
    exact hbound earlier hearlier
  · intro earlier hearlier
    obtain hold | hlast := List.mem_append.mp hearlier
    · exact hbound earlier hold
    · exact (List.mem_singleton.mp hlast).le
  · exact List.rel_append hseen (.cons hvalue .nil)

end SampledTo

/-- The partners of a part are a part of the partners. -/
theorem exists_sublist_of_forall₂ {ι : Type v} {rel : α → ι → Prop} {items : List α}
    {wanted part : List ι} (h : List.Forall₂ rel items wanted) (hpart : part.Sublist wanted) :
    ∃ found : List α, found.Sublist items ∧ List.Forall₂ rel found part := by
  induction hpart generalizing items with
  | slnil => exact ⟨[], List.nil_sublist _, .nil⟩
  | cons want hpart ih =>
      cases h with
      | cons hrel hrest =>
          obtain ⟨found, hfound, hrels⟩ := ih hrest
          exact ⟨found, hfound.cons _, hrels⟩
  | cons_cons want hpart ih =>
      cases h with
      | cons hrel hrest =>
          obtain ⟨found, hfound, hrels⟩ := ih hrest
          exact ⟨_ :: found, hfound.cons_cons _, .cons hrel hrels⟩

/-- Less was seen. -/
theorem Sampled.sublist {values seen whole : List α} (h : Sampled values whole)
    (hseen : seen.Sublist whole) : Sampled values seen := by
  obtain ⟨place, places, hordered, hbound, hwhole⟩ := h
  obtain ⟨fewer, hfewer, hpart⟩ := exists_sublist_of_forall₂ hwhole hseen
  exact ⟨place, fewer, hordered.sublist hfewer,
    fun earlier hearlier => hbound earlier (hfewer.subset hearlier), hpart⟩

/-- Seen of some values is seen of more values. -/
theorem Sampled.of_sublist {values more seen : List α} (h : Sampled values seen)
    (hmore : values.Sublist more) : Sampled more seen := by
  obtain ⟨place, places, hordered, hbound, hseen⟩ := h
  obtain ⟨embed, hembed⟩ := List.sublist_iff_exists_orderEmbedding_getElem?_eq.mp hmore
  refine ⟨embed place, places.map embed, ?_, ?_, ?_⟩
  · exact List.pairwise_map.mpr (hordered.imp fun hle => embed.monotone hle)
  · intro later hlater
    obtain ⟨earlier, hearlier, rfl⟩ := List.mem_map.mp hlater
    exact embed.monotone (hbound earlier hearlier)
  · apply List.forall₂_map_left_iff.mpr
    apply hseen.imp
    intro earlier value hvalue
    rw [← hembed]
    exact hvalue

/-- Two lists with increasing keys. If each item of the second has a partner with its key
in the first, the partners are a sublist of the first. -/
theorem exists_sublist_of_keys {ι : Type v} {rel : α → ι → Prop} {key : α → ℕ} {mark : ι → ℕ}
    {items : List α} {wanted : List ι} (hitems : items.Pairwise fun a b => key a < key b)
    (hwanted : wanted.Pairwise fun a b => mark a < mark b)
    (hpartner : ∀ want ∈ wanted, ∃ item ∈ items, key item = mark want ∧ rel item want) :
    ∃ found : List α, found.Sublist items ∧ List.Forall₂ rel found wanted := by
  induction wanted generalizing items with
  | nil => exact ⟨[], List.nil_sublist _, .nil⟩
  | cons want rest ih =>
      obtain ⟨item, hmem, hkey, hrel⟩ := hpartner want List.mem_cons_self
      obtain ⟨front, back, rfl⟩ := List.append_of_mem hmem
      obtain ⟨-, hback, hcross⟩ := List.pairwise_append.mp hitems
      obtain ⟨hlater, hrest⟩ := List.pairwise_cons.mp hwanted
      -- a later item has a greater key, so its partner is not in front
      have hothers : ∀ other ∈ rest, ∃ item ∈ back, key item = mark other ∧ rel item other := by
        intro other hother
        obtain ⟨partner, hpartnerMem, hpartnerKey, hpartnerRel⟩ :=
          hpartner other (List.mem_cons_of_mem want hother)
        have hlt : key item < key partner := by
          rw [hkey, hpartnerKey]
          exact hlater other hother
        refine ⟨partner, ?_, hpartnerKey, hpartnerRel⟩
        obtain hfront | hsecond := List.mem_append.mp hpartnerMem
        · exact absurd (hcross partner hfront item List.mem_cons_self) (Nat.lt_asymm hlt)
        · obtain rfl | hin := List.mem_cons.mp hsecond
          · exact absurd hlt (Nat.lt_irrefl _)
          · exact hin
      obtain ⟨found, hfound, hrels⟩ := ih (List.pairwise_cons.mp hback).2 hrest hothers
      refine ⟨item :: found, ?_, .cons hrel hrels⟩
      exact (hfound.cons_cons item).trans (List.sublist_append_right _ _)

/-- The two cells, and what was taken. -/
structure Relay (α : Type u) where
  front : α
  back : α
  log : List α

/-- Put a value in front, pass the front on, take the back. -/
inductive RelayAct (α : Type u)
  | put (value : α)
  | pass
  | take

/-- The value an act puts. -/
def RelayAct.value? : RelayAct α → Option α
  | .put value => some value
  | .pass | .take => none

namespace Relay

def step (relay : Relay α) : RelayAct α → Relay α
  | .put value => { relay with front := value }
  | .pass => { relay with back := relay.front }
  | .take => { relay with log := relay.log ++ [relay.back] }

/-- Where the cells stand in the list of values put. -/
structure Follows (relay : Relay α) (values : List α) : Prop where
  front : values.getLast? = some relay.front
  back : ∃ place, values[place]? = some relay.back ∧ SampledTo place values relay.log

namespace Follows

variable {relay : Relay α} {values : List α}

theorem start (initial : α) : Follows ⟨initial, initial, []⟩ [initial] :=
  ⟨rfl, 0, rfl, SampledTo.nil 0 [initial]⟩

theorem put (h : Follows relay values) (value : α) :
    Follows (relay.step (.put value)) (values ++ [value]) := by
  obtain ⟨-, place, hback, hlog⟩ := h
  obtain ⟨hlt, -⟩ := List.getElem?_eq_some_iff.mp hback
  refine ⟨List.getLast?_concat, place, ?_, hlog.append [value]⟩
  rw [List.getElem?_append_left hlt]
  exact hback

theorem pass (h : Follows relay values) : Follows (relay.step .pass) values := by
  obtain ⟨hfront, place, hback, hlog⟩ := h
  have hlast := hfront
  rw [List.getLast?_eq_getElem?] at hlast
  obtain ⟨hlt, -⟩ := List.getElem?_eq_some_iff.mp hback
  exact ⟨hfront, _, hlast, hlog.mono (Nat.le_sub_one_of_lt hlt)⟩

theorem take (h : Follows relay values) : Follows (relay.step .take) values := by
  obtain ⟨hfront, place, hback, hlog⟩ := h
  exact ⟨hfront, place, hback, hlog.take hback⟩

/-- What was taken so far. -/
theorem sampled (h : Follows relay values) : Sampled values relay.log := by
  obtain ⟨-, place, -, hlog⟩ := h
  exact ⟨place, hlog⟩

end Follows

theorem follows (initial : α) (acts : List (RelayAct α)) :
    Follows (acts.foldl step ⟨initial, initial, []⟩)
      (initial :: acts.filterMap RelayAct.value?) := by
  induction acts using List.reverseRecOn with
  | nil => exact Follows.start initial
  | append_singleton acts act ih =>
      rw [List.foldl_append, List.filterMap_append, ← List.cons_append]
      cases act with
      | put value => exact ih.put value
      | pass =>
          rw [List.filterMap_cons_none rfl, List.filterMap_nil, List.append_nil]
          exact ih.pass
      | take =>
          rw [List.filterMap_cons_none rfl, List.filterMap_nil, List.append_nil]
          exact ih.take

/-- **What is taken was put, in order.** -/
theorem sampled (initial : α) (acts : List (RelayAct α)) :
    Sampled (initial :: acts.filterMap RelayAct.value?)
      (acts.foldl step ⟨initial, initial, []⟩).log :=
  (follows initial acts).sampled

/-- A machine that shows a relay: each of its moves is an act of the relay or leaves the
relay alone. Then its runs are runs of the relay. -/
theorem shown_by {σ : Type v} {ω : Type w} {move : σ → ω → σ} {relay : σ → Relay α}
    {act : ω → Option (RelayAct α)} {allowed : ω → Prop} {keep : σ → Prop}
    (hkeep : ∀ state op, keep state → allowed op → keep (move state op))
    (hshow : ∀ state op, keep state → allowed op →
      relay (move state op) = (act op).elim (relay state) (relay state).step)
    {ops : List ω} (hops : ∀ op ∈ ops, allowed op) (state : σ) (hstate : keep state) :
    relay (ops.foldl move state) = (ops.filterMap act).foldl step (relay state) := by
  induction ops generalizing state with
  | nil => rfl
  | cons op rest ih =>
      obtain ⟨hop, hrest⟩ := List.forall_mem_cons.mp hops
      have hone := hshow state op hstate hop
      rw [List.foldl_cons, ih hrest _ (hkeep state op hstate hop), hone]
      cases hact : act op with
      | none => rw [List.filterMap_cons_none hact, Option.elim_none]
      | some first => rw [List.filterMap_cons_some hact, Option.elim_some, List.foldl_cons]

end Relay

end SoftPlc.Math
