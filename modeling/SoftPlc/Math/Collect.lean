/-
# Collecting results that may fail

`collect` asks every element of a list for its results and joins them in order; one
failure fails the whole. The order of the elements decides the order of the results and
nothing else: not whether there are any, and not which.
-/

import Mathlib.Data.List.Forall2
import Mathlib.Data.List.Perm.Basic
import Mathlib.Data.Option.Basic

namespace SoftPlc.Math

universe u v

variable {α : Type u} {β : Type v}

/-- Join two results. -/
def joinResults (first second : Option (List β)) : Option (List β) :=
  first.bind fun found => second.map (found ++ ·)

/-- Join the results of all elements. -/
def collect (results : α → Option (List β)) : List α → Option (List β)
  | [] => some []
  | element :: rest => joinResults (results element) (collect results rest)

/-- The same results in some order, or both failed. -/
abbrev SameResults : Option (List β) → Option (List β) → Prop := Option.Rel List.Perm

theorem SameResults.refl (found : Option (List β)) : SameResults found found := by
  cases found with
  | none => exact .none
  | some found => exact .some (List.Perm.refl found)

theorem SameResults.symm {first second : Option (List β)} (hsame : SameResults first second) :
    SameResults second first := by
  cases hsame with
  | none => exact .none
  | some hperm => exact .some hperm.symm

theorem SameResults.trans {first second third : Option (List β)}
    (hfirst : SameResults first second) (hsecond : SameResults second third) :
    SameResults first third := by
  cases hfirst with
  | none => exact hsecond
  | some hperm =>
      cases hsecond with
      | some hperm' => exact .some (hperm.trans hperm')

theorem SameResults.join {first first' second second' : Option (List β)}
    (hfirst : SameResults first first') (hsecond : SameResults second second') :
    SameResults (joinResults first second) (joinResults first' second') := by
  cases hfirst with
  | none => exact .none
  | some hperm =>
      cases hsecond with
      | none => exact .none
      | some hperm' => exact .some (hperm.append hperm')

/-- Two neighbours may change places. -/
theorem joinResults_swap (first second rest : Option (List β)) :
    SameResults (joinResults first (joinResults second rest))
      (joinResults second (joinResults first rest)) := by
  cases first with
  | none => cases second <;> exact .none
  | some found =>
      cases second with
      | none => exact .none
      | some found' =>
          cases rest with
          | none => exact .none
          | some others =>
              refine .some ?_
              show (found ++ (found' ++ others)).Perm (found' ++ (found ++ others))
              rw [← List.append_assoc, ← List.append_assoc]
              exact List.perm_append_comm.append_right others

/-- Elements with the same results may take each other's place. -/
theorem collect_congr {results results' : α → Option (List β)} {elements elements' : List α}
    (hsame : List.Forall₂ (fun element element' =>
      SameResults (results element) (results' element')) elements elements') :
    SameResults (collect results elements) (collect results' elements') := by
  induction hsame with
  | nil => exact SameResults.refl _
  | cons hfirst _ ih => exact hfirst.join ih

/-- **The order of the elements does not matter.** -/
theorem collect_perm (results : α → Option (List β)) {elements elements' : List α}
    (hperm : elements.Perm elements') :
    SameResults (collect results elements) (collect results elements') := by
  induction hperm with
  | nil => exact SameResults.refl _
  | cons element _ ih => exact (SameResults.refl _).join ih
  | swap element other rest => exact joinResults_swap _ _ _
  | trans _ _ hfirst hsecond => exact hfirst.trans hsecond

/-- Every element on the right stands opposite one on the left. -/
theorem exists_of_forall₂ {related : α → β → Prop} {lefts : List α} {rights : List β}
    (hrelated : List.Forall₂ related lefts rights) {right : β} (hmem : right ∈ rights) :
    ∃ left ∈ lefts, related left right := by
  induction hrelated with
  | nil => cases hmem
  | @cons left other lefts rights hfirst _ ih =>
      rcases List.mem_cons.mp hmem with rfl | hlater
      · exact ⟨left, List.mem_cons_self, hfirst⟩
      · obtain ⟨found, hfound, hright⟩ := ih hlater
        exact ⟨found, List.mem_cons_of_mem _ hfound, hright⟩

end SoftPlc.Math
