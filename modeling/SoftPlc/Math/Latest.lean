/-
# The latest value written

A write defines some places of a memory and leaves the others. What a place holds
after a sequence of writes is what the last of them that defines it has put there, or
what it held at first. A component keeps such a memory if each of its operations
changes what can be seen of it as a write does.
-/

import Mathlib.Algebra.Order.Ring.Nat
import Mathlib.Data.List.Induction

namespace SoftPlc.Math

universe u v

variable {ℓ σ ω : Type u} {ν : Type v}

/-- What a place holds after a sequence of writes. -/
def latest (initial : ℓ → ν) (writes : List (ℓ → Option ν)) (place : ℓ) : ν :=
  (writes.reverse.findSome? fun write => write place).getD (initial place)

theorem latest_concat (initial : ℓ → ν) (writes : List (ℓ → Option ν)) (write : ℓ → Option ν)
    (place : ℓ) :
    latest initial (writes ++ [write]) place =
      (write place).getD (latest initial writes place) := by
  rw [latest, List.reverse_append, List.reverse_singleton, List.singleton_append,
    List.findSome?_cons]
  cases write place with
  | none => rfl
  | some value => rfl

/-- A component whose every operation is seen as a write is a memory. -/
theorem foldl_latest {step : σ → ω → σ} {view : σ → ℓ → ν} {effect : ω → ℓ → Option ν}
    {inv : σ → Prop} (preserved : ∀ state act, inv state → inv (step state act))
    (effective : ∀ state act place, inv state →
      view (step state act) place = (effect act place).getD (view state place))
    {start : σ} (hstart : inv start) (acts : List ω) :
    inv (acts.foldl step start) ∧
      ∀ place, view (acts.foldl step start) place =
        latest (view start) (acts.map effect) place := by
  induction acts using List.reverseRecOn with
  | nil => exact ⟨hstart, fun place => rfl⟩
  | append_singleton acts act ih =>
      obtain ⟨hinv, hview⟩ := ih
      rw [List.foldl_append, List.foldl_cons, List.foldl_nil, List.map_append, List.map_singleton]
      refine ⟨preserved _ act hinv, fun place => ?_⟩
      rw [effective _ act place hinv, hview place, latest_concat]

end SoftPlc.Math
