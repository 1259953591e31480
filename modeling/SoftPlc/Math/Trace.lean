/-
# Traces of deterministic machines and their simulation

A machine here answers every input with a new state and one output. The trace of
an input list is the final state with the list of outputs. One machine follows
another when related states answer related inputs alike and stay related; what
an input means to the abstract machine may depend on the concrete state it
arrives in, so the abstract inputs are read off along the run.
-/

import Mathlib.Data.List.Basic

namespace SoftPlc.Math

universe u v w x y

variable {σ : Type u} {ι : Type v} {ο : Type w} {τ : Type x} {κ : Type y}

/-- The final state and the outputs of a machine on a list of inputs. -/
def trace (step : σ → ι → σ × ο) : σ → List ι → σ × List ο
  | state, [] => (state, [])
  | state, input :: rest =>
      ((trace step (step state input).1 rest).1,
        (step state input).2 :: (trace step (step state input).1 rest).2)

/-- What the inputs mean, each in the state it arrives in. -/
def viewed (step : σ → ι → σ × ο) (view : σ → ι → κ) : σ → List ι → List κ
  | _, [] => []
  | state, input :: rest => view state input :: viewed step view (step state input).1 rest

/-- Every input satisfies `ok` in the state it arrives in. -/
def Along (step : σ → ι → σ × ο) (ok : σ → ι → Prop) : σ → List ι → Prop
  | _, [] => True
  | state, input :: rest => ok state input ∧ Along step ok (step state input).1 rest

/-- The last input of a trace. -/
theorem trace_concat (step : σ → ι → σ × ο) (state : σ) (inputs : List ι) (input : ι) :
    trace step state (inputs ++ [input]) =
      ((step (trace step state inputs).1 input).1,
        (trace step state inputs).2 ++ [(step (trace step state inputs).1 input).2]) := by
  induction inputs generalizing state with
  | nil => rfl
  | cons first rest ih => simp only [List.cons_append, trace, ih]

/-- **Simulation.** If related states answer every admissible input with the same
output and stay related, then whole traces have the same outputs. What `related`
guarantees of one output holds of all of them. -/
theorem trace_simulates {step : σ → ι → σ × ο} {spec : τ → κ → τ × ο} {view : σ → ι → κ}
    {admits : ι → Prop} {ok : τ → κ → Prop} (related : σ → τ → Prop) (good : ο → Prop)
    (hstep : ∀ state abstract input, related state abstract → admits input →
      ok abstract (view state input) →
      (step state input).2 = (spec abstract (view state input)).2 ∧
        good (step state input).2 ∧
        related (step state input).1 (spec abstract (view state input)).1)
    {state : σ} {abstract : τ} {inputs : List ι} (hrelated : related state abstract)
    (hadmits : ∀ input ∈ inputs, admits input)
    (hok : Along spec ok abstract (viewed step view state inputs)) :
    (trace step state inputs).2 = (trace spec abstract (viewed step view state inputs)).2 ∧
      (∀ output ∈ (trace step state inputs).2, good output) ∧
      related (trace step state inputs).1
        (trace spec abstract (viewed step view state inputs)).1 := by
  induction inputs generalizing state abstract with
  | nil => exact ⟨rfl, nofun, hrelated⟩
  | cons input rest ih =>
      obtain ⟨hfirst, hlater⟩ := hok
      obtain ⟨houtput, hgood, hnext⟩ :=
        hstep state abstract input hrelated (hadmits input List.mem_cons_self) hfirst
      obtain ⟨houtputs, hgoods, hfinal⟩ := ih hnext
        (fun other hother => hadmits other (List.mem_cons_of_mem _ hother)) hlater
      refine ⟨?_, ?_, hfinal⟩
      · simp only [trace, viewed, houtput, houtputs]
      · intro output hmem
        rcases List.mem_cons.mp hmem with rfl | hmem
        · exact hgood
        · exact hgoods output hmem

/-- What does not depend on the state can be read off the inputs. -/
theorem map_viewed {ν : Type y} (step : σ → ι → σ × ο) (view : σ → ι → κ) (read : κ → ν)
    {plain : ι → ν} (hplain : ∀ state input, read (view state input) = plain input)
    (state : σ) (inputs : List ι) :
    (viewed step view state inputs).map read = inputs.map plain := by
  induction inputs generalizing state with
  | nil => rfl
  | cons input rest ih => simp only [viewed, List.map_cons, hplain, ih]

end SoftPlc.Math
