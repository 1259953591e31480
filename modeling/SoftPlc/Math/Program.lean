/-
# Programs that share a state

A program is a tree of requests. Each request changes a shared state at once and
is answered; between two requests other programs may have changed that state too.
The tree has no loops, so a program that is left alone always ends.

What a program achieves among others is proved by rely and guarantee. The proof
says what the others may do to the state between two requests, and what every
request of the program itself does to it. A fact about the state can be carried
from one request to the next when nothing the others do destroys it.
-/

import Mathlib.Algebra.Order.Ring.Nat
import Mathlib.Logic.Relation

namespace SoftPlc.Math

/-- A program with requests in `κ`, answers in `ρ`, and a result in `α`. -/
inductive Program (κ : Type) (ρ : κ → Type) (α : Type)
  | done (value : α)
  | call (request : κ) (resume : ρ request → Program κ ρ α)

namespace Program

variable {κ : Type} {ρ : κ → Type} {α β σ χ : Type}

/-- One program after another. -/
protected def bind : Program κ ρ α → (α → Program κ ρ β) → Program κ ρ β
  | .done value, next => next value
  | .call request resume, next => .call request fun answer => (resume answer).bind next

instance : Monad (Program κ ρ) where
  pure := .done
  bind := Program.bind

/-- The program that makes one request. -/
def ask (request : κ) : Program κ ρ (ρ request) := .call request .done

@[simp]
theorem pure_eq_done (value : α) : (pure value : Program κ ρ α) = .done value := rfl

@[simp]
theorem ask_bind (request : κ) (next : ρ request → Program κ ρ α) :
    (ask request >>= next) = .call request next := rfl

@[simp]
theorem done_bind (value : α) (next : α → Program κ ρ β) :
    (.done value >>= next : Program κ ρ β) = next value := rfl

@[simp]
theorem call_bind (request : κ) (resume : ρ request → Program κ ρ α) (next : α → Program κ ρ β) :
    (.call request resume >>= next : Program κ ρ β) =
      .call request fun answer => resume answer >>= next := rfl

/-- The result of a program that has ended. -/
def result : Program κ ρ α → Option α
  | .done value => some value
  | .call _ _ => none

/-! ## Execution -/

section Execution

variable (perform : (request : κ) → χ → σ → ρ request × σ)

/-- The next request of a program. The environment may have a choice in it. -/
def advance (choice : χ) : Program κ ρ α → σ → Option (Program κ ρ α × σ)
  | .done _, _ => none
  | .call request resume, state =>
      let (answer, next) := perform request choice state
      some (resume answer, next)

/-- A program that is left alone. The choices are taken in order; `fallback` is
what is chosen when they run out. -/
def run (fallback : χ) : List χ → Program κ ρ α → σ → α × σ
  | _, .done value, state => (value, state)
  | choices, .call request resume, state =>
      let (answer, next) := perform request (choices.headD fallback) state
      run fallback choices.tail (resume answer) next

end Execution

/-! ## Any answers -/

/-- A program whose requests may be answered in any way: what it asked and was told, from
a number on, and its result. -/
def answered (answers : ℕ → (request : κ) → ρ request) :
    ℕ → Program κ ρ α → List (Sigma ρ) × α
  | _, .done value => ([], value)
  | index, .call request resume =>
      let answer := answers index request
      let (log, value) := answered answers (index + 1) (resume answer)
      (⟨request, answer⟩ :: log, value)

theorem answered_call (answers : ℕ → (request : κ) → ρ request) (index : ℕ) (request : κ)
    (resume : ρ request → Program κ ρ α) :
    (Program.call request resume).answered answers index =
      (⟨request, answers index request⟩ ::
          ((resume (answers index request)).answered answers (index + 1)).1,
        ((resume (answers index request)).answered answers (index + 1)).2) := rfl

/-- Whatever the answers, what is asked and told and the result of a program satisfy
`post`. -/
def Always (post : List (Sigma ρ) → α → Prop) : Program κ ρ α → Prop
  | .done value => post [] value
  | .call request resume =>
      ∀ answer, Always (fun log value => post (⟨request, answer⟩ :: log) value) (resume answer)

theorem always_call {post : List (Sigma ρ) → α → Prop} {request : κ}
    {resume : ρ request → Program κ ρ α}
    (h : ∀ answer, (resume answer).Always fun log value => post (⟨request, answer⟩ :: log) value) :
    (Program.call request resume).Always post := h

theorem Always.answered {post : List (Sigma ρ) → α → Prop} {program : Program κ ρ α}
    (h : program.Always post) (answers : ℕ → (request : κ) → ρ request) (index : ℕ) :
    post (program.answered answers index).1 (program.answered answers index).2 := by
  induction program generalizing post index with
  | done value => exact h
  | call request resume ih => exact ih (answers index request) (h _) (index + 1)

/-- Every request of the program is of an allowed kind, whatever the answers. -/
def Uses (allowed : κ → Prop) : Program κ ρ α → Prop
  | .done _ => True
  | .call request resume => allowed request ∧ ∀ answer, (resume answer).Uses allowed

theorem Uses.advanced {perform : (request : κ) → χ → σ → ρ request × σ} {allowed : κ → Prop}
    {program rest : Program κ ρ α} (h : program.Uses allowed) {choice : χ} {state later : σ}
    (hadvance : program.advance perform choice state = some (rest, later)) :
    rest.Uses allowed := by
  cases program with
  | done value => cases hadvance
  | call request resume =>
      cases hadvance
      exact h.2 _

theorem Uses.mono {allowed wider : κ → Prop} (hwider : ∀ request, allowed request → wider request)
    {program : Program κ ρ α} (h : program.Uses allowed) : program.Uses wider := by
  induction program with
  | done value => trivial
  | call request resume ih => exact ⟨hwider request h.1, fun answer => ih answer (h.2 answer)⟩

theorem Uses.bind {allowed : κ → Prop} {first : Program κ ρ α} {next : α → Program κ ρ β}
    (h : first.Uses allowed) (hnext : ∀ value, (next value).Uses allowed) :
    (first >>= next).Uses allowed := by
  induction first with
  | done value => exact hnext value
  | call request resume ih => exact ⟨h.1, fun answer => ih answer (h.2 answer)⟩

/-! ## Rely and guarantee -/

/-- Nothing the others do destroys `fact`. -/
def Stable (rely : σ → σ → Prop) (fact : σ → Prop) : Prop :=
  ∀ before after, fact before → rely before after → fact after

theorem Stable.reach {rely : σ → σ → Prop} {fact : σ → Prop} (hstable : Stable rely fact)
    {before after : σ} (hfact : fact before) (hreach : Relation.ReflTransGen rely before after) :
    fact after := by
  induction hreach with
  | refl => exact hfact
  | tail _ hrely ih => exact hstable _ _ ih hrely

/-- From here on every request of the program does what is guaranteed, and the
program ends in `post`, provided the others only do what is relied on. -/
def Sat (perform : (request : κ) → χ → σ → ρ request × σ) (rely guar : σ → σ → Prop)
    (post : α → σ → Prop) : Program κ ρ α → σ → Prop
  | .done value, state => ∀ later, Relation.ReflTransGen rely state later → post value later
  | .call request resume, state =>
      ∀ later, Relation.ReflTransGen rely state later → ∀ choice,
        guar later (perform request choice later).2 ∧
          Sat perform rely guar post (resume (perform request choice later).1)
            (perform request choice later).2

section Rules

variable {perform : (request : κ) → χ → σ → ρ request × σ} {rely guar : σ → σ → Prop}
  {post : α → σ → Prop} {program rest : Program κ ρ α} {state later : σ}

/-- The others make a move. -/
theorem Sat.disturbed (h : program.Sat perform rely guar post state) (hrely : rely state later) :
    program.Sat perform rely guar post later := by
  cases program with
  | done value => exact fun final hreach => h final (.head hrely hreach)
  | call request resume => exact fun final hreach => h final (.head hrely hreach)

/-- The program makes a move. -/
theorem Sat.advanced (h : program.Sat perform rely guar post state) {choice : χ}
    (hadvance : program.advance perform choice state = some (rest, later)) :
    guar state later ∧ rest.Sat perform rely guar post later := by
  cases program with
  | done value => cases hadvance
  | call request resume =>
      cases hadvance
      exact h state .refl choice

/-- The program has ended. -/
theorem Sat.ended {value : α} (h : program.Sat perform rely guar post state)
    (hresult : program.result = some value) : post value state := by
  cases program with
  | done ended =>
      cases hresult
      exact h state .refl
  | call request resume => cases hresult

theorem sat_done {value : α} (hstable : Stable rely (post value)) (hpost : post value state) :
    (Program.done value : Program κ ρ α).Sat perform rely guar post state :=
  fun _ hreach => hstable.reach hpost hreach

/-- The rule for a request: what is known before it must survive the others. -/
theorem sat_call {request : κ} {resume : ρ request → Program κ ρ α} {fact : σ → Prop}
    (hstable : Stable rely fact) (hfact : fact state)
    (hrequest : ∀ before choice, fact before →
      guar before (perform request choice before).2 ∧
        (resume (perform request choice before).1).Sat perform rely guar post
          (perform request choice before).2) :
    (Program.call request resume).Sat perform rely guar post state :=
  fun before hreach choice => hrequest before choice (hstable.reach hfact hreach)

/-- A request before which nothing needs to be known. -/
theorem sat_call_of_forall {request : κ} {resume : ρ request → Program κ ρ α}
    (hrequest : ∀ before choice,
      guar before (perform request choice before).2 ∧
        (resume (perform request choice before).1).Sat perform rely guar post
          (perform request choice before).2) :
    (Program.call request resume).Sat perform rely guar post state :=
  fun before _ choice => hrequest before choice

/-- The rule for one program after another. -/
theorem Sat.bind {between : β → σ → Prop} {first : Program κ ρ β} {next : β → Program κ ρ α}
    (h : first.Sat perform rely guar between state)
    (hnext : ∀ value after, between value after →
      (next value).Sat perform rely guar post after) :
    (first >>= next).Sat perform rely guar post state := by
  induction first generalizing state with
  | done value => exact hnext value state (h.ended rfl)
  | call request resume ih =>
      intro before hreach choice
      obtain ⟨hguar, hresume⟩ := h before hreach choice
      exact ⟨hguar, ih _ hresume⟩

/-- The rule of consequence. -/
theorem Sat.weaken {wider : α → σ → Prop} (h : program.Sat perform rely guar post state)
    (hwider : ∀ value after, post value after → wider value after) :
    program.Sat perform rely guar wider state := by
  induction program generalizing state with
  | done value => exact fun after hreach => hwider value after (h after hreach)
  | call request resume ih =>
      intro before hreach choice
      obtain ⟨hguar, hresume⟩ := h before hreach choice
      exact ⟨hguar, ih _ hresume⟩

/-- The rule for a request of a program that is left alone: the state is the one before. -/
theorem sat_call_alone {request : κ} {resume : ρ request → Program κ ρ α}
    (hrequest : ∀ choice,
      (resume (perform request choice state).1).Sat perform (fun _ _ => False) (fun _ _ => True)
        post (perform request choice state).2) :
    (Program.call request resume).Sat perform (fun _ _ => False) (fun _ _ => True) post state := by
  intro before hreach choice
  cases hreach with
  | refl => exact ⟨trivial, hrequest choice⟩
  | tail _ hnobody => exact hnobody.elim

/-- The frame rule: what neither side destroys is still there at the end. -/
theorem Sat.frame (h : program.Sat perform rely guar post state) {fact : σ → Prop}
    (hrely : Stable rely fact) (hguar : Stable guar fact) (hfact : fact state) :
    program.Sat perform rely guar (fun value after => post value after ∧ fact after) state := by
  induction program generalizing state with
  | done value => exact fun after hreach => ⟨h after hreach, hrely.reach hfact hreach⟩
  | call request resume ih =>
      intro before hreach choice
      obtain ⟨hstep, hresume⟩ := h before hreach choice
      exact ⟨hstep, ih _ hresume (hguar _ _ (hrely.reach hfact hreach) hstep)⟩

/-- Requests that are harmless in every state need nothing from the others. -/
theorem Uses.sat {allowed : κ → Prop} (h : program.Uses allowed)
    (hguar : ∀ request choice state, allowed request →
      guar state (perform request choice state).2) :
    program.Sat perform rely guar (fun _ _ => True) state := by
  induction program generalizing state with
  | done value => exact fun _ _ => trivial
  | call request resume ih =>
      exact sat_call_of_forall fun before choice =>
        ⟨hguar request choice before h.1, ih _ (h.2 _)⟩

/-- What holds among others holds alone. -/
theorem Sat.run (h : program.Sat perform rely guar post state) (fallback : χ)
    (choices : List χ) :
    post (program.run perform fallback choices state).1
      (program.run perform fallback choices state).2 := by
  induction program generalizing state choices with
  | done value => exact h.ended rfl
  | call request resume ih =>
      obtain ⟨-, hresume⟩ := h state .refl (choices.headD fallback)
      exact ih _ hresume choices.tail

end Rules

end Program

end SoftPlc.Math
