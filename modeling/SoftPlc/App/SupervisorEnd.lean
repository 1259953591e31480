/-
# How the container ends

A container is stopped by a signal to its entry script, or it stops because the core has
ended. The script then has to pass the word on to children whose process numbers it may
not know yet, and to wait for them in the right order.

It does so in every case but three. A signal that comes before `CORE_PID` is set is lost:
the handler finds nobody to tell, and sets the trap to ignore the signals that follow. A
signal that comes right before a stack is started leaves that stack to be started with
the signal ignored, and the script may tell it to stop before it can hear. No test of
`STOPPING` stands before the first start, and for a restart the signal can come between
the test and the start. And if the core ends after a signal that was lost, the stack it
leaves behind may have been started deaf in the same way.
-/

import SoftPlc.App.Supervisor

namespace SoftPlc.App

open SoftPlc.Math

/-- A child that has been told to stop, or has ended. -/
def Child.Due (child : Child) : Prop := child.termed = true ∨ child.ended.isSome = true

namespace Supervisor

variable {s next : Supervisor} {core stack : Option ℕ} {restart : Bool}

/-! ## What becomes of a child -/

/-- Every child of a later job table was in the earlier one, and has not lost its
hearing or what it was told. -/
def Onward (before after : List Child) : Prop :=
  ∀ child ∈ after, ∃ earlier ∈ before, child.binary = earlier.binary ∧
    (earlier.deaf = false → child.deaf = false) ∧ (earlier.Due → child.Due)

theorem onward_refl (children : List Child) : Onward children children :=
  fun child hchild => ⟨child, hchild, rfl, id, id⟩

theorem onward_filter (children : List Child) (test : Child → Bool) :
    Onward children (children.filter test) :=
  fun child hchild => ⟨child, List.mem_of_mem_filter hchild, rfl, id, id⟩

theorem onward_told (children : List Child) (target : Option ℕ) :
    Onward children (children.map (Child.told target)) := by
  intro child hchild
  obtain ⟨earlier, hearlier, rfl⟩ := List.mem_map.mp hchild
  refine ⟨earlier, hearlier, earlier.told_binary target, (earlier.told_deaf target).trans, ?_⟩
  simp only [Child.told]
  split_ifs
  · exact fun _ => .inl rfl
  · exact id

theorem Onward.trans {before middle after : List Child} (h : Onward before middle)
    (hlater : Onward middle after) : Onward before after := by
  intro child hchild
  obtain ⟨between, hbetween, hbinary, hhears, hdue⟩ := hlater child hchild
  obtain ⟨earlier, hearlier, hbinary', hhears', hdue'⟩ := h between hbetween
  exact ⟨earlier, hearlier, hbinary.trans hbinary', hhears ∘ hhears', hdue ∘ hdue'⟩

theorem onward_alterFirst {test : Child → Bool} {change : Child → Child}
    {children altered : List Child} (h : alterFirst test change children = some altered)
    (hchange : ∀ child, (change child).binary = child.binary ∧
      (child.deaf = false → (change child).deaf = false) ∧ (child.Due → (change child).Due)) :
    Onward children altered := by
  intro other hother
  obtain hsame | ⟨child, hchild, rfl⟩ := mem_alterFirst h hother
  · exact ⟨other, hsame, rfl, id, id⟩
  · exact ⟨child, hchild, hchange child⟩

theorem onward_ends {binary : Binary} {rc : ℕ} {test : Child → Bool}
    (hends : ends binary rc test s = some next) : Onward s.children next.children := by
  obtain ⟨children, halter, rfl⟩ := Option.map_eq_some_iff.mp hends
  exact onward_alterFirst halter fun child => ⟨rfl, id, fun _ => .inr rfl⟩

theorem onward_onTerm (s : Supervisor) : Onward s.children (onTerm s).children :=
  (onward_told s.children s.stackPid).trans (onward_told _ s.corePid)

theorem onward_waitFor {pid rc : ℕ} {after : Supervisor}
    (hwait : waitFor pid s = some (rc, after)) :
    Onward s.children after.children ∧ after.ignoring = s.ignoring := by
  obtain ⟨rfl, -⟩ | ⟨rfl, -⟩ := waitFor_cases hwait
  · exact ⟨onward_filter s.children _, rfl⟩
  · exact ⟨onward_refl after.children, rfl⟩

/-- A command that does not start a child. -/
theorem onward_shell {pick : ℕ} (hcore : s.line ≠ .startCore) (hstack : s.line ≠ .startStack)
    (hshell : shell restart pick s = some next) :
    Onward s.children next.children ∧ next.ignoring = s.ignoring := by
  have hrefl := onward_refl s.children
  simp only [shell] at hshell
  cases hline : s.line with
  | startCore => exact absurd hline hcore
  | startStack => exact absurd hline hstack
  | waiting =>
      simp only [hline, waitAny] at hshell
      split at hshell
      · cases hshell
        exact ⟨onward_filter s.children _, rfl⟩
      · split_ifs at hshell
        cases hshell
        exact ⟨hrefl, rfl⟩
  | passOn =>
      simp only [hline, Option.some.injEq] at hshell
      subst hshell
      exact ⟨onward_told s.children s.stackPid, rfl⟩
  | lastCore | lastStack =>
      simp only [hline] at hshell
      split at hshell
      · cases hshell
        exact ⟨hrefl, rfl⟩
      · obtain ⟨⟨rc, after⟩, hwait, rfl⟩ := Option.map_eq_some_iff.mp hshell
        have honward := onward_waitFor hwait
        exact honward
  | exited status => simp [hline] at hshell
  | noteCore | noteStack | branch | coreGone | forgetCore | setStopping | forgetStack | weigh
  | sleeping | recheck =>
      simp only [hline, Option.some.injEq] at hshell
      subst hshell
      exact ⟨hrefl, rfl⟩

theorem Onward.hearing {before after : List Child} (h : Onward before after)
    (hears : ∀ child ∈ before, child.deaf = false) : ∀ child ∈ after, child.deaf = false := by
  intro child hchild
  obtain ⟨earlier, hearlier, -, hstill, -⟩ := h child hchild
  exact hstill (hears earlier hearlier)

/-- A child is started with the signals ignored only after one has come. -/
def Hearing (s : Supervisor) : Prop :=
  s.ignoring = false → ∀ child ∈ s.children, child.deaf = false

theorem Hearing.fork (h : Hearing s) (binary : Binary) : Hearing (fork binary s) := by
  intro hignoring child hchild
  obtain hold | hnew := List.mem_append.mp hchild
  · exact h hignoring child hold
  · cases List.mem_singleton.mp hnew
    exact hignoring

theorem Hearing.shell (h : Hearing s) {pick : ℕ} (hshell : shell restart pick s = some next) :
    Hearing next := by
  by_cases hcore : s.line = .startCore
  · simp only [Supervisor.shell, hcore, Option.some.injEq] at hshell
    subst hshell
    exact h.fork .core
  · by_cases hstack : s.line = .startStack
    · simp only [Supervisor.shell, hstack, Option.some.injEq] at hshell
      subst hshell
      exact h.fork .stack
    · obtain ⟨honward, hsame⟩ := onward_shell hcore hstack hshell
      intro hignoring
      exact honward.hearing (h (hsame.symm.trans hignoring))

theorem ignoring_signal (number : ℕ) (interrupts : Bool) (s : Supervisor) :
    (signal number interrupts s).ignoring = true := by
  have hcut : (cutShort number (onTerm s)).ignoring = true := by
    simp only [cutShort]
    split <;> (try split_ifs) <;> rfl
  simp only [signal]
  split_ifs with hignoring
  · exact hignoring
  · exact hcut
  · rfl

theorem Hearing.step {label : SupervisorLabel} (h : Hearing s)
    (hstep : step restart s label = some next) : Hearing next := by
  cases label with
  | shell pick => exact h.shell hstep
  | signal number interrupts =>
      cases hstep
      intro hignoring
      rw [ignoring_signal] at hignoring
      cases hignoring
  | ends binary rc | obeys binary rc =>
      have honward := onward_ends hstep
      obtain ⟨children, -, rfl⟩ := Option.map_eq_some_iff.mp hstep
      exact fun hignoring => honward.hearing (h hignoring)
  | hears binary =>
      obtain ⟨children, halter, rfl⟩ := Option.map_eq_some_iff.mp hstep
      have honward := onward_alterFirst halter fun child => ⟨rfl, fun _ => rfl, id⟩
      exact fun hignoring => honward.hearing (h hignoring)

theorem hearing_of_exec {schedule : List SupervisorLabel}
    (hrun : exec (Supervisor.step restart) {} schedule = some s) : Hearing s := by
  apply exec_invariant_all (fun _ _ _ => Hearing.step) _ hrun
  intro _ child hchild
  cases hchild

/-! ## On the way out -/

/-- The core has been reaped. -/
def CoreOut (children : List Child) : Prop := ∀ child ∈ children, child.binary ≠ .core

/-- The children of one kind have been told, or have ended. -/
def AllDue (binary : Binary) (children : List Child) : Prop :=
  ∀ child ∈ children, child.binary = binary → child.Due

/-- What the stack has been told by the time the script stands at a line, if no child is
being started. -/
def Passed (children : List Child) : Line → Prop
  | .startCore | .noteCore | .startStack => False
  | .waiting => CoreOut children → AllDue .stack children
  | .branch none _ | .setStopping | .lastCore | .lastStack => AllDue .stack children
  | _ => True

/-- A script that is going to exit: it will not start another stack, the core knows or
has gone, every child can hear, and the stack will be told. -/
structure Ending (s : Supervisor) : Prop where
  kept : ∃ core stack, Kept s core stack
  closing : s.stopping = true ∨ CoreOut s.children
  due : AllDue .core s.children
  hearing : ∀ child ∈ s.children, child.deaf = false
  passed : Passed s.children s.line

section Onward

variable {before after : List Child}

theorem Onward.coreOut (h : Onward before after) (hout : CoreOut before) : CoreOut after := by
  intro child hchild
  obtain ⟨earlier, hearlier, hbinary, -, -⟩ := h child hchild
  rw [hbinary]
  exact hout earlier hearlier

theorem Onward.allDue (h : Onward before after) {binary : Binary} (hdue : AllDue binary before) :
    AllDue binary after := by
  intro child hchild hkind
  obtain ⟨earlier, hearlier, hbinary, -, hstill⟩ := h child hchild
  exact hstill (hdue earlier hearlier (hbinary.symm.trans hkind))

end Onward

theorem Table.coreOut {children : List Child} {bang : ℕ} {coreEnd : Option ℕ}
    (h : Table children bang coreEnd none stack) : CoreOut children := by
  intro child hchild hcore
  obtain ⟨-, hnone⟩ | ⟨hstack, -⟩ := h.entry hchild
  · cases hnone
  · rw [hcore] at hstack
    cases hstack

theorem Table.core_eq_none {children : List Child} {bang : ℕ} {coreEnd : Option ℕ}
    (h : Table children bang coreEnd core stack) (hout : CoreOut children) : core = none := by
  cases core with
  | none => rfl
  | some pid =>
      obtain ⟨child, hchild, hbinary, -⟩ := h.exists_core
      exact absurd hbinary (hout child hchild)

/-- Without a stack there is no stack to tell. -/
theorem Table.allDue_stack {children : List Child} {bang : ℕ} {coreEnd : Option ℕ}
    (h : Table children bang coreEnd core none) : AllDue .stack children := by
  intro child hchild hstack
  obtain ⟨hcore, -⟩ | ⟨-, hnone⟩ := h.entry hchild
  · rw [hstack] at hcore
    cases hcore
  · cases hnone

/-- A child whose number is known to `kill` and that can hear is told. -/
theorem due_told {child : Child} (hears : child.deaf = false) :
    (Child.told (some child.pid) child).Due := by
  simp only [Child.told, hears, true_and, Child.Due]
  split_ifs with hrunning
  · exact .inl rfl
  · exact .inr (Option.isSome_iff_ne_none.mpr hrunning)

theorem Table.allDue_told {children : List Child} {bang : ℕ} {coreEnd : Option ℕ}
    (h : Table children bang coreEnd core stack)
    (hears : ∀ child ∈ children, child.deaf = false) :
    AllDue .core (children.map (Child.told core)) ∧
      AllDue .stack (children.map (Child.told stack)) := by
  constructor
  · intro child hchild hkind
    obtain ⟨earlier, hearlier, rfl⟩ := List.mem_map.mp hchild
    rw [Child.told_binary] at hkind
    obtain ⟨-, rfl⟩ | ⟨hstack, -⟩ := h.entry hearlier
    · exact due_told (hears earlier hearlier)
    · rw [hkind] at hstack
      cases hstack
  · intro child hchild hkind
    obtain ⟨earlier, hearlier, rfl⟩ := List.mem_map.mp hchild
    rw [Child.told_binary] at hkind
    obtain ⟨hcore, -⟩ | ⟨-, rfl⟩ := h.entry hearlier
    · rw [hkind] at hcore
      cases hcore
    · exact due_told (hears earlier hearlier)

theorem Ending.passed_of_onward {line : Line} {before after : List Child}
    (h : Onward before after) (hout : CoreOut after → CoreOut before)
    (hpassed : Passed before line) : Passed after line := by
  cases line with
  | branch reaped rc =>
      cases reaped with
      | none => exact h.allDue hpassed
      | some pid => trivial
  | waiting => exact fun hafter => h.allDue (hpassed (hout hafter))
  | setStopping | lastCore | lastStack => exact h.allDue hpassed
  | startCore | noteCore | startStack => exact hpassed
  | noteStack | coreGone | forgetCore | passOn | forgetStack | weigh | sleeping | recheck
  | exited => trivial

/-- A script that is ending and has no core left has been told so. -/
theorem Ending.stopping_of_accounted (h : Ending s)
    (htable : Table s.children s.bang s.coreEnd core stack) (haccounted : Accounted s core) : s.stopping = true := by
  obtain hstopping | hout := h.closing
  · exact hstopping
  · exact (haccounted (htable.core_eq_none hout)).1

/-! ## What is left to do -/

end Supervisor

/-- How far a line is from the end. A `wait -n` that reaps a child goes back up. -/
def Line.place : Line → ℕ
  | .exited _ => 0
  | .lastStack => 1
  | .lastCore => 2
  | .branch none _ => 3
  | .waiting => 4
  | .noteStack | .setStopping | .recheck => 5
  | .passOn | .sleeping => 6
  | .forgetCore | .weigh => 7
  | .coreGone _ | .forgetStack => 8
  | .branch (some _) _ => 9
  | .startCore | .noteCore | .startStack => 10

namespace Supervisor

/-- What the children are still good for. -/
def weight (children : List Child) : ℕ :=
  8 * children.length + children.countP (·.ended = none)

/-- What is left to do. -/
def rank (s : Supervisor) : ℕ := s.line.place + weight s.children

theorem weight_told (target : Option ℕ) (children : List Child) :
    weight (children.map (Child.told target)) = weight children := by
  rw [weight, List.length_map, List.countP_map, weight]
  congr 2
  funext child
  simp

theorem weight_reap {children : List Child} {child : Child} (hchild : child ∈ children) :
    weight (children.filter (·.pid ≠ child.pid)) + 8 ≤ weight children := by
  have hcount : (children.filter (·.pid ≠ child.pid)).countP (·.ended = none) ≤
      children.countP (·.ended = none) := List.filter_sublist.countP_le
  have hlength : (children.filter (·.pid ≠ child.pid)).length < children.length := by
    apply List.length_filter_lt_length_iff_exists.mpr
    exact ⟨child, hchild, by simp⟩
  simp only [weight]
  omega

theorem weight_waitFor {pid rc : ℕ} {after : Supervisor}
    (hwait : waitFor pid s = some (rc, after)) :
    after.stopping = s.stopping ∧ weight after.children ≤ weight s.children := by
  obtain ⟨rfl, child, hchild, rfl, -⟩ | ⟨rfl, -⟩ := waitFor_cases hwait
  · exact ⟨rfl, (Nat.le_add_right _ 8).trans (weight_reap hchild)⟩
  · exact ⟨rfl, le_rfl⟩

/-- A command brings a script that is ending nearer to its end. -/
theorem Ending.shell_lowers (h : Ending s) {pick : ℕ} (hshell : shell restart pick s = some next) :
    (s.stopping = true → next.stopping = true) ∧ Passed next.children next.line ∧
      rank next < rank s := by
  obtain ⟨core, stack, htable, hstands⟩ := h.kept
  have hpassed := h.passed
  simp only [shell] at hshell
  simp only [rank]
  cases hline : s.line with
  | startCore | noteCore | startStack =>
      rw [hline] at hpassed
      exact hpassed.elim
  | noteStack =>
      simp only [hline, Option.some.injEq] at hshell hstands
      obtain ⟨hcore, -⟩ := hstands
      subst hshell
      refine ⟨id, ?_, by simp [Line.place]⟩
      intro hout
      rw [htable.core_eq_none hout] at hcore
      cases hcore
  | waiting =>
      simp only [hline, waitAny] at hshell
      split at hshell
      · rename_i pid rc hpicked
        cases hshell
        obtain ⟨child, hchild, rfl, -⟩ := mem_gone (List.mem_of_getElem? hpicked)
        have hreap := weight_reap hchild
        refine ⟨id, trivial, ?_⟩
        simp only [reap, Line.place]
        omega
      · split_ifs at hshell with hempty
        cases hshell
        refine ⟨id, ?_, by simp [Line.place]⟩
        show AllDue .stack s.children
        intro child hchild
        rw [hempty] at hchild
        cases hchild
  | branch reaped rc =>
      simp only [hline, Option.some.injEq] at hshell hstands
      rw [hline] at hpassed
      subst hshell
      cases reaped with
      | none =>
          obtain ⟨-, -, haccounted, -⟩ := hstands
          have hstopping := h.stopping_of_accounted htable haccounted
          simp only [branchTo, hstopping, Bool.true_eq_false, false_and, if_false]
          exact ⟨fun _ => trivial, hpassed, by simp [Line.place]⟩
      | some pid =>
          obtain ⟨-, hcorePid, -⟩ | ⟨rfl, hstackPid, hcorePid, hother, -⟩ := hstands
          · simp only [branchTo, hcorePid, if_true]
            exact ⟨id, trivial, by simp [Line.place]⟩
          · have hdiffers : s.corePid ≠ some pid := by
              rw [hcorePid]
              exact hother
            simp only [branchTo, hdiffers, hstackPid, if_true, if_false]
            exact ⟨id, trivial, by simp [Line.place]⟩
  | passOn =>
      simp only [hline, Option.some.injEq] at hshell hstands
      obtain ⟨-, -, hstackPid, -⟩ := hstands
      subst hshell
      refine ⟨id, ?_, ?_⟩
      · rw [hstackPid]
        exact (htable.allDue_told h.hearing).2
      · simp only [kill, weight_told]
        exact by simp [Line.place]
  | setStopping =>
      simp only [hline, Option.some.injEq] at hshell
      rw [hline] at hpassed
      subst hshell
      exact ⟨fun _ => rfl, fun _ => hpassed, by simp [Line.place]⟩
  | weigh =>
      simp only [hline, Option.some.injEq] at hshell hstands
      obtain ⟨rfl, -, -, -⟩ := hstands
      subst hshell
      split_ifs
      · exact ⟨id, trivial, by simp [Line.place]⟩
      · exact ⟨id, fun _ => htable.allDue_stack, by simp [Line.place]⟩
  | recheck =>
      simp only [hline, Option.some.injEq] at hshell hstands
      obtain ⟨rfl, -, -, haccounted⟩ := hstands
      have hstopping := h.stopping_of_accounted htable haccounted
      rw [if_pos hstopping] at hshell
      subst hshell
      exact ⟨id, fun _ => htable.allDue_stack, by simp [Line.place]⟩
  | lastCore =>
      simp only [hline] at hshell
      rw [hline] at hpassed
      split at hshell
      · cases hshell
        exact ⟨id, hpassed, by simp [Line.place]⟩
      · obtain ⟨⟨rc, after⟩, hwait, rfl⟩ := Option.map_eq_some_iff.mp hshell
        obtain ⟨honward, -⟩ := onward_waitFor hwait
        obtain ⟨hstopping, hweight⟩ := weight_waitFor hwait
        exact ⟨hstopping.trans, honward.allDue hpassed,
          Nat.add_lt_add_of_lt_of_le one_lt_two hweight⟩
  | lastStack =>
      simp only [hline] at hshell
      split at hshell
      · cases hshell
        exact ⟨id, trivial, by simp [Line.place]⟩
      · obtain ⟨⟨rc, after⟩, hwait, rfl⟩ := Option.map_eq_some_iff.mp hshell
        obtain ⟨hstopping, hweight⟩ := weight_waitFor hwait
        exact ⟨hstopping.trans, trivial, Nat.add_lt_add_of_lt_of_le zero_lt_one hweight⟩
  | exited status => simp [hline] at hshell
  | coreGone | forgetCore | forgetStack | sleeping =>
      simp only [hline, Option.some.injEq] at hshell
      subst hshell
      exact ⟨id, trivial, by simp [Line.place]⟩

theorem Ending.shell (h : Ending s) {pick : ℕ} (hshell : shell restart pick s = some next) :
    Ending next := by
  obtain ⟨core, stack, hkept⟩ := h.kept
  obtain ⟨hstopping, hpassed, -⟩ := h.shell_lowers hshell
  have hstarted : s.line ≠ .startCore ∧ s.line ≠ .startStack := by
    have hbefore := h.passed
    constructor <;> intro hline <;> rw [hline] at hbefore <;> exact hbefore
  obtain ⟨honward, -⟩ := onward_shell hstarted.1 hstarted.2 hshell
  exact ⟨hkept.shell hshell, h.closing.imp hstopping honward.coreOut, honward.allDue h.due,
    honward.hearing h.hearing, hpassed⟩

/-- The same children, further on. -/
theorem Ending.onward (h : Ending s) (hkept : ∃ core stack, Kept next core stack)
    (hline : next.line = s.line) (hstopping : s.stopping = true → next.stopping = true)
    (honward : Onward s.children next.children) (hroll : roll next.children = roll s.children) :
    Ending next where
  kept := hkept
  closing := h.closing.imp hstopping honward.coreOut
  due := honward.allDue h.due
  hearing := honward.hearing h.hearing
  passed := by
    rw [hline]
    apply passed_of_onward honward _ h.passed
    intro hout child hchild hcore
    have hmem := mem_roll hchild
    rw [← hroll] at hmem
    obtain ⟨later, hlater, hbinary, -⟩ := exists_of_mem_roll hmem
    exact hout later hlater (hbinary.trans hcore)

theorem roll_onTerm (s : Supervisor) : roll (onTerm s).children = roll s.children :=
  (roll_told s.corePid _).trans (roll_told s.stackPid s.children)

/-- Where a `wait` can be cut short, the handler knows the stack. -/
theorem Kept.allDue_onTerm (h : Kept s core stack)
    (hears : ∀ child ∈ s.children, child.deaf = false) (hstackPid : s.stackPid = stack) : AllDue .stack (Supervisor.onTerm s).children := by
  have htold := (h.table.allDue_told hears).2
  rw [← hstackPid] at htold
  exact (onward_told _ s.corePid).allDue htold

theorem Ending.onTerm (h : Ending s) : Ending (onTerm s) := by
  obtain ⟨core, stack, hkept⟩ := h.kept
  exact h.onward ⟨core, stack, hkept.onTerm⟩ rfl (fun _ => rfl) (onward_onTerm s) (roll_onTerm s)

/-- Where the handler leaves a script ending, so does the signal. -/
theorem Ending.of_onTerm (h : Ending (Supervisor.onTerm s)) (hkept : Kept s core stack)
    (hears : ∀ child ∈ s.children, child.deaf = false) (hignoring : s.ignoring = false)
    (number : ℕ) (interrupts : Bool) : Ending (signal number interrupts s) := by
  have hsignal := hkept.signal number interrupts
  simp only [signal, hignoring, Bool.false_eq_true, if_false] at hsignal ⊢
  split_ifs at hsignal ⊢
  · obtain hsame | ⟨hline, hcut⟩ := hkept.cutShort_cases hignoring number
    · rw [hsame]
      exact h
    · have hstands := hkept.stands
      rw [hline] at hstands
      have hdue := hkept.allDue_onTerm hears hstands.2.1
      rw [hcut] at hsignal ⊢
      exact ⟨⟨core, stack, hsignal⟩, .inl rfl, h.due, h.hearing, hdue⟩
  · exact h

theorem Ending.signal (h : Ending s) (number : ℕ) (interrupts : Bool) :
    Ending (signal number interrupts s) := by
  obtain ⟨core, stack, hkept⟩ := h.kept
  cases hignoring : s.ignoring with
  | true =>
      have hsame : Supervisor.signal number interrupts s = s := if_pos hignoring
      rw [hsame]
      exact h
  | false => exact h.onTerm.of_onTerm hkept h.hearing hignoring number interrupts

theorem weight_onTerm (s : Supervisor) : weight (onTerm s).children = weight s.children :=
  (weight_told s.corePid _).trans (weight_told s.stackPid s.children)

theorem rank_onTerm (s : Supervisor) : rank (onTerm s) = rank s :=
  congrArg (s.line.place + ·) (weight_onTerm s)

/-- A signal brings the end nearer, or does no more than the handler does. -/
theorem Ending.rank_signal (h : Ending s) (number : ℕ) (interrupts : Bool) :
    rank (Supervisor.signal number interrupts s) < rank s ∨
      Supervisor.signal number interrupts s = s ∨
      Supervisor.signal number interrupts s = Supervisor.onTerm s := by
  obtain ⟨core, stack, hkept⟩ := h.kept
  simp only [Supervisor.signal]
  split_ifs with hignoring hinterrupts
  · exact .inr (.inl rfl)
  · obtain hsame | ⟨hline, hcut⟩ := hkept.cutShort_cases (Bool.eq_false_iff.mpr hignoring) number
    · exact .inr (.inr hsame)
    · refine .inl ?_
      rw [hcut]
      simp only [rank, weight_onTerm, hline, Line.place]
      omega
  · exact .inr (.inr rfl)

theorem Ending.ends (h : Ending s) {binary : Binary} {rc : ℕ} {test : Child → Bool}
    (hends : ends binary rc test s = some next) : Ending next ∧ rank next < rank s := by
  obtain ⟨core, stack, hkept⟩ := h.kept
  have hafter := hkept.ends hends
  have honward := onward_ends hends
  obtain ⟨children, halter, rfl⟩ := Option.map_eq_some_iff.mp hends
  constructor
  · exact h.onward ⟨core, stack, hafter⟩ rfl id honward
      (roll_alterFirst halter (fun _ => rfl) fun _ => rfl)
  · obtain ⟨left, child, right, hbefore, htest, rfl⟩ := alterFirst_eq_some halter
    obtain ⟨-, hrunning, -⟩ := of_decide_eq_true htest
    simp [rank, weight, hbefore, hrunning]

/-- A child that can hear has its handler. -/
theorem Ending.not_hears (h : Ending s) (binary : Binary) :
    step restart s (.hears binary) = none := by
  cases hstep : Supervisor.step restart s (.hears binary) with
  | none => rfl
  | some next =>
      obtain ⟨children, halter, -⟩ := Option.map_eq_some_iff.mp hstep
      obtain ⟨left, child, right, hbefore, htest, -⟩ := alterFirst_eq_some halter
      have hears := h.hearing child (by simp [hbefore])
      simp [hears] at htest

/-! ## Who is to help -/

/-- The shell and its children take turns. -/
inductive Party
  | shell
  | child (binary : Binary)

/-- A child has its turn when it may do as it was told. -/
def party : SupervisorLabel → Option Party
  | .shell _ => some .shell
  | .obeys binary _ => some (.child binary)
  | _ => none

/-- The child a `wait` for one number waits for. -/
def running (children : List Child) (pid : ℕ) : Option Binary :=
  (children.find? (·.pid = pid)).bind fun child =>
    if child.ended = none then some child.binary else none

/-- The child the script waits for. With several left, a `wait -n` waits for the core. -/
def awaited (s : Supervisor) : Option Binary :=
  match s.line with
  | .waiting => if s.gone = [] then s.children.head?.map Child.binary else none
  | .lastCore => s.corePid.bind (running s.children)
  | .lastStack => s.stackPid.bind (running s.children)
  | _ => none

/-- Who brings the end nearer: the child the script waits for, else the shell. -/
def helper (s : Supervisor) : Party := s.awaited.elim .shell .child

theorem running_told (target : Option ℕ) (children : List Child) :
    running (children.map (Child.told target)) = running children := by
  funext pid
  rw [running, List.find?_map, running]
  have htest : ((fun child : Child => decide (child.pid = pid)) ∘ Child.told target) =
      fun child => decide (child.pid = pid) := by
    funext child
    simp
  rw [htest]
  cases children.find? fun child => decide (child.pid = pid) with
  | none => rfl
  | some child => simp

theorem awaited_kill (target : Option ℕ) (s : Supervisor) :
    awaited (kill target s) = awaited s := by
  have hgone : (kill target s).gone = s.gone := by
    simp only [gone, kill, List.filterMap_map]
    congr 1
    funext child
    simp
  have hhead : (s.children.map (Child.told target)).head?.map Child.binary =
      s.children.head?.map Child.binary := by
    rw [List.head?_map, Option.map_map]
    congr 1
    funext child
    simp
  simp only [awaited, hgone]
  simp only [kill, running_told, hhead]

theorem helper_onTerm (s : Supervisor) : helper (onTerm s) = helper s := by
  simp only [helper, onTerm, awaited_kill]
  rfl

theorem exists_of_running {children : List Child} {pid : ℕ} {binary : Binary}
    (h : running children pid = some binary) :
    ∃ child ∈ children, child.pid = pid ∧ child.binary = binary ∧ child.ended = none := by
  obtain ⟨child, hfound, hkind⟩ := Option.bind_eq_some_iff.mp h
  split_ifs at hkind with hrunning
  have hpid : child.pid = pid := by simpa using List.find?_some hfound
  exact ⟨child, List.mem_of_find?_eq_some hfound, hpid, Option.some.inj hkind, hrunning⟩

theorem termed_of_due {child : Child} (h : child.Due) (hrunning : child.ended = none) :
    child.termed = true := by
  apply h.resolve_right
  rw [hrunning]
  decide

/-- Whoever the script waits for on its way out has been told to stop. -/
theorem Ending.awaited_termed (h : Ending s) {binary : Binary}
    (hawaited : s.awaited = some binary) :
    ∃ child ∈ s.children, child.binary = binary ∧ child.ended = none ∧ child.termed = true := by
  obtain ⟨core, stack, htable, hstands⟩ := h.kept
  have hpassed := h.passed
  simp only [awaited] at hawaited
  split at hawaited
  · rename_i hline
    rw [hline] at hpassed
    split_ifs at hawaited with hgone
    obtain ⟨child, hhead, rfl⟩ := Option.map_eq_some_iff.mp hawaited
    have hchild := List.mem_of_head? hhead
    have hrunning : child.ended = none := by
      cases hended : child.ended with
      | none => rfl
      | some rc =>
          have hmem : (child.pid, rc) ∈ s.gone :=
            List.mem_filterMap.mpr ⟨child, hchild, by rw [hended]; rfl⟩
          rw [hgone] at hmem
          cases hmem
    refine ⟨child, hchild, rfl, hrunning, termed_of_due ?_ hrunning⟩
    obtain ⟨hcore, -⟩ | ⟨hstack, -⟩ := htable.entry hchild
    · exact h.due child hchild hcore
    · -- the stack comes first in the table, so the core is out of it
      have hout : core = none := by
        cases core with
        | none => rfl
        | some pid =>
            have hlisted := htable.listed
            obtain ⟨rest, hrest⟩ : ∃ rest, s.children = child :: rest :=
              List.head?_eq_some_iff.mp hhead
            rw [hrest] at hlisted
            simp [roll, hstack] at hlisted
      subst hout
      exact hpassed htable.coreOut child hchild hstack
  · rename_i hline
    rw [hline] at hstands
    obtain ⟨hcorePid, -⟩ := hstands
    obtain ⟨pid, hpid, hrunning⟩ := Option.bind_eq_some_iff.mp hawaited
    obtain ⟨child, hchild, rfl, hkind, hended⟩ := exists_of_running hrunning
    refine ⟨child, hchild, hkind, hended, termed_of_due ?_ hended⟩
    obtain ⟨hcore, -⟩ | ⟨-, hstack⟩ := htable.entry hchild
    · exact h.due child hchild hcore
    · exact absurd hstack (htable.apart child.pid (hcorePid.symm.trans hpid))
  · rename_i hline
    rw [hline] at hstands hpassed
    obtain ⟨rfl, -⟩ := hstands
    obtain ⟨pid, -, hrunning⟩ := Option.bind_eq_some_iff.mp hawaited
    obtain ⟨child, hchild, rfl, hkind, hended⟩ := exists_of_running hrunning
    refine ⟨child, hchild, hkind, hended, termed_of_due ?_ hended⟩
    obtain ⟨-, hcore⟩ | ⟨hstack, -⟩ := htable.entry hchild
    · cases hcore
    · exact hpassed child hchild hstack
  · cases hawaited

theorem alterFirst_of_mem {test : Child → Bool} {change : Child → Child} {children : List Child}
    {child : Child} (hchild : child ∈ children) (htest : test child = true) :
    ∃ altered, alterFirst test change children = some altered := by
  induction children with
  | nil => cases hchild
  | cons first rest ih =>
      rw [alterFirst]
      split_ifs with hfirst
      · exact ⟨_, rfl⟩
      · have hrest : child ∈ rest := by
          apply (List.mem_cons.mp hchild).resolve_left
          rintro rfl
          exact hfirst htest
        obtain ⟨altered, haltered⟩ := ih hrest
        exact ⟨first :: altered, by rw [haltered]; rfl⟩

/-- A child that is running and passes the test can end. -/
theorem ends_ready {test : Child → Bool} {child : Child} {binary : Binary} (rc : ℕ)
    (hchild : child ∈ s.children) (hkind : child.binary = binary) (hended : child.ended = none)
    (htest : test child = true) : ∃ next, ends binary rc test s = some next := by
  obtain ⟨children, halter⟩ : ∃ children,
      alterFirst (fun child => child.binary = binary ∧ child.ended = none ∧ test child)
        (fun child => { child with ended := some rc }) s.children = some children :=
    alterFirst_of_mem hchild (by simp [hkind, hended, htest])
  exact ⟨_, Option.map_eq_some_iff.mpr ⟨children, halter, rfl⟩⟩

/-- A `wait` whose child is not running returns. -/
theorem waitFor_ready {pid : ℕ} (h : running s.children pid = none) :
    ∃ rc after, waitFor pid s = some (rc, after) := by
  simp only [waitFor]
  split
  · rename_i child hfound
    simp only [running, hfound, Option.bind_some, ite_eq_right_iff, reduceCtorEq, imp_false] at h
    obtain ⟨rc, hrc⟩ := Option.ne_none_iff_exists'.mp h
    exact ⟨rc, reap pid s, by rw [hrc]; rfl⟩
  · exact ⟨127, s, rfl⟩

/-- A script that waits for nobody has a command to run, unless it has exited. -/
theorem shell_ready (pick : ℕ) (hawaited : s.awaited = none)
    (hexited : ∀ status, s.line ≠ .exited status) :
    ∃ next, shell restart pick s = some next := by
  simp only [awaited] at hawaited
  simp only [shell]
  cases hline : s.line with
  | waiting =>
      simp only [hline] at hawaited
      simp only [waitAny]
      split
      · exact ⟨_, rfl⟩
      · rename_i hnobody
        have hgone : s.gone = [] := by
          by_contra hsome
          have hlt := Nat.mod_lt pick (List.length_pos_iff.mpr hsome)
          rw [List.getElem?_eq_getElem hlt] at hnobody
          cases hnobody
        rw [if_pos hgone] at hawaited
        have hempty : s.children = [] := by simpa using hawaited
        exact ⟨_, if_pos hempty⟩
  | lastCore =>
      simp only [hline] at hawaited
      cases hcorePid : s.corePid with
      | none => exact ⟨_, rfl⟩
      | some pid =>
          rw [hcorePid] at hawaited
          obtain ⟨rc, after, hwait⟩ := waitFor_ready hawaited
          exact ⟨_, Option.map_eq_some_iff.mpr ⟨_, hwait, rfl⟩⟩
  | lastStack =>
      simp only [hline] at hawaited
      cases hstackPid : s.stackPid with
      | none => exact ⟨_, rfl⟩
      | some pid =>
          rw [hstackPid] at hawaited
          obtain ⟨rc, after, hwait⟩ := waitFor_ready hawaited
          exact ⟨_, Option.map_eq_some_iff.mpr ⟨_, hwait, rfl⟩⟩
  | exited status => exact absurd hline (hexited status)
  | _ => exact ⟨_, rfl⟩

/-- The script has exited. -/
def Exited (s : Supervisor) : Prop := ∃ status, s.line = .exited status

theorem line_ends {binary : Binary} {rc : ℕ} {test : Child → Bool}
    (hends : ends binary rc test s = some next) : next.line = s.line := by
  obtain ⟨children, -, rfl⟩ := Option.map_eq_some_iff.mp hends
  rfl

theorem ending_helped (restart : Bool) :
    Helped (step restart) party Ending Exited rank helper where
  kept s label next h hstep := by
    cases label with
    | shell pick => exact h.shell hstep
    | signal number interrupts =>
        cases hstep
        exact h.signal number interrupts
    | ends binary rc => exact (h.ends hstep).1
    | obeys binary rc => exact (h.ends hstep).1
    | hears binary =>
        rw [h.not_hears] at hstep
        cases hstep
  settled s label next h hdone hstep := by
    obtain ⟨status, hline⟩ := hdone
    cases label with
    | shell pick => simp [step, Supervisor.shell, hline] at hstep
    | signal number interrupts =>
        cases hstep
        refine ⟨status, ?_⟩
        simp only [Supervisor.signal]
        split_ifs
        · exact hline
        · simp [cutShort, Supervisor.onTerm, kill, hline]
        · exact hline
    | ends binary rc => exact ⟨status, (line_ends hstep).trans hline⟩
    | obeys binary rc => exact ⟨status, (line_ends hstep).trans hline⟩
    | hears binary =>
        rw [h.not_hears] at hstep
        cases hstep
  lowers s label h hnot hturn := by
    cases hawaited : s.awaited with
    | none =>
        rw [helper, hawaited] at hturn
        cases label with
        | shell pick =>
            obtain ⟨next, hshell⟩ := shell_ready pick hawaited (not_exists.mp hnot)
            exact ⟨next, hshell, (h.shell_lowers hshell).2.2⟩
        | signal | ends | obeys | hears => cases hturn
    | some binary =>
        rw [helper, hawaited] at hturn
        cases label with
        | obeys other rc =>
            cases hturn
            obtain ⟨child, hchild, hkind, hended, htermed⟩ := h.awaited_termed hawaited
            obtain ⟨next, hends⟩ := ends_ready rc hchild hkind hended htermed
            exact ⟨next, hends, (h.ends hends).2⟩
        | shell | signal | ends | hears => cases hturn
  waits s label next h hnot hstep := by
    cases label with
    | shell pick => exact .inl (h.shell_lowers hstep).2.2
    | signal number interrupts =>
        cases hstep
        obtain hlower | hsame | hhandled := h.rank_signal number interrupts
        · exact .inl hlower
        · rw [hsame]
          exact .inr ⟨rfl, rfl⟩
        · rw [hhandled]
          exact .inr ⟨rank_onTerm s, helper_onTerm s⟩
    | ends binary rc => exact .inl (h.ends hstep).2
    | obeys binary rc => exact .inl (h.ends hstep).2
    | hears binary =>
        rw [h.not_hears] at hstep
        cases hstep

/-! ## Ending -/

/-- Once `CORE_PID` is set it names the core, as long as there is one. -/
theorem Kept.core_known (h : Kept s core stack) (hknown : s.corePid ≠ none) :
    core = none ∨ s.corePid = core := by
  have hstands := h.stands
  cases hline : s.line with
  | startCore =>
      rw [hline] at hstands
      exact .inl hstands.1
  | noteCore =>
      rw [hline] at hstands
      exact absurd hstands.2.2.1 hknown
  | branch reaped rc =>
      rw [hline] at hstands
      cases reaped with
      | none => exact .inr hstands.1
      | some pid =>
          obtain ⟨hcore, -⟩ | ⟨-, -, hcorePid, -⟩ := hstands
          · exact .inl hcore
          · exact .inr hcorePid
  | startStack | noteStack | forgetStack =>
      rw [hline] at hstands
      exact .inr hstands.2.1
  | waiting | lastCore =>
      rw [hline] at hstands
      exact .inr hstands.1
  | weigh | sleeping | recheck =>
      rw [hline] at hstands
      exact .inr hstands.2.2.1
  | coreGone | forgetCore | passOn | setStopping | lastStack | exited =>
      rw [hline] at hstands
      exact .inl hstands.1

/-- The handler reaches the core once `CORE_PID` is set. -/
theorem Kept.ending_onTerm (h : Kept s core stack)
    (hears : ∀ child ∈ s.children, child.deaf = false) (hknown : s.corePid ≠ none)
    (hstart : s.line ≠ .startStack) : Ending (Supervisor.onTerm s) where
  kept := ⟨core, stack, h.onTerm⟩
  closing := .inl rfl
  due := by
    have hhears := (onward_told s.children s.stackPid).hearing hears
    have htold := ((h.table.told s.stackPid).allDue_told hhears).1
    obtain rfl | hcorePid := h.core_known hknown
    · intro child hchild hcore
      exact absurd hcore (h.onTerm.table.coreOut child hchild)
    · rw [← hcorePid] at htold
      exact htold
  hearing := (onward_onTerm s).hearing hears
  passed := by
    have hstands := h.stands
    show Passed (Supervisor.onTerm s).children s.line
    cases hline : s.line with
    | startCore =>
        rw [hline] at hstands
        exact hknown hstands.2.2.1
    | noteCore =>
        rw [hline] at hstands
        exact hknown hstands.2.2.1
    | startStack => exact hstart hline
    | branch reaped rc =>
        cases reaped with
        | none =>
            rw [hline] at hstands
            exact h.allDue_onTerm hears hstands.2.1
        | some pid => trivial
    | waiting =>
        rw [hline] at hstands
        exact fun _ => h.allDue_onTerm hears hstands.2.1
    | setStopping =>
        rw [hline] at hstands
        exact h.allDue_onTerm hears hstands.2.2.1
    | lastCore | lastStack =>
        rw [hline] at hstands
        exact h.allDue_onTerm hears hstands.2.1
    | noteStack | coreGone | forgetCore | passOn | forgetStack | weigh | sleeping | recheck
    | exited => trivial

/-- What makes the container end: a first signal that comes when `CORE_PID` is set and
the next command does not start a stack, be it the first start or a restart, or the end
of the core when no signal has come before it. -/
inductive Doomed (restart : Bool) (s : Supervisor) : Prop
  | signalled {schedule : List SupervisorLabel} {before : Supervisor} {number : ℕ}
      {interrupts : Bool} (run : exec (step restart) {} schedule = some before)
      (first : before.ignoring = false) (known : before.corePid ≠ none)
      (settled : before.line ≠ .startStack)
      (now : step restart before (.signal number interrupts) = some s)
  | coreEnded {schedule : List SupervisorLabel} {rc : ℕ}
      (run : exec (step restart) {} schedule = some s) (first : s.ignoring = false)
      (now : s.line = .coreGone rc)

theorem Doomed.ending (h : Doomed restart s) : Ending s := by
  cases h with
  | signalled run first known settled now =>
      obtain ⟨core, stack, hkept⟩ := kept_of_exec run
      cases now
      have hears := hearing_of_exec run first
      exact (hkept.ending_onTerm hears known settled).of_onTerm hkept hears first _ _
  | coreEnded run first now =>
      obtain ⟨core, stack, hkept⟩ := kept_of_exec run
      have hstands := hkept.stands
      rw [now] at hstands
      obtain ⟨rfl, -⟩ := hstands
      have hout := hkept.table.coreOut
      refine ⟨⟨none, stack, hkept⟩, .inr hout, ?_, hearing_of_exec run first, ?_⟩
      · intro child hchild hcore
        exact absurd hcore (hout child hchild)
      · rw [now]
        trivial

theorem Ending.rank_lt (h : Ending s) : rank s < 28 := by
  obtain ⟨core, stack, hkept⟩ := h.kept
  have hlength : s.children.length ≤ 2 := by
    have hroll := congrArg List.length hkept.table.listed
    rw [roll, List.length_map] at hroll
    rw [hroll]
    cases core <;> cases stack <;> simp
  have hcount : s.children.countP (·.ended = none) ≤ s.children.length := List.countP_le_length
  have hplace : s.line.place ≤ 9 := by
    have hpassed := h.passed
    cases hline : s.line with
    | startCore | noteCore | startStack =>
        rw [hline] at hpassed
        exact hpassed.elim
    | branch reaped rc => cases reaped <;> simp [Line.place]
    | _ => simp [Line.place]
  simp only [rank, weight]
  omega

/-- **The container ends.** After such a signal, or after such an end of the core, every
scheduler that lets the shell run and lets the children do as they are told brings the
script to its exit within 28 rounds, with both children reaped and with the core's
status. -/
theorem stops (h : Doomed restart s) {rounds : List (List SupervisorLabel)}
    (hrounds : ∀ labels ∈ rounds, Round party labels) (hmany : 28 ≤ rounds.length) :
    ∃ status, (turns (step restart) s rounds.flatten).line = .exited status ∧
      (turns (step restart) s rounds.flatten).children = [] ∧
      (turns (step restart) s rounds.flatten).coreEnd = some status := by
  have hhelped := ending_helped restart
  have hending := h.ending
  have hrank : rank s < rounds.length := hending.rank_lt.trans_le hmany
  obtain ⟨status, hline⟩ := hhelped.rounds hending hrounds hrank
  obtain ⟨core, stack, hkept⟩ := (hhelped.inv_turns hending rounds.flatten).kept
  have hstands := hkept.stands
  rw [hline] at hstands
  obtain ⟨rfl, rfl, hend⟩ := hstands
  exact ⟨status, hline, List.map_eq_nil_iff.mp hkept.table.listed, hend⟩

/-- Everybody has one turn. -/
def everybody : List SupervisorLabel := [.shell 0, .obeys .core 0, .obeys .stack 0]

theorem round_everybody : Round party everybody := by
  intro who
  cases who with
  | shell => exact ⟨.shell 0, by decide, rfl⟩
  | child binary =>
      cases binary with
      | core => exact ⟨.obeys .core 0, by decide, rfl⟩
      | stack => exact ⟨.obeys .stack 0, by decide, rfl⟩

/-- The script waits for its two children. -/
def bothRunning : Supervisor :=
  { line := .waiting, corePid := some 1, stackPid := some 2, bang := 2,
    children := [⟨.core, 1, false, false, none⟩, ⟨.stack, 2, false, false, none⟩] }

theorem stops_bothRunning :
    exec (step true) {} (List.replicate 4 (.shell 0)) = some bothRunning ∧
      ∃ status, (turns (step true) (signal 15 true bothRunning)
          (List.replicate 28 everybody).flatten).line = .exited status ∧
        (turns (step true) (signal 15 true bothRunning)
          (List.replicate 28 everybody).flatten).children = [] ∧
        (turns (step true) (signal 15 true bothRunning)
          (List.replicate 28 everybody).flatten).coreEnd = some status := by
  have hrun : exec (step true) {} (List.replicate 4 (.shell 0)) = some bothRunning := by decide
  have hdoomed : Doomed true (signal 15 true bothRunning) :=
    .signalled hrun rfl (by decide) (by decide) rfl
  have hrounds : ∀ labels ∈ List.replicate 28 everybody, Round party labels := by
    intro labels hlabels
    rw [List.eq_of_mem_replicate hlabels]
    exact round_everybody
  exact ⟨hrun, stops hdoomed hrounds (by decide)⟩

/-! ## The signal that is lost -/

/-- A signal has come too early, and everything runs on. -/
structure Lost (s : Supervisor) : Prop where
  ignoring : s.ignoring = true
  untold : ∀ child ∈ s.children, child.termed = false ∧ child.ended = none
  underway : s.line = .startCore ∨ s.children ≠ [] ∧
    (s.line = .noteCore ∨ s.line = .startStack ∨ s.line = .noteStack ∨ s.line = .waiting)

/-- Nobody ends of their own accord. -/
def Patient : SupervisorLabel → Prop
  | .ends _ _ => False
  | _ => True

theorem Lost.shell (h : Lost s) {pick : ℕ} (hshell : shell restart pick s = some next) :
    Lost next := by
  have hfork : ∀ binary, ∀ child ∈ (fork binary s).children,
      child.termed = false ∧ child.ended = none := by
    intro binary child hchild
    obtain hold | hnew := List.mem_append.mp hchild
    · exact h.untold child hold
    · cases List.mem_singleton.mp hnew
      exact ⟨rfl, rfl⟩
  simp only [Supervisor.shell] at hshell
  obtain hline | ⟨hsome, hline | hline | hline | hline⟩ := h.underway
  · simp only [hline, Option.some.injEq] at hshell
    subst hshell
    exact ⟨h.ignoring, hfork .core, .inr ⟨by simp [fork], .inl rfl⟩⟩
  · simp only [hline, Option.some.injEq] at hshell
    subst hshell
    exact ⟨h.ignoring, h.untold, .inr ⟨hsome, .inr (.inl rfl)⟩⟩
  · simp only [hline, Option.some.injEq] at hshell
    subst hshell
    exact ⟨h.ignoring, hfork .stack, .inr ⟨by simp [fork], .inr (.inr (.inl rfl))⟩⟩
  · simp only [hline, Option.some.injEq] at hshell
    subst hshell
    exact ⟨h.ignoring, h.untold, .inr ⟨hsome, .inr (.inr (.inr rfl))⟩⟩
  · -- nobody has ended, so the `wait -n` does not return
    simp only [hline, waitAny] at hshell
    split at hshell
    · rename_i pid rc hpicked
      obtain ⟨child, hchild, -, hended⟩ := mem_gone (List.mem_of_getElem? hpicked)
      rw [(h.untold child hchild).2] at hended
      cases hended
    · rw [if_neg hsome] at hshell
      cases hshell

theorem Lost.step {label : SupervisorLabel} (h : Lost s) (hpatient : Patient label)
    (hstep : step restart s label = some next) : Lost next := by
  cases label with
  | shell pick => exact h.shell hstep
  | signal number interrupts =>
      cases hstep
      have hsame : Supervisor.signal number interrupts s = s := if_pos h.ignoring
      rw [hsame]
      exact h
  | ends binary rc => exact hpatient.elim
  | obeys binary rc =>
      obtain ⟨children, halter, -⟩ := Option.map_eq_some_iff.mp hstep
      obtain ⟨left, child, right, hbefore, htest, -⟩ := alterFirst_eq_some halter
      have huntold := (h.untold child (by simp [hbefore])).1
      simp [huntold] at htest
  | hears binary =>
      obtain ⟨children, halter, rfl⟩ := Option.map_eq_some_iff.mp hstep
      refine ⟨h.ignoring, ?_, h.underway.imp_right (And.imp_left ?_)⟩
      · intro other hother
        obtain hsame | ⟨child, hchild, rfl⟩ := mem_alterFirst halter hother
        · exact h.untold other hsame
        · exact h.untold child hchild
      · intro _ hempty
        obtain ⟨left, child, right, -, -, rfl⟩ := alterFirst_eq_some halter
        simp at hempty

/-- **A signal that comes too early is lost.** If it comes before the script has set
`CORE_PID`, that is before or right after the start of the core, no child is ever told
to stop, whatever further signals come, and the script does not exit as long as no
child ends of its own accord. -/
theorem signal_lost {early later : List SupervisorLabel} {pick number : ℕ} {interrupts : Bool}
    (hearly : early = [] ∨ early = [.shell pick])
    (hrun : exec (step restart) {} (early ++ .signal number interrupts :: later) = some s)
    (hpatient : ∀ label ∈ later, Patient label) :
    (∀ child ∈ s.children, child.termed = false ∧ child.ended = none) ∧
      ∀ status, s.line ≠ .exited status := by
  obtain ⟨before, hlost, hlater⟩ : ∃ before, Lost before ∧
      exec (step restart) before later = some s := by
    obtain rfl | rfl := hearly
    · obtain ⟨before, hsignal, hlater⟩ := exec_cons_eq_some.mp hrun
      cases hsignal
      refine ⟨_, ?_, hlater⟩
      cases interrupts <;> exact ⟨rfl, by simp [signal, onTerm, kill, cutShort], .inl rfl⟩
    · obtain ⟨started, hstart, hrest⟩ := exec_cons_eq_some.mp hrun
      obtain ⟨before, hsignal, hlater⟩ := exec_cons_eq_some.mp hrest
      cases hstart
      cases hsignal
      refine ⟨_, ?_, hlater⟩
      cases interrupts <;>
        exact ⟨rfl, by simp [signal, onTerm, kill, cutShort, fork, Child.told],
          .inr ⟨by simp [signal, onTerm, kill, cutShort, fork], .inl rfl⟩⟩
  have hfinal : Lost s :=
    exec_invariant_of_mem (fun _ _ _ h hlabel hstep => h.step hlabel hstep) hlost hpatient hlater
  refine ⟨hfinal.untold, ?_⟩
  intro status hline
  obtain hstart | ⟨-, hstart | hstart | hstart | hstart⟩ := hfinal.underway
  all_goals
    rw [hstart] at hline
    cases hline

/-- Two signals, one before the core is known and one when both children run. -/
def twoSignals : List SupervisorLabel :=
  [.shell 0] ++ .signal 15 false :: [.shell 0, .shell 0, .shell 0, .signal 15 true]

theorem signal_lost_twoSignals :
    (exec (step true) {} twoSignals).map Supervisor.line = some .waiting ∧
      ∀ s, exec (step true) {} twoSignals = some s →
        ∀ child ∈ s.children, child.termed = false ∧ child.ended = none := by
  refine ⟨by decide, ?_⟩
  intro s hrun
  have hpatient : ∀ label ∈ ([.shell 0, .shell 0, .shell 0, .signal 15 true] :
      List SupervisorLabel), Patient label := by simp [Patient]
  exact (signal_lost (.inr rfl) hrun hpatient).1

end Supervisor

end SoftPlc.App
