/-
# The entry script as a supervisor

`docker/entrypoint.sh` runs the core and one protocol stack as children of a shell, and
is the only place in the project that restarts anything. It is a small state machine
with a signal handler: the shell waits for either child, restarts a stack that has
ended, and takes everything down when the core has ended or a signal tells it to.

The shell runs a handler between two commands, or in the middle of a `wait`, which then
returns early. So each command is a step here, and a signal can come before any of
them. The handler knows its children by the variables `CORE_PID` and `STACK_PID`, which
lag behind the job table by a command or two; what the script guarantees in spite of
that is what is proved below, and what it does not is proved as well.

Process numbers are given out in order and not used again. No child is started between
the reaping of a process and the command that forgets its number, so the script could
not tell the difference.
-/

import SoftPlc.Math.Fair

namespace SoftPlc.App

open SoftPlc.Math

/-- What the script starts. -/
inductive Binary
  | core
  | stack
  deriving DecidableEq, Repr

/-- An entry of the shell's job table, kept until it is reaped. A child that was started
while the shell ignores signals inherits that until it has installed a handler of its
own; so long it is deaf. -/
structure Child where
  binary : Binary
  pid : ℕ
  deaf : Bool
  termed : Bool := false
  ended : Option ℕ := none
  deriving DecidableEq, Repr

/-- The commands of the script from the start of the core on, by what they do. The
tests that follow a `wait -n` are one command, `branch`. -/
inductive Line
  | startCore
  | noteCore
  | startStack
  | noteStack
  | waiting
  | branch (reaped : Option ℕ) (rc : ℕ)
  | coreGone (rc : ℕ)
  | forgetCore
  | passOn
  | setStopping
  | forgetStack
  | weigh
  | sleeping
  | recheck
  | lastCore
  | lastStack
  | exited (status : ℕ)
  deriving DecidableEq, Repr

/-- The script's variables, whether its trap is set to ignore, the last process number
given out (`$!`), and the children. `coreEnd` records how the core ended; the script
does not read it. -/
structure Supervisor where
  line : Line := .startCore
  stopping : Bool := false
  ignoring : Bool := false
  corePid : Option ℕ := none
  stackPid : Option ℕ := none
  coreStatus : ℕ := 0
  bang : ℕ := 0
  children : List Child := []
  coreEnd : Option ℕ := none
  deriving DecidableEq, Repr

/-- A command of the shell, with the choice `wait -n` makes between children that have
ended; a signal, which may or may not catch the shell inside a `wait`; a child that
ends of its own accord, or because it was told to, or that installs its handler. -/
inductive SupervisorLabel
  | shell (pick : ℕ)
  | signal (number : ℕ) (interrupts : Bool)
  | ends (binary : Binary) (rc : ℕ)
  | obeys (binary : Binary) (rc : ℕ)
  | hears (binary : Binary)
  deriving DecidableEq, Repr

/-- `kill -TERM` on one child. -/
def Child.told (target : Option ℕ) (child : Child) : Child :=
  if target = some child.pid ∧ child.deaf = false ∧ child.ended = none then
    { child with termed := true }
  else child

section Told

variable (target : Option ℕ) (child : Child)

@[simp]
theorem Child.told_binary : (child.told target).binary = child.binary := by
  simp only [told]
  split_ifs <;> rfl

@[simp]
theorem Child.told_pid : (child.told target).pid = child.pid := by
  simp only [told]
  split_ifs <;> rfl

@[simp]
theorem Child.told_deaf : (child.told target).deaf = child.deaf := by
  simp only [told]
  split_ifs <;> rfl

@[simp]
theorem Child.told_ended : (child.told target).ended = child.ended := by
  simp only [told]
  split_ifs <;> rfl

end Told

/-- Change the first child of which the test holds, if there is one. -/
def alterFirst (test : Child → Bool) (change : Child → Child) : List Child → Option (List Child)
  | [] => none
  | child :: rest =>
      if test child then some (change child :: rest)
      else (alterFirst test change rest).map (child :: ·)

namespace Supervisor

/-- `[[ -n $PID ]] && kill -TERM "$PID"`. -/
def kill (target : Option ℕ) (s : Supervisor) : Supervisor :=
  { s with children := s.children.map (Child.told target) }

/-- `on_term`. -/
def onTerm (s : Supervisor) : Supervisor :=
  kill s.corePid (kill s.stackPid { s with ignoring := true, stopping := true })

/-- A command that ends in `&`. -/
def fork (binary : Binary) (s : Supervisor) : Supervisor :=
  { s with
    bang := s.bang + 1
    children := s.children ++ [{ binary, pid := s.bang + 1, deaf := s.ignoring }] }

/-- Take a child that has ended out of the job table. -/
def reap (pid : ℕ) (s : Supervisor) : Supervisor :=
  { s with children := s.children.filter (·.pid ≠ pid) }

/-- The children that have ended, with their exit statuses. -/
def gone (s : Supervisor) : List (ℕ × ℕ) :=
  s.children.filterMap fun child => child.ended.map (child.pid, ·)

/-- `wait -n -p reaped`, without the interruption. With no children left it returns 127. -/
def waitAny (pick : ℕ) (s : Supervisor) : Option Supervisor :=
  match s.gone[pick % s.gone.length]? with
  | some (pid, rc) => some { reap pid s with line := .branch (some pid) rc }
  | none => if s.children = [] then some { s with line := .branch none 127 } else none

/-- `wait "$PID"`, without the interruption: the status and the script after it. -/
def waitFor (pid : ℕ) (s : Supervisor) : Option (ℕ × Supervisor) :=
  match s.children.find? (·.pid = pid) with
  | some child => child.ended.map fun rc => (rc, reap pid s)
  | none => some (127, s)

/-- The tests after a `wait -n`. -/
def branchTo (s : Supervisor) (rc : ℕ) : Option ℕ → Line
  | none => if s.stopping = false ∧ 128 < rc then .waiting else .lastCore
  | some pid =>
      if s.corePid = some pid then .coreGone rc
      else if s.stackPid = some pid then .forgetStack
      else .waiting

/-- The next command. A `wait` for a child that is still running is not ready. -/
def shell (restart : Bool) (pick : ℕ) (s : Supervisor) : Option Supervisor :=
  match s.line with
  | .startCore => some { fork .core s with line := .noteCore }
  | .noteCore => some { s with corePid := some s.bang, line := .startStack }
  | .startStack => some { fork .stack s with line := .noteStack }
  | .noteStack => some { s with stackPid := some s.bang, line := .waiting }
  | .waiting => waitAny pick s
  | .branch reaped rc => some { s with line := branchTo s rc reaped }
  | .coreGone rc => some { s with coreStatus := rc, line := .forgetCore }
  | .forgetCore => some { s with corePid := none, line := .passOn }
  | .passOn => some { kill s.stackPid s with line := .setStopping }
  | .setStopping => some { s with stopping := true, line := .waiting }
  | .forgetStack => some { s with stackPid := none, line := .weigh }
  | .weigh =>
      some { s with line := if s.stopping = false ∧ restart then .sleeping else .waiting }
  | .sleeping => some { s with line := .recheck }
  | .recheck => some { s with line := if s.stopping then .waiting else .startStack }
  | .lastCore =>
      match s.corePid with
      | none => some { s with line := .lastStack }
      | some pid =>
          (waitFor pid s).map fun (rc, after) =>
            { after with coreStatus := rc, line := .lastStack }
  | .lastStack =>
      match s.stackPid with
      | none => some { s with line := .exited s.coreStatus }
      | some pid =>
          (waitFor pid s).map fun (_, after) => { after with line := .exited s.coreStatus }
  | .exited _ => none

/-- What a `wait` that the handler cut short does to the script. -/
def cutShort (number : ℕ) (s : Supervisor) : Supervisor :=
  match s.line with
  | .waiting => { s with line := .branch none (128 + number) }
  | .lastCore =>
      if s.corePid.isSome then { s with coreStatus := 128 + number, line := .lastStack } else s
  | .lastStack => if s.stackPid.isSome then { s with line := .exited s.coreStatus } else s
  | _ => s

/-- A signal. The first one sets the trap to ignore the others. -/
def signal (number : ℕ) (interrupts : Bool) (s : Supervisor) : Supervisor :=
  if s.ignoring then s
  else if interrupts then cutShort number (onTerm s)
  else onTerm s

/-- A child ends. -/
def ends (binary : Binary) (rc : ℕ) (test : Child → Bool) (s : Supervisor) : Option Supervisor :=
  (alterFirst (fun child => child.binary = binary ∧ child.ended = none ∧ test child)
    (fun child => { child with ended := some rc }) s.children).map fun children =>
      { s with children, coreEnd := if binary = .core then some rc else s.coreEnd }

/-- One step of the container. -/
def step (restart : Bool) (s : Supervisor) : SupervisorLabel → Option Supervisor
  | .shell pick => shell restart pick s
  | .signal number interrupts => some (signal number interrupts s)
  | .ends binary rc => ends binary rc (fun _ => true) s
  | .obeys binary rc => ends binary rc Child.termed s
  | .hears binary =>
      (alterFirst (fun child => child.binary = binary ∧ child.deaf)
        (fun child => { child with deaf := false }) s.children).map fun children =>
          { s with children }

/-! ## The job table -/

/-- Who is in a job table, in the order of their starts. -/
def roll (children : List Child) : List (Binary × ℕ) :=
  children.map fun child => (child.binary, child.pid)

theorem mem_roll {children : List Child} {child : Child} (hchild : child ∈ children) :
    (child.binary, child.pid) ∈ roll children :=
  List.mem_map_of_mem hchild

theorem exists_of_mem_roll {children : List Child} {binary : Binary} {pid : ℕ}
    (h : (binary, pid) ∈ roll children) :
    ∃ child ∈ children, child.binary = binary ∧ child.pid = pid := by
  obtain ⟨child, hchild, hpair⟩ := List.mem_map.mp h
  exact ⟨child, hchild, congrArg Prod.fst hpair, congrArg Prod.snd hpair⟩

theorem roll_told (target : Option ℕ) (children : List Child) :
    roll (children.map (Child.told target)) = roll children := by
  rw [roll, List.map_map, roll]
  apply List.map_congr_left
  intro child _
  simp

theorem roll_filter (children : List Child) (pid : ℕ) :
    roll (children.filter (·.pid ≠ pid)) = (roll children).filter (·.2 ≠ pid) := by
  rw [roll, roll, List.filter_map]
  rfl

theorem alterFirst_eq_some {test : Child → Bool} {change : Child → Child}
    {children altered : List Child} (h : alterFirst test change children = some altered) :
    ∃ left child right, children = left ++ child :: right ∧ test child = true ∧
      altered = left ++ change child :: right := by
  induction children generalizing altered with
  | nil => cases h
  | cons first rest ih =>
      rw [alterFirst] at h
      split_ifs at h with htest
      · cases h
        exact ⟨[], first, rest, rfl, htest, rfl⟩
      · obtain ⟨others, hothers, rfl⟩ := Option.map_eq_some_iff.mp h
        obtain ⟨left, child, right, rfl, hchild, rfl⟩ := ih hothers
        exact ⟨first :: left, child, right, rfl, hchild, rfl⟩

theorem mem_alterFirst {test : Child → Bool} {change : Child → Child}
    {children altered : List Child} (h : alterFirst test change children = some altered)
    {other : Child} (hother : other ∈ altered) :
    other ∈ children ∨ ∃ child ∈ children, other = change child := by
  obtain ⟨left, child, right, rfl, -, rfl⟩ := alterFirst_eq_some h
  obtain hleft | hright := List.mem_append.mp hother
  · exact .inl (List.mem_append_left _ hleft)
  · obtain rfl | hright := List.mem_cons.mp hright
    · exact .inr ⟨child, List.mem_append_right _ List.mem_cons_self, rfl⟩
    · exact .inl (List.mem_append_right _ (List.mem_cons_of_mem child hright))

theorem roll_alterFirst {test : Child → Bool} {change : Child → Child}
    {children altered : List Child} (h : alterFirst test change children = some altered)
    (hbinary : ∀ child, (change child).binary = child.binary)
    (hpid : ∀ child, (change child).pid = child.pid) : roll altered = roll children := by
  obtain ⟨left, child, right, rfl, -, rfl⟩ := alterFirst_eq_some h
  simp [roll, hbinary, hpid]

/-- The job table holds at most a core and a stack, under numbers that were given out,
and the core's entry says how it ended, if it has. -/
structure Table (children : List Child) (bang : ℕ) (coreEnd core stack : Option ℕ) : Prop where
  listed : roll children = core.toList.map (Binary.core, ·) ++ stack.toList.map (Binary.stack, ·)
  core_le : ∀ pid ∈ core, pid ≤ bang
  stack_le : ∀ pid ∈ stack, pid ≤ bang
  apart : ∀ pid ∈ core, pid ∉ stack
  recorded : ∀ child ∈ children, child.binary = .core → child.ended = coreEnd

namespace Table

variable {children altered : List Child} {bang : ℕ} {coreEnd core stack : Option ℕ}

/-- Every entry is the core's or the stack's. -/
theorem entry (h : Table children bang coreEnd core stack) {child : Child}
    (hchild : child ∈ children) :
    child.binary = .core ∧ core = some child.pid ∨
      child.binary = .stack ∧ stack = some child.pid := by
  have hroll := mem_roll hchild
  rw [h.listed] at hroll
  simp only [List.mem_append, List.mem_map, Option.mem_toList, Prod.mk.injEq] at hroll
  obtain ⟨pid, hpid, hbinary, rfl⟩ | ⟨pid, hpid, hbinary, rfl⟩ := hroll
  · exact .inl ⟨hbinary.symm, hpid⟩
  · exact .inr ⟨hbinary.symm, hpid⟩

theorem exists_core {pid : ℕ} (h : Table children bang coreEnd (some pid) stack) :
    ∃ child ∈ children, child.binary = .core ∧ child.pid = pid := by
  apply exists_of_mem_roll
  rw [h.listed]
  exact List.mem_cons_self

theorem exists_stack {pid : ℕ} (h : Table children bang coreEnd core (some pid)) :
    ∃ child ∈ children, child.binary = .stack ∧ child.pid = pid := by
  apply exists_of_mem_roll
  rw [h.listed]
  exact List.mem_append_right _ List.mem_cons_self

/-- The status of the core's entry is the core's. -/
theorem core_ended {child : Child} {rc : ℕ} (hchild : child ∈ children)
    (h : Table children bang coreEnd (some child.pid) stack) (hended : child.ended = some rc) :
    coreEnd = some rc := by
  obtain ⟨hbinary, -⟩ | ⟨-, hstack⟩ := h.entry hchild
  · exact (h.recorded child hchild hbinary).symm.trans hended
  · exact absurd hstack (h.apart child.pid rfl)

theorem nodup (h : Table children bang coreEnd core stack) : (roll children).Nodup := by
  rw [h.listed]
  cases core <;> cases stack <;> simp

/-- There are no two entries of one kind. -/
theorem alone {left right : List Child} {child other : Child}
    (h : Table (left ++ child :: right) bang coreEnd core stack) (hother : other ∈ left ++ right) :
    other.binary ≠ child.binary := by
  intro hsame
  have hnodup : (roll (child :: (left ++ right))).Nodup :=
    (List.perm_middle.map _).nodup_iff.mp h.nodup
  apply (List.nodup_cons.mp hnodup).1
  have hmem : other ∈ left ++ child :: right :=
    List.perm_middle.symm.subset (List.mem_cons_of_mem child hother)
  have hentry := h.entry (List.mem_append_right left List.mem_cons_self)
  have hentryOther := h.entry hmem
  have hpid : other.pid = child.pid := by
    rw [hsame] at hentryOther
    obtain ⟨hbinary, hcore⟩ | ⟨hbinary, hstack⟩ := hentry
    · simp_all
    · simp_all
  have hroll := mem_roll hother
  rw [hsame, hpid] at hroll
  exact hroll

theorem told (h : Table children bang coreEnd core stack) (target : Option ℕ) :
    Table (children.map (Child.told target)) bang coreEnd core stack where
  listed := (roll_told target children).trans h.listed
  core_le := h.core_le
  stack_le := h.stack_le
  apart := h.apart
  recorded := by
    intro child hchild hbinary
    obtain ⟨before, hbefore, rfl⟩ := List.mem_map.mp hchild
    rw [Child.told_binary] at hbinary
    rw [Child.told_ended]
    exact h.recorded before hbefore hbinary

theorem reapCore {pid : ℕ} (h : Table children bang coreEnd (some pid) stack) :
    Table (children.filter (·.pid ≠ pid)) bang coreEnd none stack where
  listed := by
    have hother := h.apart pid rfl
    rw [roll_filter, h.listed]
    cases stack with
    | none => simp
    | some other => simp_all [eq_comm]
  core_le := nofun
  stack_le := h.stack_le
  apart := nofun
  recorded child hchild := h.recorded child (List.mem_of_mem_filter hchild)

theorem reapStack {pid : ℕ} (h : Table children bang coreEnd core (some pid)) :
    Table (children.filter (·.pid ≠ pid)) bang coreEnd core none where
  listed := by
    have hother := h.apart
    rw [roll_filter, h.listed]
    cases core with
    | none => simp
    | some other => simp_all [eq_comm]
  core_le := h.core_le
  stack_le := nofun
  apart := by simp
  recorded child hchild := h.recorded child (List.mem_of_mem_filter hchild)

theorem forkCore (h : Table children bang none none none) (deaf : Bool) :
    Table (children ++ [{ binary := .core, pid := bang + 1, deaf }]) (bang + 1) none
      (some (bang + 1)) none where
  listed := by
    have hempty : roll children = [] := h.listed
    rw [roll, List.map_append, ← roll, hempty]
    rfl
  core_le := by simp
  stack_le := nofun
  apart := by simp
  recorded := by
    intro child hchild hbinary
    obtain hold | hnew := List.mem_append.mp hchild
    · exact h.recorded child hold hbinary
    · cases List.mem_singleton.mp hnew
      rfl

theorem forkStack (h : Table children bang coreEnd core none) (deaf : Bool) :
    Table (children ++ [{ binary := .stack, pid := bang + 1, deaf }]) (bang + 1) coreEnd core
      (some (bang + 1)) where
  listed := by
    rw [roll, List.map_append, ← roll, h.listed]
    simp
  core_le pid hpid := (h.core_le pid hpid).trans (Nat.le_succ bang)
  stack_le := by simp
  apart := by
    intro pid hpid hsame
    cases hsame
    exact absurd (h.core_le _ hpid) (Nat.not_succ_le_self bang)
  recorded := by
    intro child hchild hbinary
    obtain hold | hnew := List.mem_append.mp hchild
    · exact h.recorded child hold hbinary
    · cases List.mem_singleton.mp hnew
      cases hbinary

theorem ended (h : Table children bang coreEnd core stack) {binary : Binary} {rc : ℕ}
    {test : Child → Bool}
    (halter : alterFirst (fun child => child.binary = binary ∧ child.ended = none ∧ test child)
      (fun child => { child with ended := some rc }) children = some altered) :
    Table altered bang (if binary = .core then some rc else coreEnd) core stack where
  listed := (roll_alterFirst halter (fun _ => rfl) fun _ => rfl).trans h.listed
  core_le := h.core_le
  stack_le := h.stack_le
  apart := h.apart
  recorded := by
    obtain ⟨left, child, right, rfl, htest, rfl⟩ := alterFirst_eq_some halter
    obtain ⟨hbinary, -, -⟩ := of_decide_eq_true htest
    intro other hother hcore
    obtain rfl | hrest : other = { child with ended := some rc } ∨ other ∈ left ++ right := by
      simp only [List.mem_append, List.mem_cons] at hother ⊢
      tauto
    · rw [if_pos (hbinary.symm.trans hcore)]
    · have hdiffers := h.alone hrest
      rw [hcore, hbinary] at hdiffers
      rw [if_neg hdiffers.symm]
      exact h.recorded other (List.perm_middle.symm.subset (List.mem_cons_of_mem child hrest)) hcore

theorem heard (h : Table children bang coreEnd core stack) {test : Child → Bool}
    (halter : alterFirst test (fun child => { child with deaf := false }) children =
      some altered) :
    Table altered bang coreEnd core stack where
  listed := (roll_alterFirst halter (fun _ => rfl) fun _ => rfl).trans h.listed
  core_le := h.core_le
  stack_le := h.stack_le
  apart := h.apart
  recorded := by
    intro other hother
    obtain hsame | ⟨child, hchild, rfl⟩ := mem_alterFirst halter hother
    · exact h.recorded other hsame
    · exact h.recorded child hchild

end Table

/-! ## What the script knows -/

/-- A core that is gone has been accounted for. -/
def Accounted (s : Supervisor) (core : Option ℕ) : Prop :=
  core = none → s.stopping = true ∧ s.coreEnd = some s.coreStatus

/-- How the variables stand to the job table, line by line. -/
def Stands (s : Supervisor) (core stack : Option ℕ) : Line → Prop
  | .startCore =>
      core = none ∧ stack = none ∧ s.corePid = none ∧ s.stackPid = none ∧ s.coreEnd = none
  | .noteCore => core = some s.bang ∧ stack = none ∧ s.corePid = none ∧ s.stackPid = none
  | .startStack => core.isSome ∧ s.corePid = core ∧ stack = none ∧ s.stackPid = none
  | .noteStack => core.isSome ∧ s.corePid = core ∧ stack = some s.bang ∧ s.stackPid = none
  | .waiting => s.corePid = core ∧ s.stackPid = stack ∧ Accounted s core
  | .branch none _ | .lastCore =>
      s.corePid = core ∧ s.stackPid = stack ∧ Accounted s core ∧
        (s.ignoring = true ∨ core = none ∧ stack = none)
  | .branch (some pid) rc =>
      core = none ∧ s.corePid = some pid ∧ s.stackPid = stack ∧ s.coreEnd = some rc ∨
        stack = none ∧ s.stackPid = some pid ∧ s.corePid = core ∧ pid ∉ core ∧ Accounted s core
  | .coreGone rc => core = none ∧ s.stackPid = stack ∧ s.coreEnd = some rc
  | .forgetCore => core = none ∧ s.stackPid = stack ∧ s.coreEnd = some s.coreStatus
  | .passOn | .setStopping =>
      core = none ∧ s.corePid = none ∧ s.stackPid = stack ∧ s.coreEnd = some s.coreStatus
  | .forgetStack => stack = none ∧ s.corePid = core ∧ Accounted s core
  | .weigh | .sleeping | .recheck =>
      stack = none ∧ s.stackPid = none ∧ s.corePid = core ∧ Accounted s core
  | .lastStack =>
      core = none ∧ s.stackPid = stack ∧ s.coreEnd = some s.coreStatus ∧
        (s.ignoring = true ∨ stack = none)
  | .exited status => core = none ∧ stack = none ∧ s.coreEnd = some status

/-- The invariant of the script. -/
structure Kept (s : Supervisor) (core stack : Option ℕ) : Prop where
  table : Table s.children s.bang s.coreEnd core stack
  stands : Stands s core stack s.line

theorem kept_start : Kept {} none none where
  table := ⟨rfl, nofun, nofun, nofun, nofun⟩
  stands := ⟨rfl, rfl, rfl, rfl, rfl⟩

variable {s next : Supervisor} {core stack : Option ℕ} {restart : Bool}

theorem Accounted.onTerm (h : Accounted s core) : Accounted (onTerm s) core :=
  fun hcore => ⟨rfl, (h hcore).2⟩

/-- The handler spoils nothing the script relies on. -/
theorem Stands.onTerm {line : Line} (h : Stands s core stack line) :
    Stands (onTerm s) core stack line := by
  cases line with
  | waiting =>
      obtain ⟨hcore, hstack, haccounted⟩ := h
      exact ⟨hcore, hstack, haccounted.onTerm⟩
  | lastCore =>
      obtain ⟨hcore, hstack, haccounted, -⟩ := h
      exact ⟨hcore, hstack, haccounted.onTerm, .inl rfl⟩
  | branch reaped rc =>
      cases reaped with
      | none =>
          obtain ⟨hcore, hstack, haccounted, -⟩ := h
          exact ⟨hcore, hstack, haccounted.onTerm, .inl rfl⟩
      | some pid =>
          apply h.imp_right
          rintro ⟨hstack, hstackPid, hcorePid, hother, haccounted⟩
          exact ⟨hstack, hstackPid, hcorePid, hother, haccounted.onTerm⟩
  | forgetStack =>
      obtain ⟨hstack, hcore, haccounted⟩ := h
      exact ⟨hstack, hcore, haccounted.onTerm⟩
  | weigh | sleeping | recheck =>
      obtain ⟨hstack, hstackPid, hcore, haccounted⟩ := h
      exact ⟨hstack, hstackPid, hcore, haccounted.onTerm⟩
  | lastStack =>
      obtain ⟨hcore, hstack, hend, -⟩ := h
      exact ⟨hcore, hstack, hend, .inl rfl⟩
  | startCore | noteCore | startStack | noteStack | coreGone | forgetCore | passOn
  | setStopping | exited => exact h

theorem Kept.onTerm (h : Kept s core stack) : Kept (onTerm s) core stack where
  table := (h.table.told s.stackPid).told s.corePid
  stands := h.stands.onTerm

/-- A handler that comes in the middle of a last `wait` would cost the script its
child's status. It does not come: by then the signals are ignored, or there is nothing
to wait for. So only a `wait -n` is ever cut short. -/
theorem Kept.cutShort_cases (h : Kept s core stack) (hignoring : s.ignoring = false) (number : ℕ) :
    cutShort number (Supervisor.onTerm s) = Supervisor.onTerm s ∨
      s.line = .waiting ∧ cutShort number (Supervisor.onTerm s) =
        { Supervisor.onTerm s with line := .branch none (128 + number) } := by
  have hstands := h.stands
  simp only [cutShort, Supervisor.onTerm, kill]
  cases hline : s.line with
  | waiting => exact .inr ⟨rfl, rfl⟩
  | lastCore =>
      rw [hline] at hstands
      obtain ⟨hcorePid, -, -, hwaits⟩ := hstands
      obtain ⟨hcore, -⟩ := hwaits.resolve_left (by rw [hignoring]; decide)
      refine .inl ?_
      simp [hcorePid, hcore]
  | lastStack =>
      rw [hline] at hstands
      obtain ⟨-, hstackPid, -, hwaits⟩ := hstands
      have hstack := hwaits.resolve_left (by rw [hignoring]; decide)
      refine .inl ?_
      simp [hstackPid, hstack]
  | _ => exact .inl rfl

theorem Kept.signal (h : Kept s core stack) (number : ℕ) (interrupts : Bool) :
    Kept (signal number interrupts s) core stack := by
  have hafter := h.onTerm
  simp only [Supervisor.signal]
  split_ifs with hignoring hinterrupts
  · exact h
  · obtain hsame | ⟨hline, hcut⟩ := h.cutShort_cases (Bool.eq_false_iff.mpr hignoring) number
    · rw [hsame]
      exact hafter
    · have hstands := hafter.stands
      rw [show (Supervisor.onTerm s).line = .waiting from hline] at hstands
      obtain ⟨hcore, hstack, haccounted⟩ := hstands
      rw [hcut]
      exact ⟨hafter.table, hcore, hstack, haccounted, .inl rfl⟩
  · exact hafter

theorem mem_gone {pid rc : ℕ} (h : (pid, rc) ∈ s.gone) :
    ∃ child ∈ s.children, child.pid = pid ∧ child.ended = some rc := by
  obtain ⟨child, hchild, hended⟩ := List.mem_filterMap.mp h
  obtain ⟨status, hstatus, hpair⟩ := Option.map_eq_some_iff.mp hended
  cases hpair
  exact ⟨child, hchild, rfl, hstatus⟩

/-- `wait -n` reaps the core or the stack, and the script will know which. -/
theorem Kept.waitAny (h : Kept s core stack) (hline : s.line = .waiting) {pick : ℕ}
    (hwait : waitAny pick s = some next) :
    ∃ core stack, Kept next core stack := by
  have hstands := h.stands
  rw [hline] at hstands
  obtain ⟨hcorePid, hstackPid, haccounted⟩ := hstands
  simp only [Supervisor.waitAny] at hwait
  split at hwait
  · rename_i pid rc hpicked
    cases hwait
    obtain ⟨child, hchild, rfl, hended⟩ := mem_gone (List.mem_of_getElem? hpicked)
    have htable := h.table
    obtain ⟨-, rfl⟩ | ⟨-, rfl⟩ := htable.entry hchild
    · exact ⟨none, stack, htable.reapCore,
        .inl ⟨rfl, hcorePid, hstackPid, htable.core_ended hchild hended⟩⟩
    · refine ⟨core, none, htable.reapStack, .inr ⟨rfl, hstackPid, hcorePid, ?_, haccounted⟩⟩
      intro hcore
      exact htable.apart child.pid hcore rfl
  · split_ifs at hwait with hempty
    cases hwait
    have hroll := h.table.listed
    rw [hempty] at hroll
    obtain ⟨hcore, hstack⟩ : core = none ∧ stack = none := by
      cases core <;> cases stack <;> simp_all [roll]
    exact ⟨core, stack, h.table, hcorePid, hstackPid, haccounted, .inr ⟨hcore, hstack⟩⟩

/-- A `wait` for a child returns when it has ended, or at once if there is no such
child. -/
theorem waitFor_cases {pid rc : ℕ} {after : Supervisor} (hwait : waitFor pid s = some (rc, after)) :
    (after = reap pid s ∧ ∃ child ∈ s.children, child.pid = pid ∧ child.ended = some rc) ∨
      after = s ∧ ∀ child ∈ s.children, child.pid ≠ pid := by
  simp only [waitFor] at hwait
  split at hwait
  · rename_i child hfound
    obtain ⟨status, hstatus, hpair⟩ := Option.map_eq_some_iff.mp hwait
    cases hpair
    have hpid : child.pid = pid := by simpa using List.find?_some hfound
    exact .inl ⟨rfl, child, List.mem_of_find?_eq_some hfound, hpid, hstatus⟩
  · rename_i hfound
    cases hwait
    exact .inr ⟨rfl, by simpa using hfound⟩

/-- One command keeps the invariant. -/
theorem Kept.shell (h : Kept s core stack) {pick : ℕ} (hshell : shell restart pick s = some next) :
    ∃ core stack, Kept next core stack := by
  have htable := h.table
  have hstands := h.stands
  simp only [Supervisor.shell] at hshell
  cases hline : s.line with
  | startCore =>
      simp only [hline, Option.some.injEq] at hshell hstands
      obtain ⟨rfl, rfl, hcorePid, hstackPid, hend⟩ := hstands
      rw [hend] at htable
      subst hshell
      refine ⟨some (s.bang + 1), none, ?_, rfl, rfl, hcorePid, hstackPid⟩
      simpa only [fork, hend] using htable.forkCore s.ignoring
  | noteCore =>
      simp only [hline, Option.some.injEq] at hshell hstands
      obtain ⟨hcore, hstack, -, hstackPid⟩ := hstands
      subst hshell
      exact ⟨core, stack, htable, by rw [hcore]; rfl, hcore.symm, hstack, hstackPid⟩
  | startStack =>
      simp only [hline, Option.some.injEq] at hshell hstands
      obtain ⟨hcore, hcorePid, rfl, hstackPid⟩ := hstands
      subst hshell
      exact ⟨core, some (s.bang + 1), htable.forkStack s.ignoring, hcore, hcorePid, rfl, hstackPid⟩
  | noteStack =>
      simp only [hline, Option.some.injEq] at hshell hstands
      obtain ⟨hcore, hcorePid, hstack, -⟩ := hstands
      subst hshell
      refine ⟨core, stack, htable, hcorePid, hstack.symm, ?_⟩
      rintro rfl
      cases hcore
  | waiting =>
      simp only [hline] at hshell
      exact h.waitAny hline hshell
  | branch reaped rc =>
      simp only [hline, Option.some.injEq] at hshell hstands
      subst hshell
      refine ⟨core, stack, htable, ?_⟩
      cases reaped with
      | none =>
          obtain ⟨hcorePid, hstackPid, haccounted, hwaits⟩ := hstands
          simp only [branchTo]
          split_ifs
          · exact ⟨hcorePid, hstackPid, haccounted⟩
          · exact ⟨hcorePid, hstackPid, haccounted, hwaits⟩
      | some pid =>
          obtain ⟨hcore, hcorePid, hstackPid, hend⟩ |
            ⟨hstack, hstackPid, hcorePid, hother, haccounted⟩ := hstands
          · simp only [branchTo, hcorePid, if_true]
            exact ⟨hcore, hstackPid, hend⟩
          · have hdiffers : s.corePid ≠ some pid := by
              rw [hcorePid]
              exact hother
            simp only [branchTo, hdiffers, hstackPid, if_true, if_false]
            exact ⟨hstack, hcorePid, haccounted⟩
  | coreGone rc =>
      simp only [hline, Option.some.injEq] at hshell hstands
      obtain ⟨hcore, hstackPid, hend⟩ := hstands
      subst hshell
      exact ⟨core, stack, htable, hcore, hstackPid, hend⟩
  | forgetCore =>
      simp only [hline, Option.some.injEq] at hshell hstands
      obtain ⟨hcore, hstackPid, hend⟩ := hstands
      subst hshell
      exact ⟨core, stack, htable, hcore, rfl, hstackPid, hend⟩
  | passOn =>
      simp only [hline, Option.some.injEq] at hshell hstands
      subst hshell
      exact ⟨core, stack, htable.told s.stackPid, hstands⟩
  | setStopping =>
      simp only [hline, Option.some.injEq] at hshell hstands
      obtain ⟨hcore, hcorePid, hstackPid, hend⟩ := hstands
      subst hshell
      exact ⟨core, stack, htable, hcorePid.trans hcore.symm, hstackPid, fun _ => ⟨rfl, hend⟩⟩
  | forgetStack =>
      simp only [hline, Option.some.injEq] at hshell hstands
      obtain ⟨hstack, hcorePid, haccounted⟩ := hstands
      subst hshell
      exact ⟨core, stack, htable, hstack, rfl, hcorePid, haccounted⟩
  | weigh =>
      simp only [hline, Option.some.injEq] at hshell hstands
      obtain ⟨hstack, hstackPid, hcorePid, haccounted⟩ := hstands
      subst hshell
      refine ⟨core, stack, htable, ?_⟩
      show Stands _ core stack (if _ then Line.sleeping else .waiting)
      split_ifs
      · exact ⟨hstack, hstackPid, hcorePid, haccounted⟩
      · exact ⟨hcorePid, hstackPid.trans hstack.symm, haccounted⟩
  | sleeping =>
      simp only [hline, Option.some.injEq] at hshell hstands
      subst hshell
      exact ⟨core, stack, htable, hstands⟩
  | recheck =>
      simp only [hline, Option.some.injEq] at hshell hstands
      obtain ⟨hstack, hstackPid, hcorePid, haccounted⟩ := hstands
      subst hshell
      refine ⟨core, stack, htable, ?_⟩
      show Stands _ core stack (if _ then Line.waiting else .startStack)
      split_ifs with hstopping
      · exact ⟨hcorePid, hstackPid.trans hstack.symm, haccounted⟩
      · refine ⟨?_, hcorePid, hstack, hstackPid⟩
        -- a core that is gone would have set `STOPPING`
        cases core with
        | none => exact absurd (haccounted rfl).1 hstopping
        | some pid => rfl
  | lastCore =>
      simp only [hline] at hshell hstands
      obtain ⟨hcorePid, hstackPid, haccounted, hwaits⟩ := hstands
      cases core with
      | none =>
          simp only [hcorePid, Option.some.injEq] at hshell
          subst hshell
          exact ⟨none, stack, htable, rfl, hstackPid, (haccounted rfl).2,
            hwaits.imp_right And.right⟩
      | some pid =>
          simp only [hcorePid, Option.map_eq_some_iff] at hshell
          obtain ⟨⟨rc, after⟩, hwait, rfl⟩ := hshell
          obtain ⟨child, hchild, -, hpid⟩ := htable.exists_core
          obtain ⟨rfl, other, hother, rfl, hrc⟩ | ⟨-, hnobody⟩ := waitFor_cases hwait
          · refine ⟨none, stack, htable.reapCore, rfl, hstackPid, htable.core_ended hother hrc, ?_⟩
            exact .inl (hwaits.resolve_right fun hnone => Option.some_ne_none _ hnone.1)
          · exact absurd hpid (hnobody child hchild)
  | lastStack =>
      simp only [hline] at hshell hstands
      obtain ⟨rfl, hstackPid, hend, hwaits⟩ := hstands
      cases stack with
      | none =>
          simp only [hstackPid, Option.some.injEq] at hshell
          subst hshell
          exact ⟨none, none, htable, rfl, rfl, hend⟩
      | some pid =>
          simp only [hstackPid, Option.map_eq_some_iff] at hshell
          obtain ⟨⟨rc, after⟩, hwait, rfl⟩ := hshell
          obtain ⟨child, hchild, -, hpid⟩ := htable.exists_stack
          obtain ⟨rfl, -⟩ | ⟨-, hnobody⟩ := waitFor_cases hwait
          · exact ⟨none, none, htable.reapStack, rfl, rfl, hend⟩
          · exact absurd hpid (hnobody child hchild)
  | exited status => simp [hline] at hshell

/-- While the core is in the table, how it ended is not yet looked at. -/
theorem Stands.coreEnds {pid : ℕ} {line : Line} (h : Stands s (some pid) stack line)
    (children : List Child) (coreEnd : Option ℕ) :
    Stands { s with children, coreEnd } (some pid) stack line := by
  cases line with
  | waiting => exact ⟨h.1, h.2.1, nofun⟩
  | branch reaped rc =>
      cases reaped with
      | none => exact ⟨h.1, h.2.1, nofun, h.2.2.2⟩
      | some reaped =>
          obtain ⟨hcore, -⟩ | ⟨hstack, hstackPid, hcorePid, hother, -⟩ := h
          · cases hcore
          · exact .inr ⟨hstack, hstackPid, hcorePid, hother, nofun⟩
  | lastCore => exact ⟨h.1, h.2.1, nofun, h.2.2.2⟩
  | forgetStack => exact ⟨h.1, h.2.1, nofun⟩
  | weigh | sleeping | recheck => exact ⟨h.1, h.2.1, h.2.2.1, nofun⟩
  | noteCore | startStack | noteStack => exact h
  | startCore | coreGone | forgetCore | passOn | setStopping | lastStack | exited => cases h.1

theorem Kept.ends (h : Kept s core stack) {binary : Binary} {rc : ℕ} {test : Child → Bool}
    (hends : ends binary rc test s = some next) : Kept next core stack := by
  obtain ⟨children, halter, rfl⟩ := Option.map_eq_some_iff.mp hends
  refine ⟨h.table.ended halter, ?_⟩
  cases binary with
  | stack => exact h.stands
  | core =>
      obtain ⟨left, child, right, hchildren, htest, -⟩ := alterFirst_eq_some halter
      have hchild : child ∈ s.children := by
        rw [hchildren]
        exact List.mem_append_right left List.mem_cons_self
      obtain ⟨-, rfl⟩ | ⟨hbinary, -⟩ := h.table.entry hchild
      · exact h.stands.coreEnds children (some rc)
      · simp [hbinary] at htest

theorem Kept.step {label : SupervisorLabel} (h : Kept s core stack)
    (hstep : step restart s label = some next) : ∃ core stack, Kept next core stack := by
  cases label with
  | shell pick => exact h.shell hstep
  | signal number interrupts =>
      cases hstep
      exact ⟨core, stack, h.signal number interrupts⟩
  | ends binary rc => exact ⟨core, stack, h.ends hstep⟩
  | obeys binary rc => exact ⟨core, stack, h.ends hstep⟩
  | hears binary =>
      obtain ⟨children, halter, rfl⟩ := Option.map_eq_some_iff.mp hstep
      exact ⟨core, stack, h.table.heard halter, h.stands⟩

/-- The invariant holds in every state the container can come to. -/
theorem kept_of_exec {schedule : List SupervisorLabel}
    (hrun : exec (Supervisor.step restart) {} schedule = some s) :
    ∃ core stack, Kept s core stack := by
  apply exec_invariant_all _ ⟨none, none, kept_start⟩ hrun
  rintro state label next ⟨core, stack, hkept⟩ hstep
  exact hkept.step hstep

/-! ## One stack, one core -/

end Supervisor

end SoftPlc.App
