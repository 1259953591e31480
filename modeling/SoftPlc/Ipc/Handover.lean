/-
# Handing over an instance name

A core that stops closes its region while the core that replaces it creates its
own under the same name. The lock decides who may take the name: as long as the
old core holds it, the new one is refused.

But `plc_shm_close` closes the descriptor, and so gives up the lock, before it
removes the name. In between the new core may find the lock free, replace the
region and succeed. The old core then removes the name of a region that is not
its own, and nobody can find the new core any more.
-/

import SoftPlc.Ipc.Shm
import SoftPlc.Math.Run

namespace SoftPlc.Ipc

open SoftPlc.Math SoftPlc.Posix

/-- The process that owns the region, and the one that wants the name. -/
inductive Party
  | owner
  | claimant
  deriving DecidableEq, Repr

theorem claimant_ne_owner : Party.claimant ≠ .owner := nofun

/-- The owner in its `plc_shm_close`, unless it was killed, and the claimant in its
`plc_shm_create`. -/
structure Handover where
  kernel : Kernel Party
  owner : Option (Process ShmHandle)
  claimant : Process (ShmHandle × PlcStatus)

namespace Handover

/-- The moves: a request of either process, which may be refused memory, or the
owner is killed. -/
inductive Act
  | owner (granted : Bool)
  | claimant (granted : Bool)
  | kill
  deriving DecidableEq, Repr

/-- Both calls are about to begin. -/
def start (handle : ShmHandle) (kernel : Kernel Party) (claim : ShmHandle) (name : Name)
    (size : ℕ) : Handover :=
  { kernel := kernel
    owner := some (plcShmClose handle)
    claimant := plcShmCreate claim name size }

/-- One move. -/
def step (s : Handover) : Act → Option Handover
  | .owner granted =>
      s.owner.bind fun program =>
        (program.advance (Kernel.perform .owner) granted s.kernel).map fun (rest, kernel) =>
          { s with owner := some rest, kernel := kernel }
  | .claimant granted =>
      (s.claimant.advance (Kernel.perform .claimant) granted s.kernel).map fun (rest, kernel) =>
        { s with claimant := rest, kernel := kernel }
  | .kill =>
      s.owner.map fun _ => { s with owner := none, kernel := s.kernel.exit .owner }

/-- The owner removes the name only while there are no more than `first` regions,
that is, before the claimant has made one. -/
def InTime (name : Name) (first : ℕ) (s : Handover) : Act → Prop
  | .owner _ =>
      match s.owner with
      | some (.call (.shmUnlink unlinked) _) => unlinked = name → s.kernel.made ≤ first
      | _ => True
  | _ => True

instance (name : Name) (first : ℕ) (s : Handover) (act : Act) :
    Decidable (InTime name first s act) := by
  unfold InTime
  cases act with
  | owner granted => dsimp only; split <;> infer_instance
  | claimant granted => exact inferInstanceAs (Decidable True)
  | kill => exact inferInstanceAs (Decidable True)

/-- The removal of another name, or of this name in time, does not disturb the
claimant. -/
theorem undisturbed_shmUnlink {name unlinked : Name} {first : ℕ} {kernel : Kernel Party}
    (hintime : unlinked = name → kernel.made ≤ first) (granted : Bool) :
    Undisturbed .claimant name first kernel
      (Kernel.perform .owner (.shmUnlink unlinked) granted kernel).2 where
  files := rfl
  lock := fun _ _ hlock => hlock
  made := Nat.le_refl _
  maker := fun _ _ => rfl
  words := fun _ _ => rfl
  names := by
    intro hmade
    by_cases hsame : unlinked = name
    · exact absurd (hintime hsame) (Nat.not_le.mpr hmade)
    · exact Function.update_of_ne (Ne.symm hsame) ..

/-! ## Runs -/

/-- The claimant is on its way to a region of its own. -/
structure Inv (name : Name) (first size : ℕ) (s : Handover) : Prop where
  owner : ∀ program ∈ s.owner, program.Uses CloseCall
  claimant : s.claimant.Sat (Kernel.perform .claimant) (Undisturbed .claimant name first)
    (fun _ _ => True) (CreateResult .claimant name first size) s.kernel

theorem Inv.start (handle : ShmHandle) (kernel : Kernel Party) (claim : ShmHandle) (name : Name)
    (size : ℕ) : Inv name kernel.made size (Handover.start handle kernel claim name size) where
  owner := by
    intro program hprogram
    cases hprogram
    exact plcShmClose_uses handle
  claimant := plcShmCreate_sat (fun _ _ h => h) (fun _ => trivial) (fun _ _ _ _ => trivial)
    (Nat.le_refl _) claim size

theorem Inv.step {name : Name} {first size : ℕ} {s next : Handover} {act : Act}
    (h : Inv name first size s) (hintime : InTime name first s act)
    (hstep : s.step act = some next) : Inv name first size next := by
  cases act with
  | owner granted =>
      obtain ⟨program, hprogram, hadvance⟩ := Option.bind_eq_some_iff.mp hstep
      obtain ⟨⟨rest, kernel⟩, hrest, rfl⟩ := Option.map_eq_some_iff.mp hadvance
      have huses := h.owner program hprogram
      refine ⟨fun later hmem => Option.some.inj hmem ▸ huses.advanced hrest,
        h.claimant.disturbed ?_⟩
      cases program with
      | done value => cases hrest
      | call request resume =>
          cases hrest
          rcases huses.1 with hquiet | ⟨unlinked, rfl⟩
          · exact undisturbed_of_untouched claimant_ne_owner
              (Kernel.perform_untouched .owner hquiet granted s.kernel)
          · have hunlink : unlinked = name → s.kernel.made ≤ first := by
              simpa only [InTime, hprogram] using hintime
            exact undisturbed_shmUnlink hunlink granted
  | claimant granted =>
      obtain ⟨⟨rest, kernel⟩, hrest, rfl⟩ := Option.map_eq_some_iff.mp hstep
      exact ⟨h.owner, (h.claimant.advanced hrest).2⟩
  | kill =>
      obtain ⟨program, -, rfl⟩ := Option.map_eq_some_iff.mp hstep
      refine ⟨fun _ hmem => (Option.not_mem_none _ hmem).elim, h.claimant.disturbed ?_⟩
      exact undisturbed_of_untouched claimant_ne_owner (s.kernel.exit_untouched .owner)

/-- A claimant that finds the region locked is refused, and leaves the name alone. -/
theorem plcShmCreate_refused {name : Name} {first region fd size : ℕ} {kernel : Kernel Party}
    (hcreated : Created .owner name first region fd kernel) (hsize : size ≠ 0)
    (claim : ShmHandle) (fallback : Bool) (choices : List Bool) :
    ((plcShmCreate claim name size).run (Kernel.perform .claimant) fallback choices
        kernel).1.2 = .errState ∧
      ((plcShmCreate claim name size).run (Kernel.perform .claimant) fallback choices
        kernel).2.names = kernel.names := by
  have hfile : (kernel.openFile .claimant region).2.files .claimant
      (kernel.openFile .claimant region).1 = some region := by
    simp [Kernel.openFile]
  have hlock : (kernel.openFile .claimant region).2.lock region = some (.owner, fd) :=
    hcreated.lock
  simp only [plcShmCreate, if_neg hsize, Program.ask_bind, Program.run, Kernel.perform,
    hcreated.names, plcShmProbe, hfile, hlock]
  have hother : ((Party.owner, fd) : Party × ℕ) ≠
      (.claimant, (kernel.openFile .claimant region).1) := by
    simp
  simp only [if_neg hother, Program.run, Kernel.perform, Program.pure_eq_done]
  exact ⟨rfl, (Kernel.closeFile_untouched _ Party.claimant _).names⟩

/-- **Handing over a name.** An owner has completed its create. In every
interleaving of its close, at any point of which it may be killed, with the create
of a claimant: if the owner removes the name only before the claimant has made a
region, then a claimant that succeeds holds the lock on the region the name stands
for, and made it. And a claimant that runs before the owner has begun to close is
refused and leaves the name to the owner. -/
theorem handover_keeps_name {shm handle : ShmHandle} {name : Name} {size : ℕ}
    {earlier kernel : Kernel Party} {fallback : Bool} {choices : List Bool}
    (hcreate : (plcShmCreate shm name size).run (Kernel.perform .owner) fallback choices earlier =
      ((handle, .ok), kernel))
    (claim : ShmHandle) {claimed : ℕ} (hclaimed : claimed ≠ 0) :
    (∀ schedule s result,
      exec step (start handle kernel claim name claimed) schedule = some s →
      Meets step (InTime name kernel.made) (start handle kernel claim name claimed) schedule →
      s.claimant.result = some (result, .ok) →
      ∃ region fd : ℕ, result.fd = fd ∧ s.kernel.maker region = some .claimant ∧
        s.kernel.names name = some region ∧ s.kernel.lock region = some (.claimant, fd)) ∧
      ∀ (later : Bool) (refusals : List Bool),
        ((plcShmCreate claim name claimed).run (Kernel.perform .claimant) later refusals
            kernel).1.2 = .errState ∧
          ((plcShmCreate claim name claimed).run (Kernel.perform .claimant) later refusals
            kernel).2.names name = handle.base := by
  refine ⟨?_, ?_⟩
  · intro schedule s result hrun hmeets hresult
    have hinv : Inv name kernel.made claimed s :=
      exec_invariant (fun _ _ _ hinv hok hstep => hinv.step hok hstep)
        (Inv.start handle kernel claim name claimed) hmeets hrun
    obtain ⟨region, fd, hhandle, hcreated⟩ := hinv.claimant.ended hresult rfl
    exact ⟨region, fd, congrArg ShmHandle.fd hhandle, hcreated.maker, hcreated.names,
      hcreated.lock⟩
  · intro later refusals
    have hsat : (plcShmCreate shm name size).Sat (Kernel.perform .owner) (fun _ _ => False)
        (fun _ _ => True) (CreateResult .owner name 0 size) earlier :=
      plcShmCreate_sat (fun _ _ h => h.elim) (fun _ => trivial) (fun _ _ _ _ => trivial)
        (Nat.zero_le _) shm size
    have howned := hsat.run fallback choices
    rw [hcreate] at howned
    obtain ⟨region, fd, rfl, hcreated⟩ := howned rfl
    obtain ⟨hstatus, hnames⟩ :=
      plcShmCreate_refused hcreated hclaimed claim later refusals
    exact ⟨hstatus, (congrFun hnames name).trans hcreated.names⟩

/-- The name of the default instance. -/
def defaultName : Name := "/softplc.default.eip".toList

/-- A core that has created its region on a machine without any. -/
def running : (ShmHandle × PlcStatus) × Kernel Party :=
  (plcShmCreate (ShmHandle.named []) defaultName 64).run (Kernel.perform .owner) true []
    Kernel.empty

/-- The old core is stopped while a new one starts. -/
def restart : Handover := start running.1.1 running.2 (ShmHandle.named []) defaultName 64

/-- The old core unmaps and closes; the new one creates; then the old one unlinks. -/
def lateUnlink : List Act :=
  [.owner true, .owner true] ++ List.replicate 10 (.claimant true) ++ [.owner true]

/-- The new core succeeds and cannot be found. -/
theorem lateUnlink_removes_claimant :
    ∃ s, exec step restart lateUnlink = some s ∧
      s.claimant.result.map Prod.snd = some .ok ∧ s.kernel.names defaultName = none := by
  have hview : (exec step restart lateUnlink).map
      (fun s => (s.claimant.result.map Prod.snd, s.kernel.names defaultName)) =
      some (some .ok, none) := by
    decide +kernel
  obtain ⟨s, hrun, hvalues⟩ := Option.map_eq_some_iff.mp hview
  exact ⟨s, hrun, congrArg Prod.fst hvalues, congrArg Prod.snd hvalues⟩

/-- The new core finds the region, the old one closes and unlinks, the new one goes
on. -/
def promptUnlink : List Act :=
  [.claimant true, .owner true, .owner true, .owner true] ++ List.replicate 9 (.claimant true)

theorem handover_keeps_name_promptUnlink :
    ∃ s region, exec step restart promptUnlink = some s ∧
      s.kernel.names defaultName = some region ∧ s.kernel.maker region = some .claimant := by
  have hview : (exec step restart promptUnlink).map
      (fun s => s.claimant.result.map Prod.snd) = some (some .ok) := by
    decide +kernel
  have hcreate : running = ((running.1.1, .ok), running.2) := by
    have hstatus : running.1.2 = .ok := by decide +kernel
    exact Prod.ext (Prod.ext rfl hstatus) rfl
  have hmeets : Meets step (InTime defaultName running.2.made) restart promptUnlink := by
    decide +kernel
  obtain ⟨s, hrun, hvalue⟩ := Option.map_eq_some_iff.mp hview
  obtain ⟨⟨result, status⟩, hresult, hstatus⟩ := Option.map_eq_some_iff.mp hvalue
  obtain rfl : status = .ok := hstatus
  obtain ⟨region, fd, -, hmaker, hnames, -⟩ :=
    (handover_keeps_name hcreate (ShmHandle.named []) (Nat.succ_ne_zero 63)).1
      promptUnlink s result hrun hmeets hresult
  exact ⟨s, region, hrun, hnames, hmaker⟩

end Handover

end SoftPlc.Ipc
