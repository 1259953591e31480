/-
# Handles after a failure

A create or an attach can fail at any of its system calls. It should then have closed
the descriptors it opened, and leave a handle that a close passes over: no mapping, no
descriptor, nothing to unlink.

A handle starts out zeroed, and zero is a descriptor. Every exit after the region was
opened sets it to `-1`, and so does an open that fails. A create that finds the region
locked by another process, or cannot lock it, leaves through an exit of its own, which
does not. A close of that handle closes descriptor zero, whatever it stands for.

The outcomes of the calls are arbitrary here, and not those of any kernel state.
-/

import SoftPlc.Ipc.Shm

namespace SoftPlc.Ipc

open SoftPlc.Math SoftPlc.Posix

/-- A request and its answer. -/
abbrev Event := Sigma Call.Answer

/-- The outcomes of the system calls, in order, whatever they are asked. -/
abbrev Outcomes := ℕ → (request : Call) → request.Answer

/-- The descriptors that are open, after one more call. -/
def heldAfter (held : List ℕ) : Event → List ℕ
  | ⟨.shmOpen _, .ok fd⟩ => fd :: held
  | ⟨.shmCreate _, .ok fd⟩ => fd :: held
  | ⟨.close fd, _⟩ => held.erase fd
  | _ => held

/-- The requests that unmap, unlink or close. -/
def Releases : Call → Prop
  | .munmap _ | .shmUnlink _ | .close _ => True
  | _ => False

/-- A close of the handle unmaps nothing, unlinks nothing and closes no descriptor. -/
def Inert (shm : ShmHandle) : Prop :=
  ∀ (outcomes : Outcomes) (index : ℕ),
    ∀ event ∈ ((plcShmClose shm).answered outcomes index).1, ¬ Releases event.1

/-- If the call fails, with some descriptors open from here on, it closes all of them and
leaves an inert handle. -/
def FailsClean (held : List ℕ) (log : List Event) (result : ShmHandle × PlcStatus) : Prop :=
  result.2 ≠ .ok → log.foldl heldAfter held = [] ∧ Inert result.1

/-! ## Inert handles -/

theorem inert_of_unused {shm : ShmHandle} (hbase : shm.base = none) (hfd : shm.fd < 0)
    (howner : shm.owner = false) : Inert shm := by
  intro outcomes index event hevent
  simp only [plcShmClose, hbase, if_neg (not_le.mpr hfd), howner, Bool.false_and] at hevent
  cases hevent

/-- The handle of every exit that sets the descriptor. -/
theorem inert_named (name : Name) : Inert { ShmHandle.named name with fd := -1 } := by
  apply inert_of_unused rfl _ rfl
  exact Int.negSucc_lt_zero 0

/-- The handle of the exit that does not. -/
theorem not_inert_named (name : Name) (outcomes : Outcomes) : ¬ Inert (ShmHandle.named name) := by
  intro hinert
  have hlog : ((plcShmClose (ShmHandle.named name)).answered outcomes 0).1 =
      [⟨.close 0, outcomes 0 (.close 0)⟩] := rfl
  have hreleases := hinert outcomes 0 ⟨.close 0, outcomes 0 (.close 0)⟩
  rw [hlog] at hreleases
  exact hreleases List.mem_cons_self trivial

/-! ## Clean failures -/

section Exits

variable (name : Name) (fd size : ℕ)

theorem plcShmCreateFail_clean (status : PlcStatus) :
    (plcShmCreateFail (ShmHandle.named name) name fd status).Always (FailsClean [fd]) := by
  refine Program.always_call fun closed => Program.always_call fun unlinked => ?_
  intro _
  exact ⟨List.erase_cons_head fd [], inert_named name⟩

/-- A create that went through. -/
theorem failsClean_of_ok {held : List ℕ} {log : List Event} (shm : ShmHandle) :
    FailsClean held log (shm, .ok) :=
  fun hfailed => absurd rfl hfailed

theorem plcShmFill_clean :
    (plcShmFill (ShmHandle.named name) name fd size).Always (FailsClean [fd]) := by
  refine Program.always_call fun truncated => ?_
  cases truncated with
  | error err => exact plcShmCreateFail_clean name fd .errIo
  | ok done =>
      refine Program.always_call fun allocated => ?_
      cases allocated with
      | error err => exact plcShmCreateFail_clean name fd .errIo
      | ok done =>
          refine Program.always_call fun mapped => ?_
          cases mapped with
          | error err => exact plcShmCreateFail_clean name fd .errNomem
          | ok base => exact Program.always_call fun cleared => failsClean_of_ok _

theorem plcShmLock_clean :
    (plcShmLock (ShmHandle.named name) name fd size).Always (FailsClean [fd]) := by
  refine Program.always_call fun locked => ?_
  cases locked with
  | error err => exact plcShmCreateFail_clean name fd .errIo
  | ok done => exact plcShmFill_clean name fd size

theorem plcShmReplace_clean :
    (plcShmReplace (ShmHandle.named name) name size).Always (FailsClean []) := by
  refine Program.always_call fun unlinked => Program.always_call fun created => ?_
  cases created with
  | error err => exact fun _ => ⟨rfl, inert_named name⟩
  | ok fd => exact plcShmLock_clean name fd size

/-- A probe that found the region unlocked is closed before the region is replaced. -/
theorem plcShmReplace_clean_of_probe (probe : ℕ) :
    (close probe >>= fun _ => plcShmReplace (ShmHandle.named name) name size).Always
      (FailsClean [probe]) := by
  refine Program.always_call fun closed => ?_
  have hclosed : heldAfter [probe] ⟨.close probe, closed⟩ = [] := List.erase_cons_head probe []
  show Program.Always (FailsClean (heldAfter [probe] ⟨.close probe, closed⟩)) _
  rw [hclosed]
  exact plcShmReplace_clean name size

theorem plcShmAttachFail_clean (status : PlcStatus) :
    (plcShmAttachFail (ShmHandle.named name) fd status).Always (FailsClean [fd]) := by
  refine Program.always_call fun closed => ?_
  intro _
  exact ⟨List.erase_cons_head fd [], inert_named name⟩

theorem plcShmMap_clean :
    (plcShmMap (ShmHandle.named name) fd size).Always (FailsClean [fd]) := by
  rw [plcShmMap, Program.ask_bind]
  refine Program.always_call fun status => ?_
  cases status with
  | error err => exact plcShmAttachFail_clean name fd .errProto
  | ok bytes =>
      dsimp only
      split_ifs
      · exact plcShmAttachFail_clean name fd .errProto
      · refine Program.always_call fun mapped => ?_
        cases mapped with
        | error err => exact plcShmAttachFail_clean name fd .errNomem
        | ok base => exact failsClean_of_ok _

/-- Every failure of an attach is clean. -/
theorem plcShmAttach_clean (shm : ShmHandle) {size : ℕ} (hsize : 0 < size) :
    (plcShmAttach shm name size).Always (FailsClean []) := by
  rw [plcShmAttach, if_neg hsize.ne']
  refine Program.always_call fun opened => ?_
  cases opened with
  | error err => exact fun _ => ⟨rfl, inert_named name⟩
  | ok fd => exact plcShmMap_clean name fd size

end Exits

/-! ## The exit of the probe -/

/-- The region is there and its lock is not granted. -/
def ProbeRefused (outcomes : Outcomes) (name : Name) : Prop :=
  ∃ probe err, outcomes 0 (.shmOpen name) = .ok probe ∧ outcomes 1 (.flock probe) = .error err

/-- A create whose probe is refused ends there, with the handle as it was zeroed. -/
theorem answered_of_refused {outcomes : Outcomes} {name : Name}
    (hrefused : ProbeRefused outcomes name) (shm : ShmHandle) {size : ℕ} (hsize : 0 < size) :
    ∃ status, status ≠ .ok ∧
      ((plcShmCreate shm name size).answered outcomes 0).2 = (ShmHandle.named name, status) := by
  obtain ⟨probe, err, hopened, hlocked⟩ := hrefused
  refine ⟨if err = .wouldBlock then .errState else .errIo, by split_ifs <;> decide, ?_⟩
  rw [plcShmCreate, if_neg hsize.ne', Program.ask_bind, Program.answered_call, hopened]
  simp only [plcShmProbe, Program.ask_bind]
  rw [Program.answered_call, hlocked]
  rfl

/-- **When a failure leaves an inert handle.** For all outcomes of the system calls, a
failed create has closed what it opened and leaves an inert handle if and only if its
probe was not refused. A failed attach always does. -/
theorem fails_clean_iff (shm : ShmHandle) (name : Name) {size : ℕ} (hsize : 0 < size)
    (outcomes : Outcomes) :
    let created := (plcShmCreate shm name size).answered outcomes 0
    let attached := (plcShmAttach shm name size).answered outcomes 0
    (FailsClean [] created.1 created.2 ↔ ¬ ProbeRefused outcomes name) ∧
      FailsClean [] attached.1 attached.2 := by
  refine ⟨⟨?_, ?_⟩, (plcShmAttach_clean name shm hsize).answered outcomes 0⟩
  · intro hclean hrefused
    obtain ⟨status, hfailed, hresult⟩ := answered_of_refused hrefused shm hsize
    rw [hresult] at hclean
    exact not_inert_named name outcomes (hclean hfailed).2
  · intro hgranted
    rw [plcShmCreate, if_neg hsize.ne', Program.ask_bind, Program.answered_call]
    cases hopened : outcomes 0 (.shmOpen name) with
    | error err => exact (plcShmReplace_clean name size).answered outcomes 1
    | ok probe =>
        cases hlocked : outcomes 1 (.flock probe) with
        | error err => exact absurd ⟨probe, err, hopened, hlocked⟩ hgranted
        | ok done =>
            simp only [plcShmProbe, Program.ask_bind]
            rw [Program.answered_call, hlocked]
            exact (plcShmReplace_clean_of_probe name size probe).answered outcomes 2

/-- Another process holds the region. -/
def busyRegion : Outcomes
  | _, .shmOpen _ => .ok 3
  | _, .flock _ => .error .wouldBlock
  | _, .shmCreate _ | _, .fstat _ | _, .mmap _ _ | _, .semCreate _ | _, .semOpen _
  | _, .ftruncate _ _ | _, .posixFallocate _ _ => .error .refused
  | _, .load _ _ => 0
  | _, .shmUnlink _ | _, .close _ | _, .munmap _ | _, .clear _ | _, .store _ _ _
  | _, .semUnlink _ | _, .semClose _ => ()

/-- A handle in zeroed memory, of which nothing is used yet. -/
def zeroedHandle : ShmHandle := ⟨[], 0, none, 0, false⟩

/-- A create is refused because another process holds the region, and a close of the
handle closes descriptor zero. -/
theorem busyRegion_closes_zero :
    let created := (plcShmCreate zeroedHandle "/softplc".toList 4096).answered busyRegion 0
    created.2.2 = .errState ∧
      (((plcShmClose created.2.1).answered busyRegion 3).1.map Sigma.fst) = [.close 0] ∧
      ¬ FailsClean [] created.1 created.2 := by
  intro created
  refine ⟨by decide, by decide, fun hclean => ?_⟩
  have hinert := (hclean (by decide)).2
  exact not_inert_named "/softplc".toList busyRegion hinert

/-- There is no region yet, and the new one cannot be mapped. -/
def unmappable : Outcomes
  | _, .shmOpen _ => .error .noEntry
  | _, .shmCreate _ => .ok 3
  | _, .flock _ | _, .ftruncate _ _ | _, .posixFallocate _ _ => .ok ()
  | _, .mmap _ _ | _, .fstat _ | _, .semCreate _ | _, .semOpen _ => .error .refused
  | _, .load _ _ => 0
  | _, .shmUnlink _ | _, .close _ | _, .munmap _ | _, .clear _ | _, .store _ _ _
  | _, .semUnlink _ | _, .semClose _ => ()

theorem fails_clean_iff_unmappable :
    let created := (plcShmCreate zeroedHandle "/softplc".toList 4096).answered unmappable 0
    created.2.2 = .errNomem ∧ FailsClean [] created.1 created.2 := by
  refine ⟨by decide, (fails_clean_iff zeroedHandle _ (by decide) unmappable).1.mpr ?_⟩
  rintro ⟨probe, err, hopened, -⟩
  cases hopened

end SoftPlc.Ipc
