/-
# Shared regions and their names

`shm.c` as programs of kernel requests, one request for each system call. A core
creates its region under the name of its instance and holds a lock on it for as
long as it lives; a second core that asks for the same name finds the lock taken
and is refused. A region that nobody locks was left behind, and is replaced.
-/

import SoftPlc.Core.ProtocolAdapter
import SoftPlc.Posix.Kernel

namespace SoftPlc.Ipc

open SoftPlc.Math SoftPlc.Posix

/-- `plc_shm_t`. No descriptor is `-1`; a mapping is known by its region. -/
structure ShmHandle where
  name : Name
  fd : ℤ
  base : Option ℕ
  size : ℕ
  owner : Bool
  deriving DecidableEq, Repr

/-- `sizeof(shm->name)`. -/
def shmNameBytes : ℕ := 128

/-- `snprintf` of a text into a buffer of `size` bytes, with its end mark. -/
def snprintf (size : ℕ) (text : List Char) : List Char := text.take (size - 1)

/-- The handle after `memset` and the copy of the name. Its descriptor is zero. -/
def ShmHandle.named (name : Name) : ShmHandle :=
  { name := snprintf shmNameBytes name, fd := 0, base := none, size := 0, owner := false }

/-- A create that fails after `shm_open` takes back what it made. -/
def plcShmCreateFail (shm : ShmHandle) (name : Name) (fd : ℕ) (status : PlcStatus) :
    Process (ShmHandle × PlcStatus) := do
  close fd
  shmUnlink name
  return ({ shm with fd := -1 }, status)

/-- `plc_shm_create` from its `ftruncate` on. -/
def plcShmFill (shm : ShmHandle) (name : Name) (fd size : ℕ) :
    Process (ShmHandle × PlcStatus) := do
  match ← ftruncate fd size with
  | .error _ => plcShmCreateFail shm name fd .errIo
  | .ok () =>
      match ← posixFallocate fd size with
      | .error _ => plcShmCreateFail shm name fd .errIo
      | .ok () =>
          match ← mmap fd size with
          | .error _ => plcShmCreateFail shm name fd .errNomem
          | .ok base =>
              clear base
              return ({ shm with fd := fd, base := some base, size := size, owner := true }, .ok)

/-- `plc_shm_create` from the lock of the new region on. -/
def plcShmLock (shm : ShmHandle) (name : Name) (fd size : ℕ) :
    Process (ShmHandle × PlcStatus) := do
  match ← flock fd with
  | .error _ => plcShmCreateFail shm name fd .errIo
  | .ok () => plcShmFill shm name fd size

/-- `plc_shm_create` from its `shm_unlink` on. -/
def plcShmReplace (shm : ShmHandle) (name : Name) (size : ℕ) :
    Process (ShmHandle × PlcStatus) := do
  shmUnlink name
  match ← shmCreate name with
  | .error _ => return ({ shm with fd := -1 }, .errIo)
  | .ok fd => plcShmLock shm name fd size

/-- `plc_shm_create` from the lock of the region it found on. -/
def plcShmProbe (shm : ShmHandle) (name : Name) (probe size : ℕ) :
    Process (ShmHandle × PlcStatus) := do
  match ← flock probe with
  | .error err =>
      close probe
      return (shm, if err = .wouldBlock then .errState else .errIo)
  | .ok () =>
      close probe
      plcShmReplace shm name size

/-- `plc_shm_create`. -/
def plcShmCreate (shm : ShmHandle) (name : Name) (size : ℕ) :
    Process (ShmHandle × PlcStatus) :=
  if size = 0 then return (shm, .errInval)
  else do
    let shm := ShmHandle.named name
    match ← shmOpen name with
    | .error _ => plcShmReplace shm name size
    | .ok probe => plcShmProbe shm name probe size

/-- An attach that fails after `shm_open` closes the descriptor. -/
def plcShmAttachFail (shm : ShmHandle) (fd : ℕ) (status : PlcStatus) :
    Process (ShmHandle × PlcStatus) := do
  close fd
  return ({ shm with fd := -1 }, status)

/-- `plc_shm_attach` from its `fstat` on. -/
def plcShmMap (shm : ShmHandle) (fd size : ℕ) : Process (ShmHandle × PlcStatus) := do
  match ← fstat fd with
  | .error _ => plcShmAttachFail shm fd .errProto
  | .ok bytes =>
      if bytes < size then plcShmAttachFail shm fd .errProto
      else
        match ← mmap fd size with
        | .error _ => plcShmAttachFail shm fd .errNomem
        | .ok base => return ({ shm with fd := fd, base := some base, size := size }, .ok)

/-- `plc_shm_attach`. -/
def plcShmAttach (shm : ShmHandle) (name : Name) (size : ℕ) :
    Process (ShmHandle × PlcStatus) :=
  if size = 0 then return (shm, .errInval)
  else do
    let shm := ShmHandle.named name
    match ← shmOpen name with
    | .error err =>
        return ({ shm with fd := -1 }, if err = .noEntry then .errNotfound else .errIo)
    | .ok fd => plcShmMap shm fd size

/-- `plc_shm_close`. -/
def plcShmClose (shm : ShmHandle) : Process ShmHandle := do
  if let some base := shm.base then
    munmap base
  if 0 ≤ shm.fd then
    close shm.fd.toNat
  if shm.owner && shm.name ≠ [] then
    shmUnlink shm.name
  return { name := [], fd := -1, base := none, size := 0, owner := false }

/-- `plc_sem_create`. -/
def plcSemCreate (name : Name) : Process (Option ℕ × PlcStatus) := do
  semUnlink name
  match ← semCreate name with
  | .error _ => return (none, .errIo)
  | .ok sem => return (some sem, .ok)

/-- `plc_sem_attach`. -/
def plcSemAttach (name : Name) : Process (Option ℕ × PlcStatus) := do
  match ← semOpen name with
  | .error err => return (none, if err = .noEntry then .errNotfound else .errIo)
  | .ok sem => return (some sem, .ok)

/-- `plc_sem_close`. -/
def plcSemClose (sem : Option ℕ) (name : Name) (owner : Bool) : Process Unit := do
  if let some opened := sem then
    semClose opened
  if owner then
    semUnlink name

/-- The requests of a close. -/
def CloseCall (request : Call) : Prop :=
  request.Quiet ∨ ∃ name, request = .shmUnlink name

theorem plcShmClose_uses (handle : ShmHandle) : (plcShmClose handle).Uses CloseCall := by
  simp only [plcShmClose]
  cases handle.base with
  | none => split_ifs <;> simp [Program.Uses, CloseCall, Call.Quiet]
  | some base => split_ifs <;> simp [Program.Uses, CloseCall, Call.Quiet]

/-! ## What a create achieves -/

section Create

variable {ι : Type} {who : ι} {name : Name} {first region fd : ℕ}

/-- What others may do while `who` creates a region under `name`. They may use the
name themselves until there is a region numbered `first`. -/
structure Undisturbed (who : ι) (name : Name) (first : ℕ) (before after : Kernel ι) : Prop where
  files : after.files who = before.files who
  lock : ∀ region fd, before.lock region = some (who, fd) → after.lock region = some (who, fd)
  made : before.made ≤ after.made
  maker : ∀ region < before.made, after.maker region = before.maker region
  words : ∀ region, before.maker region = some who → after.words region = before.words region
  names : first < before.made → after.names name = before.names name

/-- A step of another process that leaves the objects alone does not disturb. -/
theorem undisturbed_of_untouched {other : ι} (hother : who ≠ other) {before after : Kernel ι}
    (h : Kernel.Untouched other before after) : Undisturbed who name first before after where
  files := h.files who hother
  lock := fun region fd hlock => h.lock who region fd hother hlock
  made := h.made.ge
  maker := fun region _ => congrFun h.maker region
  words := fun region _ => congrFun h.words region
  names := fun _ => congrFun h.names name

/-- The name stands for a region that `who` made and has open. -/
structure Made (who : ι) (name : Name) (first region fd : ℕ) (kernel : Kernel ι) : Prop where
  first_le : first ≤ region
  lt_made : region < kernel.made
  names : kernel.names name = some region
  maker : kernel.maker region = some who
  file : kernel.files who fd = some region
  words : kernel.words region = fun _ => 0

/-- A completed create: the region is also locked. -/
structure Created (who : ι) (name : Name) (first region fd : ℕ) (kernel : Kernel ι) : Prop
    extends Made who name first region fd kernel where
  lock : kernel.lock region = some (who, fd)

/-- The requests of a create, but for the `memset` at its end. -/
def CreateCall (name : Name) : Call → Prop
  | .shmOpen opened | .shmCreate opened | .shmUnlink opened => opened = name
  | .flock _ | .close _ | .ftruncate _ _ | .posixFallocate _ _ | .mmap _ _ => True
  | _ => False

/-- What a create reports when it succeeds. -/
def CreateResult (who : ι) (name : Name) (first size : ℕ) (result : ShmHandle × PlcStatus)
    (kernel : Kernel ι) : Prop :=
  result.2 = .ok → ∃ region fd : ℕ,
    result.1 = { ShmHandle.named name with
      fd := fd, base := some region, size := size, owner := true } ∧
    Created who name first region fd kernel

section Rely

variable {rely : Kernel ι → Kernel ι → Prop}
  (hrely : ∀ before after, rely before after → Undisturbed who name first before after)

include hrely

theorem stable_first_le : Program.Stable rely fun kernel : Kernel ι => first ≤ kernel.made :=
  fun before after hbefore hmove => hbefore.trans (hrely before after hmove).made

theorem Made.stable :
    Program.Stable rely (Made who name first region fd) := by
  intro before after hmade hmove
  have hundisturbed := hrely before after hmove
  exact
    { first_le := hmade.first_le
      lt_made := Nat.lt_of_lt_of_le hmade.lt_made hundisturbed.made
      names := (hundisturbed.names (Nat.lt_of_le_of_lt hmade.first_le hmade.lt_made)).trans
        hmade.names
      maker := (hundisturbed.maker region hmade.lt_made).trans hmade.maker
      file := (congrFun hundisturbed.files fd).trans hmade.file
      words := (hundisturbed.words region hmade.maker).trans hmade.words }

theorem Created.stable :
    Program.Stable rely (Created who name first region fd) :=
  fun before after hcreated hmove =>
    { Made.stable hrely before after hcreated.toMade hmove with
      lock := (hrely before after hmove).lock region fd hcreated.lock }

end Rely

section Guarantee

variable [DecidableEq ι] {rely guar : Kernel ι → Kernel ι → Prop} {kernel : Kernel ι}

/-- A result of a create that failed needs nothing from the others. -/
theorem sat_createFailed {result : ShmHandle × PlcStatus} {size : ℕ} (hfailed : result.2 ≠ .ok) :
    (Program.done result : Process _).Sat (Kernel.perform who) rely guar
      (CreateResult who name first size) kernel :=
  fun _ _ hok => absurd hok hfailed

variable
  (hrely : ∀ before after, rely before after → Undisturbed who name first before after)
  (hrefl : ∀ kernel, guar kernel kernel)
  (hguar : ∀ request granted kernel, CreateCall name request →
    guar kernel (Kernel.perform who request granted kernel).2)

include hguar

theorem plcShmCreateFail_sat
    (shm : ShmHandle) (fd size : ℕ) {status : PlcStatus} (hfailed : status ≠ .ok) :
    (plcShmCreateFail shm name fd status).Sat (Kernel.perform who) rely guar
      (CreateResult who name first size) kernel := by
  refine Program.sat_call_of_forall fun before granted => ⟨hguar _ granted before trivial, ?_⟩
  refine Program.sat_call_of_forall fun before granted => ⟨hguar _ granted before rfl, ?_⟩
  exact sat_createFailed hfailed

include hrely hrefl

/-- From the lock on, the new region is the caller's. -/
theorem plcShmFill_sat
    (hcreated : Created who name first region fd kernel) (size : ℕ) :
    (plcShmFill (ShmHandle.named name) name fd size).Sat (Kernel.perform who) rely guar
      (CreateResult who name first size) kernel := by
  refine Program.sat_call (Created.stable hrely) hcreated fun before granted hcreated =>
    ⟨hguar _ granted before trivial, ?_⟩
  cases granted with
  | false => exact plcShmCreateFail_sat hguar _ fd size (by decide)
  | true =>
      simp only [Kernel.perform, hcreated.file]
      have hsized : Created who name first region fd
          { before with size := Function.update before.size region size } :=
        { hcreated with lock := hcreated.lock }
      refine Program.sat_call (Created.stable hrely) hsized fun before granted hcreated =>
        ⟨hguar _ granted before trivial, ?_⟩
      cases granted with
      | false => exact plcShmCreateFail_sat hguar _ fd size (by decide)
      | true =>
          refine Program.sat_call (Created.stable hrely) hcreated fun before granted hcreated =>
            ⟨hguar _ granted before trivial, ?_⟩
          cases granted with
          | false => exact plcShmCreateFail_sat hguar _ fd size (by decide)
          | true =>
              simp only [Kernel.perform, hcreated.file]
              refine Program.sat_call (Created.stable hrely) hcreated
                fun before granted hcreated => ?_
              -- The region is new, so there is nothing to clear.
              have hclear : (Kernel.perform who (.clear region) granted before).2 = before := by
                simp only [Kernel.perform, ← hcreated.words, Function.update_eq_self]
              rw [hclear]
              exact ⟨hrefl before, fun later hreach _ =>
                ⟨region, fd, rfl, (Created.stable hrely).reach hcreated hreach⟩⟩

theorem plcShmLock_sat
    (hmade : Made who name first region fd kernel) (size : ℕ) :
    (plcShmLock (ShmHandle.named name) name fd size).Sat (Kernel.perform who) rely guar
      (CreateResult who name first size) kernel := by
  refine Program.sat_call (Made.stable hrely) hmade fun before granted hmade =>
    ⟨hguar _ granted before trivial, ?_⟩
  simp only [Kernel.perform, hmade.file]
  cases hlock : before.lock region with
  | none =>
      have hcreated : Created who name first region fd
          { before with lock := Function.update before.lock region (some (who, fd)) } :=
        { hmade with lock := Function.update_self .. }
      exact plcShmFill_sat hrely hrefl hguar hcreated size
  | some holder =>
      simp only
      split_ifs with hours
      · exact plcShmFill_sat hrely hrefl hguar { hmade with lock := hours ▸ hlock } size
      · exact plcShmCreateFail_sat hguar _ fd size (by decide)

theorem plcShmReplace_sat
    (hfirst : first ≤ kernel.made) (size : ℕ) :
    (plcShmReplace (ShmHandle.named name) name size).Sat (Kernel.perform who) rely guar
      (CreateResult who name first size) kernel := by
  refine Program.sat_call (stable_first_le hrely) hfirst fun before granted hbefore =>
    ⟨hguar _ granted before rfl, ?_⟩
  refine Program.sat_call (stable_first_le hrely) hbefore fun before granted hbefore =>
    ⟨hguar _ granted before rfl, ?_⟩
  simp only [Kernel.perform]
  split_ifs
  · exact sat_createFailed (by simp)
  · refine plcShmLock_sat hrely hrefl hguar (show Made who name first before.made _ _ from ?_) size
    exact
      { first_le := hbefore
        lt_made := Nat.lt_succ_self _
        names := Function.update_self ..
        maker := Function.update_self ..
        file := by simp [Kernel.openFile, Kernel.makeRegion]
        words := Function.update_self .. }
  · exact sat_createFailed (by simp)

theorem plcShmProbe_sat
    (hfirst : first ≤ kernel.made) (probe size : ℕ) :
    (plcShmProbe (ShmHandle.named name) name probe size).Sat (Kernel.perform who) rely guar
      (CreateResult who name first size) kernel := by
  refine Program.sat_call (stable_first_le hrely) hfirst fun before granted hbefore =>
    ⟨hguar _ granted before trivial, ?_⟩
  have hafter := hbefore.trans (Kernel.made_le_perform who (.flock probe) granted before)
  generalize Kernel.perform who (.flock probe) granted before = outcome at hafter ⊢
  obtain ⟨answer, after⟩ := outcome
  cases answer with
  | error err =>
      refine Program.sat_call_of_forall fun before granted =>
        ⟨hguar _ granted before trivial, sat_createFailed ?_⟩
      simp only
      split_ifs <;> decide
  | ok _ =>
      refine Program.sat_call (stable_first_le hrely) hafter fun before granted hbefore =>
        ⟨hguar _ granted before trivial, ?_⟩
      exact plcShmReplace_sat hrely hrefl hguar
        (hbefore.trans (Kernel.made_le_perform who (.close probe) granted before)) size

/-- **A create succeeds with a region of its own.** If the others keep away from
the name once there is a new region, then whoever creates and succeeds has made
the region the name stands for, and holds the lock on it. -/
theorem plcShmCreate_sat
    (hfirst : first ≤ kernel.made) (shm : ShmHandle) (size : ℕ) :
    (plcShmCreate shm name size).Sat (Kernel.perform who) rely guar
      (CreateResult who name first size) kernel := by
  unfold plcShmCreate
  split_ifs with hsize
  · exact sat_createFailed (by simp)
  · refine Program.sat_call (stable_first_le hrely) hfirst fun before granted hbefore =>
      ⟨hguar _ granted before rfl, ?_⟩
    simp only [Kernel.perform]
    split
    · exact plcShmReplace_sat hrely hrefl hguar hbefore size
    · refine plcShmProbe_sat hrely hrefl hguar ?_ _ size
      exact hbefore

end Guarantee

end Create

end SoftPlc.Ipc
