/-
# Named objects, descriptors and locks

The part of a POSIX kernel that processes meet in when they share memory: a
namespace of shared-memory objects and one of semaphores, and for each process a
table of descriptors. A name can be taken away while the object is in use; then
the object lives on for those who have it open, and the name may come to stand
for another one.

An object can be locked through a descriptor. The lock belongs to that
descriptor, and closing it gives the lock up. So does the end of the process,
however it ends.

Each request is one step. Whether a name is there and whether a lock is free is
decided by the state; requests that need memory can also be refused.
-/

import SoftPlc.Math.Program

namespace SoftPlc.Posix

open SoftPlc.Math

abbrev Name := List Char

/-- What a failed request reports. `refused` stands for every failure that the
state below does not decide. -/
inductive Errno
  | noEntry
  | exist
  | wouldBlock
  | refused
  deriving DecidableEq, Repr

/-- The requests. `shmOpen` opens for reading and writing, `shmCreate` creates
exclusively, `flock` asks for an exclusive lock without blocking, and `clear` is a
`memset` of a whole mapping with zeros. -/
inductive Call
  | shmOpen (name : Name)
  | shmCreate (name : Name)
  | shmUnlink (name : Name)
  | flock (fd : ℕ)
  | close (fd : ℕ)
  | ftruncate (fd size : ℕ)
  | posixFallocate (fd size : ℕ)
  | fstat (fd : ℕ)
  | mmap (fd size : ℕ)
  | munmap (base : ℕ)
  | clear (base : ℕ)
  | store (base offset value : ℕ)
  | load (base offset : ℕ)
  | semUnlink (name : Name)
  | semCreate (name : Name)
  | semOpen (name : Name)
  | semClose (sem : ℕ)
  deriving DecidableEq, Repr

/-- The answer to a request: a descriptor, a size, a mapping, a semaphore or a word. -/
@[reducible]
def Call.Answer : Call → Type
  | .shmOpen _ | .shmCreate _ | .fstat _ | .mmap _ _ | .semCreate _ | .semOpen _ =>
      Except Errno ℕ
  | .flock _ | .ftruncate _ _ | .posixFallocate _ _ => Except Errno Unit
  | .load _ _ => ℕ
  | .shmUnlink _ | .close _ | .munmap _ | .clear _ | .store _ _ _ | .semUnlink _ | .semClose _ =>
      Unit

/-- The requests that neither write to an object nor change what a name stands
for. -/
def Call.Quiet : Call → Prop
  | .shmOpen _ | .flock _ | .close _ | .ftruncate _ _ | .posixFallocate _ _ | .fstat _
  | .mmap _ _ | .munmap _ | .load _ _ | .semOpen _ | .semClose _ => True
  | _ => False

/-- The quiet requests that open no semaphore. -/
def Call.Passive (request : Call) : Prop :=
  request.Quiet ∧ ∀ name, request ≠ .semOpen name

/-- A program of kernel requests. -/
abbrev Process := Program Call Call.Answer

/-! ## The system calls -/

section Calls

variable (name : Name) (fd size base offset value sem : ℕ)

abbrev shmOpen : Process (Except Errno ℕ) := Program.ask (Call.shmOpen name)
abbrev shmCreate : Process (Except Errno ℕ) := Program.ask (Call.shmCreate name)
abbrev shmUnlink : Process Unit := Program.ask (Call.shmUnlink name)
abbrev flock : Process (Except Errno Unit) := Program.ask (Call.flock fd)
abbrev close : Process Unit := Program.ask (Call.close fd)
abbrev ftruncate : Process (Except Errno Unit) := Program.ask (Call.ftruncate fd size)
abbrev posixFallocate : Process (Except Errno Unit) := Program.ask (Call.posixFallocate fd size)
abbrev fstat : Process (Except Errno ℕ) := Program.ask (Call.fstat fd)
abbrev mmap : Process (Except Errno ℕ) := Program.ask (Call.mmap fd size)
abbrev munmap : Process Unit := Program.ask (Call.munmap base)
abbrev clear : Process Unit := Program.ask (Call.clear base)
abbrev store : Process Unit := Program.ask (Call.store base offset value)
abbrev load : Process ℕ := Program.ask (Call.load base offset)
abbrev semUnlink : Process Unit := Program.ask (Call.semUnlink name)
abbrev semCreate : Process (Except Errno ℕ) := Program.ask (Call.semCreate name)
abbrev semOpen : Process (Except Errno ℕ) := Program.ask (Call.semOpen name)
abbrev semClose : Process Unit := Program.ask (Call.semClose sem)

end Calls

/-! ## The kernel -/

/-- The state shared by the processes `ι`. Objects are numbered as they are made. A
mapping is known by its object. Who made an object, and the names under which a
process has opened a semaphore, is history. -/
structure Kernel (ι : Type) where
  names : Name → Option ℕ
  made : ℕ
  maker : ℕ → Option ι
  size : ℕ → ℕ
  words : ℕ → ℕ → ℕ
  lock : ℕ → Option (ι × ℕ)
  files : ι → ℕ → Option ℕ
  nextFd : ι → ℕ
  sems : Name → Option ℕ
  semsMade : ℕ
  semMaker : ℕ → Option ι
  opened : ι → Name → Bool

namespace Kernel

variable {ι : Type}

/-- A kernel without objects. -/
def empty : Kernel ι :=
  { names := fun _ => none
    made := 0
    maker := fun _ => none
    size := fun _ => 0
    words := fun _ _ => 0
    lock := fun _ => none
    files := fun _ _ => none
    nextFd := fun _ => 3
    sems := fun _ => none
    semsMade := 0
    semMaker := fun _ => none
    opened := fun _ _ => false }

variable [DecidableEq ι]

/-- A new descriptor for an object. -/
def openFile (kernel : Kernel ι) (who : ι) (region : ℕ) : ℕ × Kernel ι :=
  let fd := kernel.nextFd who
  (fd,
    { kernel with
      files := Function.update kernel.files who
        (Function.update (kernel.files who) fd (some region))
      nextFd := Function.update kernel.nextFd who (fd + 1) })

/-- A new object under a name: empty, and not locked. -/
def makeRegion (kernel : Kernel ι) (who : ι) (name : Name) : Kernel ι :=
  { kernel with
    names := Function.update kernel.names name (some kernel.made)
    made := kernel.made + 1
    maker := Function.update kernel.maker kernel.made (some who)
    size := Function.update kernel.size kernel.made 0
    words := Function.update kernel.words kernel.made fun _ => 0
    lock := Function.update kernel.lock kernel.made none }

/-- Give up the lock held through a descriptor. -/
def unlock (kernel : Kernel ι) (region : ℕ) (holder : ι × ℕ) : Kernel ι :=
  if kernel.lock region = some holder then
    { kernel with lock := Function.update kernel.lock region none }
  else kernel

/-- Close a descriptor. -/
def closeFile (kernel : Kernel ι) (who : ι) (fd : ℕ) : Kernel ι :=
  match kernel.files who fd with
  | none => kernel
  | some region =>
      { kernel.unlock region (who, fd) with
        files := Function.update kernel.files who
          (Function.update (kernel.files who) fd none) }

/-- The process ends: its descriptors are closed and its locks given up. -/
def exit (kernel : Kernel ι) (who : ι) : Kernel ι :=
  { kernel with
    files := Function.update kernel.files who fun _ => none
    lock := fun region => (kernel.lock region).filter fun holder => decide (holder.1 ≠ who) }

/-- Note that a process has opened a semaphore. -/
def openSem (kernel : Kernel ι) (who : ι) (name : Name) : Kernel ι :=
  { kernel with
    opened := Function.update kernel.opened who
      (Function.update (kernel.opened who) name true) }

/-- One request of a process. The environment may refuse the requests that can fail for
want of memory or rights. Opening a region by its name is not among them: here it is
decided by the name alone, and where a refusal of it matters the outcomes of the calls
are taken as given instead (`SoftPlc.Ipc.Inert`). -/
def perform (who : ι) :
    (request : Call) → Bool → Kernel ι → request.Answer × Kernel ι
  | .shmOpen name, _, kernel =>
      match kernel.names name with
      | none => (.error .noEntry, kernel)
      | some region =>
          let (fd, opened) := kernel.openFile who region
          (.ok fd, opened)
  | .shmCreate name, granted, kernel =>
      if (kernel.names name).isSome then (.error .exist, kernel)
      else if granted then
        let (fd, opened) := (kernel.makeRegion who name).openFile who kernel.made
        (.ok fd, opened)
      else (.error .refused, kernel)
  | .shmUnlink name, _, kernel =>
      ((), { kernel with names := Function.update kernel.names name none })
  | .flock fd, _, kernel =>
      match kernel.files who fd with
      | none => (.error .refused, kernel)
      | some region =>
          match kernel.lock region with
          | none =>
              (.ok (), { kernel with lock := Function.update kernel.lock region (some (who, fd)) })
          | some holder =>
              if holder = (who, fd) then (.ok (), kernel) else (.error .wouldBlock, kernel)
  | .close fd, _, kernel => ((), kernel.closeFile who fd)
  | .ftruncate fd size, granted, kernel =>
      match granted, kernel.files who fd with
      | true, some region =>
          (.ok (), { kernel with size := Function.update kernel.size region size })
      | _, _ => (.error .refused, kernel)
  | .posixFallocate _ _, granted, kernel =>
      (if granted then .ok () else .error .refused, kernel)
  | .fstat fd, granted, kernel =>
      match granted, kernel.files who fd with
      | true, some region => (.ok (kernel.size region), kernel)
      | _, _ => (.error .refused, kernel)
  | .mmap fd _, granted, kernel =>
      match granted, kernel.files who fd with
      | true, some region => (.ok region, kernel)
      | _, _ => (.error .refused, kernel)
  | .munmap _, _, kernel => ((), kernel)
  | .clear base, _, kernel =>
      ((), { kernel with words := Function.update kernel.words base fun _ => 0 })
  | .store base offset value, _, kernel =>
      ((), { kernel with
        words := Function.update kernel.words base
          (Function.update (kernel.words base) offset value) })
  | .load base offset, _, kernel => (kernel.words base offset, kernel)
  | .semUnlink name, _, kernel =>
      ((), { kernel with sems := Function.update kernel.sems name none })
  | .semCreate name, granted, kernel =>
      if (kernel.sems name).isSome then (.error .exist, kernel)
      else if granted then
        (.ok kernel.semsMade,
          { kernel.openSem who name with
            sems := Function.update kernel.sems name (some kernel.semsMade)
            semsMade := kernel.semsMade + 1
            semMaker := Function.update kernel.semMaker kernel.semsMade (some who) })
      else (.error .refused, kernel)
  | .semOpen name, granted, kernel =>
      match granted, kernel.sems name with
      | true, some sem => (.ok sem, kernel.openSem who name)
      | true, none => (.error .noEntry, kernel)
      | false, _ => (.error .refused, kernel)
  | .semClose _, _, kernel => ((), kernel)

/-- Objects are only ever added. -/
theorem made_le_perform (who : ι) (request : Call) (granted : Bool) (kernel : Kernel ι) :
    kernel.made ≤ (perform who request granted kernel).2.made := by
  cases request with
  | close fd =>
      simp only [perform, closeFile, unlock]
      split
      · exact Nat.le_refl _
      · split_ifs <;> exact Nat.le_refl _
  | shmCreate name =>
      simp only [perform]
      split_ifs
      · exact Nat.le_refl _
      · exact Nat.le_succ _
      · exact Nat.le_refl _
  | _ =>
      simp only [perform]
      repeat' split
      all_goals exact Nat.le_refl _

/-- Nothing changed but what `who` has open and locked, and sizes. -/
structure Untouched (who : ι) (before after : Kernel ι) : Prop where
  names : after.names = before.names
  made : after.made = before.made
  maker : after.maker = before.maker
  words : after.words = before.words
  sems : after.sems = before.sems
  semsMade : after.semsMade = before.semsMade
  semMaker : after.semMaker = before.semMaker
  opened : ∀ other, other ≠ who → after.opened other = before.opened other
  files : ∀ other, other ≠ who → after.files other = before.files other
  nextFd : ∀ other, other ≠ who → after.nextFd other = before.nextFd other
  lock : ∀ other region fd, other ≠ who → before.lock region = some (other, fd) →
    after.lock region = some (other, fd)

omit [DecidableEq ι] in
theorem Untouched.refl (who : ι) (kernel : Kernel ι) : Untouched who kernel kernel :=
  ⟨rfl, rfl, rfl, rfl, rfl, rfl, rfl, fun _ _ => rfl, fun _ _ => rfl, fun _ _ => rfl,
    fun _ _ _ _ hlock => hlock⟩

theorem openFile_untouched (kernel : Kernel ι) (who : ι) (region : ℕ) :
    Untouched who kernel (kernel.openFile who region).2 :=
  { Untouched.refl who kernel with
    files := fun _ hother => Function.update_of_ne hother ..
    nextFd := fun _ hother => Function.update_of_ne hother .. }

theorem openSem_untouched (kernel : Kernel ι) (who : ι) (name : Name) :
    Untouched who kernel (kernel.openSem who name) :=
  { Untouched.refl who kernel with
    opened := fun _ hother => Function.update_of_ne hother .. }

theorem closeFile_untouched (kernel : Kernel ι) (who : ι) (fd : ℕ) :
    Untouched who kernel (kernel.closeFile who fd) := by
  unfold closeFile
  split
  · exact .refl who kernel
  · unfold unlock
    split_ifs with hheld
    · exact
        { Untouched.refl who kernel with
          files := fun _ hother => Function.update_of_ne hother ..
          lock := by
            intro other region fd hother hlock
            refine (Function.update_of_ne ?_ ..).trans hlock
            rintro rfl
            rw [hheld] at hlock
            exact hother (congrArg Prod.fst (Option.some.inj hlock)).symm }
    · exact
        { Untouched.refl who kernel with
          files := fun _ hother => Function.update_of_ne hother .. }

theorem flock_untouched (kernel : Kernel ι) (who : ι) (fd : ℕ) (granted : Bool) :
    Untouched who kernel (perform who (.flock fd) granted kernel).2 := by
  simp only [perform]
  split
  · exact .refl who kernel
  · split
    · rename_i hfree
      exact
        { Untouched.refl who kernel with
          lock := by
            intro other region fd _ hlock
            refine (Function.update_of_ne ?_ ..).trans hlock
            rintro rfl
            rw [hfree] at hlock
            cases hlock }
    · split_ifs <;> exact .refl who kernel

theorem exit_untouched (kernel : Kernel ι) (who : ι) : Untouched who kernel (kernel.exit who) :=
  { Untouched.refl who kernel with
    files := fun _ hother => Function.update_of_ne hother ..
    lock := by
      intro other region fd hother hlock
      simp [exit, hlock, hother] }

theorem perform_untouched (who : ι) {request : Call} (hquiet : request.Quiet) (granted : Bool)
    (kernel : Kernel ι) : Untouched who kernel (perform who request granted kernel).2 := by
  cases request with
  | shmOpen name =>
      simp only [perform]
      split
      · exact .refl who kernel
      · exact kernel.openFile_untouched who _
  | flock fd => exact kernel.flock_untouched who fd granted
  | close fd => exact kernel.closeFile_untouched who fd
  | ftruncate fd size =>
      simp only [perform]
      split
      · exact { Untouched.refl who kernel with names := rfl }
      · exact .refl who kernel
  | posixFallocate fd size => exact .refl who kernel
  | fstat fd =>
      simp only [perform]
      split <;> exact .refl who kernel
  | mmap fd size =>
      simp only [perform]
      split <;> exact .refl who kernel
  | munmap base => exact .refl who kernel
  | load base offset => exact .refl who kernel
  | semOpen name =>
      simp only [perform]
      split
      · exact kernel.openSem_untouched who name
      · exact .refl who kernel
      · exact .refl who kernel
  | semClose sem => exact .refl who kernel
  | shmCreate | shmUnlink | clear | store | semUnlink | semCreate => exact hquiet.elim

theorem perform_opened (who : ι) {request : Call} (hpassive : request.Passive) (granted : Bool)
    (kernel : Kernel ι) : (perform who request granted kernel).2.opened = kernel.opened := by
  obtain ⟨hquiet, hsem⟩ := hpassive
  cases request with
  | shmOpen name =>
      simp only [perform]
      split <;> rfl
  | flock fd =>
      simp only [perform]
      split
      · rfl
      · split
        · rfl
        · split_ifs <;> rfl
  | close fd =>
      simp only [perform, closeFile, unlock]
      split
      · rfl
      · split_ifs <;> rfl
  | ftruncate fd size | fstat fd | mmap fd size =>
      simp only [perform]
      split <;> rfl
  | posixFallocate | munmap | load | semClose => rfl
  | semOpen name => exact absurd rfl (hsem name)
  | shmCreate | shmUnlink | clear | store | semUnlink | semCreate => exact hquiet.elim

/-- What happens to the name of a semaphore. -/
theorem perform_sems (who : ι) (request : Call) (granted : Bool) (kernel : Kernel ι)
    (name : Name) :
    (perform who request granted kernel).2.sems name = kernel.sems name ∨
      (perform who request granted kernel).2.sems name = none ∨ request = .semCreate name := by
  have hquiet : request.Quiet →
      (perform who request granted kernel).2.sems name = kernel.sems name := fun hquiet =>
    congrFun (perform_untouched who hquiet granted kernel).sems name
  cases request with
  | semUnlink unlinked =>
      by_cases hsame : name = unlinked
      · exact .inr (.inl (by simp [perform, hsame]))
      · exact .inl (Function.update_of_ne hsame ..)
  | semCreate created =>
      by_cases hsame : name = created
      · exact .inr (.inr (by rw [hsame]))
      · refine .inl ?_
        simp only [perform]
        split_ifs
        · rfl
        · exact Function.update_of_ne hsame ..
        · rfl
  | shmCreate created =>
      refine .inl ?_
      simp only [perform]
      split_ifs <;> rfl
  | shmUnlink | clear | store => exact .inl rfl
  | shmOpen | flock | close | ftruncate | posixFallocate | fstat | mmap | munmap | load
  | semOpen | semClose => exact .inl (hquiet trivial)

end Kernel

end SoftPlc.Posix
