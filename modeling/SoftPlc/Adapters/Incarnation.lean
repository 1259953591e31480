/-
# Attaching to one core

A core makes three named objects when it opens an adapter: a region and two
semaphores. The last thing it writes is the magic word. The stack process waits
for a region with the magic word, and then opens the two semaphores by name. If
the core is killed, its objects stay behind, magic word and all, until the next
core replaces them, the region first and then the semaphores.

The order on either side makes sure that the semaphores exist when the magic word
does. It does not make sure that they are the same core's. A stack process that
has found the region of a dead core may come to open the semaphores after the next
core has replaced them.

Both roles open and attach in the same way; the names, the magic word and the size
are parameters.
-/

import SoftPlc.Adapters.Names
import SoftPlc.Math.Run

namespace SoftPlc.Adapters

open SoftPlc.Math SoftPlc.Posix SoftPlc.Ipc

/-- The objects of an adapter instance, and what both sides know of the region. -/
structure SharedObjects where
  shm : Name
  req : Name
  rsp : Name
  bytes : ℕ
  magic : ℕ
  abiVersion : ℕ
  magic_ne_zero : magic ≠ 0
  req_ne_rsp : req ≠ rsp

/-- The offsets of `magic`, `abi_version` and `layout_bytes` in the region. -/
def magicOffset : ℕ := 0

def abiVersionOffset : ℕ := 4

def layoutBytesOffset : ℕ := 8

/-- A handle that was never opened. -/
def freshHandle : ShmHandle := { name := [], fd := -1, base := none, size := 0, owner := false }

/-- `proxy_teardown`. -/
def proxyTeardown (objects : SharedObjects) (req rsp : Option ℕ) (shm : ShmHandle) :
    Process Unit := do
  plcSemClose req objects.req true
  plcSemClose rsp objects.rsp true
  let _ ← plcShmClose shm
  return ()

/-- `proxy_open` from the doorbells on. -/
def proxyPublish (objects : SharedObjects) (shm : ShmHandle) (map : ℕ) : Process PlcStatus := do
  let (req, status) ← plcSemCreate objects.req
  if status ≠ .ok then
    proxyTeardown objects req none shm
    return status
  else
    let (rsp, status) ← plcSemCreate objects.rsp
    if status ≠ .ok then
      proxyTeardown objects req rsp shm
      return status
    else
      store map magicOffset objects.magic
      return .ok

/-- `proxy_open`: the part that makes the shared objects. -/
def proxyOpenShared (objects : SharedObjects) : Process PlcStatus := do
  let (shm, status) ← plcShmCreate freshHandle objects.shm objects.bytes
  if status ≠ .ok then return status
  else
    let map := shm.base.getD 0
    store map abiVersionOffset objects.abiVersion
    store map layoutBytesOffset objects.bytes
    proxyPublish objects shm map

/-- The first check of `attach`: is this the layout we know? -/
def layoutMatches (objects : SharedObjects) (map : ℕ) : Process Bool := do
  if (← load map magicOffset) ≠ objects.magic then return false
  else if (← load map abiVersionOffset) ≠ objects.abiVersion then return false
  else return (← load map layoutBytesOffset) = objects.bytes

/-- The other two checks of `attach`: is it some other layout? Each reads the magic
word again. -/
def layoutForeign (objects : SharedObjects) (map : ℕ) : Process Bool := do
  if (← load map magicOffset) ≠ 0 then
    if (← load map magicOffset) ≠ objects.magic then return true
    else return (← load map magicOffset) = objects.magic
  else return (← load map magicOffset) = objects.magic

/-- `attach`, which goes on until it is told to stop, here after a number of turns. -/
def attach (objects : SharedObjects) : ℕ → Process (Option ShmHandle)
  | 0 => return none
  | turns + 1 => do
      let (shm, status) ← plcShmAttach freshHandle objects.shm objects.bytes
      if status = .ok then
        let map := shm.base.getD 0
        if ← layoutMatches objects map then return some shm
        else if ← layoutForeign objects map then
          let _ ← plcShmClose shm
          return none
        else
          let _ ← plcShmClose shm
          attach objects turns
      else attach objects turns

/-- What a stack process serves: the region it mapped and the semaphores it opened. -/
structure Attachment where
  region : ℕ
  req : ℕ
  rsp : ℕ
  deriving DecidableEq, Repr

/-- `main` of a stack process after `attach`: the doorbells. -/
def attachDoorbells (objects : SharedObjects) (shm : ShmHandle) :
    Process (Option Attachment) := do
  match ← plcSemAttach objects.req with
  | (some req, .ok) =>
      match ← plcSemAttach objects.rsp with
      | (some rsp, .ok) => return some ⟨shm.base.getD 0, req, rsp⟩
      | _ =>
          plcSemClose (some req) objects.req false
          let _ ← plcShmClose shm
          return none
  | _ =>
      let _ ← plcShmClose shm
      return none

/-- `main` of a stack process up to its service loop. -/
def stackMain (objects : SharedObjects) (turns : ℕ) : Process (Option Attachment) := do
  match ← attach objects turns with
  | none => return none
  | some shm => attachDoorbells objects shm

/-! ## The two processes -/

/-- The incarnations of the core are numbered. -/
inductive Agent
  | core (incarnation : ℕ)
  | stack
  deriving DecidableEq, Repr

/-- The core that was started last, unless it was killed, and the stack process. -/
structure Attaching where
  kernel : Kernel Agent
  incarnation : ℕ
  core : Option (Process PlcStatus)
  stack : Process (Option Attachment)

namespace Attaching

/-- The moves: a request of either process, or the core is killed, or the next one
is started. -/
inductive Act
  | core (granted : Bool)
  | stack (granted : Bool)
  | kill
  | restart
  deriving DecidableEq, Repr

/-- A machine without any objects. -/
def start (objects : SharedObjects) (turns : ℕ) : Attaching :=
  { kernel := Kernel.empty
    incarnation := 0
    core := some (proxyOpenShared objects)
    stack := stackMain objects turns }

/-- One move. A core is started when the one before it is gone. -/
def step (objects : SharedObjects) (s : Attaching) : Act → Option Attaching
  | .core granted =>
      s.core.bind fun program =>
        (program.advance (Kernel.perform (.core s.incarnation)) granted s.kernel).map
          fun (rest, kernel) => { s with core := some rest, kernel := kernel }
  | .stack granted =>
      (s.stack.advance (Kernel.perform .stack) granted s.kernel).map
        fun (rest, kernel) => { s with stack := rest, kernel := kernel }
  | .kill =>
      s.core.map fun _ =>
        { s with core := none, kernel := s.kernel.exit (.core s.incarnation) }
  | .restart =>
      match s.core with
      | some _ => none
      | none =>
          some { s with
            incarnation := s.incarnation + 1
            core := some (proxyOpenShared objects) }

end Attaching

/-! ## What the core does to the objects -/

/-- The two semaphores. -/
def SharedObjects.doorbells (objects : SharedObjects) : List Name := [objects.req, objects.rsp]

/-- The region carries the magic word. -/
def SharedObjects.Announced (objects : SharedObjects) (region : ℕ) (kernel : Kernel Agent) : Prop :=
  kernel.words region magicOffset = objects.magic

instance (objects : SharedObjects) (region : ℕ) (kernel : Kernel Agent) :
    Decidable (objects.Announced region kernel) :=
  inferInstanceAs (Decidable (_ = _))

/-- The semaphores that stand under these names are of one incarnation. -/
def Rings (names : List Name) (incarnation : ℕ) (kernel : Kernel Agent) : Prop :=
  ∀ name ∈ names, ∀ sem, kernel.sems name = some sem →
    kernel.semMaker sem = some (.core incarnation)

theorem Rings.of_untouched {names : List Name} {incarnation : ℕ} {before after : Kernel Agent}
    {who : Agent} (hrings : Rings names incarnation before)
    (h : Kernel.Untouched who before after) :
    Rings names incarnation after := by
  simp only [Rings, h.sems, h.semMaker]
  exact hrings

/-- What holds of the objects at any time: the region that can be found was made by
a core, and once it is announced the semaphores that can be found are that core's. -/
structure Consistent (objects : SharedObjects) (kernel : Kernel Agent) : Prop where
  region : ∀ region, kernel.names objects.shm = some region →
    region < kernel.made ∧ ∃ incarnation, kernel.maker region = some (.core incarnation) ∧
      (objects.Announced region kernel → Rings objects.doorbells incarnation kernel)
  sem : ∀ name sem, kernel.sems name = some sem → sem < kernel.semsMade

theorem Consistent.of_untouched {objects : SharedObjects} {who : Agent}
    {before after : Kernel Agent} (h : Consistent objects before)
    (huntouched : Kernel.Untouched who before after) : Consistent objects after where
  region := by
    simp only [SharedObjects.Announced, Rings, huntouched.names, huntouched.made,
      huntouched.maker, huntouched.words, huntouched.sems, huntouched.semMaker]
    exact h.region
  sem := by
    simp only [huntouched.sems, huntouched.semsMade]
    exact h.sem

theorem magicWord_store {words : ℕ → ℕ → ℕ} {offset : ℕ} (hoffset : offset ≠ magicOffset)
    (map value region : ℕ) :
    Function.update words map (Function.update (words map) offset value) region magicOffset =
      words region magicOffset := by
  by_cases hsame : region = map
  · rw [hsame, Function.update_self, Function.update_of_ne (Ne.symm hoffset)]
  · rw [Function.update_of_ne hsame]

/-- Everything a step of a core can do to the objects and to what the stack process
has open. -/
structure CoreMove (objects : SharedObjects) (incarnation : ℕ) (before after : Kernel Agent) :
    Prop where
  files : after.files .stack = before.files .stack
  nextFd : after.nextFd .stack = before.nextFd .stack
  opened : after.opened .stack = before.opened .stack
  made : before.made ≤ after.made
  maker : ∀ region < before.made, after.maker region = before.maker region
  semsMade : before.semsMade ≤ after.semsMade
  semMaker : ∀ sem < before.semsMade, after.semMaker sem = before.semMaker sem
  words : ∀ region < before.made,
    after.words region magicOffset = before.words region magicOffset ∨
      before.maker region = some (.core incarnation) ∧ objects.Announced region after ∧
        Rings objects.doorbells incarnation after
  sems : ∀ name sem, after.sems name = some sem →
    before.sems name = some sem ∨ after.semMaker sem = some (.core incarnation)
  consistent : Consistent objects before → Consistent objects after

namespace CoreMove

variable {objects : SharedObjects} {incarnation : ℕ} {kernel after : Kernel Agent}

theorem refl (objects : SharedObjects) (incarnation : ℕ) (kernel : Kernel Agent) :
    CoreMove objects incarnation kernel kernel :=
  ⟨rfl, rfl, rfl, Nat.le_refl _, fun _ _ => rfl, Nat.le_refl _, fun _ _ => rfl,
    fun _ _ => .inl rfl, fun _ _ hsem => .inl hsem, fun hconsistent => hconsistent⟩

/-- What a core opens and locks for itself does not count. -/
theorem trans_untouched {middle : Kernel Agent} (h : CoreMove objects incarnation kernel middle)
    (huntouched : Kernel.Untouched (.core incarnation) middle after) :
    CoreMove objects incarnation kernel after where
  files := (huntouched.files .stack nofun).trans h.files
  nextFd := (huntouched.nextFd .stack nofun).trans h.nextFd
  opened := (huntouched.opened .stack nofun).trans h.opened
  made := h.made.trans huntouched.made.ge
  maker := fun region hregion => (congrFun huntouched.maker region).trans (h.maker region hregion)
  semsMade := h.semsMade.trans huntouched.semsMade.ge
  semMaker := fun sem hsem => (congrFun huntouched.semMaker sem).trans (h.semMaker sem hsem)
  words := by
    intro region hregion
    rw [SharedObjects.Announced, huntouched.words]
    exact (h.words region hregion).imp_right fun ⟨hmaker, hannounced, hrings⟩ =>
      ⟨hmaker, hannounced, hrings.of_untouched huntouched⟩
  sems := by
    intro name sem hsem
    rw [huntouched.sems] at hsem
    rw [huntouched.semMaker]
    exact h.sems name sem hsem
  consistent := fun hconsistent => (h.consistent hconsistent).of_untouched huntouched

theorem of_untouched (h : Kernel.Untouched (.core incarnation) kernel after) :
    CoreMove objects incarnation kernel after :=
  (refl objects incarnation kernel).trans_untouched h

/-- Without its name a region cannot be found. -/
theorem shmUnlink (objects : SharedObjects) (incarnation : ℕ) (kernel : Kernel Agent)
    (name : Name) :
    CoreMove objects incarnation kernel
      { kernel with names := Function.update kernel.names name none } :=
  { refl objects incarnation kernel with
    consistent := fun hconsistent =>
      { region := fun region hregion => by
          by_cases hsame : objects.shm = name
          · simp [hsame] at hregion
          · exact hconsistent.region region (by simpa [Function.update_of_ne hsame] using hregion)
        sem := hconsistent.sem } }

/-- A new region is not announced. -/
theorem makeRegion (objects : SharedObjects) (incarnation : ℕ) (kernel : Kernel Agent) :
    CoreMove objects incarnation kernel (kernel.makeRegion (.core incarnation) objects.shm) :=
  { refl objects incarnation kernel with
    made := Nat.le_succ _
    maker := fun region hregion => Function.update_of_ne (Nat.ne_of_lt hregion) ..
    words := fun region hregion =>
      .inl (congrFun (Function.update_of_ne (Nat.ne_of_lt hregion) ..) magicOffset)
    consistent := fun hconsistent =>
      { region := fun region hregion => by
          have hnew : kernel.made = region := by
            simpa [Kernel.makeRegion] using hregion
          subst hnew
          refine ⟨Nat.lt_succ_self _, incarnation, Function.update_self .., fun hannounced => ?_⟩
          have hzero : (0 : ℕ) = objects.magic := by
            simpa [SharedObjects.Announced, Kernel.makeRegion] using hannounced
          exact absurd hzero.symm objects.magic_ne_zero
        sem := hconsistent.sem } }

theorem semUnlink (objects : SharedObjects) (incarnation : ℕ) (kernel : Kernel Agent)
    (name : Name) :
    CoreMove objects incarnation kernel
      { kernel with sems := Function.update kernel.sems name none } := by
  have hkept : ∀ other sem, Function.update kernel.sems name none other = some sem →
      kernel.sems other = some sem := by
    intro other sem hsem
    by_cases hsame : other = name
    · rw [hsame, Function.update_self] at hsem
      cases hsem
    · rwa [Function.update_of_ne hsame] at hsem
  exact
    { refl objects incarnation kernel with
      words := fun _ _ => .inl rfl
      sems := fun other sem hsem => .inl (hkept other sem hsem)
      consistent := fun hconsistent =>
        { region := fun region hregion => by
            obtain ⟨hmade, maker, hmaker, hrings⟩ := hconsistent.region region hregion
            exact ⟨hmade, maker, hmaker, fun hannounced other hother sem hsem =>
              hrings hannounced other hother sem (hkept other sem hsem)⟩
          sem := fun other sem hsem => hconsistent.sem other sem (hkept other sem hsem) } }

/-- A word other than the magic word announces nothing. -/
theorem storeWord (objects : SharedObjects) (incarnation : ℕ) (kernel : Kernel Agent)
    (map value : ℕ) {offset : ℕ} (hoffset : offset ≠ magicOffset) :
    CoreMove objects incarnation kernel
      { kernel with
        words := Function.update kernel.words map
          (Function.update (kernel.words map) offset value) } :=
  { refl objects incarnation kernel with
    words := fun region _ => .inl (magicWord_store hoffset map value region)
    consistent := fun hconsistent =>
      { region := by
          simp only [SharedObjects.Announced, Rings, magicWord_store hoffset]
          exact hconsistent.region
        sem := hconsistent.sem } }

/-- A semaphore may be made while the region that can be found is not announced. -/
theorem semCreate {region : ℕ} (hregion : kernel.names objects.shm = some region)
    (hsilent : ¬ objects.Announced region kernel) (name : Name) :
    CoreMove objects incarnation kernel
      { kernel.openSem (.core incarnation) name with
        sems := Function.update kernel.sems name (some kernel.semsMade)
        semsMade := kernel.semsMade + 1
        semMaker := Function.update kernel.semMaker kernel.semsMade
          (some (.core incarnation)) } where
  files := rfl
  nextFd := rfl
  opened := (kernel.openSem_untouched (.core incarnation) name).opened .stack nofun
  made := Nat.le_refl _
  maker := fun _ _ => rfl
  semsMade := Nat.le_succ _
  semMaker := fun sem hsem => Function.update_of_ne (Nat.ne_of_lt hsem) ..
  words := fun _ _ => .inl rfl
  sems := by
    intro other sem hsem
    by_cases hsame : other = name
    · subst hsame
      have hnew : kernel.semsMade = sem := by simpa using hsem
      subst hnew
      exact .inr (Function.update_self ..)
    · exact .inl (by simpa [Function.update_of_ne hsame] using hsem)
  consistent := by
    intro hconsistent
    refine ⟨?_, ?_⟩
    · intro found hfound
      obtain rfl : region = found := Option.some.inj (hregion.symm.trans hfound)
      obtain ⟨hmade, maker, hmaker, -⟩ := hconsistent.region region hregion
      exact ⟨hmade, maker, hmaker, fun hannounced => absurd hannounced hsilent⟩
    · intro other sem hsem
      by_cases hsame : other = name
      · subst hsame
        have hnew : kernel.semsMade = sem := by simpa using hsem
        subst hnew
        exact Nat.lt_succ_self _
      · have hold : kernel.sems other = some sem := by
          simpa [Function.update_of_ne hsame] using hsem
        exact Nat.lt_succ_of_lt (hconsistent.sem other sem hold)

/-- A core announces its region once both semaphores are its own. -/
theorem announce {region : ℕ} (hregion : kernel.names objects.shm = some region)
    (hmaker : kernel.maker region = some (.core incarnation))
    (hrings : Rings objects.doorbells incarnation kernel) :
    CoreMove objects incarnation kernel
      { kernel with
        words := Function.update kernel.words region
          (Function.update (kernel.words region) magicOffset objects.magic) } :=
  { refl objects incarnation kernel with
    words := by
      intro other _
      by_cases hsame : other = region
      · subst hsame
        exact .inr ⟨hmaker, by simp [SharedObjects.Announced], hrings⟩
      · exact .inl (congrFun (Function.update_of_ne hsame ..) magicOffset)
    consistent := fun hconsistent =>
      { region := by
          intro found hfound
          obtain rfl : region = found := Option.some.inj (hregion.symm.trans hfound)
          exact ⟨(hconsistent.region region hregion).1, incarnation, hmaker, fun _ => hrings⟩
        sem := hconsistent.sem } }

end CoreMove

/-! ## A core opens -/

section Core

variable {objects : SharedObjects} {incarnation : ℕ} {kernel : Kernel Agent}

/-- Every request of a create is such a move. -/
theorem createCall_move {request : Posix.Call} (hrequest : CreateCall objects.shm request)
    (granted : Bool) (kernel : Kernel Agent) :
    CoreMove objects incarnation kernel
      (Kernel.perform (.core incarnation) request granted kernel).2 := by
  have hquiet : request.Quiet → CoreMove objects incarnation kernel
      (Kernel.perform (.core incarnation) request granted kernel).2 := fun hquiet =>
    .of_untouched (Kernel.perform_untouched (.core incarnation) hquiet granted kernel)
  cases request with
  | shmCreate name =>
      obtain rfl : name = objects.shm := hrequest
      simp only [Kernel.perform]
      split_ifs
      · exact .refl objects incarnation kernel
      · exact (CoreMove.makeRegion objects incarnation kernel).trans_untouched
          (Kernel.openFile_untouched _ (Agent.core incarnation) kernel.made)
      · exact .refl objects incarnation kernel
  | shmUnlink name =>
      exact .shmUnlink objects incarnation kernel name
  | shmOpen | flock | close | ftruncate | posixFallocate | mmap => exact hquiet trivial
  | fstat | munmap | clear | store | load | semUnlink | semCreate | semOpen | semClose =>
      exact hrequest.elim

/-- The core's region can be found and is not announced yet. -/
structure Opening (objects : SharedObjects) (incarnation region : ℕ) (kernel : Kernel Agent) :
    Prop where
  names : kernel.names objects.shm = some region
  maker : kernel.maker region = some (.core incarnation)
  silent : ¬ objects.Announced region kernel

theorem Opening.of_untouched {region : ℕ} {before after : Kernel Agent}
    (hopening : Opening objects incarnation region before)
    (h : Kernel.Untouched .stack before after) :
    Opening objects incarnation region after := by
  refine ⟨?_, ?_, ?_⟩
  · rw [h.names]
    exact hopening.names
  · rw [h.maker]
    exact hopening.maker
  · rw [SharedObjects.Announced, h.words]
    exact hopening.silent

/-- The requests of a teardown. -/
def TeardownCall (request : Posix.Call) : Prop :=
  CloseCall request ∨ ∃ name, request = .semUnlink name

theorem teardownCall_move {request : Posix.Call} (hrequest : TeardownCall request) (granted : Bool)
    (kernel : Kernel Agent) :
    CoreMove objects incarnation kernel
      (Kernel.perform (.core incarnation) request granted kernel).2 := by
  rcases hrequest with (hquiet | ⟨name, rfl⟩) | ⟨name, rfl⟩
  · exact .of_untouched (Kernel.perform_untouched (.core incarnation) hquiet granted kernel)
  · exact .shmUnlink objects incarnation kernel name
  · exact .semUnlink objects incarnation kernel name

theorem proxyTeardown_uses (objects : SharedObjects) (req rsp : Option ℕ) (shm : ShmHandle) :
    (proxyTeardown objects req rsp shm).Uses TeardownCall := by
  have hclose : ∀ (sem : Option ℕ) (name : Name),
      (plcSemClose sem name true).Uses TeardownCall := by
    intro sem name
    have hunlink : Program.Uses TeardownCall (semUnlink name) :=
      ⟨.inr ⟨name, rfl⟩, fun _ => trivial⟩
    cases sem with
    | none => exact hunlink
    | some opened => exact ⟨.inl (.inl trivial), fun _ => hunlink⟩
  refine (hclose req objects.req).bind fun _ => (hclose rsp objects.rsp).bind fun _ => ?_
  exact ((plcShmClose_uses shm).mono fun _ => .inl).bind fun _ => trivial

/-- A core that could not make its objects takes them back. -/
theorem proxyTeardown_sat (req rsp : Option ℕ) (shm : ShmHandle) (status : PlcStatus) :
    (proxyTeardown objects req rsp shm >>= fun _ => pure status).Sat
      (Kernel.perform (.core incarnation)) (Kernel.Untouched .stack)
      (CoreMove objects incarnation) (fun _ _ => True) kernel := by
  have hsat : (proxyTeardown objects req rsp shm).Sat (Kernel.perform (.core incarnation))
      (Kernel.Untouched .stack) (CoreMove objects incarnation) (fun _ _ => True) kernel :=
    (proxyTeardown_uses objects req rsp shm).sat fun request granted kernel hrequest =>
      teardownCall_move hrequest granted kernel
  exact hsat.bind fun _ _ _ => fun _ _ => trivial

theorem Opening.store {region : ℕ} (hopening : Opening objects incarnation region kernel)
    (map value : ℕ) {offset : ℕ} (hoffset : offset ≠ magicOffset) :
    Opening objects incarnation region
      { kernel with
        words := Function.update kernel.words map
          (Function.update (kernel.words map) offset value) } := by
  refine ⟨hopening.names, hopening.maker, ?_⟩
  simp only [SharedObjects.Announced, magicWord_store hoffset]
  exact hopening.silent

/-- The core has made some of its semaphores. -/
structure Ringing (objects : SharedObjects) (incarnation region : ℕ) (done : List Name)
    (kernel : Kernel Agent) : Prop extends Opening objects incarnation region kernel where
  rings : Rings done incarnation kernel

theorem Ringing.stable (objects : SharedObjects) (incarnation region : ℕ) (done : List Name) :
    Program.Stable (Kernel.Untouched Agent.stack) (Ringing objects incarnation region done) :=
  fun _ _ h hmove => ⟨h.toOpening.of_untouched hmove, h.rings.of_untouched hmove⟩

/-- One more semaphore, if it can be had. -/
theorem plcSemCreate_sat {region : ℕ} {done : List Name} {name : Name} (hname : name ∉ done)
    (h : Ringing objects incarnation region done kernel) :
    (plcSemCreate name).Sat (Kernel.perform (.core incarnation)) (Kernel.Untouched .stack)
      (CoreMove objects incarnation)
      (fun result after => result.2 = .ok →
        Ringing objects incarnation region (name :: done) after) kernel := by
  refine Program.sat_call (Ringing.stable objects incarnation region done) h
    fun before granted h => ⟨.semUnlink objects incarnation before name, ?_⟩
  have hunlinked : Ringing objects incarnation region done
      { before with sems := Function.update before.sems name none } :=
    { h with
      rings := by
        intro other hother sem hsem
        have hne : other ≠ name := fun hsame => hname (hsame ▸ hother)
        exact h.rings other hother sem (by simpa [Function.update_of_ne hne] using hsem) }
  refine Program.sat_call (Ringing.stable objects incarnation region done) hunlinked
    fun before granted h => ?_
  simp only [Kernel.perform]
  split_ifs
  · exact ⟨.refl objects incarnation before, fun _ _ hok => by cases hok⟩
  · refine ⟨.semCreate h.names h.silent name, fun later hreach _ => ?_⟩
    refine (Ringing.stable objects incarnation region (name :: done)).reach ?_ hreach
    refine ⟨⟨h.names, h.maker, h.silent⟩, ?_⟩
    intro other hother sem hsem
    -- Whatever the new semaphore replaces, its number is not in use.
    by_cases hnew : sem = before.semsMade
    · rw [hnew]
      exact Function.update_self ..
    · have hold : before.sems other = some sem := by
        by_cases hsame : other = name
        · subst hsame
          exact absurd (by simpa using hsem.symm) hnew
        · simpa [Function.update_of_ne hsame] using hsem
      have hmem : other ∈ done := by
        rcases List.mem_cons.mp hother with rfl | hmem
        · exact absurd (by simpa using hsem.symm) hnew
        · exact hmem
      exact (Function.update_of_ne hnew ..).trans (h.rings other hmem sem hold)
  · exact ⟨.refl objects incarnation before, fun _ _ hok => by cases hok⟩

theorem proxyPublish_sat {region : ℕ} (h : Opening objects incarnation region kernel)
    (shm : ShmHandle) :
    (proxyPublish objects shm region).Sat (Kernel.perform (.core incarnation))
      (Kernel.Untouched .stack) (CoreMove objects incarnation) (fun _ _ => True) kernel := by
  have hnone : Ringing objects incarnation region [] kernel :=
    { h with rings := fun name hname => by cases hname }
  refine (plcSemCreate_sat (List.not_mem_nil (a := objects.req)) hnone).bind ?_
  rintro ⟨req, status⟩ afterReq hreq
  dsimp only
  split_ifs with hstatus
  · exact proxyTeardown_sat req none shm status
  · have hfresh : objects.rsp ∉ [objects.req] := by
      simpa using objects.req_ne_rsp.symm
    refine (plcSemCreate_sat hfresh (hreq (not_not.mp hstatus))).bind ?_
    rintro ⟨rsp, status⟩ afterRsp hrsp
    dsimp only
    split_ifs with hstatus
    · exact proxyTeardown_sat req rsp shm status
    · refine Program.sat_call (Ringing.stable objects incarnation region _)
        (hrsp (not_not.mp hstatus)) fun before granted h => ⟨?_, fun _ _ => trivial⟩
      refine .announce h.names h.maker fun name hname => h.rings name ?_
      exact List.mem_reverse.mp hname

/-- **A core announces a region only with its own semaphores.** Every request of
`proxy_open` is a move of its incarnation. -/
theorem proxyOpenShared_sat (objects : SharedObjects) (incarnation : ℕ)
    (kernel : Kernel Agent) :
    (proxyOpenShared objects).Sat (Kernel.perform (.core incarnation))
      (Kernel.Untouched .stack) (CoreMove objects incarnation) (fun _ _ => True) kernel := by
  have hother : Agent.core incarnation ≠ .stack := nofun
  have hcreate : (plcShmCreate freshHandle objects.shm objects.bytes).Sat
      (Kernel.perform (.core incarnation)) (Kernel.Untouched .stack)
      (CoreMove objects incarnation)
      (CreateResult (.core incarnation) objects.shm 0 objects.bytes) kernel :=
    plcShmCreate_sat (fun _ _ hmove => undisturbed_of_untouched hother hmove)
      (CoreMove.refl objects incarnation)
      (fun request granted kernel hrequest => createCall_move hrequest granted kernel)
      (Nat.zero_le _) freshHandle objects.bytes
  refine hcreate.bind ?_
  rintro ⟨shm, status⟩ created hresult
  dsimp only
  split_ifs with hstatus
  · exact fun _ _ => trivial
  · obtain ⟨region, fd, rfl, hcreated⟩ := hresult (not_not.mp hstatus)
    have hopening : Opening objects incarnation region created := by
      refine ⟨hcreated.names, hcreated.maker, ?_⟩
      rw [SharedObjects.Announced, hcreated.words]
      exact objects.magic_ne_zero.symm
    have hstable : Program.Stable (Kernel.Untouched Agent.stack)
        (Opening objects incarnation region) :=
      fun _ _ hopening hmove => hopening.of_untouched hmove
    refine Program.sat_call hstable hopening fun before granted hopening =>
      ⟨.storeWord objects incarnation before region _ (by decide), ?_⟩
    refine Program.sat_call hstable
      (hopening.store region objects.abiVersion (show abiVersionOffset ≠ magicOffset by decide))
      fun before granted hopening =>
        ⟨.storeWord objects incarnation before region _ (by decide), ?_⟩
    exact proxyPublish_sat
      (hopening.store region objects.bytes (show layoutBytesOffset ≠ magicOffset by decide)) _

end Core

/-! ## A stack process attaches -/

section Stack

variable {objects : SharedObjects} {kernel : Kernel Agent}

/-- The stack process has the announced region of an earlier incarnation open, and
has not opened this semaphore yet. -/
def Awaits (objects : SharedObjects) (incarnation : ℕ) (kernel : Kernel Agent) (name : Name) :
    Prop :=
  kernel.opened .stack name = false ∧
    ∃ fd < kernel.nextFd .stack,
      match kernel.files .stack fd with
      | some region =>
          objects.Announced region kernel ∧ kernel.maker region ≠ some (.core incarnation)
      | none => False

instance (objects : SharedObjects) (incarnation : ℕ) (kernel : Kernel Agent) (name : Name) :
    Decidable (Awaits objects incarnation kernel name) := by
  have (fd : ℕ) : Decidable (match kernel.files .stack fd with
      | some region =>
          objects.Announced region kernel ∧ kernel.maker region ≠ some (.core incarnation)
      | none => False) := by
    split <;> infer_instance
  unfold Awaits
  infer_instance

/-- What the stack process relies on: a move of some incarnation that does not make
a semaphore the stack process awaits. -/
def StackRely (objects : SharedObjects) (before after : Kernel Agent) : Prop :=
  ∃ incarnation, CoreMove objects incarnation before after ∧
    ∀ name, after.sems name = before.sems name ∨ after.sems name = none ∨
      ¬ Awaits objects incarnation before name

/-- The stack process has not opened anything that counts. -/
structure Waiting (objects : SharedObjects) (names : List Name) (kernel : Kernel Agent) : Prop where
  consistent : Consistent objects kernel
  opened : ∀ name ∈ names, kernel.opened .stack name = false

/-- The stack process has a region open. If it is announced, then the semaphores
still to be opened are of the same incarnation. -/
structure Holding (objects : SharedObjects) (names : List Name) (incarnation region fd : ℕ)
    (kernel : Kernel Agent) : Prop extends Waiting objects names kernel where
  file : kernel.files .stack fd = some region
  fd_lt : fd < kernel.nextFd .stack
  lt_made : region < kernel.made
  maker : kernel.maker region = some (.core incarnation)
  rings : objects.Announced region kernel → Rings names incarnation kernel

theorem Waiting.stable (objects : SharedObjects) (names : List Name) :
    Program.Stable (StackRely objects) (Waiting objects names) := by
  rintro before after h ⟨incarnation, hmove, -⟩
  refine ⟨hmove.consistent h.consistent, fun name hname => ?_⟩
  rw [hmove.opened]
  exact h.opened name hname

theorem Holding.stable {names : List Name} (hnames : names ⊆ objects.doorbells)
    (incarnation region fd : ℕ) :
    Program.Stable (StackRely objects) (Holding objects names incarnation region fd) := by
  intro before after h hrely
  have hwaiting := Waiting.stable objects names before after h.toWaiting hrely
  obtain ⟨moving, hmove, hawaits⟩ := hrely
  refine { hwaiting with file := ?_, fd_lt := ?_, lt_made := ?_, maker := ?_, rings := ?_ }
  · rw [hmove.files]
    exact h.file
  · rw [hmove.nextFd]
    exact h.fd_lt
  · exact Nat.lt_of_lt_of_le h.lt_made hmove.made
  · rw [hmove.maker region h.lt_made]
    exact h.maker
  · intro hannounced name hname sem hsem
    rcases hmove.words region h.lt_made with hsame | ⟨hmaker, -, hrings⟩
    · have hbefore : objects.Announced region before := hsame.symm.trans hannounced
      have hold : before.sems name = some sem →
          after.semMaker sem = some (.core incarnation) := by
        intro hsem
        rw [hmove.semMaker sem (h.consistent.sem name sem hsem)]
        exact h.rings hbefore name hname sem hsem
      rcases hawaits name with hkept | hnone | hcalm
      · exact hold (hkept ▸ hsem)
      · rw [hnone] at hsem
        cases hsem
      · rcases hmove.sems name sem hsem with hsem | hnew
        · exact hold hsem
        · -- The new semaphore is not awaited, so the region is the same core's.
          by_cases hmaker : before.maker region = some (.core moving)
          · rw [hnew, ← hmaker, h.maker]
          · refine absurd ⟨h.opened name hname, fd, h.fd_lt, ?_⟩ hcalm
            rw [h.file]
            exact ⟨hbefore, hmaker⟩
    · rw [hrings name (hnames hname) sem hsem, ← hmaker, h.maker]

/-- The stack process has found an announced region. -/
structure HoldingAnnounced (objects : SharedObjects) (names : List Name) (incarnation region fd : ℕ)
    (kernel : Kernel Agent) : Prop extends Holding objects names incarnation region fd kernel where
  announced : objects.Announced region kernel

theorem HoldingAnnounced.stable {names : List Name} (hnames : names ⊆ objects.doorbells)
    (incarnation region fd : ℕ) :
    Program.Stable (StackRely objects) (HoldingAnnounced objects names incarnation region fd) := by
  intro before after h hrely
  refine { Holding.stable hnames incarnation region fd before after h.toHolding hrely with
    announced := ?_ }
  obtain ⟨moving, hmove, -⟩ := hrely
  rcases hmove.words region h.lt_made with hsame | ⟨-, hannounced, -⟩
  · exact hsame.trans h.announced
  · exact hannounced

/-- Passive requests of the stack process change nothing that counts. -/
theorem Waiting.perform {names : List Name} (h : Waiting objects names kernel)
    {request : Posix.Call} (hpassive : request.Passive) (granted : Bool) :
    Waiting objects names (Kernel.perform .stack request granted kernel).2 := by
  refine ⟨h.consistent.of_untouched
    (Kernel.perform_untouched .stack hpassive.1 granted kernel), ?_⟩
  rw [Kernel.perform_opened Agent.stack hpassive granted kernel]
  exact h.opened

theorem Waiting.sat {α : Type} {names : List Name} {program : Process α}
    (huses : program.Uses Posix.Call.Passive) (h : Waiting objects names kernel) :
    program.Sat (Kernel.perform .stack) (StackRely objects) (Kernel.Untouched .stack)
      (fun _ after => Waiting objects names after) kernel := by
  induction program generalizing kernel with
  | done value => exact Program.sat_done (Waiting.stable objects names) h
  | call request resume ih =>
      refine Program.sat_call (Waiting.stable objects names) h fun before granted h =>
        ⟨Kernel.perform_untouched .stack huses.1.1 granted before, ?_⟩
      exact ih _ (huses.2 _) (h.perform huses.1 granted)

theorem passive_shmOpen (name : Name) : (Posix.Call.shmOpen name).Passive := ⟨trivial, nofun⟩

theorem passive_close (fd : ℕ) : (Posix.Call.close fd).Passive := ⟨trivial, nofun⟩

theorem passive_fstat (fd : ℕ) : (Posix.Call.fstat fd).Passive := ⟨trivial, nofun⟩

theorem passive_mmap (fd size : ℕ) : (Posix.Call.mmap fd size).Passive := ⟨trivial, nofun⟩

theorem passive_load (base offset : ℕ) : (Posix.Call.load base offset).Passive := ⟨trivial, nofun⟩

/-- A handle that does not own its region closes without touching the name. -/
theorem plcShmClose_passive {handle : ShmHandle} (howner : handle.owner = false) :
    (plcShmClose handle).Uses Posix.Call.Passive := by
  have hmunmap : ∀ base, (Posix.Call.munmap base).Passive := fun _ => ⟨trivial, nofun⟩
  simp only [plcShmClose, howner]
  cases handle.base with
  | none => split_ifs <;> simp_all [Program.Uses, passive_close]
  | some base => split_ifs <;> simp_all [Program.Uses, passive_close]

/-- What `plc_shm_attach` reports. -/
def AttachResult (objects : SharedObjects) (result : ShmHandle × PlcStatus)
    (kernel : Kernel Agent) : Prop :=
  Waiting objects objects.doorbells kernel ∧ result.1.owner = false ∧
    (result.2 = .ok → ∃ incarnation region fd, result.1.base = some region ∧
      Holding objects objects.doorbells incarnation region fd kernel)

theorem attachResult_stable (objects : SharedObjects) (result : ShmHandle × PlcStatus) :
    Program.Stable (StackRely objects) (AttachResult objects result) := by
  rintro before after ⟨hwaiting, howner, hresult⟩ hrely
  refine ⟨Waiting.stable objects _ before after hwaiting hrely, howner, fun hok => ?_⟩
  obtain ⟨incarnation, region, fd, hbase, hholding⟩ := hresult hok
  exact ⟨incarnation, region, fd, hbase,
    Holding.stable (List.Subset.refl _) incarnation region fd before after hholding hrely⟩

/-- A name that is found leads to a region of one incarnation. -/
theorem Waiting.openFile (h : Waiting objects objects.doorbells kernel) {region : ℕ}
    (hnames : kernel.names objects.shm = some region) :
    ∃ incarnation, Holding objects objects.doorbells incarnation region
      (kernel.openFile .stack region).1 (kernel.openFile .stack region).2 := by
  obtain ⟨hmade, incarnation, hmaker, hrings⟩ := h.consistent.region region hnames
  have huntouched := kernel.openFile_untouched Agent.stack region
  exact ⟨incarnation,
    { consistent := h.consistent.of_untouched huntouched
      opened := h.opened
      file := by simp [Kernel.openFile]
      fd_lt := by simp [Kernel.openFile]
      lt_made := hmade
      maker := hmaker
      rings := hrings }⟩

theorem plcShmAttachFail_sat (h : Waiting objects objects.doorbells kernel) {shm : ShmHandle}
    (howner : shm.owner = false) (fd : ℕ) {status : PlcStatus} (hfailed : status ≠ .ok) :
    (plcShmAttachFail shm fd status).Sat (Kernel.perform .stack) (StackRely objects)
      (Kernel.Untouched .stack) (AttachResult objects) kernel := by
  refine Program.sat_call (Waiting.stable objects _) h fun before granted h =>
    ⟨Kernel.perform_untouched .stack (passive_close fd).1 granted before, ?_⟩
  exact Program.sat_done (attachResult_stable objects _)
    ⟨h.perform (passive_close fd) granted, howner, fun hok => absurd hok hfailed⟩

theorem plcShmMap_sat {incarnation region fd : ℕ}
    (h : Holding objects objects.doorbells incarnation region fd kernel) {shm : ShmHandle}
    (howner : shm.owner = false) :
    (plcShmMap shm fd objects.bytes).Sat (Kernel.perform .stack) (StackRely objects)
      (Kernel.Untouched .stack) (AttachResult objects) kernel := by
  have hstable := Holding.stable (List.Subset.refl objects.doorbells) incarnation region fd
  refine Program.sat_call hstable h fun before granted h =>
    ⟨Kernel.perform_untouched .stack (passive_fstat fd).1 granted before, ?_⟩
  cases granted with
  | false => exact plcShmAttachFail_sat h.toWaiting howner fd (by decide)
  | true =>
      simp only [Kernel.perform, h.file, Program.bind]
      split_ifs with hbytes
      · exact plcShmAttachFail_sat h.toWaiting howner fd (by decide)
      · refine Program.sat_call hstable h fun before granted h =>
          ⟨Kernel.perform_untouched .stack (passive_mmap fd objects.bytes).1 granted before, ?_⟩
        cases granted with
        | false => exact plcShmAttachFail_sat h.toWaiting howner fd (by decide)
        | true =>
            simp only [Kernel.perform, h.file]
            exact Program.sat_done (attachResult_stable objects _)
              ⟨h.toWaiting, howner, fun _ => ⟨incarnation, region, fd, rfl, h⟩⟩

theorem plcShmAttach_sat (h : Waiting objects objects.doorbells kernel) :
    (plcShmAttach freshHandle objects.shm objects.bytes).Sat (Kernel.perform .stack)
      (StackRely objects) (Kernel.Untouched .stack) (AttachResult objects) kernel := by
  unfold plcShmAttach
  split_ifs with hbytes
  · exact Program.sat_done (attachResult_stable objects _) ⟨h, rfl, fun hok => by cases hok⟩
  · refine Program.sat_call (Waiting.stable objects _) h fun before granted h =>
      ⟨Kernel.perform_untouched .stack (passive_shmOpen objects.shm).1 granted before, ?_⟩
    simp only [Kernel.perform]
    cases hnames : before.names objects.shm with
    | none =>
        exact Program.sat_done (attachResult_stable objects _) ⟨h, rfl, fun hok => by cases hok⟩
    | some region =>
        obtain ⟨incarnation, hholding⟩ := h.openFile hnames
        exact plcShmMap_sat hholding rfl

/-- The rule for a read of the region. -/
theorem sat_load {α : Type} {base offset : ℕ} {next : ℕ → Process α}
    {post : α → Kernel Agent → Prop} {fact : Kernel Agent → Prop}
    (hstable : Program.Stable (StackRely objects) fact) (hfact : fact kernel)
    (hnext : ∀ before, fact before →
      (next (before.words base offset)).Sat (Kernel.perform .stack) (StackRely objects)
        (Kernel.Untouched .stack) post before) :
    (load base offset >>= next).Sat (Kernel.perform .stack) (StackRely objects)
      (Kernel.Untouched .stack) post kernel :=
  Program.sat_call hstable hfact fun before _ hfact => ⟨.refl .stack before, hnext before hfact⟩

/-- A layout that matches was announced. -/
theorem layoutMatches_sat {incarnation region fd : ℕ}
    (h : Holding objects objects.doorbells incarnation region fd kernel) :
    (layoutMatches objects region).Sat (Kernel.perform .stack) (StackRely objects)
      (Kernel.Untouched .stack)
      (fun known after => Holding objects objects.doorbells incarnation region fd after ∧
        (known = true → HoldingAnnounced objects objects.doorbells incarnation region fd after))
      kernel := by
  have hholds := Holding.stable (List.Subset.refl objects.doorbells) incarnation region fd
  have hfinds := HoldingAnnounced.stable (List.Subset.refl objects.doorbells) incarnation region fd
  have hreport : ∀ {known : Bool} {after : Kernel Agent},
      HoldingAnnounced objects objects.doorbells incarnation region fd after →
      (Program.done known : Process Bool).Sat (Kernel.perform .stack) (StackRely objects)
        (Kernel.Untouched .stack)
        (fun known after => Holding objects objects.doorbells incarnation region fd after ∧
          (known = true → HoldingAnnounced objects objects.doorbells incarnation region fd after))
        after :=
    fun hfound later hreach =>
      ⟨(hfinds.reach hfound hreach).toHolding, fun _ => hfinds.reach hfound hreach⟩
  refine sat_load hholds h fun before h => ?_
  split_ifs with hmagic
  · exact fun later hreach => ⟨hholds.reach h hreach, fun hknown => by cases hknown⟩
  · have hfound : HoldingAnnounced objects objects.doorbells incarnation region fd before :=
      { h with announced := not_not.mp hmagic }
    refine sat_load hfinds hfound fun before hfound => ?_
    split_ifs with habi
    · exact hreport hfound
    · exact sat_load hfinds hfound fun before hfound => hreport hfound

theorem layoutForeign_passive (objects : SharedObjects) (map : ℕ) :
    (layoutForeign objects map).Uses Posix.Call.Passive := by
  have hlast : Program.Uses Posix.Call.Passive (do
      return (← load map magicOffset) = objects.magic : Process Bool) :=
    ⟨passive_load map magicOffset, fun _ => trivial⟩
  refine ⟨passive_load map magicOffset, fun first => ?_⟩
  dsimp only [Program.bind]
  split_ifs
  · refine ⟨passive_load map magicOffset, fun second => ?_⟩
    dsimp only [Program.bind]
    split_ifs
    · trivial
    · exact hlast
  · exact hlast

/-- **What `attach` returns.** An announced region, and the semaphores under the two
names are of the same incarnation. -/
theorem attach_sat (turns : ℕ) (h : Waiting objects objects.doorbells kernel) :
    (attach objects turns).Sat (Kernel.perform .stack) (StackRely objects)
      (Kernel.Untouched .stack)
      (fun result after => ∀ shm ∈ result, shm.owner = false ∧
        ∃ incarnation region fd, shm.base = some region ∧
          HoldingAnnounced objects objects.doorbells incarnation region fd after) kernel := by
  induction turns generalizing kernel with
  | zero => exact fun _ _ _ hshm => (Option.not_mem_none _ hshm).elim
  | succ turns ih =>
      refine (plcShmAttach_sat h).bind ?_
      rintro ⟨shm, status⟩ attached ⟨hwaiting, howner, hresult⟩
      dsimp only at howner hresult ⊢
      split_ifs with hstatus
      · obtain ⟨incarnation, region, fd, hbase, hholding⟩ := hresult hstatus
        rw [hbase, Option.getD_some]
        refine (layoutMatches_sat hholding).bind ?_
        rintro known checked ⟨hholding, hfound⟩
        split_ifs with hknown
        · have hfinds := HoldingAnnounced.stable (List.Subset.refl objects.doorbells)
            incarnation region fd
          intro later hreach found hmem
          obtain rfl : shm = found := Option.some.inj hmem
          exact ⟨howner, incarnation, region, fd, hbase, hfinds.reach (hfound hknown) hreach⟩
        · refine (Waiting.sat (layoutForeign_passive objects region) hholding.toWaiting).bind ?_
          intro foreign checked hwaiting
          split_ifs
          · refine (Waiting.sat (plcShmClose_passive howner) hwaiting).bind ?_
            exact fun _ _ _ _ _ _ hshm => (Option.not_mem_none _ hshm).elim
          · exact (Waiting.sat (plcShmClose_passive howner) hwaiting).bind
              fun _ _ hwaiting => ih hwaiting
      · exact ih hwaiting

/-- A semaphore of one incarnation. -/
structure SemOf (incarnation sem : ℕ) (kernel : Kernel Agent) : Prop where
  lt_made : sem < kernel.semsMade
  maker : kernel.semMaker sem = some (.core incarnation)

theorem SemOf.stable (objects : SharedObjects) (incarnation sem : ℕ) :
    Program.Stable (StackRely objects) (SemOf incarnation sem) := by
  rintro before after h ⟨moving, hmove, -⟩
  exact ⟨Nat.lt_of_lt_of_le h.lt_made hmove.semsMade,
    (hmove.semMaker sem h.lt_made).trans h.maker⟩

theorem SemOf.stable_untouched (incarnation sem : ℕ) :
    Program.Stable (Kernel.Untouched Agent.stack) (SemOf incarnation sem) :=
  fun _ _ h hmove => ⟨hmove.semsMade ▸ h.lt_made, hmove.semMaker ▸ h.maker⟩

/-- A semaphore that is opened under an announced region is of its incarnation. -/
theorem plcSemAttach_sat {name : Name} {rest : List Name} {incarnation region fd : ℕ}
    (hname : name ∉ rest) (hnames : name :: rest ⊆ objects.doorbells)
    (h : HoldingAnnounced objects (name :: rest) incarnation region fd kernel) :
    (plcSemAttach name).Sat (Kernel.perform .stack) (StackRely objects)
      (Kernel.Untouched .stack)
      (fun result after => ∀ sem, result = (some sem, .ok) →
        HoldingAnnounced objects rest incarnation region fd after ∧
          SemOf incarnation sem after) kernel := by
  have hrest : rest ⊆ objects.doorbells := fun other hother =>
    hnames (List.mem_cons_of_mem name hother)
  refine Program.sat_call (HoldingAnnounced.stable hnames incarnation region fd) h
    fun before granted h => ?_
  have hguar : Kernel.Untouched .stack before
      (Kernel.perform .stack (.semOpen name) granted before).2 :=
    Kernel.perform_untouched .stack (show (Posix.Call.semOpen name).Quiet from trivial)
      granted before
  refine ⟨hguar, ?_⟩
  cases granted with
  | false => exact fun _ _ sem hresult => by cases hresult
  | true =>
      revert hguar
      simp only [Kernel.perform]
      cases hsem : before.sems name with
      | none => exact fun _ _ _ sem hresult => by cases hresult
      | some sem =>
          intro huntouched later hreach found hresult
          obtain rfl : sem = found := by cases hresult; rfl
          have hsemOf : SemOf incarnation sem (before.openSem .stack name) :=
            ⟨h.consistent.sem name sem hsem, h.rings h.announced name List.mem_cons_self sem hsem⟩
          have hopened : HoldingAnnounced objects rest incarnation region fd
              (before.openSem .stack name) :=
            { consistent := h.consistent.of_untouched huntouched
              opened := fun other hother => by
                have hne : other ≠ name := fun hsame => hname (hsame ▸ hother)
                simpa [Kernel.openSem, hne] using h.opened other (List.mem_cons_of_mem name hother)
              file := h.file
              fd_lt := h.fd_lt
              lt_made := h.lt_made
              maker := h.maker
              rings := fun hannounced other hother =>
                h.rings hannounced other (List.mem_cons_of_mem name hother)
              announced := h.announced }
          exact ⟨(HoldingAnnounced.stable hrest incarnation region fd).reach hopened hreach,
            (SemOf.stable objects incarnation sem).reach hsemOf hreach⟩

/-- What the stack process serves was made by one incarnation. -/
structure Attachment.MadeBy (attachment : Attachment) (incarnation : ℕ) (kernel : Kernel Agent) :
    Prop where
  region : kernel.maker attachment.region = some (.core incarnation)
  req : kernel.semMaker attachment.req = some (.core incarnation)
  rsp : kernel.semMaker attachment.rsp = some (.core incarnation)

/-- The result of a stack process that has come to its service loop. -/
def StackResult (result : Option Attachment) (kernel : Kernel Agent) : Prop :=
  ∀ attachment ∈ result, ∃ incarnation, attachment.MadeBy incarnation kernel

/-- A stack process that gives up serves nothing. -/
theorem stackExit_sat {α : Type} {program : Process α} (huses : program.Uses Posix.Call.Passive) :
    (program >>= fun _ => pure none).Sat (Kernel.perform .stack) (StackRely objects)
      (Kernel.Untouched .stack) StackResult kernel := by
  have hsat : program.Sat (Kernel.perform .stack) (StackRely objects) (Kernel.Untouched .stack)
      (fun _ _ => True) kernel :=
    huses.sat fun request granted kernel hrequest =>
      Kernel.perform_untouched .stack hrequest.1 granted kernel
  exact hsat.bind fun _ _ _ _ _ _ hmem => (Option.not_mem_none _ hmem).elim

theorem attachDoorbells_sat {shm : ShmHandle} {incarnation region fd : ℕ}
    (howner : shm.owner = false) (hbase : shm.base = some region)
    (h : HoldingAnnounced objects objects.doorbells incarnation region fd kernel) :
    (attachDoorbells objects shm).Sat (Kernel.perform .stack) (StackRely objects)
      (Kernel.Untouched .stack) StackResult kernel := by
  have hreq : objects.req ∉ [objects.rsp] := by
    simpa using objects.req_ne_rsp
  refine (plcSemAttach_sat hreq (List.Subset.refl _) h).bind ?_
  intro result opened hopened
  split
  · rename_i req
    obtain ⟨hannounced, hsem⟩ := hopened req rfl
    have hrsp : [objects.rsp] ⊆ objects.doorbells := List.subset_cons_self _ _
    have hattach := plcSemAttach_sat (List.not_mem_nil (a := objects.rsp)) hrsp hannounced
    refine (hattach.frame (SemOf.stable objects incarnation req)
      (SemOf.stable_untouched incarnation req) hsem).bind ?_
    rintro result served ⟨hserved, hreqSem⟩
    split
    · rename_i rsp
      obtain ⟨hannounced, hrspSem⟩ := hserved rsp rfl
      intro later hreach attachment hmem
      obtain rfl : (⟨shm.base.getD 0, req, rsp⟩ : Attachment) = attachment :=
        Option.some.inj hmem
      have hstable := HoldingAnnounced.stable (List.nil_subset objects.doorbells) incarnation
        region fd
      rw [hbase, Option.getD_some]
      exact ⟨incarnation, (hstable.reach hannounced hreach).maker,
        ((SemOf.stable objects incarnation req).reach hreqSem hreach).maker,
        ((SemOf.stable objects incarnation rsp).reach hrspSem hreach).maker⟩
    · have hclose : Program.Uses Posix.Call.Passive (do
          plcSemClose (some req) objects.req false
          plcShmClose shm) :=
        ⟨⟨trivial, nofun⟩, fun _ => plcShmClose_passive howner⟩
      exact stackExit_sat hclose
  · exact stackExit_sat (plcShmClose_passive howner)

theorem stackMain_sat (turns : ℕ) (h : Waiting objects objects.doorbells kernel) :
    (stackMain objects turns).Sat (Kernel.perform .stack) (StackRely objects)
      (Kernel.Untouched .stack) StackResult kernel := by
  refine (attach_sat turns h).bind ?_
  intro result attached hattached
  cases result with
  | none => exact fun _ _ _ hmem => (Option.not_mem_none _ hmem).elim
  | some shm =>
      obtain ⟨howner, incarnation, region, fd, hbase, hannounced⟩ := hattached shm rfl
      exact attachDoorbells_sat howner hbase hannounced

end Stack

/-! ## Runs -/

namespace Attaching

/-- No core makes a semaphore that the stack process awaits. -/
def InTime (objects : SharedObjects) (s : Attaching) : Act → Prop
  | .core _ =>
      match s.core with
      | some (.call (.semCreate name) _) => ¬ Awaits objects s.incarnation s.kernel name
      | _ => True
  | _ => True

instance (objects : SharedObjects) (s : Attaching) (act : Act) :
    Decidable (InTime objects s act) := by
  unfold InTime
  cases act with
  | core granted => dsimp only; split <;> infer_instance
  | _ => exact inferInstanceAs (Decidable True)

/-- Both processes do what they should, as far as they have come. -/
structure Inv (objects : SharedObjects) (s : Attaching) : Prop where
  core : ∀ program ∈ s.core, program.Sat (Kernel.perform (.core s.incarnation))
    (Kernel.Untouched .stack) (CoreMove objects s.incarnation) (fun _ _ => True) s.kernel
  stack : s.stack.Sat (Kernel.perform .stack) (StackRely objects) (Kernel.Untouched .stack)
    StackResult s.kernel

theorem Inv.start (objects : SharedObjects) (turns : ℕ) :
    Inv objects (Attaching.start objects turns) where
  core := by
    intro program hprogram
    cases hprogram
    exact proxyOpenShared_sat objects 0 Kernel.empty
  stack := by
    refine stackMain_sat turns ⟨⟨?_, ?_⟩, fun _ _ => rfl⟩
    · exact fun region hregion => by cases hregion
    · exact fun name sem hsem => by cases hsem

/-- A step of the core that meets the condition is what the stack process relies on. -/
theorem stackRely_of_inTime {objects : SharedObjects} {s : Attaching} {granted : Bool}
    {request : Posix.Call} {resume : request.Answer → Process PlcStatus}
    (hcore : s.core = some (.call request resume)) (hintime : InTime objects s (.core granted))
    (hmove : CoreMove objects s.incarnation s.kernel
      (Kernel.perform (.core s.incarnation) request granted s.kernel).2) :
    StackRely objects s.kernel
      (Kernel.perform (.core s.incarnation) request granted s.kernel).2 := by
  refine ⟨s.incarnation, hmove, fun name => ?_⟩
  rcases Kernel.perform_sems (.core s.incarnation) request granted s.kernel name with
    hkept | hnone | rfl
  · exact .inl hkept
  · exact .inr (.inl hnone)
  · refine .inr (.inr ?_)
    simpa only [InTime, hcore] using hintime

theorem Inv.step {objects : SharedObjects} {s next : Attaching} {act : Act} (h : Inv objects s)
    (hintime : InTime objects s act) (hstep : s.step objects act = some next) :
    Inv objects next := by
  cases act with
  | core granted =>
      obtain ⟨program, hprogram, hadvance⟩ := Option.bind_eq_some_iff.mp hstep
      obtain ⟨⟨rest, kernel⟩, hrest, rfl⟩ := Option.map_eq_some_iff.mp hadvance
      obtain ⟨hmove, hsat⟩ := (h.core program hprogram).advanced hrest
      refine ⟨fun later hmem => Option.some.inj hmem ▸ hsat, h.stack.disturbed ?_⟩
      cases program with
      | done value => cases hrest
      | call request resume =>
          cases hrest
          exact stackRely_of_inTime hprogram hintime hmove
  | stack granted =>
      obtain ⟨⟨rest, kernel⟩, hrest, rfl⟩ := Option.map_eq_some_iff.mp hstep
      obtain ⟨hmove, hsat⟩ := h.stack.advanced hrest
      exact ⟨fun program hprogram => (h.core program hprogram).disturbed hmove, hsat⟩
  | kill =>
      obtain ⟨program, -, rfl⟩ := Option.map_eq_some_iff.mp hstep
      refine ⟨fun _ hmem => (Option.not_mem_none _ hmem).elim, h.stack.disturbed ?_⟩
      have huntouched := s.kernel.exit_untouched (.core s.incarnation)
      exact ⟨s.incarnation, .of_untouched huntouched, fun name =>
        .inl (congrFun huntouched.sems name)⟩
  | restart =>
      simp only [Attaching.step] at hstep
      split at hstep <;> cases hstep
      refine ⟨fun program hprogram => ?_, h.stack⟩
      obtain rfl : proxyOpenShared objects = program := Option.some.inj hprogram
      exact proxyOpenShared_sat objects (s.incarnation + 1) s.kernel

/-- **A stack process serves one core.** In every run of cores that are killed and
started again beside a stack process, in which no core makes a semaphore that the
stack process has yet to open while it has the announced region of an earlier core
open: when the stack process comes to its service loop, its region and its two
semaphores were made by one core. -/
theorem attachment_of_one_core {objects : SharedObjects} {turns : ℕ} {schedule : List Act}
    {s : Attaching}
    (hrun : exec (step objects) (start objects turns) schedule = some s)
    (hmeets : Meets (step objects) (InTime objects) (start objects turns) schedule)
    {attachment : Attachment} (hserves : s.stack.result = some (some attachment)) :
    ∃ incarnation, s.kernel.maker attachment.region = some (.core incarnation) ∧
      s.kernel.semMaker attachment.req = some (.core incarnation) ∧
      s.kernel.semMaker attachment.rsp = some (.core incarnation) := by
  have hinv : Inv objects s :=
    exec_invariant (fun _ _ _ hinv hok hstep => hinv.step hok hstep)
      (Inv.start objects turns) hmeets hrun
  obtain ⟨incarnation, hmade⟩ := hinv.stack.ended hserves attachment rfl
  exact ⟨incarnation, hmade.region, hmade.req, hmade.rsp⟩

/-- The objects of the EtherNet/IP adapter under the default instance. -/
def eipObjects : SharedObjects where
  shm := eipShmName eipShmNameMax "default".toList
  req := eipSemReqName eipShmNameMax "default".toList
  rsp := eipSemRspName eipShmNameMax "default".toList
  bytes := 4480
  magic := 0x45495031
  abiVersion := 2
  magic_ne_zero := by decide
  req_ne_rsp := by decide

/-- A core opens and is killed, and the next one is started. -/
def abandoned : List Act := List.replicate 15 (.core true) ++ [.kill, .restart]

/-- The stack process finds the region that was left behind, and opens the semaphores
when the next core has replaced everything. -/
def mixedAttach : List Act :=
  abandoned ++ List.replicate 6 (.stack true) ++ List.replicate 17 (.core true) ++
    List.replicate 2 (.stack true)

/-- The region is the dead core's and the semaphores are the new one's. -/
theorem mixedAttach_two_cores :
    ∃ s attachment, exec (step eipObjects) (start eipObjects 1) mixedAttach = some s ∧
      s.stack.result = some (some attachment) ∧
      s.kernel.maker attachment.region = some (.core 0) ∧
      s.kernel.semMaker attachment.req = some (.core 1) ∧
      s.kernel.semMaker attachment.rsp = some (.core 1) := by
  have hview : (exec (step eipObjects) (start eipObjects 1) mixedAttach).map
      (fun s => (s.stack.result, s.kernel.maker 0, s.kernel.semMaker 2, s.kernel.semMaker 3)) =
      some (some (some ⟨0, 2, 3⟩), some (.core 0), some (.core 1), some (.core 1)) := by
    decide +kernel
  obtain ⟨s, hrun, hvalues⟩ := Option.map_eq_some_iff.mp hview
  simp only [Prod.mk.injEq] at hvalues
  exact ⟨s, ⟨0, 2, 3⟩, hrun, hvalues⟩

/-- The stack process comes after the next core has opened. -/
def lateAttach : List Act :=
  abandoned ++ List.replicate 17 (.core true) ++ List.replicate 8 (.stack true)

theorem attachment_of_one_core_lateAttach :
    ∃ s attachment incarnation,
      exec (step eipObjects) (start eipObjects 1) lateAttach = some s ∧
      s.stack.result = some (some attachment) ∧
      s.kernel.maker attachment.region = some (.core incarnation) ∧
      s.kernel.semMaker attachment.req = some (.core incarnation) ∧
      s.kernel.semMaker attachment.rsp = some (.core incarnation) := by
  have hview : (exec (step eipObjects) (start eipObjects 1) lateAttach).map
      (fun s => s.stack.result) = some (some (some ⟨1, 2, 3⟩)) := by
    decide +kernel
  have hmeets : Meets (step eipObjects) (InTime eipObjects) (start eipObjects 1) lateAttach := by
    decide +kernel
  obtain ⟨s, hrun, hserves⟩ := Option.map_eq_some_iff.mp hview
  obtain ⟨incarnation, hmade⟩ := attachment_of_one_core hrun hmeets hserves
  exact ⟨s, ⟨1, 2, 3⟩, incarnation, hrun, hserves, hmade⟩

end Attaching

end SoftPlc.Adapters
