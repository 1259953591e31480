/-
# The core process from start to exit

`main` of the core process: it resolves the role, answers the informative options, and
otherwise creates a runtime, opens and binds the listed adapters one after the other,
registers the program, scans, and takes everything down again. Any of these calls can
fail, and each failure leaves by a different way.

The calls are requests of a program, answered by the environment in any way. A book
keeps what exists: the runtime, and each adapter that was created with what has been
done to it. A call on something that is not there, or not in the right state, is a
misuse that the book never forgets. Whatever the environment answers there is none,
nothing is left behind, and the scan runs with the adapters of the list.
-/

import SoftPlc.Config.Numbers
import SoftPlc.Core.Runtime
import SoftPlc.Math.Program
import SoftPlc.Math.Reader

namespace SoftPlc.App.Main

open SoftPlc.Math SoftPlc.Config

/-! ## The registry and the roles -/

/-- `SOFTPLC_WITH_EIP` and `SOFTPLC_WITH_EIP_SCANNER`. -/
structure Build where
  withEip : Bool
  withEipScanner : Bool
  deriving DecidableEq, Repr

/-- `PLC_ADAPTER_REGISTRY_MAX`. -/
def plcAdapterRegistryMax : ℕ := 16

/-- `plc_adapter_registry_add`. A factory is known by its protocol. -/
def plcAdapterRegistryAdd (registry : List (List Char)) (protocol : List Char) :
    List (List Char) × PlcStatus :=
  if protocol ∈ registry then (registry, .errState)
  else if plcAdapterRegistryMax ≤ registry.length then (registry, .errNomem)
  else (registry ++ [protocol], .ok)

/-- `plc_adapter_register_builtins`. -/
def plcAdapterRegisterBuiltins (build : Build) : List (List Char) :=
  let loopback := (plcAdapterRegistryAdd [] "loopback".toList).1
  let eip :=
    if build.withEip then (plcAdapterRegistryAdd loopback "ethernet-ip".toList).1 else loopback
  if build.withEipScanner then (plcAdapterRegistryAdd eip "ethernet-ip-scanner".toList).1 else eip

/-- `kRoles`: a role and its adapters. -/
def kRoles (build : Build) : List (List Char × List Char) :=
  ("none".toList, "loopback".toList) ::
    ((if build.withEip then [("adapter".toList, "ethernet-ip".toList)] else []) ++
      if build.withEipScanner then [("scanner".toList, "ethernet-ip-scanner".toList)] else [])

/-- `plc_adapter_role_adapters`. -/
def plcAdapterRoleAdapters (build : Build) (role : List Char) : Option (List Char) :=
  ((kRoles build).find? fun entry => entry.1 = role).map Prod.snd

/-! ## The program -/

/-- `plc_adapter_config_t`, as far as `main` sets it. -/
structure AdapterConfig where
  name : List Char
  endpoint : List Char
  failsafePolicy : FailsafePolicy
  deriving DecidableEq, Repr

/-- The calls of `main` on the runtime and on adapters, and the one it leaves the status
report to. -/
inductive MainCall
  | runtimeCreate (cycleUs : UInt32)
  | create (protocol : List Char)
  | adapterOpen (adapter : ℕ) (cfg : AdapterConfig)
  | bindAdapter (adapter iOffset qOffset : ℕ)
  | getCaps (adapter : ℕ)
  | addProgram
  | runtimeRun (maxScans : UInt32)
  | runtimeGetStats
  | getStats (adapter : ℕ)
  | adapterState (adapter : ℕ)
  | destroy (adapter : ℕ)
  | runtimeDestroy
  | printStatus (instanceName : List Char)
  deriving DecidableEq, Repr

/-- What a call answers: whether there was memory, an adapter if there was, a status, the
sizes of the images, or an exit code. What is only written to the log is left out. -/
@[reducible]
def MainCall.Answer : MainCall → Type
  | .runtimeCreate _ => Bool
  | .create _ => Option ℕ
  | .adapterOpen _ _ | .bindAdapter _ _ _ | .addProgram | .runtimeRun _ => PlcStatus
  | .getCaps _ => ℕ × ℕ
  | .runtimeGetStats | .getStats _ | .adapterState _ | .destroy _ | .runtimeDestroy => Unit
  | .printStatus _ => ℕ

abbrev MainProgram (α : Type) : Type := Program MainCall MainCall.Answer α

abbrev ask (request : MainCall) : MainProgram request.Answer := Program.ask request

def exitSuccess : ℕ := 0

def exitFailure : ℕ := 1

/-- Destroy the adapters opened. -/
def destroyAll : List ℕ → MainProgram Unit
  | [] => pure ()
  | adapter :: rest => do
      ask (.destroy adapter)
      destroyAll rest

/-- The label `fail`. -/
def fail (opened : List ℕ) : MainProgram ℕ := do
  destroyAll opened
  ask .runtimeDestroy
  pure exitFailure

/-- Spaces before a name are skipped, those behind it are not. -/
def skipSpaces (tok : List Char) : List Char := tok.dropWhile (· = ' ')

/-- The body of the loop once the factory is found: create, open, bind, and go on with
the sizes of the images. -/
def adopt (name endpoint : List Char) (policy : FailsafePolicy) (opened : List ℕ)
    (iOffset qOffset : ℕ) (next : List ℕ → ℕ × ℕ → MainProgram (List ℕ × Bool)) :
    MainProgram (List ℕ × Bool) := do
  match ← ask (.create name) with
  | none => pure (opened, false)
  | some adapter =>
      let st ← ask (.adapterOpen adapter ⟨name, endpoint, policy⟩)
      if st ≠ PlcStatus.ok then do
        ask (.destroy adapter)
        pure (opened, false)
      else do
        let st ← ask (.bindAdapter adapter iOffset qOffset)
        if st ≠ PlcStatus.ok then pure (opened ++ [adapter], false)
        else do
          let caps ← ask (.getCaps adapter)
          next (opened ++ [adapter]) caps

/-- The loop over the tokens of the list: the adapters opened, and whether it came
through. -/
def openListed (registry : List (List Char)) (endpoint : List Char) (policy : FailsafePolicy) :
    List (List Char) → List ℕ → ℕ → ℕ → MainProgram (List ℕ × Bool)
  | [], opened, _, _ => pure (opened, true)
  | tok :: rest, opened, iOffset, qOffset =>
      if plcMaxBindings ≤ opened.length then pure (opened, true)
      else if skipSpaces tok = [] then
        openListed registry endpoint policy rest opened iOffset qOffset
      else if skipSpaces tok ∉ registry then pure (opened, false)
      else
        adopt (skipSpaces tok) endpoint policy opened iOffset qOffset fun opened caps =>
          openListed registry endpoint policy rest opened (iOffset + caps.1) (qOffset + caps.2)

/-- The report at the end, which destroys the adapters. -/
def reportAll : List ℕ → MainProgram Unit
  | [] => pure ()
  | adapter :: rest => do
      ask (.getStats adapter)
      let _ ← ask (.getCaps adapter)
      ask (.adapterState adapter)
      ask (.destroy adapter)
      reportAll rest

/-- The buffer `list`, of 256 bytes. -/
def listBuffer (text : List Char) : List Char := text.take 255

/-- From the adapters on. -/
def scanListed (registry : List (List Char)) (endpoint list : List Char)
    (policy : FailsafePolicy) (maxScans : UInt32) : MainProgram ℕ := do
  let (opened, through) ← openListed registry endpoint policy
    (strtok (· = ',') (listBuffer list)) [] 0 0
  if !through then fail opened
  else
    let st ← ask .addProgram
    if st ≠ PlcStatus.ok then fail opened
    else
      let run ← ask (.runtimeRun maxScans)
      ask .runtimeGetStats
      reportAll opened
      ask .runtimeDestroy
      pure (if run = PlcStatus.ok then exitSuccess else exitFailure)

/-- What `main` finds: the build, the arguments, the environment and the settings of a
configuration file, if it could be read. -/
structure Setup where
  build : Build
  args : List (List Char)
  env : List Char → Option (List Char)
  settings : Option (List Entry)

namespace Setup

/-- `plc_cfg_str` with a default. -/
def text (setup : Setup) (table : List Entry) (key fallback : String) : List Char :=
  (plcCfgStr setup.env table key.toList (some fallback.toList)).getD fallback.toList

def role (setup : Setup) (table : List Entry) : List Char :=
  setup.text table "SOFTPLC_ROLE" "none"

/-- The adapters of the role, unless a list is set. -/
def list (setup : Setup) (table : List Entry) (roleAdapters : List Char) : List Char :=
  (plcCfgStr setup.env table "SOFTPLC_ADAPTERS".toList none).getD roleAdapters

/-- The part of `main` behind the options. -/
def core (setup : Setup) (table : List Entry) : MainProgram ℕ :=
  match plcAdapterRoleAdapters setup.build (setup.role table) with
  | none => pure exitFailure
  | some roleAdapters => do
      let created ← ask
        (.runtimeCreate (plcCfgU32 setup.env table "SOFTPLC_CYCLE_US".toList 10000))
      if !(created : Bool) then pure exitFailure
      else
        scanListed (plcAdapterRegisterBuiltins setup.build)
          (setup.text table "SOFTPLC_INSTANCE" "default") (setup.list table roleAdapters)
          (if setup.text table "SOFTPLC_FAILSAFE" "hold" = "clear".toList then .clear else .hold)
          (plcCfgU32 setup.env table "SOFTPLC_MAX_SCANS".toList 0)

/-- `main`. An option that is not known is ignored. -/
def main (setup : Setup) : MainProgram ℕ :=
  match setup.settings with
  | none => pure exitFailure
  | some table =>
      match setup.args with
      | [] => setup.core table
      | first :: rest =>
          if first = "--list-adapters".toList ∨ first = "--list-roles".toList then
            pure exitSuccess
          else if first = "--status".toList then
            ask (.printStatus
              (rest.headD (setup.text table "SOFTPLC_INSTANCE" "default")))
          else if first = "--show-config".toList then pure exitSuccess
          else if first = "--print-config".toList then
            pure (if rest = [] then exitFailure else exitSuccess)
          else if first = "--role".toList then
            pure (if (plcAdapterRoleAdapters setup.build (setup.role table)).isSome then exitSuccess
              else exitFailure)
          else setup.core table

end Setup

/-! ## The book -/

/-- An adapter that was created. -/
structure HeldAdapter where
  protocol : List Char
  opened : Bool := false
  bound : Bool := false
  live : Bool := true
  deriving DecidableEq, Repr

/-- The runtime is not there yet, is there, or is there no more. -/
inductive RuntimeLife
  | absent
  | live
  | freed
  deriving DecidableEq, Repr

/-- What exists, the protocols bound at each run with what the run returned, and whether a
call was ever made on something that was not there or not in the right state. -/
structure Book where
  adapters : List HeldAdapter := []
  runtime : RuntimeLife := .absent
  runs : List (List (List Char) × PlcStatus) := []
  misuse : Bool := false
  deriving DecidableEq, Repr

/-- What the environment decides about a call. -/
structure Choice where
  granted : Bool
  status : PlcStatus
  caps : ℕ × ℕ
  code : ℕ
  deriving DecidableEq, Repr

namespace Book

/-- A call on an adapter, which has to be there in a state that is `right`. -/
def touch (book : Book) (adapter : ℕ) (right : HeldAdapter → Bool)
    (change : HeldAdapter → HeldAdapter) : Book :=
  match book.adapters[adapter]? with
  | some held =>
      if held.live ∧ right held then
        { book with adapters := book.adapters.set adapter (change held) }
      else { book with misuse := true }
  | none => { book with misuse := true }

/-- A call on the runtime, which has to be there. -/
def needRuntime (book : Book) : Book :=
  if book.runtime = .live then book else { book with misuse := true }

/-- A call, with its answer. The runtime keeps the adapters bound to it, so a run needs
all of them. -/
def perform : (request : MainCall) → Choice → Book → request.Answer × Book
  | .runtimeCreate _, choice, book =>
      if choice.granted then (true, { book with runtime := .live }) else (false, book)
  | .create protocol, choice, book =>
      if choice.granted then
        (some book.adapters.length,
          { book with adapters := book.adapters ++ [{ protocol := protocol }] })
      else (none, book)
  | .adapterOpen adapter _, choice, book =>
      (choice.status, book.touch adapter (!·.opened)
        fun held => { held with opened := decide (choice.status = .ok) })
  | .bindAdapter adapter _ _, choice, book =>
      (choice.status, book.needRuntime.touch adapter (fun held => held.opened && !held.bound)
        fun held => { held with bound := decide (choice.status = .ok) })
  | .getCaps adapter, choice, book => (choice.caps, book.touch adapter (·.opened) id)
  | .addProgram, choice, book => (choice.status, book.needRuntime)
  | .runtimeRun _, choice, book =>
      let bound := book.adapters.filter (·.bound)
      let ran :=
        { book.needRuntime with
          runs := book.runs ++ [(bound.map (·.protocol), choice.status)] }
      (choice.status, if bound.all (·.live) then ran else { ran with misuse := true })
  | .runtimeGetStats, _, book => ((), book.needRuntime)
  | .getStats adapter, _, book => ((), book.touch adapter (fun _ => true) id)
  | .adapterState adapter, _, book => ((), book.touch adapter (fun _ => true) id)
  | .destroy adapter, _, book =>
      ((), book.touch adapter (fun _ => true) fun held => { held with live := false })
  | .runtimeDestroy, _, book => ((), { book.needRuntime with runtime := .freed })
  | .printStatus _, choice, book => (choice.code, book)

end Book

/-- The program, left alone with the book, ends in `post`. -/
abbrev Ends {α : Type} (post : α → Book → Prop) (program : MainProgram α) (book : Book) : Prop :=
  program.Sat Book.perform (fun _ _ => False) (fun _ _ => True) post book

variable {α : Type} {book : Book} {front alive back : List HeldAdapter}

theorem ends_done {post : α → Book → Prop} {value : α} (hpost : post value book) :
    Ends post (.done value) book :=
  Program.sat_done (fun _ _ _ hnobody => hnobody.elim) hpost

theorem touch_eq {held : HeldAdapter} {right : HeldAdapter → Bool}
    (change : HeldAdapter → HeldAdapter) (hlive : held.live = true) (hright : right held = true) :
    ({ book with adapters := front ++ held :: back } : Book).touch front.length right change =
      { book with adapters := front ++ change held :: back } := by
  have hfound : (front ++ held :: back)[front.length]? = some held := by
    rw [List.getElem?_append_right (Nat.le_refl _), Nat.sub_self]
    rfl
  have hset : (front ++ held :: back).set front.length (change held) =
      front ++ change held :: back := by
    rw [List.set_append_right _ _ (Nat.le_refl _), Nat.sub_self]
    rfl
  simp only [Book.touch, hfound, hlive, hright, and_self, if_true, hset]

/-- An adapter after its end. -/
def HeldAdapter.gone (held : HeldAdapter) : HeldAdapter := { held with live := false }

theorem perform_destroy {held : HeldAdapter} (choice : Choice) (hlive : held.live = true) :
    Book.perform (.destroy front.length) choice { book with adapters := front ++ held :: back } =
      ((), { book with adapters := front ++ held.gone :: back }) :=
  congrArg (Prod.mk ()) (touch_eq HeldAdapter.gone hlive rfl)

theorem perform_getStats {held : HeldAdapter} (choice : Choice) (hlive : held.live = true) :
    Book.perform (.getStats front.length) choice { book with adapters := front ++ held :: back } =
      ((), { book with adapters := front ++ held :: back }) :=
  congrArg (Prod.mk ()) (touch_eq id hlive rfl)

theorem perform_adapterState {held : HeldAdapter} (choice : Choice) (hlive : held.live = true) :
    Book.perform (.adapterState front.length) choice
        { book with adapters := front ++ held :: back } =
      ((), { book with adapters := front ++ held :: back }) :=
  congrArg (Prod.mk ()) (touch_eq id hlive rfl)

theorem perform_getCaps {held : HeldAdapter} (choice : Choice) (hlive : held.live = true)
    (hopened : held.opened = true) :
    Book.perform (.getCaps front.length) choice { book with adapters := front ++ held :: back } =
      (choice.caps, { book with adapters := front ++ held :: back }) :=
  congrArg (Prod.mk choice.caps) (touch_eq id hlive hopened)

/-- The adapters from a place on are destroyed in their order. -/
theorem destroyAll_ends (halive : ∀ held ∈ alive, held.live = true) :
    Ends (fun _ after => after = { book with adapters := front ++ (alive.map .gone ++ back) })
      (destroyAll (List.range' front.length alive.length))
      { book with adapters := front ++ (alive ++ back) } := by
  induction alive generalizing front with
  | nil => exact ends_done rfl
  | cons held rest ih =>
      obtain ⟨hheld, hrest⟩ := List.forall_mem_cons.mp halive
      apply Program.sat_call_alone
      intro choice
      rw [List.cons_append, perform_destroy choice hheld]
      have hnext := @ih (front ++ [held.gone]) hrest
      simp only [List.append_assoc, List.length_append] at hnext
      exact hnext

/-- So are they by the report. -/
theorem reportAll_ends (halive : ∀ held ∈ alive, held.live = true ∧ held.opened = true) :
    Ends (fun _ after => after = { book with adapters := front ++ (alive.map .gone ++ back) })
      (reportAll (List.range' front.length alive.length))
      { book with adapters := front ++ (alive ++ back) } := by
  induction alive generalizing front with
  | nil => exact ends_done rfl
  | cons held rest ih =>
      obtain ⟨⟨hlive, hopened⟩, hrest⟩ := List.forall_mem_cons.mp halive
      apply Program.sat_call_alone
      intro choice
      rw [List.cons_append, perform_getStats choice hlive]
      apply Program.sat_call_alone
      intro choice
      rw [perform_getCaps choice hlive hopened]
      apply Program.sat_call_alone
      intro choice
      rw [perform_adapterState choice hlive]
      apply Program.sat_call_alone
      intro choice
      rw [perform_destroy choice hlive]
      have hnext := @ih (front ++ [held.gone]) hrest
      simp only [List.append_assoc, List.length_append] at hnext
      exact hnext

/-- The book while the adapters are opened: those of the list so far, all bound. -/
def Book.holding (names : List (List Char)) : Book :=
  { adapters := names.map fun name => { protocol := name, opened := true, bound := true }
    runtime := .live }

/-- The names of a list: the tokens without the spaces before them, if anything is left. -/
def listedNames (tokens : List (List Char)) : List (List Char) :=
  (tokens.map skipSpaces).filter (· ≠ [])

/-- The loop came through: every adapter of the list, up to the eighth, is bound. -/
structure Through (registry names listed : List (List Char)) (opened : List ℕ) (after : Book) :
    Prop where
  opened : opened = List.range ((names ++ listed).take plcMaxBindings).length
  book : after = Book.holding ((names ++ listed).take plcMaxBindings)
  registered : ∀ name ∈ listed.take (plcMaxBindings - names.length), name ∈ registry

/-- The loop broke off: the adapters opened are there, and no other. -/
structure Broken (opened : List ℕ) (after : Book) : Prop where
  shape : ∃ alive back : List HeldAdapter, opened = List.range alive.length ∧
    after = { adapters := alive ++ back, runtime := .live } ∧
    (∀ held ∈ alive, held.live = true) ∧ ∀ held ∈ back, held.live = false

/-- What the loop leaves. -/
def Left (registry names listed : List (List Char)) (result : List ℕ × Bool) (after : Book) :
    Prop :=
  if result.2 then Through registry names listed result.1 after else Broken result.1 after

theorem live_holding {names : List (List Char)} {held : HeldAdapter}
    (hheld : held ∈ (Book.holding names).adapters) : held.live = true ∧ held.opened = true := by
  obtain ⟨name, -, rfl⟩ := List.mem_map.mp hheld
  exact ⟨rfl, rfl⟩

theorem length_holding (names : List (List Char)) :
    (Book.holding names).adapters.length = names.length := List.length_map _

/-- The loop breaks off with the adapters bound so far, and one more that is gone again. -/
theorem broken_holding (names : List (List Char)) {back : List HeldAdapter}
    (hback : ∀ held ∈ back, held.live = false) :
    Broken (List.range names.length)
      { Book.holding names with adapters := (Book.holding names).adapters ++ back } := by
  refine ⟨⟨(Book.holding names).adapters, back, ?_, rfl, ?_, hback⟩⟩
  · rw [length_holding]
  · intro held hheld
    exact (live_holding hheld).1

/-- The loop breaks off between two adapters. -/
theorem broken_between (names : List (List Char)) :
    Broken (List.range names.length) (Book.holding names) := by
  have hshape := broken_holding names (fun held hheld => absurd hheld List.not_mem_nil)
  rw [List.append_nil] at hshape
  exact hshape

/-- The loop has come to the end of the list, or to the eighth adapter. -/
theorem through_of_take {registry names listed : List (List Char)}
    (hlast : (names ++ listed).take plcMaxBindings = names)
    (hnone : listed.take (plcMaxBindings - names.length) = []) :
    Through registry names listed (List.range names.length) (Book.holding names) := by
  refine ⟨by rw [hlast], by rw [hlast], ?_⟩
  rw [hnone]
  intro name hname
  cases hname

theorem listedNames_blank {tok : List Char} (rest : List (List Char))
    (hblank : skipSpaces tok = []) :
    listedNames (tok :: rest) = listedNames rest := by
  simp [listedNames, hblank]

theorem listedNames_name {tok : List Char} (rest : List (List Char)) (hname : skipSpaces tok ≠ []) :
    listedNames (tok :: rest) = skipSpaces tok :: listedNames rest := by
  simp [listedNames, hname]

/-- One more adapter is bound. -/
theorem Left.next {registry names listed : List (List Char)} {name : List Char}
    (hknown : name ∈ registry) (hroom : names.length < plcMaxBindings) {result : List ℕ × Bool}
    {after : Book} (h : Left registry (names ++ [name]) listed result after) :
    Left registry names (name :: listed) result after := by
  unfold Left at h ⊢
  split_ifs at h ⊢ with hthrough
  · have hall : names ++ name :: listed = names ++ [name] ++ listed := List.append_cons _ _ _
    refine ⟨by rw [hall]; exact h.opened, by rw [hall]; exact h.book, ?_⟩
    have hmore : plcMaxBindings - names.length =
        plcMaxBindings - (names ++ [name]).length + 1 := by
      rw [List.length_append, List.length_singleton]
      omega
    rw [hmore, List.take_succ_cons]
    exact List.forall_mem_cons.mpr ⟨hknown, h.registered⟩
  · exact h

/-- The book with one more adapter. -/
def Book.adding (names : List (List Char)) (held : HeldAdapter) : Book :=
  { Book.holding names with adapters := (Book.holding names).adapters ++ held :: [] }

theorem holding_concat (names : List (List Char)) (name : List Char) :
    Book.holding (names ++ [name]) =
      .adding names { protocol := name, opened := true, bound := true } := by
  simp only [Book.holding, Book.adding, List.map_append]
  rfl

theorem touch_adding (names : List (List Char)) {held : HeldAdapter} {right : HeldAdapter → Bool}
    (change : HeldAdapter → HeldAdapter) (hlive : held.live = true) (hright : right held = true) :
    (Book.adding names held).touch names.length right change = .adding names (change held) := by
  rw [← length_holding names]
  exact touch_eq change hlive hright

theorem perform_adapterOpen (names : List (List Char)) (name : List Char) (cfg : AdapterConfig)
    (choice : Choice) :
    Book.perform (.adapterOpen names.length cfg) choice (.adding names { protocol := name }) =
      (choice.status,
        .adding names { protocol := name, opened := decide (choice.status = .ok) }) :=
  congrArg (Prod.mk choice.status) (touch_adding names _ rfl rfl)

theorem perform_bindAdapter (names : List (List Char)) (name : List Char) (iOffset qOffset : ℕ)
    (choice : Choice) :
    Book.perform (.bindAdapter names.length iOffset qOffset) choice
        (.adding names { protocol := name, opened := true }) =
      (choice.status, .adding names
        { protocol := name, opened := true, bound := decide (choice.status = .ok) }) := by
  have hruntime : (Book.adding names { protocol := name, opened := true }).needRuntime =
      .adding names { protocol := name, opened := true } := if_pos rfl
  simp only [Book.perform, hruntime]
  exact congrArg (Prod.mk choice.status) (touch_adding names _ rfl rfl)

theorem perform_create (names : List (List Char)) (name : List Char) {choice : Choice}
    (hgranted : choice.granted = true) :
    Book.perform (.create name) choice (.holding names) =
      (some names.length, .adding names { protocol := name }) := by
  simp only [Book.perform, hgranted, if_true, length_holding]
  rfl

/-- One adapter: whatever fails on the way, it is destroyed or it is among the opened
ones. -/
theorem adopt_ends {names : List (List Char)} {name endpoint : List Char}
    {policy : FailsafePolicy} {iOffset qOffset : ℕ}
    {next : List ℕ → ℕ × ℕ → MainProgram (List ℕ × Bool)} {post : List ℕ × Bool → Book → Prop}
    (hbroken : ∀ opened after, Broken opened after → post (opened, false) after)
    (hnext : ∀ caps, Ends post (next (List.range (names ++ [name]).length) caps)
      (Book.holding (names ++ [name]))) :
    Ends post
      (adopt name endpoint policy (List.range names.length) iOffset qOffset next)
      (Book.holding names) := by
  have hopened : List.range names.length ++ [names.length] =
      List.range (names ++ [name]).length := by
    rw [List.length_append, List.length_singleton, List.range_succ]
  have hone : ∀ held : HeldAdapter, held.live = true →
      Broken (List.range (names ++ [name]).length) (.adding names held) := by
    intro held hlive
    refine ⟨⟨(Book.holding names).adapters ++ [held], [], ?_, ?_, ?_, ?_⟩⟩
    · rw [List.length_append, List.length_append, length_holding]
      rfl
    · rw [List.append_nil]
      rfl
    · intro other hother
      obtain hold | hnew := List.mem_append.mp hother
      · exact (live_holding hold).1
      · rw [List.mem_singleton.mp hnew]
        exact hlive
    · intro other hother
      cases hother
  apply Program.sat_call_alone
  intro creates
  cases hgranted : creates.granted with
  | false =>
      simp only [Book.perform, hgranted, Bool.false_eq_true, if_false]
      exact ends_done (hbroken _ _ (broken_between names))
  | true =>
      rw [perform_create names name hgranted]
      apply Program.sat_call_alone
      intro opens
      rw [perform_adapterOpen]
      show Ends post (if opens.status ≠ PlcStatus.ok then _ else _) _
      split_ifs with hopens
      · apply Program.sat_call_alone
        intro destroys
        have hdestroy : Book.perform (.destroy names.length) destroys (.adding names
            { protocol := name, opened := decide (opens.status = .ok) }) =
            ((), .adding names (HeldAdapter.gone
              { protocol := name, opened := decide (opens.status = .ok) })) :=
          congrArg (Prod.mk ()) (touch_adding names _ rfl rfl)
        rw [hdestroy]
        apply ends_done
        apply hbroken
        apply broken_holding
        intro held hheld
        rw [List.mem_singleton.mp hheld]
        rfl
      · rw [not_not] at hopens
        rw [decide_eq_true hopens]
        apply Program.sat_call_alone
        intro binds
        rw [perform_bindAdapter]
        show Ends post (if binds.status ≠ PlcStatus.ok then _ else _) _
        split_ifs with hbinds
        · apply ends_done
          apply hbroken
          rw [hopened]
          exact hone _ rfl
        · rw [not_not] at hbinds
          rw [decide_eq_true hbinds]
          apply Program.sat_call_alone
          intro asks
          have hcaps : Book.perform (.getCaps names.length) asks (.adding names
              { protocol := name, opened := true, bound := true }) =
              (asks.caps, .adding names { protocol := name, opened := true, bound := true }) :=
            congrArg (Prod.mk asks.caps) (touch_adding names id rfl rfl)
          rw [hcaps, hopened, ← holding_concat]
          exact hnext asks.caps

/-- **The loop over the list.** -/
theorem openListed_ends {registry : List (List Char)} {endpoint : List Char}
    {policy : FailsafePolicy} {tokens names : List (List Char)} {iOffset qOffset : ℕ}
    (hroom : names.length ≤ plcMaxBindings) :
    Ends (Left registry names (listedNames tokens))
      (openListed registry endpoint policy tokens (List.range names.length) iOffset qOffset)
      (Book.holding names) := by
  induction tokens generalizing names iOffset qOffset with
  | nil =>
      apply ends_done
      apply through_of_take
      · simp [listedNames, hroom]
      · simp [listedNames]
  | cons tok rest ih =>
      unfold openListed
      split_ifs with hfull hblank hknown
      · -- the array of adapters is full, whatever is left of the list
        rw [List.length_range] at hfull
        apply ends_done
        apply through_of_take
        · rw [List.take_append_of_le_length hfull, List.take_of_length_le hroom]
        · rw [Nat.sub_eq_zero_of_le hfull, List.take_zero]
      · rw [listedNames_blank rest hblank]
        exact ih hroom
      · rw [List.length_range, Nat.not_le] at hfull
        rw [listedNames_name rest hblank]
        apply adopt_ends
        · intro opened after hbroken
          exact hbroken
        · intro caps
          apply (ih _).weaken
          · intro result after hleft
            exact hleft.next hknown hfull
          · rw [List.length_append, List.length_singleton]
            exact hfull
      · exact ends_done (broken_between names)

/-! ## The end -/

/-- Nothing was misused and nothing is left. -/
structure Released (after : Book) : Prop where
  misuse : after.misuse = false
  adapters : ∀ held ∈ after.adapters, held.live = false
  runtime : after.runtime ≠ .live

/-- The scan ran with these adapters, and the exit code says how. -/
structure RanWith (registry names : List (List Char)) (code : ℕ) (after : Book) : Prop where
  runs : ∃ status, after.runs = [(names, status)] ∧ (code = exitSuccess ↔ status = .ok)
  registered : ∀ name ∈ names, name ∈ registry

theorem live_gone (alive : List HeldAdapter) {held : HeldAdapter} (hheld : held ∈ alive.map .gone) :
    held.live = false := by
  obtain ⟨before, -, rfl⟩ := List.mem_map.mp hheld
  rfl

theorem fail_ends {opened : List ℕ} {before : Book} (hbroken : Broken opened before) :
    Ends (fun _ after => Released after ∧ after.runs = []) (fail opened) before := by
  obtain ⟨alive, back, rfl, rfl, halive, hback⟩ := hbroken.shape
  have hdestroyed := @destroyAll_ends { runtime := .live } [] alive back halive
  simp only [List.nil_append] at hdestroyed
  rw [List.range_eq_range']
  apply Program.Sat.bind hdestroyed
  rintro value after rfl
  apply Program.sat_call_alone
  intro destroys
  apply ends_done
  refine ⟨⟨rfl, ?_, ?_⟩, rfl⟩
  · intro held hheld
    obtain hgone | hold := List.mem_append.mp hheld
    · exact live_gone alive hgone
    · exact hback held hold
  · intro hlive
    cases hlive

theorem bound_holding (names : List (List Char)) :
    (Book.holding names).adapters.filter (·.bound) = (Book.holding names).adapters := by
  apply List.filter_eq_self.mpr
  intro held hheld
  obtain ⟨name, -, rfl⟩ := List.mem_map.mp hheld
  rfl

/-- The run finds all adapters it was given. -/
theorem perform_runtimeRun (names : List (List Char)) (maxScans : UInt32) (choice : Choice) :
    Book.perform (.runtimeRun maxScans) choice (.holding names) =
      (choice.status, { Book.holding names with runs := [(names, choice.status)] }) := by
  have hruntime : (Book.holding names).needRuntime = .holding names := if_pos rfl
  have hall : (Book.holding names).adapters.all (·.live) = true := by
    apply List.all_eq_true.mpr
    intro held hheld
    exact (live_holding hheld).1
  have hnames : (Book.holding names).adapters.map (·.protocol) = names := by
    simp only [Book.holding, List.map_map]
    exact List.map_id' names
  simp only [Book.perform, bound_holding, hruntime, hall, hnames, if_true]
  rfl

/-- From the adapters to the end. -/
theorem scanListed_ends {registry : List (List Char)} {endpoint list : List Char}
    {policy : FailsafePolicy} {maxScans : UInt32} :
    Ends (fun code after => Released after ∧
        (after.runs = [] ∨ RanWith registry
          ((listedNames (strtok (· = ',') (listBuffer list))).take plcMaxBindings) code after))
      (scanListed registry endpoint list policy maxScans) (.holding []) := by
  have hloop : Ends (Left registry [] (listedNames (strtok (· = ',') (listBuffer list))))
      (openListed registry endpoint policy (strtok (· = ',') (listBuffer list)) [] 0 0)
      (.holding []) := @openListed_ends registry endpoint policy _ [] 0 0 (Nat.zero_le _)
  apply Program.Sat.bind hloop
  rintro ⟨opened, through⟩ before hleft
  cases through with
  | false =>
      apply (fail_ends hleft).weaken
      intro code after hfailed
      exact ⟨hfailed.1, .inl hfailed.2⟩
  | true =>
      obtain ⟨rfl, rfl, hregistered⟩ : Through registry []
        (listedNames (strtok (· = ',') (listBuffer list))) opened before := hleft
      rw [List.nil_append]
      rw [List.length_nil, Nat.sub_zero] at hregistered
      generalize (listedNames (strtok (· = ',') (listBuffer list))).take plcMaxBindings = names
        at hregistered
      apply Program.sat_call_alone
      intro adds
      have hadds : Book.perform .addProgram adds (.holding names) = (adds.status, .holding names) :=
        congrArg (Prod.mk adds.status) (if_pos rfl)
      rw [hadds]
      show Ends _ (if adds.status ≠ PlcStatus.ok then _ else _) _
      split_ifs with hrefused
      · apply (fail_ends (broken_between names)).weaken
        intro code after hfailed
        exact ⟨hfailed.1, .inl hfailed.2⟩
      · apply Program.sat_call_alone
        intro runs
        rw [perform_runtimeRun]
        apply Program.sat_call_alone
        intro stats
        have hstats : Book.perform .runtimeGetStats stats
            { Book.holding names with runs := [(names, runs.status)] } =
            ((), { Book.holding names with runs := [(names, runs.status)] }) :=
          congrArg (Prod.mk ()) (if_pos rfl)
        rw [hstats]
        have hreported := @reportAll_ends { runtime := .live, runs := [(names, runs.status)] } []
          (Book.holding names).adapters [] (fun held hheld => live_holding hheld)
        simp only [List.nil_append, List.append_nil, length_holding, List.length_nil,
          ← List.range_eq_range'] at hreported
        apply Program.Sat.bind hreported
        rintro value after rfl
        apply Program.sat_call_alone
        intro destroys
        apply ends_done
        refine ⟨⟨rfl, fun held hheld => live_gone _ hheld, ?_⟩,
          .inr ⟨⟨runs.status, rfl, ?_⟩, hregistered⟩⟩
        · intro hlive
          cases hlive
        · show (if runs.status = PlcStatus.ok then exitSuccess else exitFailure) = exitSuccess ↔ _
          by_cases hok : runs.status = .ok
          · simp [hok]
          · simp [hok, exitSuccess, exitFailure]

/-- The names that `main` binds: those of the list, up to the eighth. -/
def Setup.bindable (setup : Setup) (table : List Entry) (roleAdapters : List Char) :
    List (List Char) :=
  (listedNames (strtok (· = ',') (listBuffer (setup.list table roleAdapters)))).take plcMaxBindings

/-- How `main` may end. -/
def Setup.Ended (setup : Setup) (code : ℕ) (after : Book) : Prop :=
  Released after ∧ (after.runs = [] ∨ ∃ table roleAdapters, setup.settings = some table ∧
    plcAdapterRoleAdapters setup.build (setup.role table) = some roleAdapters ∧
    RanWith (plcAdapterRegisterBuiltins setup.build) (setup.bindable table roleAdapters) code after)

theorem ended_early (setup : Setup) (code : ℕ) : setup.Ended code {} := by
  refine ⟨⟨rfl, ?_, ?_⟩, .inl rfl⟩
  · intro held hheld
    cases hheld
  · intro hlive
    cases hlive

theorem core_ends {setup : Setup} {table : List Entry} (hsettings : setup.settings = some table) :
    Ends setup.Ended (setup.core table) {} := by
  unfold Setup.core
  split
  · exact ends_done (ended_early setup _)
  · rename_i roleAdapters hrole
    apply Program.sat_call_alone
    intro creates
    cases hgranted : creates.granted with
    | false =>
        simp only [Book.perform, hgranted, Bool.false_eq_true, if_false]
        exact ends_done (ended_early setup _)
    | true =>
        simp only [Book.perform, hgranted, if_true]
        apply scanListed_ends.weaken
        intro code after hended
        refine ⟨hended.1, hended.2.imp id ?_⟩
        intro hran
        exact ⟨table, roleAdapters, hsettings, hrole, hran⟩

theorem main_ends (setup : Setup) : Ends setup.Ended setup.main {} := by
  have hearly : ∀ code, Ends setup.Ended (.done code) {} :=
    fun code => ends_done (ended_early setup code)
  unfold Setup.main
  split
  · exact hearly _
  · rename_i table hsettings
    split
    · exact core_ends hsettings
    · split_ifs
      · exact hearly _
      · apply Program.sat_call_alone
        intro prints
        exact hearly _
      · exact hearly _
      · exact hearly _
      · exact hearly _
      · exact hearly _
      · exact hearly _
      · exact core_ends hsettings

/-- **`main` leaves nothing behind.** Whatever the settings, the arguments and the answers
of the environment, no call is ever made on an adapter or a runtime that is not there or
not in the right state, and at the exit every adapter that was created has been destroyed,
and so has the runtime. -/
theorem main_releases (setup : Setup) (fallback : Choice) (choices : List Choice) :
    Released (setup.main.run Book.perform fallback choices {}).2 :=
  ((main_ends setup).run fallback choices).1

/-- **`main` scans with the listed adapters.** It runs at most once. If it does, the
adapters bound are those of the list in its order, as far as 255 characters and eight
names go, all of them are registered, and the exit code is that of the run. -/
theorem main_runs_listed (setup : Setup) (fallback : Choice) (choices : List Choice) :
    (setup.main.run Book.perform fallback choices {}).2.runs = [] ∨
      ∃ table roleAdapters, setup.settings = some table ∧
        plcAdapterRoleAdapters setup.build (setup.role table) = some roleAdapters ∧
        RanWith (plcAdapterRegisterBuiltins setup.build) (setup.bindable table roleAdapters)
          (setup.main.run Book.perform fallback choices {}).1
          (setup.main.run Book.perform fallback choices {}).2 :=
  ((main_ends setup).run fallback choices).2

/-- Everything is granted. -/
def granted : Choice := ⟨true, .ok, (2, 2), 0⟩

/-- Nine adapters in the list. -/
def nineListed : Setup where
  build := ⟨true, true⟩
  args := []
  env key := if key = "SOFTPLC_ADAPTERS".toList then
    some "loopback, loopback,loopback,loopback,loopback,loopback,loopback,loopback,missing".toList
    else none
  settings := some []

/-- The ninth name is not even looked up. -/
example : (nineListed.main.run Book.perform granted [] {}).2.runs =
    [(List.replicate 8 "loopback".toList, .ok)] := by decide +kernel

/-- The fourth adapter cannot be opened: it and the three before it are destroyed. -/
example : (nineListed.main.run Book.perform granted
      (List.replicate 14 granted ++ [⟨true, .errIo, (2, 2), 0⟩]) {}).2.adapters.map
        (fun held => (held.opened, held.bound, held.live)) =
    [(true, true, false), (true, true, false), (true, true, false), (false, false, false)] := by
  decide +kernel

end SoftPlc.App.Main
