/-
# The I/O contract of a scan

Every adapter sees the same thing from the scan engine. It is asked once in each
scan, after the adapters bound before it, whatever those answered. The outputs it
is handed are its slice of `%Q` as the last scan that ran to its end left it, and
the buffer it fills is its slice of `%I` and nobody else's.

The layout of `main` binds the adapters in their order, up to the first that cannot
be bound, and packs their slices. So the input phase rewrites one block of `%I`
after the other, and the result is read off the list of exchanges. That the
shadow holds the outputs of the last completed scan is an invariant of whole runs,
in which scans may be aborted and anyone who holds the image may write to it
between scans.
-/

import SoftPlc.Core.Runtime

namespace SoftPlc

open SoftPlc.Math

variable {ω : Type}

/-! ## The layout -/

/-- The sizes and places of the slices. -/
def IoBinding.inputBytes (binding : IoBinding ω) : ℕ := binding.caps.inputBytes

def IoBinding.outputBytes (binding : IoBinding ω) : ℕ := binding.caps.outputBytes

/-- The bound slices are packed, and this is where they end. -/
structure LaidOut (iOffset qOffset : ℕ) (rt : Runtime ω) : Prop where
  i_packed : Packed IoBinding.iOffset IoBinding.inputBytes 0 rt.bindings
  q_packed : Packed IoBinding.qOffset IoBinding.outputBytes 0 rt.bindings
  i_total : totalSize IoBinding.inputBytes rt.bindings = iOffset
  q_total : totalSize IoBinding.outputBytes rt.bindings = qOffset
  i_fits : iOffset ≤ plcPiAreaSize rt.pi .i
  q_fits : qOffset ≤ plcPiAreaSize rt.pi .q

/-- A binding that succeeds is appended, and its slices fit. -/
theorem plcRuntimeBindAdapter_eq_ok {rt bound : Runtime ω} {adapter : ProtocolAdapter ω}
    {iOffset qOffset : ℕ}
    (hbind : plcRuntimeBindAdapter rt adapter iOffset qOffset = (bound, .ok)) :
    bound = { rt with
      bindings := rt.bindings ++ [⟨adapter, iOffset, qOffset, adapter.getCaps.2⟩] } ∧
      iOffset + adapter.getCaps.2.inputBytes ≤ plcPiAreaSize rt.pi .i ∧
      qOffset + adapter.getCaps.2.outputBytes ≤ plcPiAreaSize rt.pi .q := by
  simp only [plcRuntimeBindAdapter] at hbind
  split_ifs at hbind with hcount hstatus habi hinput houtput
  · cases hbind
  · exact absurd (congrArg Prod.snd hbind) hstatus
  · cases hbind
  · cases hbind
  · cases hbind
  · cases hbind
    exact ⟨rfl, by omega, by omega⟩

/-- A binding that fails changes nothing. -/
theorem plcRuntimeBindAdapter_ne_ok {rt unbound : Runtime ω} {adapter : ProtocolAdapter ω}
    {iOffset qOffset : ℕ} {status : PlcStatus} (hstatus : status ≠ .ok)
    (hbind : plcRuntimeBindAdapter rt adapter iOffset qOffset = (unbound, status)) :
    unbound = rt := by
  simp only [plcRuntimeBindAdapter] at hbind
  split_ifs at hbind
  case neg => exact absurd (congrArg Prod.snd hbind).symm hstatus
  all_goals exact (congrArg Prod.fst hbind).symm

theorem LaidOut.bind {rt bound : Runtime ω} {adapter : ProtocolAdapter ω} {iOffset qOffset : ℕ}
    (h : LaidOut iOffset qOffset rt)
    (hbind : plcRuntimeBindAdapter rt adapter iOffset qOffset = (bound, .ok)) :
    LaidOut (iOffset + adapter.getCaps.2.inputBytes) (qOffset + adapter.getCaps.2.outputBytes)
      bound := by
  obtain ⟨rfl, hinput, houtput⟩ := plcRuntimeBindAdapter_eq_ok hbind
  constructor
  case i_packed => exact h.i_packed.concat (by rw [h.i_total, Nat.zero_add])
  case q_packed => exact h.q_packed.concat (by rw [h.q_total, Nat.zero_add])
  case i_total => rw [totalSize_concat, h.i_total]; rfl
  case q_total => rw [totalSize_concat, h.q_total]; rfl
  case i_fits => exact hinput
  case q_fits => exact houtput

/-- **The layout of `main`.** Whatever it binds is packed, and only the bindings
change. -/
theorem mainLayout_laidOut {rt : Runtime ω} {iOffset qOffset : ℕ}
    (h : LaidOut iOffset qOffset rt) (adapters : List (ProtocolAdapter ω)) :
    ∃ iEnd qEnd bindings, LaidOut iEnd qEnd (mainLayout rt iOffset qOffset adapters).1 ∧
      (mainLayout rt iOffset qOffset adapters).1 = { rt with bindings := bindings } := by
  induction adapters generalizing rt iOffset qOffset with
  | nil => exact ⟨iOffset, qOffset, rt.bindings, h, rfl⟩
  | cons adapter rest ih =>
      rw [mainLayout]
      split
      next bound hbind =>
          obtain ⟨iEnd, qEnd, bindings, hlaid, hrt⟩ := ih (h.bind hbind)
          refine ⟨iEnd, qEnd, bindings, hlaid, hrt.trans ?_⟩
          rw [(plcRuntimeBindAdapter_eq_ok hbind).1]
      next unbound status hstatus hbind =>
          obtain rfl := plcRuntimeBindAdapter_ne_ok hstatus hbind
          exact ⟨iOffset, qOffset, unbound.bindings, h, rfl⟩

/-- What `plc_runtime_bind_adapter` asks of an adapter at its place. -/
structure Bindable (cfg : RuntimeConfig) (adapter : ProtocolAdapter ω) (iOffset qOffset : ℕ) :
    Prop where
  status : adapter.getCaps.1 = .ok
  abi : adapter.getCaps.2.abiVersion = plcAdapterAbiVersion
  i_fits : iOffset + adapter.getCaps.2.inputBytes ≤ cfg.iBytes
  q_fits : qOffset + adapter.getCaps.2.outputBytes ≤ cfg.qBytes

/-- What is bound of a list of adapters: those up to the first that may not be bound,
in their order, each with its own sizes and at the sums of the sizes before it. -/
structure BoundInTurn (cfg : RuntimeConfig) (iStart qStart : ℕ)
    (adapters : List (ProtocolAdapter ω)) (bindings : List (IoBinding ω)) : Prop where
  listed : bindings.map IoBinding.adapter <+: adapters
  caps : ∀ binding ∈ bindings, binding.caps = binding.adapter.getCaps.2
  i_packed : Packed IoBinding.iOffset IoBinding.inputBytes iStart bindings
  q_packed : Packed IoBinding.qOffset IoBinding.outputBytes qStart bindings
  bindable : ∀ binding ∈ bindings,
    Bindable cfg binding.adapter binding.iOffset binding.qOffset
  stopped : ∀ adapter, adapters[bindings.length]? = some adapter →
    ¬ Bindable cfg adapter (iStart + totalSize IoBinding.inputBytes bindings)
      (qStart + totalSize IoBinding.outputBytes bindings)

namespace BoundInTurn

variable {cfg : RuntimeConfig} {adapter : ProtocolAdapter ω} {rest : List (ProtocolAdapter ω)}
  {iStart qStart : ℕ}

theorem refused (h : ¬ Bindable cfg adapter iStart qStart) :
    BoundInTurn cfg iStart qStart (adapter :: rest) [] where
  listed := List.nil_prefix
  caps := by simp
  i_packed := trivial
  q_packed := trivial
  bindable := by simp
  stopped next hnext := by
    obtain rfl : adapter = next := Option.some.inj hnext
    exact h

theorem cons {bindings : List (IoBinding ω)} (hfirst : Bindable cfg adapter iStart qStart)
    (h : BoundInTurn cfg (iStart + adapter.getCaps.2.inputBytes)
      (qStart + adapter.getCaps.2.outputBytes) rest bindings) :
    BoundInTurn cfg iStart qStart (adapter :: rest)
      (⟨adapter, iStart, qStart, adapter.getCaps.2⟩ :: bindings) where
  listed := List.cons_prefix_cons.mpr ⟨rfl, h.listed⟩
  caps := List.forall_mem_cons.mpr ⟨rfl, h.caps⟩
  i_packed := ⟨rfl, h.i_packed⟩
  q_packed := ⟨rfl, h.q_packed⟩
  bindable := List.forall_mem_cons.mpr ⟨hfirst, h.bindable⟩
  stopped next hnext := by
    rw [totalSize_cons, totalSize_cons, ← Nat.add_assoc, ← Nat.add_assoc]
    exact h.stopped next hnext

end BoundInTurn

/-- The runtime as `main` sets it up, with any programs. -/
def mainRuntime (cfg : RuntimeConfig) (adapters : List (ProtocolAdapter ω))
    (programs : List (PlcProgram ω)) : Runtime ω :=
  programs.foldl (fun rt program => (plcRuntimeAddProgram rt program).1)
    (mainLayout (plcRuntimeCreate cfg) 0 0 (adapters.take plcMaxBindings)).1

/-! ## The input phase -/

/-- The exchange that a binding is due. -/
def dueCall (qShadow : List Byte) (io : IoPhase ω) (binding : IoBinding ω) : ExchangeCall ω where
  binding := binding
  world := io.world
  out := slice qShadow binding.qOffset binding.outputBytes
  input := slice io.inputs binding.iOffset binding.inputBytes

/-- A binding inside the shadow is served: its adapter is asked. -/
theorem plcAdapterExchange_due {qShadow : List Byte} {binding : IoBinding ω}
    (hq : binding.qOffset ≤ qShadow.length) (io : IoPhase ω) :
    plcAdapterExchange binding
        (if binding.caps.outputBytes ≠ 0 ∧ binding.qOffset ≤ qShadow.length then
          some (slice qShadow binding.qOffset binding.caps.outputBytes) else none)
        (slice io.inputs binding.iOffset binding.caps.inputBytes) io.world =
      ⟨(dueCall qShadow io binding).status, (dueCall qShadow io binding).filled,
        (dueCall qShadow io binding).answer.2.2, [dueCall qShadow io binding]⟩ := by
  by_cases hzero : binding.caps.outputBytes = 0
  · simp [plcAdapterExchange, hzero, dueCall, IoBinding.inputBytes, IoBinding.outputBytes]
  · simp [plcAdapterExchange, hzero, hq, dueCall, IoBinding.inputBytes, IoBinding.outputBytes]

theorem scanBinding_eq {qShadow : List Byte} {binding : IoBinding ω}
    (hq : binding.qOffset ≤ qShadow.length) (io : IoPhase ω) :
    scanBinding qShadow io binding =
      { worst := if (dueCall qShadow io binding).status ≠ .ok
          then (dueCall qShadow io binding).status else io.worst
        inputs := memcpy io.inputs binding.iOffset (dueCall qShadow io binding).filled
          binding.inputBytes
        world := (dueCall qShadow io binding).answer.2.2
        calls := io.calls ++ [dueCall qShadow io binding] } := by
  unfold scanBinding
  dsimp only
  rw [plcAdapterExchange_due hq io]
  rfl

@[simp]
theorem ExchangeCall.length_filled (call : ExchangeCall ω) :
    call.filled.length = call.input.length :=
  call.binding.adapter.length_exchange ..

/-- What the input phase does with a part of `%I`: the exchanges that were made, one
for each binding, and the blocks they found and left behind. -/
structure Serves (qShadow rest : List Byte) (bindings : List (IoBinding ω))
    (before after : IoPhase ω) (written : List Byte) (calls : List (ExchangeCall ω)) : Prop where
  calls_eq : after.calls = before.calls ++ calls
  order : calls.map ExchangeCall.binding = bindings
  out : ∀ call ∈ calls,
    call.out = slice qShadow call.binding.qOffset call.binding.outputBytes
  input_length : ∀ call ∈ calls, call.input.length = call.binding.inputBytes
  found : rest = (calls.map ExchangeCall.input).flatten ++
    rest.drop (totalSize IoBinding.inputBytes bindings)
  left : after.inputs = written ++ (calls.map ExchangeCall.filled).flatten ++
    rest.drop (totalSize IoBinding.inputBytes bindings)
  worst : after.worst = .ok ↔ before.worst = .ok ∧ ∀ call ∈ calls, call.status = .ok

/-- The loop of `scan_io` over packed bindings. -/
theorem foldl_scanBinding {qShadow : List Byte} {bindings : List (IoBinding ω)}
    {io : IoPhase ω} {written rest : List Byte} (hinputs : io.inputs = written ++ rest)
    (hpacked : Packed IoBinding.iOffset IoBinding.inputBytes written.length bindings)
    (hfits : totalSize IoBinding.inputBytes bindings ≤ rest.length)
    (hq : ∀ binding ∈ bindings, binding.qOffset ≤ qShadow.length) :
    ∃ calls, Serves qShadow rest bindings io (bindings.foldl (scanBinding qShadow) io)
      written calls := by
  induction bindings generalizing io written rest with
  | nil => exact ⟨[], by simp, rfl, nofun, nofun, by simp [totalSize], by simp [totalSize, hinputs],
      by simp⟩
  | cons binding others ih =>
      obtain ⟨hoffset, hothers⟩ := hpacked
      rw [totalSize_cons] at hfits
      set call := dueCall qShadow io binding with hcall
      have hinput : call.input = rest.take binding.inputBytes := by
        simp [hcall, dueCall, slice, hinputs, hoffset]
      have hlength : call.filled.length = binding.inputBytes := by
        rw [call.length_filled, hinput, List.length_take]
        omega
      have hstep := scanBinding_eq (hq binding List.mem_cons_self) io
      rw [← hcall] at hstep
      have hnext : (scanBinding qShadow io binding).inputs =
          (written ++ call.filled) ++ rest.drop binding.inputBytes := by
        rw [hstep, hinputs, hoffset, ← hlength]
        exact memcpy_at_end written rest call.filled
      have hpackedNext : Packed IoBinding.iOffset IoBinding.inputBytes
          (written ++ call.filled).length others := by
        rw [List.length_append, hlength]
        exact hothers
      have hfitsNext : totalSize IoBinding.inputBytes others ≤
          (rest.drop binding.inputBytes).length := by
        rw [List.length_drop]
        omega
      obtain ⟨calls, hserves⟩ := ih hnext hpackedNext hfitsNext
        (fun other hother => hq other (List.mem_cons_of_mem _ hother))
      refine ⟨call :: calls, ?_⟩
      constructor
      case calls_eq => rw [List.foldl_cons, hserves.calls_eq, hstep]; simp
      case order => rw [List.map_cons, hserves.order, hcall, dueCall]
      case out => exact List.forall_mem_cons.mpr ⟨rfl, hserves.out⟩
      case input_length =>
        refine List.forall_mem_cons.mpr ⟨?_, hserves.input_length⟩
        rw [← call.length_filled, hlength]
        rfl
      case found =>
        rw [totalSize_cons, ← List.drop_drop, List.map_cons, List.flatten_cons, hinput,
          List.append_assoc, ← hserves.found, List.take_append_drop]
      case left =>
        rw [List.foldl_cons, hserves.left, totalSize_cons, ← List.drop_drop]
        simp
      case worst =>
        rw [List.foldl_cons, hserves.worst, hstep, List.forall_mem_cons]
        by_cases hok : call.status = .ok <;> simp [hok]

/-- **What the input phase owes.** Every adapter is asked once, in the order of the
bindings, with its slice of the latched outputs. It is handed its own slice of `%I`,
which afterwards holds what it answered, and the rest of `%I` is as before. -/
structure IoContract (bindings : List (IoBinding ω)) (latched before : List Byte)
    (io : IoPhase ω) : Prop where
  order : io.calls.map ExchangeCall.binding = bindings
  out : ∀ call ∈ io.calls,
    call.out = slice latched call.binding.qOffset call.binding.caps.outputBytes
  input : ∀ call ∈ io.calls,
    call.input = slice before call.binding.iOffset call.binding.caps.inputBytes
  filled : ∀ call ∈ io.calls,
    slice io.inputs call.binding.iOffset call.binding.caps.inputBytes = call.filled
  frame : ∀ position,
    (∀ binding ∈ bindings, ¬ (binding.iOffset ≤ position ∧
      position < binding.iOffset + binding.caps.inputBytes)) →
    io.inputs[position]? = before[position]?

section Phase

variable {rt : Runtime ω} {iEnd qEnd : ℕ}

theorem scanIo_serves (h : LaidOut iEnd qEnd rt)
    (hshadow : rt.qShadow.length = plcPiAreaSize rt.pi .q) (world : ω) :
    Serves rt.qShadow (rt.pi.area .i) rt.bindings ⟨.ok, rt.pi.area .i, world, []⟩
      (scanIo rt world) [] (scanIo rt world).calls := by
  have hq : ∀ binding ∈ rt.bindings, binding.qOffset ≤ rt.qShadow.length := by
    intro binding hbinding
    have hend := (h.q_packed.end_le binding hbinding).2
    have hfits := h.q_fits
    rw [h.q_total] at hend
    omega
  have hfits : totalSize IoBinding.inputBytes rt.bindings ≤ (rt.pi.area .i).length := by
    rw [h.i_total]
    exact h.i_fits
  obtain ⟨calls, hserves⟩ : ∃ calls, Serves rt.qShadow (rt.pi.area .i) rt.bindings
      ⟨.ok, rt.pi.area .i, world, []⟩ (scanIo rt world) [] calls :=
    foldl_scanBinding (List.nil_append _).symm h.i_packed hfits hq
  have hcalls : (scanIo rt world).calls = calls := hserves.calls_eq
  exact hcalls ▸ hserves

theorem Serves.length {qShadow rest : List Byte} {bindings : List (IoBinding ω)}
    {before after : IoPhase ω} {calls : List (ExchangeCall ω)}
    (h : Serves qShadow rest bindings before after [] calls) :
    (calls.map ExchangeCall.filled).flatten.length = totalSize IoBinding.inputBytes bindings ∧
      (calls.map ExchangeCall.input).flatten.length =
        totalSize IoBinding.inputBytes bindings := by
  have hfilled : ∀ call ∈ calls, call.filled.length = call.binding.inputBytes :=
    fun call hcall => call.length_filled.trans (h.input_length call hcall)
  have htotal : totalSize (IoBinding.inputBytes ∘ ExchangeCall.binding) calls =
      totalSize IoBinding.inputBytes bindings := by
    rw [← h.order, totalSize, totalSize, List.map_map]
  exact ⟨(length_flatten_blocks hfilled).trans htotal,
    (length_flatten_blocks h.input_length).trans htotal⟩

theorem scanIo_length (h : LaidOut iEnd qEnd rt)
    (hshadow : rt.qShadow.length = plcPiAreaSize rt.pi .q) (world : ω) :
    (scanIo rt world).inputs.length = plcPiAreaSize rt.pi .i := by
  have hserves := scanIo_serves h hshadow world
  rw [plcPiAreaSize, hserves.left, hserves.found]
  simp [hserves.length.1, hserves.length.2]

theorem scanIo_contract (h : LaidOut iEnd qEnd rt)
    (hshadow : rt.qShadow.length = plcPiAreaSize rt.pi .q) (world : ω) :
    IoContract rt.bindings rt.qShadow (rt.pi.area .i) (scanIo rt world) := by
  have hserves := scanIo_serves h hshadow world
  have hpacked : Packed (IoBinding.iOffset ∘ ExchangeCall.binding)
      (IoBinding.inputBytes ∘ ExchangeCall.binding) 0 (scanIo rt world).calls :=
    Packed.of_map (hserves.order.symm ▸ h.i_packed)
  constructor
  case order => exact hserves.order
  case out => exact hserves.out
  case input =>
    intro call hcall
    have hslice := slice_flatten_packed [] hpacked hserves.input_length
      ((rt.pi.area .i).drop (totalSize IoBinding.inputBytes rt.bindings)) call hcall
    rw [List.nil_append, ← hserves.found] at hslice
    exact hslice.symm
  case filled =>
    intro call hcall
    rw [hserves.left]
    exact slice_flatten_packed [] hpacked
      (fun other hother => other.length_filled.trans (hserves.input_length other hother)) _
      call hcall
  case frame =>
    intro position houtside
    have hbehind : totalSize IoBinding.inputBytes rt.bindings ≤ position := by
      by_contra hinside
      obtain ⟨binding, hbinding, hbounds⟩ := h.i_packed.exists_mem (Nat.zero_le position)
        (by omega)
      exact houtside binding hbinding hbounds
    have hfound := hserves.found
    rw [hserves.left, List.nil_append]
    conv_rhs => rw [hfound]
    rw [List.getElem?_append_right (hserves.length.1.trans_le hbehind),
      List.getElem?_append_right (hserves.length.2.trans_le hbehind), hserves.length.1,
      hserves.length.2]

end Phase

/-! ## Whole scans -/

theorem runPrograms_size (ctx : PouCtx) (programs : List (PlcProgram ω)) (pi : ProcessImage)
    (world : ω) (area : PlcArea) :
    plcPiAreaSize (runPrograms ctx programs pi world).1 area = plcPiAreaSize pi area := by
  induction programs generalizing pi world with
  | nil => rfl
  | cons program rest ih =>
      rw [runPrograms, ih]
      exact program.size_fn ctx pi world area

/-- A scan that was not aborted. -/
def ScanResult.completed (result : ScanResult ω) : Bool :=
  result.status = .ok || result.rt.cfg.continueOnIoFault

section Scan

variable (rt : Runtime ω) (t0 t1 : ℤ) (world : ω)

theorem scanOnce_aborted (habort : (scanIo rt world).Aborts rt.cfg) :
    plcRuntimeScanOnce rt t0 t1 world =
      { status := (scanIo rt world).worst
        rt := scanInput rt t0 (scanIo rt world)
        world := (scanIo rt world).world
        io := scanIo rt world } :=
  if_pos habort

theorem scanOnce_executed (hgo : ¬ (scanIo rt world).Aborts rt.cfg) :
    plcRuntimeScanOnce rt t0 t1 world =
      scanExecute (scanInput rt t0 (scanIo rt world)) t0 t1 (scanIo rt world) :=
  if_neg hgo

/-- What every scan leaves alone, and what it hands out. -/
theorem scanOnce_keeps :
    (plcRuntimeScanOnce rt t0 t1 world).rt.cfg = rt.cfg ∧
      (plcRuntimeScanOnce rt t0 t1 world).rt.bindings = rt.bindings ∧
      (plcRuntimeScanOnce rt t0 t1 world).status = (scanIo rt world).worst ∧
      (plcRuntimeScanOnce rt t0 t1 world).io = scanIo rt world := by
  by_cases habort : (scanIo rt world).Aborts rt.cfg
  · rw [scanOnce_aborted rt t0 t1 world habort]
    exact ⟨rfl, rfl, rfl, rfl⟩
  · rw [scanOnce_executed rt t0 t1 world habort]
    exact ⟨rfl, rfl, rfl, rfl⟩

theorem scanOnce_completed :
    (plcRuntimeScanOnce rt t0 t1 world).completed = true ↔
      ¬ (scanIo rt world).Aborts rt.cfg := by
  obtain ⟨hcfg, -, hstatus, -⟩ := scanOnce_keeps rt t0 t1 world
  rw [ScanResult.completed, hstatus, hcfg, IoPhase.Aborts]
  cases rt.cfg.continueOnIoFault <;> simp

variable {rt} (hinputs : (scanIo rt world).inputs.length = plcPiAreaSize rt.pi .i)

include hinputs

theorem scanInput_size (area : PlcArea) :
    plcPiAreaSize (scanInput rt t0 (scanIo rt world)).pi area = plcPiAreaSize rt.pi area := by
  by_cases harea : area = .i
  · subst harea
    simpa [scanInput, plcPiAreaSize] using hinputs
  · simp [scanInput, plcPiAreaSize, Function.update_of_ne harea]

theorem scanOnce_size (area : PlcArea) :
    plcPiAreaSize (plcRuntimeScanOnce rt t0 t1 world).rt.pi area = plcPiAreaSize rt.pi area := by
  have hinput := scanInput_size t0 world hinputs area
  by_cases habort : (scanIo rt world).Aborts rt.cfg
  · rw [scanOnce_aborted rt t0 t1 world habort]
    exact hinput
  · rw [scanOnce_executed rt t0 t1 world habort]
    exact (runPrograms_size ..).trans hinput

/-- The shadow follows `%Q` at the end of a scan, and only there. -/
theorem scanOnce_qShadow (hshadow : rt.qShadow.length = plcPiAreaSize rt.pi .q) :
    (plcRuntimeScanOnce rt t0 t1 world).rt.qShadow =
      if (plcRuntimeScanOnce rt t0 t1 world).completed
      then (plcRuntimeScanOnce rt t0 t1 world).rt.pi.area .q else rt.qShadow := by
  have hsize := scanOnce_size t0 t1 world hinputs .q
  have hcompleted := scanOnce_completed rt t0 t1 world
  by_cases habort : (scanIo rt world).Aborts rt.cfg
  · rw [if_neg (fun hdone => hcompleted.mp hdone habort), scanOnce_aborted rt t0 t1 world habort]
    rfl
  · rw [if_pos (hcompleted.mpr habort)]
    rw [scanOnce_executed rt t0 t1 world habort] at hsize ⊢
    have hcopy := memcpy_all
      ((scanExecute (scanInput rt t0 (scanIo rt world)) t0 t1 (scanIo rt world)).rt.pi.area .q)
      (show rt.qShadow.length = rt.qShadow.length from rfl)
    refine hcopy.trans (List.take_of_length_le ?_)
    rw [hshadow]
    exact hsize.le

end Scan

/-! ## Sequences of scans -/

/-- A runtime in use, with the scans it has made. -/
structure Session (ω : Type) where
  rt : Runtime ω
  world : ω
  scans : List (ScanResult ω)

/-- A scan, or an access to the image between scans. -/
inductive SessionAct
  | scan (t0 t1 : ℤ)
  | access (access : ImageAccess)

namespace Session

def start (rt : Runtime ω) (world : ω) : Session ω := ⟨rt, world, []⟩

def step (s : Session ω) : SessionAct → Session ω
  | .scan t0 t1 =>
      let result := plcRuntimeScanOnce s.rt t0 t1 s.world
      ⟨result.rt, result.world, s.scans ++ [result]⟩
  | .access access => { s with rt := { s.rt with pi := access.apply s.rt.pi } }

end Session

/-- `%Q` at the end of the last scan that completed, or zeros. -/
def latchedOutput (cfg : RuntimeConfig) (scans : List (ScanResult ω)) : List Byte :=
  match (scans.filter ScanResult.completed).getLast? with
  | some result => result.rt.pi.area .q
  | none => List.replicate cfg.qBytes 0

theorem latchedOutput_concat (cfg : RuntimeConfig) (scans : List (ScanResult ω))
    (result : ScanResult ω) :
    latchedOutput cfg (scans ++ [result]) =
      if result.completed then result.rt.pi.area .q else latchedOutput cfg scans := by
  cases hcompleted : result.completed <;>
    simp [latchedOutput, List.filter_append, hcompleted]

/-- What stays true of a session: the bindings and the sizes are those it began
with, and the shadow is what the last completed scan left in `%Q`. -/
structure Session.Sound (rt : Runtime ω) (s : Session ω) : Prop where
  cfg : s.rt.cfg = rt.cfg
  bindings : s.rt.bindings = rt.bindings
  size : ∀ area, plcPiAreaSize s.rt.pi area = plcPiAreaSize rt.pi area
  shadow : s.rt.qShadow.length = plcPiAreaSize rt.pi .q
  latched : s.rt.qShadow = latchedOutput rt.cfg s.scans

namespace Session.Sound

variable {rt : Runtime ω} {s : Session ω} {iEnd qEnd : ℕ}

theorem laidOut (h : s.Sound rt) (hlaid : LaidOut iEnd qEnd rt) : LaidOut iEnd qEnd s.rt where
  i_packed := h.bindings ▸ hlaid.i_packed
  q_packed := h.bindings ▸ hlaid.q_packed
  i_total := h.bindings ▸ hlaid.i_total
  q_total := h.bindings ▸ hlaid.q_total
  i_fits := h.size .i ▸ hlaid.i_fits
  q_fits := h.size .q ▸ hlaid.q_fits

theorem shadow_size (h : s.Sound rt) : s.rt.qShadow.length = plcPiAreaSize s.rt.pi .q :=
  h.shadow.trans (h.size .q).symm

theorem step (h : s.Sound rt) (hlaid : LaidOut iEnd qEnd rt) (act : SessionAct) :
    (s.step act).Sound rt := by
  cases act with
  | scan t0 t1 =>
      have hinputs := scanIo_length (h.laidOut hlaid) h.shadow_size s.world
      obtain ⟨hcfg, hbindings, -, -⟩ := scanOnce_keeps s.rt t0 t1 s.world
      have hsize := scanOnce_size t0 t1 s.world hinputs
      have hshadow := scanOnce_qShadow t0 t1 s.world hinputs h.shadow_size
      have hlatched : (plcRuntimeScanOnce s.rt t0 t1 s.world).rt.qShadow =
          latchedOutput rt.cfg (s.scans ++ [plcRuntimeScanOnce s.rt t0 t1 s.world]) := by
        rw [latchedOutput_concat, ← h.latched]
        exact hshadow
      constructor
      case cfg => exact hcfg.trans h.cfg
      case bindings => exact hbindings.trans h.bindings
      case size => exact fun area => (hsize area).trans (h.size area)
      case latched => exact hlatched
      case shadow =>
        have hq : ((plcRuntimeScanOnce s.rt t0 t1 s.world).rt.pi.area .q).length =
            plcPiAreaSize rt.pi .q := (hsize .q).trans (h.size .q)
        show (plcRuntimeScanOnce s.rt t0 t1 s.world).rt.qShadow.length = _
        rw [hshadow]
        split_ifs
        · exact hq
        · exact h.shadow
  | access access =>
      exact ⟨h.cfg, h.bindings, fun area => (access.size_apply _ area).trans (h.size area),
        h.shadow, h.latched⟩

theorem run (h : s.Sound rt) (hlaid : LaidOut iEnd qEnd rt) (acts : List SessionAct) :
    (acts.foldl Session.step s).Sound rt := by
  induction acts generalizing s with
  | nil => exact h
  | cons act rest ih => exact ih (h.step hlaid act)

end Session.Sound

/-- Adding programs changes nothing else. -/
theorem foldl_plcRuntimeAddProgram (rt : Runtime ω) (programs : List (PlcProgram ω)) :
    ∃ added, programs.foldl (fun rt program => (plcRuntimeAddProgram rt program).1) rt =
      { rt with programs := added } := by
  induction programs generalizing rt with
  | nil => exact ⟨rt.programs, rfl⟩
  | cons program rest ih =>
      obtain ⟨added, hadded⟩ := ih (plcRuntimeAddProgram rt program).1
      refine ⟨added, hadded.trans ?_⟩
      unfold plcRuntimeAddProgram
      split_ifs <;> rfl

theorem mainRuntime_laidOut (cfg : RuntimeConfig) (adapters : List (ProtocolAdapter ω))
    (programs : List (PlcProgram ω)) :
    (∃ iEnd qEnd, LaidOut iEnd qEnd (mainRuntime cfg adapters programs)) ∧
      (mainRuntime cfg adapters programs).cfg = cfg ∧
      (mainRuntime cfg adapters programs).pi = plcPiInit cfg.iBytes cfg.qBytes cfg.mBytes ∧
      (mainRuntime cfg adapters programs).qShadow = List.replicate cfg.qBytes 0 := by
  have hempty : LaidOut 0 0 (plcRuntimeCreate cfg : Runtime ω) :=
    ⟨trivial, trivial, rfl, rfl, Nat.zero_le _, Nat.zero_le _⟩
  obtain ⟨iEnd, qEnd, bindings, hlaid, hbound⟩ :=
    mainLayout_laidOut hempty (adapters.take plcMaxBindings)
  obtain ⟨added, hadded⟩ := foldl_plcRuntimeAddProgram
    (mainLayout (plcRuntimeCreate cfg) 0 0 (adapters.take plcMaxBindings)).1 programs
  rw [mainRuntime, hadded]
  refine ⟨⟨iEnd, qEnd, ?_⟩, ?_⟩
  · exact ⟨hlaid.i_packed, hlaid.q_packed, hlaid.i_total, hlaid.q_total, hlaid.i_fits,
      hlaid.q_fits⟩
  · rw [hbound]
    exact ⟨rfl, rfl, rfl⟩

theorem mainRuntime_sound (cfg : RuntimeConfig) (adapters : List (ProtocolAdapter ω))
    (programs : List (PlcProgram ω)) (world : ω) :
    (Session.start (mainRuntime cfg adapters programs) world).Sound
      (mainRuntime cfg adapters programs) := by
  obtain ⟨-, hcfg, hpi, hshadow⟩ := mainRuntime_laidOut cfg adapters programs
  have hlatched : (mainRuntime cfg adapters programs).qShadow =
      latchedOutput (mainRuntime cfg adapters programs).cfg ([] : List (ScanResult ω)) := by
    rw [hshadow, hcfg]
    rfl
  refine ⟨rfl, rfl, fun _ => rfl, ?_, hlatched⟩
  rw [hpi]
  exact congrArg List.length hshadow

/-- A runtime of four bytes that stops at a fault. -/
def strictConfig : RuntimeConfig :=
  { cycleUs := 10000, iBytes := 4, qBytes := 4, mBytes := 0, continueOnIoFault := false }

end SoftPlc
