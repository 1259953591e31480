/-
# The motor needs a live link

The parts put together: the runtime as `main` sets it up, an adapter of any kind
bound first, and the demo program. STOP is wired normally closed and arrives over the
link, so a link that falls silent must end as a stop.

Under the CLEAR policy it does. Whenever the outputs that are handed to the field
command the motor, the link was heard from within the failsafe time, and the last
fresh image that came over it had STOP released. The other adapters, the field, the
clock and whoever writes to the image between scans may do what they like.

What counts as heard includes replies that disown their data. After one of those the
held image may be older than the failsafe time, which is why the two halves of the
statement speak of two exchanges.
-/

import SoftPlc.Adapters.Answers
import SoftPlc.App.Demo
import SoftPlc.Core.ScanContract

namespace SoftPlc.App

open SoftPlc.Math SoftPlc.Adapters

/-! ## The plant -/

/-- An exchange of the link as the core saw it end. -/
structure Exchanged where
  status : PlcStatus
  image : List Byte
  now : ℕ
  deriving DecidableEq, Repr

/-- What the field does during each exchange of the link. -/
structure Field where
  times : ℕ → Times
  peer : ℕ → Peer
  hook : ℕ → Option ℕ
  framed : ∀ k frame devicesOnline, peer k = .replies frame devicesOnline →
    frame.len.toNat ≤ frame.data.length
  positive : ∀ k, 0 < (times k).finish

/-- The adapter of the link with its exchanges so far, and the program's state. -/
structure Plant where
  adapter : Adapter
  whole : adapter.Whole
  log : List Exchanged
  demo : DemoState

/-- The call that the field makes of the next exchange. -/
def Field.call (field : Field) (plant : Plant) (out input : List Byte) : Call where
  out := out
  input := input
  times := field.times plant.log.length
  peer := field.peer plant.log.length
  hook := field.hook plant.log.length

theorem Field.framed_call (field : Field) (plant : Plant) (out input : List Byte) :
    (field.call plant out input).Framed :=
  field.framed plant.log.length

/-- One exchange of the link. -/
def Plant.exchange (plant : Plant) (field : Field) (out input : List Byte) : Plant :=
  let call := field.call plant out input
  { adapter := (plant.adapter.exchange call).1
    whole := (Adapter.exchange_keeps plant.whole (field.framed_call plant out input)).whole
    log := plant.log ++
      [⟨(plant.adapter.exchange call).2.1, (plant.adapter.exchange call).2.2, call.times.finish⟩]
    demo := plant.demo }

variable {ρ : Type}

/-- The link behind the vtable. What else there is beside the plant is left alone. -/
def linkAdapter (field : Field) (caps : AdapterCaps) : ProtocolAdapter (Plant × ρ) where
  getCaps := (.ok, ⟨plcAdapterAbiVersion, caps.inputBytes, caps.outputBytes⟩)
  exchange world out input :=
    let result := world.1.adapter.exchange (field.call world.1 out input)
    (result.2.1, result.2.2, (world.1.exchange field out input, world.2))
  length_exchange world out input :=
    (Adapter.exchange_keeps world.1.whole (field.framed_call world.1 out input)).length_eq

/-- Another adapter, which does not touch the plant. -/
def besideAdapter (other : ProtocolAdapter ρ) : ProtocolAdapter (Plant × ρ) where
  getCaps := other.getCaps
  exchange world out input :=
    let result := other.exchange world.2 out input
    (result.1, result.2.1, (world.1, result.2.2))
  length_exchange world out input := other.length_exchange world.2 out input

/-- `demo_program`, registered with its state. -/
def plantProgram : PlcProgram (Plant × ρ) where
  fn ctx pi world :=
    let result := demoProgram.fn ctx pi world.1.demo
    (result.1, ({ world.1 with demo := result.2 }, world.2))
  size_fn ctx pi world area := demoProgram.size_fn ctx pi world.1.demo area

/-- The configuration `main` makes: the defaults with the cycle time that was set. -/
def mainConfig (cycleUs : ℕ) : RuntimeConfig := { plcRuntimeConfigInit with cycleUs := cycleUs }

/-- The adapters `main` has opened, the link first. -/
def plantAdapters (field : Field) (caps : AdapterCaps) (others : List (ProtocolAdapter ρ)) :
    List (ProtocolAdapter (Plant × ρ)) :=
  linkAdapter field caps :: others.map besideAdapter

/-! ## What the link remembers -/

/-- The answers after which the age of the image starts anew. -/
def Exchanged.heard (entry : Exchanged) : Bool := entry.status = .ok || entry.status = .errAgain

def Exchanged.fresh (entry : Exchanged) : Bool := entry.status = .ok

/-- When the link was last heard from, or else opened. -/
def lastHeard (openedUs : ℕ) (log : List Exchanged) : ℕ :=
  ((log.filter Exchanged.heard).getLast?.map Exchanged.now).getD openedUs

/-- The last fresh exchange. -/
def lastFresh (log : List Exchanged) : Option Exchanged := (log.filter Exchanged.fresh).getLast?

/-- Its image, or zeros. -/
def freshImage (size : ℕ) (log : List Exchanged) : List Byte :=
  ((lastFresh log).map Exchanged.image).getD (List.replicate size 0)

theorem lastHeard_concat (openedUs : ℕ) (log : List Exchanged) (entry : Exchanged) :
    lastHeard openedUs (log ++ [entry]) =
      if entry.heard then entry.now else lastHeard openedUs log := by
  cases hheard : entry.heard <;> simp [lastHeard, List.filter_append, hheard]

theorem lastFresh_concat (log : List Exchanged) (entry : Exchanged) :
    lastFresh (log ++ [entry]) = if entry.fresh then some entry else lastFresh log := by
  cases hfresh : entry.fresh <;> simp [lastFresh, List.filter_append, hfresh]

/-- The link was heard from within the failsafe time, counted at its latest exchange,
and the last fresh image had STOP released. -/
structure LiveLink (caps : AdapterCaps) (openedUs : ℕ) (log : List Exchanged) : Prop where
  heard : ∃ latest, log.getLast? = some latest ∧
    latest.now - lastHeard openedUs log < caps.failsafeTimeoutUs
  released : ∃ entry, lastFresh log = some entry ∧ readBit (entry.image.getD 0 0) 1 = true

/-- A plant whose adapter stands where its log says. -/
structure Plant.Stands (caps : AdapterCaps) (openedUs : ℕ) (plant : Plant) : Prop where
  caps_eq : plant.adapter.record.caps = caps
  opened : plant.adapter.record.state ≠ .closed
  held_eq : plant.adapter.record.held = freshImage caps.inputBytes plant.log
  origin_eq : plant.adapter.record.origin = lastHeard openedUs plant.log
  positive : 0 < lastHeard openedUs plant.log

theorem readBit_zero (bit : ℕ) : readBit 0 bit = false := by
  simp [readBit]

/-- Zeros show no STOP released. -/
theorem readBit_replicate_zero (size bit : ℕ) :
    readBit ((List.replicate size (0 : Byte)).getD 0 0) bit = false := by
  cases size <;> exact readBit_zero bit

theorem released_of_freshImage {size : ℕ} {log : List Exchanged}
    (hbit : readBit ((freshImage size log).getD 0 0) 1 = true) :
    ∃ entry, lastFresh log = some entry ∧ readBit (entry.image.getD 0 0) 1 = true := by
  unfold freshImage at hbit
  cases hlast : lastFresh log with
  | none =>
      rw [hlast, Option.map_none, Option.getD_none, readBit_replicate_zero] at hbit
      cases hbit
  | some entry =>
      rw [hlast, Option.map_some, Option.getD_some] at hbit
      exact ⟨entry, rfl, hbit⟩

/-- What an answer does to the held image and to the origin of its age, read off the
entry it leaves in the log. -/
theorem answered_remembers {before after : Record} {entry : Exchanged}
    (h : Answered before after entry.now entry.status entry.image) :
    after.held = (if entry.fresh then entry.image else before.held) ∧
      after.origin = (if entry.heard then entry.now else before.origin) := by
  cases h with
  | fresh status_eq held_eq origin_eq =>
      simp [Exchanged.fresh, Exchanged.heard, status_eq, held_eq, origin_eq]
  | disowned status_eq held_eq origin_eq _ =>
      simp [Exchanged.fresh, Exchanged.heard, status_eq, held_eq, origin_eq]
  | missed hfresh hagain held_eq origin_eq _ =>
      simp [Exchanged.fresh, Exchanged.heard, hfresh, hagain, held_eq, origin_eq]

/-- Under CLEAR an image that shows STOP released is fresh, or it is the held one and
its age is within the failsafe time. -/
theorem answered_released {before after : Record} {entry : Exchanged}
    (h : Answered before after entry.now entry.status entry.image)
    (hclear : before.caps.failsafePolicy = .clear)
    (hreleased : readBit (entry.image.getD 0 0) 1 = true) :
    entry.status = .ok ∨
      entry.status ≠ .ok ∧ entry.status ≠ .errAgain ∧ entry.image = before.held ∧
        plcStalenessAgeUs before.stale before.openedUs entry.now <
          before.caps.failsafeTimeoutUs := by
  have hzeros : ∀ lastFresh, readBit ((failsafeImage before.caps.failsafePolicy
      before.caps.inputBytes lastFresh).getD 0 0) 1 = false := by
    intro lastFresh
    rw [hclear]
    exact readBit_replicate_zero _ 1
  cases h with
  | fresh status_eq _ _ => exact .inl status_eq
  | disowned _ _ _ image_eq =>
      rw [image_eq, hzeros] at hreleased
      cases hreleased
  | missed hfresh hagain _ _ image_eq =>
      split_ifs at image_eq with hage
      · rw [image_eq, hzeros] at hreleased
        cases hreleased
      · exact .inr ⟨hfresh, hagain, image_eq, Nat.lt_of_not_le hage⟩

section Exchange

variable {caps : AdapterCaps} {openedUs : ℕ} {field : Field} {plant : Plant}
  {out input : List Byte}

/-- The entry an exchange adds to the log. -/
def Plant.entry (plant : Plant) (field : Field) (out input : List Byte) : Exchanged :=
  ⟨(plant.adapter.exchange (field.call plant out input)).2.1,
    (plant.adapter.exchange (field.call plant out input)).2.2,
    (field.times plant.log.length).finish⟩

theorem Plant.Stands.answered (h : plant.Stands caps openedUs) (field : Field)
    (hout : out.length ≤ caps.outputBytes) (hinput : input.length = caps.inputBytes) :
    Answered plant.adapter.record (plant.exchange field out input).adapter.record
        (plant.entry field out input).now (plant.entry field out input).status
        (plant.entry field out input).image ∧
      (plant.exchange field out input).adapter.record.state ≠ .closed := by
  refine Adapter.exchange_answered plant.whole h.opened ?_
  rw [h.caps_eq]
  exact ⟨hout, hinput, field.framed plant.log.length⟩

/-- The log tells what the adapter remembers, exchange after exchange. -/
theorem Plant.Stands.exchange (h : plant.Stands caps openedUs) (field : Field)
    (hout : out.length ≤ caps.outputBytes) (hinput : input.length = caps.inputBytes) :
    (plant.exchange field out input).Stands caps openedUs := by
  obtain ⟨hanswer, hopened⟩ := h.answered field hout hinput
  obtain ⟨hheld, horigin⟩ := answered_remembers hanswer
  have hkeeps := Adapter.exchange_keeps plant.whole (field.framed_call plant out input)
  have hlog : (plant.exchange field out input).log =
      plant.log ++ [plant.entry field out input] := rfl
  constructor
  case caps_eq => exact hkeeps.caps_eq.trans h.caps_eq
  case opened => exact hopened
  case held_eq =>
    rw [hheld, hlog, freshImage, lastFresh_concat, h.held_eq]
    split_ifs
    · rfl
    · rfl
  case origin_eq => rw [horigin, hlog, lastHeard_concat, h.origin_eq]
  case positive =>
    rw [hlog, lastHeard_concat]
    split_ifs
    · exact field.positive plant.log.length
    · exact h.positive

/-- Under CLEAR the program sees STOP released only over a live link. -/
theorem Plant.Stands.liveLink (h : plant.Stands caps openedUs) (field : Field)
    (hout : out.length ≤ caps.outputBytes) (hinput : input.length = caps.inputBytes)
    (hclear : caps.failsafePolicy = .clear) (htimeout : 0 < caps.failsafeTimeoutUs)
    (hreleased : readBit ((plant.entry field out input).image.getD 0 0) 1 = true) :
    LiveLink caps openedUs (plant.exchange field out input).log := by
  obtain ⟨hanswer, -⟩ := h.answered field hout hinput
  have hlog : (plant.exchange field out input).log =
      plant.log ++ [plant.entry field out input] := rfl
  have hlatest : (plant.log ++ [plant.entry field out input]).getLast? =
      some (plant.entry field out input) := by simp
  have hseen := answered_released hanswer (by rw [h.caps_eq]; exact hclear) hreleased
  rw [hlog]
  obtain hfresh | ⟨hfresh, hagain, himage, hage⟩ := hseen
  · refine ⟨⟨_, hlatest, ?_⟩, ⟨_, ?_, hreleased⟩⟩
    · rw [lastHeard_concat, Exchanged.heard, if_pos (by simp [hfresh]), Nat.sub_self]
      exact htimeout
    · rw [lastFresh_concat, Exchanged.fresh, if_pos (by simp [hfresh])]
  · refine ⟨⟨_, hlatest, ?_⟩, ?_⟩
    · rw [lastHeard_concat, Exchanged.heard, if_neg (by simp [hfresh, hagain])]
      rw [plcStalenessAgeUs_eq_sub h.origin_eq h.positive, h.caps_eq] at hage
      exact hage
    · rw [lastFresh_concat, Exchanged.fresh, if_neg (by simp [hfresh])]
      rw [himage, h.held_eq] at hreleased
      exact released_of_freshImage hreleased

end Exchange

/-- A plant whose link was just opened. -/
def Plant.openedWith (adapter : Adapter) (whole : adapter.Whole) : Plant where
  adapter := adapter
  whole := whole
  log := []
  demo := .zeroed

/-- A just opened adapter is whole and stands at the start of its log. -/
theorem opened_whole {openedUs : ℕ} {adapter : Adapter} (hopened : Opened openedUs adapter) :
    adapter.Whole := by
  cases hopened with
  | loopback caps forceTimeouts =>
      exact ⟨caps.input_le.trans List.length_replicate.ge, List.length_replicate⟩
  | eip caps => exact ⟨caps.input_le.trans List.length_replicate.ge, trivial⟩
  | scanner caps => exact ⟨caps.input_le.trans List.length_replicate.ge, trivial⟩

theorem opened_stands {openedUs : ℕ} {adapter : Adapter} (hopened : Opened openedUs adapter)
    (hpositive : 0 < openedUs) :
    (Plant.openedWith adapter (opened_whole hopened)).Stands adapter.record.caps openedUs := by
  have hzeros : ∀ {size room : ℕ}, size ≤ room →
      (List.replicate room (0 : Byte)).take size = List.replicate size 0 := by
    intro size room hroom
    rw [List.take_replicate, Nat.min_eq_left hroom]
  cases hopened with
  | loopback caps forceTimeouts => exact ⟨rfl, nofun, hzeros caps.input_le, rfl, hpositive⟩
  | eip caps => exact ⟨rfl, nofun, hzeros caps.input_le, rfl, hpositive⟩
  | scanner caps => exact ⟨rfl, nofun, hzeros caps.input_le, rfl, hpositive⟩

/-! ## A scan of the plant -/

theorem plcPiGetBit_byte {pi : ProcessImage} {area : PlcArea} {byte bit : ℕ} (hbit : bit < 8) :
    plcPiGetBit pi area byte bit = readBit ((pi.area area).getD byte 0) bit := by
  by_cases hbyte : byte < plcPiAreaSize pi area
  · exact plcPiGetBit_eq hbyte hbit
  · have hnone : slot pi area byte 1 = none := by
      rw [slot, if_pos (by omega)]
    rw [plcPiGetBit, hnone, List.getD_eq_default _ _ (Nat.le_of_not_lt hbyte), readBit_zero]

/-- The motor runs only with STOP released. -/
theorem demoProgram_motor {ctx : PouCtx} {pi : ProcessImage} {st : DemoState}
    (hmotor : plcPiGetBit (demoProgram.fn ctx pi st).1 .q 0 0 = true) :
    plcPiGetBit pi .i 0 1 = true := by
  have hsize : 0 < plcPiAreaSize pi .q := by
    by_contra hempty
    rw [plcPiGetBit_byte (by decide), List.getD_eq_default, readBit_zero] at hmotor
    · cases hmotor
    · exact (demoProgram.size_fn ctx pi st .q).le.trans (Nat.le_of_not_lt hempty)
  have hlatch : plcPiGetBit (demoProgram.fn ctx pi st).1 .q 0 0 =
      (demoProgram.fn ctx pi st).2.running.Q1 := by
    show plcPiGetBit (demoOutputs pi _) .q 0 0 = _
    rw [demoOutputs, plcPiGetBit_setWord (by decide) _ (by decide),
      plcPiGetBit_setBit (by rwa [plcPiAreaSize_setBit]) (by decide) (by decide),
      if_neg (by decide), plcPiGetBit_setBit hsize (by decide) (by decide), if_pos rfl]
    rfl
  rw [hlatch] at hmotor
  simp only [demoProgram, demoBlocks, plcRsRun, Bool.not_not, Bool.and_eq_true] at hmotor
  exact hmotor.1

section Scan

variable {field : Field} {caps : AdapterCaps}

/-- The binding of the link: the first one, so both its slices start at zero. -/
def linkBinding (field : Field) (caps : AdapterCaps) : IoBinding (Plant × ρ) where
  adapter := linkAdapter field caps
  iOffset := 0
  qOffset := 0
  caps := ⟨plcAdapterAbiVersion, caps.inputBytes, caps.outputBytes⟩

/-- A binding that does not touch the plant. -/
def Beside (binding : IoBinding (Plant × ρ)) : Prop :=
  ∃ other, binding.adapter = besideAdapter other

theorem scanBinding_beside {qShadow : List Byte} {binding : IoBinding (Plant × ρ)}
    (h : Beside binding) (io : IoPhase (Plant × ρ)) :
    (scanBinding qShadow io binding).world.1 = io.world.1 := by
  obtain ⟨other, hadapter⟩ := h
  simp only [scanBinding, plcAdapterExchange]
  split_ifs
  · rfl
  · simp [ExchangeCall.answer, hadapter, besideAdapter]
  · rfl
  · simp [ExchangeCall.answer, hadapter, besideAdapter]

/-- The rest of the input phase leaves the plant alone and only adds calls. -/
theorem foldl_scanBinding_beside (qShadow : List Byte) {rest : List (IoBinding (Plant × ρ))}
    (h : ∀ binding ∈ rest, Beside binding) (io : IoPhase (Plant × ρ)) :
    (rest.foldl (scanBinding qShadow) io).world.1 = io.world.1 ∧
      ∃ more, (rest.foldl (scanBinding qShadow) io).calls = io.calls ++ more := by
  induction rest generalizing io with
  | nil => exact ⟨rfl, [], (List.append_nil _).symm⟩
  | cons binding others ih =>
      obtain ⟨hfirst, hothers⟩ := List.forall_mem_cons.mp h
      obtain ⟨hworld, more, hcalls⟩ := ih hothers (scanBinding qShadow io binding)
      exact ⟨hworld.trans (scanBinding_beside hfirst io), _,
        hcalls.trans (List.append_assoc ..)⟩

/-- A runtime as `main` leaves it: the link bound first, and the program alone. -/
structure OfPlant (field : Field) (caps : AdapterCaps) (rt : Runtime (Plant × ρ)) : Prop where
  bindings : ∃ rest, rt.bindings = linkBinding field caps :: rest ∧ ∀ binding ∈ rest, Beside binding
  programs : rt.programs = [plantProgram]
  goesOn : rt.cfg.continueOnIoFault = true

variable {rt : Runtime (Plant × ρ)} {iEnd qEnd : ℕ}

/-- What the link is handed: its slices of the latched outputs and of `%I`. -/
def linkOut (caps : AdapterCaps) (rt : Runtime (Plant × ρ)) : List Byte :=
  slice rt.qShadow 0 caps.outputBytes

def linkInput (caps : AdapterCaps) (rt : Runtime (Plant × ρ)) : List Byte :=
  slice (rt.pi.area .i) 0 caps.inputBytes

/-- The input phase makes one exchange of the link, and `%I` starts with its image. -/
theorem OfPlant.scanIo (h : OfPlant field caps rt) (hlaid : LaidOut iEnd qEnd rt)
    (hshadow : rt.qShadow.length = plcPiAreaSize rt.pi .q) (world : Plant × ρ) :
    (SoftPlc.scanIo rt world).world.1 =
        world.1.exchange field (linkOut caps rt) (linkInput caps rt) ∧
      slice (SoftPlc.scanIo rt world).inputs 0 caps.inputBytes =
        (world.1.entry field (linkOut caps rt) (linkInput caps rt)).image := by
  obtain ⟨rest, hbindings, hrest⟩ := h.bindings
  let start : IoPhase (Plant × ρ) := ⟨.ok, rt.pi.area .i, world, []⟩
  have hfirst := @scanBinding_eq _ rt.qShadow (linkBinding field caps) (Nat.zero_le _) start
  have hio : SoftPlc.scanIo rt world =
      rest.foldl (scanBinding rt.qShadow)
        (scanBinding rt.qShadow start (linkBinding field caps)) := by
    rw [SoftPlc.scanIo, hbindings]
    rfl
  obtain ⟨hworld, more, hcalls⟩ := foldl_scanBinding_beside rt.qShadow hrest
    (scanBinding rt.qShadow start (linkBinding field caps))
  rw [← hio, hfirst] at hworld hcalls
  refine ⟨hworld, ?_⟩
  have hmem : dueCall rt.qShadow start (linkBinding field caps) ∈
      (SoftPlc.scanIo rt world).calls := by
    rw [hcalls]
    simp
  exact (scanIo_contract hlaid hshadow world).filled _ hmem

/-- No fault aborts a scan of the plant. -/
theorem OfPlant.not_aborts (h : OfPlant field caps rt) (world : Plant × ρ) :
    ¬ (SoftPlc.scanIo rt world).Aborts rt.cfg := by
  intro habort
  rw [IoPhase.Aborts, h.goesOn] at habort
  cases habort.2

theorem OfPlant.scanOnce (h : OfPlant field caps rt) (t0 t1 : ℤ) (world : Plant × ρ) :
    plcRuntimeScanOnce rt t0 t1 world =
      scanExecute (scanInput rt t0 (SoftPlc.scanIo rt world)) t0 t1 (SoftPlc.scanIo rt world) :=
  scanOnce_executed rt t0 t1 world (h.not_aborts world)

/-- What a scan does to the plant: one exchange, and then the program. -/
theorem OfPlant.world_scanOnce (h : OfPlant field caps rt) (hlaid : LaidOut iEnd qEnd rt)
    (hshadow : rt.qShadow.length = plcPiAreaSize rt.pi .q) (t0 t1 : ℤ) (world : Plant × ρ) :
    ∃ demo, (plcRuntimeScanOnce rt t0 t1 world).world.1 =
      { world.1.exchange field (linkOut caps rt) (linkInput caps rt) with demo := demo } := by
  obtain ⟨hworld, -⟩ := h.scanIo hlaid hshadow world
  rw [h.scanOnce, ← hworld]
  simp only [scanExecute, scanInput, h.programs, runPrograms]
  exact ⟨_, rfl⟩

/-- A scan that leaves the motor on saw STOP released in the image of its exchange. -/
theorem OfPlant.released (h : OfPlant field caps rt) (hlaid : LaidOut iEnd qEnd rt)
    (hshadow : rt.qShadow.length = plcPiAreaSize rt.pi .q) (hbytes : 0 < caps.inputBytes)
    {t0 t1 : ℤ} {world : Plant × ρ}
    (hmotor : plcPiGetBit (plcRuntimeScanOnce rt t0 t1 world).rt.pi .q 0 0 = true) :
    readBit ((world.1.entry field (linkOut caps rt) (linkInput caps rt)).image.getD 0 0) 1 =
      true := by
  obtain ⟨-, himage⟩ := h.scanIo hlaid hshadow world
  rw [h.scanOnce] at hmotor
  simp only [scanExecute, scanInput, h.programs, runPrograms] at hmotor
  have hseen := demoProgram_motor hmotor
  rw [plcPiGetBit_byte (by decide)] at hseen
  have hfirst : (slice (SoftPlc.scanIo rt world).inputs 0 caps.inputBytes).getD 0 0 =
      (SoftPlc.scanIo rt world).inputs.getD 0 0 := by
    rw [slice, List.drop_zero, List.getD_eq_getElem?_getD, List.getElem?_take_of_lt hbytes,
      List.getD_eq_getElem?_getD]
  rw [← himage, hfirst]
  simpa only [Function.update_self] using hseen

end Scan

/-! ## Whole runs -/

/-- What stays true of a session with the plant. -/
structure PlantSession (field : Field) (caps : AdapterCaps) (openedUs : ℕ)
    (rt : Runtime (Plant × ρ)) (s : Session (Plant × ρ)) : Prop where
  sound : s.Sound rt
  programs : s.rt.programs = [plantProgram]
  stands : s.world.1.Stands caps openedUs
  motor : readBit (s.rt.qShadow.getD 0 0) 0 = true → LiveLink caps openedUs s.world.1.log
  scans : s.world.1.log.length = s.scans.length

section Session

variable {field : Field} {caps : AdapterCaps} {openedUs iEnd qEnd : ℕ}
  {rt : Runtime (Plant × ρ)} {s : Session (Plant × ρ)}

theorem PlantSession.ofPlant (h : PlantSession field caps openedUs rt s)
    (hplant : OfPlant field caps rt) : OfPlant field caps s.rt where
  bindings := h.sound.bindings ▸ hplant.bindings
  programs := h.programs
  goesOn := h.sound.cfg ▸ hplant.goesOn

theorem PlantSession.scan (h : PlantSession field caps openedUs rt s)
    (hplant : OfPlant field caps rt) (hlaid : LaidOut iEnd qEnd rt)
    (hfits : caps.inputBytes ≤ plcPiAreaSize rt.pi .i) (hclear : caps.failsafePolicy = .clear)
    (htimeout : 0 < caps.failsafeTimeoutUs) (hbytes : 0 < caps.inputBytes) (t0 t1 : ℤ) :
    PlantSession field caps openedUs rt (s.step (.scan t0 t1)) := by
  have hplantNow := h.ofPlant hplant
  have hlaidNow := h.sound.laidOut hlaid
  have hshadow := h.sound.shadow_size
  have hout : (linkOut caps s.rt).length ≤ caps.outputBytes := List.length_take_le ..
  have hinput : (linkInput caps s.rt).length = caps.inputBytes := by
    rw [linkInput, slice, List.drop_zero, List.length_take_of_le]
    exact hfits.trans (h.sound.size .i).ge
  obtain ⟨demo, hworld⟩ := hplantNow.world_scanOnce hlaidNow hshadow t0 t1 s.world
  have hsound := h.sound.step hlaid (.scan t0 t1)
  have hexchange := h.stands.exchange field hout hinput
  constructor
  case sound => exact hsound
  case programs =>
    show (plcRuntimeScanOnce s.rt t0 t1 s.world).rt.programs = _
    rw [hplantNow.scanOnce]
    exact h.programs
  case stands =>
    show (plcRuntimeScanOnce s.rt t0 t1 s.world).world.1.Stands caps openedUs
    rw [hworld]
    exact { hexchange with }
  case motor =>
    intro hmotor
    show LiveLink caps openedUs (plcRuntimeScanOnce s.rt t0 t1 s.world).world.1.log
    rw [hworld]
    refine h.stands.liveLink field hout hinput hclear htimeout ?_
    have hdone := (scanOnce_completed s.rt t0 t1 s.world).mpr (hplantNow.not_aborts s.world)
    have hlatch := scanOnce_qShadow t0 t1 s.world (scanIo_length hlaidNow hshadow s.world) hshadow
    rw [if_pos hdone] at hlatch
    have hon : plcPiGetBit (plcRuntimeScanOnce s.rt t0 t1 s.world).rt.pi .q 0 0 = true := by
      rw [plcPiGetBit_byte (by decide), ← hlatch]
      exact hmotor
    exact hplantNow.released hlaidNow hshadow hbytes hon
  case scans =>
    show (plcRuntimeScanOnce s.rt t0 t1 s.world).world.1.log.length = _
    rw [hworld]
    show (s.world.1.log ++ [_]).length = (s.scans ++ [_]).length
    simp [h.scans]

theorem PlantSession.run (h : PlantSession field caps openedUs rt s)
    (hplant : OfPlant field caps rt) (hlaid : LaidOut iEnd qEnd rt)
    (hfits : caps.inputBytes ≤ plcPiAreaSize rt.pi .i) (hclear : caps.failsafePolicy = .clear)
    (htimeout : 0 < caps.failsafeTimeoutUs) (hbytes : 0 < caps.inputBytes)
    (acts : List SessionAct) :
    PlantSession field caps openedUs rt (acts.foldl Session.step s) := by
  induction acts generalizing s with
  | nil => exact h
  | cons act rest ih =>
      apply ih
      cases act with
      | scan t0 t1 => exact h.scan hplant hlaid hfits hclear htimeout hbytes t0 t1
      | access access =>
          exact ⟨h.sound.step hlaid (.access access), h.programs, h.stands, h.motor, h.scans⟩

end Session

/-- Binding further adapters only appends bindings of those adapters. -/
theorem mainLayout_appends {ω : Type} (rt : Runtime ω) (iOffset qOffset : ℕ)
    (adapters : List (ProtocolAdapter ω)) :
    ∃ more, (mainLayout rt iOffset qOffset adapters).1.bindings = rt.bindings ++ more ∧
      ∀ binding ∈ more, binding.adapter ∈ adapters := by
  induction adapters generalizing rt iOffset qOffset with
  | nil => exact ⟨[], (List.append_nil _).symm, nofun⟩
  | cons adapter rest ih =>
      rw [mainLayout]
      split
      next bound hbind =>
          obtain ⟨more, hmore, hof⟩ := ih bound (iOffset + adapter.getCaps.2.inputBytes)
            (qOffset + adapter.getCaps.2.outputBytes)
          obtain ⟨rfl, -, -⟩ := plcRuntimeBindAdapter_eq_ok hbind
          refine ⟨_, hmore.trans (List.append_assoc ..), ?_⟩
          refine List.forall_mem_append.mpr ⟨?_, ?_⟩
          · exact List.forall_mem_singleton.mpr List.mem_cons_self
          · exact fun binding hbinding => List.mem_cons_of_mem _ (hof binding hbinding)
      next unbound status hstatus hbind =>
          obtain rfl := plcRuntimeBindAdapter_ne_ok hstatus hbind
          exact ⟨[], (List.append_nil _).symm, nofun⟩

/-- The runtime that `main` sets up, if the link can be bound. -/
def plantRuntime (field : Field) (caps : AdapterCaps) (others : List (ProtocolAdapter ρ))
    (cycleUs : ℕ) : Runtime (Plant × ρ) :=
  mainRuntime (mainConfig cycleUs) (plantAdapters field caps others) [plantProgram]

/-- The images of the link fit the areas. -/
structure LinkFits (caps : AdapterCaps) : Prop where
  input_le : caps.inputBytes ≤ plcRuntimeConfigInit.iBytes
  output_le : caps.outputBytes ≤ plcRuntimeConfigInit.qBytes

/-- The link is bound at the start of both areas. -/
theorem bind_link (field : Field) {caps : AdapterCaps} (hfits : LinkFits caps) (cycleUs : ℕ) :
    plcRuntimeBindAdapter (plcRuntimeCreate (mainConfig cycleUs)) (linkAdapter field caps) 0 0 =
      (({ plcRuntimeCreate (mainConfig cycleUs) with bindings := [linkBinding field caps] } :
        Runtime (Plant × ρ)), .ok) := by
  have hinput := hfits.input_le
  have houtput := hfits.output_le
  have hi : plcPiAreaSize (plcRuntimeCreate (mainConfig cycleUs) : Runtime (Plant × ρ)).pi .i =
      plcRuntimeConfigInit.iBytes := List.length_replicate
  have hq : plcPiAreaSize (plcRuntimeCreate (mainConfig cycleUs) : Runtime (Plant × ρ)).pi .q =
      plcRuntimeConfigInit.qBytes := List.length_replicate
  have hcount : ¬ plcMaxBindings ≤
      (plcRuntimeCreate (mainConfig cycleUs) : Runtime (Plant × ρ)).bindings.length :=
    Nat.not_succ_le_zero _
  simp only [plcRuntimeBindAdapter, linkAdapter, hi, hq]
  rw [if_neg hcount, if_neg (by decide), if_neg (by decide), if_neg (by omega),
    if_neg (by omega)]
  rfl

theorem plantRuntime_ofPlant (field : Field) {caps : AdapterCaps} (hfits : LinkFits caps)
    (others : List (ProtocolAdapter ρ)) (cycleUs : ℕ) :
    OfPlant field caps (plantRuntime field caps others cycleUs) := by
  let created : Runtime (Plant × ρ) := plcRuntimeCreate (mainConfig cycleUs)
  let adapters := (plantAdapters field caps others).take plcMaxBindings
  have hempty : LaidOut 0 0 created :=
    ⟨trivial, trivial, rfl, rfl, Nat.zero_le _, Nat.zero_le _⟩
  obtain ⟨-, -, bindings, -, hlayout⟩ := mainLayout_laidOut hempty adapters
  have hbound : ∃ rest, bindings = linkBinding field caps :: rest ∧
      ∀ binding ∈ rest, Beside binding := by
    obtain ⟨more, hmore, hof⟩ := mainLayout_appends
      { created with bindings := [linkBinding field caps] } (0 + caps.inputBytes)
      (0 + caps.outputBytes) ((others.map besideAdapter).take (plcMaxBindings - 1))
    refine ⟨more, ?_, ?_⟩
    · have hstep : mainLayout created 0 0 adapters =
          mainLayout { created with bindings := [linkBinding field caps] } (0 + caps.inputBytes)
            (0 + caps.outputBytes) ((others.map besideAdapter).take (plcMaxBindings - 1)) := by
        show mainLayout created 0 0 (linkAdapter field caps :: _) = _
        rw [mainLayout, bind_link field hfits cycleUs]
        rfl
      rw [hstep] at hlayout
      rw [hlayout] at hmore
      exact hmore
    · intro binding hbinding
      obtain ⟨other, -, hother⟩ :=
        List.mem_map.mp (List.mem_of_mem_take (hof binding hbinding))
      exact ⟨other, hother.symm⟩
  have hruntime : plantRuntime field caps others cycleUs =
      { created with bindings := bindings, programs := [plantProgram] } := by
    show (plcRuntimeAddProgram (mainLayout created 0 0 adapters).1 plantProgram).1 = _
    rw [hlayout]
    rfl
  rw [hruntime]
  exact ⟨hbound, rfl, rfl⟩

/-- A run of the plant from when its link was opened. -/
def plantRun {openedUs : ℕ} {adapter : Adapter} (hopened : Opened openedUs adapter)
    (field : Field) (others : List (ProtocolAdapter ρ)) (cycleUs : ℕ) (beside : ρ)
    (acts : List SessionAct) : Session (Plant × ρ) :=
  acts.foldl Session.step
    (Session.start (plantRuntime field adapter.record.caps others cycleUs)
      (Plant.openedWith adapter (opened_whole hopened), beside))

/-- **The motor needs a live link.** Take the runtime as `main` sets it up, with an
adapter of any kind, just opened under CLEAR, bound first. After any scans and any
accesses between them, if the outputs that the next scan hands to the field command
the motor, then the link was heard from within the failsafe time before its latest
exchange, which was made in the latest scan, and the last fresh image had STOP
released. -/
theorem motor_needs_live_link {openedUs : ℕ} (hpositive : 0 < openedUs) {adapter : Adapter}
    (hopened : Opened openedUs adapter) (hclear : adapter.record.caps.failsafePolicy = .clear)
    (htimeout : 0 < adapter.record.caps.failsafeTimeoutUs)
    (hbytes : 0 < adapter.record.caps.inputBytes) (hfits : LinkFits adapter.record.caps)
    (field : Field) (others : List (ProtocolAdapter ρ)) (cycleUs : ℕ) (beside : ρ)
    (acts : List SessionAct) :
    let s := plantRun hopened field others cycleUs beside acts
    s.world.1.log.length = s.scans.length ∧
      (readBit (s.rt.qShadow.getD 0 0) 0 = true →
        LiveLink adapter.record.caps openedUs s.world.1.log) := by
  intro s
  let rt := plantRuntime field adapter.record.caps others cycleUs
  have hplant : OfPlant field adapter.record.caps rt :=
    plantRuntime_ofPlant field hfits others cycleUs
  obtain ⟨⟨iEnd, qEnd, hlaid⟩, -, hpi, hshadow⟩ := mainRuntime_laidOut (mainConfig cycleUs)
    (plantAdapters field adapter.record.caps others) [plantProgram]
  have hstart : PlantSession field adapter.record.caps openedUs rt
      (Session.start rt (Plant.openedWith adapter (opened_whole hopened), beside)) := by
    constructor
    case sound => exact mainRuntime_sound ..
    case programs => exact hplant.programs
    case stands => exact opened_stands hopened hpositive
    case motor =>
      intro hmotor
      have hzeros : rt.qShadow = List.replicate (mainConfig cycleUs).qBytes 0 := hshadow
      rw [Session.start, hzeros, readBit_replicate_zero] at hmotor
      cases hmotor
    case scans => rfl
  have hinput : adapter.record.caps.inputBytes ≤ plcPiAreaSize rt.pi .i := by
    have hsize : plcPiAreaSize rt.pi .i = plcRuntimeConfigInit.iBytes := by
      show ((plantRuntime field adapter.record.caps others cycleUs).pi.area .i).length = _
      rw [plantRuntime, hpi]
      exact List.length_replicate
    exact hfits.input_le.trans hsize.ge
  have hrun := hstart.run hplant hlaid hinput hclear htimeout hbytes acts
  exact ⟨hrun.scans, hrun.motor⟩

/-- A field that reports START and STOP released, and falls silent after two
exchanges. -/
def fallingSilent : Field where
  times k := ⟨0, 0, 1000 * (k * k + 1)⟩
  peer k :=
    if k < 2 then .replies { seq := 1, len := 2, flags := 0, data := [3, 0] } 0
    else .silent .timeout
  hook _ := none
  framed k frame devicesOnline hpeer := by
    split_ifs at hpeer
    cases hpeer
    decide
  positive k := Nat.mul_pos (by decide) (Nat.succ_pos _)

/-- Three scans, half a second and more after the first. -/
def threeScans : List SessionAct :=
  [.scan 0 1000, .scan 600000000 600001000, .scan 610000000 610001000]

theorem pairProxy_opened : Opened 100 pairProxy := .eip pairProxyCaps

/-- The motor has started, and one missed exchange inside the window does not stop it. -/
theorem motor_needs_live_link_fallingSilent :
    readBit ((plantRun pairProxy_opened fallingSilent [] 10000 () threeScans).rt.qShadow.getD 0 0)
        0 = true ∧
      LiveLink pairProxy.record.caps 100
        (plantRun pairProxy_opened fallingSilent [] 10000 () threeScans).world.1.log := by
  have hmotor : readBit ((plantRun pairProxy_opened fallingSilent [] 10000 ()
      threeScans).rt.qShadow.getD 0 0) 0 = true := by decide +kernel
  obtain ⟨-, hlive⟩ := motor_needs_live_link (by decide) pairProxy_opened rfl (by decide)
    (by decide) ⟨by decide, by decide⟩ fallingSilent [] 10000 () threeScans
  exact ⟨hmotor, hlive hmotor⟩

end SoftPlc.App
