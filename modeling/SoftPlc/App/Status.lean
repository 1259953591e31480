/-
# The health probe

`softplc --status` reads a few words of the region a running instance publishes and
turns them into an exit code. The words are the stack process's: it stores its state
as it starts and stops, and after each service the number of connections it has.
Nobody else writes them and nobody takes them back, so they say what was true when
they were stored.

The site is one core, the stack process of either role from its start to its end,
the probe, and the traffic that opens and closes connections meanwhile, each load
and store as one step. What the probe should report is read off the traffic: for the
adapter the connections that are open, for the scanner whether every wire delivers.
-/

import SoftPlc.Opener.Service
import SoftPlc.Scanner.Station

namespace SoftPlc.App

open SoftPlc.Math

/-- The role of the instance, with the configuration of its stack process. -/
inductive Role
  | adapter (cfg : Opener.BackendConfig)
  | scanner (cfg : Scanner.ScannerConfig)

/-- The backend of a stack process. The call-backs of the adapter's are history. -/
inductive Stack
  | adapter (backend : Opener.Backend) (history : List Opener.Callback)
  | scanner (backend : Scanner.Backend)

/-- What a backend does while the service loop goes on. -/
inductive Traffic
  | adapter (callback : Opener.Callback)
  | scanner (act : Scanner.Act)

/-- `init` of either backend, when it succeeds. -/
def Role.init : Role → Stack
  | .adapter _ => .adapter .start []
  | .scanner cfg => .scanner (Scanner.scannerInit cfg)

def Stack.move (role : Role) : Stack → Traffic → Option Stack
  | .adapter backend history, .adapter callback =>
      match role with
      | .adapter cfg =>
          if Opener.Allowed cfg history callback then
            some (.adapter (callback.run cfg backend) (history ++ [callback]))
          else none
      | .scanner _ => none
  | .scanner backend, .scanner act => (backend.step act).map .scanner
  | _, _ => none

/-- What a service does to the backend: `publish_outputs` or `exchange_images`. -/
def Stack.exchange (out : List Byte) : Stack → Stack
  | .adapter backend history => .adapter (Opener.openerPublish backend out out.length) history
  | .scanner backend => .scanner (Scanner.scannerExchange backend out ⟨[], []⟩).1

/-- `io_connections` or `devices_online`. -/
def Stack.count : Stack → ℕ
  | .adapter backend _ => backend.ioConnections
  | .scanner backend => Scanner.scannerOnline backend

/-- The rule of the probe for a count: some connection, or all of the devices, whose
number the core has published. -/
def Role.allUp : Role → ℕ → Bool
  | .adapter _, count => 0 < count
  | .scanner cfg, count => cfg.devices.length ≠ 0 && count = cfg.devices.length

/-! ## The site -/

/-- The core up to the close: the region is named, then announced by its magic word,
then gone. -/
inductive CoreStage
  | starting
  | created
  | announced
  | closed
  deriving DecidableEq, Repr

/-- The next call of the stack process. -/
inductive StackStage
  | absent
  | attaching
  | storeOpening
  | init
  | storeFaulted
  | startThread
  | storeOnline
  | wait
  | pop
  | exchange (out : List Byte)
  | count
  | storeCount (count : ℕ)
  | storeClosed
  | shutdown
  | ended
  deriving DecidableEq, Repr

/-- The next call of the probe, and what it has loaded. -/
inductive ProbeStage
  | map
  | loadMagic
  | loadState
  | loadCount (state : AdapterState)
  | exit (code : ℕ)
  deriving DecidableEq, Repr

/-- The status words. -/
structure StatusWords where
  ready : Bool
  state : AdapterState
  count : ℕ
  deriving DecidableEq, Repr

structure Site where
  core : CoreStage
  words : StatusWords
  stage : StackStage
  backend : Option Stack
  probe : ProbeStage

/-- How a call of the stack process ends. A wait may time out, and a pop may find
nothing or a malformed frame; a stop request and an idle core end the loop as a
failure of the wait does. -/
inductive Outcome
  | done
  | again
  | failed
  | request (out : List Byte)
  deriving DecidableEq, Repr

inductive Act
  | core
  | spawn
  | stack (outcome : Outcome)
  | kill
  | traffic (traffic : Traffic)
  | probe

namespace Site

def start : Site :=
  { core := .starting
    words := ⟨false, .closed, 0⟩
    stage := .absent
    backend := none
    probe := .map }

/-- `proxy_open` and the close. -/
def coreStep (s : Site) : Option Site :=
  match s.core with
  | .starting => some { s with core := .created }
  | .created => some { s with core := .announced, words := { s.words with ready := true } }
  | .announced => some { s with core := .closed }
  | .closed => none

/-- `main` of the stack process. -/
def stackStep (role : Role) (s : Site) : Outcome → Option Site
  | .done =>
      match s.stage with
      | .attaching => if s.core = .announced then some { s with stage := .storeOpening } else none
      | .storeOpening =>
          some { s with words := { s.words with state := .opening }, stage := .init }
      | .init =>
          match role with
          | .adapter _ => some { s with backend := role.init, stage := .storeOnline }
          | .scanner _ => some { s with backend := role.init, stage := .startThread }
      | .storeFaulted =>
          some { s with words := { s.words with state := .faulted }, stage := .shutdown }
      | .startThread => some { s with stage := .storeOnline }
      | .storeOnline => some { s with words := { s.words with state := .online }, stage := .wait }
      | .wait => some { s with stage := .pop }
      | .exchange out =>
          some { s with backend := s.backend.map (Stack.exchange out), stage := .count }
      | .count => s.backend.map fun stack => { s with stage := .storeCount stack.count }
      | .storeCount count =>
          some { s with words := { s.words with count := count }, stage := .wait }
      | .storeClosed =>
          some { s with words := { s.words with state := .closed }, stage := .shutdown }
      | .shutdown => some { s with backend := none, stage := .ended }
      | .absent | .pop | .ended => none
  | .again =>
      match s.stage with
      | .wait | .pop => some { s with stage := .wait }
      | _ => none
  | .failed =>
      match s.stage with
      | .attaching => some { s with stage := .ended }
      | .init => some { s with stage := .storeFaulted }
      | .startThread => some { s with stage := .shutdown }
      | .wait => some { s with stage := .storeClosed }
      | _ => none
  | .request out =>
      match s.stage with
      | .pop => some { s with stage := .exchange out }
      | _ => none

/-- `print_adapter` and `print_scanner`. The words other than these three are only
printed. -/
def probeStep (role : Role) (s : Site) : Site :=
  match s.probe with
  | .map =>
      if s.core = .created ∨ s.core = .announced then { s with probe := .loadMagic }
      else { s with probe := .exit 4 }
  | .loadMagic => { s with probe := if s.words.ready then .loadState else .exit 3 }
  | .loadState => { s with probe := .loadCount s.words.state }
  | .loadCount state =>
      { s with
        probe := .exit (if state = .online ∧ role.allUp s.words.count = true then 0 else 3) }
  | .exit _ => { s with probe := .map }

def step (role : Role) (s : Site) : Act → Option Site
  | .core => s.coreStep
  | .spawn =>
      match s.stage with
      | .absent => some { s with stage := .attaching }
      | _ => none
  | .stack outcome => s.stackStep role outcome
  | .kill =>
      match s.stage with
      | .absent | .ended => none
      | _ => some { s with stage := .ended, backend := none }
  | .traffic traffic =>
      (s.backend.bind fun stack => stack.move role traffic).map
        fun stack => { s with backend := some stack }
  | .probe => some (s.probeStep role)

end Site

/-! ## What the traffic says -/

/-- **Serving.** The adapter has an I/O connection; the wire of every device of the
scanner delivers. -/
def Stack.Serving : Stack → Prop
  | .adapter _ history => Opener.openConnections history ≠ []
  | .scanner backend => ∀ line ∈ backend.lines, line.wire.Delivering

/-- The backend is what its traffic made it. -/
def Stack.Sound (role : Role) : Stack → Prop
  | .adapter backend history =>
      match role with
      | .adapter cfg => Opener.Mirrors cfg backend history
      | .scanner _ => False
  | .scanner backend =>
      match role with
      | .adapter _ => False
      | .scanner cfg => backend.Reached cfg

/-- The traffic that ends a service: the last connection of the adapter ends, or a
connection of the scanner closes. -/
def Stack.Loses : Stack → Traffic → Prop
  | .adapter _ history, .adapter (.closed connection) =>
      Opener.openConnections history = [connection]
  | .adapter _ history, .adapter (.timedOut connection) =>
      Opener.openConnections history = [connection]
  | .scanner _, .scanner (.close _ _) => True
  | _, _ => False

namespace Stack.Sound

variable {role : Role} {stack next : Stack}

theorem init (role : Role) : role.init.Sound role := by
  cases role with
  | adapter cfg => exact .start cfg
  | scanner cfg => exact ⟨[], rfl⟩

/-- A sound stack is of its role. -/
@[elab_as_elim]
theorem byRole {motive : ∀ role stack, Stack.Sound role stack → Prop}
    (adapter : ∀ cfg backend history (h : Opener.Mirrors cfg backend history),
      motive (.adapter cfg) (.adapter backend history) h)
    (scanner : ∀ cfg backend (h : Scanner.Backend.Reached cfg backend),
      motive (.scanner cfg) (.scanner backend) h)
    (h : stack.Sound role) : motive role stack h := by
  cases stack with
  | adapter backend history =>
      cases role with
      | adapter cfg => exact adapter cfg backend history h
      | scanner cfg => exact h.elim
  | scanner backend =>
      cases role with
      | adapter cfg => exact h.elim
      | scanner cfg => exact scanner cfg backend h

/-- A count that satisfies the probe is the count of a stack that serves. -/
theorem serving_of_allUp (h : stack.Sound role) (hup : role.allUp stack.count = true) :
    stack.Serving := by
  induction h using byRole with
  | adapter cfg backend history hmirrors =>
      have hcount : 0 < backend.ioConnections := of_decide_eq_true hup
      rw [hmirrors.count] at hcount
      exact List.ne_nil_of_length_pos hcount
  | scanner cfg backend hreached =>
      have hcount : Scanner.scannerOnline backend = cfg.devices.length := by
        simp only [Role.allUp, Bool.and_eq_true] at hup
        exact of_decide_eq_true hup.2
      have hdevices : backend.devices.length = cfg.devices.length := by
        rw [← hreached.sized.cfg_eq, ← hreached.sized.table, List.length_map]
      have honline : ∀ device ∈ backend.devices, Scanner.isOnline device = true := by
        rw [Scanner.scannerOnline, ← hdevices, List.countP_eq_length] at hcount
        exact hcount
      intro line hline
      apply (hreached.sound.lines line hline).isOnline_iff.mp
      exact honline line.device (List.mem_map_of_mem hline)

theorem exchange (h : stack.Sound role) (out : List Byte) : (stack.exchange out).Sound role := by
  induction h using byRole with
  | adapter cfg backend history hmirrors =>
      exact ⟨hmirrors.count, hmirrors.run, hmirrors.room, hmirrors.held, hmirrors.snapshot⟩
  | scanner cfg backend hreached =>
      have hstep : backend.step (.exchange out ⟨[], []⟩) =
          some (Scanner.scannerExchange backend out ⟨[], []⟩).1 := rfl
      exact hreached.step hstep

theorem move (h : stack.Sound role) {traffic : Traffic}
    (hmove : stack.move role traffic = some next) : next.Sound role := by
  induction h using byRole with
  | adapter cfg backend history hmirrors =>
      cases traffic with
      | scanner act => cases hmove
      | adapter callback =>
          simp only [Stack.move] at hmove
          split_ifs at hmove with hallowed
          cases hmove
          exact hmirrors.callback hallowed
  | scanner cfg backend hreached =>
      cases traffic with
      | adapter callback => cases hmove
      | scanner act =>
          obtain ⟨after, hstep, rfl⟩ := Option.map_eq_some_iff.mp hmove
          exact hreached.step hstep

end Stack.Sound

/-! ## What keeps a stack serving -/

theorem Stack.exchange_serving {stack : Stack} (h : stack.Serving) (out : List Byte) :
    (stack.exchange out).Serving := by
  cases stack with
  | adapter backend history => exact h
  | scanner backend =>
      intro line hline
      obtain ⟨before, hbefore, rfl⟩ := List.mem_map.mp hline
      exact h before hbefore

theorem handOver_delivering {line : Scanner.Line} (h : line.wire.Delivering) :
    (Scanner.handOver line).wire.Delivering := by
  obtain ⟨link, hlink, haccepted⟩ := h
  unfold Scanner.handOver
  split_ifs
  · rw [hlink]
    exact ⟨{ link with sending := line.device.toSend }, rfl, haccepted⟩
  · exact ⟨link, hlink, haccepted⟩

theorem receiveFrame_delivering {line : Scanner.Line} (h : line.wire.Delivering)
    (link : Scanner.Link) (sequence : UInt16) (data : List Byte) :
    (Scanner.receiveFrame line link sequence data).wire.Delivering := by
  unfold Scanner.receiveFrame
  split_ifs
  · exact h
  · exact ⟨{ link with accepted := data :: link.accepted }, rfl, List.cons_ne_nil _ _⟩

/-- While every wire delivers, nothing but a close changes that: the frames go on,
and there is no device left to connect. -/
theorem backendStep_delivering {cfg : Scanner.ScannerConfig} {backend next : Scanner.Backend}
    (hreached : backend.Reached cfg) (h : ∀ line ∈ backend.lines, line.wire.Delivering)
    {act : Scanner.Act} (hopen : ∀ index now, act ≠ .close index now)
    (hstep : backend.step act = some next) : ∀ line ∈ next.lines, line.wire.Delivering := by
  intro line hline
  cases act with
  | poll =>
      cases hstep
      obtain ⟨before, hbefore, rfl⟩ := List.mem_map.mp hline
      exact handOver_delivering (h before hbefore)
  | receive index sequence data =>
      simp only [Scanner.Backend.step] at hstep
      cases hbefore : backend.lines[index]? with
      | none => simp [hbefore] at hstep
      | some before =>
          cases hlink : before.wire.connection with
          | none => simp [hbefore, hlink] at hstep
          | some link =>
              simp only [hbefore, hlink, Option.some.injEq] at hstep
              subst hstep
              rcases List.mem_or_eq_of_mem_set hline with hold | rfl
              · exact h line hold
              · exact receiveFrame_delivering (h before (List.mem_of_getElem? hbefore)) ..
  | close index now => exact absurd rfl (hopen index now)
  | connect index now attempt =>
      simp only [Scanner.Backend.step] at hstep
      cases hbefore : backend.lines[index]? with
      | none => simp [hbefore] at hstep
      | some before =>
          have hmem := List.mem_of_getElem? hbefore
          have honline := (hreached.sound.lines before hmem).isOnline_iff.mpr (h before hmem)
          rw [Scanner.isOnline, Bool.and_eq_true] at honline
          simp [hbefore, honline.1] at hstep
  | exchange out images =>
      cases hstep
      obtain ⟨before, hbefore, rfl⟩ := List.mem_map.mp hline
      exact h before hbefore

theorem Stack.move_serving {role : Role} {stack next : Stack} {traffic : Traffic}
    (hsound : stack.Sound role) (h : stack.Serving) (hkeeps : ¬ stack.Loses traffic)
    (hmove : stack.move role traffic = some next) : next.Serving := by
  induction hsound using Stack.Sound.byRole with
  | adapter cfg backend history hmirrors =>
      cases traffic with
      | scanner act => cases hmove
      | adapter callback =>
          simp only [Stack.move] at hmove
          split_ifs at hmove
          cases hmove
          rw [Stack.Serving, Opener.openConnections_concat]
          cases callback with
          | opened connection => exact List.cons_ne_nil _ _
          | closed connection | timedOut connection =>
              rw [Ne, List.erase_eq_nil_iff]
              exact not_or.mpr ⟨h, hkeeps⟩
          | _ => exact h
  | scanner cfg backend hreached =>
      cases traffic with
      | adapter callback => cases hmove
      | scanner act =>
          obtain ⟨after, hstep, rfl⟩ := Option.map_eq_some_iff.mp hmove
          refine backendStep_delivering hreached h (fun index now hclose => ?_) hstep
          subst hclose
          exact hkeeps trivial

/-! ## When the probe is right -/

/-- The process exists. -/
def StackStage.running : StackStage → Bool
  | .absent | .ended => false
  | _ => true

/-- Its backend has not been started. -/
def StackStage.unborn : StackStage → Bool
  | .absent | .attaching | .storeOpening | .init | .storeFaulted => true
  | _ => false

/-- It has not stored `ONLINE`. -/
def StackStage.early : StackStage → Bool
  | .startThread | .storeOnline => true
  | stage => stage.unborn

namespace Site

/-- **Health.** The stack process is running and serves. -/
def Healthy (s : Site) : Prop :=
  s.stage.running = true ∧ ∃ stack ∈ s.backend, stack.Serving

/-- Something that will be read, or has been, says that the stack serves: the exit
code of a probe, the words together with what a probe has loaded before, or the
count that is about to be stored. -/
def Tells (role : Role) (s : Site) : Prop :=
  s.probe = .exit 0 ∨
    (role.allUp s.words.count = true ∧
      (s.words.state = .online ∨ s.probe = .loadCount .online)) ∨
    match s.stage with
    | .storeCount count => role.allUp count = true
    | _ => False

/-- The service does not end while something says that it goes on: the process is
not killed and does not shut down, and no traffic ends it. -/
def Keeps (role : Role) (s : Site) : Act → Prop
  | .kill => ¬ s.Tells role
  | .stack _ => s.stage = .shutdown → ¬ s.Tells role
  | .traffic traffic => s.Tells role → ∀ stack ∈ s.backend, ¬ stack.Loses traffic
  | _ => True

structure Inv (role : Role) (s : Site) : Prop where
  sound : ∀ stack ∈ s.backend, stack.Sound role
  unborn : s.stage.unborn = true → s.backend = none
  early : s.stage.early = true → s.words.count = 0
  healthy : s.Tells role → s.Healthy

namespace Inv

variable {role : Role} {s after : Site}

theorem allUp_zero (role : Role) : role.allUp 0 = false := by
  cases role with
  | adapter cfg => rfl
  | scanner cfg => cases hdevices : cfg.devices <;> simp [Role.allUp, hdevices]

theorem start (role : Role) : Inv role Site.start where
  sound := fun _ hstack => (Option.not_mem_none _ hstack).elim
  unborn := fun _ => rfl
  early := fun _ => rfl
  healthy := by simp [Tells, Site.start]

/-- A step that neither touches the backend nor brings a new word to say it serves,
and does not end the process once it has a backend. -/
theorem quiet (h : Inv role s) (hbackend : after.backend = s.backend)
    (hcount : after.words.count = s.words.count) (htells : after.Tells role → s.Tells role)
    (hunborn : after.stage.unborn = true → s.stage.unborn = true)
    (hearly : after.stage.early = true → s.stage.early = true)
    (hrunning : s.stage.unborn = false → s.stage.running = true → after.stage.running = true) :
    Inv role after where
  sound := hbackend ▸ h.sound
  unborn := fun hnext => hbackend.trans (h.unborn (hunborn hnext))
  early := fun hnext => hcount.trans (h.early (hearly hnext))
  healthy := by
    intro hnext
    obtain ⟨hrun, stack, hstack, hserving⟩ := h.healthy (htells hnext)
    have hborn : s.stage.unborn = false := by
      rw [Bool.eq_false_iff]
      intro hunborn
      rw [h.unborn hunborn] at hstack
      exact Option.not_mem_none _ hstack
    exact ⟨hrunning hborn hrun, stack, hbackend ▸ hstack, hserving⟩

/-- The end of the process, when nothing says that it serves. -/
theorem gone (hsilent : ¬ s.Tells role) :
    Inv role { s with stage := .ended, backend := none } where
  sound := fun _ hstack => (Option.not_mem_none _ hstack).elim
  unborn := fun _ => rfl
  early := fun hearly => by cases hearly
  healthy := by
    rintro (hexit | hwords | hcount)
    · exact absurd (.inl hexit) hsilent
    · exact absurd (.inr (.inl hwords)) hsilent
    · exact hcount.elim

/-- A change of stage alone, to one that stores no count. -/
theorem goto (h : Inv role s) {stage : StackStage} (hstore : ∀ count, stage ≠ .storeCount count)
    (hunborn : stage.unborn = true → s.stage.unborn = true)
    (hearly : stage.early = true → s.stage.early = true)
    (hrunning : s.stage.unborn = false → s.stage.running = true → stage.running = true) :
    Inv role { s with stage := stage } := by
  refine h.quiet rfl rfl ?_ hunborn hearly hrunning
  rintro (hexit | hwords | hcount)
  · exact .inl hexit
  · exact .inr (.inl hwords)
  · cases stage with
    | storeCount count => exact absurd rfl (hstore count)
    | _ => exact hcount.elim

/-- The same, once `ONLINE` has been stored. -/
theorem proceed (h : Inv role s) {stage : StackStage}
    (hstore : ∀ count, stage ≠ .storeCount count) (hlate : stage.early = false)
    (hrunning : stage.running = true) : Inv role { s with stage := stage } := by
  have hborn : stage.unborn = false := by
    cases stage <;> first | rfl | cases hlate
  exact h.goto hstore (fun hunborn => absurd hunborn (by rw [hborn]; nofun))
    (fun hearly => absurd hearly (by rw [hlate]; nofun)) fun _ _ => hrunning

/-- A state other than `ONLINE` takes a word back. -/
theorem store (h : Inv role s) (state : AdapterState) (hstate : state ≠ .online) :
    Inv role { s with words := { s.words with state := state } } := by
  refine h.quiet rfl rfl ?_ id id fun _ => id
  rintro (hexit | ⟨hup, honline | hloaded⟩ | hcount)
  · exact .inl hexit
  · exact absurd honline hstate
  · exact .inr (.inl ⟨hup, .inr hloaded⟩)
  · exact .inr (.inr hcount)

/-- `ONLINE` is stored beside a count of zero. -/
theorem storeOnline (h : Inv role s) (hstage : s.stage = .storeOnline) :
    Inv role { s with words := { s.words with state := .online }, stage := .wait } := by
  have hzero : s.words.count = 0 := h.early (by rw [hstage]; rfl)
  refine h.quiet rfl rfl ?_ nofun nofun fun _ _ => rfl
  rintro (hexit | ⟨hup, -⟩ | hcount)
  · exact .inl hexit
  · rw [hzero, allUp_zero] at hup
    cases hup
  · exact hcount.elim

/-- The backend is started. -/
theorem init (h : Inv role s) (hstage : s.stage = .init) {stage : StackStage}
    (hstage' : stage = .storeOnline ∨ stage = .startThread) :
    Inv role { s with backend := role.init, stage := stage } where
  sound := by
    rintro stack ⟨⟩
    exact Stack.Sound.init role
  unborn := by rcases hstage' with rfl | rfl <;> nofun
  early := fun _ => h.early (by rw [hstage]; rfl)
  healthy := by
    have hsilent : ¬ s.Tells role := by
      intro htells
      obtain ⟨-, stack, hstack, -⟩ := h.healthy htells
      rw [h.unborn (by rw [hstage]; rfl)] at hstack
      exact Option.not_mem_none _ hstack
    rintro (hexit | hwords | hcount)
    · exact absurd (.inl hexit) hsilent
    · exact absurd (.inr (.inl hwords)) hsilent
    · rcases hstage' with rfl | rfl <;> exact hcount.elim

theorem exchange (h : Inv role s) (out : List Byte) :
    Inv role { s with backend := s.backend.map (Stack.exchange out), stage := .count } where
  sound := by
    intro after hafter
    obtain ⟨stack, hstack, rfl⟩ := Option.map_eq_some_iff.mp hafter
    exact (h.sound stack hstack).exchange out
  unborn := nofun
  early := nofun
  healthy := by
    intro htells
    have hbefore : s.Tells role := by
      rcases htells with hexit | hwords | hcount
      · exact .inl hexit
      · exact .inr (.inl hwords)
      · exact hcount.elim
    obtain ⟨-, stack, hstack, hserving⟩ := h.healthy hbefore
    exact ⟨rfl, stack.exchange out, Option.mem_map_of_mem _ hstack,
      Stack.exchange_serving hserving out⟩

/-- The count is the backend's when it is taken. -/
theorem count (h : Inv role s) {stack : Stack} (hstack : s.backend = some stack) :
    Inv role { s with stage := .storeCount stack.count } where
  sound := h.sound
  unborn := nofun
  early := nofun
  healthy := by
    have hsound := h.sound stack hstack
    rintro (hexit | hwords | hup)
    · exact ⟨rfl, (h.healthy (.inl hexit)).2⟩
    · exact ⟨rfl, (h.healthy (.inr (.inl hwords))).2⟩
    · exact ⟨rfl, stack, hstack, hsound.serving_of_allUp hup⟩

/-- A count is stored that was told before. -/
theorem storeCount (h : Inv role s) {count : ℕ} (hstage : s.stage = .storeCount count) :
    Inv role { s with words := { s.words with count := count }, stage := .wait } where
  sound := h.sound
  unborn := nofun
  early := nofun
  healthy := by
    rintro (hexit | ⟨hup, -⟩ | hcount)
    · exact ⟨rfl, (h.healthy (.inl hexit)).2⟩
    · have htells : s.Tells role := .inr (.inr (by rw [hstage]; exact hup))
      exact ⟨rfl, (h.healthy htells).2⟩
    · exact hcount.elim

theorem coreStep (h : Inv role s) (hstep : s.coreStep = some after) : Inv role after := by
  unfold Site.coreStep at hstep
  cases hcore : s.core <;> simp only [hcore, Option.some.injEq, reduceCtorEq] at hstep
  all_goals
    subst hstep
    exact h.quiet rfl rfl id id id fun _ => id

theorem stackStep (h : Inv role s) {outcome : Outcome}
    (hkeeps : s.stage = .shutdown → ¬ s.Tells role)
    (hstep : s.stackStep role outcome = some after) : Inv role after := by
  cases outcome with
  | done =>
      cases hstage : s.stage <;> simp only [Site.stackStep, hstage] at hstep
      case attaching =>
        split_ifs at hstep
        cases hstep
        exact h.goto nofun (by simp [hstage, StackStage.unborn])
          (by simp [hstage, StackStage.early, StackStage.unborn]) fun _ _ => rfl
      case storeOpening =>
        cases hstep
        refine (h.store .opening nofun).goto nofun ?_ ?_ fun _ _ => rfl
        all_goals simp [hstage, StackStage.early, StackStage.unborn]
      case init =>
        cases role with
        | adapter cfg => cases hstep; exact h.init hstage (.inl rfl)
        | scanner cfg => cases hstep; exact h.init hstage (.inr rfl)
      case storeFaulted =>
        cases hstep
        exact (h.store .faulted nofun).proceed nofun rfl rfl
      case startThread =>
        cases hstep
        exact h.goto nofun nofun (fun _ => by rw [hstage]; rfl) fun _ _ => rfl
      case storeOnline => cases hstep; exact h.storeOnline hstage
      case wait => cases hstep; exact h.proceed nofun rfl rfl
      case exchange out => cases hstep; exact h.exchange out
      case count =>
        obtain ⟨stack, hstack, rfl⟩ := Option.map_eq_some_iff.mp hstep
        exact h.count hstack
      case storeCount count => cases hstep; exact h.storeCount hstage
      case storeClosed =>
        cases hstep
        exact (h.store .closed nofun).proceed nofun rfl rfl
      case shutdown => cases hstep; exact gone (hkeeps hstage)
      all_goals cases hstep
  | again =>
      cases hstage : s.stage <;> simp only [Site.stackStep, hstage] at hstep
      case wait => cases hstep; exact h.proceed nofun rfl rfl
      case pop => cases hstep; exact h.proceed nofun rfl rfl
      all_goals cases hstep
  | failed =>
      cases hstage : s.stage <;> simp only [Site.stackStep, hstage] at hstep
      case attaching =>
        cases hstep
        refine h.goto nofun nofun nofun fun hborn => ?_
        rw [hstage] at hborn
        cases hborn
      case init =>
        cases hstep
        exact h.goto nofun (fun _ => by rw [hstage]; rfl) (fun _ => by rw [hstage]; rfl)
          fun _ _ => rfl
      case startThread => cases hstep; exact h.proceed nofun rfl rfl
      case wait => cases hstep; exact h.proceed nofun rfl rfl
      all_goals cases hstep
  | request out =>
      cases hstage : s.stage <;> simp only [Site.stackStep, hstage] at hstep
      case pop => cases hstep; exact h.proceed nofun rfl rfl
      all_goals cases hstep

/-- A step of the probe repeats at most what was told before. -/
theorem probe (h : Inv role s) {stage : ProbeStage} (hexit : stage = .exit 0 → s.Tells role)
    (hloaded : stage = .loadCount .online → role.allUp s.words.count = true → s.Tells role) :
    Inv role { s with probe := stage } := by
  refine h.quiet rfl rfl ?_ id id fun _ => id
  rintro (hzero | ⟨hup, honline | hload⟩ | hcount)
  · exact hexit hzero
  · exact .inr (.inl ⟨hup, .inl honline⟩)
  · exact hloaded hload hup
  · exact .inr (.inr hcount)

theorem probeStep (h : Inv role s) : Inv role (s.probeStep role) := by
  cases hprobe : s.probe <;> simp only [Site.probeStep, hprobe]
  case map =>
    split_ifs
    · exact h.probe nofun nofun
    · exact h.probe nofun nofun
  case loadMagic =>
    split_ifs
    · exact h.probe nofun nofun
    · exact h.probe nofun nofun
  case loadState =>
    refine h.probe nofun fun hload hup => ?_
    exact .inr (.inl ⟨hup, .inl (ProbeStage.loadCount.inj hload)⟩)
  case loadCount state =>
    refine h.probe (fun hexit => ?_) nofun
    have hzero := ProbeStage.exit.inj hexit
    split_ifs at hzero with hok
    refine .inr (.inl ⟨hok.2, .inr ?_⟩)
    rw [hprobe, hok.1]
  case exit code => exact h.probe nofun nofun

theorem traffic (h : Inv role s) {traffic : Traffic} {stack moved : Stack}
    (hstack : s.backend = some stack) (hmove : stack.move role traffic = some moved)
    (hkeeps : s.Tells role → ¬ stack.Loses traffic) :
    Inv role { s with backend := some moved } where
  sound := by
    rintro later ⟨⟩
    exact (h.sound stack hstack).move hmove
  unborn := by
    intro hunborn
    rw [h.unborn hunborn] at hstack
    cases hstack
  early := h.early
  healthy := by
    intro htells
    obtain ⟨hrunning, serving, hserving, hserves⟩ := h.healthy htells
    obtain rfl : stack = serving := Option.some.inj (hstack.symm.trans hserving)
    exact ⟨hrunning, moved, rfl,
      Stack.move_serving (h.sound stack hstack) hserves (hkeeps htells) hmove⟩

theorem step (h : Inv role s) {act : Act} (hkeeps : s.Keeps role act)
    (hstep : s.step role act = some after) : Inv role after := by
  cases act with
  | core => exact h.coreStep hstep
  | spawn =>
      cases hstage : s.stage <;> simp only [Site.step, hstage] at hstep
      case absent =>
        cases hstep
        refine h.goto nofun (fun _ => by rw [hstage]; rfl) (fun _ => by rw [hstage]; rfl)
          fun _ _ => rfl
      all_goals cases hstep
  | stack outcome => exact h.stackStep hkeeps hstep
  | kill =>
      have hgone : after = { s with stage := .ended, backend := none } := by
        cases hstage : s.stage <;> simp only [Site.step, hstage, Option.some.injEq] at hstep
        all_goals first | exact hstep.symm | cases hstep
      exact hgone ▸ gone hkeeps
  | traffic traffic =>
      obtain ⟨moved, hmoved, rfl⟩ := Option.map_eq_some_iff.mp hstep
      obtain ⟨stack, hstack, hmove⟩ := Option.bind_eq_some_iff.mp hmoved
      exact h.traffic hstack hmove fun htells => hkeeps htells stack hstack
  | probe =>
      cases hstep
      exact h.probeStep

end Inv

/-- **The probe tells the truth.** In every run in which the service does not end
while something still says that it goes on: whenever the probe exits with 0, the
stack process is running, and it has an I/O connection or all of its devices
online. -/
theorem probe_healthy {role : Role} {schedule : List Act} {s : Site}
    (hrun : exec (step role) start schedule = some s)
    (hkeeps : Meets (step role) (Keeps role) start schedule) (hzero : s.probe = .exit 0) :
    s.stage.running = true ∧ ∃ stack ∈ s.backend, stack.Serving := by
  have hinv : Inv role s :=
    exec_invariant (fun _ _ _ hinv hok hstep => hinv.step hok hstep) (.start role) hkeeps hrun
  exact hinv.healthy (.inl hzero)

instance (role : Role) (s : Site) : Decidable (s.Tells role) :=
  have : Decidable (match s.stage with
      | .storeCount count => role.allUp count = true
      | _ => False) :=
    match s.stage with
    | .storeCount count => inferInstanceAs (Decidable (role.allUp count = true))
    | .absent | .attaching | .storeOpening | .init | .storeFaulted | .startThread | .storeOnline
    | .wait | .pop | .exchange _ | .count | .storeClosed | .shutdown | .ended => isFalse id
  inferInstanceAs (Decidable (_ ∨ _ ∨ _))

instance (stack : Stack) (traffic : Traffic) : Decidable (stack.Loses traffic) := by
  unfold Stack.Loses
  split <;> infer_instance

instance (role : Role) (s : Site) (act : Act) : Decidable (s.Keeps role act) :=
  match act with
  | .kill => inferInstanceAs (Decidable (¬ _))
  | .stack _ => inferInstanceAs (Decidable (_ → ¬ _))
  | .traffic traffic =>
      inferInstanceAs (Decidable (s.Tells role → ∀ stack ∈ s.backend, ¬ stack.Loses traffic))
  | .core | .spawn | .probe => isTrue trivial

/-- An adapter. -/
def sampleRole : Role := .adapter Opener.sampleConfig

/-- The core publishes its region, and the stack process comes online, accepts a
connection, serves a request and stores the count. -/
def connected : List Act :=
  [.core, .core, .spawn] ++ List.replicate 4 (.stack .done) ++
    [.traffic (.adapter (.opened Opener.owner)), .stack .done, .stack (.request [])] ++
    List.replicate 3 (.stack .done)

/-- One call of the probe up to its exit. -/
def probed : List Act := List.replicate 4 .probe

/-- The stack process is killed, and the probe finds it healthy. -/
theorem killed_still_healthy :
    ∃ s, exec (step sampleRole) start (connected ++ [.kill] ++ probed) = some s ∧
      s.probe = .exit 0 ∧ s.stage = .ended := by
  have hview : (exec (step sampleRole) start (connected ++ [.kill] ++ probed)).map
      (fun s => (s.probe, s.stage)) = some (.exit 0, .ended) := by
    decide +kernel
  obtain ⟨s, hrun, hvalues⟩ := Option.map_eq_some_iff.mp hview
  exact ⟨s, hrun, congrArg Prod.fst hvalues, congrArg Prod.snd hvalues⟩

theorem probe_healthy_connected :
    ∃ s, exec (step sampleRole) start (connected ++ probed) = some s ∧ s.probe = .exit 0 ∧
      s.stage.running = true ∧ ∃ stack ∈ s.backend, stack.Serving := by
  have hview : (exec (step sampleRole) start (connected ++ probed)).map (fun s => s.probe) =
      some (.exit 0) := by
    decide +kernel
  have hkeeps : Meets (step sampleRole) (Keeps sampleRole) start (connected ++ probed) := by
    decide +kernel
  obtain ⟨s, hrun, hzero⟩ := Option.map_eq_some_iff.mp hview
  exact ⟨s, hrun, hzero, probe_healthy hrun hkeeps hzero⟩

end Site

end SoftPlc.App
