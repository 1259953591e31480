/-
# From the scan to the wire and back

The exchange of the core with the adapter process and the hand-off between the two
threads of that process, put together. The service loop takes a request from the ring,
publishes its outputs and fetches its answer byte by byte under the mutex, and pushes
the reply, while the stack goes on sending and receiving and the core goes on waiting,
giving up and asking again.

Two results about the whole path follow from those about its parts. What the stack puts
on the wire are output images of scans, each whole, in the order of the scans. What the
program reads as fresh inputs are images the stack received, each whole, in the order in
which they came. Both are for the life of one adapter process: the next one starts from
zeros.
-/

import SoftPlc.Cyclic.Commands
import SoftPlc.Cyclic.Inputs
import SoftPlc.Opener.Handoff

namespace SoftPlc.Cyclic

open SoftPlc.Math SoftPlc.Ipc SoftPlc.Adapters SoftPlc.Opener

/-- How far the service loop is with the request it serves. -/
inductive ServicePhase
  | toPublish
  | publishing
  | toFetch
  | fetching
  | toReply
  deriving DecidableEq, Repr

/-- The body of the service loop: `publish_outputs`, then `fetch_inputs`, each a section
that it enters, works through and leaves. -/
def ServicePhase.advance (frame : Frame) : ServicePhase → HandoffAct → Option ServicePhase
  | .toPublish, .publish data len =>
      if data = frame.data ∧ len = frame.len.toNat then some .publishing else none
  | .publishing, .work .loop => some .publishing
  | .publishing, .leave .loop => some .toFetch
  | .toFetch, .fetch => some .fetching
  | .fetching, .work .loop => some .fetching
  | .fetching, .leave .loop => some .toReply
  | _, _ => none

/-- What the body of the service loop can do next. -/
theorem ServicePhase.advance_cases {frame : Frame} {phase next : ServicePhase} {act : HandoffAct}
    (h : phase.advance frame act = some next) :
    (phase = .toPublish ∧ act = .publish frame.data frame.len.toNat ∧ next = .publishing) ∨
      (phase = .publishing ∧ act = .work .loop ∧ next = .publishing) ∨
      (phase = .publishing ∧ act = .leave .loop ∧ next = .toFetch) ∨
      (phase = .toFetch ∧ act = .fetch ∧ next = .fetching) ∨
      (phase = .fetching ∧ act = .work .loop ∧ next = .fetching) ∨
      (phase = .fetching ∧ act = .leave .loop ∧ next = .toReply) := by
  unfold ServicePhase.advance at h
  split at h
  · rename_i data len
    split_ifs at h with hframe
    obtain ⟨rfl, rfl⟩ := hframe
    cases h
    exact .inl ⟨rfl, rfl, rfl⟩
  all_goals
    cases h <;> simp

/-- What the stack's thread does. -/
def ofStack : HandoffAct → Bool
  | .latch | .snapshot | .receive _ | .count | .send => true
  | .work .stack | .leave .stack => true
  | .work .loop | .leave .loop | .publish _ _ | .fetch => false

/-- The core, the rings and the service loop; the memory of the adapter process; how far
the service loop is; and as history everything done to the memory. -/
structure Path where
  watch : Watch
  memory : Guarded Memory MemoryOp Thread
  phase : ServicePhase
  acts : List HandoffAct

/-- A move of the core or of the loop outside its body, an act of the stack, a step of the
body, and the reply with the flags it carries. -/
inductive PathAct
  | cyclic (act : Act)
  | stack (act : HandoffAct)
  | body (act : HandoffAct)
  | answer (flags : UInt32)

namespace Path

def start (caps : ProxyCaps) (openedUs : ℕ) (reply : List Byte) : Path :=
  ⟨Watch.start caps openedUs, ⟨Memory.start reply, none⟩, .toPublish, []⟩

/-- The memory changes. -/
def hand (cfg : BackendConfig) (p : Path) (act : HandoffAct) (phase : ServicePhase) :
    Option Path :=
  (handoffStep cfg p.memory act).map fun memory =>
    { p with memory := memory, phase := phase, acts := p.acts ++ [act] }

/-- One step, as long as the adapter process lives. -/
def step (cfg : BackendConfig) (p : Path) : PathAct → Option Path
  | .cyclic (.reply _ _) | .cyclic .die => none
  | .cyclic act => (p.watch.step .adapter act).map fun watch => { p with watch := watch }
  | .stack act => if ofStack act ∧ act.Fits cfg then p.hand cfg act p.phase else none
  | .body act =>
      match p.watch.system.server with
      | .serve _ frame => (p.phase.advance frame act).bind (p.hand cfg act)
      | _ => none
  | .answer flags =>
      match p.phase with
      | .toReply =>
          (p.watch.step .adapter
            (.reply flags (p.memory.memory.reply.take cfg.inputBytes))).map fun watch =>
              { p with watch := watch, phase := .toPublish }
      | _ => none

/-- The images received from the field. -/
def received (p : Path) : List (List Byte) := p.acts.filterMap HandoffAct.received?

/-- The memory with the call under way completed. -/
def settled (cfg : BackendConfig) (p : Path) : Memory := p.memory.completed (MemoryOp.run cfg)

end Path

/-- The outputs a call is given. -/
def given? : HandoffAct → Option (List Byte)
  | .publish data len => some (data.take len)
  | _ => none

/-- The outputs as the wire has them: cut or zero-extended to the produced assembly. -/
def wireImage (cfg : BackendConfig) (out : List Byte) : List Byte :=
  (fit 0 out plcIpcMaxFrameBytes).take cfg.outputBytes

theorem published_eq_map_given (cfg : BackendConfig) (acts : List HandoffAct) :
    acts.filterMap (HandoffAct.published? cfg) =
      (acts.filterMap given?).map (wireImage cfg) := by
  rw [List.map_filterMap]
  apply List.filterMap_congr
  intro act _
  cases act <;> rfl

/-- The outputs published and not yet answered for. -/
def ServicePhase.handed (phase : ServicePhase) (holding : List (List Byte)) : List (List Byte) :=
  match phase with
  | .toPublish => []
  | .publishing | .toFetch | .fetching | .toReply => holding

/-- The image fetched and not yet sent as a reply. -/
def ServicePhase.image (phase : ServicePhase) (image : List Byte) : List (List Byte) :=
  match phase with
  | .toPublish | .publishing | .toFetch => []
  | .fetching | .toReply => [image]

/-- The loop is in a section. -/
def ServicePhase.inside : ServicePhase → Bool
  | .publishing | .fetching => true
  | .toPublish | .toFetch | .toReply => false

/-- What holds along every run. -/
structure Joined (cfg : BackendConfig) (reply : List Byte) (p : Path) : Prop where
  watched : Watched p.watch
  run : exec (handoffStep cfg) ⟨Memory.start reply, none⟩ p.acts = some p.memory
  fits : ∀ act ∈ p.acts, act.Fits cfg
  outside : ∀ ops, p.memory.held = some (.loop, ops) → p.phase.inside = true
  idle : p.watch.system.server.serving = [] → p.phase = .toPublish
  whole : ∀ number frame, p.watch.system.server = .serve number frame →
    frame.len.toNat ≤ frame.data.length
  given : p.acts.filterMap given? =
    p.watch.published ++ p.phase.handed p.watch.system.server.holding
  fetched : (p.settled cfg).fetched =
    p.watch.system.made.map (·.message.payload) ++
      p.phase.image ((p.settled cfg).reply.take cfg.inputBytes)

theorem len_le_of_delivers {frame : Frame} {message : Message} {cap : ℕ}
    (h : frame.Delivers message cap) : frame.len.toNat ≤ frame.data.length := by
  have hlength := congrArg List.length h.payload_eq
  rw [List.length_take, List.length_take, Nat.min_comm cap, ← h.len_eq] at hlength
  omega

/-- What a move of the core or of the loop outside its body leaves alone. -/
theorem Watched.outside_body {w next : Watch} (h : Watched w) {act : Act}
    (hreply : ∀ flags payload, act ≠ .reply flags payload) (hdie : act ≠ .die)
    (hstep : w.step .adapter act = some next) :
    next.published = w.published ∧ next.system.made = w.system.made ∧
      (next.system.server = w.system.server ∨
        w.system.server.serving = [] ∧
          ∀ number frame, next.system.server = .serve number frame →
            frame.len.toNat ≤ frame.data.length) := by
  obtain ⟨system, hsystem, rfl⟩ := Option.map_eq_some_iff.mp hstep
  obtain ⟨hmove, -⟩ := h.linked.step hsystem
  cases hmove with
  | answers => exact absurd rfl (hreply _ _)
  | dies => exact absurd rfl hdie
  | misses _ exchange req now hact hcore =>
      obtain ⟨reading, rfl⟩ | ⟨reading, rfl⟩ := hact
      all_goals exact ⟨rfl, rfl, .inl rfl⟩
  | takes req frame request rest hserver hrequests hseq =>
      obtain ⟨taken, htaken, hdelivers⟩ := h.linked.takes_delivers hserver hrequests hsystem
      refine ⟨rfl, rfl, .inr ⟨by rw [hserver]; rfl, ?_⟩⟩
      intro number other hserve
      cases htaken
      cases hserve
      exact len_le_of_delivers hdelivers
  | serverWakes hserver | serverEmpties req hserver | replies reply rsp hserver
  | refuses reply rsp hserver | drains number rsp hserver | rings number hserver =>
      refine ⟨rfl, rfl, .inr ⟨by rw [hserver]; rfl, ?_⟩⟩
      intro number other hserve
      cases hserve
  | _ => exact ⟨rfl, rfl, .inl rfl⟩

namespace Joined

variable {cfg : BackendConfig} {reply : List Byte} {p next : Path}

theorem start (caps : ProxyCaps) (openedUs : ℕ) :
    Joined cfg reply (Path.start caps openedUs reply) where
  watched := Watched.start caps openedUs
  run := rfl
  fits := fun _ hact => by cases hact
  outside := fun _ hheld => by cases hheld
  idle := fun _ => rfl
  whole := fun _ _ hserver => by cases hserver
  given := rfl
  fetched := rfl

/-- The loop is with its own, or with a section of the stack under way: in both cases its
buffer is what it is going to be. -/
theorem reply_settled (h : Joined cfg reply p) (hreply : reply.length = plcIpcMaxFrameBytes)
    (hphase : p.phase = .toReply) : (p.settled cfg).reply = p.memory.memory.reply := by
  obtain ⟨-, hproper⟩ := completed_eq_calls (Sized.start hreply) h.fits h.run
  cases hheld : p.memory.held with
  | none => simp only [Path.settled, Guarded.completed, hheld]
  | some pair =>
      obtain ⟨holder, ops⟩ := pair
      cases holder with
      | loop =>
          have hinside := h.outside ops hheld
          rw [hphase] at hinside
          cases hinside
      | stack =>
          simp only [Path.settled, Guarded.completed, hheld]
          exact runAll_reply (hproper .stack ops hheld) p.memory.memory

/-- A move of the core or of the loop outside its body. -/
theorem cyclic (h : Joined cfg reply p) {act : Act} {watch : Watch}
    (hanswer : ∀ flags payload, act ≠ .reply flags payload) (hdie : act ≠ .die)
    (hstep : p.watch.step .adapter act = some watch) :
    Joined cfg reply { p with watch := watch } := by
  obtain ⟨hpublished, hmade, hserver⟩ := h.watched.outside_body hanswer hdie hstep
  have hphase : watch.system.server = p.watch.system.server ∨ p.phase = .toPublish :=
    hserver.imp id fun hfree => h.idle hfree.1
  exact
    { watched := h.watched.step hstep
      run := h.run
      fits := h.fits
      outside := h.outside
      idle := by
        intro hserving
        obtain hsame | hfree := hphase
        · exact h.idle (by rw [← hsame]; exact hserving)
        · exact hfree
      whole := by
        intro number frame hserve
        obtain hsame | hfree := hserver
        · exact h.whole number frame (hsame.symm.trans hserve)
        · exact hfree.2 number frame hserve
      given := by
        have hgiven := h.given
        show p.acts.filterMap given? = watch.published ++ p.phase.handed watch.system.server.holding
        obtain hsame | hfree := hphase
        · rw [hpublished, hsame]
          exact hgiven
        · rw [hfree] at hgiven
          rw [hpublished, hfree]
          exact hgiven
      fetched := by
        have hfetched := h.fetched
        show (p.settled cfg).fetched = watch.system.made.map (·.message.payload) ++
          p.phase.image ((p.settled cfg).reply.take cfg.inputBytes)
        rw [hmade]
        exact hfetched }

/-- The memory after one more act. -/
theorem settled_hand (h : Joined cfg reply p) (hreply : reply.length = plcIpcMaxFrameBytes)
    {act : HandoffAct} {memory : Guarded Memory MemoryOp Thread} (hfits : act.Fits cfg)
    (hstep : handoffStep cfg p.memory act = some memory) :
    memory.completed (MemoryOp.run cfg) = act.call cfg (p.settled cfg) := by
  have hrun : exec (handoffStep cfg) ⟨Memory.start reply, none⟩ (p.acts ++ [act]) =
      some memory := by
    rw [exec_concat h.run]
    exact hstep
  have hall : ∀ other ∈ p.acts ++ [act], other.Fits cfg := by
    intro other hother
    obtain hold | hnew := List.mem_append.mp hother
    · exact h.fits other hold
    · rw [List.mem_singleton.mp hnew]
      exact hfits
  have hbefore := (completed_eq_calls (Sized.start hreply) h.fits h.run).1
  have hafter := (completed_eq_calls (Sized.start hreply) hall hrun).1
  rw [hafter, List.foldl_append, ← hbefore]
  rfl

/-- One more act, with what it means for the outputs and for the inputs. -/
theorem hand (h : Joined cfg reply p) (hreply : reply.length = plcIpcMaxFrameBytes)
    {act : HandoffAct} {phase : ServicePhase} (hstep : p.hand cfg act phase = some next)
    (hfits : act.Fits cfg)
    (houtside : ∀ memory ops, handoffStep cfg p.memory act = some memory →
      memory.held = some (.loop, ops) → phase.inside = true)
    (hidle : p.watch.system.server.serving = [] → phase = .toPublish)
    (hgiven : p.phase.handed p.watch.system.server.holding ++ (given? act).toList =
      phase.handed p.watch.system.server.holding)
    (hfetched : (p.settled cfg).fetched = p.watch.system.made.map (·.message.payload) ++
        p.phase.image ((p.settled cfg).reply.take cfg.inputBytes) →
      (act.call cfg (p.settled cfg)).fetched = p.watch.system.made.map (·.message.payload) ++
        phase.image ((act.call cfg (p.settled cfg)).reply.take cfg.inputBytes)) :
    Joined cfg reply next := by
  obtain ⟨memory, hmemory, rfl⟩ := Option.map_eq_some_iff.mp hstep
  have hsettled := h.settled_hand hreply hfits hmemory
  exact
    { watched := h.watched
      run := by
        rw [exec_concat h.run]
        exact hmemory
      fits := by
        intro other hother
        obtain hold | hnew := List.mem_append.mp hother
        · exact h.fits other hold
        · rw [List.mem_singleton.mp hnew]
          exact hfits
      outside := fun ops hheld => houtside memory ops hmemory hheld
      idle := hidle
      whole := h.whole
      given := by
        show (p.acts ++ [act]).filterMap given? = p.watch.published ++ phase.handed _
        rw [List.filterMap_append, h.given, List.append_assoc, ← hgiven]
        cases act <;> rfl
      fetched := by
        show (memory.completed (MemoryOp.run cfg)).fetched =
          p.watch.system.made.map (·.message.payload) ++
            phase.image ((memory.completed (MemoryOp.run cfg)).reply.take cfg.inputBytes)
        rw [hsettled]
        exact hfetched h.fetched }

/-- The stack does something. -/
theorem stack (h : Joined cfg reply p) (hreply : reply.length = plcIpcMaxFrameBytes)
    {act : HandoffAct} (hstack : ofStack act = true) (hfits : act.Fits cfg)
    (hstep : p.hand cfg act p.phase = some next) : Joined cfg reply next := by
  apply h.hand hreply hstep hfits
  · intro memory ops hmemory hheld
    have hparty : (act.label cfg).party = .stack := by
      cases act with
      | work who | leave who =>
          cases who with
          | stack => rfl
          | loop => cases hstack
      | publish | fetch => cases hstack
      | latch | snapshot | receive | count | send => rfl
    obtain hown | ⟨earlier, hearlier⟩ := Guarded.holder_step hmemory hheld
    · rw [hparty] at hown
      cases hown
    · exact h.outside earlier hearlier
  · exact h.idle
  · cases act <;> first | exact List.append_nil _ | cases hstack
  · intro hfetched
    cases act <;> first | exact hfetched | cases hstack

/-- The loop goes on with its body. -/
theorem body (h : Joined cfg reply p) (hreply : reply.length = plcIpcMaxFrameBytes)
    {number : ℕ} {frame : Frame} (hserver : p.watch.system.server = .serve number frame)
    {act : HandoffAct} {phase : ServicePhase} (hadvance : p.phase.advance frame act = some phase)
    (hstep : p.hand cfg act phase = some next) : Joined cfg reply next := by
  have hserving : p.watch.system.server.serving = [] → phase = .toPublish := by
    intro hnone
    rw [hserver] at hnone
    cases hnone
  have hleft : act = .leave .loop → ∀ memory ops, handoffStep cfg p.memory act = some memory →
      memory.held = some (.loop, ops) → phase.inside = true := by
    rintro rfl memory ops hmemory hheld
    rw [Guarded.held_leave hmemory] at hheld
    cases hheld
  obtain ⟨hphase, rfl, rfl⟩ | ⟨hphase, rfl, rfl⟩ | ⟨hphase, rfl, rfl⟩ | ⟨hphase, rfl, rfl⟩ |
    ⟨hphase, rfl, rfl⟩ | ⟨hphase, rfl, rfl⟩ := ServicePhase.advance_cases hadvance
  · -- the outputs of the request in hand are published
    apply h.hand hreply hstep (h.whole number frame hserver) (fun _ _ _ _ => rfl) hserving
    · rw [hphase, hserver]
      rfl
    · intro hfetched
      rw [hphase] at hfetched
      exact hfetched
  · apply h.hand hreply hstep trivial (fun _ _ _ _ => rfl) hserving
    · rw [hphase]
      exact List.append_nil _
    · intro hfetched
      rw [hphase] at hfetched
      exact hfetched
  · apply h.hand hreply hstep trivial (hleft rfl) hserving
    · rw [hphase]
      exact List.append_nil _
    · intro hfetched
      rw [hphase] at hfetched
      exact hfetched
  · -- the image fetched is the newest in the history
    apply h.hand hreply hstep trivial (fun _ _ _ _ => rfl) hserving
    · rw [hphase]
      exact List.append_nil _
    · intro hfetched
      rw [hphase] at hfetched
      have hsize : (openerFetch cfg (p.settled cfg).backend (p.settled cfg).reply
          plcIpcMaxFrameBytes).2 = cfg.inputBytes := by
        have hle := cfg.input_le
        simp only [openerFetch]
        omega
      simp only [HandoffAct.call, hsize, hfetched, ServicePhase.image, List.append_nil]
  · apply h.hand hreply hstep trivial (fun _ _ _ _ => rfl) hserving
    · rw [hphase]
      exact List.append_nil _
    · intro hfetched
      rw [hphase] at hfetched
      exact hfetched
  · apply h.hand hreply hstep trivial (hleft rfl) hserving
    · rw [hphase]
      exact List.append_nil _
    · intro hfetched
      rw [hphase] at hfetched
      exact hfetched

/-- The loop sends its reply. -/
theorem answer (h : Joined cfg reply p) (hreply : reply.length = plcIpcMaxFrameBytes)
    (hphase : p.phase = .toReply) {flags : UInt32} {watch : Watch}
    (hstep : p.watch.step .adapter (.reply flags (p.memory.memory.reply.take cfg.inputBytes)) =
      some watch) : Joined cfg reply { p with watch := watch, phase := .toPublish } := by
  have hwatched := h.watched.step hstep
  have hsettled := h.reply_settled hreply hphase
  have hgiven := h.given
  have hfetched := h.fetched
  rw [hphase] at hgiven hfetched
  obtain ⟨system, hsystem, rfl⟩ := Option.map_eq_some_iff.mp hstep
  obtain ⟨hmove, -⟩ := h.watched.linked.step hsystem
  generalize hpayload : p.memory.memory.reply.take cfg.inputBytes = payload at hmove hsystem
  cases hmove with
  | misses _ exchange req now hact =>
      obtain ⟨reading, hact⟩ | ⟨reading, hact⟩ := hact <;> cases hact
  | answers number frame made hserver hnumber hseq =>
      exact
        { watched := hwatched
          run := h.run
          fits := h.fits
          outside := by
            intro ops hheld
            have hinside := h.outside ops hheld
            rw [hphase] at hinside
            cases hinside
          idle := fun _ => rfl
          whole := fun _ _ hserve => by cases hserve
          given := by
            rw [hgiven]
            exact (List.append_nil _).symm
          fetched := by
            show (p.settled cfg).fetched =
              (p.watch.system.made ++ [made]).map (·.message.payload) ++ []
            rw [hfetched, hsettled, hpayload, List.map_append, List.append_nil]
            rfl }

theorem step (h : Joined cfg reply p) (hreply : reply.length = plcIpcMaxFrameBytes) {act : PathAct}
    (hstep : p.step cfg act = some next) : Joined cfg reply next := by
  cases act with
  | cyclic act =>
      cases act with
      | reply | die => cases hstep
      | exchange | core | timeout | server =>
          obtain ⟨watch, hwatch, rfl⟩ := Option.map_eq_some_iff.mp hstep
          apply h.cyclic _ _ hwatch
          · intro flags payload hact
            cases hact
          · intro hact
            cases hact
  | stack act =>
      simp only [Path.step] at hstep
      split_ifs at hstep with hallowed
      exact h.stack hreply hallowed.1 hallowed.2 hstep
  | body act =>
      simp only [Path.step] at hstep
      split at hstep
      · rename_i number frame hserver
        obtain ⟨phase, hadvance, hhand⟩ := Option.bind_eq_some_iff.mp hstep
        exact h.body hreply hserver hadvance hhand
      · cases hstep
  | answer flags =>
      simp only [Path.step] at hstep
      split at hstep
      · rename_i hphase
        obtain ⟨watch, hwatch, rfl⟩ := Option.map_eq_some_iff.mp hstep
        exact h.answer hreply hphase hwatch
      · cases hstep

theorem of_exec {caps : ProxyCaps} {openedUs : ℕ} (hreply : reply.length = plcIpcMaxFrameBytes)
    {schedule : List PathAct}
    (hrun : exec (Path.step cfg) (Path.start caps openedUs reply) schedule = some p) :
    Joined cfg reply p :=
  exec_invariant_all (fun _ _ _ hinv => hinv.step hreply) (start caps openedUs) hrun

/-- The images of the replies are images received. -/
theorem made_sampled (h : Joined cfg reply p) (hreply : reply.length = plcIpcMaxFrameBytes) :
    Sampled (List.replicate cfg.inputBytes 0 :: p.received)
      (p.watch.system.made.map (·.message.payload)) := by
  obtain ⟨hcalls, -⟩ := completed_eq_calls (Sized.start hreply) h.fits h.run
  obtain ⟨-, hinputs⟩ := calls_sampled hreply h.fits
  rw [← hcalls] at hinputs
  apply hinputs.sublist
  have hfetched := h.fetched
  rw [Path.settled] at hfetched
  rw [hfetched]
  exact List.sublist_append_left _ _

end Joined

/-- A step of the path is a step of the exchange, or leaves it alone. -/
theorem Path.step_watch {cfg : BackendConfig} {p next : Path} {act : PathAct}
    (hstep : p.step cfg act = some next) :
    next.watch = p.watch ∨ ∃ move, p.watch.step .adapter move = some next.watch := by
  have hhand : ∀ {done : HandoffAct} {phase : ServicePhase}, p.hand cfg done phase = some next →
      next.watch = p.watch := by
    intro done phase hdone
    obtain ⟨memory, -, rfl⟩ := Option.map_eq_some_iff.mp hdone
    rfl
  cases act with
  | cyclic act =>
      cases act with
      | reply | die => cases hstep
      | exchange | core | timeout | server =>
          obtain ⟨watch, hwatch, rfl⟩ := Option.map_eq_some_iff.mp hstep
          exact .inr ⟨_, hwatch⟩
  | stack act =>
      simp only [Path.step] at hstep
      split_ifs at hstep
      exact .inl (hhand hstep)
  | body act =>
      simp only [Path.step] at hstep
      split at hstep
      · obtain ⟨phase, -, hdone⟩ := Option.bind_eq_some_iff.mp hstep
        exact .inl (hhand hdone)
      · cases hstep
  | answer flags =>
      simp only [Path.step] at hstep
      split at hstep
      · obtain ⟨watch, hwatch, rfl⟩ := Option.map_eq_some_iff.mp hstep
        exact .inr ⟨_, hwatch⟩
      · cases hstep

/-- **The wire carries scans.** Whatever the core, the service loop and the stack do in
whatever order, byte by byte, the frames the stack puts on the wire are output images of
exchanges the core started, each whole, in the order of the exchanges; before the first
of them they are zeros. -/
theorem wire_carries_scans {cfg : BackendConfig} {caps : ProxyCaps} {openedUs : ℕ}
    {reply : List Byte} (hreply : reply.length = plcIpcMaxFrameBytes) {schedule : List PathAct}
    {p : Path} (hrun : exec (Path.step cfg) (Path.start caps openedUs reply) schedule = some p) :
    Sampled (List.replicate cfg.outputBytes 0 :: p.watch.asked.map (wireImage cfg))
      p.memory.memory.sent := by
  have hjoined := Joined.of_exec hreply hrun
  obtain ⟨hcalls, -⟩ := completed_eq_calls (Sized.start hreply) hjoined.fits hjoined.run
  obtain ⟨houtputs, -⟩ := calls_sampled hreply hjoined.fits
  obtain ⟨hsent, -⟩ := completed_logs cfg p.memory
  rw [← hcalls, published_eq_map_given] at houtputs
  -- what was given to the stack was queued, and what was queued was asked
  have hgiven : (p.acts.filterMap given?).Sublist p.watch.asked := by
    refine List.Sublist.trans ?_ hjoined.watched.followed.queued
    rw [hjoined.given, Watch.queued]
    apply List.Sublist.append_left
    cases p.phase with
    | toPublish => exact List.nil_sublist _
    | publishing | toFetch | fetching | toReply => exact List.sublist_append_left _ _
  have hasked := houtputs.of_sublist ((hgiven.map (wireImage cfg)).cons_cons _)
  exact hasked.sublist hsent.sublist

/-- What the service loop pops: the payload over its zeroed buffer. -/
def publishedFrame : List Byte := 5 :: List.replicate 495 0

/-- The request is published, and a frame goes out between its bytes. -/
def publishedAround : List PathAct :=
  .body (.publish publishedFrame 1) :: .body (.work .loop) :: .stack .send ::
    (List.replicate 495 (.body (.work .loop)) ++ [.body (.leave .loop)])

/-- A section of the stack. -/
def stackSection (act : HandoffAct) : List PathAct :=
  .stack act :: (List.replicate 496 (.stack (.work .stack)) ++ [.stack (.leave .stack)])

/-- The image is fetched and sent as a reply, and the core takes it. -/
def fetchedAndTaken : List PathAct :=
  [.body .fetch, .body (.work .loop), .body (.work .loop), .body (.leave .loop), .answer 0,
    .cyclic .server, .cyclic .server, .cyclic (.core ⟨20, 21, 1⟩), .cyclic (.core ⟨20, 21, 1⟩)]

/-- The core asks with the output `5`. Its request is published, data arrives and is
snapshot before the fetch, and the reply reaches the core. Then the stack latches the
outputs and sends again. -/
def onceAround : List PathAct :=
  (sending [5]).map PathAct.cyclic ++ .cyclic .server :: .cyclic .server :: publishedAround ++
    .stack (.receive [9]) :: stackSection .snapshot ++ fetchedAndTaken ++
    stackSection .latch ++ [.stack .send]

theorem wire_carries_scans_onceAround :
    ∃ p, exec (Path.step smallBackend) (Path.start sampleCaps 1 (List.replicate 496 0))
        onceAround = some p ∧
      p.memory.memory.sent = [[0, 0], [5, 0]] ∧ p.watch.asked = [[5]] ∧
      Sampled [[0, 0], [5, 0]] p.memory.memory.sent := by
  have hview : (exec (Path.step smallBackend) (Path.start sampleCaps 1 (List.replicate 496 0))
      onceAround).map (fun p => (p.memory.memory.sent, p.watch.asked)) =
      some ([[0, 0], [5, 0]], [[5]]) := by decide +kernel
  obtain ⟨p, hrun, hlists⟩ := Option.map_eq_some_iff.mp hview
  obtain ⟨hsent, hasked⟩ := Prod.mk.inj hlists
  have hreply : (List.replicate 496 (0 : Byte)).length = plcIpcMaxFrameBytes :=
    List.length_replicate
  have hwire := wire_carries_scans hreply hrun
  rw [hasked] at hwire
  exact ⟨p, hrun, hsent, hasked, hwire⟩

/-- **The program reads the field.** Whatever the core, the service loop and the stack do
in whatever order, byte by byte, the images the program reads as fresh inputs are images
the stack received, each whole, in the order in which they came; before the first of them
they are zeros. -/
theorem program_reads_field {cfg : BackendConfig} {caps : ProxyCaps} {openedUs : ℕ}
    {reply : List Byte} (hreply : reply.length = plcIpcMaxFrameBytes) {schedule : List PathAct}
    {p : Path}
    (hrecent : Meets (Path.step cfg) (fun before _ => before.watch.system.Recent)
      (Path.start caps openedUs reply) schedule)
    (hrun : exec (Path.step cfg) (Path.start caps openedUs reply) schedule = some p) :
    ∃ images, Sampled (List.replicate cfg.inputBytes 0 :: p.received) images ∧
      List.Forall₂ (fun image result => result.image = fit 0 image result.inLen) images
        p.watch.system.fresh := by
  have hstep : ∀ before act after,
      Watched before.watch ∧ Paired before.watch.system ∧ Ordered before.watch.system →
      before.watch.system.Recent → Path.step cfg before act = some after →
      Watched after.watch ∧ Paired after.watch.system ∧ Ordered after.watch.system := by
    rintro before act after ⟨hwatched, hpaired, hordered⟩ hnow hact
    obtain hsame | ⟨move, hmove⟩ := Path.step_watch hact
    · rw [hsame]
      exact ⟨hwatched, hpaired, hordered⟩
    · have hnext := hwatched.step hmove
      obtain ⟨system, hsystem, hafter⟩ := Option.map_eq_some_iff.mp hmove
      obtain ⟨hmoved, -⟩ := hwatched.linked.step hsystem
      rw [← hafter] at hnext ⊢
      exact ⟨hnext, hpaired.move hnow hmoved, hordered.move hpaired.numbered hmoved⟩
  have hstart : Paired (System.start caps openedUs) :=
    ⟨Numbered.start caps openedUs, rfl, fun _ hresult => by cases hresult⟩
  obtain ⟨-, hpaired, hordered⟩ := exec_invariant hstep
    ⟨Watched.start caps openedUs, hstart, Ordered.start caps openedUs⟩ hrecent hrun
  obtain ⟨accepted, hsublist, hgives⟩ := hpaired.exists_accepted hordered
  have hmade := (Joined.of_exec hreply hrun).made_sampled hreply
  refine ⟨accepted.map (·.message.payload), hmade.sublist (hsublist.map _), ?_⟩
  apply List.forall₂_map_left_iff.mpr
  exact hgives.imp fun _ _ hgive => hgive.image

theorem program_reads_field_onceAround :
    ∃ p, exec (Path.step smallBackend) (Path.start sampleCaps 1 (List.replicate 496 0))
        onceAround = some p ∧
      p.watch.system.fresh.map Result.image = [[9, 0]] ∧
      ∃ images, Sampled ([0] :: p.received) images ∧
        List.Forall₂ (fun image result => result.image = fit 0 image result.inLen) images
          p.watch.system.fresh := by
  have hview : (exec (Path.step smallBackend) (Path.start sampleCaps 1 (List.replicate 496 0))
      onceAround).map (fun p => p.watch.system.fresh.map Result.image) = some [[9, 0]] := by
    decide +kernel
  obtain ⟨p, hrun, hfresh⟩ := Option.map_eq_some_iff.mp hview
  have hreply : (List.replicate 496 (0 : Byte)).length = plcIpcMaxFrameBytes :=
    List.length_replicate
  have hrecent : Meets (Path.step smallBackend) (fun before _ => before.watch.system.Recent)
      (Path.start sampleCaps 1 (List.replicate 496 0)) onceAround := by decide +kernel
  exact ⟨p, hrun, hfresh, program_reads_field hreply hrecent hrun⟩

end SoftPlc.Cyclic
