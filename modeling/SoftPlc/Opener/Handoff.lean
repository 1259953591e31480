/-
# The hand-off buffers, byte by byte

The stack thread and the service loop of the adapter process exchange images through two
buffers under a mutex. The backend's functions are atomic in the rest of this
development because each of them copies under that mutex. Here the copies are made one
byte at a time, interleaved with everything the other thread does, and the claim is
proved: a section of one thread commutes with what the other does outside the mutex, so
it happens at once.

It follows that no image is ever torn. What the stack puts on the wire are images that
the service loop published, whole and in their order; what the service loop answers
with are images that the stack received, whole and in their order.
-/

import SoftPlc.Math.Mutex
import SoftPlc.Math.Relay
import SoftPlc.Opener.Backend

namespace SoftPlc.Opener

open SoftPlc.Math SoftPlc.Ipc

/-- The two threads of the process. -/
inductive Thread
  | loop
  | stack
  deriving DecidableEq, Repr

/-- The memory of the process: the backend's, the buffer of the service loop, and as
history the frames serialised from the produced assembly and the images fetched. -/
structure Memory where
  backend : Backend
  reply : List Byte
  sent : List (List Byte) := []
  fetched : List (List Byte) := []
  deriving DecidableEq, Repr

/-- A byte copied under the mutex, the return of a fetch, and what the stack does
outside: it fills the consumed assembly, counts it, and serialises the produced one. -/
inductive MemoryOp
  | stage (i : ℕ) (byte : Byte)
  | latch (i : ℕ)
  | snapshot (i : ℕ)
  | fetch (i : ℕ)
  | returned (n : ℕ)
  | receive (data : List Byte)
  | count
  | send
  deriving DecidableEq, Repr

/-- One operation. -/
def MemoryOp.run (cfg : BackendConfig) (op : MemoryOp) (m : Memory) : Memory :=
  match op with
  | .stage i byte =>
      { m with backend := { m.backend with
          producedPending := m.backend.producedPending.set i byte } }
  | .latch i =>
      { m with backend := { m.backend with
          produced := m.backend.produced.set i (m.backend.producedPending.getD i 0) } }
  | .snapshot i =>
      { m with backend := { m.backend with
          consumedSnapshot := m.backend.consumedSnapshot.set i (m.backend.consumed.getD i 0) } }
  | .fetch i => { m with reply := m.reply.set i (m.backend.consumedSnapshot.getD i 0) }
  | .returned n => { m with fetched := m.fetched ++ [m.reply.take n] }
  | .receive data =>
      { m with backend := { m.backend with
          consumed := memcpy m.backend.consumed 0 data cfg.inputBytes } }
  | .count =>
      { m with backend := { m.backend with assemblyWrites := m.backend.assemblyWrites + 1 } }
  | .send => { m with sent := m.sent ++ [m.backend.produced.take cfg.outputBytes] }

/-- `opener_publish` between lock and unlock. -/
def publishSection (data : List Byte) (len : ℕ) : List MemoryOp :=
  let n := min len plcIpcMaxFrameBytes
  (List.range n).map (fun i => .stage i (data.getD i 0)) ++
    (List.range (plcIpcMaxFrameBytes - n)).map fun i => .stage (n + i) 0

/-- `opener_fetch` between lock and unlock, with the buffer of the service loop. -/
def fetchSection (cfg : BackendConfig) : List MemoryOp :=
  let n := min (min cfg.inputBytes plcIpcMaxFrameBytes) plcIpcMaxFrameBytes
  (List.range n).map .fetch ++ [.returned n]

/-- `BeforeAssemblyDataSend` between lock and unlock. -/
def latchSection : List MemoryOp := (List.range plcIpcMaxFrameBytes).map .latch

/-- `AfterAssemblyDataReceived` between lock and unlock. -/
def snapshotSection : List MemoryOp := (List.range plcIpcMaxFrameBytes).map .snapshot

/-- A call that takes the mutex, a step inside it or its release, or something the stack
does outside. -/
inductive HandoffAct
  | publish (data : List Byte) (len : ℕ)
  | fetch
  | latch
  | snapshot
  | work (who : Thread)
  | leave (who : Thread)
  | receive (data : List Byte)
  | count
  | send
  deriving DecidableEq, Repr

def HandoffAct.label (cfg : BackendConfig) : HandoffAct → GuardedLabel MemoryOp Thread
  | .publish data len => .enter .loop (publishSection data len)
  | .fetch => .enter .loop (fetchSection cfg)
  | .latch => .enter .stack latchSection
  | .snapshot => .enter .stack snapshotSection
  | .work who => .work who
  | .leave who => .leave who
  | .receive data => .own .stack (.receive data)
  | .count => .own .stack .count
  | .send => .own .stack .send

/-- One step of the process. -/
def handoffStep (cfg : BackendConfig) (g : Guarded Memory MemoryOp Thread) (act : HandoffAct) :
    Option (Guarded Memory MemoryOp Thread) :=
  g.step (MemoryOp.run cfg) (act.label cfg)

/-! ## A section is a call -/

variable {cfg : BackendConfig} {m : Memory}

/-- The buffers have their size. -/
structure Sized (m : Memory) : Prop where
  produced : m.backend.produced.length = plcIpcMaxFrameBytes
  consumed : m.backend.consumed.length = plcIpcMaxFrameBytes
  pending : m.backend.producedPending.length = plcIpcMaxFrameBytes
  snapshot : m.backend.consumedSnapshot.length = plcIpcMaxFrameBytes
  reply : m.reply.length = plcIpcMaxFrameBytes

theorem runAll_stage (places : List ℕ) (place : ℕ → ℕ) (byte : ℕ → Byte) (m : Memory) :
    runAll (MemoryOp.run cfg) (places.map fun i => .stage (place i) (byte i)) m =
      { m with backend := { m.backend with
          producedPending := places.foldl (fun buffer i => buffer.set (place i) (byte i))
            m.backend.producedPending } } := by
  induction places generalizing m with
  | nil => rfl
  | cons i rest ih => exact ih _

theorem runAll_latch (places : List ℕ) (m : Memory) :
    runAll (MemoryOp.run cfg) (places.map .latch) m =
      { m with backend := { m.backend with
          produced := places.foldl
            (fun buffer i => buffer.set i (m.backend.producedPending.getD i 0))
            m.backend.produced } } := by
  induction places generalizing m with
  | nil => rfl
  | cons i rest ih => exact ih _

theorem runAll_snapshot (places : List ℕ) (m : Memory) :
    runAll (MemoryOp.run cfg) (places.map .snapshot) m =
      { m with backend := { m.backend with
          consumedSnapshot := places.foldl
            (fun buffer i => buffer.set i (m.backend.consumed.getD i 0))
            m.backend.consumedSnapshot } } := by
  induction places generalizing m with
  | nil => rfl
  | cons i rest ih => exact ih _

theorem runAll_fetch (places : List ℕ) (m : Memory) :
    runAll (MemoryOp.run cfg) (places.map .fetch) m =
      { m with
        reply := places.foldl
          (fun buffer i => buffer.set i (m.backend.consumedSnapshot.getD i 0)) m.reply } := by
  induction places generalizing m with
  | nil => rfl
  | cons i rest ih => exact ih _

theorem runAll_append (first second : List MemoryOp) (m : Memory) :
    runAll (MemoryOp.run cfg) (first ++ second) m =
      runAll (MemoryOp.run cfg) second (runAll (MemoryOp.run cfg) first m) :=
  List.foldl_append

/-- The first bytes of a buffer, read one after the other. -/
theorem map_getD_range (src : List Byte) {n : ℕ} (hsrc : n ≤ src.length) :
    (List.range n).map (fun i => src.getD i 0) = src.take n := by
  apply List.ext_getElem
  · simp [hsrc]
  · intro place hleft hright
    have hlt : place < src.length := by
      rw [List.length_take] at hright
      omega
    simp [List.getElem?_eq_getElem hlt]

/-- Copying byte by byte from the start of one buffer to another. -/
theorem foldl_set_getD {dst src : List Byte} {n : ℕ} (hdst : n ≤ dst.length)
    (hsrc : n ≤ src.length) :
    (List.range n).foldl (fun buffer i => buffer.set i (src.getD i 0)) dst =
      memcpy dst 0 src n := by
  have hset := foldl_set_range (fun i => src.getD i 0) (show 0 + n ≤ dst.length by omega)
  simp only [Nat.zero_add] at hset
  rw [hset, map_getD_range src hsrc, memcpy, memcpy, List.take_take, Nat.min_self]

theorem runAll_latchSection (h : Sized m) :
    runAll (MemoryOp.run cfg) latchSection m =
      { m with backend := beforeAssemblyDataSend cfg m.backend cfg.producedAssembly } := by
  rw [latchSection, runAll_latch, foldl_set_getD h.produced.ge h.pending.ge,
    memcpy_all _ h.produced, ← h.pending, List.take_length, beforeAssemblyDataSend, if_pos rfl]

theorem runAll_snapshotSection (h : Sized m) :
    runAll (MemoryOp.run cfg) snapshotSection m =
      { m with backend := { m.backend with consumedSnapshot := m.backend.consumed } } := by
  rw [snapshotSection, runAll_snapshot, foldl_set_getD h.snapshot.ge h.consumed.ge,
    memcpy_all _ h.snapshot, ← h.consumed, List.take_length]

/-- The section of a publish is the call, for a frame that holds `len` bytes. -/
theorem runAll_publishSection (h : Sized m) {data : List Byte} {len : ℕ}
    (hdata : len ≤ data.length) :
    runAll (MemoryOp.run cfg) (publishSection data len) m =
      { m with backend := openerPublish m.backend data len } := by
  have hlen : min len plcIpcMaxFrameBytes ≤ plcIpcMaxFrameBytes := Nat.min_le_right _ _
  have hsrc : min len plcIpcMaxFrameBytes ≤ data.length := (Nat.min_le_left _ _).trans hdata
  have hdst : min len plcIpcMaxFrameBytes ≤ m.backend.producedPending.length :=
    hlen.trans h.pending.ge
  have hcopied := memcpy_zero_length hsrc hdst
  rw [publishSection, runAll_append, runAll_stage _ (fun i => i), foldl_set_getD hdst hsrc,
    runAll_stage _ (fun i => min len plcIpcMaxFrameBytes + i) fun _ => 0,
    foldl_set_range (fun _ => 0) (by rw [hcopied, h.pending]; omega)]
  simp only [openerPublish, memset, List.map_const', List.length_range]

theorem runAll_fetchSection (h : Sized m) :
    runAll (MemoryOp.run cfg) (fetchSection cfg) m =
      { m with
        reply := (openerFetch cfg m.backend m.reply plcIpcMaxFrameBytes).1
        fetched := m.fetched ++ [m.backend.consumedSnapshot.take cfg.inputBytes] } := by
  have hsize : min (min cfg.inputBytes plcIpcMaxFrameBytes) plcIpcMaxFrameBytes =
      cfg.inputBytes := by
    have hle := cfg.input_le
    omega
  have hsrc : cfg.inputBytes ≤ m.backend.consumedSnapshot.length := cfg.input_le.trans h.snapshot.ge
  have hdst : cfg.inputBytes ≤ m.reply.length := cfg.input_le.trans h.reply.ge
  simp only [fetchSection, hsize, openerFetch]
  rw [runAll_append, runAll_fetch, foldl_set_getD hdst hsrc]
  simp only [runAll, List.foldl_cons, List.foldl_nil, MemoryOp.run, take_memcpy_zero _ hsrc]

/-! ## The threads keep apart -/

/-- What each thread does under the mutex and what outside it. -/
def discipline : Discipline MemoryOp Thread where
  inside who op :=
    match who, op with
    | .loop, .stage _ _ | .loop, .fetch _ | .loop, .returned _ => True
    | .stack, .latch _ | .stack, .snapshot _ => True
    | _, _ => False
  outside who op :=
    match who, op with
    | .stack, .receive _ | .stack, .count | .stack, .send => True
    | _, _ => False

theorem discipline_apart : discipline.Apart (MemoryOp.run cfg) := by
  intro who other mine theirs m hother hmine htheirs
  cases who with
  | loop => cases mine <;> cases hmine
  | stack =>
      cases other with
      | stack => exact absurd rfl hother
      | loop =>
          cases mine <;> cases theirs <;> first | rfl | exact hmine.elim | exact htheirs.elim

theorem keeps_label (act : HandoffAct) : discipline.Keeps (act.label cfg) := by
  cases act with
  | publish data len =>
      intro op hop
      simp only [publishSection, List.mem_append, List.mem_map] at hop
      obtain ⟨i, -, rfl⟩ | ⟨i, -, rfl⟩ := hop <;> trivial
  | fetch =>
      intro op hop
      simp only [fetchSection, List.mem_append, List.mem_map, List.mem_singleton] at hop
      obtain ⟨i, -, rfl⟩ | rfl := hop <;> trivial
  | latch | snapshot =>
      intro op hop
      obtain ⟨i, -, rfl⟩ := List.mem_map.mp hop
      trivial
  | work | leave | receive | count | send => trivial

/-! ## The calls, each at once -/

/-- A frame of the service loop holds its length, and the stack accepts data of the
assembly's size only. -/
def HandoffAct.Fits (cfg : BackendConfig) : HandoffAct → Prop
  | .publish data len => len ≤ data.length
  | .receive data => data.length = cfg.inputBytes
  | _ => True

instance (act : HandoffAct) : Decidable (act.Fits cfg) :=
  match act with
  | .publish data len => inferInstanceAs (Decidable (len ≤ data.length))
  | .receive data => inferInstanceAs (Decidable (data.length = cfg.inputBytes))
  | .fetch | .latch | .snapshot | .work _ | .leave _ | .count | .send => isTrue trivial

/-- What an act does when a call happens at once: the functions of the backend. The
call-back of the consumed assembly is a snapshot and then a count. -/
def HandoffAct.call (cfg : BackendConfig) (m : Memory) : HandoffAct → Memory
  | .publish data len => { m with backend := openerPublish m.backend data len }
  | .fetch =>
      let reply := openerFetch cfg m.backend m.reply plcIpcMaxFrameBytes
      { m with reply := reply.1, fetched := m.fetched ++ [reply.1.take reply.2] }
  | .latch => { m with backend := beforeAssemblyDataSend cfg m.backend cfg.producedAssembly }
  | .snapshot => { m with backend := { m.backend with consumedSnapshot := m.backend.consumed } }
  | .receive data => MemoryOp.run cfg (.receive data) m
  | .count => MemoryOp.run cfg .count m
  | .send => MemoryOp.run cfg .send m
  | .work _ | .leave _ => m

theorem atOnce_label (h : Sized m) {act : HandoffAct} (hfits : act.Fits cfg) :
    atOnce (MemoryOp.run cfg) m (act.label cfg) = act.call cfg m := by
  cases act with
  | publish data len => exact runAll_publishSection h hfits
  | fetch =>
      have hroom : cfg.inputBytes ≤ m.backend.consumedSnapshot.length :=
        cfg.input_le.trans h.snapshot.ge
      obtain ⟨hsize, himage⟩ := openerFetch_eq cfg m.backend m.reply hroom
      simp only [HandoffAct.call, hsize, himage]
      exact runAll_fetchSection h
  | latch => exact runAll_latchSection h
  | snapshot => exact runAll_snapshotSection h
  | work | leave | receive | count | send => rfl

/-- A publish defines the whole buffer. -/
theorem openerPublish_pending {backend : Backend}
    (hpending : backend.producedPending.length = plcIpcMaxFrameBytes) {data : List Byte} {len : ℕ}
    (hdata : len ≤ data.length) :
    (openerPublish backend data len).producedPending =
      fit 0 (data.take len) plcIpcMaxFrameBytes := by
  have hlength : (data.take len).length = len := List.length_take_of_le hdata
  have hcopy : memcpy backend.producedPending 0 data (min len plcIpcMaxFrameBytes) =
      memcpy backend.producedPending 0 (data.take len) (min len plcIpcMaxFrameBytes) := by
    simp only [memcpy, List.take_take]
    congr 3
    omega
  have hfit := memset_memcpy_eq_fit (data.take len) 0 hpending
  rw [hlength] at hfit
  simp only [openerPublish, hcopy]
  exact hfit

theorem Sized.call (h : Sized m) {act : HandoffAct} (hfits : act.Fits cfg) :
    Sized (act.call cfg m) := by
  cases act with
  | publish data len =>
      refine ⟨h.produced, h.consumed, ?_, h.snapshot, h.reply⟩
      show (openerPublish m.backend data len).producedPending.length = _
      rw [openerPublish_pending h.pending hfits, fit_length]
  | fetch =>
      refine ⟨h.produced, h.consumed, h.pending, h.snapshot, ?_⟩
      have hsrc : min (min cfg.inputBytes plcIpcMaxFrameBytes) plcIpcMaxFrameBytes ≤
          plcIpcMaxFrameBytes := Nat.min_le_right _ _
      exact (memcpy_zero_length (hsrc.trans h.snapshot.ge) (hsrc.trans h.reply.ge)).trans h.reply
  | latch =>
      simp only [HandoffAct.call, beforeAssemblyDataSend, if_true]
      exact ⟨h.pending, h.consumed, h.pending, h.snapshot, h.reply⟩
  | snapshot => exact ⟨h.produced, h.consumed, h.pending, h.consumed, h.reply⟩
  | receive data =>
      have hdata : cfg.inputBytes ≤ data.length := hfits.ge
      have hroom : cfg.inputBytes ≤ m.backend.consumed.length := cfg.input_le.trans h.consumed.ge
      refine ⟨h.produced, ?_, h.pending, h.snapshot, h.reply⟩
      exact (memcpy_zero_length hdata hroom).trans h.consumed
  | work | leave | count | send => exact ⟨h.produced, h.consumed, h.pending, h.snapshot, h.reply⟩

/-- **The calls are atomic.** Whatever the threads do between the bytes of a call, the
memory with the call under way completed is what the calls give one after the other. -/
theorem completed_eq_calls (h : Sized m) {acts : List HandoffAct}
    {g : Guarded Memory MemoryOp Thread} (hfits : ∀ act ∈ acts, act.Fits cfg)
    (hrun : exec (handoffStep cfg) ⟨m, none⟩ acts = some g) :
    g.completed (MemoryOp.run cfg) = acts.foldl (HandoffAct.call cfg) m ∧
      g.Proper discipline := by
  have hkeeps : ∀ label ∈ acts.map (HandoffAct.label cfg), discipline.Keeps label := by
    intro label hlabel
    obtain ⟨act, -, rfl⟩ := List.mem_map.mp hlabel
    exact keeps_label act
  have hlabels : exec (Guarded.step (MemoryOp.run cfg)) ⟨m, none⟩
      (acts.map (HandoffAct.label cfg)) = some g := by
    rw [exec_map]
    exact hrun
  obtain ⟨hcompleted, hproper⟩ := Guarded.completed_exec discipline_apart hkeeps hlabels
  refine ⟨?_, hproper⟩
  rw [hcompleted, List.foldl_map]
  clear hkeeps hlabels hrun hcompleted hproper
  induction acts generalizing m with
  | nil => rfl
  | cons act rest ih =>
      obtain ⟨hact, hrest⟩ := List.forall_mem_cons.mp hfits
      rw [List.foldl_cons, List.foldl_cons, atOnce_label h hact]
      exact ih (h.call hact) hrest

/-! ## Whole images, in their order -/

/-- The outputs on their way to the wire, and the inputs on theirs to the service loop. -/
def outputs (cfg : BackendConfig) (m : Memory) : Relay (List Byte) :=
  ⟨m.backend.producedPending.take cfg.outputBytes, m.backend.produced.take cfg.outputBytes, m.sent⟩

def inputs (cfg : BackendConfig) (m : Memory) : Relay (List Byte) :=
  ⟨m.backend.consumed.take cfg.inputBytes, m.backend.consumedSnapshot.take cfg.inputBytes,
    m.fetched⟩

/-- The part an act has in the way of the outputs. -/
def HandoffAct.output? (cfg : BackendConfig) : HandoffAct → Option (RelayAct (List Byte))
  | .publish data len =>
      some (.put ((fit 0 (data.take len) plcIpcMaxFrameBytes).take cfg.outputBytes))
  | .latch => some .pass
  | .send => some .take
  | _ => none

/-- The part an act has in the way of the inputs. -/
def HandoffAct.input? : HandoffAct → Option (RelayAct (List Byte))
  | .receive data => some (.put data)
  | .snapshot => some .pass
  | .fetch => some .take
  | _ => none

theorem outputs_call (h : Sized m) {act : HandoffAct} (hfits : act.Fits cfg) :
    outputs cfg (act.call cfg m) = (act.output? cfg).elim (outputs cfg m) (outputs cfg m).step := by
  cases act with
  | publish data len =>
      have hpending := openerPublish_pending h.pending hfits
      simp only [outputs, HandoffAct.call, hpending]
      rfl
  | latch =>
      simp only [outputs, HandoffAct.call, beforeAssemblyDataSend, if_true]
      rfl
  | fetch | snapshot | work | leave | receive | count | send => rfl

theorem inputs_call (h : Sized m) {act : HandoffAct} (hfits : act.Fits cfg) :
    inputs cfg (act.call cfg m) = act.input?.elim (inputs cfg m) (inputs cfg m).step := by
  cases act with
  | receive data =>
      have hdata : data.length = cfg.inputBytes := hfits
      have hwhole :
          (memcpy m.backend.consumed 0 data cfg.inputBytes).take cfg.inputBytes = data := by
        rw [take_memcpy_zero _ hdata.ge, ← hdata, List.take_length]
      simp only [inputs, HandoffAct.call, MemoryOp.run, hwhole]
      rfl
  | fetch =>
      have hroom : cfg.inputBytes ≤ m.backend.consumedSnapshot.length :=
        cfg.input_le.trans h.snapshot.ge
      obtain ⟨hsize, himage⟩ := openerFetch_eq cfg m.backend m.reply hroom
      simp only [inputs, HandoffAct.call, hsize, himage]
      rfl
  | latch =>
      simp only [inputs, HandoffAct.call, beforeAssemblyDataSend, if_true]
      rfl
  | publish | snapshot | work | leave | count | send => rfl

/-- The histories only grow. -/
theorem runAll_logs (ops : List MemoryOp) (m : Memory) :
    m.sent <+: (runAll (MemoryOp.run cfg) ops m).sent ∧
      m.fetched <+: (runAll (MemoryOp.run cfg) ops m).fetched := by
  induction ops generalizing m with
  | nil => exact ⟨List.prefix_rfl, List.prefix_rfl⟩
  | cons op rest ih =>
      obtain ⟨hsent, hfetched⟩ := ih (op.run cfg m)
      cases op with
      | returned n => exact ⟨hsent, (List.prefix_append _ _).trans hfetched⟩
      | send => exact ⟨(List.prefix_append _ _).trans hsent, hfetched⟩
      | stage | latch | snapshot | fetch | receive | count => exact ⟨hsent, hfetched⟩

theorem completed_logs (cfg : BackendConfig) (g : Guarded Memory MemoryOp Thread) :
    g.memory.sent <+: (g.completed (MemoryOp.run cfg)).sent ∧
      g.memory.fetched <+: (g.completed (MemoryOp.run cfg)).fetched := by
  cases hheld : g.held with
  | none =>
      simp only [Guarded.completed, hheld]
      exact ⟨List.prefix_rfl, List.prefix_rfl⟩
  | some pair =>
      simp only [Guarded.completed, hheld]
      exact runAll_logs pair.2 g.memory

/-- The stack leaves the buffer of the service loop alone. -/
theorem runAll_reply {ops : List MemoryOp} (hops : ∀ op ∈ ops, discipline.inside .stack op)
    (m : Memory) : (runAll (MemoryOp.run cfg) ops m).reply = m.reply := by
  induction ops generalizing m with
  | nil => rfl
  | cons op rest ih =>
      obtain ⟨hop, hrest⟩ := List.forall_mem_cons.mp hops
      apply (ih hrest (op.run cfg m)).trans
      cases op with
      | fetch => exact hop.elim
      | _ => rfl

/-- The memory of a process that starts, with what its service loop has on the stack. -/
def Memory.start (reply : List Byte) : Memory := { backend := Backend.start, reply := reply }

theorem Sized.start {reply : List Byte} (hreply : reply.length = plcIpcMaxFrameBytes) :
    Sized (Memory.start reply) :=
  ⟨List.length_replicate, List.length_replicate, List.length_replicate, List.length_replicate,
    hreply⟩

/-- The images published, as far as the produced assembly goes. -/
def HandoffAct.published? (cfg : BackendConfig) (act : HandoffAct) : Option (List Byte) :=
  (act.output? cfg).bind RelayAct.value?

/-- The images received. -/
def HandoffAct.received? (act : HandoffAct) : Option (List Byte) := act.input?.bind RelayAct.value?

/-- The same of the calls, one after the other. -/
theorem calls_sampled {reply : List Byte} (hreply : reply.length = plcIpcMaxFrameBytes)
    {acts : List HandoffAct} (hfits : ∀ act ∈ acts, act.Fits cfg) :
    Sampled (List.replicate cfg.outputBytes 0 :: acts.filterMap (HandoffAct.published? cfg))
        (acts.foldl (HandoffAct.call cfg) (Memory.start reply)).sent ∧
      Sampled (List.replicate cfg.inputBytes 0 :: acts.filterMap HandoffAct.received?)
        (acts.foldl (HandoffAct.call cfg) (Memory.start reply)).fetched := by
  have hstart : Sized (Memory.start reply) := Sized.start hreply
  have hkeep : ∀ m (act : HandoffAct), Sized m → act.Fits cfg → Sized (act.call cfg m) :=
    fun m act hsized => hsized.call
  have houtputs := Relay.shown_by hkeep (fun m act hsized => outputs_call hsized) hfits _ hstart
  have hinputs := Relay.shown_by hkeep (fun m act hsized => inputs_call hsized) hfits _ hstart
  have hzeros : ∀ n ≤ plcIpcMaxFrameBytes,
      (List.replicate plcIpcMaxFrameBytes (0 : Byte)).take n = List.replicate n 0 := by
    intro n hn
    rw [List.take_replicate, Nat.min_eq_left hn]
  have houtputsStart : outputs cfg (Memory.start reply) =
      ⟨List.replicate cfg.outputBytes 0, List.replicate cfg.outputBytes 0, []⟩ := by
    simp only [outputs, Memory.start, Backend.start, hzeros _ cfg.output_le]
  have hinputsStart : inputs cfg (Memory.start reply) =
      ⟨List.replicate cfg.inputBytes 0, List.replicate cfg.inputBytes 0, []⟩ := by
    simp only [inputs, Memory.start, Backend.start, hzeros _ cfg.input_le]
  constructor
  · have hsampled := Relay.sampled (List.replicate cfg.outputBytes 0)
      (acts.filterMap (HandoffAct.output? cfg))
    rw [← houtputsStart, ← houtputs, List.filterMap_filterMap] at hsampled
    exact hsampled
  · have hsampled := Relay.sampled (List.replicate cfg.inputBytes 0)
      (acts.filterMap HandoffAct.input?)
    rw [← hinputsStart, ← hinputs, List.filterMap_filterMap] at hsampled
    exact hsampled

/-- **No image is torn.** Whatever the threads do between the bytes of each other's copies,
the frames on the wire are images that the service loop published, each whole, and in the
order of the publishing; and the images the service loop fetches are images the stack
received, each whole, and in the order of their arrival. Before the first image both are
zeros. -/
theorem handoff_whole {reply : List Byte} (hreply : reply.length = plcIpcMaxFrameBytes)
    {acts : List HandoffAct} {g : Guarded Memory MemoryOp Thread}
    (hfits : ∀ act ∈ acts, act.Fits cfg)
    (hrun : exec (handoffStep cfg) ⟨Memory.start reply, none⟩ acts = some g) :
    Sampled (List.replicate cfg.outputBytes 0 :: acts.filterMap (HandoffAct.published? cfg))
        g.memory.sent ∧
      Sampled (List.replicate cfg.inputBytes 0 :: acts.filterMap HandoffAct.received?)
        g.memory.fetched := by
  obtain ⟨hcalls, -⟩ := completed_eq_calls (Sized.start hreply) hfits hrun
  obtain ⟨hsent, hfetched⟩ := completed_logs cfg g
  obtain ⟨houtputs, hinputs⟩ := calls_sampled hreply hfits
  rw [← hcalls] at houtputs hinputs
  exact ⟨houtputs.sublist hsent.sublist, hinputs.sublist hfetched.sublist⟩

/-- One byte fits a frame. -/
theorem one_le_plcIpcMaxFrameBytes : 1 ≤ plcIpcMaxFrameBytes :=
  Nat.le_of_succ_le two_le_plcIpcMaxFrameBytes

/-- Two bytes out and one byte in. -/
def smallBackend : BackendConfig :=
  { producedAssembly := 100
    consumedAssembly := 150
    configAssembly := 151
    outputBytes := 2
    inputBytes := 1
    output_le := two_le_plcIpcMaxFrameBytes
    input_le := one_le_plcIpcMaxFrameBytes }

/-- A frame goes out between the bytes of a publish, and again after the latch; data
arrives in the middle of a fetch. -/
def crossedCopies : List HandoffAct :=
  [.publish [7, 8] 2, .work .loop, .send] ++ List.replicate 495 (.work .loop) ++
    [.leave .loop, .latch, .work .stack] ++ List.replicate 495 (.work .stack) ++
    [.leave .stack, .send, .fetch, .receive [5], .work .loop, .work .loop, .leave .loop]

/-- The first frame is still zeros although a byte of the publish was there. -/
theorem handoff_whole_crossedCopies :
    ((exec (handoffStep smallBackend) ⟨Memory.start (List.replicate 496 0), none⟩
        crossedCopies).map fun g => (g.memory.sent, g.memory.fetched)) =
      some ([[0, 0], [7, 8]], [[0]]) ∧
    Sampled [[0, 0], [7, 8]] ([[0, 0], [7, 8]] : List (List Byte)) ∧
      Sampled [[0], [5]] ([[0]] : List (List Byte)) := by
  have hlogs : ((exec (handoffStep smallBackend) ⟨Memory.start (List.replicate 496 0), none⟩
      crossedCopies).map fun g => (g.memory.sent, g.memory.fetched)) =
      some ([[0, 0], [7, 8]], [[0]]) := by decide +kernel
  obtain ⟨g, hrun, hsame⟩ := Option.map_eq_some_iff.mp hlogs
  obtain ⟨hsent, hfetched⟩ := Prod.mk.inj hsame
  have hfits : ∀ act ∈ crossedCopies, act.Fits smallBackend := by decide +kernel
  have hreply : (List.replicate 496 (0 : Byte)).length = plcIpcMaxFrameBytes :=
    List.length_replicate
  have hpublished : crossedCopies.filterMap (HandoffAct.published? smallBackend) = [[7, 8]] := by
    decide +kernel
  have hreceived : crossedCopies.filterMap HandoffAct.received? = [[5]] := by decide +kernel
  have hwhole := handoff_whole hreply hfits hrun
  rw [hsent, hfetched, hpublished, hreceived] at hwhole
  exact ⟨hlogs, hwhole⟩

end SoftPlc.Opener
