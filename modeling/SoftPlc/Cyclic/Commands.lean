/-
# The outputs on their way to the field

The other modules of this group follow the replies. This one follows the requests: the
outputs that each scan hands to `proxy_exchange`, through the request ring, to the call
that hands them to the protocol stack. An exchange can time out long before its request
is served, a request can be refused or be lost with an adapter process, and the next
process finds in the ring what the last one left there.

In spite of all that the outputs the stack is handed are outputs of scans, in the order
of the scans, and none of them twice. And when an exchange succeeds, its own outputs are
what the stack was handed last.
-/

import SoftPlc.Cyclic.Pairing

namespace SoftPlc.Cyclic

open SoftPlc.Math SoftPlc.Ipc SoftPlc.Adapters

/-- The payload of a frame, as `publish_outputs` and `exchange_images` are given it. -/
def outputsOf (frame : Frame) : List Byte := frame.data.take frame.len.toNat

/-- The outputs the adapter has popped and not yet handed on. -/
def ServerStage.holding : ServerStage → List (List Byte)
  | .serve _ frame => [outputsOf frame]
  | .waitRequest | .popRequest | .pushReply _ | .drainReplies _ | .postReply _ => []

/-- The outputs an act brings into the system. -/
def Act.outs : Act → List Byte
  | .exchange out _ _ => out
  | _ => []

/-- The system, with the outputs of the exchanges started and the outputs handed to the
stack, each in order. -/
structure Watch where
  system : System
  asked : List (List Byte)
  published : List (List Byte)

namespace Watch

def start (caps : ProxyCaps) (openedUs : ℕ) : Watch := ⟨System.start caps openedUs, [], []⟩

/-- One move, seen from the field. The adapter hands the outputs on right before it makes
its reply, and the two are one step. A process that dies between them leaves the same
system as one that dies right after the reply was made and before it was pushed, except
for the list of replies made, which no step reads. -/
def step (role : Role) (w : Watch) (act : Act) : Option Watch :=
  (w.system.step role act).map fun next =>
    { system := next
      asked := if next.started = w.system.started then w.asked else w.asked ++ [act.outs]
      published := match act with
        | .reply _ _ => w.published ++ w.system.server.holding
        | _ => w.published }

/-- The outputs that have been queued and not lost with a process. -/
def queued (w : Watch) : List (List Byte) :=
  w.published ++ (w.system.server.holding ++ w.system.requests.map (·.message.payload))

end Watch

/-- What is known of the outputs on their way. -/
structure Followed (w : Watch) : Prop where
  counted : w.asked.length = w.system.started
  queued : w.queued.Sublist w.asked
  preparing : ∀ exchange, w.system.core.preparing = some exchange →
    ∃ earlier, w.asked = earlier ++ [exchange.out] ∧ w.queued.Sublist earlier
  awaiting : ∀ exchange, w.system.core.awaiting = some exchange →
    w.asked.getLast? = some exchange.out
  newest_queued : ∀ request ∈ w.system.requests, request.number = w.system.started →
    w.asked.getLast? = some request.message.payload
  newest_held : ∀ number frame, w.system.server = .serve number frame →
    number = w.system.started → w.asked.getLast? = some (outputsOf frame)
  newest_published : ∀ reply ∈ w.system.made, reply.number = w.system.started →
    w.published.getLast? = w.asked.getLast?

namespace Followed

variable {w next : Watch}

theorem start (caps : ProxyCaps) (openedUs : ℕ) : Followed (Watch.start caps openedUs) where
  counted := rfl
  queued := List.Sublist.refl []
  preparing := fun _ hexchange => by cases hexchange
  awaiting := fun _ hexchange => by cases hexchange
  newest_queued := fun _ hrequest => by cases hrequest
  newest_held := fun _ _ hserver => by cases hserver
  newest_published := fun _ hreply => by cases hreply

/-- The core goes on with the exchange it has, or returns. -/
theorem set_core (h : Followed w) (hasked : next.asked = w.asked)
    (hpublished : next.published = w.published)
    (hrequests : next.system.requests = w.system.requests)
    (hmade : next.system.made = w.system.made) (hserver : next.system.server = w.system.server)
    (hstarted : next.system.started = w.system.started)
    (hpreparing : ∀ exchange, next.system.core.preparing = some exchange →
      w.system.core.preparing = some exchange)
    (hawaiting : ∀ exchange, next.system.core.awaiting = some exchange →
      w.system.core.awaiting = some exchange) : Followed next := by
  have hqueued : next.queued = w.queued := by
    simp only [Watch.queued, hpublished, hserver, hrequests]
  exact
    { counted := by rw [hasked, hstarted]; exact h.counted
      queued := by rw [hqueued, hasked]; exact h.queued
      preparing := by
        intro exchange hexchange
        rw [hqueued, hasked]
        exact h.preparing exchange (hpreparing exchange hexchange)
      awaiting := by
        intro exchange hexchange
        rw [hasked]
        exact h.awaiting exchange (hawaiting exchange hexchange)
      newest_queued := by rw [hrequests, hstarted, hasked]; exact h.newest_queued
      newest_held := by rw [hserver, hstarted, hasked]; exact h.newest_held
      newest_published := by
        rw [hmade, hstarted, hpublished, hasked]
        exact h.newest_published }

/-- The adapter goes on without taking a request or handing outputs on. -/
theorem set_server (h : Followed w) (hasked : next.asked = w.asked)
    (hpublished : next.published = w.published)
    (hrequests : next.system.requests = w.system.requests)
    (hmade : next.system.made = w.system.made) (hcore : next.system.core = w.system.core)
    (hstarted : next.system.started = w.system.started)
    (hholding : next.system.server.holding = []) : Followed next := by
  have hqueued : next.queued.Sublist w.queued := by
    simp only [Watch.queued, hpublished, hrequests, hholding, List.nil_append]
    exact (List.Sublist.refl _).append (List.sublist_append_right _ _)
  exact
    { counted := by rw [hasked, hstarted]; exact h.counted
      queued := by rw [hasked]; exact hqueued.trans h.queued
      preparing := by
        intro exchange hexchange
        rw [hcore] at hexchange
        obtain ⟨earlier, hlast, hbefore⟩ := h.preparing exchange hexchange
        rw [hasked]
        exact ⟨earlier, hlast, hqueued.trans hbefore⟩
      awaiting := by rw [hcore, hasked]; exact h.awaiting
      newest_queued := by rw [hrequests, hstarted, hasked]; exact h.newest_queued
      newest_held := by
        intro number frame hserver
        rw [hserver] at hholding
        cases hholding
      newest_published := by
        rw [hmade, hstarted, hpublished, hasked]
        exact h.newest_published }

/-- The core starts an exchange: its outputs are the newest. -/
theorem begins (h : Followed w) (hnumbered : Numbered w.system) (exchange : Exchange) :
    Followed
      { system := { w.system with
          core := .drainRing exchange
          proxy := { w.system.proxy with nextSeq := w.system.proxy.nextSeq + 1 }
          started := w.system.started + 1 }
        asked := w.asked ++ [exchange.out]
        published := w.published } := by
  -- no number that is about is the new one
  have hold : ∀ number ∈ w.system.issued, number ≠ w.system.started + 1 := by
    intro number hissued hnew
    exact absurd (hnumbered.le_started number hissued) (by omega)
  exact
    { counted := by simp [h.counted]
      queued := h.queued.trans (List.sublist_append_left _ _)
      preparing := by
        intro other hother
        cases hother
        exact ⟨w.asked, rfl, h.queued⟩
      awaiting := fun _ hother => by cases hother
      newest_queued := by
        intro request hrequest hnew
        apply absurd hnew
        apply hold
        exact List.mem_append_right _ (List.mem_append_right _ (List.mem_map_of_mem hrequest))
      newest_held := by
        intro number frame hserver hnew
        apply absurd hnew
        apply hold
        apply List.mem_append_right
        apply List.mem_append_left
        rw [show w.system.server = .serve number frame from hserver]
        exact List.mem_singleton_self number
      newest_published := by
        intro reply hreply hnew
        apply absurd hnew
        apply hold
        exact List.mem_append_left _ (List.mem_map_of_mem hreply) }

/-- The core pushes its request behind everything that is queued. -/
theorem pushes (h : Followed w) (req : Ring) {exchange : Exchange}
    (hcore : w.system.core = .pushRequest exchange) :
    Followed
      { w with system := { w.system with
          req := req
          requests := w.system.requests ++ [exchange.request]
          core := .postRequest exchange } } := by
  have hstage : w.system.core.preparing = some exchange := by rw [hcore]; rfl
  obtain ⟨earlier, hasked, hbefore⟩ := h.preparing exchange hstage
  have hlast : w.asked.getLast? = some exchange.out := by rw [hasked, List.getLast?_concat]
  exact
    { counted := h.counted
      queued := by
        have hpushed : w.queued ++ [exchange.out] =
            w.published ++ (w.system.server.holding ++
              (w.system.requests ++ [exchange.request]).map (·.message.payload)) := by
          simp [Watch.queued, Exchange.request]
        rw [Watch.queued, ← hpushed, hasked]
        exact hbefore.append (List.Sublist.refl _)
      preparing := fun _ hother => by cases hother
      awaiting := by
        intro other hother
        cases hother
        exact hlast
      newest_queued := by
        intro request hrequest hnew
        obtain hold | hown := List.mem_append.mp hrequest
        · exact h.newest_queued request hold hnew
        · rw [List.mem_singleton.mp hown]
          exact hlast
      newest_held := h.newest_held
      newest_published := h.newest_published }

theorem outputsOf_of_delivers {frame : Frame} {message : Message}
    (h : frame.Delivers message plcIpcMaxFrameBytes) : outputsOf frame = message.payload :=
  h.payload_eq.trans (List.take_of_length_le message.bounded)

/-- The adapter takes the oldest request: its outputs stay in their place. -/
theorem takes (h : Followed w) (req : Ring) {frame : Frame} {request : Tagged}
    {rest : List Tagged} (hserver : w.system.server = .popRequest)
    (hrequests : w.system.requests = request :: rest)
    (hdelivers : frame.Delivers request.message plcIpcMaxFrameBytes) :
    Followed
      { w with system := { w.system with
          req := req
          frame := frame
          requests := rest
          server := .serve request.number frame } } := by
  have hpayload := outputsOf_of_delivers hdelivers
  have hqueued : w.queued =
      w.published ++ ([outputsOf frame] ++ rest.map (·.message.payload)) := by
    rw [Watch.queued, hserver, hrequests, hpayload]
    rfl
  exact
    { counted := h.counted
      queued := by
        have hsublist := h.queued
        rw [hqueued] at hsublist
        exact hsublist
      preparing := by
        intro exchange hexchange
        obtain ⟨earlier, hasked, hbefore⟩ := h.preparing exchange hexchange
        rw [hqueued] at hbefore
        exact ⟨earlier, hasked, hbefore⟩
      awaiting := h.awaiting
      newest_queued := by
        intro other hother
        apply h.newest_queued other
        rw [hrequests]
        exact List.mem_cons_of_mem request hother
      newest_held := by
        intro number other hserve hnew
        cases hserve
        rw [hpayload]
        apply h.newest_queued request _ hnew
        rw [hrequests]
        exact List.mem_cons_self
      newest_published := h.newest_published }

/-- The adapter hands the outputs on. -/
theorem answers (h : Followed w) (hnumbered : Numbered w.system) {number : ℕ} {frame : Frame}
    {reply : Tagged} (hserver : w.system.server = .serve number frame)
    (hnumber : reply.number = number) :
    Followed
      { w with
        system := { w.system with
          made := w.system.made ++ [reply]
          server := .pushReply reply }
        published := w.published ++ w.system.server.holding } := by
  have hqueued : w.queued =
      w.published ++ w.system.server.holding ++
        ([] ++ w.system.requests.map (·.message.payload)) := by
    rw [Watch.queued, List.nil_append, List.append_assoc]
  exact
    { counted := h.counted
      queued := by
        have hsublist := h.queued
        rw [hqueued] at hsublist
        exact hsublist
      preparing := by
        intro exchange hexchange
        obtain ⟨earlier, hasked, hbefore⟩ := h.preparing exchange hexchange
        rw [hqueued] at hbefore
        exact ⟨earlier, hasked, hbefore⟩
      awaiting := h.awaiting
      newest_queued := h.newest_queued
      newest_held := fun _ _ hserve => by cases hserve
      newest_published := by
        -- an earlier reply is to an earlier exchange than the one in hand
        intro other hother hnew
        have hissued : number ∈ w.system.issued := by
          apply List.mem_append_right
          apply List.mem_append_left
          rw [hserver]
          exact List.mem_singleton_self number
        have hstarted : number = w.system.started := by
          obtain hold | hown := List.mem_append.mp hother
          · have hlt : other.number < number := by
              apply (List.pairwise_append.mp hnumbered.ordered).2.2 _ (List.mem_map_of_mem hold)
              apply List.mem_append_left
              rw [hserver]
              exact List.mem_singleton_self number
            have hle := hnumbered.le_started number hissued
            rw [hnew] at hlt
            exact absurd hle (Nat.not_le.mpr hlt)
          · rw [List.mem_singleton.mp hown, hnumber] at hnew
            exact hnew
        show (w.published ++ w.system.server.holding).getLast? = w.asked.getLast?
        rw [h.newest_held number frame hserver hstarted, hserver]
        exact List.getLast?_concat }

end Followed

theorem popCap_toNat : popCap.toNat = plcIpcMaxFrameBytes := by decide

/-- What a request brings with it when it is taken. -/
theorem Linked.takes_delivers {s next : System} {role : Role} {request : Tagged}
    {rest : List Tagged} (h : Linked s) (hserver : s.server = .popRequest)
    (hrequests : s.requests = request :: rest) (hstep : s.step role .server = some next) :
    ∃ frame, next.server = .serve request.number frame ∧
      frame.Delivers request.message plcIpcMaxFrameBytes := by
  have hqueue : Represents s.req (request.message :: rest.map Tagged.message) := by
    simpa [hrequests] using h.req
  obtain ⟨req, frame, hpop, hdelivers, -⟩ := plcSpscPop_of_nonempty hqueue s.frame popCap_le
  simp only [System.step, System.serverStep, hserver, System.serverPop, hpop, hrequests,
    List.tail_cons, List.head?_cons, Option.map_some, Option.getD_some, Option.some.injEq] at hstep
  subst hstep
  rw [popCap_toNat] at hdelivers
  exact ⟨frame, rfl, hdelivers⟩

/-- What holds along every run. -/
structure Watched (w : Watch) : Prop where
  linked : Linked w.system
  numbered : Numbered w.system
  followed : Followed w

namespace Watched

variable {w next : Watch} {role : Role} {act : Act}

theorem start (caps : ProxyCaps) (openedUs : ℕ) : Watched (Watch.start caps openedUs) :=
  ⟨Linked.start caps openedUs, Numbered.start caps openedUs, Followed.start caps openedUs⟩

/-- One move, and what it does to the two lists of outputs. -/
theorem step (h : Watched w) (hstep : w.step role act = some next) : Watched next := by
  obtain ⟨system, hsystem, rfl⟩ := Option.map_eq_some_iff.mp hstep
  obtain ⟨hmove, hlinked⟩ := h.linked.step hsystem
  refine ⟨hlinked, h.numbered.move hmove, ?_⟩
  have hfollowed := h.followed
  cases hmove with
  | rejected out input now =>
      rw [if_pos rfl]
      exact hfollowed
  | begins exchange hcore hnumber hseq =>
      rw [if_neg (Nat.succ_ne_self _)]
      exact hfollowed.begins h.numbered exchange
  | drainsRing reading exchange rsp hcore =>
      exact hfollowed.set_core (if_pos rfl) rfl rfl rfl rfl rfl
        (fun _ hexchange => by rw [hcore]; exact hexchange) (fun _ hexchange => by cases hexchange)
  | drainsDoorbell reading exchange hcore =>
      exact hfollowed.set_core (if_pos rfl) rfl rfl rfl rfl rfl
        (fun _ hexchange => by rw [hcore]; exact hexchange) (fun _ hexchange => by cases hexchange)
  | pushes reading exchange req hcore hroom =>
      rw [if_pos rfl]
      exact hfollowed.pushes req hcore
  | misses _ exchange req now hact hcore =>
      obtain ⟨reading, rfl⟩ | ⟨reading, rfl⟩ := hact
      all_goals
        exact hfollowed.set_core (if_pos rfl) rfl rfl rfl rfl rfl
          (fun _ hexchange => by cases hexchange) (fun _ hexchange => by cases hexchange)
  | posts reading exchange hcore =>
      exact hfollowed.set_core (if_pos rfl) rfl rfl rfl rfl rfl
        (fun _ hexchange => by cases hexchange) (fun _ hexchange => by rw [hcore]; exact hexchange)
  | wakes reading exchange hcore hposted =>
      exact hfollowed.set_core (if_pos rfl) rfl rfl rfl rfl rfl
        (fun _ hexchange => by cases hexchange) (fun _ hexchange => by rw [hcore]; exact hexchange)
  | empties reading exchange rsp hcore hreplies =>
      exact hfollowed.set_core (if_pos rfl) rfl rfl rfl rfl rfl
        (fun _ hexchange => by cases hexchange) (fun _ hexchange => by rw [hcore]; exact hexchange)
  | discards reading exchange rsp frame reply rest hcore hreplies hlate =>
      exact hfollowed.set_core (if_pos rfl) rfl rfl rfl rfl rfl
        (fun _ hexchange => hexchange) (fun _ hexchange => hexchange)
  | faults reading exchange rsp frame now reply rest hcore hreplies hlate hseq =>
      exact hfollowed.set_core (if_pos rfl) rfl rfl rfl rfl rfl
        (fun _ hexchange => by cases hexchange) (fun _ hexchange => by cases hexchange)
  | pairs reading exchange rsp frame reply rest outcome hcore hreplies hseq hends =>
      exact hfollowed.set_core (if_pos rfl) rfl rfl rfl rfl rfl
        (fun _ hexchange => by cases hexchange) (fun _ hexchange => by cases hexchange)
  | serverWakes hserver hposted =>
      exact hfollowed.set_server (if_pos rfl) rfl rfl rfl rfl rfl rfl
  | serverEmpties req hserver hrequests =>
      exact hfollowed.set_server (if_pos rfl) rfl rfl rfl rfl rfl rfl
  | takes req frame request rest hserver hrequests hseq =>
      obtain ⟨taken, htaken, hdelivers⟩ := h.linked.takes_delivers hserver hrequests hsystem
      cases htaken
      rw [if_pos rfl]
      exact hfollowed.takes req hserver hrequests hdelivers
  | answers number frame reply hserver hnumber hseq =>
      rw [if_pos rfl]
      exact hfollowed.answers h.numbered hserver hnumber
  | replies reply rsp hserver hroom =>
      exact hfollowed.set_server (if_pos rfl) rfl rfl rfl rfl rfl rfl
  | refuses reply rsp hserver hfull =>
      exact hfollowed.set_server (if_pos rfl) rfl rfl rfl rfl rfl rfl
  | drains number rsp hserver =>
      exact hfollowed.set_server (if_pos rfl) rfl rfl rfl rfl rfl rfl
  | rings number hserver =>
      exact hfollowed.set_server (if_pos rfl) rfl rfl rfl rfl rfl rfl
  | dies =>
      have hstarted : w.system.die.started = w.system.started := by
        unfold System.die
        split <;> rfl
      have hmade : w.system.die.made = w.system.made := by
        unfold System.die
        split <;> rfl
      refine hfollowed.set_server (if_pos hstarted) rfl (System.die_requests w.system) hmade
        (System.die_core w.system) hstarted ?_
      show w.system.die.server.holding = []
      rw [System.die_server]
      rfl

theorem of_exec {caps : ProxyCaps} {openedUs : ℕ} {schedule : List Act}
    (hrun : exec (Watch.step role) (Watch.start caps openedUs) schedule = some w) : Watched w :=
  exec_invariant_all (fun _ _ _ => step) (start caps openedUs) hrun

end Watched

/-- **The field is told what the scans said, in their order.** In every run, with
timeouts, refused requests and adapter processes that die and are replaced, the outputs
handed to the stack are among the outputs of the exchanges started, in the same order
and none of them twice. -/
theorem commands_in_order {role : Role} {caps : ProxyCaps} {openedUs : ℕ} {schedule : List Act}
    {w : Watch} (hrun : exec (Watch.step role) (Watch.start caps openedUs) schedule = some w) :
    w.asked.length = w.system.started ∧ w.published.Sublist w.asked := by
  have hwatched := Watched.of_exec hrun
  exact ⟨hwatched.followed.counted,
    (List.sublist_append_left _ _).trans hwatched.followed.queued⟩

/-- Three exchanges give up while the adapter is not serving; the process dies, and its
successor serves two of the requests it finds. -/
def servedLate : List Act :=
  sending [5] ++ .timeout 1010 :: sending [6] ++ .timeout 1010 :: .die :: sending [7] ++
    .timeout 1010 :: (answering [1] ++ answering [2])

theorem commands_in_order_servedLate :
    ∃ w, exec (Watch.step .adapter) (Watch.start sampleCaps 1) servedLate = some w ∧
      w.asked = [[5], [6], [7]] ∧ w.published = [[5], [6]] ∧ w.published.Sublist w.asked := by
  have hview : (exec (Watch.step .adapter) (Watch.start sampleCaps 1) servedLate).map
      (fun w => (w.asked, w.published)) = some ([[5], [6], [7]], [[5], [6]]) := by decide +kernel
  obtain ⟨w, hrun, hlists⟩ := Option.map_eq_some_iff.mp hview
  exact ⟨w, hrun, congrArg Prod.fst hlists, congrArg Prod.snd hlists, (commands_in_order hrun).2⟩

/-- An exchange that returns `PLC_OK` has matched a reply to it. -/
theorem Move.pairs_of_ok {s next : System} {act : Act} {result : Result} (h : Move s act next)
    (hreturns : next.results = s.results ++ [result]) (hok : result.status = .ok) :
    (next.made = s.made ∧ next.started = s.started) ∧
      ∃ exchange reply, s.core = .popReply exchange ∧ reply ∈ s.replies ∧
        reply.message.seq = exchange.seq ∧ result.number = exchange.number := by
  have hsame : s.results ≠ s.results ++ [result] := by simp
  cases h with
  | misses _ exchange req now hact hcore =>
      have hresult : result = ⟨exchange.number, exchange.input.length,
          (proxyFail s.proxy exchange.input .errTimeout now).2.1,
          (proxyFail s.proxy exchange.input .errTimeout now).2.2⟩ := by
        simpa [System.returning, eq_comm] using hreturns
      rw [hresult, proxyFail_status] at hok
      cases hok
  | faults reading exchange rsp frame now reply rest hcore hreplies hlate hseq =>
      have hresult : result = ⟨exchange.number, exchange.input.length,
          (proxyFail (countProtocolError s.proxy) exchange.input .errProto now).2.1,
          (proxyFail (countProtocolError s.proxy) exchange.input .errProto now).2.2⟩ := by
        simpa [System.returning, eq_comm] using hreturns
      rw [hresult, proxyFail_status] at hok
      cases hok
  | pairs reading exchange rsp frame reply rest outcome hcore hreplies hseq hends =>
      have hresult : result = ⟨exchange.number, exchange.input.length, outcome.2.1,
          outcome.2.2⟩ := by
        simpa [System.returning, eq_comm] using hreturns
      refine ⟨⟨rfl, rfl⟩, exchange, reply, hcore, ?_, hseq, by rw [hresult]⟩
      rw [hreplies]
      exact List.mem_cons_self
  | dies =>
      have hdie : s.die.results = s.results := by
        unfold System.die
        split <;> rfl
      exact absurd (hdie.symm.trans hreturns) hsame
  | _ => exact absurd hreturns hsame

/-- **A successful exchange has reached the stack.** When an exchange returns `PLC_OK`,
and all queued frames are recent, the outputs handed to the stack last are its own, and
they are those of the newest exchange. -/
theorem ok_means_published {role : Role} {caps : ProxyCaps} {openedUs : ℕ} {schedule : List Act}
    {act : Act} {before after : Watch} {result : Result}
    (hrun : exec (Watch.step role) (Watch.start caps openedUs) schedule = some before)
    (hrecent : before.system.Recent) (hstep : before.step role act = some after)
    (hreturns : after.system.results = before.system.results ++ [result])
    (hok : result.status = .ok) :
    result.number = after.asked.length ∧
      ∃ out, after.asked.getLast? = some out ∧ after.published.getLast? = some out := by
  have hwatched := Watched.of_exec hrun
  have hnumbered := hwatched.numbered
  have hafter := (hwatched.step hstep).followed
  obtain ⟨system, hsystem, rfl⟩ := Option.map_eq_some_iff.mp hstep
  obtain ⟨hmove, -⟩ := hwatched.linked.step hsystem
  obtain ⟨⟨hmade, hstarted⟩, exchange, reply, hcore, hreply, hseq, hresult⟩ :=
    hmove.pairs_of_ok hreturns hok
  have hstage : before.system.core.awaiting = some exchange := by rw [hcore]; rfl
  have hnewest : exchange.number = system.started :=
    (hnumbered.awaiting exchange hstage).1.trans hstarted.symm
  have hown : reply.number = exchange.number := by
    apply Paired.number_eq hnumbered hrecent hcore hreply
    rw [hseq, UInt32.sub_self]
    decide
  have hpublished := hafter.newest_published reply (hmade ▸ (hnumbered.mem_made hreply).1)
    (hown.trans hnewest)
  have hlast : before.asked.getLast? = some exchange.out :=
    hwatched.followed.awaiting exchange hstage
  have hasked : (if system.started = before.system.started then before.asked
      else before.asked ++ [act.outs]) = before.asked := if_pos hstarted
  refine ⟨hresult.trans (hnewest.trans hafter.counted.symm), exchange.out, ?_, ?_⟩
  · rw [← hlast]
    exact congrArg List.getLast? hasked
  · rw [hpublished, ← hlast]
    exact congrArg List.getLast? hasked

/-- The run of the pairing example, up to the pop that ends its second exchange. -/
def upToOwn : List Act :=
  sending [5] ++ .timeout 1010 :: sending [6] ++ answering [1] ++ answering [7, 8, 9] ++
    List.replicate 2 (Act.core ⟨20, 21, 1⟩)

theorem ok_means_published_upToOwn :
    ∃ before after, exec (Watch.step .adapter) (Watch.start sampleCaps 1) upToOwn = some before ∧
      before.step .adapter (.core ⟨20, 21, 1⟩) = some after ∧ after.asked = [[5], [6]] ∧
      after.published.getLast? = some [6] := by
  have hview : (exec (Watch.step .adapter) (Watch.start sampleCaps 1) upToOwn).map
      (fun w => (decide w.system.Recent, w.system.results)) =
      some (true, [⟨1, 2, .errTimeout, [0, 0]⟩]) := by decide +kernel
  have hlater : (exec (Watch.step .adapter) (Watch.start sampleCaps 1)
      (upToOwn ++ [.core ⟨20, 21, 1⟩])).map (fun w => (w.system.results, w.asked)) =
      some ([⟨1, 2, .errTimeout, [0, 0]⟩, ⟨2, 2, .ok, [7, 8]⟩], [[5], [6]]) := by decide +kernel
  obtain ⟨before, hrun, hbefore⟩ := Option.map_eq_some_iff.mp hview
  obtain ⟨after, hwhole, hafter⟩ := Option.map_eq_some_iff.mp hlater
  rw [exec_concat hrun] at hwhole
  simp only [Prod.mk.injEq, decide_eq_true_eq] at hbefore hafter
  obtain ⟨hrecent, hresults⟩ := hbefore
  obtain ⟨hboth, hasked⟩ := hafter
  have hreturns : after.system.results = before.system.results ++ [⟨2, 2, .ok, [7, 8]⟩] := by
    rw [hboth, hresults]
    rfl
  obtain ⟨-, out, hlast, hpublished⟩ := ok_means_published hrun hrecent hwhole hreturns rfl
  refine ⟨before, after, hrun, hwhole, hasked, ?_⟩
  rw [hpublished, ← hlast, hasked]
  rfl

end SoftPlc.Cyclic
