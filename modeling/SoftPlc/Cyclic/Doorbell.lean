/-
# The two doorbells

A ring and its semaphore are separate counters, and each side updates them in
two steps. On the request path the adapter takes one post and pops one frame;
on the reply path the core takes one post and pops until the ring is empty.

The difference decides what a crash costs. A process that dies between its wait
and its pop has taken a post whose frame stays queued, and nothing ever posts
again for that frame: from then on the request ring is one frame ahead of its
doorbell. The reply path has no such debt, since one post is enough to find
everything that is queued.
-/

import SoftPlc.Cyclic.Numbering

namespace SoftPlc.Cyclic

open SoftPlc.Math SoftPlc.Ipc SoftPlc.Adapters

/-! ## Requests -/

/-- A request is pushed and its post is still to come. -/
def CoreStage.owesPost : CoreStage → ℕ
  | .postRequest _ => 1
  | .idle | .drainRing _ | .drainDoorbell _ | .pushRequest _ | .waitReply _ | .popReply _ => 0

/-- A post is taken and its pop is still to come. -/
def ServerStage.owesPop : ServerStage → ℕ
  | .popRequest => 1
  | .waitRequest | .serve _ _ | .pushReply _ | .drainReplies _ | .postReply _ => 0

/-- A death loses the post the process has taken. -/
theorem die_lost (s : System) : s.die.lost = s.lost + s.server.owesPop := by
  unfold System.die
  cases s.server <;> rfl

/-- **Doorbell accounting.** Posts, posts owed, pops owed and posts lost with a
process add up to the queued requests. -/
def DoorbellBalance (s : System) : Prop :=
  s.semReq + s.core.owesPost + s.server.owesPop + s.lost = s.requests.length

/-- Every move keeps the balance. -/
theorem DoorbellBalance.move {s : System} (h : DoorbellBalance s) {act : Act} {next : System}
    (hmove : Move s act next) : DoorbellBalance next := by
  unfold DoorbellBalance at h ⊢
  cases hmove with
  | rejected => exact h
  | begins exchange hcore hnumber hseq =>
      rw [hcore] at h
      exact h
  | drainsRing reading exchange rsp hcore =>
      rw [hcore] at h
      exact h
  | drainsDoorbell reading exchange hcore =>
      rw [hcore] at h
      exact h
  | pushes reading exchange req hcore hroom =>
      rw [hcore] at h
      simp only [CoreStage.owesPost, List.length_append, List.length_singleton] at h ⊢
      omega
  | misses _ exchange req now hact hcore =>
      rcases hcore with hcore | hcore <;> rw [hcore] at h <;> exact h
  | posts reading exchange hcore =>
      rw [hcore] at h
      simp only [CoreStage.owesPost] at h ⊢
      omega
  | wakes reading exchange hcore hposted =>
      rw [hcore] at h
      exact h
  | empties reading exchange rsp hcore hreplies =>
      rw [hcore] at h
      exact h
  | discards => exact h
  | faults reading exchange rsp frame now reply rest hcore hreplies hlate hseq =>
      rw [hcore] at h
      exact h
  | pairs reading exchange rsp frame reply rest outcome hcore hreplies hseq hends =>
      rw [hcore] at h
      exact h
  | serverWakes hserver hposted =>
      rw [hserver] at h
      simp only [ServerStage.owesPop] at h ⊢
      omega
  | serverEmpties req hserver hrequests =>
      -- A post was taken, so there is a request to find.
      rw [hserver, hrequests] at h
      simp only [ServerStage.owesPop, List.length_nil] at h
      omega
  | takes req frame request rest hserver hrequests hseq =>
      rw [hserver, hrequests] at h
      simp only [ServerStage.owesPop, List.length_cons] at h ⊢
      omega
  | answers number frame reply hserver hnumber hseq =>
      rw [hserver] at h
      exact h
  | replies reply rsp hserver hroom =>
      rw [hserver] at h
      exact h
  | refuses reply rsp hserver hfull =>
      rw [hserver] at h
      exact h
  | drains number rsp hserver =>
      rw [hserver] at h
      exact h
  | rings number hserver =>
      rw [hserver] at h
      exact h
  | dies =>
      have howes : ServerStage.waitRequest.owesPop = 0 := rfl
      rw [System.die_core, System.die_server, System.die_semReq, System.die_requests, die_lost,
        howes]
      omega

/-- The step is not a death between the doorbell wait and the pop. -/
def KeepsDoorbell (s : System) (act : Act) : Prop :=
  act = .die → s.server ≠ .popRequest

instance (s : System) (act : Act) : Decidable (KeepsDoorbell s act) :=
  inferInstanceAs (Decidable (_ → _))

/-- Only a death inside that window changes the count of lost posts. -/
theorem lost_move {s next : System} {act : Act} (hmove : Move s act next) :
    next.lost = s.lost + if KeepsDoorbell s act then 0 else 1 := by
  cases hmove with
  | dies =>
      rw [die_lost]
      by_cases hserver : s.server = .popRequest
      · simp [KeepsDoorbell, hserver, ServerStage.owesPop]
      · have hzero : s.server.owesPop = 0 := by
          cases hstage : s.server <;> simp_all [ServerStage.owesPop]
        simp [KeepsDoorbell, hserver, hzero]
  | misses _ exchange req now hact hcore =>
      rcases hact with ⟨reading, rfl⟩ | ⟨reading, rfl⟩ <;> simp [KeepsDoorbell, System.returning]
  | _ => simp [KeepsDoorbell, System.returning]

/-- **What the request doorbell is worth.** Take any run, and look at any state
it reaches in which the core is not between its push and its post and no live
adapter is between its wait and its pop. There the semaphore covers the queued
requests if and only if no adapter process ever died between its wait and its
pop. -/
theorem doorbell_covers_iff (role : Role) (caps : ProxyCaps) (openedUs : ℕ)
    (schedule : List Act) (s : System)
    (hrun : exec (System.step role) (System.start caps openedUs) schedule = some s)
    (hcore : ∀ exchange, s.core ≠ .postRequest exchange) (hserver : s.server ≠ .popRequest) :
    (plcSpscCount s.req).toNat ≤ s.semReq ↔
      Meets (System.step role) KeepsDoorbell (System.start caps openedUs) schedule := by
  have hall : Meets (System.step role) (fun _ _ => True) (System.start caps openedUs) schedule :=
    meets_of_forall (fun _ _ => trivial) _ _
  have hstart : DoorbellBalance (System.start caps openedUs) := rfl
  obtain ⟨hlinked, hbalance⟩ := run_invariant hstart
    (fun before act after _ hinv _ hmove => DoorbellBalance.move hinv hmove) hall hrun
  have hpreserved : ∀ before act after, Linked before →
      before.step role act = some after → Linked after :=
    fun before act after hinv hstep => (hinv.step hstep).2
  have hcount : ∀ before act after, Linked before → before.step role act = some after →
      after.lost = before.lost + if KeepsDoorbell before act then 0 else 1 :=
    fun before act after hinv hstep => lost_move (hinv.step hstep).1
  obtain ⟨-, hmeets⟩ := meets_iff_counter_eq hpreserved hcount (Linked.start caps openedUs) hrun
  have hnone : (System.start caps openedUs).lost = 0 := rfl
  have hpost : s.core.owesPost = 0 := by
    cases hstage : s.core with
    | postRequest exchange => exact absurd hstage (hcore exchange)
    | _ => rfl
  have hpop : s.server.owesPop = 0 := by
    cases hstage : s.server with
    | popRequest => exact absurd hstage hserver
    | _ => rfl
  unfold DoorbellBalance at hbalance
  rw [hmeets, hlinked.req_count, hnone]
  omega

/-- A process takes the doorbell, pops the request and dies while it serves it. The
exchange times out, and the next one is sent to the new process. -/
def diesServing : List Act :=
  sending [5] ++ [.server, .server, .die, .timeout 2000] ++ sending [6]

theorem doorbell_covers_iff_diesServing :
    ∃ s, exec (System.step .adapter) (System.start sampleCaps 1) diesServing = some s ∧
      (plcSpscCount s.req).toNat = 1 ∧ (plcSpscCount s.req).toNat ≤ s.semReq := by
  have hview : (exec (System.step .adapter) (System.start sampleCaps 1) diesServing).map
      (fun s => ((plcSpscCount s.req).toNat, s.core.owesPost, s.server)) =
      some (1, 0, .waitRequest) := by
    decide +kernel
  obtain ⟨s, hrun, hvalues⟩ := Option.map_eq_some_iff.mp hview
  simp only [Prod.mk.injEq] at hvalues
  obtain ⟨hcount, howes, hserver⟩ := hvalues
  refine ⟨s, hrun, hcount, (doorbell_covers_iff _ _ _ _ s hrun ?_ ?_).mpr (by decide +kernel)⟩
  · intro exchange hcore
    simp [hcore, CoreStage.owesPost] at howes
  · rw [hserver]
    decide

/-- **A crash that costs a doorbell.** The process dies between its wait and its
pop. The core is waiting, the new process is waiting, one request is queued,
and the semaphore is zero. -/
theorem dying_after_wait_loses_doorbell :
    ∃ s exchange, exec (System.step .adapter) (System.start sampleCaps 1)
        (sending [5] ++ [.server, .die]) = some s ∧
      s.core = .waitReply exchange ∧ s.server = .waitRequest ∧
      ¬ (plcSpscCount s.req).toNat ≤ s.semReq := by
  have hview : (exec (System.step .adapter) (System.start sampleCaps 1)
      (sending [5] ++ [.server, .die])).map
      (fun s => (s.core, s.server, (plcSpscCount s.req).toNat, s.semReq)) =
      some (.waitReply ⟨1, 1, [5], [0, 0], 10, by decide⟩, .waitRequest, 1, 0) := by
    decide +kernel
  obtain ⟨s, hrun, hvalues⟩ := Option.map_eq_some_iff.mp hview
  simp only [Prod.mk.injEq] at hvalues
  obtain ⟨hcore, hserver, hcount, hsem⟩ := hvalues
  refine ⟨s, _, hrun, hcore, hserver, ?_⟩
  rw [hcount, hsem]
  decide

/-! ## Replies -/

/-- A death only adds to the replies that were never posted. -/
theorem stranded_subset_die (s : System) : s.stranded ⊆ s.die.stranded := by
  unfold System.die
  split
  · exact List.Subset.refl _
  · exact List.subset_append_left _ _
  · exact List.Subset.refl _

/-- Some queued reply answers the exchange with this number. -/
def System.Answered (s : System) (number : ℕ) : Prop :=
  ∃ reply ∈ s.replies, reply.number = number

/-- Something other than a live process on its way to the post accounts for a
queued answer: a post to be taken, or a process that died before posting. -/
def System.Covered (s : System) (number : ℕ) : Prop :=
  0 < s.semRsp ∨ number ∈ s.stranded

/-- The exchange whose request is pushed and that is not inside its pop loop. -/
def CoreStage.outsidePop : CoreStage → Option Exchange
  | .postRequest exchange | .waitReply exchange => some exchange
  | .idle | .drainRing _ | .drainDoorbell _ | .pushRequest _ | .popReply _ => none

/-- **Wake-up invariant.** Once the request is pushed and outside the pop loop,
a queued answer has a post, a process about to post, or a dead process. -/
def WakeUp (s : System) : Prop :=
  ∀ exchange, s.core.outsidePop = some exchange → s.Answered exchange.number →
    s.Covered exchange.number ∨ s.server = .postReply exchange.number

namespace WakeUp

variable {s : System}

/-- The adapter is not about to post, so the answer is accounted for without
it. -/
theorem covered (h : WakeUp s) {exchange : Exchange}
    (hcore : s.core.outsidePop = some exchange) (hanswered : s.Answered exchange.number)
    (hserver : ∀ number, s.server ≠ .postReply number) : s.Covered exchange.number := by
  rcases h exchange hcore hanswered with hcovered | hposting
  · exact hcovered
  · exact absurd hposting (hserver _)

/-- Before its push no queued reply answers the exchange. -/
theorem not_answered (hnumbered : Numbered s) {exchange : Exchange}
    (hcore : s.core = .pushRequest exchange) : ¬ s.Answered exchange.number := by
  rintro ⟨reply, hreply, hequal⟩
  obtain ⟨hnumber, -, hbelow⟩ := hnumbered.preparing exchange (by rw [hcore]; rfl)
  have hissued : reply.number ∈ s.issued :=
    List.mem_append_left _ (List.mem_map_of_mem (hnumbered.mem_made hreply).1)
  have hlt := hbelow _ hissued
  omega

/-- Every move keeps the invariant. -/
theorem move (h : WakeUp s) (hnumbered : Numbered s) {act : Act} {next : System}
    (hmove : Move s act next) : WakeUp next := by
  cases hmove with
  | rejected => exact h
  | begins exchange hcore hnumber hseq => exact fun _ hexchange => by cases hexchange
  | drainsRing reading exchange rsp hcore => exact fun _ hexchange => by cases hexchange
  | drainsDoorbell reading exchange hcore => exact fun _ hexchange => by cases hexchange
  | pushes reading exchange req hcore hroom =>
      intro other hother hanswered
      cases hother
      exact absurd hanswered (not_answered hnumbered hcore)
  | misses _ exchange req now hact hcore => exact fun _ hexchange => by cases hexchange
  | posts reading exchange hcore =>
      intro other hother hanswered
      exact h other (by rw [hcore]; exact hother) hanswered
  | wakes reading exchange hcore hposted => exact fun _ hexchange => by cases hexchange
  | empties reading exchange rsp hcore hreplies =>
      rintro other hother ⟨reply, hreply, -⟩
      simp [hreplies] at hreply
  | discards reading exchange rsp frame reply rest hcore hreplies hlate =>
      intro other hother
      simp [hcore, CoreStage.outsidePop] at hother
  | faults reading exchange rsp frame now reply rest hcore hreplies hlate hseq =>
      exact fun _ hexchange => by cases hexchange
  | pairs reading exchange rsp frame reply rest outcome hcore hreplies hseq hends =>
      exact fun _ hexchange => by cases hexchange
  | serverWakes hserver hposted =>
      intro other hother hanswered
      exact .inl (h.covered hother hanswered (by rw [hserver]; exact nofun))
  | serverEmpties req hserver hrequests =>
      intro other hother hanswered
      exact .inl (h.covered hother hanswered (by rw [hserver]; exact nofun))
  | takes req frame request rest hserver hrequests hseq =>
      intro other hother hanswered
      exact .inl (h.covered hother hanswered (by rw [hserver]; exact nofun))
  | answers number frame reply hserver hnumber hseq =>
      intro other hother hanswered
      exact .inl (h.covered hother hanswered (by rw [hserver]; exact nofun))
  | replies reply rsp hserver hroom =>
      rintro other hother ⟨queued, hqueued, hequal⟩
      -- Either the answer was queued before, or it is the reply just pushed.
      rcases List.mem_append.mp hqueued with hold | hnew
      · exact .inl (h.covered hother ⟨queued, hold, hequal⟩ (by rw [hserver]; exact nofun))
      · rw [List.mem_singleton.mp hnew] at hequal
        exact .inr (by rw [← hequal])
  | refuses reply rsp hserver hfull =>
      intro other hother hanswered
      exact .inl (h.covered hother hanswered (by rw [hserver]; exact nofun))
  | drains number rsp hserver =>
      rintro other hother ⟨queued, hqueued, -⟩
      cases hqueued
  | rings number hserver => exact fun _ _ _ => .inl (.inl (Nat.succ_pos _))
  | dies =>
      intro other hother hanswered
      rw [System.die_core] at hother
      simp only [System.Answered, System.die_replies] at hanswered
      refine .inl ?_
      rcases h other hother hanswered with (hpost | hdead) | hposting
      · exact .inl (by rw [System.die_semRsp]; exact hpost)
      · exact .inr (stranded_subset_die s hdead)
      · refine .inr ?_
        simp [System.die, hposting]

end WakeUp

/-- **No lost wake-up.** Take any run, and any state it reaches in which the core
is blocked on an empty reply doorbell. Unless an adapter process stands between
its push of the awaited reply and the post, or died there, the reply ring, whose
contents are the listed replies, does not hold the awaited reply. -/
theorem no_lost_wakeup (role : Role) (caps : ProxyCaps) (openedUs : ℕ) (schedule : List Act)
    (s : System) (exchange : Exchange)
    (hrun : exec (System.step role) (System.start caps openedUs) schedule = some s)
    (hcore : s.core = .waitReply exchange) (hblocked : s.semRsp = 0)
    (hlive : s.server ≠ .postReply exchange.number) (hdead : exchange.number ∉ s.stranded) :
    Represents s.rsp (s.replies.map Tagged.message) ∧
      ∀ reply ∈ s.replies, reply.number ≠ exchange.number := by
  have hall : Meets (System.step role) (fun _ _ => True) (System.start caps openedUs) schedule :=
    meets_of_forall (fun _ _ => trivial) _ _
  have hstart : Numbered (System.start caps openedUs) ∧ WakeUp (System.start caps openedUs) :=
    ⟨Numbered.start caps openedUs, fun _ hexchange => by cases hexchange⟩
  have hmove : ∀ before act after, Linked before → Numbered before ∧ WakeUp before → True →
      Move before act after → Numbered after ∧ WakeUp after :=
    fun before act after _ hinv _ hmove => ⟨hinv.1.move hmove, hinv.2.move hinv.1 hmove⟩
  obtain ⟨hlinked, -, hwake⟩ := run_invariant hstart hmove hall hrun
  refine ⟨hlinked.rsp, fun reply hreply hequal => ?_⟩
  have hhere : s.core.outsidePop = some exchange := by
    rw [hcore]
    rfl
  rcases hwake exchange hhere ⟨reply, hreply, hequal⟩ with (hpost | hstranded) | hpost
  · omega
  · exact hdead hstranded
  · exact hlive hpost

/-- The reply to an abandoned exchange lands between the ring drain and the
doorbell drain of the next one, so its frame stays and its post is gone. -/
def landingBetweenDrains : List Act :=
  sending [5] ++ [.timeout 1010, .server, .server, .reply 0 [1]] ++
    [.exchange [6] [0, 0] 10, .core ⟨20, 21, 1⟩, .server, .server] ++
    List.replicate 3 (Act.core ⟨20, 21, 1⟩)

theorem no_lost_wakeup_landingBetweenDrains :
    ∃ s, exec (System.step .adapter) (System.start sampleCaps 1) landingBetweenDrains = some s ∧
      s.semRsp = 0 ∧ s.replies.map Tagged.number = [1] ∧
      ∀ reply ∈ s.replies, reply.number ≠ 2 := by
  have hview : (exec (System.step .adapter) (System.start sampleCaps 1)
      landingBetweenDrains).map
      (fun s => (s.core, s.server, s.semRsp, s.stranded, s.replies.map Tagged.number)) =
      some (.waitReply ⟨2, 2, [6], [0, 0], 10, by decide⟩, .waitRequest, 0, [], [1]) := by
    decide +kernel
  obtain ⟨s, hrun, hvalues⟩ := Option.map_eq_some_iff.mp hview
  simp only [Prod.mk.injEq] at hvalues
  obtain ⟨hcore, hserver, hsem, hstranded, hreplies⟩ := hvalues
  refine ⟨s, hrun, hsem, hreplies, ?_⟩
  refine (no_lost_wakeup _ _ _ _ s _ hrun hcore hsem ?_ ?_).2
  · rw [hserver]
    decide
  · rw [hstranded]
    exact List.not_mem_nil

end SoftPlc.Cyclic
