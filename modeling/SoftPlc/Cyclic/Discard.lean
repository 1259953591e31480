/-
# Replies the adapter throws away

When the reply ring is full the adapter drops the reply it holds and drains the
ring, on the grounds that all of it is stale. The core can have four requests
queued and a fifth in the adapter's hand, and the ring takes four replies, so
the fifth may be the one the core is waiting for.

Which of the two happens is decided by a length. The awaited request is the last
of the unanswered ones. While another request is queued behind the one in the
adapter's hand, the reply in hand is not the awaited one; when none is, it is.
-/

import SoftPlc.Cyclic.Numbering

namespace SoftPlc.Cyclic

open SoftPlc.Math SoftPlc.Ipc SoftPlc.Adapters

/-- The number of the request the adapter holds, until its reply is pushed or
dropped. -/
def ServerStage.hand : ServerStage → List ℕ
  | .serve number _ => [number]
  | .pushReply reply => [reply.number]
  | .waitRequest | .popRequest | .drainReplies _ | .postReply _ => []

/-- The requests that no reply was pushed or dropped for, oldest first. -/
def System.unanswered (s : System) : List ℕ :=
  s.server.hand ++ s.requests.map Tagged.number

/-- **Discards are stale.** Between a refused push and the end of the drain that
follows it, neither the dropped reply nor a reply about to be drained answers
the exchange the core is waiting for. -/
def DiscardsStale (s : System) : Prop :=
  ∀ dropped exchange, s.server = .drainReplies dropped → s.core.awaiting = some exchange →
    dropped ≠ exchange.number ∧ ∀ reply ∈ s.replies, reply.number ≠ exchange.number

/-- The step is the adapter's push of a reply on a full ring. -/
def System.refusesReply (s : System) (act : Act) : Bool :=
  match act, s.server with
  | .server, .pushReply _ => decide (plcIpcRingSlots ≤ (plcSpscCount s.rsp).toNat)
  | _, _ => false

/-- A reply is refused only while the core waits for nothing or a further
request is queued. -/
def RequestBehind (s : System) (act : Act) : Prop :=
  s.refusesReply act = true → s.core.awaiting.isSome = true → 0 < (plcSpscCount s.req).toNat

instance (s : System) (act : Act) : Decidable (RequestBehind s act) :=
  inferInstanceAs (Decidable (_ → _ → _))

/-! ## The awaited request is the last unanswered one -/

/-- What is left of a list after its front is gone has the same last element. -/
theorem eq_nil_or_getLast?_of_suffix {older newer : List ℕ} {last : ℕ}
    (hsuffix : newer <:+ older) (holder : older = [] ∨ older.getLast? = some last) :
    newer = [] ∨ newer.getLast? = some last := by
  obtain ⟨gone, rfl⟩ := hsuffix
  rcases holder with hnil | hlast
  · exact .inl (List.append_eq_nil_iff.mp hnil).2
  · cases newer with
    | nil => exact .inl rfl
    | cons head rest =>
        refine .inr ?_
        rw [List.getLast?_append] at hlast
        simpa [List.getLast?_cons] using hlast

/-- The invariant: the awaited request, if it is still unanswered, is the last
one; and a dropped reply is one the adapter made. -/
structure AwaitsLast (s : System) : Prop where
  last : ∀ exchange, s.core.awaiting = some exchange →
    s.unanswered = [] ∨ s.unanswered.getLast? = some exchange.number
  dropped : ∀ number, s.server = .drainReplies number →
    number ∈ s.made.map Tagged.number

namespace AwaitsLast

variable {s : System}

theorem start (caps : ProxyCaps) (openedUs : ℕ) : AwaitsLast (System.start caps openedUs) where
  last := fun exchange hexchange => by cases hexchange
  dropped := fun number hnumber => by cases hnumber

/-- The core goes on, or returns, and the adapter keeps its place. -/
theorem set_core (h : AwaitsLast s) {next : System} (hserver : next.server = s.server)
    (hrequests : next.requests = s.requests) (hmade : next.made = s.made)
    (hawaiting : ∀ exchange, next.core.awaiting = some exchange →
      s.core.awaiting = some exchange) : AwaitsLast next where
  last := by
    intro exchange hexchange
    simp only [System.unanswered, hserver, hrequests]
    exact h.last exchange (hawaiting exchange hexchange)
  dropped := by
    rw [hserver, hmade]
    exact h.dropped

/-- The adapter goes on, and may lose what it holds. -/
theorem set_server (h : AwaitsLast s) {next : System} (hcore : next.core = s.core)
    (hsuffix : next.unanswered <:+ s.unanswered)
    (hdropped : ∀ number, next.server ≠ .drainReplies number) : AwaitsLast next where
  last := by
    intro exchange hexchange
    rw [hcore] at hexchange
    exact eq_nil_or_getLast?_of_suffix hsuffix (h.last exchange hexchange)
  dropped := fun number hnumber => absurd hnumber (hdropped number)

/-- Every move keeps the invariant. -/
theorem move (h : AwaitsLast s) (hnumbered : Numbered s) {act : Act} {next : System}
    (hmove : Move s act next) : AwaitsLast next := by
  cases hmove with
  | rejected => exact h
  | begins exchange hcore hnumber hseq =>
      exact h.set_core rfl rfl rfl fun _ hexchange => by cases hexchange
  | drainsRing reading exchange rsp hcore =>
      exact h.set_core rfl rfl rfl fun _ hexchange => by cases hexchange
  | drainsDoorbell reading exchange hcore =>
      exact h.set_core rfl rfl rfl fun _ hexchange => by cases hexchange
  | pushes reading exchange req hcore hroom =>
      refine ⟨?_, h.dropped⟩
      intro other hother
      cases hother
      exact .inr (by simp [System.unanswered, Exchange.request])
  | misses _ exchange req now hact hcore =>
      exact h.set_core rfl rfl rfl fun _ hexchange => by cases hexchange
  | posts reading exchange hcore =>
      exact h.set_core rfl rfl rfl fun _ hexchange => by rw [hcore]; exact hexchange
  | wakes reading exchange hcore hposted =>
      exact h.set_core rfl rfl rfl fun _ hexchange => by rw [hcore]; exact hexchange
  | empties reading exchange rsp hcore hreplies =>
      exact h.set_core rfl rfl rfl fun _ hexchange => by rw [hcore]; exact hexchange
  | discards reading exchange rsp frame reply rest hcore hreplies hlate =>
      exact h.set_core rfl rfl rfl fun _ hexchange => hexchange
  | faults reading exchange rsp frame now reply rest hcore hreplies hlate hseq =>
      exact h.set_core rfl rfl rfl fun _ hexchange => by cases hexchange
  | pairs reading exchange rsp frame reply rest outcome hcore hreplies hseq hends =>
      exact h.set_core rfl rfl rfl fun _ hexchange => by cases hexchange
  | serverWakes hserver hposted =>
      exact h.set_server rfl (List.suffix_append _ _) fun _ hdrain => by cases hdrain
  | serverEmpties req hserver hrequests =>
      exact h.set_server rfl (List.suffix_append _ _) fun _ hdrain => by cases hdrain
  | takes req frame request rest hserver hrequests hseq =>
      refine h.set_server rfl ?_ fun _ hdrain => by cases hdrain
      simp [System.unanswered, hserver, hrequests, ServerStage.hand]
  | answers number frame reply hserver hnumber hseq =>
      refine ⟨?_, fun number hdrain => by cases hdrain⟩
      have hlast := h.last
      simp only [System.unanswered, hserver, ServerStage.hand] at hlast
      simpa only [System.unanswered, ServerStage.hand, hnumber] using hlast
  | replies reply rsp hserver hroom =>
      exact h.set_server rfl (List.suffix_append _ _) fun _ hdrain => by cases hdrain
  | refuses reply rsp hserver hfull =>
      refine ⟨fun exchange hexchange => ?_, fun number hdrain => ?_⟩
      · exact eq_nil_or_getLast?_of_suffix (List.suffix_append _ _) (h.last exchange hexchange)
      · cases hdrain
        have hmade := hnumbered.replies_made
        rw [hserver] at hmade
        exact List.mem_map_of_mem (hmade.subset (by simp [ServerStage.pushing]))
  | drains number rsp hserver =>
      exact h.set_server rfl (List.suffix_append _ _) fun _ hdrain => by cases hdrain
  | rings number hserver =>
      exact h.set_server rfl (List.suffix_append _ _) fun _ hdrain => by cases hdrain
  | dies =>
      refine h.set_server (System.die_core s) ?_ ?_
      · simp only [System.unanswered, System.die_server, System.die_requests]
        exact List.suffix_append _ _
      · rw [System.die_server]
        exact fun _ hdrain => by cases hdrain

end AwaitsLast

namespace DiscardsStale

variable {s : System}

/-- The core goes on with the exchange it awaits, or returns. -/
theorem set_core (h : DiscardsStale s) {next : System} (hserver : next.server = s.server)
    (hreplies : next.replies ⊆ s.replies)
    (hawaiting : ∀ exchange, next.core.awaiting = some exchange →
      s.core.awaiting = some exchange) : DiscardsStale next := by
  intro dropped exchange hdrain hexchange
  rw [hserver] at hdrain
  obtain ⟨hdropped, hqueued⟩ := h dropped exchange hdrain (hawaiting exchange hexchange)
  exact ⟨hdropped, fun reply hreply => hqueued reply (hreplies hreply)⟩

/-- A new request is newer than everything that may be thrown away. -/
theorem pushes (hnumbered : Numbered s) (hlast : AwaitsLast s) {exchange : Exchange} (req : Ring)
    (hcore : s.core = .pushRequest exchange) :
    DiscardsStale { s with
      req := req
      requests := s.requests ++ [exchange.request]
      core := .postRequest exchange } := by
  obtain ⟨hnumber, -, hbelow⟩ := hnumbered.preparing exchange (by rw [hcore]; rfl)
  have hmade : ∀ number ∈ s.made.map Tagged.number, number ≠ exchange.number := by
    intro number hmem
    have hlt := hbelow number (List.mem_append_left _ hmem)
    omega
  intro dropped other hdrain hother
  cases hother
  refine ⟨hmade dropped (hlast.dropped dropped hdrain), fun reply hreply => ?_⟩
  exact hmade _ (List.mem_map_of_mem (hnumbered.mem_made hreply).1)

/-- While a request is queued behind it, a refused reply is not the awaited one,
and neither is anything in the ring; when none is, it is the awaited one. -/
theorem refuses_iff (hlinked : Linked s) (hnumbered : Numbered s) (hlast : AwaitsLast s)
    {reply : Tagged} (rsp : Ring) (hserver : s.server = .pushReply reply)
    (hfull : s.replies.length = 4) :
    RequestBehind s .server ↔
      DiscardsStale { s with rsp := rsp, server := .drainReplies reply.number } := by
  have hrefuses : s.refusesReply .server = true := by
    simp [System.refusesReply, hserver, hlinked.rsp_count, hfull, plcIpcRingSlots]
  simp only [RequestBehind, hrefuses, true_implies, hlinked.req_count]
  constructor
  · intro hbehind dropped exchange hdrain hexchange
    cases hdrain
    have hsome : s.core.awaiting.isSome = true := by
      rw [show s.core.awaiting = some exchange from hexchange]
      rfl
    have hrequests : s.requests.map Tagged.number ≠ [] := by
      have hpos := hbehind hsome
      intro hnil
      rw [List.map_eq_nil_iff] at hnil
      simp [hnil] at hpos
    -- The awaited request is queued, so every reply made is older.
    have hqueued : exchange.number ∈ s.requests.map Tagged.number := by
      rcases eq_nil_or_getLast?_of_suffix (List.suffix_append _ _)
        (hlast.last exchange hexchange) with hnil | hget
      · exact absurd hnil hrequests
      · exact List.mem_of_getLast? hget
    have holder : ∀ made ∈ s.made, made.number ≠ exchange.number := by
      intro made hmade
      have hlt := (List.pairwise_append.mp hnumbered.ordered).2.2 made.number
        (List.mem_map_of_mem hmade) exchange.number (List.mem_append_right _ hqueued)
      omega
    have hsub := hnumbered.replies_made.subset
    refine ⟨holder reply (hsub ?_), fun queued hmem => holder queued (hsub ?_)⟩
    · simp [hserver, ServerStage.pushing]
    · exact List.mem_append_left _ hmem
  · intro hstale hsome
    obtain ⟨exchange, hexchange⟩ := Option.isSome_iff_exists.mp hsome
    by_contra hnone
    have hrequests : s.requests = [] := List.length_eq_zero_iff.mp (by omega)
    -- Nothing is queued, so the awaited request is the one in hand.
    have hhand := hlast.last exchange hexchange
    simp only [System.unanswered, hserver, hrequests, ServerStage.hand, List.map_nil,
      List.append_nil, List.getLast?_singleton, Option.some.injEq, List.cons_ne_nil,
      false_or] at hhand
    exact (hstale reply.number exchange rfl hexchange).1 hhand

/-- Only the adapter refuses a reply. -/
theorem requestBehind_of_ne_server {act : Act} (hact : act ≠ .server) : RequestBehind s act := by
  intro hrefuses
  cases act with
  | server => exact absurd rfl hact
  | _ => simp [System.refusesReply] at hrefuses

/-- A step that is not the adapter's, and asks the core for nothing new, refuses
nothing and keeps the discards stale. -/
theorem core_iff (h : DiscardsStale s) {act : Act} (hact : act ≠ .server) {next : System}
    (hserver : next.server = s.server) (hreplies : next.replies ⊆ s.replies)
    (hawaiting : ∀ exchange, next.core.awaiting = some exchange →
      s.core.awaiting = some exchange) : RequestBehind s act ↔ DiscardsStale next :=
  iff_of_true (requestBehind_of_ne_server hact) (h.set_core hserver hreplies hawaiting)

/-- A step that refuses nothing and does not leave the adapter draining has
nothing to throw away. -/
theorem server_iff {act : Act} (hrefuses : s.refusesReply act = false) {next : System}
    (hserver : ∀ dropped, next.server ≠ .drainReplies dropped) :
    RequestBehind s act ↔ DiscardsStale next := by
  refine iff_of_true (fun hrefused => ?_) fun dropped _ hdrain => absurd hdrain (hserver dropped)
  rw [hrefuses] at hrefused
  cases hrefused

/-- **The exact step.** From a state whose discards are stale, a move keeps them
so if and only if it does not refuse the awaited reply. -/
theorem move_iff (h : DiscardsStale s) (hlinked : Linked s) (hnumbered : Numbered s)
    (hlast : AwaitsLast s) {act : Act} {next : System} (hmove : Move s act next) :
    RequestBehind s act ↔ DiscardsStale next := by
  cases hmove with
  | refuses reply rsp hserver hfull => exact refuses_iff hlinked hnumbered hlast rsp hserver hfull
  | rejected => exact iff_of_true (requestBehind_of_ne_server (by simp)) h
  | begins exchange hcore hnumber hseq =>
      exact h.core_iff (by simp) rfl (List.Subset.refl _) fun _ hexchange => by cases hexchange
  | drainsRing reading exchange rsp hcore =>
      exact h.core_iff (by simp) rfl (List.nil_subset _) fun _ hexchange => by cases hexchange
  | drainsDoorbell reading exchange hcore =>
      exact h.core_iff (by simp) rfl (List.Subset.refl _) fun _ hexchange => by cases hexchange
  | pushes reading exchange req hcore hroom =>
      exact iff_of_true (requestBehind_of_ne_server (by simp)) (pushes hnumbered hlast req hcore)
  | misses _ exchange req now hact hcore =>
      have hother : act ≠ .server := by
        rcases hact with ⟨reading, rfl⟩ | ⟨reading, rfl⟩ <;> simp
      exact h.core_iff hother rfl (List.Subset.refl _) fun _ hexchange => by cases hexchange
  | posts reading exchange hcore =>
      refine h.core_iff (by simp) rfl (List.Subset.refl _) fun _ hexchange => ?_
      rw [hcore]
      exact hexchange
  | wakes reading exchange hcore hposted =>
      refine h.core_iff (by simp) rfl (List.Subset.refl _) fun _ hexchange => ?_
      rw [hcore]
      exact hexchange
  | empties reading exchange rsp hcore hreplies =>
      refine h.core_iff (by simp) rfl (List.Subset.refl _) fun _ hexchange => ?_
      rw [hcore]
      exact hexchange
  | discards reading exchange rsp frame reply rest hcore hreplies hlate =>
      refine h.core_iff (by simp) rfl ?_ fun _ hexchange => hexchange
      rw [hreplies]
      exact List.subset_cons_self _ _
  | faults reading exchange rsp frame now reply rest hcore hreplies hlate hseq =>
      refine h.core_iff (by simp) rfl ?_ fun _ hexchange => by cases hexchange
      rw [hreplies]
      exact List.subset_cons_self _ _
  | pairs reading exchange rsp frame reply rest outcome hcore hreplies hseq hends =>
      refine h.core_iff (by simp) rfl ?_ fun _ hexchange => by cases hexchange
      rw [hreplies]
      exact List.subset_cons_self _ _
  | replies reply rsp hserver hroom =>
      refine server_iff ?_ fun _ => by simp
      simp only [System.refusesReply, hserver, hlinked.rsp_count, plcIpcRingSlots,
        decide_eq_false_iff_not]
      omega
  | serverWakes hserver hposted =>
      exact server_iff (by simp [System.refusesReply, hserver]) fun _ => by simp
  | serverEmpties req hserver hrequests =>
      exact server_iff (by simp [System.refusesReply, hserver]) fun _ => by simp
  | takes req frame request rest hserver hrequests hseq =>
      exact server_iff (by simp [System.refusesReply, hserver]) fun _ => by simp
  | answers number frame reply hserver hnumber hseq =>
      exact server_iff (by simp [System.refusesReply]) fun _ => by simp
  | drains number rsp hserver =>
      exact server_iff (by simp [System.refusesReply, hserver]) fun _ => by simp
  | rings number hserver =>
      exact server_iff (by simp [System.refusesReply, hserver]) fun _ => by simp
  | dies => exact server_iff rfl fun _ => by simp [System.die_server]

end DiscardsStale

/-- **When the adapter's discards are stale.** In every run, with timeouts,
stalls and deaths: everything the adapter throws away is stale in every state
visited if and only if, every time a reply is refused while the core is waiting,
a further request is queued. -/
theorem discards_stale_iff (role : Role) (caps : ProxyCaps) (openedUs : ℕ)
    (schedule : List Act) (s : System)
    (hrun : exec (System.step role) (System.start caps openedUs) schedule = some s) :
    Always (System.step role) DiscardsStale (System.start caps openedUs) schedule ↔
      Meets (System.step role) RequestBehind (System.start caps openedUs) schedule := by
  have hpreserved : ∀ before act after, Linked before ∧ Numbered before ∧ AwaitsLast before →
      before.step role act = some after → Linked after ∧ Numbered after ∧ AwaitsLast after := by
    rintro before act after ⟨hlinked, hnumbered, hlast⟩ hstep
    obtain ⟨hmove, hnext⟩ := hlinked.step hstep
    exact ⟨hnext, hnumbered.move hmove, hlast.move hnumbered hmove⟩
  have hexact : ∀ before act after, Linked before ∧ Numbered before ∧ AwaitsLast before →
      DiscardsStale before → before.step role act = some after →
      (RequestBehind before act ↔ DiscardsStale after) := by
    rintro before act after ⟨hlinked, hnumbered, hlast⟩ hgood hstep
    exact hgood.move_iff hlinked hnumbered hlast (hlinked.step hstep).1
  have hstart : DiscardsStale (System.start caps openedUs) := fun _ _ hdrain => by cases hdrain
  exact (meets_iff_always hpreserved hexact
    ⟨Linked.start caps openedUs, Numbered.start caps openedUs, AwaitsLast.start caps openedUs⟩
    hstart hrun).symm

/-- The adapter holds the first request while the core abandons it and three
more, and then sends a fifth. -/
def fallingBehind : List Act :=
  sending [1] ++ [.timeout 1010, .server, .server] ++ sending [2] ++ .timeout 1010 ::
    sending [3] ++ .timeout 1010 :: sending [4] ++ .timeout 1010 :: sending [5]

/-- The adapter answers the first four requests, takes the fifth, and is about
to push its reply. -/
def catchingUp : List Act :=
  [.reply 0 [1], .server, .server] ++ answering [2] ++ answering [3] ++ answering [4] ++
    [.server, .server, .reply 0 [5]]

/-- If the fifth exchange has given up as well, nothing is waited for and the
drain is harmless. -/
theorem discards_stale_iff_abandoned :
    ∃ s, exec (System.step .adapter) (System.start sampleCaps 1)
        (fallingBehind ++ catchingUp ++ [.timeout 1010, .server]) = some s ∧
      s.server = .drainReplies 5 ∧
      Always (System.step .adapter) DiscardsStale (System.start sampleCaps 1)
        (fallingBehind ++ catchingUp ++ [.timeout 1010, .server]) := by
  have hview : (exec (System.step .adapter) (System.start sampleCaps 1)
      (fallingBehind ++ catchingUp ++ [.timeout 1010, .server])).map System.server =
      some (.drainReplies 5) := by
    decide +kernel
  obtain ⟨s, hrun, hserver⟩ := Option.map_eq_some_iff.mp hview
  exact ⟨s, hrun, hserver, (discards_stale_iff _ _ _ _ s hrun).mpr (by decide +kernel)⟩

/-- **A fresh reply thrown away.** The core is waiting for the fifth exchange and
the adapter answers it in time, but drops the answer as stale. -/
theorem dropping_the_awaited_reply :
    ∃ s exchange, exec (System.step .adapter) (System.start sampleCaps 1)
        (fallingBehind ++ catchingUp ++ [.server]) = some s ∧
      s.core = .waitReply exchange ∧ s.server = .drainReplies exchange.number ∧
      ¬ DiscardsStale s := by
  have hview : (exec (System.step .adapter) (System.start sampleCaps 1)
      (fallingBehind ++ catchingUp ++ [.server])).map (fun s => (s.core, s.server)) =
      some (.waitReply ⟨5, 5, [5], [0, 0], 10, by decide⟩, .drainReplies 5) := by
    decide +kernel
  obtain ⟨s, hrun, hvalues⟩ := Option.map_eq_some_iff.mp hview
  obtain ⟨hcore, hserver⟩ := Prod.mk.inj hvalues
  refine ⟨s, _, hrun, hcore, hserver, fun hstale => ?_⟩
  exact (hstale 5 _ hserver (by rw [hcore]; rfl)).1 rfl

end SoftPlc.Cyclic
