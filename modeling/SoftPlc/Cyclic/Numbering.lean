/-
# Exchange numbers

The requests that were ever queued, in order: first those a reply was made to,
then the one the adapter is working on, then those still queued. Their numbers
increase strictly, none exceeds the number of exchanges started, and every
sequence number is the exchange number modulo `2 ^ 32`. This holds in every run,
with timeouts, refused pushes and adapter deaths, and needs no bound on how far
the two sides drift apart.
-/

import SoftPlc.Cyclic.System

namespace SoftPlc.Cyclic

open SoftPlc.Math SoftPlc.Ipc SoftPlc.Adapters

/-- The exchange in progress before its request is pushed. -/
def CoreStage.preparing : CoreStage → Option Exchange
  | .drainRing exchange | .drainDoorbell exchange | .pushRequest exchange => some exchange
  | .idle | .postRequest _ | .waitReply _ | .popReply _ => none

/-- The exchange in progress once its request is pushed: the one the core is
waiting for. -/
def CoreStage.awaiting : CoreStage → Option Exchange
  | .postRequest exchange | .waitReply exchange | .popReply exchange => some exchange
  | .idle | .drainRing _ | .drainDoorbell _ | .pushRequest _ => none

/-- The request taken and not yet answered. -/
def ServerStage.serving : ServerStage → List ℕ
  | .serve number _ => [number]
  | .waitRequest | .popRequest | .pushReply _ | .drainReplies _ | .postReply _ => []

/-- The reply made and not yet pushed. -/
def ServerStage.pushing : ServerStage → List Tagged
  | .pushReply reply => [reply]
  | .waitRequest | .popRequest | .serve _ _ | .drainReplies _ | .postReply _ => []

/-- The numbers of all requests that were queued and not lost with a process. -/
def System.issued (s : System) : List ℕ :=
  s.made.map Tagged.number ++ (s.server.serving ++ s.requests.map Tagged.number)

/-- The numbering invariant. -/
structure Numbered (s : System) : Prop where
  nextSeq : s.proxy.nextSeq = wrap (s.started + 1)
  ordered : s.issued.Pairwise (· < ·)
  le_started : ∀ number ∈ s.issued, number ≤ s.started
  preparing : ∀ exchange, s.core.preparing = some exchange →
    exchange.number = s.started ∧ exchange.seq = wrap s.started ∧
      ∀ number ∈ s.issued, number < s.started
  awaiting : ∀ exchange, s.core.awaiting = some exchange →
    exchange.number = s.started ∧ exchange.seq = wrap s.started
  requests_seq : ∀ request ∈ s.requests, request.message.seq = wrap request.number
  made_seq : ∀ reply ∈ s.made, reply.message.seq = wrap reply.number
  serve_seq : ∀ number frame, s.server = .serve number frame → frame.seq = wrap number
  replies_made : (s.replies ++ s.server.pushing).Sublist s.made

namespace Numbered

variable {s : System}

theorem start (caps : ProxyCaps) (openedUs : ℕ) : Numbered (System.start caps openedUs) where
  nextSeq := rfl
  ordered := .nil
  le_started := fun number hnumber => by cases hnumber
  preparing := fun exchange hexchange => by cases hexchange
  awaiting := fun exchange hexchange => by cases hexchange
  requests_seq := fun request hrequest => by cases hrequest
  made_seq := fun reply hreply => by cases hreply
  serve_seq := fun number frame hserve => by cases hserve
  replies_made := List.Sublist.refl _

/-- The core goes on with the exchange it has, or returns. -/
theorem set_core (h : Numbered s) {next : System} (hrequests : next.requests = s.requests)
    (hmade : next.made = s.made) (hserver : next.server = s.server)
    (hstarted : next.started = s.started) (hseq : next.proxy.nextSeq = s.proxy.nextSeq)
    (hreplies : next.replies.Sublist s.replies)
    (hpreparing : ∀ exchange, next.core.preparing = some exchange →
      s.core.preparing = some exchange)
    (hawaiting : ∀ exchange, next.core.awaiting = some exchange →
      s.core.awaiting = some exchange) : Numbered next := by
  have hissued : next.issued = s.issued := by
    simp only [System.issued, hrequests, hmade, hserver]
  exact
    { nextSeq := by rw [hseq, hstarted, h.nextSeq]
      ordered := by rw [hissued]; exact h.ordered
      le_started := by rw [hissued, hstarted]; exact h.le_started
      preparing := by
        intro exchange hexchange
        rw [hissued, hstarted]
        exact h.preparing exchange (hpreparing exchange hexchange)
      awaiting := by
        intro exchange hexchange
        rw [hstarted]
        exact h.awaiting exchange (hawaiting exchange hexchange)
      requests_seq := by rw [hrequests]; exact h.requests_seq
      made_seq := by rw [hmade]; exact h.made_seq
      serve_seq := by rw [hserver]; exact h.serve_seq
      replies_made := by
        rw [hmade, hserver]
        exact (hreplies.append_right _).trans h.replies_made }

/-- The adapter goes on without taking a request or making a reply. -/
theorem set_server (h : Numbered s) {next : System} (hrequests : next.requests = s.requests)
    (hmade : next.made = s.made) (hcore : next.core = s.core)
    (hstarted : next.started = s.started) (hproxy : next.proxy = s.proxy)
    (hserving : next.server.serving = [])
    (hreplies : (next.replies ++ next.server.pushing).Sublist
      (s.replies ++ s.server.pushing)) : Numbered next := by
  have hissued : next.issued.Sublist s.issued := by
    simp only [System.issued, hrequests, hmade, hserving, List.nil_append]
    exact (List.Sublist.refl _).append (List.sublist_append_right _ _)
  exact
    { nextSeq := by rw [hproxy, hstarted, h.nextSeq]
      ordered := h.ordered.sublist hissued
      le_started := by
        intro number hnumber
        rw [hstarted]
        exact h.le_started number (hissued.subset hnumber)
      preparing := by
        intro exchange hexchange
        rw [hcore] at hexchange
        obtain ⟨hnumber, hseq, hbelow⟩ := h.preparing exchange hexchange
        rw [hstarted]
        exact ⟨hnumber, hseq, fun number hmem => hbelow number (hissued.subset hmem)⟩
      awaiting := by rw [hcore, hstarted]; exact h.awaiting
      requests_seq := by rw [hrequests]; exact h.requests_seq
      made_seq := by rw [hmade]; exact h.made_seq
      serve_seq := by
        intro number frame hserve
        simp [hserve, ServerStage.serving] at hserving
      replies_made := by
        rw [hmade]
        exact hreplies.trans h.replies_made }

/-- The core pushes its request: the newest number joins the list. -/
theorem pushes (h : Numbered s) {exchange : Exchange} (req : Ring)
    (hcore : s.core = .pushRequest exchange) :
    Numbered { s with
      req := req
      requests := s.requests ++ [exchange.request]
      core := .postRequest exchange } := by
  obtain ⟨hnumber, hseq, hbelow⟩ := h.preparing exchange (by rw [hcore]; rfl)
  have hissued : System.issued { s with
      req := req
      requests := s.requests ++ [exchange.request]
      core := .postRequest exchange } = s.issued ++ [s.started] := by
    simp [System.issued, Exchange.request, hnumber]
  exact
    { nextSeq := h.nextSeq
      ordered := by
        rw [hissued, List.pairwise_append]
        refine ⟨h.ordered, List.pairwise_singleton _ _, fun older holder newer hnewer => ?_⟩
        rw [List.mem_singleton.mp hnewer]
        exact hbelow older holder
      le_started := by
        intro number hmem
        rw [hissued, List.mem_append, List.mem_singleton] at hmem
        rcases hmem with hold | hnew
        · exact h.le_started number hold
        · exact Nat.le_of_eq hnew
      preparing := fun exchange hexchange => by cases hexchange
      awaiting := by
        intro other hother
        cases hother
        exact ⟨hnumber, hseq⟩
      requests_seq := by
        intro request hrequest
        rcases List.mem_append.mp hrequest with hold | hnew
        · exact h.requests_seq request hold
        · rw [List.mem_singleton.mp hnew]
          simp [Exchange.request, hseq, hnumber]
      made_seq := h.made_seq
      serve_seq := h.serve_seq
      replies_made := h.replies_made }

/-- The adapter takes the oldest request: it stays in its place in the list. -/
theorem takes (h : Numbered s) (req : Ring) {frame : Frame} {request : Tagged}
    {rest : List Tagged} (hserver : s.server = .popRequest)
    (hrequests : s.requests = request :: rest) (hseq : frame.seq = request.message.seq) :
    Numbered { s with
      req := req, frame := frame, requests := rest, server := .serve request.number frame } := by
  have hissued : System.issued { s with
      req := req, frame := frame, requests := rest, server := .serve request.number frame } =
      s.issued := by
    simp [System.issued, hserver, hrequests, ServerStage.serving]
  exact
    { nextSeq := h.nextSeq
      ordered := by rw [hissued]; exact h.ordered
      le_started := by rw [hissued]; exact h.le_started
      preparing := by rw [hissued]; exact h.preparing
      awaiting := h.awaiting
      requests_seq := by
        intro other hother
        exact h.requests_seq other (by rw [hrequests]; exact List.mem_cons_of_mem _ hother)
      made_seq := h.made_seq
      serve_seq := by
        intro number other hserve
        cases hserve
        rw [hseq]
        exact h.requests_seq request (by rw [hrequests]; exact List.mem_cons_self)
      replies_made := by
        have hmade := h.replies_made
        rw [hserver] at hmade
        exact hmade }

/-- The adapter makes its reply: the number moves into the list of replies. -/
theorem answers (h : Numbered s) {number : ℕ} {frame : Frame} {reply : Tagged}
    (hserver : s.server = .serve number frame) (hnumber : reply.number = number)
    (hseq : reply.message.seq = frame.seq) :
    Numbered { s with made := s.made ++ [reply], server := .pushReply reply } := by
  have hissued : System.issued { s with
      made := s.made ++ [reply], server := .pushReply reply } = s.issued := by
    simp [System.issued, hserver, hnumber, ServerStage.serving]
  exact
    { nextSeq := h.nextSeq
      ordered := by rw [hissued]; exact h.ordered
      le_started := by rw [hissued]; exact h.le_started
      preparing := by rw [hissued]; exact h.preparing
      awaiting := h.awaiting
      requests_seq := h.requests_seq
      made_seq := by
        intro other hother
        rcases List.mem_append.mp hother with hold | hnew
        · exact h.made_seq other hold
        · rw [List.mem_singleton.mp hnew, hseq, hnumber]
          exact h.serve_seq number frame hserver
      serve_seq := fun number frame hserve => by cases hserve
      replies_made := by
        have hmade := h.replies_made
        rw [hserver, ServerStage.pushing, List.append_nil] at hmade
        exact hmade.append (List.Sublist.refl _) }

/-- The core starts an exchange: every number so far is below its own. -/
theorem begins (h : Numbered s) {exchange : Exchange}
    (hnumber : exchange.number = s.started + 1) (hseq : exchange.seq = s.proxy.nextSeq) :
    Numbered { s with
      core := .drainRing exchange
      proxy := { s.proxy with nextSeq := s.proxy.nextSeq + 1 }
      started := s.started + 1 } where
  nextSeq := by
    simp only [h.nextSeq]
    exact (wrap_succ _).symm
  ordered := h.ordered
  le_started := fun number hmem => Nat.le_succ_of_le (h.le_started number hmem)
  preparing := by
    intro other hother
    cases hother
    exact ⟨hnumber, hseq.trans h.nextSeq,
      fun number hmem => Nat.lt_succ_of_le (h.le_started number hmem)⟩
  awaiting := fun exchange hexchange => by cases hexchange
  requests_seq := h.requests_seq
  made_seq := h.made_seq
  serve_seq := h.serve_seq
  replies_made := h.replies_made

/-- The adapter's death loses at most the request or reply it was holding. -/
theorem dies (h : Numbered s) : Numbered s.die := by
  unfold System.die
  split
  all_goals
    refine h.set_server rfl rfl rfl rfl rfl rfl ?_
    simp [ServerStage.pushing]

/-- Every move keeps the numbering. -/
theorem move (h : Numbered s) {act : Act} {next : System} (hmove : Move s act next) :
    Numbered next := by
  cases hmove with
  | rejected => exact h
  | begins exchange hcore hnumber hseq => exact h.begins hnumber hseq
  | drainsRing reading exchange rsp hcore =>
      exact h.set_core rfl rfl rfl rfl rfl (List.nil_sublist _)
        (fun _ hexchange => by rw [hcore]; exact hexchange) (fun _ hexchange => by cases hexchange)
  | drainsDoorbell reading exchange hcore =>
      exact h.set_core rfl rfl rfl rfl rfl (List.Sublist.refl _)
        (fun _ hexchange => by rw [hcore]; exact hexchange) (fun _ hexchange => by cases hexchange)
  | pushes reading exchange req hcore hroom => exact h.pushes req hcore
  | misses _ exchange req now hact hcore =>
      exact h.set_core rfl rfl rfl rfl (proxyFail_nextSeq _ _ _ _) (List.Sublist.refl _)
        (fun _ hexchange => by cases hexchange) (fun _ hexchange => by cases hexchange)
  | posts reading exchange hcore =>
      exact h.set_core rfl rfl rfl rfl rfl (List.Sublist.refl _)
        (fun _ hexchange => by cases hexchange) (fun _ hexchange => by rw [hcore]; exact hexchange)
  | wakes reading exchange hcore hposted =>
      exact h.set_core rfl rfl rfl rfl rfl (List.Sublist.refl _)
        (fun _ hexchange => by cases hexchange) (fun _ hexchange => by rw [hcore]; exact hexchange)
  | empties reading exchange rsp hcore hreplies =>
      exact h.set_core rfl rfl rfl rfl rfl (List.Sublist.refl _)
        (fun _ hexchange => by cases hexchange) (fun _ hexchange => by rw [hcore]; exact hexchange)
  | discards reading exchange rsp frame reply rest hcore hreplies hlate =>
      exact h.set_core rfl rfl rfl rfl rfl (by rw [hreplies]; exact List.sublist_cons_self _ _)
        (fun _ hexchange => hexchange) (fun _ hexchange => hexchange)
  | faults reading exchange rsp frame now reply rest hcore hreplies hlate hseq =>
      exact h.set_core rfl rfl rfl rfl (proxyFail_nextSeq _ _ _ _)
        (by rw [hreplies]; exact List.sublist_cons_self _ _)
        (fun _ hexchange => by cases hexchange) (fun _ hexchange => by cases hexchange)
  | pairs reading exchange rsp frame reply rest outcome hcore hreplies hseq hends =>
      exact h.set_core rfl rfl rfl rfl hends.nextSeq
        (by rw [hreplies]; exact List.sublist_cons_self _ _)
        (fun _ hexchange => by cases hexchange) (fun _ hexchange => by cases hexchange)
  | serverWakes hserver hposted =>
      exact h.set_server rfl rfl rfl rfl rfl rfl (by simp [ServerStage.pushing])
  | serverEmpties req hserver hrequests =>
      exact h.set_server rfl rfl rfl rfl rfl rfl (by simp [ServerStage.pushing])
  | takes req frame request rest hserver hrequests hseq =>
      exact h.takes req hserver hrequests hseq
  | answers number frame reply hserver hnumber hseq => exact h.answers hserver hnumber hseq
  | replies reply rsp hserver hroom =>
      exact h.set_server rfl rfl rfl rfl rfl rfl (by simp [hserver, ServerStage.pushing])
  | refuses reply rsp hserver hfull =>
      exact h.set_server rfl rfl rfl rfl rfl rfl (by simp [ServerStage.pushing])
  | drains number rsp hserver =>
      exact h.set_server rfl rfl rfl rfl rfl rfl (by simp [ServerStage.pushing])
  | rings number hserver =>
      exact h.set_server rfl rfl rfl rfl rfl rfl (by simp [ServerStage.pushing])
  | dies => exact h.dies

/-! ### Consequences -/

/-- At most one reply is ever made to an exchange. -/
theorem made_nodup (h : Numbered s) : (s.made.map Tagged.number).Nodup := by
  have hordered := (List.pairwise_append.mp h.ordered).1
  exact hordered.imp fun hlt => Nat.ne_of_lt hlt

/-- A queued reply was made by the adapter and belongs to an exchange that has
started. -/
theorem mem_made (h : Numbered s) {reply : Tagged} (hreply : reply ∈ s.replies) :
    reply ∈ s.made ∧ reply.number ≤ s.started ∧ reply.message.seq = wrap reply.number := by
  have hmade : reply ∈ s.made := h.replies_made.subset (List.mem_append_left _ hreply)
  have hissued : reply.number ∈ s.issued :=
    List.mem_append_left _ (List.mem_map_of_mem hmade)
  exact ⟨hmade, h.le_started _ hissued, h.made_seq reply hmade⟩

end Numbered

end SoftPlc.Cyclic
