/-
# A reply is paired with its own request

The core accepts a reply by its sequence number alone, compared as a signed
difference of a wrapping counter. The comparison is right as long as nothing in
the rings is `2 ^ 31` exchanges old. Then a successful exchange returns the
payload of the reply made to that very exchange, and every other reply is
recognised as late.
-/

import SoftPlc.Cyclic.Numbering

namespace SoftPlc.Cyclic

open SoftPlc.Math SoftPlc.Ipc SoftPlc.Adapters

/-- No queued request or reply belongs to an exchange that `2 ^ 31` or more
exchanges have started after. -/
def System.Recent (s : System) : Prop :=
  ∀ queued ∈ s.requests ++ s.replies, s.started < queued.number + 2 ^ 31

instance (s : System) : Decidable s.Recent :=
  inferInstanceAs (Decidable (∀ queued ∈ s.requests ++ s.replies,
    s.started < queued.number + 2 ^ 31))

/-- A successful result is the image of the reply made to its exchange. -/
def Result.Paired (result : Result) (made : List Tagged) : Prop :=
  result.status = .ok → ∃ reply ∈ made, reply.number = result.number ∧
    result.image = fit 0 reply.message.payload result.inLen

/-- The pairing invariant. -/
structure Paired (s : System) : Prop where
  numbered : Numbered s
  protocolErrors : s.proxy.stats.protocolErrors = 0
  results : ∀ result ∈ s.results, result.Paired s.made

namespace Paired

variable {s : System}

/-- A recent reply is late exactly when it answers an earlier exchange. -/
theorem late_iff (h : Numbered s) (hrecent : s.Recent) {exchange : Exchange} {reply : Tagged}
    (hcore : s.core = .popReply exchange) (hreply : reply ∈ s.replies) :
    (reply.message.seq - exchange.seq).toInt32 < 0 ↔ reply.number < exchange.number := by
  obtain ⟨hnumber, hseq⟩ := h.awaiting exchange (by rw [hcore]; rfl)
  obtain ⟨-, hle, hreplySeq⟩ := h.mem_made hreply
  have hclose := hrecent reply (List.mem_append_right _ hreply)
  rw [hseq, hreplySeq, hnumber]
  exact signed_sub_neg_iff hle (by omega)

/-- A recent reply that is not late answers the exchange in progress. -/
theorem number_eq (h : Numbered s) (hrecent : s.Recent) {exchange : Exchange} {reply : Tagged}
    (hcore : s.core = .popReply exchange) (hreply : reply ∈ s.replies)
    (hlate : ¬ (reply.message.seq - exchange.seq).toInt32 < 0) :
    reply.number = exchange.number := by
  rw [late_iff h hrecent hcore hreply] at hlate
  obtain ⟨hnumber, -⟩ := h.awaiting exchange (by rw [hcore]; rfl)
  obtain ⟨-, hle, -⟩ := h.mem_made hreply
  omega

/-- A step that returns nothing keeps the results paired; replies made since do
not disturb them. -/
theorem frame (h : Paired s) {next : System} (hnumbered : Numbered next)
    (hproxy : next.proxy.stats.protocolErrors = s.proxy.stats.protocolErrors)
    (hresults : next.results = s.results) (hmade : s.made ⊆ next.made) : Paired next where
  numbered := hnumbered
  protocolErrors := hproxy.trans h.protocolErrors
  results := by
    intro result hresult hok
    rw [hresults] at hresult
    obtain ⟨reply, hreply, hpaired⟩ := h.results result hresult hok
    exact ⟨reply, hmade hreply, hpaired⟩

/-- An exchange returns with a result that is paired. -/
theorem returning (h : Paired s) {base : System} {exchange : Exchange}
    {outcome : Proxy × PlcStatus × List Byte}
    (hnumbered : Numbered (base.returning exchange outcome)) (hmade : base.made = s.made)
    (hresults : base.results = s.results)
    (hproxy : outcome.1.stats.protocolErrors = s.proxy.stats.protocolErrors)
    (hpaired : Result.Paired
      ⟨exchange.number, exchange.input.length, outcome.2.1, outcome.2.2⟩ s.made) :
    Paired (base.returning exchange outcome) where
  numbered := hnumbered
  protocolErrors := hproxy.trans h.protocolErrors
  results := by
    intro result hresult
    simp only [System.returning, hresults] at hresult
    simp only [System.returning, hmade]
    rcases List.mem_append.mp hresult with hold | hnew
    · exact h.results result hold
    · rw [List.mem_singleton.mp hnew]
      exact hpaired

/-- Every move from a state in which all queued frames are recent keeps the
invariant. In particular no move is a sequence fault. -/
theorem move (h : Paired s) (hrecent : s.Recent) {act : Act} {next : System}
    (hmove : Move s act next) : Paired next := by
  have hnumbered := h.numbered.move hmove
  cases hmove with
  | misses _ exchange req now hact hcore =>
      refine h.returning hnumbered rfl rfl (proxyFail_protocolErrors _ _ _ _) ?_
      intro hok
      rw [proxyFail_status] at hok
      cases hok
  | faults reading exchange rsp frame now reply rest hcore hreplies hlate hseq =>
      have hreply : reply ∈ s.replies := by rw [hreplies]; exact List.mem_cons_self
      have hequal := number_eq h.numbered hrecent hcore hreply hlate
      obtain ⟨hnumber, hexchange⟩ := h.numbered.awaiting exchange (by rw [hcore]; rfl)
      obtain ⟨-, -, hreplySeq⟩ := h.numbered.mem_made hreply
      exact absurd (by rw [hreplySeq, hexchange, hequal, hnumber]) hseq
  | pairs reading exchange rsp frame reply rest outcome hcore hreplies hseq hends =>
      have hreply : reply ∈ s.replies := by rw [hreplies]; exact List.mem_cons_self
      have hequal : reply.number = exchange.number := by
        refine number_eq h.numbered hrecent hcore hreply ?_
        rw [hseq, UInt32.sub_self]
        decide
      refine h.returning hnumbered rfl rfl hends.protocolErrors fun hok => ?_
      exact ⟨reply, (h.numbered.mem_made hreply).1, hequal, hends.image hok⟩
  | answers number frame reply hserver hnumber hseq =>
      exact h.frame hnumbered rfl rfl (List.subset_append_left _ _)
  | dies =>
      refine h.frame hnumbered ?_ ?_ ?_
      all_goals
        unfold System.die
        split <;> simp
  | _ => exact h.frame hnumbered rfl rfl (List.Subset.refl _)

end Paired

/-- **Reply pairing.** In every run in which all queued frames are recent: there
is never a sequence or framing fault, the adapter makes at most one reply to an
exchange, and an exchange that returned `PLC_OK` returned the payload of the
reply made to it, cut or zero-extended to the caller's buffer. -/
theorem reply_pairing (role : Role) (caps : ProxyCaps) (openedUs : ℕ) (schedule : List Act)
    (s : System)
    (hrecent : Meets (System.step role) (fun before _ => before.Recent)
      (System.start caps openedUs) schedule)
    (hrun : exec (System.step role) (System.start caps openedUs) schedule = some s) :
    s.proxy.stats.protocolErrors = 0 ∧ (s.made.map Tagged.number).Nodup ∧
      ∀ result ∈ s.results, result.status = .ok →
        ∃ reply ∈ s.made, reply.number = result.number ∧
          result.image = fit 0 reply.message.payload result.inLen := by
  have hstart : Paired (System.start caps openedUs) :=
    ⟨Numbered.start caps openedUs, rfl, fun result hresult => by cases hresult⟩
  obtain ⟨-, hinv⟩ := run_invariant hstart
    (fun before act after _ hinv hrecent hmove => hinv.move hrecent hmove) hrecent hrun
  exact ⟨hinv.protocolErrors, hinv.numbered.made_nodup, hinv.results⟩

/-- An exchange that gives up, then one whose pop discards the late reply to the
first and accepts its own, which is one byte too long for the caller. -/
def lateThenOwn : List Act :=
  sending [5] ++ .timeout 1010 :: sending [6] ++ answering [1] ++ answering [7, 8, 9] ++
    List.replicate 3 (Act.core ⟨20, 21, 1⟩)

theorem reply_pairing_lateThenOwn :
    ∃ s, exec (System.step .adapter) (System.start sampleCaps 1) lateThenOwn = some s ∧
      s.results = [⟨1, 2, .errTimeout, [0, 0]⟩, ⟨2, 2, .ok, [7, 8]⟩] ∧
      s.proxy.stats.protocolErrors = 0 := by
  have hview : (exec (System.step .adapter) (System.start sampleCaps 1) lateThenOwn).map
      System.results = some [⟨1, 2, .errTimeout, [0, 0]⟩, ⟨2, 2, .ok, [7, 8]⟩] := by
    decide +kernel
  obtain ⟨s, hrun, hresults⟩ := Option.map_eq_some_iff.mp hview
  exact ⟨s, hrun, hresults,
    (reply_pairing .adapter sampleCaps 1 lateThenOwn s (by decide +kernel) hrun).1⟩

end SoftPlc.Cyclic
