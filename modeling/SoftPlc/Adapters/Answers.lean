/-
# What an exchange tells the core

The core sees an exchange as a status and a filled buffer, and does not know which
adapter answered. This module says what each status means for any of the three: a
fresh image was stored, the peer disowned its data, or the exchange missed. It
covers the replies flagged invalid, which the failsafe rule leaves out, and calls
of any size, because the runtime hands over whatever it was bound with.
-/

import SoftPlc.Adapters.Contract

namespace SoftPlc.Adapters

open SoftPlc.Math SoftPlc.Ipc

/-- The clock reading that the age of the image is counted from. -/
def Record.origin (record : Record) : ℕ :=
  if record.stale.haveGood then record.stale.lastGoodUs else record.openedUs

/-- The stored image that a miss inside the window repeats. -/
def Record.held (record : Record) : List Byte := record.lastGood.take record.caps.inputBytes

/-- An adapter whose buffers have the sizes they were allocated with. -/
structure Adapter.Whole (adapter : Adapter) : Prop where
  room : adapter.record.caps.inputBytes ≤ adapter.record.lastGood.length
  sized : adapter.Sized

/-- A call whose reply, if there is one, is a frame. -/
def Call.Framed (call : Call) : Prop :=
  ∀ frame devicesOnline, call.peer = .replies frame devicesOnline →
    frame.len.toNat ≤ frame.data.length

/-! ## Sizes -/

theorem plcAdapterApplyFailsafe_length (policy : FailsafePolicy) {buffer lastGood : List Byte}
    (hroom : buffer.length ≤ lastGood.length) :
    (plcAdapterApplyFailsafe policy buffer lastGood buffer.length).length = buffer.length := by
  rw [plcAdapterApplyFailsafe_eq policy rfl]
  cases policy with
  | hold => exact List.length_take_of_le hroom
  | clear => exact List.length_replicate

theorem Escalates.length {before after : Record} {input image : List Byte} {now : ℕ}
    (h : Escalates before after input image now) (hroom : input.length ≤ before.lastGood.length) :
    image.length = input.length := by
  by_cases hage : before.caps.failsafeTimeoutUs ≤
      plcStalenessAgeUs before.stale before.openedUs now
  · rw [(h.past hage).2.2]
    exact plcAdapterApplyFailsafe_length _ hroom
  · rw [(h.within hage).2.2.2]
    exact plcAdapterApplyFailsafe_length _ hroom

/-- What an exchange keeps: the length of the caller's buffer, the capabilities, and
the sizes of the adapter's own buffers. -/
structure Adapter.Keeps (before after : Adapter) (input image : List Byte) : Prop where
  length_eq : image.length = input.length
  caps_eq : after.record.caps = before.record.caps
  whole : after.Whole

section Keeps

variable {call : Call}

theorem lbExchange_keeps {impl : Loopback} (h : (Adapter.loopback impl).Whole) (call : Call) :
    Adapter.Keeps (.loopback impl)
      (.loopback (lbExchange impl call.out call.input call.times.finish).1) call.input
      (lbExchange impl call.out call.input call.times.finish).2.2 := by
  have hroom : impl.caps.inputBytes ≤ impl.lastGood.length := h.room
  have hmirror : impl.mirror.length = loopbackMaxBytes := h.sized
  simp only [lbExchange]
  split_ifs with hclosed hsizes hforced
  · exact ⟨rfl, rfl, h⟩
  · exact ⟨rfl, rfl, h⟩
  · have hmiss := lbMiss_escalates impl call.input call.times.finish
    have hinput : call.input.length ≤ impl.lastGood.length := by omega
    refine ⟨hmiss.length hinput, hmiss.caps_eq, ?_, ?_⟩
    · rw [Adapter.record, hmiss.caps_eq, hmiss.lastGood_eq]
      exact hroom
    · rw [Adapter.Sized, lbMiss_mirror]
      exact hmirror
  · have hout : call.out.length ≤ impl.mirror.length := by
      have hcaps := impl.caps.output_le
      omega
    have hwritten : (lbMirror impl call.out).length = loopbackMaxBytes := by
      rw [lbMirror, memcpy_zero_length le_rfl hout, hmirror]
    have himage : (memcpy call.input 0 (lbMirror impl call.out) call.input.length).length =
        call.input.length := by
      refine memcpy_zero_length ?_ le_rfl
      have hcaps := impl.caps.input_le
      omega
    have hgood : (memcpy impl.lastGood 0
        (memcpy call.input 0 (lbMirror impl call.out) call.input.length)
        call.input.length).length = impl.lastGood.length :=
      memcpy_zero_length himage.ge (by omega)
    exact ⟨himage, rfl, hroom.trans hgood.ge, hwritten⟩

/-- Ending an exchange in one of the ways a proxy does keeps the sizes. -/
theorem proxyEnd_keeps {proxy : Proxy} {wrap : Proxy → Adapter}
    {finish : Proxy → Frame → ℕ → Proxy × PlcStatus × List Byte}
    (hrecord : ∀ other, (wrap other).record = other.record)
    (hsized : ∀ other, (wrap other).Sized)
    (hroom : proxy.caps.inputBytes ≤ proxy.lastGood.length)
    (hfinish : ∀ frame devicesOnline, call.peer = .replies frame devicesOnline →
      call.input.length ≤ proxy.caps.inputBytes →
      let ended := finish { proxy with nextSeq := proxy.nextSeq + 1 } frame devicesOnline
      ended.2.2.length = call.input.length ∧ ended.1.caps = proxy.caps ∧
        ended.1.lastGood.length = proxy.lastGood.length) :
    Adapter.Keeps (wrap proxy) (wrap (Adapter.proxyEnd finish proxy call).1) call.input
      (Adapter.proxyEnd finish proxy call).2.2 := by
  have hwhole : ∀ other : Proxy, other.caps = proxy.caps →
      other.lastGood.length = proxy.lastGood.length → (wrap other).Whole := by
    intro other hcaps hlength
    refine ⟨?_, hsized other⟩
    rw [hrecord]
    show other.caps.inputBytes ≤ other.lastGood.length
    rw [hcaps, hlength]
    exact hroom
  unfold Adapter.proxyEnd
  split
  · exact ⟨rfl, rfl, hwhole proxy rfl rfl⟩
  next hadmits =>
    have hinput : call.input.length ≤ proxy.caps.inputBytes := by
      simp only [proxyAdmits] at hadmits
      split_ifs at hadmits with hclosed hbytes
      omega
    cases hpeer : call.peer with
    | replies frame devicesOnline =>
        obtain ⟨hlength, hcaps, hgood⟩ := hfinish frame devicesOnline hpeer hinput
        refine ⟨hlength, ?_, hwhole _ hcaps hgood⟩
        rw [hrecord, hrecord]
        exact congrArg ProxyCaps.toAdapterCaps hcaps
    | silent miss =>
        have hmiss := proxyMiss_escalates { proxy with nextSeq := proxy.nextSeq + 1 } call.input
          miss call.times.finish
        refine ⟨hmiss.length (hinput.trans hroom), ?_, ?_, hsized _⟩
        · rw [hrecord, hrecord]
          exact hmiss.caps_eq
        · rw [hrecord, hmiss.caps_eq, hmiss.lastGood_eq]
          exact hroom

theorem proxyFresh_keeps (proxy : Proxy) {frame : Frame} {input : List Byte} (times : Times)
    (hframe : frame.len.toNat ≤ frame.data.length) (hinput : input.length ≤ proxy.lastGood.length) :
    (proxyFresh proxy frame input times).2.length = input.length ∧
      (proxyFresh proxy frame input times).1.lastGood.length = proxy.lastGood.length := by
  have hlength := replyImage_length input hframe
  exact ⟨hlength, memcpy_zero_length hlength.ge hinput⟩

/-- **Every exchange fills the caller's buffer and no more**, and leaves an adapter
of the same capabilities with whole buffers. -/
theorem Adapter.exchange_keeps {adapter : Adapter} (h : adapter.Whole) (hframed : call.Framed) :
    adapter.Keeps (adapter.exchange call).1 call.input (adapter.exchange call).2.2 := by
  cases adapter with
  | loopback impl =>
      have hhooked : (Adapter.loopback (hooked impl call)).Whole := by
        refine ⟨?_, (congrArg List.length (hooked_mirror impl call)).trans h.sized⟩
        rw [record, hooked_record]
        exact h.room
      have hkeeps := lbExchange_keeps hhooked call
      refine ⟨hkeeps.length_eq, hkeeps.caps_eq.trans ?_, hkeeps.whole⟩
      exact congrArg Record.caps (hooked_record impl call)
  | eip proxy =>
      refine proxyEnd_keeps (fun _ => rfl) (fun _ => trivial) h.room ?_
      intro frame devicesOnline hpeer hinput
      have hroom : call.input.length ≤ proxy.lastGood.length := hinput.trans h.room
      simp only [eipProxyFinish]
      split_ifs with hflag
      · exact ⟨plcAdapterApplyFailsafe_length _ hroom, rfl, rfl⟩
      · obtain ⟨hlength, hgood⟩ := proxyFresh_keeps { proxy with nextSeq := proxy.nextSeq + 1 }
          call.times (hframed frame devicesOnline hpeer) hroom
        exact ⟨hlength, rfl, hgood⟩
  | scanner proxy =>
      refine proxyEnd_keeps (fun _ => rfl) (fun _ => trivial) h.room ?_
      intro frame devicesOnline hpeer hinput
      obtain ⟨hlength, hgood⟩ := proxyFresh_keeps { proxy with nextSeq := proxy.nextSeq + 1 }
        call.times (hframed frame devicesOnline hpeer) (hinput.trans h.room)
      exact ⟨hlength, rfl, hgood⟩

end Keeps

/-! ## The three kinds of answer -/

/-- What an exchange of an open adapter did, by the status it returned: it stored a
fresh image, the peer disowned its data, or it missed. -/
inductive Answered (before after : Record) (now : ℕ) (status : PlcStatus) (image : List Byte) :
    Prop
  | fresh (status_eq : status = .ok) (held_eq : after.held = image) (origin_eq : after.origin = now)
  | disowned (status_eq : status = .errAgain) (held_eq : after.held = before.held)
      (origin_eq : after.origin = now)
      (image_eq : image =
        failsafeImage before.caps.failsafePolicy before.caps.inputBytes before.held)
  | missed (hfresh : status ≠ .ok) (hagain : status ≠ .errAgain)
      (held_eq : after.held = before.held) (origin_eq : after.origin = before.origin)
      (image_eq : image =
        if before.caps.failsafeTimeoutUs ≤ plcStalenessAgeUs before.stale before.openedUs now
        then failsafeImage before.caps.failsafePolicy before.caps.inputBytes before.held
        else before.held)

section Answered

variable {before after : Record} {input image : List Byte} {now : ℕ} {call : Call}

theorem applyFailsafe_eq_image (record : Record) (policy : FailsafePolicy)
    (hinput : input.length = record.caps.inputBytes) :
    plcAdapterApplyFailsafe policy input record.lastGood input.length =
      failsafeImage policy record.caps.inputBytes record.held := by
  rw [plcAdapterApplyFailsafe_eq policy rfl, hinput]
  cases policy <;> rfl

theorem Escalates.answered (h : Escalates before after input image now)
    (hinput : input.length = before.caps.inputBytes) {status : PlcStatus} (hfresh : status ≠ .ok)
    (hagain : status ≠ .errAgain) : Answered before after now status image := by
  have hheld : after.held = before.held := by
    rw [Record.held, Record.held, h.caps_eq, h.lastGood_eq]
  have horigin : after.origin = before.origin := by
    rw [Record.origin, Record.origin, h.stale_eq, h.opened_eq]
  have himage : image =
      if before.caps.failsafeTimeoutUs ≤ plcStalenessAgeUs before.stale before.openedUs now
      then failsafeImage before.caps.failsafePolicy before.caps.inputBytes before.held
      else before.held := by
    split_ifs with hage
    · rw [(h.past hage).2.2]
      exact applyFailsafe_eq_image before _ hinput
    · rw [(h.within hage).2.2.2]
      exact applyFailsafe_eq_image before .hold hinput
  exact .missed hfresh hagain hheld horigin himage

theorem Refreshes.answered (h : Refreshes before after image now)
    (himage : image.length = before.caps.inputBytes) : Answered before after now .ok image := by
  refine .fresh rfl ?_ ?_
  · rw [Record.held, h.caps_eq, h.lastGood_eq, take_memcpy_zero _ himage.ge, ← himage]
    exact List.take_length
  · rw [Record.origin, h.stale_eq]
    rfl

theorem proxyMiss_status (proxy : Proxy) (input : List Byte) (miss : Miss) (now : ℕ) :
    (proxyMiss proxy input miss now).2.1 ≠ .ok ∧
      (proxyMiss proxy input miss now).2.1 ≠ .errAgain := by
  cases miss <;> simp [proxyMiss]

theorem lbMiss_status (impl : Loopback) (input : List Byte) (now : ℕ) :
    (lbMiss impl input now).2.1 = .errTimeout := by
  simp only [lbMiss]
  split_ifs <;> rfl

/-- An open proxy answers in one of the three ways if its role does so with a
matched reply. -/
theorem proxyEnd_answered {proxy : Proxy}
    {finish : Proxy → Frame → ℕ → Proxy × PlcStatus × List Byte}
    (hopened : proxy.state ≠ .closed) (hcall : Fits proxy.caps.toAdapterCaps call)
    (hfinish : ∀ frame devicesOnline, call.peer = .replies frame devicesOnline →
      let ended := finish { proxy with nextSeq := proxy.nextSeq + 1 } frame devicesOnline
      Answered proxy.record ended.1.record call.times.finish ended.2.1 ended.2.2 ∧
        ended.1.state ≠ .closed) :
    Answered proxy.record (Adapter.proxyEnd finish proxy call).1.record call.times.finish
        (Adapter.proxyEnd finish proxy call).2.1 (Adapter.proxyEnd finish proxy call).2.2 ∧
      (Adapter.proxyEnd finish proxy call).1.state ≠ .closed := by
  unfold Adapter.proxyEnd
  rw [proxyAdmits_none hopened hcall]
  cases hpeer : call.peer with
  | replies frame devicesOnline => exact hfinish frame devicesOnline hpeer
  | silent miss =>
      have hmiss := proxyMiss_escalates { proxy with nextSeq := proxy.nextSeq + 1 } call.input
        miss call.times.finish
      obtain ⟨hfresh, hagain⟩ := proxyMiss_status { proxy with nextSeq := proxy.nextSeq + 1 }
        call.input miss call.times.finish
      exact ⟨hmiss.answered hcall.input_eq hfresh hagain, hmiss.opened hopened⟩

/-- **What a status means.** An exchange of an open adapter of any kind, called as the
core calls it, ends in one of the three ways, and leaves the adapter open. -/
theorem Adapter.exchange_answered {adapter : Adapter} (h : adapter.Whole)
    (hopened : adapter.record.state ≠ .closed) (hcall : Fits adapter.record.caps call) :
    Answered adapter.record (adapter.exchange call).1.record call.times.finish
        (adapter.exchange call).2.1 (adapter.exchange call).2.2 ∧
      (adapter.exchange call).1.record.state ≠ .closed := by
  cases adapter with
  | loopback impl =>
      have hrecord := hooked_record impl call
      have hstate : (hooked impl call).state ≠ .closed := by
        have hsame : (hooked impl call).state = impl.state := congrArg Record.state hrecord
        rw [hsame]
        exact hopened
      have hfits : Fits (hooked impl call).caps.toAdapterCaps call := by
        rw [hooked_caps]
        exact hcall
      simp only [exchange]
      rw [lbExchange_admitted hstate hfits]
      show Answered impl.record _ _ _ _ ∧ _
      rw [← hrecord]
      split_ifs with hforced
      · have hmiss := lbMiss_escalates (hooked impl call) call.input call.times.finish
        rw [lbMiss_status]
        exact ⟨hmiss.answered hfits.input_eq (by decide) (by decide), hmiss.opened hstate⟩
      · have hfresh := lbFresh_refreshes (hooked impl call) call.out call.times.finish
          hfits.input_eq
        have hmirror : (hooked impl call).mirror.length = loopbackMaxBytes := by
          rw [hooked_mirror]
          exact h.sized
        refine ⟨hfresh.answered ?_, hfresh.opened⟩
        refine (memcpy_zero_length ?_ le_rfl).trans hfits.input_eq
        rw [lbMirror_length hmirror hfits, hfits.input_eq]
        exact (hooked impl call).caps.input_le
  | eip proxy =>
      refine proxyEnd_answered hopened hcall ?_
      intro frame devicesOnline hpeer
      simp only [eipProxyFinish]
      split_ifs with hflag
      · refine ⟨?_, show AdapterState.degraded ≠ .closed by decide⟩
        exact .disowned rfl rfl rfl
          (applyFailsafe_eq_image proxy.record proxy.caps.failsafePolicy hcall.input_eq)
      · have hlength := replyImage_length call.input (hcall.frame_ok frame devicesOnline hpeer)
        have hfresh := proxyFresh_refreshes { proxy with nextSeq := proxy.nextSeq + 1 } frame
          call.times hcall.input_eq (show AdapterState.online ≠ .closed by decide) (by decide)
        exact ⟨hfresh.answered (hlength.trans hcall.input_eq), hfresh.opened⟩
  | scanner proxy =>
      refine proxyEnd_answered hopened hcall ?_
      intro frame devicesOnline hpeer
      have hlength := replyImage_length call.input (hcall.frame_ok frame devicesOnline hpeer)
      have hstate : (if devicesOnline = 0 then AdapterState.degraded else .online) ≠ .closed ∧
          (if devicesOnline = 0 then AdapterState.degraded else .online) ≠ .faulted := by
        split_ifs <;> decide
      have hfresh := proxyFresh_refreshes { proxy with nextSeq := proxy.nextSeq + 1 } frame
        call.times hcall.input_eq hstate.1 hstate.2
      exact ⟨hfresh.answered (hlength.trans hcall.input_eq), hfresh.opened⟩

end Answered

end SoftPlc.Adapters
