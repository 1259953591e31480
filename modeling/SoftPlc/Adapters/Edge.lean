/-
# Edges in the process image

A missed frame is a suspicion and must not be allowed to inject an edge: inside
the failsafe window an exchange that misses should return what the exchange
before it returned. Three paths of the adapter-role proxy write the image. A
fresh reply stores what it writes. A reply flagged invalid writes what the
policy says and refreshes the staleness clock, but stores nothing. A miss inside
the window writes what is stored.

Under `CLEAR` the last two disagree. The peer says its data is invalid, the
image is cleared, and a single lost frame then brings the old image back. The
theorem says exactly when.
-/

import Mathlib.Data.List.Chain
import Mathlib.Data.List.Induction
import SoftPlc.Adapters.Contract

namespace SoftPlc.Adapters

open SoftPlc.Math SoftPlc.Ipc

/-- What an exchange of the adapter role found. -/
inductive Found
  | fresh (image : List Byte)
  | invalid
  | missed
  deriving DecidableEq, Repr

/-- What a call finds: a usable reply, a reply flagged invalid, or a miss. -/
def Call.found (call : Call) : Found :=
  match call.peer with
  | .replies frame _ =>
      if frame.flags &&& plcIpcFrameDataInvalid ≠ 0 then .invalid
      else .fresh (replyImage frame call.input)
  | .silent _ => .missed

/-- The image an exchange of the adapter role returns, as a machine. -/
def eipAnswer (proxy : Proxy) (call : Call) : Proxy × List Byte :=
  ((Adapter.eipExchange proxy call).1, (Adapter.eipExchange proxy call).2.2)

/-- The proxy and the images after a run of exchanges. -/
def eipRun (caps : ProxyCaps) (openedUs : ℕ) (past : List Call) : Proxy × List (List Byte) :=
  trace eipAnswer (proxyOpen caps openedUs) past

/-- The last image in a list of them, zeros if there is none. -/
def latestImage (size : ℕ) (images : List (List Byte)) : List Byte :=
  images.getLast?.getD (List.replicate size 0)

/-- The last fresh image of a history, zeros if there is none. -/
def lastFresh (size : ℕ) (past : List Call) : List Byte :=
  past.foldl
    (fun kept call =>
      match call.found with
      | .fresh image => image
      | .invalid | .missed => kept)
    (List.replicate size 0)

/-- The last exchange of a history was answered with a reply flagged invalid. -/
def EndsInvalid (past : List Call) : Prop := past.getLast?.map Call.found = some .invalid

instance (past : List Call) : Decidable (EndsInvalid past) :=
  inferInstanceAs (Decidable (_ = _))

@[simp]
theorem endsInvalid_concat (past : List Call) (call : Call) :
    EndsInvalid (past ++ [call]) ↔ call.found = .invalid := by
  simp [EndsInvalid]

/-- One more exchange changes the last fresh image only if it is fresh. -/
@[simp]
theorem lastFresh_concat (size : ℕ) (past : List Call) (call : Call) :
    lastFresh size (past ++ [call]) =
      match call.found with
      | .fresh image => image
      | .invalid | .missed => lastFresh size past := by
  simp only [lastFresh, List.foldl_append, List.foldl_cons, List.foldl_nil]

/-- The image a history leaves with the caller while the window has not
passed. -/
def shownImage (caps : AdapterCaps) (past : List Call) : List Byte :=
  if EndsInvalid past then
    failsafeImage caps.failsafePolicy caps.inputBytes (lastFresh caps.inputBytes past)
  else lastFresh caps.inputBytes past

/-- What the proxy knows of its history: the stored image is the last fresh one,
and unless the last exchange was a miss past the window, the caller holds
`shownImage`. -/
structure Shown (caps : AdapterCaps) (past : List Call) (record : Record)
    (previous : List Byte) : Prop where
  caps_eq : record.caps = caps
  opened : record.state ≠ .closed
  room : caps.inputBytes ≤ record.lastGood.length
  held : record.lastGood.take caps.inputBytes = lastFresh caps.inputBytes past
  shown : (∃ last, past.getLast? = some last ∧ caps.failsafeTimeoutUs ≤
      plcStalenessAgeUs record.stale record.openedUs last.times.finish) ∨
    previous = shownImage caps past

namespace Shown

variable {caps : AdapterCaps} {past : List Call} {proxy : Proxy} {previous : List Byte}
  {call : Call}

/-- What either policy writes over the caller's buffer. -/
theorem applyFailsafe {record : Record} (h : Shown caps past record previous)
    (policy : FailsafePolicy) (hcall : Fits caps call) :
    plcAdapterApplyFailsafe policy call.input record.lastGood call.input.length =
      failsafeImage policy caps.inputBytes (lastFresh caps.inputBytes past) := by
  rw [plcAdapterApplyFailsafe_eq policy rfl, hcall.input_eq, h.held]
  cases policy <;> rfl

/-- The exchange passes its argument checks. -/
theorem exchange (h : Shown caps past proxy.record previous) (hcall : Fits caps call) :
    Adapter.eipExchange proxy call =
      match call.peer with
      | .replies frame _ =>
          eipProxyFinish { proxy with nextSeq := proxy.nextSeq + 1 } frame call.input call.times
      | .silent miss =>
          proxyMiss { proxy with nextSeq := proxy.nextSeq + 1 } call.input miss
            call.times.finish := by
  have hfits : Fits proxy.caps.toAdapterCaps call := by
    rw [show proxy.caps.toAdapterCaps = caps from h.caps_eq]
    exact hcall
  have hadmits := proxyAdmits_none h.opened hfits
  cases hpeer : call.peer with
  | replies frame devicesOnline =>
      simp only [Adapter.eipExchange, Adapter.proxyEnd, hadmits, hpeer]
  | silent miss => simp only [Adapter.eipExchange, Adapter.proxyEnd, hadmits, hpeer]

/-- A miss escalates, from the record the exchange found. -/
theorem escalates {miss : Miss} (h : Shown caps past proxy.record previous)
    (hcall : Fits caps call) (hpeer : call.peer = .silent miss) :
    Escalates proxy.record (eipAnswer proxy call).1.record call.input (eipAnswer proxy call).2
      call.times.finish := by
  rw [eipAnswer, h.exchange hcall, hpeer]
  exact proxyMiss_escalates { proxy with nextSeq := proxy.nextSeq + 1 } call.input miss
    call.times.finish

/-- A fresh reply refreshes, from the record the exchange found. -/
theorem refreshes {frame : Frame} {devicesOnline : ℕ} (h : Shown caps past proxy.record previous)
    (hcall : Fits caps call) (hpeer : call.peer = .replies frame devicesOnline)
    (hflag : ¬ frame.flags &&& plcIpcFrameDataInvalid ≠ 0) :
    (eipAnswer proxy call).2 = replyImage frame call.input ∧
      Refreshes proxy.record (eipAnswer proxy call).1.record (replyImage frame call.input)
        call.times.finish := by
  have hbuffer : call.input.length = proxy.record.caps.inputBytes := by
    rw [hcall.input_eq, h.caps_eq]
  rw [eipAnswer, h.exchange hcall, hpeer]
  simp only [eipProxyFinish, if_neg hflag]
  exact ⟨rfl, proxyFresh_refreshes { proxy with nextSeq := proxy.nextSeq + 1 } frame call.times
    hbuffer (by decide) (by decide)⟩

/-- A miss inside the window returns the last fresh image. -/
theorem missed {miss : Miss} (h : Shown caps past proxy.record previous) (hcall : Fits caps call)
    (hpeer : call.peer = .silent miss)
    (hwithin : ¬ caps.failsafeTimeoutUs ≤
      plcStalenessAgeUs proxy.stale proxy.openedUs call.times.finish) :
    (eipAnswer proxy call).2 = lastFresh caps.inputBytes past := by
  have hescalates := h.escalates hcall hpeer
  rw [← h.caps_eq] at hwithin
  rw [(hescalates.within hwithin).2.2.2]
  exact h.applyFailsafe .hold hcall

/-- A miss keeps what is stored. -/
theorem answer_silent {miss : Miss} (h : Shown caps past proxy.record previous)
    (hcall : Fits caps call) (hpeer : call.peer = .silent miss) :
    Shown caps (past ++ [call]) (eipAnswer proxy call).1.record (eipAnswer proxy call).2 := by
  have hescalates := h.escalates hcall hpeer
  have hfound : call.found = .missed := by
    unfold Call.found
    rw [hpeer]
  have hlast : lastFresh caps.inputBytes (past ++ [call]) = lastFresh caps.inputBytes past := by
    rw [lastFresh_concat, hfound]
  exact
    { caps_eq := hescalates.caps_eq.trans h.caps_eq
      opened := hescalates.opened h.opened
      room := by
        rw [hescalates.lastGood_eq]
        exact h.room
      held := by
        rw [hescalates.lastGood_eq, hlast]
        exact h.held
      shown := by
        by_cases hpast : caps.failsafeTimeoutUs ≤
            plcStalenessAgeUs proxy.stale proxy.openedUs call.times.finish
        · refine .inl ⟨call, List.getLast?_concat, ?_⟩
          rw [hescalates.stale_eq, hescalates.opened_eq]
          exact hpast
        · right
          rw [h.missed hcall hpeer hpast, shownImage, if_neg (by simp [hfound]), hlast] }

/-- A reply flagged invalid shows what the policy says and stores nothing. -/
theorem answer_invalid {frame : Frame} {devicesOnline : ℕ}
    (h : Shown caps past proxy.record previous) (hcall : Fits caps call)
    (hpeer : call.peer = .replies frame devicesOnline)
    (hflag : frame.flags &&& plcIpcFrameDataInvalid ≠ 0) :
    Shown caps (past ++ [call]) (eipAnswer proxy call).1.record (eipAnswer proxy call).2 := by
  have hfound : call.found = .invalid := by
    simp only [Call.found, hpeer, if_pos hflag]
  have hlast : lastFresh caps.inputBytes (past ++ [call]) = lastFresh caps.inputBytes past := by
    rw [lastFresh_concat, hfound]
  have hshown := h.applyFailsafe caps.failsafePolicy hcall
  rw [eipAnswer, h.exchange hcall, hpeer]
  simp only [eipProxyFinish, if_pos hflag]
  exact
    { caps_eq := h.caps_eq
      opened := fun hclosed => by cases hclosed
      room := h.room
      held := h.held.trans hlast.symm
      shown := by
        right
        rw [shownImage, if_pos ((endsInvalid_concat past call).mpr hfound), hlast, ← hshown,
          ← h.caps_eq]
        rfl }

/-- A fresh reply is shown and stored. -/
theorem answer_fresh {frame : Frame} {devicesOnline : ℕ}
    (h : Shown caps past proxy.record previous) (hcall : Fits caps call)
    (hpeer : call.peer = .replies frame devicesOnline)
    (hflag : ¬ frame.flags &&& plcIpcFrameDataInvalid ≠ 0) :
    Shown caps (past ++ [call]) (eipAnswer proxy call).1.record (eipAnswer proxy call).2 := by
  have hfound : call.found = .fresh (replyImage frame call.input) := by
    simp only [Call.found, hpeer, if_neg hflag]
  have hlast : lastFresh caps.inputBytes (past ++ [call]) = replyImage frame call.input := by
    rw [lastFresh_concat, hfound]
  have hlength : (replyImage frame call.input).length = caps.inputBytes :=
    (replyImage_length call.input (hcall.frame_ok frame devicesOnline hpeer)).trans
      hcall.input_eq
  have hsrc : caps.inputBytes ≤ (replyImage frame call.input).length :=
    Nat.le_of_eq hlength.symm
  obtain ⟨himage, hrefreshes⟩ := h.refreshes hcall hpeer hflag
  have hstored := hrefreshes.lastGood_eq
  rw [h.caps_eq] at hstored
  exact
    { caps_eq := hrefreshes.caps_eq.trans h.caps_eq
      opened := hrefreshes.opened
      room := by
        rw [hstored, memcpy_zero_length hsrc h.room]
        exact h.room
      held := by
        rw [hstored, hlast, take_memcpy_zero _ hsrc, ← hlength]
        exact List.take_length
      shown := by
        right
        rw [himage, shownImage, if_neg (by simp [hfound]), hlast] }

/-- One more exchange of any outcome. -/
theorem answer (h : Shown caps past proxy.record previous) (hcall : Fits caps call) :
    Shown caps (past ++ [call]) (eipAnswer proxy call).1.record (eipAnswer proxy call).2 := by
  cases hpeer : call.peer with
  | silent miss => exact h.answer_silent hcall hpeer
  | replies frame devicesOnline =>
      by_cases hflag : frame.flags &&& plcIpcFrameDataInvalid ≠ 0
      · exact h.answer_invalid hcall hpeer hflag
      · exact h.answer_fresh hcall hpeer hflag

end Shown

/-- Every run keeps the invariant, from a just opened proxy. -/
theorem eipRun_shown (caps : ProxyCaps) (openedUs : ℕ) {past : List Call}
    (hpast : ∀ call ∈ past, Fits caps.toAdapterCaps call) :
    Shown caps.toAdapterCaps past (eipRun caps openedUs past).1.record
      (latestImage caps.inputBytes (eipRun caps openedUs past).2) := by
  induction past using List.reverseRecOn with
  | nil =>
      have hroom := caps.input_le
      exact
        { caps_eq := rfl
          opened := fun hclosed => by cases hclosed
          room := by simpa [eipRun, trace, proxyOpen, Proxy.record] using hroom
          held := by simp [eipRun, trace, proxyOpen, Proxy.record, lastFresh, hroom]
          shown := .inr rfl }
  | append_singleton past call ih =>
      have hbefore := ih fun other hother => hpast other (List.mem_append_left _ hother)
      have hafter := hbefore.answer (hpast call (by simp))
      rw [eipRun, trace_concat]
      simp only [latestImage, List.getLast?_concat, Option.getD_some]
      exact hafter

/-- **A miss inside the window.** After any run of exchanges, at readings that do
not decrease, a miss inside the failsafe window returns the image of the exchange
before it (zeros if there was none) except in one case: the policy is `CLEAR`,
that exchange was answered with a reply flagged invalid, and the last fresh image
is not all zeros. -/
theorem inWindow_miss_repeats_iff (caps : ProxyCaps) (openedUs : ℕ) (past : List Call)
    (call : Call) (miss : Miss) (hpast : ∀ earlier ∈ past, Fits caps.toAdapterCaps earlier)
    (hcall : Fits caps.toAdapterCaps call)
    (hclock : List.IsChain (· ≤ ·) ((past ++ [call]).map fun exchange => exchange.times.finish))
    (hpeer : call.peer = .silent miss)
    (hwithin : plcStalenessAgeUs (eipRun caps openedUs past).1.stale
      (eipRun caps openedUs past).1.openedUs call.times.finish < caps.failsafeTimeoutUs) :
    (eipAnswer (eipRun caps openedUs past).1 call).2 =
        latestImage caps.inputBytes (eipRun caps openedUs past).2 ↔
      ¬ (caps.failsafePolicy = .clear ∧ EndsInvalid past ∧
        lastFresh caps.inputBytes past ≠ List.replicate caps.inputBytes 0) := by
  have hshown := eipRun_shown caps openedUs hpast
  have hprevious : latestImage caps.inputBytes (eipRun caps openedUs past).2 =
      shownImage caps.toAdapterCaps past := by
    refine hshown.shown.resolve_left ?_
    rintro ⟨last, hlast, hage⟩
    have hle : last.times.finish ≤ call.times.finish := by
      rw [List.map_append, List.isChain_append] at hclock
      exact hclock.2.2 _ (by simp [hlast]) _ (by simp)
    have hmono := plcStalenessAgeUs_mono (eipRun caps openedUs past).1.stale
      (eipRun caps openedUs past).1.openedUs hle
    exact absurd hwithin (Nat.not_lt.mpr (Nat.le_trans hage hmono))
  rw [hprevious, hshown.missed hcall hpeer (Nat.not_le.mpr hwithin), shownImage]
  split_ifs with hends
  · cases hpolicy : caps.failsafePolicy with
    | hold => simp [failsafeImage]
    | clear => simp [failsafeImage, hends]
  · simp [hends]

/-- A reply that says the data is not usable. -/
def invalidReply : Peer :=
  .replies { seq := 2, len := 2, flags := plcIpcFrameDataInvalid, data := [0, 0] } 0

/-- A fresh image, then a reply that says the data is not usable. -/
def disowned : List Call := [pairCall 1000 pairReply none, pairCall 2000 invalidReply none]

/-- A fresh image, then a miss. -/
def lost : List Call := [pairCall 1000 pairReply none, pairCall 2000 (.silent .timeout) none]

/-- A peer that goes idle, and one frame lost a millisecond later: the cleared
image jumps back to the image from before the peer went idle. -/
theorem idle_then_lost_frame_injects_edge :
    pairProxyCaps.failsafePolicy = .clear ∧
      (∀ call ∈ disowned, Fits pairProxyCaps.toAdapterCaps call) ∧
      plcStalenessAgeUs (eipRun pairProxyCaps 100 disowned).1.stale
          (eipRun pairProxyCaps 100 disowned).1.openedUs 3000 < pairProxyCaps.failsafeTimeoutUs ∧
      (eipRun pairProxyCaps 100 disowned).2 = [[1, 2], [0, 0]] ∧
      (eipAnswer (eipRun pairProxyCaps 100 disowned).1 (pairCall 3000 (.silent .timeout) none)).2 =
        [1, 2] := by
  refine ⟨rfl, ?_, by decide +kernel, by decide +kernel, by decide +kernel⟩
  intro call hcall
  simp only [disowned, List.mem_cons, List.not_mem_nil, or_false] at hcall
  rcases hcall with rfl | rfl
  · exact pairCall_fits rfl rfl _ _ fun frame n hreply => (pairReply_ok frame n hreply).1
  · apply pairCall_fits rfl rfl
    rintro frame devicesOnline ⟨⟩
    decide

theorem inWindow_miss_repeats_iff_lost :
    (eipAnswer (eipRun pairProxyCaps 100 lost).1 (pairCall 3000 (.silent .timeout) none)).2 =
        latestImage 2 (eipRun pairProxyCaps 100 lost).2 ∧
      latestImage 2 (eipRun pairProxyCaps 100 lost).2 = [1, 2] := by
  have hlost : ∀ call ∈ lost, Fits pairProxyCaps.toAdapterCaps call := by
    intro call hcall
    simp only [lost, List.mem_cons, List.not_mem_nil, or_false] at hcall
    rcases hcall with rfl | rfl
    · exact pairCall_fits rfl rfl _ _ fun frame n hreply => (pairReply_ok frame n hreply).1
    · exact pairCall_fits rfl rfl _ _ nofun
  have hiff := inWindow_miss_repeats_iff pairProxyCaps 100 lost
    (pairCall 3000 (.silent .timeout) none) .timeout hlost (pairCall_fits rfl rfl _ _ nofun)
    (by decide) rfl (by decide +kernel)
  exact ⟨hiff.mpr (by decide +kernel), by decide +kernel⟩

end SoftPlc.Adapters
