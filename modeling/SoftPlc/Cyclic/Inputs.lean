/-
# The inputs on their way to the program

A successful exchange returns the reply made to it. Here the exchanges are taken
together: one is over before the next one starts, so the results come in the order of
the exchange numbers, and so do the replies. Whatever is lost, late or refused on the
way, the images that reach the program as fresh are then images that the adapter sent,
in the order in which it sent them. The program never sees the field go back in time.
-/

import SoftPlc.Cyclic.Pairing
import SoftPlc.Math.Relay

namespace SoftPlc.Cyclic

open SoftPlc.Math SoftPlc.Ipc SoftPlc.Adapters

/-- The exchange in progress. -/
def CoreStage.current : CoreStage → Option Exchange
  | .idle => none
  | .drainRing exchange | .drainDoorbell exchange | .pushRequest exchange => some exchange
  | .postRequest exchange | .waitReply exchange | .popReply exchange => some exchange

/-- The results are numbered in their order, and the exchange in progress is newer. -/
structure Ordered (s : System) : Prop where
  results : s.results.Pairwise fun older newer => older.number < newer.number
  le_started : ∀ result ∈ s.results, result.number ≤ s.started
  current : ∀ exchange, s.core.current = some exchange →
    ∀ result ∈ s.results, result.number < s.started

namespace Ordered

variable {s next : System}

theorem start (caps : ProxyCaps) (openedUs : ℕ) : Ordered (System.start caps openedUs) where
  results := .nil
  le_started := fun _ hresult => by cases hresult
  current := fun _ hexchange => by cases hexchange

/-- Nothing is returned. -/
theorem frame (h : Ordered s) (hresults : next.results = s.results)
    (hstarted : next.started = s.started)
    (hcurrent : ∀ exchange, next.core.current = some exchange →
      ∃ older, s.core.current = some older) : Ordered next where
  results := by rw [hresults]; exact h.results
  le_started := by rw [hresults, hstarted]; exact h.le_started
  current := by
    intro exchange hexchange
    obtain ⟨older, holder⟩ := hcurrent exchange hexchange
    rw [hresults, hstarted]
    exact h.current older holder

/-- The exchange in progress has the newest number. -/
theorem number_eq (hnumbered : Numbered s) {exchange : Exchange}
    (hcurrent : s.core.current = some exchange) : exchange.number = s.started := by
  cases hcore : s.core with
  | idle =>
      rw [hcore] at hcurrent
      cases hcurrent
  | drainRing other | drainDoorbell other | pushRequest other =>
      rw [hcore] at hcurrent
      cases hcurrent
      exact (hnumbered.preparing exchange (by rw [hcore]; rfl)).1
  | postRequest other | waitReply other | popReply other =>
      rw [hcore] at hcurrent
      cases hcurrent
      exact (hnumbered.awaiting exchange (by rw [hcore]; rfl)).1

/-- The exchange in progress returns. -/
theorem returning (h : Ordered s) (hnumbered : Numbered s) {base : System} {exchange : Exchange}
    (hcurrent : s.core.current = some exchange) (hresults : base.results = s.results)
    (hstarted : base.started = s.started) (outcome : Proxy × PlcStatus × List Byte) :
    Ordered (base.returning exchange outcome) := by
  have hnumber := number_eq hnumbered hcurrent
  have hbefore := h.current exchange hcurrent
  exact
    { results := by
        simp only [System.returning, hresults]
        apply List.pairwise_append.mpr
        refine ⟨h.results, List.pairwise_singleton _ _, ?_⟩
        intro older holder newer hnewer
        rw [List.mem_singleton.mp hnewer]
        show older.number < exchange.number
        rw [hnumber]
        exact hbefore older holder
      le_started := by
        intro result hresult
        simp only [System.returning, hresults] at hresult
        show result.number ≤ base.started
        rw [hstarted]
        obtain hold | hnew := List.mem_append.mp hresult
        · exact h.le_started result hold
        · rw [List.mem_singleton.mp hnew]
          exact hnumber.le
      current := fun _ hnone => by cases hnone }

theorem move (h : Ordered s) (hnumbered : Numbered s) {act : Act} (hmove : Move s act next) :
    Ordered next := by
  cases hmove with
  | rejected => exact h
  | begins exchange hcore hnumber hseq =>
      exact
        { results := h.results
          le_started := fun result hresult => (h.le_started result hresult).trans (Nat.le_succ _)
          current := fun _ _ result hresult => Nat.lt_succ_of_le (h.le_started result hresult) }
  | misses _ exchange req now hact hcore =>
      have hcurrent : s.core.current = some exchange := by
        obtain hcore | hcore := hcore
        all_goals
          rw [hcore]
          rfl
      apply h.returning hnumbered hcurrent <;> rfl
  | faults reading exchange rsp frame now reply rest hcore hreplies hlate hseq =>
      have hcurrent : s.core.current = some exchange := by
        rw [hcore]
        rfl
      apply h.returning hnumbered hcurrent <;> rfl
  | pairs reading exchange rsp frame reply rest outcome hcore hreplies hseq hends =>
      have hcurrent : s.core.current = some exchange := by
        rw [hcore]
        rfl
      apply h.returning hnumbered hcurrent <;> rfl
  | drainsRing reading exchange rsp hcore | drainsDoorbell reading exchange hcore
  | pushes reading exchange req hcore | posts reading exchange hcore
  | wakes reading exchange hcore | empties reading exchange rsp hcore
  | discards reading exchange rsp frame reply rest hcore =>
      refine h.frame rfl rfl fun _ _ => ⟨exchange, ?_⟩
      rw [hcore]
      rfl
  | dies =>
      apply h.frame
      · unfold System.die
        split <;> rfl
      · unfold System.die
        split <;> rfl
      · intro exchange hexchange
        rw [System.die_core] at hexchange
        exact ⟨exchange, hexchange⟩
  | _ => exact h.frame rfl rfl fun exchange hexchange => ⟨exchange, hexchange⟩

end Ordered

/-- The results that brought fresh inputs. -/
def System.fresh (s : System) : List Result := s.results.filter fun result => result.status = .ok

/-- A result is what a reply carries. -/
structure Tagged.Gives (reply : Tagged) (result : Result) : Prop where
  number : reply.number = result.number
  image : result.image = fit 0 reply.message.payload result.inLen

/-- The replies accepted are replies made, in their order. -/
theorem Paired.exists_accepted {s : System} (hpaired : Paired s) (hordered : Ordered s) :
    ∃ accepted : List Tagged, accepted.Sublist s.made ∧
      List.Forall₂ Tagged.Gives accepted s.fresh := by
  have hmade : s.made.Pairwise fun older newer => older.number < newer.number :=
    List.pairwise_map.mp (List.pairwise_append.mp hpaired.numbered.ordered).1
  have hfresh : s.fresh.Pairwise fun older newer => older.number < newer.number :=
    hordered.results.sublist List.filter_sublist
  apply exists_sublist_of_keys hmade hfresh
  intro result hresult
  obtain ⟨hmem, hok⟩ := List.mem_filter.mp hresult
  obtain ⟨reply, hreply, hnumber, himage⟩ := hpaired.results result hmem (of_decide_eq_true hok)
  exact ⟨reply, hreply, hnumber, hnumber, himage⟩

/-- Both invariants along a run. -/
theorem paired_ordered_of_exec {role : Role} {caps : ProxyCaps} {openedUs : ℕ}
    {schedule : List Act} {s : System}
    (hrecent : Meets (System.step role) (fun before _ => before.Recent)
      (System.start caps openedUs) schedule)
    (hrun : exec (System.step role) (System.start caps openedUs) schedule = some s) :
    Paired s ∧ Ordered s := by
  have hstart : Paired (System.start caps openedUs) :=
    ⟨Numbered.start caps openedUs, rfl, fun _ hresult => by cases hresult⟩
  have hmove : ∀ before act after, Linked before → Paired before ∧ Ordered before →
      before.Recent → Move before act after → Paired after ∧ Ordered after := by
    intro before act after _ hinv hnow hmoved
    exact ⟨hinv.1.move hnow hmoved, hinv.2.move hinv.1.numbered hmoved⟩
  exact (run_invariant ⟨hstart, Ordered.start caps openedUs⟩ hmove hrecent hrun).2

/-- **The program never sees the field go back in time.** In every run in which all
queued frames are recent, with timeouts, late replies, refused ones and adapter processes
that die, the fresh images are images of replies that were made, in the order in which
they were made and none of them twice. -/
theorem fresh_in_order {role : Role} {caps : ProxyCaps} {openedUs : ℕ} {schedule : List Act}
    {s : System}
    (hrecent : Meets (System.step role) (fun before _ => before.Recent)
      (System.start caps openedUs) schedule)
    (hrun : exec (System.step role) (System.start caps openedUs) schedule = some s) :
    ∃ accepted : List Tagged, accepted.Sublist s.made ∧
      List.Forall₂ Tagged.Gives accepted s.fresh := by
  obtain ⟨hpaired, hordered⟩ := paired_ordered_of_exec hrecent hrun
  exact hpaired.exists_accepted hordered

/-- An exchange is answered, the next one gives up, and the third discards the late
reply before it accepts its own. -/
def lateBetween : List Act :=
  sending [5] ++ answering [1, 1] ++ List.replicate 2 (Act.core ⟨20, 21, 1⟩) ++
    (sending [6] ++ .timeout 1010 :: sending [7]) ++ answering [2, 2] ++ answering [3, 3] ++
    List.replicate 3 (Act.core ⟨20, 21, 1⟩)

theorem fresh_in_order_lateBetween :
    ∃ s, exec (System.step .adapter) (System.start sampleCaps 1) lateBetween = some s ∧
      s.fresh.map Result.image = [[1, 1], [3, 3]] ∧
      s.made.map (·.message.payload) = [[1, 1], [2, 2], [3, 3]] ∧
      ∃ accepted : List Tagged, accepted.Sublist s.made ∧
        List.Forall₂ Tagged.Gives accepted s.fresh := by
  have hview : (exec (System.step .adapter) (System.start sampleCaps 1) lateBetween).map
      (fun s => (s.fresh.map Result.image, s.made.map (·.message.payload))) =
      some ([[1, 1], [3, 3]], [[1, 1], [2, 2], [3, 3]]) := by decide +kernel
  obtain ⟨s, hrun, himages⟩ := Option.map_eq_some_iff.mp hview
  obtain ⟨hfresh, hmade⟩ := Prod.mk.inj himages
  exact ⟨s, hrun, hfresh, hmade, fresh_in_order (by decide +kernel) hrun⟩

end SoftPlc.Cyclic
