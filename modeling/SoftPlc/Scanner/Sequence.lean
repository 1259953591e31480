/-
# The newest frame wins

A device numbers the frames of a connection, and each carries 16 bits of its number.
The receive listener keeps a frame only if its count is ahead of the last one kept.
So the image is that of the highest number that has arrived, however often the count
has wrapped, and every other arrival is dropped and counted.

The wire delivers frames in any order while the rest of the process goes on: outputs
are handed over, images are exchanged, and other devices come and go.
-/

import SoftPlc.Math.Arrivals
import SoftPlc.Scanner.Station

namespace SoftPlc.Scanner

open SoftPlc.Math

/-- A frame arrives on the connection, or something else happens. -/
inductive WireEvent
  | arrival (number : ℕ)
  | aside (act : Act)

/-- What happens beside a connection: it leaves the connection alone, and no other
device receives a frame, since all devices share one count of dropped frames. -/
def Aside (index : ℕ) : Act → Prop
  | .poll | .exchange _ _ => True
  | .receive _ _ _ => False
  | .close other _ | .connect other _ _ => other ≠ index

def WireEvent.act (index : ℕ) (payload : ℕ → List Byte) : WireEvent → Act
  | .arrival number => .receive index (serial number) (payload number)
  | .aside act => act

/-- The numbers of the frames, in the order of their arrival. -/
def arrivals (events : List WireEvent) : List ℕ :=
  events.filterMap fun
    | .arrival number => some number
    | .aside _ => none

/-- The device of an open connection after some arrivals. -/
structure Newest (payload : ℕ → List Byte) (size : ℕ) (before : List ℕ) (line : Line) : Prop where
  connection : line.wire.connection ≠ none
  length : line.device.latest.length = size
  fresh : before = [] → line.device.haveSeq = false
  haveSeq : ∀ highest ∈ before.max?, line.device.haveSeq = true
  lastSeq : ∀ highest ∈ before.max?, line.device.lastSeq = serial highest
  latest : ∀ highest ∈ before.max?, line.device.latest = fit 0 (payload highest) size
  lastGood : ∀ highest ∈ before.max?, line.device.lastGood = line.device.latest

namespace Newest

variable {payload : ℕ → List Byte} {size : ℕ} {before : List ℕ} {line : Line}

theorem opened {row : Line} (hlength : row.device.latest.length = size) :
    Newest payload size [] (openConnection row) where
  connection := nofun
  length := hlength
  fresh := fun _ => rfl
  haveSeq := nofun
  lastSeq := nofun
  latest := nofun
  lastGood := nofun

theorem handOver (h : Newest payload size before line) :
    Newest payload size before (handOver line) := by
  unfold Scanner.handOver
  split_ifs
  · cases hlink : line.wire.connection with
    | none => exact absurd hlink h.connection
    | some link => exact { h with connection := nofun }
  · exact h

theorem stageOutputs (h : Newest payload size before line) (out : List Byte) :
    Newest payload size before { line with device := stageOutputs out line.device } := by
  unfold Scanner.stageOutputs
  split_ifs
  · exact { h with }
  · exact h

/-- The listener drops a frame that is not newer than the highest. -/
theorem dropsFrame_iff (h : Newest payload size before line) {number : ℕ}
    (hwithin : ∀ highest ∈ before.max?,
      number ≤ highest + (2 ^ 15 - 1) ∧ highest ≤ number + (2 ^ 15 - 1)) :
    dropsFrame line.device (serial number) ↔ ∃ earlier ∈ before, number ≤ earlier := by
  cases hhighest : before.max? with
  | none =>
      obtain rfl : before = [] := List.max?_eq_none_iff.mp hhighest
      simp [dropsFrame, h.fresh rfl]
  | some highest =>
      obtain ⟨hahead, hbehind⟩ := hwithin highest hhighest
      rw [exists_not_newer_iff hhighest, dropsFrame, h.haveSeq highest hhighest,
        h.lastSeq highest hhighest, serial_sub_nonpos_iff hahead hbehind]
      simp

/-- One arrival. -/
theorem receive (h : Newest payload size before line) {number : ℕ}
    (hwithin : ∀ highest ∈ before.max?,
      number ≤ highest + (2 ^ 15 - 1) ∧ highest ≤ number + (2 ^ 15 - 1)) (link : Link) :
    Newest payload size (before ++ [number])
      (receiveFrame line link (serial number) (payload number)) := by
  unfold Scanner.receiveFrame
  by_cases hdrops : dropsFrame line.device (serial number)
  · rw [if_pos hdrops]
    have hexists := (h.dropsFrame_iff hwithin).mp hdrops
    obtain ⟨highest, hhighest⟩ : ∃ highest, before.max? = some highest := by
      obtain ⟨earlier, hearlier, -⟩ := hexists
      exact Option.ne_none_iff_exists'.mp fun hnone =>
        List.ne_nil_of_mem hearlier (List.max?_eq_none_iff.mp hnone)
    have hsame : (before ++ [number]).max? = before.max? := by
      rw [hhighest]
      exact max?_concat_of_le hhighest ((exists_not_newer_iff hhighest).mp hexists)
    exact
      { connection := h.connection
        length := h.length
        fresh := fun hnil => absurd hnil (List.append_ne_nil_of_right_ne_nil _ nofun)
        haveSeq := hsame ▸ h.haveSeq
        lastSeq := hsame ▸ h.lastSeq
        latest := hsame ▸ h.latest
        lastGood := hsame ▸ h.lastGood }
  · rw [if_neg hdrops]
    have hnewest : (before ++ [number]).max? = some number := by
      apply max?_concat_of_newer
      intro earlier hearlier
      by_contra hlater
      exact hdrops ((h.dropsFrame_iff hwithin).mpr ⟨earlier, hearlier, by omega⟩)
    have hlatest : (acceptFrame line.device (serial number) (payload number)).latest =
        fit 0 (payload number) size := by
      rw [← h.length]
      exact memset_memcpy_eq_fit (payload number) 0 rfl
    rw [← Option.mem_def] at hnewest
    have honly : ∀ highest ∈ (before ++ [number]).max?, highest = number :=
      fun highest hhighest => Option.mem_unique hhighest hnewest
    exact
      { connection := nofun
        length := by
          rw [hlatest]
          exact fit_length ..
        fresh := fun hnil => absurd hnil (List.append_ne_nil_of_right_ne_nil _ nofun)
        haveSeq := fun _ _ => rfl
        lastSeq := fun highest hhighest => by rw [honly highest hhighest]; rfl
        latest := fun highest hhighest => by rw [honly highest hhighest]; exact hlatest
        lastGood := fun _ _ => rfl }

end Newest

/-! ## Runs -/

section Runs

variable {payload : ℕ → List Byte} {size index : ℕ} {before : List ℕ} {backend next : Backend}
  {line : Line}

theorem getElem?_setLine_of_ne {other : ℕ} (hother : other ≠ index) (new : Line) :
    (backend.setLine other new).lines[index]? = backend.lines[index]? :=
  List.getElem?_set_ne hother

/-- What happens beside a connection leaves its newest frame and the count of
dropped frames. -/
theorem step_aside {act : Act} (haside : Aside index act) (hstep : backend.step act = some next)
    (hline : backend.lines[index]? = some line) (h : Newest payload size before line) :
    next.outOfOrder = backend.outOfOrder ∧
      ∃ after, next.lines[index]? = some after ∧ Newest payload size before after := by
  cases act with
  | poll =>
      cases hstep
      refine ⟨rfl, Scanner.handOver line, ?_, h.handOver⟩
      rw [List.getElem?_map, hline]
      rfl
  | receive other sequence data => exact haside.elim
  | close other now =>
      simp only [Backend.step] at hstep
      split at hstep
      · cases hstep
      · split_ifs at hstep
        cases hstep
        exact ⟨rfl, line, (getElem?_setLine_of_ne haside _).trans hline, h⟩
  | connect other now attempt =>
      simp only [Backend.step] at hstep
      split at hstep
      · cases hstep
      · split_ifs at hstep
        cases hstep
        unfold connectDevice
        split_ifs
        · exact ⟨rfl, line, hline, h⟩
        · cases attempt <;>
            exact ⟨rfl, line, (getElem?_setLine_of_ne haside _).trans hline, h⟩
  | exchange out images =>
      cases hstep
      refine ⟨rfl, { line with device := Scanner.stageOutputs out line.device }, ?_,
        h.stageOutputs out⟩
      simp only [scannerExchange, List.getElem?_map, hline]
      rfl

/-- An arrival is counted if it is not newer than all before it. -/
theorem step_arrival {number : ℕ}
    (hwithin : ∀ highest ∈ before.max?,
      number ≤ highest + (2 ^ 15 - 1) ∧ highest ≤ number + (2 ^ 15 - 1))
    (hstep : backend.step (.receive index (serial number) (payload number)) = some next)
    (hline : backend.lines[index]? = some line) (h : Newest payload size before line) :
    next.outOfOrder =
        backend.outOfOrder + (if ∃ earlier ∈ before, number ≤ earlier then 1 else 0) ∧
      ∃ after, next.lines[index]? = some after ∧
        Newest payload size (before ++ [number]) after := by
  cases hlink : line.wire.connection with
  | none => exact absurd hlink h.connection
  | some link =>
      simp only [Backend.step, hline, hlink] at hstep
      cases hstep
      have hdrops := h.dropsFrame_iff hwithin
      refine ⟨?_, _, ?_, h.receive hwithin link⟩
      · simp only [hdrops]
      · have hlt := (List.getElem?_eq_some_iff.mp hline).1
        exact List.getElem?_set_self hlt

theorem run_events {events : List WireEvent} (hline : backend.lines[index]? = some line)
    (h : Newest payload size before line)
    (haside : ∀ act, WireEvent.aside act ∈ events → Aside index act)
    (hwithin : Within (2 ^ 15 - 1) before (arrivals events))
    (hrun : exec Backend.step backend (events.map (WireEvent.act index payload)) = some next) :
    next.outOfOrder = backend.outOfOrder + notNewer before (arrivals events) ∧
      ∃ after, next.lines[index]? = some after ∧
        Newest payload size (before ++ arrivals events) after := by
  induction events generalizing backend before line with
  | nil =>
      cases hrun
      refine ⟨rfl, line, hline, ?_⟩
      rwa [arrivals, List.filterMap_nil, List.append_nil]
  | cons event rest ih =>
      obtain ⟨middle, hstep, hrest⟩ := exec_cons_eq_some.mp hrun
      have hasideRest : ∀ act, WireEvent.aside act ∈ rest → Aside index act :=
        fun act hact => haside act (List.mem_cons_of_mem _ hact)
      cases event with
      | aside act =>
          obtain ⟨hcount, after, hafter, hnewest⟩ :=
            step_aside (haside act List.mem_cons_self) hstep hline h
          obtain ⟨htotal, hfinal⟩ := ih hafter hnewest hasideRest hwithin hrest
          exact ⟨htotal.trans (by rw [hcount]; rfl), hfinal⟩
      | arrival number =>
          obtain ⟨hnear, hwithinRest⟩ := hwithin
          obtain ⟨hcount, after, hafter, hnewest⟩ := step_arrival hnear hstep hline h
          obtain ⟨htotal, last, hlast, hfinal⟩ := ih hafter hnewest hasideRest hwithinRest hrest
          refine ⟨?_, last, hlast, ?_⟩
          · rw [htotal, hcount, Nat.add_assoc]
            rfl
          · rwa [List.append_assoc] at hfinal

end Runs

/-- **The image never steps backwards.** A connection has just been opened, and its
frames arrive in any order, each within half of the circle of the highest before it.
Then the image is that of the highest number that has arrived, the held image is the
same, and the dropped frames that were counted are the arrivals that were not newer
than all before them. -/
theorem image_of_highest {cfg : ScannerConfig} {opened s : Backend} {index : ℕ} {row : Line}
    {payload : ℕ → List Byte} {events : List WireEvent} (hreached : opened.Reached cfg)
    (hopened : opened.lines[index]? = some (openConnection row))
    (haside : ∀ act, WireEvent.aside act ∈ events → Aside index act)
    (hwithin : Within (2 ^ 15 - 1) [] (arrivals events))
    (hrun : exec Backend.step opened (events.map (WireEvent.act index payload)) = some s) :
    (∃ line, s.lines[index]? = some line ∧ line.wire.connection ≠ none ∧
      ∀ highest ∈ (arrivals events).max?,
        line.device.latest = fit 0 (payload highest) row.device.cfg.t2oBytes ∧
          line.device.lastGood = line.device.latest) ∧
      s.outOfOrder = opened.outOfOrder + notNewer [] (arrivals events) := by
  have hdevice : (openConnection row).device ∈ opened.devices :=
    List.mem_map_of_mem (List.mem_of_getElem? hopened)
  have hlength : row.device.latest.length = row.device.cfg.t2oBytes :=
    hreached.sized.latest (openConnection row).device hdevice
  have hstart : Newest payload row.device.cfg.t2oBytes [] (openConnection row) := .opened hlength
  obtain ⟨hcount, line, hline, hnewest⟩ := run_events hopened hstart haside hwithin hrun
  rw [List.nil_append] at hnewest
  exact ⟨⟨line, hline, hnewest.connection, fun highest hhighest =>
    ⟨hnewest.latest highest hhighest, hnewest.lastGood highest hhighest⟩⟩, hcount⟩

/-- A line that is connected at once. -/
def firstDrive : Line :=
  let line := Line.start (drivesTable.devices.get ⟨0, by decide⟩)
  { line with device := { line.device with nextRetry := reconnectInterval } }

/-- The count wraps; one frame is late, one comes twice and one is lost. -/
def lateFrames : List WireEvent :=
  [.arrival 65535, .aside .poll, .arrival 65536, .arrival 65535, .arrival 65538, .arrival 65538]

def lowByte (number : ℕ) : List Byte := [UInt8.ofNat number]

theorem image_of_highest_lateFrames :
    ∃ opened s line, exec Backend.step (scannerInit drivesTable) [.connect 0 0 .opened] =
        some opened ∧
      exec Backend.step opened (lateFrames.map (WireEvent.act 0 lowByte)) = some s ∧
      s.lines[0]? = some line ∧ line.device.latest = [2, 0] ∧ s.outOfOrder = 2 := by
  have hview : ((exec Backend.step (scannerInit drivesTable) [.connect 0 0 .opened]).bind
      fun opened => (exec Backend.step opened (lateFrames.map (WireEvent.act 0 lowByte))).map
        fun _ => (opened.lines[0]?, opened.outOfOrder)) =
      some (some (openConnection firstDrive), 0) := by
    decide +kernel
  have haside : ∀ act, WireEvent.aside act ∈ lateFrames → Aside 0 act := by
    intro act hact
    simp only [lateFrames, List.mem_cons, reduceCtorEq, WireEvent.aside.injEq, List.not_mem_nil,
      false_or, or_false] at hact
    subst hact
    trivial
  have hwithin : Within (2 ^ 15 - 1) [] (arrivals lateFrames) := by decide +kernel
  obtain ⟨opened, hconnect, hrest⟩ := Option.bind_eq_some_iff.mp hview
  obtain ⟨s, hrun, hvalues⟩ := Option.map_eq_some_iff.mp hrest
  obtain ⟨hopened, hcount⟩ := Prod.mk.inj hvalues
  obtain ⟨⟨line, hline, -, himage⟩, htotal⟩ :=
    image_of_highest ⟨_, hconnect⟩ hopened haside hwithin hrun
  have hhighest : 65538 ∈ (arrivals lateFrames).max? := by decide +kernel
  refine ⟨opened, s, line, hconnect, hrun, hline, ?_, ?_⟩
  · rw [(himage 65538 hhighest).1]
    decide +kernel
  · rw [htotal, hcount]
    decide +kernel

end SoftPlc.Scanner
