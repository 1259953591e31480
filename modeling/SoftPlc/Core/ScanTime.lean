/-
# Time across scans

A scan hands its programs the time since the last scan that handed them any. A scan
that an I/O fault aborts does not count: it leaves the stamp of the last executed
scan alone, so the time it took is in the next `dt` that is handed out. The `dt`s
therefore add up to the clock, and a timer that is run in every executed scan has
counted what the clock has, up to its preset.

What a program was handed is seen in the variables it keeps: after a session they are
what its body makes of the contexts of the executed scans, one after the other.

Under a clock below `2 ^ 62` no difference or sum of times leaves the range of
`PLC_TIME`.
-/

import SoftPlc.Core.ScanContract
import SoftPlc.Core.Timers

namespace SoftPlc

open SoftPlc.Math

variable {ω : Type}

/-! ## What the programs are handed -/

/-- The context a scan hands to its programs, unless it is aborted. -/
def executedCtx (rt : Runtime ω) (t0 : ℤ) (world : ω) : Option PouCtx :=
  if (scanIo rt world).Aborts rt.cfg then none
  else some (scanCtx (scanInput rt t0 (scanIo rt world)) t0)

/-- The contexts handed out in a session. -/
def executedCtxs (s : Session ω) : List SessionAct → List PouCtx
  | [] => []
  | .scan t0 t1 :: rest =>
      (executedCtx s.rt t0 s.world).toList ++ executedCtxs (s.step (.scan t0 t1)) rest
  | .access access :: rest => executedCtxs (s.step (.access access)) rest

/-- The clock at the start of each scan of a session that is not aborted. -/
def completedStarts (s : Session ω) : List SessionAct → List ℤ
  | [] => []
  | .scan t0 t1 :: rest =>
      (if (plcRuntimeScanOnce s.rt t0 t1 s.world).completed then [t0] else []) ++
        completedStarts (s.step (.scan t0 t1)) rest
  | .access access :: rest => completedStarts (s.step (.access access)) rest

/-- The clock at the start of each scan of a session. -/
def scanStarts : List SessionAct → List ℤ
  | [] => []
  | .scan t0 _ :: rest => t0 :: scanStarts rest
  | .access _ :: rest => scanStarts rest

/-- The stamp of the last scan that executed. -/
def Runtime.lastExecuted (rt : Runtime ω) : Option ℤ :=
  if rt.firstScan then none else some rt.lastScanNs

/-- A scan that is aborted leaves the stamp, and one that is executed moves it. -/
theorem scanOnce_lastExecuted (rt : Runtime ω) (t0 t1 : ℤ) (world : ω) :
    (plcRuntimeScanOnce rt t0 t1 world).rt.lastExecuted =
      if (scanIo rt world).Aborts rt.cfg then rt.lastExecuted else some t0 := by
  split_ifs with habort
  · rw [scanOnce_aborted rt t0 t1 world habort]
    cases hfirst : rt.firstScan <;> simp [Runtime.lastExecuted, scanInput, hfirst]
  · rw [scanOnce_executed rt t0 t1 world habort]
    rfl

theorem executedCtx_aborted {rt : Runtime ω} {world : ω} (t0 : ℤ)
    (habort : (scanIo rt world).Aborts rt.cfg) : executedCtx rt t0 world = none :=
  if_pos habort

theorem executedCtx_executed {rt : Runtime ω} {world : ω} (t0 : ℤ)
    (hgo : ¬ (scanIo rt world).Aborts rt.cfg) :
    executedCtx rt t0 world = some (scanCtx (scanInput rt t0 (scanIo rt world)) t0) :=
  if_neg hgo

/-- The time since a stamp, if there is one. -/
def sinceStamp (now : ℤ) : Option ℤ → ℤ
  | none => 0
  | some stamp => now - stamp

theorem executedCtx_dt {rt : Runtime ω} {t0 : ℤ} {world : ω} {ctx : PouCtx}
    (hctx : executedCtx rt t0 world = some ctx) :
    ctx.now = t0 ∧ ctx.dt = sinceStamp t0 rt.lastExecuted := by
  unfold executedCtx at hctx
  split_ifs at hctx
  cases hctx
  cases hfirst : rt.firstScan <;>
    simp [scanCtx, scanInput, Runtime.lastExecuted, sinceStamp, hfirst]

/-- Each context says the time since the one before. -/
def Spaced : Option ℤ → List PouCtx → Prop
  | _, [] => True
  | last, ctx :: rest => ctx.dt = sinceStamp ctx.now last ∧ Spaced (some ctx.now) rest

theorem executedCtxs_spaced (s : Session ω) (acts : List SessionAct) :
    Spaced s.rt.lastExecuted (executedCtxs s acts) := by
  induction acts generalizing s with
  | nil => trivial
  | cons act rest ih =>
      cases act with
      | access access => exact ih (s.step (.access access))
      | scan t0 t1 =>
          have hrest := ih (s.step (.scan t0 t1))
          have hlast : (s.step (.scan t0 t1)).rt.lastExecuted = _ :=
            scanOnce_lastExecuted s.rt t0 t1 s.world
          rw [hlast] at hrest
          rw [executedCtxs]
          by_cases habort : (scanIo s.rt s.world).Aborts s.rt.cfg
          · rw [if_pos habort] at hrest
            rw [executedCtx_aborted t0 habort]
            exact hrest
          · rw [if_neg habort] at hrest
            have hctx := executedCtx_executed t0 habort
            rw [hctx]
            exact ⟨(executedCtx_dt hctx).2, hrest⟩

/-- The executed scans are among the scans. -/
theorem executedCtxs_sublist (s : Session ω) (acts : List SessionAct) :
    ((executedCtxs s acts).map PouCtx.now).Sublist (scanStarts acts) := by
  induction acts generalizing s with
  | nil => exact List.Sublist.refl []
  | cons act rest ih =>
      cases act with
      | access access => exact ih (s.step (.access access))
      | scan t0 t1 =>
          have hrest := ih (s.step (.scan t0 t1))
          rw [executedCtxs, scanStarts]
          cases hctx : executedCtx s.rt t0 s.world with
          | none => exact hrest.cons t0
          | some ctx =>
              rw [Option.toList_some, List.singleton_append, List.map_cons,
                (executedCtx_dt hctx).1]
              exact hrest.cons_cons t0

/-- The scans that execute are those that complete. -/
theorem executedCtxs_now (s : Session ω) (acts : List SessionAct) :
    (executedCtxs s acts).map PouCtx.now = completedStarts s acts := by
  induction acts generalizing s with
  | nil => rfl
  | cons act rest ih =>
      cases act with
      | access access => exact ih (s.step (.access access))
      | scan t0 t1 =>
          have hcompleted := scanOnce_completed s.rt t0 t1 s.world
          rw [executedCtxs, completedStarts, List.map_append, ih]
          congr 1
          by_cases habort : (scanIo s.rt s.world).Aborts s.rt.cfg
          · rw [if_neg (fun hdone => hcompleted.mp hdone habort), executedCtx_aborted t0 habort]
            rfl
          · rw [if_pos (hcompleted.mpr habort), executedCtx_executed t0 habort]
            rfl

/-! ## What a program makes of it -/

section Variables

variable {σ : Type} {var : ω → σ} {body : PouCtx → σ → σ}

/-- One program keeps a variable in the world. It changes it as `body` says, by the
context it is handed; the other programs and the adapters leave it alone. -/
structure KeepsVariable (var : ω → σ) (body : PouCtx → σ → σ) (rt : Runtime ω) : Prop where
  program : ∃ before keeper after, rt.programs = before ++ keeper :: after ∧
    (∀ ctx pi world, var (keeper.fn ctx pi world).2 = body ctx (var world)) ∧
    ∀ other ∈ before ++ after, ∀ ctx pi world, var (other.fn ctx pi world).2 = var world
  adapters : ∀ binding ∈ rt.bindings, ∀ world out input,
    var (binding.adapter.exchange world out input).2.2 = var world

theorem runPrograms_append (ctx : PouCtx) (first second : List (PlcProgram ω))
    (pi : ProcessImage) (world : ω) :
    runPrograms ctx (first ++ second) pi world =
      runPrograms ctx second (runPrograms ctx first pi world).1
        (runPrograms ctx first pi world).2 := by
  induction first generalizing pi world with
  | nil => rfl
  | cons program rest ih => exact ih _ _

/-- Programs that leave a variable alone do so one after the other. -/
theorem runPrograms_frame (ctx : PouCtx) {programs : List (PlcProgram ω)}
    (hothers : ∀ other ∈ programs, ∀ ctx pi world, var (other.fn ctx pi world).2 = var world)
    (pi : ProcessImage) (world : ω) : var (runPrograms ctx programs pi world).2 = var world := by
  induction programs generalizing pi world with
  | nil => rfl
  | cons program rest ih =>
      rw [runPrograms, ih fun other hother => hothers other (List.mem_cons_of_mem _ hother)]
      exact hothers program List.mem_cons_self ctx pi world

/-- So do the adapters, whether or not they are asked. -/
theorem foldl_scanBinding_frame {bindings : List (IoBinding ω)}
    (hadapters : ∀ binding ∈ bindings, ∀ world out input,
      var (binding.adapter.exchange world out input).2.2 = var world)
    (qShadow : List Byte) (io : IoPhase ω) :
    var (bindings.foldl (scanBinding qShadow) io).world = var io.world := by
  induction bindings generalizing io with
  | nil => rfl
  | cons binding rest ih =>
      rw [List.foldl_cons, ih fun other hother => hadapters other (List.mem_cons_of_mem _ hother)]
      simp only [scanBinding, plcAdapterExchange]
      split_ifs
      · rfl
      · exact hadapters binding List.mem_cons_self ..
      · rfl
      · exact hadapters binding List.mem_cons_self ..

namespace KeepsVariable

variable {rt : Runtime ω}

/-- The programs of a scan run the body once. -/
theorem runPrograms (h : KeepsVariable var body rt) (ctx : PouCtx) (pi : ProcessImage)
    (world : ω) : var (runPrograms ctx rt.programs pi world).2 = body ctx (var world) := by
  obtain ⟨before, keeper, after, hprograms, hkeeper, hothers⟩ := h.program
  rw [hprograms, runPrograms_append, SoftPlc.runPrograms,
    runPrograms_frame ctx fun other hother => hothers other (List.mem_append_right _ hother),
    hkeeper,
    runPrograms_frame ctx fun other hother => hothers other (List.mem_append_left _ hother)]

theorem scanIo (h : KeepsVariable var body rt) (world : ω) :
    var (scanIo rt world).world = var world :=
  foldl_scanBinding_frame h.adapters rt.qShadow _

/-- A scan runs the body on the context it executes, and an aborted one not at all. -/
theorem scanOnce (h : KeepsVariable var body rt) (t0 t1 : ℤ) (world : ω) :
    var (plcRuntimeScanOnce rt t0 t1 world).world =
      (executedCtx rt t0 world).toList.foldl (fun value ctx => body ctx value) (var world) := by
  by_cases habort : (SoftPlc.scanIo rt world).Aborts rt.cfg
  · rw [scanOnce_aborted rt t0 t1 world habort, executedCtx_aborted t0 habort]
    exact h.scanIo world
  · rw [scanOnce_executed rt t0 t1 world habort, executedCtx_executed t0 habort]
    exact (h.runPrograms _ _ _).trans (congrArg _ (h.scanIo world))

end KeepsVariable

/-- A scan keeps the programs. -/
theorem scanOnce_programs (rt : Runtime ω) (t0 t1 : ℤ) (world : ω) :
    (plcRuntimeScanOnce rt t0 t1 world).rt.programs = rt.programs := by
  by_cases habort : (scanIo rt world).Aborts rt.cfg
  · rw [scanOnce_aborted rt t0 t1 world habort]
    rfl
  · rw [scanOnce_executed rt t0 t1 world habort]
    rfl

theorem KeepsVariable.step {s : Session ω} (h : KeepsVariable var body s.rt)
    (act : SessionAct) : KeepsVariable var body (s.step act).rt := by
  cases act with
  | access access => exact ⟨h.program, h.adapters⟩
  | scan t0 t1 =>
      have hbindings := (scanOnce_keeps s.rt t0 t1 s.world).2.1
      have hprograms := scanOnce_programs s.rt t0 t1 s.world
      exact ⟨hprograms ▸ h.program, hbindings ▸ h.adapters⟩

/-- After a session the variable is what the body makes of the contexts in turn. -/
theorem KeepsVariable.session {s : Session ω} (h : KeepsVariable var body s.rt)
    (acts : List SessionAct) :
    var (acts.foldl Session.step s).world =
      (executedCtxs s acts).foldl (fun value ctx => body ctx value) (var s.world) := by
  induction acts generalizing s with
  | nil => rfl
  | cons act rest ih =>
      rw [List.foldl_cons, ih (h.step act)]
      cases act with
      | access access => rfl
      | scan t0 t1 =>
          rw [executedCtxs, List.foldl_append, ← h.scanOnce t0 t1 s.world]
          rfl

end Variables

/-! ## The clock of the executed scans -/

/-- The clock and the `dt` of the executed scan with a number. -/
def nowAt (ctxs : List PouCtx) (k : ℕ) : ℤ := (ctxs.map PouCtx.now).getD k 0

def dtAt (ctxs : List PouCtx) (k : ℕ) : ℤ := (ctxs.map PouCtx.dt).getD k 0

theorem Spaced.dtAt_zero {last : Option ℤ} {ctxs : List PouCtx} (h : Spaced last ctxs)
    (hsome : 0 < ctxs.length) : dtAt ctxs 0 = sinceStamp (nowAt ctxs 0) last := by
  cases ctxs with
  | nil => cases hsome
  | cons ctx rest => exact h.1

theorem Spaced.dtAt_succ {last : Option ℤ} {ctxs : List PouCtx} (h : Spaced last ctxs) {k : ℕ}
    (hk : k + 1 < ctxs.length) : dtAt ctxs (k + 1) = nowAt ctxs (k + 1) - nowAt ctxs k := by
  induction ctxs generalizing last k with
  | nil => cases hk
  | cons ctx rest ih =>
      cases k with
      | zero => exact h.2.dtAt_zero (Nat.lt_of_succ_lt_succ hk)
      | succ k => exact ih h.2 (Nat.lt_of_succ_lt_succ hk)

/-- The `dt`s of the executed scans are the differences of their clock readings. -/
structure FollowsClock (ctxs : List PouCtx) : Prop where
  first : dtAt ctxs 0 = 0
  next : ∀ k, k + 1 < ctxs.length → dtAt ctxs (k + 1) = nowAt ctxs (k + 1) - nowAt ctxs k
  nonneg : ∀ k, 0 ≤ dtAt ctxs k

/-- They add up. -/
theorem FollowsClock.elapsed_eq {ctxs : List PouCtx} (h : FollowsClock ctxs) {a k : ℕ}
    (hle : a ≤ k) (hk : k < ctxs.length) :
    elapsed (dtAt ctxs) a k = nowAt ctxs k - nowAt ctxs a := by
  induction k, hle using Nat.le_induction with
  | base => rw [elapsed_self, sub_self]
  | succ k hle ih =>
      rw [elapsed_succ _ hle, ih (Nat.lt_of_succ_lt hk), h.next k hk]
      exact sub_add_sub_cancel' ..

theorem nowAt_mono {ctxs : List PouCtx}
    (hclock : (ctxs.map PouCtx.now).Pairwise (· ≤ ·)) {j k : ℕ} (hlt : j < k)
    (hk : k < ctxs.length) : nowAt ctxs j ≤ nowAt ctxs k := by
  have hlength : (ctxs.map PouCtx.now).length = ctxs.length := List.length_map ..
  rw [nowAt, nowAt, List.getD_eq_getElem _ _ (by omega), List.getD_eq_getElem _ _ (by omega)]
  exact List.pairwise_iff_getElem.mp hclock j k _ _ hlt

/-- A session on a fresh runtime follows its clock. -/
theorem executedCtxs_followsClock {rt : Runtime ω} (hfirst : rt.firstScan = true) (world : ω)
    {acts : List SessionAct} (hclock : (scanStarts acts).Pairwise (· ≤ ·)) :
    FollowsClock (executedCtxs (Session.start rt world) acts) := by
  have hspaced := executedCtxs_spaced (Session.start rt world) acts
  have hmono := hclock.sublist (executedCtxs_sublist (Session.start rt world) acts)
  have hfresh : (Session.start rt world).rt.lastExecuted = none := if_pos hfirst
  rw [hfresh] at hspaced
  generalize executedCtxs (Session.start rt world) acts = ctxs at hspaced hmono
  have hzero : dtAt ctxs 0 = 0 := by
    rcases Nat.eq_zero_or_pos ctxs.length with hempty | hsome
    · rw [List.length_eq_zero_iff.mp hempty]
      rfl
    · exact hspaced.dtAt_zero hsome
  refine ⟨hzero, fun k hk => hspaced.dtAt_succ hk, fun k => ?_⟩
  rcases Nat.lt_or_ge k ctxs.length with hk | hk
  · cases k with
    | zero => exact hzero.ge
    | succ k =>
        rw [hspaced.dtAt_succ hk]
        exact sub_nonneg.mpr (nowAt_mono hmono (Nat.lt_succ_self k) hk)
  · rw [dtAt, List.getD_eq_default _ _ (by rwa [List.length_map])]

/-! ## A timer in every executed scan -/

/-- A zero-initialised `TON` after a number of executed scans, with the input and the
preset of each. -/
def tonOver (IN : ℕ → Bool) (PT dt : ℕ → ℤ) : ℕ → Ton
  | 0 => { IN := false, Q := false, PT := 0, ET := 0 }
  | k + 1 => plcTonRun { tonOver IN PT dt k with IN := IN k, PT := PT k } (dt k)

theorem accumulate_le (et dt pt : ℤ) : accumulate et dt pt ≤ pt := by
  unfold accumulate
  dsimp only
  split_ifs <;> omega

theorem accumulate_bounds {et dt pt : ℤ} (het : 0 ≤ et) (hdt : 0 ≤ dt) (hpt : 0 ≤ pt) :
    0 ≤ accumulate et dt pt ∧ accumulate et dt pt ≤ et + dt := by
  unfold accumulate
  dsimp only
  split_ifs <;> omega

section Timer

variable {IN : ℕ → Bool} {PT dt : ℕ → ℤ}

theorem tonOver_of_on {k : ℕ} (hon : IN k = true) :
    (tonOver IN PT dt (k + 1)).ET = accumulate (tonOver IN PT dt k).ET (dt k) (PT k) := by
  simp [tonOver, plcTonRun, hon]

theorem tonOver_of_off {k : ℕ} (hoff : IN k = false) : (tonOver IN PT dt (k + 1)).ET = 0 := by
  simp [tonOver, plcTonRun, hoff]

/-- The timer has counted no more than the scans since the first. -/
theorem tonOver_bounds (IN : ℕ → Bool) (hPT : ∀ i, 0 ≤ PT i) (hdt : ∀ i, 0 ≤ dt i)
    (hfirst : dt 0 = 0) (k : ℕ) :
    0 ≤ (tonOver IN PT dt (k + 1)).ET ∧ (tonOver IN PT dt (k + 1)).ET ≤ elapsed dt 0 k := by
  induction k with
  | zero =>
      have hzero := accumulate_bounds le_rfl (hdt 0) (hPT 0)
      cases hlevel : IN 0 with
      | false =>
          rw [tonOver_of_off hlevel, elapsed_self]
          exact ⟨le_rfl, le_rfl⟩
      | true =>
          rw [zero_add, hfirst] at hzero
          rw [tonOver_of_on hlevel, elapsed_self, hfirst]
          exact hzero
  | succ k ih =>
      have hstep := accumulate_bounds ih.1 (hdt (k + 1)) (hPT (k + 1))
      have hnext := hdt (k + 1)
      rw [elapsed_succ dt (Nat.zero_le k)]
      cases hlevel : IN (k + 1) with
      | false =>
          rw [tonOver_of_off hlevel]
          omega
      | true =>
          rw [tonOver_of_on hlevel]
          omega

/-- While the input is on and the preset stays, the timer counts the time up to it. -/
theorem tonOver_eq_min (hdt : ∀ i, 0 ≤ dt i) {a k : ℕ} {preset : ℤ} (hle : a ≤ k)
    (hon : ∀ i, a ≤ i → i ≤ k → IN i = true ∧ PT i = preset) :
    (tonOver IN PT dt (k + 1)).ET =
      min preset ((tonOver IN PT dt (a + 1)).ET + elapsed dt a k) := by
  induction k, hle using Nat.le_induction with
  | base =>
      obtain ⟨hlevel, hpreset⟩ := hon a le_rfl le_rfl
      have hcap := accumulate_le (tonOver IN PT dt a).ET (dt a) (PT a)
      rw [← tonOver_of_on hlevel, hpreset] at hcap
      rw [elapsed_self, add_zero, min_eq_right hcap]
  | succ k hle ih =>
      obtain ⟨hlevel, hpreset⟩ := hon (k + 1) (Nat.le_succ_of_le hle) le_rfl
      have hbefore := ih fun i hfrom hto => hon i hfrom (Nat.le_succ_of_le hto)
      have hnext := hdt (k + 1)
      rw [tonOver_of_on hlevel, hbefore, hpreset,
        accumulate_eq_min hnext (min_le_left ..), elapsed_succ dt hle]
      omega

end Timer

/-! ## Signed overflow -/

/-- A result of `PLC_TIME` arithmetic, unless it overflows. -/
def plcTime (value : ℤ) : Option ℤ :=
  if -2 ^ 63 ≤ value ∧ value < 2 ^ 63 then some value else none

/-- `accumulate` in its own type. -/
def accumulateInt64 (et dt pt : ℤ) : Option ℤ :=
  let dt := if dt < 0 then 0 else dt
  if pt ≤ et then some pt
  else (plcTime (et + dt)).map fun et => if pt < et then pt else et

/-- `plc_ton_run` in its own type. -/
def plcTonRunInt64 (fb : Ton) (dt : ℤ) : Option Ton :=
  if !fb.IN then some { fb with ET := 0, Q := false }
  else (accumulateInt64 fb.ET dt fb.PT).map fun ET => { fb with ET := ET, Q := fb.PT ≤ ET }

theorem plcTime_eq_some {value : ℤ} (hlow : 0 ≤ value) (hhigh : value < 2 ^ 62) :
    plcTime value = some value :=
  if_pos (by omega)

theorem accumulateInt64_eq_some {et dt : ℤ} (het : 0 ≤ et) (hdt : 0 ≤ dt)
    (hsum : et + dt < 2 ^ 62) (pt : ℤ) :
    accumulateInt64 et dt pt = some (accumulate et dt pt) := by
  simp only [accumulateInt64, accumulate, if_neg (not_lt.mpr hdt),
    plcTime_eq_some (add_nonneg het hdt) hsum, Option.map_some]
  split_ifs <;> rfl

theorem plcTonRunInt64_eq_some {fb : Ton} {dt : ℤ} (het : 0 ≤ fb.ET) (hdt : 0 ≤ dt)
    (hsum : fb.ET + dt < 2 ^ 62) : plcTonRunInt64 fb dt = some (plcTonRun fb dt) := by
  simp only [plcTonRunInt64, plcTonRun, accumulateInt64_eq_some het hdt hsum, Option.map_some]
  split_ifs <;> rfl

/-- While the clock stays below `2 ^ 62`, no time of a timer overflows. -/
theorem FollowsClock.fits_int64 {ctxs : List PouCtx} (hfollows : FollowsClock ctxs)
    (hnow : ∀ j < ctxs.length, 0 ≤ nowAt ctxs j ∧ nowAt ctxs j < 2 ^ 62)
    (IN : ℕ → Bool) {PT : ℕ → ℤ} (hPT : ∀ i, 0 ≤ PT i) {k : ℕ} (hk : k < ctxs.length) :
    plcTime (dtAt ctxs k) = some (dtAt ctxs k) ∧
      plcTonRunInt64 { tonOver IN PT (dtAt ctxs) k with IN := IN k, PT := PT k }
          (dtAt ctxs k) =
        some (tonOver IN PT (dtAt ctxs) (k + 1)) := by
  -- every executed scan lies between the first one and `2 ^ 62`
  have htotal : elapsed (dtAt ctxs) 0 k < 2 ^ 62 := by
    have hzero := hnow 0 (by omega)
    have hlast := hnow k hk
    rw [hfollows.elapsed_eq (Nat.zero_le k) hk]
    omega
  have hdt := hfollows.nonneg k
  cases k with
  | zero =>
      have hfirst : dtAt ctxs 0 < 2 ^ 62 := hfollows.first ▸ by decide
      refine ⟨plcTime_eq_some hdt hfirst, plcTonRunInt64_eq_some (le_refl (0 : ℤ)) hdt ?_⟩
      rwa [← zero_add (dtAt ctxs 0)] at hfirst
  | succ k =>
      have hbounds := tonOver_bounds IN hPT hfollows.nonneg hfollows.first k
      rw [elapsed_succ _ (Nat.zero_le k)] at htotal
      refine ⟨plcTime_eq_some hdt (by omega), plcTonRunInt64_eq_some hbounds.1 hdt ?_⟩
      exact lt_of_le_of_lt (add_le_add_left hbounds.2 _) htotal

/-- **Lost and aborted scans do not distort time.** In any session on a fresh runtime
under a monotone clock there is one context for each scan that completes, with the clock
at its start, and every program is run on these contexts in turn: whatever variable it
keeps, a log of what it was handed for one, is what its body makes of them. The `dt` of an
executed scan is the clock since the scan executed before it, and the `dt`s add up. A
timer that is run in every executed scan with its input on and its preset kept counts
the clock up to its preset, and if the clock stays below `2 ^ 62` no time overflows. -/
theorem times_follow_clock {rt : Runtime ω} (hfirst : rt.firstScan = true) (world : ω)
    {acts : List SessionAct} (hclock : (scanStarts acts).Pairwise (· ≤ ·)) :
    let ctxs := executedCtxs (Session.start rt world) acts
    ctxs.map PouCtx.now = completedStarts (Session.start rt world) acts ∧
    (∀ {σ : Type} (var : ω → σ) (body : PouCtx → σ → σ), KeepsVariable var body rt →
      var (acts.foldl Session.step (Session.start rt world)).world =
        ctxs.foldl (fun value ctx => body ctx value) (var world)) ∧
    FollowsClock ctxs ∧
    (∀ a k, a ≤ k → k < ctxs.length →
      elapsed (dtAt ctxs) a k = nowAt ctxs k - nowAt ctxs a) ∧
    ∀ (IN : ℕ → Bool) (PT : ℕ → ℤ), (∀ i, 0 ≤ PT i) →
      (∀ a k preset, a ≤ k → k < ctxs.length → 0 < preset →
        (∀ i, a ≤ i → i ≤ k → IN i = true ∧ PT i = preset) →
        (tonOver IN PT (dtAt ctxs) (k + 1)).ET =
            min preset ((tonOver IN PT (dtAt ctxs) (a + 1)).ET +
              (nowAt ctxs k - nowAt ctxs a)) ∧
          0 ≤ (tonOver IN PT (dtAt ctxs) (k + 1)).ET ∧
          (tonOver IN PT (dtAt ctxs) (k + 1)).ET ≤ preset) ∧
      ((∀ t0 ∈ scanStarts acts, 0 ≤ t0 ∧ t0 < 2 ^ 62) → ∀ k < ctxs.length,
        plcTime (dtAt ctxs k) = some (dtAt ctxs k) ∧
          plcTonRunInt64 { tonOver IN PT (dtAt ctxs) k with IN := IN k, PT := PT k }
              (dtAt ctxs k) =
            some (tonOver IN PT (dtAt ctxs) (k + 1))) := by
  intro ctxs
  have hfollows : FollowsClock ctxs := executedCtxs_followsClock hfirst world hclock
  refine ⟨executedCtxs_now _ acts, ?_, hfollows, fun a k hle hk => hfollows.elapsed_eq hle hk,
    fun IN PT hPT => ⟨?_, ?_⟩⟩
  · intro σ var body hkeeps
    exact @KeepsVariable.session ω σ var body (Session.start rt world) hkeeps acts
  · intro a k preset hle hk _ hon
    have hcount := tonOver_eq_min hfollows.nonneg hle hon
    have hbounds := tonOver_bounds IN hPT hfollows.nonneg hfollows.first k
    rw [hfollows.elapsed_eq hle hk] at hcount
    exact ⟨hcount, hbounds.1, hcount ▸ min_le_left ..⟩
  · intro hbelow k hk
    have hnow : ∀ j < ctxs.length, 0 ≤ nowAt ctxs j ∧ nowAt ctxs j < 2 ^ 62 := by
      intro j hj
      apply hbelow
      apply (executedCtxs_sublist (Session.start rt world) acts).subset
      rw [nowAt, List.getD_eq_getElem _ _ (by rwa [List.length_map])]
      exact List.getElem_mem _
    exact hfollows.fits_int64 hnow IN hPT hk

/-- The answers an adapter will give, and the contexts a program was handed. -/
structure ScriptedWorld where
  answers : List PlcStatus
  handed : List PouCtx

/-- An adapter whose answers are written in the world. -/
def scriptedAdapter : ProtocolAdapter ScriptedWorld where
  getCaps := (.ok, { abiVersion := plcAdapterAbiVersion, inputBytes := 0, outputBytes := 0 })
  exchange world _ input :=
    (world.answers.headD .ok, input, { world with answers := world.answers.tail })
  length_exchange _ _ _ := rfl

/-- A program that writes down what it is handed. -/
def loggingProgram : PlcProgram ScriptedWorld where
  fn ctx pi world := (pi, { world with handed := world.handed ++ [ctx] })
  size_fn _ _ _ _ := rfl

/-- A runtime with both which stops at a fault. -/
def scriptedRuntime : Runtime ScriptedWorld :=
  mainRuntime strictConfig [scriptedAdapter] [loggingProgram]

theorem scriptedRuntime_keepsHanded :
    KeepsVariable ScriptedWorld.handed (fun ctx handed => handed ++ [ctx]) scriptedRuntime where
  program := ⟨[], loggingProgram, [], rfl, fun _ _ _ => rfl, by simp⟩
  adapters binding hbinding := by
    obtain rfl := List.mem_singleton.mp hbinding
    exact fun _ _ _ => rfl

/-- Four scans, of which the first and the third are aborted. -/
def faultyScans : List SessionAct := [.scan 100 110, .scan 200 210, .scan 300 310, .scan 450 460]

theorem times_follow_clock_faultyScans :
    let start : ScriptedWorld := ⟨[.errIo, .ok, .errIo, .ok], []⟩
    let s := faultyScans.foldl Session.step (Session.start scriptedRuntime start)
    s.world.handed.map PouCtx.now = [200, 450] ∧ s.world.handed.map PouCtx.dt = [0, 250] ∧
      FollowsClock s.world.handed ∧ elapsed (dtAt s.world.handed) 0 1 = 250 := by
  intro start s
  have hclock : (scanStarts faultyScans).Pairwise (· ≤ ·) := by decide
  obtain ⟨-, hhanded, hfollows, hsum, -⟩ := times_follow_clock
    (show scriptedRuntime.firstScan = true by decide +kernel) start hclock
  have hlog : s.world.handed = executedCtxs (Session.start scriptedRuntime start) faultyScans := by
    rw [hhanded ScriptedWorld.handed _ scriptedRuntime_keepsHanded]
    simp [start, ← List.flatMap_def]
  have hnows : s.world.handed.map PouCtx.now = [200, 450] := by decide +kernel
  have hlength : s.world.handed.length = 2 := by
    rw [← List.length_map, hnows]
    rfl
  rw [← hlog] at hfollows hsum
  refine ⟨hnows, by decide +kernel, hfollows, ?_⟩
  rw [hsum 0 1 (by decide) (hlength ▸ by decide), nowAt, nowAt, hnows]
  rfl

end SoftPlc
