/-
# Edges, latches and counters

The standard function blocks without a clock, as far as the programs here use them.
Each is a record of inputs, outputs and private state, and one function that is
called once in each scan.
-/

import Mathlib.Algebra.Order.Ring.Int

namespace SoftPlc

/-- `plc_r_trig_t`. -/
structure RTrig where
  CLK : Bool := false
  Q : Bool := false
  mPrev : Bool := false
  deriving DecidableEq, Repr

/-- `plc_r_trig_run`. -/
def plcRTrigRun (fb : RTrig) : RTrig :=
  { fb with Q := fb.CLK && !fb.mPrev, mPrev := fb.CLK }

/-- `plc_rs_t`. -/
structure Rs where
  S : Bool := false
  R1 : Bool := false
  Q1 : Bool := false
  deriving DecidableEq, Repr

/-- `plc_rs_run`. -/
def plcRsRun (fb : Rs) : Rs :=
  { fb with Q1 := !fb.R1 && (fb.S || fb.Q1) }

/-- `INT16_MAX`. -/
def int16Max : ℤ := 32767

/-- `plc_ctu_t`. -/
structure Ctu where
  CU : Bool := false
  R : Bool := false
  Q : Bool := false
  PV : ℤ := 0
  CV : ℤ := 0
  mPrev : Bool := false
  deriving DecidableEq, Repr

/-- `plc_ctu_run`. -/
def plcCtuRun (fb : Ctu) : Ctu :=
  let CV :=
    if fb.R then 0
    else if fb.CU && !fb.mPrev && decide (fb.CV < int16Max) then fb.CV + 1
    else fb.CV
  { fb with CV := CV, Q := fb.PV ≤ CV, mPrev := fb.CU }

end SoftPlc
