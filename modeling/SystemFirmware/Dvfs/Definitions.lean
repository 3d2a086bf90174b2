import Mathlib.Logic.Function.Basic
import SystemFirmware.Lib.Exec

/-!
# DVFS — voltage and PLL

`DVFSChange` of `lib/tenstorrent/bh_arc/dvfs.c` with the voltage arbiter of `voltage.c`,
the two AICLK changes of `aiclk_ppm.c` and the AICLK branch of
`drivers/clock_control/clock_control_tt_bh.c`.

A call computes the target frequency and voltage, which touches no hardware, and then
runs `DecreaseAiclk`, `VoltageChange` and `IncreaseAiclk`. Each `set_vcore` is a step,
and so is each write of `fbdiv` in the loop of `set_rate`. The target frequency is an
input of the call, and so is the curve `VFCurve`, which gives the voltage a frequency
needs.
-/

namespace SystemFirmware.Dvfs

open Lib

/-! ## Macros -/

def clamp (val low high : UInt32) : UInt32 :=
  if val ≤ low then low else if val < high then val else high

def minU32 (a b : UInt32) : UInt32 := if a < b then a else b

/-! ## The PLL -/

def refclkRate : UInt32 := 50

/-- `refdiv` and `fbdiv` of `PLL_CNTL_1`, `postdiv0` of `PLL_CNTL_5` and its enable bit. -/
structure Pll where
  refdiv : UInt8
  fbdiv : UInt16
  postdiv0 : UInt8
  usePostdiv0 : Bool

/-- `clock_control_tt_bh_get_ext_postdiv` for AICLK; 0 means that the clock is
disabled. -/
def Pll.extPostdiv (pll : Pll) : UInt32 :=
  let postdivValue := pll.postdiv0.toUInt32
  if pll.usePostdiv0 then
    if postdivValue = 0 then 0
    else if postdivValue ≤ 16 then postdivValue + 1
    else (postdivValue + 1) * 2
  else 1

def Pll.calculateFbdiv (pll : Pll) (targetFreqMhz : UInt32) : UInt32 :=
  if pll.extPostdiv = 0 then 0
  else targetFreqMhz * pll.refdiv.toUInt32 * pll.extPostdiv / refclkRate

def Pll.getFreq (pll : Pll) : UInt32 :=
  if pll.extPostdiv = 0 then 0
  else (refclkRate * pll.fbdiv.toUInt32) / (pll.refdiv.toUInt32 * pll.extPostdiv)

/-- One round of the loop in `clock_control_tt_bh_set_rate`: `fbdiv` moves by one
towards the target. -/
def Pll.stepFbdiv (pll : Pll) (targetFbdiv : UInt32) : Pll :=
  if targetFbdiv > pll.fbdiv.toUInt32 then { pll with fbdiv := pll.fbdiv + 1 }
  else { pll with fbdiv := pll.fbdiv - 1 }

/-! ## The voltage arbiter -/

inductive VoltageRequestor where
  | aiclk
  | l2cpu
  deriving DecidableEq

structure VoltageArbiter where
  currVoltage : UInt32
  targVoltage : UInt32
  vddMin : UInt32
  vddMax : UInt32
  forcedVoltage : UInt32
  reqVoltage : VoltageRequestor → UInt32

def VoltageArbiter.request (a : VoltageArbiter) (req : VoltageRequestor) (voltage : UInt32) :
    VoltageArbiter :=
  { a with reqVoltage := Function.update a.reqVoltage req (clamp voltage a.vddMin a.vddMax) }

/-- The loop of `CalculateTargVoltage` over the requests. -/
def VoltageArbiter.highest (a : VoltageArbiter) : UInt32 :=
  [VoltageRequestor.aiclk, .l2cpu].foldl
    (fun targVoltage i => if a.reqVoltage i > targVoltage then a.reqVoltage i else targVoltage)
    a.vddMin

def VoltageArbiter.calculateTargVoltage (a : VoltageArbiter) : VoltageArbiter :=
  { a with targVoltage :=
      if a.forcedVoltage ≠ 0 then a.forcedVoltage else minU32 a.highest a.vddMax }

/-! ## The machine -/

/-- Where a call of `DVFSChange` is. -/
inductive DvfsPc where
  | idle
  /-- `set_rate` inside `DecreaseAiclk`. -/
  | decrease (targetFbdiv : UInt32)
  | voltageChange
  /-- `set_rate` inside `IncreaseAiclk`. -/
  | increase (targetFbdiv : UInt32)

structure World where
  arbiter : VoltageArbiter
  currFreq : UInt32
  targFreq : UInt32
  pll : Pll
  vcore : UInt32
  pc : DvfsPc

inductive Action where
  /-- `DVFSChange` is called, and `CalculateTargAiclk` comes to `targFreq`. -/
  | dvfsChange (targFreq : UInt32)
  | request (voltage : UInt32)
  | hw

/-- The computations of `DVFSChange`, up to `DecreaseAiclk`. -/
def dvfsChange (vfCurve : UInt32 → UInt32) (s : World) (targFreq : UInt32) : World :=
  { s with
    arbiter := (s.arbiter.request .aiclk (vfCurve targFreq)).calculateTargVoltage
    targFreq := targFreq
    pc := if targFreq < s.currFreq then .decrease (s.pll.calculateFbdiv targFreq)
      else .voltageChange }

def voltageChange (s : World) : World :=
  let next := if s.targFreq > s.currFreq then .increase (s.pll.calculateFbdiv s.targFreq) else .idle
  if s.arbiter.targVoltage ≠ s.arbiter.currVoltage then
    { s with
      vcore := s.arbiter.targVoltage
      arbiter := { s.arbiter with currVoltage := s.arbiter.targVoltage }
      pc := next }
  else { s with pc := next }

def step (vfCurve : UInt32 → UInt32) (s : World) : Action → Option World
  | .dvfsChange targFreq =>
    match s.pc with
    | .idle => some (dvfsChange vfCurve s targFreq)
    | _ => none
  | .request voltage => some { s with arbiter := s.arbiter.request .l2cpu voltage }
  | .hw =>
    match s.pc with
    | .idle => none
    | .decrease targetFbdiv =>
      if s.pll.fbdiv.toUInt32 ≠ targetFbdiv then
        some { s with pll := s.pll.stepFbdiv targetFbdiv }
      else some { s with currFreq := s.targFreq, pc := .voltageChange }
    | .voltageChange => some (voltageChange s)
    | .increase targetFbdiv =>
      if s.pll.fbdiv.toUInt32 ≠ targetFbdiv then
        some { s with pll := s.pll.stepFbdiv targetFbdiv }
      else some { s with currFreq := s.targFreq, pc := .idle }

end SystemFirmware.Dvfs
