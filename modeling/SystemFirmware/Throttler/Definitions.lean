import SystemFirmware.Lib.Exec

/-!
# Throttler — kernel NOPs

`lib/tenstorrent/bh_arc/throttler.c` slows the Tensix cores down by NOPs when lowering
the clock is not enough. Three paths switch them: the Doppler throttler, the throttler
at the AICLK floor and the message that disables the latter. Each switch is counted and
timed for telemetry.

A call runs at an uptime in milliseconds, of which the code sees the low 32 bits.
Clocks, power readings and the two comparisons of floating point numbers come with the
pass that reads them. The PID loops only set clock arbiters and are left out; the power
average is in `Throttler.MovingAverage`.
-/

namespace SystemFirmware.Throttler

open Lib

/-! ## State -/

/-- The statics that count and time the NOPs. -/
structure KernelNops where
  kernelNopsEnabled : Bool
  throttleCounter : UInt32
  nopOnSinceMs : UInt32
  nopOnAccumMs : UInt32
  prevNopOnAccumMs : UInt32
  /-- The static of `GetNOPOnDuration`. -/
  seeded : Bool
  deriving DecidableEq, Repr

/-- The other statics that decide about the NOPs. -/
structure Statics where
  powerLimit : UInt32
  doppler : Bool
  dopplerT2 : Bool
  dopplerT3 : Bool
  kernelThrottlerStopNopsFreq : UInt32
  kernelThrottlerStopNopsFreqDefault : UInt32
  /-- `kernel_nops_at_aiclk_fmin` of the active features. -/
  kernelNopsAtAiclkFmin : Bool
  t2Count : UInt8
  t3Count : UInt8
  /-- The arbiter `aiclk_arb_max_doppler_critical` is enabled. -/
  dopplerCriticalEnabled : Bool
  nops : KernelNops
  deriving DecidableEq, Repr

/-- What `InitThrottlers` and `Dm2CmSetBoardPowerLimit` read of the firmware table. -/
structure FwTable where
  dopplerEn : Bool
  kernelThrottlerAtFloorEn : Bool
  kernelThrottlerStopNopsFreq : UInt32
  boardPowerLimit : UInt32

def aiclkFminMin : UInt32 := 200

def aiclkFminMax : UInt32 := 1400

/-- `InitThrottlers`, with `InitKernelThrottling`, on the zeroed statics of a boot. -/
def initThrottlers (fw : FwTable) : Statics :=
  let freq := fw.kernelThrottlerStopNopsFreq
  let default := if freq ≠ 0 ∧ (freq < aiclkFminMin ∨ freq > aiclkFminMax) then 0 else freq
  { powerLimit := 0
    doppler := fw.dopplerEn
    dopplerT2 := fw.dopplerEn
    dopplerT3 := fw.dopplerEn
    kernelThrottlerStopNopsFreq := default
    kernelThrottlerStopNopsFreqDefault := default
    kernelNopsAtAiclkFmin := fw.kernelThrottlerAtFloorEn
    t2Count := 0
    t3Count := 0
    dopplerCriticalEnabled := false
    nops := ⟨false, 0, 0, 0, 0, false⟩ }

/-! ## Switching the NOPs -/

def sendKernelThrottlingMessage (n : KernelNops) (throttle : Bool) (uptime : UInt32) : KernelNops :=
  let counter := n.throttleCounter + 1
  -- double-check the parity
  let counter := if counter &&& 1 ≠ throttle.toUInt32 then counter + 1 else counter
  let n := { n with throttleCounter := counter }
  if throttle then { n with nopOnSinceMs := uptime }
  else { n with nopOnAccumMs := n.nopOnAccumMs + (uptime - n.nopOnSinceMs) }

/-- The end of both update functions: send a message if the state changes. -/
def setKernelNops (n : KernelNops) (enabled : Bool) (uptime : UInt32) : KernelNops :=
  if enabled ≠ n.kernelNopsEnabled then
    sendKernelThrottlingMessage { n with kernelNopsEnabled := enabled } enabled uptime
  else n

structure Readings where
  /-- `GetInputPower`. -/
  currentPower : UInt16
  aiclkTarg : UInt32
  aiclkFmin : UInt32
  aiclkFmax : UInt32
  effectiveArbMin : UInt32
  /-- `vcore_power > tdp_limit`. -/
  powerAboveTdp : Bool
  /-- `vcore_power < tdp_limit`. -/
  powerBelowTdp : Bool

/-- A sample counter of the T2 and T3 throttlers: consecutive samples above a limit. -/
def countAbove (power limit : UInt32) (count : UInt8) : UInt8 :=
  if power > limit then (if count < 0xFF then count + 1 else count) else 0

def updateDoppler (t : Statics) (r : Readings) (uptime : UInt32) : Statics :=
  let power := r.currentPower.toUInt32
  let t2Count := countAbove power (t.powerLimit * 2) t.t2Count
  let t2Triggered := t2Count ≥ 10 && t.dopplerT2
  let t3Count := countAbove power (t.powerLimit * 5 / 2) t.t3Count
  let t3Triggered := t3Count ≥ 2 && t.dopplerT3
  let startNops := r.aiclkTarg = r.aiclkFmin && power > t.powerLimit
  let stopNops := r.aiclkTarg = r.aiclkFmax && power < t.powerLimit
  let criticalThrottling := t2Triggered || t3Triggered
  let enabled := ((t.nops.kernelNopsEnabled || startNops) && !stopNops) || criticalThrottling
  { t with
    t2Count := t2Count
    t3Count := t3Count
    nops := setKernelNops t.nops enabled uptime
    dopplerCriticalEnabled := criticalThrottling }

def updateKernelThrottler (t : Statics) (r : Readings) (uptime : UInt32) : Statics :=
  let stopFreq := if t.kernelThrottlerStopNopsFreq = 0 then r.effectiveArbMin
    else t.kernelThrottlerStopNopsFreq
  let startNops := t.kernelNopsAtAiclkFmin && (r.aiclkTarg = r.aiclkFmin && r.powerAboveTdp)
  let stopNops := t.kernelNopsAtAiclkFmin && (r.aiclkTarg ≥ stopFreq && r.powerBelowTdp)
  let enabled := (t.nops.kernelNopsEnabled || startNops) && !stopNops
  { t with nops := setKernelNops t.nops enabled uptime }

def dopplerActive (t : Statics) : Bool := t.doppler && t.powerLimit > 0

def calculateThrottlers (t : Statics) (r : Readings) (uptime : UInt32) : Statics :=
  if dopplerActive t then updateDoppler t r uptime else updateKernelThrottler t r uptime

/-! ## Messages -/

def throttlerSetKernelThrottlerEnabled (t : Statics) (enabled uptime : UInt32) :
    UInt8 × Statics :=
  if enabled > 1 then (1, t)
  else
    -- release the NOPs if the feature is disabled while they are on
    let nops := if enabled = 0 ∧ t.nops.kernelNopsEnabled then
      sendKernelThrottlingMessage { t.nops with kernelNopsEnabled := false } false uptime else t.nops
    (0, { t with nops := nops, kernelNopsAtAiclkFmin := enabled ≠ 0 })

def throttlerSetKernelThrottlerStopFreq (t : Statics) (frequency : UInt32) : UInt8 × Statics :=
  if frequency = 0 then
    (0, { t with kernelThrottlerStopNopsFreq := t.kernelThrottlerStopNopsFreqDefault })
  else if frequency > aiclkFminMax ∨ frequency < aiclkFminMin then (1, t)
  else (0, { t with kernelThrottlerStopNopsFreq := frequency })

/-- `Dm2CmSetBoardPowerLimit` with two bytes of data. -/
def dm2CmSetBoardPowerLimit (fw : FwTable) (t : Statics) (limit : UInt16) : Statics :=
  let limit := limit.toUInt32
  { t with powerLimit := if limit ≤ fw.boardPowerLimit then limit else fw.boardPowerLimit }

/-! ## Telemetry -/

def getStartNOPCount (n : KernelNops) : UInt32 := (n.throttleCounter + 1) >>> 1

def getNOPOnAccumulatedTime (n : KernelNops) (uptime : UInt32) : UInt32 :=
  if n.kernelNopsEnabled then n.nopOnAccumMs + (uptime - n.nopOnSinceMs) else n.nopOnAccumMs

def getNOPOnDuration (n : KernelNops) (windowMs uptime : UInt32) : UInt32 × KernelNops :=
  let accumulatedTime := getNOPOnAccumulatedTime n uptime
  let duration := accumulatedTime - n.prevNopOnAccumMs
  let n := { n with prevNopOnAccumMs := accumulatedTime }
  if !n.seeded then
    (if duration ≤ windowMs then duration else windowMs, { n with seeded := true })
  else (duration, n)

/-! ## Runs -/

/-- The time in which the NOPs were on up to `now`, from the switches in their order. -/
def onTime : List (ℕ × Bool) → ℕ → ℕ
  | [], _ => 0
  | (time, enabled) :: later, now =>
    let next := (later.head?.map Prod.fst).getD now
    (if enabled then next - time else 0) + onTime later now

structure World where
  throttler : Statics
  now : ℕ
  /-- Every change of `kernel_nops_enabled`, with its uptime. -/
  switches : List (ℕ × Bool)
  /-- What `GetNOPOnDuration` returned, with the true total at that time. -/
  samples : List (UInt32 × ℕ)
  deriving DecidableEq, Repr

def World.start (fw : FwTable) (now : ℕ) : World := ⟨initThrottlers fw, now, [], []⟩

inductive Call where
  | calculate (r : Readings)
  | setEnabled (enabled : UInt32)
  | setStopFreq (frequency : UInt32)
  | setPowerLimit (limit : UInt16)
  | nopOnDuration (windowMs : UInt32)

/-- The throttler after a call that is not a sample. -/
def throttlerAfter (fw : FwTable) (t : Statics) (uptime : UInt32) : Call → Statics
  | .calculate r => calculateThrottlers t r uptime
  | .setEnabled enabled => (throttlerSetKernelThrottlerEnabled t enabled uptime).2
  | .setStopFreq frequency => (throttlerSetKernelThrottlerStopFreq t frequency).2
  | .setPowerLimit limit => dm2CmSetBoardPowerLimit fw t limit
  | .nopOnDuration windowMs => { t with nops := (getNOPOnDuration t.nops windowMs uptime).2 }

def step (fw : FwTable) (w : World) (a : ℕ × Call) : Option World :=
  if w.now ≤ a.1 then
    let uptime := UInt32.ofNat a.1
    let after := throttlerAfter fw w.throttler uptime a.2
    let was := w.throttler.nops.kernelNopsEnabled
    let is := after.nops.kernelNopsEnabled
    let switches := if is ≠ was then w.switches ++ [(a.1, is)] else w.switches
    let samples := match a.2 with
      | .nopOnDuration windowMs =>
        w.samples ++ [((getNOPOnDuration w.throttler.nops windowMs uptime).1, onTime switches a.1)]
      | _ => w.samples
    some ⟨after, a.1, switches, samples⟩
  else none

end SystemFirmware.Throttler
