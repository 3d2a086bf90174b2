import Mathlib.Algebra.Order.Floor.Defs
import Mathlib.Algebra.Order.Ring.Unbundled.Rat
import SystemFirmware.Dvfs.Definitions

/-!
# AICLK arbitration — definitions

The target frequency of `lib/tenstorrent/bh_arc/aiclk_ppm.c`: the arbiters, the host's
requests and `CalculateTargAiclk`, which `DVFSChange` calls on every pass.

Arbiter values are floats in the source. They have gone through `CLAMP`, which never
returns a NaN or an infinity, so an arbiter holds a rational; what is passed to `CLAMP`
is any float. The limits are at most 1400, so no comparison with an integer rounds.
-/

namespace SystemFirmware.Aiclk

open Lib
open Dvfs (clamp)

/-! ## Limits, in MHz -/

def fmaxMin : UInt32 := 800

def fmaxMax : UInt32 := 1400

def fminMin : UInt32 := 200

def fminMax : UInt32 := 1400

def resetSafeFreq : UInt32 := 250

/-! ## Floats -/

/-- A `float`. Finite ones are rationals. -/
inductive Float32Value where
  | nan
  | negInf
  | finite (q : ℚ)
  | posInf

/-- `CLAMP(freq, low, high)` with integer limits: a NaN fails both comparisons and
comes out as `high`. -/
def clampFloat (freq : Float32Value) (low high : UInt32) : ℚ :=
  match freq with
  | .nan => high.toNat
  | .negInf => low.toNat
  | .finite q => if q ≤ low.toNat then low.toNat else if q < high.toNat then q else high.toNat
  | .posInf => high.toNat

/-- The conversion of a non-negative float to `uint32_t`. -/
def truncate (q : ℚ) : UInt32 := UInt32.ofNat q.floor.toNat

/-! ## Arbiters -/

inductive ArbMax where
  | fmax
  | tdp
  | fastTdc
  | tdc
  | thm
  | boardPower
  | voltage
  | gddrThm
  | dopplerSlow
  | dopplerCritical
  | hostFmax
  deriving DecidableEq

inductive ArbMin where
  | fmin
  | busy
  deriving DecidableEq

def ArbMax.all : List ArbMax :=
  [.fmax, .tdp, .fastTdc, .tdc, .thm, .boardPower, .voltage, .gddrThm, .dopplerSlow,
    .dopplerCritical, .hostFmax]

def ArbMin.all : List ArbMin := [.fmin, .busy]

/-- The number of an arbiter in its enumeration. -/
def ArbMax.index (i : ArbMax) : UInt32 := UInt32.ofNat (ArbMax.all.idxOf i)

def ArbMin.index (i : ArbMin) : UInt32 := UInt32.ofNat (ArbMin.all.idxOf i)

structure AiclkArb where
  enabled : Bool
  value : ℚ

inductive TargFreqReason where
  | minArb
  | maxArb
  | fmin
  | sweep
  | forced
  deriving DecidableEq

structure TargFreqInfo where
  reason : TargFreqReason
  arbiter : UInt32
  deriving DecidableEq

/-- `AiclkPPM` and the file's other variables. -/
structure State where
  targFreq : UInt32
  fmax : UInt32
  fmin : UInt32
  hostRequestedFmin : UInt32
  forcedFreq : UInt32
  resetSafe : Bool
  sweepEn : UInt32
  sweepLow : UInt32
  sweepHigh : UInt32
  limArbInfo : TargFreqInfo
  arbiterMax : ArbMax → AiclkArb
  arbiterMin : ArbMin → AiclkArb
  lastMsgBusy : Bool
  finalArbiterCount : ArbMax → UInt32
  frozenMask : UInt32
  overflowMask : UInt32

def setAiclkArbMax (arb : ArbMax) (freq : Float32Value) (s : State) : State :=
  { s with
    arbiterMax := Function.update s.arbiterMax arb
      { s.arbiterMax arb with value := clampFloat freq s.fmin s.fmax } }

def setAiclkArbMin (arb : ArbMin) (freq : Float32Value) (s : State) : State :=
  { s with
    arbiterMin := Function.update s.arbiterMin arb
      { s.arbiterMin arb with value := clampFloat freq s.fmin s.fmax } }

def enableArbMax (arb : ArbMax) (enable : Bool) (s : State) : State :=
  { s with
    arbiterMax := Function.update s.arbiterMax arb
      { s.arbiterMax arb with enabled := enable } }

def enableArbMin (arb : ArbMin) (enable : Bool) (s : State) : State :=
  { s with
    arbiterMin := Function.update s.arbiterMin arb
      { s.arbiterMin arb with enabled := enable } }

/-! ## The target -/

/-- The loop of the two functions below: a `better` enabled arbiter replaces the frequency. -/
def effectiveArb {ι : Type} (better : ℚ → ℚ → Bool) (index : ι → UInt32) (arbiter : ι → AiclkArb)
    (best : UInt32 × UInt32) (arbs : List ι) : UInt32 × UInt32 :=
  arbs.foldl (fun best i =>
    if (arbiter i).enabled && better (arbiter i).value best.1.toNat
    then (truncate (arbiter i).value, index i) else best) best

/-- `get_aiclk_effective_arb_min`, with the arbiter, or `aiclk_arb_min_count`. -/
def getAiclkEffectiveArbMin (s : State) : UInt32 × UInt32 :=
  effectiveArb (fun value effective => decide (value ≥ effective)) ArbMin.index s.arbiterMin
    (s.fmin, UInt32.ofNat ArbMin.all.length) ArbMin.all

/-- `get_aiclk_effective_arb_max`, with the arbiter, or `aiclk_arb_max_count`. -/
def getAiclkEffectiveArbMax (s : State) : UInt32 × UInt32 :=
  effectiveArb (fun value effective => decide (value ≤ effective)) ArbMax.index s.arbiterMax
    (s.fmax, UInt32.ofNat ArbMax.all.length) ArbMax.all

structure Target where
  freq : UInt32
  info : TargFreqInfo

/-- The highest minimum, limited to the lowest maximum. -/
def arbitrate (s : State) : Target :=
  let min := getAiclkEffectiveArbMin s
  let max := getAiclkEffectiveArbMax s
  if min.1 > max.1 then ⟨max.1, .maxArb, max.2⟩ else ⟨min.1, .minArb, min.2⟩

/-- One round of the loop over the counters: an arbiter that throttles a busy chip counts unless
its counter is frozen. -/
def countThrottler (targFreq : UInt32) (s : State) (i : ArbMax) : State :=
  let bit := (1 : UInt32) <<< i.index
  if (s.arbiterMax i).enabled && (s.arbiterMax i).value == targFreq.toNat &&
      targFreq != s.fmax && (s.arbiterMin .busy).value == s.fmax.toNat &&
      s.frozenMask &&& bit == 0 then
    if s.finalArbiterCount i < 0xffffffff then
      { s with finalArbiterCount :=
          Function.update s.finalArbiterCount i (s.finalArbiterCount i + 1) }
    else { s with overflowMask := s.overflowMask ||| bit }
  else s

/-- `effective_fmin_floor`: `fmin`, or what the host asked for if that is more. -/
def effectiveFminFloor (s : State) : UInt32 :=
  if s.hostRequestedFmin > 0 then
    if s.fmin > s.hostRequestedFmin then s.fmin else s.hostRequestedFmin
  else s.fmin

def raiseToFloor (s : State) (t : Target) : Target :=
  if t.freq < effectiveFminFloor s then ⟨effectiveFminFloor s, .fmin, 0⟩ else t

def applySweep (rand : UInt32) (s : State) (t : Target) : Target :=
  if s.sweepEn = 1 then
    ⟨rand % (s.sweepHigh - s.sweepLow + 1) + s.sweepLow, .sweep, 0⟩
  else t

def applyForced (s : State) (t : Target) : Target :=
  if s.forcedFreq ≠ 0 then ⟨s.forcedFreq, .forced, 0⟩ else t

def capResetSafe (s : State) (t : Target) : Target :=
  if s.resetSafe && t.freq > resetSafeFreq then { t with freq := resetSafeFreq } else t

def calculateTargAiclk (rand : UInt32) (s : State) : State :=
  let limited := arbitrate s
  let counted := ArbMax.all.foldl (countThrottler limited.freq) s
  let t := capResetSafe s (applyForced s (applySweep rand s (raiseToFloor s limited)))
  { counted with targFreq := t.freq, limArbInfo := t.info }

/-! ## Messages and boot -/

/-- `aiclk_update_busy`, with what `bh_power_state_get` reports for AICLK. -/
def aiclkUpdateBusy (aiclkState : Bool) (s : State) : State :=
  if s.lastMsgBusy || aiclkState then setAiclkArbMin .busy (.finite s.fmax.toNat) s
  else setAiclkArbMin .busy (.finite s.fmin.toNat) s

/-- `aiclk_busy_handler`; `busy` is whether the command is
`TT_SMC_MSG_AICLK_GO_BUSY`. -/
def aiclkBusyHandler (busy aiclkState : Bool) (s : State) : State :=
  aiclkUpdateBusy aiclkState { s with lastMsgBusy := busy }

def setArbHostFmaxHandler (restoreDefault : Bool) (asicFmax : UInt32) (s : State) : UInt8 × State :=
  if restoreDefault then (0, enableArbMax .hostFmax false s)
  else if asicFmax > fmaxMax ∨ asicFmax < fmaxMin then (1, s)
  else (0, setAiclkArbMax .hostFmax (.finite asicFmax.toNat) (enableArbMax .hostFmax true s))

def handleCharSetHostFmin (newFmin : UInt32) (s : State) : UInt8 × State :=
  if newFmin = 1 then (0, { s with hostRequestedFmin := 0 })
  else if newFmin > fminMax ∨ newFmin < fminMin then (1, s)
  else (0, { s with hostRequestedFmin := newFmin })

/-- `ForceAiclk` while DVFS is enabled, up to its `DVFSChange`. -/
def forceAiclk (freq : UInt32) (s : State) : UInt8 × State :=
  if (freq > fmaxMax ∨ freq < fminMin) ∧ freq ≠ 0 then (1, s) else (0, { s with forcedFreq := freq })

/-- `SweepAiclkHandler`; `start` is whether the command is
`TT_SMC_MSG_AISWEEP_START`. -/
def sweepAiclkHandler (start : Bool) (sweepLow sweepHigh : UInt32) (s : State) : UInt8 × State :=
  if start then
    if sweepLow = 0 ∨ sweepHigh = 0 then (1, s)
    else (0, { s with
      sweepLow := if sweepLow > s.fmin then sweepLow else s.fmin
      sweepHigh := if sweepHigh < s.fmax then sweepHigh else s.fmax
      sweepEn := 1 })
  else (0, { s with sweepEn := 0 })

inductive CounterCmd where
  | get (bankIndex : UInt8)
  | clear (mask : UInt16)
  | freeze (mask : UInt16)

/-- One round of the loop of `COUNTER_CMD_CLEAR`. -/
def clearCounter (mask : UInt32) (s : State) (i : ArbMax) : State :=
  let bit := (1 : UInt32) <<< i.index
  if mask &&& bit != 0 then
    { s with
      finalArbiterCount := Function.update s.finalArbiterCount i 0
      overflowMask := s.overflowMask &&& ~~~bit }
  else s

/-- `throttler_counter_handler`: the status, and the two words of the response to
`COUNTER_CMD_GET`. -/
def throttlerCounterHandler (cmd : CounterCmd) (s : State) :
    UInt8 × Option (UInt32 × UInt32) × State :=
  match cmd with
  | .get bankIndex =>
    match ArbMax.all[bankIndex.toNat]? with
    | none => (1, none, s)
    | some i =>
      let bit := (1 : UInt32) <<< i.index
      let ovf : UInt32 := if s.overflowMask &&& bit != 0 then 1 else 0
      let frz : UInt32 := if s.frozenMask &&& bit != 0 then 1 else 0
      (0, some (ovf ||| (frz <<< 16), s.finalArbiterCount i), s)
  | .clear mask => (0, none, ArbMax.all.foldl (clearCounter mask.toUInt32) s)
  | .freeze mask => (0, none, { s with frozenMask := mask.toUInt32 })

/-- `SetAiclkResetSafe`, up to its `DVFSChange`. -/
def setAiclkResetSafe (enable : Bool) (s : State) : State := { s with resetSafe := enable }

structure ChipLimits where
  asicFmax : UInt32
  asicFmin : UInt32

/-- The state after `InitAiclkPPM`: the two limits are clamped separately. Without
`CONFIG_ARC` they stay at their static values. -/
def initAiclkPPM (configArc : Bool) (limits : ChipLimits) (bootFreq : UInt32) : State :=
  let fmax := if configArc then clamp limits.asicFmax fmaxMin fmaxMax else fmaxMax
  let fmin := if configArc then clamp limits.asicFmin fminMin fminMax else fminMin
  enableArbMax .hostFmax false
    { targFreq := bootFreq
      fmax := fmax
      fmin := fmin
      hostRequestedFmin := 0
      forcedFreq := 0
      resetSafe := false
      sweepEn := 0
      sweepLow := 0
      sweepHigh := 0
      limArbInfo := ⟨.minArb, 0⟩
      arbiterMax := fun _ => ⟨true, fmax.toNat⟩
      arbiterMin := fun _ => ⟨true, fmin.toNat⟩
      lastMsgBusy := false
      finalArbiterCount := fun _ => 0
      frozenMask := 0
      overflowMask := 0 }

/-! ## The machine -/

/-- What can happen after boot. The `DVFSChange` inside `ForceAiclk` and
`SetAiclkResetSafe` is whatever actions follow: throttlers setting arbiters, and
then `calculateTarg`. -/
inductive Action where
  | setArbMax (arb : ArbMax) (freq : Float32Value)
  | setArbMin (arb : ArbMin) (freq : Float32Value)
  | enableArbMax (arb : ArbMax) (enable : Bool)
  | enableArbMin (arb : ArbMin) (enable : Bool)
  | goBusy (busy aiclkState : Bool)
  | updateBusy (aiclkState : Bool)
  | setHostFmax (restoreDefault : Bool) (asicFmax : UInt32)
  | setHostFmin (newFmin : UInt32)
  | force (freq : UInt32)
  | sweep (start : Bool) (sweepLow sweepHigh : UInt32)
  | setResetSafe (enable : Bool)
  | counter (cmd : CounterCmd)
  | calculateTarg (rand : UInt32)

def step (s : State) : Action → Option State
  | .setArbMax arb freq => some (setAiclkArbMax arb freq s)
  | .setArbMin arb freq => some (setAiclkArbMin arb freq s)
  | .enableArbMax arb enable => some (enableArbMax arb enable s)
  | .enableArbMin arb enable => some (enableArbMin arb enable s)
  | .goBusy busy aiclkState => some (aiclkBusyHandler busy aiclkState s)
  | .updateBusy aiclkState => some (aiclkUpdateBusy aiclkState s)
  | .setHostFmax restoreDefault asicFmax => some (setArbHostFmaxHandler restoreDefault asicFmax s).2
  | .setHostFmin newFmin => some (handleCharSetHostFmin newFmin s).2
  | .force freq => some (forceAiclk freq s).2
  | .sweep start sweepLow sweepHigh => some (sweepAiclkHandler start sweepLow sweepHigh s).2
  | .setResetSafe enable => some (setAiclkResetSafe enable s)
  | .counter cmd => some (throttlerCounterHandler cmd s).2.2
  | .calculateTarg rand => some (calculateTargAiclk rand s)

end SystemFirmware.Aiclk
