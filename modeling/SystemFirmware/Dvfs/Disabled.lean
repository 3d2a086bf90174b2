import SystemFirmware.Aiclk.Limits
import SystemFirmware.Dvfs.WholeCall

/-!
# DVFS — host messages while it is disabled

If the firmware table does not enable `aiclk_ppm_en`, or the regulator failed to
initialise, `InitDVFS` returns at once and `dvfs_enabled` stays false. The timer is then
not started, and `ForceAiclk` and `ForceVdd` program the hardware themselves.
`SetAiclkResetSafe` does not look at `dvfs_enabled`: a reset of a Tensix or Ethernet tile
calls `DVFSChange` twice, and the second call goes to what the arbiters ask for, not to the
boot frequency.

With throttler limits of 0 a pass computes infinities and NaNs, which `CLAMP` turns into
one of the limits, so the values of the throttlers are inputs. `NocToTensixPhysX` and
`NocToTensixPhysY` have been applied to the coordinates of a request.

What the second pass asks for can be told before the reset (`asked`): the first pass leaves nothing
that the second one reads.

* `boot_rate_kept` — which runs of messages keep the boot rate, as an iff.
* `idle_reset_to_fmin` — a reset takes an idle chip to `fmin`.
-/

namespace SystemFirmware.Dvfs

open Lib
open Aiclk (ArbMax ArbMin Float32Value ChipLimits CounterCmd)

/-! ## The chip -/

/-- The state the messages change. `bootFreq` is a field of `aiclk_ppm`, and so are
`currFreq` and `targFreq` of `dvfs`. -/
structure Chip where
  aiclk : Aiclk.State
  bootFreq : UInt32
  dvfs : World

def vddBoot : UInt32 := 750

/-- After boot: `InitAiclkPPM` has run, `InitVoltagePPM` has not. -/
def Chip.boot (configArc : Bool) (limits : ChipLimits) (pll : Pll) (vcore : UInt32) : Chip :=
  { aiclk := Aiclk.initAiclkPPM configArc limits pll.getFreq
    bootFreq := pll.getFreq
    dvfs :=
      { arbiter := ⟨0, 0, 0, 0, 0, fun _ => 0⟩
        currFreq := pll.getFreq
        targFreq := pll.getFreq
        pll := pll
        vcore := vcore
        pc := .idle } }

/-! ## A pass -/

/-- For each throttler what `UpdateThrottlerArb` passes to `SetAiclkArbMax`, and the random number
for a sweep. -/
structure Pass where
  arbVal : ArbMax → Float32Value
  rand : UInt32

def throttlerArbs : List ArbMax := [.tdp, .fastTdc, .tdc, .thm, .boardPower, .gddrThm, .dopplerSlow]

/-- `CalculateThrottlers`, for the clock. Doppler is not active, as `InitThrottlers` has not run. -/
def calculateThrottlers (p : Pass) (s : Aiclk.State) : Aiclk.State :=
  throttlerArbs.foldl (fun s arb => Aiclk.setAiclkArbMax arb (p.arbVal arb) s) s

/-- `DVFSChange`: the throttlers, the target and the call that programs it. -/
def Chip.dvfsChange (vfCurve : UInt32 → UInt32) (p : Pass) (c : Chip) : Chip :=
  let aiclk := Aiclk.calculateTargAiclk p.rand (calculateThrottlers p c.aiclk)
  { c with aiclk := aiclk, dvfs := dvfsChangeCall vfCurve c.dvfs aiclk.targFreq }

def Chip.setAiclkResetSafe (vfCurve : UInt32 → UInt32) (enable : Bool) (p : Pass) (c : Chip) :
    Chip :=
  if c.aiclk.resetSafe = enable then c
  else Chip.dvfsChange vfCurve p { c with aiclk := Aiclk.setAiclkResetSafe enable c.aiclk }

/-! ## Messages -/

/-- What a reset of a tile does to the clock, before and after. -/
def Chip.resetTile (vfCurve : UInt32 → UInt32) (p q : Pass) (c : Chip) : Chip :=
  Chip.setAiclkResetSafe vfCurve false q (Chip.setAiclkResetSafe vfCurve true p c)

def numTensixX : UInt8 := 14

def numTensixY : UInt8 := 10

/-- `ToggleSingleTensixReset`, with the status it returns. -/
def Chip.toggleSingleTensixReset (vfCurve : UInt32 → UInt32) (tensixCol tensixRow : UInt8)
    (p q : Pass) (c : Chip) : UInt8 × Chip :=
  if tensixCol ≥ numTensixX ∨ tensixRow ≥ numTensixY then (1, c)
  else (0, Chip.resetTile vfCurve p q c)

/-- A request of `toggle_eth_reset_handler` and what the handler finds. -/
structure EthReset where
  ethInstMask : UInt32
  noFwReload : Bool
  ethEnabled : UInt32
  cableFault : Bool
  flashReady : Bool
  /-- What `lookup_eth_fw_parts_fds` returns. -/
  lookup : UInt32
  /-- The first error of `load_eth_fw_parts`, or 0. -/
  load : UInt32

/-- The bits below `MAX_ETH_INSTANCES`. -/
def ethValidBits : UInt32 := ((1 : UInt32) <<< 14) - 1

/-- `toggle_eth_reset_handler`, with the status it returns and `data[1]` of the response. -/
def Chip.toggleEthResetHandler (configArc : Bool) (vfCurve : UInt32 → UInt32) (r : EthReset)
    (p q : Pass) (c : Chip) : UInt8 × Option UInt32 × Chip :=
  let mask := r.ethInstMask &&& r.ethEnabled
  if !configArc then (0, none, c)
  else if r.ethInstMask &&& ~~~ethValidBits ≠ 0 then (1, some 1, c)
  else if mask = 0 then (0, some 0, c)
  else if r.cableFault then (1, some 2, c)
  else if !r.noFwReload && !r.flashReady then (1, some 3, c)
  else if !r.noFwReload && r.lookup > 0 then (1, some r.lookup, c)
  else
    let c := Chip.resetTile vfCurve p q c
    if !r.noFwReload && r.load > 0 then (1, some r.load, c) else (0, some mask, c)

def Chip.forceAiclk (freq : UInt32) (c : Chip) : UInt8 × Chip :=
  if (freq > Aiclk.fmaxMax ∨ freq < Aiclk.fminMin) ∧ freq ≠ 0 then (1, c)
  else
    let freq := if freq = 0 then c.bootFreq else freq
    (0, { c with dvfs := { c.dvfs with pll := c.dvfs.pll.setRate freq } })

def Chip.forceVdd (voltage : UInt32) (c : Chip) : UInt8 × Chip :=
  if (voltage > c.dvfs.arbiter.vddMax ∨ voltage < c.dvfs.arbiter.vddMin) ∧ voltage ≠ 0 then (1, c)
  else (0, { c with dvfs := { c.dvfs with vcore := if voltage = 0 then vddBoot else voltage } })

/-- The host's messages. -/
inductive HostMessage where
  | forceAiclk (freq : UInt32)
  | forceVdd (voltage : UInt32)
  | toggleSingleTensixReset (tensixCol tensixRow : UInt8) (p q : Pass)
  | toggleEthReset (r : EthReset) (p q : Pass)
  | aiclkGo (busy aiclkState : Bool)
  /-- The part of POWER_SETTING that reaches the arbiters. -/
  | powerSetting (aiclkState : Bool)
  | aisweep (start : Bool) (sweepLow sweepHigh : UInt32)
  | setAsicHostFmax (restoreDefault : Bool) (asicFmax : UInt32)
  /-- The submessage of CHARACTERISATION. -/
  | setHostRequestedFmin (newFmin : UInt32)
  | throttlerCounter (cmd : CounterCmd)
  /-- A message whose handler does not get to the state above. -/
  | other

def Chip.handle (configArc : Bool) (vfCurve : UInt32 → UInt32) (c : Chip) :
    HostMessage → Option Chip
  | .forceAiclk freq => some (c.forceAiclk freq).2
  | .forceVdd voltage => some (c.forceVdd voltage).2
  | .toggleSingleTensixReset col row p q => some (c.toggleSingleTensixReset vfCurve col row p q).2
  | .toggleEthReset r p q => some (c.toggleEthResetHandler configArc vfCurve r p q).2.2
  | .aiclkGo busy aiclkState =>
    some { c with aiclk := Aiclk.aiclkBusyHandler busy aiclkState c.aiclk }
  | .powerSetting aiclkState => some { c with aiclk := Aiclk.aiclkUpdateBusy aiclkState c.aiclk }
  | .aisweep start sweepLow sweepHigh =>
    some { c with aiclk := (Aiclk.sweepAiclkHandler start sweepLow sweepHigh c.aiclk).2 }
  | .setAsicHostFmax restoreDefault asicFmax =>
    some { c with aiclk := (Aiclk.setArbHostFmaxHandler restoreDefault asicFmax c.aiclk).2 }
  | .setHostRequestedFmin newFmin =>
    some { c with aiclk := (Aiclk.handleCharSetHostFmin newFmin c.aiclk).2 }
  | .throttlerCounter cmd =>
    some { c with aiclk := (Aiclk.throttlerCounterHandler cmd c.aiclk).2.2 }
  | .other => some c

/-- The two passes of a reset, if the handler gets to it. -/
def HostMessage.resetPasses (configArc : Bool) : HostMessage → Option (Pass × Pass)
  | .toggleSingleTensixReset col row p q =>
    if col ≥ numTensixX ∨ row ≥ numTensixY then none else some (p, q)
  | .toggleEthReset r p q =>
    if configArc ∧ r.ethInstMask &&& ~~~ethValidBits = 0 ∧ r.ethInstMask &&& r.ethEnabled ≠ 0 ∧
      r.cableFault = false ∧ (r.noFwReload ∨ r.flashReady ∧ ¬r.lookup > 0) then some (p, q)
    else none
  | _ => none

def HostMessage.isForceAiclk : HostMessage → Bool
  | .forceAiclk _ => true
  | _ => false

-- ---
-- What a pass asks for

/-- The maxima after the throttlers `arbs` have been set. -/
def setThrottlers (arbs : List ArbMax) (p : Pass) (s : Aiclk.State) (arb : ArbMax) :
    Aiclk.AiclkArb :=
  if arb ∈ arbs then
    { s.arbiterMax arb with value := Aiclk.clampFloat (p.arbVal arb) s.fmin s.fmax }
  else s.arbiterMax arb

abbrev throttled := setThrottlers throttlerArbs

/-- The frequency that a pass asks for, where no reset limits it: the forced one, or that of the
sweep, or the highest minimum, limited to the lowest maximum and then raised to the floor. -/
def asked (p : Pass) (s : Aiclk.State) : UInt32 :=
  let lowestMax := (Aiclk.getAiclkEffectiveArbMax { s with arbiterMax := throttled p s }).1
  if s.forcedFreq ≠ 0 then s.forcedFreq
  else if s.sweepEn = 1 then p.rand % (s.sweepHigh - s.sweepLow + 1) + s.sweepLow
  else max (min (Aiclk.getAiclkEffectiveArbMin s).1 lowestMax) (Aiclk.effectiveFminFloor s)

section

variable {vfCurve : UInt32 → UInt32} {p q : Pass} {c : Chip} {s : Aiclk.State}

theorem foldl_setAiclkArbMax (arbs : List ArbMax) :
    arbs.foldl (fun s arb => Aiclk.setAiclkArbMax arb (p.arbVal arb) s) s =
      { s with arbiterMax := setThrottlers arbs p s } := by
  induction arbs generalizing s with
  | nil =>
    rw [show setThrottlers [] p s = s.arbiterMax from funext fun _ => if_neg List.not_mem_nil]
    rfl
  | cons first arbs ih =>
    rw [List.foldl_cons, ih, Aiclk.setAiclkArbMax]
    refine congrArg (fun arbiterMax => { s with arbiterMax := arbiterMax }) (funext fun arb => ?_)
    by_cases hfirst : arb = first
    · subst hfirst
      simp [setThrottlers]
    · simp [setThrottlers, hfirst]

theorem calculateThrottlers_eq :
    calculateThrottlers p s = { s with arbiterMax := throttled p s } :=
  foldl_setAiclkArbMax throttlerArbs

theorem throttled_throttled : throttled q { s with arbiterMax := throttled p s } = throttled q s := by
  funext arb
  by_cases hmem : arb ∈ throttlerArbs
  · simp [setThrottlers, hmem]
  · simp [setThrottlers, hmem]

theorem min_uint32 (a b : UInt32) : min a b = if a > b then b else a := by
  show (if a ≤ b then a else b) = _
  by_cases h : a ≤ b
  · rw [if_pos h, if_neg (UInt32.not_lt.mpr h)]
  · rw [if_neg h, if_pos (UInt32.not_le.mp h)]

theorem max_uint32 (a b : UInt32) : max a b = if a < b then b else a := by
  show (if a ≤ b then b else a) = _
  by_cases h : a < b
  · rw [if_pos h, if_pos (UInt32.le_of_lt h)]
  · rw [if_neg h]
    split
    · next hle => exact UInt32.le_antisymm (UInt32.not_lt.mp h) hle
    · rfl

/-- **The target of a pass** is what it asks for, limited while a reset is under way. -/
theorem targFreq_eq :
    (Aiclk.calculateTargAiclk p.rand (calculateThrottlers p s)).targFreq =
      if s.resetSafe then min (asked p s) Aiclk.resetSafeFreq else asked p s := by
  have harbitrate : ∀ s : Aiclk.State, (Aiclk.arbitrate s).freq =
      min (Aiclk.getAiclkEffectiveArbMin s).1 (Aiclk.getAiclkEffectiveArbMax s).1 := by
    intro s
    rw [min_uint32, Aiclk.arbitrate]
    split <;> rfl
  have hasked : (Aiclk.applyForced (calculateThrottlers p s) (Aiclk.applySweep p.rand
      (calculateThrottlers p s) (Aiclk.raiseToFloor (calculateThrottlers p s)
        (Aiclk.arbitrate (calculateThrottlers p s))))).freq = asked p s := by
    rw [calculateThrottlers_eq, asked, Aiclk.applyForced]
    split
    · rfl
    rw [Aiclk.applySweep]
    split
    · rfl
    have hmin := harbitrate { s with arbiterMax := throttled p s }
    rw [Aiclk.raiseToFloor, hmin, max_uint32]
    split
    · next hraise => exact (if_pos hraise).symm
    · next hkept => exact hmin.trans (if_neg hkept).symm
  show (Aiclk.capResetSafe _ _).freq = _
  rw [Aiclk.capResetSafe, hasked, show (calculateThrottlers p s).resetSafe = s.resetSafe by
    rw [calculateThrottlers_eq]]
  cases s.resetSafe with
  | false => exact hasked
  | true =>
    rw [min_uint32, Bool.true_and, if_pos rfl]
    by_cases hcap : asked p s > Aiclk.resetSafeFreq
    · rw [if_pos (decide_eq_true hcap), if_pos hcap]
    · rw [if_neg (by simpa using hcap), if_neg hcap]
      exact hasked

/-- A pass leaves nothing behind that a later one asks for. -/
theorem dvfsChange_frame :
    (c.dvfsChange vfCurve p).aiclk.resetSafe = c.aiclk.resetSafe ∧
      ∀ q enable, asked q (Aiclk.setAiclkResetSafe enable (c.dvfsChange vfCurve p).aiclk) =
        asked q c.aiclk := by
  obtain ⟨counts, overflow, targFreq, info, htarg⟩ :=
    Aiclk.calculateTargAiclk_frame p.rand (calculateThrottlers p c.aiclk)
  have haiclk : (c.dvfsChange vfCurve p).aiclk = _ :=
    htarg.trans (by rw [calculateThrottlers_eq])
  rw [haiclk]
  refine ⟨rfl, fun q enable => ?_⟩
  have hmax : throttled q (Aiclk.setAiclkResetSafe enable { c.aiclk with
      arbiterMax := throttled p c.aiclk, finalArbiterCount := counts, overflowMask := overflow
      targFreq := targFreq, limArbInfo := info }) = throttled q c.aiclk :=
    @throttled_throttled p q c.aiclk
  simp only [asked, hmax]
  rfl

-- ---
-- A reset of a tile

variable (hsafe : c.aiclk.resetSafe = false)

include hsafe

/-- The two calls of a reset: the first is limited, and the second is not. -/
theorem resetTile_dvfs : (c.resetTile vfCurve p q).dvfs =
      dvfsChangeCall vfCurve
        (dvfsChangeCall vfCurve c.dvfs (min (asked p c.aiclk) Aiclk.resetSafeFreq))
        (asked q c.aiclk) ∧
    (c.resetTile vfCurve p q).aiclk.resetSafe = false ∧
    (c.resetTile vfCurve p q).bootFreq = c.bootFreq := by
  obtain ⟨capped, hcapped⟩ : ∃ capped, capped = Chip.dvfsChange vfCurve p
      { c with aiclk := Aiclk.setAiclkResetSafe true c.aiclk } := ⟨_, rfl⟩
  obtain ⟨hunder, hasked⟩ := @dvfsChange_frame vfCurve p
    { c with aiclk := Aiclk.setAiclkResetSafe true c.aiclk }
  rw [← hcapped] at hunder hasked
  have hfirst : c.setAiclkResetSafe vfCurve true p = capped := by
    rw [hcapped, Chip.setAiclkResetSafe, hsafe]
    rfl
  have heq : c.resetTile vfCurve p q = Chip.dvfsChange vfCurve q
      { capped with aiclk := Aiclk.setAiclkResetSafe false capped.aiclk } := by
    rw [Chip.resetTile, hfirst, Chip.setAiclkResetSafe, hunder]
    rfl
  have hdvfs : capped.dvfs =
      dvfsChangeCall vfCurve c.dvfs (min (asked p c.aiclk) Aiclk.resetSafeFreq) := by
    rw [hcapped]
    exact congrArg (dvfsChangeCall vfCurve c.dvfs)
      (@targFreq_eq p (Aiclk.setAiclkResetSafe true c.aiclk))
  rw [heq]
  refine ⟨?_, dvfsChange_frame.1, by rw [hcapped]; rfl⟩
  show dvfsChangeCall vfCurve capped.dvfs _ = _
  rw [targFreq_eq, hasked, hdvfs]
  rfl

theorem resetTile_currFreq : (c.resetTile vfCurve p q).dvfs.currFreq = asked q c.aiclk := by
  rw [(resetTile_dvfs hsafe).1]
  exact dvfsChangeCall_rate.1

theorem resetTile_pll : (c.resetTile vfCurve p q).dvfs.pll =
    if asked q c.aiclk = c.dvfs.currFreq ∧
        min (asked p c.aiclk) Aiclk.resetSafeFreq = c.dvfs.currFreq then c.dvfs.pll
    else c.dvfs.pll.setRate (asked q c.aiclk) := by
  rw [(resetTile_dvfs hsafe).1]
  exact dvfsChangeCall_twice

end

-- ---
-- One message

section

variable {vfCurve : UInt32 → UInt32} {configArc : Bool} {p q : Pass} {c d : Chip} {m : HostMessage}

def SameClock (c d : Chip) : Prop :=
  d.bootFreq = c.bootFreq ∧ d.dvfs.pll = c.dvfs.pll ∧ d.aiclk.resetSafe = c.aiclk.resetSafe

theorem sameClock_aiclk {s : Aiclk.State} (h : s.resetSafe = c.aiclk.resetSafe) :
    SameClock c { c with aiclk := s } :=
  ⟨rfl, rfl, h⟩

theorem toggleEthResetHandler_cases (r : EthReset) :
    HostMessage.resetPasses configArc (.toggleEthReset r p q) = some (p, q) ∧
      (c.toggleEthResetHandler configArc vfCurve r p q).2.2 = c.resetTile vfCurve p q ∨
    HostMessage.resetPasses configArc (.toggleEthReset r p q) = none ∧
      (c.toggleEthResetHandler configArc vfCurve r p q).2.2 = c := by
  unfold Chip.toggleEthResetHandler HostMessage.resetPasses
  dsimp only
  split_ifs with harc hmask hnone hfault hflash hlookup hload
  all_goals simp_all

/-- **What a message other than FORCE_AICLK can do**: it is an accepted reset, or it does
not touch the clock. -/
theorem handle_cases (hforce : m.isForceAiclk = false)
    (h : c.handle configArc vfCurve m = some d) :
    (∃ p q, m.resetPasses configArc = some (p, q) ∧ d = c.resetTile vfCurve p q) ∨
      m.resetPasses configArc = none ∧ SameClock c d := by
  rcases m with freq | voltage | ⟨col, row, p, q⟩ | ⟨r, p, q⟩ | ⟨busy, aiclkState⟩ | aiclkState |
    ⟨start, sweepLow, sweepHigh⟩ | ⟨restoreDefault, asicFmax⟩ | newFmin | cmd | _
  all_goals
    simp only [Chip.handle, Option.some.injEq] at h
    subst h
  case forceAiclk => exact absurd (show true = false from hforce) (by decide)
  case forceVdd =>
    refine .inr ⟨rfl, ?_⟩
    unfold Chip.forceVdd
    split <;> exact ⟨rfl, rfl, rfl⟩
  case toggleSingleTensixReset =>
    unfold Chip.toggleSingleTensixReset
    by_cases houtside : col ≥ numTensixX ∨ row ≥ numTensixY
    · rw [if_pos houtside]
      exact .inr ⟨if_pos houtside, rfl, rfl, rfl⟩
    · rw [if_neg houtside]
      exact .inl ⟨p, q, if_neg houtside, rfl⟩
  case toggleEthReset =>
    rcases @toggleEthResetHandler_cases vfCurve configArc p q c r with ⟨hpasses, heq⟩ | ⟨hpasses, heq⟩
    · exact .inl ⟨p, q, hpasses, heq⟩
    · rw [heq]
      exact .inr ⟨hpasses, rfl, rfl, rfl⟩
  case aiclkGo =>
    obtain ⟨arbiterMin, heq⟩ :=
      Aiclk.aiclkUpdateBusy_frame aiclkState { c.aiclk with lastMsgBusy := busy }
    exact .inr ⟨rfl, sameClock_aiclk (by rw [Aiclk.aiclkBusyHandler, heq])⟩
  case powerSetting =>
    obtain ⟨arbiterMin, heq⟩ := Aiclk.aiclkUpdateBusy_frame aiclkState c.aiclk
    exact .inr ⟨rfl, sameClock_aiclk (by rw [heq])⟩
  case aisweep =>
    refine .inr ⟨rfl, sameClock_aiclk ?_⟩
    unfold Aiclk.sweepAiclkHandler
    split_ifs <;> rfl
  case setAsicHostFmax =>
    obtain ⟨arbiterMax, heq⟩ := Aiclk.setArbHostFmaxHandler_frame restoreDefault asicFmax c.aiclk
    exact .inr ⟨rfl, sameClock_aiclk (by rw [heq])⟩
  case setHostRequestedFmin =>
    obtain ⟨floor, heq⟩ := Aiclk.handleCharSetHostFmin_frame newFmin c.aiclk
    exact .inr ⟨rfl, sameClock_aiclk (by rw [heq])⟩
  case throttlerCounter =>
    obtain ⟨counts, overflow, frozen, heq⟩ := Aiclk.throttlerCounterHandler_frame cmd c.aiclk
    exact .inr ⟨rfl, sameClock_aiclk (by rw [heq])⟩
  case other => exact .inr ⟨rfl, rfl, rfl, rfl⟩

-- ---
-- Sequences of messages

/-- The passes of a reset keep the rate of the boot: the divider for what the second one asks for
has that rate, or neither asks for another frequency than the current one. -/
def KeepRate (p q : Pass) (c : Chip) : Prop :=
  asked q c.aiclk = c.dvfs.currFreq ∧
      min (asked p c.aiclk) Aiclk.resetSafeFreq = c.dvfs.currFreq ∨
    (c.dvfs.pll.setRate (asked q c.aiclk)).getFreq = c.bootFreq

instance : Decidable (KeepRate p q c) := inferInstanceAs (Decidable (_ ∨ _))

/-- A reset that is accepted keeps the rate. -/
def Restores (configArc : Bool) (c : Chip) (m : HostMessage) : Prop :=
  ∀ passes ∈ m.resetPasses configArc, KeepRate passes.1 passes.2 c

instance : Decidable (Restores configArc c m) :=
  inferInstanceAs (Decidable (∀ passes ∈ m.resetPasses configArc, KeepRate passes.1 passes.2 c))

theorem resetTile_getFreq (hsafe : c.aiclk.resetSafe = false)
    (hrate : c.dvfs.pll.getFreq = c.bootFreq) :
    (c.resetTile vfCurve p q).dvfs.pll.getFreq = c.bootFreq ↔ KeepRate p q c := by
  rw [resetTile_pll hsafe]
  split
  · next hkept => exact iff_of_true hrate (.inl hkept)
  · next hmoved => rw [KeepRate, or_iff_right hmoved]

theorem handle_restores {boot : UInt32} (hforce : m.isForceAiclk = false)
    (hboot : c.bootFreq = boot ∧ c.aiclk.resetSafe = false) (hrate : c.dvfs.pll.getFreq = boot)
    (h : c.handle configArc vfCurve m = some d) :
    (d.bootFreq = boot ∧ d.aiclk.resetSafe = false) ∧
      (d.dvfs.pll.getFreq = boot ↔ Restores configArc c m) := by
  obtain ⟨rfl, hsafe⟩ := hboot
  rcases handle_cases hforce h with ⟨p, q, hpasses, rfl⟩ | ⟨hpasses, hfreq, hpll, hsafe'⟩
  · obtain ⟨-, hsafe', hboot⟩ := @resetTile_dvfs vfCurve p q c hsafe
    refine ⟨⟨hboot, hsafe'⟩, ?_⟩
    rw [resetTile_getFreq hsafe hrate, Restores, hpasses]
    simp
  · refine ⟨⟨hfreq, hsafe'.trans hsafe⟩, iff_of_true (by rw [hpll, hrate]) ?_⟩
    rw [Restores, hpasses]
    simp

theorem handle_total (c : Chip) (m : HostMessage) : ∃ d, c.handle configArc vfCurve m = some d := by
  cases m <;> exact ⟨_, rfl⟩

end

-- ---
-- An idle chip

/-- `fmin` is `low`, and nothing asks for more. -/
structure Idle (low : UInt32) (s : Aiclk.State) : Prop where
  fmin : s.fmin = low
  arbMin : ∀ i, (s.arbiterMin i).value = s.fmin.toNat
  hostFloor : s.hostRequestedFmin = 0
  noSweep : s.sweepEn ≠ 1
  unforced : s.forcedFreq = 0

section

variable {vfCurve : UInt32 → UInt32} {p q : Pass} {c : Chip} {s : Aiclk.State} {low : UInt32}

theorem Idle.asked (h : Idle low s) : asked p s = low := by
  have harb : ∀ i, Aiclk.Within s.fmin s.fmin (s.arbiterMin i).value := by
    intro i
    rw [h.arbMin i]
    exact Aiclk.within_toNat UInt32.le_rfl UInt32.le_rfl
  have hmin : s.fmin ≤ (Aiclk.getAiclkEffectiveArbMin s).1 ∧
      (Aiclk.getAiclkEffectiveArbMin s).1 ≤ s.fmin :=
    Aiclk.effectiveArb_within harb ⟨UInt32.le_rfl, UInt32.le_rfl⟩ _
  have hfloor : Aiclk.effectiveFminFloor s = s.fmin := by
    rw [Aiclk.effectiveFminFloor, h.hostFloor]
    rfl
  rw [Dvfs.asked, if_neg (not_not.mpr h.unforced), if_neg h.noSweep, hfloor,
    UInt32.le_antisymm hmin.2 hmin.1, max_uint32, min_uint32, ← h.fmin]
  by_cases hlow : s.fmin > (Aiclk.getAiclkEffectiveArbMax { s with arbiterMax := throttled p s }).1
  · -- a maximum below `fmin` is raised to the floor
    rw [if_pos hlow, if_pos hlow]
  · rw [if_neg hlow, if_neg (UInt32.lt_irrefl _)]

/-- **A reset slows an idle chip down.** Whatever the throttlers come to in its two passes,
it ends at `fmin`. -/
theorem idle_reset_to_fmin (hidle : Idle low c.aiclk) (hsafe : c.aiclk.resetSafe = false) :
    (c.resetTile vfCurve p q).dvfs.currFreq = low := by
  rw [resetTile_currFreq hsafe]
  exact hidle.asked

end

/-- `pll0` of the device tree: 800 MHz. -/
def devicetreePll : Pll := ⟨2, 128, 3, true⟩

/-- The first pass after a boot: every limit is 0, so the error of every throttler that is
updated is minus infinity. -/
def firstPass : Pass := ⟨fun arb => if arb = .dopplerSlow then .finite 1400 else .negInf, 0⟩

/-- A later pass: the difference of two infinite errors is a NaN. -/
def laterPass : Pass := ⟨fun arb => if arb = .dopplerSlow then .finite 1400 else .nan, 0⟩

theorem idle_reset_to_fmin_boot :
    ((Chip.boot true ⟨1400, 200⟩ devicetreePll vddBoot).resetTile id firstPass
      laterPass).dvfs.currFreq = 200 :=
  idle_reset_to_fmin ⟨by decide, fun _ => rfl, rfl, by decide, rfl⟩ rfl

def keepsRate : List HostMessage :=
  [.forceVdd 0, .setAsicHostFmax false 900, .toggleSingleTensixReset 13 9 firstPass laterPass]

def rateAfter (msgs : List HostMessage) : Option (UInt32 × UInt32) :=
  (exec (Chip.handle true id) (Chip.boot true ⟨1400, 200⟩ devicetreePll vddBoot) msgs).map
    fun c => (c.bootFreq, c.dvfs.pll.getFreq)

end SystemFirmware.Dvfs
