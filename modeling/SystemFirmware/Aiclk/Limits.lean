import Mathlib.Algebra.Order.Ring.Rat
import Mathlib.Data.Rat.Cast.Order
import SystemFirmware.Aiclk.Definitions

/-!
# AICLK arbitration — the target and the chip limits

`CalculateTargAiclk` limits the target to the lowest maximum and then raises it to the
floor, `fmin` or what the host asked for. A comment says that the target "will not be above
Fmax, since we calculated the max limits last"; but the floor comes later, and nothing
compares it with `fmax` (`targ_within_limits`): the host's floor is checked against the
constants 200 and 1400, and `InitAiclkPPM` clamps `fmin` and `fmax` separately.
-/

namespace SystemFirmware.Aiclk

open Lib
open Dvfs (clamp)

-- ---
-- Values within the limits

def Within (low high : UInt32) (q : ℚ) : Prop := (low.toNat : ℚ) ≤ q ∧ q ≤ high.toNat

section

variable {low high : UInt32} {q : ℚ}

theorem within_toNat {f : UInt32} (hlow : low ≤ f) (hhigh : f ≤ high) :
    Within low high (f.toNat : ℚ) :=
  ⟨Nat.cast_le.mpr (UInt32.le_iff_toNat_le.mp hlow), Nat.cast_le.mpr (UInt32.le_iff_toNat_le.mp hhigh)⟩

theorem within_clampFloat (hlimits : low ≤ high) (freq : Float32Value) :
    Within low high (clampFloat freq low high) := by
  have hlow : Within low high (low.toNat : ℚ) := within_toNat UInt32.le_rfl hlimits
  have hhigh : Within low high (high.toNat : ℚ) := within_toNat hlimits UInt32.le_rfl
  cases freq
  case nan => exact hhigh
  case negInf => exact hlow
  case posInf => exact hhigh
  case finite q =>
    simp only [clampFloat]
    split
    · exact hlow
    · rename_i hgt
      split
      · rename_i hlt
        exact ⟨(not_le.mp hgt).le, hlt.le⟩
      · exact hhigh

theorem Within.truncate (h : Within low high q) : low ≤ truncate q ∧ truncate q ≤ high := by
  obtain ⟨hlow, hhigh⟩ := h
  have hlow' : (low.toNat : ℤ) ≤ q.floor := Rat.le_floor_iff.mpr (by exact_mod_cast hlow)
  have hhigh' : q.floor ≤ (high.toNat : ℤ) := by
    exact_mod_cast (Rat.floor_le q).trans hhigh
  have hlt := high.toNat_lt
  have hof : (Aiclk.truncate q).toNat = q.floor.toNat :=
    UInt32.toNat_ofNat_of_lt' (by simp only [UInt32.size]; omega)
  rw [UInt32.le_iff_toNat_le, UInt32.le_iff_toNat_le, hof]
  omega

theorem effectiveArb_within {ι : Type} {better : ℚ → ℚ → Bool} {index : ι → UInt32}
    {arbiter : ι → AiclkArb} (harb : ∀ i, Within low high (arbiter i).value)
    {start : UInt32 × UInt32} (hstart : low ≤ start.1 ∧ start.1 ≤ high) (arbs : List ι) :
    low ≤ (effectiveArb better index arbiter start arbs).1 ∧
      (effectiveArb better index arbiter start arbs).1 ≤ high := by
  unfold effectiveArb
  induction arbs generalizing start with
  | nil => exact hstart
  | cons i rest ih =>
    refine ih ?_
    dsimp only
    split
    · exact (harb i).truncate
    · exact hstart

end

-- ---
-- The invariant

/-- If the limits are the right way round, every arbiter is within them; and the
lower bound of `fmax` is above the reset-safe frequency. -/
structure Inv (s : State) : Prop where
  fmaxLow : resetSafeFreq ≤ s.fmax
  arbMax : s.fmin ≤ s.fmax → ∀ i, Within s.fmin s.fmax (s.arbiterMax i).value
  arbMin : s.fmin ≤ s.fmax → ∀ i, Within s.fmin s.fmax (s.arbiterMin i).value

section

variable {s t : State}

theorem Inv.congr (h : Inv s) (hfmax : t.fmax = s.fmax) (hfmin : t.fmin = s.fmin)
    (hmax : t.arbiterMax = s.arbiterMax) (hmin : t.arbiterMin = s.arbiterMin) : Inv t where
  fmaxLow := hfmax ▸ h.fmaxLow
  arbMax := by
    rw [hfmax, hfmin, hmax]
    exact h.arbMax
  arbMin := by
    rw [hfmax, hfmin, hmin]
    exact h.arbMin

theorem within_update {ι : Type} [DecidableEq ι] {low high : UInt32} {arbiter : ι → AiclkArb}
    {arb : ι} {new : AiclkArb} (h : ∀ i, Within low high (arbiter i).value)
    (hnew : Within low high new.value) (i : ι) :
    Within low high (Function.update arbiter arb new i).value :=
  (Function.forall_update_iff arbiter fun _ a => Within low high a.value).mpr
    ⟨hnew, fun i _ => h i⟩ i

theorem Inv.setAiclkArbMax (h : Inv s) (arb : ArbMax) (freq : Float32Value) :
    Inv (setAiclkArbMax arb freq s) where
  fmaxLow := h.fmaxLow
  arbMin := h.arbMin
  arbMax := fun hlimits => within_update (h.arbMax hlimits) (within_clampFloat hlimits freq)

theorem Inv.setAiclkArbMin (h : Inv s) (arb : ArbMin) (freq : Float32Value) :
    Inv (setAiclkArbMin arb freq s) where
  fmaxLow := h.fmaxLow
  arbMax := h.arbMax
  arbMin := fun hlimits => within_update (h.arbMin hlimits) (within_clampFloat hlimits freq)

theorem Inv.enableArbMax (h : Inv s) (arb : ArbMax) (enable : Bool) :
    Inv (enableArbMax arb enable s) where
  fmaxLow := h.fmaxLow
  arbMin := h.arbMin
  arbMax := fun hlimits => within_update (h.arbMax hlimits) (h.arbMax hlimits arb)

theorem Inv.enableArbMin (h : Inv s) (arb : ArbMin) (enable : Bool) :
    Inv (enableArbMin arb enable s) where
  fmaxLow := h.fmaxLow
  arbMax := h.arbMax
  arbMin := fun hlimits => within_update (h.arbMin hlimits) (h.arbMin hlimits arb)

def SameButCounters (s t : State) : Prop :=
  ∃ counts overflow, t = { s with finalArbiterCount := counts, overflowMask := overflow }

theorem SameButCounters.refl : SameButCounters s s := ⟨_, _, rfl⟩

theorem SameButCounters.trans {u : State} (h : SameButCounters s t) (h' : SameButCounters t u) :
    SameButCounters s u := by
  obtain ⟨counts, overflow, rfl⟩ := h
  obtain ⟨counts', overflow', rfl⟩ := h'
  exact ⟨counts', overflow', rfl⟩

theorem SameButCounters.foldl {f : State → ArbMax → State} (hf : ∀ s i, SameButCounters s (f s i))
    (arbs : List ArbMax) : SameButCounters s (arbs.foldl f s) :=
  List.foldlRecOn arbs _ SameButCounters.refl fun t ht i _ => ht.trans (hf t i)

theorem sameButCounters_countThrottler (targFreq : UInt32) (s : State) (i : ArbMax) :
    SameButCounters s (countThrottler targFreq s i) := by
  unfold countThrottler
  dsimp only
  split_ifs <;> exact ⟨_, _, rfl⟩

theorem sameButCounters_clearCounter (mask : UInt32) (s : State) (i : ArbMax) :
    SameButCounters s (clearCounter mask s i) := by
  unfold clearCounter
  dsimp only
  split_ifs <;> exact ⟨_, _, rfl⟩

theorem calculateTargAiclk_frame (rand : UInt32) (s : State) : ∃ counts overflow targFreq info,
    calculateTargAiclk rand s = { s with
      finalArbiterCount := counts, overflowMask := overflow, targFreq := targFreq
      limArbInfo := info } := by
  obtain ⟨counts, overflow, hcounted⟩ : SameButCounters s _ :=
    SameButCounters.foldl (sameButCounters_countThrottler (arbitrate s).freq) ArbMax.all
  refine ⟨counts, overflow, (calculateTargAiclk rand s).targFreq,
    (calculateTargAiclk rand s).limArbInfo, ?_⟩
  simp only [calculateTargAiclk, hcounted]

theorem throttlerCounterHandler_frame (cmd : CounterCmd) (s : State) : ∃ counts overflow frozen,
    (throttlerCounterHandler cmd s).2.2 = { s with
      finalArbiterCount := counts, overflowMask := overflow, frozenMask := frozen } := by
  rcases cmd with bankIndex | mask | mask
  · refine ⟨s.finalArbiterCount, s.overflowMask, s.frozenMask, ?_⟩
    unfold throttlerCounterHandler
    dsimp only
    split <;> rfl
  · obtain ⟨counts, overflow, hcleared⟩ : SameButCounters s _ :=
      SameButCounters.foldl (sameButCounters_clearCounter mask.toUInt32) ArbMax.all
    exact ⟨counts, overflow, s.frozenMask, hcleared⟩
  · exact ⟨_, _, _, rfl⟩

theorem aiclkUpdateBusy_frame (aiclkState : Bool) (s : State) : ∃ arbiterMin,
    aiclkUpdateBusy aiclkState s = { s with arbiterMin := arbiterMin } := by
  unfold aiclkUpdateBusy
  split <;> exact ⟨_, rfl⟩

theorem setArbHostFmaxHandler_frame (restoreDefault : Bool) (asicFmax : UInt32) (s : State) :
    ∃ arbiterMax, (setArbHostFmaxHandler restoreDefault asicFmax s).2 =
      { s with arbiterMax := arbiterMax } := by
  unfold setArbHostFmaxHandler
  split_ifs <;> exact ⟨_, rfl⟩

theorem handleCharSetHostFmin_frame (newFmin : UInt32) (s : State) : ∃ floor,
    (handleCharSetHostFmin newFmin s).2 = { s with hostRequestedFmin := floor } := by
  unfold handleCharSetHostFmin
  split_ifs <;> exact ⟨_, rfl⟩

def acceptsSweep : Action → Bool
  | .sweep start sweepLow sweepHigh => start && sweepLow != 0 && sweepHigh != 0
  | _ => false

/-- **Invariant rule for the arbiters.** A property of the limits, the arbiters and the bounds of
the last accepted sweep that each of the four setters keeps is kept by every step. -/
theorem step_arbiter_rule {P : State → Prop} {a : Action}
    (hcongr : ∀ s t : State, P s → t.fmax = s.fmax → t.fmin = s.fmin →
      t.arbiterMax = s.arbiterMax → t.arbiterMin = s.arbiterMin →
      (acceptsSweep a = false → t.sweepLow = s.sweepLow ∧ t.sweepHigh = s.sweepHigh) → P t)
    (hsetMax : ∀ s arb freq, P s → P (setAiclkArbMax arb freq s))
    (hsetMin : ∀ s arb freq, P s → P (setAiclkArbMin arb freq s))
    (henableMax : ∀ s arb enable, P s → P (enableArbMax arb enable s))
    (henableMin : ∀ s arb enable, P s → P (enableArbMin arb enable s))
    (h : P s) (hstep : step s a = some t) : P t := by
  have hbusy : ∀ s aiclkState, P s → P (aiclkUpdateBusy aiclkState s) := by
    intro s aiclkState hs
    unfold aiclkUpdateBusy
    split <;> exact hsetMin s _ _ hs
  rcases a with ⟨arb, freq⟩ | ⟨arb, freq⟩ | ⟨arb, enable⟩ | ⟨arb, enable⟩ | ⟨busy, aiclkState⟩ |
    aiclkState | ⟨restoreDefault, asicFmax⟩ | newFmin | freq | ⟨start, sweepLow, sweepHigh⟩ |
    enable | cmd | rand
  all_goals
    simp only [step, Option.some.injEq] at hstep
    subst hstep
  case setArbMax => exact hsetMax s arb freq h
  case setArbMin => exact hsetMin s arb freq h
  case enableArbMax => exact henableMax s arb enable h
  case enableArbMin => exact henableMin s arb enable h
  case goBusy =>
    refine hbusy _ aiclkState (hcongr s { s with lastMsgBusy := busy } h rfl rfl rfl rfl ?_)
    exact fun _ => ⟨rfl, rfl⟩
  case updateBusy => exact hbusy s aiclkState h
  case setHostFmax =>
    unfold setArbHostFmaxHandler
    split_ifs
    · exact henableMax s _ _ h
    · exact h
    · exact hsetMax _ _ _ (henableMax s _ _ h)
  case setHostFmin =>
    obtain ⟨floor, heq⟩ := handleCharSetHostFmin_frame newFmin s
    rw [heq]
    exact hcongr s _ h rfl rfl rfl rfl fun _ => ⟨rfl, rfl⟩
  case force =>
    unfold forceAiclk
    split_ifs <;> exact hcongr s _ h rfl rfl rfl rfl fun _ => ⟨rfl, rfl⟩
  case sweep =>
    unfold sweepAiclkHandler
    split
    · next hstart =>
      split
      · exact h
      · next hzero =>
        refine hcongr s _ h rfl rfl rfl rfl fun hnot => ?_
        simp [acceptsSweep, hstart, not_or.mp hzero] at hnot
    · exact hcongr s _ h rfl rfl rfl rfl fun _ => ⟨rfl, rfl⟩
  case setResetSafe => exact hcongr s _ h rfl rfl rfl rfl fun _ => ⟨rfl, rfl⟩
  case counter =>
    obtain ⟨counts, overflow, frozen, heq⟩ := throttlerCounterHandler_frame cmd s
    rw [heq]
    exact hcongr s _ h rfl rfl rfl rfl fun _ => ⟨rfl, rfl⟩
  case calculateTarg =>
    obtain ⟨counts, overflow, targFreq, info, heq⟩ := calculateTargAiclk_frame rand s
    rw [heq]
    exact hcongr s _ h rfl rfl rfl rfl fun _ => ⟨rfl, rfl⟩

theorem step_inv {a : Action} (h : Inv s) (hstep : step s a = some t) : Inv t :=
  step_arbiter_rule (fun _ _ h hfmax hfmin hmax hmin _ => h.congr hfmax hfmin hmax hmin)
    (fun _ arb freq h => h.setAiclkArbMax arb freq)
    (fun _ arb freq h => h.setAiclkArbMin arb freq) (fun _ arb enable h => h.enableArbMax arb enable)
    (fun _ arb enable h => h.enableArbMin arb enable) h hstep

end

-- ---
-- The target

section

variable {s : State}

theorem low_le_clamp {val low high : UInt32} (hlimits : low ≤ high) : low ≤ clamp val low high := by
  unfold clamp
  split_ifs with hlow hhigh
  · exact UInt32.le_rfl
  · exact UInt32.le_of_lt (UInt32.not_le.mp hlow)
  · exact hlimits

theorem init_inv (configArc : Bool) (limits : ChipLimits) (bootFreq : UInt32) :
    Inv (initAiclkPPM configArc limits bootFreq) := by
  refine Inv.enableArbMax ⟨?_, fun hlimits _ => within_toNat hlimits UInt32.le_rfl,
    fun hlimits _ => within_toNat UInt32.le_rfl hlimits⟩ _ _
  have hmin : resetSafeFreq ≤ fmaxMin := by decide
  dsimp only
  split
  · exact UInt32.le_trans hmin (low_le_clamp (by decide))
  · decide

theorem arbitrate_within (h : Inv s) (hlimits : s.fmin ≤ s.fmax) :
    s.fmin ≤ (arbitrate s).freq ∧ (arbitrate s).freq ≤ s.fmax := by
  have hmin : s.fmin ≤ (getAiclkEffectiveArbMin s).1 ∧ (getAiclkEffectiveArbMin s).1 ≤ s.fmax :=
    effectiveArb_within (h.arbMin hlimits) ⟨UInt32.le_rfl, hlimits⟩ _
  have hmax : s.fmin ≤ (getAiclkEffectiveArbMax s).1 ∧ (getAiclkEffectiveArbMax s).1 ≤ s.fmax :=
    effectiveArb_within (h.arbMax hlimits) ⟨hlimits, UInt32.le_rfl⟩ _
  unfold arbitrate
  dsimp only
  split
  · exact hmax
  · exact hmin

theorem raiseToFloor_within {t : Target} (hlimits : s.fmin ≤ s.fmax)
    (hfloor : s.hostRequestedFmin ≤ s.fmax) (ht : s.fmin ≤ t.freq ∧ t.freq ≤ s.fmax) :
    s.fmin ≤ (raiseToFloor s t).freq ∧ (raiseToFloor s t).freq ≤ s.fmax := by
  unfold raiseToFloor
  split
  · unfold effectiveFminFloor
    split_ifs with hhost hgt
    · exact ⟨UInt32.le_rfl, hlimits⟩
    · exact ⟨UInt32.not_lt.mp hgt, hfloor⟩
    · exact ⟨UInt32.le_rfl, hlimits⟩
  · exact ht

/-- **The target stays within the chip limits**, if these are the right way round, the host's
floor is at most `fmax`, no frequency is forced and no sweep is active. During a reset it may
instead be 250 MHz, which is not above `fmax` either. -/
theorem targ_within_limits {configArc : Bool} {limits : ChipLimits} {bootFreq rand : UInt32}
    {as : List Action} (hrun : exec step (initAiclkPPM configArc limits bootFreq) as = some s)
    (hforced : s.forcedFreq = 0) (hsweep : s.sweepEn ≠ 1) (hlimits : s.fmin ≤ s.fmax)
    (hfloor : s.hostRequestedFmin ≤ s.fmax) :
    let targFreq := (calculateTargAiclk rand s).targFreq
    (s.fmin ≤ targFreq ∨ s.resetSafe = true ∧ targFreq = resetSafeFreq) ∧ targFreq ≤ s.fmax := by
  have hinv : Inv s :=
    exec_invariant (fun _ _ _ h hstep => step_inv h hstep) (init_inv configArc limits bootFreq) hrun
  have hraised := raiseToFloor_within hlimits hfloor (arbitrate_within hinv hlimits)
  have htarg : (calculateTargAiclk rand s).targFreq =
      (capResetSafe s (raiseToFloor s (arbitrate s))).freq := by
    show (capResetSafe s (applyForced s (applySweep rand s _))).freq = _
    rw [applyForced, if_neg (not_not.mpr hforced), applySweep, if_neg hsweep]
  dsimp only
  rw [htarg, capResetSafe]
  split
  · rename_i hcap
    exact ⟨.inr ⟨(Bool.and_eq_true_iff.mp hcap).1, rfl⟩, hinv.fmaxLow⟩
  · exact ⟨.inl hraised.1, hraised.2⟩

end

def narrowLimits : State := initAiclkPPM true ⟨800, 200⟩ 800

/-- A busy chip with a host floor of 700 MHz and a thermal limit of 600.5 MHz runs at
the floor. -/
theorem narrow_within_limits :
    ∃ s, exec step narrowLimits [.goBusy true false, .setArbMax .thm (.finite (1201 / 2)),
        .setHostFmin 700] = some s ∧
      (calculateTargAiclk 0 s).targFreq = 700 ∧
      ((s.fmin ≤ (calculateTargAiclk 0 s).targFreq ∨
        s.resetSafe = true ∧ (calculateTargAiclk 0 s).targFreq = resetSafeFreq) ∧
      (calculateTargAiclk 0 s).targFreq ≤ s.fmax) := by
  obtain ⟨s, hrun⟩ : ∃ s, exec step narrowLimits [.goBusy true false,
      .setArbMax .thm (.finite (1201 / 2)), .setHostFmin 700] = some s := ⟨_, rfl⟩
  obtain rfl := Option.some.inj hrun
  exact ⟨_, rfl, by decide +kernel, targ_within_limits hrun (by decide +kernel) (by decide +kernel)
    (by decide +kernel) (by decide +kernel)⟩

def targetAfter (limits : ChipLimits) (as : List Action) : Option (UInt32 × UInt32 × UInt32) :=
  (exec step (initAiclkPPM true limits 800) as).map fun s =>
    (s.fmin, s.fmax, (calculateTargAiclk 0 s).targFreq)

/-- With limits 200 and 800, an accepted floor of 1400 MHz is the target; a table with minimum
1400 and maximum 800 gives it with no message at all. -/
theorem floor_above_fmax :
    (handleCharSetHostFmin 1400 narrowLimits).1 = 0 ∧
      targetAfter ⟨800, 200⟩ [.setHostFmin 1400] = some (200, 800, 1400) ∧
      targetAfter ⟨800, 1400⟩ [] = some (1400, 800, 1400) := by
  decide +kernel

end SystemFirmware.Aiclk
