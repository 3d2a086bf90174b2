import Mathlib.Algebra.Ring.Nat
import SystemFirmware.Aiclk.Limits

/-!
# AICLK arbitration — sweeps

While a sweep is on, `CalculateTargAiclk` takes a random frequency between `sweep_low` and
`sweep_high`. `SweepAiclkHandler` rejects a bound of 0 and clamps the others on one side
only: `sweep_low` to `fmin` from below, `sweep_high` to `fmax` from above (`sweep_within`).
-/

namespace SystemFirmware.Aiclk

open Lib

/-- The number `CalculateTargAiclk` divides by. -/
def sweepDivisor (s : State) : UInt32 := s.sweepHigh - s.sweepLow + 1

-- ---
-- The bounds of a sweep

def SameBounds (s t : State) : Prop :=
  t.fmin = s.fmin ∧ t.fmax = s.fmax ∧ t.sweepLow = s.sweepLow ∧ t.sweepHigh = s.sweepHigh

section

variable {s t u : State} {a : Action} {as : List Action}

theorem step_sameBounds (ha : acceptsSweep a = false) (hstep : step s a = some t) :
    SameBounds s t := by
  refine step_arbiter_rule (P := SameBounds s) ?_ (fun _ _ _ h => h) (fun _ _ _ h => h)
    (fun _ _ _ h => h) (fun _ _ _ h => h) ⟨rfl, rfl, rfl, rfl⟩ hstep
  intro u v hu hfmax hfmin _ _ hsweep
  obtain ⟨hlow, hhigh⟩ := hsweep ha
  exact ⟨hfmin.trans hu.1, hfmax.trans hu.2.1, hlow.trans hu.2.2.1, hhigh.trans hu.2.2.2⟩

theorem run_sameBounds (has : ∀ a ∈ as, acceptsSweep a = false) (hrun : exec step s as = some t) :
    SameBounds s t := by
  refine exec_invariant_along (fun m a m' hm ha hstep => ?_) ⟨rfl, rfl, rfl, rfl⟩
    (along_of_forall_mem has) hrun
  obtain ⟨hfmin, hfmax, hlow, hhigh⟩ := step_sameBounds ha hstep
  exact ⟨hfmin.trans hm.1, hfmax.trans hm.2.1, hlow.trans hm.2.2.1, hhigh.trans hm.2.2.2⟩

theorem targFreq_sweep {rand : UInt32} (hsweep : s.sweepEn = 1) (hforced : s.forcedFreq = 0)
    (hreset : s.resetSafe = false) :
    (calculateTargAiclk rand s).targFreq = rand % sweepDivisor s + s.sweepLow := by
  show (capResetSafe s (applyForced s (applySweep rand s _))).freq = _
  rw [applyForced, if_neg (not_not.mpr hforced), applySweep, if_pos hsweep, capResetSafe, hreset]
  rfl

end

-- ---
-- A random number between two bounds

section

variable {low high rand : UInt32}

theorem toNat_divisor (hle : low ≤ high) (hhigh : high.toNat < 2 ^ 32 - 1) :
    (high - low + 1).toNat = high.toNat - low.toNat + 1 := by
  have hsub := UInt32.toNat_sub_of_le high low hle
  rw [UInt32.toNat_add, hsub, UInt32.toNat_one, Nat.mod_eq_of_lt (by omega)]

theorem random_between (hle : low ≤ high) (hhigh : high.toNat < 2 ^ 32 - 1) :
    low ≤ rand % (high - low + 1) + low ∧ rand % (high - low + 1) + low ≤ high := by
  have hle' := UInt32.le_iff_toNat_le.mp hle
  have hlt : rand.toNat % (high.toNat - low.toNat + 1) < high.toNat - low.toNat + 1 :=
    Nat.mod_lt _ (Nat.succ_pos _)
  have hsum : (rand % (high - low + 1) + low).toNat =
      rand.toNat % (high.toNat - low.toNat + 1) + low.toNat := by
    rw [UInt32.toNat_add, UInt32.toNat_mod, toNat_divisor hle hhigh, Nat.mod_eq_of_lt (by omega)]
  rw [UInt32.le_iff_toNat_le, UInt32.le_iff_toNat_le, hsum]
  omega

end

-- ---
-- Accepted requests

theorem sweepAiclkHandler_start {s s₁ : State} {sweepLow sweepHigh : UInt32}
    (hstart : sweepAiclkHandler true sweepLow sweepHigh s = (0, s₁)) :
    s₁.fmin = s.fmin ∧ s₁.fmax = s.fmax ∧
      (s.fmin ≤ s₁.sweepLow ∧ sweepLow ≤ s₁.sweepLow) ∧
      (s₁.sweepHigh ≤ s.fmax ∧ s₁.sweepHigh ≤ sweepHigh) ∧
      (sweepLow ≤ sweepHigh → sweepLow ≤ s.fmax → s.fmin ≤ sweepHigh → s.fmin ≤ s.fmax →
        s₁.sweepLow ≤ s₁.sweepHigh) := by
  unfold sweepAiclkHandler at hstart
  rw [if_pos rfl] at hstart
  split at hstart
  · exact absurd (congrArg Prod.fst hstart) (by show (1 : UInt8) ≠ 0; decide)
  · obtain rfl := (Prod.mk.inj hstart).2
    refine ⟨rfl, rfl, ?_, ?_, ?_⟩
    all_goals
      simp only [UInt32.le_iff_toNat_le, UInt32.lt_iff_toNat_lt, gt_iff_lt]
      split_ifs <;> omega

/-- **A sweep is safe** exactly if its request is the right way round and overlaps the limits:
until the next accepted start, the divisor is not 0, and the target is within the limits and the
request, for every random number. -/
theorem sweep_within {s s₁ t : State} {sweepLow sweepHigh : UInt32} {as : List Action}
    (hlimits : s.fmin ≤ s.fmax) (hmax : s.fmax ≤ 1400)
    (hstart : sweepAiclkHandler true sweepLow sweepHigh s = (0, s₁))
    (has : ∀ a ∈ as, acceptsSweep a = false) (hrun : exec step s₁ as = some t)
    (hsweep : t.sweepEn = 1) (hforced : t.forcedFreq = 0) (hreset : t.resetSafe = false) :
    (sweepLow ≤ sweepHigh ∧ sweepLow ≤ s.fmax ∧ s.fmin ≤ sweepHigh) ↔
      ∀ rand, sweepDivisor t ≠ 0 ∧
        (s.fmin ≤ (calculateTargAiclk rand t).targFreq ∧
          (calculateTargAiclk rand t).targFreq ≤ s.fmax) ∧
        sweepLow ≤ (calculateTargAiclk rand t).targFreq ∧
          (calculateTargAiclk rand t).targFreq ≤ sweepHigh := by
  simp only [targFreq_sweep hsweep hforced hreset]
  constructor
  · rintro ⟨hrequest, hlow, hhigh⟩ rand
    obtain ⟨-, -, ⟨hfmin, hlow'⟩, ⟨hfmax, hhigh'⟩, hord⟩ := sweepAiclkHandler_start hstart
    obtain ⟨-, -, hsameLow, hsameHigh⟩ := run_sameBounds has hrun
    have hordered : t.sweepLow ≤ t.sweepHigh := by
      rw [hsameLow, hsameHigh]
      exact hord hrequest hlow hhigh hlimits
    have hsmall : t.sweepHigh.toNat < 2 ^ 32 - 1 := by
      have hle := UInt32.le_iff_toNat_le.mp (UInt32.le_trans (hsameHigh ▸ hfmax) hmax)
      rw [show (1400 : UInt32).toNat = 1400 from rfl] at hle
      omega
    obtain ⟨hge, hle⟩ := @random_between t.sweepLow t.sweepHigh rand hordered hsmall
    rw [← hsameLow] at hfmin hlow'
    rw [← hsameHigh] at hfmax hhigh'
    refine ⟨?_, ⟨UInt32.le_trans hfmin hge, UInt32.le_trans hle hfmax⟩, UInt32.le_trans hlow' hge,
      UInt32.le_trans hle hhigh'⟩
    rw [sweepDivisor, ne_eq, ← UInt32.toNat_inj, toNat_divisor hordered hsmall]
    exact Nat.succ_ne_zero _
  · -- with the random number 0 the target is the stored `sweep_low`
    intro hall
    obtain ⟨-, ⟨hfmin, hfmax⟩, hlow, hhigh⟩ := hall 0
    exact ⟨UInt32.le_trans hlow hhigh, UInt32.le_trans hlow hfmax, UInt32.le_trans hfmin hhigh⟩

def wideLimits : State := initAiclkPPM true ⟨1400, 200⟩ 800

theorem sweep_within_100_600 : ∃ s₁ t,
    sweepAiclkHandler true 100 600 wideLimits = (0, s₁) ∧
      exec step s₁ [.goBusy true true] = some t ∧ sweepDivisor t ≠ 0 ∧
      (wideLimits.fmin ≤ (calculateTargAiclk 7 t).targFreq ∧
        (calculateTargAiclk 7 t).targFreq ≤ wideLimits.fmax) ∧
      100 ≤ (calculateTargAiclk 7 t).targFreq ∧ (calculateTargAiclk 7 t).targFreq ≤ 600 := by
  refine ⟨_, _, rfl, rfl, ?_⟩
  exact (@sweep_within wideLimits _ _ 100 600 [.goBusy true true] (by decide) (by decide) rfl
    (by decide) rfl rfl rfl rfl).mp (by decide) 7

def afterSweep (sweepLow sweepHigh rand : UInt32) : UInt8 × UInt32 × UInt32 :=
  let started := sweepAiclkHandler true sweepLow sweepHigh wideLimits
  (started.1, sweepDivisor started.2, (calculateTargAiclk rand started.2).targFreq)

/-- From 801 down to 800 the divisor is 0, from 1000 down to 500 the target 5000, and from 1500 to
1600 it is 1500, above `fmax`. -/
theorem sweep_reversed :
    (afterSweep 801 800 0).1 = 0 ∧ (afterSweep 801 800 0).2.1 = 0 ∧
      afterSweep 1000 500 4000 = (0, 4294966797, 5000) ∧
      afterSweep 1500 1600 0 = (0, 4294967197, 1500) := by
  decide +kernel

end SystemFirmware.Aiclk
