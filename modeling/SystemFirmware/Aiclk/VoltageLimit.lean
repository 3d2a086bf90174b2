import Mathlib.Algebra.Order.Ring.Rat
import Mathlib.Data.Rat.Cast.Order
import Mathlib.Order.Bounds.Defs
import SystemFirmware.Aiclk.Definitions
import SystemFirmware.Lib.Bisect

/-!
# AICLK arbitration — the highest frequency for a voltage

`GetMaxAiclkForVoltage` bisects the frequencies between `fmin` and `fmax + 1` for the
first one that needs more than the voltage, and returns the one before.

The loop computes in 32 bits. `low_freq + high_freq` does not wrap if `fmax + 1` is
below `2 ^ 31`, and then the loop is `Lib.bisect` (`searchFreq_eq`).
-/

namespace SystemFirmware.Aiclk

open Lib

-- ---
-- The search

section

variable (vfCurve : UInt32 → ℚ) (voltage : UInt32)

/-- The loop of `GetMaxAiclkForVoltage`, with a bound on its rounds. -/
def searchFreq : ℕ → UInt32 → UInt32 → Option UInt32
  | 0, _, _ => none
  | fuel + 1, lowFreq, highFreq =>
    if lowFreq < highFreq then
      let midFreq := (lowFreq + highFreq) / 2
      if vfCurve midFreq > voltage.toNat then searchFreq fuel lowFreq midFreq
      else searchFreq fuel (midFreq + 1) highFreq
    else some lowFreq

/-- `GetMaxAiclkForVoltage`; `none` means that the loop has not ended within `fuel`
rounds. -/
def getMaxAiclkForVoltage (fuel : ℕ) (s : State) : Option UInt32 :=
  (searchFreq vfCurve voltage fuel s.fmin (s.fmax + 1)).map (· - 1)

end

-- ---
-- The search is a bisection

section

variable {vfCurve : UInt32 → ℚ} {voltage lowFreq highFreq : UInt32}

def TooFast (vfCurve : UInt32 → ℚ) (voltage : UInt32) (freq : ℕ) : Prop :=
  vfCurve (UInt32.ofNat freq) > voltage.toNat

instance : DecidablePred (TooFast vfCurve voltage) := fun _ => Rat.instDecidableLt _ _

theorem toNat_mid (hle : lowFreq.toNat ≤ highFreq.toNat) (hhigh : highFreq.toNat < 2 ^ 31) :
    ((lowFreq + highFreq) / 2).toNat = (lowFreq.toNat + highFreq.toNat) / 2 := by
  rw [UInt32.toNat_div, UInt32.toNat_add, Nat.mod_eq_of_lt (by omega)]
  rfl

theorem searchFreq_eq {fuel : ℕ} (hle : lowFreq.toNat ≤ highFreq.toNat)
    (hhigh : highFreq.toNat < 2 ^ 31) :
    (searchFreq vfCurve voltage fuel lowFreq highFreq).map UInt32.toNat =
      bisect (TooFast vfCurve voltage) fuel lowFreq.toNat highFreq.toNat := by
  induction fuel generalizing lowFreq highFreq with
  | zero => rfl
  | succ fuel ih =>
    by_cases hlt : lowFreq < highFreq
    · have hlt' := UInt32.lt_iff_toNat_lt.mp hlt
      have hmid := toNat_mid hle hhigh
      obtain ⟨midFreq, hdef⟩ : ∃ midFreq, midFreq = (lowFreq + highFreq) / 2 := ⟨_, rfl⟩
      rw [← hdef] at hmid
      have hsucc : (midFreq + 1).toNat = midFreq.toNat + 1 := by
        rw [UInt32.toNat_add, UInt32.toNat_one, Nat.mod_eq_of_lt (by omega)]
      have hiff : vfCurve midFreq > voltage.toNat ↔ TooFast vfCurve voltage midFreq.toNat := by
        rw [TooFast, UInt32.ofNat_toNat]
      rw [searchFreq, bisect, if_pos hlt, if_pos hlt', ← hmid]
      simp only [← hdef]
      by_cases hfast : vfCurve midFreq > voltage.toNat
      · rw [if_pos hfast, if_pos (hiff.mp hfast)]
        exact ih (by omega) (by omega)
      · rw [if_neg hfast, if_neg fun h => hfast (hiff.mpr h), ← hsucc]
        exact ih (by omega) hhigh
    · have hlt' : ¬lowFreq.toNat < highFreq.toNat := fun h => hlt (UInt32.lt_iff_toNat_lt.mpr h)
      rw [searchFreq, bisect, if_neg hlt, if_neg hlt']
      rfl

end

-- ---
-- What the search finds

def affordable (vfCurve : UInt32 → ℚ) (s : State) (voltage : UInt32) : Set UInt32 :=
  { freq | s.fmin ≤ freq ∧ freq ≤ s.fmax ∧ vfCurve freq ≤ voltage.toNat }

def RisesBetween (vfCurve : UInt32 → ℚ) (fmin fmax : UInt32) : Prop :=
  ∀ f g, fmin ≤ f → f ≤ g → g ≤ fmax → vfCurve f ≤ vfCurve g

section

variable {vfCurve : UInt32 → ℚ} {voltage : UInt32} {s : State}

theorem RisesBetween.tooFast (hrises : RisesBetween vfCurve s.fmin s.fmax) {x y : ℕ}
    (hx : s.fmin.toNat ≤ x) (hxy : x ≤ y) (hy : y < s.fmax.toNat + 1)
    (hfast : TooFast vfCurve voltage x) : TooFast vfCurve voltage y := by
  have hmax := s.fmax.toNat_lt
  have hx' : (UInt32.ofNat x).toNat = x := UInt32.toNat_ofNat_of_lt' (show _ < 2 ^ 32 by omega)
  have hy' : (UInt32.ofNat y).toNat = y := UInt32.toNat_ofNat_of_lt' (show _ < 2 ^ 32 by omega)
  refine lt_of_lt_of_le hfast (hrises _ _ ?_ ?_ ?_)
  · rw [UInt32.le_iff_toNat_le, hx']
    exact hx
  · rw [UInt32.le_iff_toNat_le, hx', hy']
    exact hxy
  · rw [UInt32.le_iff_toNat_le, hy']
    omega

theorem isGreatest_or_empty {r : UInt32} (hmin : 1 ≤ s.fmin.toNat)
    (hsplit : Splits (TooFast vfCurve voltage) s.fmin.toNat (s.fmax.toNat + 1) r.toNat) :
    IsGreatest (affordable vfCurve s voltage) (r - 1) ∨
      affordable vfCurve s voltage = ∅ ∧ r - 1 = s.fmin - 1 := by
  have hlow := hsplit.le
  have hhigh := hsplit.le'
  have hpred : (r - 1).toNat = r.toNat - 1 :=
    UInt32.toNat_sub_of_le _ _ (UInt32.le_iff_toNat_le.mpr (Nat.le_trans hmin hlow))
  -- An affordable frequency is before the split.
  have hbelow : ∀ freq ∈ affordable vfCurve s voltage, freq.toNat < r.toNat := by
    intro freq hfreq
    obtain ⟨hge, hle, henough⟩ := hfreq
    by_contra hge'
    have hfast := hsplit.after freq.toNat (by omega)
      (Nat.lt_succ_of_le (UInt32.le_iff_toNat_le.mp hle))
    rw [TooFast, UInt32.ofNat_toNat] at hfast
    exact absurd henough (not_le.mpr hfast)
  rcases Nat.eq_or_lt_of_le hlow with heq | hlt
  · have hr : r = s.fmin := UInt32.toNat_inj.mp heq.symm
    refine .inr ⟨Set.eq_empty_iff_forall_notMem.mpr fun freq hfreq => ?_, by rw [hr]⟩
    have := UInt32.le_iff_toNat_le.mp hfreq.1
    have := hbelow freq hfreq
    omega
  · refine .inl ⟨⟨?_, ?_, ?_⟩, fun freq hfreq => ?_⟩
    · rw [UInt32.le_iff_toNat_le, hpred]
      omega
    · rw [UInt32.le_iff_toNat_le, hpred]
      omega
    · have henough := hsplit.before (r - 1).toNat (by omega) (by omega)
      rw [TooFast, UInt32.ofNat_toNat] at henough
      exact not_lt.mp henough
    · have := hbelow freq hfreq
      rw [UInt32.le_iff_toNat_le, hpred]
      omega

end

/-- **`GetMaxAiclkForVoltage` is right** on every curve that does not decrease between
the limits: it ends after at most one round more than there are frequencies, and
returns the greatest frequency the voltage is enough for, or `fmin - 1`. -/
theorem getMaxAiclkForVoltage_greatest (vfCurve : UInt32 → ℚ) (voltage : UInt32) (s : State)
    (hmin : 1 ≤ s.fmin.toNat) (hlimits : s.fmin ≤ s.fmax) (hmax : s.fmax.toNat < 2 ^ 31 - 1)
    (hrises : RisesBetween vfCurve s.fmin s.fmax) :
    ∃ freq, (∀ fuel, s.fmax.toNat - s.fmin.toNat + 1 < fuel →
        getMaxAiclkForVoltage vfCurve voltage fuel s = some freq) ∧
      (IsGreatest (affordable vfCurve s voltage) freq ∨
        affordable vfCurve s voltage = ∅ ∧ freq = s.fmin - 1) := by
  have hlimits' := UInt32.le_iff_toNat_le.mp hlimits
  have hsucc : (s.fmax + 1).toNat = s.fmax.toNat + 1 := by
    rw [UInt32.toNat_add, UInt32.toNat_one, Nat.mod_eq_of_lt (by omega)]
  -- Every run that has fuel enough finds a place that splits the range.
  have hrun : ∀ fuel, s.fmax.toNat - s.fmin.toNat + 1 < fuel → ∃ r,
      searchFreq vfCurve voltage fuel s.fmin (s.fmax + 1) = some r ∧
        Splits (TooFast vfCurve voltage) s.fmin.toNat (s.fmax.toNat + 1) r.toNat := by
    intro fuel hfuel
    obtain ⟨n, hbisect, hsplit⟩ := @bisect_spec (TooFast vfCurve voltage) _ fuel s.fmin.toNat
      (s.fmax.toNat + 1) (by omega) (by omega) fun x y hx hxy hy => hrises.tooFast hx hxy hy
    rw [← hsucc, ← searchFreq_eq (by omega) (by omega), Option.map_eq_some_iff] at hbisect
    obtain ⟨r, hr, rfl⟩ := hbisect
    exact ⟨r, hr, hsplit⟩
  obtain ⟨r, hr, hsplit⟩ := hrun (s.fmax.toNat - s.fmin.toNat + 2) (by omega)
  refine ⟨r - 1, fun fuel hfuel => ?_, isGreatest_or_empty hmin hsplit⟩
  obtain ⟨r', hr', hsplit'⟩ := hrun fuel hfuel
  rw [getMaxAiclkForVoltage, hr', UInt32.toNat_inj.mp (hsplit'.unique hsplit)]
  rfl

theorem getMaxAiclkForVoltage_line :
    ∃ freq, (∀ fuel, 1400 - 800 + 1 < fuel →
        getMaxAiclkForVoltage (fun f => f.toNat) 1000 fuel (initAiclkPPM true ⟨1400, 800⟩ 800) =
          some freq) ∧
      (IsGreatest (affordable (fun f => f.toNat) (initAiclkPPM true ⟨1400, 800⟩ 800) 1000) freq ∨
        affordable (fun f => f.toNat) (initAiclkPPM true ⟨1400, 800⟩ 800) 1000 = ∅ ∧
          freq = (initAiclkPPM true ⟨1400, 800⟩ 800).fmin - 1) :=
  getMaxAiclkForVoltage_greatest _ 1000 (initAiclkPPM true ⟨1400, 800⟩ 800) (by decide) (by decide)
    (by decide) fun _ _ _ hle _ => Nat.cast_le.mpr (UInt32.le_iff_toNat_le.mp hle)

end SystemFirmware.Aiclk
