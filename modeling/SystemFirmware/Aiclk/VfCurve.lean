import Mathlib.Algebra.Order.Field.Basic
import Mathlib.Tactic.FieldSimp
import Mathlib.Tactic.Linarith
import Mathlib.Tactic.NormNum
import Mathlib.Tactic.Ring
import SystemFirmware.Aiclk.VoltageLimit

/-!
# The VF curve — where it rises

`vf_curve.c`: the voltage a frequency needs, from the process fuse and the margins of
the firmware table. There are two curves, both quadratic: one for chips with the fuse,
with coefficients fitted to normalised values, and an older one. Constants and results
are exact rationals here.

`GetMaxAiclkForVoltage` assumes that the curve does not decrease, from 200 MHz on. But both
have their vertex at about 700 MHz (`vfCurve_le`).
-/

namespace SystemFirmware.VfCurve

open Aiclk

-- ---
-- The curve

def clampRat (val low high : ℚ) : ℚ :=
  if val ≤ low then low else if val < high then val else high

def freqMarginMax : ℚ := 300
def freqMarginMin : ℚ := -300
def voltageMarginMax : ℚ := 150
def voltageMarginMin : ℚ := -150

/-! The coefficients of the curve for chips with the fuse. -/

def vfIntercept : ℚ := 738.687863
def vfCoeffRo : ℚ := -9.399314
def vfCoeffFreq : ℚ := 52.359951
def vfCoeffRoSq : ℚ := -4.295651
def vfCoeffRoFreq : ℚ := 0
def vfCoeffFreqSq : ℚ := 8.560169

/-! What the fitted values were normalised with. -/

def roNormMean : ℚ := 2582.380952
def roNormStd : ℚ := 121.320464
def freqNormMean : ℚ := 1279.761905
def freqNormStd : ℚ := 189.567027

/-! The margins that depend on the process. -/

def roSsThreshold : ℚ := 2500
def freqThresholdMhz : ℚ := 1200
def ssMarginMv : ℚ := 20
def ffLowFreqMarginMv : ℚ := 0
def ffHighFreqMarginMv : ℚ := 20

/-! The coefficients of the older curve. -/

def vfQuadraticCoeff : ℚ := 0.00031395
def vfLinearCoeff : ℚ := -0.43953
def vfConstant : ℚ := 828.83

structure Curve where
  freqMarginMhz : ℚ
  fwTableVoltageMarginMv : ℚ
  useProcessVfCurve : Bool
  processIsSs : Bool
  vfRoBase : ℚ
  vfFreqLinear : ℚ

/-- `InitVFCurve`, from the fuse `PROCESS_RO` and the table's `frequency_margin` and
`voltage_margin`. The last two variables keep their initial 0 without the fuse. -/
def initVFCurve (processRo : UInt32) (frequencyMargin voltageMargin : Int32) : Curve :=
  let useProcess := processRo ≠ 0
  let roN := (processRo.toNat - roNormMean) / roNormStd
  { freqMarginMhz := clampRat frequencyMargin.toInt freqMarginMin freqMarginMax
    fwTableVoltageMarginMv := clampRat voltageMargin.toInt voltageMarginMin voltageMarginMax
    useProcessVfCurve := useProcess
    processIsSs := processRo.toNat < roSsThreshold
    vfRoBase :=
      if useProcess then vfIntercept + vfCoeffRo * roN + vfCoeffRoSq * roN * roN else 0
    vfFreqLinear := if useProcess then vfCoeffFreq + vfCoeffRoFreq * roN else 0 }

/-- The margin that `VFCurve` adds for chips with the fuse. -/
def Curve.voltageMargin (c : Curve) (freqMhz : ℚ) : ℚ :=
  if c.processIsSs then c.fwTableVoltageMarginMv + ssMarginMv
  else if freqMhz ≥ freqThresholdMhz then c.fwTableVoltageMarginMv + ffHighFreqMarginMv
  else c.fwTableVoltageMarginMv + ffLowFreqMarginMv

def Curve.vfCurve (c : Curve) (freqMhz : ℚ) : ℚ :=
  if c.useProcessVfCurve then
    let freqN := (freqMhz - freqNormMean) / freqNormStd
    let voltageMv := c.vfRoBase + c.vfFreqLinear * freqN + vfCoeffFreqSq * freqN * freqN
    voltageMv + c.voltageMargin freqMhz
  else
    let freqWithMarginMhz := freqMhz + c.freqMarginMhz
    let voltageMv := vfQuadraticCoeff * freqWithMarginMhz * freqWithMarginMhz +
      vfLinearCoeff * freqWithMarginMhz + vfConstant
    voltageMv + c.fwTableVoltageMarginMv

/-- What the curve adds to a frequency. -/
def Curve.shift (c : Curve) : ℚ := if c.useProcessVfCurve then 0 else c.freqMarginMhz

/-- The vertex of the parabola. -/
def Curve.vertex (c : Curve) : ℚ :=
  if c.useProcessVfCurve then freqNormMean - vfCoeffFreq * freqNormStd / (2 * vfCoeffFreqSq)
  else 700

-- ---
-- Quadratic functions

section

variable {a b c x y : ℚ}

theorem quadratic_sub :
    (a * y * y + b * y + c) - (a * x * x + b * x + c) = (y - x) * (a * (x + y) + b) := by
  ring

theorem quadratic_le_iff (hxy : x < y) :
    a * x * x + b * x + c ≤ a * y * y + b * y + c ↔ 0 ≤ a * (x + y) + b := by
  rw [← sub_nonneg, quadratic_sub, mul_nonneg_iff_of_pos_left (sub_pos.mpr hxy)]

end

-- ---
-- The two curves

section

variable {c : Curve} {f g : ℚ}

theorem vfCurve_legacy (hold : c.useProcessVfCurve = false) (freqMhz : ℚ) :
    c.vfCurve freqMhz = vfQuadraticCoeff * (freqMhz + c.freqMarginMhz) * (freqMhz + c.freqMarginMhz) +
      vfLinearCoeff * (freqMhz + c.freqMarginMhz) + (vfConstant + c.fwTableVoltageMarginMv) := by
  simp only [Curve.vfCurve, hold, Bool.false_eq_true, if_false]
  ring

theorem legacy_slope :
    vfQuadraticCoeff * ((f + c.freqMarginMhz) + (g + c.freqMarginMhz)) + vfLinearCoeff =
      vfQuadraticCoeff * (f + g + 2 * c.freqMarginMhz - 1400) := by
  rw [vfLinearCoeff, vfQuadraticCoeff]
  ring

theorem vfCurve_process (hnew : c.useProcessVfCurve = true) (freqMhz : ℚ) :
    c.vfCurve freqMhz =
      (vfCoeffFreqSq * ((freqMhz - freqNormMean) / freqNormStd) *
          ((freqMhz - freqNormMean) / freqNormStd) +
        c.vfFreqLinear * ((freqMhz - freqNormMean) / freqNormStd) + c.vfRoBase) +
          c.voltageMargin freqMhz := by
  simp only [Curve.vfCurve, hnew, if_true]
  ring

/-- The fuse has no part in the slope: its coefficient `VF_COEFF_RO_FREQ` is 0. -/
theorem vfFreqLinear_init {processRo : UInt32} {frequencyMargin voltageMargin : Int32}
    (hnew : (initVFCurve processRo frequencyMargin voltageMargin).useProcessVfCurve = true) :
    (initVFCurve processRo frequencyMargin voltageMargin).vfFreqLinear = vfCoeffFreq := by
  have hfuse : processRo ≠ 0 := of_decide_eq_true hnew
  show (if processRo ≠ 0 then _ else _) = _
  rw [if_pos hfuse, vfCoeffRoFreq, zero_mul, add_zero]

theorem freqNormStd_pos : 0 < freqNormStd := by
  norm_num [freqNormStd]

theorem normFreq_lt (hfg : f < g) :
    (f - freqNormMean) / freqNormStd < (g - freqNormMean) / freqNormStd :=
  div_lt_div_of_pos_right (sub_lt_sub_right hfg _) freqNormStd_pos

theorem process_slope (hnew : c.useProcessVfCurve = true) :
    0 ≤ vfCoeffFreqSq * ((f - freqNormMean) / freqNormStd + (g - freqNormMean) / freqNormStd) +
        vfCoeffFreq ↔
      c.vertex ≤ (f + g) / 2 := by
  have hslope : vfCoeffFreqSq * ((f - freqNormMean) / freqNormStd + (g - freqNormMean) / freqNormStd) +
        vfCoeffFreq = (2 * vfCoeffFreqSq / freqNormStd) * ((f + g) / 2 - c.vertex) := by
    rw [Curve.vertex, if_pos hnew, vfCoeffFreqSq, freqNormStd]
    field_simp
    ring
  rw [hslope, mul_nonneg_iff_of_pos_left (by norm_num [vfCoeffFreqSq, freqNormStd]), sub_nonneg]

theorem voltageMargin_le (hfg : f ≤ g) : c.voltageMargin f ≤ c.voltageMargin g := by
  rw [Curve.voltageMargin, Curve.voltageMargin]
  split_ifs
  · exact le_rfl
  · exact le_rfl
  · linarith
  · rw [ffHighFreqMarginMv, ffLowFreqMarginMv]
    linarith
  · exact le_rfl

/-- The margin grows at 1200 MHz only, where frequencies from 200 MHz on are in mean behind the
vertex. -/
theorem voltageMargin_eq (hnew : c.useProcessVfCurve = true) (hlo : 200 ≤ f) (hfg : f ≤ g)
    (hmean : (f + g) / 2 < c.vertex) : c.voltageMargin f = c.voltageMargin g := by
  have hlow : g < freqThresholdMhz := by
    rw [Curve.vertex, if_pos hnew] at hmean
    norm_num only [vfCoeffFreqSq, freqNormMean, vfCoeffFreq, freqNormStd, freqThresholdMhz] at hmean ⊢
    linarith
  rw [Curve.voltageMargin, Curve.voltageMargin, if_neg (not_le.mpr hlow),
    if_neg (not_le.mpr (hfg.trans_lt hlow))]

end

-- ---
-- Rising and falling

section

variable (processRo : UInt32) (frequencyMargin voltageMargin : Int32) {f g : ℚ}

/-- **Where the curve rises.** For every fuse and every margin, and frequencies from 200 MHz on, it
does not decrease from one to another exactly if their mean, with the margin the older curve adds,
is not below the vertex. -/
theorem vfCurve_le (hlo : 200 ≤ f) (hfg : f ≤ g) :
    (initVFCurve processRo frequencyMargin voltageMargin).vfCurve f ≤
        (initVFCurve processRo frequencyMargin voltageMargin).vfCurve g ↔
      f = g ∨ (initVFCurve processRo frequencyMargin voltageMargin).vertex ≤
        (f + g) / 2 + (initVFCurve processRo frequencyMargin voltageMargin).shift := by
  rcases hfg.eq_or_lt with rfl | hlt
  · exact iff_of_true le_rfl (.inl rfl)
  rw [or_iff_right hlt.ne]
  by_cases hnew : (initVFCurve processRo frequencyMargin voltageMargin).useProcessVfCurve = true
  · rw [Curve.shift, if_pos hnew, add_zero, vfCurve_process hnew, vfCurve_process hnew,
      vfFreqLinear_init hnew]
    by_cases hmean : (initVFCurve processRo frequencyMargin voltageMargin).vertex ≤ (f + g) / 2
    · exact iff_of_true (add_le_add ((quadratic_le_iff (normFreq_lt hlt)).mpr
        ((process_slope hnew).mpr hmean)) (voltageMargin_le hfg)) hmean
    · rw [voltageMargin_eq hnew hlo hfg (not_le.mp hmean), add_le_add_iff_right,
        quadratic_le_iff (normFreq_lt hlt), process_slope hnew]
  · rw [Curve.shift, Curve.vertex, if_neg hnew, if_neg hnew, vfCurve_legacy (Bool.not_eq_true _ ▸ hnew),
      vfCurve_legacy (Bool.not_eq_true _ ▸ hnew), quadratic_le_iff (by linarith), legacy_slope,
      mul_nonneg_iff_of_pos_left (by norm_num [vfQuadraticCoeff])]
    constructor <;> intro h <;> linarith

end

theorem vfCurve_le_650_1300 :
    (initVFCurve 0 100 0).vertex ≤ (650 + 1300) / 2 + (initVFCurve 0 100 0).shift ∧
      (initVFCurve 0 100 0).vfCurve 650 ≤ (initVFCurve 0 100 0).vfCurve 1300 := by
  have hmean : (initVFCurve 0 100 0).vertex ≤ (650 + 1300) / 2 + (initVFCurve 0 100 0).shift := by
    decide +kernel
  exact ⟨hmean, (vfCurve_le 0 100 0 (by norm_num) (by norm_num)).mpr (.inr hmean)⟩

/-- With no margins, 201 MHz needs less voltage than 200 MHz, with the fuse and without. The
search for 676 mV finds no frequency, though 700 MHz needs only that much. -/
theorem slow_curve_falls :
    (initVFCurve 0 0 0).vfCurve 201 < (initVFCurve 0 0 0).vfCurve 200 ∧
      (initVFCurve 2582 0 0).vfCurve 201 < (initVFCurve 2582 0 0).vfCurve 200 ∧
      getMaxAiclkForVoltage (fun f => (initVFCurve 0 0 0).vfCurve f.toNat) 676 20
        (initAiclkPPM true ⟨1400, 200⟩ 800) = some 199 ∧
      (initVFCurve 0 0 0).vfCurve 700 ≤ 676 := by
  decide +kernel

end SystemFirmware.VfCurve
