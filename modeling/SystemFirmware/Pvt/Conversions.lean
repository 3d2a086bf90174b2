import Mathlib.Algebra.Order.Floor.Ring
import Mathlib.Data.Rat.Floor
import Mathlib.Tactic.FieldSimp
import Mathlib.Tactic.Linarith
import Mathlib.Tactic.NormNum
import Mathlib.Tactic.Ring

/-!
# PVT — codes and quantities

The conversions of `drivers/sensor/tenstorrent/pvt/pvt_tt_bh_decoder.c`, with rationals for
floats.

In the offset of a voltage `raw_to_volt` divides `3 / 256` as integers and `volt_to_raw` as
floats. The difference is 32 codes (`Quantity.shift`, `round_trip_near`).
-/

namespace SystemFirmware.Pvt

/-- The end of each conversion to a code: clamp, add a half and truncate. -/
def clampRound (rawF : ℚ) : UInt16 :=
  let rawF := if rawF < 0 then 0 else rawF
  let rawF := if rawF > 65535 then 65535 else rawF
  .ofNat ⌊rawF + 1 / 2⌋₊

def rawToTemp (raw : UInt16) : ℚ :=
  let eqbs : ℚ := raw.toNat / 4096 - 1 / 2
  83.09 + 262.5 * eqbs

def tempToRaw (temp : ℚ) : UInt16 :=
  let eqbs := (temp - 83.09) / 262.5
  clampRound ((eqbs + 1 / 2) * 4096)

def vmVref : ℚ := 1.2207

/-- `pvt_tt_bh_raw_to_volt`; the bracket in the offset is of integers. -/
def rawToVolt (raw : UInt16) : ℚ :=
  let k1 := vmVref * 6 / (5 * 16384)
  let offset := vmVref / 5 * (3 / 256 + 1 : ℤ)
  k1 * raw.toNat - offset

def voltToRaw (volt : ℚ) : UInt16 :=
  let k1 := vmVref * 6 / (5 * 16384)
  let offset := vmVref / 5 * (3 / 256 + 1)
  clampRound ((volt + offset) / k1)

def rawToFreq (raw : UInt16) : ℚ := raw.toNat * 4 * 1 * 5 / 255

def freqToRaw (freq : ℚ) : UInt16 := clampRound (freq * 255 / (4 * 1 * 5))

/-- What the three kinds of sensors measure. -/
inductive Quantity
  | temp | volt | freq
  deriving DecidableEq

def Quantity.ofRaw : Quantity → UInt16 → ℚ
  | .temp => rawToTemp
  | .volt => rawToVolt
  | .freq => rawToFreq

def Quantity.toRaw : Quantity → ℚ → UInt16
  | .temp => tempToRaw
  | .volt => voltToRaw
  | .freq => freqToRaw

def Quantity.step (q : Quantity) : ℚ := q.ofRaw 1 - q.ofRaw 0

/-- By how many codes the two directions differ. -/
def Quantity.shift : Quantity → ℚ
  | .volt => 32
  | _ => 0

-- ---
-- Both directions are affine

theorem toNat_one : (1 : UInt16).toNat = 1 := rfl

theorem Quantity.step_pos (q : Quantity) : 0 < q.step := by
  cases q <;> norm_num [step, ofRaw, rawToTemp, rawToVolt, rawToFreq, vmVref, toNat_one]

theorem Quantity.ofRaw_eq (q : Quantity) (raw : UInt16) :
    q.ofRaw raw = q.ofRaw 0 + q.step * raw.toNat := by
  cases q <;> norm_num [step, ofRaw, rawToTemp, rawToVolt, rawToFreq, vmVref, toNat_one] <;> ring

theorem Quantity.toRaw_eq (q : Quantity) (r : ℚ) :
    q.toRaw (q.ofRaw 0 + q.step * r) = clampRound (r + q.shift) := by
  cases q <;> norm_num [step, ofRaw, toRaw, shift, rawToTemp, rawToVolt, rawToFreq, tempToRaw,
    voltToRaw, freqToRaw, vmVref, toNat_one] <;> congr 1 <;> ring

-- ---
-- Rounding

theorem clampRound_near {f : ℚ} (hf : 0 ≤ f) :
    |((clampRound f).toNat : ℚ) - min f 65535| ≤ 1 / 2 := by
  obtain ⟨g, hg⟩ : ∃ g, min f 65535 = g := ⟨_, rfl⟩
  have hcode : clampRound f = .ofNat ⌊g + 1 / 2⌋₊ := by
    simp only [clampRound, ← hg, gt_iff_lt, ← not_le, ite_not, min_def, if_pos hf]
  have hlo : 0 ≤ g := hg ▸ le_min hf (by norm_num)
  have hhi : g ≤ 65535 := hg ▸ min_le_right _ _
  have hfloor := Nat.floor_le (show 0 ≤ g + 1 / 2 by linarith)
  have hnext := Nat.lt_floor_add_one (g + 1 / 2)
  have hfits : ⌊g + 1 / 2⌋₊ < UInt16.size :=
    (Nat.floor_lt (by linarith)).mpr (by norm_num [UInt16.size]; linarith)
  rw [hg, hcode, UInt16.toNat_ofNat_of_lt' hfits, abs_le]
  constructor <;> linarith

theorem eq_of_near {m n : ℕ} (h : |(m : ℚ) - n| ≤ 1 / 2) : m = n := by
  have hlt : |(m : ℚ) - n| < 1 := h.trans_lt (by norm_num)
  have hint : |(m : ℤ) - n| < 1 := by exact_mod_cast hlt
  have := Int.abs_lt_one_iff.mp hint
  omega

/-- The code that comes back is near, for a voltage only where it is clamped to the last one. -/
theorem Quantity.code_near_iff {q : Quantity} {r : ℚ} (h0 : 0 ≤ r) (hmax : r ≤ 65535) :
    |((clampRound (r + q.shift)).toNat : ℚ) - r| ≤ 1 / 2 ↔ (q = .volt → 65535 - 1 / 2 ≤ r) := by
  have hshift : 0 ≤ q.shift := by cases q <;> norm_num [shift]
  have hnear := clampRound_near (add_nonneg h0 hshift)
  by_cases hq : q = .volt
  · have hcodes : q.shift = 32 := by rw [hq, shift]
    rw [imp_iff_right hq, hcodes]
    rw [hcodes] at hnear
    rcases le_total (r + 32) 65535 with hle | hge
    · rw [min_eq_left hle] at hnear
      have hbounds := abs_le.mp hnear
      refine iff_of_false (fun hback => ?_) (by linarith)
      have hbounds' := abs_le.mp hback
      linarith [hbounds.1, hbounds'.2]
    · rw [min_eq_right hge] at hnear
      have hcode := eq_of_near (n := 65535) (by exact_mod_cast hnear)
      rw [hcode, abs_le]
      push_cast
      exact ⟨fun h => by linarith [h.2], fun h => ⟨by linarith, by linarith⟩⟩
  · have hzero : q.shift = 0 := by cases q <;> simp_all [shift]
    rw [hzero, add_zero] at hnear ⊢
    rw [min_eq_left hmax] at hnear
    exact iff_of_true hnear fun h => absurd h hq

/-- **When a conversion there and back stays within half a code step**, so that a code survives it:
for a temperature or a process frequency always, for a voltage exactly in the last half step of its
range. -/
theorem round_trip_near (q : Quantity) {x : ℚ} (hlo : q.ofRaw 0 ≤ x) (hhi : x ≤ q.ofRaw 65535) :
    (|q.ofRaw (q.toRaw x) - x| ≤ q.step / 2 ∧ ∀ raw, x = q.ofRaw raw → q.toRaw x = raw) ↔
      (q = .volt → q.ofRaw 65535 - q.step / 2 ≤ x) := by
  have hstep := q.step_pos
  obtain ⟨r, rfl⟩ : ∃ r, x = q.ofRaw 0 + q.step * r :=
    ⟨(x - q.ofRaw 0) / q.step, by field_simp; ring⟩
  rw [q.ofRaw_eq 65535, show (65535 : UInt16).toNat = 65535 from rfl] at hhi ⊢
  push_cast at hhi ⊢
  have h0 : 0 ≤ r := by rwa [le_add_iff_nonneg_right, mul_nonneg_iff_of_pos_left hstep] at hlo
  have hmax : r ≤ 65535 := by rwa [add_le_add_iff_left, mul_le_mul_iff_right₀ hstep] at hhi
  have hlast : q.ofRaw 0 + q.step * 65535 - q.step / 2 ≤ q.ofRaw 0 + q.step * r ↔
      65535 - 1 / 2 ≤ r := by
    rw [show q.ofRaw 0 + q.step * 65535 - q.step / 2 = q.ofRaw 0 + q.step * (65535 - 1 / 2) by ring,
      add_le_add_iff_left, mul_le_mul_iff_right₀ hstep]
  have hback : |q.ofRaw (clampRound (r + q.shift)) - (q.ofRaw 0 + q.step * r)| ≤ q.step / 2 ↔
      |((clampRound (r + q.shift)).toNat : ℚ) - r| ≤ 1 / 2 := by
    rw [q.ofRaw_eq, add_sub_add_left_eq_sub, ← mul_sub, abs_mul, abs_of_pos hstep,
      show q.step / 2 = q.step * (1 / 2) by ring, mul_le_mul_iff_right₀ hstep]
  rw [q.toRaw_eq, hlast, hback, ← q.code_near_iff h0 hmax]
  refine and_iff_left_of_imp fun hnear raw hraw => ?_
  rw [q.ofRaw_eq raw, add_right_inj, mul_right_inj' hstep.ne'] at hraw
  rw [hraw] at hnear ⊢
  exact UInt16.toNat.inj (eq_of_near hnear)

theorem round_trip_near_temp : |rawToTemp (tempToRaw 25) - 25| ≤ Quantity.temp.step / 2 :=
  ((round_trip_near .temp (by decide +kernel) (by decide +kernel)).mpr nofun).1

/-- The voltage of code 0 is converted to code 32. -/
theorem volt_code_shifted :
    Quantity.volt.toRaw (Quantity.volt.ofRaw 0) = 32 ∧ ¬ |Quantity.volt.ofRaw
      (Quantity.volt.toRaw (Quantity.volt.ofRaw 0)) - Quantity.volt.ofRaw 0| ≤
        Quantity.volt.step / 2 := by
  decide +kernel

end SystemFirmware.Pvt
