import Mathlib.Algebra.Order.Field.Basic
import Mathlib.Algebra.Order.Field.Power
import Mathlib.Data.Rat.Cast.Order
import Mathlib.Order.Bounds.Basic
import Mathlib.Tactic.FieldSimp
import Mathlib.Tactic.Linarith
import Mathlib.Tactic.NormNum
import Mathlib.Tactic.Ring
import SystemFirmware.Lib.Except

/-!
# Telemetry sensor — fixed-point values

`bh_arc_telem_raw_to_micro` and `bh_arc_telem_micro_to_q31` of
`drivers/sensor/tenstorrent/bh_arc_telem/bh_arc_telem.c`. Every 64-bit result is checked:
an overflow is an error of its own. Both divisions truncate, and each loses less than one
unit of its result (`q31_accurate`).
-/

namespace SystemFirmware.BhArcTelem

open Lib

/-- Why a call gives no value. -/
inductive Fault
  /-- A 64-bit overflow. -/
  | overflow
  /-- A read behind the last sample. -/
  | outOfBounds
  | einval | enodata | enotsup | eio | erange
  /-- An error of the SMBus driver. -/
  | smbus (rc : ℤ)
  deriving DecidableEq

/-- The result of a 64-bit operation. -/
def int64 (z : ℤ) : Except Fault ℤ :=
  if -2 ^ 63 ≤ z ∧ z < 2 ^ 63 then .ok z else .error .overflow

def tagAsicTemperature : UInt8 := 11

def rawToMicro (telemTag : UInt8) (scaleMicro raw : BitVec 32) : Except Fault ℤ :=
  if telemTag = tagAsicTemperature then do
    let product ← int64 (raw.toInt * 1000000)
    pure (product.tdiv 65536)
  else int64 (raw.toInt * scaleMicro.toInt)

/-- The loop of `bh_arc_telem_micro_to_q31`, when the shift is `30 - left`. -/
def selectShift (magnitude : ℤ) : (left : ℕ) → Except Fault ℕ
  | 0 => .ok 30
  | left + 1 => do
    let limit ← int64 (2 ^ (30 - (left + 1)) * 1000000)
    if magnitude ≥ limit then selectShift magnitude left else .ok (30 - (left + 1))

/-- `bh_arc_telem_micro_to_q31`: the value and the shift. -/
def microToQ31 (micro : ℤ) : Except Fault (ℤ × ℕ) := do
  let magnitude ← int64 (if micro < 0 then -micro else micro)
  let shift ← selectShift magnitude 30
  let product ← int64 (micro * 2 ^ (31 - shift))
  let scaled := product.tdiv 1000000
  if scaled > 2 ^ 31 - 1 ∨ scaled < -2 ^ 31 then .error .erange else .ok (scaled, shift)

/-- What a reading stands for. -/
def q31Value (reading : ℤ × ℕ) : ℚ := reading.1 * 2 ^ ((reading.2 : ℤ) - 31)

theorem int64_ok {z : ℤ} (h : |z| < 2 ^ 63) : int64 z = .ok z :=
  if_pos ⟨(neg_le_of_abs_le h.le), (abs_lt.mp h).2⟩

theorem abs_tdiv_mul_sub_lt (z : ℤ) {d : ℤ} (hd : 0 < d) : |z.tdiv d * d - z| < d := by
  have hmod := Int.tdiv_mul_add_tmod z d
  have hlo := Int.lt_tmod_of_pos z hd
  have hhi := Int.tmod_lt_of_pos z hd
  rw [abs_lt]
  omega

variable {magnitude : ℤ}

theorem selectShift_least (hmax : magnitude < 2 ^ 30 * 1000000) {left : ℕ} (hleft : left ≤ 30)
    (hbelow : ∀ t < 30 - left, 2 ^ t * 1000000 ≤ magnitude) :
    ∃ s ≤ 30, selectShift magnitude left = .ok s ∧
      IsLeast {s : ℕ | magnitude < 2 ^ s * 1000000} s := by
  have hleast : ∀ s, magnitude < 2 ^ s * 1000000 → (∀ t < s, 2 ^ t * 1000000 ≤ magnitude) →
      IsLeast {s : ℕ | magnitude < 2 ^ s * 1000000} s := fun s hs hlow =>
    ⟨hs, fun t ht => not_lt.mp fun hlt => (hlow t hlt).not_gt ht⟩
  induction left with
  | zero => exact ⟨30, le_rfl, rfl, hleast 30 hmax hbelow⟩
  | succ left ih =>
    have hpow : (2 : ℤ) ^ (30 - (left + 1)) ≤ 2 ^ 30 := pow_le_pow_right₀ (by norm_num) (by omega)
    have hpos : (0 : ℤ) < 2 ^ (30 - (left + 1)) := by positivity
    have hlimit : int64 (2 ^ (30 - (left + 1)) * 1000000) = .ok (2 ^ (30 - (left + 1)) * 1000000) :=
      int64_ok (by rw [abs_of_pos (by positivity)]; omega)
    by_cases hge : magnitude ≥ 2 ^ (30 - (left + 1)) * 1000000
    · obtain ⟨s, hs, hrun, hrest⟩ := ih (by omega) fun t ht => by
        rcases (show t < 30 - (left + 1) ∨ t = 30 - (left + 1) by omega) with hlt | rfl
        · exact hbelow t hlt
        · exact hge
      refine ⟨s, hs, ?_, hrest⟩
      rw [selectShift, hlimit]
      exact (if_pos hge).trans hrun
    · refine ⟨30 - (left + 1), by omega, ?_, hleast _ (not_le.mp hge) hbelow⟩
      rw [selectShift, hlimit]
      exact if_neg hge

theorem abs_div_sub_div_lt {a b p d : ℚ} (hp : 0 < p) (hd : 0 < d) (h : |a * d - p * b| < d) :
    |a / p - b / d| < 1 / p := by
  have hpd := mul_pos hp hd
  rw [div_sub_div _ _ hp.ne' hd.ne', abs_div, abs_of_pos hpd, div_lt_div_iff₀ hpd hp, one_mul,
    mul_comm]
  exact mul_lt_mul_of_pos_left h hp

variable {micro : ℤ}

theorem q31_error {v : ℤ} {s : ℕ} (hs : s ≤ 31) (h : |v * 1000000 - micro * 2 ^ (31 - s)| < 1000000) :
    |q31Value (v, s) - micro / 10 ^ 6| < 2 ^ ((s : ℤ) - 31) := by
  have hpow : (2 : ℚ) ^ ((s : ℤ) - 31) = 1 / 2 ^ (31 - s) := by
    rw [show (s : ℤ) - 31 = -((31 - s : ℕ) : ℤ) by omega, zpow_neg, zpow_natCast, one_div]
  rw [q31Value, hpow, mul_one_div]
  refine abs_div_sub_div_lt (by positivity) (by norm_num) ?_
  rw [mul_comm (2 ^ _)]
  exact_mod_cast h

theorem microToQ31_spec (h : |micro| < 2 ^ 30 * 1000000) :
    ∃ v s, microToQ31 micro = .ok (v, s) ∧ IsLeast {s : ℕ | |micro| < 2 ^ s * 1000000} s ∧
      -2 ^ 31 ≤ v ∧ v < 2 ^ 31 ∧ |q31Value (v, s) - micro / 10 ^ 6| < 2 ^ ((s : ℤ) - 31) := by
  have habs : (if micro < 0 then -micro else micro) = |micro| := by
    split <;> rename_i hneg
    · exact (abs_of_neg hneg).symm
    · exact (abs_of_nonneg (not_lt.mp hneg)).symm
  obtain ⟨s, hs, hrun, hleast⟩ := selectShift_least h le_rfl (by simp)
  have hproduct : |micro * 2 ^ (31 - s)| < 2 ^ 31 * 1000000 := by
    rw [abs_mul, abs_of_pos (show (0 : ℤ) < 2 ^ (31 - s) by positivity)]
    calc |micro| * 2 ^ (31 - s) < 2 ^ s * 1000000 * 2 ^ (31 - s) := by gcongr; exact hleast.1
      _ = 2 ^ (s + (31 - s)) * 1000000 := by rw [pow_add]; ring
      _ = 2 ^ 31 * 1000000 := by rw [Nat.add_sub_of_le (by omega)]
  have hbounds := abs_lt.mp hproduct
  have herror := abs_tdiv_mul_sub_lt (micro * 2 ^ (31 - s)) (show (0 : ℤ) < 1000000 by norm_num)
  have hvalue : ((micro * 2 ^ (31 - s)).tdiv 1000000).natAbs =
      (micro * 2 ^ (31 - s)).natAbs / 1000000 := Int.natAbs_tdiv _ _
  refine ⟨(micro * 2 ^ (31 - s)).tdiv 1000000, s, ?_, hleast, ?_, ?_, q31_error (by omega) herror⟩
  · simp only [microToQ31, habs, int64_ok (show |(|micro|)| < 2 ^ 63 by rw [abs_abs]; omega), hrun,
      int64_ok (hproduct.trans (by norm_num)), bind, Except.bind]
    exact if_neg (by omega)
  · omega
  · omega

-- ---
-- All values

theorem selectShift_le {left s : ℕ} (h : selectShift magnitude left = .ok s) : s ≤ 30 := by
  induction left with
  | zero =>
    obtain rfl := Except.ok.inj h
    exact le_rfl
  | succ left ih =>
    obtain ⟨limit, -, h⟩ := bind_eq_ok.mp h
    split at h
    · exact ih h
    · rw [← Except.ok.inj h]
      omega

theorem selectShift_max (hmax : 2 ^ 29 * 1000000 ≤ magnitude) (left : ℕ) :
    selectShift magnitude left = .ok 30 := by
  induction left with
  | zero => rfl
  | succ left ih =>
    have hpow : (2 : ℤ) ^ (30 - (left + 1)) ≤ 2 ^ 29 := pow_le_pow_right₀ (by norm_num) (by omega)
    have hpos : (0 : ℤ) < 2 ^ (30 - (left + 1)) := by positivity
    rw [selectShift, int64_ok (by rw [abs_of_pos (by positivity)]; omega)]
    exact (if_pos (by omega)).trans ih

theorem microToQ31_error {reading : ℤ × ℕ} (h : microToQ31 micro = .ok reading) :
    |q31Value reading - micro / 10 ^ 6| < 2 ^ ((reading.2 : ℤ) - 31) := by
  obtain ⟨magnitude, -, h⟩ := bind_eq_ok.mp h
  obtain ⟨s, hs, h⟩ := bind_eq_ok.mp h
  obtain ⟨product, hproduct, h⟩ := bind_eq_ok.mp h
  have hle := selectShift_le hs
  obtain rfl : micro * 2 ^ (31 - s) = product := by
    unfold int64 at hproduct
    split at hproduct
    · exact Except.ok.inj hproduct
    · cases hproduct
  dsimp only at h
  split at h
  · cases h
  · rw [← Except.ok.inj h]
    exact q31_error (by omega) (abs_tdiv_mul_sub_lt _ (by norm_num))

/-- **The values that have a reading**: below the lower end truncation gains half a unit. -/
theorem microToQ31_ok_iff (hmax : |micro| ≤ 2 ^ 62) :
    (∃ reading, microToQ31 micro = .ok reading) ↔
      -(2 ^ 30 * 10 ^ 6 + 500000) < micro ∧ micro < 2 ^ 30 * 10 ^ 6 := by
  by_cases hsmall : |micro| < 2 ^ 30 * 1000000
  · obtain ⟨v, s, hrun, -⟩ := microToQ31_spec hsmall
    have hbounds := abs_lt.mp hsmall
    exact iff_of_true ⟨_, hrun⟩ (by omega)
  · have habs : (if micro < 0 then -micro else micro) = |micro| := by
      split <;> rename_i hneg
      · exact (abs_of_neg hneg).symm
      · exact (abs_of_nonneg (not_lt.mp hneg)).symm
    have hvalue : ((micro * 2 ^ (31 - 30)).tdiv 1000000).natAbs =
        (micro * 2 ^ (31 - 30)).natAbs / 1000000 := Int.natAbs_tdiv _ _
    have hsign : 0 ≤ micro → 0 ≤ (micro * 2 ^ (31 - 30)).tdiv 1000000 := fun hpos =>
      Int.tdiv_nonneg (by omega) (by norm_num)
    have hsign' : micro ≤ 0 → (micro * 2 ^ (31 - 30)).tdiv 1000000 ≤ 0 := fun hneg => by
      rw [← neg_nonneg, ← Int.neg_tdiv]
      exact Int.tdiv_nonneg (by omega) (by norm_num)
    simp only [microToQ31, habs, int64_ok (show |(|micro|)| < 2 ^ 63 by rw [abs_abs]; omega),
      selectShift_max (show 2 ^ 29 * 1000000 ≤ |micro| by omega), bind, Except.bind]
    rcases abs_cases micro with ⟨heq, hpos⟩ | ⟨heq, hneg⟩
    · refine iff_of_false ?_ (by omega)
      rintro ⟨reading, h⟩
      unfold int64 at h
      split at h
      · cases h
      · rename_i hproduct
        split at hproduct
        · obtain rfl := Except.ok.inj hproduct
          rw [if_pos (by omega)] at h
          cases h
        · cases hproduct
    · rw [int64, if_pos (by omega)]
      dsimp only
      constructor
      · rintro ⟨reading, h⟩
        split at h
        · cases h
        · omega
      · intro hrange
        rw [if_neg (by omega)]
        exact ⟨_, rfl⟩

/-- The conversion succeeds with the least shift and less than one unit of error; a temperature is
off by less than one unit and a microdegree. -/
theorem q31_accurate {micro : ℤ} (h : |micro| < 2 ^ 30 * 10 ^ 6) (scale raw : BitVec 32) :
    (∃ v s, microToQ31 micro = .ok (v, s) ∧ IsLeast {s : ℕ | |micro| < 2 ^ s * 10 ^ 6} s ∧
      -2 ^ 31 ≤ v ∧ v < 2 ^ 31 ∧ |q31Value (v, s) - micro / 10 ^ 6| < 2 ^ ((s : ℤ) - 31)) ∧
    ∃ degrees v s, rawToMicro tagAsicTemperature scale raw = .ok degrees ∧
      microToQ31 degrees = .ok (v, s) ∧
      |q31Value (v, s) - raw.toInt / 65536| < 2 ^ ((s : ℤ) - 31) + 1 / 10 ^ 6 := by
  refine ⟨microToQ31_spec h, ?_⟩
  have hlo := raw.le_toInt
  have hhi := raw.toInt_lt
  have hloss := abs_tdiv_mul_sub_lt (raw.toInt * 1000000) (show (0 : ℤ) < 65536 by norm_num)
  have hbounds := abs_lt.mp hloss
  obtain ⟨v, s, hrun, -, -, -, herror⟩ := microToQ31_spec
    (show |(raw.toInt * 1000000).tdiv 65536| < 2 ^ 30 * 1000000 by rw [abs_lt]; omega)
  refine ⟨_, v, s, ?_, hrun, ?_⟩
  · rw [rawToMicro, if_pos rfl, int64_ok (by rw [abs_lt]; omega)]
    rfl
  · refine (abs_sub_le _ _ _).trans_lt (add_lt_add herror
      (abs_div_sub_div_lt (by norm_num) (by norm_num) ?_))
    rw [mul_comm (10 ^ 6)]
    exact_mod_cast hloss

theorem q31_accurate_limit : ∃ v s, microToQ31 (2 ^ 30 * 10 ^ 6 - 1) = .ok (v, s) :=
  have ⟨v, s, hrun, _⟩ := (q31_accurate (show |2 ^ 30 * 10 ^ 6 - 1| < 2 ^ 30 * 10 ^ 6 by decide) 0 0).1
  ⟨v, s, hrun⟩

end SystemFirmware.BhArcTelem
