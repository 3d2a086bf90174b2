import SystemFirmware.Lib.Rounding

/-!
# PLDM sensor readings — scaling

`pldm_sensor_value_to_s32` of `drivers/pmci/pldm/pldm_platform.c` turns a sensor value,
an integer part and millionths, into the count that a GetSensorReading response carries.
It scales by a power of ten, rounds and saturates, all in 64-bit arithmetic.

Scaling down loses nothing that matters: truncating first and rounding then gives the
correctly rounded value. Scaling up multiplies before it saturates, and the product may not
fit in 64 bits (`sensor_value_to_s32_correct`). Here it wraps, as the multiplication of the
machine does; the C standard leaves it undefined.
-/

namespace SystemFirmware.Pldm

open Lib

-- ---
-- The function

structure SensorValue where
  val1 : Int32
  val2 : Int32

/-- `val1 * 1000000LL + val2`. -/
def SensorValue.scaledMicro (value : SensorValue) : Int64 :=
  value.val1.toInt64 * 1000000 + value.val2.toInt64

/-- The two loops over `unit_modifier`. -/
def applyUnitModifier (unitModifier : Int8) (scaledMicro : Int64) : Int64 :=
  if unitModifier < 0 then (fun x => x * 10)^[(-unitModifier.toInt).toNat] scaledMicro
  else if unitModifier > 0 then (fun x => x / 10)^[unitModifier.toInt.toNat] scaledMicro
  else scaledMicro

def pldmSensorValueToS32 (value : SensorValue) (unitModifier : Int8) : Int32 :=
  let scaledMicro := applyUnitModifier unitModifier value.scaledMicro
  let rounded := if scaledMicro ≥ 0 then (scaledMicro + 500000) / 1000000
    else (scaledMicro - 500000) / 1000000
  if rounded > 2147483647 then 2147483647
  else if rounded < -2147483648 then -2147483648
  else rounded.toInt32

-- ---
-- What it is to compute

/-- The value in millionths. -/
def SensorValue.micro (value : SensorValue) : ℤ := value.val1.toInt * 10 ^ 6 + value.val2.toInt

/-- `(val1 + val2 / 10^6) * 10^(-unit_modifier)`. -/
def SensorValue.exactReading (value : SensorValue) (unitModifier : Int8) : ℚ :=
  (value.val1.toInt + value.val2.toInt / 10 ^ 6) * 10 ^ (-unitModifier.toInt)

def saturateS32 (z : ℤ) : ℤ := max (-2 ^ 31) (min z (2 ^ 31 - 1))

def NoOverflow (value : SensorValue) (unitModifier : Int8) : Prop :=
  value.micro.natAbs * 10 ^ (-unitModifier.toInt).toNat + 500000 < 2 ^ 63

/-- The product overflows, and what is left of it, after half a unit is added or subtracted, lies
beyond the readings on the side of the exact value. -/
def WrapsBack (value : SensorValue) (unitModifier : Int8) : Prop :=
  let scaled := (value.micro * 10 ^ (-unitModifier.toInt).toNat).bmod (2 ^ 64)
  0 < value.micro ∧ ((2 ^ 31 - 1) * 10 ^ 6 ≤ scaled + 500000 ∧ scaled + 500000 < 2 ^ 63 ∨
      scaled - 500000 < -2 ^ 63) ∨
    value.micro < 0 ∧ (scaled - 500000 ≤ -2 ^ 31 * 10 ^ 6 ∧ -2 ^ 63 ≤ scaled - 500000 ∨
      2 ^ 63 ≤ scaled + 500000)

theorem micro_natAbs_le (value : SensorValue) : value.micro.natAbs ≤ 2 ^ 31 * (10 ^ 6 + 1) := by
  have h1 := value.val1.le_toInt
  have h2 := value.val1.toInt_lt
  have h3 := value.val2.le_toInt
  have h4 := value.val2.toInt_lt
  unfold SensorValue.micro
  omega

variable {value : SensorValue} {unitModifier : Int8}

theorem noOverflow_of_ge (h : -3 ≤ unitModifier.toInt) : NoOverflow value unitModifier := by
  have hmicro := micro_natAbs_le value
  have hpow : 10 ^ (-unitModifier.toInt).toNat ≤ 10 ^ 3 :=
    Nat.pow_le_pow_right (by omega) (by omega)
  have hle := Nat.mul_le_mul hmicro hpow
  unfold NoOverflow
  omega

-- ---
-- 64-bit arithmetic

theorem bmod_of_fits {z : ℤ} (hlo : -2 ^ 63 ≤ z) (hhi : z < 2 ^ 63) : z.bmod (2 ^ 64) = z :=
  Int.bmod_eq_of_le (by omega) (by omega)

theorem scaledMicro_toInt (value : SensorValue) : value.scaledMicro.toInt = value.micro := by
  have hle := micro_natAbs_le value
  have h1 := value.val1.le_toInt
  have h2 := value.val1.toInt_lt
  have hmul : (value.val1.toInt64 * 1000000).toInt = value.val1.toInt * 10 ^ 6 := by
    rw [Int64.toInt_mul, Int32.toInt_toInt64, show (1000000 : Int64).toInt = 10 ^ 6 from rfl]
    exact bmod_of_fits (by omega) (by omega)
  rw [SensorValue.scaledMicro, Int64.toInt_add, hmul, Int32.toInt_toInt64]
  exact bmod_of_fits (by unfold SensorValue.micro at hle; omega)
    (by unfold SensorValue.micro at hle; omega)

theorem mul_ten_toInt (k : ℕ) (x : Int64) :
    ((fun x => x * 10)^[k] x).toInt = (x.toInt * 10 ^ k).bmod (2 ^ 64) := by
  induction k generalizing x with
  | zero =>
    have hlo := x.le_toInt
    have hhi := x.toInt_lt
    rw [pow_zero, mul_one, bmod_of_fits (by omega) (by omega)]
    rfl
  | succ k ih =>
    rw [Function.iterate_succ_apply, ih, Int64.toInt_mul, show (10 : Int64).toInt = 10 from rfl,
      Int.bmod_mul_bmod, mul_assoc, ← pow_succ']

theorem tdiv_tdiv_natCast (z : ℤ) (a b : ℕ) : (z.tdiv a).tdiv b = z.tdiv (a * b : ℕ) := by
  rcases Int.eq_nat_or_neg z with ⟨n, rfl | rfl⟩
  · rw [← Int.ofNat_tdiv, ← Int.ofNat_tdiv, ← Int.ofNat_tdiv, Nat.div_div_eq_div_mul]
  · rw [Int.neg_tdiv, Int.neg_tdiv, Int.neg_tdiv, ← Int.ofNat_tdiv, ← Int.ofNat_tdiv,
      ← Int.ofNat_tdiv, Nat.div_div_eq_div_mul]

theorem div_ten_toInt (k : ℕ) (x : Int64) :
    ((fun x => x / 10)^[k] x).toInt = x.toInt.tdiv (10 ^ k : ℕ) := by
  induction k generalizing x with
  | zero => simp
  | succ k ih =>
    have hlo := x.le_toInt
    have hhi := x.toInt_lt
    have habs : (x.toInt.tdiv 10).natAbs = x.toInt.natAbs / 10 := Int.natAbs_tdiv _ _
    have hstep : (x / 10).toInt = x.toInt.tdiv (10 : ℕ) := by
      rw [Int64.toInt_div, show (10 : Int64).toInt = 10 from rfl]
      exact bmod_of_fits (by omega) (by omega)
    rw [Function.iterate_succ_apply, ih, hstep, tdiv_tdiv_natCast, ← Nat.pow_succ']

theorem applyUnitModifier_of_neg (hneg : unitModifier.toInt < 0) :
    (applyUnitModifier unitModifier value.scaledMicro).toInt =
      (value.micro * 10 ^ (-unitModifier.toInt).toNat).bmod (2 ^ 64) := by
  rw [applyUnitModifier, if_pos (Int8.lt_iff_toInt_lt.mpr hneg), mul_ten_toInt, scaledMicro_toInt]

theorem applyUnitModifier_toInt (hfits : NoOverflow value unitModifier) :
    (applyUnitModifier unitModifier value.scaledMicro).toInt =
      (value.micro * 10 ^ (-unitModifier.toInt).toNat).tdiv
        ((10 ^ unitModifier.toInt.toNat : ℕ)) := by
  unfold NoOverflow at hfits
  by_cases hneg : unitModifier.toInt < 0
  · have habs : (value.micro * 10 ^ (-unitModifier.toInt).toNat).natAbs =
        value.micro.natAbs * 10 ^ (-unitModifier.toInt).toNat := by
      rw [Int.natAbs_mul, Int.natAbs_pow]
      rfl
    rw [applyUnitModifier_of_neg hneg, bmod_of_fits (by omega) (by omega),
      show unitModifier.toInt.toNat = 0 by omega]
    simp
  · rw [applyUnitModifier, if_neg (mt Int8.lt_iff_toInt_lt.mp hneg),
      show (-unitModifier.toInt).toNat = 0 by omega, pow_zero, mul_one]
    by_cases hpos : unitModifier > 0
    · rw [if_pos hpos, div_ten_toInt, scaledMicro_toInt]
    · have hzero : unitModifier.toInt.toNat = 0 := by
        rw [gt_iff_lt, Int8.lt_iff_toInt_lt, Int8.toInt_zero] at hpos
        omega
      rw [if_neg hpos, hzero, scaledMicro_toInt]
      simp

/-- Half a unit added or subtracted, in 64 bits. -/
def halfAdded (w : ℤ) : ℤ :=
  if 0 ≤ w then (w + 500000).bmod (2 ^ 64) else (w - 500000).bmod (2 ^ 64)

theorem rounded_toInt (x : Int64) :
    (if x ≥ 0 then (x + 500000) / 1000000 else (x - 500000) / 1000000).toInt =
      (halfAdded x.toInt).tdiv 1000000 := by
  have hquot (y : Int64) : (y / 1000000).toInt = y.toInt.tdiv 1000000 := by
    have hlo := y.le_toInt
    have hhi := y.toInt_lt
    have habs : (y.toInt.tdiv 1000000).natAbs = y.toInt.natAbs / 1000000 := Int.natAbs_tdiv _ _
    rw [Int64.toInt_div, show (1000000 : Int64).toInt = 1000000 from rfl]
    exact bmod_of_fits (by omega) (by omega)
  have hsign : x ≥ 0 ↔ 0 ≤ x.toInt := Int64.le_iff_toInt_le
  unfold halfAdded
  by_cases hpos : x ≥ 0
  · rw [if_pos hpos, if_pos (hsign.mp hpos), hquot, Int64.toInt_add]
    rfl
  · rw [if_neg hpos, if_neg (mt hsign.mpr hpos), hquot, Int64.toInt_sub]
    rfl

theorem halfAdded_tdiv {w : ℤ} (hfits : w.natAbs + 500000 < 2 ^ 63) :
    (halfAdded w).tdiv 1000000 = divRound w (500000 : ℕ) := by
  unfold halfAdded divRound
  split
  · rw [bmod_of_fits (by omega) (by omega)]
    rfl
  · rw [bmod_of_fits (by omega) (by omega)]
    rfl

theorem saturated_toInt (x : Int64) :
    (if x > 2147483647 then 2147483647 else if x < -2147483648 then -2147483648
      else x.toInt32 : Int32).toInt = saturateS32 x.toInt := by
  have hmax : x > 2147483647 ↔ 2 ^ 31 - 1 < x.toInt := Int64.lt_iff_toInt_lt
  have hmin : x < -2147483648 ↔ x.toInt < -2 ^ 31 := Int64.lt_iff_toInt_lt
  unfold saturateS32
  by_cases hhigh : x > 2147483647
  · rw [if_pos hhigh, show (2147483647 : Int32).toInt = 2 ^ 31 - 1 from rfl]
    rw [hmax] at hhigh
    omega
  · rw [if_neg hhigh]
    rw [hmax] at hhigh
    by_cases hlow : x < -2147483648
    · rw [if_pos hlow, show (-2147483648 : Int32).toInt = -2 ^ 31 from rfl]
      rw [hmin] at hlow
      omega
    · rw [if_neg hlow, Int64.toInt_toInt32]
      rw [hmin] at hlow
      rw [Int.bmod_eq_of_le (by omega) (by omega)]
      omega

theorem saturateS32_tdiv (y : ℤ) :
    (saturateS32 (y.tdiv 1000000) = 2 ^ 31 - 1 ↔ (2 ^ 31 - 1) * 10 ^ 6 ≤ y) ∧
      (saturateS32 (y.tdiv 1000000) = -2 ^ 31 ↔ y ≤ -2 ^ 31 * 10 ^ 6) := by
  rw [saturateS32, Int.tdiv_eq_ediv, show (1000000 : ℤ).sign = 1 from rfl]
  split <;> omega

-- ---
-- Readings

theorem exactReading_eq (value : SensorValue) (unitModifier : Int8) :
    value.exactReading unitModifier =
      ((value.micro * 10 ^ (-unitModifier.toInt).toNat : ℤ) : ℚ) /
        (10 ^ unitModifier.toInt.toNat * (2 * 500000) : ℕ) := by
  have hpow : (10 : ℚ) ^ (-unitModifier.toInt) =
      10 ^ (-unitModifier.toInt).toNat / 10 ^ unitModifier.toInt.toNat := by
    rw [← zpow_natCast, ← zpow_natCast, ← zpow_sub₀ (by norm_num)]
    congr 1
    omega
  rw [SensorValue.exactReading, hpow, SensorValue.micro]
  push_cast
  field_simp
  ring

theorem toInt_pldmSensorValueToS32 (value : SensorValue) (unitModifier : Int8) :
    (pldmSensorValueToS32 value unitModifier).toInt = saturateS32
      ((halfAdded (applyUnitModifier unitModifier value.scaledMicro).toInt).tdiv 1000000) := by
  rw [pldmSensorValueToS32, ← rounded_toInt]
  exact saturated_toInt _

theorem reading_of_noOverflow (hfits : NoOverflow value unitModifier) :
    (pldmSensorValueToS32 value unitModifier).toInt =
      saturateS32 (roundHalfAway (value.exactReading unitModifier)) := by
  have hvalue := applyUnitModifier_toInt hfits
  have habs : (applyUnitModifier unitModifier value.scaledMicro).toInt.natAbs + 500000 < 2 ^ 63 := by
    have hdiv : (applyUnitModifier unitModifier value.scaledMicro).toInt.natAbs ≤
        (value.micro * 10 ^ (-unitModifier.toInt).toNat).natAbs := by
      rw [hvalue, Int.natAbs_tdiv]
      exact Nat.div_le_self _ _
    rw [Int.natAbs_mul, Int.natAbs_pow, show (10 : ℤ).natAbs = 10 from rfl] at hdiv
    unfold NoOverflow at hfits
    omega
  rw [toInt_pldmSensorValueToS32, halfAdded_tdiv habs, hvalue, exactReading_eq,
    roundHalfAway_div (Nat.pow_pos (by omega)) (by omega)]

/-- An exact value whose product overflows is beyond the readings. -/
theorem saturated_of_overflow (hneg : unitModifier.toInt < 0)
    (hover : ¬ NoOverflow value unitModifier) :
    (0 < value.micro → saturateS32 (roundHalfAway (value.exactReading unitModifier)) = 2 ^ 31 - 1) ∧
      (value.micro < 0 → saturateS32 (roundHalfAway (value.exactReading unitModifier)) = -2 ^ 31) := by
  obtain ⟨scaled, hscaled⟩ : ∃ z, z = value.micro * 10 ^ (-unitModifier.toInt).toNat := ⟨_, rfl⟩
  have habs : scaled.natAbs = value.micro.natAbs * 10 ^ (-unitModifier.toInt).toNat := by
    rw [hscaled, Int.natAbs_mul, Int.natAbs_pow]
    rfl
  have hpow : (0 : ℤ) < 10 ^ (-unitModifier.toInt).toNat := by positivity
  have hround : roundHalfAway (value.exactReading unitModifier) =
      (if 0 ≤ scaled then scaled + 500000 else scaled - 500000).tdiv 1000000 := by
    rw [exactReading_eq, roundHalfAway_div (Nat.pow_pos (by omega)) (by omega), ← hscaled,
      show unitModifier.toInt.toNat = 0 by omega, pow_zero, Nat.cast_one, Int.tdiv_one, divRound]
    split <;> rfl
  unfold NoOverflow at hover
  rw [hround]
  constructor
  · intro hpos
    have hscaledPos : 0 < scaled := hscaled ▸ Int.mul_pos hpos hpow
    rw [(saturateS32_tdiv _).1, if_pos (by omega)]
    omega
  · intro hlow
    have hscaledNeg : scaled < 0 := hscaled ▸ Int.mul_neg_of_neg_of_pos hlow hpow
    rw [(saturateS32_tdiv _).2, if_neg (by omega)]
    omega

/-- **When readings are correctly rounded.** The reading is the exact value rounded to the nearest
integer, halves away from zero, and then saturated, exactly if no intermediate value overflows, or
what overflows is still saturated on the right side. -/
theorem sensor_value_to_s32_correct (value : SensorValue) (unitModifier : Int8) :
    (pldmSensorValueToS32 value unitModifier).toInt =
        saturateS32 (roundHalfAway (value.exactReading unitModifier)) ↔
      NoOverflow value unitModifier ∨ WrapsBack value unitModifier := by
  by_cases hfits : NoOverflow value unitModifier
  · exact iff_of_true (reading_of_noOverflow hfits) (Or.inl hfits)
  · have hneg : unitModifier.toInt < 0 := by
      by_contra hge
      exact hfits (noOverflow_of_ge (by omega))
    obtain ⟨hhigh, hlow⟩ := saturated_of_overflow hneg hfits
    rw [or_iff_right hfits, toInt_pldmSensorValueToS32]
    obtain ⟨scaled, hscaled⟩ : ∃ x, x = applyUnitModifier unitModifier value.scaledMicro := ⟨_, rfl⟩
    have hvalue := hscaled ▸ @applyUnitModifier_of_neg value unitModifier hneg
    have hlo := scaled.le_toInt
    have hhi := scaled.toInt_lt
    unfold WrapsBack
    rw [← hscaled, ← hvalue]
    rcases lt_trichotomy value.micro 0 with hmicro | hmicro | hmicro
    · rw [hlow hmicro, (saturateS32_tdiv _).2, halfAdded, Int.bmod_def, Int.bmod_def]
      omega
    · refine absurd ?_ hfits
      rw [NoOverflow, hmicro, Int.natAbs_zero, Nat.zero_mul]
      decide
    · rw [hhigh hmicro, (saturateS32_tdiv _).1, halfAdded, Int.bmod_def, Int.bmod_def]
      omega

/-- **Scaling up overflows.** The value 1 at a modifier of -13 is far above the largest
reading, and comes out as the smallest one. -/
theorem sensor_value_to_s32_overflows :
    (pldmSensorValueToS32 ⟨1, 0⟩ (-13)).toInt = -2 ^ 31 ∧
      SensorValue.exactReading ⟨1, 0⟩ (-13) = 10 ^ 13 ∧
      saturateS32 (roundHalfAway (10 ^ 13)) = 2 ^ 31 - 1 := by
  refine ⟨by decide +kernel, ?_, ?_⟩
  · rw [exactReading_eq, show (-(-13 : Int8).toInt).toNat = 13 from rfl,
      show (-13 : Int8).toInt.toNat = 0 from rfl,
      show SensorValue.micro ⟨1, 0⟩ = 1000000 from rfl]
    norm_num
  · decide +kernel

end SystemFirmware.Pldm
