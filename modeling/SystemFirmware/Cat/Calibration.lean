import Mathlib.Algebra.Order.Field.Rat
import Mathlib.Data.Rat.Floor
import Mathlib.Tactic.Linarith
import Mathlib.Tactic.NormNum

/-!
# Catmon — calibration

`lib/tenstorrent/bh_arc/cat.c`. The monitor (catmon) compares the temperature with the one
that its trim code stands for. `CalibrateCAT` raises the code until the monitor trips, and
takes the difference between the temperature of that code and the thermal sensors' one. The
loop leaves `code` one behind the code that tripped (`calibration_measures_iff`,
`shutdown_temperatures`).

Floats are rationals. What the monitor reports is a function of its control register, at
one temperature. The pin of the thermal trip and the waits are left out.
-/

namespace SystemFirmware.Cat

-- ---
-- The monitor

/-- `RESET_UNIT_CATMON_THERM_TRIP_CNTL_reg_t`; the trim code has six bits. -/
structure CatCntl where
  trimCode : ℕ
  enable : Bool
  pllThermTripBypassCatmonEn : Bool
  pllThermTripBypassThermbEn : Bool
  deriving DecidableEq

/-- `RESET_UNIT_CATMON_THERM_TRIP_CNTL_REG_DEFAULT`, 0x318. -/
def CatCntl.default : CatCntl where
  trimCode := 0x18
  enable := false
  pllThermTripBypassCatmonEn := true
  pllThermTripBypassThermbEn := true

/-- `BIT_MASK(TRIM_CODE_BITS)`. -/
def trimCodeMax : ℕ := 63

def CatCntl.setTrimCode (cntl : CatCntl) (code : ℕ) : CatCntl :=
  { cntl with trimCode := code % (trimCodeMax + 1) }

def CatCntl.calibrating : CatCntl :=
  { CatCntl.default with
    enable := true
    pllThermTripBypassCatmonEn := false
    pllThermTripBypassThermbEn := false }

/-- A monitor as described: codes run from 0 for 196 degrees to 63 for -56. -/
def describedMonitor (temp : ℚ) (cntl : CatCntl) : Bool :=
  cntl.enable && decide (196 - 4 * (cntl.trimCode : ℚ) ≤ temp)

-- ---
-- The code

def tJShutdown : ℚ := 110

def catEarlyTripTemp : ℚ := 100

def defaultCalibration : ℚ := catEarlyTripTemp - tJShutdown

/-- `TempToTrimCode`; the conversion to an integer truncates. -/
def tempToTrimCode (temp : ℚ) : ℕ :=
  let temp := max (-56) (min temp 196)
  ⌊49 - temp / 4⌋₊

def trimCodeToTemp (trimCode : ℤ) : ℚ := 198 - 4 * trimCode

def enableCat (trimCode : ℕ) (shutdownOnTrip : Bool) : CatCntl :=
  let cntl := CatCntl.calibrating.setTrimCode trimCode
  if shutdownOnTrip then
    { cntl with pllThermTripBypassCatmonEn := true, pllThermTripBypassThermbEn := true }
  else cntl

def catEarlyInit : CatCntl := enableCat (tempToTrimCode catEarlyTripTemp) true

def triggerThermTrip : CatCntl := enableCat (tempToTrimCode (-56)) true

section

variable (status : CatCntl → Bool)

/-- The loop over the trim codes: `code` and `tripped` when it is left. There are at most
`trimCodeMax + 1` rounds. -/
def searchTrimCode : ℕ → ℕ → Bool → ℕ × Bool
  | 0, code, tripped => (code, tripped)
  | rounds + 1, code, tripped =>
    if code ≤ trimCodeMax ∧ tripped = false then
      searchTrimCode rounds (code + 1) (status (CatCntl.calibrating.setTrimCode code))
    else (code, tripped)

/-- What `CalibrateCAT` finds out and returns. -/
structure Calibration where
  /-- `catmon_temp`, if the calibration gets that far. -/
  catmonTemp : Option ℚ
  error : ℚ
  deriving DecidableEq

/-- `CalibrateCAT`; `avgTmp` is what the thermal sensors say. -/
def calibrateCat (avgTmp : ℚ) : Calibration :=
  if status (enableCat 0 false) then ⟨none, defaultCalibration⟩
  else
    let (code, tripped) := searchTrimCode status (trimCodeMax + 1) 0 false
    if tripped = false then ⟨none, defaultCalibration⟩
    else
      let catmonTemp := trimCodeToTemp code
      let catmonError := catmonTemp - avgTmp
      ⟨some catmonTemp,
        if catmonError < -25 ∨ catmonError > 25 then max (-25) (min catmonError 25)
        else catmonError⟩

def catInit (avgTmp : ℚ) : CatCntl :=
  enableCat (tempToTrimCode (tJShutdown + (calibrateCat status avgTmp).error)) true

end

-- ---
-- The search

variable {code : ℕ}

theorem searchTrimCode_first {status : CatCntl → Bool} {first rounds : ℕ}
    (hfirst : first ≤ trimCodeMax)
    (hbefore : ∀ c < first, status (CatCntl.calibrating.setTrimCode c) = false)
    (htrips : status (CatCntl.calibrating.setTrimCode first) = true) (hcode : code ≤ first)
    (hrounds : first < code + rounds) :
    searchTrimCode status rounds code false = (first + 1, true) := by
  -- the induction is on the rounds that are left
  induction rounds generalizing code with
  | zero => omega
  | succ rounds ih =>
    rw [searchTrimCode, if_pos ⟨by omega, rfl⟩]
    rcases Nat.lt_or_eq_of_le hcode with hlt | rfl
    · rw [hbefore code hlt]
      exact ih hlt (by omega)
    · rw [htrips]
      cases rounds with
      | zero => rfl
      | succ rounds => rw [searchTrimCode, if_neg (by simp)]

variable {temp : ℚ}

theorem describedMonitor_calibrating (hcode : code ≤ trimCodeMax) :
    describedMonitor temp (CatCntl.calibrating.setTrimCode code) = true ↔
      196 - 4 * (code : ℚ) ≤ temp := by
  have hmod : code % (trimCodeMax + 1) = code := Nat.mod_eq_of_lt (Nat.lt_succ_of_le hcode)
  simp [describedMonitor, CatCntl.setTrimCode, CatCntl.calibrating, hmod]

theorem describedMonitor_enableCat (hcode : code ≤ trimCodeMax) (shutdownOnTrip : Bool) :
    describedMonitor temp (enableCat code shutdownOnTrip) = true ↔
      196 - 4 * (code : ℚ) ≤ temp := by
  rw [← describedMonitor_calibrating hcode]
  cases shutdownOnTrip <;> rfl

theorem exists_first_code (hlow : -56 ≤ temp) (hhigh : temp < 196) :
    ∃ code ≤ trimCodeMax, 196 - 4 * (code : ℚ) ≤ temp ∧ temp < 200 - 4 * (code : ℚ) ∧
      ∀ c < code, ¬ 196 - 4 * (c : ℚ) ≤ temp := by
  have hsome : ∃ code : ℕ, 196 - 4 * (code : ℚ) ≤ temp := ⟨trimCodeMax, by
    norm_num [trimCodeMax]
    linarith⟩
  classical
  obtain ⟨code, hcode⟩ : ∃ code, code = Nat.find hsome := ⟨_, rfl⟩
  have htrips : 196 - 4 * (code : ℚ) ≤ temp := hcode ▸ Nat.find_spec hsome
  have hbefore : ∀ c < code, ¬ 196 - 4 * (c : ℚ) ≤ temp :=
    fun c hc => Nat.find_min hsome (hcode ▸ hc)
  have hmax : code ≤ trimCodeMax := by
    by_contra hgt
    refine hbefore trimCodeMax (Nat.not_le.mp hgt) ?_
    norm_num [trimCodeMax]
    linarith
  refine ⟨code, hmax, htrips, ?_, hbefore⟩
  -- the code before it did not trip; code 0 does not trip below 196 degrees
  rcases code with _ | code
  · norm_num at htrips
    linarith
  · have hprev := not_le.mp (hbefore code (Nat.lt_succ_self code))
    push_cast
    linarith

-- ---
-- The result

theorem calibrateCat_described (hlow : -56 ≤ temp) (hhigh : temp < 196) :
    ∃ code : ℕ, 196 - 4 * (code : ℚ) ≤ temp ∧ temp < 200 - 4 * (code : ℚ) ∧
      ∀ avgTmp, (calibrateCat (describedMonitor temp) avgTmp).catmonTemp =
          some (194 - 4 * (code : ℚ)) ∧
        (|194 - 4 * (code : ℚ) - avgTmp| ≤ 25 →
          (calibrateCat (describedMonitor temp) avgTmp).error = 194 - 4 * (code : ℚ) - avgTmp) := by
  obtain ⟨code, hmax, htrips, hinterval, hbefore⟩ := exists_first_code hlow hhigh
  refine ⟨code, htrips, hinterval, fun avgTmp => ?_⟩
  have hfirst : ¬ describedMonitor temp (enableCat 0 false) = true := by
    rw [describedMonitor_enableCat (Nat.zero_le _)]
    norm_num
    exact hhigh
  have hsearch : searchTrimCode (describedMonitor temp) (trimCodeMax + 1) 0 false =
      (code + 1, true) := by
    refine searchTrimCode_first hmax (fun c hc => ?_)
      ((describedMonitor_calibrating hmax).mpr htrips) (Nat.zero_le _) (by omega)
    rw [← Bool.not_eq_true, describedMonitor_calibrating (by omega)]
    exact hbefore c hc
  have htemp : trimCodeToTemp ((code + 1 : ℕ) : ℤ) = 194 - 4 * (code : ℚ) := by
    rw [trimCodeToTemp]
    push_cast
    ring
  rw [calibrateCat, if_neg hfirst, hsearch]
  simp only [Bool.true_eq_false, if_false, htemp, true_and]
  intro herror
  obtain ⟨hneg, hpos⟩ := abs_le.mp herror
  rw [if_neg (not_or.mpr ⟨not_lt.mpr hneg, not_lt.mpr hpos⟩)]

/-- **The calibration measures 2 to 6 degrees too little**, at a constant temperature. It is off
by at most 2 degrees exactly if the temperature is a multiple of 4 degrees. -/
theorem calibration_measures_iff {temp : ℚ} (hlow : -56 ≤ temp) (hhigh : temp < 196) :
    ∃ catmonTemp : ℚ,
      (∀ avgTmp, (calibrateCat (describedMonitor temp) avgTmp).catmonTemp = some catmonTemp) ∧
      (calibrateCat (describedMonitor temp) temp).error = catmonTemp - temp ∧
      2 ≤ temp - catmonTemp ∧ temp - catmonTemp < 6 ∧
      (|catmonTemp - temp| ≤ 2 ↔ ∃ n : ℤ, temp = 4 * n) := by
  obtain ⟨code, htrips, hinterval, hcalibrated⟩ := calibrateCat_described hlow hhigh
  refine ⟨194 - 4 * (code : ℚ), fun avgTmp => (hcalibrated avgTmp).1, (hcalibrated temp).2 ?_,
    by linarith, by linarith, ?_⟩
  · rw [abs_le]
    constructor
    · linarith
    · linarith
  · rw [abs_le]
    constructor
    · rintro ⟨hclose, -⟩
      refine ⟨49 - code, ?_⟩
      push_cast
      linarith
    · rintro ⟨n, rfl⟩
      -- a multiple of 4 in the interval is its lower end
      have hn : n = 49 - code := by
        have hle : 49 - (code : ℤ) ≤ n := by
          have : (49 - (code : ℚ)) ≤ n := by linarith
          exact_mod_cast this
        have hlt : n < 50 - (code : ℤ) := by
          have : (n : ℚ) < 50 - (code : ℚ) := by linarith
          exact_mod_cast this
        omega
      subst hn
      push_cast
      constructor
      · linarith
      · linarith

theorem calibration_measures_at_24 :
    (∀ avgTmp, (calibrateCat (describedMonitor 24) avgTmp).catmonTemp = some 22) ∧
      (calibrateCat (describedMonitor 24) 24).error = -2 := by
  obtain ⟨t, hmeasured, herror, hlow, -, hiff⟩ :=
    @calibration_measures_iff 24 (by norm_num) (by norm_num)
  have hclose := (abs_le.mp (hiff.mpr ⟨6, by norm_num⟩)).1
  have ht : t = 22 := by linarith
  subst ht
  refine ⟨hmeasured, ?_⟩
  rw [herror]
  norm_num

/-- At 25 degrees it comes out as 22 too, and the error is 3 degrees. -/
theorem calibration_off_at_25 :
    (calibrateCat (describedMonitor 25) 25).catmonTemp = some 22 ∧
      (calibrateCat (describedMonitor 25) 25).error = -3 ∧
      ¬ |(calibrateCat (describedMonitor 25) 25).error| ≤ 2 := by
  decide +kernel

-- ---
-- The temperature of the shutdown

theorem tempToTrimCode_spec {temp : ℚ} (hlow : -56 ≤ temp) (hhigh : temp ≤ 196) :
    tempToTrimCode temp ≤ trimCodeMax ∧ temp ≤ 196 - 4 * (tempToTrimCode temp : ℚ) ∧
      196 - 4 * (tempToTrimCode temp : ℚ) < temp + 4 := by
  have hclamp : tempToTrimCode temp = ⌊49 - temp / 4⌋₊ := by
    rw [tempToTrimCode, min_eq_left hhigh, max_eq_right hlow]
  rw [hclamp]
  have hfloor : ((⌊49 - temp / 4⌋₊ : ℕ) : ℚ) ≤ 49 - temp / 4 := Nat.floor_le (by linarith)
  have hnext : 49 - temp / 4 < (⌊49 - temp / 4⌋₊ : ℕ) + 1 := Nat.lt_floor_add_one _
  refine ⟨Nat.floor_le_of_le ?_, by linarith, by linarith⟩
  have hmax : (trimCodeMax : ℚ) = 63 := by norm_num [trimCodeMax]
  linarith

theorem catEarlyInit_shutdown (later : ℚ) :
    describedMonitor later catEarlyInit = true ↔ 100 ≤ later := by
  have hcode : tempToTrimCode catEarlyTripTemp = 24 := by decide +kernel
  rw [catEarlyInit, hcode, describedMonitor_enableCat (by decide)]
  norm_num

theorem triggerThermTrip_trips (hlow : -56 ≤ temp) :
    describedMonitor temp triggerThermTrip = true := by
  have hcode : tempToTrimCode (-56) = trimCodeMax := by decide +kernel
  rw [triggerThermTrip, hcode, describedMonitor_enableCat le_rfl]
  norm_num [trimCodeMax]
  exact hlow

/-- **When the chip shuts down**, with a monitor that has no error: before the calibration from
100 degrees on, after it from a temperature between 104 and 112 degrees on, as its error moves
`T_J_SHUTDOWN` down, and at once if a trip is triggered. -/
theorem shutdown_temperatures (hlow : -56 ≤ temp) (hhigh : temp < 196) (later : ℚ) :
    (describedMonitor later catEarlyInit = true ↔ 100 ≤ later) ∧
      (112 ≤ later → describedMonitor later (catInit (describedMonitor temp) temp) = true) ∧
      (later ≤ 104 → describedMonitor later (catInit (describedMonitor temp) temp) = false) ∧
      (-56 ≤ later → describedMonitor later triggerThermTrip = true) := by
  obtain ⟨code, htrips, hinterval, hcalibrated⟩ := calibrateCat_described hlow hhigh
  have herror :
      (calibrateCat (describedMonitor temp) temp).error = 194 - 4 * (code : ℚ) - temp := by
    refine (hcalibrated temp).2 (abs_le.mpr ⟨?_, ?_⟩)
    · linarith
    · linarith
  rw [catInit, herror, tJShutdown]
  obtain ⟨hmax, hat, hbelow⟩ :=
    @tempToTrimCode_spec (110 + (194 - 4 * (code : ℚ) - temp)) (by linarith) (by linarith)
  refine ⟨catEarlyInit_shutdown later, ?_, ?_, triggerThermTrip_trips⟩
  · intro hlater
    rw [describedMonitor_enableCat hmax]
    linarith
  · intro hlater
    rw [← Bool.not_eq_true, describedMonitor_enableCat hmax]
    linarith

theorem shutdown_temperatures_at_25 :
    describedMonitor 112 (catInit (describedMonitor 25) 25) = true :=
  (@shutdown_temperatures 25 (by norm_num) (by norm_num) 112).2.1 le_rfl

end SystemFirmware.Cat
