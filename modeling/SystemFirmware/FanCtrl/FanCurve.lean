import Mathlib.Algebra.Order.Field.Rat
import Mathlib.Data.Rat.Floor
import Mathlib.Tactic.Linarith
import Mathlib.Tactic.NormNum

/-!
# Fan control — the curve and its hysteresis

`lib/tenstorrent/bh_arc/fan_ctrl.c`. `fan_curve` is the greater of two speeds, from the
ASIC and from the GDDR temperature. The second is taken at `effective_gddr_temp`, which
follows a rising temperature at once and a falling one only when it is 5 degrees lower
(`fan_curve_safe`). Floats are rationals, and the conversion to an integer truncates.
-/

namespace SystemFirmware.FanCtrl

-- ---
-- The code

/-- `fan_speed1` of `fan_curve`. -/
def asicFanSpeed (maxAsicTemp : ℚ) : ℕ :=
  if maxAsicTemp < 60 then 20
  else if maxAsicTemp < 72 then ⌊0.833 * maxAsicTemp - 29.98⌋₊
  else if maxAsicTemp < 75 then ⌊3.333 * maxAsicTemp - 209.976⌋₊
  else if maxAsicTemp < 90 then ⌊4 * maxAsicTemp - 260⌋₊
  else 100

/-- `fan_speed2` of `fan_curve`. -/
def gddrFanSpeed (effectiveGddrTemp : ℚ) : ℕ :=
  if effectiveGddrTemp < 45 then 20
  else if effectiveGddrTemp < 60 then ⌊effectiveGddrTemp - 25⌋₊
  else if effectiveGddrTemp < 82 then ⌊2.955 * effectiveGddrTemp - 142.3⌋₊
  else 100

/-- `effective_gddr_temp` after a call. -/
def hysteresis (effectiveGddrTemp maxGddrTemp : ℚ) : ℚ :=
  if effectiveGddrTemp < 0 then maxGddrTemp
  else if maxGddrTemp > effectiveGddrTemp then maxGddrTemp
  else if maxGddrTemp ≤ effectiveGddrTemp - 5 then maxGddrTemp
  else effectiveGddrTemp

def fanCurve (effectiveGddrTemp maxAsicTemp maxGddrTemp : ℚ) : ℕ × ℚ :=
  let fanSpeed1 := asicFanSpeed maxAsicTemp
  let effectiveGddrTemp := hysteresis effectiveGddrTemp maxGddrTemp
  let fanSpeed2 := gddrFanSpeed effectiveGddrTemp
  (max fanSpeed1 fanSpeed2, effectiveGddrTemp)

def plainFanCurve (maxAsicTemp maxGddrTemp : ℚ) : ℕ :=
  max (asicFanSpeed maxAsicTemp) (gddrFanSpeed maxGddrTemp)

-- ---
-- The branches

variable {f : ℚ → ℕ} {b : ℚ}

theorem monotone_ite_lt {g : ℚ → ℕ} (hf : Monotone f) (hg : Monotone g) (hb : f b ≤ g b) :
    Monotone fun x => if x < b then f x else g x := by
  intro x y hxy
  by_cases hx : x < b
  · by_cases hy : y < b
    · simpa [hx, hy] using hf hxy
    · simpa [hx, hy] using (hf hx.le).trans (hb.trans (hg (not_lt.mp hy)))
  · have hy : ¬y < b := fun hy => hx (hxy.trans_lt hy)
    simpa [hx, hy] using hg hxy

theorem monotone_floor_line {a : ℚ} (ha : 0 ≤ a) : Monotone fun x : ℚ => ⌊a * x - b⌋₊ := by
  intro x y hxy
  exact Nat.floor_mono (sub_le_sub_right (mul_le_mul_of_nonneg_left hxy ha) b)

theorem monotone_asicFanSpeed : Monotone asicFanSpeed := by
  have hfull : Monotone fun _ : ℚ => 100 := monotone_const
  have h90 := monotone_ite_lt (b := 90)
    (monotone_floor_line (a := 4) (b := 260) (by norm_num)) hfull (by decide +kernel)
  have h75 := monotone_ite_lt (b := 75)
    (monotone_floor_line (a := 3.333) (b := 209.976) (by norm_num)) h90 (by decide +kernel)
  have h72 := monotone_ite_lt (b := 72)
    (monotone_floor_line (a := 0.833) (b := 29.98) (by norm_num)) h75 (by decide +kernel)
  exact monotone_ite_lt (b := 60) monotone_const h72 (by decide +kernel)

theorem monotone_gddrFanSpeed : Monotone gddrFanSpeed := by
  have hfull : Monotone fun _ : ℚ => 100 := monotone_const
  -- at 82 degrees the line is above 100, but less than 1 above
  have h82 := monotone_ite_lt (b := 82)
    (monotone_floor_line (a := 2.955) (b := 142.3) (by norm_num)) hfull (by decide +kernel)
  have hslow : Monotone fun x : ℚ => ⌊x - 25⌋₊ :=
    fun x y hxy => Nat.floor_mono (sub_le_sub_right hxy 25)
  have h60 := monotone_ite_lt (b := 60) hslow h82 (by decide +kernel)
  exact monotone_ite_lt (b := 45) monotone_const h60 (by decide +kernel)

theorem bounds_of_ends (low high : ℚ) (hf : Monotone f) (hlow : ∀ x < low, f x = 20)
    (hhigh : ∀ x ≥ high, f x = 100) (x : ℚ) : 20 ≤ f x ∧ f x ≤ 100 := by
  constructor
  · rw [← hlow (min x low - 1) (by linarith [min_le_right x low])]
    exact hf (by linarith [min_le_left x low])
  · rw [← hhigh (max x high) (le_max_right _ _)]
    exact hf (le_max_left _ _)

theorem asicFanSpeed_bounds (temp : ℚ) : 20 ≤ asicFanSpeed temp ∧ asicFanSpeed temp ≤ 100 := by
  refine bounds_of_ends 60 90 monotone_asicFanSpeed ?_ ?_ temp
  · intro x hx
    rw [asicFanSpeed, if_pos hx]
  · intro x hx
    rw [asicFanSpeed, if_neg (by linarith), if_neg (by linarith), if_neg (by linarith),
      if_neg (by linarith)]

theorem gddrFanSpeed_bounds (temp : ℚ) : 20 ≤ gddrFanSpeed temp ∧ gddrFanSpeed temp ≤ 100 := by
  refine bounds_of_ends 45 82 monotone_gddrFanSpeed ?_ ?_ temp
  · intro x hx
    rw [gddrFanSpeed, if_pos hx]
  · intro x hx
    rw [gddrFanSpeed, if_neg (by linarith), if_neg (by linarith), if_neg (by linarith)]

-- ---
-- A call

theorem hysteresis_bounds (effective temp : ℚ) :
    temp ≤ hysteresis effective temp ∧ hysteresis effective temp < temp + 5 := by
  rw [hysteresis]
  split_ifs with hfirst hrising hdropped
  · exact ⟨le_rfl, by linarith⟩
  · exact ⟨le_rfl, by linarith⟩
  · exact ⟨le_rfl, by linarith⟩
  · exact ⟨not_lt.mp hrising, by linarith⟩

theorem fanCurve_bounds (effective asic gddr : ℚ) :
    20 ≤ (fanCurve effective asic gddr).1 ∧ (fanCurve effective asic gddr).1 ≤ 100 :=
  ⟨le_max_of_le_left (asicFanSpeed_bounds asic).1,
    max_le (asicFanSpeed_bounds asic).2 (gddrFanSpeed_bounds _).2⟩

theorem plainFanCurve_le (effective asic gddr : ℚ) :
    plainFanCurve asic gddr ≤ (fanCurve effective asic gddr).1 :=
  max_le_max le_rfl (monotone_gddrFanSpeed (hysteresis_bounds effective gddr).1)

-- ---
-- A sequence of calls

structure Call where
  maxAsicTemp : ℚ
  maxGddrTemp : ℚ

def effectiveAt (calls : ℕ → Call) : ℕ → ℚ
  | 0 => -1
  | k + 1 => (fanCurve (effectiveAt calls k) (calls k).maxAsicTemp (calls k).maxGddrTemp).2

def speedAt (calls : ℕ → Call) (k : ℕ) : ℕ :=
  (fanCurve (effectiveAt calls k) (calls k).maxAsicTemp (calls k).maxGddrTemp).1

/-- **The fan curve with hysteresis is safe.** Both branches are non-decreasing; every speed is
from 20 to 100 and at least that of the curve without hysteresis; and the effective temperature is
less than 5 degrees above the real one and never below it. -/
theorem fan_curve_safe (calls : ℕ → Call) :
    Monotone asicFanSpeed ∧ Monotone gddrFanSpeed ∧
      ∀ k, (20 ≤ speedAt calls k ∧ speedAt calls k ≤ 100) ∧
        ((calls k).maxGddrTemp ≤ effectiveAt calls (k + 1) ∧
          effectiveAt calls (k + 1) < (calls k).maxGddrTemp + 5) ∧
        plainFanCurve (calls k).maxAsicTemp (calls k).maxGddrTemp ≤ speedAt calls k := by
  refine ⟨monotone_asicFanSpeed, monotone_gddrFanSpeed, ?_⟩
  intro k
  rw [speedAt, effectiveAt]
  exact ⟨fanCurve_bounds _ _ _, hysteresis_bounds _ _, plainFanCurve_le _ _ _⟩

-- ---
-- The controller

/-- `CONFIG_TT_BH_ARC_FAN_CTRL_ALPHA / 100`, `CONFIG_TT_BH_ARC_FAN_CTRL_GDDR_TEMP`, and
`fan_ctrl_en` of the firmware table. -/
structure Config where
  alpha : ℚ
  gddrTemp : Bool
  fanCtrlEn : Bool

structure Request where
  fanSpeed : ℕ
  forced : Bool
  deriving DecidableEq

structure Controller where
  maxAsicTemp : ℚ
  maxGddrTemp : ℚ := 0
  effectiveGddrTemp : ℚ := -1
  fanSpeed : ℕ := 0
  fanSpeedForced : Bool := false
  requests : List Request := []

/-- `fan_speed = fan_curve(...)`. -/
def Controller.followCurve (s : Controller) : Controller :=
  let (speed, effective) := fanCurve s.effectiveGddrTemp s.maxAsicTemp s.maxGddrTemp
  { s with fanSpeed := speed, effectiveGddrTemp := effective }

def Controller.request (s : Controller) : Controller :=
  { s with requests := s.requests ++ [⟨s.fanSpeed, s.fanSpeedForced⟩] }

def updateFanSpeed (cfg : Config) (asicTemperature gddrMaxTemp : ℚ) (s : Controller) : Controller :=
  let s := { s with
    maxAsicTemp := cfg.alpha * asicTemperature + (1 - cfg.alpha) * s.maxAsicTemp
    maxGddrTemp :=
      if cfg.gddrTemp then cfg.alpha * gddrMaxTemp + (1 - cfg.alpha) * s.maxGddrTemp else 0 }
  if s.fanSpeedForced = false then s.followCurve.request else s

def forceFanSpeed (rawSpeed : ℕ) (s : Controller) : Controller :=
  if rawSpeed = 2 ^ 32 - 1 then { s with fanSpeedForced := false }.followCurve.request
  else { s with fanSpeedForced := true, fanSpeed := min rawSpeed 100 }.request

inductive Event
  /-- The timer, and the temperatures at that time. -/
  | tick (asicTemperature gddrMaxTemp : ℚ)
  /-- `TT_SMC_MSG_FORCE_FAN_SPEED`. -/
  | force (rawSpeed : ℕ)

/-- Without the feature the timer is not started and the message is refused. -/
def step (cfg : Config) (s : Controller) : Event → Controller
  | .tick asic gddr => if cfg.fanCtrlEn then updateFanSpeed cfg asic gddr s else s
  | .force rawSpeed => if cfg.fanCtrlEn then forceFanSpeed rawSpeed s else s

/-- What the fan may do at the filtered temperatures, and the requests so far. -/
structure Safe (s : Controller) : Prop where
  requests : ∀ r ∈ s.requests, r.fanSpeed ≤ 100 ∧ (r.forced = false → 20 ≤ r.fanSpeed)
  current : s.requests ≠ [] → s.fanSpeedForced = false →
    s.requests.getLast? = some ⟨s.fanSpeed, false⟩ ∧
    plainFanCurve s.maxAsicTemp s.maxGddrTemp ≤ s.fanSpeed

variable {s : Controller}

theorem safe_request
    (hbefore : ∀ r ∈ s.requests, r.fanSpeed ≤ 100 ∧ (r.forced = false → 20 ≤ r.fanSpeed))
    (hle : s.fanSpeed ≤ 100) (hge : s.fanSpeedForced = false → 20 ≤ s.fanSpeed)
    (hcurve : s.fanSpeedForced = false → plainFanCurve s.maxAsicTemp s.maxGddrTemp ≤ s.fanSpeed) :
    Safe s.request := by
  constructor
  · intro r hr
    rcases List.mem_append.mp hr with hr | hr
    · exact hbefore r hr
    · rw [List.mem_singleton.mp hr]
      exact ⟨hle, hge⟩
  · intro _ hforced
    refine ⟨?_, hcurve hforced⟩
    rw [Controller.request, List.getLast?_concat, show s.fanSpeedForced = false from hforced]

theorem safe_followCurve_request
    (hbefore : ∀ r ∈ s.requests, r.fanSpeed ≤ 100 ∧ (r.forced = false → 20 ≤ r.fanSpeed)) :
    Safe s.followCurve.request :=
  safe_request hbefore (fanCurve_bounds _ _ _).2 (fun _ => (fanCurve_bounds _ _ _).1)
    (fun _ => plainFanCurve_le _ _ _)

theorem safe_step {cfg : Config} (h : Safe s) (event : Event) : Safe (step cfg s event) := by
  cases event with
  | tick asic gddr =>
    rw [step]
    split_ifs
    · rw [updateFanSpeed]
      by_cases hforced : s.fanSpeedForced = false
      · rw [if_pos hforced]
        exact safe_followCurve_request h.requests
      · -- a forced speed stays, and the temperatures are only brought up to date
        rw [if_neg hforced]
        exact ⟨h.requests, fun _ hnot => absurd hnot hforced⟩
    · exact h
  | force rawSpeed =>
    rw [step]
    split_ifs
    · rw [forceFanSpeed]
      split_ifs
      · exact safe_followCurve_request h.requests
      · exact safe_request h.requests (min_le_right _ _)
          (fun hnot => absurd hnot Bool.false_ne_true.symm)
          (fun hnot => absurd hnot Bool.false_ne_true.symm)
    · exact h

/-- **Every request is safe.** Whatever the temperatures are and whichever speeds are forced, no
request is above 100 % and only a forced one is below 20 %. While the speed is not forced, the
last request is at least what the curve without hysteresis gives. -/
theorem requests_safe (cfg : Config) (asicTemperature : ℚ) (events : List Event) :
    Safe (events.foldl (step cfg) { maxAsicTemp := asicTemperature }) := by
  have hinit : Safe { maxAsicTemp := asicTemperature } :=
    ⟨fun r hr => absurd hr List.not_mem_nil, fun hne => absurd rfl hne⟩
  generalize ({ maxAsicTemp := asicTemperature } : Controller) = s at hinit
  induction events generalizing s with
  | nil => exact hinit
  | cons event events ih => exact ih _ (safe_step hinit event)

end SystemFirmware.FanCtrl
