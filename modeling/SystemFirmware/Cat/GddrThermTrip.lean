import Mathlib.Algebra.Order.Ring.Int
import SystemFirmware.Lib.Streak

/-!
# Catmon — the thermal trip of the GDDR

`lib/tenstorrent/bh_arc/cat.c`. `EvaluateGddrThermTrip` gets samples of the highest GDDR
temperature. It asks for a trip at once from the critical temperature on, and when the
temperature has been at least the trip temperature for a duration (`gddr_therm_trip_iff`).

Times and temperatures are integers; the difference of two uptimes does not overflow.
-/

namespace SystemFirmware.Cat

open Lib

-- ---
-- The code

/-- `gddr_therm_trip_temp`, `..._critical_temp` and `..._duration_ms`; a temperature of 0 disables
it. -/
structure TripLimits where
  tripTemp : ℤ
  criticalTemp : ℤ
  durationMs : ℤ
  deriving DecidableEq

/-- The static variables of `EvaluateGddrThermTrip`. -/
structure Tracking where
  tracking : Bool := false
  overTempStartTime : ℤ := 0
  deriving DecidableEq

structure Sample where
  now : ℤ
  maxTemp : ℤ
  deriving DecidableEq

def evaluateGddrThermTrip (limits : TripLimits) (s : Tracking) (x : Sample) : ℤ × Tracking :=
  if limits.criticalTemp ≠ 0 ∧ x.maxTemp ≥ limits.criticalTemp then
    (x.maxTemp, { s with tracking := false })
  else if limits.tripTemp = 0 ∨ x.maxTemp < limits.tripTemp then
    (0, { s with tracking := false })
  else if s.tracking = false then
    (0, { tracking := true, overTempStartTime := x.now })
  else if x.now - s.overTempStartTime ≥ limits.durationMs then
    (x.maxTemp, { s with tracking := false })
  else (0, s)

/-- What is reported to the DMC. -/
inductive TripReason
  | instantaneous
  | sustained
  deriving DecidableEq

/-- The static variables of `gddr_therm_trip_work_handler`. -/
structure Worker where
  monitor : Tracking := {}
  tripPending : Bool := false
  deriving DecidableEq

/-- `gddr_therm_trip_work_handler`: what is reported, if a trip is scheduled; `enabled` is the
active feature. -/
def gddrThermTripWorkHandler (limits : TripLimits) (w : Worker) (x : Sample) (enabled : Bool) :
    Option TripReason × Worker :=
  if w.tripPending then (none, w)
  else
    let (maxTemp, monitor) := evaluateGddrThermTrip limits w.monitor x
    if maxTemp ≠ 0 ∧ enabled then
      (some (if maxTemp ≥ limits.criticalTemp ∧ limits.criticalTemp ≠ 0 then .instantaneous
          else .sustained),
        { monitor := monitor, tripPending := true })
    else (none, { w with monitor := monitor })

-- ---
-- A run

section Run

variable (limits : TripLimits) (samples : ℕ → Sample)

def stateAt : ℕ → Tracking
  | 0 => {}
  | k + 1 => (evaluateGddrThermTrip limits (stateAt k) (samples k)).2

def resultAt (k : ℕ) : ℤ := (evaluateGddrThermTrip limits (stateAt limits samples k) (samples k)).1

/-- Sample `k` is below the trip temperature, or the function returned non-zero at it. -/
def ResetPoint (k : ℕ) : Prop :=
  (samples k).maxTemp < limits.tripTemp ∨ resultAt limits samples k ≠ 0

end Run

variable {limits : TripLimits} {samples : ℕ → Sample}

theorem sample_cases (htrip : limits.tripTemp ≠ 0) (htemp : ∀ k, (samples k).maxTemp ≠ 0) (k : ℕ) :
    (ResetPoint limits samples k ∧ (stateAt limits samples (k + 1)).tracking = false) ∨
    (¬ResetPoint limits samples k ∧ (stateAt limits samples k).tracking = false ∧
      stateAt limits samples (k + 1) = ⟨true, (samples k).now⟩) ∨
    (¬ResetPoint limits samples k ∧ (stateAt limits samples k).tracking = true ∧
      stateAt limits samples (k + 1) = stateAt limits samples k) := by
  have htemp := htemp k
  simp only [ResetPoint, resultAt, stateAt, evaluateGddrThermTrip]
  generalize stateAt limits samples k = s
  split_ifs with hcritical hlow hstart hlong
  · exact .inl ⟨.inr htemp, rfl⟩
  · exact .inl ⟨.inl (hlow.resolve_left htrip), rfl⟩
  · refine .inr (.inl ⟨?_, hstart, rfl⟩)
    simpa using (not_or.mp hlow).2
  · exact .inl ⟨.inr htemp, rfl⟩
  · refine .inr (.inr ⟨?_, Bool.eq_true_of_not_eq_false hstart, rfl⟩)
    simpa using (not_or.mp hlow).2

theorem stateAt_tracking (htrip : limits.tripTemp ≠ 0) (htemp : ∀ k, (samples k).maxTemp ≠ 0)
    (k : ℕ) :
    ((stateAt limits samples k).tracking = false ∧
      FirstAfter (ResetPoint limits samples) k k) ∨
    ((stateAt limits samples k).tracking = true ∧
      ∃ j < k, FirstAfter (ResetPoint limits samples) j k ∧
        (stateAt limits samples k).overTempStartTime = (samples j).now) := by
  induction k with
  | zero => exact .inl ⟨rfl, FirstAfter.zero⟩
  | succ k ih =>
    rcases sample_cases htrip htemp k with ⟨hreset, hoff⟩ | ⟨hreset, hoff, hnext⟩ |
      ⟨hreset, hon, hnext⟩
    · exact .inl ⟨hoff, FirstAfter.restart hreset⟩
    · -- the tracking begins: `k` is the first sample after a reset point
      rcases ih with ⟨-, hfirst⟩ | ⟨hon, -⟩
      · refine .inr ⟨by rw [hnext], k, Nat.lt_succ_self k, hfirst.next hreset, by rw [hnext]⟩
      · rw [hoff] at hon
        exact absurd hon Bool.false_ne_true
    · rcases ih with ⟨hoff, -⟩ | ⟨-, j, hj, hfirst, hstart⟩
      · rw [hoff] at hon
        exact absurd hon Bool.false_ne_true
      · rw [hnext]
        exact .inr ⟨hon, j, Nat.lt_succ_of_lt hj, hfirst.next hreset, hstart⟩

theorem evaluate_ne_zero_iff {s : Tracking} {x : Sample} (htemp : x.maxTemp ≠ 0) :
    (evaluateGddrThermTrip limits s x).1 ≠ 0 ↔
      (limits.criticalTemp ≠ 0 ∧ x.maxTemp ≥ limits.criticalTemp) ∨
      (limits.tripTemp ≠ 0 ∧ x.maxTemp ≥ limits.tripTemp ∧ s.tracking = true ∧
        x.now - s.overTempStartTime ≥ limits.durationMs) := by
  rw [evaluateGddrThermTrip]
  split_ifs with hcritical hlow hstart hlong
  · simp [hcritical, htemp]
  · rcases hlow with hzero | hbelow
    · simp [hcritical, hzero]
    · simp [hcritical, not_le.mpr hbelow]
  · simp [hcritical, hstart]
  · simp only [not_or, not_lt] at hlow
    simp [htemp, hlow, hlong, Bool.eq_true_of_not_eq_false hstart]
  · simp [hcritical, hlong]

/-- **The thermal trip of the GDDR fires exactly when it should**: at a sample that is at least
the critical temperature, and at one that is at least the trip temperature if the first sample
after the last reset point is an earlier one and at least the duration ago. -/
theorem gddr_therm_trip_iff (limits : TripLimits) (samples : ℕ → Sample)
    (htemp : ∀ k, (samples k).maxTemp ≠ 0) (k : ℕ) :
    resultAt limits samples k ≠ 0 ↔
      (limits.criticalTemp ≠ 0 ∧ (samples k).maxTemp ≥ limits.criticalTemp) ∨
      (limits.tripTemp ≠ 0 ∧ (samples k).maxTemp ≥ limits.tripTemp ∧
        ∃ j < k, FirstAfter (ResetPoint limits samples) j k ∧
          (samples k).now - (samples j).now ≥ limits.durationMs) := by
  rw [resultAt, evaluate_ne_zero_iff (htemp k)]
  refine or_congr_right (and_congr_right fun htrip => and_congr_right fun _ => ?_)
  rcases stateAt_tracking htrip htemp k with ⟨hoff, hhere⟩ | ⟨hon, j, hj, hfirst, hstart⟩
  · constructor
    · rintro ⟨hon, -⟩
      rw [hoff] at hon
      exact absurd hon Bool.false_ne_true
    · rintro ⟨j, hj, hfirst, -⟩
      exact absurd (hfirst.unique hhere) (Nat.ne_of_lt hj)
  · rw [hstart]
    constructor
    · rintro ⟨-, hlong⟩
      exact ⟨j, hj, hfirst, hlong⟩
    · rintro ⟨i, -, hi, hlong⟩
      rw [hi.unique hfirst] at hlong
      exact ⟨hon, hlong⟩

theorem gddr_therm_trip_sustained :
    resultAt ⟨85, 95, 60000⟩ (fun k => ⟨60000 * k, 90⟩) 1 ≠ 0 := by
  refine (gddr_therm_trip_iff _ _ (fun _ => by simp) 1).mpr (.inr ⟨by decide, by decide, 0,
    by decide, ⟨by decide, .inl rfl, ?_⟩, by decide⟩)
  intro i _ hi
  have hzero : i = 0 := Nat.lt_one_iff.mp hi
  subst hzero
  simp [ResetPoint, resultAt, stateAt, evaluateGddrThermTrip]

-- ---
-- The work handler

section Worker

variable (limits : TripLimits) (samples : ℕ → Sample) (enabled : ℕ → Bool)

def workerAt : ℕ → Worker
  | 0 => {}
  | k + 1 => (gddrThermTripWorkHandler limits (workerAt k) (samples k) (enabled k)).2

def reportAt (k : ℕ) : Option TripReason :=
  (gddrThermTripWorkHandler limits (workerAt limits samples enabled k) (samples k) (enabled k)).1

/-- The monitor asks for a trip at sample `k` while the feature is active. -/
def Fires (k : ℕ) : Prop := resultAt limits samples k ≠ 0 ∧ enabled k = true

variable {limits samples enabled} {k : ℕ}

theorem workHandler_fires (h : Fires limits samples enabled k) :
    ∃ reason, gddrThermTripWorkHandler limits ⟨stateAt limits samples k, false⟩ (samples k)
      (enabled k) = (some reason, ⟨stateAt limits samples (k + 1), true⟩) :=
  ⟨_, if_pos h⟩

theorem workHandler_quiet (h : ¬Fires limits samples enabled k) :
    gddrThermTripWorkHandler limits ⟨stateAt limits samples k, false⟩ (samples k) (enabled k) =
      (none, ⟨stateAt limits samples (k + 1), false⟩) :=
  if_neg h

/-- A pending trip goes back to an earlier sample; until then the monitor sees them all. -/
theorem workerAt_inv (k : ℕ) :
    ((workerAt limits samples enabled k).tripPending = true ∧
      ∃ i < k, Fires limits samples enabled i) ∨
    (workerAt limits samples enabled k = ⟨stateAt limits samples k, false⟩ ∧
      ∀ i < k, ¬Fires limits samples enabled i) := by
  induction k with
  | zero => exact .inr ⟨rfl, fun i hi => absurd hi (Nat.not_lt_zero i)⟩
  | succ k ih =>
    rw [workerAt]
    rcases ih with ⟨hpending, i, hi, hfires⟩ | ⟨hstate, hnone⟩
    · rw [gddrThermTripWorkHandler, if_pos hpending]
      exact .inl ⟨hpending, i, Nat.lt_succ_of_lt hi, hfires⟩
    · rw [hstate]
      by_cases hfires : Fires limits samples enabled k
      · obtain ⟨reason, heq⟩ := workHandler_fires hfires
        rw [heq]
        exact .inl ⟨rfl, k, Nat.lt_succ_self k, hfires⟩
      · rw [workHandler_quiet hfires]
        refine .inr ⟨rfl, fun i hi => ?_⟩
        rcases Nat.lt_or_eq_of_le (Nat.le_of_lt_succ hi) with hlt | rfl
        · exact hnone i hlt
        · exact hfires

/-- **The work handler reports the first trip and no other.** -/
theorem worker_reports_iff (k : ℕ) :
    (reportAt limits samples enabled k).isSome = true ↔
      Fires limits samples enabled k ∧ ∀ i < k, ¬Fires limits samples enabled i := by
  rw [reportAt]
  rcases workerAt_inv k with ⟨hpending, i, hi, hfires⟩ | ⟨hstate, hnone⟩
  · rw [gddrThermTripWorkHandler, if_pos hpending]
    simp only [Option.isSome_none, Bool.false_eq_true, false_iff, not_and]
    intro _ hnone
    exact hnone i hi hfires
  · rw [hstate]
    by_cases hfires : Fires limits samples enabled k
    · obtain ⟨reason, heq⟩ := workHandler_fires hfires
      rw [heq]
      exact ⟨fun _ => ⟨hfires, hnone⟩, fun _ => rfl⟩
    · rw [workHandler_quiet hfires]
      simp [hfires]

end Worker

end SystemFirmware.Cat
