import Mathlib.Data.List.Induction
import SystemFirmware.Lib.Circular
import SystemFirmware.Throttler.Definitions

/-!
# Throttler — the moving average of the board power

`UpdateMovingAveragePower` keeps the last 1000 samples in a circular buffer and their sum
in 32 bits. A call adds the difference between the new sample and the one it replaces,
which may be a negative `int`: the sum wraps around, and comes out right because 1000
samples of 16 bits fit in 32 (`updateMovingAveragePower_average`).
-/

namespace SystemFirmware.Throttler

open Lib.Circular

def historySize : ℕ := 1000

/-- The statics of the average. The cursor is a pointer into the array. -/
structure PowerHistory where
  boardPowerHistory : List UInt16
  cursor : ℕ
  boardPowerSum : UInt32
  size_eq : boardPowerHistory.length = historySize
  cursor_lt : cursor < historySize

def PowerHistory.boot : PowerHistory :=
  { boardPowerHistory := List.replicate historySize 0
    cursor := 0
    boardPowerSum := 0
    size_eq := List.length_replicate
    cursor_lt := by decide }

def PowerHistory.oldest (h : PowerHistory) : UInt16 :=
  h.boardPowerHistory.get ⟨h.cursor, h.size_eq.symm ▸ h.cursor_lt⟩

def updateMovingAveragePower (h : PowerHistory) (currentPower : UInt16) : UInt16 × PowerHistory :=
  -- the difference is computed in `int` and converted to `uint32_t`
  let sum := h.boardPowerSum + (currentPower.toUInt32 - h.oldest.toUInt32)
  ((sum / UInt32.ofNat historySize).toUInt16,
    { boardPowerHistory := h.boardPowerHistory.set h.cursor currentPower
      cursor := advance historySize h.cursor
      boardPowerSum := sum
      size_eq := by rw [List.length_set, h.size_eq]
      cursor_lt := advance_lt h.cursor_lt })

def historyAfter (samples : List UInt16) : PowerHistory :=
  samples.foldl (fun h sample => (updateMovingAveragePower h sample).2) .boot

/-- The sum of the last 1000 samples; missing ones count as 0. -/
def recentSum (samples : List UInt16) : ℕ :=
  ((samples.drop (samples.length - historySize)).map UInt16.toNat).sum

-- ---
-- The invariant

/-- The buffer holds the end of the samples, and the sum is the sum of the buffer. -/
structure Averages (samples : List UInt16) (h : PowerHistory) : Prop where
  recent : Recent 0 h.boardPowerHistory h.cursor samples
  sum_eq : h.boardPowerSum.toNat = (h.boardPowerHistory.map UInt16.toNat).sum

section

variable {h : PowerHistory} {samples : List UInt16}

theorem sum_toNat_le (l : List UInt16) : (l.map UInt16.toNat).sum ≤ l.length * 65535 := by
  induction l with
  | nil => exact Nat.zero_le _
  | cons x l ih =>
    have := x.toNat_lt
    rw [List.map_cons, List.sum_cons, List.length_cons, Nat.add_mul]
    omega

theorem sum_history_le (h : PowerHistory) :
    (h.boardPowerHistory.map UInt16.toNat).sum ≤ 65535000 := by
  have hle := sum_toNat_le h.boardPowerHistory
  rwa [h.size_eq] at hle

theorem Averages.boot : Averages [] .boot where
  recent := Recent.init
  sum_eq := by
    show 0 = ((List.replicate historySize (0 : UInt16)).map UInt16.toNat).sum
    rw [List.map_replicate, List.sum_replicate_nat]
    rfl

/-- One call. The sum fits in 32 bits before and after, so the difference may wrap. -/
theorem Averages.update (hav : Averages samples h) (x : UInt16) :
    Averages (samples ++ [x]) (updateMovingAveragePower h x).2 := by
  have hlt : h.cursor < h.boardPowerHistory.length := h.size_eq.symm ▸ h.cursor_lt
  have hstore : ((h.boardPowerHistory.set h.cursor x).map UInt16.toNat).sum + h.oldest.toNat =
      (h.boardPowerHistory.map UInt16.toNat).sum + x.toNat := sum_map_store hlt x UInt16.toNat
  have hle : ((h.boardPowerHistory.set h.cursor x).map UInt16.toNat).sum ≤ 65535000 :=
    sum_history_le (updateMovingAveragePower h x).2
  have hrecent : Recent 0 (h.boardPowerHistory.set h.cursor x) (advance historySize h.cursor)
      (samples ++ [x]) := by
    rw [← h.size_eq]
    exact hav.recent.store hlt
  refine ⟨hrecent, ?_⟩
  show (h.boardPowerSum + (x.toUInt32 - h.oldest.toUInt32)).toNat = _
  have hx := x.toNat_lt
  have hold := h.oldest.toNat_lt
  rw [UInt32.toNat_add, UInt32.toNat_sub, UInt16.toNat_toUInt32, UInt16.toNat_toUInt32, hav.sum_eq]
  show _ = ((h.boardPowerHistory.set h.cursor x).map UInt16.toNat).sum
  omega

theorem averages_historyAfter (samples : List UInt16) : Averages samples (historyAfter samples) := by
  induction samples using List.reverseRecOn with
  | nil => exact Averages.boot
  | append_singleton samples x ih =>
    rw [historyAfter, List.foldl_append]
    exact ih.update x

theorem Averages.sum_recent (hav : Averages samples h) : h.boardPowerSum.toNat = recentSum samples := by
  rw [hav.sum_eq, hav.recent.sum_map rfl, h.size_eq, recentSum]

end

/-- **The moving average is right**, for every sequence of samples since boot: the call
for the next sample returns the sum of the last 1000 samples divided by 1000, rounded
down. -/
theorem updateMovingAveragePower_average (samples : List UInt16) (currentPower : UInt16) :
    (updateMovingAveragePower (historyAfter samples) currentPower).1.toNat =
      recentSum (samples ++ [currentPower]) / 1000 := by
  have hav := (averages_historyAfter samples).update currentPower
  have hle := sum_history_le (updateMovingAveragePower (historyAfter samples) currentPower).2
  rw [← hav.sum_eq] at hle
  rw [← hav.sum_recent]
  obtain ⟨sum, hsum⟩ : ∃ sum,
      sum = (updateMovingAveragePower (historyAfter samples) currentPower).2.boardPowerSum :=
    ⟨_, rfl⟩
  show (UInt32.toUInt16
    ((updateMovingAveragePower (historyAfter samples) currentPower).2.boardPowerSum / 1000)).toNat = _
  rw [← hsum] at hle ⊢
  rw [UInt32.toNat_toUInt16, UInt32.toNat_div, show (1000 : UInt32).toNat = 1000 from rfl]
  omega

end SystemFirmware.Throttler
