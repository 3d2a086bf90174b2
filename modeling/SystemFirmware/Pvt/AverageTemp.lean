import Mathlib.Algebra.BigOperators.Fin
import SystemFirmware.Pvt.Conversions

/-!
# PVT — the average temperature

`read_ts_avg` of `drivers/sensor/tenstorrent/pvt/pvt_tt_bh_rtio.c`, and how
`ReadTelemetryInternal` uses it. The average ignores what each read returns, adds up in 16
bits and reports `ReadOk` in every case (`average_trustworthy_iff`).
-/

namespace SystemFirmware.Pvt

inductive ReadStatus
  | readOk | sampleFault | incorrectSampleType | sdifTimeout
  deriving DecidableEq

structure Sensor where
  /-- What `sdif_done` reads until the deadline. -/
  polls : List Bool
  sdifData : BitVec 32
  /-- What the variable `data` holds before it is set. -/
  data : UInt16
  delta : UInt16
  deriving DecidableEq

def pollDone : List Bool → Bool
  | [] => true
  | done :: later => if done then false else pollDone later

/-- `read_pvt_auto_mode`: the status, and what `data` holds then. -/
def Sensor.read (s : Sensor) : ReadStatus × UInt16 :=
  if pollDone s.polls then (.sdifTimeout, s.data)
  else if s.sdifData.getLsbD 17 then (.sampleFault, s.data)
  else if s.sdifData.getLsbD 16 then (.incorrectSampleType, s.data)
  else (.readOk, .ofBitVec (s.sdifData.setWidth 16))

def Sensor.calibrated (s : Sensor) : UInt16 := s.read.2 - s.delta

def readTsAvg (sensors : Fin 8 → Sensor) : ReadStatus × UInt16 :=
  let sum := (List.finRange 8).foldl (fun sum i => sum + (sensors i).calibrated) 0
  (.readOk, sum / 8)

/-- The part of `internal_data` that comes from the sensors. -/
structure Telemetry where
  lastUpdateTime : ℤ
  asicTemperature : ℚ

/-- `ReadTelemetryInternal`; the result of `sensor_read` is not looked at. -/
def readTelemetryInternal (sensors : Fin 8 → Sensor) (maxStaleness now : ℤ) (t : Telemetry) :
    Telemetry :=
  if now - t.lastUpdateTime ≥ maxStaleness then ⟨now, rawToTemp (readTsAvg sensors).2⟩ else t

/-- The average is one of good reads. -/
structure Trustworthy (sensors : Fin 8 → Sensor) : Prop where
  all_ok : (readTsAvg sensors).1 = .readOk → ∀ i, (sensors i).read.1 = .readOk
  mean : (readTsAvg sensors).1 = .readOk →
    (readTsAvg sensors).2.toNat = (∑ i, (sensors i).calibrated.toNat) / 8
  telemetry : ∀ maxStaleness now t, readTelemetryInternal sensors maxStaleness now t ≠ t →
    ∀ i, (sensors i).read.1 = .readOk

theorem foldl_sum_toNat {α : Type*} (f : α → UInt16) (l : List α) (sum : UInt16) :
    (l.foldl (fun sum i => sum + f i) sum).toNat =
      (sum.toNat + (l.map fun i => (f i).toNat).sum) % 2 ^ 16 := by
  induction l generalizing sum with
  | nil => simp [Nat.mod_eq_of_lt sum.toNat_lt]
  | cons i l ih =>
    rw [List.foldl_cons, ih, UInt16.toNat_add, List.map_cons, List.sum_cons]
    omega

theorem readTsAvg_toNat (sensors : Fin 8 → Sensor) :
    (readTsAvg sensors).2.toNat = (∑ i, (sensors i).calibrated.toNat) % 2 ^ 16 / 8 := by
  rw [readTsAvg, UInt16.toNat_div, foldl_sum_toNat, Fin.sum_univ_def]
  simp

/-- The average is trustworthy when all reads succeed and the sum fits in 16 bits. -/
theorem average_trustworthy_iff (sensors : Fin 8 → Sensor) : Trustworthy sensors ↔
    (∀ i, (sensors i).read.1 = .readOk) ∧ ∑ i, (sensors i).calibrated.toNat < 2 ^ 16 := by
  constructor
  · intro h
    have hmean := h.mean rfl
    rw [readTsAvg_toNat] at hmean
    exact ⟨h.all_ok rfl, by omega⟩
  · rintro ⟨hok, hsum⟩
    exact ⟨fun _ => hok, fun _ => by rw [readTsAvg_toNat, Nat.mod_eq_of_lt hsum], fun _ _ _ _ => hok⟩

def faultySensors (i : Fin 8) : Sensor := ⟨[true], if i.val = 7 then 0x20000 else 1000, 0xFFFF, 0⟩

def fullSensors (_ : Fin 8) : Sensor := ⟨[true], 8192, 0, 0⟩

/-- A failed read is averaged, and eight samples of 8192 have the average 0. -/
theorem average_not_trustworthy :
    ((readTsAvg faultySensors).1 = .readOk ∧ (faultySensors 7).read.1 = .sampleFault) ∧
    ((∀ i, (fullSensors i).read = (.readOk, 8192)) ∧ readTsAvg fullSensors = (.readOk, 0)) := by
  decide

end SystemFirmware.Pvt
