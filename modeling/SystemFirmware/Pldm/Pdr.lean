import SystemFirmware.Lib.Bytes
import SystemFirmware.Lib.Flash
import SystemFirmware.Lib.Tiling

/-!
# The PDR provider — building the repository

A PLDM terminus describes its sensors to the management controller by platform
descriptor records (PDRs). `pldm_pdr.c` builds them at boot, from the devicetree: one
terminus locator record, and for every sensor a numeric sensor record and, if it is
named, an auxiliary names record. They lie in one static byte array, the repository; a
table says where each one is.

* The repository is a `Flash` with a capacity, and `store` refuses a write that leaves
  it: `Failure.outOfBounds` stands for memory being overwritten.
* The sizes of both arrays are preprocessor sums over the devicetree (`pdrRecordCount`,
  `pdrRepoSize`).
* Record layouts and their constants are those of libpldm and DSP0248.
-/

namespace SystemFirmware.Pldm

open Lib

inductive Errno where
  | einval
  | enoent
  | enomem
  | erange
  | eoverflow
  | ebadmsg
  | eopnotsupp
  deriving DecidableEq, Repr

inductive Failure where
  | errno (e : Errno)
  | outOfBounds
  deriving DecidableEq, Repr

-- ---
-- Sensors

/-- A C string: its characters in front of the terminating NUL. -/
structure CString where
  chars : List UInt8
  nulFree : 0 ∉ chars

def CString.strlen (s : CString) : ℕ := s.chars.length

/-- The fields of `struct pldm_pdr_numeric_sensor_desc` that go into the records. -/
structure NumericSensorDesc where
  sensorId : UInt16
  entityType : UInt16 := 135
  entityInstance : UInt16 := 1
  containerId : UInt16 := 0
  baseUnit : UInt8
  unitModifier : Int8
  auxName : Option CString := none

-- ---
-- The repository

structure RecordInfo where
  handle : UInt32
  offset : ℕ
  length : ℕ
  deriving DecidableEq, Repr

structure ProviderConfig where
  sensors : List NumericSensorDesc
  pdrRecordCapacity : ℕ
  pdrRepoCapacity : ℕ

/-- What init fills in: the used part of the record table, the repository, and the counters of
`struct pldm_pdr_provider_data`. -/
structure Repository where
  records : List RecordInfo := []
  bytes : Flash := fun _ => 0
  size : ℕ := 0
  largestRecordSize : ℕ := 0

def store (cfg : ProviderConfig) (bytes : Flash) (off : ℕ) (data : List UInt8) :
    Except Failure Flash :=
  if off + data.length ≤ cfg.pdrRepoCapacity then .ok (bytes.program off data)
  else .error .outOfBounds

/-- The bookkeeping at the end of both append functions. -/
def Repository.addRecord (repo : Repository) (bytes : Flash) (recordHandle : UInt32)
    (recordLen : ℕ) : Repository where
  records := repo.records ++ [⟨recordHandle, repo.size, recordLen⟩]
  bytes := bytes
  size := repo.size + recordLen
  largestRecordSize := max repo.largestRecordSize recordLen

def appendRecord (cfg : ProviderConfig) (repo : Repository) (recordHandle : UInt32)
    (recordData : List UInt8) : Except Failure Repository := do
  if repo.records.length ≥ cfg.pdrRecordCapacity then
    throw (.errno .enomem)
  if repo.size + recordData.length > cfg.pdrRepoCapacity then
    throw (.errno .enomem)
  let bytes ← store cfg repo.bytes repo.size recordData
  return repo.addRecord bytes recordHandle recordData.length

-- ---
-- Records

def pdrTerminusHandle : UInt16 := 1

def pdrRecordHandle : UInt32 := 1

def pdrRecordChangeNum : UInt16 := 0

def pdrHdrSize : ℕ := 10

def terminusLocatorPdrSize : ℕ := 19

/-- `sizeof(struct pldm_sensor_auxiliary_names_pdr)`, with the first byte of the names. -/
def sensorAuxiliaryNamesPdrSize : ℕ := 16

/-- `PLDM_PDR_NUMERIC_SENSOR_PDR_FIXED_LENGTH`: the bytes that do not depend on the format of
readings. -/
def numericSensorPdrFixedLength : ℕ := 57

def numericSensorRecordWireSize : ℕ := numericSensorPdrFixedLength + 3 * 4 + 9 * 4

def pdrHdr (recordHandle : UInt32) (type : UInt8) (length : ℕ) : List UInt8 :=
  le32 recordHandle ++ [1, type] ++ le16 pdrRecordChangeNum ++ le16 (UInt16.ofNat length)

def terminusLocatorPdrType : UInt8 := 1

def numericSensorPdrType : UInt8 := 2

def sensorAuxiliaryNamesPdrType : UInt8 := 6

def terminusLocatorPdr (recordHandle : UInt32) : List UInt8 :=
  pdrHdr recordHandle terminusLocatorPdrType (terminusLocatorPdrSize - pdrHdrSize) ++
    le16 pdrTerminusHandle ++
    [ 1 -- validity: PLDM_TL_PDR_VALID
    , 0 -- tid
    , 0, 0 -- container_id
    , 1 -- terminus_locator_type: PLDM_TERMINUS_LOCATOR_TYPE_MCTP_EID
    , 1 -- terminus_locator_value_size
    , 0 ] -- terminus_locator_value

-- ---
-- Numeric sensor records

/-- The part of `struct pldm_numeric_sensor_value_pdr` behind the header. Floating point fields
are given by their bits. -/
structure NumericSensorValuePdr where
  terminusHandle : UInt16
  sensorId : UInt16
  entityType : UInt16
  entityInstance : UInt16
  containerId : UInt16
  sensorInit : UInt8 := 0
  sensorAuxiliaryNamesPdr : Bool
  baseUnit : UInt8
  unitModifier : Int8
  rateUnit : UInt8 := 0
  baseOemUnitHandle : UInt8 := 0
  auxUnit : UInt8 := 0
  auxUnitModifier : Int8 := 0
  auxRateUnit : UInt8 := 0
  rel : UInt8 := 0
  auxOemUnitHandle : UInt8 := 0
  isLinear : Bool := true
  sensorDataSize : UInt8 := 5
  resolution : UInt32 := 0x3F800000
  offset : UInt32 := 0
  accuracy : UInt16 := 0
  plusTolerance : UInt8 := 0
  minusTolerance : UInt8 := 0
  hysteresis : Int32 := 0
  supportedThresholds : UInt8 := 0
  thresholdAndHysteresisVolatility : UInt8 := 0
  stateTransitionInterval : UInt32 := 0
  updateInterval : UInt32 := 0
  maxReadable : Int32 := Int32.maxValue
  minReadable : Int32 := Int32.minValue
  rangeFieldFormat : UInt8 := 5
  rangeFieldSupport : UInt8 := 0
  nominalValue : Int32 := 0
  normalMax : Int32 := 0
  normalMin : Int32 := 0
  warningHigh : Int32 := 0
  warningLow : Int32 := 0
  criticalHigh : Int32 := 0
  criticalLow : Int32 := 0
  fatalHigh : Int32 := 0
  fatalLow : Int32 := 0

/-- A run of `pldm_pdr_buf_append_*` calls, each of which needs room for its value. -/
def bufAppend : ℕ → List (List UInt8) → Except Failure (List UInt8)
  | _, [] => .ok []
  | remaining, value :: values => do
    if remaining < value.length then
      throw (.errno .eoverflow)
    let rest ← bufAppend (remaining - value.length) values
    return value ++ rest

def s32 (x : Int32) : List UInt8 := le32 x.toUInt32

/-- The values `pldm_pdr_encode_numeric_sensor_record` appends, header first. -/
def numericSensorFields (recordHandle : UInt32) (pdr : NumericSensorValuePdr) :
    List (List UInt8) :=
  [ le32 recordHandle, [1], [numericSensorPdrType], le16 pdrRecordChangeNum,
    le16 (UInt16.ofNat (numericSensorRecordWireSize - pdrHdrSize)), le16 pdr.terminusHandle,
    le16 pdr.sensorId, le16 pdr.entityType, le16 pdr.entityInstance, le16 pdr.containerId,
    [pdr.sensorInit], [pdr.sensorAuxiliaryNamesPdr.toUInt8], [pdr.baseUnit],
    [pdr.unitModifier.toUInt8], [pdr.rateUnit], [pdr.baseOemUnitHandle], [pdr.auxUnit],
    [pdr.auxUnitModifier.toUInt8], [pdr.auxRateUnit], [pdr.rel],
    [pdr.auxOemUnitHandle], [pdr.isLinear.toUInt8], [pdr.sensorDataSize], le32 pdr.resolution,
    le32 pdr.offset, le16 pdr.accuracy, [pdr.plusTolerance], [pdr.minusTolerance],
    s32 pdr.hysteresis, [pdr.supportedThresholds], [pdr.thresholdAndHysteresisVolatility],
    le32 pdr.stateTransitionInterval, le32 pdr.updateInterval, s32 pdr.maxReadable,
    s32 pdr.minReadable, [pdr.rangeFieldFormat], [pdr.rangeFieldSupport], s32 pdr.nominalValue,
    s32 pdr.normalMax, s32 pdr.normalMin, s32 pdr.warningHigh, s32 pdr.warningLow,
    s32 pdr.criticalHigh, s32 pdr.criticalLow, s32 pdr.fatalHigh, s32 pdr.fatalLow ]

def encodeNumericSensorRecord (recordHandle : UInt32) (pdr : NumericSensorValuePdr)
    (dstLen : ℕ) : Except Failure (List UInt8) :=
  bufAppend dstLen (numericSensorFields recordHandle pdr)

-- ---
-- Auxiliary names records

/-- `PLDM_PDR_SENSOR_AUX_LANG`, "en". -/
def sensorAuxLang : List UInt8 := [0x65, 0x6E]

/-- What `pldm_pdr_encode_utf16be_terminated` writes from index `out` on, and returns. -/
def encodeUtf16beTerminated (dstLen : ℕ) : List UInt8 → ℕ → List UInt8 × ℕ
  | [], out => if out + 2 > dstLen then ([], 0) else ([0, 0], out + 2)
  | c :: cs, out =>
    if out + 2 > dstLen then ([], 0)
    else
      let (written, ret) := encodeUtf16beTerminated dstLen cs (out + 2)
      (0 :: c :: written, ret)

/-- `struct pldm_sensor_auxiliary_names_pdr` up to the names. -/
def sensorAuxiliaryNamesPdr (recordHandle : UInt32) (sensorId : UInt16) (payloadLen : ℕ) :
    List UInt8 :=
  pdrHdr recordHandle sensorAuxiliaryNamesPdrType payloadLen ++
    (le16 pdrTerminusHandle ++ le16 sensorId ++ [1])

def namesPrefixLen : ℕ := 1 + sensorAuxLang.length + 1

def appendSensorAuxNameRecord (cfg : ProviderConfig) (repo : Repository)
    (recordHandle : UInt32) (sensorId : UInt16) (sensorName : CString) :
    Except Failure Repository := do
  if repo.records.length ≥ cfg.pdrRecordCapacity then
    throw (.errno .enomem)
  if repo.size > cfg.pdrRepoCapacity then
    throw (.errno .enomem)
  let remainingRepoLen := cfg.pdrRepoCapacity - repo.size
  if remainingRepoLen < sensorAuxiliaryNamesPdrSize then
    throw (.errno .enomem)
  let maxNamesLen := remainingRepoLen - (sensorAuxiliaryNamesPdrSize - 1)
  if maxNamesLen < namesPrefixLen then
    throw (.errno .enomem)
  let names := repo.size + (sensorAuxiliaryNamesPdrSize - 1)
  -- one sensor name list with one locale entry
  let bytes ← store cfg repo.bytes names (1 :: sensorAuxLang ++ [0])
  let (written, utf16Len) :=
    encodeUtf16beTerminated (maxNamesLen - namesPrefixLen) sensorName.chars 0
  let bytes ← store cfg bytes (names + namesPrefixLen) written
  if utf16Len = 0 then
    throw (.errno .enomem)
  let namesLen := namesPrefixLen + utf16Len
  let recordLen := sensorAuxiliaryNamesPdrSize - 1 + namesLen
  let pdrPayloadLen := sensorAuxiliaryNamesPdrSize - pdrHdrSize - 1 + namesLen
  if pdrPayloadLen > 65535 then
    throw (.errno .eoverflow)
  let bytes ← store cfg bytes repo.size
    (sensorAuxiliaryNamesPdr recordHandle sensorId pdrPayloadLen)
  return repo.addRecord bytes recordHandle recordLen

-- ---
-- Init

def NumericSensorDesc.hasAuxName (sensor : NumericSensorDesc) : Bool :=
  sensor.auxName.any fun name => !name.chars.isEmpty

def NumericSensorDesc.toPdr (sensor : NumericSensorDesc) : NumericSensorValuePdr where
  terminusHandle := pdrTerminusHandle
  sensorId := sensor.sensorId
  entityType := sensor.entityType
  entityInstance := sensor.entityInstance
  containerId := sensor.containerId
  sensorAuxiliaryNamesPdr := sensor.hasAuxName
  baseUnit := sensor.baseUnit
  unitModifier := sensor.unitModifier

/-- The body of init's loop: `record_handle` and the repository before and after it. -/
def appendSensor (cfg : ProviderConfig) (recordHandle : UInt32) (repo : Repository)
    (sensor : NumericSensorDesc) : Except Failure (UInt32 × Repository) := do
  let recordHandle := recordHandle + 1
  let pdrRecord ←
    encodeNumericSensorRecord recordHandle sensor.toPdr numericSensorRecordWireSize
  if pdrRecord.length ≠ numericSensorRecordWireSize then
    throw (.errno .eoverflow)
  let repo ← appendRecord cfg repo recordHandle pdrRecord
  match sensor.auxName with
  | none => return (recordHandle, repo)
  | some name =>
    if name.chars.isEmpty then
      return (recordHandle, repo)
    let recordHandle := recordHandle + 1
    let repo ← appendSensorAuxNameRecord cfg repo recordHandle sensor.sensorId name
    return (recordHandle, repo)

def appendSensors (cfg : ProviderConfig) :
    List NumericSensorDesc → UInt32 → Repository → Except Failure Repository
  | [], _, repo => .ok repo
  | sensor :: sensors, recordHandle, repo => do
    let (recordHandle, repo) ← appendSensor cfg recordHandle repo sensor
    appendSensors cfg sensors recordHandle repo

def providerInit (cfg : ProviderConfig) : Except Failure Repository := do
  let repo ← appendRecord cfg {} pdrRecordHandle (terminusLocatorPdr pdrRecordHandle)
  appendSensors cfg cfg.sensors pdrRecordHandle repo

-- ---
-- Array sizes

/-- `PLDM_PDR_AUX_COUNT`: a name that is there but empty counts. -/
def pdrAuxCount (sensors : List NumericSensorDesc) : ℕ :=
  (sensors.map fun sensor => if sensor.auxName.isSome then 1 else 0).sum

def pdrRecordCount (sensors : List NumericSensorDesc) : ℕ :=
  1 + sensors.length + pdrAuxCount sensors

/-- Both `sizeof` of a string literal count its NUL. -/
def pdrAuxNameRecordSize (name : CString) : ℕ :=
  sensorAuxiliaryNamesPdrSize - 1 + (1 + (sensorAuxLang.length + 1) + 2 * (name.strlen + 1))

def pdrNumericRecordBytes (sensors : List NumericSensorDesc) : ℕ :=
  (sensors.map fun _ => numericSensorRecordWireSize).sum

def pdrAuxRecordBytes (sensors : List NumericSensorDesc) : ℕ :=
  (sensors.map fun sensor => (sensor.auxName.map pdrAuxNameRecordSize).getD 0).sum

def pdrRepoSize (sensors : List NumericSensorDesc) : ℕ :=
  terminusLocatorPdrSize + pdrNumericRecordBytes sensors + pdrAuxRecordBytes sensors

/-- `PLDM_PDR_PROVIDER_DEFINE`. -/
def providerConfig (sensors : List NumericSensorDesc) : ProviderConfig where
  sensors := sensors
  pdrRecordCapacity := pdrRecordCount sensors
  pdrRepoCapacity := pdrRepoSize sensors

-- ---
-- Looking records up

structure RecordMetadata where
  recordHandle : UInt32
  recordData : List UInt8
  nextRecordHandle : UInt32

def Repository.recordData (repo : Repository) (info : RecordInfo) : List UInt8 :=
  repo.bytes.read info.offset info.length

def findRecordIndex (repo : Repository) (recordHandle : UInt32) : Except Errno ℕ :=
  match repo.records.findIdx? (·.handle = recordHandle) with
  | some i => .ok i
  | none => .error .enoent

/-- The record of a request for the first part; handle 0 asks for the first one. -/
def selectRecord (repo : Repository) (recordHandle : UInt32) : Except Errno ℕ :=
  if recordHandle = 0 then .ok 0 else findRecordIndex repo recordHandle

def getRecordAtIndex (cfg : ProviderConfig) (repo : Repository) (recordIndex : ℕ) :
    Except Errno RecordMetadata :=
  match repo.records[recordIndex]? with
  | none => .error .erange
  | some info =>
    if info.offset > cfg.pdrRepoCapacity ∨ info.length > cfg.pdrRepoCapacity - info.offset then
      .error .einval
    else
      .ok
        { recordHandle := info.handle
          recordData := repo.recordData info
          nextRecordHandle := (repo.records[recordIndex + 1]?.map RecordInfo.handle).getD 0 }

end SystemFirmware.Pldm
