import SystemFirmware.Pldm.Pdr
import SystemFirmware.Lib.Except
import Mathlib.Algebra.Ring.Nat

/-!
# The PDR provider — the repository is well formed

The static arrays are sized by the preprocessor and filled at run time, by code that
checks its room as it goes. By `providerInit_ok` no check ever fails with the sizes of
`providerConfig`, and what init leaves behind is well formed.
-/

namespace SystemFirmware.Pldm

open Lib

-- ---
-- Well-formed repositories

/-- The record starts with a header that has its handle and the length of what follows. -/
def HasHeader (bytes : Flash) (info : RecordInfo) : Prop :=
  pdrHdrSize ≤ info.length ∧ info.length - pdrHdrSize ≤ 65535 ∧
    ∃ type, bytes.read info.offset pdrHdrSize = pdrHdr info.handle type (info.length - pdrHdrSize)

structure WellFormed (repo : Repository) : Prop where
  tiles : Tiles RecordInfo.offset RecordInfo.length 0 repo.records repo.size
  handles : repo.records.map (·.handle.toNat) = List.range' 1 repo.records.length
  headers : ∀ info ∈ repo.records, HasHeader repo.bytes info
  largest : repo.largestRecordSize = (repo.records.map RecordInfo.length).foldl max 0

section

variable {cfg : ProviderConfig} {repo : Repository} {bytes bytes' : Flash} {info : RecordInfo}
  {recordHandle : UInt32} {recordLen : ℕ} {data : List UInt8} {type : UInt8}

@[simp] theorem length_records_addRecord :
    (repo.addRecord bytes recordHandle recordLen).records.length = repo.records.length + 1 := by
  simp [Repository.addRecord]

@[simp] theorem size_addRecord :
    (repo.addRecord bytes recordHandle recordLen).size = repo.size + recordLen := rfl

theorem wellFormed_empty : WellFormed {} where
  tiles := rfl
  handles := rfl
  headers := by simp
  largest := rfl

variable {length : ℕ}

theorem length_pdrHdr : (pdrHdr recordHandle type length).length = pdrHdrSize := rfl

theorem HasHeader.congr (h : HasHeader bytes info)
    (hsame : ∀ i < pdrHdrSize, bytes' (info.offset + i) = bytes (info.offset + i)) :
    HasHeader bytes' info := by
  obtain ⟨hlen, hfits, type, hread⟩ := h
  exact ⟨hlen, hfits, type, (Flash.read_congr hsame).trans hread⟩

theorem WellFormed.addRecord (h : WellFormed repo)
    (hbelow : ∀ a < repo.size, bytes a = repo.bytes a)
    (hhandle : recordHandle.toNat = repo.records.length + 1)
    (hheader : HasHeader bytes ⟨recordHandle, repo.size, recordLen⟩) :
    WellFormed (repo.addRecord bytes recordHandle recordLen) where
  tiles := h.tiles.snoc rfl
  handles := by
    simp only [Repository.addRecord, List.map_append, List.map_cons, List.map_nil, h.handles,
      List.length_append, List.length_singleton, List.range'_concat, hhandle]
    rw [Nat.one_mul, Nat.add_comm 1]
  headers := by
    intro info hmem
    rcases List.mem_append.mp hmem with hold | hnew
    · have hin := h.tiles.bounds hold
      have hhdr := h.headers info hold
      refine hhdr.congr fun i hi => hbelow _ ?_
      have := hhdr.1
      omega
    · rw [List.mem_singleton.mp hnew]
      exact hheader
  largest := by simp [Repository.addRecord, h.largest]

-- ---
-- Appending

theorem store_eq_ok {off : ℕ} (h : off + data.length ≤ cfg.pdrRepoCapacity) :
    store cfg bytes off data = .ok (bytes.program off data) := if_pos h

theorem store_below {off : ℕ} (h : off + data.length ≤ cfg.pdrRepoCapacity) :
    ∃ bytes', store cfg bytes off data = .ok bytes' ∧ ∀ a < off, bytes' a = bytes a :=
  ⟨_, store_eq_ok h, fun _ ha => Flash.program_outside (.inl ha)⟩

theorem hasHeader_program {length off : ℕ} {rest : List UInt8}
    (hlen : length - pdrHdrSize ≤ 65535) (hsize : pdrHdrSize ≤ length) :
    HasHeader (bytes.program off (pdrHdr recordHandle type (length - pdrHdrSize) ++ rest))
      ⟨recordHandle, off, length⟩ := by
  refine ⟨hsize, hlen, type, ?_⟩
  exact (Flash.read_program (k := 0) (by simp [length_pdrHdr])).trans
    (List.take_left' length_pdrHdr)

theorem appendRecord_ok {rest : List UInt8} (h : WellFormed repo)
    (hhandle : recordHandle.toNat = repo.records.length + 1)
    (hdata : data = pdrHdr recordHandle type (data.length - pdrHdrSize) ++ rest)
    (hlen : data.length - pdrHdrSize ≤ 65535)
    (hroom : repo.records.length < cfg.pdrRecordCapacity)
    (hfits : repo.size + data.length ≤ cfg.pdrRepoCapacity) :
    ∃ bytes, appendRecord cfg repo recordHandle data =
        .ok (repo.addRecord bytes recordHandle data.length) ∧
      WellFormed (repo.addRecord bytes recordHandle data.length) := by
  have hsize : pdrHdrSize ≤ data.length := by
    rw [hdata, List.length_append, length_pdrHdr]
    exact Nat.le_add_right ..
  refine ⟨repo.bytes.program repo.size data, ?_, ?_⟩
  · simp only [appendRecord, Nat.not_le.mpr hroom, gt_iff_lt, if_false,
      Nat.not_lt.mpr hfits, store_eq_ok hfits]
    rfl
  · refine h.addRecord (fun a ha => Flash.program_outside (.inl ha)) hhandle ?_
    have := @hasHeader_program repo.bytes recordHandle type data.length repo.size rest hlen hsize
    rwa [← hdata] at this

theorem bufAppend_ok {values : List (List UInt8)} {remaining : ℕ}
    (h : values.flatten.length ≤ remaining) : bufAppend remaining values = .ok values.flatten := by
  induction values generalizing remaining with
  | nil => rfl
  | cons value values ih =>
    rw [List.flatten_cons, List.length_append] at h
    simp only [bufAppend, Nat.not_lt.mpr (Nat.le_trans (Nat.le_add_right ..) h), if_false,
      ih (Nat.le_sub_of_add_le' h)]
    rfl

variable {pdr : NumericSensorValuePdr}

theorem length_numericSensorFields :
    (numericSensorFields recordHandle pdr).flatten.length = numericSensorRecordWireSize := rfl

theorem encodeNumericSensorRecord_ok :
    encodeNumericSensorRecord recordHandle pdr numericSensorRecordWireSize =
      .ok (numericSensorFields recordHandle pdr).flatten :=
  bufAppend_ok (Nat.le_of_eq length_numericSensorFields)

theorem encodeUtf16beTerminated_ok {dstLen out : ℕ} {chars : List UInt8}
    (h : out + 2 * (chars.length + 1) ≤ dstLen) :
    (encodeUtf16beTerminated dstLen chars out).1.length = 2 * (chars.length + 1) ∧
      (encodeUtf16beTerminated dstLen chars out).2 = out + 2 * (chars.length + 1) := by
  induction chars generalizing out with
  | nil =>
    have hroom : ¬ out + 2 > dstLen := by simpa using h
    simp [encodeUtf16beTerminated, hroom]
  | cons c cs ih =>
    rw [List.length_cons] at h ⊢
    obtain ⟨hlen, hret⟩ := @ih (out + 2) (by omega)
    have hroom : ¬ out + 2 > dstLen := by omega
    simp only [encodeUtf16beTerminated, hroom, if_false, List.length_cons, hlen, hret]
    exact ⟨by omega, by omega⟩

variable {name : CString}

theorem pdrAuxNameRecordSize_eq : pdrAuxNameRecordSize name = 21 + 2 * name.chars.length := by
  simp only [pdrAuxNameRecordSize, sensorAuxiliaryNamesPdrSize, sensorAuxLang, CString.strlen,
    List.length_cons, List.length_nil]
  omega

variable {sensorId : UInt16}

theorem length_sensorAuxiliaryNamesPdr :
    (sensorAuxiliaryNamesPdr recordHandle sensorId length).length = 15 := rfl

theorem appendSensorAuxNameRecord_ok {sensorId : UInt16} (h : WellFormed repo)
    (hhandle : recordHandle.toNat = repo.records.length + 1)
    (hlen : pdrAuxNameRecordSize name - pdrHdrSize ≤ 65535)
    (hroom : repo.records.length < cfg.pdrRecordCapacity)
    (hfits : repo.size + pdrAuxNameRecordSize name ≤ cfg.pdrRepoCapacity) :
    ∃ bytes, appendSensorAuxNameRecord cfg repo recordHandle sensorId name =
        .ok (repo.addRecord bytes recordHandle (pdrAuxNameRecordSize name)) ∧
      WellFormed (repo.addRecord bytes recordHandle (pdrAuxNameRecordSize name)) := by
  have hsize := @pdrAuxNameRecordSize_eq name
  obtain ⟨p, hp⟩ : ∃ p, p = encodeUtf16beTerminated
    (cfg.pdrRepoCapacity - repo.size - (16 - 1) - 4) name.chars 0 := ⟨_, rfl⟩
  obtain ⟨hwritten, hret⟩ : p.1.length = 2 * (name.chars.length + 1) ∧
      p.2 = 0 + 2 * (name.chars.length + 1) := by
    rw [hp]
    exact encodeUtf16beTerminated_ok (by omega)
  have hrecord : 16 - 1 + (4 + p.2) = pdrAuxNameRecordSize name := by omega
  have hpayload : 16 - 10 - 1 + (4 + p.2) = pdrAuxNameRecordSize name - 10 := by omega
  have hlen' : ¬ pdrAuxNameRecordSize name - 10 > 65535 := Nat.not_lt.mpr hlen
  -- the names are stored behind the place of the header, and the header last
  obtain ⟨bytes₁, hstore₁, hbelow₁⟩ :=
    @store_below cfg repo.bytes (1 :: sensorAuxLang ++ [0]) (repo.size + (16 - 1))
      (by simp [sensorAuxLang]; omega)
  obtain ⟨bytes₂, hstore₂, hbelow₂⟩ :=
    @store_below cfg bytes₁ p.1 (repo.size + (16 - 1) + 4) (by omega)
  obtain ⟨hdr, hhdr⟩ : ∃ hdr, hdr =
    sensorAuxiliaryNamesPdr recordHandle sensorId (pdrAuxNameRecordSize name - 10) := ⟨_, rfl⟩
  have hstore₃ := @store_eq_ok cfg bytes₂ hdr repo.size
    (by rw [hhdr, length_sensorAuxiliaryNamesPdr]; omega)
  refine ⟨bytes₂.program repo.size hdr, ?_, h.addRecord ?_ hhandle ?_⟩
  · have hcap : ¬ repo.size > cfg.pdrRepoCapacity := by omega
    have hpdr : ¬ cfg.pdrRepoCapacity - repo.size < 16 := by omega
    have hprefix : ¬ cfg.pdrRepoCapacity - repo.size - (16 - 1) < 4 := by omega
    have hnonzero : p.2 ≠ 0 := by omega
    have hnames : namesPrefixLen = 4 := rfl
    simp only [appendSensorAuxNameRecord, sensorAuxiliaryNamesPdrSize, pdrHdrSize, hnames,
      Nat.not_le.mpr hroom, hcap, hpdr, hprefix, hnonzero, hlen', hrecord, hpayload, hstore₁,
      hstore₂, hstore₃, ← hp, ← hhdr, if_false, bind, Except.bind, pure, Except.pure]
  · intro a ha
    rw [Flash.program_outside (.inl ha), hbelow₂ a (by omega), hbelow₁ a (by omega)]
  · rw [hhdr]
    exact hasHeader_program hlen (show 10 ≤ _ by omega)

-- ---
-- Init

/-- What the preprocessor reserves for one sensor, in records and in bytes. -/
def NumericSensorDesc.reserved (sensor : NumericSensorDesc) : ℕ × ℕ :=
  (1 + if sensor.auxName.isSome then 1 else 0,
    numericSensorRecordWireSize + (sensor.auxName.map pdrAuxNameRecordSize).getD 0)

/-- The payload of the sensor's name record fits its header. -/
def NumericSensorDesc.NameFits (sensor : NumericSensorDesc) : Prop :=
  ∀ name ∈ sensor.auxName, pdrAuxNameRecordSize name - pdrHdrSize ≤ 65535

theorem ofNat_add_one {n : ℕ} : UInt32.ofNat n + 1 = UInt32.ofNat (n + 1) := by
  rw [UInt32.ofNat_add]
  rfl

theorem appendNumericSensor_ok {pdr : NumericSensorValuePdr} (h : WellFormed repo)
    (hhandle : recordHandle.toNat = repo.records.length + 1)
    (hroom : repo.records.length < cfg.pdrRecordCapacity)
    (hfits : repo.size + numericSensorRecordWireSize ≤ cfg.pdrRepoCapacity) :
    ∃ bytes, appendRecord cfg repo recordHandle (numericSensorFields recordHandle pdr).flatten =
        .ok (repo.addRecord bytes recordHandle numericSensorRecordWireSize) ∧
      WellFormed (repo.addRecord bytes recordHandle numericSensorRecordWireSize) :=
  appendRecord_ok h hhandle rfl (show 95 ≤ 65535 by decide) hroom hfits

/-- The repository grew by no more than a reserved number of records and bytes. -/
structure Grows (repo repo' : Repository) (reserved : ℕ × ℕ) : Prop where
  kept : repo.records.length ≤ repo'.records.length
  records : repo'.records.length ≤ repo.records.length + reserved.1
  size : repo'.size ≤ repo.size + reserved.2

variable {sensor : NumericSensorDesc}

theorem appendSensor_ok (h : WellFormed repo) (hname : sensor.NameFits)
    (hroom : repo.records.length + sensor.reserved.1 ≤ cfg.pdrRecordCapacity)
    (hfits : repo.size + sensor.reserved.2 ≤ cfg.pdrRepoCapacity)
    (hcap : cfg.pdrRecordCapacity < UInt32.size) :
    ∃ repo', appendSensor cfg (UInt32.ofNat repo.records.length) repo sensor =
        .ok (UInt32.ofNat repo'.records.length, repo') ∧ WellFormed repo' ∧
      Grows repo repo' sensor.reserved := by
  simp only [NumericSensorDesc.reserved] at hroom hfits ⊢
  obtain ⟨bytes, happend, hwf⟩ := @appendNumericSensor_ok cfg repo
    (UInt32.ofNat (repo.records.length + 1)) sensor.toPdr h
    (UInt32.toNat_ofNat_of_lt' (by omega)) (by omega) (by omega)
  obtain ⟨repo₁, hrepo₁⟩ : ∃ repo₁, repo₁ = repo.addRecord bytes
    (UInt32.ofNat (repo.records.length + 1)) numericSensorRecordWireSize := ⟨_, rfl⟩
  have hcount : repo₁.records.length = repo.records.length + 1 := by simp [hrepo₁]
  have hsize : repo₁.size = repo.size + numericSensorRecordWireSize := by simp [hrepo₁]
  rw [← hrepo₁] at happend hwf
  simp only [appendSensor, encodeNumericSensorRecord_ok, length_numericSensorFields, ne_eq,
    not_true_eq_false, if_false, ofNat_add_one, happend, bind, Except.bind, pure, Except.pure]
  cases hn : sensor.auxName with
  | none => exact ⟨repo₁, by rw [hcount], hwf, by omega, by dsimp only; omega, by dsimp only; omega⟩
  | some name =>
    simp only [hn, Option.isSome_some, if_true, Option.map_some, Option.getD_some] at hroom hfits ⊢
    by_cases hempty : name.chars.isEmpty = true
    · exact ⟨repo₁, by simp only [hempty, if_true, hcount], hwf, by omega, by dsimp only; omega,
        by dsimp only; omega⟩
    · obtain ⟨bytes₂, happend₂, hwf₂⟩ := @appendSensorAuxNameRecord_ok cfg repo₁
        (UInt32.ofNat (repo₁.records.length + 1)) name sensor.sensorId hwf
        (UInt32.toNat_ofNat_of_lt' (by omega)) (hname name hn) (by omega) (by omega)
      rw [hcount] at happend₂
      refine ⟨_, ?_, hwf₂, ?_, ?_, ?_⟩
      · simp only [hempty, Bool.false_eq_true, if_false, hcount, happend₂, length_records_addRecord]
      · rw [length_records_addRecord]
        omega
      · rw [length_records_addRecord, hcount, Nat.add_assoc]
      · rw [size_addRecord, hsize, Nat.add_assoc]

variable {sensors : List NumericSensorDesc}

theorem appendSensors_ok (h : WellFormed repo) (hname : ∀ sensor ∈ sensors, sensor.NameFits)
    (hroom : repo.records.length + (sensors.map (·.reserved.1)).sum ≤ cfg.pdrRecordCapacity)
    (hfits : repo.size + (sensors.map (·.reserved.2)).sum ≤ cfg.pdrRepoCapacity)
    (hcap : cfg.pdrRecordCapacity < UInt32.size) :
    ∃ repo', appendSensors cfg sensors (UInt32.ofNat repo.records.length) repo = .ok repo' ∧
      WellFormed repo' ∧ repo.records.length ≤ repo'.records.length ∧
      repo'.size ≤ cfg.pdrRepoCapacity := by
  -- on the sensors still to come, which fit into what is left of both arrays
  induction sensors generalizing repo with
  | nil => exact ⟨repo, rfl, h, Nat.le_refl _, hfits⟩
  | cons sensor sensors ih =>
    simp only [List.map_cons, List.sum_cons] at hroom hfits
    obtain ⟨repo₁, happend, hwf, hkept, hrecords, hsize⟩ :=
      appendSensor_ok h (hname sensor List.mem_cons_self) (by omega) (by omega) hcap
    obtain ⟨repo', hrest, hwf', hkept', hsize'⟩ :=
      ih hwf (fun s hs => hname s (List.mem_cons_of_mem _ hs)) (by omega) (by omega)
    refine ⟨repo', ?_, hwf', Nat.le_trans hkept hkept', hsize'⟩
    simp only [appendSensors, happend, hrest, bind, Except.bind]

theorem pdrRecordCount_eq : pdrRecordCount sensors = 1 + (sensors.map (·.reserved.1)).sum := by
  rw [pdrRecordCount, pdrAuxCount, Nat.add_assoc]
  induction sensors with
  | nil => rfl
  | cons sensor sensors ih =>
    simp only [List.map_cons, List.sum_cons, List.length_cons, NumericSensorDesc.reserved] at ih ⊢
    omega

theorem pdrRepoSize_eq :
    pdrRepoSize sensors = terminusLocatorPdrSize + (sensors.map (·.reserved.2)).sum := by
  rw [pdrRepoSize, pdrNumericRecordBytes, pdrAuxRecordBytes, Nat.add_assoc]
  induction sensors with
  | nil => rfl
  | cons sensor sensors ih =>
    simp only [List.map_cons, List.sum_cons, NumericSensorDesc.reserved] at ih ⊢
    omega

variable {sensors : List NumericSensorDesc}

theorem pdrRecordCount_le_pdrRepoSize : pdrRecordCount sensors ≤ pdrRepoSize sensors := by
  rw [pdrRecordCount_eq, pdrRepoSize_eq]
  induction sensors with
  | nil => decide
  | cons sensor sensors ih =>
    have hsensor : sensor.reserved.1 ≤ sensor.reserved.2 := by
      simp only [NumericSensorDesc.reserved, numericSensorRecordWireSize,
        numericSensorPdrFixedLength]
      split <;> omega
    simp only [List.map_cons, List.sum_cons]
    omega

theorem providerInit_ok (hname : ∀ sensor ∈ sensors, sensor.NameFits)
    (hsize : pdrRepoSize sensors < UInt32.size) :
    ∃ repo, providerInit (providerConfig sensors) = .ok repo ∧ WellFormed repo ∧
      repo.records ≠ [] ∧ repo.size ≤ pdrRepoSize sensors := by
  have hrecords := @pdrRecordCount_eq sensors
  have hbytes := @pdrRepoSize_eq sensors
  have hcap : pdrRecordCount sensors < UInt32.size :=
    Nat.lt_of_le_of_lt pdrRecordCount_le_pdrRepoSize hsize
  obtain ⟨bytes, happend, hwf⟩ := @appendRecord_ok (providerConfig sensors) {} pdrRecordHandle
    (terminusLocatorPdr pdrRecordHandle) terminusLocatorPdrType _ wellFormed_empty rfl rfl
    (by decide) (show 0 < pdrRecordCount sensors by omega)
    (show 0 + terminusLocatorPdrSize ≤ pdrRepoSize sensors by omega)
  obtain ⟨repo, hrest, hwf', hkept, hfits⟩ := @appendSensors_ok (providerConfig sensors) _ sensors hwf hname
    (Nat.le_of_eq hrecords.symm) (Nat.le_of_eq hbytes.symm) hcap
  refine ⟨repo, ?_, hwf', ?_, hfits⟩
  · simp only [providerInit, happend, bind, Except.bind]
    exact hrest
  · rintro hnil
    simp [hnil] at hkept

-- ---
-- A name that does not fit makes init fail

theorem encodeUtf16beTerminated_ret {dstLen out : ℕ} {chars : List UInt8} :
    (encodeUtf16beTerminated dstLen chars out).2 = 0 ∨
      (encodeUtf16beTerminated dstLen chars out).2 = out + 2 * (chars.length + 1) := by
  induction chars generalizing out with
  | nil =>
    simp only [encodeUtf16beTerminated]
    split
    · exact .inl rfl
    · exact .inr rfl
  | cons c cs ih =>
    simp only [encodeUtf16beTerminated]
    split
    · exact .inl rfl
    · rcases @ih (out + 2) with hz | hs
      · exact .inl hz
      · refine .inr (hs.trans ?_)
        rw [List.length_cons]
        omega

variable {repo' : Repository}

theorem nameFits_of_appendAux
    (h : appendSensorAuxNameRecord cfg repo recordHandle sensorId name = .ok repo') :
    pdrAuxNameRecordSize name - pdrHdrSize ≤ 65535 := by
  simp only [appendSensorAuxNameRecord, bind, Except.bind, pure, Except.pure, throw, throwThe,
    MonadExceptOf.throw] at h
  -- the checks in front of the one for the length
  iterate 7
    split at h
    · cases h
  split at h
  · cases h
  rename_i hzero hfits
  have hret := (@encodeUtf16beTerminated_ret (cfg.pdrRepoCapacity - repo.size -
    (sensorAuxiliaryNamesPdrSize - 1) - namesPrefixLen) 0 name.chars).resolve_left hzero
  have hnames : namesPrefixLen = 4 := rfl
  rw [hret, hnames] at hfits
  rw [pdrAuxNameRecordSize_eq]
  simp only [sensorAuxiliaryNamesPdrSize, pdrHdrSize] at hfits ⊢
  omega

theorem nameFits_of_appendSensor {result : UInt32 × Repository}
    (h : appendSensor cfg recordHandle repo sensor = .ok result) : sensor.NameFits := by
  intro name hname
  by_cases hempty : name.chars = []
  · rw [pdrAuxNameRecordSize_eq, hempty]
    decide
  · simp only [appendSensor, encodeNumericSensorRecord_ok, length_numericSensorFields, ne_eq,
      not_true_eq_false, if_false, Option.mem_def.mp hname, List.isEmpty_iff, hempty, bind,
      Except.bind] at h
    split at h
    · cases h
    split at h
    · cases h
    rename_i happend
    exact nameFits_of_appendAux happend

theorem nameFits_of_appendSensors (h : appendSensors cfg sensors recordHandle repo = .ok repo') :
    ∀ sensor ∈ sensors, sensor.NameFits := by
  induction sensors generalizing recordHandle repo with
  | nil => simp
  | cons sensor sensors ih =>
    obtain ⟨appended, hsensor, hrest⟩ := bind_eq_ok.mp h
    intro s hs
    rcases List.mem_cons.mp hs with rfl | hmem
    · exact nameFits_of_appendSensor hsensor
    · exact ih hrest s hmem

theorem wellFormed_of_init (hinit : providerInit (providerConfig sensors) = .ok repo)
    (hsize : pdrRepoSize sensors < UInt32.size) :
    WellFormed repo ∧ repo.size ≤ pdrRepoSize sensors := by
  have hname : ∀ sensor ∈ sensors, sensor.NameFits := by
    obtain ⟨repo₀, hlocator, hsensors⟩ := bind_eq_ok.mp hinit
    exact nameFits_of_appendSensors hsensors
  obtain ⟨repo', hinit', hwf, -, hfits⟩ := providerInit_ok hname hsize
  obtain rfl := Except.ok.inj (hinit.symm.trans hinit')
  exact ⟨hwf, hfits⟩

-- ---
-- Reading all records

/-- The handles read by following `next_record_handle` from `recordHandle` on, until it is 0. -/
def followHandles (cfg : ProviderConfig) (repo : Repository) : ℕ → UInt32 → Option (List UInt32)
  | 0, _ => none
  | fuel + 1, recordHandle => do
    let recordIndex ← (selectRecord repo recordHandle).toOption
    let record ← (getRecordAtIndex cfg repo recordIndex).toOption
    if record.nextRecordHandle = 0 then
      return [record.recordHandle]
    let rest ← followHandles cfg repo fuel record.nextRecordHandle
    return record.recordHandle :: rest

variable {i : ℕ}

section

variable (h : WellFormed repo) (hi : repo.records[i]? = some info)
include h hi

theorem WellFormed.toNat_handle : info.handle.toNat = i + 1 := by
  have hlt := (List.getElem?_eq_some_iff.mp hi).1
  have heq := congrArg (·[i]?) h.handles
  simp only [List.getElem?_map, hi, Option.map_some, List.getElem?_range' hlt,
    Option.some.injEq] at heq
  omega

theorem WellFormed.handle_ne_zero : info.handle ≠ 0 := by
  intro hzero
  have := h.toNat_handle hi
  rw [hzero] at this
  exact absurd this (by simp)

theorem WellFormed.index_unique {j : ℕ} {info' : RecordInfo} (hj : repo.records[j]? = some info')
    (heq : info.handle = info'.handle) : i = j := by
  have h₁ := h.toNat_handle hi
  have h₂ := h.toNat_handle hj
  rw [heq] at h₁
  omega

theorem WellFormed.selectRecord_ok : selectRecord repo info.handle = .ok i := by
  have hfound : repo.records.findIdx? (·.handle = info.handle) = some i := by
    obtain ⟨hlt, hget⟩ := List.getElem?_eq_some_iff.mp hi
    refine List.findIdx?_eq_some_iff_getElem.mpr ⟨hlt, by simp [hget], fun j hj => ?_⟩
    intro heq
    have hj' : repo.records[j]? = some repo.records[j] :=
      List.getElem?_eq_getElem (Nat.lt_trans hj hlt)
    have := h.index_unique hj' hi (of_decide_eq_true heq)
    omega
  simp only [selectRecord, h.handle_ne_zero hi, if_false, findRecordIndex, hfound]

end

/-- The handle of the record behind the one at an index, 0 if there is none. -/
def Repository.nextHandle (repo : Repository) (i : ℕ) : UInt32 :=
  (repo.records[i + 1]?.map RecordInfo.handle).getD 0

theorem WellFormed.getRecordAtIndex_ok (h : WellFormed repo)
    (hcap : repo.size ≤ cfg.pdrRepoCapacity) (hi : repo.records[i]? = some info) :
    getRecordAtIndex cfg repo i = .ok ⟨info.handle, repo.recordData info, repo.nextHandle i⟩ := by
  have hin := h.tiles.bounds (List.mem_of_getElem? hi)
  have hok : ¬ (info.offset > cfg.pdrRepoCapacity ∨
      info.length > cfg.pdrRepoCapacity - info.offset) := by omega
  simp only [getRecordAtIndex, hi, hok, if_false]
  rfl

theorem followHandles_eq {fuel : ℕ} (h : WellFormed repo) (hcap : repo.size ≤ cfg.pdrRepoCapacity)
    (hselect : selectRecord repo recordHandle = .ok i) (hi : i < repo.records.length)
    (hfuel : repo.records.length - i ≤ fuel) :
    followHandles cfg repo fuel recordHandle =
      some ((repo.records.drop i).map RecordInfo.handle) := by
  induction fuel generalizing i recordHandle with
  | zero => omega
  | succ fuel ih =>
    have hget := List.getElem?_eq_getElem hi
    rw [List.drop_eq_getElem_cons hi, List.map_cons]
    simp only [followHandles, hselect, h.getRecordAtIndex_ok hcap hget, Except.toOption,
      Option.bind_eq_bind, Option.bind_some, Option.pure_def]
    by_cases hlast : i + 1 < repo.records.length
    · have hnext := List.getElem?_eq_getElem hlast
      have hhandle : repo.nextHandle i = repo.records[i + 1].handle := by
        simp only [Repository.nextHandle, hnext, Option.map_some, Option.getD_some]
      have hrest := ih (h.selectRecord_ok hnext) hlast (by omega)
      simp only [hhandle, h.handle_ne_zero hnext, if_false, hrest, Option.bind_some]
    · have hnone : repo.records[i + 1]? = none := List.getElem?_eq_none (by omega)
      have hhandle : repo.nextHandle i = 0 := by
        simp only [Repository.nextHandle, hnone, Option.map_none, Option.getD_none]
      have hdrop : repo.records.drop (i + 1) = [] := List.drop_eq_nil_of_le (by omega)
      simp only [hhandle, if_true, hdrop, List.map_nil]

theorem HasHeader.fields (h : HasHeader bytes info) :
    ofLe32 (bytes.read info.offset 4) = info.handle ∧
      (ofLe16 (bytes.read (info.offset + 8) 2)).toNat = info.length - pdrHdrSize := by
  obtain ⟨-, hfits, type, hread⟩ := h
  have hhandle := congrArg (List.take 4) hread
  have hlength := congrArg (List.drop 8) hread
  rw [Flash.take_read (by decide)] at hhandle
  rw [Flash.drop_read] at hlength
  constructor
  · rw [hhandle]
    exact ofLe32_le32
  · refine (congrArg (fun bs => (ofLe16 bs).toNat) hlength).trans ?_
    show (ofLe16 (le16 _)).toNat = _
    rw [ofLe16_le16]
    exact UInt16.toNat_ofNat_of_lt' (Nat.lt_succ_of_le hfits)

/-- **The PDR repository is well formed**, whatever sensors the devicetree has, as long as every
name record's payload fits its 16-bit length field. Init returns 0 and stores nothing outside;
the records tile the used part; their handles are 1 to n; the headers have the records' lengths;
and following the next handles from 0 on comes by every record once. `hsize`: the sizes of the
machine have 32 bits. -/
theorem repository_well_formed (sensors : List NumericSensorDesc)
    (hname : ∀ sensor ∈ sensors, sensor.NameFits) (hsize : pdrRepoSize sensors < UInt32.size) :
    ∃ repo, providerInit (providerConfig sensors) = .ok repo ∧
      Tiles RecordInfo.offset RecordInfo.length 0 repo.records repo.size ∧
      repo.records.map (·.handle.toNat) = List.range' 1 repo.records.length ∧
      (∀ info ∈ repo.records, ofLe32 (repo.bytes.read info.offset 4) = info.handle ∧
        pdrHdrSize ≤ info.length ∧
        (ofLe16 (repo.bytes.read (info.offset + 8) 2)).toNat = info.length - pdrHdrSize) ∧
      repo.largestRecordSize = (repo.records.map RecordInfo.length).foldl max 0 ∧
      followHandles (providerConfig sensors) repo repo.records.length 0 =
        some (repo.records.map RecordInfo.handle) := by
  obtain ⟨repo, hinit, hwf, hne, hfits⟩ := providerInit_ok hname hsize
  refine ⟨repo, hinit, hwf.tiles, hwf.handles, ?_, hwf.largest, ?_⟩
  · intro info hmem
    have hheader := hwf.headers info hmem
    exact ⟨hheader.fields.1, hheader.1, hheader.fields.2⟩
  · exact followHandles_eq hwf hfits rfl (List.length_pos_iff.mpr hne) (Nat.sub_le ..)

end

def threeSensors : List NumericSensorDesc :=
  [ { sensorId := 1, baseUnit := 2, unitModifier := 0, auxName := some ⟨[0x54], by decide⟩ },
    { sensorId := 2, baseUnit := 5, unitModifier := -3, auxName := some ⟨[], by decide⟩ },
    { sensorId := 3, baseUnit := 6, unitModifier := -3 } ]

theorem threeSensors_well_formed : ∃ repo, providerInit (providerConfig threeSensors) = .ok repo ∧
    followHandles (providerConfig threeSensors) repo repo.records.length 0 =
      some (repo.records.map RecordInfo.handle) := by
  have hname : ∀ sensor ∈ threeSensors, sensor.NameFits := by
    simp [threeSensors, NumericSensorDesc.NameFits, pdrAuxNameRecordSize_eq, pdrHdrSize]
  obtain ⟨repo, hinit, -, -, -, -, hwalk⟩ := repository_well_formed threeSensors hname (by decide)
  exact ⟨repo, hinit, hwalk⟩

end SystemFirmware.Pldm
