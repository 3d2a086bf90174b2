import SystemFirmware.TtBootFs.Device
import SystemFirmware.Lib.Banks

/-!
# Firmware table — definitions

`drivers/misc/bh_fwtable/bh_fwtable.c`, the boot-time merge of a CCFGOVR bank
into the firmware table, with the messages of `fw_table.proto` and
`fw_table_override.proto`. The decoder (`decode`) and `crc32IeeeUpdate` are
parameters: they are not part of the repository.
-/

namespace SystemFirmware.BhFwtable

open Lib TtBootFs

/-! ## The messages -/

structure ChipLimits where
  asicFmax : UInt32
  vddMax : UInt32
  vddMin : UInt32
  voltageMargin : Int32
  tdpLimit : UInt32
  tdcLimit : UInt32
  thmLimit : UInt32
  tdcFastLimit : UInt32
  thermTripL1Limit : UInt32
  busPeakLimit : UInt32
  frequencyMargin : Int32
  asicFmin : UInt32
  gddrThmLimit : UInt32
  boardPowerLimit : UInt32
  additionalBoardPower : UInt32
  maxTdpLimit : UInt32
  kernelThrottlerStopNopsFreq : UInt32
  gddrThermTripTemp : UInt32
  gddrThermTripCriticalTemp : UInt32
  gddrThermTripDurationMin : UInt32
  deriving DecidableEq, Inhabited

structure FeatureEnable where
  cgEn : Bool
  nocTranslationEn : Bool
  ddrTrainEn : Bool
  aiclkPpmEn : Bool
  watchdogEn : Bool
  smbusEn : Bool
  harvestingEn : Bool
  fanCtrlEn : Bool
  dopplerEn : Bool
  kernelThrottlerAtFloorEn : Bool
  gddrThermTripEn : Bool
  bypassCableFaultDetection : Bool
  deriving DecidableEq, Inhabited

structure FanTable where
  fanTablePointX1 : UInt32
  fanTablePointX2 : UInt32
  fanTablePointY1 : UInt32
  fanTablePointY2 : UInt32
  deriving DecidableEq, Inhabited

structure DramTable where
  dramMask : UInt32
  dramMaskEn : Bool
  softHarvestDramMask : UInt32
  deriving DecidableEq, Inhabited

structure ChipHarvestingTable where
  softHarvestingEn : UInt32
  softHarvesting : UInt32
  deriving DecidableEq, Inhabited

inductive PcieMode where
  | disabled
  | ep
  | rp
  deriving DecidableEq, Inhabited

structure PciPropertyTable where
  maxPcieSpeed : UInt32
  pcieBar0Size : UInt32
  pcieBar2Size : UInt32
  pcieBar4Size : UInt32
  pcieMode : PcieMode
  numSerdes : UInt32
  pcieGen3EqPsetReqVec : UInt32
  pcieGen3EqFbMode : UInt32
  pcieGen4EqPsetReqVec : UInt32
  pcieGen5EqPsetReqVec : UInt32
  deriving DecidableEq, Inhabited

structure EthPropertyTable where
  ethDisableMask : UInt32
  ethDisableMaskEn : Bool
  hasEthSpeedOverride : Bool
  ethSpeedOverride : UInt32
  deriving DecidableEq, Inhabited

structure ProductSpecHarvesting where
  dramDisableCount : UInt32
  ethDisabled : Bool
  tensixColDisableCount : UInt32
  deriving DecidableEq, Inhabited

/-- `FwTable`, with the presence flags of its submessages. -/
structure FwTable where
  fwBundleVersion : UInt32
  hasChipLimits : Bool
  chipLimits : ChipLimits
  hasFeatureEnable : Bool
  featureEnable : FeatureEnable
  hasFanTable : Bool
  fanTable : FanTable
  hasDramTable : Bool
  dramTable : DramTable
  hasChipHarvestingTable : Bool
  chipHarvestingTable : ChipHarvestingTable
  hasPci0PropertyTable : Bool
  pci0PropertyTable : PciPropertyTable
  hasPci1PropertyTable : Bool
  pci1PropertyTable : PciPropertyTable
  hasEthPropertyTable : Bool
  ethPropertyTable : EthPropertyTable
  hasProductSpecHarvesting : Bool
  productSpecHarvesting : ProductSpecHarvesting
  deriving DecidableEq, Inhabited

/-- An `optional` scalar of an override message: its `has_` flag and value. -/
structure Overridable (α : Type) where
  has : Bool
  value : α
  deriving DecidableEq, Inhabited

structure ChipLimitsOverride where
  tdpLimit : Overridable UInt32
  maxTdpLimit : Overridable UInt32
  kernelThrottlerStopNopsFreq : Overridable UInt32
  deriving DecidableEq, Inhabited

structure FeatureEnableOverride where
  kernelThrottlerAtFloorEn : Overridable Bool
  gddrThermTripEn : Overridable Bool
  bypassCableFaultDetection : Overridable Bool
  deriving DecidableEq, Inhabited

structure DramTableOverride where
  softHarvestDramMask : Overridable UInt32
  deriving DecidableEq, Inhabited

structure PciPropertyTableOverride where
  maxPcieSpeed : Overridable UInt32
  deriving DecidableEq, Inhabited

structure EthPropertyTableOverride where
  ethSpeedOverride : Overridable UInt32
  deriving DecidableEq, Inhabited

structure FwTableOverride where
  hasChipLimits : Bool
  chipLimits : ChipLimitsOverride
  hasFeatureEnable : Bool
  featureEnable : FeatureEnableOverride
  hasDramTable : Bool
  dramTable : DramTableOverride
  hasPci0PropertyTable : Bool
  pci0PropertyTable : PciPropertyTableOverride
  hasPci1PropertyTable : Bool
  pci1PropertyTable : PciPropertyTableOverride
  hasEthPropertyTable : Bool
  ethPropertyTable : EthPropertyTableOverride
  deriving DecidableEq, Inhabited

/-! ## Banks -/

def ccfgovrMagic : UInt32 := 0x564F4343

def ccfgovrSeqErased : UInt32 := 0xFFFFFFFF

def ccfgovrHdrVersion : UInt32 := 0

def ccfgovrDecodeBodyMax : ℕ := 512

def ccfgovrTag : BankIdx → List UInt8
  | .a => "ccfgovra".toList.map fun c => UInt8.ofNat c.toNat
  | .b => "ccfgovrb".toList.map fun c => UInt8.ofNat c.toNat

/-- `struct ccfgovr_bank_hdr`. -/
structure CcfgovrBankHdr where
  magic : UInt32
  seq : UInt32
  bodyLen : UInt32
  version : UInt32
  cksum : UInt32
  deriving DecidableEq, Inhabited

def CcfgovrBankHdr.beforeCksum (h : CcfgovrBankHdr) : List UInt8 :=
  le32 h.magic ++ le32 h.seq ++ le32 h.bodyLen ++ le32 h.version

def ccfgovrHdrSize : ℕ := 20

def readHdr (f : Flash) (off : ℕ) : CcfgovrBankHdr where
  magic := ofLe32 (Flash.read f off 4)
  seq := ofLe32 (Flash.read f (off + 4) 4)
  bodyLen := ofLe32 (Flash.read f (off + 8) 4)
  version := ofLe32 (Flash.read f (off + 12) 4)
  cksum := ofLe32 (Flash.read f (off + 16) 4)

def ccfgovrHeaderIsPlausible (h : CcfgovrBankHdr) : Bool :=
  h.magic == ccfgovrMagic && h.seq != ccfgovrSeqErased && h.version == ccfgovrHdrVersion &&
    h.bodyLen.toNat % 4 == 0 && decide (h.bodyLen.toNat ≤ ccfgovrDecodeBodyMax)

/-- `struct ccfgovr_bank_info`; the parts that were not read are zero. -/
structure CcfgovrBankInfo where
  spiAddr : UInt32
  hdr : CcfgovrBankHdr
  headerValid : Bool

/-- Which flash reads for a bank succeed: the descriptor lookup's, the header's, the body's. -/
structure BankReads where
  find : ℕ → Bool
  hdr : Bool
  body : Bool

def ccfgovrReadHeader (ready : Bool) (f : Flash) (reads : BankReads) (tag : List UInt8) :
    CcfgovrBankInfo :=
  match ttBootFsFindFdByTag ready f reads.find (some tag) with
  | .error _ => ⟨0, default, false⟩
  | .ok fd =>
    if flagImageSize fd.flags < ccfgovrHdrSize then ⟨fd.spiAddr, default, false⟩
    else if !reads.hdr then ⟨fd.spiAddr, default, false⟩
    else
      let hdr := readHdr f fd.spiAddr.toNat
      ⟨fd.spiAddr, hdr, ccfgovrHeaderIsPlausible hdr⟩

/-- The states of a bank, `BH_FWTABLE_CCFGOVR_BANK_*`. -/
inductive BankState where
  | empty
  | standby
  | rejected
  | applied
  deriving DecidableEq, Repr

def BankState.toUInt32 : BankState → UInt32
  | .empty => 0
  | .standby => 1
  | .rejected => 2
  | .applied => 3

/-- `BH_FWTABLE_CCFGOVR_STATE_BANK_A`, `BH_FWTABLE_CCFGOVR_STATE_BANK_B`. -/
def stateMask : BankIdx → UInt32
  | .a => 0x3
  | .b => 0xC

def stateShift : BankIdx → UInt32
  | .a => 0
  | .b => 2

def stateHasOverrides : UInt32 := 0x10

/-- The part of `struct bh_fwtable_data` the merge works on. -/
structure BhFwtableData where
  fwTable : FwTable
  ccfgovrState : UInt32
  ccfgovrSeq : UInt32
  deriving DecidableEq, Inhabited

def ccfgovrSetBankState (data : BhFwtableData) (bank : BankIdx) (state : BankState) :
    BhFwtableData :=
  let mask := stateMask bank
  { data with ccfgovrState :=
      (data.ccfgovrState &&& ~~~mask) ||| ((state.toUInt32 <<< stateShift bank) &&& mask) }

/-! ## The merge -/

/-- One branch of the merge: if the section and the field are present in the
override, store the value. -/
def mergeField {α : Type} (sectionPresent : Bool) (o : Overridable α)
    (store : α → FwTable → FwTable) (t : FwTable) : FwTable :=
  if sectionPresent && o.has then store o.value t else t

namespace FwTable

def setTdpLimit (v : UInt32) (t : FwTable) : FwTable := { t with chipLimits.tdpLimit := v }

def setMaxTdpLimit (v : UInt32) (t : FwTable) : FwTable := { t with chipLimits.maxTdpLimit := v }

def setKernelThrottlerStopNopsFreq (v : UInt32) (t : FwTable) : FwTable :=
  { t with chipLimits.kernelThrottlerStopNopsFreq := v }

def setKernelThrottlerAtFloorEn (v : Bool) (t : FwTable) : FwTable :=
  { t with featureEnable.kernelThrottlerAtFloorEn := v }

def setSoftHarvestDramMask (v : UInt32) (t : FwTable) : FwTable :=
  { t with dramTable.softHarvestDramMask := v, hasDramTable := true }

def setGddrThermTripEn (v : Bool) (t : FwTable) : FwTable :=
  { t with featureEnable.gddrThermTripEn := v }

def setBypassCableFaultDetection (v : Bool) (t : FwTable) : FwTable :=
  { t with featureEnable.bypassCableFaultDetection := v }

def setEthSpeedOverride (v : UInt32) (t : FwTable) : FwTable :=
  { t with
    ethPropertyTable.ethSpeedOverride := v
    ethPropertyTable.hasEthSpeedOverride := true
    hasEthPropertyTable := true }

def setPci0MaxPcieSpeed (v : UInt32) (t : FwTable) : FwTable :=
  { t with pci0PropertyTable.maxPcieSpeed := v }

def setPci1MaxPcieSpeed (v : UInt32) (t : FwTable) : FwTable :=
  { t with pci1PropertyTable.maxPcieSpeed := v }

end FwTable

/-- The allow-listed merge, one branch for each field exposed, in the order of
the source. -/
def mergeOverride (ovr : FwTableOverride) (t : FwTable) : FwTable :=
  let limits := ovr.chipLimits
  let features := ovr.featureEnable
  t |> mergeField ovr.hasChipLimits limits.tdpLimit .setTdpLimit
    |> mergeField ovr.hasChipLimits limits.maxTdpLimit .setMaxTdpLimit
    |> mergeField ovr.hasChipLimits limits.kernelThrottlerStopNopsFreq
        .setKernelThrottlerStopNopsFreq
    |> mergeField ovr.hasFeatureEnable features.kernelThrottlerAtFloorEn
        .setKernelThrottlerAtFloorEn
    |> mergeField ovr.hasDramTable ovr.dramTable.softHarvestDramMask .setSoftHarvestDramMask
    |> mergeField ovr.hasFeatureEnable features.gddrThermTripEn .setGddrThermTripEn
    |> mergeField ovr.hasFeatureEnable features.bypassCableFaultDetection
        .setBypassCableFaultDetection
    |> mergeField ovr.hasEthPropertyTable ovr.ethPropertyTable.ethSpeedOverride
        .setEthSpeedOverride
    |> mergeField ovr.hasPci0PropertyTable ovr.pci0PropertyTable.maxPcieSpeed .setPci0MaxPcieSpeed
    |> mergeField ovr.hasPci1PropertyTable ovr.pci1PropertyTable.maxPcieSpeed .setPci1MaxPcieSpeed

section

variable (crc32IeeeUpdate : UInt32 → List UInt8 → UInt32)
  (decode : List UInt8 → Option FwTableOverride)

/-- `ccfgovr_load_and_verify_body`: the body if it can be read and the CRC is right. -/
def ccfgovrLoadAndVerifyBody (f : Flash) (reads : BankReads) (info : CcfgovrBankInfo) :
    Option (List UInt8) :=
  let len := info.hdr.bodyLen.toNat
  if len > ccfgovrDecodeBodyMax then none
  else if len > 0 && !reads.body then none
  else
    -- the address is computed in 32 bits
    let body := Flash.read f (info.spiAddr + UInt32.ofNat ccfgovrHdrSize).toNat len
    let crc := crc32IeeeUpdate (crc32IeeeUpdate 0 info.hdr.beforeCksum) body
    if crc != info.hdr.cksum then none else some body

def tryBanks (f : Flash) (reads : BankIdx → BankReads) (banks : BankIdx → CcfgovrBankInfo) :
    List BankIdx → BhFwtableData → BhFwtableData
  | [], data => data
  | i :: rest, data =>
    match ccfgovrLoadAndVerifyBody crc32IeeeUpdate f (reads i) (banks i) with
    | none => tryBanks f reads banks rest (ccfgovrSetBankState data i .rejected)
    | some body =>
      if (banks i).hdr.bodyLen == 0 then
        { ccfgovrSetBankState data i .applied with ccfgovrSeq := (banks i).hdr.seq }
      else match decode body with
        | none => tryBanks f reads banks rest (ccfgovrSetBankState data i .rejected)
        | some ovr =>
          let data := ccfgovrSetBankState data i .applied
          { fwTable := mergeOverride ovr data.fwTable
            ccfgovrState := data.ccfgovrState ||| stateHasOverrides
            ccfgovrSeq := (banks i).hdr.seq }

def ttBhFwtableApplyCcfgovr (ready : Bool) (f : Flash) (reads : BankIdx → BankReads)
    (data : BhFwtableData) : BhFwtableData :=
  let data := { data with ccfgovrState := 0, ccfgovrSeq := 0 }
  let banks := fun i => ccfgovrReadHeader ready f (reads i) (ccfgovrTag i)
  let valid := fun i => (banks i).headerValid
  let data := ([BankIdx.a, .b].filter valid).foldl
    (fun data i => ccfgovrSetBankState data i .standby) data
  tryBanks crc32IeeeUpdate decode f reads banks
    (newestFirst valid fun i => (banks i).hdr.seq) data

end

end SystemFirmware.BhFwtable
