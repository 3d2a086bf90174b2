import SystemFirmware.Noc.Definitions

/-!
# Harvesting — definitions

`CalculateHarvesting` of `lib/tenstorrent/bh_arc/harvesting.c`: which tiles of the chip
may be used, from the fuses and the firmware table, and
`InitNocTranslationFromHarvesting` of `noc_init.c`, which derives the arguments of
`InitNocTranslation` from the result. A fuse word that could not be read is 0.
-/

namespace SystemFirmware.Harvesting

open Lib
open Noc (kTensixEthNoc0X nocXSize noBadGddr Translations initNocTranslation)

/-! ## Fuses -/

abbrev Efuse := ℕ → BitVec 32

/-- `ReadFunctionalEfuse`: the bits `startBit` to `endBit`, which may span two words. -/
def readFunctionalEfuse (efuse : Efuse) (startBit endBit : ℕ) : BitVec 32 :=
  let index := startBit / 32
  let data := (efuse index).setWidth 64 ||| ((efuse (index + 1)).setWidth 64 <<< 32)
  (data.extractLsb' (startBit % 32) (endBit - startBit + 1)).setWidth 32

def asicIdOld (efuse : Efuse) : BitVec 32 := readFunctionalEfuse efuse 1056 1071

/-- `ATE_TENSIX_ROWn_TEST_STATUS`, for `n` from 0 to 9. -/
def ateTensixRowTestStatus (efuse : Efuse) (n : ℕ) : BitVec 32 :=
  readFunctionalEfuse efuse (3168 + 32 * n) (3199 + 32 * n)

def ateDdrTestStatus (efuse : Efuse) : BitVec 32 := readFunctionalEfuse efuse 3504 3511

def atePcieSpeedTest (efuse : Efuse) : BitVec 32 := readFunctionalEfuse efuse 3512 3515

def ateRiscvL2TestStatus (efuse : Efuse) : BitVec 32 := readFunctionalEfuse efuse 3520 3535

def ateEthCtrlTestStatus (efuse : Efuse) : BitVec 32 := readFunctionalEfuse efuse 3536 3551

def sltAteSltStatus (efuse : Efuse) : BitVec 32 := readFunctionalEfuse efuse 4160 4161

def sltFuseMapVersion (efuse : Efuse) : BitVec 32 := readFunctionalEfuse efuse 4162 4191

def sltSltBinning (efuse : Efuse) : BitVec 32 := readFunctionalEfuse efuse 4192 4223

def sltDdrTestStatus16G (efuse : Efuse) : BitVec 32 := readFunctionalEfuse efuse 5472 5479

def sltDdrTestStatus14G (efuse : Efuse) : BitVec 32 := readFunctionalEfuse efuse 5480 5487

def sltDdrTestStatus12G (efuse : Efuse) : BitVec 32 := readFunctionalEfuse efuse 5488 5495

def sltEthCtrlTestStatus (efuse : Efuse) : BitVec 32 := readFunctionalEfuse efuse 5520 5535

def sltHarvestedTensixColumns (efuse : Efuse) : BitVec 32 := readFunctionalEfuse efuse 5536 5551

/-! ## The tables -/

structure TileEnable where
  tensixColEnabled : BitVec 16
  ethEnabled : BitVec 16
  eth5Serdes : Bool
  eth8Serdes : Bool
  ethSerdesConnected : BitVec 16
  gddrEnabled : BitVec 8
  l2cpuEnabled : BitVec 8
  pcieEnabled : BitVec 8
  pcieUsage : Fin 2 → UInt8
  pcieNumSerdes : Fin 2 → ℕ

structure PciPropertyTable where
  pcieMode : UInt32
  numSerdes : UInt32

structure FwTable where
  harvestingEn : Bool
  nocTranslationEn : Bool
  hasDramTable : Bool
  softHarvestDramMask : BitVec 32
  dramDisableCount : UInt32
  ethDisabled : Bool
  tensixColDisableCount : UInt32
  pciPropertyTable : Fin 2 → PciPropertyTable

def pcieModeDisabled : UInt8 := 0

def pcieModeEp : UInt8 := 1

def popcount {w : ℕ} (x : BitVec w) : ℕ := (bits x).length

/-! ## Harvesting -/

def allEnabled : TileEnable where
  tensixColEnabled := 0x3fff#16
  ethEnabled := 0x3fff#16
  eth5Serdes := true
  eth8Serdes := true
  ethSerdesConnected := 0xfff#16
  gddrEnabled := 0xff#8
  l2cpuEnabled := 0xf#8
  pcieEnabled := 0x3#8
  pcieUsage := fun _ => 0
  pcieNumSerdes := fun _ => 0

def fusesValid (efuse : Efuse) : Bool := asicIdOld efuse == 0

def harvestingATEFuses (efuse : Efuse) (te : TileEnable) : TileEnable :=
  let disabledTensixCol :=
    (List.range 10).foldl (fun disabled n => disabled ||| ateTensixRowTestStatus efuse n) 0#32
  let disabledL2cpu := ateRiscvL2TestStatus efuse
  let pcieFuse := atePcieSpeedTest efuse
  { te with
    tensixColEnabled := te.tensixColEnabled &&& ~~~ disabledTensixCol.setWidth 16
    ethEnabled := te.ethEnabled &&& ~~~ (ateEthCtrlTestStatus efuse).setWidth 16
    gddrEnabled := te.gddrEnabled &&& ~~~ (ateDdrTestStatus efuse).setWidth 8
    l2cpuEnabled := (List.range 4).foldl (fun enabled i =>
      if disabledL2cpu.getLsbD (i * 4) then clearBit enabled i else enabled) te.l2cpuEnabled
    pcieEnabled := (List.range 2).foldl (fun enabled i =>
      if pcieFuse.extractLsb' (i * 2) 2 = 3#2 then clearBit enabled i else enabled) te.pcieEnabled }

def nocToTensixPhysX (x : ℕ) : Option ℕ := kTensixEthNoc0X.idxOf? x

/-- `GetTensixDisableSLTMapV1`: a bit for each X coordinate but 16, which the bin tells about. -/
def getTensixDisableSLTMapV1 (efuse : Efuse) : BitVec 32 :=
  let binning := sltSltBinning efuse
  let bin := if binning.extractLsb' 8 8 ≠ 0#8 then binning.extractLsb' 8 8
    else binning.extractLsb' 0 8
  let columns := sltHarvestedTensixColumns efuse
  let count := popcount columns
  let columns :=
    if (bin = 3#8 ∨ bin = 4#8 ∨ bin = 5#8) ∧ count < 2 then setBit columns 16
    else if bin = 2#8 ∧ count < 1 then setBit columns 16
    else columns
  (List.range nocXSize).foldl (fun phys x =>
    if columns.getLsbD x then (nocToTensixPhysX x).elim phys (setBit phys) else phys) 0#32

def harvestingSLTFuses (efuse : Efuse) (te : TileEnable) : TileEnable :=
  let version := sltFuseMapVersion efuse
  if (sltAteSltStatus efuse).getLsbD 1 = false ∨ version = 0#32 then te
  else
    let disabledTensixCol :=
      if version = 1#32 then getTensixDisableSLTMapV1 efuse else sltHarvestedTensixColumns efuse
    let harvestedGddr := (sltDdrTestStatus12G efuse ||| sltDdrTestStatus14G efuse |||
      sltDdrTestStatus16G efuse).setWidth 8
    -- GDDR3 failures are ignored up to fuse map 2
    let harvestedGddr := if version ≤ 2#32 then clearBit harvestedGddr 3 else harvestedGddr
    { te with
      tensixColEnabled := te.tensixColEnabled &&& ~~~ disabledTensixCol.setWidth 16
      ethEnabled := te.ethEnabled &&& ~~~ (sltEthCtrlTestStatus efuse).setWidth 16
      gddrEnabled := te.gddrEnabled &&& ~~~ harvestedGddr }

def fused (efuse : Efuse) : TileEnable :=
  if fusesValid efuse then harvestingSLTFuses efuse (harvestingATEFuses efuse allEnabled)
  else allEnabled

/-- Only two of three Ethernet tiles are enabled in {4, 5, 6}, and in {7, 8, 9}. -/
def limitEth (eth : BitVec 16) : BitVec 16 :=
  let eth := if eth.extractLsb' 4 3 = 7#3 then clearBit eth 5 else eth
  if eth.extractLsb' 7 3 = 7#3 then clearBit eth 8 else eth

/-- The loop of the soft harvesting: the first `count` enabled columns of the list are disabled. -/
def disableColumns : List ℕ → ℕ → BitVec 16 → BitVec 16
  | [], _, enabled => enabled
  | _ :: _, 0, enabled => enabled
  | i :: is, count + 1, enabled =>
    if enabled.getLsbD i then disableColumns is count (clearBit enabled i)
    else disableColumns is (count + 1) enabled

/-- Soft harvesting of Tensix columns; the number of columns to disable is a byte. -/
def softHarvestTensix (disableCount : UInt32) (enabled : BitVec 16) : BitVec 16 :=
  let disabledTensixCols := 14 - popcount enabled
  if disabledTensixCols < disableCount.toNat then
    disableColumns (List.range 14).reverse ((disableCount.toNat - disabledTensixCols) % 256) enabled
  else enabled

/-- Soft harvesting of GDDR: those the table names, and GDDR3 if there are still too many. -/
def softHarvestGddr (fwTable : FwTable) (enabled : BitVec 8) : BitVec 8 :=
  let enabled := if fwTable.hasDramTable then
    enabled &&& ~~~ fwTable.softHarvestDramMask.setWidth 8 else enabled
  let desiredGddrCount := (8 - fwTable.dramDisableCount).toUInt8
  if popcount enabled > desiredGddrCount.toNat then clearBit enabled 3 else enabled

/-- The part of `CalculateHarvesting` under `harvesting_en`. -/
def harvest (efuse : Efuse) (fwTable : FwTable) : TileEnable :=
  let te := fused efuse
  { te with
    tensixColEnabled := softHarvestTensix fwTable.tensixColDisableCount te.tensixColEnabled
    ethEnabled := if fwTable.ethDisabled then 0#16 else limitEth te.ethEnabled
    gddrEnabled := softHarvestGddr fwTable te.gddrEnabled }

/-- PCIe and SERDES handling of one instance: `one` and `two` are the SERDES lanes it
takes from Ethernet. -/
def connectPcie (inst : Fin 2) (table : PciPropertyTable) (one two : BitVec 16)
    (te : TileEnable) : TileEnable :=
  let usage := table.pcieMode.toUInt8
  let numSerdes := if usage = pcieModeDisabled then 0 else min table.numSerdes.toNat 2
  { te with
    pcieUsage := Function.update te.pcieUsage inst usage
    pcieNumSerdes := Function.update te.pcieNumSerdes inst numSerdes
    ethSerdesConnected :=
      if numSerdes = 1 then te.ethSerdesConnected &&& ~~~ one
      else if numSerdes = 2 then te.ethSerdesConnected &&& ~~~ two
      else te.ethSerdesConnected }

def calculateHarvesting (efuse : Efuse) (fwTable : FwTable) : TileEnable :=
  let te := if fwTable.harvestingEn then harvest efuse fwTable else allEnabled
  connectPcie 1 (fwTable.pciPropertyTable 1) 0xc00#16 0xf00#16
    (connectPcie 0 (fwTable.pciPropertyTable 0) 0x3#16 0xf#16 te)

/-! ## NOC translation from harvesting -/

def badTensixCols (te : TileEnable) : BitVec 16 := 0x3fff#16 &&& ~~~ te.tensixColEnabled

/-- `find_msb_set`: one more than the highest bit set, or 0. -/
def findMsbSet (x : BitVec 32) : ℕ := if x = 0#32 then 0 else Nat.log2 x.toNat + 1

/-- `find_lsb_set`: one more than the lowest bit set, or 0. -/
def findLsbSet (x : BitVec 32) : ℕ := if x = 0#32 then 0 else lowestSet x + 1

/-- `1 << (find_msb_set(x) - 1)`; a shift by -1 is undefined. -/
def skipBit (x : BitVec 32) : Option (BitVec 16) :=
  if findMsbSet x = 0 then none else some ((1#32 <<< (findMsbSet x - 1)).setWidth 16)

/-- `skip_eth`: the last tile that is not enabled, in {4, 5, 6} and in {7, 8, 9}. -/
def skipEth (te : TileEnable) : Option (BitVec 16) := do
  let low ← skipBit (~~~ te.ethEnabled.setWidth 32 &&& 0x70#32)
  let high ← skipBit (~~~ te.ethEnabled.setWidth 32 &&& 0x380#32)
  return low ||| high

def badGddr (te : TileEnable) : ℕ :=
  let bad := findLsbSet (~~~ te.gddrEnabled.setWidth 32) - 1
  if bad = 8 then noBadGddr else bad

/-- `InitNocTranslationFromHarvesting`; `none` is an undefined shift or a read outside of an
array. -/
def initNocTranslationFromHarvesting (cableFaultMode : Bool) (fwTable : FwTable) (te : TileEnable)
    (translation : Translations) : Option Translations :=
  if cableFaultMode || !fwTable.nocTranslationEn then some translation
  else do
    let pcieInstance := if te.pcieUsage 0 = pcieModeEp then 0 else 1
    let skip ← skipEth te
    initNocTranslation pcieInstance (badTensixCols te) (badGddr te) skip

end SystemFirmware.Harvesting
