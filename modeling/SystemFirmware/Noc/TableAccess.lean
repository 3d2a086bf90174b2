import SystemFirmware.Lib.Trace
import SystemFirmware.Noc.Definitions

/-!
# NOC translation — accesses to the tables

The functions of `noc_init.c` that compute and program a translation, with every access to
an array as an event: a `Run` has a value, as in `Noc.Definitions`, and the list of
elements that were read or written. An element that does not exist reads as anything
(`behind`), so a run goes on behind such an access.

* Loops with fixed bounds that write a whole table leave their accesses and take the table
  from `Noc.Definitions`.

The registers of the nodes are in `Noc.Programming`, telemetry is left out.
-/

namespace SystemFirmware.Noc

open Lib
open Lib.Traced (touch)

def numNocs : ℕ := 2

def preTranslationSize : ℕ := 32

def nocTranslateTableXYSize : ℕ := 6

def numGddr : ℕ := 8

/-! ## Physical positions -/

def kPhysXToNoc0 : List ℕ := [0, 1, 16, 2, 15, 3, 14, 4, 13, 5, 12, 6, 11, 7, 10, 8, 9]

def kPhysYToNoc0 : List ℕ := [0, 1, 11, 2, 10, 3, 9, 4, 8, 5, 7, 6]

def kNoc0XToPhys : List ℕ := [0, 1, 3, 5, 7, 9, 11, 13, 15, 16, 14, 12, 10, 8, 6, 4, 2]

def kNoc0YToPhys : List ℕ := [0, 1, 3, 5, 7, 9, 11, 10, 8, 6, 4, 2]

/-! ## Accesses -/

/-- The arrays. An array of arrays has two entries, and an access to it is one to each. -/
inductive Table where
  | kTensixEthNoc0X
  | kGddrY
  | kGddrYRow
  | kL2CpuNoc0Y
  | gddrYOrder
  | translateTableX
  | translateTableY
  | logicalCoords
  | logicalCoordsColumn
  | packed
  | kPhysXToNoc0
  | kPhysYToNoc0
  | kNoc0XToPhys
  | kNoc0YToPhys
  | kNodeTypes
  | kNodeTypesRow
  deriving DecidableEq

def Table.size : Table → ℕ
  | .kTensixEthNoc0X => 14
  | .kGddrY => 4
  | .kGddrYRow => 3
  | .kL2CpuNoc0Y => 4
  | .gddrYOrder => 4
  | .translateTableX => preTranslationSize
  | .translateTableY => preTranslationSize
  | .logicalCoords => nocXSize
  | .logicalCoordsColumn => nocYSize
  | .packed => nocTranslateTableXYSize
  | .kPhysXToNoc0 => nocXSize
  | .kPhysYToNoc0 => nocYSize
  | .kNoc0XToPhys => nocXSize
  | .kNoc0YToPhys => nocYSize
  | .kNodeTypes => nocYSize
  | .kNodeTypesRow => nocXSize

/-- An element, read or written. -/
structure Access where
  table : Table
  index : ℕ
  deriving DecidableEq

def Access.InBounds (a : Access) : Prop := a.index < a.table.size

instance (a : Access) : Decidable a.InBounds := inferInstanceAs (Decidable (_ < _))

abbrev Run (α : Type) := Traced Access α

def element {α : Type} (table : Table) (i : ℕ) (a : α) : Run α := touch ⟨table, i⟩ a

section

variable (nt : NocTranslation)

def readX (i : ℕ) : Run ℕ := element .translateTableX i (nt.translateTableX i)

def readY (i : ℕ) : Run ℕ := element .translateTableY i (nt.translateTableY i)

def writeX (i value : ℕ) : Run NocTranslation :=
  element .translateTableX i
    { nt with translateTableX := Function.update nt.translateTableX i value }

def writeY (i value : ℕ) : Run NocTranslation :=
  element .translateTableY i
    { nt with translateTableY := Function.update nt.translateTableY i value }

def coord {α : Type} (x y : ℕ) (a : α) : Run α := do
  element .logicalCoords x ()
  element .logicalCoordsColumn y a

def setLogicalCoordRun (postX postY logicalX logicalY : ℕ) : Run NocTranslation :=
  coord postX postY
    { nt with logicalCoords := setLogicalCoord nt.logicalCoords postX postY logicalX logicalY }

def applyLogicalCoordsRun (post pre : Box) : Run NocTranslation :=
  (interval pre.xStart pre.xEnd).foldlM (fun nt preX => do
    let postX ← readX nt preX
    if postX < post.xStart ∨ postX > post.xEnd then return nt
    else (interval pre.yStart pre.yEnd).foldlM (fun nt preY => do
      let postY ← readY nt preY
      if postY < post.yStart ∨ postY > post.yEnd then return nt
      else setLogicalCoordRun nt postX postY preX preY) nt) nt

end

/-! ## Computing a translation -/

def makeIdentityRun : Run NocTranslation := do
  (List.range preTranslationSize).forM fun i => do
    element .translateTableX i ()
    element .translateTableY i ()
  (List.range nocXSize).forM fun x => (List.range nocYSize).forM fun y => coord x y ()
  return makeIdentity

def copyNoc0ToNoc1Run (noc0 : NocTranslation) : Run NocTranslation := do
  (List.range preTranslationSize).forM fun i => do
    -- read from the first network, written to the second one
    element .translateTableX i ()
    element .translateTableX i ()
    element .translateTableY i ()
    element .translateTableY i ()
  (List.range nocXSize).forM fun x => (List.range nocYSize).forM fun y => do
    coord (nocXSize - x - 1) (nocYSize - y - 1) ()
    coord x y ()
  return copyNoc0ToNoc1 noc0

/-- A loop over Tensix columns; `column` converts a bit to a column. -/
def popColumnsRun {w : ℕ} (column : ℕ → Run ℕ) :
    List ℕ → BitVec w → NocTranslation → Run (BitVec w × NocTranslation)
  | [], mask, nt => return (mask, nt)
  | nocX :: rest, mask, nt =>
    if mask = 0#w then return (mask, nt)
    else do
      let next ← column (lowestSet mask)
      let nt ← writeX nt nocX next
      popColumnsRun column rest (mask &&& ~~~ lsbGet mask) nt

section

/- What lies behind the constant arrays. -/
variable (behind : Table → ℕ → ℕ)

/-- A read of a constant array. -/
def readConst (table : Table) (content : List ℕ) (i : ℕ) : Run ℕ :=
  element table i (content[i]?.getD (behind table i))

def readTensixEth (i : ℕ) : Run ℕ := readConst behind .kTensixEthNoc0X kTensixEthNoc0X i

def readGddrY (row column : ℕ) : Run ℕ := do
  let bytes ← element .kGddrY row (kGddrY[row]?.getD [])
  readConst behind .kGddrYRow bytes column

def goodTensixNoc0XRun (badTensixCols : BitVec 16) : Run (BitVec 32) :=
  (List.range kTensixEthNoc0X.length).foldlM (fun good i =>
    if badTensixCols.getLsbD i then do
      let x ← readTensixEth behind i
      return clearBit good x
    else return good) 0x1fcfe#32

def placeTensixRun (badTensixCols : BitVec 16) (nt : NocTranslation) : Run NocTranslation := do
  let good ← goodTensixNoc0XRun behind badTensixCols
  let (good, nt) ← popColumnsRun pure (interval 1 7) good nt
  let (_, nt) ← popColumnsRun pure (interval 10 16) good nt
  let (_, nt) ← popColumnsRun (readTensixEth behind) (interval 10 16).reverse badTensixCols nt
  let nt ← applyLogicalCoordsRun nt ⟨1, 2, 7, 11⟩ ⟨1, 2, 16, 11⟩
  applyLogicalCoordsRun nt ⟨10, 2, 16, 11⟩ ⟨1, 2, 16, 11⟩

/-- `gddr_y_order`: a `memmove` from behind the bad row, and the bad row at the end. -/
def gddrYOrderRun (badGddr : ℕ) : Run (ℕ → ℕ) :=
  if badGddr ≠ noBadGddr then do
    let badGddrRow := badGddr % 4
    let order ← (List.range (4 - badGddrRow - 1)).foldlM (fun order i => do
      let row ← element .gddrYOrder (badGddrRow + 1 + i) (order (badGddrRow + 1 + i))
      element .gddrYOrder (badGddrRow + i) (Function.update order (badGddrRow + i) row)) id
    element .gddrYOrder 3 (Function.update order 3 (badGddr % 4))
  else return id

/-- The rows of the controllers, a `memcpy` of three bytes for each. -/
def gddrTableRun (badGddr : ℕ) (nt : NocTranslation) : Run NocTranslation := do
  let order ← gddrYOrderRun badGddr
  (List.range 4).foldlM (fun nt gddr => do
    let row ← element .gddrYOrder gddr (order gddr)
    (List.range 3).foldlM (fun nt i => do
      let y ← readGddrY behind row i
      writeY nt (12 + gddr * 3 + i) y) nt) nt

def placeGddrRun (badGddr : ℕ) (nt : NocTranslation) : Run NocTranslation := do
  let nt ← writeX nt (if badGddr ≥ 4 then 17 else 18) 0
  let nt ← writeX nt (if badGddr ≥ 4 then 18 else 17) 9
  let nt ← gddrTableRun behind badGddr nt
  let nt ← applyLogicalCoordsRun nt ⟨0, 0, 0, 11⟩ ⟨17, 12, 18, 23⟩
  applyLogicalCoordsRun nt ⟨9, 0, 9, 11⟩ ⟨17, 12, 18, 23⟩

def placePcieRun (pcieInstance : ℕ) (nt : NocTranslation) : Run NocTranslation := do
  let pcieX := if pcieInstance ≠ 0 then 11 else 2
  let nt ← writeX nt 19 pcieX
  let nt ← writeY nt 24 0
  applyLogicalCoordsRun nt ⟨pcieX, 0, pcieX, 0⟩ ⟨19, 24, 19, 24⟩

/-- `CopyBytesSkipIndices` to the table, from the positions `i` and `out` on with `count` left. At
most sixteen elements are skipped, so the caller's fuel is enough. -/
def copyBytesSkipIndicesRun : (fuel count i out : ℕ) → (skipMask : BitVec 32) → NocTranslation →
    Run NocTranslation
  | 0, _, _, _, _, nt => return nt
  | fuel + 1, count, i, out, skipMask, nt =>
    if count = 0 then return nt
    else if skipMask.getLsbD 0 then
      copyBytesSkipIndicesRun fuel count (i + 1) out (skipMask >>> 1) nt
    else do
      let x ← readTensixEth behind i
      let nt ← writeX nt out x
      copyBytesSkipIndicesRun fuel (count - 1) (i + 1) (out + 1) (skipMask >>> 1) nt

def placeEthRun (skipEth : BitVec 16) (nt : NocTranslation) : Run NocTranslation := do
  let nt ← writeY nt 25 1
  let nt ← copyBytesSkipIndicesRun behind 28 12 0 20 (skipEth.setWidth 32) nt
  let nt ← applyLogicalCoordsRun nt ⟨1, 1, 7, 1⟩ ⟨20, 25, 31, 25⟩
  applyLogicalCoordsRun nt ⟨10, 1, 16, 1⟩ ⟨20, 25, 31, 25⟩

def placeL2CpuRun (nt : NocTranslation) : Run NocTranslation := do
  let nt ← (List.range 4).foldlM (fun nt i => do
    let y ← readConst behind .kL2CpuNoc0Y kL2CpuNoc0Y i
    writeY nt (26 + i) y) nt
  applyLogicalCoordsRun nt ⟨8, 3, 8, 9⟩ ⟨8, 26, 8, 29⟩

def placeSecurityRun (nt : NocTranslation) : Run NocTranslation := do
  let nt ← writeY nt 30 2
  applyLogicalCoordsRun nt ⟨8, 2, 8, 2⟩ ⟨8, 30, 8, 30⟩

/-- `ComputeNocTranslation`. -/
def computeNocTranslationRun (pcieInstance : ℕ) (badTensixCols : BitVec 16) (badGddr : ℕ)
    (skipEth : BitVec 16) : Run NocTranslation := do
  let noc0 ← makeIdentityRun
  let noc0 := { noc0 with translateRowMask := noc0.translateRowMask ||| 0x3#32 }
  let noc0 ← placeTensixRun behind badTensixCols noc0
  let noc0 ← placeGddrRun behind badGddr noc0
  let noc0 ← placePcieRun pcieInstance noc0
  let noc0 ← placeEthRun behind skipEth noc0
  let noc0 ← placeL2CpuRun behind noc0
  placeSecurityRun noc0

/-! ## Programming a translation -/

def physXToNoc (px nocId : ℕ) : Run ℕ := do
  let noc0X ← readConst behind .kPhysXToNoc0 kPhysXToNoc0 px
  return if nocId = 0 then noc0X else nocXSize - noc0X - 1

def physYToNoc (py nocId : ℕ) : Run ℕ := do
  let noc0Y ← readConst behind .kPhysYToNoc0 kPhysYToNoc0 py
  return if nocId = 0 then noc0Y else nocYSize - noc0Y - 1

/-- `GetNodeType`, on which `NiuRegsBase` and `OverlayRegsBase` depend. -/
def getNodeType (px py : ℕ) : Run Unit := do
  element .kNodeTypes (nocYSize - py - 1) ()
  element .kNodeTypesRow px ()

def setupNiuTlbPhys (px py nocId : ℕ) : Run Unit := do
  getNodeType px py
  let _ ← physXToNoc behind px nocId
  let _ ← physYToNoc behind py nocId
  return ()

def Translations.get (translation : Translations) (nocId : ℕ) : NocTranslation :=
  if nocId = 0 then translation.noc0 else translation.noc1

def programNocTranslationSingleTile (translation : Translations) (noc0X noc0Y : ℕ) : Run Unit := do
  let px ← readConst behind .kNoc0XToPhys kNoc0XToPhys noc0X
  let py ← readConst behind .kNoc0YToPhys kNoc0YToPhys noc0Y
  (List.range numNocs).forM fun nocId => do
    let nt := translation.get nocId
    (List.range preTranslationSize).forM fun i => do
      let _ ← readX nt i
      element .packed (i / nocTranslateTableXYSize) ()
      let _ ← readY nt i
      element .packed (i / nocTranslateTableXYSize) ()
    let ringX ← physXToNoc behind px nocId
    let ringY ← physYToNoc behind py nocId
    setupNiuTlbPhys behind px py nocId
    coord ringX ringY ()
    (List.range nocTranslateTableXYSize).forM fun i => do
      element .packed i ()
      element .packed i ()

/-- `ProgramNocTranslation`: when translation is enabled, the node of the ARC comes last. -/
def programNocTranslation (translation : Translations) : Run Unit := do
  let enabling := translation.noc0.translateEn
  (List.range nocYSize).forM fun py => (List.range nocXSize).forM fun px => do
    let noc0X ← physXToNoc behind px 0
    let noc0Y ← physYToNoc behind py 0
    if enabling ∧ noc0X = 8 ∧ noc0Y = 0 then return ()
    else programNocTranslationSingleTile behind translation noc0X noc0Y
  if enabling then programNocTranslationSingleTile behind translation 8 0 else return ()

def programBroadcastExclusion (disabledTensixColumns : BitVec 16) : Run Unit := do
  (List.range 14).forM fun i =>
    if disabledTensixColumns.getLsbD i then do
      -- `TensixPhysXToNoc`
      let _ ← physXToNoc behind (i + 1) 0
      return ()
    else return ()
  (List.range nocYSize).forM fun py => (List.range nocXSize).forM fun px =>
    (List.range numNocs).forM fun nocId => setupNiuTlbPhys behind px py nocId

/-! ## The handler -/

/-- `translation` and `noc_translation_enabled`. -/
structure Globals where
  translation : Translations
  nocTranslationEnabled : Bool

/-- All zeroes but for the logical coordinates. -/
def clearedTranslation : NocTranslation where
  translateEn := false
  translateTableX := fun _ => 0
  translateTableY := fun _ => 0
  translateColMask := 0
  translateRowMask := 0
  logicalCoords := logicalCoord

def clearNocTranslation : Run Globals := do
  (List.range nocXSize).forM fun x => (List.range nocYSize).forM fun y => coord x y ()
  let translation := ⟨clearedTranslation, clearedTranslation⟩
  programNocTranslation behind translation
  return ⟨translation, false⟩

def initNocTranslationRun (pcieInstance : ℕ) (badTensixCols : BitVec 16) (badGddr : ℕ)
    (skipEth : BitVec 16) : Run Globals := do
  let noc0 ← computeNocTranslationRun behind pcieInstance badTensixCols badGddr skipEth
  let noc1 ← copyNoc0ToNoc1Run noc0
  programNocTranslation behind ⟨noc0, noc1⟩
  return ⟨⟨noc0, noc1⟩, true⟩

/-- `struct debug_noc_translation_rqst`. -/
structure DebugNocTranslationRqst where
  enableTranslation : Bool
  pcieInstance : Bool
  pcieInstanceOverride : Bool
  badTensixCols : BitVec 16
  badGddr : UInt8
  skipEthLow : BitVec 8
  skipEthHi : BitVec 8

def DebugNocTranslationRqst.skipEth (rq : DebugNocTranslationRqst) : BitVec 16 :=
  rq.skipEthLow.setWidth 16 ||| rq.skipEthHi.setWidth 16 <<< 8

/-- `pcie_instance`, from the request or from whether PCIe 1 is an endpoint. -/
def DebugNocTranslationRqst.usedInstance (rq : DebugNocTranslationRqst) (pci1Endpoint : Bool) : ℕ :=
  if rq.pcieInstanceOverride then rq.pcieInstance.toNat else pci1Endpoint.toNat

/-- `-EINVAL` as the byte that is returned. -/
def einvalByte : UInt8 := 234

/-- `debug_noc_translation_handler`: what it returns, and leaves in the globals. -/
def debugNocTranslationHandler (pci1Endpoint : Bool) (globals : Globals)
    (rq : DebugNocTranslationRqst) : Run (UInt8 × Globals) :=
  if rq.badGddr.toNat ≥ numGddr ∧ rq.badGddr.toNat ≠ noBadGddr then return (einvalByte, globals)
  else do
    let globals ← clearNocTranslation behind
    programBroadcastExclusion behind rq.badTensixCols
    if rq.enableTranslation then do
      let globals ← initNocTranslationRun behind (rq.usedInstance pci1Endpoint) rq.badTensixCols
        rq.badGddr.toNat rq.skipEth
      return (0, globals)
    else return (0, globals)

end

end SystemFirmware.Noc
