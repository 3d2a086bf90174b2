import Mathlib.Logic.Function.Basic
import SystemFirmware.Lib.Bits

/-!
# NOC translation — definitions

`ComputeNocTranslation` and its helpers from `lib/tenstorrent/bh_arc/noc_init.c`. A node
of the 17 × 12 network has a physical coordinate. Translation lets a sender use another
one: a column and a row are each looked up in a table of 32 entries, unless a mask
exempts the row or the column. `logical_coords` gives each node the coordinate it is
addressed by.

`ComputeNocTranslation` starts from the identity and rewrites tables and logical
coordinates group by group: Tensix, GDDR, PCIe, Ethernet, L2CPU, security. Reads outside
of its constant arrays make it `none`.
-/

namespace SystemFirmware.Noc

open Lib

def nocXSize : ℕ := 17

def nocYSize : ℕ := 12

def noBadGddr : ℕ := 255

def kTensixEthNoc0X : List ℕ := [1, 16, 2, 15, 3, 14, 4, 13, 5, 12, 6, 11, 7, 10]

def kL2CpuNoc0Y : List ℕ := [3, 9, 5, 7]

def kGddrY : List (List ℕ) := [[0, 1, 11], [2, 10, 3], [9, 4, 8], [5, 7, 6]]

def interval (first last : ℕ) : List ℕ := List.range' first (last + 1 - first)

/-! ## Logical coordinates -/

/-- The word `SetLogicalCoord` stores. -/
def logicalCoord (logicalX logicalY : ℕ) : UInt16 := UInt16.ofNat (logicalY <<< 6 ||| logicalX)

def logicalX (coord : UInt16) : ℕ := coord.toNat % 64

/-- The Y field of a logical coordinate, bits 11 to 6. -/
def logicalY (coord : UInt16) : ℕ := coord.toNat / 64 % 64

structure NocTranslation where
  translateEn : Bool
  translateTableX : ℕ → ℕ
  translateTableY : ℕ → ℕ
  translateColMask : BitVec 32
  translateRowMask : BitVec 32
  logicalCoords : ℕ → ℕ → UInt16

def setLogicalCoord (coords : ℕ → ℕ → UInt16) (postX postY logicalX logicalY : ℕ) :
    ℕ → ℕ → UInt16 :=
  Function.update coords postX (Function.update (coords postX) postY (logicalCoord logicalX logicalY))

def makeIdentity : NocTranslation where
  translateEn := true
  translateTableX := fun i => if i < nocXSize then i else 0
  translateTableY := fun i => if i < nocYSize then i else 0
  translateColMask := 0
  translateRowMask := 0
  logicalCoords := logicalCoord

structure Box where
  xStart : ℕ
  yStart : ℕ
  xEnd : ℕ
  yEnd : ℕ

/-- The inner loop of `ApplyLogicalCoords`. -/
def applyColumn (nt : NocTranslation) (post pre : Box) (preX : ℕ) (coords : ℕ → ℕ → UInt16) :
    ℕ → ℕ → UInt16 :=
  (interval pre.yStart pre.yEnd).foldl (fun coords preY =>
    let postY := nt.translateTableY preY
    if postY < post.yStart ∨ postY > post.yEnd then coords
    else setLogicalCoord coords (nt.translateTableX preX) postY preX preY) coords

/-- `ApplyLogicalCoords`: a node of `post` that the tables map a coordinate of `pre` to gets that
coordinate. -/
def applyLogicalCoords (nt : NocTranslation) (post pre : Box) : NocTranslation :=
  { nt with
    logicalCoords := (interval pre.xStart pre.xEnd).foldl (fun coords preX =>
      let postX := nt.translateTableX preX
      if postX < post.xStart ∨ postX > post.xEnd then coords
      else applyColumn nt post pre preX coords) nt.logicalCoords }

/-! ## The groups -/

def copyBytes (table : ℕ → ℕ) (start : ℕ) (bytes : List ℕ) : ℕ → ℕ :=
  fun i => if start ≤ i then bytes[i - start]?.getD (table i) else table i

/-- `CopyBytesSkipIndices`: the first `count` elements of `input` whose bit of the
mask is clear. -/
def copyBytesSkipIndices : (count : ℕ) → (input : List ℕ) → (skipMask : BitVec 32) → Option (List ℕ)
  | 0, _, _ => some []
  | _ + 1, [], _ => none
  | count + 1, byte :: input, skipMask =>
    if skipMask.getLsbD 0 then copyBytesSkipIndices (count + 1) input (skipMask >>> 1)
    else (copyBytesSkipIndices count input (skipMask >>> 1)).map (byte :: ·)

/-- A loop over Tensix columns: the lowest bit is popped, and its column written to the next
entry. -/
def popColumns {w : ℕ} (column : ℕ → Option ℕ) :
    List ℕ → BitVec w → (ℕ → ℕ) → Option (BitVec w × (ℕ → ℕ))
  | [], mask, table => some (mask, table)
  | nocX :: rest, mask, table =>
    if mask = 0#w then some (mask, table)
    else do
      let next ← column (lowestSet mask)
      popColumns column rest (mask &&& ~~~ lsbGet mask) (Function.update table nocX next)

/-- `good_tensix_noc0_x`: the columns 1 to 7 and 10 to 16 without the bad ones. -/
def goodTensixNoc0X (badTensixCols : BitVec 16) : BitVec 32 :=
  (List.range kTensixEthNoc0X.length).foldl (fun good i =>
    if badTensixCols.getLsbD i then clearBit good (kTensixEthNoc0X.getD i 0) else good) 0x1fcfe#32

/-- The good columns in increasing order from the left, the bad ones from the right. -/
def tensixTable (badTensixCols : BitVec 16) (table : ℕ → ℕ) : Option (ℕ → ℕ) := do
  let (good, table) ← popColumns some (interval 1 7) (goodTensixNoc0X badTensixCols) table
  let (_, table) ← popColumns some (interval 10 16) good table
  let (_, table) ← popColumns (kTensixEthNoc0X[·]?) (interval 10 16).reverse badTensixCols table
  return table

def placeTensix (badTensixCols : BitVec 16) (nt : NocTranslation) : Option NocTranslation := do
  let table ← tensixTable badTensixCols nt.translateTableX
  let nt := { nt with translateTableX := table }
  let nt := applyLogicalCoords nt ⟨1, 2, 7, 11⟩ ⟨1, 2, 16, 11⟩
  return applyLogicalCoords nt ⟨10, 2, 16, 11⟩ ⟨1, 2, 16, 11⟩

/-- `gddr_y_order`: the row of a bad controller is moved to the end. -/
def gddrYOrder (badGddr : ℕ) : List ℕ :=
  let order := [0, 1, 2, 3]
  if badGddr ≠ noBadGddr then
    order.take (badGddr % 4) ++ order.drop (badGddr % 4 + 1) ++ [badGddr % 4]
  else order

def gddrTable (badGddr : ℕ) (table : ℕ → ℕ) : ℕ → ℕ :=
  (List.range 4).foldl (fun table gddr =>
    copyBytes table (12 + gddr * 3) (kGddrY.getD ((gddrYOrder badGddr).getD gddr 0) [])) table

def placeGddr (badGddr : ℕ) (nt : NocTranslation) : NocTranslation :=
  let west := if badGddr ≥ 4 then 17 else 18
  let east := if badGddr ≥ 4 then 18 else 17
  let nt := { nt with
    translateTableX := Function.update (Function.update nt.translateTableX west 0) east 9
    translateTableY := gddrTable badGddr nt.translateTableY }
  let nt := applyLogicalCoords nt ⟨0, 0, 0, 11⟩ ⟨17, 12, 18, 23⟩
  applyLogicalCoords nt ⟨9, 0, 9, 11⟩ ⟨17, 12, 18, 23⟩

def placePcie (pcieInstance : ℕ) (nt : NocTranslation) : NocTranslation :=
  let pcieX := if pcieInstance ≠ 0 then 11 else 2
  let nt := { nt with
    translateTableX := Function.update nt.translateTableX 19 pcieX
    translateTableY := Function.update nt.translateTableY 24 0 }
  applyLogicalCoords nt ⟨pcieX, 0, pcieX, 0⟩ ⟨19, 24, 19, 24⟩

def placeEth (skipEth : BitVec 16) (nt : NocTranslation) : Option NocTranslation := do
  let columns ← copyBytesSkipIndices 12 kTensixEthNoc0X (skipEth.setWidth 32)
  let nt := { nt with
    translateTableX := copyBytes nt.translateTableX 20 columns
    translateTableY := Function.update nt.translateTableY 25 1 }
  let nt := applyLogicalCoords nt ⟨1, 1, 7, 1⟩ ⟨20, 25, 31, 25⟩
  return applyLogicalCoords nt ⟨10, 1, 16, 1⟩ ⟨20, 25, 31, 25⟩

def placeL2Cpu (nt : NocTranslation) : NocTranslation :=
  let nt := { nt with translateTableY := copyBytes nt.translateTableY 26 kL2CpuNoc0Y }
  applyLogicalCoords nt ⟨8, 3, 8, 9⟩ ⟨8, 26, 8, 29⟩

def placeSecurity (nt : NocTranslation) : NocTranslation :=
  let nt := { nt with translateTableY := Function.update nt.translateTableY 30 2 }
  applyLogicalCoords nt ⟨8, 2, 8, 2⟩ ⟨8, 30, 8, 30⟩

/-! ## Both networks -/

/-- `ComputeNocTranslation`. Column translations are blocked on rows 0 and 1. -/
def computeNocTranslation (pcieInstance : ℕ) (badTensixCols : BitVec 16) (badGddr : ℕ)
    (skipEth : BitVec 16) : Option NocTranslation := do
  let noc0 := { makeIdentity with translateRowMask := makeIdentity.translateRowMask ||| 0x3#32 }
  let noc0 ← placeTensix badTensixCols noc0
  let noc0 ← placeEth skipEth (placePcie pcieInstance (placeGddr badGddr noc0))
  return placeSecurity (placeL2Cpu noc0)

/-- `CopyNoc0ToNoc1`: the second network numbers its nodes from the other corner. -/
def copyNoc0ToNoc1 (noc0 : NocTranslation) : NocTranslation :=
  { noc0 with
    translateTableX := fun i => nocXSize - noc0.translateTableX i - 1
    translateTableY := fun i => nocYSize - noc0.translateTableY i - 1
    logicalCoords := fun x y => noc0.logicalCoords (nocXSize - x - 1) (nocYSize - y - 1) }

/-- The two entries of `translation`. -/
structure Translations where
  noc0 : NocTranslation
  noc1 : NocTranslation

/-- What `InitNocTranslation` leaves in `translation`. -/
def initNocTranslation (pcieInstance : ℕ) (badTensixCols : BitVec 16) (badGddr : ℕ)
    (skipEth : BitVec 16) : Option Translations :=
  (computeNocTranslation pcieInstance badTensixCols badGddr skipEth).map fun noc0 =>
    ⟨noc0, copyNoc0ToNoc1 noc0⟩

def nocLogicalToPhysical (nt : NocTranslation) (logicalX logicalY : ℕ) : ℕ × ℕ :=
  (if nt.translateEn && !nt.translateRowMask.getLsbD logicalY then nt.translateTableX logicalX
    else logicalX,
   if nt.translateEn && !nt.translateColMask.getLsbD logicalX then nt.translateTableY logicalY
    else logicalY)

end SystemFirmware.Noc
