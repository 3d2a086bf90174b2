import SystemFirmware.TtBootFs.BootImage
import SystemFirmware.TtBootFs.Ranges
import SystemFirmware.Lib.Align

/-!
# Boot filesystem — placing the images

`FileImage.to_boot_fs` of the build script turns a loaded configuration into a `BootFs`.
The addresses below `0x14000` are reserved in a `RangeTracker`, the images with a given
address are added to it, and each of the others is put into the first gap that is large
enough. The failover is not put into the tracker: without a given address it gets the
first gap left over.
-/

namespace SystemFirmware.TtBootFs

open Lib

-- ---
-- The first gap

section

variable {δ : Type}

def RangeTracker.alignUp (t : RangeTracker δ) (value : ℤ) : ℤ := Lib.alignUp t.alignment value

/-- The loop of `find_gap_of_size`, over the ranges behind the first one. -/
def RangeTracker.gapFrom (t : RangeTracker δ) (size : ℤ) : List (Range δ) → ℤ → ℤ
  | [], lastEnd => lastEnd
  | r :: rest, lastEnd =>
    if r.start - lastEnd ≥ size then lastEnd else t.gapFrom size rest (t.alignUp r.stop)

def RangeTracker.findGapOfSize (t : RangeTracker δ) (size : ℤ) : ℤ × ℤ :=
  match t.ranges with
  | [] => (0, size)
  | r :: rest =>
    if r.start > size then (0, size)
    else
      let lastEnd := t.gapFrom size rest (t.alignUp r.stop)
      (lastEnd, lastEnd + size)

def RangeTracker.insert (t : RangeTracker δ) (size : ℤ) (data : δ) :
    Except BuildError (RangeTracker δ) :=
  t.add (t.findGapOfSize size).1 (t.findGapOfSize size).2 (some data)

def RangeTracker.iter (t : RangeTracker δ) : List (ℤ × δ) :=
  t.ranges.filterMap fun r => r.data.map fun x => (r.start, x)

end

-- ---
-- Placing the images

/-- What `to_boot_fs` reads of a `FileImage`, with `images` in the order of the configuration. -/
structure FileImage where
  blockSize : ℤ
  images : List BootImage
  failover : BootImage
  deriving DecidableEq

def addGiven (blockSize : ℤ) (t : RangeTracker BootImage) (image : BootImage) :
    Except BuildError (RangeTracker BootImage) :=
  match image.spiAddr with
  | none => .ok t
  | some spiAddr =>
    if blockSize = 0 then .error .zeroDivision
    else if spiAddr % blockSize ≠ 0 then .error (.unalignedImage image.tag spiAddr)
    else t.add spiAddr (spiAddr + image.binary.length) (some image)

def insertFloating (t : RangeTracker BootImage) (image : BootImage) :
    Except BuildError (RangeTracker BootImage) :=
  match image.spiAddr with
  | some _ => .ok t
  | none => t.insert image.binary.length image

def BootImage.entryAt (image : BootImage) (addr : ℤ) : FsEntry where
  provisioningOnly := image.provisioningOnly
  tag := image.tag
  data := image.binary
  spiAddr := addr
  loadAddr := image.loadAddr
  executable := image.executable

/-- One round of the loop over `tracker.iter()`: `boot_fs` and `tag_order`. -/
def placeEntry (acc : (Tag → Option FsEntry) × List Tag) (placed : ℤ × BootImage) :
    (Tag → Option FsEntry) × List Tag :=
  (fun tag => if tag = placed.2.tag then some (placed.2.entryAt placed.1) else acc.1 tag,
    if acc.2.contains placed.2.tag then acc.2 else acc.2 ++ [placed.2.tag])

def FileImage.place (file : FileImage) : Except BuildError (RangeTracker BootImage) := do
  let tracker ← (RangeTracker.init BootImage file.blockSize).add 0 0x14000 none
  let tracker ← file.images.foldlM (addGiven file.blockSize) tracker
  file.images.foldlM insertFloating tracker

def FileImage.failoverAddr (file : FileImage) (tracker : RangeTracker BootImage) : ℤ :=
  match file.failover.spiAddr with
  | some spiAddr => spiAddr
  | none => (tracker.findGapOfSize file.failover.binary.length).1

/-- The tags of the executable images, in the order of the configuration. -/
def FileImage.executableTags (file : FileImage) : List Tag :=
  (file.images.filter fun image => image.executable).map BootImage.tag

def FileImage.bootFsOf (file : FileImage) (tracker : RangeTracker BootImage) : BootFs :=
  let placed := tracker.iter.foldl placeEntry (fun _ => none, file.executableTags)
  { order := placed.2
    entries := placed.1
    failover := {
      provisioningOnly := false
      tag := file.failover.tag
      data := file.failover.binary
      spiAddr := file.failoverAddr tracker
      loadAddr := file.failover.loadAddr
      executable := true } }

def FileImage.toBootFs (file : FileImage) : Except BuildError BootFs := do
  let tracker ← file.place
  .ok (file.bootFsOf tracker)

end SystemFirmware.TtBootFs
