import SystemFirmware.TtBootFs.Layout
import SystemFirmware.Lib.Pieces
import Mathlib.Data.List.Sort

/-!
# Boot filesystem — the build script

`scripts/tt_boot_fs.py`: a `BootFs` is turned into a list of writes, which are sorted
and checked for overlaps, and then into a binary image. `from_binary` reads such an
image back.

Python integers are `ℤ`: an address may be negative or wider than the 32-bit fields of a
descriptor, which take the low bits. Exceptions are `Except` values.
-/

namespace SystemFirmware.TtBootFs

open Lib

abbrev Tag := List Char

/-! ## Entries and their descriptors -/

structure FsEntry where
  provisioningOnly : Bool
  tag : Tag
  data : List UInt8
  spiAddr : ℤ
  loadAddr : ℤ
  executable : Bool
  deriving DecidableEq

inductive BuildError where
  /-- `IndexError` from a tag that does not fit into the descriptor. -/
  | tagIndex
  /-- `KeyError` from a tag of `order` without an entry. -/
  | missingEntry (tag : Tag)
  /-- "Range start:end overlaps with existing range". -/
  | overlap (start stop existingStart existingStop : ℤ)
  /-- "The range start:end is not aligned to alignment". -/
  | misaligned (start stop alignment : ℤ)
  /-- `ZeroDivisionError`, for an alignment of zero. -/
  | zeroDivision
  /-- "The spi_addr of {tag} at {spi_addr:x} is not aligned to the spi block size of ...". -/
  | unalignedImage (tag : Tag) (spiAddr : ℤ)
  deriving DecidableEq

/-- Assignment to a `c_uint32`. -/
def cUint32 (x : ℤ) : UInt32 := UInt32.ofNat (x % 2 ^ 32).toNat

def tagBytes (tag : Tag) : Vector UInt8 maxTagLen :=
  Vector.ofFn fun i => (tag[i.val]?.map fun c => UInt8.ofNat c.toNat).getD 0

/-- The descriptor of an entry whose tag fits, with the checksum over the rest of it. -/
def FsEntry.fd (e : FsEntry) : Fd :=
  let fd : Fd := {
    spiAddr := cUint32 e.spiAddr
    copyDest := cUint32 e.loadAddr
    flags := fdFlags e.data.length false e.executable
    dataCrc := cksum e.data
    securityFlags := 0
    imageTag := tagBytes e.tag
    fdCrc := 0 }
  { fd with fdCrc := cksum fd.bytes }

def FsEntry.getDescriptor (e : FsEntry) : Except BuildError Fd :=
  if e.tag.length > maxTagLen then .error .tagIndex else .ok e.fd

/-! ## Ranges -/

structure Range (δ : Type) where
  start : ℤ
  stop : ℤ
  data : Option δ

structure RangeTracker (δ : Type) where
  ranges : List (Range δ)
  alignment : ℤ

/-- The loop of `RangeTracker.add`: where the new range goes. -/
def insertIndex {δ : Type} (start stop : ℤ) : List (Range δ) → ℕ → Except BuildError ℕ
  | [], index => .ok index
  | r :: rest, index =>
    if (r.start ≤ start ∧ start < r.stop) ∨ (r.start < stop ∧ stop ≤ r.stop) then
      .error (.overlap start stop r.start r.stop)
    else if r.start > start then .ok index
    else insertIndex start stop rest (index + 1)

def RangeTracker.add {δ : Type} (t : RangeTracker δ) (start stop : ℤ) (data : Option δ) :
    Except BuildError (RangeTracker δ) := do
  let index ← insertIndex start stop t.ranges 0
  if t.alignment = 0 then .error .zeroDivision
  else if start % t.alignment ≠ 0 then .error (.misaligned start stop t.alignment)
  else .ok { t with ranges := t.ranges.insertIdx index ⟨start, stop, data⟩ }

/-! ## Writes -/

/-- One element of `writes()`: whether it is always emitted, address and data. -/
structure Write extends Piece UInt8 where
  always : Bool

def failoverHeadAddr : ℕ := 0x4000

def spiRxAddr : ℕ := 0x13FFC

def spiRxValue : UInt32 := 0xA5A55A5A

def failoverTag : Tag := "failover".toList

/-- `BootFs`. The constructor stores the failover entry under its own key. -/
structure BootFs where
  order : List Tag
  entries : Tag → Option FsEntry
  failover : FsEntry

def BootFs.get (fs : BootFs) (tag : Tag) : Option FsEntry :=
  if tag = failoverTag then some fs.failover else fs.entries tag

def entryWrites (descriptorAddr : ℤ) (always : Bool) (e : FsEntry) :
    Except BuildError (List Write) := do
  let fd ← e.getDescriptor
  .ok [⟨⟨descriptorAddr, fd.bytes⟩, true⟩, ⟨⟨e.spiAddr, e.data⟩, always⟩]

def orderWrites (fs : BootFs) : List Tag → ℤ → Except BuildError (List Write)
  | [], _ => .ok []
  | tag :: rest, descriptorAddr =>
    match fs.get tag with
    | none => .error (.missingEntry tag)
    | some e => do
      let ws ← entryWrites descriptorAddr (!e.provisioningOnly) e
      let more ← orderWrites fs rest (descriptorAddr + fdSize)
      .ok (ws ++ more)

def BootFs.unsortedWrites (fs : BootFs) : Except BuildError (List Write) := do
  let ws ← orderWrites fs fs.order 0
  let failover ← entryWrites failoverHeadAddr true fs.failover
  .ok (ws ++ failover ++ [⟨⟨spiRxAddr, le32 spiRxValue⟩, true⟩])

def checkOverlap (ws : List Write) (t : RangeTracker Unit) : Except BuildError (RangeTracker Unit) :=
  ws.foldlM (fun t w => t.add w.addr w.stop none) t

def BootFs.writes (fs : BootFs) : Except BuildError (List Write) := do
  let ws ← fs.unsortedWrites
  let sorted := ws.insertionSort fun v w => v.addr ≤ w.addr
  let _ ← checkOverlap sorted ⟨[], 1⟩
  .ok sorted

def emitted (allSections : Bool) (ws : List Write) : List Write :=
  ws.filter fun w => w.always || allSections

/-- The loop of `BootFs.to_binary`; the binary so far and `last_addr`. -/
def extendBinary (acc : List UInt8 × ℤ) (w : Write) : List UInt8 × ℤ :=
  (acc.1 ++ List.replicate (w.addr - acc.2).toNat 0xFF ++ w.data, w.addr + w.data.length)

def BootFs.toBinary (fs : BootFs) (allSections : Bool) : Except BuildError (List UInt8) := do
  let ws ← fs.writes
  .ok ((emitted allSections ws).foldl extendBinary ([], 0)).1

/-! ## Reading an image back -/

inductive ParseError where
  /-- Fewer than 32 bytes left for a descriptor. -/
  | shortDescriptor
  /-- "recovery descriptor not found at fixed offset". -/
  | noFailover
  /-- "data length ... does not include spi rx training". -/
  | noSpiRx
  /-- "spi rx training data not found". -/
  | badSpiRx
  /-- "{tag} image not aligned to 0x{alignment:x}". -/
  | misaligned (tag : Tag) (alignment : ℕ)
  /-- "data len ... is too small to contain image '{tag}'". -/
  | tooSmall (len : ℕ) (tag : Tag)
  /-- "{tag} image checksum ... does not match expected checksum ...". -/
  | badChecksum (tag : Tag) (actual expected : UInt32)
  deriving DecidableEq

def slice (data : List UInt8) (addr size : ℕ) : List UInt8 := (data.drop addr).take size

def Fd.imageTagStr (fd : Fd) : Tag :=
  (fd.imageTag.toList.takeWhile (· ≠ 0)).map fun b => Char.ofNat b.toNat

/-- `iter_fd` from `addr` on, over a binary image. -/
def iterFd (data : List UInt8) (addr : ℕ) : Except ParseError (List Fd) :=
  if addr + fdSize ≤ data.length then
    let fd := Fd.ofBytes (slice data addr fdSize)
    if flagInvalid fd.flags then .ok []
    else do
      let rest ← iterFd data (addr + fdSize)
      .ok (fd :: rest)
  else .error .shortDescriptor
termination_by data.length - addr
decreasing_by
  simp only [fdSize] at *
  omega

/-- The tags whose data checksum may be wrong. -/
def unchecked : List Tag := ["boardcfg".toList, "ccfgovra".toList, "ccfgovrb".toList]

def cksumSize : ℕ := 4

def checkEntry (tag : Tag) (fd : Fd) (data : List UInt8) (alignment : ℕ) :
    Except ParseError FsEntry :=
  let dataOffs := fd.spiAddr.toNat
  let imageSize := flagImageSize fd.flags
  let imageData := slice data dataOffs imageSize
  if dataOffs % alignment ≠ 0 then .error (.misaligned tag alignment)
  else if data.length < imageSize + cksumSize then .error (.tooSmall data.length tag)
  else if fd.dataCrc ≠ cksum imageData ∧ tag ∉ unchecked then
    .error (.badChecksum tag (cksum imageData) fd.dataCrc)
  else .ok {
    provisioningOnly := false
    tag := tag
    data := imageData
    spiAddr := fd.spiAddr.toNat
    loadAddr := fd.copyDest.toNat
    executable := flagExecutable fd.flags }

/-- The dictionary `fds`: a tag that occurs again replaces the earlier one. -/
def lastWithTag (fds : List Fd) (tag : Tag) : Option Fd :=
  fds.reverse.find? fun fd => fd.imageTagStr = tag

def checkEntries (fds : List Fd) (data : List UInt8) (alignment : ℕ) :
    List Tag → Except ParseError (List FsEntry)
  | [] => .ok []
  | tag :: rest =>
    match lastWithTag fds tag with
    | none => checkEntries fds data alignment rest
    | some fd => do
      let e ← checkEntry tag fd data alignment
      let es ← checkEntries fds data alignment rest
      .ok (e :: es)

def fromBinary (data : List UInt8) (alignment : ℕ) : Except ParseError BootFs := do
  let fds ← iterFd data 0
  let order := fds.map Fd.imageTagStr
  if data.length < failoverHeadAddr + fdSize then .error .noFailover
  else if data.length < spiRxAddr + 4 then .error .noSpiRx
  else if ofLe32 (slice data spiRxAddr 4) ≠ spiRxValue then .error .badSpiRx
  else
    let entries ← checkEntries fds data alignment order
    let failover ← checkEntry failoverTag (Fd.ofBytes (slice data failoverHeadAddr fdSize)) data
      alignment
    .ok ⟨order, fun tag => entries.find? fun e => e.tag = tag, failover⟩

end SystemFirmware.TtBootFs
