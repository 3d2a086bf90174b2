import SystemFirmware.BhFwtable.Partition
import SystemFirmware.Lib.Grouping

/-!
# CcfgovrUtils — the override tool

`scripts/ccfgovr_utils.py`, the part that builds a bank. Its integers are natural numbers here. A
dictionary is the list of its items in the order in which they were added, with distinct keys.
`zlib.crc32` is the CRC-32 of IEEE 802.3.
-/

namespace SystemFirmware.CcfgovrUtils

open Lib BhFwtable

def magic : UInt32 := 0x564F4343

def headerVersion : UInt32 := 0

/-- The paths that can be overridden, by their last part. -/
inductive Path
  | tdpLimit
  | maxTdpLimit
  | kernelThrottlerStopNopsFreq
  | kernelThrottlerAtFloorEn
  | gddrThermTripEn
  | bypassCableFaultDetection
  | softHarvestDramMask
  | pci0MaxPcieSpeed
  | pci1MaxPcieSpeed
  | ethSpeedOverride
  deriving DecidableEq

/-- `FIELDS`: the number of the submessage, and the one of the field in it. -/
def Path.fields : Path → ℕ × ℕ
  | tdpLimit => (2, 5)
  | maxTdpLimit => (2, 16)
  | kernelThrottlerStopNopsFreq => (2, 17)
  | kernelThrottlerAtFloorEn => (3, 10)
  | gddrThermTripEn => (3, 11)
  | bypassCableFaultDetection => (3, 12)
  | softHarvestDramMask => (5, 3)
  | pci0MaxPcieSpeed => (7, 1)
  | pci1MaxPcieSpeed => (8, 1)
  | ethSpeedOverride => (9, 3)

structure Overrides where
  items : List (Path × ℕ)
  nodup : (items.map Prod.fst).Nodup

/-- The loop of `_varint`. -/
def varintLoop (value : ℕ) (out : List UInt8) : List UInt8 :=
  let byte := UInt8.ofNat (value &&& 0x7F)
  let value' := value >>> 7
  if value' ≠ 0 then varintLoop value' (out ++ [byte ||| 0x80]) else out ++ [byte]
termination_by value
decreasing_by
  rw [Nat.shiftRight_eq_div_pow] at *
  omega

def varint (value : ℕ) : List UInt8 := varintLoop value []

def frame (proto : List UInt8) : List UInt8 :=
  if proto = [] then []
  else
    let body := proto ++ [0]
    body ++ List.replicate (-(body.length : ℤ) % 4).toNat 0

/-- The bytes of a field in `encode_body`. -/
def encodeLeaf (item : Path × ℕ) : List UInt8 :=
  varint (item.1.fields.2 <<< 3) ++ varint item.2

/-- The bytes of a submessage in `encode_body`. -/
def encodeTop (group : ℕ × List UInt8) : List UInt8 :=
  varint ((group.1 <<< 3) ||| 2) ++ varint group.2.length ++ group.2

/-- The message in `encode_body`: the groups in the order of their numbers. -/
def encodeProto (overrides : Overrides) : List UInt8 :=
  let groups := collect (fun item => item.1.fields.1) encodeLeaf overrides.items
  (groups.insertionSort fun a b => a.1 ≤ b.1).flatMap encodeTop

def encodeBody (overrides : Overrides) (extra : List UInt8) : List UInt8 :=
  frame (encodeProto overrides ++ extra)

def makeBankWith (seq : UInt32) (body : List UInt8) (magic version : UInt32)
    (bodyLen cksum : Option UInt32) : List UInt8 :=
  let bodyLen := bodyLen.getD (UInt32.ofNat body.length)
  let head := le32 magic ++ le32 seq ++ le32 bodyLen ++ le32 version
  let cksum := cksum.getD (crc32Ieee 0 (head ++ body))
  head ++ le32 cksum ++ body

def makeBank (seq : UInt32) (body : List UInt8) : List UInt8 :=
  makeBankWith seq body magic headerVersion none none

end SystemFirmware.CcfgovrUtils
