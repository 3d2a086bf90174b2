import SystemFirmware.Lib.Banks
import SystemFirmware.Lib.Bytes
import SystemFirmware.Lib.Exec
import SystemFirmware.Lib.Flash
import Mathlib.Data.Fintype.Basic

/-!
# GDDR calibration store — definitions

`lib/tenstorrent/bh_arc/gddr_cal.c` keeps one table in two flash banks. `gddr_cal_read`
takes the newest bank that passes its checks; `gddr_cal_write` rewrites the bank that is
not active, body first and header last.

Every flash operation gets its outcome as an input: it succeeds, returns an error, or
the power is lost inside it. `crc32IeeeUpdate` stands for the routine of the OS.
-/

namespace SystemFirmware.GddrCal

open Lib

/-! ## Banks -/

def gddrCalMagic : UInt32 := 0x4C414347

def gddrCalVersion : UInt32 := 3

def gddrCalSeqErased : UInt32 := 0xFFFFFFFF

structure BankHdr where
  magic : UInt32
  seq : UInt32
  version : UInt32
  cksum : UInt32
  deriving DecidableEq, Repr

def BankHdr.beforeCksum (h : BankHdr) : List UInt8 := le32 h.magic ++ le32 h.seq ++ le32 h.version

def BankHdr.bytes (h : BankHdr) : List UInt8 := h.beforeCksum ++ le32 h.cksum

def hdrSize : ℕ := 16

/-- `sizeof(gddr_cal_table_t)`: 8 ASICs, 8 controllers, 4 bytes each. -/
def tableSize : ℕ := 8 * 8 * 4

/-- `gddr_cal_table_t`. The store copies it as a whole and never looks inside. -/
abbrev GddrCalTable := Fin tableSize → UInt8

@[ext]
structure Bank where
  hdr : BankHdr
  table : GddrCalTable

instance : DecidableEq Bank := fun x y =>
  decidable_of_iff (x.hdr = y.hdr ∧ x.table = y.table) Bank.ext_iff.symm

/-- The two partitions, apart and of equal size, with room for a bank. -/
structure Partitions where
  offset : BankIdx → ℕ
  size : ℕ
  fits : hdrSize + tableSize ≤ size
  disjoint : offset .a + size ≤ offset .b ∨ offset .b + size ≤ offset .a

/-- `gddrcal_a` and `gddrcal_b` of the board's devicetree. -/
def boardPartitions : Partitions where
  offset
    | .a => 0xc10000
    | .b => 0xc11000
  size := 0x1000
  fits := by decide
  disjoint := by decide

/-- What `flash_read` of a header brings into the struct. -/
def readHdr (f : Flash) (off : ℕ) : BankHdr where
  magic := ofLe32 (Flash.read f off 4)
  seq := ofLe32 (Flash.read f (off + 4) 4)
  version := ofLe32 (Flash.read f (off + 8) 4)
  cksum := ofLe32 (Flash.read f (off + 12) 4)

/-- What `flash_read` of a whole bank brings into `bank_buf`. -/
def readBank (f : Flash) (off : ℕ) : Bank := ⟨readHdr f off, fun i => f (off + hdrSize + i)⟩

def hdrIsPlausible (h : BankHdr) : Bool :=
  h.magic == gddrCalMagic && h.seq != gddrCalSeqErased && h.version == gddrCalVersion

/-! ## Reading and writing -/

/-- The functions' error codes; `flash` passes on the code of the driver. -/
inductive Errno where
  | enodev
  | enoent
  | eio
  | flash (rc : ℤ)
  deriving DecidableEq, Repr

structure Active where
  seq : UInt32
  bank : BankIdx
  haveActive : Bool
  deriving DecidableEq, Repr

def Active.init : Active := ⟨0, .a, false⟩

section

variable (crc32IeeeUpdate : UInt32 → List UInt8 → UInt32) (parts : Partitions)

def bankCrc (bank : Bank) : UInt32 :=
  crc32IeeeUpdate (crc32IeeeUpdate 0 bank.hdr.beforeCksum) (List.ofFn bank.table)

/-- Which `flash_read` calls of a `gddr_cal_read` succeed, at most one for a header and one for a
bank. -/
structure ReadOutcome where
  hdrOk : BankIdx → Bool
  bankOk : BankIdx → Bool

def ReadOutcome.clean : ReadOutcome := ⟨fun _ => true, fun _ => true⟩

def candidates (f : Flash) (outcome : ReadOutcome) : List BankIdx :=
  newestFirst (fun i => outcome.hdrOk i && hdrIsPlausible (readHdr f (parts.offset i)))
    fun i => (readHdr f (parts.offset i)).seq

def tryCandidates (f : Flash) (outcome : ReadOutcome) : List BankIdx → Option BankIdx
  | [] => none
  | i :: rest =>
    let bank := readBank f (parts.offset i)
    if outcome.bankOk i && bank.hdr.cksum == bankCrc crc32IeeeUpdate bank then some i
    else tryCandidates f outcome rest

def gddrCalRead (ready : Bool) (outcome : ReadOutcome) (f : Flash) (active : Active) :
    Except Errno GddrCalTable × Active :=
  let cleared := { active with haveActive := false }
  if !ready then (.error .enodev, cleared)
  else match tryCandidates crc32IeeeUpdate parts f outcome (candidates parts f outcome) with
    | some i =>
      let bank := readBank f (parts.offset i)
      (.ok bank.table, ⟨bank.hdr.seq, i, true⟩)
    | none => (.error .enoent, cleared)

/-- What becomes of a `flash_erase` or `flash_write`: one that fails or is cut off leaves
arbitrary bytes. -/
inductive FlashOutcome where
  | ok
  | error (rc : ℤ) (garbage : ℕ → UInt8)
  | powerLoss (garbage : ℕ → UInt8)

structure WriteOutcome where
  erase : FlashOutcome
  body : FlashOutcome
  hdr : FlashOutcome
  readBack : Option ℤ

def WriteOutcome.clean : WriteOutcome := ⟨.ok, .ok, .ok, none⟩

inductive WriteResult where
  | returned (rc : Except Errno Unit)
  | powerLost

def WriteResult.isOk : WriteResult → Bool
  | .returned (.ok ()) => true
  | _ => false

def writeTarget (active : Active) : BankIdx :=
  if active.haveActive then active.bank.other else .a

def writeSeq (active : Active) : UInt32 :=
  let seq := if active.haveActive then active.seq + 1 else 0
  if seq == gddrCalSeqErased then 0 else seq

/-- The bank as `gddr_cal_write` prepares it in `bank_buf`. -/
def newBank (active : Active) (table : GddrCalTable) : Bank :=
  let bank : Bank := ⟨⟨gddrCalMagic, writeSeq active, gddrCalVersion, 0⟩, table⟩
  { bank with hdr := { bank.hdr with cksum := bankCrc crc32IeeeUpdate bank } }

/-- One erase or write inside `gddr_cal_write`: go on, or end the call after an error or a power
loss. -/
def flashOp (f done : Flash) (off len : ℕ) (active : Active) (outcome : FlashOutcome)
    (next : Flash → Flash × WriteResult × Active) : Flash × WriteResult × Active :=
  match outcome with
  | .ok => next done
  | .error rc garbage => (Flash.patch f off len garbage, .returned (.error (.flash rc)), active)
  | .powerLoss garbage => (Flash.patch f off len garbage, .powerLost, active)

/-- `gddr_cal_write`: the flash it leaves, how it ends, and the statics. -/
def gddrCalWrite (ready : Bool) (outcome : WriteOutcome) (table : GddrCalTable) (f : Flash)
    (active : Active) : Flash × WriteResult × Active :=
  if !ready then (f, .returned (.error .enodev), active)
  else
    let target := writeTarget active
    let off := parts.offset target
    let bank := newBank crc32IeeeUpdate active table
    flashOp f (Flash.erase f off parts.size) off parts.size active outcome.erase fun f =>
    -- body first, header last
    flashOp f (Flash.program f (off + hdrSize) (List.ofFn bank.table)) (off + hdrSize) tableSize
      active outcome.body fun f =>
    flashOp f (Flash.program f off bank.hdr.bytes) off hdrSize active outcome.hdr fun f =>
    match outcome.readBack with
    | some rc => (f, .returned (.error (.flash rc)), active)
    | none =>
      let back := readBank f off
      if !hdrIsPlausible back.hdr || back.hdr.seq != bank.hdr.seq ||
          back.hdr.cksum != bankCrc crc32IeeeUpdate back then
        (f, .returned (.error .eio), active)
      else (f, .returned (.ok ()), ⟨bank.hdr.seq, target, true⟩)

/-! ## Boots and writes -/

structure World where
  flash : Flash
  active : Active
  /-- False from a power loss to the next boot. -/
  powered : Bool
  /-- Every write so far, with whether it returned 0. -/
  writes : List (GddrCalTable × Bool)

def World.start (f : Flash) : World := ⟨f, Active.init, false, []⟩

/-- The first `gddr_cal_read` after a boot, which meets no flash I/O error. -/
def World.bootRead (s : World) : Except Errno GddrCalTable × Active :=
  gddrCalRead crc32IeeeUpdate parts true .clean s.flash Active.init

inductive Action where
  /-- Power-up and the first read; whatever ran before is gone. -/
  | boot
  | write (table : GddrCalTable) (ready : Bool) (outcome : WriteOutcome)

def step (s : World) : Action → Option World
  | .boot => some { s with
      active := (s.bootRead crc32IeeeUpdate parts).2
      powered := true }
  | .write table ready outcome =>
    if s.powered then
      match gddrCalWrite crc32IeeeUpdate parts ready outcome table s.flash s.active with
      | (f, .powerLost, active) => some ⟨f, active, false, s.writes ++ [(table, false)]⟩
      | (f, .returned rc, active) =>
        some ⟨f, active, true, s.writes ++ [(table, (WriteResult.returned rc).isOk)]⟩
    else none

end

end SystemFirmware.GddrCal
