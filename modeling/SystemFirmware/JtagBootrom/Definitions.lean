import SystemFirmware.Lib.Scatter

/-!
# JtagBootrom — loading the boot code over JTAG

`lib/tenstorrent/jtag_bootrom`. The DMC halts the ARC core of a chip, writes the boot code to its
memory from 0x80 on and checks it.

The AXI bus of the chip is a memory of words. The reset of the chip, the set-up of the pins, the
restart of the core, the log and the texts that are printed are left out.
-/

namespace SystemFirmware.JtagBootrom

open Lib

structure Config where
  loadBootrom : Bool
  verifyWrite : Bool

/-- The chip, with the field of `bh_chip.data` that is written here. -/
structure Chip where
  axi : UInt32 → UInt32
  workaroundApplied : Bool

def resetUnitArcMiscCntlRegAddr : UInt32 := 0x80030100

def resetUnitGpioPadTrienCntlRegAddr : UInt32 := 0x800301A0

def statusPostCodeRegAddr : UInt32 := 0x80030060

def Chip.axiWrite32 (c : Chip) (addr value : UInt32) : Chip :=
  { c with axi := Function.update c.axi addr value }

def Chip.axiBlockWrite (c : Chip) (addr : UInt32) (values : List UInt32) : Chip :=
  { c with axi := scatter (wordAddr addr) 0 values c.axi }

def patchOffset (cfg : Config) (patch : List UInt32) (startAddr : UInt32) (c : Chip) : ℤ × Chip :=
  if cfg.loadBootrom then
    -- halt the core, and back to zero
    let c := c.axiWrite32 resetUnitArcMiscCntlRegAddr
      (c.axi resetUnitArcMiscCntlRegAddr ||| ((0b1111 : UInt32) <<< 4))
    let c := c.axiWrite32 resetUnitArcMiscCntlRegAddr
      (c.axi resetUnitArcMiscCntlRegAddr &&& ~~~((0b1111 : UInt32) <<< 4))
    let c := c.axiWrite32 resetUnitGpioPadTrienCntlRegAddr 0xff00
    let c := c.axiWrite32 statusPostCodeRegAddr 0xF2
    let c := c.axiBlockWrite startAddr patch
    let c := c.axiWrite32 statusPostCodeRegAddr 0xF3
    (0, { c with workaroundApplied := true })
  else (0, c)

/-- The loop of `jtag_bootrom_verify`, from word `i` on. -/
def verifyLoop : ℕ → List UInt32 → Chip → ℤ × Chip
  | _, [], c => (0, c)
  | i, word :: rest, c =>
    let readback := c.axi (wordAddr 0 i)
    if word ≠ readback then (1, c.axiWrite32 statusPostCodeRegAddr 0x6)
    else verifyLoop (i + 1) rest c

def verify (cfg : Config) (patch : List UInt32) (c : Chip) : ℤ × Chip :=
  if cfg.verifyWrite then verifyLoop 0 patch c else (0, c)

/-- The patch and its check, with anything that happens to the chip in between. -/
def patchAndVerify (cfg : Config) (patch : List UInt32) (between : Chip → Chip) (c : Chip) :
    ℤ × Chip :=
  verify cfg patch (between (patchOffset cfg patch 0x80 c).2)

end SystemFirmware.JtagBootrom
