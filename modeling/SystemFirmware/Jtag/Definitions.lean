import SystemFirmware.Lib.Tap

/-!
# Jtag — the bit-banged JTAG driver

`drivers/jtag/jtag_bitbang.c` drives TCK, TMS and TDI of a test access port and reads TDO, all as
pins. `Pins` are the levels that are driven, with the port behind them: an edge is a change of
TCK. Values of 64 bits are `BitVec 64`. `bitrev.h` is here too.

The lock of the pins and the pin of TRST are left out.
-/

namespace SystemFirmware.Jtag

open Lib

-- ---
-- Pins

structure Pins where
  tck : Bool
  tms : Bool
  tdi : Bool
  tap : Tap
  deriving DecidableEq

namespace Pins

def setTck (p : Pins) : Pins :=
  { p with tck := true, tap := if p.tck then p.tap else p.tap.rise p.tms p.tdi }

def clrTck (p : Pins) : Pins :=
  { p with tck := false, tap := if p.tck then p.tap.fall else p.tap }

def setTms (p : Pins) : Pins := { p with tms := true }

def clrTms (p : Pins) : Pins := { p with tms := false }

def ifTdi (p : Pins) (bit : Bool) : Pins := { p with tdi := bit }

def getTdo (p : Pins) : Bool := p.tap.tdo

def tick : ℕ → Pins → Pins
  | 0, p => p.clrTck
  | count + 1, p => tick count p.clrTck.setTck

end Pins

-- ---
-- The driver

def lowBit (data : BitVec 64) : Bool := data.getLsbD 0

/-- The shift loop of `jtag_bitbang_update_ir`: the rest of the data, and the pins. -/
def shiftIrLoop : ℕ → BitVec 64 → Pins → BitVec 64 × Pins
  | 0, data, p => (data, p)
  | 1, data, p => (data, p)
  | count + 2, data, p => shiftIrLoop (count + 1) (data >>> 1) ((p.ifTdi (lowBit data)).tick 1)

def updateIr (count : ℕ) (data : BitVec 64) (p : Pins) : Pins :=
  -- Select IR scan
  let p := p.setTms.tick 2
  -- Capture IR
  let p := p.clrTms.tick 1
  -- Shift IR
  let (data, p) := shiftIrLoop count data p
  -- Exit IR
  let p := (p.setTms.ifTdi (lowBit data)).tick 1
  -- Select DR scan
  p.setTms.tick 2

def orTdo (p : Pins) (dataOut : BitVec 64) : BitVec 64 :=
  dataOut ||| (BitVec.ofBool p.getTdo).setWidth 64

/-- The shift loop of `jtag_bitbang_xfer_dr`. -/
def shiftDrLoop (capture : Bool) :
    ℕ → BitVec 64 → BitVec 64 → Pins → BitVec 64 × BitVec 64 × Pins
  | 0, dataIn, dataOut, p => (dataIn, dataOut, p)
  | 1, dataIn, dataOut, p => (dataIn, dataOut, p)
  | count + 2, dataIn, dataOut, p =>
    let p := p.ifTdi (lowBit dataIn)
    let dataOut := if capture then orTdo p dataOut <<< 1 else dataOut
    shiftDrLoop capture (count + 1) (dataIn >>> 1) dataOut (p.tick 1)

/-- `rev4` of `bitrev4`. -/
def rev4 : List (BitVec 8) :=
  [0x0, 0x8, 0x4, 0xc, 0x2, 0xa, 0x6, 0xe, 0x1, 0x9, 0x5, 0xd, 0x3, 0xb, 0x7, 0xf]

def bitrev4 (nibble : BitVec 8) : BitVec 8 := rev4.getD (nibble &&& 0xf).toNat 0

def bitrev8 (byte : BitVec 8) : BitVec 8 := (bitrev4 byte <<< 4) ||| bitrev4 (byte >>> 4)

def bitrev16 (hword : BitVec 16) : BitVec 16 :=
  ((bitrev8 (hword.setWidth 8)).setWidth 16 <<< 8) |||
    (bitrev8 ((hword >>> 8).setWidth 8)).setWidth 16

def bitrev32 (word : BitVec 32) : BitVec 32 :=
  ((bitrev16 (word.setWidth 16)).setWidth 32 <<< 16) |||
    (bitrev16 ((word >>> 16).setWidth 16)).setWidth 32

def bitrev64 (dword : BitVec 64) : BitVec 64 :=
  ((bitrev32 (dword.setWidth 32)).setWidth 64 <<< 32) |||
    (bitrev32 ((dword >>> 32).setWidth 32)).setWidth 64

def xferDr (count : ℕ) (dataIn : BitVec 64) (idle capture : Bool) (p : Pins) : BitVec 64 × Pins :=
  if count = 0 then (0, p)
  else
    -- DR scan
    let p := p.clrTms.tick 1
    -- Capture DR
    let p := p.tick 1
    -- Shift DR
    let (dataIn, dataOut, p) := shiftDrLoop capture count dataIn 0 p
    let p := p.setTms.ifTdi (lowBit dataIn)
    let dataOut := if capture then orTdo p dataOut else dataOut
    let p := p.tick 1
    -- Exit DR
    let p := p.tick 1
    -- Update DR
    let p := if idle then p.clrTms.tick 1 else p.tick 1
    let dataOut := if capture then bitrev64 (dataOut <<< (64 - count)) else dataOut
    (dataOut, p)

-- ---
-- Bits

def lowBits (count : ℕ) (data : BitVec 64) : List Bool := (List.range count).map data.getLsbD

theorem length_lowBits (count : ℕ) (data : BitVec 64) : (lowBits count data).length = count := by
  rw [lowBits, List.length_map, List.length_range]

theorem getLsbD_shiftRight (data : BitVec 64) (k i : ℕ) :
    (data >>> k).getLsbD i = data.getLsbD (k + i) := BitVec.getLsbD_ushiftRight ..

theorem lowBits_succ (count : ℕ) (data : BitVec 64) :
    lowBits (count + 1) data = lowBit data :: lowBits count (data >>> 1) := by
  rw [lowBits, lowBits, List.range_succ_eq_map, List.map_cons, List.map_map]
  congr 1
  refine List.map_congr_left fun i _ => ?_
  rw [Function.comp_apply, getLsbD_shiftRight, Nat.add_comm]

theorem lowBits_concat (count : ℕ) (data : BitVec 64) :
    lowBits (count + 1) data = lowBits count data ++ [lowBit (data >>> count)] := by
  rw [lowBits, lowBits, List.range_succ, List.map_append, lowBit, getLsbD_shiftRight]
  rfl

-- ---
-- Ticks

theorem tick_one (tms tdi : Bool) (tap : Tap) :
    Pins.tick 1 ⟨false, tms, tdi, tap⟩ = ⟨false, tms, tdi, tap.clock tms tdi⟩ := rfl

end SystemFirmware.Jtag
