import Mathlib.Data.List.Basic

/-!
# The test access port of IEEE 1149.1

`Tap` is the controller with its instruction path and the data path that is selected. A path has
a shift register with the bit nearest to TDO first, what its capture loads, and the register
that its update sets.

On a rising edge of TCK the controller samples TMS and changes its state; a capture or a shift
happens on the rising edge that finds the controller in that state. On a falling edge TDO
changes and an update happens. `clock` is a rising and a falling edge.
-/

namespace SystemFirmware.Lib

-- ---
-- States

inductive TapState
  | testLogicReset
  | runTestIdle
  | selectDrScan
  | captureDr
  | shiftDr
  | exit1Dr
  | pauseDr
  | exit2Dr
  | updateDr
  | selectIrScan
  | captureIr
  | shiftIr
  | exit1Ir
  | pauseIr
  | exit2Ir
  | updateIr
  deriving DecidableEq

def TapState.next : TapState → Bool → TapState
  | testLogicReset, true => testLogicReset
  | testLogicReset, false => runTestIdle
  | runTestIdle, true => selectDrScan
  | runTestIdle, false => runTestIdle
  | selectDrScan, true => selectIrScan
  | selectDrScan, false => captureDr
  | captureDr, true => exit1Dr
  | captureDr, false => shiftDr
  | shiftDr, true => exit1Dr
  | shiftDr, false => shiftDr
  | exit1Dr, true => updateDr
  | exit1Dr, false => pauseDr
  | pauseDr, true => exit2Dr
  | pauseDr, false => pauseDr
  | exit2Dr, true => updateDr
  | exit2Dr, false => shiftDr
  | updateDr, true => selectDrScan
  | updateDr, false => runTestIdle
  | selectIrScan, true => testLogicReset
  | selectIrScan, false => captureIr
  | captureIr, true => exit1Ir
  | captureIr, false => shiftIr
  | shiftIr, true => exit1Ir
  | shiftIr, false => shiftIr
  | exit1Ir, true => updateIr
  | exit1Ir, false => pauseIr
  | pauseIr, true => exit2Ir
  | pauseIr, false => pauseIr
  | exit2Ir, true => updateIr
  | exit2Ir, false => shiftIr
  | updateIr, true => selectDrScan
  | updateIr, false => runTestIdle

-- ---
-- Paths

structure ScanPath where
  capture : List Bool
  shift : List Bool
  update : List Bool
  /-- All shifts: the bit that went in and the one that came out. -/
  log : List (Bool × Bool)
  deriving DecidableEq

namespace ScanPath

def load (p : ScanPath) : ScanPath := { p with shift := p.capture }

variable {p : ScanPath}

theorem load_ne_nil (hp : 0 < p.capture.length) : p.load.shift ≠ [] :=
  List.ne_nil_of_length_pos hp

def out (p : ScanPath) : Bool := p.shift.headD false

def shiftIn (p : ScanPath) (tdi : Bool) : ScanPath :=
  { p with shift := p.shift.tail ++ [tdi], log := p.log ++ [(tdi, p.out)] }

def latch (p : ScanPath) : ScanPath := { p with update := p.shift }

theorem shiftIn_of_cons {first : Bool} {rest : List Bool} (bit : Bool)
    (hshift : p.shift = first :: rest) : (p.shiftIn bit).shift = rest ++ [bit] := by
  rw [shiftIn, hshift]
  rfl

variable {bits : List Bool}

/-- **A shift register is a queue.** -/
theorem foldl_shiftIn (hp : p.shift ≠ []) :
    bits.foldl shiftIn p =
      { p with
        shift := (p.shift ++ bits).drop bits.length
        log := p.log ++ bits.zip (p.shift ++ bits) } := by
  induction bits generalizing p with
  | nil => simp
  | cons bit bits ih =>
    obtain ⟨first, rest, hshift⟩ := List.exists_cons_of_ne_nil hp
    have hnext := shiftIn_of_cons bit hshift
    rw [List.foldl_cons, ih (by simp [hnext]), hnext]
    simp [shiftIn, out, hshift]

theorem foldl_shiftIn_full (hp : p.shift ≠ []) (hlen : bits.length = p.shift.length) :
    bits.foldl shiftIn p = { p with shift := bits, log := p.log ++ bits.zip p.shift } := by
  rw [foldl_shiftIn hp, hlen, List.drop_left]
  have hzip : (bits ++ []).zip (p.shift ++ bits) = bits.zip p.shift ++ [].zip bits :=
    List.zip_append hlen
  rw [List.append_nil, List.zip_nil_left, List.append_nil] at hzip
  rw [hzip]

def outs : ScanPath → List Bool → List Bool
  | _, [] => []
  | p, bit :: bits => p.out :: outs (p.shiftIn bit) bits

theorem outs_eq (hp : p.shift ≠ []) : p.outs bits = (p.shift ++ bits).take bits.length := by
  induction bits generalizing p with
  | nil => rfl
  | cons bit bits ih =>
    obtain ⟨first, rest, hshift⟩ := List.exists_cons_of_ne_nil hp
    have hnext := shiftIn_of_cons bit hshift
    rw [outs, ih (by simp [hnext]), hnext]
    simp [out, hshift]

theorem outs_concat (p : ScanPath) (bits : List Bool) (bit : Bool) :
    p.outs (bits ++ [bit]) = p.outs bits ++ [(bits.foldl shiftIn p).out] := by
  induction bits generalizing p with
  | nil => rfl
  | cons first bits ih =>
    rw [List.cons_append, outs, ih, outs, List.foldl_cons, List.cons_append]

end ScanPath

-- ---
-- The controller

structure Tap where
  state : TapState
  ir : ScanPath
  /-- The data path that is selected. -/
  dr : ScanPath
  tdo : Bool
  deriving DecidableEq

namespace Tap

def rise (tms tdi : Bool) (t : Tap) : Tap :=
  let t' := { t with state := t.state.next tms }
  match t.state with
  | .captureDr => { t' with dr := t.dr.load }
  | .shiftDr => { t' with dr := t.dr.shiftIn tdi }
  | .captureIr => { t' with ir := t.ir.load }
  | .shiftIr => { t' with ir := t.ir.shiftIn tdi }
  | _ => t'

def fall (t : Tap) : Tap :=
  match t.state with
  | .shiftDr => { t with tdo := t.dr.out }
  | .updateDr => { t with dr := t.dr.latch }
  | .shiftIr => { t with tdo := t.ir.out }
  | .updateIr => { t with ir := t.ir.latch }
  | _ => t

def clock (tms tdi : Bool) (t : Tap) : Tap := (t.rise tms tdi).fall

section

variable {ir dr : ScanPath} {tdo tdi : Bool}

theorem clock_shiftDr : clock false tdi ⟨.shiftDr, ir, dr, tdo⟩ =
    ⟨.shiftDr, ir, dr.shiftIn tdi, (dr.shiftIn tdi).out⟩ := rfl

theorem clock_shiftIr : clock false tdi ⟨.shiftIr, ir, dr, tdo⟩ =
    ⟨.shiftIr, ir.shiftIn tdi, dr, (ir.shiftIn tdi).out⟩ := rfl

end

end Tap

end SystemFirmware.Lib
