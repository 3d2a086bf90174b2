import SystemFirmware.Jtag.Definitions

/-!
# Jtag — the instruction scan

`jtag_bitbang_update_ir` takes the port from Run-Test/Idle to Capture-IR and then begins to
shift. But the first tick of its loop is the one that captures and enters Shift-IR, and
nothing is shifted on it: bit 0 of the data is lost (`update_ir_shifts_rest`).
-/

namespace SystemFirmware.Jtag

open Lib

theorem shiftIrLoop_eq (count : ℕ) (data : BitVec 64) (tdi tdo : Bool) (ir dr : ScanPath) :
    ∃ tdi' tdo', shiftIrLoop (count + 1) data ⟨false, false, tdi, ⟨.shiftIr, ir, dr, tdo⟩⟩ =
      (data >>> count, ⟨false, false, tdi',
        ⟨.shiftIr, (lowBits count data).foldl ScanPath.shiftIn ir, dr, tdo'⟩⟩) := by
  induction count generalizing data tdi tdo ir with
  | zero =>
    refine ⟨tdi, tdo, ?_⟩
    rw [shiftIrLoop, BitVec.ushiftRight_zero]
    rfl
  | succ count ih =>
    obtain ⟨tdi', tdo', hrest⟩ :=
      ih (data >>> 1) (lowBit data) (ir.shiftIn (lowBit data)).out (ir.shiftIn (lowBit data))
    refine ⟨tdi', tdo', ?_⟩
    rw [shiftIrLoop, Pins.ifTdi, tick_one, Tap.clock_shiftIr, hrest, lowBits_succ, List.foldl_cons,
      ← BitVec.shiftRight_add, Nat.add_comm 1 count]

theorem selectIr_eq (tck tms tdi tdo : Bool) (ir dr : ScanPath) :
    (((⟨tck, tms, tdi, ⟨.runTestIdle, ir, dr, tdo⟩⟩ : Pins).setTms.tick 2).clrTms.tick 1) =
      ⟨false, false, tdi, ⟨.captureIr, ir, dr, tdo⟩⟩ := by
  cases tck <;> rfl

theorem updateIr_eq {p : Pins} (hstate : p.tap.state = .runTestIdle) (count : ℕ)
    (data : BitVec 64) :
    (updateIr (count + 2) data p).tap.state = .selectDrScan ∧
      (updateIr (count + 2) data p).tap.ir =
        ((lowBits (count + 1) (data >>> 1)).foldl ScanPath.shiftIn p.tap.ir.load).latch := by
  obtain ⟨tck, tms, tdi, ⟨state, ir, dr, tdo⟩⟩ := p
  obtain rfl : state = .runTestIdle := hstate
  -- the first round of the loop leaves Capture-IR
  have hcapture : shiftIrLoop (count + 2) data ⟨false, false, tdi, ⟨.captureIr, ir, dr, tdo⟩⟩ =
      shiftIrLoop (count + 1) (data >>> 1)
        ⟨false, false, lowBit data, ⟨.shiftIr, ir.load, dr, ir.load.out⟩⟩ := rfl
  obtain ⟨tdi', tdo', hloop⟩ :=
    shiftIrLoop_eq count (data >>> 1) (lowBit data) ir.load.out ir.load dr
  rw [lowBits_concat, List.foldl_append]
  rw [updateIr, selectIr_eq, hcapture, hloop]
  exact ⟨rfl, rfl⟩

theorem lowBits_tail (count : ℕ) (data : BitVec 64) :
    (lowBits (count + 1) data).tail = lowBits count (data >>> 1) := by
  rw [lowBits_succ, List.tail_cons]

/-- **The instruction scan loses bit 0.** Only the `count - 1` bits from bit 1 on are shifted, and
the instruction is the last bit of what was captured, followed by them. So it is the low bits of
the data exactly if that bit is bit 0 of the data. -/
theorem update_ir_shifts_rest {p : Pins} {count : ℕ} (data : BitVec 64)
    (hstate : p.tap.state = .runTestIdle) (hcount : 2 ≤ count)
    (hir : p.tap.ir.capture.length = count) :
    (updateIr count data p).tap.state = .selectDrScan ∧
    (updateIr count data p).tap.ir.log.map Prod.fst =
      p.tap.ir.log.map Prod.fst ++ (lowBits count data).tail ∧
    (updateIr count data p).tap.ir.update =
      p.tap.ir.capture.drop (count - 1) ++ (lowBits count data).tail ∧
    ((updateIr count data p).tap.ir.update = lowBits count data ↔
      p.tap.ir.capture.getLast? = some (data.getLsbD 0)) := by
  obtain ⟨count, rfl⟩ := Nat.exists_eq_add_of_le' hcount
  obtain ⟨hend, hscan⟩ := updateIr_eq hstate count data
  have hne : p.tap.ir.load.shift ≠ [] := ScanPath.load_ne_nil (by omega)
  have hlen := length_lowBits (count + 1) (data >>> 1)
  rw [ScanPath.foldl_shiftIn hne, hlen] at hscan
  -- one bit of the capture is left
  have hdrop : (p.tap.ir.capture ++ lowBits (count + 1) (data >>> 1)).drop (count + 1) =
      p.tap.ir.capture.drop (count + 1) ++ lowBits (count + 1) (data >>> 1) :=
    List.drop_append_of_le_length (by omega)
  obtain ⟨init, last, hcapture⟩ : ∃ init last, p.tap.ir.capture = init ++ [last] :=
    (List.eq_nil_or_concat' _).resolve_left hne
  have hinit : init.length = count + 1 := by
    rw [hcapture, List.length_append, List.length_singleton] at hir
    omega
  have hlast : p.tap.ir.capture.drop (count + 1) = [last] := by
    rw [hcapture, ← hinit, List.drop_left]
  have hupdate : (updateIr (count + 2) data p).tap.ir.update =
      p.tap.ir.capture.drop (count + 1) ++ lowBits (count + 1) (data >>> 1) := by
    rw [hscan]
    exact hdrop
  refine ⟨hend, ?_, ?_, ?_⟩
  · have hzip : (lowBits (count + 1) (data >>> 1)).length ≤
        (p.tap.ir.load.shift ++ lowBits (count + 1) (data >>> 1)).length := by
      rw [List.length_append]
      exact Nat.le_add_left _ _
    rw [hscan, lowBits_tail]
    show (p.tap.ir.log ++ _).map Prod.fst = _
    rw [List.map_append, List.map_fst_zip hzip]
  · rw [hupdate, lowBits_tail]
    rfl
  · rw [hupdate, hlast, lowBits_succ (count + 1) data, hcapture, List.getLast?_concat,
      List.singleton_append]
    constructor
    · intro heq
      rw [(List.cons.inj heq).1, lowBit]
    · intro heq
      rw [Option.some.inj heq, lowBit]

def idlePort (capture : List Bool) : Pins where
  tck := false
  tms := false
  tdi := false
  tap := ⟨.runTestIdle, ⟨capture, [], [], []⟩, ⟨[], [], [], []⟩, false⟩

/-- An instruction with bit 0 clear, of 24 bits, after a capture of `01`: it gets through. -/
theorem update_ir_even_instruction :
    (updateIr 24 6 (idlePort (true :: List.replicate 23 false))).tap.state = .selectDrScan ∧
      (updateIr 24 6 (idlePort (true :: List.replicate 23 false))).tap.ir.update =
        lowBits 24 6 := by
  obtain ⟨hend, -, -, hiff⟩ := @update_ir_shifts_rest (idlePort (true :: List.replicate 23 false))
    24 6 rfl (by decide) (by decide)
  exact ⟨hend, hiff.mpr (by decide)⟩

/-- Instruction 1 of a register of two bits: one bit is shifted, and the instruction is 0. -/
theorem update_ir_loses_bit :
    (updateIr 2 1 (idlePort [true, false])).tap.ir.log.length = 1 ∧
      (updateIr 2 1 (idlePort [true, false])).tap.ir.update = [false, false] ∧
      lowBits 2 1 = [true, false] := by
  decide

end SystemFirmware.Jtag
