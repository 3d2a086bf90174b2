import Mathlib.Data.List.GetD
import Mathlib.Data.List.Induction
import SystemFirmware.Jtag.Definitions
import SystemFirmware.Lib.Bits

/-!
# Jtag — the data scan

`jtag_bitbang_xfer_dr` shifts a word through the data register that is selected. The bits
that come out are collected with the first one on top, moved to the upper end of the word
and turned around by `bitrev64` (`xfer_dr_correct`).
-/

namespace SystemFirmware.Jtag

open Lib

-- ---
-- The reversal

theorem bitrev8_reverses : Reverses bitrev8 := by
  unfold Reverses
  decide +kernel

theorem bitrev64_reverses : Reverses bitrev64 := by
  have h16 : Reverses bitrev16 := bitrev8_reverses.halves rfl
  have h32 : Reverses bitrev32 := h16.halves rfl
  exact h32.halves rfl

-- ---
-- The collected word

/-- A word with the given bits, the first one on top. -/
def msbFirst (bits : List Bool) : BitVec 64 :=
  bits.foldl (fun word bit => word <<< 1 ||| (BitVec.ofBool bit).setWidth 64) 0

theorem msbFirst_concat (bits : List Bool) (bit : Bool) :
    msbFirst (bits ++ [bit]) = msbFirst bits <<< 1 ||| (BitVec.ofBool bit).setWidth 64 := by
  rw [msbFirst, List.foldl_append]
  rfl

theorem getLsbD_msbFirst (bits : List Bool) {i : ℕ} (hi : i < 64) :
    (msbFirst bits).getLsbD i = bits.reverse.getD i false := by
  induction bits using List.reverseRecOn generalizing i with
  | nil => simp [msbFirst]
  | append_singleton bits bit ih =>
    rw [msbFirst_concat, List.reverse_append, BitVec.getLsbD_or, BitVec.getLsbD_shiftLeft,
      BitVec.getLsbD_setWidth, BitVec.getLsbD_ofBool]
    cases i with
    | zero => simp
    | succ i => simp [hi, ih (Nat.lt_of_succ_lt hi)]

theorem getLsbD_finish {bits : List Bool} (hlen : bits.length ≤ 64) (i : ℕ) :
    (bitrev64 (msbFirst bits <<< (64 - bits.length))).getLsbD i = bits.getD i false := by
  by_cases hi : i < 64
  · rw [bitrev64_reverses _ i hi, BitVec.getLsbD_shiftLeft]
    by_cases hbit : i < bits.length
    · have hpos : 64 - 1 - i - (64 - bits.length) = bits.length - 1 - i := by omega
      have hback : bits.length - 1 - (bits.length - 1 - i) = i := by omega
      have hup : ¬64 - 1 - i < 64 - bits.length := by omega
      have hin : 64 - 1 - i < 64 := by omega
      rw [hpos, getLsbD_msbFirst bits (by omega), List.getD_reverse _ (by omega), hback]
      simp [hup, hin]
    · have hbelow : 64 - 1 - i < 64 - bits.length := by omega
      rw [List.getD_eq_default _ _ (Nat.not_lt.mp hbit)]
      simp [hbelow]
  · rw [BitVec.getLsbD_of_ge _ _ (Nat.not_lt.mp hi), List.getD_eq_default]
    omega

-- ---
-- The scan

/-- `data_out` in the loop, after the given bits. -/
def collected (capture : Bool) (seen : List Bool) : BitVec 64 :=
  if capture then msbFirst seen <<< 1 else 0

theorem collected_step (capture : Bool) (seen : List Bool) (p : Pins) :
    (if capture then orTdo p (collected capture seen) <<< 1 else collected capture seen) =
      collected capture (seen ++ [p.getTdo]) := by
  cases capture with
  | false => rfl
  | true =>
    have hnext : orTdo p (msbFirst seen <<< 1) = msbFirst (seen ++ [p.getTdo]) :=
      (msbFirst_concat _ _).symm
    show orTdo p (msbFirst seen <<< 1) <<< 1 = msbFirst (seen ++ [p.getTdo]) <<< 1
    rw [hnext]

/-- The loop, in Shift-DR: TDO shows the bit that comes out next. -/
theorem shiftDrLoop_eq (capture : Bool) (count : ℕ) (dataIn : BitVec 64) (seen : List Bool)
    (tdi : Bool) (ir dr : ScanPath) :
    ∃ tdi', shiftDrLoop capture (count + 1) dataIn (collected capture seen)
        ⟨false, false, tdi, ⟨.shiftDr, ir, dr, dr.out⟩⟩ =
      (dataIn >>> count, collected capture (seen ++ dr.outs (lowBits count dataIn)),
        ⟨false, false, tdi', ⟨.shiftDr, ir, (lowBits count dataIn).foldl ScanPath.shiftIn dr,
          ((lowBits count dataIn).foldl ScanPath.shiftIn dr).out⟩⟩) := by
  induction count generalizing dataIn seen tdi dr with
  | zero =>
    refine ⟨tdi, ?_⟩
    rw [shiftDrLoop, BitVec.ushiftRight_zero]
    simp [lowBits, ScanPath.outs]
  | succ count ih =>
    obtain ⟨tdi', hrest⟩ :=
      ih (dataIn >>> 1) (seen ++ [dr.out]) (lowBit dataIn) (dr.shiftIn (lowBit dataIn))
    refine ⟨tdi', ?_⟩
    rw [shiftDrLoop, Pins.ifTdi, collected_step, tick_one, Tap.clock_shiftDr]
    show shiftDrLoop capture (count + 1) _ (collected capture (seen ++ [dr.out])) _ = _
    rw [hrest, lowBits_succ, List.foldl_cons, ScanPath.outs, List.append_assoc,
      List.singleton_append, ← BitVec.shiftRight_add, Nat.add_comm 1 count]

theorem captureDr_eq (tck tms tdi tdo : Bool) (ir dr : ScanPath) :
    ((⟨tck, tms, tdi, ⟨.selectDrScan, ir, dr, tdo⟩⟩ : Pins).clrTms.tick 1).tick 1 =
      ⟨false, false, tdi, ⟨.shiftDr, ir, dr.load, dr.load.out⟩⟩ := by
  cases tck <;> rfl

theorem xferDr_eq {p : Pins} (hstate : p.tap.state = .selectDrScan) (count : ℕ)
    (dataIn : BitVec 64) (idle : Bool) :
    (xferDr (count + 1) dataIn idle true p).1 =
      bitrev64 (msbFirst (p.tap.dr.load.outs (lowBits (count + 1) dataIn)) <<<
        (64 - (count + 1))) ∧
    (xferDr (count + 1) dataIn idle true p).2.tap.dr =
      ((lowBits (count + 1) dataIn).foldl ScanPath.shiftIn p.tap.dr.load).latch ∧
    (xferDr (count + 1) dataIn idle true p).2.tap.state =
      if idle then .runTestIdle else .selectDrScan := by
  obtain ⟨tck, tms, tdi, ⟨state, ir, dr, tdo⟩⟩ := p
  obtain rfl : state = .selectDrScan := hstate
  obtain ⟨tdi', hloop⟩ := shiftDrLoop_eq true count dataIn [] tdi ir dr.load
  have hzero : collected true [] = 0 := rfl
  rw [hzero, List.nil_append] at hloop
  rw [lowBits_concat, List.foldl_append, ScanPath.outs_concat, msbFirst_concat]
  rw [xferDr, if_neg (Nat.succ_ne_zero count)]
  dsimp only
  rw [captureDr_eq, hloop]
  cases idle <;> exact ⟨rfl, rfl, rfl⟩

/-- **The data scan is correct.** Exactly `count` bits are shifted, bit 0 of the word first; the
word that is returned has the bits that came out and no others, the register is updated with the
low bits of the word, and the scan ends where the caller wants it. -/
theorem xfer_dr_correct {p : Pins} {count : ℕ} (dataIn : BitVec 64) (idle : Bool)
    (hstate : p.tap.state = .selectDrScan) (hcount : 1 ≤ count) (hmax : count ≤ 64)
    (hdr : p.tap.dr.capture.length = count) :
    (xferDr count dataIn idle true p).2.tap.dr.log =
      p.tap.dr.log ++ (lowBits count dataIn).zip p.tap.dr.capture ∧
    (∀ i, (xferDr count dataIn idle true p).1.getLsbD i = p.tap.dr.capture.getD i false) ∧
    (xferDr count dataIn idle true p).2.tap.dr.update = lowBits count dataIn ∧
    (xferDr count dataIn idle true p).2.tap.state =
      if idle then .runTestIdle else .selectDrScan := by
  obtain ⟨count, rfl⟩ := Nat.exists_eq_add_of_le' hcount
  obtain ⟨hout, hdata, hend⟩ := xferDr_eq hstate count dataIn idle
  have hne : p.tap.dr.load.shift ≠ [] := ScanPath.load_ne_nil (by omega)
  have hlen : (lowBits (count + 1) dataIn).length = p.tap.dr.load.shift.length :=
    (length_lowBits _ _).trans hdr.symm
  rw [ScanPath.foldl_shiftIn_full hne hlen] at hdata
  -- what came out is what was captured
  have houts : p.tap.dr.load.outs (lowBits (count + 1) dataIn) = p.tap.dr.capture := by
    rw [ScanPath.outs_eq hne, hlen, List.take_left]
    rfl
  refine ⟨?_, ?_, ?_, hend⟩
  · rw [hdata]
    rfl
  · intro i
    rw [hout, houts, ← hdr]
    exact getLsbD_finish (hdr.trans_le hmax) i
  · rw [hdata]
    rfl

def selectedPort (capture : List Bool) : Pins where
  tck := false
  tms := true
  tdi := false
  tap := ⟨.selectDrScan, ⟨[], [], [], []⟩, ⟨capture, [], [], []⟩, false⟩

theorem xfer_dr_three_bits :
    (xferDr 3 7 true true (selectedPort [true, true, false])).2.tap.dr.update =
        [true, true, true] ∧
      (xferDr 3 7 true true (selectedPort [true, true, false])).2.tap.state = .runTestIdle := by
  obtain ⟨-, -, hupdate, hend⟩ := @xfer_dr_correct (selectedPort [true, true, false])
    3 7 true rfl (by decide) (by decide) rfl
  exact ⟨hupdate, hend⟩

end SystemFirmware.Jtag
