import Mathlib.Algebra.Ring.Nat

/-!
# Wrap-safe sequence numbers

`a` is newer than `b` when the 32-bit difference `a - b`, read as a signed number, is
positive (`seqIsNewer_iff`).
-/

namespace SystemFirmware.Lib

def seqIsNewer (a b : UInt32) : Bool := 0 < (a - b).toInt32

theorem seqIsNewer_iff {a b : UInt32} :
    seqIsNewer a b = true ↔ 0 < (a - b).toNat ∧ (a - b).toNat < 2 ^ 31 := by
  rw [seqIsNewer, decide_eq_true_eq, Int32.lt_iff_toInt_lt]
  obtain ⟨d, hd⟩ : ∃ d, d = a - b := ⟨_, rfl⟩
  rw [← hd]
  have hint : d.toInt32.toInt = d.toBitVec.toInt := rfl
  have hnat : d.toNat = d.toBitVec.toNat := rfl
  have hzero : (0 : Int32).toInt = 0 := rfl
  have hlt := d.toBitVec.isLt
  rw [hint, hnat, hzero, BitVec.toInt_eq_toNat_cond]
  split <;> omega

theorem seqIsNewer_asymm {a b : UInt32} (h : seqIsNewer a b = true) : seqIsNewer b a = false := by
  rw [← Bool.not_eq_true, seqIsNewer_iff]
  rw [seqIsNewer_iff] at h
  have hneg : b - a = -(a - b) := by rw [UInt32.neg_sub]
  have hlt := (a - b).toNat_lt
  have hsize : UInt32.size = 2 ^ 32 := rfl
  rw [hneg, UInt32.toNat_neg, hsize]
  omega

end SystemFirmware.Lib
