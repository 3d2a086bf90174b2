import Mathlib.Algebra.Ring.Nat
import Mathlib.Data.Int.Bitwise
import Mathlib.Data.Int.DivMod
import Mathlib.Order.Bounds.Defs
import Mathlib.Tactic.Positivity

/-!
# Rounding up to a power of two

`(value + alignment - 1) & ~(alignment - 1)` on integers without a fixed width. For a
power of two and a value that is not negative it is the quotient, rounded up, times the
alignment (`alignUp_eq_mul`), and so the least multiple that is not below the value
(`alignUp_isLeast`).
-/

namespace SystemFirmware.Lib

/-- `(value + alignment - 1) & ~(alignment - 1)`. -/
def alignUp (alignment value : ℤ) : ℤ :=
  Int.land (value + alignment - 1) (Int.lnot (alignment - 1))

theorem ldiff_two_pow_sub_one (m k : ℕ) : Nat.ldiff m (2 ^ k - 1) = 2 ^ k * (m / 2 ^ k) := by
  apply Nat.eq_of_testBit_eq
  intro i
  rw [Nat.testBit_ldiff, Nat.testBit_two_pow_sub_one, Nat.testBit_two_pow_mul,
    Nat.testBit_div_two_pow]
  by_cases hi : i < k
  · have : ¬ k ≤ i := by omega
    simp [hi, this]
  · have : k ≤ i := by omega
    simp [hi, this]

section

variable {k : ℕ} {value : ℤ}

theorem alignUp_eq_mul (h : 0 ≤ value) :
    alignUp (2 ^ k) value = 2 ^ k * ((value + 2 ^ k - 1) / 2 ^ k) := by
  obtain ⟨v, rfl⟩ := Int.eq_ofNat_of_zero_le h
  have hpos : 1 ≤ 2 ^ k := Nat.one_le_two_pow
  have hsum : (v : ℤ) + 2 ^ k - 1 = ((v + 2 ^ k - 1 : ℕ) : ℤ) := by
    rw [Nat.cast_sub (by omega)]
    push_cast
    rfl
  have hmask : (2 : ℤ) ^ k - 1 = ((2 ^ k - 1 : ℕ) : ℤ) := by
    rw [Nat.cast_sub hpos]
    push_cast
    rfl
  rw [alignUp, hsum, hmask]
  show ((Nat.ldiff (v + 2 ^ k - 1) (2 ^ k - 1) : ℕ) : ℤ) = _
  rw [ldiff_two_pow_sub_one]
  push_cast
  rfl

theorem alignUp_isLeast (h : 0 ≤ value) :
    IsLeast {a | value ≤ a ∧ (2 : ℤ) ^ k ∣ a} (alignUp (2 ^ k) value) := by
  have hpos : (0 : ℤ) < 2 ^ k := by positivity
  rw [alignUp_eq_mul h]
  refine ⟨⟨?_, Int.dvd_mul_right _ _⟩, ?_⟩
  · have hdiv := Int.mul_ediv_add_emod (value + 2 ^ k - 1) (2 ^ k)
    have hmod := Int.emod_lt_of_pos (value + 2 ^ k - 1) hpos
    omega
  · rintro a ⟨hle, c, rfl⟩
    have hquot : (value + 2 ^ k - 1) / 2 ^ k < c + 1 := by
      refine Int.ediv_lt_of_lt_mul hpos ?_
      rw [add_mul, mul_comm c]
      omega
    exact Int.mul_le_mul_of_nonneg_left (Int.lt_add_one_iff.mp hquot) hpos.le

end

end SystemFirmware.Lib
