import Mathlib.Algebra.Order.Floor.Ring
import Mathlib.Algebra.Order.Round
import Mathlib.Data.Rat.Floor
import Mathlib.Tactic.FieldSimp
import Mathlib.Tactic.Linarith
import Mathlib.Tactic.NormNum
import Mathlib.Tactic.Ring

/-!
# Rounding to the nearest integer, halves away from zero

`roundHalfAway` is the rounding itself, on the rationals. `divRound z d` is how integer
code computes it: add or subtract half of the divisor `2 * d`, then truncate
(`roundHalfAway_div`).
-/

namespace SystemFirmware.Lib

/-- The nearest integer; of two nearest ones, the one away from zero. -/
def roundHalfAway (q : ℚ) : ℤ := if 0 ≤ q then ⌊q + 1 / 2⌋ else ⌈q - 1 / 2⌉

/-- Rounded quotient of `z` and `2 * d`, by truncating division. -/
def divRound (z d : ℤ) : ℤ := if 0 ≤ z then (z + d).tdiv (2 * d) else (z - d).tdiv (2 * d)

theorem roundHalfAway_neg (q : ℚ) : roundHalfAway (-q) = -roundHalfAway q := by
  unfold roundHalfAway
  rcases lt_trichotomy q 0 with hneg | rfl | hpos
  · rw [if_pos (by linarith), if_neg (by linarith), ← Int.floor_neg]
    congr 1
    ring
  · norm_num
  · rw [if_neg (by linarith), if_pos (by linarith), ← Int.ceil_neg]
    congr 1
    ring

theorem roundHalfAway_natCast_div {n d : ℕ} (hd : 0 < d) :
    roundHalfAway ((n : ℚ) / (2 * d : ℕ)) = ((n + d) / (2 * d) : ℕ) := by
  have hdq : (d : ℚ) ≠ 0 := Nat.cast_ne_zero.mpr hd.ne'
  have hhalf : (n : ℚ) / (2 * d : ℕ) + 1 / 2 = ((n + d : ℕ) : ℤ) / ((2 * d : ℕ) : ℚ) := by
    push_cast
    field_simp
  rw [roundHalfAway, if_pos (by positivity), hhalf, Rat.floor_intCast_div_natCast]
  rfl

theorem roundHalfAway_natCast_div_mul {n b d : ℕ} (hb : 0 < b) (hd : 0 < d) :
    roundHalfAway ((n : ℚ) / (b * (2 * d) : ℕ)) = ((n / b + d) / (2 * d) : ℕ) := by
  rw [show b * (2 * d) = 2 * (d * b) by ring, roundHalfAway_natCast_div (Nat.mul_pos hd hb),
    show 2 * (d * b) = b * (2 * d) by ring, ← Nat.div_div_eq_div_mul, Nat.add_mul_div_right _ _ hb]

theorem divRound_natCast (m d : ℕ) : divRound m d = ((m + d) / (2 * d) : ℕ) := by
  rw [divRound, if_pos (Int.natCast_nonneg m), Int.ofNat_tdiv]
  push_cast
  rfl

theorem divRound_neg_natCast {m d : ℕ} (hd : 0 < d) : divRound (-m) d = -((m + d) / (2 * d) : ℕ) := by
  rcases Nat.eq_zero_or_pos m with rfl | hm
  · -- the code takes the other branch here, and both come to zero
    have hzero : (0 + d) / (2 * d) = 0 := Nat.div_eq_of_lt (by omega)
    rw [show (-((0 : ℕ) : ℤ)) = ((0 : ℕ) : ℤ) by rfl, divRound_natCast, hzero]
    rfl
  · rw [divRound, if_neg (by omega), show (-(m : ℤ)) - d = -((m + d : ℕ) : ℤ) by push_cast; ring,
      Int.neg_tdiv, Int.ofNat_tdiv]
    push_cast
    rfl

/-- **Integer rounding is correct.** For either sign of `z`, and after a truncating
division by `b`. -/
theorem roundHalfAway_div {z : ℤ} {b d : ℕ} (hb : 0 < b) (hd : 0 < d) :
    roundHalfAway ((z : ℚ) / (b * (2 * d) : ℕ)) = divRound (z.tdiv b) d := by
  rcases Int.eq_nat_or_neg z with ⟨n, rfl | rfl⟩
  · rw [← Int.ofNat_tdiv, divRound_natCast, Int.cast_natCast, roundHalfAway_natCast_div_mul hb hd]
  · rw [Int.neg_tdiv, ← Int.ofNat_tdiv, divRound_neg_natCast hd, Int.cast_neg, Int.cast_natCast,
      neg_div, roundHalfAway_neg, roundHalfAway_natCast_div_mul hb hd]

end SystemFirmware.Lib
