import Mathlib.Algebra.Ring.Nat
import Mathlib.Data.List.Basic
import Mathlib.Logic.Function.Basic

/-!
# Words written to places

`scatter place i vs mem` writes the values to `place i`, `place (i + 1)` and so on. A place
then holds the last value written there: its own if the places differ (`scatter_place`),
and what was there before if it is none of them. `wordAddr` are the places of the words
from an address on.
-/

namespace SystemFirmware.Lib

section

variable {ι α : Type*} [DecidableEq ι]

def scatter (place : ℕ → ι) : ℕ → List α → (ι → α) → ι → α
  | _, [], mem => mem
  | i, v :: vs, mem => scatter place (i + 1) vs (Function.update mem (place i) v)

variable {place : ℕ → ι} {i : ℕ} {vs : List α} {mem mem' : ι → α} {a : ι}

theorem scatter_of_ne (h : ∀ j < vs.length, place (i + j) ≠ a) :
    scatter place i vs mem a = mem a := by
  induction vs generalizing i mem with
  | nil => rfl
  | cons v vs ih =>
    have hrest : ∀ j < vs.length, place (i + 1 + j) ≠ a := by
      intro j hj
      rw [Nat.add_assoc, Nat.add_comm 1 j]
      exact h (j + 1) (Nat.succ_lt_succ hj)
    have hfirst : place i ≠ a := h 0 (Nat.succ_pos _)
    rw [scatter, ih hrest, Function.update_of_ne hfirst.symm]

theorem scatter_place
    (hinj : ∀ j < vs.length, ∀ k < vs.length, place (i + j) = place (i + k) → j = k) {j : ℕ}
    (hj : j < vs.length) : scatter place i vs mem (place (i + j)) = vs[j] := by
  induction vs generalizing i j mem with
  | nil => exact absurd hj (Nat.not_lt_zero j)
  | cons v vs ih =>
    cases j with
    | zero =>
      -- the later places are others
      have hlater : ∀ k < vs.length, place (i + 1 + k) ≠ place (i + 0) := by
        intro k hk heq
        rw [Nat.add_assoc, Nat.add_comm 1 k] at heq
        have := hinj (k + 1) (Nat.succ_lt_succ hk) 0 hj heq
        omega
      rw [scatter, scatter_of_ne hlater, Nat.add_zero, Function.update_self]
      rfl
    | succ j =>
      have hrest : ∀ j < vs.length, ∀ k < vs.length,
          place (i + 1 + j) = place (i + 1 + k) → j = k := by
        intro j hj k hk heq
        rw [Nat.add_assoc, Nat.add_comm 1 j, Nat.add_assoc, Nat.add_comm 1 k] at heq
        exact Nat.succ_inj.mp (hinj _ (Nat.succ_lt_succ hj) _ (Nat.succ_lt_succ hk) heq)
      have hplace : i + (j + 1) = i + 1 + j := by omega
      rw [scatter, hplace, ih hrest (Nat.lt_of_succ_lt_succ hj), List.getElem_cons_succ]

theorem scatter_congr (h : mem a = mem' a) :
    scatter place i vs mem a = scatter place i vs mem' a := by
  induction vs generalizing i mem mem' with
  | nil => exact h
  | cons v vs ih =>
    apply ih
    rw [Function.update_apply, Function.update_apply, h]

end

-- ---
-- Words of a memory

/-- The address of a word, in 32 bits. -/
def wordAddr (start : UInt32) (i : ℕ) : UInt32 := start + UInt32.ofNat (4 * i)

theorem toNat_wordAddr {start : UInt32} {i : ℕ} (h : start.toNat + 4 * i < 2 ^ 32) :
    (wordAddr start i).toNat = start.toNat + 4 * i := by
  rw [wordAddr, UInt32.toNat_add, UInt32.toNat_ofNat', Nat.add_mod_mod, Nat.mod_eq_of_lt h]

theorem wordAddr_inj {start : UInt32} {i j : ℕ} (hi : start.toNat + 4 * i < 2 ^ 32)
    (hj : start.toNat + 4 * j < 2 ^ 32) (h : wordAddr start i = wordAddr start j) : i = j := by
  have hnat := congrArg UInt32.toNat h
  rw [toNat_wordAddr hi, toNat_wordAddr hj] at hnat
  omega

end SystemFirmware.Lib
