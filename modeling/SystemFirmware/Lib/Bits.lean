import Mathlib.Algebra.Ring.Nat
import Mathlib.Data.List.Sort
import Mathlib.Data.Nat.Log
import Mathlib.Data.Nat.Find

/-!
# Bit sets in a machine word

Setting, clearing and testing single bits of a word, and the lowest set bit computed as
`log2 (x & -x)`. A word is also the increasing list of its set bits, and clearing `x & -x`
takes the first one off (`bits_pop`).
-/

namespace SystemFirmware.Lib

variable {w : ℕ}

def setBit (x : BitVec w) (i : ℕ) : BitVec w := x ||| BitVec.twoPow w i

def clearBit (x : BitVec w) (i : ℕ) : BitVec w := x &&& ~~~ BitVec.twoPow w i

variable {x : BitVec w} {i j : ℕ}

theorem getLsbD_setBit (hi : i < w) :
    (setBit x i).getLsbD j = (decide (i = j) || x.getLsbD j) := by
  rw [setBit, BitVec.getLsbD_or, BitVec.getLsbD_twoPow, Bool.or_comm]
  simp [hi]

theorem getLsbD_setBit_self (hi : i < w) : (setBit x i).getLsbD i = true := by
  simp [getLsbD_setBit hi]

theorem getLsbD_clearBit : (clearBit x i).getLsbD j = (x.getLsbD j && !decide (i = j)) := by
  rw [clearBit, BitVec.getLsbD_and, BitVec.getLsbD_not, BitVec.getLsbD_twoPow]
  by_cases hij : i = j
  · subst hij
    by_cases hi : i < w
    · simp [hi]
    · simp [BitVec.getLsbD_of_ge x i (by omega)]
  · simp only [hij, decide_false, Bool.and_false, Bool.not_false, Bool.and_true]
    by_cases hj : j < w
    · simp [hj]
    · simp [BitVec.getLsbD_of_ge x j (by omega)]

theorem getLsbD_lowMask {n : ℕ} :
    (BitVec.ofNat w (2 ^ n - 1)).getLsbD i = (decide (i < w) && decide (i < n)) := by
  rw [BitVec.getLsbD_ofNat, Nat.testBit_two_pow_sub_one]

def lsbGet (x : BitVec w) : BitVec w := x &&& -x

/-- `log2 (x & -x)`. -/
def lowestSet (x : BitVec w) : ℕ := Nat.log2 (lsbGet x).toNat

theorem getLsbD_lsbGet :
    (lsbGet x).getLsbD i = (x.getLsbD i && !decide (∃ j < i, x.getLsbD j = true)) := by
  rw [lsbGet, BitVec.getLsbD_and, BitVec.getLsbD_neg]
  cases hx : x.getLsbD i with
  | false => simp
  | true =>
    have hi : i < w := BitVec.lt_of_getLsbD hx
    simp [hi]

theorem exists_getLsbD_of_ne_zero (hx : x ≠ 0#w) : ∃ i, x.getLsbD i = true := by
  by_contra hnone
  apply hx
  apply BitVec.eq_of_getLsbD_eq
  intro i _
  rw [BitVec.getLsbD_zero, Bool.eq_false_iff]
  exact fun hi => hnone ⟨i, hi⟩

theorem lsbGet_eq_twoPow (hx : x ≠ 0#w) :
    lsbGet x = BitVec.twoPow w (lowestSet x) ∧ x.getLsbD (lowestSet x) = true ∧
      ∀ j < lowestSet x, x.getLsbD j = false := by
  classical
  have hex := exists_getLsbD_of_ne_zero hx
  obtain ⟨k, hset, hmin⟩ : ∃ k, x.getLsbD k = true ∧ ∀ j < k, x.getLsbD j = false :=
    ⟨Nat.find hex, Nat.find_spec hex, fun j hj => by simpa using Nat.find_min hex hj⟩
  have hkw : k < w := BitVec.lt_of_getLsbD hset
  have hpow : lsbGet x = BitVec.twoPow w k := by
    apply BitVec.eq_of_getLsbD_eq
    intro i hi
    rw [getLsbD_lsbGet, BitVec.getLsbD_twoPow]
    rcases Nat.lt_trichotomy i k with hlt | heq | hgt
    · simp [hmin i hlt, Nat.ne_of_gt hlt]
    · have hnone : ¬ ∃ j < k, x.getLsbD j = true := by
        rintro ⟨j, hj, hjs⟩
        simp [hmin j hj] at hjs
      rw [heq, hset]
      simp [hkw, hnone]
    · have hsome : ∃ j < i, x.getLsbD j = true := ⟨k, hgt, hset⟩
      simp [hsome, Nat.ne_of_lt hgt]
  have hlow : lowestSet x = k := by
    rw [lowestSet, hpow, BitVec.toNat_twoPow, Nat.mod_eq_of_lt (Nat.pow_lt_pow_right (by omega) hkw),
      Nat.log2_two_pow]
  rw [hlow]
  exact ⟨hpow, hset, hmin⟩

theorem lowestSet_spec (hx : x ≠ 0#w) :
    x.getLsbD (lowestSet x) = true ∧ ∀ j < lowestSet x, x.getLsbD j = false :=
  (lsbGet_eq_twoPow hx).2

theorem ne_zero_of_getLsbD (hj : x.getLsbD j = true) : x ≠ 0#w := by
  rintro rfl
  simp at hj

theorem lowestSet_le (hj : x.getLsbD j = true) : lowestSet x ≤ j := by
  by_contra hbelow
  have hclear := (lowestSet_spec (ne_zero_of_getLsbD hj)).2 j (by omega)
  rw [hj] at hclear
  cases hclear

-- ---
-- The bits of a word, lowest first

def bits (x : BitVec w) : List ℕ := (List.range w).filter x.getLsbD

@[simp] theorem mem_bits : i ∈ bits x ↔ x.getLsbD i = true := by
  rw [bits, List.mem_filter, List.mem_range, and_iff_right_iff_imp]
  exact BitVec.lt_of_getLsbD

theorem bits_pairwise : (bits x).Pairwise (· < ·) :=
  List.pairwise_lt_range.filter _

theorem bits_nodup : (bits x).Nodup := List.nodup_range.filter _

@[simp] theorem bits_zero : bits 0#w = [] := by simp [bits]

theorem bits_pop (hx : x ≠ 0#w) : bits x = lowestSet x :: bits (x &&& ~~~ lsbGet x) := by
  obtain ⟨hlsb, hset, hmin⟩ := lsbGet_eq_twoPow hx
  have hrest : bits (x &&& ~~~ lsbGet x) = (bits x).filter fun j => !decide (lowestSet x = j) := by
    rw [hlsb, bits, bits, List.filter_filter]
    refine List.filter_congr fun j _ => ?_
    rw [Bool.and_comm]
    exact getLsbD_clearBit
  rcases hbits : bits x with _ | ⟨first, rest⟩
  · have hmem := mem_bits.mpr hset
    rw [hbits] at hmem
    simp at hmem
  · have hsorted := List.pairwise_cons.mp (hbits ▸ bits_pairwise (x := x))
    have hfirst : x.getLsbD first = true := mem_bits.mp (hbits ▸ List.mem_cons_self)
    -- the first of an increasing list is the least bit that is set
    have heq : first = lowestSet x := by
      rcases List.mem_cons.mp (hbits ▸ mem_bits.mpr hset) with heq | hmem
      · exact heq.symm
      · have hlt := hsorted.1 _ hmem
        rw [hmin first hlt] at hfirst
        simp at hfirst
    subst heq
    rw [hrest, hbits, List.filter_cons_of_neg (by simp), List.filter_eq_self.mpr]
    intro j hj
    simpa using Nat.ne_of_lt (hsorted.1 j hj)

theorem bits_clearBit : bits (clearBit x i) = (bits x).erase i := by
  rw [bits_nodup.erase_eq_filter, bits, bits, List.filter_filter]
  refine List.filter_congr fun j _ => ?_
  rw [getLsbD_clearBit, Bool.and_comm]
  congr 1
  by_cases hij : i = j
  · subst hij
    simp
  · simp [hij, Ne.symm hij]

theorem length_bits_clearBit (hi : x.getLsbD i = true) :
    (bits (clearBit x i)).length + 1 = (bits x).length := by
  have hmem : i ∈ bits x := mem_bits.mpr hi
  have hpos := List.length_pos_of_mem hmem
  rw [bits_clearBit, List.length_erase_of_mem hmem]
  omega

theorem bits_twoPow (hi : i < w) : bits (BitVec.twoPow w i) = [i] := by
  refine bits_pairwise.eq_of_mem_iff (List.pairwise_singleton _ _) fun j => ?_
  rw [mem_bits, BitVec.getLsbD_twoPow, List.mem_singleton, decide_eq_true hi, Bool.true_and,
    decide_eq_true_eq]
  exact eq_comm

theorem bits_top {k : ℕ} (hk : x.getLsbD k = true) (htop : ∀ i, x.getLsbD i = true → i ≤ k) :
    bits x = bits (clearBit x k) ++ [k] := by
  have hmem : ∀ i, i ∈ bits x ↔ i ∈ bits (clearBit x k) ++ [k] := by
    intro i
    rw [List.mem_append, List.mem_singleton, mem_bits, mem_bits, getLsbD_clearBit]
    by_cases hik : i = k
    · simp [hik, hk]
    · simp [hik, Ne.symm hik]
  have hsorted : (bits (clearBit x k) ++ [k]).Pairwise (· < ·) := by
    refine List.pairwise_append.mpr ⟨bits_pairwise, List.pairwise_singleton _ _, ?_⟩
    intro i hi j hj
    rw [mem_bits, getLsbD_clearBit, Bool.and_eq_true, Bool.not_eq_true', decide_eq_false_iff_not] at hi
    rw [List.mem_singleton.mp hj]
    exact Nat.lt_of_le_of_ne (htop i hi.1) (Ne.symm hi.2)
  exact bits_pairwise.eq_of_mem_iff hsorted hmem

theorem countP_range_not (n : ℕ) (p : ℕ → Bool) :
    (List.range n).countP p + (List.range n).countP (fun i => !p i) = n := by
  have hsplit := (List.range n).length_eq_countP_add_countP p
  rw [List.length_range] at hsplit
  simpa using hsplit.symm

theorem foldl_any {σ α : Type*} {step : σ → α → σ} (view : σ → Bool) {sets : α → Bool}
    (hstep : ∀ s a, view (step s a) = (view s || sets a)) (s : σ) (as : List α) :
    view (as.foldl step s) = (view s || as.any sets) := by
  induction as generalizing s with
  | nil => simp
  | cons a as ih => rw [List.foldl_cons, ih, hstep, List.any_cons, Bool.or_assoc]

-- ---
-- Fields of a word

variable {y m : UInt32}

theorem insertField_and_self {x : UInt32} : ((x &&& ~~~m) ||| (y &&& m)) &&& m = y &&& m := by
  apply UInt32.toBitVec_inj.mp
  apply BitVec.eq_of_getLsbD_eq
  intro i hi
  cases hm : m.toBitVec.getLsbD i <;> simp [hm]

theorem getLsbD_and_of_disjoint {n : UInt32} (h : m &&& n = 0) (i : ℕ) :
    (m.toBitVec.getLsbD i && n.toBitVec.getLsbD i) = false := by
  rw [← BitVec.getLsbD_and, ← UInt32.toBitVec_and, h]
  simp

theorem insertField_and_disjoint {x n : UInt32} (h : m &&& n = 0) :
    ((x &&& ~~~m) ||| (y &&& m)) &&& n = x &&& n := by
  apply UInt32.toBitVec_inj.mp
  apply BitVec.eq_of_getLsbD_eq
  intro i hi
  have hbit := getLsbD_and_of_disjoint h i
  simp only [UInt32.toBitVec_and, UInt32.toBitVec_or, UInt32.toBitVec_not, BitVec.getLsbD_and,
    BitVec.getLsbD_or, BitVec.getLsbD_not, hi, decide_true, Bool.true_and]
  revert hbit
  cases m.toBitVec.getLsbD i <;> cases n.toBitVec.getLsbD i <;> simp

theorem or_and_of_disjoint {x : UInt32} (h : y &&& m = 0) : (x ||| y) &&& m = x &&& m := by
  apply UInt32.toBitVec_inj.mp
  apply BitVec.eq_of_getLsbD_eq
  intro i hi
  have hbit := getLsbD_and_of_disjoint h i
  simp only [UInt32.toBitVec_and, UInt32.toBitVec_or, BitVec.getLsbD_and, BitVec.getLsbD_or]
  revert hbit
  cases y.toBitVec.getLsbD i <;> cases m.toBitVec.getLsbD i <;> simp

-- ---
-- Reversal

/-- The function reverses the order of the bits. -/
def Reverses (f : BitVec w → BitVec w) : Prop :=
  ∀ x, ∀ i < w, (f x).getLsbD i = x.getLsbD (w - 1 - i)

theorem Reverses.halves {v : ℕ} {f : BitVec w → BitVec w} (hf : Reverses f) (hv : v = w + w) :
    Reverses fun x : BitVec v =>
      ((f (x.setWidth w)).setWidth v <<< w) ||| (f ((x >>> w).setWidth w)).setWidth v := by
  intro x i hi
  rw [BitVec.getLsbD_or, BitVec.getLsbD_shiftLeft, BitVec.getLsbD_setWidth, BitVec.getLsbD_setWidth]
  by_cases hlow : i < w
  · -- the low half of the result is the high half of the word
    rw [hf _ i hlow, BitVec.getLsbD_setWidth, BitVec.getLsbD_ushiftRight]
    have hpos : w + (w - 1 - i) = v - 1 - i := by omega
    have hbound : w - 1 - i < w := by omega
    simp [hi, hlow, hpos, hbound]
  · have hzero : (f ((x >>> w).setWidth w)).getLsbD i = false :=
      BitVec.getLsbD_of_ge _ _ (Nat.not_lt.mp hlow)
    rw [hzero, hf _ (i - w) (by omega), BitVec.getLsbD_setWidth]
    have hpos : w - 1 - (i - w) = v - 1 - i := by omega
    have hbound : v - 1 - i < w := by omega
    have hsub : i - w < v := by omega
    simp [hi, hlow, hpos, hbound, hsub]

end SystemFirmware.Lib
