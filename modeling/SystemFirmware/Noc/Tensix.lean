import Mathlib.Data.List.Perm.Basic
import Mathlib.Data.List.Nodup
import SystemFirmware.Noc.Definitions

/-!
# NOC translation — the Tensix columns

The three loops over the Tensix columns pop bits off a word and write the columns they
stand for into the table. A loop writes a list of columns to a list of entries
(`popColumns_eq`).
-/

namespace SystemFirmware.Noc

open Lib

-- ---
-- Writing a list of entries

def writeAll (writes : List (ℕ × ℕ)) (table : ℕ → ℕ) : ℕ → ℕ :=
  writes.foldl (fun table write => Function.update table write.1 write.2) table

section

variable {table : ℕ → ℕ} {entries values : List ℕ}

theorem writeAll_of_notMem {i : ℕ} (hi : i ∉ entries) :
    writeAll (entries.zip values) table i = table i := by
  induction entries generalizing values table with
  | nil => rfl
  | cons entry entries ih =>
    cases values with
    | nil => rfl
    | cons value values =>
      simp only [List.mem_cons, not_or] at hi
      show writeAll (entries.zip values) (Function.update table entry value) i = table i
      rw [ih hi.2, Function.update_of_ne hi.1]

theorem map_writeAll (hnodup : entries.Nodup) (hlen : entries.length ≤ values.length) :
    entries.map (writeAll (entries.zip values) table) = values.take entries.length := by
  induction entries generalizing values table with
  | nil => rfl
  | cons entry entries ih =>
    cases values with
    | nil => simp at hlen
    | cons value values =>
      obtain ⟨hnotMem, hnodup⟩ := List.nodup_cons.mp hnodup
      show writeAll (entries.zip values) (Function.update table entry value) entry ::
        entries.map (writeAll (entries.zip values) (Function.update table entry value)) = _
      rw [ih hnodup (by simpa using hlen), writeAll_of_notMem hnotMem, Function.update_self,
        List.length_cons, List.take_succ_cons]

theorem zip_eq_zip_take : entries.zip values = (entries.take values.length).zip values := by
  induction entries generalizing values with
  | nil => simp
  | cons entry entries ih =>
    cases values with
    | nil => rfl
    | cons value values =>
      rw [List.zip_cons_cons, List.length_cons, List.take_succ_cons, List.zip_cons_cons, ih]

theorem map_writeAll_reverse {right : List ℕ} (hnodup : entries.Nodup)
    (hlen : values.length + right.length = entries.length) :
    entries.map (writeAll (entries.reverse.zip right) (writeAll (entries.zip values) table)) =
      values ++ right.reverse := by
  obtain ⟨ls, rs, rfl, hls⟩ : ∃ ls rs, entries = ls ++ rs ∧ ls.length = values.length :=
    ⟨entries.take values.length, entries.drop values.length, (List.take_append_drop _ _).symm,
      List.length_take_of_le (by omega)⟩
  obtain ⟨hl, hr, hdisjoint⟩ := List.nodup_append'.mp hnodup
  have hrs : rs.reverse.length = right.length := by
    rw [List.length_append] at hlen
    rw [List.length_reverse]
    omega
  have hleft : (ls ++ rs).zip values = ls.zip values := by
    rw [zip_eq_zip_take, ← hls, List.take_left]
  have hright : (ls ++ rs).reverse.zip right = rs.reverse.zip right := by
    rw [zip_eq_zip_take, List.reverse_append, ← hrs, List.take_left]
  rw [hleft, hright, List.map_append]
  congr 1
  · have hkeep : ls.map (writeAll (rs.reverse.zip right) (writeAll (ls.zip values) table)) =
        ls.map (writeAll (ls.zip values) table) :=
      List.map_congr_left fun i hi => writeAll_of_notMem fun hmem =>
        hdisjoint hi (List.mem_reverse.mp hmem)
    rw [hkeep, map_writeAll hl (by omega), List.take_of_length_le (by omega)]
  · rw [← List.reverse_reverse (rs.map _), ← List.map_reverse,
      map_writeAll (List.nodup_reverse.mpr hr) (by omega), List.take_of_length_le (by omega)]

theorem popColumns_eq {w : ℕ} {column : ℕ → Option ℕ} {mask : BitVec w} (value : ℕ → ℕ)
    (hcolumn : ∀ i ∈ bits mask, column i = some (value i)) (entries : List ℕ) (table : ℕ → ℕ) :
    ∃ rest, popColumns column entries mask table =
        some (rest, writeAll (entries.zip ((bits mask).map value)) table) ∧
      bits rest = (bits mask).drop entries.length := by
  induction entries generalizing mask table with
  | nil => exact ⟨mask, rfl, rfl⟩
  | cons entry entries ih =>
    by_cases hzero : mask = 0#w
    · refine ⟨mask, ?_, by simp [hzero]⟩
      rw [popColumns, if_pos hzero, hzero, bits_zero]
      rfl
    · have hpop := bits_pop hzero
      have hnext : column (lowestSet mask) = some (value (lowestSet mask)) :=
        hcolumn _ (hpop ▸ List.mem_cons_self)
      have hcolumn' : ∀ i ∈ bits (mask &&& ~~~ lsbGet mask), column i = some (value i) :=
        fun i hi => hcolumn i (hpop ▸ List.mem_cons_of_mem _ hi)
      rw [popColumns, if_neg hzero, hnext, hpop, List.length_cons, List.drop_succ_cons]
      exact ih hcolumn' _

end

-- ---
-- Good and bad columns

def tensixCols : List ℕ := interval 1 7 ++ interval 10 16

def tensixX (i : ℕ) : ℕ := kTensixEthNoc0X.getD i 0

def badCols (badTensixCols : BitVec 16) : List ℕ := (bits badTensixCols).map tensixX

def goodCols (badTensixCols : BitVec 16) : List ℕ :=
  tensixCols.filter fun x => x ∉ badCols badTensixCols

section

variable {badTensixCols : BitVec 16}

theorem getLsbD_foldl_clearBit {bad : ℕ → Bool} {column : ℕ → ℕ} {j : ℕ} (is : List ℕ)
    (good : BitVec 32) :
    (is.foldl (fun good i => if bad i then clearBit good (column i) else good) good).getLsbD j =
      (good.getLsbD j && !is.any fun i => bad i && column i == j) := by
  induction is generalizing good with
  | nil => simp
  | cons i is ih =>
    rw [List.foldl_cons, ih, List.any_cons, Bool.not_or, ← Bool.and_assoc]
    congr 1
    by_cases hi : bad i = true
    · rw [if_pos hi, getLsbD_clearBit, hi, Bool.true_and]
      rfl
    · simp [hi]

theorem bits_goodTensixNoc0X (hcols : ∀ i ∈ bits badTensixCols, i < 14) :
    bits (goodTensixNoc0X badTensixCols) = goodCols badTensixCols := by
  have hstart : (List.range 32).filter (0x1fcfe#32).getLsbD = tensixCols := by decide
  rw [goodCols, ← hstart, List.filter_filter, bits, goodTensixNoc0X]
  refine List.filter_congr fun x _ => ?_
  rw [getLsbD_foldl_clearBit, Bool.and_comm]
  congr 2
  -- a bit of the word is one of the fourteen the loop looks at
  rw [decide_not]
  congr 1
  rw [Bool.eq_iff_iff, List.any_eq_true, decide_eq_true_eq, badCols, List.mem_map]
  refine exists_congr fun i => ?_
  rw [Bool.and_eq_true, beq_iff_eq, mem_bits, List.mem_range]
  exact and_iff_right_of_imp fun hi => hcols i (mem_bits.mpr hi.1)

theorem tensixX_injOn : ∀ i < 14, ∀ j < 14, tensixX i = tensixX j → i = j := by decide

theorem tensixX_mem : ∀ i < 14, tensixX i ∈ tensixCols := by decide

theorem tensixCols_nodup : tensixCols.Nodup := by decide

section

variable (hcols : ∀ i ∈ bits badTensixCols, i < 14)

include hcols

theorem goodCols_append_badCols_perm :
    (goodCols badTensixCols ++ badCols badTensixCols).Perm tensixCols := by
  have hnodup : (badCols badTensixCols).Nodup :=
    bits_nodup.map_on fun i hi j hj => tensixX_injOn i (hcols i hi) j (hcols j hj)
  have hmem : ∀ x ∈ badCols badTensixCols, x ∈ tensixCols := by
    intro x hx
    obtain ⟨i, hi, rfl⟩ := List.mem_map.mp hx
    exact tensixX_mem i (hcols i hi)
  have hbad : (badCols badTensixCols).Perm
      (tensixCols.filter fun x => !decide (x ∉ badCols badTensixCols)) := by
    refine (List.perm_ext_iff_of_nodup hnodup (tensixCols_nodup.filter _)).mpr fun x => ?_
    rw [List.mem_filter]
    simpa using hmem x
  exact (List.Perm.append_left _ hbad).trans (List.filter_append_perm _ _)

-- ---
-- The table

theorem tensixTable_eq (table : ℕ → ℕ) :
    tensixTable badTensixCols table =
      some (writeAll ((interval 10 16).reverse.zip (badCols badTensixCols))
        (writeAll ((interval 10 16).zip ((goodCols badTensixCols).drop 7))
          (writeAll ((interval 1 7).zip (goodCols badTensixCols)) table))) := by
  have hsome : ∀ {mask : BitVec 32}, ∀ i ∈ bits mask, some i = some (id i) := fun _ _ => rfl
  have hcolumn : ∀ i ∈ bits badTensixCols, kTensixEthNoc0X[i]? = some (tensixX i) := by
    intro i hi
    have hlt : i < kTensixEthNoc0X.length := hcols i hi
    rw [tensixX, List.getD_eq_getElem?_getD, List.getElem?_eq_getElem hlt, Option.getD_some]
  obtain ⟨good, hloop1, hgood⟩ := popColumns_eq id hsome (interval 1 7) table
  rw [bits_goodTensixNoc0X hcols, List.map_id] at hloop1
  rw [bits_goodTensixNoc0X hcols, show (interval 1 7).length = 7 from rfl] at hgood
  obtain ⟨_, hloop2, -⟩ := popColumns_eq id hsome (interval 10 16)
    (writeAll ((interval 1 7).zip (goodCols badTensixCols)) table)
  rw [hgood, List.map_id] at hloop2
  obtain ⟨_, hloop3, -⟩ := popColumns_eq tensixX hcolumn (interval 10 16).reverse
    (writeAll ((interval 10 16).zip ((goodCols badTensixCols).drop 7))
      (writeAll ((interval 1 7).zip (goodCols badTensixCols)) table))
  simp only [tensixTable, hloop1, hloop2, hloop3, Option.bind_eq_bind, Option.bind_some,
    Option.pure_def]
  rfl

/-- **The Tensix entries** get the good columns in increasing order, then the bad ones. -/
theorem map_tensixTable
    (hcount : (bits badTensixCols).length ≤ 7) (table : ℕ → ℕ) :
    ∃ table', tensixTable badTensixCols table = some table' ∧
      tensixCols.map table' = goodCols badTensixCols ++ (badCols badTensixCols).reverse ∧
      ∀ i ∉ tensixCols, table' i = table i := by
  have hlen : (goodCols badTensixCols).length + (badCols badTensixCols).length = 14 := by
    rw [← List.length_append]
    exact (goodCols_append_badCols_perm hcols).length_eq
  have hbad : (badCols badTensixCols).length ≤ 7 := by
    rw [badCols, List.length_map]
    exact hcount
  have hnodup : (interval 1 7).Nodup ∧ (interval 10 16).Nodup := by decide
  have hdisjoint : ∀ i ∈ interval 1 7, i ∉ interval 10 16 := by decide
  have hleft : (interval 1 7).length = 7 := rfl
  refine ⟨_, tensixTable_eq hcols table, ?_, ?_⟩
  · rw [tensixCols, List.map_append,
      map_writeAll_reverse hnodup.2 (by rw [List.length_drop, show (interval 10 16).length = 7 from rfl]; omega),
      ← List.append_assoc]
    congr 1
    have hkeep : ∀ i ∈ interval 1 7, writeAll ((interval 10 16).reverse.zip (badCols badTensixCols))
        (writeAll ((interval 10 16).zip ((goodCols badTensixCols).drop 7))
          (writeAll ((interval 1 7).zip (goodCols badTensixCols)) table)) i =
        writeAll ((interval 1 7).zip (goodCols badTensixCols)) table i := by
      intro i hi
      rw [writeAll_of_notMem (mt List.mem_reverse.mp (hdisjoint i hi)),
        writeAll_of_notMem (hdisjoint i hi)]
    rw [List.map_congr_left hkeep, map_writeAll hnodup.1 (by omega), hleft, List.take_append_drop]
  · intro i hi
    obtain ⟨hi1, hi2⟩ := not_or.mp (mt List.mem_append.mpr hi)
    rw [writeAll_of_notMem (mt List.mem_reverse.mp hi2), writeAll_of_notMem hi2,
      writeAll_of_notMem hi1]

theorem map_tensixCols_perm {table : ℕ → ℕ}
    (h : tensixCols.map table = goodCols badTensixCols ++ (badCols badTensixCols).reverse) :
    (tensixCols.map table).Perm tensixCols := by
  rw [h]
  exact ((List.reverse_perm _).append_left _).trans (goodCols_append_badCols_perm hcols)

end

end

end SystemFirmware.Noc
