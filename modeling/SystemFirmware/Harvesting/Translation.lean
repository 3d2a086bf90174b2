import Mathlib.Data.List.Perm.Subperm
import SystemFirmware.Harvesting.Definitions
import SystemFirmware.Noc.Logical

/-!
# Harvesting — the assumptions of NOC translation

`noc_init.c` assumes that no more than seven Tensix columns are bad, and that at least one
Ethernet tile of {4, 5, 6} and one of {7, 8, 9} is not enabled: it shifts by the position
of the last one that is not (`nocTranslation_of_assumptions`). `CalculateHarvesting`
disables those tiles only under `harvesting_en`, and nothing limits the number of columns
that are disabled.
-/

namespace SystemFirmware.Harvesting

open Lib
open Noc

-- ---
-- Tensix columns

section

variable {efuse : Efuse} {x y : BitVec 16}

def Columns (x : BitVec 16) : Prop := ∀ i, x.getLsbD i = true → i < 14

theorem Columns.and (h : Columns x) : Columns (x &&& y) := by
  intro i hi
  rw [BitVec.getLsbD_and, Bool.and_eq_true] at hi
  exact h i hi.1

theorem getLsbD_allColumns {i : ℕ} : (0x3fff#16).getLsbD i = decide (i < 14) := by
  rw [show 0x3fff#16 = BitVec.ofNat 16 (2 ^ 14 - 1) from rfl, getLsbD_lowMask]
  by_cases hi : i < 14
  · simp [hi, show i < 16 by omega]
  · simp [hi]

theorem columns_all : Columns 0x3fff#16 := fun _ hi => of_decide_eq_true (getLsbD_allColumns ▸ hi)

theorem columns_fused : Columns (fused efuse).tensixColEnabled := by
  unfold fused
  split
  · unfold harvestingSLTFuses
    dsimp only
    split
    · exact columns_all.and
    · exact columns_all.and.and
  · exact columns_all

theorem disableColumns_spec (is : List ℕ) (count : ℕ) :
    (∀ i, (disableColumns is count x).getLsbD i = true → x.getLsbD i = true) ∧
      popcount x ≤ popcount (disableColumns is count x) + count := by
  fun_induction disableColumns is count x with
  | case1 count enabled => exact ⟨fun _ h => h, Nat.le_add_right _ _⟩
  | case2 enabled => exact ⟨fun _ h => h, Nat.le_refl _⟩
  | case3 i is count enabled hset ih =>
    refine ⟨fun j hj => ?_, ?_⟩
    · have hclear := ih.1 j hj
      rw [getLsbD_clearBit, Bool.and_eq_true] at hclear
      exact hclear.1
    · have hlen : popcount (clearBit enabled i) + 1 = popcount enabled := length_bits_clearBit hset
      have := ih.2
      omega
  | case4 _ _ _ _ _ ih => exact ih

theorem softHarvestTensix_spec {disableCount : UInt32} (h : Columns x) (hfused : 7 ≤ popcount x)
    (hspec : disableCount ≤ 7) :
    Columns (softHarvestTensix disableCount x) ∧ 7 ≤ popcount (softHarvestTensix disableCount x) := by
  rw [UInt32.le_iff_toNat_le, show (7 : UInt32).toNat = 7 from rfl] at hspec
  unfold softHarvestTensix
  dsimp only
  split
  · rename_i hlt
    obtain ⟨hsub, hcount⟩ :=
      @disableColumns_spec x (List.range 14).reverse ((disableCount.toNat - (14 - popcount x)) % 256)
    exact ⟨fun i hi => h i (hsub i hi), by omega⟩
  · exact ⟨h, hfused⟩

theorem bits_columns (h : Columns x) : bits x = (List.range 14).filter x.getLsbD := by
  have hall : (List.range 16).filter (fun i => decide (i < 14)) = List.range 14 := by decide
  rw [← hall, List.filter_filter, bits]
  refine List.filter_congr fun i _ => ?_
  by_cases hi : x.getLsbD i = true
  · simp [hi, h i hi]
  · simp [hi]

theorem bits_bad (h : Columns x) :
    (∀ i ∈ bits (0x3fff#16 &&& ~~~ x), i < 14) ∧
      popcount (0x3fff#16 &&& ~~~ x) + popcount x = 14 := by
  have hbad : bits (0x3fff#16 &&& ~~~ x) = (List.range 14).filter fun i => !x.getLsbD i := by
    rw [bits_columns columns_all.and]
    refine List.filter_congr fun i hi => ?_
    have hlt := List.mem_range.mp hi
    rw [BitVec.getLsbD_and, BitVec.getLsbD_not, getLsbD_allColumns, decide_eq_true hlt,
      decide_eq_true (show i < 16 by omega), Bool.true_and, Bool.true_and]
  constructor
  · intro i hi
    rw [hbad, List.mem_filter, List.mem_range] at hi
    exact hi.1
  · have hsplit := (List.range 14).length_eq_length_filter_add x.getLsbD
    rw [List.length_range] at hsplit
    rw [popcount, popcount, hbad, bits_columns h]
    omega

end

-- ---
-- Ethernet tiles

section

variable {x : BitVec 16} {first : ℕ}

theorem extractLsb_eq_seven :
    x.extractLsb' first 3 = 7#3 ↔ ∀ i < 3, x.getLsbD (first + i) = true := by
  have hseven : ∀ i < 3, (7#3).getLsbD i = true := by decide
  constructor
  · intro h i hi
    have hbit := hseven i hi
    rw [← h, BitVec.getLsbD_extractLsb', decide_eq_true hi, Bool.true_and] at hbit
    exact hbit
  · intro h
    refine BitVec.eq_of_getLsbD_eq fun i hi => ?_
    rw [BitVec.getLsbD_extractLsb', decide_eq_true hi, Bool.true_and, h i hi, hseven i hi]

theorem exists_disabled :
    ∃ i < 3, (if x.extractLsb' first 3 = 7#3 then clearBit x (first + 1) else x).getLsbD (first + i) =
      false := by
  by_cases hall : x.extractLsb' first 3 = 7#3
  · refine ⟨1, by decide, ?_⟩
    rw [if_pos hall, getLsbD_clearBit]
    simp
  · rw [if_neg hall]
    rw [extractLsb_eq_seven] at hall
    push Not at hall
    simpa using hall

theorem limitEth_spec :
    (∃ i < 3, (limitEth x).getLsbD (4 + i) = false) ∧ ∃ i < 3, (limitEth x).getLsbD (7 + i) = false := by
  obtain ⟨y, hy⟩ : ∃ y, y = if x.extractLsb' 4 3 = 7#3 then clearBit x 5 else x := ⟨_, rfl⟩
  have hlimit : limitEth x = if y.extractLsb' 7 3 = 7#3 then clearBit y 8 else y := by
    rw [hy]
    rfl
  constructor
  · -- limiting the second group does not enable a tile of the first
    obtain ⟨i, hi, hoff⟩ := @exists_disabled x 4
    refine ⟨i, hi, ?_⟩
    rw [← hy] at hoff
    rw [hlimit]
    split
    · rw [getLsbD_clearBit, hoff, Bool.false_and]
    · exact hoff
  · rw [hlimit]
    exact exists_disabled

end

section

variable {efuse : Efuse} {fwTable : FwTable}

theorem calculateHarvesting_eth (hen : fwTable.harvestingEn = true) :
    (calculateHarvesting efuse fwTable).ethEnabled =
      if fwTable.ethDisabled then 0#16 else limitEth (fused efuse).ethEnabled := by
  simp only [calculateHarvesting, connectPcie, hen, if_true]
  rfl

theorem calculateHarvesting_tensix (hen : fwTable.harvestingEn = true) :
    (calculateHarvesting efuse fwTable).tensixColEnabled =
      softHarvestTensix fwTable.tensixColDisableCount (fused efuse).tensixColEnabled := by
  simp only [calculateHarvesting, connectPcie, hen, if_true]
  rfl

theorem ethEnabled_spec (hen : fwTable.harvestingEn = true) :
    (∃ i < 3, (calculateHarvesting efuse fwTable).ethEnabled.getLsbD (4 + i) = false) ∧
      ∃ i < 3, (calculateHarvesting efuse fwTable).ethEnabled.getLsbD (7 + i) = false := by
  rw [calculateHarvesting_eth hen]
  split
  · exact ⟨⟨0, by decide, by simp⟩, ⟨0, by decide, by simp⟩⟩
  · exact limitEth_spec

theorem tensixColEnabled_spec (hen : fwTable.harvestingEn = true)
    (hfused : 7 ≤ popcount (fused efuse).tensixColEnabled) (hspec : fwTable.tensixColDisableCount ≤ 7) :
    Columns (calculateHarvesting efuse fwTable).tensixColEnabled ∧
      7 ≤ popcount (calculateHarvesting efuse fwTable).tensixColEnabled := by
  rw [calculateHarvesting_tensix hen]
  exact softHarvestTensix_spec columns_fused hfused hspec

end

-- ---
-- The arguments of `InitNocTranslation`

section

variable {te : TileEnable}

theorem skipBit_isSome {mask : BitVec 32} {j : ℕ} (hmask : mask.getLsbD j = true)
    (hoff : te.ethEnabled.getLsbD j = false) :
    ∃ b, skipBit (~~~ te.ethEnabled.setWidth 32 &&& mask) = some b := by
  have hj : j < 32 := BitVec.lt_of_getLsbD hmask
  have hbit : (~~~ te.ethEnabled.setWidth 32 &&& mask).getLsbD j = true := by
    simp [hmask, hoff, hj]
  have hne : ~~~ te.ethEnabled.setWidth 32 &&& mask ≠ 0#32 := by
    intro hzero
    rw [hzero] at hbit
    simp at hbit
  rw [skipBit, findMsbSet, if_neg hne, if_neg (Nat.succ_ne_zero _)]
  exact ⟨_, rfl⟩

theorem skipBit_single {x : BitVec 32} {b : BitVec 16} (h : skipBit x = some b) :
    ∃ k, ∀ j, b.getLsbD j = true → j = k := by
  unfold skipBit at h
  split at h
  · simp at h
  · refine ⟨findMsbSet x - 1, fun j hj => ?_⟩
    rw [← Option.some.inj h, BitVec.getLsbD_setWidth, BitVec.getLsbD_shiftLeft,
      BitVec.getLsbD_one] at hj
    simp only [Bool.and_eq_true, decide_eq_true_eq, Bool.not_eq_true', decide_eq_false_iff_not] at hj
    omega

theorem skipEth_spec (hlow : ∃ i < 3, te.ethEnabled.getLsbD (4 + i) = false)
    (hhigh : ∃ i < 3, te.ethEnabled.getLsbD (7 + i) = false) :
    ∃ skip, skipEth te = some skip ∧ (List.range 14).countP skip.getLsbD ≤ 2 := by
  have hmaskLow : ∀ i < 3, (0x70#32).getLsbD (4 + i) = true := by decide
  have hmaskHigh : ∀ i < 3, (0x380#32).getLsbD (7 + i) = true := by decide
  obtain ⟨i, hi, hoff⟩ := hlow
  obtain ⟨j, hj, hoff'⟩ := hhigh
  obtain ⟨low, hlow⟩ := skipBit_isSome (hmaskLow i hi) hoff
  obtain ⟨high, hhigh⟩ := skipBit_isSome (hmaskHigh j hj) hoff'
  obtain ⟨k, hk⟩ := skipBit_single hlow
  obtain ⟨l, hl⟩ := skipBit_single hhigh
  refine ⟨low ||| high, ?_, ?_⟩
  · simp only [skipEth, hlow, hhigh, Option.bind_eq_bind, Option.bind_some, Option.pure_def]
  · -- the bits that are set are among the two
    have hsub : (List.range 14).filter (low ||| high).getLsbD ⊆ [k, l] := by
      intro n hn
      have hbit := (List.mem_filter.mp hn).2
      rw [BitVec.getLsbD_or, Bool.or_eq_true] at hbit
      rcases hbit with hbit | hbit
      · rw [hk n hbit]
        exact List.mem_cons_self
      · rw [hl n hbit]
        exact List.mem_cons_of_mem _ List.mem_cons_self
    rw [List.countP_eq_length_filter]
    exact (List.subperm_of_subset (List.nodup_range.filter _) hsub).length_le

theorem tensixX_mem_goodCols {i : ℕ} (hcolumns : Columns te.tensixColEnabled)
    (hi : te.tensixColEnabled.getLsbD i = true) : tensixX i ∈ goodCols (badTensixCols te) := by
  have hlt := hcolumns i hi
  refine List.mem_filter.mpr ⟨tensixX_mem i hlt, decide_eq_true fun hmem => ?_⟩
  obtain ⟨j, hj, heq⟩ := List.mem_map.mp hmem
  have hjlt := (bits_bad hcolumns).1 j hj
  have hbit := mem_bits.mp hj
  rw [tensixX_injOn j hjlt i hlt heq, badTensixCols, BitVec.getLsbD_and, BitVec.getLsbD_not, hi] at hbit
  simp at hbit

end

/-- **What NOC translation makes of its assumptions**: with at most seven columns disabled, and an
Ethernet tile of {4, 5, 6} and one of {7, 8, 9}, the shifts are defined, and every enabled column is
in the table. -/
theorem nocTranslation_of_assumptions {fwTable : FwTable} {te : TileEnable}
    (hcolumns : Columns te.tensixColEnabled) (hcount : popcount (badTensixCols te) ≤ 7)
    (hlow : ∃ i < 3, te.ethEnabled.getLsbD (4 + i) = false)
    (hhigh : ∃ i < 3, te.ethEnabled.getLsbD (7 + i) = false) (translation : Translations)
    (hnoc : fwTable.nocTranslationEn = true) :
    ∃ t, initNocTranslationFromHarvesting false fwTable te translation = some t ∧
      ∀ i, te.tensixColEnabled.getLsbD i = true →
        tensixX i ∈ tensixCols.map t.noc0.translateTableX := by
  obtain ⟨skip, hskip, hskipCount⟩ := skipEth_spec hlow hhigh
  obtain ⟨nt, hcompute, -, hmap⟩ : ∃ nt, computeNocTranslation
      (if te.pcieUsage 0 = pcieModeEp then 0 else 1) (badTensixCols te) (badGddr te) skip =
        some nt ∧ _ ∧ _ :=
    computeNocTranslation_consistent (bits_bad hcolumns).1 hcount hskipCount
  refine ⟨⟨nt, copyNoc0ToNoc1 nt⟩, ?_, fun i hi => ?_⟩
  · rw [initNocTranslationFromHarvesting, hnoc, hskip]
    show initNocTranslation _ _ _ skip = _
    rw [initNocTranslation, hcompute]
    rfl
  · rw [hmap]
    exact List.mem_append_left _ (tensixX_mem_goodCols hcolumns hi)

def productTable : FwTable where
  harvestingEn := true
  nocTranslationEn := true
  hasDramTable := false
  softHarvestDramMask := 0
  dramDisableCount := 0
  ethDisabled := false
  tensixColDisableCount := 2
  pciPropertyTable := fun _ => ⟨1, 2⟩

def unfused : Efuse := fun _ => 0

end SystemFirmware.Harvesting
