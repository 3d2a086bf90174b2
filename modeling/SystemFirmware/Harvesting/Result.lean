import SystemFirmware.Harvesting.Translation

/-!
# Harvesting — the result

What `CalculateHarvesting` leaves enabled, against what the fuses say of each tile
(`columnBad`, `ethBad`, `gddrBad`). The tests on the wafer and on the system both mark
tiles; the second ones count if they were made, and two versions of their map are read with
a workaround:

* version 1 has the columns by X coordinate, in a word without a bit for 16;
* up to version 2, failures of GDDR3 are not failures.

Then columns are disabled from the right until the product specification is met
(`harvesting_result`). `harvesting_meets_noc_assumptions` says when the result is what `noc_init.c`
takes for granted.
-/

namespace SystemFirmware.Harvesting

open Lib
open Noc

-- ---
-- What the fuses say

section

variable (efuse : Efuse) (i : ℕ)

def ateColumnBad : Bool := (List.range 10).any fun n => (ateTensixRowTestStatus efuse n).getLsbD i

def sltValid : Bool := (sltAteSltStatus efuse).getLsbD 1 && sltFuseMapVersion efuse != 0#32

def sltBin : BitVec 8 :=
  if (sltSltBinning efuse).extractLsb' 8 8 ≠ 0#8 then (sltSltBinning efuse).extractLsb' 8 8
  else (sltSltBinning efuse).extractLsb' 0 8

/-- The number of columns that a part of this bin has harvested. -/
def sltBinColumns : ℕ :=
  if sltBin efuse = 2#8 then 1
  else if sltBin efuse = 3#8 ∨ sltBin efuse = 4#8 ∨ sltBin efuse = 5#8 then 2
  else 0

/-- Version 1 of the map: column 16 is the one that is missing to what the bin says. -/
def sltColumnBadV1 : Bool :=
  if tensixX i = 16 then decide (popcount (sltHarvestedTensixColumns efuse) < sltBinColumns efuse)
  else (sltHarvestedTensixColumns efuse).getLsbD (tensixX i)

def sltColumnBad : Bool :=
  if sltFuseMapVersion efuse = 1#32 then sltColumnBadV1 efuse i
  else (sltHarvestedTensixColumns efuse).getLsbD i

def columnBad : Bool :=
  fusesValid efuse && (ateColumnBad efuse i || sltValid efuse && sltColumnBad efuse i)

def ethBad : Bool :=
  fusesValid efuse && ((ateEthCtrlTestStatus efuse).getLsbD i ||
    sltValid efuse && (sltEthCtrlTestStatus efuse).getLsbD i)

/-- GDDR `i` failed at a speed, in a map that can be trusted with it. -/
def sltGddrBad : Bool :=
  ((sltDdrTestStatus12G efuse).getLsbD i || (sltDdrTestStatus14G efuse).getLsbD i ||
    (sltDdrTestStatus16G efuse).getLsbD i) && !(i == 3 && sltFuseMapVersion efuse ≤ 2#32)

def gddrBad : Bool :=
  fusesValid efuse && ((ateDdrTestStatus efuse).getLsbD i || sltValid efuse && sltGddrBad efuse i)

end

-- ---
-- Reading the fuses

section

variable {efuse : Efuse} {i : ℕ}

theorem readFunctionalEfuse_beyond {startBit endBit : ℕ} (hi : endBit - startBit < i) :
    (readFunctionalEfuse efuse startBit endBit).getLsbD i = false := by
  simp only [readFunctionalEfuse, BitVec.getLsbD_setWidth, BitVec.getLsbD_extractLsb']
  rw [decide_eq_false (show ¬ i < endBit - startBit + 1 by omega)]
  simp

theorem getLsbD_disable {w : ℕ} {enabled : BitVec w} {bad : BitVec 32} :
    (enabled &&& ~~~ bad.setWidth w).getLsbD i = (enabled.getLsbD i && !bad.getLsbD i) := by
  by_cases hi : i < w
  · simp [hi]
  · rw [BitVec.getLsbD_of_ge _ _ (by omega), BitVec.getLsbD_of_ge enabled _ (by omega),
      Bool.false_and]

theorem harvestingATEFuses_tensix {te : TileEnable} :
    (harvestingATEFuses efuse te).tensixColEnabled.getLsbD i =
      (te.tensixColEnabled.getLsbD i && !ateColumnBad efuse i) := by
  have hrows := foldl_any (fun disabled : BitVec 32 => disabled.getLsbD i)
    (fun disabled n => @BitVec.getLsbD_or _ i disabled (ateTensixRowTestStatus efuse n)) 0#32
    (List.range 10)
  rw [BitVec.getLsbD_zero, Bool.false_or] at hrows
  refine getLsbD_disable.trans ?_
  rw [hrows]
  rfl

-- ---
-- Version 1 of the map

theorem nocToTensixPhysX_eq_some :
    ∀ x < nocXSize, ∀ i < 14, nocToTensixPhysX x = some i ↔ x = tensixX i := by
  decide

theorem nocToTensixPhysX_lt {x : ℕ} (h : nocToTensixPhysX x = some i) : i < 14 := by
  obtain ⟨hlt, -⟩ := List.findIdx?_eq_some_iff_getElem.mp h
  exact hlt

theorem tensixX_lt : ∀ i < 14, tensixX i < nocXSize := by decide

/-- The harvested columns by X coordinate, 16 with them. -/
def sltColumnsV1 (efuse : Efuse) : BitVec 32 :=
  if (sltBin efuse = 3#8 ∨ sltBin efuse = 4#8 ∨ sltBin efuse = 5#8) ∧
      popcount (sltHarvestedTensixColumns efuse) < 2 then setBit (sltHarvestedTensixColumns efuse) 16
  else if sltBin efuse = 2#8 ∧ popcount (sltHarvestedTensixColumns efuse) < 1 then
    setBit (sltHarvestedTensixColumns efuse) 16
  else sltHarvestedTensixColumns efuse

theorem sltColumnsV1_eq : sltColumnsV1 efuse =
    if popcount (sltHarvestedTensixColumns efuse) < sltBinColumns efuse then
      setBit (sltHarvestedTensixColumns efuse) 16
    else sltHarvestedTensixColumns efuse := by
  unfold sltColumnsV1 sltBinColumns
  by_cases htwo : sltBin efuse = 2#8
  · simp [htwo]
  · by_cases hmore : sltBin efuse = 3#8 ∨ sltBin efuse = 4#8 ∨ sltBin efuse = 5#8
    · simp [htwo, hmore]
    · simp [htwo, hmore]

theorem getLsbD_sltColumnsV1 : (sltColumnsV1 efuse).getLsbD (tensixX i) = sltColumnBadV1 efuse i := by
  have hbeyond : (sltHarvestedTensixColumns efuse).getLsbD 16 = false :=
    readFunctionalEfuse_beyond (by decide)
  rw [sltColumnsV1_eq, sltColumnBadV1]
  by_cases hcol : tensixX i = 16
  · rw [if_pos hcol, hcol]
    split
    · rename_i hmissing
      rw [getLsbD_setBit_self (by decide), decide_eq_true hmissing]
    · rename_i hmissing
      rw [hbeyond, decide_eq_false hmissing]
  · rw [if_neg hcol]
    split
    · rw [getLsbD_setBit (by decide), decide_eq_false (Ne.symm hcol), Bool.false_or]
    · rfl

theorem getLsbD_columnsToPhys (columns : BitVec 32) :
    ((List.range nocXSize).foldl (fun phys x =>
      if columns.getLsbD x then (nocToTensixPhysX x).elim phys (setBit phys) else phys) 0#32).getLsbD i =
    (List.range nocXSize).any fun x => columns.getLsbD x && nocToTensixPhysX x == some i := by
  have hstep : ∀ (phys : BitVec 32) (x : ℕ),
      (if columns.getLsbD x then (nocToTensixPhysX x).elim phys (setBit phys) else phys).getLsbD i =
        (phys.getLsbD i || (columns.getLsbD x && nocToTensixPhysX x == some i)) := by
    intro phys x
    by_cases hset : columns.getLsbD x = true
    · rw [if_pos hset, hset, Bool.true_and]
      rcases hphys : nocToTensixPhysX x with _ | j
      · simp
      · have hj : j < 32 := Nat.lt_trans (nocToTensixPhysX_lt hphys) (by decide)
        rw [Option.elim_some, getLsbD_setBit hj, Bool.or_comm]
        rfl
    · simp [hset]
  refine (foldl_any (fun phys : BitVec 32 => phys.getLsbD i) hstep 0#32 _).trans ?_
  rw [BitVec.getLsbD_zero, Bool.false_or]

theorem getLsbD_getTensixDisableSLTMapV1 (hi : i < 14) :
    (getTensixDisableSLTMapV1 efuse).getLsbD i = sltColumnBadV1 efuse i := by
  have hloop : (getTensixDisableSLTMapV1 efuse).getLsbD i = (List.range nocXSize).any fun x =>
      (sltColumnsV1 efuse).getLsbD x && nocToTensixPhysX x == some i :=
    getLsbD_columnsToPhys (sltColumnsV1 efuse)
  rw [hloop, ← getLsbD_sltColumnsV1, Bool.eq_iff_iff, List.any_eq_true]
  constructor
  · rintro ⟨x, hx, hset⟩
    rw [Bool.and_eq_true, beq_iff_eq] at hset
    rw [← (nocToTensixPhysX_eq_some x (List.mem_range.mp hx) i hi).mp hset.2]
    exact hset.1
  · intro hset
    have hx := tensixX_lt i hi
    refine ⟨tensixX i, List.mem_range.mpr hx, ?_⟩
    rw [Bool.and_eq_true, beq_iff_eq]
    exact ⟨hset, (nocToTensixPhysX_eq_some _ hx i hi).mpr rfl⟩

-- ---
-- What the fuses leave enabled

theorem sltValid_eq_false_iff : sltValid efuse = false ↔
    (sltAteSltStatus efuse).getLsbD 1 = false ∨ sltFuseMapVersion efuse = 0#32 := by
  rw [sltValid, Bool.and_eq_false_iff, bne_eq_false_iff_eq]

theorem sltValid_ne (h : sltValid efuse = true) :
    ¬ ((sltAteSltStatus efuse).getLsbD 1 = false ∨ sltFuseMapVersion efuse = 0#32) :=
  fun hinvalid => by rw [sltValid_eq_false_iff.mpr hinvalid] at h; cases h

theorem fused_view (view : TileEnable → Bool) {ate slt : Bool}
    (hate : ∀ te, view (harvestingATEFuses efuse te) = (view te && !ate))
    (hslt : sltValid efuse = true → ∀ te, view (harvestingSLTFuses efuse te) = (view te && !slt)) :
    view (fused efuse) =
      (view allEnabled && !(fusesValid efuse && (ate || sltValid efuse && slt))) := by
  unfold fused
  split
  · rename_i hfuses
    rw [hfuses, Bool.true_and]
    cases hvalid : sltValid efuse with
    | false =>
      rw [harvestingSLTFuses, if_pos (sltValid_eq_false_iff.mp hvalid), hate, Bool.false_and,
        Bool.or_false]
    | true => rw [hslt hvalid, hate, Bool.true_and, Bool.not_or, Bool.and_assoc]
  · rename_i hfuses
    rw [Bool.eq_false_of_not_eq_true hfuses, Bool.false_and, Bool.not_false, Bool.and_true]

theorem fused_tensix :
    (fused efuse).tensixColEnabled.getLsbD i = (decide (i < 14) && !columnBad efuse i) := by
  by_cases hi : i < 14
  · have hslt : sltValid efuse = true → ∀ te, (harvestingSLTFuses efuse te).tensixColEnabled.getLsbD i =
        (te.tensixColEnabled.getLsbD i && !sltColumnBad efuse i) := by
      intro hvalid te
      rw [harvestingSLTFuses, if_neg (sltValid_ne hvalid), sltColumnBad]
      refine getLsbD_disable.trans ?_
      split
      · rw [getLsbD_getTensixDisableSLTMapV1 hi]
      · rfl
    refine (fused_view (fun te => te.tensixColEnabled.getLsbD i)
      (fun _ => harvestingATEFuses_tensix) hslt).trans ?_
    exact congrArg (· && _) getLsbD_allColumns
  · rw [decide_eq_false hi, Bool.false_and]
    exact Bool.eq_false_iff.mpr (mt (columns_fused i) hi)

theorem fused_eth : (fused efuse).ethEnabled.getLsbD i = (decide (i < 14) && !ethBad efuse i) := by
  have hslt : sltValid efuse = true → ∀ te, (harvestingSLTFuses efuse te).ethEnabled.getLsbD i =
      (te.ethEnabled.getLsbD i && !(sltEthCtrlTestStatus efuse).getLsbD i) := by
    intro hvalid te
    rw [harvestingSLTFuses, if_neg (sltValid_ne hvalid)]
    exact getLsbD_disable
  refine (fused_view (fun te => te.ethEnabled.getLsbD i) (fun _ => getLsbD_disable) hslt).trans ?_
  exact congrArg (· && _) getLsbD_allColumns

theorem fused_gddr : (fused efuse).gddrEnabled.getLsbD i = (decide (i < 8) && !gddrBad efuse i) := by
  have hall : (0xff#8).getLsbD i = decide (i < 8) := by
    rw [show 0xff#8 = BitVec.ofNat 8 (2 ^ 8 - 1) from rfl, getLsbD_lowMask, Bool.and_self]
  have hslt : sltValid efuse = true → ∀ te, (harvestingSLTFuses efuse te).gddrEnabled.getLsbD i =
      (te.gddrEnabled.getLsbD i && !sltGddrBad efuse i) := by
    intro hvalid te
    rw [harvestingSLTFuses, if_neg (sltValid_ne hvalid)]
    by_cases hi : i < 8
    · have hbad : (if sltFuseMapVersion efuse ≤ 2#32 then
          clearBit ((sltDdrTestStatus12G efuse ||| sltDdrTestStatus14G efuse |||
            sltDdrTestStatus16G efuse).setWidth 8) 3
          else (sltDdrTestStatus12G efuse ||| sltDdrTestStatus14G efuse |||
            sltDdrTestStatus16G efuse).setWidth 8).getLsbD i = sltGddrBad efuse i := by
        unfold sltGddrBad
        split
        · rename_i hversion
          rw [getLsbD_clearBit, decide_eq_true hversion, Bool.and_true, BitVec.getLsbD_setWidth,
            decide_eq_true hi, Bool.true_and, BitVec.getLsbD_or, BitVec.getLsbD_or]
          congr 2
          rw [Bool.eq_iff_iff, decide_eq_true_eq, beq_iff_eq]
          exact eq_comm
        · rename_i hversion
          simp [hi, hversion]
      rw [← hbad]
      exact (BitVec.getLsbD_and ..).trans (by rw [BitVec.getLsbD_not, decide_eq_true hi, Bool.true_and])
    · rw [BitVec.getLsbD_of_ge _ _ (by omega), BitVec.getLsbD_of_ge _ _ (by omega), Bool.false_and]
  refine (fused_view (fun te => te.gddrEnabled.getLsbD i) (fun _ => getLsbD_disable) hslt).trans ?_
  exact congrArg (· && _) hall

end

-- ---
-- Soft harvesting

section

variable {efuse : Efuse} {fwTable : FwTable} {x : BitVec 16} {i : ℕ}

/-- The loop takes columns from the right. The induction is on those still before it; above them
none is enabled any more. -/
theorem bits_disableColumns (k count : ℕ) (htop : ∀ i, x.getLsbD i = true → i < k) :
    bits (disableColumns (List.range k).reverse count x) = (bits x).take (popcount x - count) := by
  induction k generalizing count x with
  | zero =>
    have hnone : bits x = [] :=
      List.eq_nil_iff_forall_not_mem.mpr fun i hi => Nat.not_lt_zero i (htop i (mem_bits.mp hi))
    show bits x = _
    rw [hnone, List.take_nil]
  | succ k ih =>
    rw [List.range_succ, List.reverse_append, List.reverse_singleton, List.singleton_append]
    rcases count with _ | count
    · rw [disableColumns, Nat.sub_zero, popcount, List.take_length]
    · by_cases hset : x.getLsbD k = true
      · have hclear : ∀ i, (clearBit x k).getLsbD i = true → i < k := by
          intro i hi
          rw [getLsbD_clearBit, Bool.and_eq_true, Bool.not_eq_true', decide_eq_false_iff_not] at hi
          have := htop i hi.1
          omega
        have hbits := bits_top hset fun i hi => Nat.le_of_lt_succ (htop i hi)
        have hcount : popcount x = popcount (clearBit x k) + 1 := by
          rw [popcount, hbits, List.length_append]
          rfl
        rw [disableColumns, if_pos hset, ih count hclear, hcount, Nat.add_sub_add_right, hbits,
          List.take_append_of_le_length (Nat.sub_le (popcount (clearBit x k)) count)]
      · have hbelow : ∀ i, x.getLsbD i = true → i < k := by
          intro i hi
          have hne : i ≠ k := fun heq => hset (heq ▸ hi)
          have := htop i hi
          omega
        rw [disableColumns, if_neg hset, ih (count + 1) hbelow]

/-- **What soft harvesting leaves**: the first of the good columns, as many as the product
specification asks for. -/
theorem bits_softHarvestTensix {disableCount : UInt32} (h : Columns x) (hspec : disableCount ≤ 14) :
    bits (softHarvestTensix disableCount x) = (bits x).take (14 - disableCount.toNat) := by
  rw [UInt32.le_iff_toNat_le, show (14 : UInt32).toNat = 14 from rfl] at hspec
  have hcount := (bits_bad h).2
  unfold softHarvestTensix
  dsimp only
  split
  · rw [bits_disableColumns 14 _ h]
    congr 1
    omega
  · rename_i hmet
    have hle : popcount x ≤ 14 - disableCount.toNat := by omega
    rw [List.take_of_length_le hle]

theorem getLsbD_of_clearBit_if {w tile : ℕ} {y : BitVec w} {P : Prop} [Decidable P]
    (h : (if P then clearBit y tile else y).getLsbD i = true) : y.getLsbD i = true := by
  split at h
  · rw [getLsbD_clearBit, Bool.and_eq_true] at h
    exact h.1
  · exact h

theorem getLsbD_of_limitEth (h : (limitEth x).getLsbD i = true) : x.getLsbD i = true :=
  getLsbD_of_clearBit_if (getLsbD_of_clearBit_if h)

theorem getLsbD_of_softHarvestGddr {enabled : BitVec 8}
    (h : (softHarvestGddr fwTable enabled).getLsbD i = true) : enabled.getLsbD i = true := by
  have hmask := getLsbD_of_clearBit_if h
  split at hmask
  · rw [BitVec.getLsbD_and, Bool.and_eq_true] at hmask
    exact hmask.1
  · exact hmask

end

-- ---
-- The result

section

variable {efuse : Efuse} {fwTable : FwTable} {x : BitVec 16} {i j : ℕ}

theorem calculateHarvesting_gddr (hen : fwTable.harvestingEn = true) :
    (calculateHarvesting efuse fwTable).gddrEnabled = softHarvestGddr fwTable (fused efuse).gddrEnabled := by
  simp only [calculateHarvesting, connectPcie, hen, if_true]
  rfl

theorem popcount_fused : popcount (fused efuse).tensixColEnabled =
    14 - (List.range 14).countP (columnBad efuse) := by
  have hgood := countP_range_not 14 (columnBad efuse)
  have hfilter : (List.range 14).filter (fused efuse).tensixColEnabled.getLsbD =
      (List.range 14).filter fun i => !columnBad efuse i := by
    refine List.filter_congr fun i hi => ?_
    rw [fused_tensix, decide_eq_true (List.mem_range.mp hi), Bool.true_and]
  rw [popcount, bits_columns columns_fused, hfilter, ← List.countP_eq_length_filter]
  omega

theorem lt_of_softHarvested (h : Columns x) {disableCount : UInt32} (hspec : disableCount ≤ 14)
    (hgood : x.getLsbD i = true) (hoff : (softHarvestTensix disableCount x).getLsbD i = false)
    (hon : (softHarvestTensix disableCount x).getLsbD j = true) : j < i := by
  have hbits := bits_softHarvestTensix h hspec
  have hmem : j ∈ (bits x).take (14 - disableCount.toNat) := hbits ▸ mem_bits.mpr hon
  have hdrop : i ∈ (bits x).drop (14 - disableCount.toNat) := by
    have hi : i ∈ bits x := mem_bits.mpr hgood
    rw [← List.take_append_drop (14 - disableCount.toNat) (bits x), List.mem_append] at hi
    refine hi.resolve_left fun htake => ?_
    rw [mem_bits.mp (hbits ▸ htake)] at hoff
    cases hoff
  have hsorted := bits_pairwise (x := x)
  rw [← List.take_append_drop (14 - disableCount.toNat) (bits x)] at hsorted
  exact (List.pairwise_append.mp hsorted).2.2 j hmem i hdrop

theorem bad_disabled (hen : fwTable.harvestingEn = true) (hspec : fwTable.tensixColDisableCount ≤ 14) :
    (columnBad efuse i = true → (calculateHarvesting efuse fwTable).tensixColEnabled.getLsbD i = false) ∧
      (ethBad efuse i = true → (calculateHarvesting efuse fwTable).ethEnabled.getLsbD i = false) ∧
      (gddrBad efuse i = true → (calculateHarvesting efuse fwTable).gddrEnabled.getLsbD i = false) := by
  refine ⟨fun hbad => ?_, fun hbad => ?_, fun hbad => ?_⟩
  · rw [calculateHarvesting_tensix hen, Bool.eq_false_iff]
    intro hon
    have hmem := mem_bits.mpr hon
    rw [bits_softHarvestTensix columns_fused hspec] at hmem
    have hfused := mem_bits.mp (List.mem_of_mem_take hmem)
    rw [fused_tensix, hbad, Bool.not_true, Bool.and_false] at hfused
    cases hfused
  · rw [calculateHarvesting_eth hen, Bool.eq_false_iff]
    intro hon
    split at hon
    · simp at hon
    · have hfused := getLsbD_of_limitEth hon
      rw [fused_eth, hbad, Bool.not_true, Bool.and_false] at hfused
      cases hfused
  · rw [calculateHarvesting_gddr hen, Bool.eq_false_iff]
    intro hon
    have hfused := getLsbD_of_softHarvestGddr hon
    rw [fused_gddr, hbad, Bool.not_true, Bool.and_false] at hfused
    cases hfused

theorem countP_le_two {p : ℕ → Bool} {first : ℕ} (h : ∃ i < 3, p (first + i) = false) :
    [first, first + 1, first + 2].countP p ≤ 2 := by
  obtain ⟨i, hi, hoff⟩ := h
  have hlt : [first, first + 1, first + 2].countP p ≠ 3 := by
    intro hall
    have hmem : first + i ∈ [first, first + 1, first + 2] := by
      simp only [List.mem_cons, List.not_mem_nil, or_false]
      omega
    rw [List.countP_eq_length.mp hall _ hmem] at hoff
    cases hoff
  have hle : [first, first + 1, first + 2].countP p ≤ 3 := List.countP_le_length
  omega

end

/-- **The result of harvesting**: for every content of the fuses and every table that
enables harvesting and disables at most fourteen columns,

* what the fuses mark bad is disabled,
* as many columns are enabled as the fuses and the product specification leave,
* the good ones that are disabled are the last of them, and
* at most two tiles of {4, 5, 6}, and of {7, 8, 9}, are enabled. -/
theorem harvesting_result (efuse : Efuse) (fwTable : FwTable) (hen : fwTable.harvestingEn = true)
    (hspec : fwTable.tensixColDisableCount ≤ 14) :
    let te := calculateHarvesting efuse fwTable
    (∀ i, (columnBad efuse i = true → te.tensixColEnabled.getLsbD i = false) ∧
      (ethBad efuse i = true → te.ethEnabled.getLsbD i = false) ∧
      (gddrBad efuse i = true → te.gddrEnabled.getLsbD i = false)) ∧
    (List.range 14).countP te.tensixColEnabled.getLsbD =
      min (14 - (List.range 14).countP (columnBad efuse)) (14 - fwTable.tensixColDisableCount.toNat) ∧
    (∀ i < 14, columnBad efuse i = false → te.tensixColEnabled.getLsbD i = false →
      ∀ j, te.tensixColEnabled.getLsbD j = true → j < i) ∧
    [4, 5, 6].countP te.ethEnabled.getLsbD ≤ 2 ∧ [7, 8, 9].countP te.ethEnabled.getLsbD ≤ 2 := by
  have htensix := @calculateHarvesting_tensix efuse fwTable hen
  have hbits := bits_softHarvestTensix (@columns_fused efuse) hspec
  have hcolumns : Columns (softHarvestTensix fwTable.tensixColDisableCount
      (fused efuse).tensixColEnabled) := by
    intro i hi
    exact columns_fused i (mem_bits.mp (List.mem_of_mem_take (hbits ▸ mem_bits.mpr hi)))
  obtain ⟨hlow, hhigh⟩ := @ethEnabled_spec efuse fwTable hen
  refine ⟨fun i => bad_disabled hen hspec, ?_, fun i hi hgood hoff j hon => ?_,
    countP_le_two hlow, countP_le_two hhigh⟩
  · calc (List.range 14).countP (calculateHarvesting efuse fwTable).tensixColEnabled.getLsbD
        = (bits (softHarvestTensix fwTable.tensixColDisableCount
            (fused efuse).tensixColEnabled)).length := by
          rw [htensix, List.countP_eq_length_filter, ← bits_columns hcolumns]
      _ = min (14 - fwTable.tensixColDisableCount.toNat) (popcount (fused efuse).tensixColEnabled) := by
          rw [hbits, List.length_take, popcount]
      _ = _ := by rw [popcount_fused, Nat.min_comm]
  · rw [htensix] at hoff hon
    refine lt_of_softHarvested columns_fused hspec ?_ hoff hon
    rw [fused_tensix, decide_eq_true hi, hgood]
    rfl

/-- A part binned as having two columns harvested, of which the fuses name that at X = 1, in
version 1. -/
def binnedPart : Efuse := fun word =>
  if word = 130 then 0x6#32 else if word = 131 then 0x3#32 else if word = 173 then 0x2#32 else 0

theorem harvesting_result_binned :
    (List.range 14).countP (calculateHarvesting binnedPart
        { productTable with tensixColDisableCount := 4 }).tensixColEnabled.getLsbD =
      min (14 - (List.range 14).countP (columnBad binnedPart)) (14 - 4) ∧
    (calculateHarvesting binnedPart
      { productTable with tensixColDisableCount := 4 }).tensixColEnabled = 0x0ffc#16 :=
  ⟨(harvesting_result binnedPart { productTable with tensixColDisableCount := 4 } rfl
    (by decide)).2.1, by decide +kernel⟩

-- ---
-- The assumptions of NOC translation

section

variable {efuse : Efuse} {fwTable : FwTable} {x : BitVec 16}

theorem popcount_softHarvestTensix {disableCount : UInt32} (h : Columns x) :
    popcount (softHarvestTensix disableCount x) =
      if 14 - popcount x < disableCount.toNat then
        popcount x - (disableCount.toNat - (14 - popcount x)) % 256
      else popcount x := by
  unfold softHarvestTensix
  dsimp only
  split
  · rw [popcount, bits_disableColumns 14 _ h, List.length_take]
    exact Nat.min_eq_left (Nat.sub_le _ _)
  · rfl

theorem columns_calculateHarvesting :
    Columns (calculateHarvesting efuse fwTable).tensixColEnabled := by
  by_cases hen : fwTable.harvestingEn = true
  · rw [calculateHarvesting_tensix hen, softHarvestTensix]
    split
    · exact fun i hi => columns_fused i ((disableColumns_spec _ _).1 i hi)
    · exact columns_fused
  · rw [calculateHarvesting, if_neg hen]
    exact columns_all

/-- The number of columns to disable is taken modulo 256, after those that the fuses mark. -/
theorem badTensixCols_le_iff (hen : fwTable.harvestingEn = true) :
    popcount (badTensixCols (calculateHarvesting efuse fwTable)) ≤ 7 ↔
      (List.range 14).countP (columnBad efuse) ≤ 7 ∧
        (fwTable.tensixColDisableCount.toNat ≤ (List.range 14).countP (columnBad efuse) ∨
          (List.range 14).countP (columnBad efuse) ≤ fwTable.tensixColDisableCount.toNat % 256 ∧
            fwTable.tensixColDisableCount.toNat % 256 ≤ 7) := by
  have hsum := (bits_bad (@columns_calculateHarvesting efuse fwTable)).2
  have hle : (List.range 14).countP (columnBad efuse) ≤ 14 := List.countP_le_length
  rw [calculateHarvesting_tensix hen, popcount_softHarvestTensix columns_fused, popcount_fused] at hsum
  rw [badTensixCols, calculateHarvesting_tensix hen]
  split at hsum <;> omega

end

/-- **When harvesting meets the assumptions of NOC translation**: exactly with `harvesting_en`, at
most seven columns marked by the fuses, and a number of columns to disable that is no larger than
theirs or that is, as a byte, between theirs and seven. -/
theorem harvesting_meets_noc_assumptions (efuse : Efuse) (fwTable : FwTable) :
    (let te := calculateHarvesting efuse fwTable;
      popcount (badTensixCols te) ≤ 7 ∧
        (∃ i < 3, te.ethEnabled.getLsbD (4 + i) = false) ∧
        (∃ i < 3, te.ethEnabled.getLsbD (7 + i) = false) ∧
        ∀ translation, fwTable.nocTranslationEn = true →
          ∃ t, initNocTranslationFromHarvesting false fwTable te translation = some t ∧
            ∀ i, te.tensixColEnabled.getLsbD i = true →
              tensixX i ∈ tensixCols.map t.noc0.translateTableX) ↔
      fwTable.harvestingEn = true ∧
        (let bad := (List.range 14).countP (columnBad efuse);
          bad ≤ 7 ∧ (fwTable.tensixColDisableCount.toNat ≤ bad ∨
            bad ≤ fwTable.tensixColDisableCount.toNat % 256 ∧
              fwTable.tensixColDisableCount.toNat % 256 ≤ 7)) := by
  constructor
  · rintro ⟨hcount, ⟨i, hi, hoff⟩, -, -⟩
    have hen : fwTable.harvestingEn = true := by
      by_contra hen
      have hall : ∀ i < 3, (0x3fff#16).getLsbD (4 + i) = true := by decide
      rw [calculateHarvesting, if_neg hen] at hoff
      exact Bool.noConfusion (hoff.symm.trans (hall i hi))
    exact ⟨hen, (badTensixCols_le_iff hen).mp hcount⟩
  · rintro ⟨hen, hcount⟩
    obtain ⟨hlow, hhigh⟩ := @ethEnabled_spec efuse _ hen
    have hbad := (badTensixCols_le_iff hen).mpr hcount
    exact ⟨hbad, hlow, hhigh,
      nocTranslation_of_assumptions columns_calculateHarvesting hbad hlow hhigh⟩

/-- Without `harvesting_en` all Ethernet tiles stay enabled, and NOC translation shifts
by -1; with fourteen columns to disable, fourteen are bad. -/
theorem noc_assumptions_fail :
    (calculateHarvesting unfused { productTable with harvestingEn := false }).ethEnabled = 0x3fff#16 ∧
      (initNocTranslationFromHarvesting false { productTable with harvestingEn := false }
        (calculateHarvesting unfused { productTable with harvestingEn := false })
        ⟨makeIdentity, makeIdentity⟩).isNone = true ∧
      popcount (badTensixCols (calculateHarvesting unfused
        { productTable with tensixColDisableCount := 14 })) = 14 := by
  decide +kernel

end SystemFirmware.Harvesting
