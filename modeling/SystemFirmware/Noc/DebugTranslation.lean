import SystemFirmware.Noc.Logical
import SystemFirmware.Noc.TableAccess

/-!
# NOC translation — the debug request stays inside its tables

Which accesses of `debug_noc_translation_handler` are to elements that exist. The request
is checked for a bad GDDR that does not exist, and for nothing else. Two loops read the
columns of Tensix and Ethernet as far as the masks of the request lead them:

* a bad column 14 or 15 among the first seven is read although there are fourteen;
* twelve Ethernet tiles are read that are not skipped, wherever they are.

Every other access is inside its table, whatever those reads yield
(`debug_noc_translation_in_bounds_iff`).
-/

namespace SystemFirmware.Noc

open Lib
open Lib.Traced

-- ---
-- Single accesses

section

variable {α : Type} {table : Table} {i x y : ℕ} {a : α} {nt : NocTranslation}
  {behind : Table → ℕ → ℕ}

@[simp] theorem all_element : All Access.InBounds (element table i a) ↔ i < table.size := all_touch

@[simp] theorem value_element : value (element table i a) = a := rfl

@[simp] theorem all_coord :
    All Access.InBounds (coord x y a) ↔ x < nocXSize ∧ y < nocYSize := by
  rw [coord, all_bind, all_element, all_element]
  rfl

variable {v : ℕ}

theorem all_writeX : All Access.InBounds (writeX nt i v) ↔ i < 32 := all_element

theorem all_writeY : All Access.InBounds (writeY nt i v) ↔ i < 32 := all_element

theorem all_readX : All Access.InBounds (readX nt i) ↔ i < 32 := all_element

theorem all_readY : All Access.InBounds (readY nt i) ↔ i < 32 := all_element

theorem all_readTensixEth : All Access.InBounds (readTensixEth behind i) ↔ i < 14 := all_element

theorem value_readConst {content : List ℕ} (hi : i < content.length) :
    value (readConst behind table content i) = content.getD i 0 := by
  show content[i]?.getD _ = _
  simp [hi]

end

-- ---
-- Loops with fixed bounds

section

variable {nt : NocTranslation} {post pre : Box} {behind : Table → ℕ → ℕ}

theorem applyLogicalCoordsRun_inBounds (hpost : post.xEnd < nocXSize ∧ post.yEnd < nocYSize)
    (hpre : pre.xEnd < 32 ∧ pre.yEnd < 32) :
    All Access.InBounds (applyLogicalCoordsRun nt post pre) := by
  refine all_foldlM_of_forall fun preX hx nt => ?_
  rw [all_bind, all_readX]
  refine ⟨Nat.lt_of_le_of_lt (mem_interval.mp hx).2 hpre.1, ?_⟩
  split
  · exact all_pure
  · rename_i hpostX
    refine all_foldlM_of_forall fun preY hy nt => ?_
    rw [all_bind, all_readY]
    refine ⟨Nat.lt_of_le_of_lt (mem_interval.mp hy).2 hpre.2, ?_⟩
    split
    · exact all_pure
    · rename_i hpostY
      rw [setLogicalCoordRun, all_coord]
      omega

theorem makeIdentityRun_inBounds : All Access.InBounds makeIdentityRun := by
  unfold makeIdentityRun
  simp only [all_bind, all_forM, all_element, all_coord, List.mem_range]
  exact ⟨fun i hi => ⟨hi, hi⟩, fun x hx y hy => ⟨hx, hy⟩, all_pure⟩

theorem copyNoc0ToNoc1Run_inBounds : All Access.InBounds (copyNoc0ToNoc1Run nt) := by
  unfold copyNoc0ToNoc1Run
  simp only [all_bind, all_forM, all_element, all_coord, List.mem_range]
  refine ⟨fun i hi => ⟨hi, hi, hi, hi⟩, fun x hx y hy => ⟨⟨?_, ?_⟩, hx, hy⟩, all_pure⟩
  · omega
  · omega

theorem goodTensixNoc0XRun_inBounds {badTensixCols : BitVec 16} :
    All Access.InBounds (goodTensixNoc0XRun behind badTensixCols) := by
  refine all_foldlM_of_forall fun i hi good => ?_
  split
  · rw [all_bind, all_readTensixEth]
    exact ⟨List.mem_range.mp hi, all_pure⟩
  · exact all_pure

theorem gddrYOrderRun_spec (badGddr : ℕ) :
    All Access.InBounds (gddrYOrderRun badGddr) ∧
      ∀ i < 4, value (gddrYOrderRun badGddr) i = (gddrYOrder badGddr).getD i 0 ∧
        (gddrYOrder badGddr).getD i 0 < 4 := by
  unfold gddrYOrderRun gddrYOrder
  by_cases hbad : badGddr ≠ noBadGddr
  · rw [if_pos hbad, if_pos hbad]
    obtain ⟨row, hrow⟩ : ∃ row, row = badGddr % 4 := ⟨_, rfl⟩
    have hlt : row < 4 := hrow ▸ Nat.mod_lt _ (by decide)
    rw [← hrow]
    clear hrow
    revert row
    decide
  · rw [if_neg hbad, if_neg hbad]
    exact ⟨all_pure, by decide⟩

theorem gddrTableRun_inBounds (badGddr : ℕ) :
    All Access.InBounds (gddrTableRun behind badGddr nt) := by
  obtain ⟨horder, hvalue⟩ := gddrYOrderRun_spec badGddr
  rw [gddrTableRun, all_bind]
  refine ⟨horder, all_foldlM_of_forall fun gddr hgddr nt => ?_⟩
  have hlt := List.mem_range.mp hgddr
  have hrow : value (gddrYOrderRun badGddr) gddr < 4 := (hvalue gddr hlt).1 ▸ (hvalue gddr hlt).2
  rw [all_bind, all_element, value_element]
  refine ⟨hlt, all_foldlM_of_forall fun i hi nt => ?_⟩
  have hi := List.mem_range.mp hi
  rw [all_bind, readGddrY, all_bind, all_element, all_writeY]
  exact ⟨⟨hrow, all_element.mpr hi⟩, by omega⟩

theorem placeGddrRun_inBounds (badGddr : ℕ) :
    All Access.InBounds (placeGddrRun behind badGddr nt) := by
  rw [placeGddrRun, all_bind, all_writeX, all_bind, all_writeX, all_bind, all_bind]
  refine ⟨by split <;> decide, by split <;> decide, gddrTableRun_inBounds badGddr, ?_, ?_⟩
  · exact applyLogicalCoordsRun_inBounds (by decide) (by decide)
  · exact applyLogicalCoordsRun_inBounds (by decide) (by decide)

theorem placePcieRun_inBounds (pcieInstance : ℕ) :
    All Access.InBounds (placePcieRun pcieInstance nt) := by
  rw [placePcieRun, all_bind, all_writeX, all_bind, all_writeY]
  refine ⟨by decide, by decide, applyLogicalCoordsRun_inBounds
    ⟨?_, show 0 < nocYSize by decide⟩ (by decide)⟩
  show (if pcieInstance ≠ 0 then 11 else 2) < nocXSize
  split <;> decide

theorem placeL2CpuRun_inBounds : All Access.InBounds (placeL2CpuRun behind nt) := by
  rw [placeL2CpuRun, all_bind]
  refine ⟨all_foldlM_of_forall fun i hi nt => ?_,
    applyLogicalCoordsRun_inBounds (by decide) (by decide)⟩
  have hi := List.mem_range.mp hi
  rw [all_bind, all_writeY]
  exact ⟨all_element.mpr hi, by omega⟩

theorem placeSecurityRun_inBounds : All Access.InBounds (placeSecurityRun nt) := by
  rw [placeSecurityRun, all_bind, all_writeY]
  exact ⟨by decide, applyLogicalCoordsRun_inBounds (by decide) (by decide)⟩

end

-- ---
-- Programming

section

variable {translation : Translations} {px py x y nocId : ℕ} {behind : Table → ℕ → ℕ}

theorem all_physXToNoc : All Access.InBounds (physXToNoc behind px nocId) ↔ px < nocXSize := by
  rw [physXToNoc, all_bind]
  exact (and_iff_left all_pure).trans all_element

theorem all_physYToNoc : All Access.InBounds (physYToNoc behind py nocId) ↔ py < nocYSize := by
  rw [physYToNoc, all_bind]
  exact (and_iff_left all_pure).trans all_element

theorem value_physXToNoc_lt (h : px < nocXSize) : value (physXToNoc behind px nocId) < nocXSize := by
  have hlt : ∀ px < nocXSize, kPhysXToNoc0.getD px 0 < nocXSize := by decide
  rw [physXToNoc, value_bind, value_pure, value_readConst (show px < kPhysXToNoc0.length from h)]
  split
  · exact hlt px h
  · rw [nocXSize]
    omega

theorem value_physYToNoc_lt (h : py < nocYSize) : value (physYToNoc behind py nocId) < nocYSize := by
  have hlt : ∀ py < nocYSize, kPhysYToNoc0.getD py 0 < nocYSize := by decide
  rw [physYToNoc, value_bind, value_pure, value_readConst (show py < kPhysYToNoc0.length from h)]
  split
  · exact hlt py h
  · rw [nocYSize]
    omega

theorem getNodeType_inBounds (hpx : px < nocXSize) (hpy : py < nocYSize) :
    All Access.InBounds (getNodeType px py) := by
  rw [getNodeType, all_bind, all_element, all_element]
  refine ⟨?_, hpx⟩
  show nocYSize - py - 1 < nocYSize
  omega

theorem phys_lt (hx : x < nocXSize) (hy : y < nocYSize) :
    value (readConst behind .kNoc0XToPhys kNoc0XToPhys x) < nocXSize ∧
      value (readConst behind .kNoc0YToPhys kNoc0YToPhys y) < nocYSize := by
  have hphysX : ∀ x < nocXSize, kNoc0XToPhys.getD x 0 < nocXSize := by decide
  have hphysY : ∀ y < nocYSize, kNoc0YToPhys.getD y 0 < nocYSize := by decide
  rw [value_readConst (show x < kNoc0XToPhys.length from hx),
    value_readConst (show y < kNoc0YToPhys.length from hy)]
  exact ⟨hphysX x hx, hphysY y hy⟩

theorem setupNiuTlbPhys_inBounds (hpx : px < nocXSize) (hpy : py < nocYSize) :
    All Access.InBounds (setupNiuTlbPhys behind px py nocId) := by
  rw [setupNiuTlbPhys, all_bind, all_bind, all_bind, all_physXToNoc, all_physYToNoc]
  exact ⟨getNodeType_inBounds hpx hpy, hpx, hpy, all_pure⟩

theorem programNocTranslationSingleTile_inBounds (hx : x < nocXSize) (hy : y < nocYSize) :
    All Access.InBounds (programNocTranslationSingleTile behind translation x y) := by
  obtain ⟨hpx, hpy⟩ := @phys_lt x y behind hx hy
  have hpacked : ∀ i < preTranslationSize, i / nocTranslateTableXYSize < nocTranslateTableXYSize := by
    decide
  rw [programNocTranslationSingleTile, all_bind, all_bind]
  refine ⟨all_element.mpr hx, all_element.mpr hy, all_forM.mpr fun nocId _ => ?_⟩
  simp only [all_bind, all_forM, all_element, all_readX, all_readY, all_physXToNoc, all_physYToNoc,
    all_coord, List.mem_range]
  exact ⟨fun i hi => ⟨hi, hpacked i hi, hi, hpacked i hi⟩, hpx, hpy, setupNiuTlbPhys_inBounds hpx hpy,
    ⟨value_physXToNoc_lt hpx, value_physYToNoc_lt hpy⟩, fun i hi => ⟨hi, hi⟩⟩

theorem programNocTranslation_inBounds :
    All Access.InBounds (programNocTranslation behind translation) := by
  rw [programNocTranslation, all_bind]
  constructor
  · refine all_forM.mpr fun py hpy => all_forM.mpr fun px hpx => ?_
    have hpx := List.mem_range.mp hpx
    have hpy := List.mem_range.mp hpy
    rw [all_bind, all_physXToNoc, all_bind, all_physYToNoc]
    refine ⟨hpx, hpy, ?_⟩
    split
    · exact all_pure
    · exact programNocTranslationSingleTile_inBounds (value_physXToNoc_lt hpx) (value_physYToNoc_lt hpy)
  · split
    · exact programNocTranslationSingleTile_inBounds (by decide) (by decide)
    · exact all_pure

theorem programBroadcastExclusion_inBounds {columns : BitVec 16} :
    All Access.InBounds (programBroadcastExclusion behind columns) := by
  rw [programBroadcastExclusion, all_bind]
  constructor
  · refine all_forM.mpr fun i hi => ?_
    have hi := List.mem_range.mp hi
    split
    · rw [all_bind, all_physXToNoc]
      exact ⟨show i + 1 < 17 by omega, all_pure⟩
    · exact all_pure
  · exact all_forM.mpr fun py hpy => all_forM.mpr fun px hpx => all_forM.mpr fun nocId _ =>
      setupNiuTlbPhys_inBounds (List.mem_range.mp hpx) (List.mem_range.mp hpy)

theorem clearNocTranslation_inBounds : All Access.InBounds (clearNocTranslation behind) := by
  rw [clearNocTranslation, all_bind, all_bind]
  refine ⟨all_forM.mpr fun x hx => all_forM.mpr fun y hy => ?_, programNocTranslation_inBounds,
    all_pure⟩
  exact all_coord.mpr ⟨List.mem_range.mp hx, List.mem_range.mp hy⟩

end

-- ---
-- The loops that follow the masks

section

variable {nt : NocTranslation} {behind : Table → ℕ → ℕ}

theorem all_popColumnsRun {w : ℕ} {column : ℕ → Run ℕ} {entries : List ℕ} {mask : BitVec w}
    (hentries : ∀ x ∈ entries, x < 32) :
    All Access.InBounds (popColumnsRun column entries mask nt) ↔
      ∀ i ∈ (bits mask).take entries.length, All Access.InBounds (column i) := by
  induction entries generalizing mask nt with
  | nil => simp [popColumnsRun]
  | cons nocX entries ih =>
    obtain ⟨hfirst, hrest⟩ := List.forall_mem_cons.mp hentries
    by_cases hzero : mask = 0#w
    · rw [popColumnsRun, if_pos hzero, hzero, bits_zero]
      simp
    · rw [popColumnsRun, if_neg hzero, all_bind, all_bind, all_writeX, ih hrest, bits_pop hzero,
        List.length_cons, List.take_succ_cons, List.forall_mem_cons]
      exact and_congr_right fun _ => and_iff_right hfirst

variable {skipMask : BitVec 32}

theorem getLsbD_shift {j : ℕ} : (skipMask >>> 1).getLsbD j = skipMask.getLsbD (j + 1) := by
  rw [BitVec.getLsbD_ushiftRight, Nat.add_comm]

variable {fuel count : ℕ}

theorem fuel_shift (hfuel : ∀ j, skipMask.getLsbD j = true → j + count < fuel + 1) :
    ∀ j, (skipMask >>> 1).getLsbD j = true → j + count < fuel := by
  intro j hj
  have := hfuel (j + 1) (getLsbD_shift ▸ hj)
  omega

theorem countP_clear_succ {n : ℕ} :
    ((List.range (n + 1)).countP fun j => !skipMask.getLsbD j) =
      (if skipMask.getLsbD 0 then 0 else 1) +
        (List.range n).countP fun j => !(skipMask >>> 1).getLsbD j := by
  simp only [getLsbD_shift]
  rw [List.range_succ_eq_map, List.countP_cons, List.countP_map, Nat.add_comm]
  congr 1
  cases skipMask.getLsbD 0 <;> rfl

/-- Copying stays inside if enough elements are not skipped. The induction is on the fuel, which
is enough for the bits of the mask. -/
theorem all_copyBytesSkipIndicesRun {i out : ℕ} (hout : out + count ≤ 32) (hcount : count ≤ fuel)
    (hfuel : ∀ j, skipMask.getLsbD j = true → j + count < fuel) :
    All Access.InBounds (copyBytesSkipIndicesRun behind fuel count i out skipMask nt) ↔
      count ≤ (List.range (14 - i)).countP fun j => !skipMask.getLsbD j := by
  induction fuel generalizing count i out skipMask nt with
  | zero =>
    rw [Nat.le_zero.mp hcount]
    exact iff_of_true all_pure (Nat.zero_le _)
  | succ fuel ih =>
    rw [copyBytesSkipIndicesRun]
    split_ifs with hdone hskip
    · exact iff_of_true all_pure (hdone ▸ Nat.zero_le _)
    · have hcount' : count ≤ fuel := by
        have := hfuel 0 hskip
        omega
      rw [ih hout hcount' (fuel_shift hfuel)]
      by_cases hi : i < 14
      · rw [show 14 - i = 14 - (i + 1) + 1 by omega, countP_clear_succ, if_pos hskip, Nat.zero_add]
      · rw [show 14 - i = 0 by omega, show 14 - (i + 1) = 0 by omega]
        rfl
    · have hfuel' : ∀ j, (skipMask >>> 1).getLsbD j = true → j + (count - 1) < fuel := by
        intro j hj
        have := fuel_shift hfuel j hj
        omega
      rw [all_bind, all_readTensixEth, all_bind, all_writeX, ih (by omega) (by omega) hfuel']
      by_cases hi : i < 14
      · rw [show 14 - i = 14 - (i + 1) + 1 by omega, countP_clear_succ, if_neg hskip]
        omega
      · rw [show 14 - i = 0 by omega]
        exact iff_of_false (fun h => hi h.1) (fun h => hdone (Nat.le_zero.mp h))

variable {badTensixCols : BitVec 16}

theorem placeTensixRun_inBounds_iff :
    All Access.InBounds (placeTensixRun behind badTensixCols nt) ↔
      ∀ i ∈ (bits badTensixCols).take 7, i < 14 := by
  have hleft : ∀ x ∈ interval 1 7, x < 32 := by decide
  have hright : ∀ x ∈ interval 10 16, x < 32 := by decide
  have hback : ∀ x ∈ (interval 10 16).reverse, x < 32 := by decide
  rw [placeTensixRun]
  simp only [all_bind, all_popColumnsRun hleft, all_popColumnsRun hright, all_popColumnsRun hback,
    all_readTensixEth]
  constructor
  · intro h
    exact h.2.2.2.1
  · intro h
    exact ⟨goodTensixNoc0XRun_inBounds, fun _ _ => all_pure, fun _ _ => all_pure, h,
      applyLogicalCoordsRun_inBounds (by decide) (by decide),
      applyLogicalCoordsRun_inBounds (by decide) (by decide)⟩

variable {skipEth : BitVec 16}

theorem skipEth_fuel : ∀ j, (skipEth.setWidth 32).getLsbD j = true → j + 12 < 28 := by
  intro j hj
  rw [BitVec.getLsbD_setWidth, Bool.and_eq_true] at hj
  have := BitVec.lt_of_getLsbD hj.2
  omega

theorem placeEthRun_inBounds_iff :
    All Access.InBounds (placeEthRun behind skipEth nt) ↔
      (List.range 14).countP skipEth.getLsbD ≤ 2 := by
  have hclear : ((List.range 14).countP fun j => !(skipEth.setWidth 32).getLsbD j) =
      (List.range 14).countP fun j => !skipEth.getLsbD j := by
    refine List.countP_congr fun j hj => ?_
    have := List.mem_range.mp hj
    rw [BitVec.getLsbD_setWidth, decide_eq_true (show j < 32 by omega), Bool.true_and]
  have hsplit := countP_range_not 14 skipEth.getLsbD
  rw [placeEthRun]
  simp only [all_bind, all_writeY,
    all_copyBytesSkipIndicesRun (show 20 + 12 ≤ 32 by decide) (show 12 ≤ 28 by decide) skipEth_fuel]
  rw [Nat.sub_zero, hclear]
  constructor
  · intro h
    have := h.2.1
    omega
  · intro h
    refine ⟨by decide, ?_, applyLogicalCoordsRun_inBounds (by decide) (by decide),
      applyLogicalCoordsRun_inBounds (by decide) (by decide)⟩
    omega

theorem initNocTranslationRun_inBounds_iff {pcieInstance badGddr : ℕ} :
    All Access.InBounds (initNocTranslationRun behind pcieInstance badTensixCols badGddr skipEth) ↔
      (∀ i ∈ (bits badTensixCols).take 7, i < 14) ∧ (List.range 14).countP skipEth.getLsbD ≤ 2 := by
  rw [initNocTranslationRun, computeNocTranslationRun]
  simp only [all_bind, placeTensixRun_inBounds_iff, placeEthRun_inBounds_iff]
  constructor
  · intro h
    exact ⟨h.1.2.1, h.1.2.2.2.2.1⟩
  · intro h
    exact ⟨⟨makeIdentityRun_inBounds, h.1, placeGddrRun_inBounds badGddr,
      placePcieRun_inBounds pcieInstance, h.2, placeL2CpuRun_inBounds, placeSecurityRun_inBounds⟩,
      copyNoc0ToNoc1Run_inBounds, programNocTranslation_inBounds, all_pure⟩

end

-- ---
-- The handler

section

variable {behind : Table → ℕ → ℕ} {pci1Endpoint : Bool} {globals : Globals} {rq : DebugNocTranslationRqst}

theorem handler_inBounds_iff (haccepted : ¬ (rq.badGddr.toNat ≥ numGddr ∧ rq.badGddr.toNat ≠ noBadGddr))
    (hen : rq.enableTranslation = true) :
    All Access.InBounds (debugNocTranslationHandler behind pci1Endpoint globals rq) ↔
      (∀ i ∈ (bits rq.badTensixCols).take 7, i < 14) ∧ (List.range 14).countP rq.skipEth.getLsbD ≤ 2 := by
  rw [debugNocTranslationHandler, if_neg haccepted, all_bind, all_bind, if_pos hen, all_bind,
    initNocTranslationRun_inBounds_iff]
  exact ⟨fun h => h.2.2.1,
    fun h => ⟨clearNocTranslation_inBounds, programBroadcastExclusion_inBounds, h, all_pure⟩⟩

end

/-- **The requests that stay inside the tables**: those that are refused for their GDDR, or do not
enable translation, or have the first seven bad columns among the fourteen and skip at most two of
the fourteen Ethernet tiles. -/
theorem debug_noc_translation_in_bounds_iff (behind : Table → ℕ → ℕ) (pci1Endpoint : Bool)
    (globals : Globals) (rq : DebugNocTranslationRqst) :
    (∀ a ∈ (debugNocTranslationHandler behind pci1Endpoint globals rq).events, a.InBounds) ↔
      (rq.badGddr.toNat ≥ numGddr ∧ rq.badGddr.toNat ≠ noBadGddr) ∨ rq.enableTranslation = false ∨
      ((∀ i ∈ (bits rq.badTensixCols).take 7, i < 14) ∧
        (List.range 14).countP rq.skipEth.getLsbD ≤ 2) := by
  show All Access.InBounds _ ↔ _
  by_cases hrefused : rq.badGddr.toNat ≥ numGddr ∧ rq.badGddr.toNat ≠ noBadGddr
  · rw [debugNocTranslationHandler, if_pos hrefused]
    exact iff_of_true all_pure (Or.inl hrefused)
  · rw [or_iff_right hrefused]
    cases hen : rq.enableTranslation with
    | true =>
      rw [handler_inBounds_iff hrefused hen]
      simp
    | false =>
      refine iff_of_true ?_ (Or.inl rfl)
      rw [debugNocTranslationHandler, if_neg hrefused, all_bind, all_bind, if_neg (by simp [hen])]
      exact ⟨clearNocTranslation_inBounds, programBroadcastExclusion_inBounds, all_pure⟩

def debugRequest (badTensixCols : BitVec 16) (skipEthLow : BitVec 8) : DebugNocTranslationRqst where
  enableTranslation := true
  pcieInstance := false
  pcieInstanceOverride := true
  badTensixCols := badTensixCols
  badGddr := 255
  skipEthLow := skipEthLow
  skipEthHi := 0

/-- **Reads behind the table.** A bad column 14 and three Ethernet tiles to skip lead the
loops behind the fourteen columns. -/
theorem debug_noc_translation_reads_behind :
    ¬ All Access.InBounds (debugNocTranslationHandler (fun _ _ => 0) false
      ⟨⟨clearedTranslation, clearedTranslation⟩, false⟩ (debugRequest 0x4000#16 0x60#8)) ∧
    ¬ All Access.InBounds (debugNocTranslationHandler (fun _ _ => 0) false
      ⟨⟨clearedTranslation, clearedTranslation⟩, false⟩ (debugRequest 0 0x70#8)) := by
  rw [handler_inBounds_iff (by decide) rfl, handler_inBounds_iff (by decide) rfl]
  decide

end SystemFirmware.Noc
