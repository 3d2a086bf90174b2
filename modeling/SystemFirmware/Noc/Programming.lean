import SystemFirmware.Noc.TableAccess

/-!
# NOC translation — programming the nodes

`ProgramNocTranslation` of `lib/tenstorrent/bh_arc/noc_init.c`, as the registers that it
writes: which interfaces it visits, in which order, and what it writes to each of them
(`noc_translation_programmed`). A table goes to six registers with six fields of five bits
each.
-/

namespace SystemFirmware.Noc

open Lib

/-- A network interface: the physical position of its tile, and its network. -/
structure Niu where
  px : ℕ
  py : ℕ
  nocId : ℕ
  deriving DecidableEq

/-- `PhysXToNoc`. -/
def ringX (px nocId : ℕ) : ℕ :=
  let noc0X := kPhysXToNoc0.getD px 0
  if nocId = 0 then noc0X else nocXSize - noc0X - 1

/-- `PhysYToNoc`. -/
def ringY (py nocId : ℕ) : ℕ :=
  let noc0Y := kPhysYToNoc0.getD py 0
  if nocId = 0 then noc0Y else nocYSize - noc0Y - 1

/-- The interfaces that `ProgramNocTranslationSingleTile` visits. -/
def singleTile (noc0X noc0Y : ℕ) : List Niu :=
  (List.range numNocs).map fun nocId =>
    ⟨kNoc0XToPhys.getD noc0X 0, kNoc0YToPhys.getD noc0Y 0, nocId⟩

/-- The interfaces that `ProgramNocTranslation` visits. -/
def visits (enabling : Bool) : List Niu :=
  ((List.range nocYSize).flatMap fun py => (List.range nocXSize).flatMap fun px =>
    if enabling ∧ ringX px 0 = 8 ∧ ringY py 0 = 0 then []
    else singleTile (ringX px 0) (ringY py 0)) ++
  if enabling then singleTile 8 0 else []

def packEntry (table : ℕ → ℕ) (packed : ℕ → BitVec 32) (i : ℕ) : ℕ → BitVec 32 :=
  let index := i / nocTranslateTableXYSize
  let shift := i % nocTranslateTableXYSize * 5
  Function.update packed index (packed index ||| BitVec.ofNat 32 (table i) <<< shift)

/-- `packed_x` or `packed_y`. -/
def packTable (table : ℕ → ℕ) : ℕ → BitVec 32 :=
  (List.range preTranslationSize).foldl (packEntry table) fun _ => 0#32

def unpack (word : BitVec 32) (i : ℕ) : BitVec 5 := word.extractLsb' (i * 5) 5

def nocXIdTranslateTable (n : ℕ) : ℕ := n + 0x6

def nocYIdTranslateTable (n : ℕ) : ℕ := n + 0xC

def nocIdLogical : ℕ := 0x12

/-- What is written to an interface whose `NIU_CFG_0` is `niuCfg0`: register and value. -/
def writes (nt : NocTranslation) (niuCfg0 : BitVec 32) (ringX ringY : ℕ) :
    List (ℕ × BitVec 32) :=
  (if !nt.translateEn then [(0, clearBit niuCfg0 14)] else []) ++
  [(0x14, nt.translateColMask), (0x15, nt.translateRowMask), (5 + 0x16, 0),
    (nocIdLogical, (nt.logicalCoords ringX ringY).toBitVec.setWidth 32)] ++
  ((List.range nocTranslateTableXYSize).flatMap fun i =>
    [(nocXIdTranslateTable i, packTable nt.translateTableX i),
      (nocYIdTranslateTable i, packTable nt.translateTableY i)]) ++
  if nt.translateEn then [(0, setBit niuCfg0 14)] else []

/-- `ProgramNocTranslation`: each interface with what is written to it. -/
def programmed (translation : Translations) (niuCfg0 : Niu → BitVec 32) :
    List (Niu × List (ℕ × BitVec 32)) :=
  (visits translation.noc0.translateEn).map fun niu =>
    (niu, writes (translation.get niu.nocId) (niuCfg0 niu) (ringX niu.px niu.nocId)
      (ringY niu.py niu.nocId))

def WrittenOnce (ws : List (ℕ × BitVec 32)) (reg : ℕ) (value : BitVec 32) : Prop :=
  ws.filter (fun w => w.1 = reg) = [(reg, value)]

-- ---
-- The visits

/-- The interfaces in the order of the loops. -/
def Niu.number (n : Niu) : ℕ := (n.py * nocXSize + n.px) * numNocs + n.nocId

theorem visits_bounds : ∀ enabling, ∀ n ∈ visits enabling,
    n.px < nocXSize ∧ n.py < nocYSize ∧ n.nocId < numNocs := by
  decide +kernel

theorem visits_numbers : ∀ enabling, ((visits enabling).map Niu.number).Perm (List.range 408)
  | false => by
    rw [show (visits false).map Niu.number = List.range 408 by decide +kernel]
  | true => by
    rw [show (visits true).map Niu.number =
        List.range 30 ++ (List.range' 32 376 ++ List.range' 30 2) by decide +kernel,
      show List.range 408 = List.range 30 ++ (List.range' 30 2 ++ List.range' 32 376) by
        decide +kernel]
    exact List.perm_append_comm.append_left _

theorem visits_nodup (enabling : Bool) : (visits enabling).Nodup :=
  ((visits_numbers enabling).nodup_iff.mpr List.nodup_range).of_map _

theorem mem_visits {enabling : Bool} {n : Niu} : n ∈ visits enabling ↔
    n.px < nocXSize ∧ n.py < nocYSize ∧ n.nocId < numNocs := by
  refine ⟨visits_bounds enabling n, fun h => ?_⟩
  have hlt : n.number < 408 := by
    simp only [nocXSize, nocYSize, numNocs, Niu.number] at h ⊢
    omega
  obtain ⟨m, hm, hnum⟩ := List.mem_map.mp
    ((visits_numbers enabling).mem_iff.mpr (List.mem_range.mpr hlt))
  have hbounds := visits_bounds enabling m hm
  obtain ⟨px, py, nocId⟩ := m
  obtain ⟨px', py', nocId'⟩ := n
  simp only [nocXSize, nocYSize, numNocs, Niu.number] at h hbounds hnum
  obtain rfl : nocId = nocId' := by omega
  obtain rfl : px = px' := by omega
  obtain rfl : py = py' := by omega
  exact hm

theorem visits_true : (∀ n ∈ (visits true).take 406, (ringX n.px 0, ringY n.py 0) ≠ (8, 0)) ∧
    ∀ n ∈ (visits true).drop 406, (ringX n.px 0, ringY n.py 0) = (8, 0) := by
  decide +kernel

-- ---
-- Packing

theorem getLsbD_packEntry (table : ℕ → ℕ) (word bit : ℕ) (packed : ℕ → BitVec 32) (i : ℕ) :
    (packEntry table packed i word).getLsbD bit = ((packed word).getLsbD bit ||
      (decide (i / nocTranslateTableXYSize = word) &&
        (BitVec.ofNat 32 (table i) <<< (i % nocTranslateTableXYSize * 5)).getLsbD bit)) := by
  unfold packEntry
  by_cases h : i / nocTranslateTableXYSize = word
  · subst h
    simp
  · simp [h, Function.update_of_ne (Ne.symm h)]

theorem unpack_packTable {table : ℕ → ℕ} (h : ∀ i < preTranslationSize, table i < 2 ^ 5) {i : ℕ}
    (hi : i < preTranslationSize) :
    (unpack (packTable table (i / nocTranslateTableXYSize)) (i % nocTranslateTableXYSize)).toNat =
      table i := by
  have heq : unpack (packTable table (i / nocTranslateTableXYSize))
      (i % nocTranslateTableXYSize) = BitVec.ofNat 5 (table i) := by
    apply BitVec.eq_of_getLsbD_eq
    intro bit hbit
    have hany := foldl_any (fun packed : ℕ → BitVec 32 => (packed _).getLsbD _)
      (getLsbD_packEntry table (i / nocTranslateTableXYSize)
        (i % nocTranslateTableXYSize * 5 + bit)) (fun _ => 0#32) (List.range preTranslationSize)
    rw [unpack, BitVec.getLsbD_extractLsb', packTable, hany, Bool.eq_iff_iff]
    simp only [nocTranslateTableXYSize, preTranslationSize] at hi h ⊢
    simp only [hbit, decide_true, Bool.true_and, Nat.zero_testBit, Bool.and_false, Bool.false_or, List.any_eq_true,
      List.mem_range, Bool.and_eq_true, decide_eq_true_eq, BitVec.getLsbD_shiftLeft,
      BitVec.getLsbD_ofNat, Bool.not_eq_true', decide_eq_false_iff_not]
    constructor
    · rintro ⟨a, ha, hword, ⟨-, hge⟩, -, hset⟩
      have hfield : ¬ a % 6 < i % 6 := fun hlt => by
        have hsmall := (h a ha).trans_le (Nat.pow_le_pow_right (show 0 < 2 by decide)
          (show 5 ≤ i % 6 * 5 + bit - a % 6 * 5 by omega))
        rw [Nat.testBit_lt_two_pow hsmall] at hset
        cases hset
      have hword := of_decide_eq_true hword
      obtain rfl : a = i := by omega
      rwa [Nat.add_sub_cancel_left] at hset
    · intro hset
      refine ⟨i, hi, decide_eq_true rfl, ⟨by omega, by omega⟩, by omega, ?_⟩
      rwa [Nat.add_sub_cancel_left]
  rw [heq, BitVec.toNat_ofNat, Nat.mod_eq_of_lt (h i hi)]

-- ---
-- The registers

theorem writes_tables (nt : NocTranslation) (niuCfg0 : BitVec 32) (x y : ℕ) {i : ℕ}
    (hi : i < nocTranslateTableXYSize) :
    WrittenOnce (writes nt niuCfg0 x y) (nocXIdTranslateTable i) (packTable nt.translateTableX i) ∧
    WrittenOnce (writes nt niuCfg0 x y) (nocYIdTranslateTable i)
      (packTable nt.translateTableY i) := by
  unfold WrittenOnce writes nocTranslateTableXYSize at *
  obtain rfl | rfl | rfl | rfl | rfl | rfl : i = 0 ∨ i = 1 ∨ i = 2 ∨ i = 3 ∨ i = 4 ∨ i = 5 := by
    omega
  all_goals cases nt.translateEn <;> exact ⟨rfl, rfl⟩

theorem writes_logical (nt : NocTranslation) (niuCfg0 : BitVec 32) (x y : ℕ) :
    WrittenOnce (writes nt niuCfg0 x y) nocIdLogical ((nt.logicalCoords x y).toBitVec.setWidth 32) := by
  unfold WrittenOnce writes
  cases nt.translateEn <;> rfl

/-- Every interface is programmed once, the ARC's last, with the tables and the logical coordinate
of its network. -/
theorem noc_translation_programmed (translation : Translations) (niuCfg0 : Niu → BitVec 32)
    (hx : ∀ nocId, ∀ i < 32, (translation.get nocId).translateTableX i < 32)
    (hy : ∀ nocId, ∀ i < 32, (translation.get nocId).translateTableY i < 32) :
    ((programmed translation niuCfg0).map Prod.fst).Nodup ∧
    (∀ n, n ∈ (programmed translation niuCfg0).map Prod.fst ↔
      n.px < nocXSize ∧ n.py < nocYSize ∧ n.nocId < numNocs) ∧
    (translation.noc0.translateEn → ∃ before last,
      (programmed translation niuCfg0).map Prod.fst = before ++ last ∧
      (∀ n ∈ before, (ringX n.px 0, ringY n.py 0) ≠ (8, 0)) ∧
      ∀ n ∈ last, (ringX n.px 0, ringY n.py 0) = (8, 0)) ∧
    ∀ p ∈ programmed translation niuCfg0,
      (∀ i < 32, ∃ wordX wordY,
        WrittenOnce p.2 (nocXIdTranslateTable (i / 6)) wordX ∧
        (unpack wordX (i % 6)).toNat = (translation.get p.1.nocId).translateTableX i ∧
        WrittenOnce p.2 (nocYIdTranslateTable (i / 6)) wordY ∧
        (unpack wordY (i % 6)).toNat = (translation.get p.1.nocId).translateTableY i) ∧
      WrittenOnce p.2 nocIdLogical (((translation.get p.1.nocId).logicalCoords
        (ringX p.1.px p.1.nocId) (ringY p.1.py p.1.nocId)).toBitVec.setWidth 32) := by
  have hfst : (programmed translation niuCfg0).map Prod.fst =
      visits translation.noc0.translateEn := by
    rw [programmed, List.map_map]
    exact List.map_id _
  rw [hfst]
  refine ⟨visits_nodup _, fun _ => mem_visits, fun hen => ?_, fun p hp => ?_⟩
  · rw [hen]
    exact ⟨_, _, (List.take_append_drop 406 _).symm, visits_true⟩
  · obtain ⟨n, -, rfl⟩ := List.mem_map.mp hp
    refine ⟨fun i hi => ?_, writes_logical ..⟩
    obtain ⟨hwx, hwy⟩ := writes_tables (translation.get n.nocId) (niuCfg0 n) (ringX n.px n.nocId)
      (ringY n.py n.nocId) (Nat.div_lt_of_lt_mul (show i < 6 * 6 by omega))
    exact ⟨_, _, hwx, unpack_packTable (hx _) hi, hwy, unpack_packTable (hy _) hi⟩

theorem noc_translation_programmed_identity :
    ((programmed ⟨makeIdentity, copyNoc0ToNoc1 makeIdentity⟩ fun _ => 0).map Prod.fst).Nodup :=
  (noc_translation_programmed _ _ (fun nocId => by unfold Translations.get; split <;> decide)
    fun nocId => by unfold Translations.get; split <;> decide).1

end SystemFirmware.Noc
