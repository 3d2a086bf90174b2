import SystemFirmware.JtagBootrom.Definitions

/-!
# JtagBootrom — the check of the patch

The reset sequence writes the patch from 0x80 on, but `jtag_bootrom_verify` reads it back
from address 0: word `i` of the patch is compared with word `i` of the memory, which is
word `i - 32` of the patch, and for the first 32 words something that was there before
(`verify_checks_shifted`).
-/

namespace SystemFirmware.JtagBootrom

open Lib

-- ---
-- The memory after the patch

def InRam (a : UInt32) : Prop := a.toNat < 0x80000000

def Fits (patch : List UInt32) : Prop := 0x80 + 4 * patch.length ≤ 0x80000000

section

variable {cfg : Config} {patch : List UInt32} {c : Chip} {a r v : UInt32} {i : ℕ}

theorem axiWrite32_of_ne (h : a ≠ r) : (c.axiWrite32 r v).axi a = c.axi a :=
  Function.update_of_ne h _ _

theorem InRam.ne_register (ha : InRam a) (hr : 0x80000000 ≤ r.toNat) : a ≠ r := by
  rintro rfl
  exact absurd ha (Nat.not_lt.mpr hr)

theorem axiWrite32_inRam (ha : InRam a) (hr : 0x80000000 ≤ r.toNat) :
    (c.axiWrite32 r v).axi a = c.axi a := axiWrite32_of_ne (ha.ne_register hr)

theorem patchOffset_axi (hload : cfg.loadBootrom = true) (ha : InRam a) (start : UInt32) :
    (patchOffset cfg patch start c).2.axi a = scatter (wordAddr start) 0 patch c.axi a := by
  rw [patchOffset, if_pos hload]
  dsimp only
  rw [axiWrite32_inRam ha (by decide), Chip.axiBlockWrite]
  apply scatter_congr
  -- the other registers
  iterate 4 rw [axiWrite32_inRam ha (by decide)]

theorem Fits.toNat_patched (hfit : Fits patch) (hi : i < patch.length) :
    (wordAddr 0x80 i).toNat = 0x80 + 4 * i := by
  unfold Fits at hfit
  exact toNat_wordAddr (show 0x80 + 4 * i < 2 ^ 32 by omega)

theorem Fits.toNat_checked (hfit : Fits patch) (hi : i < patch.length) :
    (wordAddr 0 i).toNat = 4 * i := by
  unfold Fits at hfit
  rw [toNat_wordAddr (show 0 + 4 * i < 2 ^ 32 by omega)]
  exact Nat.zero_add _

theorem Fits.inRam_patched (hfit : Fits patch) (hi : i < patch.length) :
    InRam (wordAddr 0x80 i) := by
  rw [InRam, hfit.toNat_patched hi]
  unfold Fits at hfit
  omega

theorem patchOffset_patched (hload : cfg.loadBootrom = true) (hfit : Fits patch)
    (hi : i < patch.length) :
    (patchOffset cfg patch 0x80 c).2.axi (wordAddr 0x80 i) = patch[i] := by
  have hspace : ∀ j < patch.length, (0x80 : UInt32).toNat + 4 * j < 2 ^ 32 := by
    intro j hj
    show 0x80 + 4 * j < 2 ^ 32
    unfold Fits at hfit
    omega
  have hinj : ∀ j < patch.length, ∀ k < patch.length,
      wordAddr 0x80 (0 + j) = wordAddr 0x80 (0 + k) → j = k := by
    intro j hj k hk heq
    rw [Nat.zero_add, Nat.zero_add] at heq
    exact wordAddr_inj (hspace j hj) (hspace k hk) heq
  have hplace : scatter (wordAddr 0x80) 0 patch c.axi (wordAddr 0x80 (0 + i)) = patch[i] :=
    scatter_place hinj hi
  rw [Nat.zero_add] at hplace
  rw [patchOffset_axi hload (hfit.inRam_patched hi), hplace]

theorem patchOffset_below (hload : cfg.loadBootrom = true) (hfit : Fits patch)
    (ha : a.toNat < 0x80) : (patchOffset cfg patch 0x80 c).2.axi a = c.axi a := by
  have hram : InRam a := show a.toNat < 0x80000000 by omega
  rw [patchOffset_axi hload hram]
  apply scatter_of_ne
  intro j hj heq
  have hnat := hfit.toNat_patched hj
  rw [Nat.zero_add] at heq
  rw [heq] at hnat
  omega

-- ---
-- The check

theorem verifyLoop_eq_zero_iff (words : List UInt32) (i : ℕ) (c : Chip) :
    (verifyLoop i words c).1 = 0 ↔
      ∀ j (hj : j < words.length), c.axi (wordAddr 0 (i + j)) = words[j] := by
  induction words generalizing i with
  | nil =>
    refine iff_of_true rfl ?_
    intro j hj
    exact absurd hj (Nat.not_lt_zero j)
  | cons word rest ih =>
    rw [verifyLoop]
    by_cases hword : word = c.axi (wordAddr 0 i)
    · rw [if_neg (not_not.mpr hword), ih]
      constructor
      · intro hrest j hj
        cases j with
        | zero => exact hword.symm
        | succ j =>
          have hplace : i + (j + 1) = i + 1 + j := by omega
          rw [hplace]
          exact hrest j (Nat.lt_of_succ_lt_succ hj)
      · intro hall j hj
        have hplace : i + 1 + j = i + (j + 1) := by omega
        rw [hplace]
        exact hall (j + 1) (Nat.succ_lt_succ hj)
    · rw [if_pos hword]
      refine iff_of_false Int.one_ne_zero ?_
      intro hall
      exact hword (hall 0 (Nat.succ_pos _)).symm

/-- **The check compares word `i` of the patch with the word at `4 * i`.** -/
theorem verify_eq_zero_iff (hverify : cfg.verifyWrite = true) :
    (verify cfg patch c).1 = 0 ↔
      ∀ i (hi : i < patch.length), c.axi (wordAddr 0 i) = patch[i] := by
  rw [verify, if_pos hverify, verifyLoop_eq_zero_iff]
  simp only [Nat.zero_add]

theorem wordAddr_checked (i : ℕ) : wordAddr 0 (i + 32) = wordAddr 0x80 i := by
  rw [wordAddr, wordAddr, Nat.mul_add, UInt32.ofNat_add, UInt32.zero_add, UInt32.add_comm]
  rfl

/-- The first 32 words of the patch were in the memory from address 0 on, and the patch repeats
them. -/
def Shifted (patch : List UInt32) (c : Chip) : Prop :=
  (∀ i (hi : i < patch.length), i < 32 → c.axi (wordAddr 0 i) = patch[i]) ∧
    ∀ i (hi : i + 32 < patch.length), patch[i + 32] = patch[i]

theorem patchOffset_checked_iff (hload : cfg.loadBootrom = true) (hfit : Fits patch) :
    (∀ i (hi : i < patch.length),
      (patchOffset cfg patch 0x80 c).2.axi (wordAddr 0 i) = patch[i]) ↔ Shifted patch c := by
  have hlow : ∀ i < patch.length, i < 32 →
      (patchOffset cfg patch 0x80 c).2.axi (wordAddr 0 i) = c.axi (wordAddr 0 i) := by
    intro i hi hlt
    apply patchOffset_below hload hfit
    rw [hfit.toNat_checked hi]
    omega
  have hhigh : ∀ i (hi : i + 32 < patch.length),
      (patchOffset cfg patch 0x80 c).2.axi (wordAddr 0 (i + 32)) = patch[i] := by
    intro i hi
    rw [wordAddr_checked]
    exact patchOffset_patched hload hfit (by omega)
  constructor
  · intro hall
    constructor
    · intro i hi hlt
      rw [← hlow i hi hlt]
      exact hall i hi
    · intro i hi
      rw [← hhigh i hi]
      exact (hall (i + 32) hi).symm
  · intro hshifted i hi
    by_cases hlt : i < 32
    · rw [hlow i hi hlt]
      exact hshifted.1 i hi hlt
    · obtain ⟨j, rfl⟩ := Nat.exists_eq_add_of_le' (Nat.not_lt.mp hlt)
      rw [hhigh j hi]
      exact (hshifted.2 j hi).symm

theorem patchAndVerify_of_unread (hload : cfg.loadBootrom = true) (hverify : cfg.verifyWrite = true)
    (hfit : Fits patch) {between : Chip → Chip}
    (hread : ∀ i < patch.length, (between (patchOffset cfg patch 0x80 c).2).axi (wordAddr 0 i) =
      (patchOffset cfg patch 0x80 c).2.axi (wordAddr 0 i)) :
    (patchAndVerify cfg patch between c).1 = 0 ↔ Shifted patch c := by
  rw [patchAndVerify, verify_eq_zero_iff hverify, ← patchOffset_checked_iff hload hfit]
  constructor
  · intro hall i hi
    rw [← hread i hi]
    exact hall i hi
  · intro hall i hi
    rw [hread i hi]
    exact hall i hi

theorem axiWrite32_unread (hfit : Fits patch) {j : ℕ} (hj : j < patch.length)
    (hlast : patch.length ≤ j + 32) (hi : i < patch.length) :
    (c.axiWrite32 (wordAddr 0x80 j) v).axi (wordAddr 0 i) = c.axi (wordAddr 0 i) := by
  apply axiWrite32_of_ne
  intro heq
  have hnat := congrArg UInt32.toNat heq
  rw [hfit.toNat_checked hi, hfit.toNat_patched hj] at hnat
  omega

end

-- ---
-- The sequence

/-- **The check looks at the wrong place.** With the patch loaded and left alone, it passes
exactly if the first 32 words of the patch were at address 0 on already and each later word is
the one 32 words before it. Then a change is found, but for the last 32 words, which are not
read. -/
theorem verify_checks_shifted {cfg : Config} {patch : List UInt32} (c : Chip)
    (hload : cfg.loadBootrom = true) (hverify : cfg.verifyWrite = true) (hfit : Fits patch) :
    ((patchAndVerify cfg patch id c).1 = 0 ↔ Shifted patch c) ∧
    (Shifted patch c → ∀ between i, ∀ hi : i + 32 < patch.length,
      (between (patchOffset cfg patch 0x80 c).2).axi (wordAddr 0x80 i) ≠ patch[i] →
        (patchAndVerify cfg patch between c).1 ≠ 0) ∧
    ∀ j v, j < patch.length → patch.length ≤ j + 32 →
      ((patchAndVerify cfg patch (·.axiWrite32 (wordAddr 0x80 j) v) c).1 = 0 ↔
        Shifted patch c) := by
  refine ⟨?_, ?_, ?_⟩
  · exact patchAndVerify_of_unread hload hverify hfit fun i hi => rfl
  · intro hshifted between i hi hchanged hpass
    rw [patchAndVerify, verify_eq_zero_iff hverify] at hpass
    have hread := hpass (i + 32) hi
    rw [wordAddr_checked, hshifted.2 i hi] at hread
    exact hchanged hread
  · intro j v hj hlast
    exact patchAndVerify_of_unread hload hverify hfit fun i hi =>
      axiWrite32_unread hfit hj hlast hi

def fullConfig : Config := ⟨true, true⟩

def uniformChip (value : UInt32) : Chip := ⟨fun _ => value, false⟩

/-- 33 equal words where they already are: the check passes, and finds a change of the first. -/
theorem verify_uniform_patch :
    (patchAndVerify fullConfig (List.replicate 33 7) id (uniformChip 7)).1 = 0 ∧
      (patchAndVerify fullConfig (List.replicate 33 7) (·.axiWrite32 0x80 8) (uniformChip 7)).1 ≠
        0 := by
  have hfit : Fits (List.replicate 33 7) := by
    unfold Fits
    decide
  have hshifted : Shifted (List.replicate 33 7) (uniformChip 7) := by
    constructor
    · intro i hi _
      rw [List.getElem_replicate]
      rfl
    · intro i hi
      rw [List.getElem_replicate, List.getElem_replicate]
  obtain ⟨hpass, hfind, -⟩ :=
    @verify_checks_shifted fullConfig _ (uniformChip 7) rfl rfl hfit
  refine ⟨hpass.mpr hshifted, hfind hshifted _ 0 (by decide) ?_⟩
  rw [List.getElem_replicate]
  decide

/-- A patch of one word: the check fails; and where the word at address 0 happens to be right, it
passes with the patch changed. -/
theorem verify_one_word :
    (patchAndVerify fullConfig [1] id (uniformChip 0)).1 = 1 ∧
      (patchAndVerify fullConfig [0] id (uniformChip 0)).1 = 0 ∧
      (patchAndVerify fullConfig [0] (·.axiWrite32 0x80 1) (uniformChip 0)).1 = 0 := by
  decide

end SystemFirmware.JtagBootrom
