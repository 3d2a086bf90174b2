import Mathlib.Algebra.Ring.Nat
import SystemFirmware.Dvfs.Definitions

/-!
# DVFS — no undervolting at any hardware step

`DVFSChange` lowers the frequency before the voltage and raises it after the voltage. In
between, every rate on the way of `set_rate` is at most the old rate or the target: the
feedback divider is rounded down, and it moves by one at a time (`dvfs_no_undervolt`).

`DecreaseAiclk` compares with `curr_freq` and not with the rate in the PLL, which can be
lower. It can then raise the rate before the voltage follows (`decrease_undervolts`).
-/

namespace SystemFirmware.Dvfs

open Lib

-- ---
-- Rates

section

variable {pll : Pll} {freq targetFbdiv : UInt32}

theorem extPostdiv_le : pll.extPostdiv.toNat ≤ 512 := by
  have hlt := pll.postdiv0.toNat_lt
  have hsucc : (pll.postdiv0.toUInt32 + 1).toNat = pll.postdiv0.toNat + 1 := by
    rw [UInt32.toNat_add, UInt8.toNat_toUInt32, UInt32.toNat_one]
    omega
  unfold Pll.extPostdiv
  dsimp only
  split_ifs
  · decide
  · omega
  · rw [UInt32.toNat_mul, hsucc, show (2 : UInt32).toNat = 2 from rfl]
    omega
  · decide

theorem toNat_getFreq (hon : pll.extPostdiv ≠ 0) :
    pll.getFreq.toNat = 50 * pll.fbdiv.toNat / (pll.refdiv.toNat * pll.extPostdiv.toNat) := by
  have hpost := @extPostdiv_le pll
  have href := pll.refdiv.toNat_lt
  have hfb := pll.fbdiv.toNat_lt
  have hprod : pll.refdiv.toNat * pll.extPostdiv.toNat ≤ 255 * 512 :=
    Nat.mul_le_mul (by omega) hpost
  rw [Pll.getFreq, if_neg hon, UInt32.toNat_div, UInt32.toNat_mul, UInt32.toNat_mul,
    UInt16.toNat_toUInt32, UInt8.toNat_toUInt32, show refclkRate.toNat = 50 from rfl,
    Nat.mod_eq_of_lt (by omega), Nat.mod_eq_of_lt (by omega)]

/-- A rate is at most the frequency whose divider it does not exceed. An overflow in
`calculate_fbdiv` only makes the divider smaller. -/
theorem getFreq_le (h : pll.fbdiv.toNat ≤ (pll.calculateFbdiv freq).toNat) :
    pll.getFreq.toNat ≤ freq.toNat := by
  by_cases hon : pll.extPostdiv = 0
  · rw [Pll.getFreq, if_pos hon]
    exact Nat.zero_le _
  · rw [Pll.calculateFbdiv, if_neg hon, UInt32.toNat_div, UInt32.toNat_mul, UInt32.toNat_mul,
      UInt8.toNat_toUInt32, show refclkRate.toNat = 50 from rfl] at h
    have hwrap : freq.toNat * pll.refdiv.toNat % 2 ^ 32 * pll.extPostdiv.toNat % 2 ^ 32 ≤
        freq.toNat * pll.refdiv.toNat * pll.extPostdiv.toNat :=
      Nat.le_trans (Nat.mod_le _ _) (Nat.mul_le_mul_right _ (Nat.mod_le _ _))
    have hfloor : 50 * pll.fbdiv.toNat ≤ freq.toNat * (pll.refdiv.toNat * pll.extPostdiv.toNat) := by
      rw [← Nat.mul_assoc]
      omega
    rw [toNat_getFreq hon]
    exact Nat.div_le_of_le_mul (Nat.mul_comm _ freq.toNat ▸ hfloor)

def Pll.SameDivs (pll pll' : Pll) : Prop :=
  pll.refdiv = pll'.refdiv ∧ pll.extPostdiv = pll'.extPostdiv

theorem getFreq_mono {pll' : Pll} (hsame : pll.SameDivs pll') (h : pll.fbdiv.toNat ≤ pll'.fbdiv.toNat) :
    pll.getFreq.toNat ≤ pll'.getFreq.toNat := by
  by_cases hon : pll.extPostdiv = 0
  · rw [Pll.getFreq, if_pos hon]
    exact Nat.zero_le _
  · rw [toNat_getFreq hon, toNat_getFreq (hsame.2 ▸ hon), hsame.1, hsame.2]
    exact Nat.div_le_div_right (Nat.mul_le_mul_left _ h)

theorem stepFbdiv_sameDivs : (pll.stepFbdiv targetFbdiv).SameDivs pll := by
  unfold Pll.stepFbdiv
  split <;> exact ⟨rfl, rfl⟩

theorem calculateFbdiv_congr {pll' : Pll} (hsame : pll.SameDivs pll') :
    pll.calculateFbdiv freq = pll'.calculateFbdiv freq := by
  rw [Pll.calculateFbdiv, Pll.calculateFbdiv, hsame.1, hsame.2]

theorem getFreq_stepFbdiv (h : targetFbdiv = pll.calculateFbdiv freq)
    (hne : pll.fbdiv.toUInt32 ≠ targetFbdiv) :
    (pll.stepFbdiv targetFbdiv).getFreq.toNat ≤ freq.toNat ∨
      (pll.stepFbdiv targetFbdiv).getFreq.toNat ≤ pll.getFreq.toNat := by
  have hlt := pll.fbdiv.toNat_lt
  by_cases hup : targetFbdiv > pll.fbdiv.toUInt32
  · left
    apply getFreq_le
    rw [calculateFbdiv_congr stepFbdiv_sameDivs, ← h, Pll.stepFbdiv, if_pos hup]
    -- beyond 16 bits the divider starts over from 0
    rw [gt_iff_lt, UInt32.lt_iff_toNat_lt, UInt16.toNat_toUInt32] at hup
    show (pll.fbdiv + 1).toNat ≤ _
    rw [UInt16.toNat_add, UInt16.toNat_one]
    omega
  · right
    refine getFreq_mono stepFbdiv_sameDivs ?_
    have hdown : targetFbdiv.toNat < pll.fbdiv.toNat := by
      rw [gt_iff_lt, UInt32.lt_iff_toNat_lt, UInt16.toNat_toUInt32] at hup
      rw [Ne, ← UInt32.toNat_inj, UInt16.toNat_toUInt32] at hne
      omega
    rw [Pll.stepFbdiv, if_neg hup]
    show (pll.fbdiv - 1).toNat ≤ _
    rw [UInt16.toNat_sub, UInt16.toNat_one]
    omega

end

-- ---
-- Voltages

def Supports (vfCurve : UInt32 → UInt32) (vddMax voltage freq : UInt32) : Prop :=
  min vddMax.toNat (vfCurve freq).toNat ≤ voltage.toNat

instance {vfCurve : UInt32 → UInt32} {vddMax voltage freq : UInt32} :
    Decidable (Supports vfCurve vddMax voltage freq) := Nat.decLe _ _

theorem toNat_minU32 {a b : UInt32} : (minU32 a b).toNat = min a.toNat b.toNat := by
  unfold minU32
  split
  · rename_i hlt
    rw [UInt32.lt_iff_toNat_lt] at hlt
    omega
  · rename_i hge
    rw [UInt32.lt_iff_toNat_lt] at hge
    omega

theorem le_clamp {val low high : UInt32} :
    min high.toNat val.toNat ≤ (clamp val low high).toNat := by
  unfold clamp
  split
  · rename_i hle
    rw [UInt32.le_iff_toNat_le] at hle
    omega
  · split <;> omega

theorem le_highest (a : VoltageArbiter) : (a.reqVoltage .aiclk).toNat ≤ a.highest.toNat := by
  simp only [VoltageArbiter.highest, List.foldl_cons, List.foldl_nil, gt_iff_lt,
    UInt32.lt_iff_toNat_lt]
  split_ifs <;> omega

section

variable {vfCurve : UInt32 → UInt32} {vddMax voltage f g : UInt32}

theorem Supports.mono (hcurve : ∀ f g, f ≤ g → vfCurve f ≤ vfCurve g)
    (h : Supports vfCurve vddMax voltage g) (hle : f.toNat ≤ g.toNat) :
    Supports vfCurve vddMax voltage f := by
  have hvf := UInt32.le_iff_toNat_le.mp (hcurve f g (UInt32.le_iff_toNat_le.mpr hle))
  unfold Supports at h ⊢
  omega

theorem supports_targVoltage {a : VoltageArbiter} (hforced : a.forcedVoltage = 0) :
    Supports vfCurve a.vddMax
      ((a.request .aiclk (vfCurve f)).calculateTargVoltage).targVoltage f := by
  have hclamp := @le_clamp (vfCurve f) a.vddMin a.vddMax
  have hhighest := le_highest (a.request .aiclk (vfCurve f))
  have hreq : (a.request .aiclk (vfCurve f)).reqVoltage .aiclk =
      clamp (vfCurve f) a.vddMin a.vddMax := by simp [VoltageArbiter.request]
  have hunforced : ¬ (a.request .aiclk (vfCurve f)).forcedVoltage ≠ 0 := not_not.mpr hforced
  rw [hreq] at hhighest
  rw [VoltageArbiter.calculateTargVoltage, if_neg hunforced]
  show min a.vddMax.toNat (vfCurve f).toNat ≤ (minU32 _ a.vddMax).toNat
  rw [toNat_minU32]
  omega

end

-- ---
-- The invariant

def StageInv (vfCurve : UInt32 → UInt32) (s : World) : Prop :=
  let enough := Supports vfCurve s.arbiter.vddMax
  match s.pc with
  | .idle => s.pll.getFreq.toNat ≤ s.currFreq.toNat ∧ enough s.vcore s.currFreq
  | .decrease targetFbdiv =>
    targetFbdiv = s.pll.calculateFbdiv s.targFreq ∧ s.targFreq.toNat < s.currFreq.toNat ∧
      s.pll.getFreq.toNat ≤ s.currFreq.toNat ∧ enough s.vcore s.currFreq ∧
      enough s.arbiter.targVoltage s.targFreq
  | .voltageChange =>
    s.currFreq.toNat ≤ s.targFreq.toNat ∧ s.pll.getFreq.toNat ≤ s.currFreq.toNat ∧
      enough s.vcore s.currFreq ∧ enough s.arbiter.targVoltage s.targFreq
  | .increase targetFbdiv =>
    targetFbdiv = s.pll.calculateFbdiv s.targFreq ∧ s.pll.getFreq.toNat ≤ s.targFreq.toNat ∧
      enough s.vcore s.targFreq

structure Inv (vfCurve : UInt32 → UInt32) (s : World) : Prop where
  tracked : s.vcore = s.arbiter.currVoltage
  unforced : s.arbiter.forcedVoltage = 0
  stage : StageInv vfCurve s

section

variable {vfCurve : UInt32 → UInt32} {s t : World}

theorem dvfsChange_inv (h : Inv vfCurve s) (hpc : s.pc = .idle) (targFreq : UInt32) :
    Inv vfCurve (dvfsChange vfCurve s targFreq) := by
  have hstage := h.stage
  simp only [StageInv, hpc] at hstage
  obtain ⟨hrate, henough⟩ := hstage
  refine ⟨h.tracked, h.unforced, ?_⟩
  have htarg := @supports_targVoltage vfCurve targFreq s.arbiter h.unforced
  unfold StageInv dvfsChange
  by_cases hlt : targFreq < s.currFreq
  · simp only [if_pos hlt]
    exact ⟨trivial, UInt32.lt_iff_toNat_lt.mp hlt, hrate, henough, htarg⟩
  · simp only [if_neg hlt]
    rw [UInt32.lt_iff_toNat_lt] at hlt
    exact ⟨by omega, hrate, henough, htarg⟩

theorem increase_inv {targetFbdiv : UInt32} (h : Inv vfCurve s) (hpc : s.pc = .increase targetFbdiv)
    (hstep : step vfCurve s .hw = some t) : Inv vfCurve t := by
  have hstage := h.stage
  simp only [StageInv, hpc] at hstage
  obtain ⟨hfbdiv, hrate, henough⟩ := hstage
  simp only [step, hpc] at hstep
  split at hstep
  · rename_i hne
    rw [← Option.some.inj hstep]
    refine ⟨h.tracked, h.unforced, ?_, ?_, henough⟩
    · rw [calculateFbdiv_congr stepFbdiv_sameDivs]
      exact hfbdiv
    · show (s.pll.stepFbdiv targetFbdiv).getFreq.toNat ≤ s.targFreq.toNat
      rcases getFreq_stepFbdiv hfbdiv hne with hle | hle <;> omega
  · rw [← Option.some.inj hstep]
    exact ⟨h.tracked, h.unforced, hrate, henough⟩

variable (hcurve : ∀ f g, f ≤ g → vfCurve f ≤ vfCurve g)
include hcurve

theorem voltageChange_inv (h : Inv vfCurve s) (hpc : s.pc = .voltageChange) :
    Inv vfCurve (voltageChange s) := by
  have hstage := h.stage
  simp only [StageInv, hpc] at hstage
  obtain ⟨hle, hrate, -, htarg⟩ := hstage
  have hcurr := htarg.mono hcurve hle
  -- the two ways out of the call share their argument: the new voltage is the target
  obtain ⟨v, hv⟩ : ∃ v : World, v = voltageChange s := ⟨_, rfl⟩
  have hvcore : v.vcore = s.arbiter.targVoltage ∧ v.arbiter.currVoltage = s.arbiter.targVoltage := by
    rw [hv, voltageChange]
    split
    · exact ⟨rfl, rfl⟩
    · rename_i hsame
      have heq := not_not.mp hsame
      exact ⟨h.tracked.trans heq.symm, heq.symm⟩
  have hrest : v.pll = s.pll ∧ v.currFreq = s.currFreq ∧ v.targFreq = s.targFreq ∧
      v.arbiter.vddMax = s.arbiter.vddMax ∧ v.arbiter.forcedVoltage = s.arbiter.forcedVoltage ∧
      v.pc = if s.targFreq > s.currFreq then .increase (s.pll.calculateFbdiv s.targFreq)
        else .idle := by
    rw [hv, voltageChange]
    split <;> exact ⟨rfl, rfl, rfl, rfl, rfl, rfl⟩
  rw [← hv]
  obtain ⟨hpll, hcurrFreq, htargFreq, hmax, hforced, hpc'⟩ := hrest
  refine ⟨hvcore.1.trans hvcore.2.symm, hforced.trans h.unforced, ?_⟩
  unfold StageInv
  rw [hpc']
  by_cases hup : s.targFreq > s.currFreq
  · simp only [if_pos hup, hpll, htargFreq, hmax, hvcore.1]
    exact ⟨trivial, by omega, htarg⟩
  · simp only [if_neg hup, hpll, hcurrFreq, hmax, hvcore.1]
    exact ⟨hrate, hcurr⟩

theorem decrease_inv {targetFbdiv : UInt32} (h : Inv vfCurve s) (hpc : s.pc = .decrease targetFbdiv)
    (hstep : step vfCurve s .hw = some t) : Inv vfCurve t := by
  have hstage := h.stage
  simp only [StageInv, hpc] at hstage
  obtain ⟨hfbdiv, hlt, hrate, henough, htarg⟩ := hstage
  simp only [step, hpc] at hstep
  split at hstep
  · rename_i hne
    rw [← Option.some.inj hstep]
    refine ⟨h.tracked, h.unforced, ?_, hlt, ?_, henough, htarg⟩
    · rw [calculateFbdiv_congr stepFbdiv_sameDivs]
      exact hfbdiv
    · show (s.pll.stepFbdiv targetFbdiv).getFreq.toNat ≤ s.currFreq.toNat
      rcases getFreq_stepFbdiv hfbdiv hne with hle | hle <;> omega
  · rename_i hdone
    rw [← Option.some.inj hstep]
    refine ⟨h.tracked, h.unforced, Nat.le_refl _, ?_, henough.mono hcurve (Nat.le_of_lt hlt), htarg⟩
    refine getFreq_le ?_
    rw [← hfbdiv, ← not_not.mp hdone, UInt16.toNat_toUInt32]

theorem step_inv {a : Action} (h : Inv vfCurve s) (hstep : step vfCurve s a = some t) :
    Inv vfCurve t := by
  rcases a
  case dvfsChange targFreq =>
    simp only [step] at hstep
    split at hstep
    · rename_i hpc
      rw [← Option.some.inj hstep]
      exact dvfsChange_inv h hpc targFreq
    · simp at hstep
  case request voltage =>
    rw [← Option.some.inj hstep]
    exact ⟨h.tracked, h.unforced, h.stage⟩
  case hw =>
    rcases hpc : s.pc
    case idle => simp [step, hpc] at hstep
    case decrease targetFbdiv => exact decrease_inv hcurve h hpc hstep
    case voltageChange =>
      simp only [step, hpc] at hstep
      rw [← Option.some.inj hstep]
      exact voltageChange_inv hcurve h hpc
    case increase targetFbdiv => exact increase_inv h hpc hstep

theorem Inv.supports (h : Inv vfCurve s) :
    Supports vfCurve s.arbiter.vddMax s.vcore s.pll.getFreq := by
  have hstage := h.stage
  unfold StageInv at hstage
  rcases hpc : s.pc
  all_goals simp only [hpc] at hstage
  case idle => exact hstage.2.mono hcurve hstage.1
  case decrease => exact hstage.2.2.2.1.mono hcurve hstage.2.2.1
  case voltageChange => exact hstage.2.2.1.mono hcurve hstage.2.1
  case increase => exact hstage.2.2.mono hcurve hstage.2.1

end

-- ---
-- The main result

/-- **No undervolting.** If no voltage is forced and the core starts with enough voltage for
`curr_freq`, which the rate does not exceed, then it has enough for the rate after every hardware
step of every sequence of calls. -/
theorem dvfs_no_undervolt {vfCurve : UInt32 → UInt32} (hcurve : ∀ f g, f ≤ g → vfCurve f ≤ vfCurve g)
    {s t : World} {as : List Action} (hidle : s.pc = .idle)
    (htracked : s.vcore = s.arbiter.currVoltage) (hunforced : s.arbiter.forcedVoltage = 0)
    (hrate : s.pll.getFreq ≤ s.currFreq)
    (henough : Supports vfCurve s.arbiter.vddMax s.vcore s.currFreq)
    (hrun : exec (step vfCurve) s as = some t) :
    Supports vfCurve t.arbiter.vddMax t.vcore t.pll.getFreq := by
  have hstart : Inv vfCurve s := by
    refine ⟨htracked, hunforced, ?_⟩
    unfold StageInv
    rw [hidle]
    exact ⟨UInt32.le_iff_toNat_le.mp hrate, henough⟩
  have hkeep : ∀ s a t, Inv vfCurve s → step vfCurve s a = some t → Inv vfCurve t :=
    fun _ _ _ h hstep => step_inv hcurve h hstep
  exact (exec_invariant hkeep hstart hrun).supports hcurve

def slope (freq : UInt32) : UInt32 := freq

def boardAt (fbdiv : UInt16) (currFreq vcore : UInt32) : World where
  arbiter := ⟨vcore, vcore, 0, 2000, 0, fun _ => 0⟩
  currFreq := currFreq
  targFreq := currFreq
  pll := ⟨2, fbdiv, 3, true⟩
  vcore := vcore
  pc := .idle

/-- A call with target 812 MHz, from 800 MHz: the voltage rises, and then `fbdiv` by one. -/
theorem raise_keeps_voltage :
    ∃ t, exec (step slope) (boardAt 128 800 800) [.dvfsChange 812, .hw, .hw] = some t ∧
      (t.vcore = 812 ∧ t.pll.getFreq = 806) ∧
      Supports slope t.arbiter.vddMax t.vcore t.pll.getFreq := by
  have hrun : (exec (step slope) (boardAt 128 800 800) [.dvfsChange 812, .hw, .hw]).map
      (fun t => (t.vcore, t.pll.getFreq)) = some (812, 806) := by decide +kernel
  obtain ⟨t, ht, hend⟩ := Option.map_eq_some_iff.mp hrun
  have hcurve : ∀ f g, f ≤ g → slope f ≤ slope g := fun _ _ h => h
  exact ⟨t, ht, Prod.mk.inj hend, dvfs_no_undervolt hcurve rfl rfl rfl (by decide +kernel)
    (by decide +kernel) ht⟩

/-- The regulator is at 800 mV, and `curr_voltage` says 812. -/
def boardUntracked : World :=
  { boardAt 128 800 800 with arbiter := ⟨812, 812, 0, 2000, 0, fun _ => 0⟩ }

/-- At 200 MHz with 200 mV, but 1000 MHz in `curr_freq`, a call with target 800 MHz takes
`DecreaseAiclk`, which raises the rate at the old voltage. And with another voltage than
`curr_voltage`, a call with target 812 MHz finds nothing to raise, and raises the rate. -/
theorem decrease_undervolts :
    ((boardAt 32 1000 200).pll.getFreq ≤ (boardAt 32 1000 200).currFreq ∧
      Supports slope 2000 (boardAt 32 1000 200).vcore (boardAt 32 1000 200).pll.getFreq ∧
      (exec (step slope) (boardAt 32 1000 200) [.dvfsChange 800, .hw]).map
        (fun t => (t.pll.getFreq, t.vcore, t.arbiter.vddMax)) = some (206, 200, 2000) ∧
      ¬ Supports slope 2000 200 206) ∧
    boardUntracked.pll.getFreq ≤ boardUntracked.currFreq ∧
      Supports slope 2000 boardUntracked.vcore boardUntracked.currFreq ∧
      (exec (step slope) boardUntracked [.dvfsChange 812, .hw, .hw]).map
        (fun t => (t.pll.getFreq, t.vcore, t.arbiter.vddMax)) = some (806, 800, 2000) ∧
      ¬ Supports slope 2000 800 806 := by
  decide +kernel

end SystemFirmware.Dvfs
