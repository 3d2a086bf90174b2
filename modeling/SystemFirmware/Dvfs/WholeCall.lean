import SystemFirmware.Dvfs.Undervolt

/-!
# DVFS — whole calls

`DVFSChange` as one function, for the code that waits for it. `Dvfs.Definitions` cuts a
call at its hardware accesses, which come to the function here (`dvfsChangeCall_steps`). A
call does not end if the target divider does not fit in the 16 bits of the register,
because the loop of `set_rate` then never meets it.
-/

namespace SystemFirmware.Dvfs

open Lib

/-- `clock_control_tt_bh_set_rate` for AICLK: `fbdiv` has moved to the target. -/
def Pll.setRate (pll : Pll) (freq : UInt32) : Pll :=
  { pll with fbdiv := (pll.calculateFbdiv freq).toUInt16 }

def decreaseAiclk (s : World) : World :=
  if s.targFreq < s.currFreq then
    { s with pll := s.pll.setRate s.targFreq, currFreq := s.targFreq }
  else s

/-- `VoltageChange`. -/
def changeVoltage (s : World) : World :=
  if s.arbiter.targVoltage ≠ s.arbiter.currVoltage then
    { s with
      vcore := s.arbiter.targVoltage
      arbiter := { s.arbiter with currVoltage := s.arbiter.targVoltage } }
  else s

def increaseAiclk (s : World) : World :=
  if s.targFreq > s.currFreq then
    { s with pll := s.pll.setRate s.targFreq, currFreq := s.targFreq }
  else s

/-- `DVFSChange`, after `CalculateTargAiclk` has come to `targFreq`. -/
def dvfsChangeCall (vfCurve : UInt32 → UInt32) (s : World) (targFreq : UInt32) : World :=
  increaseAiclk (changeVoltage (decreaseAiclk { s with
    arbiter := (s.arbiter.request .aiclk (vfCurve targFreq)).calculateTargVoltage
    targFreq := targFreq }))

-- ---
-- The loop of `set_rate`

section

variable {vfCurve : UInt32 → UInt32} {s : World} {t : UInt32}

theorem stepFbdiv_closer {pll : Pll} (hne : pll.fbdiv.toUInt32 ≠ t) (hfits : t.toNat < 2 ^ 16) :
    ∃ fbdiv, pll.stepFbdiv t = { pll with fbdiv := fbdiv } ∧
      (fbdiv.toNat - t.toNat) + (t.toNat - fbdiv.toNat) <
        (pll.fbdiv.toNat - t.toNat) + (t.toNat - pll.fbdiv.toNat) := by
  have hlt := pll.fbdiv.toNat_lt
  rw [Ne, ← UInt32.toNat_inj, UInt16.toNat_toUInt32] at hne
  unfold Pll.stepFbdiv
  split
  · rename_i hup
    rw [gt_iff_lt, UInt32.lt_iff_toNat_lt, UInt16.toNat_toUInt32] at hup
    refine ⟨pll.fbdiv + 1, rfl, ?_⟩
    rw [UInt16.toNat_add, UInt16.toNat_one]
    omega
  · rename_i hup
    rw [gt_iff_lt, UInt32.lt_iff_toNat_lt, UInt16.toNat_toUInt32] at hup
    refine ⟨pll.fbdiv - 1, rfl, ?_⟩
    rw [UInt16.toNat_sub, UInt16.toNat_one]
    omega

theorem reaches_hw {u : World} (h : step vfCurve s .hw = some u) :
    Reaches (step vfCurve) (· = .hw) s u :=
  Reaches.single rfl h

theorem reaches_fbdiv {pc : DvfsPc} (hpc : s.pc = pc) (hfits : t.toNat < 2 ^ 16)
    (hround : ∀ s : World, s.pc = pc → s.pll.fbdiv.toUInt32 ≠ t →
      step vfCurve s .hw = some { s with pll := s.pll.stepFbdiv t }) :
    Reaches (step vfCurve) (· = .hw) s { s with pll := { s.pll with fbdiv := t.toUInt16 } } := by
  induction hdist : (s.pll.fbdiv.toNat - t.toNat) + (t.toNat - s.pll.fbdiv.toNat)
    using Nat.strong_induction_on generalizing s with
  | h n ih =>
    by_cases hdone : s.pll.fbdiv.toUInt32 = t
    · have hsame : t.toUInt16 = s.pll.fbdiv := by rw [← hdone, UInt16.toUInt16_toUInt32]
      rw [hsame]
      exact Reaches.refl
    · obtain ⟨fbdiv, hstep, hcloser⟩ := stepFbdiv_closer hdone hfits
      have hfirst := hround s hpc hdone
      rw [hstep] at hfirst
      have hrest := @ih _ (hdist ▸ hcloser) { s with pll := { s.pll with fbdiv := fbdiv } } hpc rfl
      exact (reaches_hw hfirst).trans hrest

theorem toUInt32_toUInt16 (hfits : t.toNat < 2 ^ 16) : t.toUInt16.toUInt32 = t := by
  rw [← UInt32.toNat_inj, UInt16.toNat_toUInt32, UInt32.toNat_toUInt16, Nat.mod_eq_of_lt hfits]

theorem reaches_setRate {pc next : DvfsPc} (hpc : s.pc = pc) (hfits : t.toNat < 2 ^ 16)
    (hhw : ∀ s : World, s.pc = pc → step vfCurve s .hw =
      if s.pll.fbdiv.toUInt32 ≠ t then some { s with pll := s.pll.stepFbdiv t }
      else some { s with currFreq := s.targFreq, pc := next }) :
    Reaches (step vfCurve) (· = .hw) s { s with
      pll := { s.pll with fbdiv := t.toUInt16 }, currFreq := s.targFreq, pc := next } := by
  have hloop := @reaches_fbdiv vfCurve s t pc hpc hfits fun s hpc hne =>
    (hhw s hpc).trans (if_pos hne)
  refine hloop.trans (reaches_hw ?_)
  exact (hhw { s with pll := { s.pll with fbdiv := t.toUInt16 } } hpc).trans
    (if_neg (not_not.mpr (toUInt32_toUInt16 hfits)))

-- ---
-- The call

theorem reaches_decreaseAiclk {targFreq : UInt32}
    (hfits : (s.pll.calculateFbdiv targFreq).toNat < 2 ^ 16) :
    Reaches (step vfCurve) (· = .hw) (dvfsChange vfCurve s targFreq)
      { decreaseAiclk { s with
          arbiter := (s.arbiter.request .aiclk (vfCurve targFreq)).calculateTargVoltage
          targFreq := targFreq } with pc := .voltageChange } := by
  by_cases hlower : targFreq < s.currFreq
  · have hpc : (dvfsChange vfCurve s targFreq).pc = .decrease (s.pll.calculateFbdiv targFreq) :=
      if_pos hlower
    rw [decreaseAiclk, if_pos hlower]
    exact reaches_setRate hpc hfits fun s hpc => by simp only [step, hpc]
  · rw [decreaseAiclk, if_neg hlower, dvfsChange, if_neg hlower]
    exact Reaches.refl

theorem voltageChange_eq : voltageChange s = { changeVoltage s with
    pc := if s.targFreq > s.currFreq then .increase (s.pll.calculateFbdiv s.targFreq)
      else .idle } := by
  unfold voltageChange changeVoltage
  by_cases hvoltage : s.arbiter.targVoltage ≠ s.arbiter.currVoltage
  · rw [if_pos hvoltage, if_pos hvoltage]
  · rw [if_neg hvoltage, if_neg hvoltage]

theorem reaches_increaseAiclk (hpc : s.pc = .voltageChange)
    (hfits : (s.pll.calculateFbdiv s.targFreq).toNat < 2 ^ 16) :
    Reaches (step vfCurve) (· = .hw) s { increaseAiclk (changeVoltage s) with pc := .idle } := by
  have hfirst : step vfCurve s .hw = some (voltageChange s) := by simp only [step, hpc]
  refine (reaches_hw hfirst).trans ?_
  -- the voltage does not change what the frequency depends on
  have hpll : (changeVoltage s).pll = s.pll := by unfold changeVoltage; split <;> rfl
  have htarg : (changeVoltage s).targFreq = s.targFreq := by unfold changeVoltage; split <;> rfl
  have hcurr : (changeVoltage s).currFreq = s.currFreq := by unfold changeVoltage; split <;> rfl
  rw [voltageChange_eq]
  unfold increaseAiclk
  rw [htarg, hcurr, hpll]
  by_cases hhigher : s.targFreq > s.currFreq
  · rw [if_pos hhigher, if_pos hhigher]
    have hloop := @reaches_setRate vfCurve
      { changeVoltage s with pc := .increase (s.pll.calculateFbdiv s.targFreq) } _ _ .idle rfl hfits
      fun s hpc => by simp only [step, hpc]
    rw [hpll, htarg] at hloop
    exact hloop
  · rw [if_neg hhigher, if_neg hhigher]
    exact Reaches.refl

theorem increaseAiclk_changeVoltage_pc {pc : DvfsPc} :
    { increaseAiclk (changeVoltage { s with pc := pc }) with pc := s.pc } =
      increaseAiclk (changeVoltage s) := by
  unfold increaseAiclk changeVoltage
  by_cases hvoltage : s.arbiter.targVoltage ≠ s.arbiter.currVoltage
  · rw [if_pos hvoltage, if_pos hvoltage]
    by_cases hhigher : s.targFreq > s.currFreq
    · rw [if_pos hhigher, if_pos hhigher]
    · rw [if_neg hhigher, if_neg hhigher]
  · rw [if_neg hvoltage, if_neg hvoltage]
    by_cases hhigher : s.targFreq > s.currFreq
    · rw [if_pos hhigher, if_pos hhigher]
    · rw [if_neg hhigher, if_neg hhigher]

/-- **Whole calls.** The hardware accesses of a call, one after the other, come to
`dvfsChangeCall`. -/
theorem dvfsChangeCall_steps {targFreq : UInt32} (hpc : s.pc = .idle)
    (hfits : (s.pll.calculateFbdiv targFreq).toNat < 2 ^ 16) :
    ∃ t, step vfCurve s (.dvfsChange targFreq) = some t ∧
      Reaches (step vfCurve) (· = .hw) t (dvfsChangeCall vfCurve s targFreq) := by
  refine ⟨dvfsChange vfCurve s targFreq, by simp only [step, hpc], ?_⟩
  refine (reaches_decreaseAiclk hfits).trans ?_
  obtain ⟨lowered, hlowered⟩ : ∃ u, u = decreaseAiclk { s with
    arbiter := (s.arbiter.request .aiclk (vfCurve targFreq)).calculateTargVoltage
    targFreq := targFreq } := ⟨_, rfl⟩
  have hpcLowered : lowered.pc = .idle := by
    rw [hlowered, decreaseAiclk]
    split <;> exact hpc
  have hfitsLowered : (lowered.pll.calculateFbdiv lowered.targFreq).toNat < 2 ^ 16 := by
    rw [hlowered, decreaseAiclk]
    split <;> exact hfits
  have hrest := @reaches_increaseAiclk vfCurve { lowered with pc := .voltageChange } rfl hfitsLowered
  rw [← hpcLowered, increaseAiclk_changeVoltage_pc] at hrest
  rw [dvfsChangeCall, ← hlowered]
  exact hrest

theorem dvfsChangeCall_steps_raise :
    ∃ t, step slope (boardAt 128 800 800) (.dvfsChange 806) = some t ∧
      Reaches (step slope) (· = .hw) t (dvfsChangeCall slope (boardAt 128 800 800) 806) :=
  dvfsChangeCall_steps rfl (by decide)

end

-- ---
-- The clock after a call

section

variable {vfCurve : UInt32 → UInt32} {s : World} {pll : Pll} {f g : UInt32}

theorem setRate_setRate : (pll.setRate f).setRate g = pll.setRate g := rfl

/-- **The clock after a call.** `curr_freq` is the target, and the PLL has been set to
it unless `curr_freq` was the target before. -/
theorem dvfsChangeCall_rate :
    (dvfsChangeCall vfCurve s f).currFreq = f ∧
      (dvfsChangeCall vfCurve s f).pll = if f = s.currFreq then s.pll else s.pll.setRate f := by
  have hvoltage : ∀ w : World, (changeVoltage w).currFreq = w.currFreq ∧
      (changeVoltage w).targFreq = w.targFreq ∧ (changeVoltage w).pll = w.pll := by
    intro w
    unfold changeVoltage
    split <;> exact ⟨rfl, rfl, rfl⟩
  obtain ⟨w, hw⟩ : ∃ w, w = { s with
    arbiter := (s.arbiter.request .aiclk (vfCurve f)).calculateTargVoltage
    targFreq := f } := ⟨_, rfl⟩
  obtain ⟨hcurr, htarg, hpll⟩ := hvoltage (decreaseAiclk w)
  rw [dvfsChangeCall, ← hw, increaseAiclk, hcurr, htarg]
  have horder : f < s.currFreq ∨ f = s.currFreq ∨ s.currFreq < f := by
    rw [UInt32.lt_iff_toNat_lt, ← UInt32.toNat_inj, UInt32.lt_iff_toNat_lt]
    exact Nat.lt_trichotomy _ _
  rcases horder with hlower | hsame | hhigher
  · have hlowered : decreaseAiclk w = { w with pll := w.pll.setRate w.targFreq, currFreq := w.targFreq } :=
      if_pos (by rw [hw]; exact hlower)
    rw [hlowered] at hcurr hpll ⊢
    rw [if_neg (UInt32.lt_irrefl _), if_neg (UInt32.ne_of_lt hlower)]
    exact ⟨hcurr.trans (by rw [hw]), hpll.trans (by rw [hw])⟩
  · have hkept : decreaseAiclk w = w := if_neg (by rw [hw, hsame]; exact UInt32.lt_irrefl _)
    rw [hkept] at hcurr hpll ⊢
    have hnot : ¬w.targFreq > w.currFreq := by
      rw [hw, hsame]
      exact UInt32.lt_irrefl _
    rw [if_neg hnot, if_pos hsame]
    exact ⟨hcurr.trans (by rw [hw, hsame]), hpll.trans (by rw [hw])⟩
  · have hkept : decreaseAiclk w = w := if_neg (by rw [hw]; exact UInt32.lt_asymm hhigher)
    rw [hkept] at hpll ⊢
    have hup : w.targFreq > w.currFreq := by
      rw [hw]
      exact hhigher
    rw [if_pos hup, if_neg (UInt32.ne_of_lt hhigher).symm]
    exact ⟨by rw [hw], by rw [hpll, hw]⟩

/-- The divider after two calls is that for the second target, unless neither call has moved it. -/
theorem dvfsChangeCall_twice :
    (dvfsChangeCall vfCurve (dvfsChangeCall vfCurve s f) g).pll =
      if g = s.currFreq ∧ f = s.currFreq then s.pll else s.pll.setRate g := by
  obtain ⟨hcurr, hpll⟩ := @dvfsChangeCall_rate vfCurve s f
  rw [dvfsChangeCall_rate.2, hcurr, hpll]
  by_cases hsame : f = s.currFreq
  · simp [hsame]
  · simp only [hsame, if_false, and_false, setRate_setRate]
    split
    · next heq => rw [heq]
    · rfl

end

end SystemFirmware.Dvfs
