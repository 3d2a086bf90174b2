import Mathlib.Algebra.Order.Field.Rat
import Mathlib.Tactic.Linarith
import Mathlib.Tactic.Ring
import SystemFirmware.ClockControl.Definitions
import SystemFirmware.Dvfs.WholeCall

/-!
# Clock control — the rate of AICLK

`set_rate` computes the feedback divider for a rate by one division, and `get_rate` the
rate of a divider by another. The two together lose less than one step of the divider and
one MHz (`set_rate_aiclk_accurate`).
-/

namespace SystemFirmware.ClockControl

variable {cfg : Config} {dev : Device} {regs : Registers} {rate t : UInt32} {reg : PllCntl1}

-- ---
-- The loop

/-- Two values of `PLL_CNTL_1` that differ in `fbdiv` only, and there by `d`. -/
def PllCntl1.Moves (d : ℤ) (a b : PllCntl1) : Prop :=
  b.refdiv = a.refdiv ∧ b.postdiv = a.postdiv ∧ (b.fbdiv.toNat : ℤ) = a.fbdiv.toNat + d

variable {d : ℤ}

theorem stepFbdiv_moves {n : ℕ} (hd : d = 1 ∨ d = -1) (hfits : t.toNat < 2 ^ 16)
    (hdist : (t.toNat : ℤ) = reg.fbdiv.toNat + d * (n + 1)) : reg.Moves d (reg.stepFbdiv t) := by
  have hlt := reg.fbdiv.toNat_lt
  unfold PllCntl1.stepFbdiv
  rcases hd with rfl | rfl
  · have hup : t > reg.fbdiv.toUInt32 := by
      rw [gt_iff_lt, UInt32.lt_iff_toNat_lt, UInt16.toNat_toUInt32]
      omega
    rw [if_pos hup]
    refine ⟨rfl, rfl, ?_⟩
    rw [UInt16.toNat_add, UInt16.toNat_one]
    omega
  · have hdown : ¬ t > reg.fbdiv.toUInt32 := by
      rw [gt_iff_lt, UInt32.lt_iff_toNat_lt, UInt16.toNat_toUInt32]
      omega
    rw [if_neg hdown]
    refine ⟨rfl, rfl, ?_⟩
    rw [UInt16.toNat_sub, UInt16.toNat_one]
    omega

/-- **The loop.** From a distance `n` it takes `n` rounds, all in the same direction. -/
theorem moveFbdiv_reaches (hd : d = 1 ∨ d = -1) (hfits : t.toNat < 2 ^ 16) (n : ℕ)
    (hdist : (t.toNat : ℤ) = reg.fbdiv.toNat + d * n) :
    ∃ vals, vals.length = n ∧ List.IsChain (PllCntl1.Moves d) (reg :: vals) ∧
      vals.getLastD reg = { reg with fbdiv := t.toUInt16 } ∧
      ∀ fuel, n < fuel → moveFbdiv t fuel reg = some vals := by
  induction n generalizing reg with
  | zero =>
    have hdone : t = reg.fbdiv.toUInt32 := by
      rw [← UInt32.toNat_inj, UInt16.toNat_toUInt32]
      omega
    refine ⟨[], rfl, List.IsChain.singleton _, ?_, fun fuel hfuel => ?_⟩
    · rw [hdone, UInt16.toUInt16_toUInt32, List.getLastD_nil]
    · obtain ⟨fuel, rfl⟩ := Nat.exists_eq_add_one_of_ne_zero (Nat.ne_of_gt hfuel)
      rw [moveFbdiv, if_neg (not_not.mpr hdone.symm)]
  | succ n ih =>
    have hmove := stepFbdiv_moves hd hfits (n := n) (by exact_mod_cast hdist)
    obtain ⟨href, hpost, hfb⟩ := hmove
    obtain ⟨vals, hlen, hchain, hlast, hfuel⟩ := @ih (reg.stepFbdiv t) (by
      push_cast at hdist
      rw [hfb, hdist]
      ring)
    refine ⟨reg.stepFbdiv t :: vals, by rw [List.length_cons, hlen],
      List.IsChain.cons_cons ⟨href, hpost, hfb⟩ hchain, ?_, fun fuel hlt => ?_⟩
    · rw [List.getLastD_cons, hlast, href, hpost]
    · obtain ⟨fuel, rfl⟩ := Nat.exists_eq_add_one_of_ne_zero (show fuel ≠ 0 by omega)
      have hne : reg.fbdiv.toUInt32 ≠ t := by
        rw [Ne, ← UInt32.toNat_inj, UInt16.toNat_toUInt32]
        rcases hd with rfl | rfl <;> omega
      rw [moveFbdiv, if_pos hne]
      show (moveFbdiv t fuel (reg.stepFbdiv t)).map _ = _
      rw [hfuel fuel (by omega)]
      rfl

theorem writes_pllCntl1 (vals : List PllCntl1) :
    regs.writes (vals.map .pllCntl1) = { regs with pllCntl1 := vals.getLastD regs.pllCntl1 } := by
  induction vals generalizing regs with
  | nil => rfl
  | cons v vals ih =>
    rw [List.getLastD_cons]
    exact @ih { regs with pllCntl1 := v }

theorem setRate_aiclk_moves (hfree : dev.locked = false)
    (ht : t = calculateFbdiv cfg.refclkRate rate dev.regs.pllCntl1 dev.regs.pllCntl5
      dev.regs.usePostdiv .p0) (hfits : t.toNat < 2 ^ 16) :
    ∃ (d : ℤ) (vals : List PllCntl1), (d = 1 ∨ d = -1) ∧
      List.IsChain (PllCntl1.Moves d) (dev.regs.pllCntl1 :: vals) ∧
      dev.regs.writes (vals.map .pllCntl1) =
        { dev.regs with pllCntl1 := { dev.regs.pllCntl1 with fbdiv := t.toUInt16 } } ∧
      ∀ fuel, vals.length < fuel → setRate fuel cfg dev .aiclk rate =
        some (dev.done (vals.map .pllCntl1) dev.settings) := by
  obtain ⟨d, n, hd, hdist⟩ : ∃ (d : ℤ) (n : ℕ), (d = 1 ∨ d = -1) ∧
      (t.toNat : ℤ) = dev.regs.pllCntl1.fbdiv.toNat + d * n := by
    rcases Nat.le_total dev.regs.pllCntl1.fbdiv.toNat t.toNat with hle | hle
    · exact ⟨1, t.toNat - dev.regs.pllCntl1.fbdiv.toNat, Or.inl rfl, by omega⟩
    · exact ⟨-1, dev.regs.pllCntl1.fbdiv.toNat - t.toNat, Or.inr rfl, by omega⟩
  obtain ⟨vals, hlen, hchain, hlast, hloop⟩ := moveFbdiv_reaches hd hfits n hdist
  refine ⟨d, vals, hd, hchain, ?_, fun fuel hfuel => ?_⟩
  · rw [writes_pllCntl1, hlast]
  · have hrun := hloop fuel (hlen ▸ hfuel)
    rw [setRate, hfree, if_neg Bool.false_ne_true]
    show setRateAiclk fuel cfg dev rate = _
    rw [setRateAiclk, ← ht, hrun]
    rfl

-- ---
-- The two divisions

theorem two_floors {ref r D : ℕ} (hD : 0 < D) (href : 0 < ref) :
    ref * (r * D / ref) / D ≤ r ∧ r * D < (ref * (r * D / ref) / D + 1) * D + ref := by
  have hle : ref * (r * D / ref) ≤ r * D := Nat.mul_div_le _ _
  have hlt : r * D < ref * (r * D / ref + 1) := Nat.lt_mul_div_succ _ href
  have hfloor : ref * (r * D / ref) < D * (ref * (r * D / ref) / D + 1) :=
    Nat.lt_mul_div_succ _ hD
  constructor
  · calc ref * (r * D / ref) / D ≤ r * D / D := Nat.div_le_div_right hle
      _ = r := Nat.mul_div_cancel r hD
  · calc r * D < ref * (r * D / ref) + ref := by rwa [Nat.mul_add, Nat.mul_one] at hlt
      _ < (ref * (r * D / ref) / D + 1) * D + ref := by
        rw [Nat.mul_comm (_ + 1) D]
        exact Nat.add_lt_add_right hfloor ref

theorem sub_lt_of_mul_lt {ref r a b g : ℕ} (hD : 0 < a * b) (h : r * (a * b) < (g + 1) * (a * b) + ref) :
    (r : ℚ) - g < ref / (a * b) + 1 := by
  have hDq : (0 : ℚ) < a * b := by exact_mod_cast hD
  have hq : (r : ℚ) * (a * b) < (g + 1) * (a * b) + ref := by exact_mod_cast h
  rw [← sub_lt_iff_lt_add, lt_div_iff₀ hDq]
  linarith

theorem getExtPostdiv_le (index : PostdivIndex) (pllCntl5 : PllCntl5) (usePostdiv : UsePostdiv) :
    (getExtPostdiv index pllCntl5 usePostdiv).toNat ≤ 512 := by
  have hlt := (pllCntl5 index).toNat_lt
  unfold getExtPostdiv
  simp only
  split_ifs
  · exact Nat.zero_le _
  · rw [UInt32.toNat_add, UInt8.toNat_toUInt32, UInt32.toNat_one]
    omega
  · rw [UInt32.toNat_mul, UInt32.toNat_add, UInt8.toNat_toUInt32, UInt32.toNat_one,
      show (2 : UInt32).toNat = 2 from rfl]
    omega
  · rw [UInt32.toNat_one]
    omega

variable {index : PostdivIndex} {p : UInt32}

theorem calculateFbdiv_toNat {ref : UInt32} {pllCntl5 : PllCntl5} {usePostdiv : UsePostdiv}
    (hp : p = getExtPostdiv index pllCntl5 usePostdiv) (hpos : p ≠ 0)
    (hmul : rate.toNat * reg.refdiv.toNat * p.toNat < 2 ^ 32) :
    (calculateFbdiv ref rate reg pllCntl5 usePostdiv index).toNat =
      rate.toNat * (reg.refdiv.toNat * p.toNat) / ref.toNat := by
  have hpnat : 0 < p.toNat := Nat.pos_of_ne_zero fun h => hpos (UInt32.toNat_inj.mp h)
  have hfirst : rate.toNat * reg.refdiv.toNat < 2 ^ 32 :=
    lt_of_le_of_lt (Nat.le_mul_of_pos_right _ hpnat) hmul
  unfold calculateFbdiv
  simp only
  rw [← hp, if_neg hpos, UInt32.toNat_div, UInt32.toNat_mul, UInt32.toNat_mul,
    UInt8.toNat_toUInt32, Nat.mod_eq_of_lt hfirst, Nat.mod_eq_of_lt hmul, Nat.mul_assoc]

theorem getFreq_toNat (hp : p = getExtPostdiv index regs.pllCntl5 regs.usePostdiv) (hpos : p ≠ 0)
    (hmul : cfg.refclkRate.toNat * regs.pllCntl1.fbdiv.toNat < 2 ^ 32) :
    (getFreq cfg regs index).toNat = cfg.refclkRate.toNat * regs.pllCntl1.fbdiv.toNat /
      (regs.pllCntl1.refdiv.toNat * p.toNat) := by
  have hple : p.toNat ≤ 512 := hp ▸ getExtPostdiv_le index _ _
  have hrefdiv := regs.pllCntl1.refdiv.toNat_lt
  have hdiv : regs.pllCntl1.refdiv.toNat * p.toNat < 2 ^ 32 := by
    have hle := Nat.mul_le_mul (Nat.le_of_lt hrefdiv) hple
    omega
  unfold getFreq
  simp only
  rw [← hp, if_neg hpos, UInt32.toNat_div, UInt32.toNat_mul, UInt32.toNat_mul,
    UInt8.toNat_toUInt32, UInt16.toNat_toUInt32, Nat.mod_eq_of_lt hmul, Nat.mod_eq_of_lt hdiv]

theorem getFreq_accurate {index : PostdivIndex} {p : UInt32} {r : ℕ}
    (hp : p = getExtPostdiv index regs.pllCntl5 regs.usePostdiv) (hpos : p ≠ 0)
    (hrefdiv : regs.pllCntl1.refdiv.toNat ≠ 0) (href : 0 < cfg.refclkRate.toNat)
    (hmul : r * (regs.pllCntl1.refdiv.toNat * p.toNat) < 2 ^ 32)
    (hfbdiv : regs.pllCntl1.fbdiv.toNat =
      r * (regs.pllCntl1.refdiv.toNat * p.toNat) / cfg.refclkRate.toNat) :
    (getFreq cfg regs index).toNat ≤ r ∧
      (r : ℚ) - (getFreq cfg regs index).toNat <
        cfg.refclkRate.toNat / (regs.pllCntl1.refdiv.toNat * p.toNat) + 1 := by
  have hnowrap : cfg.refclkRate.toNat * regs.pllCntl1.fbdiv.toNat < 2 ^ 32 := by
    rw [hfbdiv]
    exact lt_of_le_of_lt (Nat.mul_div_le _ _) hmul
  have hfreq := getFreq_toNat hp hpos hnowrap
  rw [hfbdiv] at hfreq
  have hD : 0 < regs.pllCntl1.refdiv.toNat * p.toNat :=
    Nat.mul_pos (Nat.pos_of_ne_zero hrefdiv)
      (Nat.pos_of_ne_zero fun h => hpos (UInt32.toNat_inj.mp h))
  obtain ⟨hle, hlt⟩ := @two_floors cfg.refclkRate.toNat r _ hD href
  rw [← hfreq] at hle hlt
  exact ⟨hle, sub_lt_of_mul_lt hD hlt⟩

-- ---
-- The call

/-- **AICLK rates are accurate.** A call comes to an end; it writes `PLL_CNTL_1` only, and changes
`fbdiv` by one in each write, always in the same direction. Then `get_rate` returns at most the
requested rate, and misses it by less than one step of `fbdiv` and one MHz. -/
theorem set_rate_aiclk_accurate (cfg : Config) (dev : Device) (rate : UInt32)
    (hfree : dev.locked = false) (href : 0 < cfg.refclkRate.toNat)
    {refdiv p : ℕ} (hrefdiv : refdiv = dev.regs.pllCntl1.refdiv.toNat)
    (hp : p = (getExtPostdiv .p0 dev.regs.pllCntl5 dev.regs.usePostdiv).toNat)
    (hrefdivPos : refdiv ≠ 0) (hpPos : p ≠ 0)
    (hmul : rate.toNat * refdiv * p < 2 ^ 32)
    (hfits : rate.toNat * refdiv * p / cfg.refclkRate.toNat ≤ 65535) :
    ∃ (d : ℤ) (vals : List PllCntl1) (out : Outcome), (d = 1 ∨ d = -1) ∧
      (∀ fuel, vals.length < fuel → setRate fuel cfg dev .aiclk rate = some out) ∧
      out.ret = .ok () ∧ out.writes = vals.map .pllCntl1 ∧
      List.IsChain (PllCntl1.Moves d) (dev.regs.pllCntl1 :: vals) ∧
      out.dev = { dev with regs := dev.regs.writes out.writes } ∧
      ∃ g, getRate cfg out.dev .aiclk = .ok g ∧ g ≤ rate ∧
        (rate.toNat : ℚ) - g.toNat < cfg.refclkRate.toNat / (refdiv * p) + 1 := by
  subst hrefdiv hp
  obtain ⟨p, hp⟩ : ∃ p, p = getExtPostdiv .p0 dev.regs.pllCntl5 dev.regs.usePostdiv := ⟨_, rfl⟩
  obtain ⟨t, ht⟩ : ∃ t, t = calculateFbdiv cfg.refclkRate rate dev.regs.pllCntl1
    dev.regs.pllCntl5 dev.regs.usePostdiv .p0 := ⟨_, rfl⟩
  rw [← hp] at hpPos hmul hfits ⊢
  have hpne : p ≠ 0 := fun h => hpPos (h ▸ rfl)
  have htarget : t.toNat = rate.toNat * (dev.regs.pllCntl1.refdiv.toNat * p.toNat) /
      cfg.refclkRate.toNat := by
    rw [ht]
    exact calculateFbdiv_toNat hp hpne hmul
  rw [Nat.mul_assoc] at hmul hfits
  have htfits : t.toNat < 2 ^ 16 := by omega
  have hsame : t.toUInt16.toNat = t.toNat := by
    rw [UInt32.toNat_toUInt16, Nat.mod_eq_of_lt htfits]
  obtain ⟨d, vals, hd, hchain, hwrites, hcall⟩ := setRate_aiclk_moves hfree ht htfits
  refine ⟨d, vals, _, hd, hcall, rfl, rfl, hchain, rfl, ?_⟩
  -- what `get_rate` sees afterwards
  obtain ⟨after, hafter⟩ : ∃ r, r = dev.regs.writes (vals.map .pllCntl1) := ⟨_, rfl⟩
  have hrate : getRate cfg (dev.done (vals.map .pllCntl1) dev.settings).dev .aiclk =
      .ok (getFreq cfg after .p0) := by
    rw [getRate, show (dev.done _ _).dev.locked = false from hfree, hafter]
    rfl
  rw [hwrites] at hafter
  have hrefdiv : after.pllCntl1.refdiv = dev.regs.pllCntl1.refdiv := by rw [hafter]
  have hfbdiv : after.pllCntl1.fbdiv.toNat = t.toNat := by rw [hafter, hsame]
  rw [htarget] at hfbdiv
  rw [← hrefdiv] at hrefdivPos hmul hfbdiv ⊢
  obtain ⟨hle, hlt⟩ :=
    @getFreq_accurate cfg after .p0 p _ (by rw [hp, hafter]) hpne hrefdivPos href hmul hfbdiv
  exact ⟨_, hrate, UInt32.le_iff_toNat_le.mpr hle, hlt⟩

/-- `pll0` of the device tree, with AICLK on its first post divider. -/
def pll0Config : Config where
  refclkRate := 50
  initSettings := {
    pllCntl1 := { refdiv := 2, postdiv := 1, fbdiv := 128 }
    pllCntl2 := 0x18
    pllCntl3 := 1
    pllCntl5 := Function.update (fun _ => 0) .p0 3
    usePostdiv := fun _ => true }

def Config.programmed (cfg : Config) : Device where
  regs := {
    pllCntl0 := { pd := true, bypass := true }
    pllCntl1 := cfg.initSettings.pllCntl1
    pllCntl2 := cfg.initSettings.pllCntl2
    pllCntl3 := cfg.initSettings.pllCntl3
    pllCntl5 := cfg.initSettings.pllCntl5
    usePostdiv := cfg.initSettings.usePostdiv
    refclkPeriod := 1000
    clkCounterEn := 0xff }
  settings := cfg.initSettings
  locked := false

theorem init_programmed (hfree : dev.locked = false) : (init cfg dev true).dev = cfg.programmed := by
  rw [init, hfree]
  simp only [Bool.false_eq_true, if_false, if_true]
  simp [Device.done, Registers.writes, powerUp, configVco, leaveBypass, configExtPostdivs,
    enableClkCounters, Registers.write, Config.programmed, hfree]

theorem set_rate_aiclk_accurate_pll0 :
    ∃ (d : ℤ) (vals : List PllCntl1) (out : Outcome), (d = 1 ∨ d = -1) ∧
      (∀ fuel, vals.length < fuel → setRate fuel pll0Config pll0Config.programmed .aiclk 1003 =
        some out) ∧
      out.ret = .ok () ∧ out.writes = vals.map .pllCntl1 ∧
      List.IsChain (PllCntl1.Moves d) (pll0Config.programmed.regs.pllCntl1 :: vals) ∧
      out.dev = { pll0Config.programmed with
        regs := pll0Config.programmed.regs.writes out.writes } ∧
      ∃ g, getRate pll0Config out.dev .aiclk = .ok g ∧ g ≤ 1003 ∧
        (((1003 : UInt32).toNat : ℕ) : ℚ) - g.toNat <
          pll0Config.refclkRate.toNat / ((2 : ℕ) * (4 : ℕ)) + 1 :=
  set_rate_aiclk_accurate pll0Config pll0Config.programmed 1003 rfl (by decide) (by decide)
    (by decide) (by decide) (by decide) (by decide) (by decide)

-- ---
-- The PLL of the DVFS model

def Registers.aiclkPll (regs : Registers) : Dvfs.Pll where
  refdiv := regs.pllCntl1.refdiv
  fbdiv := regs.pllCntl1.fbdiv
  postdiv0 := regs.pllCntl5 .p0
  usePostdiv0 := regs.usePostdiv .p0

theorem getFreq_dvfs (href : cfg.refclkRate = Dvfs.refclkRate) :
    getFreq cfg regs .p0 = regs.aiclkPll.getFreq := by
  rw [getFreq, href]
  rfl

/-- **The PLL of the DVFS model is this driver's**: `set_rate` for AICLK is `Dvfs.Pll.setRate`. -/
theorem setRate_aiclk_dvfs (href : cfg.refclkRate = Dvfs.refclkRate) (hfree : dev.locked = false)
    (hfits : (dev.regs.aiclkPll.calculateFbdiv rate).toNat < 2 ^ 16) :
    ∃ n, ∀ fuel, n < fuel → ∃ out, setRate fuel cfg dev .aiclk rate = some out ∧
      out.dev.regs.aiclkPll = dev.regs.aiclkPll.setRate rate ∧
      getFreq cfg out.dev.regs .p0 = (dev.regs.aiclkPll.setRate rate).getFreq := by
  have ht : dev.regs.aiclkPll.calculateFbdiv rate = calculateFbdiv cfg.refclkRate rate
      dev.regs.pllCntl1 dev.regs.pllCntl5 dev.regs.usePostdiv .p0 := by
    rw [href]
    rfl
  obtain ⟨d, vals, -, -, hwrites, hcall⟩ := setRate_aiclk_moves hfree ht hfits
  have hpll : (dev.regs.writes (vals.map .pllCntl1)).aiclkPll = dev.regs.aiclkPll.setRate rate := by
    rw [hwrites]
    rfl
  exact ⟨vals.length, fun fuel hfuel => ⟨_, hcall fuel hfuel, hpll, hpll ▸ getFreq_dvfs href⟩⟩

theorem setRate_aiclk_dvfs_pll0 :
    ∃ n, ∀ fuel, n < fuel → ∃ out,
      setRate fuel pll0Config pll0Config.programmed .aiclk 1003 = some out ∧
      out.dev.regs.aiclkPll = pll0Config.programmed.regs.aiclkPll.setRate 1003 ∧
      getFreq pll0Config out.dev.regs .p0 =
        (pll0Config.programmed.regs.aiclkPll.setRate 1003).getFreq :=
  setRate_aiclk_dvfs rfl rfl (by decide)

end SystemFirmware.ClockControl
