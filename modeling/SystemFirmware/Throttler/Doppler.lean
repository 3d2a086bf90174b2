import SystemFirmware.Lib.Streak
import SystemFirmware.Throttler.NopAccounting

/-!
# Throttler — the Doppler critical cap

Doppler is active while the board has a power limit. It counts consecutive samples above
twice the limit (T2) and above two and a half times the limit (T3), and enables the
critical cap on the clock when a count is long enough (`doppler_critical_iff`). The counts
saturate at 255, which is more than either window.

When Doppler is not active, the throttler at the AICLK floor takes over. It knows nothing
of the cap, and with its feature off it leaves the NOPs as they are
(`throttling_released`).
-/

namespace SystemFirmware.Throttler

open Lib

-- ---
-- What a call does

section

variable {fw : FwTable} {t : Statics} {uptime : UInt32} {c : Call}

theorem throttlerAfter_doppler (fw : FwTable) (t : Statics) (uptime : UInt32) (c : Call) :
    (∃ r, c = .calculate r ∧ dopplerActive t = true ∧
        throttlerAfter fw t uptime c = updateDoppler t r uptime) ∨
      (∀ r, c = .calculate r → dopplerActive t = false) ∧
        (throttlerAfter fw t uptime c).t2Count = t.t2Count ∧
        (throttlerAfter fw t uptime c).t3Count = t.t3Count ∧
        (throttlerAfter fw t uptime c).dopplerCriticalEnabled = t.dopplerCriticalEnabled := by
  cases c with
  | calculate r =>
    simp only [throttlerAfter, calculateThrottlers]
    by_cases hactive : dopplerActive t = true
    · exact .inl ⟨r, rfl, hactive, by rw [if_pos hactive]⟩
    · refine .inr ⟨fun _ _ => Bool.not_eq_true _ ▸ hactive, ?_⟩
      rw [if_neg hactive]
      exact ⟨rfl, rfl, rfl⟩
  | setEnabled enabled =>
    refine .inr ⟨fun _ h => Call.noConfusion h, ?_⟩
    simp only [throttlerAfter, throttlerSetKernelThrottlerEnabled]
    split <;> exact ⟨rfl, rfl, rfl⟩
  | setStopFreq frequency =>
    refine .inr ⟨fun _ h => Call.noConfusion h, ?_⟩
    simp only [throttlerAfter, throttlerSetKernelThrottlerStopFreq]
    split
    · exact ⟨rfl, rfl, rfl⟩
    · split <;> exact ⟨rfl, rfl, rfl⟩
  | setPowerLimit limit => exact .inr ⟨fun _ h => Call.noConfusion h, rfl, rfl, rfl⟩
  | nopOnDuration windowMs => exact .inr ⟨fun _ h => Call.noConfusion h, rfl, rfl, rfl⟩

theorem throttlerAfter_config (fw : FwTable) (t : Statics) (uptime : UInt32) (c : Call) :
    (throttlerAfter fw t uptime c).doppler = t.doppler ∧
      (throttlerAfter fw t uptime c).dopplerT2 = t.dopplerT2 ∧
      (throttlerAfter fw t uptime c).dopplerT3 = t.dopplerT3 ∧
      ((∀ limit, c ≠ .setPowerLimit limit) →
        (throttlerAfter fw t uptime c).powerLimit = t.powerLimit) := by
  cases c with
  | calculate r =>
    simp only [throttlerAfter, calculateThrottlers]
    split <;> exact ⟨rfl, rfl, rfl, fun _ => rfl⟩
  | setEnabled enabled =>
    simp only [throttlerAfter, throttlerSetKernelThrottlerEnabled]
    split <;> exact ⟨rfl, rfl, rfl, fun _ => rfl⟩
  | setStopFreq frequency =>
    simp only [throttlerAfter, throttlerSetKernelThrottlerStopFreq]
    split
    · exact ⟨rfl, rfl, rfl, fun _ => rfl⟩
    · split <;> exact ⟨rfl, rfl, rfl, fun _ => rfl⟩
  | setPowerLimit limit => exact ⟨rfl, rfl, rfl, fun h => absurd rfl (h limit)⟩
  | nopOnDuration windowMs => exact ⟨rfl, rfl, rfl, fun _ => rfl⟩

theorem powerLimit_lt (hlimit : t.powerLimit.toNat < 2 ^ 16) :
    (throttlerAfter fw t uptime c).powerLimit.toNat < 2 ^ 16 := by
  by_cases hset : ∃ limit, c = .setPowerLimit limit
  · obtain ⟨limit, rfl⟩ := hset
    have hlt := limit.toNat_lt
    show (if limit.toUInt32 ≤ fw.boardPowerLimit then limit.toUInt32
      else fw.boardPowerLimit).toNat < 2 ^ 16
    split
    · rw [UInt16.toNat_toUInt32]
      exact hlt
    · rename_i hgt
      have hle := UInt32.lt_iff_toNat_lt.mp (UInt32.not_le.mp hgt)
      rw [UInt16.toNat_toUInt32] at hle
      omega
  · rw [(throttlerAfter_config fw t uptime c).2.2.2 fun limit h => hset ⟨limit, h⟩]
    exact hlimit

end

-- ---
-- The windows

def AboveT2 (limit : UInt32) (sample : UInt16) : Prop := 2 * limit.toNat < sample.toNat

def AboveT3 (limit : UInt32) (sample : UInt16) : Prop := 5 * limit.toNat / 2 < sample.toNat

theorem toNat_countAbove (power limit : UInt32) (count : UInt8) :
    (countAbove power limit count).toNat =
      if limit.toNat < power.toNat then min (count.toNat + 1) 255 else 0 := by
  have hlt := count.toNat_lt
  unfold countAbove
  by_cases habove : power > limit
  · rw [if_pos habove, if_pos (UInt32.lt_iff_toNat_lt.mp habove)]
    by_cases hroom : count < 0xFF
    · have := UInt8.lt_iff_toNat_lt.mp hroom
      rw [if_pos hroom, UInt8.toNat_add, show (1 : UInt8).toNat = 1 from rfl]
      rw [show (0xFF : UInt8).toNat = 255 from rfl] at this
      omega
    · have := mt UInt8.lt_iff_toNat_lt.mpr hroom
      rw [show (0xFF : UInt8).toNat = 255 from rfl] at this
      rw [if_neg hroom]
      omega
  · rw [if_neg habove, if_neg fun h => habove (UInt32.lt_iff_toNat_lt.mpr h)]
    rfl

variable {limit : UInt32} {hist : List UInt16} {sample : UInt16}

theorem counts_countAbove {above : UInt16 → Prop} {count : UInt8}
    (h : Counts 255 above hist count.toNat) (habove : above sample ↔ limit.toNat < sample.toNat) :
    Counts 255 above (hist ++ [sample]) (countAbove sample.toUInt32 limit count).toNat := by
  rw [toNat_countAbove, UInt16.toNat_toUInt32]
  refine h.concat (fun hhit => if_pos (habove.mp hhit)) fun hmiss => if_neg ?_
  exact mt habove.mpr hmiss

theorem aboveT2_iff (hlimit : limit.toNat < 2 ^ 16) :
    AboveT2 limit sample ↔ (limit * 2).toNat < sample.toNat := by
  rw [AboveT2, UInt32.toNat_mul, show (2 : UInt32).toNat = 2 from rfl, Nat.mod_eq_of_lt (by omega),
    Nat.mul_comm]

theorem aboveT3_iff (hlimit : limit.toNat < 2 ^ 16) :
    AboveT3 limit sample ↔ (limit * 5 / 2).toNat < sample.toNat := by
  rw [AboveT3, UInt32.toNat_div, UInt32.toNat_mul, show (2 : UInt32).toNat = 2 from rfl,
    show (5 : UInt32).toNat = 5 from rfl, Nat.mod_eq_of_lt (by omega), Nat.mul_comm]

variable {r : Readings} {t : Statics} {uptime : UInt32}

theorem critical_updateDoppler (ht2 : t.dopplerT2 = true) (ht3 : t.dopplerT3 = true) :
    (updateDoppler t r uptime).dopplerCriticalEnabled = true ↔
      10 ≤ (updateDoppler t r uptime).t2Count.toNat ∨
        2 ≤ (updateDoppler t r uptime).t3Count.toNat := by
  simp only [updateDoppler, ht2, ht3, Bool.and_true, Bool.or_eq_true, decide_eq_true_eq, ge_iff_le,
    UInt8.le_iff_toNat_le]
  exact Iff.rfl

theorem nops_of_critical (hcritical : (updateDoppler t r uptime).dopplerCriticalEnabled = true) :
    (updateDoppler t r uptime).nops.kernelNopsEnabled = true := by
  have hor : ∀ {a b : Bool}, b = true → (a || b) = true := fun h => by rw [h, Bool.or_true]
  simp only [updateDoppler, enabled_setKernelNops]
  exact hor hcritical

-- ---
-- Runs with their samples

/-- The samples of passes with Doppler active, after one more call. -/
def recordSample (t : Statics) (hist : List UInt16) : Call → List UInt16
  | .calculate r => if dopplerActive t then hist ++ [r.currentPower] else hist
  | _ => hist

def sampledStep (fw : FwTable) (s : World × List UInt16) (a : ℕ × Call) :
    Option (World × List UInt16) :=
  (step fw s.1 a).map fun w => (w, recordSample s.1.throttler s.2 a.2)

def LimitIs (limit : UInt32) (s : World × List UInt16) : ℕ × Call → Prop
  | (_, .calculate _) => dopplerActive s.1.throttler = true → s.1.throttler.powerLimit = limit
  | _ => True

variable {a : ℕ × Call} {fw : FwTable}

theorem step_throttler {w w' : World} (h : step fw w a = some w') :
    w'.throttler = throttlerAfter fw w.throttler (UInt32.ofNat a.1) a.2 := by
  unfold step at h
  split at h
  · obtain rfl := Option.some.inj h
    rfl
  · cases h

theorem recordSample_passive {c : Call} (hpassive : ∀ r, c = .calculate r → dopplerActive t = false) :
    recordSample t hist c = hist := by
  unfold recordSample
  split
  · rename_i r
    rw [if_neg (by rw [hpassive r rfl]; decide)]
  · rfl

/-- The counters decide the windows over the recorded samples. -/
structure Windows (limit : UInt32) (t : Statics) (hist : List UInt16) : Prop where
  t2On : t.dopplerT2 = t.doppler
  t3On : t.dopplerT3 = t.doppler
  limit_lt : t.powerLimit.toNat < 2 ^ 16
  t2 : Counts 255 (AboveT2 limit) hist t.t2Count.toNat
  t3 : Counts 255 (AboveT3 limit) hist t.t3Count.toNat

theorem windows_start : Windows limit (initThrottlers fw) [] :=
  ⟨rfl, rfl, Nat.two_pow_pos 16, Counts.nil, Counts.nil⟩

theorem Windows.pass (h : Windows limit t hist) (hlimit : t.powerLimit = limit) :
    Windows limit (updateDoppler t r uptime) (hist ++ [r.currentPower]) where
  t2On := h.t2On
  t3On := h.t3On
  limit_lt := h.limit_lt
  t2 := counts_countAbove h.t2 (hlimit ▸ aboveT2_iff h.limit_lt)
  t3 := counts_countAbove h.t3 (hlimit ▸ aboveT3_iff h.limit_lt)

theorem Windows.call {c : Call} (h : Windows limit t hist)
    (hlimit : ∀ r, c = .calculate r → dopplerActive t = true → t.powerLimit = limit) :
    Windows limit (throttlerAfter fw t uptime c) (recordSample t hist c) := by
  obtain ⟨r, rfl, hactive, hafter⟩ | ⟨hpassive, hcount2, hcount3, -⟩ :=
    throttlerAfter_doppler fw t uptime c
  · rw [hafter, recordSample, if_pos hactive]
    exact h.pass (hlimit r rfl hactive)
  · obtain ⟨hdoppler, hT2, hT3, -⟩ := throttlerAfter_config fw t uptime c
    rw [recordSample_passive hpassive]
    exact ⟨by rw [hT2, hdoppler, h.t2On], by rw [hT3, hdoppler, h.t3On],
      powerLimit_lt h.limit_lt, hcount2 ▸ h.t2, hcount3 ▸ h.t3⟩

variable {s s' : World × List UInt16}

theorem sampledStep_windows (h : Windows limit s.1.throttler s.2) (hlimit : LimitIs limit s a)
    (hstep : sampledStep fw s a = some s') : Windows limit s'.1.throttler s'.2 := by
  obtain ⟨w', hw, rfl⟩ := Option.map_eq_some_iff.mp hstep
  rw [step_throttler hw]
  refine h.call fun r hr => ?_
  obtain ⟨time, c⟩ := a
  obtain rfl : c = .calculate r := hr
  exact hlimit

theorem run_windows {as : List (ℕ × Call)} (h : Windows limit s.1.throttler s.2)
    (hlimit : Along (sampledStep fw) (LimitIs limit) s as)
    (hrun : exec (sampledStep fw) s as = some s') : Windows limit s'.1.throttler s'.2 :=
  @exec_invariant_along _ _ (sampledStep fw) s s' as (fun s => Windows limit s.1.throttler s.2)
    (LimitIs limit) (fun _ _ _ => sampledStep_windows) h hlimit hrun

/-- **The cap is on just when a window is full.** In every run in which all passes of Doppler have
the same limit, the cap is on after a pass just when the last 10 samples were above twice the
limit, or the last 2 above two and a half times the limit; and then the NOPs are on. -/
theorem doppler_critical_iff {fw : FwTable} {now time : ℕ} {limit : UInt32}
    {as : List (ℕ × Call)} {w w' : World} {hist : List UInt16} {r : Readings}
    (hrun : exec (sampledStep fw) (World.start fw now, []) as = some (w, hist))
    (hlimit : Along (sampledStep fw) (LimitIs limit) (World.start fw now, []) as)
    (hactive : dopplerActive w.throttler = true) (hsame : w.throttler.powerLimit = limit)
    (hpass : step fw w (time, .calculate r) = some w') :
    (w'.throttler.dopplerCriticalEnabled = true ↔
        LastAll 10 (AboveT2 limit) (hist ++ [r.currentPower]) ∨
          LastAll 2 (AboveT3 limit) (hist ++ [r.currentPower])) ∧
      (w'.throttler.dopplerCriticalEnabled = true →
        w'.throttler.nops.kernelNopsEnabled = true) := by
  have hwin : Windows limit w.throttler hist := run_windows windows_start hlimit hrun
  have hdoppler : w.throttler.doppler = true := (Bool.and_eq_true_iff.mp hactive).1
  have hafter : w'.throttler = updateDoppler w.throttler r (UInt32.ofNat time) := by
    rw [step_throttler hpass]
    exact if_pos hactive
  have hnext := @Windows.pass limit hist r w.throttler (UInt32.ofNat time) hwin hsame
  rw [hafter, critical_updateDoppler (hwin.t2On.trans hdoppler) (hwin.t3On.trans hdoppler),
    hnext.t2 10 (by decide), hnext.t3 2 (by decide)]
  refine ⟨Iff.rfl, fun hfull => nops_of_critical ?_⟩
  rw [critical_updateDoppler (hwin.t2On.trans hdoppler) (hwin.t3On.trans hdoppler),
    hnext.t2 10 (by decide), hnext.t3 2 (by decide)]
  exact hfull

def dopplerTable : FwTable := ⟨true, false, 0, 450⟩

def midRange (power : UInt16) : Readings := ⟨power, 800, 200, 1400, 200, false, false⟩

theorem doppler_critical_two_samples : ∃ w w' hist,
    exec (sampledStep dopplerTable) (World.start dopplerTable 0, [])
        [(1, .setPowerLimit 100), (2, .calculate (midRange 300))] = some (w, hist) ∧
      step dopplerTable w (3, .calculate (midRange 300)) = some w' ∧
      w'.throttler.dopplerCriticalEnabled = true ∧
      (w'.throttler.dopplerCriticalEnabled = true ↔
        LastAll 10 (AboveT2 100) (hist ++ [300]) ∨ LastAll 2 (AboveT3 100) (hist ++ [300])) ∧
      (w'.throttler.dopplerCriticalEnabled = true →
        w'.throttler.nops.kernelNopsEnabled = true) := by
  have hrun : exec (sampledStep dopplerTable) (World.start dopplerTable 0, [])
      [(1, .setPowerLimit 100), (2, .calculate (midRange 300))] = some _ := rfl
  refine ⟨_, _, _, hrun, rfl, by decide, @doppler_critical_iff dopplerTable 0 3 100 _ _ _ _
    (midRange 300) hrun ⟨trivial, ?_⟩ (by decide) rfl rfl⟩
  intro t ht
  obtain rfl := Option.some.inj ht
  exact ⟨fun _ => rfl, fun _ _ => trivial⟩

-- ---
-- Release

/-- When a limit update ends Doppler, the cap is off, and so are the NOPs unless the throttler at
the floor can release them. -/
def EndsReleased (fw : FwTable) (w : World) : ℕ × Call → Prop
  | (_, .setPowerLimit limit) =>
    dopplerActive w.throttler = true →
      dopplerActive (dm2CmSetBoardPowerLimit fw w.throttler limit) = false →
        w.throttler.dopplerCriticalEnabled = false ∧
          (w.throttler.nops.kernelNopsEnabled = true → w.throttler.kernelNopsAtAiclkFmin = true)
  | _ => True

/-- Without Doppler the cap is off, and NOPs are on only with the feature on. -/
def Released (t : Statics) : Prop :=
  dopplerActive t = false → t.dopplerCriticalEnabled = false ∧
    (t.nops.kernelNopsEnabled = true → t.kernelNopsAtAiclkFmin = true)

section

variable {fw : FwTable} {t : Statics} {uptime : UInt32}

theorem Released.kernelThrottler {r : Readings} (h : Released t) (hpassive : dopplerActive t = false) :
    Released (updateKernelThrottler t r uptime) := by
  intro _
  obtain ⟨hcap, hnops⟩ := h hpassive
  refine ⟨hcap, fun hon => ?_⟩
  -- With the feature off, the pass starts nothing, and the NOPs were off before.
  by_contra hoff
  have hfeature : t.kernelNopsAtAiclkFmin = false := Bool.not_eq_true _ ▸ hoff
  have hwas : t.nops.kernelNopsEnabled = false := by
    by_contra hwas
    exact hoff (hnops (Bool.not_eq_false _ ▸ hwas))
  simp [updateKernelThrottler, enabled_setKernelNops, hfeature, hwas] at hon

theorem Released.setEnabled {enabled : UInt32} (h : Released t) :
    Released (throttlerSetKernelThrottlerEnabled t enabled uptime).2 := by
  unfold throttlerSetKernelThrottlerEnabled
  split
  · exact h
  · intro hpassive
    refine ⟨(h hpassive).1, fun hon => ?_⟩
    by_contra hoff
    have hzero : enabled = 0 := by simpa using hoff
    dsimp only at hon
    split at hon
    · cases hon
    · rename_i hnot
      exact hnot ⟨hzero, hon⟩

theorem Released.call {c : Call} {now : ℕ} {w : World} (h : Released w.throttler)
    (hends : EndsReleased fw w (now, c)) : Released (throttlerAfter fw w.throttler uptime c) := by
  cases c with
  | calculate r =>
    simp only [throttlerAfter, calculateThrottlers]
    by_cases hactive : dopplerActive w.throttler = true
    · rw [if_pos hactive]
      intro hpassive
      exact absurd (hactive.symm.trans hpassive) (by decide)
    · rw [if_neg hactive]
      exact h.kernelThrottler (Bool.not_eq_true _ ▸ hactive)
  | setEnabled enabled => exact h.setEnabled
  | setStopFreq frequency =>
    simp only [throttlerAfter, throttlerSetKernelThrottlerStopFreq]
    split
    · exact h
    · split <;> exact h
  | setPowerLimit limit =>
    intro hpassive
    by_cases hactive : dopplerActive w.throttler = true
    · exact hends hactive hpassive
    · exact h (Bool.not_eq_true _ ▸ hactive)
  | nopOnDuration windowMs =>
    have hsame : (getNOPOnDuration w.throttler.nops windowMs uptime).2.kernelNopsEnabled =
        w.throttler.nops.kernelNopsEnabled := enabled_getNOPOnDuration
    intro hpassive
    exact ⟨(h hpassive).1, fun hon => (h hpassive).2 (hsame ▸ hon)⟩

end

/-- **Throttling is released**, where no limit update ends Doppler while it throttles: after a
pass in which Doppler is not active and the feature is off, the NOPs and the cap are off. -/
theorem throttling_released {fw : FwTable} {now time : ℕ} {as : List (ℕ × Call)} {w w' : World}
    {r : Readings} (hrun : exec (step fw) (World.start fw now) as = some w)
    (hends : Along (step fw) (EndsReleased fw) (World.start fw now) as)
    (hpassive : dopplerActive w.throttler = false)
    (hfeature : w.throttler.kernelNopsAtAiclkFmin = false)
    (hpass : step fw w (time, .calculate r) = some w') :
    w'.throttler.nops.kernelNopsEnabled = false ∧
      w'.throttler.dopplerCriticalEnabled = false := by
  have hstep : ∀ w a w', Released w.throttler → EndsReleased fw w a → step fw w a = some w' →
      Released w'.throttler := by
    intro w a w' h hends hstep
    rw [step_throttler hstep]
    exact h.call hends
  have hstart : Released (World.start fw now).throttler := fun _ => ⟨rfl, fun hon => nomatch hon⟩
  have hreleased : Released w.throttler :=
    @exec_invariant_along _ _ (step fw) _ w as (fun w => Released w.throttler) (EndsReleased fw)
      hstep hstart hends hrun
  have hafter : w'.throttler = updateKernelThrottler w.throttler r (UInt32.ofNat time) := by
    rw [step_throttler hpass]
    exact if_neg (by rw [hpassive]; decide)
  have hreleased' : Released w'.throttler := hstep w (time, .calculate r) w' hreleased trivial hpass
  rw [hafter] at hreleased' ⊢
  obtain ⟨hcap, hnops⟩ := hreleased' hpassive
  refine ⟨?_, hcap⟩
  by_contra hon
  have hfeature' := hnops (Bool.not_eq_false _ ▸ hon)
  exact absurd (hfeature.symm.trans hfeature') (by decide)

theorem released_after_one_sample : ∃ w w',
    exec (step dopplerTable) (World.start dopplerTable 0)
        [(1, .setPowerLimit 100), (2, .calculate (midRange 300)), (3, .setPowerLimit 0)] = some w ∧
      step dopplerTable w (4, .calculate (midRange 300)) = some w' ∧
      w'.throttler.nops.kernelNopsEnabled = false ∧
      w'.throttler.dopplerCriticalEnabled = false := by
  have hrun : exec (step dopplerTable) (World.start dopplerTable 0)
      [(1, .setPowerLimit 100), (2, .calculate (midRange 300)), (3, .setPowerLimit 0)] = some _ := rfl
  refine ⟨_, _, hrun, rfl, @throttling_released dopplerTable 0 4 _ _ _ (midRange 300)
    hrun ?_ (by decide) (by decide) rfl⟩
  refine ⟨fun hactive => absurd hactive (by decide), fun t ht => ?_⟩
  obtain rfl := Option.some.inj ht
  refine ⟨trivial, fun t ht => ?_⟩
  obtain rfl := Option.some.inj ht
  exact ⟨fun _ _ => by decide, fun _ _ => trivial⟩

/-- The throttler's last pass of a run: Doppler active, feature on, NOPs on, cap on. -/
def throttlingAfter (as : List (ℕ × Call)) : Option (Bool × Bool × Bool × Bool) :=
  (exec (step dopplerTable) (World.start dopplerTable 0) as).map fun w =>
    (dopplerActive w.throttler, w.throttler.kernelNopsAtAiclkFmin,
      w.throttler.nops.kernelNopsEnabled, w.throttler.dopplerCriticalEnabled)

/-- Two samples of 300 W at a limit of 100 W switch NOPs and cap on; with the limit set to 0,
passes at no power leave both on. -/
theorem limit_removed_while_throttling :
    throttlingAfter [(1, .setPowerLimit 100), (2, .calculate (midRange 300)), (3, .calculate (midRange 300)),
        (4, .setPowerLimit 0), (5, .calculate (midRange 0)), (6, .calculate (midRange 0))] =
      some (false, false, true, true) := by
  decide

end SystemFirmware.Throttler
