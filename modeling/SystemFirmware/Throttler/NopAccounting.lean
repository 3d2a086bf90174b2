import Mathlib.Algebra.Ring.Nat
import SystemFirmware.Throttler.Definitions

/-!
# Throttler — the NOP accounting is exact

Every path switches the NOPs through one function, called with the opposite of the
present state (`nops_of_call`). So the switches alternate, the counter has the parity of
the state, its correction never applies, and each on-interval is banked once, at its
end.
-/

namespace SystemFirmware.Throttler

open Lib

-- ---
-- The total

variable {switches : List (ℕ × Bool)} {now : ℕ} {enabled : Bool}

theorem onTime_concat {time : ℕ} :
    onTime (switches ++ [(time, enabled)]) now =
      onTime switches time + if enabled then now - time else 0 := by
  induction switches with
  | nil => simp [onTime]
  | cons s later ih =>
    have hnext : ((later ++ [(time, enabled)]).head?.map Prod.fst).getD now =
        (later.head?.map Prod.fst).getD time := by
      cases later <;> rfl
    rw [List.cons_append, onTime, onTime, ih, hnext, Nat.add_assoc]

-- ---
-- One switch

section

variable {n : KernelNops} {enabled : Bool} {uptime : UInt32}

theorem toNat_toUInt32 (b : Bool) : b.toUInt32.toNat = b.toNat := by
  cases b <;> rfl

theorem parity_right {counter : UInt32} {switched : ℕ}
    (hcounter : counter.toNat = switched % 2 ^ 32)
    (henabled : enabled = true ↔ (switched + 1) % 2 = 1) :
    (counter + 1) &&& 1 = enabled.toUInt32 := by
  have hbit : enabled.toNat = (switched + 1) % 2 := by
    cases enabled with
    | true => simpa using (henabled.mp rfl).symm
    | false =>
      have := mt henabled.mpr (by decide)
      simp only [Bool.toNat_false]
      omega
  rw [← UInt32.toNat_inj, UInt32.toNat_and, UInt32.toNat_add, toNat_toUInt32, hbit, hcounter]
  rw [show (1 : UInt32).toNat = 1 from rfl, Nat.and_one_is_mod]
  omega

theorem setKernelNops_switch (hne : enabled ≠ n.kernelNopsEnabled)
    (hparity : (n.throttleCounter + 1) &&& 1 = enabled.toUInt32) :
    setKernelNops n enabled uptime = { n with
      kernelNopsEnabled := enabled
      throttleCounter := n.throttleCounter + 1
      nopOnSinceMs := if enabled then uptime else n.nopOnSinceMs
      nopOnAccumMs := getNOPOnAccumulatedTime n uptime } := by
  rw [setKernelNops, if_pos hne]
  simp only [sendKernelThrottlingMessage, hparity, ne_eq, not_true, if_false]
  cases enabled with
  | true =>
    have hoff : n.kernelNopsEnabled = false := by simpa using hne
    simp [getNOPOnAccumulatedTime, hoff]
  | false =>
    have hon : n.kernelNopsEnabled = true := by simpa using hne
    simp [getNOPOnAccumulatedTime, hon]

theorem setKernelNops_same : setKernelNops n n.kernelNopsEnabled uptime = n := by
  simp [setKernelNops]

/-- **Every path** switches by the one function, or leaves the statics alone. -/
theorem nops_of_call {fw : FwTable} {t : Statics} {c : Call}
    (hsample : ∀ windowMs, c ≠ .nopOnDuration windowMs) :
    ∃ enabled, (throttlerAfter fw t uptime c).nops = setKernelNops t.nops enabled uptime := by
  cases c with
  | calculate r =>
    simp only [throttlerAfter, calculateThrottlers]
    split
    · exact ⟨_, rfl⟩
    · exact ⟨_, rfl⟩
  | setEnabled value =>
    simp only [throttlerAfter, throttlerSetKernelThrottlerEnabled]
    split
    · exact ⟨_, setKernelNops_same.symm⟩
    · dsimp only
      split
      · rename_i hoff
        refine ⟨false, ?_⟩
        rw [setKernelNops, if_pos (by rw [hoff.2]; decide)]
      · exact ⟨_, setKernelNops_same.symm⟩
  | setStopFreq frequency =>
    refine ⟨t.nops.kernelNopsEnabled, ?_⟩
    rw [setKernelNops_same]
    simp only [throttlerAfter, throttlerSetKernelThrottlerStopFreq]
    split
    · rfl
    · split <;> rfl
  | setPowerLimit limit => exact ⟨_, setKernelNops_same.symm⟩
  | nopOnDuration windowMs => exact absurd rfl (hsample windowMs)

end

-- ---
-- The invariant

/-- The counter, the state and the total, against the list of switches. -/
structure Counted (n : KernelNops) (switches : List (ℕ × Bool)) (now : ℕ) : Prop where
  counter : n.throttleCounter.toNat = switches.length % 2 ^ 32
  enabled : n.kernelNopsEnabled = true ↔ switches.length % 2 = 1
  starts : switches.countP Prod.snd = (switches.length + 1) / 2
  total : ∀ later, now ≤ later →
    getNOPOnAccumulatedTime n (UInt32.ofNat later) = UInt32.ofNat (onTime switches later)

variable {n : KernelNops}

theorem Counted.later {switches : List (ℕ × Bool)} {now later : ℕ} (h : Counted n switches now)
    (hle : now ≤ later) : Counted n switches later :=
  { h with total := fun t ht => h.total t (Nat.le_trans hle ht) }

theorem Counted.switch (h : Counted n switches now) (hne : enabled ≠ n.kernelNopsEnabled) :
    Counted (setKernelNops n enabled (UInt32.ofNat now)) (switches ++ [(now, enabled)]) now := by
  have hparity : enabled = true ↔ (switches.length + 1) % 2 = 1 := by
    have hstate := h.enabled
    cases enabled <;> cases hon : n.kernelNopsEnabled <;> simp_all <;> omega
  rw [setKernelNops_switch hne (parity_right h.counter hparity)]
  have hlen : (switches ++ [(now, enabled)]).length = switches.length + 1 := by simp
  refine ⟨?_, ?_, ?_, ?_⟩
  · rw [hlen]
    show (n.throttleCounter + 1).toNat = _
    rw [UInt32.toNat_add, h.counter, show (1 : UInt32).toNat = 1 from rfl, Nat.mod_add_mod]
  · rw [hlen]
    exact hparity
  · rw [hlen, List.countP_append, h.starts]
    cases enabled <;> simp at hparity ⊢ <;> omega
  · intro later hlater
    have hbanked := h.total now le_rfl
    rw [onTime_concat]
    cases enabled with
    | false => simpa [getNOPOnAccumulatedTime] using hbanked
    | true =>
      simp only [getNOPOnAccumulatedTime, if_true] at hbanked ⊢
      rw [hbanked, UInt32.ofNat_add, UInt32.ofNat_sub hlater]

def lastTotal (samples : List (UInt32 × ℕ)) : ℕ := (samples.getLast?.map Prod.snd).getD 0

/-- The samples so far: the first one is arbitrary, the others add up. -/
structure Sampled (n : KernelNops) (samples : List (UInt32 × ℕ)) : Prop where
  seeded : n.seeded = !samples.isEmpty
  prev : samples ≠ [] → n.prevNopOnAccumMs = UInt32.ofNat (lastTotal samples)
  sum : ∀ first rest, samples = first :: rest →
    (first.2 + (rest.map fun r => r.1.toNat).sum) % 2 ^ 32 = lastTotal samples % 2 ^ 32

variable {samples : List (UInt32 × ℕ)} {uptime : UInt32}

theorem Sampled.sample {windowMs : UInt32} {total : ℕ} (h : Sampled n samples)
    (htotal : getNOPOnAccumulatedTime n uptime = UInt32.ofNat total) :
    Sampled (getNOPOnDuration n windowMs uptime).2
      (samples ++ [((getNOPOnDuration n windowMs uptime).1, total)]) := by
  have hlast : ∀ r, lastTotal (samples ++ [(r, total)]) = total := by
    intro r
    simp [lastTotal]
  have hseeded := h.seeded
  simp only [getNOPOnDuration, htotal]
  cases hsamples : samples with
  | nil =>
    rw [hsamples] at hseeded
    simp only [hseeded, List.isEmpty_nil, Bool.not_true, Bool.not_false, if_true, List.nil_append]
    refine ⟨rfl, fun _ => rfl, ?_⟩
    intro first rest heq
    obtain ⟨rfl, rfl⟩ := List.cons.inj heq
    rfl
  | cons first rest =>
    rw [hsamples] at hseeded hlast
    simp only [hseeded, List.isEmpty_cons, Bool.not_false, Bool.not_true, Bool.false_eq_true, if_false]
    refine ⟨by simp, fun _ => by rw [hlast], ?_⟩
    intro first' rest' heq
    rw [List.cons_append] at heq
    obtain ⟨rfl, rfl⟩ := List.cons.inj heq
    -- the difference to the sample before
    have hsum := h.sum first rest hsamples
    have hprev := h.prev (by rw [hsamples]; exact List.cons_ne_nil _ _)
    have hdiff : (UInt32.ofNat total - n.prevNopOnAccumMs).toNat =
        (2 ^ 32 - lastTotal samples % 2 ^ 32 + total % 2 ^ 32) % 2 ^ 32 := by
      rw [hprev, UInt32.toNat_sub, UInt32.toNat_ofNat', UInt32.toNat_ofNat']
    rw [hlast, List.map_append, List.sum_append]
    simp only [List.map_cons, List.map_nil, List.sum_cons, List.sum_nil, hdiff]
    omega

structure Inv (w : World) : Prop where
  counted : Counted w.throttler.nops w.switches w.now
  sampled : Sampled w.throttler.nops w.samples

theorem start_inv {fw : FwTable} : Inv (World.start fw now) where
  counted := ⟨rfl, by simp [World.start, initThrottlers], by simp [World.start], fun _ _ => rfl⟩
  sampled := ⟨rfl, fun h => absurd rfl h, fun _ _ h => by cases h⟩

theorem Counted.sample {windowMs : UInt32} (h : Counted n switches now) :
    Counted (getNOPOnDuration n windowMs uptime).2 switches now := by
  obtain ⟨enabled, counter, since, accum, prev, seeded⟩ := n
  cases seeded <;> exact ⟨h.counter, h.enabled, h.starts, h.total⟩

theorem Sampled.switch (h : Sampled n samples) :
    Sampled (setKernelNops n enabled uptime) samples := by
  unfold setKernelNops sendKernelThrottlingMessage
  split
  · cases enabled <;> exact ⟨h.seeded, h.prev, h.sum⟩
  · exact h

section

variable {fw : FwTable} {w w' : World} {a : ℕ × Call}

theorem enabled_setKernelNops {n : KernelNops} {enabled : Bool} {uptime : UInt32} :
    (setKernelNops n enabled uptime).kernelNopsEnabled = enabled := by
  unfold setKernelNops sendKernelThrottlingMessage
  split
  · cases enabled <;> rfl
  · rename_i hsame
    simpa using (not_not.mp hsame).symm

theorem enabled_getNOPOnDuration {n : KernelNops} {windowMs uptime : UInt32} :
    (getNOPOnDuration n windowMs uptime).2.kernelNopsEnabled = n.kernelNopsEnabled := by
  unfold getNOPOnDuration
  dsimp only
  split <;> rfl

theorem step_inv (h : Inv w) (hstep : step fw w a = some w') : Inv w' := by
  obtain ⟨now, c⟩ := a
  rw [step] at hstep
  split at hstep
  case isFalse => cases hstep
  rename_i hnow
  have hcounted := h.counted.later hnow
  by_cases hsample : ∃ windowMs, c = .nopOnDuration windowMs
  · obtain ⟨windowMs, rfl⟩ := hsample
    simp only [throttlerAfter, enabled_getNOPOnDuration, ne_eq, not_true, if_false, Option.some.injEq] at hstep
    rw [← hstep]
    exact ⟨hcounted.sample, h.sampled.sample (hcounted.total now le_rfl)⟩
  · obtain ⟨enabled, hnops⟩ := @nops_of_call (UInt32.ofNat now) fw w.throttler c
      fun windowMs heq => hsample ⟨windowMs, heq⟩
    have hafter : ⟨throttlerAfter fw w.throttler (UInt32.ofNat now) c, now,
        if enabled ≠ w.throttler.nops.kernelNopsEnabled then w.switches ++ [(now, enabled)]
          else w.switches, w.samples⟩ = w' := by
      rw [← Option.some.inj hstep, hnops, enabled_setKernelNops]
      cases c with
      | nopOnDuration windowMs => exact absurd ⟨windowMs, rfl⟩ hsample
      | calculate | setEnabled | setStopFreq | setPowerLimit => rfl
    rw [← hafter]
    refine ⟨?_, by rw [hnops]; exact h.sampled.switch⟩
    rw [hnops]
    by_cases hne : enabled = w.throttler.nops.kernelNopsEnabled
    · rw [hne, setKernelNops_same, if_neg (fun h => h rfl)]
      exact hcounted
    · rw [if_pos hne]
      exact hcounted.switch hne

-- ---
-- The result

/-- **Exact accounting**, with fewer than 2^32 - 1 switches: the low bit of the counter is the
state, the counter is the number of switches, `GetStartNOPCount` that of switches on,
`GetNOPOnAccumulatedTime` the total on-time modulo 2^32, and the samples after the first add up to
its growth. -/
theorem nop_accounting_exact {start : ℕ} {actions : List (ℕ × Call)}
    (hrun : exec (step fw) (World.start fw start) actions = some w)
    (hfew : w.switches.length < 2 ^ 32 - 1) :
    (w.throttler.nops.throttleCounter &&& 1 = w.throttler.nops.kernelNopsEnabled.toUInt32) ∧
      w.throttler.nops.throttleCounter.toNat = w.switches.length ∧
      (getStartNOPCount w.throttler.nops).toNat = w.switches.countP Prod.snd ∧
      (∀ now, w.now ≤ now → (getNOPOnAccumulatedTime w.throttler.nops (UInt32.ofNat now)).toNat =
        onTime w.switches now % 2 ^ 32) ∧
      ∀ first rest, w.samples = first :: rest →
        (first.2 + (rest.map fun r => r.1.toNat).sum) % 2 ^ 32 = lastTotal w.samples % 2 ^ 32 := by
  have h : Inv w := exec_invariant (fun _ _ _ => step_inv) start_inv hrun
  have hcounter : w.throttler.nops.throttleCounter.toNat = w.switches.length := by
    rw [h.counted.counter]
    omega
  refine ⟨?_, hcounter, ?_, ?_, h.sampled.sum⟩
  · have hstate := h.counted.enabled
    rw [← UInt32.toNat_inj, UInt32.toNat_and, toNat_toUInt32, hcounter,
      show (1 : UInt32).toNat = 1 from rfl, Nat.and_one_is_mod]
    cases hon : w.throttler.nops.kernelNopsEnabled with
    | true => exact hstate.mp hon
    | false =>
      have := mt hstate.mpr (by rw [hon]; decide)
      simp only [Bool.toNat_false]
      omega
  · rw [getStartNOPCount, UInt32.toNat_shiftRight, UInt32.toNat_add, hcounter, h.counted.starts,
      show (1 : UInt32).toNat % 32 = 1 from rfl, show (1 : UInt32).toNat = 1 from rfl,
      Nat.shiftRight_eq_div_pow, Nat.pow_one, Nat.mod_eq_of_lt (by omega)]
  · intro now hnow
    rw [h.counted.total now hnow, UInt32.toNat_ofNat']

end

def floorTable : FwTable := ⟨false, true, 0, 300⟩

/-- NOPs from 5 ms before the uptime wraps to 10 ms after; a sample before, during and after. -/
def wrappingRun : List (ℕ × Call) :=
  [(2 ^ 32 - 10, .nopOnDuration 100),
   (2 ^ 32 - 5, .calculate ⟨250, 200, 200, 1350, 400, true, false⟩),
   (2 ^ 32 + 3, .nopOnDuration 100),
   (2 ^ 32 + 10, .setEnabled 0),
   (2 ^ 32 + 40, .nopOnDuration 100)]

def afterWrappingRun : World where
  throttler := { initThrottlers floorTable with
    kernelNopsAtAiclkFmin := false
    nops := ⟨false, 2, UInt32.ofNat (2 ^ 32 - 5), 15, 15, true⟩ }
  now := 2 ^ 32 + 40
  switches := [(2 ^ 32 - 5, true), (2 ^ 32 + 10, false)]
  samples := [(0, 0), (8, 8), (7, 15)]

theorem wrappingRun_exact :
    exec (step floorTable) (World.start floorTable (2 ^ 32 - 20)) wrappingRun =
        some afterWrappingRun ∧
      (getStartNOPCount afterWrappingRun.throttler.nops).toNat = 1 ∧
      (getNOPOnAccumulatedTime afterWrappingRun.throttler.nops
        (UInt32.ofNat (2 ^ 33))).toNat = 15 := by
  have hrun : exec (step floorTable) (World.start floorTable (2 ^ 32 - 20)) wrappingRun =
      some afterWrappingRun := by decide
  have h := nop_accounting_exact hrun (by decide)
  exact ⟨hrun, h.2.2.1.trans (by decide), (h.2.2.2.1 (2 ^ 33) (by decide)).trans (by decide)⟩

end SystemFirmware.Throttler
