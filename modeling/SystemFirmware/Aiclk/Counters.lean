import Mathlib.Algebra.Ring.Nat
import SystemFirmware.Aiclk.Limits

/-!
# AICLK arbitration — the throttle counters

`CalculateTargAiclk` finds the limiting arbiter in one loop and counts it in another. The
first keeps the lowest value truncated to an integer, the second counts the arbiters equal
to the target. The values are floats, which the throttlers move by fractions, so the
limiting one may not be counted (`limiting_arbiter_counted`).
-/

namespace SystemFirmware.Aiclk

open Lib

-- ---
-- Arbiters and their numbers

theorem ArbMax.mem_all (i : ArbMax) : i ∈ ArbMax.all := by
  cases i <;> decide

theorem ArbMax.nodup_all : ArbMax.all.Nodup := by
  decide

theorem ArbMax.toNat_index (i : ArbMax) : i.index.toNat = ArbMax.all.idxOf i := by
  have hlt : ArbMax.all.idxOf i < 11 := List.idxOf_lt_length_of_mem i.mem_all
  exact UInt32.toNat_ofNat_of_lt' (show _ < 2 ^ 32 by omega)

theorem ArbMax.index_inj {i j : ArbMax} (h : i.index = j.index) : i = j := by
  have hidx := congrArg UInt32.toNat h
  rw [i.toNat_index, j.toNat_index] at hidx
  exact (List.idxOf_inj i.mem_all).mp hidx

theorem ArbMax.index_ne_length (i : ArbMax) : i.index ≠ UInt32.ofNat ArbMax.all.length := by
  intro h
  have hlt : ArbMax.all.idxOf i < 11 := List.idxOf_lt_length_of_mem i.mem_all
  have hidx := congrArg UInt32.toNat h
  rw [i.toNat_index, show (UInt32.ofNat ArbMax.all.length).toNat = 11 from rfl] at hidx
  omega

-- ---
-- Truncation

section

variable {q : ℚ} {bound : UInt32}

theorem toNat_truncate (hq : 0 ≤ q) (hbound : q ≤ bound.toNat) :
    ((truncate q).toNat : ℤ) = q.floor := by
  have hlt := bound.toNat_lt
  have hnonneg : 0 ≤ q.floor := Rat.le_floor_iff.mpr (by exact_mod_cast hq)
  have hle : q.floor ≤ (bound.toNat : ℤ) := by
    exact_mod_cast (Rat.floor_le q).trans hbound
  have hof : (truncate q).toNat = q.floor.toNat :=
    UInt32.toNat_ofNat_of_lt' (show _ < 2 ^ 32 by omega)
  omega

theorem truncate_le (hq : 0 ≤ q) (hbound : q ≤ bound.toNat) : ((truncate q).toNat : ℚ) ≤ q := by
  have hfloor : (((truncate q).toNat : ℤ) : ℚ) ≤ q := by
    rw [toNat_truncate hq hbound]
    exact Rat.floor_le q
  exact_mod_cast hfloor

theorem truncate_natCast {n : ℕ} (hbound : (n : ℚ) ≤ bound.toNat) :
    ((truncate (n : ℚ)).toNat : ℚ) = n := by
  have hlower : (n : ℤ) ≤ (n : ℚ).floor := Rat.le_floor_iff.mpr (by exact_mod_cast le_refl (n : ℚ))
  rw [← toNat_truncate (Nat.cast_nonneg n) hbound] at hlower
  exact le_antisymm (truncate_le (Nat.cast_nonneg n) hbound) (by exact_mod_cast hlower)

end

-- ---
-- The lowest maximum

section

variable {ι : Type} {index : ι → UInt32} {arbiter : ι → AiclkArb} {best : UInt32 × UInt32}
  {arbs : List ι}

/-- The loop of `get_aiclk_effective_arb_max`. -/
def lowestArb (index : ι → UInt32) (arbiter : ι → AiclkArb) (best : UInt32 × UInt32)
    (arbs : List ι) : UInt32 × UInt32 :=
  effectiveArb (fun value effective => decide (value ≤ effective)) index arbiter best arbs

theorem lowestArb_cons_lower {i : ι} (hon : (arbiter i).enabled = true)
    (hle : (arbiter i).value ≤ best.1.toNat) :
    lowestArb index arbiter best (i :: arbs) =
      lowestArb index arbiter (truncate (arbiter i).value, index i) arbs := by
  rw [lowestArb, effectiveArb, List.foldl_cons, if_pos (by simp [hon, hle])]
  rfl

theorem lowestArb_cons_other {i : ι}
    (hnot : (arbiter i).enabled = true → (best.1.toNat : ℚ) < (arbiter i).value) :
    lowestArb index arbiter best (i :: arbs) = lowestArb index arbiter best arbs := by
  have hcond : ((arbiter i).enabled && decide ((arbiter i).value ≤ best.1.toNat)) ≠ true := by
    intro h
    obtain ⟨hon, hle⟩ := Bool.and_eq_true_iff.mp h
    exact absurd (of_decide_eq_true hle) (not_le.mpr (hnot hon))
  rw [lowestArb, effectiveArb, List.foldl_cons, if_neg hcond]
  rfl

theorem lowestArb_spec (hnonneg : ∀ i, 0 ≤ (arbiter i).value) :
    (lowestArb index arbiter best arbs).1.toNat ≤ best.1.toNat ∧
      (∀ j ∈ arbs, (arbiter j).enabled = true →
        ((lowestArb index arbiter best arbs).1.toNat : ℚ) ≤ (arbiter j).value) ∧
      (lowestArb index arbiter best arbs = best ∨ ∃ i ∈ arbs, (arbiter i).enabled = true ∧
        (arbiter i).value ≤ best.1.toNat ∧
        lowestArb index arbiter best arbs = (truncate (arbiter i).value, index i)) := by
  induction arbs generalizing best with
  | nil => exact ⟨le_refl _, nofun, .inl rfl⟩
  | cons i arbs ih =>
    by_cases hlower : (arbiter i).enabled = true ∧ (arbiter i).value ≤ best.1.toNat
    · obtain ⟨hon, hle⟩ := hlower
      rw [lowestArb_cons_lower hon hle]
      obtain ⟨hfirst, hall, hfrom⟩ := @ih (truncate (arbiter i).value, index i)
      have htrunc := truncate_le (hnonneg i) hle
      have hsmaller : (truncate (arbiter i).value).toNat ≤ best.1.toNat := by
        exact_mod_cast htrunc.trans hle
      refine ⟨hfirst.trans hsmaller, ?_, .inr ?_⟩
      · refine List.forall_mem_cons.mpr ⟨fun _ => ?_, hall⟩
        exact (Nat.cast_le.mpr hfirst).trans htrunc
      · obtain heq | ⟨j, hj, hjon, hjle, heq⟩ := hfrom
        · exact ⟨i, List.mem_cons_self, hon, hle, heq⟩
        · exact ⟨j, List.mem_cons_of_mem i hj, hjon,
            hjle.trans (Nat.cast_le.mpr hsmaller), heq⟩
    · have hnot : (arbiter i).enabled = true → (best.1.toNat : ℚ) < (arbiter i).value :=
        fun hon => not_le.mp fun hle => hlower ⟨hon, hle⟩
      rw [lowestArb_cons_other hnot]
      obtain ⟨hfirst, hall, hfrom⟩ := @ih best
      refine ⟨hfirst, List.forall_mem_cons.mpr ⟨fun hon => ?_, hall⟩, ?_⟩
      · exact (Nat.cast_le.mpr hfirst).trans (hnot hon).le
      · obtain heq | ⟨j, hj, hjon, hjle, heq⟩ := hfrom
        · exact .inl heq
        · exact .inr ⟨j, List.mem_cons_of_mem i hj, hjon, hjle, heq⟩

end

-- ---
-- The values stay non-negative

section

variable {s t : State}

theorem clampFloat_nonneg (freq : Float32Value) (low high : UInt32) : 0 ≤ clampFloat freq low high := by
  have hcast : ∀ n : ℕ, (0 : ℚ) ≤ n := Nat.cast_nonneg
  unfold clampFloat
  split
  · exact hcast _
  · exact hcast _
  · split_ifs with hlow hhigh
    · exact hcast _
    · exact (hcast _).trans (not_le.mp hlow).le
    · exact hcast _
  · exact hcast _

def NonnegMax (s : State) : Prop := ∀ i, 0 ≤ (s.arbiterMax i).value

theorem NonnegMax.update {arb : ArbMax} {new : AiclkArb} (h : NonnegMax s) (hnew : 0 ≤ new.value) :
    ∀ i, 0 ≤ (Function.update s.arbiterMax arb new i).value :=
  (Function.forall_update_iff s.arbiterMax fun _ a => 0 ≤ a.value).mpr ⟨hnew, fun i _ => h i⟩

theorem NonnegMax.setAiclkArbMax (h : NonnegMax s) (arb : ArbMax) (freq : Float32Value) :
    NonnegMax (setAiclkArbMax arb freq s) :=
  h.update (clampFloat_nonneg _ _ _)

theorem NonnegMax.enableArbMax (h : NonnegMax s) (arb : ArbMax) (enable : Bool) :
    NonnegMax (enableArbMax arb enable s) :=
  h.update (h arb)

theorem step_nonnegMax {a : Action} (h : NonnegMax s) (hstep : step s a = some t) : NonnegMax t := by
  refine step_arbiter_rule ?_ (fun _ arb freq h => h.setAiclkArbMax arb freq) (fun _ _ _ h => h)
    (fun _ arb enable h => h.enableArbMax arb enable) (fun _ _ _ h => h) h hstep
  intro s t hs _ _ hmax _ _ i
  rw [hmax]
  exact hs i

theorem init_nonnegMax (configArc : Bool) (limits : ChipLimits) (bootFreq : UInt32) :
    NonnegMax (initAiclkPPM configArc limits bootFreq) :=
  NonnegMax.enableArbMax (fun _ => Nat.cast_nonneg _) _ _

-- ---
-- The counting loop

variable {targFreq : UInt32} {i : ArbMax} {arbs : List ArbMax}

/-- The condition under which the loop counts an arbiter. -/
def Counting (targFreq : UInt32) (s : State) (i : ArbMax) : Prop :=
  (s.arbiterMax i).enabled = true ∧ (s.arbiterMax i).value = targFreq.toNat ∧ targFreq ≠ s.fmax ∧
    (s.arbiterMin .busy).value = s.fmax.toNat ∧ s.frozenMask &&& (1 : UInt32) <<< i.index = 0

theorem Counting.congr (h : Counting targFreq s i) (hbut : SameButCounters s t) :
    Counting targFreq t i := by
  obtain ⟨counts, overflow, rfl⟩ := hbut
  exact h

theorem countThrottler_eq (hcounting : Counting targFreq s i)
    (hroom : s.finalArbiterCount i < 0xffffffff) :
    (countThrottler targFreq s i).finalArbiterCount i = s.finalArbiterCount i + 1 := by
  obtain ⟨hon, hvalue, htarg, hbusy, hfrozen⟩ := hcounting
  have hcond : ((s.arbiterMax i).enabled && (s.arbiterMax i).value == targFreq.toNat &&
      targFreq != s.fmax && (s.arbiterMin .busy).value == s.fmax.toNat &&
      s.frozenMask &&& (1 : UInt32) <<< i.index == 0) = true := by
    simp only [hon, hvalue, hbusy, hfrozen, bne_iff_ne.mpr htarg, beq_self_eq_true, Bool.and_self]
  unfold countThrottler
  dsimp only
  rw [if_pos hcond, if_pos hroom]
  exact Function.update_self i _ _

theorem countThrottler_of_ne (hvalue : (s.arbiterMax i).value ≠ targFreq.toNat) :
    (countThrottler targFreq s i).finalArbiterCount i = s.finalArbiterCount i := by
  unfold countThrottler
  dsimp only
  rw [if_neg (by simp [hvalue])]

theorem countThrottler_other {j : ArbMax} (hne : i ≠ j) :
    (countThrottler targFreq s j).finalArbiterCount i = s.finalArbiterCount i := by
  unfold countThrottler
  dsimp only
  split_ifs
  · exact Function.update_of_ne hne _ _
  · rfl
  · rfl

theorem foldl_countThrottler_other (hnot : i ∉ arbs) :
    (arbs.foldl (countThrottler targFreq) s).finalArbiterCount i = s.finalArbiterCount i := by
  induction arbs generalizing s with
  | nil => rfl
  | cons j arbs ih =>
    obtain ⟨hne, hrest⟩ := not_or.mp (mt List.mem_cons.mpr hnot)
    rw [List.foldl_cons, ih hrest, countThrottler_other hne]

theorem foldl_countThrottler : ∃ t, SameButCounters s t ∧
    t.finalArbiterCount i = s.finalArbiterCount i ∧
    (ArbMax.all.foldl (countThrottler targFreq) s).finalArbiterCount i =
      (countThrottler targFreq t i).finalArbiterCount i := by
  obtain ⟨before, after, hall⟩ := List.append_of_mem i.mem_all
  have hnodup := ArbMax.nodup_all
  rw [hall, List.nodup_append, List.nodup_cons] at hnodup
  obtain ⟨-, ⟨hafter, -⟩, hapart⟩ := hnodup
  have hbefore : i ∉ before := fun hmem => hapart i hmem i List.mem_cons_self rfl
  refine ⟨before.foldl (countThrottler targFreq) s,
    SameButCounters.foldl (sameButCounters_countThrottler targFreq) before,
    foldl_countThrottler_other hbefore, ?_⟩
  rw [hall, List.foldl_append, List.foldl_cons, foldl_countThrottler_other hafter]

theorem foldl_countThrottler_eq (hcounting : Counting targFreq s i)
    (hroom : s.finalArbiterCount i < 0xffffffff) :
    (ArbMax.all.foldl (countThrottler targFreq) s).finalArbiterCount i =
      s.finalArbiterCount i + 1 := by
  obtain ⟨t, hbut, hsame, hcount⟩ := @foldl_countThrottler s targFreq i
  rw [← hsame] at hroom ⊢
  rw [hcount, countThrottler_eq (hcounting.congr hbut) hroom]

theorem foldl_countThrottler_of_ne (hvalue : (s.arbiterMax i).value ≠ targFreq.toNat) :
    (ArbMax.all.foldl (countThrottler targFreq) s).finalArbiterCount i = s.finalArbiterCount i := by
  obtain ⟨t, hbut, hsame, hcount⟩ := @foldl_countThrottler s targFreq i
  have hvalue' : (t.arbiterMax i).value ≠ targFreq.toNat := by
    obtain ⟨counts, overflow, rfl⟩ := hbut
    exact hvalue
  rw [hcount, countThrottler_of_ne hvalue', hsame]

-- ---
-- The recorded arbiter

theorem arbitrate_of_recorded {rand arbiter : UInt32}
    (h : (calculateTargAiclk rand s).limArbInfo = ⟨.maxArb, arbiter⟩) :
    (arbitrate s).info = ⟨.maxArb, arbiter⟩ := by
  have hcap : ∀ t, (capResetSafe s t).info = t.info := by
    intro t
    unfold capResetSafe
    split <;> rfl
  have hinfo : (applyForced s (applySweep rand s (raiseToFloor s (arbitrate s)))).info =
      ⟨.maxArb, arbiter⟩ := (hcap _).symm.trans h
  unfold applyForced applySweep raiseToFloor at hinfo
  split_ifs at hinfo
  all_goals first | exact hinfo | exact absurd (congrArg TargFreqInfo.reason hinfo) nofun

theorem recorded_spec {rand : UInt32} (hnonneg : NonnegMax s)
    (h : (calculateTargAiclk rand s).limArbInfo = ⟨.maxArb, i.index⟩) :
    (s.arbiterMax i).enabled = true ∧ (s.arbiterMax i).value ≤ s.fmax.toNat ∧
      (arbitrate s).freq = truncate (s.arbiterMax i).value ∧
      ∀ j, (s.arbiterMax j).enabled = true → ((arbitrate s).freq.toNat : ℚ) ≤ (s.arbiterMax j).value := by
  have hinfo := arbitrate_of_recorded h
  obtain ⟨-, hall, hfrom⟩ := @lowestArb_spec _ ArbMax.index s.arbiterMax
    (s.fmax, UInt32.ofNat ArbMax.all.length) ArbMax.all hnonneg
  obtain ⟨hfreq, hindex⟩ : (arbitrate s).freq = (getAiclkEffectiveArbMax s).1 ∧
      (getAiclkEffectiveArbMax s).2 = i.index := by
    unfold arbitrate at hinfo ⊢
    dsimp only at hinfo ⊢
    split_ifs at hinfo ⊢
    · exact ⟨rfl, congrArg TargFreqInfo.arbiter hinfo⟩
    · exact absurd (congrArg TargFreqInfo.reason hinfo) nofun
  rw [hfreq]
  obtain heq | ⟨j, -, hon, hle, heq⟩ := hfrom
  · exact absurd (hindex.symm.trans (congrArg Prod.snd heq)) i.index_ne_length
  · obtain rfl : j = i := ArbMax.index_inj ((congrArg Prod.snd heq).symm.trans hindex)
    exact ⟨hon, hle, congrArg Prod.fst heq, fun k hk => hall k k.mem_all hk⟩

end

/-- **The limiting arbiter is counted** exactly if its value is a whole number: then, in every
reachable state with the busy arbiter at `fmax`, a recorded maximum below `fmax` is an enabled
arbiter with the smallest value, and its counter goes up by one unless it is frozen or at its
end. -/
theorem limiting_arbiter_counted {configArc : Bool} {limits : ChipLimits} {bootFreq rand : UInt32}
    {as : List Action} {s : State} {i : ArbMax}
    (hrun : exec step (initAiclkPPM configArc limits bootFreq) as = some s)
    (hbusy : (s.arbiterMin .busy).value = s.fmax.toNat)
    (hrecorded : (calculateTargAiclk rand s).limArbInfo = ⟨.maxArb, i.index⟩)
    (hthrottling : (arbitrate s).freq ≠ s.fmax)
    (hfrozen : s.frozenMask &&& (1 : UInt32) <<< i.index = 0)
    (hroom : s.finalArbiterCount i < 0xffffffff) :
    (∃ n : ℕ, (s.arbiterMax i).value = n) ↔
      (calculateTargAiclk rand s).finalArbiterCount i = s.finalArbiterCount i + 1 ∧
        (s.arbiterMax i).enabled = true ∧
        ∀ j, (s.arbiterMax j).enabled = true → (s.arbiterMax i).value ≤ (s.arbiterMax j).value := by
  have hnonneg : NonnegMax s := exec_invariant (fun _ _ _ h hstep => step_nonnegMax h hstep)
    (init_nonnegMax configArc limits bootFreq) hrun
  obtain ⟨hon, hle, hfreq, hlowest⟩ := recorded_spec hnonneg hrecorded
  constructor
  · rintro ⟨n, hn⟩
    have hvalue : (s.arbiterMax i).value = (arbitrate s).freq.toNat := by
      rw [hfreq, hn, truncate_natCast (hn ▸ hle)]
    refine ⟨?_, hon, fun j hj => hvalue ▸ hlowest j hj⟩
    exact foldl_countThrottler_eq ⟨hon, hvalue, hthrottling, hbusy, hfrozen⟩ hroom
  · rintro ⟨hcount, -⟩
    by_contra hfraction
    have hsame : (calculateTargAiclk rand s).finalArbiterCount i = s.finalArbiterCount i :=
      foldl_countThrottler_of_ne fun hvalue => hfraction ⟨_, hvalue⟩
    exact absurd (UInt32.left_eq_add.mp (hsame.symm.trans hcount)) (by decide)

def limitedBy (thm boardPower : ℚ) : Option State :=
  exec step (initAiclkPPM true ⟨1400, 200⟩ 800)
    [.goBusy true true, .setArbMax .thm (.finite thm), .setArbMax .boardPower (.finite boardPower)]

theorem limiting_arbiter_counted_600 : ∃ s, limitedBy 600 700 = some s ∧
    (calculateTargAiclk 0 s).finalArbiterCount .thm = s.finalArbiterCount .thm + 1 ∧
      (s.arbiterMax .thm).enabled = true ∧
      ∀ j, (s.arbiterMax j).enabled = true → (s.arbiterMax .thm).value ≤ (s.arbiterMax j).value := by
  have hrun : limitedBy 600 700 = some _ := rfl
  refine ⟨_, hrun, ?_⟩
  exact (@limiting_arbiter_counted true ⟨1400, 200⟩ 800 0 _ _ .thm hrun (by decide +kernel)
    (by decide +kernel) (by decide +kernel) (by decide +kernel) (by decide +kernel)).mp
    ⟨600, by decide +kernel⟩

def countedAfter (thm boardPower : ℚ) : Option (TargFreqReason × UInt32 × UInt32 × ℚ × ℚ) :=
  (limitedBy thm boardPower).map fun s =>
    let t := calculateTargAiclk 0 s
    (t.limArbInfo.reason, t.limArbInfo.arbiter, t.finalArbiterCount .thm, (t.arbiterMax .thm).value,
      (t.arbiterMax .boardPower).value)

/-- At 600.5 and 700 MHz the thermal arbiter is recorded but not counted; at 600.5 and 600.2 MHz
too, though the other one is smaller. -/
theorem fractional_limits :
    countedAfter (6005 / 10) 700 = some (.maxArb, ArbMax.thm.index, 0, 6005 / 10, 700) ∧
      countedAfter (6005 / 10) (6002 / 10) =
        some (.maxArb, ArbMax.thm.index, 0, 6005 / 10, 6002 / 10) := by
  decide +kernel

end SystemFirmware.Aiclk
