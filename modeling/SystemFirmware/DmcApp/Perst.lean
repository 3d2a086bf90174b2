import SystemFirmware.DmcApp.Handlers

/-!
# DmcApp — is a PERST ever lost?

The PERST callback sets `trigger_reset` of every chip. `handle_perst` takes the flag and
resets the ASIC afterwards, so a callback at any point of it is followed by a reset
(`perst_never_lost`). `jtag_bootrom_reset_sequence` resets the ASIC and clears the flag at
its end. A callback between the two is lost (`perst_lost_in_sequence`).
-/

namespace SystemFirmware.DmcApp

open Lib

variable {n : ℕ} {i chip : Fin n} {cfg : Config}

-- ---
-- Answered callbacks

def Answered (i : Fin n) (log : List (Event n)) : Prop :=
  ∀ before after, log = before ++ .perst :: after → .resetAsic i ∈ after

variable {log : List (Event n)}

theorem split_concat {before after : List (Event n)} {e : Event n} (hne : e ≠ .perst)
    (h : log ++ [e] = before ++ .perst :: after) :
    ∃ after', after = after' ++ [e] ∧ log = before ++ .perst :: after' := by
  obtain rfl | ⟨after', last, rfl⟩ := List.eq_nil_or_concat after
  · obtain ⟨-, heq⟩ := List.append_inj' h rfl
    exact absurd (List.cons.inj heq).1 hne
  · rw [List.concat_eq_append, ← List.cons_append, ← List.append_assoc] at h
    obtain ⟨hlog, heq⟩ := List.append_inj' h rfl
    exact ⟨after', by rw [List.concat_eq_append, (List.cons.inj heq).1], hlog⟩

theorem answered_reset : Answered i (log ++ [.resetAsic i]) := by
  intro before after hlog
  obtain ⟨after', rfl, -⟩ := split_concat (fun heq => by cases heq) hlog
  exact List.mem_concat_self

theorem Answered.reset (h : Answered i log) : Answered i (log ++ [.resetAsic chip]) := by
  intro before after hlog
  obtain ⟨after', rfl, hbefore⟩ := split_concat (fun heq => by cases heq) hlog
  exact List.mem_append_left _ (h before after' hbefore)

theorem answered_nil : Answered i ([] : List (Event n)) := by
  intro before after hlog
  exact absurd hlog.symm (List.append_ne_nil_of_right_ne_nil _ (List.cons_ne_nil _ _))

-- ---
-- Assertions about one chip

def Pending (i : Fin n) (s : State n) : Prop :=
  (s.chips i).triggerReset = true ∨ Answered i s.log

/-- The reset sequence of the chip is between its reset and its clearing of the flag. -/
def InGap (i : Fin n) (s : State n) : Prop :=
  (s.chips i).inSequence = true ∧ Answered i s.log

def OutsideGap (i : Fin n) (k : Irq n) (s : State n) : Prop :=
  k = .perst → (s.chips i).inSequence = false

instance (i : Fin n) (k : Irq n) (s : State n) : Decidable (OutsideGap i k s) :=
  inferInstanceAs (Decidable (_ → _))

abbrev Irqs (i : Fin n) : State n → State n → Prop := Loop.Irq (OutsideGap i) isr

variable {s : State n} {data : ChipData}

theorem pending_setChip (h : Pending i s)
    (hdata : data.triggerReset = (s.chips chip).triggerReset) :
    Pending i (s.setChip chip data) := by
  obtain hflag | hanswered := h
  · exact .inl ((keep_setChip (·.triggerReset) hdata).trans hflag)
  · exact .inr hanswered

theorem inGap_setChip (h : InGap i s) (hdata : data.inSequence = (s.chips chip).inSequence) :
    InGap i (s.setChip chip data) :=
  ⟨(keep_setChip (·.inSequence) hdata).trans h.1, h.2⟩

theorem pending_stable : Prog.Stable (Irqs i) (Pending i) := by
  rintro s t h ⟨k, -, rfl⟩
  cases k with
  | perst => exact .inl rfl
  | thermTrip chip => exact pending_setChip h rfl
  | watchdog chip => exact pending_setChip h rfl
  | pgood chip level => cases level <;> exact pending_setChip h rfl

theorem inGap_stable : Prog.Stable (Irqs i) (InGap i) := by
  rintro s t h ⟨k, hgap, rfl⟩
  cases k with
  | perst =>
    have hoff := hgap rfl
    rw [h.1] at hoff
    cases hoff
  | thermTrip chip => exact inGap_setChip h rfl
  | watchdog chip => exact inGap_setChip h rfl
  | pgood chip level => cases level <;> exact inGap_setChip h rfl

-- ---
-- Programs that keep an assertion

abbrev KeepsPending {α : Type} (i : Fin n) (p : Main n α) : Prop := Prog.Keeps (Irqs i) (Pending i) p

abbrev KeepsGap {α : Type} (i : Fin n) (p : Main n α) : Prop := Prog.Keeps (Irqs i) (InGap i) p

variable {f : ChipData → ChipData}

theorem keepsPending_modify (h : ∀ c, (f c).triggerReset = c.triggerReset) :
    KeepsPending i (modifyChip chip f) :=
  Prog.Keeps.act fun _ hs => pending_setChip hs (h _)

theorem keepsPending_modify_bind {β : Type} {k : Unit → Main n β}
    (h : ∀ c, (f c).triggerReset = c.triggerReset) (hk : KeepsPending i (k ())) :
    KeepsPending i (modifyChip chip f >>= k) :=
  (keepsPending_modify h).bind fun _ => hk

theorem keepsGap_modify (h : ∀ c, (f c).inSequence = c.inSequence) :
    KeepsGap i (modifyChip chip f) :=
  Prog.Keeps.act fun _ hs => inGap_setChip hs (h _)

theorem keeps_outcome {P : State n → Prop} : Prog.Keeps (Irqs i) P (outcome : Main n Bool) :=
  Prog.Keeps.receive.bind fun _ => Prog.Keeps.ret

theorem softResetArc_keeps : KeepsPending i (jtagBootromSoftResetArc chip) :=
  Prog.Keeps.test.ifThen (keepsPending_modify fun _ => rfl)

theorem softResetArc_keepsGap : KeepsGap i (jtagBootromSoftResetArc chip) :=
  Prog.Keeps.test.ifThen (keepsGap_modify fun _ => rfl)

theorem setPwm_keeps {duty : State n → ℕ} : KeepsPending i (setPwm cfg duty) :=
  Prog.Keeps.ret.ifThen (Prog.Keeps.act fun _ hs => hs)

theorem holdFan_keeps : KeepsPending i (holdFan cfg chip) :=
  keepsPending_modify_bind (fun _ => rfl) setPwm_keeps

-- ---
-- The two resets

theorem resetAsic_triple {P Q : State n → Prop} {inSequence : Bool}
    (hP : Prog.Stable (Irqs i) P) (hQ : Prog.Stable (Irqs i) Q)
    (hcalled : ∀ s, P s → Q (resetAsicCalled chip inSequence s))
    (hlines : ∀ asicReset spiReset s, Q s →
      Q (s.setChip chip { s.chips chip with asicReset := asicReset, spiReset := spiReset })) :
    Prog.Triple (Irqs i) P (jtagBootromResetAsic chip inSequence) fun _ => Q := by
  have hasic : ∀ b, Prog.Keeps (Irqs i) Q (modifyChip chip fun c => { c with asicReset := b }) :=
    fun b => Prog.Keeps.act fun s hs => hlines b (s.chips chip).spiReset s hs
  have hspi : ∀ b, Prog.Keeps (Irqs i) Q (modifyChip chip fun c => { c with spiReset := b }) :=
    fun b => Prog.Keeps.act fun s hs => hlines (s.chips chip).asicReset b s hs
  refine (Prog.Triple.act hP hQ hcalled).bind fun _ => Prog.Keeps.triple ?_ hQ
  refine (hasic true).bind fun _ => (hspi true).bind fun _ => keeps_outcome.ifElse ?_ Prog.Keeps.ret
  exact (hasic false).bind fun _ => (hspi false).bind fun _ => Prog.Keeps.ret

theorem resetAsic_keeps {inSequence : Bool} :
    KeepsPending i (jtagBootromResetAsic chip inSequence) := by
  intro hstable
  refine resetAsic_triple hstable hstable ?_ fun _ _ _ hs => pending_setChip hs rfl
  intro s hs
  obtain hflag | hanswered := hs
  · refine .inl (Eq.trans ?_ hflag)
    exact keep_setChip (·.triggerReset) rfl
  · exact .inr hanswered.reset

theorem pending_of_other (h : i ≠ chip) (hs : Pending i s) : Pending i (s.setChip chip data) := by
  obtain hflag | hanswered := hs
  · refine .inl ?_
    rw [State.setChip_of_ne h]
    exact hflag
  · exact .inr hanswered

theorem finish_other (h : i ≠ chip) : KeepsPending i (finishResetSequence chip) := by
  refine Prog.Keeps.test.ifElse (softResetArc_keeps.bind fun _ => ?_)
    (keepsPending_modify fun _ => rfl)
  exact Prog.Keeps.act fun _ hs => pending_of_other h hs

/-- In the gap every callback is answered, so the sequence may end in any way. -/
theorem leave_gap : Prog.Triple (Irqs i) (InGap i) (modifyChip i f) fun _ => Pending i :=
  Prog.Triple.act inGap_stable pending_stable fun _ hs => .inr hs.2

theorem finish_pending :
    Prog.Triple (Irqs i) (InGap i) (finishResetSequence i) fun _ => Pending i := by
  refine (Prog.Keeps.test.triple inGap_stable).ifElse ?_ leave_gap
  exact (softResetArc_keepsGap.triple inGap_stable).bind fun _ => leave_gap

theorem resetAsic_inGap :
    Prog.Triple (Irqs i) (Pending i) (jtagBootromResetAsic i true) fun _ => InGap i := by
  refine resetAsic_triple pending_stable inGap_stable (fun s _ => ⟨?_, answered_reset⟩)
    fun _ _ _ hs => inGap_setChip hs rfl
  exact congrArg ChipData.inSequence (State.setChip_self (s := s))

theorem resetSequence_pending {forceReset : Bool} :
    KeepsPending i (jtagBootromResetSequence chip forceReset) := by
  have hforce : KeepsPending i (modifyChip chip fun c => { c with triggerReset := true }) := by
    refine Prog.Keeps.act fun s hs => ?_
    by_cases hi : i = chip
    · rw [hi]
      exact .inl (congrArg ChipData.triggerReset State.setChip_self)
    · exact pending_of_other hi hs
  refine (Prog.Keeps.ret.ifThen hforce).bind fun _ => keepsPending_modify_bind (fun _ => rfl) ?_
  have hret : ∀ ret : Bool, KeepsPending i (pure ret : Main n Bool) := fun _ => Prog.Keeps.ret
  by_cases hi : i = chip
  · rw [← hi]
    intro hstable
    refine resetAsic_inGap.ifElse (finish_pending.bind fun _ => (hret true).triple hstable) ?_
    exact leave_gap.bind fun _ => (hret false).triple hstable
  · refine resetAsic_keeps.ifElse ((finish_other hi).bind fun _ => hret true) ?_
    exact keepsPending_modify_bind (fun _ => rfl) (hret false)

-- ---
-- The handlers

theorem takeTriggerReset_pending : Prog.Triple (Irqs i) (Pending i) (takeTriggerReset i)
    fun taken s => taken = true ∨ Pending i s := by
  refine Prog.Triple.swap pending_stable ?_ ?_
  · intro b s t hs hst
    exact hs.imp id fun hs => pending_stable s t hs hst
  · intro s hs
    obtain hflag | hanswered := hs
    · exact .inl hflag
    · exact .inr (.inr hanswered)

theorem handlePerst_pending : KeepsPending i (handlePerst chip) := by
  have hafter : KeepsPending i
      (Prog.ifThen (readChip chip (·.triggerReset)) (cancelBusTransferSet chip) >>=
        fun _ => modifyChip chip fun c =>
          { c with thermTripCount := 0, arcHangPc := 0, performingReset := false }) :=
    Prog.Keeps.bind (Prog.Keeps.test.ifThen (keepsPending_modify fun _ => rfl)) fun _ =>
      keepsPending_modify fun _ => rfl
  by_cases hi : i = chip
  · rw [← hi] at hafter ⊢
    intro hstable
    -- between taking the flag and the reset, nothing is known of it
    have hany : Prog.Stable (Irqs i) fun _ => True := fun _ _ _ _ => trivial
    have hmodify : ∀ f, Prog.Triple (Irqs i) (fun _ => True) (modifyChip i f) fun _ _ => True :=
      fun f => Prog.Triple.act hany hany fun _ _ => trivial
    have hreset : Prog.Triple (Irqs i) (fun _ => True) (jtagBootromResetAsic i false)
        fun _ => Pending i :=
      resetAsic_triple hany hstable (fun _ _ => .inr answered_reset)
        fun _ _ _ hs => pending_setChip hs rfl
    refine takeTriggerReset_pending.ifElse ?_ ?_
    · refine Prog.Triple.conseq ?_ (fun _ _ => trivial) fun _ _ => id
      refine (hmodify _).bind fun _ => (hmodify _).bind fun _ => (hmodify _).bind fun _ => ?_
      refine Prog.Triple.bind ?_ fun _ => hafter.triple hstable
      exact hreset.ifElse (softResetArc_keeps.triple hstable) (Prog.Keeps.ret.triple hstable)
    · refine (Prog.Keeps.ret.triple hstable).conseq ?_ fun _ _ => id
      exact fun s hs => hs.resolve_left (by decide)
  · refine Prog.Keeps.ifThen (Prog.Keeps.swap fun s hs => pending_of_other hi hs) ?_
    refine keepsPending_modify_bind (fun _ => rfl) (keepsPending_modify_bind (fun _ => rfl) ?_)
    refine keepsPending_modify_bind (fun _ => rfl) ?_
    exact Prog.Keeps.bind (resetAsic_keeps.ifThen softResetArc_keeps) fun _ => hafter

theorem pgoodFell_keeps : KeepsPending i (pgoodFell chip) := by
  refine Prog.Keeps.test.ifThen (Prog.Keeps.receive.bind fun _ => ?_)
  refine keepsPending_modify_bind (fun _ => rfl) ?_
  exact keepsPending_modify_bind (fun _ => rfl) (keepsPending_modify fun _ => rfl)

theorem processFanSpeed_keeps {forced : Bool} {data : UInt32} :
    KeepsPending i (processFanSpeed cfg chip forced data) :=
  keepsPending_modify_bind (fun _ => rfl) (setPwm_keeps.bind fun _ => Prog.Keeps.ret)

theorem pending_bodyLogic :
    BodyLogic cfg (fun _ => True) fun _ (p : Main n _) => KeepsPending i p where
  ret := fun _ => Prog.Keeps.ret
  halt := Prog.Keeps.halt
  read := fun _ _ => Prog.Keeps.test
  bind := Prog.Keeps.bind
  receive := fun hk => Prog.Keeps.receive.bind fun input => hk input trivial
  quiet := fun _ _ hf => keepsPending_modify fun c => congrArg Watched.triggerReset (hf c)
  holdFan := fun _ => holdFan_keeps
  fanMessage := fun _ _ _ _ _ _ _ => processFanSpeed_keeps
  resetSequence := fun _ _ => resetSequence_pending
  perst := fun _ => handlePerst_pending
  pgoodFell := fun _ => pgoodFell_keeps

theorem mainBody_keeps : KeepsPending i (mainBody cfg) := pending_bodyLogic.mainBody

-- ---
-- The result

/-- **A PERST is never lost** for a chip, unless it comes while the reset sequence of that chip is
between its reset and its clearing of `trigger_reset`: whenever the loop waits with the flag
clear, each callback so far has been followed by a reset. -/
theorem perst_never_lost {s : State n} {m : Loop (State n) Input}
    {actions : List (Loop.Action Input (Irq n))} (hstart : s.log = [])
    (houtside : Along (Loop.step (mainBody cfg) isr) (Loop.Allowed (OutsideGap i)) ⟨s, .ret ()⟩
      actions)
    (hrun : exec (Loop.step (mainBody cfg) isr) ⟨s, .ret ()⟩ actions = some m)
    (hwaiting : m.waiting = true) (hclear : (m.shared.chips i).triggerReset = false) :
    Answered i m.shared.log := by
  have hpending : Pending i s := .inr (by rw [hstart]; exact answered_nil)
  have h := Loop.loop_invariant (mainBody_keeps.triple pending_stable) pending_stable hpending houtside hrun hwaiting
  exact h.resolve_left (by rw [hclear]; decide)

def oneChip : State 1 where
  chips := fun _ => ⟨false, false, false, false, false, 0, false, false, false, 0, 0, 0, 0, false, 35,
    false, 0, false, false, false, false, false⟩
  pwm := []
  log := []

def onlyChip : Fin 1 := ⟨0, Nat.zero_lt_one⟩

/-- Steps of the main loop in which nothing fails and no message is there. -/
def mainSteps (k : ℕ) : List (Loop.Action Input (Irq 1)) :=
  List.replicate k (.main ⟨true, 0, 0, none⟩)

def runOneChip (actions : List (Loop.Action Input (Irq 1))) : Option (Loop (State 1) Input) :=
  exec (Loop.step (mainBody ⟨true, true⟩) isr) ⟨oneChip, .ret ()⟩ actions

def twoPersts : List (Loop.Action Input (Irq 1)) :=
  [.irq .perst, .wake] ++ mainSteps 8 ++ [.irq .perst] ++ mainSteps 14 ++ [.wake] ++ mainSteps 20

def afterTwoPersts : Loop (State 1) Input := (runOneChip twoPersts).get (by decide +kernel)

theorem twoPersts_not_lost :
    runOneChip twoPersts = some afterTwoPersts ∧ afterTwoPersts.waiting = true ∧
      (afterTwoPersts.shared.chips onlyChip).triggerReset = false ∧
      Answered onlyChip afterTwoPersts.shared.log := by
  have hrun : runOneChip twoPersts = some afterTwoPersts := (Option.some_get _).symm
  have hwaiting : afterTwoPersts.waiting = true := by decide +kernel
  have hclear : (afterTwoPersts.shared.chips onlyChip).triggerReset = false := by decide +kernel
  exact ⟨hrun, hwaiting, hclear,
    perst_never_lost rfl (by decide +kernel) hrun hwaiting hclear⟩

def perstInSequence : List (Loop.Action Input (Irq 1)) :=
  [.irq (.thermTrip onlyChip), .wake] ++ mainSteps 13 ++ [.irq .perst] ++ mainSteps 19

/-- **A PERST in the reset sequence is lost**: the loop waits with the flag clear, and the
only reset began before the callback. -/
theorem perst_lost_in_sequence :
    (runOneChip perstInSequence).map
        (fun m => (m.waiting, (m.shared.chips onlyChip).triggerReset, m.shared.log)) =
      some (true, false, [.resetAsic onlyChip, .perst]) ∧
    ¬ Answered onlyChip [.resetAsic onlyChip, .perst] := by
  refine ⟨by decide +kernel, ?_⟩
  intro h
  exact absurd (h [.resetAsic onlyChip] [] rfl) List.not_mem_nil

end SystemFirmware.DmcApp
