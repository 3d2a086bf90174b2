import Mathlib.Data.List.FinRange
import Mathlib.Data.List.Fold
import Mathlib.Data.List.MinMax
import Mathlib.Order.Nat
import SystemFirmware.DmcApp.Handlers

/-!
# DmcApp — the fan after a thermal trip or a watchdog reset

Both handlers set the chip's fan speed to 100 % and forced, "until we hear otherwise from
this chip". The speed of the fan is the greatest forced speed of all chips, so it stays
there (`fan_held_until_own_message`).
-/

namespace SystemFirmware.DmcApp

open Lib

variable {n : ℕ} {c : Fin n} {cfg : Config} {bound : ℕ}

-- ---
-- The duty cycle

theorem foldl_max_eq {α : Type} (g : α → ℕ) (l : List α) :
    l.foldl (fun m x => max m (g x)) 0 = (l.map g).foldr max ⊥ := by
  rw [← List.foldl_eq_foldr, List.foldl_map]
  rfl

def Held (c : Fin n) (s : State n) : Prop :=
  (s.chips c).fanSpeed = 100 ∧ (s.chips c).fanSpeedForced = true

instance (c : Fin n) (s : State n) : Decidable (Held c s) := inferInstanceAs (Decidable (_ ∧ _))

def SpeedsLe (bound : ℕ) (s : State n) : Prop := ∀ i, (s.chips i).fanSpeed.toNat ≤ bound

def dutyOf (speed : ℕ) : ℕ := (speed * 255 + 99) / 100

theorem dutyOf_mono {a b : ℕ} (h : a ≤ b) : dutyOf a ≤ dutyOf b := by
  unfold dutyOf
  omega

variable {s : State n}

theorem fanDuty_bounds (hheld : Held c s) (hspeeds : SpeedsLe bound s) :
    255 ≤ fanDuty s.chips ∧ fanDuty s.chips ≤ dutyOf bound := by
  let forced : ChipData → ℕ := fun d => if d.fanSpeedForced then d.fanSpeed.toNat else 0
  let speed := ((List.finRange n).map s.chips).foldl (fun m d => max m (forced d)) 0
  have hspeed : speed = (((List.finRange n).map s.chips).map forced).foldr max ⊥ :=
    foldl_max_eq forced _
  have hlow : 100 ≤ speed := by
    have hforced : forced (s.chips c) = 100 := by
      simp only [forced, hheld.2, if_true, hheld.1]
      rfl
    rw [hspeed]
    exact List.le_max_of_le
      (List.mem_map_of_mem (List.mem_map_of_mem (List.mem_finRange c))) hforced.ge
  have hhigh : speed ≤ bound := by
    rw [hspeed]
    refine List.max_le_of_forall_le _ _ fun x hx => ?_
    obtain ⟨d, hd, rfl⟩ := List.mem_map.mp hx
    obtain ⟨i, -, rfl⟩ := List.mem_map.mp hd
    by_cases hi : (s.chips i).fanSpeedForced = true
    · simp only [forced, hi, if_true]
      exact hspeeds i
    · simp only [forced, hi]
      exact Nat.zero_le _
  have hduty : fanDuty s.chips = dutyOf speed := by
    have hne : speed ≠ 0 := by omega
    exact congrArg dutyOf (if_pos hne)
  rw [hduty]
  exact ⟨dutyOf_mono hlow, dutyOf_mono hhigh⟩

-- ---
-- The steps of the main loop

def storeFan (chip : Fin n) (speed : UInt8) (forced : Bool) (s : State n) : State n :=
  s.setChip chip { s.chips chip with fanSpeed := speed, fanSpeedForced := forced }

def writePwm (duty : State n → ℕ) (s : State n) : State n := { s with pwm := s.pwm ++ [duty s] }

/-- The store of a fan message of the chip, other than of the speed it is held at. -/
def ProcessesFan (c : Fin n) (f : State n → State n × Bool) : Prop :=
  ∃ speed forced, ¬(speed = 100 ∧ forced = true) ∧ f = fun s => (storeFan c speed forced s, true)

def FanOk (bound : ℕ) (input : Input) : Prop :=
  ∀ msg forced, input.message = some msg → msg.msgId.toNat = (fanMsgId forced).toNat →
    msg.data.toUInt8.toNat ≤ bound

def FanOnly (I : State n → Prop) : Prop :=
  ∀ s t : State n, t.pwm = s.pwm → (∀ i, (t.chips i).fanSpeed = (s.chips i).fanSpeed ∧
    (t.chips i).fanSpeedForced = (s.chips i).fanSpeedForced) → I s → I t

variable {I : State n → Prop} {chip : Fin n}

theorem FanOnly.setChip (h : FanOnly I) {data : ChipData}
    (hspeed : data.fanSpeed = (s.chips chip).fanSpeed)
    (hforced : data.fanSpeedForced = (s.chips chip).fanSpeedForced) (hs : I s) :
    I (s.setChip chip data) := by
  refine h s _ rfl (fun i => ?_) hs
  by_cases hi : i = chip
  · rw [hi, State.setChip_self]
    exact ⟨hspeed, hforced⟩
  · rw [State.setChip_of_ne hi]
    exact ⟨rfl, rfl⟩

theorem FanOnly.log (h : FanOnly I) {log : List (Event n)} (hs : I s) : I { s with log := log } :=
  h s _ rfl (fun _ => ⟨rfl, rfl⟩) hs

theorem FanOnly.isr (h : FanOnly I) (k : Irq n) (hs : I s) : I (isr k s) := by
  cases k with
  | perst => exact h s _ rfl (fun _ => ⟨rfl, rfl⟩) hs
  | thermTrip chip => exact h.setChip rfl rfl hs
  | watchdog chip => exact h.setChip rfl rfl hs
  | pgood chip level => cases level <;> exact h.setChip rfl rfl hs

/-- What a step of the main loop has to do: it is an exception, or keeps `I`. -/
abbrev Step (exception : (State n → State n × Bool) → Prop) (I : State n → Prop)
    (f : State n → State n × Bool) : Prop :=
  exception f ∨ ∀ s, I s → I (f s).1

section

variable {exception : (State n → State n × Bool) → Prop} {I : State n → Prop} {ok : Input → Prop}

theorem fanOnly_modify (h : FanOnly I) (chip : Fin n) {f : ChipData → ChipData}
    (hspeed : ∀ d, (f d).fanSpeed = d.fanSpeed)
    (hforced : ∀ d, (f d).fanSpeedForced = d.fanSpeedForced) :
    (modifyChip chip f : Main n Unit).AllSteps ok (Step exception I) :=
  Prog.AllSteps.act (.inr fun _ hs => h.setChip (hspeed _) (hforced _) hs)

theorem fan_resetLogic (h : FanOnly I) :
    ResetLogic ok fun _ (p : Main n _) => p.AllSteps ok (Step exception I) where
  toProgLogic := allSteps_progLogic
  modify := fun chip _ hf => fanOnly_modify h chip (fun d => congrArg Prod.fst (hf d))
    fun d => congrArg Prod.snd (hf d)
  resetAsic := by
    intro chip inSequence
    refine allSteps_progLogic.resetAsic (Prog.AllSteps.act (.inr fun s hs => ?_))
      (fun _ => fanOnly_modify h chip (fun _ => rfl) fun _ => rfl)
      fun _ => fanOnly_modify h chip (fun _ => rfl) fun _ => rfl
    have hchip : I (s.setChip chip { s.chips chip with inSequence := inSequence }) :=
      h.setChip rfl rfl hs
    exact h.log hchip

theorem fan_bodyLogic (h : FanOnly I)
    (hhold : ∀ chip s, I s → I (storeFan chip 100 true s))
    (hstore : ∀ chip speed forced, speed.toNat ≤ bound →
      Step exception I fun s => (storeFan chip speed forced s, true))
    (hfull : ∀ s, I s → I (writePwm (fun _ => 255) s))
    (hpwm : ∀ s, I s → I (writePwm (fun s => fanDuty s.chips) s)) :
    BodyLogic cfg (FanOk bound) fun _ (p : Main n _) =>
      p.AllSteps (FanOk bound) (Step exception I) where
  toProgLogic := allSteps_progLogic
  quiet := fun chip _ hf => fanOnly_modify h chip (fun d => congrArg Watched.fanSpeed (hf d))
    fun d => congrArg Watched.fanSpeedForced (hf d)
  resetSequence := fun _ => (fan_resetLogic h).resetSequence
  perst := fun _ => (fan_resetLogic h).perst
    (Prog.AllSteps.swap (.inr fun _ hs => h.setChip rfl rfl hs))
  holdFan := by
    intro chip
    refine Prog.AllSteps.bind (Prog.AllSteps.act (.inr (hhold chip))) fun _ => ?_
    exact allSteps_progLogic.ifThen trivial (Prog.AllSteps.act (.inr hfull))
  fanMessage := by
    intro chip forced input msg hok hmsg hid
    refine Prog.AllSteps.bind (Prog.AllSteps.act ?_) fun _ => ?_
    · exact hstore chip msg.data.toUInt8 forced (hok msg forced hmsg hid)
    · refine Prog.AllSteps.bind ?_ fun _ => trivial
      exact allSteps_progLogic.ifThen trivial (Prog.AllSteps.act (.inr hpwm))
  pgoodFell := by
    intro chip
    refine allSteps_progLogic.ifThen (allSteps_progLogic.read _ _) (Prog.AllSteps.receive_bind fun _ _ => ?_)
    refine (fanOnly_modify h chip ?_ ?_).bind fun _ => (fanOnly_modify h chip ?_ ?_).bind fun _ =>
      fanOnly_modify h chip ?_ ?_
    all_goals exact fun _ => rfl

end

-- ---
-- Speeds

theorem speedsLe_fanOnly : FanOnly (SpeedsLe bound : State n → Prop) := by
  intro s t _ hsame hs i
  rw [(hsame i).1]
  exact hs i

theorem SpeedsLe.storeFan {speed : UInt8} {forced : Bool} (h : SpeedsLe bound s)
    (hspeed : speed.toNat ≤ bound) : SpeedsLe bound (storeFan chip speed forced s) := by
  intro i
  by_cases hi : i = chip
  · rw [DmcApp.storeFan, hi, State.setChip_self]
    exact hspeed
  · rw [DmcApp.storeFan, State.setChip_of_ne hi]
    exact h i

variable {m : Loop (State n) Input}

theorem speedsLe_run {actions : List (Loop.Action Input (Irq n))} (hbound : 100 ≤ bound)
    (hs : SpeedsLe bound s) (hok : ∀ a ∈ actions, Loop.InputOk (FanOk bound) a)
    (hrun : exec (Loop.step (mainBody cfg) isr) ⟨s, .ret ()⟩ actions = some m) :
    SpeedsLe bound m.shared := by
  have hlogic : BodyLogic cfg (FanOk bound) fun _ (p : Main n _) =>
      p.AllSteps (FanOk bound) (Step (fun _ => False) (SpeedsLe bound)) :=
    fan_bodyLogic speedsLe_fanOnly (fun _ _ hs => hs.storeFan hbound)
      (fun _ _ _ hspeed => .inr fun _ hs => hs.storeFan hspeed) (fun _ hs => hs) fun _ hs => hs
  have hwaiting : Loop.AllLeft (FanOk bound) (Step (fun _ => False) (SpeedsLe bound))
      (⟨s, .ret ()⟩ : Loop (State n) Input) := trivial
  exact Loop.invariant_of_allSteps hlogic.mainBody (fun k _ => speedsLe_fanOnly.isr k)
    hwaiting hs hok (along_of_forall fun _ _ => Loop.not_executes_false) hrun

-- ---
-- The handlers

abbrev AnyIrq : State n → State n → Prop := Loop.Irq (fun _ _ => True) isr

theorem FanOnly.stable (h : FanOnly I) : Prog.Stable AnyIrq I := by
  rintro s _ hs ⟨k, -, rfl⟩
  exact h.isr k hs

theorem held_fanOnly : FanOnly fun s : State n => Held c s ∧ SpeedsLe bound s := by
  rintro s t hpwm hsame ⟨hheld, hspeeds⟩
  refine ⟨?_, speedsLe_fanOnly s t hpwm hsame hspeeds⟩
  rw [Held, (hsame c).1, (hsame c).2]
  exact hheld

theorem held_storeFan : Held c (storeFan c 100 true s) := by
  rw [Held, storeFan, State.setChip_self]
  exact ⟨rfl, rfl⟩

variable {p : Main n Unit}

theorem triple_of_allSteps (hI : FanOnly I)
    (h : p.AllSteps (fun _ => True) (Step (fun _ => False) I)) :
    Prog.Triple AnyIrq I p fun _ => I :=
  (h.keeps fun _ hf => hf.resolve_left id).triple hI.stable

theorem holdFan_holds (hbound : 100 ≤ bound) :
    Prog.Triple AnyIrq (SpeedsLe bound) (holdFan cfg c) fun _ s => Held c s ∧ SpeedsLe bound s := by
  have hstore : ∀ s : State n, SpeedsLe bound s →
      Held c (storeFan c 100 true s) ∧ SpeedsLe bound (storeFan c 100 true s) :=
    fun s hs => ⟨held_storeFan, hs.storeFan hbound⟩
  refine (Prog.Triple.act speedsLe_fanOnly.stable held_fanOnly.stable hstore).bind fun _ => ?_
  refine triple_of_allSteps held_fanOnly (allSteps_progLogic.ifThen trivial ?_)
  exact Prog.AllSteps.act (.inr fun _ hs => hs)

variable {flag : ChipData → Bool}

theorem flag_setChip {data : ChipData} (hs : flag (s.chips c) = true)
    (hdata : flag (s.chips chip) = true → flag data = true) :
    flag ((s.setChip chip data).chips c) = true := by
  by_cases hi : c = chip
  · subst hi
    rw [State.setChip_self]
    exact hdata hs
  · rw [State.setChip_of_ne hi]
    exact hs

theorem thermTripTriggered_isr (k : Irq n) (hs : (s.chips c).thermTripTriggered = true) :
    ((isr k s).chips c).thermTripTriggered = true := by
  cases k with
  | perst => exact hs
  | thermTrip chip => exact flag_setChip hs fun _ => rfl
  | watchdog chip => exact flag_setChip hs id
  | pgood chip level => cases level <;> exact flag_setChip hs id

theorem arcWdogTriggered_isr (k : Irq n) (hs : (s.chips c).arcWdogTriggered = true) :
    ((isr k s).chips c).arcWdogTriggered = true := by
  cases k with
  | perst => exact hs
  | thermTrip chip => exact flag_setChip hs id
  | watchdog chip => exact flag_setChip hs fun _ => rfl
  | pgood chip level => cases level <;> exact flag_setChip hs id

theorem triple_of_flag {Q : State n → Prop}
    (hflag : ∀ (k : Irq n) s, flag (s.chips c) = true → flag ((isr k s).chips c) = true)
    (hp : Prog.Triple AnyIrq (SpeedsLe bound) p fun _ => Q) :
    Prog.Triple AnyIrq (fun s => flag (s.chips c) = true ∧ SpeedsLe bound s)
      (Prog.ifThen (readChip c flag) p) fun _ => Q := by
  have hstable : Prog.Stable AnyIrq
      fun s : State n => flag (s.chips c) = true ∧ SpeedsLe bound s := by
    rintro s _ ⟨hset, hs⟩ ⟨k, -, rfl⟩
    exact ⟨hflag k s hset, speedsLe_fanOnly.isr k hs⟩
  have hread : Prog.Triple AnyIrq (fun s => flag (s.chips c) = true ∧ SpeedsLe bound s)
      (readChip c flag : Main n Bool) fun b s => b = true ∧ SpeedsLe bound s := by
    refine Prog.Triple.swap hstable ?_ fun _ hs => hs
    rintro b s t ⟨hb, hs⟩ hst
    exact ⟨hb, speedsLe_fanOnly.stable s t hs hst⟩
  refine hread.ifElse (hp.conseq (fun _ hs => hs.2) fun _ _ => id) ?_
  rintro s ⟨hfalse, -⟩
  exact absurd hfalse Bool.false_ne_true

/-- The handler is one of the two, and it finds its flag set. -/
inductive Handles (cfg : Config) (c : Fin n) (s : State n) : Main n Unit → Prop
  | thermTrip : (s.chips c).thermTripTriggered = true → Handles cfg c s (handleThermTrip cfg c)
  | watchdog : (s.chips c).arcWdogTriggered = true → Handles cfg c s (handleWatchdogReset cfg c)

theorem speedsLe_resetLogic : ResetLogic (fun _ => True) fun _ (p : Main n _) =>
    p.AllSteps (fun _ => True) (Step (fun _ => False) (SpeedsLe bound)) :=
  fan_resetLogic speedsLe_fanOnly

theorem held_resetLogic : ResetLogic (fun _ => True) fun _ (p : Main n _) =>
    p.AllSteps (fun _ => True) (Step (fun _ => False) fun s => Held c s ∧ SpeedsLe bound s) :=
  fan_resetLogic held_fanOnly

theorem thermTrip_holds (hbound : 100 ≤ bound) :
    Prog.Triple AnyIrq (fun s => (s.chips c).thermTripTriggered = true ∧ SpeedsLe bound s)
      (handleThermTrip cfg c) fun _ s => Held c s ∧ SpeedsLe bound s := by
  have hquiet := @speedsLe_resetLogic n bound
  have h := @held_resetLogic n c bound
  refine triple_of_flag (fun k s => thermTripTriggered_isr k) ?_
  refine Prog.Triple.bind (triple_of_allSteps speedsLe_fanOnly (hquiet.modify c fun _ => rfl))
    fun _ => (holdFan_holds hbound).bind fun _ => triple_of_allSteps held_fanOnly ?_
  refine h.ifThen (h.read _ _) (h.modify_bind (fun _ => rfl) (h.modify_bind (fun _ => rfl) ?_))
  refine h.modify_bind (fun _ => rfl) (h.bind (h.resetChip true) fun _ => ?_)
  refine h.bind (h.ifThen (h.read _ _) (h.modify _ fun _ => rfl)) fun _ => ?_
  exact h.modify _ fun _ => rfl

theorem watchdog_holds (hbound : 100 ≤ bound) :
    Prog.Triple AnyIrq (fun s => (s.chips c).arcWdogTriggered = true ∧ SpeedsLe bound s)
      (handleWatchdogReset cfg c) fun _ s => Held c s ∧ SpeedsLe bound s := by
  have hquiet := @speedsLe_resetLogic n bound
  have h := @held_resetLogic n c bound
  have hmodify : ∀ {f : ChipData → ChipData}, (∀ d, (f d).fan = d.fan) →
      Prog.Triple AnyIrq (SpeedsLe bound) (modifyChip c f) fun _ => SpeedsLe bound :=
    fun hf => triple_of_allSteps speedsLe_fanOnly (hquiet.modify c hf)
  refine triple_of_flag (fun k s => arcWdogTriggered_isr k) ?_
  refine Prog.Triple.bind (hmodify fun _ => rfl) fun _ => Prog.Triple.bind (hmodify fun _ => rfl)
    fun _ => Prog.Triple.bind (triple_of_allSteps speedsLe_fanOnly ?_) fun _ =>
      Prog.Triple.bind (hmodify fun _ => rfl) fun _ => (holdFan_holds hbound).bind fun _ =>
        triple_of_allSteps held_fanOnly ?_
  · exact hquiet.ifThen hquiet.outcome (hquiet.receive fun _ _ => hquiet.modify c fun _ => rfl)
  · refine h.modify_bind (fun _ => rfl) (h.bind (h.resetChip true) fun _ => ?_)
    exact h.modify_bind (fun _ => rfl) (h.modify _ fun _ => rfl)

theorem handler_holds {t : State n} {handler : Main n Unit}
    {during : List (Loop.Action Input (Irq n))} (hbound : 100 ≤ bound)
    (hhandler : Handles cfg c s handler) (hs : SpeedsLe bound s) (hwake : ∀ a ∈ during, a ≠ .wake)
    (hrun : exec (Loop.step (mainBody cfg) isr) ⟨s, handler⟩ during = some ⟨t, .ret ()⟩) :
    Held c t ∧ SpeedsLe bound t := by
  have hallowed : Along (Loop.step (mainBody cfg) isr) (Loop.Allowed fun _ _ => True) ⟨s, handler⟩
      during := by
    refine along_of_forall fun m a => ?_
    cases a <;> trivial
  cases hhandler with
  | thermTrip hflag =>
    exact Loop.exec_triple (P := fun s => (s.chips c).thermTripTriggered = true ∧ SpeedsLe bound s)
      (Q := fun s => Held c s ∧ SpeedsLe bound s) (thermTrip_holds hbound) ⟨hflag, hs⟩ hwake
      hallowed hrun
  | watchdog hflag =>
    exact Loop.exec_triple (P := fun s => (s.chips c).arcWdogTriggered = true ∧ SpeedsLe bound s)
      (Q := fun s => Held c s ∧ SpeedsLe bound s) (watchdog_holds hbound) ⟨hflag, hs⟩ hwake
      hallowed hrun

-- ---
-- The result

/-- The chip is held, and every PWM write since then is for a full fan. -/
structure FanInv (c : Fin n) (bound : ℕ) (start : List ℕ) (s : State n) : Prop where
  held : Held c s
  speeds : SpeedsLe bound s
  writes : ∃ written, s.pwm = start ++ written ∧
    ∀ duty ∈ written, 255 ≤ duty ∧ duty ≤ dutyOf bound

variable {start : List ℕ}

theorem fanInv_fanOnly : FanOnly fun s : State n => FanInv c bound start s := by
  intro s t hpwm hsame hs
  obtain ⟨hheld, hspeeds⟩ := held_fanOnly s t hpwm hsame ⟨hs.held, hs.speeds⟩
  exact ⟨hheld, hspeeds, by rw [hpwm]; exact hs.writes⟩

theorem FanInv.writePwm {duty : State n → ℕ} (h : FanInv c bound start s)
    (hduty : 255 ≤ duty s ∧ duty s ≤ dutyOf bound) : FanInv c bound start (writePwm duty s) := by
  obtain ⟨written, hpwm, hwritten⟩ := h.writes
  refine ⟨h.held, h.speeds, written ++ [duty s], ?_, ?_⟩
  · rw [DmcApp.writePwm, hpwm, List.append_assoc]
  · intro d hd
    rcases List.mem_append.mp hd with hd | hd
    · exact hwritten d hd
    · rw [List.mem_singleton.mp hd]
      exact hduty

theorem FanInv.storeFan {speed : UInt8} {forced : Bool} (h : FanInv c bound start s)
    (hspeed : speed.toNat ≤ bound) (hother : c ≠ chip ∨ (speed = 100 ∧ forced = true)) :
    FanInv c bound start (storeFan chip speed forced s) := by
  refine ⟨?_, h.speeds.storeFan hspeed, h.writes⟩
  rcases hother with hne | ⟨rfl, rfl⟩
  · rw [Held, DmcApp.storeFan, State.setChip_of_ne hne]
    exact h.held
  · by_cases hi : c = chip
    · rw [hi]
      exact held_storeFan
    · rw [Held, DmcApp.storeFan, State.setChip_of_ne hi]
      exact h.held

theorem fanInv_bodyLogic (hbound : 100 ≤ bound) :
    BodyLogic cfg (FanOk bound) fun _ (p : Main n _) =>
      p.AllSteps (FanOk bound) (Step (ProcessesFan c) (FanInv c bound start)) := by
  refine fan_bodyLogic fanInv_fanOnly ?_ ?_ ?_ ?_
  · exact fun chip s hs => hs.storeFan hbound (.inr ⟨rfl, rfl⟩)
  · intro chip speed forced hspeed
    by_cases hown : c ≠ chip ∨ (speed = 100 ∧ forced = true)
    · exact .inr fun s hs => hs.storeFan hspeed hown
    · rw [not_or, not_not] at hown
      obtain ⟨rfl, hnew⟩ := hown
      exact .inl ⟨speed, forced, hnew, rfl⟩
  · exact fun s hs => hs.writePwm ⟨le_rfl, dutyOf_mono hbound⟩
  · exact fun s hs => hs.writePwm (fanDuty_bounds hs.held hs.speeds)

section

variable {s₀ s t : State n} {handler : Main n Unit} {k : Unit → Main n Unit}
  {m : Loop (State n) Input} {before during later : List (Loop.Action Input (Irq n))}

theorem writes_after_handler (hbound : 100 ≤ bound) (hs₀ : SpeedsLe bound s₀)
    (hok : ∀ a ∈ before ++ during ++ later, Loop.InputOk (FanOk bound) a)
    (hbefore : exec (Loop.step (mainBody cfg) isr) ⟨s₀, .ret ()⟩ before = some ⟨s, handler >>= k⟩)
    (hhandler : Handles cfg c s handler)
    (hduring : exec (Loop.step (mainBody cfg) isr) ⟨s, handler⟩ during = some ⟨t, .ret ()⟩)
    (hwake : ∀ a ∈ during, a ≠ .wake)
    (hlater : exec (Loop.step (mainBody cfg) isr) ⟨t, k ()⟩ later = some m)
    (hnone : Along (Loop.step (mainBody cfg) isr)
      (fun m a => ¬Loop.Executes (ProcessesFan c) m a) ⟨t, k ()⟩ later) :
    ∃ written, m.shared.pwm = t.pwm ++ written ∧
      ∀ duty ∈ written, 255 ≤ duty ∧ duty ≤ dutyOf bound := by
  obtain ⟨hokFirst, hokLater⟩ := List.forall_mem_append.mp hok
  obtain ⟨hokBefore, hokDuring⟩ := List.forall_mem_append.mp hokFirst
  have hbody := (@fanInv_bodyLogic n c cfg bound t.pwm hbound).mainBody
  have hwaiting : Loop.AllLeft (FanOk bound) (Step (ProcessesFan c) (FanInv c bound t.pwm))
      (⟨s₀, .ret ()⟩ : Loop (State n) Input) := trivial
  -- what is left of the body when the handler is done
  have hhandled : exec (Loop.step (mainBody cfg) isr) ⟨s, handler >>= k⟩ during = some ⟨t, k ()⟩ :=
    Loop.exec_bind hwake hduring
  have hleft := Loop.exec_allLeft hbody (Loop.exec_allLeft hbody hwaiting hokBefore hbefore)
    hokDuring hhandled
  obtain ⟨hheld, hspeeds⟩ := handler_holds hbound hhandler
    (speedsLe_run hbound hs₀ hokBefore hbefore) hwake hduring
  have hinv : FanInv c bound t.pwm t := ⟨hheld, hspeeds, [], (List.append_nil _).symm, by simp⟩
  exact (Loop.invariant_of_allSteps hbody (fun k _ => fanInv_fanOnly.isr k) hleft hinv hokLater
    hnone hlater).writes

/-- **The fan is held at full speed after a thermal trip or a watchdog reset**: no PWM write asks
for less than full duty until a fan message of the chip itself is processed, and every one asks
for exactly that if the fan messages carry at most 100. -/
theorem fan_held_until_own_message
    (hbefore : exec (Loop.step (mainBody cfg) isr) ⟨s₀, .ret ()⟩ before = some ⟨s, handler >>= k⟩)
    (hhandler : Handles cfg c s handler)
    (hduring : exec (Loop.step (mainBody cfg) isr) ⟨s, handler⟩ during = some ⟨t, .ret ()⟩)
    (hwake : ∀ a ∈ during, a ≠ .wake)
    (hlater : exec (Loop.step (mainBody cfg) isr) ⟨t, k ()⟩ later = some m)
    (hnone : Along (Loop.step (mainBody cfg) isr)
      (fun m a => ¬Loop.Executes (ProcessesFan c) m a) ⟨t, k ()⟩ later) :
    ∃ written, m.shared.pwm = t.pwm ++ written ∧ (∀ duty ∈ written, 255 ≤ duty) ∧
      (SpeedsLe 100 s₀ → (∀ a ∈ before ++ during ++ later, Loop.InputOk (FanOk 100) a) →
        ∀ duty ∈ written, duty = 255) := by
  -- a speed is a byte, so 255 is a bound in any case
  have hbyte : ∀ speed : UInt8, speed.toNat ≤ 255 := fun speed => Nat.le_of_lt_succ speed.toNat_lt
  have hany : ∀ a ∈ before ++ during ++ later, Loop.InputOk (FanOk 255) a := by
    intro a _
    cases a with
    | main input => exact fun msg _ _ _ => hbyte _
    | wake => trivial
    | irq k => trivial
  obtain ⟨written, hpwm, hfull⟩ := writes_after_handler (by decide) (fun i => hbyte _) hany hbefore
    hhandler hduring hwake hlater hnone
  refine ⟨written, hpwm, fun duty hduty => (hfull duty hduty).1, fun hs₀ hok duty hduty => ?_⟩
  obtain ⟨written', hpwm', hexact⟩ := writes_after_handler le_rfl hs₀ hok hbefore hhandler hduring
    hwake hlater hnone
  rw [hpwm] at hpwm'
  obtain rfl := List.append_cancel_left hpwm'
  exact Nat.le_antisymm (hexact duty hduty).2 (hexact duty hduty).1

end

-- ---
-- A trip of one chip and a message of another

theorem not_processesFan_of_held {a : Loop.Action Input (Irq n)}
    (h : ((Loop.step (mainBody cfg) isr m a).all fun m' => decide (Held c m'.shared)) = true) :
    ¬Loop.Executes (ProcessesFan c) m a := by
  intro hexecutes
  cases a with
  | main input =>
    obtain ⟨f, next, hcode, speed, forced, hnew, rfl⟩ := hexecutes
    obtain ⟨s, code⟩ := m
    subst hcode
    have hheld : Held c (storeFan c speed forced s) := of_decide_eq_true h
    rw [Held, storeFan, State.setChip_self] at hheld
    exact hnew hheld
  | wake => exact hexecutes
  | irq k => exact hexecutes

def twoChips : State 2 where
  chips := fun _ => ⟨false, false, false, false, false, 0, false, false, false, 0, 0, 0, 0, false,
    35, false, 0, false, false, false, false, false⟩
  pwm := []
  log := []

def firstChip : Fin 2 := ⟨0, by decide⟩

def secondChip : Fin 2 := ⟨1, by decide⟩

def fanBoard : Config := ⟨true, true⟩

def restOfPass (_ : Unit) : Main 2 Unit := do
  Prog.forEach [secondChip] (handleThermTrip fanBoard)
  Prog.forEach (List.finRange 2) (handleWatchdogReset fanBoard)
  Prog.forEach (List.finRange 2) handlePerst
  Prog.forEach (List.finRange 2) handlePgoodEvent
  Prog.forEach (List.finRange 2) sendInitData
  Prog.ifThen outcome (Prog.forEach (List.finRange 2) (processCm2dmMessage fanBoard))

theorem mainBody_twoChips :
    mainBody fanBoard = handleThermTrip fanBoard firstChip >>= restOfPass :=
  Prog.bind_assoc _ _ _

def quietInput : Input := ⟨true, 0, 0, none⟩

def slowFan : Input := ⟨true, 0, 0, some ⟨7, 1, 50⟩⟩

def slowFanMessage : List (Loop.Action Input (Irq 2)) :=
  List.replicate 13 (.main quietInput) ++ [.main slowFan] ++ List.replicate 4 (.main quietInput)

def trippedChips : State 2 := isr (.thermTrip firstChip) twoChips

def afterTrip : Loop (State 2) Input :=
  (exec (Loop.step (mainBody fanBoard) isr) ⟨trippedChips, handleThermTrip fanBoard firstChip⟩
    (List.replicate 24 (.main quietInput))).get (by decide +kernel)

def afterSlowFan : Loop (State 2) Input :=
  (exec (Loop.step (mainBody fanBoard) isr) ⟨afterTrip.shared, restOfPass ()⟩ slowFanMessage).get
    (by decide +kernel)

theorem slowFan_ok : FanOk 100 slowFan := by
  intro msg _ hmsg _
  obtain rfl := Option.some.inj hmsg
  decide

/-- A message of 50 % of the second chip leaves the fan at full duty. -/
theorem slow_fan_of_other_chip :
    afterSlowFan.shared.pwm = [255, 255] ∧ (afterSlowFan.shared.chips secondChip).fanSpeed = 50 ∧
      ∃ written, afterSlowFan.shared.pwm = afterTrip.shared.pwm ++ written ∧
        ∀ duty ∈ written, duty = 255 := by
  have hbefore : exec (Loop.step (mainBody fanBoard) isr) ⟨twoChips, .ret ()⟩
      [.irq (.thermTrip firstChip), .wake] =
        some ⟨trippedChips, handleThermTrip fanBoard firstChip >>= restOfPass⟩ := by
    rw [← mainBody_twoChips]
    rfl
  have hduring : exec (Loop.step (mainBody fanBoard) isr)
      ⟨trippedChips, handleThermTrip fanBoard firstChip⟩ (List.replicate 24 (.main quietInput)) =
        some ⟨afterTrip.shared, .ret ()⟩ := by
    rw [← Loop.eq_of_waiting (by decide +kernel : afterTrip.waiting = true)]
    exact (Option.some_get _).symm
  have hnone : Along (Loop.step (mainBody fanBoard) isr)
      (fun m a => ¬Loop.Executes (ProcessesFan firstChip) m a) ⟨afterTrip.shared, restOfPass ()⟩
        slowFanMessage := by
    refine Along.mono (fun m a => @not_processesFan_of_held 2 firstChip fanBoard m a) ?_
    decide +kernel
  have hok : ∀ a ∈ [.irq (.thermTrip firstChip), .wake] ++
      List.replicate 24 (.main quietInput) ++ slowFanMessage,
      Loop.InputOk (FanOk 100) (a : Loop.Action Input (Irq 2)) := by
    intro a ha
    have hcases : a = .irq (.thermTrip firstChip) ∨ a = .wake ∨ a = .main quietInput ∨
        a = .main slowFan := by
      simp only [slowFanMessage, List.mem_append, List.mem_cons, List.mem_replicate,
        List.not_mem_nil, or_false] at ha
      tauto
    rcases hcases with rfl | rfl | rfl | rfl
    · trivial
    · trivial
    · intro msg _ hmsg _
      cases hmsg
    · exact slowFan_ok
  obtain ⟨written, hpwm, -, hfull⟩ := fan_held_until_own_message hbefore (.thermTrip rfl) hduring
    (by simp) (Option.some_get _).symm hnone
  have hboot : SpeedsLe 100 twoChips := fun _ => (by decide : (35 : UInt8).toNat ≤ 100)
  exact ⟨by decide +kernel, by decide +kernel, written, hpwm, hfull hboot hok⟩

end SystemFirmware.DmcApp
