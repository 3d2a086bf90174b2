import Mathlib.Data.List.Induction
import SystemFirmware.Cm2Dm.Delivery

/-!
# CM2DM messages — the fan speed

`lib/tenstorrent/bh_arc/fan_ctrl.c` keeps the fan speed and whether it is forced, and
posts every change to the DMC: a forced speed under one message id, a speed of the fan
curve under another. `app/dmc/src/main.c` takes both into the same two fields, in the
order in which they arrive.

The mailbox hands out pending ids in round-robin order, not in the order of the posts. So
if one id is posted while the other is still pending, the older of the two may arrive last;
if none is, they keep their order (`fan_speed_in_order`).
-/

namespace SystemFirmware.Cm2Dm.Fan

open Lib
open Dmc (System)

-- ---
-- The SMC's and the DMC's fan state

/-- `fan_speed` and `fan_speed_forced` of `fan_ctrl.c`. -/
structure SmcFan where
  fanSpeed : UInt32
  fanSpeedForced : Bool
  deriving DecidableEq, Repr

def SmcFan.init : SmcFan := ⟨0, false⟩

/-- The state part of `force_fan_speed`; `curve` is what `fan_curve` returns. -/
def forceFanSpeed (rawSpeed curve : UInt32) : SmcFan :=
  if rawSpeed = 0xFFFFFFFF then ⟨curve, false⟩
  -- CLAMP(raw_speed, 0, 100)
  else ⟨if rawSpeed ≤ 100 then rawSpeed else 100, true⟩

/-- The message of a fan state: `UpdateForcedFanSpeedRequest` or `UpdateFanSpeedRequest`. -/
def fanMsg (forced : Bool) : Cm2DmMsgId := if forced then .forcedFanSpeedUpdate else .fanSpeedUpdate

/-- `fan_speed` and `fan_speed_forced` of `struct bh_chip_data`. -/
structure ChipFan where
  fanSpeed : UInt8
  fanSpeedForced : Bool
  deriving DecidableEq, Repr

/-- `process_fan_speed_update` and `process_forced_fan_speed_update`; others leave both fields
alone. -/
def processFan (chip : ChipFan) (msg : Cm2dmMessage) : ChipFan :=
  if msg.msgId.toNat = Cm2DmMsgId.fanSpeedUpdate.toNat then ⟨msg.data.toUInt8, false⟩
  else if msg.msgId.toNat = Cm2DmMsgId.forcedFanSpeedUpdate.toNat then ⟨msg.data.toUInt8, true⟩
  else chip

def chipFan (initial : ChipFan) (s : System) : ChipFan :=
  (s.dispatched.map Prod.snd).foldl processFan initial

structure FanSystem where
  system : System
  fan : SmcFan

def FanSystem.start (lastSeqNum : UInt8) : FanSystem := ⟨.start lastSeqNum, .init⟩

inductive Action where
  /-- `TT_SMC_MSG_FORCE_FAN_SPEED`, up to the store of its post. -/
  | force (rawSpeed curve : UInt32)
  /-- `update_fan_speed`, up to the store of its post. -/
  | update (curve : UInt32)
  /-- Everything else: ends of posts, posts of other ids, the mailbox and the DMC. -/
  | other (a : Dmc.Action)
  deriving DecidableEq

def fanThread : ℕ := 0

def post (s : FanSystem) (fan : SmcFan) : Option FanSystem :=
  (Dmc.step s.system (.store fanThread (fanMsg fan.fanSpeedForced) fan.fanSpeed)).map
    fun system => ⟨system, fan⟩

def CurveOk (curve : UInt32) : Prop := curve ≤ 100

instance (curve : UInt32) : Decidable (CurveOk curve) := inferInstanceAs (Decidable (_ ≤ _))

def isFan (id : Cm2DmMsgId) : Bool := id = .fanSpeedUpdate || id = .forcedFanSpeedUpdate

def step (fanCtrlEn : Bool) (s : FanSystem) : Action → Option FanSystem
  | .force rawSpeed curve =>
    if !fanCtrlEn then some s
    else if CurveOk curve then post s (forceFanSpeed rawSpeed curve) else none
  | .update curve =>
    -- without the feature the timer is not started
    if !fanCtrlEn then none
    else if s.fan.fanSpeedForced then some s
    else if CurveOk curve then post s ⟨curve, false⟩ else none
  | .other (.store thread id data) =>
    if isFan id then none
    else (Dmc.step s.system (.store thread id data)).map fun system => { s with system := system }
  | .other a => (Dmc.step s.system a).map fun system => { s with system := system }

-- ---
-- Which of the two was handed over last

def transitId (s : World) : Option ℕ :=
  match s.smbus with
  | .reqMsgId i | .reqSeqNum i | .reqLoad i | .reqData i _ => some i
  | .reqValid => some s.mailbox.currMsg.msgId.toNat
  | _ => none

def isFanNo (i : ℕ) : Bool := i = (fanMsg false).toNat || i = (fanMsg true).toNat

def lastFanPut (put : List Cm2dmMessage) : Option Cm2dmMessage :=
  (put.filter fun m => isFanNo m.msgId.toNat).getLast?

def lastFan (s : World) : Option ℕ :=
  ((transitId s).filter isFanNo).or ((lastFanPut s.trace.put).map fun m => m.msgId.toNat)

/-- The bit of the chosen id is set until the request clears it. -/
def Picked (s : World) : Prop :=
  ∀ i, s.smbus = .reqClear i → s.mailbox.pendingMessages.getLsbD i = true

def FanPosts (s : World) : Prop :=
  ∀ thread id, s.posting thread = some id → isFan id = true → thread = fanThread

/-- **The order of the two ids**, after the last post was of `fanMsg forced`. -/
structure FanOrder (forced : Bool) (s : World) : Prop where
  clear : s.pendingBit (fanMsg !forced) = false
  idle : ¬ s.Posting (fanMsg !forced)
  last : s.pendingBit (fanMsg forced) = true ∨ s.Posting (fanMsg forced) ∨
    lastFan s = some (fanMsg forced).toNat

section

variable {s t : World} {a : Cm2Dm.Action} {forced : Bool}

theorem lastFanPut_concat {put : List Cm2dmMessage} {m : Cm2dmMessage} :
    lastFanPut (put ++ [m]) = if isFanNo m.msgId.toNat then some m else lastFanPut put := by
  simp only [lastFanPut, List.filter_append]
  split <;> simp_all

theorem fanMsg_ne (forced : Bool) : (fanMsg forced).toNat ≠ (fanMsg !forced).toNat := by
  cases forced <;> decide

theorem isFanNo_iff {i : ℕ} (forced : Bool) :
    isFanNo i = true ↔ i = (fanMsg forced).toNat ∨ i = (fanMsg !forced).toNat := by
  cases forced <;> simp [isFanNo, or_comm]

theorem isFan_fanMsg (forced : Bool) : isFan (fanMsg forced) = true := by
  cases forced <;> rfl

-- ---
-- Steps of the mailbox

/-- The SMBus side keeps the bits and the order, but where it clears the bit of the chosen id,
which is then the last one handed over. -/
theorem smbusStep_order (hinv : Inv s) (hstep : smbusStep s = some t) :
    t.mailbox.pendingMessages = s.mailbox.pendingMessages ∧ lastFan t = lastFan s ∨
      ∃ i, s.smbus = .reqClear i ∧
        t.mailbox.pendingMessages = clearBit s.mailbox.pendingMessages i ∧
        lastFan t = if isFanNo i then some i else lastFan s := by
  obtain ⟨m, smbus, posting, trace⟩ := s
  have hpc := hinv.smbus
  cases smbus with
  | idle => cases hstep
  | reqTest =>
    cases hstep
    refine .inl ⟨rfl, ?_⟩
    cases hvalid : m.currMsgValid <;> simp [lastFan, transitId]
  | reqGet =>
    simp only [smbusStep] at hstep
    split at hstep <;> cases hstep <;> exact .inl ⟨rfl, rfl⟩
  | reqClear i =>
    cases hstep
    refine .inr ⟨i, rfl, rfl, ?_⟩
    simp only [lastFan, transitId, Option.filter]
    split <;> simp
  | reqMsgId | reqSeqNum | reqLoad | reqCopy | ackClear =>
    cases hstep
    exact .inl ⟨rfl, rfl⟩
  | reqData i data =>
    cases hstep
    obtain ⟨-, hlt, (hmsg : m.currMsg.msgId = i.toUInt8)⟩ := hpc
    refine .inl ⟨rfl, ?_⟩
    simp only [lastFan, transitId, hmsg, toUInt8_toNat_of_lt hlt]
  | reqValid =>
    cases hstep
    refine .inl ⟨rfl, ?_⟩
    -- the message under way becomes the last one put
    simp only [lastFan, transitId, lastFanPut_concat, Option.filter]
    split <;> simp

theorem smbusStep_fanOrder (h : FanOrder forced s) (hinv : Inv s) (hpick : Picked s)
    (hstep : smbusStep s = some t) : FanOrder forced t := by
  have hposting := (smbusStep_posts hstep).1
  obtain ⟨hbits, hlast⟩ | ⟨i, hclear, hbits, hlast⟩ := smbusStep_order hinv hstep
  · refine ⟨?_, ?_, ?_⟩
    · rw [World.pendingBit, hbits]
      exact h.clear
    · rw [World.Posting, hposting]
      exact h.idle
    · rw [World.pendingBit, World.Posting, hbits, hposting, hlast]
      exact h.last
  · have hother : i ≠ (fanMsg !forced).toNat := by
      rintro rfl
      have hset := hpick _ hclear
      rw [show s.mailbox.pendingMessages.getLsbD (fanMsg !forced).toNat = false from h.clear] at hset
      cases hset
    refine ⟨?_, ?_, ?_⟩
    · rw [World.pendingBit, hbits, getLsbD_clearBit,
        show s.mailbox.pendingMessages.getLsbD (fanMsg !forced).toNat = false from h.clear]
      rfl
    · rw [World.Posting, hposting]
      exact h.idle
    · by_cases hi : i = (fanMsg forced).toNat
      · refine .inr (.inr ?_)
        rw [hlast, if_pos ((isFanNo_iff forced).mpr (.inl hi)), hi]
      · have hno : ¬ isFanNo i = true := fun hfan =>
          ((isFanNo_iff forced).mp hfan).elim hi hother
        have hbit : t.pendingBit (fanMsg forced) = s.pendingBit (fanMsg forced) := by
          simp [World.pendingBit, hbits, getLsbD_clearBit, hi]
        rw [hbit, World.Posting, hposting, hlast, if_neg hno]
        exact h.last

variable {thread : ℕ} {id : Cm2DmMsgId}

theorem posting_update {new : Option Cm2DmMsgId}
    (hposting : t.posting = Function.update s.posting thread new) :
    t.Posting id ↔ new = some id ∨ ∃ poster, poster ≠ thread ∧ s.posting poster = some id := by
  rw [World.Posting, hposting]
  constructor
  · rintro ⟨poster, hposter⟩
    by_cases hsame : poster = thread
    · rw [hsame, Function.update_self] at hposter
      exact .inl hposter
    · rw [Function.update_of_ne hsame] at hposter
      exact .inr ⟨poster, hsame, hposter⟩
  · rintro (hnew | ⟨poster, hsame, hposter⟩)
    · exact ⟨thread, by rw [Function.update_self, hnew]⟩
    · exact ⟨poster, by rw [Function.update_of_ne hsame, hposter]⟩

variable {data : UInt32}

theorem store_fanOrder (h : FanOrder forced s) (hid : isFan id = false)
    (hstep : Cm2Dm.step s (.store thread id data) = some t) : FanOrder forced t := by
  obtain ⟨hfree, rfl⟩ := step_store_cases hstep
  have hne : ∀ flag, some id ≠ some (fanMsg flag) := by
    intro flag heq
    rw [Option.some.inj heq, isFan_fanMsg] at hid
    cases hid
  refine ⟨h.clear, ?_, h.last.imp_right (Or.imp_left ?_)⟩
  · rw [posting_update rfl]
    rintro (hnew | ⟨poster, -, hposter⟩)
    · exact hne _ hnew
    · exact h.idle ⟨poster, hposter⟩
  · rintro ⟨poster, hposter⟩
    rw [posting_update rfl]
    refine .inr ⟨poster, ?_, hposter⟩
    rintro rfl
    rw [hfree] at hposter
    cases hposter

theorem setBit_fanOrder (h : FanOrder forced s) (hstep : Cm2Dm.step s (.setBit thread) = some t) :
    FanOrder forced t := by
  obtain ⟨id, hposted, rfl⟩ := step_setBit_cases hstep
  have hword : id.toNat < 32 := lt_trans id.toNat_lt (by decide)
  have hid : id ≠ fanMsg !forced := fun heq => h.idle ⟨thread, heq ▸ hposted⟩
  refine ⟨?_, ?_, ?_⟩
  · have hclear : s.mailbox.pendingMessages.getLsbD (fanMsg !forced).toNat = false := h.clear
    rw [World.pendingBit, getLsbD_setBit hword, hclear, Bool.or_false, decide_eq_false_iff_not]
    exact fun heq => hid (Cm2DmMsgId.toNat_inj heq)
  · rw [posting_update rfl]
    rintro (hnew | ⟨poster, -, hposter⟩)
    · cases hnew
    · exact h.idle ⟨poster, hposter⟩
  · rw [World.pendingBit, posting_update rfl, getLsbD_setBit hword, Bool.or_eq_true,
      decide_eq_true_eq]
    obtain hbit | ⟨poster, hposter⟩ | hover := h.last
    · exact .inl (.inr hbit)
    · by_cases hsame : poster = thread
      · -- the bit of the last post itself
        rw [hsame, hposted] at hposter
        exact .inl (.inl (congrArg _ (Option.some.inj hposter)))
      · exact .inr (.inl (.inr ⟨poster, hsame, hposter⟩))
    · exact .inr (.inr hover)

theorem lastFan_idle (hidle : s.smbus = .idle) :
    lastFan s = (lastFanPut s.trace.put).map fun m => m.msgId.toNat := by
  rw [lastFan, transitId, hidle, Option.filter_none, Option.none_or]

theorem step_fanOrder (h : FanOrder forced s) (hinv : Inv s) (hpick : Picked s)
    (hother : ∀ thread id data, a = .store thread id data → isFan id = false)
    (hstep : Cm2Dm.step s a = some t) : FanOrder forced t := by
  cases a with
  | store thread id data => exact store_fanOrder h (hother thread id data rfl) hstep
  | setBit thread => exact setBit_fanOrder h hstep
  | req =>
    obtain ⟨hidle, rfl⟩ := step_req_cases hstep
    have hlast := h.last
    rw [lastFan_idle hidle] at hlast
    exact ⟨h.clear, h.idle, hlast⟩
  | ack data =>
    obtain ⟨hidle, ⟨-, rfl⟩ | ⟨-, rfl⟩⟩ := step_ack_cases hstep
    · have hlast := h.last
      rw [lastFan_idle hidle] at hlast
      exact ⟨h.clear, h.idle, hlast⟩
    · exact h
  | smbus => exact smbusStep_fanOrder h hinv hpick hstep

theorem step_picked (hpick : Picked s) (hstep : Cm2Dm.step s a = some t) : Picked t := by
  intro i hi
  cases a with
  | store thread id data =>
    obtain ⟨-, rfl⟩ := step_store_cases hstep
    exact hpick i hi
  | setBit thread =>
    obtain ⟨id, -, rfl⟩ := step_setBit_cases hstep
    rw [getLsbD_setBit (lt_trans id.toNat_lt (by decide)), hpick i hi, Bool.or_true]
  | req =>
    obtain ⟨-, rfl⟩ := step_req_cases hstep
    cases hi
  | ack data =>
    obtain ⟨-, ⟨-, rfl⟩ | ⟨-, rfl⟩⟩ := step_ack_cases hstep
    · cases hi
    · exact hpick i hi
  | smbus =>
    obtain ⟨m, smbus, posting, trace⟩ := s
    simp only [Cm2Dm.step] at hstep
    cases smbus with
    | idle => cases hstep
    | reqTest =>
      cases hstep
      cases hvalid : m.currMsgValid <;> simp [hvalid] at hi
    | reqGet =>
      simp only [smbusStep] at hstep
      split at hstep <;> cases hstep
      · rename_i hpending
        cases hi
        exact nextIdRr_pending hpending
      · cases hi
    | reqClear | reqMsgId | reqSeqNum | reqLoad | reqData | reqValid | reqCopy | ackClear =>
      cases hstep
      cases hi

theorem step_fanPosts (h : FanPosts s)
    (hother : ∀ thread id data, a = .store thread id data → isFan id = false)
    (hstep : Cm2Dm.step s a = some t) : FanPosts t := by
  intro poster id hposter hid
  obtain ⟨thread, new, data, ha, hposting, -⟩ | ⟨thread, hposting, -⟩ | ⟨hposting, -⟩ :=
    step_posts_cases hstep
  · rw [hposting] at hposter
    by_cases hsame : poster = thread
    · rw [hsame, Function.update_self, Option.some.injEq] at hposter
      rw [← hposter, hother thread new data ha] at hid
      cases hid
    · rw [Function.update_of_ne hsame] at hposter
      exact h poster id hposter hid
  · rw [hposting] at hposter
    by_cases hsame : poster = thread
    · rw [hsame, Function.update_self] at hposter
      cases hposter
    · rw [Function.update_of_ne hsame] at hposter
      exact h poster id hposter hid
  · rw [hposting] at hposter
    exact h poster id hposter hid

theorem FanOrder.of_store (hposts : FanPosts s) (hclear : s.pendingBit (fanMsg !forced) = false)
    (hstep : Cm2Dm.step s (.store fanThread (fanMsg forced) data) = some t) :
    FanOrder forced t ∧ FanPosts t := by
  obtain ⟨-, rfl⟩ := step_store_cases hstep
  refine ⟨⟨hclear, ?_, ?_⟩, ?_⟩
  · rw [posting_update rfl]
    rintro (hnew | ⟨poster, hne, hposter⟩)
    · exact fanMsg_ne forced (congrArg _ (Option.some.inj hnew))
    · exact hne (hposts poster _ hposter (isFan_fanMsg _))
  · rw [posting_update rfl]
    exact .inr (.inl (.inl rfl))
  · intro poster id hposter hid
    by_cases hsame : poster = fanThread
    · exact hsame
    · exact hposts poster id ((Function.update_of_ne hsame ..).symm.trans hposter) hid

end

-- ---
-- Steps of the system

theorem dmc_smc {s t : System} {a : Dmc.Action} (hstep : Dmc.step s a = some t) :
    t.smc = s.smc ∨ ∃ b, Cm2Dm.step s.smc b = some t.smc ∧
      ∀ thread id data, b = .store thread id data → a = .store thread id data := by
  rcases a
  case store thread id data =>
    obtain ⟨smc, hsmc, rfl⟩ := Option.map_eq_some_iff.mp hstep
    refine .inr ⟨_, hsmc, ?_⟩
    rintro _ _ _ ⟨⟩
    rfl
  case setBit thread =>
    obtain ⟨smc, hsmc, rfl⟩ := Option.map_eq_some_iff.mp hstep
    exact .inr ⟨_, hsmc, by rintro _ _ _ ⟨⟩⟩
  case smbus =>
    obtain ⟨smc, hsmc, rfl⟩ := Option.map_eq_some_iff.mp hstep
    exact .inr ⟨_, hsmc, by rintro _ _ _ ⟨⟩⟩
  case request =>
    simp only [Dmc.step] at hstep
    split at hstep
    · obtain ⟨smc, hsmc, rfl⟩ := Option.map_eq_some_iff.mp hstep
      exact .inr ⟨_, hsmc, by rintro _ _ _ ⟨⟩⟩
    · cases hstep
  case ack delivered =>
    simp only [Dmc.step] at hstep
    split at hstep
    · split at hstep
      · obtain ⟨smc, hsmc, rfl⟩ := Option.map_eq_some_iff.mp hstep
        exact .inr ⟨_, hsmc, by rintro _ _ _ ⟨⟩⟩
      · cases hstep
        exact .inl rfl
    · cases hstep
  case poll =>
    simp only [Dmc.step] at hstep
    split at hstep <;> cases hstep
    exact .inl rfl
  case readFail =>
    simp only [Dmc.step] at hstep
    split at hstep <;> cases hstep <;> exact .inl rfl
  case readOk =>
    simp only [Dmc.step] at hstep
    split at hstep
    · split at hstep <;> cases hstep <;> exact .inl rfl
    · cases hstep
  case check answer =>
    simp only [Dmc.step] at hstep
    split at hstep <;> cases hstep
    refine .inl ?_
    unfold Dmc.processMessage
    split
    · rfl
    · dsimp only
      split <;> rfl

def posted (fanCtrlEn : Bool) (s : FanSystem) : Action → Option SmcFan
  | .force rawSpeed curve => if fanCtrlEn then some (forceFanSpeed rawSpeed curve) else none
  | .update curve => if fanCtrlEn && !s.fan.fanSpeedForced then some ⟨curve, false⟩ else none
  | .other _ => none

/-- No post finds the other one of the two messages pending. -/
def OtherNotPending (fanCtrlEn : Bool) (s : FanSystem) (a : Action) : Prop :=
  ∀ fan ∈ posted fanCtrlEn s a, s.system.smc.pendingBit (fanMsg !fan.fanSpeedForced) = false

instance (fanCtrlEn : Bool) (s : FanSystem) (a : Action) :
    Decidable (OtherNotPending fanCtrlEn s a) :=
  inferInstanceAs (Decidable (∀ fan ∈ posted fanCtrlEn s a,
    s.system.smc.pendingBit (fanMsg !fan.fanSpeedForced) = false))

theorem forceFanSpeed_le {rawSpeed curve : UInt32} (h : CurveOk curve) :
    (forceFanSpeed rawSpeed curve).fanSpeed ≤ 100 := by
  unfold forceFanSpeed
  split
  · exact h
  · dsimp only
    split
    · assumption
    · exact UInt32.le_refl _

section

variable {fanCtrlEn : Bool} {s t : FanSystem} {a : Action}

theorem step_cases (hstep : step fanCtrlEn s a = some t) :
    (∃ fan, posted fanCtrlEn s a = some fan ∧ fan.fanSpeed ≤ 100 ∧ post s fan = some t) ∨
      t = s ∨
      ∃ b, t.fan = s.fan ∧ Dmc.step s.system b = some t.system ∧
        ∀ thread id data, b = .store thread id data → isFan id = false := by
  cases a with
  | force rawSpeed curve =>
    simp only [step] at hstep
    cases fanCtrlEn with
    | false =>
      cases hstep
      exact .inr (.inl rfl)
    | true =>
      simp only [Bool.not_true, Bool.false_eq_true, if_false] at hstep
      split at hstep
      · rename_i hcurve
        exact .inl ⟨_, rfl, forceFanSpeed_le hcurve, hstep⟩
      · cases hstep
  | update curve =>
    simp only [step] at hstep
    cases fanCtrlEn with
    | false => cases hstep
    | true =>
      simp only [Bool.not_true, Bool.false_eq_true, if_false] at hstep
      split at hstep
      · cases hstep
        exact .inr (.inl rfl)
      · rename_i hforced
        split at hstep
        · rename_i hcurve
          exact .inl ⟨⟨curve, false⟩, by simp [posted, hforced], hcurve, hstep⟩
        · cases hstep
  | other b =>
    refine .inr (.inr ?_)
    cases b with
    | store thread id data =>
      simp only [step] at hstep
      split at hstep
      · cases hstep
      · rename_i hid
        obtain ⟨system, hsystem, rfl⟩ := Option.map_eq_some_iff.mp hstep
        refine ⟨_, rfl, hsystem, ?_⟩
        rintro _ _ _ ⟨⟩
        exact Bool.not_eq_true _ ▸ hid
    | setBit | smbus | poll | request | readFail | readOk | ack | check =>
      obtain ⟨system, hsystem, rfl⟩ := Option.map_eq_some_iff.mp hstep
      exact ⟨_, rfl, hsystem, by rintro _ _ _ ⟨⟩⟩

-- ---
-- The invariant

/-- The last post was of the state the SMC has, and it is not overtaken. -/
def LastPost (s : FanSystem) : Prop :=
  lastStored s.system.smc.trace.stored (fanMsg s.fan.fanSpeedForced) = some s.fan.fanSpeed ∧
    FanOrder s.fan.fanSpeedForced s.system.smc

structure FanInv (s : FanSystem) : Prop where
  linked : Dmc.Linked s.system
  picked : Picked s.system.smc
  posts : FanPosts s.system.smc
  small : s.fan.fanSpeed ≤ 100
  last : (∀ flag, lastStored s.system.smc.trace.stored (fanMsg flag) = none) ∨ LastPost s

theorem start_fanInv {lastSeqNum : UInt8} : FanInv (.start lastSeqNum) where
  linked := Dmc.linked_start
  picked := by
    intro i hi
    cases hi
  posts := by
    intro thread id hposting
    cases hposting
  small := by
    show (0 : UInt32) ≤ 100
    decide
  last := .inl fun _ => rfl

theorem stored_of_step {s t : World} {a : Cm2Dm.Action} {id : Cm2DmMsgId} (hid : isFan id = true)
    (hother : ∀ thread id data, a = .store thread id data → isFan id = false)
    (hstep : Cm2Dm.step s a = some t) :
    lastStored t.trace.stored id = lastStored s.trace.stored id := by
  obtain ⟨thread, new, data, ha, -, hstored⟩ | ⟨-, -, hstored⟩ | ⟨-, hstored⟩ :=
    step_posts_cases hstep
  · rw [hstored, lastStored_concat, if_neg]
    rintro rfl
    rw [hother thread new data ha] at hid
    cases hid
  · rw [hstored]
  · rw [hstored]

theorem other_fanInv {b : Dmc.Action} (h : FanInv s) (hfan : t.fan = s.fan)
    (hstep : Dmc.step s.system b = some t.system)
    (hother : ∀ thread id data, b = .store thread id data → isFan id = false) : FanInv t := by
  have hlinked := Dmc.step_linked h.linked hstep
  obtain hsmc | ⟨c, hsmc, hstore⟩ := dmc_smc hstep
  · refine ⟨hlinked, ?_, ?_, ?_, ?_⟩
    · rw [hsmc]
      exact h.picked
    · rw [hsmc]
      exact h.posts
    · rw [hfan]
      exact h.small
    · rw [LastPost, hsmc, hfan]
      exact h.last
  · have hother' : ∀ thread id data, c = .store thread id data → isFan id = false :=
      fun thread id data hc => hother thread id data (hstore thread id data hc)
    have hmailbox := h.linked.mailbox
    have hsame : ∀ flag, lastStored t.system.smc.trace.stored (fanMsg flag) =
        lastStored s.system.smc.trace.stored (fanMsg flag) :=
      fun flag => stored_of_step (isFan_fanMsg flag) hother' hsmc
    refine ⟨hlinked, step_picked h.picked hsmc, step_fanPosts h.posts hother' hsmc, ?_, ?_⟩
    · rw [hfan]
      exact h.small
    · refine h.last.imp ?_ ?_
      · intro hnone flag
        rw [hsame]
        exact hnone flag
      · intro hlast
        rw [LastPost, hfan, hsame]
        exact ⟨hlast.1, step_fanOrder hlast.2 hmailbox h.picked hother' hsmc⟩

theorem post_fanInv {fan : SmcFan} (h : FanInv s) (hsmall : fan.fanSpeed ≤ 100)
    (hclear : s.system.smc.pendingBit (fanMsg !fan.fanSpeedForced) = false)
    (hpost : post s fan = some t) : FanInv t := by
  obtain ⟨system, hsystem, rfl⟩ := Option.map_eq_some_iff.mp hpost
  obtain ⟨smc, hsmc, hsys⟩ := Option.map_eq_some_iff.mp hsystem
  have heq : system.smc = smc := by rw [← hsys]
  obtain ⟨horder, hposts⟩ := FanOrder.of_store h.posts hclear hsmc
  have hstored := congrArg (·.trace.stored) (step_store_cases hsmc).2
  refine ⟨Dmc.step_linked h.linked hsystem, ?_, ?_, hsmall, .inr ⟨?_, ?_⟩⟩
  · rw [heq]
    exact step_picked h.picked hsmc
  · rw [heq]
    exact hposts
  · rw [heq, hstored, lastStored_concat, if_pos rfl]
  · rw [heq]
    exact horder

theorem step_fanInv (h : FanInv s) (hclear : OtherNotPending fanCtrlEn s a)
    (hstep : step fanCtrlEn s a = some t) : FanInv t := by
  obtain ⟨fan, hfan, hsmall, hpost⟩ | rfl | ⟨b, hfan, hb, hother⟩ := step_cases hstep
  · exact post_fanInv h hsmall (hclear fan hfan) hpost
  · exact h
  · exact other_fanInv h hfan hb hother

-- ---
-- What the DMC ends up with

variable {put : List Cm2dmMessage}

theorem foldl_processFan {chip : ChipFan} :
    put.foldl processFan chip = ((lastFanPut put).map (processFan chip)).getD chip := by
  induction put using List.reverseRecOn with
  | nil => rfl
  | append_singleton put m ih =>
    rw [List.foldl_append, List.foldl_cons, List.foldl_nil, lastFanPut_concat]
    by_cases hfan : isFanNo m.msgId.toNat = true
    · rw [if_pos hfan]
      obtain hno | hno := (isFanNo_iff false).mp hfan <;> simp [processFan, hno, fanMsg]
    · rw [if_neg hfan, ← ih]
      rw [isFanNo_iff false, not_or] at hfan
      obtain ⟨hupdate, hforced⟩ : m.msgId.toNat ≠ Cm2DmMsgId.fanSpeedUpdate.toNat ∧
          m.msgId.toNat ≠ Cm2DmMsgId.forcedFanSpeedUpdate.toNat := hfan
      rw [processFan, if_neg hupdate, if_neg hforced]

theorem lastPut_of_lastFanPut {m : Cm2dmMessage} {forced : Bool} (h : lastFanPut put = some m)
    (hid : m.msgId.toNat = (fanMsg forced).toNat) : lastPut put (fanMsg forced) = some m := by
  induction put using List.reverseRecOn with
  | nil => cases h
  | append_singleton put n ih =>
    rw [lastFanPut_concat] at h
    rw [lastPut_concat]
    split at h
    · cases h
      rw [if_pos hid]
    · rename_i hno
      rw [if_neg fun heq => hno ((isFanNo_iff forced).mpr (.inl heq))]
      exact ih h

/-- No post, no pending or current message, no handler of the SMC, and the DMC outside of
`process_cm2dm_message`. -/
structure Quiet (s : System) : Prop where
  posting : ∀ thread, s.smc.posting thread = none
  pending : s.smc.mailbox.pendingMessages = 0
  current : s.smc.mailbox.currMsgValid = false
  smbus : s.smc.smbus = .idle
  dmc : s.pc = .idle

theorem Quiet.dispatched {s : System} (h : Quiet s) (hlinked : Dmc.Linked s) :
    s.dispatched.map Prod.snd = s.smc.trace.put := by
  have hretired := hlinked.numbered.invalid h.current
  have hround := hlinked.round
  simp only [Dmc.RoundInv, h.dmc] at hround
  obtain ⟨hlo, hhi⟩ := hround
  have hlen : s.dispatched.length = s.smc.trace.put.length := by omega
  apply List.ext_getElem?
  intro k
  by_cases hk : k < s.dispatched.length
  · have hno := congrArg (·[k]?) hlinked.dispatched.inOrder
    simp only [List.getElem?_map, List.getElem?_eq_getElem hk, List.getElem?_range hk,
      Option.map_some, Option.some.injEq] at hno
    have hmsg := hlinked.dispatched.message s.dispatched[k].1 s.dispatched[k].2 (List.getElem_mem hk)
    rw [hno] at hmsg
    rw [List.getElem?_map, List.getElem?_eq_getElem hk, Option.map_some, hmsg]
  · rw [List.getElem?_eq_none (by simpa using hk), List.getElem?_eq_none (by omega)]

theorem LastPost.lastFanPut (h : FanInv s) (hlast : LastPost s) (hquiet : Quiet s.system) :
    ∃ m, lastFanPut s.system.smc.trace.put = some m ∧
      m.msgId.toNat = (fanMsg s.fan.fanSpeedForced).toNat ∧ m.data = s.fan.fanSpeed := by
  have hbit : ∀ id, s.system.smc.pendingBit id = false := by
    intro id
    simp [World.pendingBit, hquiet.pending]
  have hposting : ∀ id, ¬ s.system.smc.Posting id := by
    rintro id ⟨thread, hthread⟩
    rw [hquiet.posting thread] at hthread
    cases hthread
  obtain ⟨hstored, horder⟩ := hlast
  obtain hset | hpost | hfan := horder.last
  · rw [hbit] at hset
    cases hset
  · exact absurd hpost (hposting _)
  · have htransit : transitId s.system.smc = none := by rw [transitId, hquiet.smbus]
    rw [lastFan, htransit, Option.filter_none, Option.none_or] at hfan
    obtain ⟨m, hm, hid⟩ := Option.map_eq_some_iff.mp hfan
    refine ⟨m, hm, hid, ?_⟩
    have hput := lastPut_of_lastFanPut hm hid
    obtain hset | htaken | ⟨m', hm', hdata⟩ := h.linked.mailbox.not_lost (hposting _) hstored
    · rw [hbit] at hset
      cases hset
    · rw [World.inTransit, hquiet.smbus] at htaken
      cases htaken
    · rw [hput, Option.some.injEq] at hm'
      rw [hm']
      exact hdata

/-- **The fan speed arrives in order**: if no post of one of the two messages finds the other one
pending, then whenever nothing is under way the chip's fields of the DMC are the state of the SMC.
-/
theorem fan_speed_in_order {lastSeqNum : UInt8} {actions : List Action} (initial : ChipFan)
    (hrun : exec (step fanCtrlEn) (.start lastSeqNum) actions = some s)
    (hclear : Along (step fanCtrlEn) (OtherNotPending fanCtrlEn) (.start lastSeqNum) actions)
    (hposted : ∃ flag data,
      lastStored s.system.smc.trace.stored (fanMsg flag) = some data)
    (hquiet : Quiet s.system) :
    (chipFan initial s.system).fanSpeed.toNat = s.fan.fanSpeed.toNat ∧
      (chipFan initial s.system).fanSpeedForced = s.fan.fanSpeedForced := by
  have h : FanInv s := exec_invariant_along (fun _ _ _ => step_fanInv) start_fanInv hclear hrun
  have hlast : LastPost s := by
    obtain hnone | hlast := h.last
    · obtain ⟨flag, data, hdata⟩ := hposted
      rw [hnone flag] at hdata
      cases hdata
    · exact hlast
  obtain ⟨m, hm, hid, hdata⟩ := hlast.lastFanPut h hquiet
  have hchip : chipFan initial s.system = processFan initial m := by
    rw [chipFan, hquiet.dispatched h.linked, foldl_processFan, hm]
    rfl
  have hbyte : m.data.toUInt8.toNat = s.fan.fanSpeed.toNat := by
    have hsmall : s.fan.fanSpeed.toNat ≤ 100 := UInt32.le_iff_toNat_le.mp h.small
    rw [hdata, UInt32.toNat_toUInt8]
    omega
  rw [hchip, processFan, hid]
  cases hforced : s.fan.fanSpeedForced with
  | false => exact ⟨hbyte, rfl⟩
  | true => exact ⟨hbyte, rfl⟩

end

def takeOne : List Action :=
  ([.request] ++ List.replicate 9 .smbus ++ [.readOk, .ack true, .smbus, .check .goOn] :
    List Dmc.Action).map .other

def findNone : List Action :=
  ([.request, .smbus, .smbus, .smbus, .readOk] : List Dmc.Action).map .other

def forceThenRelease : List Action :=
  [.force 50 30, .other (.setBit 0), .other .poll] ++ takeOne ++
    [.force 0xFFFFFFFF 30, .other (.setBit 0)] ++ takeOne ++ findNone

theorem forceThenRelease_in_order : ∃ s,
    exec (step true) (.start 0) forceThenRelease = some s ∧ s.fan = ⟨30, false⟩ ∧
    (chipFan ⟨0, false⟩ s.system).fanSpeed.toNat = s.fan.fanSpeed.toNat ∧
    (chipFan ⟨0, false⟩ s.system).fanSpeedForced = s.fan.fanSpeedForced := by
  refine ⟨_, rfl, rfl, ?_⟩
  refine @fan_speed_in_order true _ 0 forceThenRelease _ rfl (by decide +kernel) ⟨false, 30, rfl⟩
    ⟨?_, rfl, rfl, rfl, rfl⟩
  intro thread
  cases thread <;> rfl

/-- Force and release while the DMC is not polling: the two messages arrive the other way
round, and the chip stays forced. -/
theorem released_fan_stays_forced : ∃ s,
    exec (step true) (.start 0)
      ([.force 50 30, .other (.setBit 0), .force 0xFFFFFFFF 30, .other (.setBit 0),
        .other .poll] ++ takeOne ++ takeOne ++ findNone) = some s ∧
    Quiet s.system ∧ s.fan = ⟨30, false⟩ ∧ chipFan ⟨0, false⟩ s.system = ⟨50, true⟩ := by
  refine ⟨_, rfl, ⟨?_, rfl, rfl, rfl, rfl⟩, rfl, rfl⟩
  intro thread
  cases thread <;> rfl

end SystemFirmware.Cm2Dm.Fan
