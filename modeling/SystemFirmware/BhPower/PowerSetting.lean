import SystemFirmware.ClockControl.L2cpu

/-!
# Power settings

The POWER_SETTING message of `lib/tenstorrent/bh_arc/bh_power.c` turns up to four power
domains on or off: it names how many of its flags are valid, in the order of the
domains.

What the operations of a domain return is an input. `apply_power_settings` keeps it in one
variable, where each overwrites the one before, and the handler drops it
(`power_setting_reported_iff`).
-/

namespace SystemFirmware.BhPower

open Lib ClockControl

-- ---
-- Requests and operations

inductive PowerDomain where
  | aiclk
  | mrisc
  | tensix
  | l2cpu
  deriving DecidableEq, Repr

def PowerDomain.index : PowerDomain → ℕ
  | .aiclk => 0
  | .mrisc => 1
  | .tensix => 2
  | .l2cpu => 3

/-- `struct power_setting_rqst`; `power_flags_valid` has four bits. -/
structure PowerSettingRqst where
  powerFlagsValid : BitVec 4
  maxAiClk : Bool
  mriscPhyPower : Bool
  tensixEnable : Bool
  l2cpuEnable : Bool

def PowerSettingRqst.flag (rq : PowerSettingRqst) : PowerDomain → Bool
  | .aiclk => rq.maxAiClk
  | .mrisc => rq.mriscPhyPower
  | .tensix => rq.tensixEnable
  | .l2cpu => rq.l2cpuEnable

def PowerSettingRqst.Valid (rq : PowerSettingRqst) (domain : PowerDomain) : Prop :=
  rq.powerFlagsValid.toNat > domain.index

instance (rq : PowerSettingRqst) (domain : PowerDomain) : Decidable (rq.Valid domain) :=
  inferInstanceAs (Decidable (_ > _))

/-- The calls of `apply_power_settings` that can fail. -/
inductive Operation where
  | setTensixEnable (enable : Bool)
  /-- `clock_control_on` or `clock_control_off` for an L2CPU clock. -/
  | clock (index : PostdivIndex) (enable : Bool)
  | setMriscPowerSetting (on : Bool)
  deriving DecidableEq

/-- Everything `apply_power_settings` calls. -/
inductive Call where
  | aiclkUpdateBusy
  | bhSoftResetAllTensix
  | operation (op : Operation)
  deriving DecidableEq

-- ---
-- The handler

/-- The tracked state, the variable `ret` and the calls made so far. -/
structure Run where
  powerState : PowerDomain → Bool
  ret : Int32
  calls : List Call

section

variable (result : Operation → Int32) (isUbb : Bool) (rq : PowerSettingRqst)

/-- The clock operations of `bh_set_l2cpu_enable`. -/
def l2cpuOperations (enable : Bool) : List Operation :=
  (setL2cpuEnable enable).map fun sw => .clock sw.index sw.isOn

/-- The value of `bh_set_l2cpu_enable`: each call overwrites `ret`. -/
def bhSetL2cpuEnable (enable : Bool) : Int32 :=
  (l2cpuOperations enable).foldl (fun _ op => result op) 0

/-- The block of `apply_power_settings` for AICLK. -/
def applyAiclk (r : Run) : Run :=
  if rq.Valid .aiclk then
    { r with
      powerState := Function.update r.powerState .aiclk rq.maxAiClk
      calls := r.calls ++ [.aiclkUpdateBusy] }
  else r

/-- The block for Tensix. The cores are reset first, unless their clocks are gated. -/
def applyTensix (r : Run) : Run :=
  if rq.Valid .tensix then
    let reset := if !rq.tensixEnable && r.powerState .tensix then [Call.bhSoftResetAllTensix] else []
    { powerState := Function.update r.powerState .tensix rq.tensixEnable
      ret := result (.setTensixEnable rq.tensixEnable)
      calls := r.calls ++ reset ++ [.operation (.setTensixEnable rq.tensixEnable)] }
  else r

def applyL2cpu (r : Run) : Run :=
  if rq.Valid .l2cpu then
    { powerState := Function.update r.powerState .l2cpu rq.l2cpuEnable
      ret := bhSetL2cpuEnable result rq.l2cpuEnable
      calls := r.calls ++ (l2cpuOperations rq.l2cpuEnable).map .operation }
  else r

/-- The block for MRISC. The tracked state stays on where the power-down does nothing. -/
def applyMrisc (r : Run) : Run :=
  if rq.Valid .mrisc then
    { powerState := if !isUbb then Function.update r.powerState .mrisc rq.mriscPhyPower
        else r.powerState
      ret := result (.setMriscPowerSetting rq.mriscPhyPower)
      calls := r.calls ++ [.operation (.setMriscPowerSetting rq.mriscPhyPower)] }
  else r

def applyPowerSettings (powerState : PowerDomain → Bool) : Run :=
  applyMrisc result isUbb rq (applyL2cpu result rq (applyTensix result rq (applyAiclk rq
    { powerState := powerState, ret := 0, calls := [] })))

/-- `power_setting_msg_handler`: its return value, and the call it made. -/
def powerSettingMsgHandler (powerState : PowerDomain → Bool) : UInt8 × Run :=
  (0, applyPowerSettings result isUbb rq powerState)

end

def bootState : PowerDomain → Bool
  | .aiclk => false
  | .mrisc => true
  | .tensix => true
  | .l2cpu => true

-- ---
-- What a request asks for

/-- The operations that set a domain to its flag; AICLK has none. -/
def PowerSettingRqst.operations (rq : PowerSettingRqst) : PowerDomain → List Operation
  | .aiclk => []
  | .mrisc => [.setMriscPowerSetting rq.mriscPhyPower]
  | .tensix => [.setTensixEnable rq.tensixEnable]
  | .l2cpu => l2cpuOperations rq.l2cpuEnable

def PowerSettingRqst.requested (rq : PowerSettingRqst) (domain : PowerDomain) : List Operation :=
  if rq.Valid domain then rq.operations domain else []

/-- The flag that becomes the tracked state of a domain, if the request sets it. -/
def PowerSettingRqst.tracks (isUbb : Bool) (domain : PowerDomain) (rq : PowerSettingRqst) :
    Option Bool :=
  if rq.Valid domain ∧ ¬ (domain = .mrisc ∧ isUbb = true) then some (rq.flag domain) else none

section

variable {result : Operation → Int32} {isUbb : Bool} {rq : PowerSettingRqst}
  {powerState : PowerDomain → Bool}

theorem block_state {c : Prop} [Decidable c] {a : PowerDomain} {v : Bool} {ret : Int32}
    {calls : List Call} (r : Run) (domain : PowerDomain) :
    (if c then { powerState := Function.update r.powerState a v, ret := ret, calls := calls }
      else r).powerState domain = if c ∧ domain = a then v else r.powerState domain := by
  by_cases hc : c
  · rw [if_pos hc]
    by_cases hd : domain = a
    · rw [if_pos ⟨hc, hd⟩, hd]
      exact Function.update_self _ _ _
    · rw [if_neg fun h => hd h.2]
      exact Function.update_of_ne hd _ _
  · rw [if_neg hc, if_neg fun h => hc h.1]

theorem applyMrisc_state (r : Run) (domain : PowerDomain) :
    (applyMrisc result isUbb rq r).powerState domain =
      if (rq.Valid .mrisc ∧ isUbb = false) ∧ domain = .mrisc then rq.mriscPhyPower
      else r.powerState domain := by
  rcases isUbb with _ | _
  · refine (block_state r domain).trans ?_
    simp only [and_true]
  · have hsame : (applyMrisc result true rq r).powerState = r.powerState := by
      unfold applyMrisc
      split <;> rfl
    rw [hsame]
    simp

theorem applyPowerSettings_state (domain : PowerDomain) :
    (applyPowerSettings result isUbb rq powerState).powerState domain =
      (rq.tracks isUbb domain).getD (powerState domain) := by
  have hl2cpu (r : Run) : (applyL2cpu result rq r).powerState domain = _ := block_state r domain
  have htensix (r : Run) : (applyTensix result rq r).powerState domain = _ := block_state r domain
  have haiclk (r : Run) : (applyAiclk rq r).powerState domain = _ := block_state r domain
  rw [applyPowerSettings, applyMrisc_state, hl2cpu, htensix, haiclk, PowerSettingRqst.tracks]
  cases domain <;> simp [PowerSettingRqst.flag] <;> split <;> rfl

/-- A request and what the operations return while it is handled. -/
structure Handled where
  rq : PowerSettingRqst
  result : Operation → Int32

def powerSettings (isUbb : Bool) (powerState : PowerDomain → Bool) (hs : List Handled) :
    PowerDomain → Bool :=
  hs.foldl (fun s h => (powerSettingMsgHandler h.result isUbb h.rq s).2.powerState) powerState

/-- **Tracked states.** A domain has the flag of the last request that set it, whatever
the operations returned; on a UBB, MRISC keeps the state it had. -/
theorem powerSettings_state (domain : PowerDomain) (hs : List Handled) :
    powerSettings isUbb powerState hs domain =
      ((hs.filterMap fun h => h.rq.tracks isUbb domain).getLast?).getD (powerState domain) :=
  foldl_lastWrite (fun s : PowerDomain → Bool => s domain)
    (fun s h => @applyPowerSettings_state h.result isUbb h.rq s domain) powerState hs

/-- **Reports of failures.** The handler returns 1 exactly if a requested operation failed and
tracks only what succeeded, exactly if none fails. -/
theorem power_setting_reported_iff (result : Operation → Int32) (isUbb : Bool)
    (rq : PowerSettingRqst) (powerState : PowerDomain → Bool) :
    (((powerSettingMsgHandler result isUbb rq powerState).1 = 1 ↔
        ∃ domain, ∃ op ∈ rq.requested domain, result op ≠ 0) ∧
      ∀ domain, (powerSettingMsgHandler result isUbb rq powerState).2.powerState domain ≠
        powerState domain → ∀ op ∈ rq.requested domain, result op = 0) ↔
    ∀ domain, ∀ op ∈ rq.requested domain, result op = 0 := by
  have hret : (powerSettingMsgHandler result isUbb rq powerState).1 ≠ 1 := by
    show (0 : UInt8) ≠ 1
    decide
  constructor
  · rintro ⟨hreported, -⟩ domain op hop
    by_contra hfailed
    exact hret (hreported.mpr ⟨domain, op, hop, hfailed⟩)
  · intro hok
    refine ⟨iff_of_false hret ?_, fun domain _ => hok domain⟩
    rintro ⟨domain, op, hop, hfailed⟩
    exact hfailed (hok domain op hop)

end

def mriscPowerDown : PowerSettingRqst where
  powerFlagsValid := 2
  maxAiClk := false
  mriscPhyPower := false
  tensixEnable := false
  l2cpuEnable := false

def mriscTimesOut : Operation → Int32
  | .setMriscPowerSetting _ => -116
  | _ => 0

/-- **A failure that is not reported.** MRISC does not power down, the handler returns 0,
and MRISC is tracked as off. -/
theorem power_setting_unreported :
    mriscPowerDown.requested .mrisc = [.setMriscPowerSetting false] ∧
      mriscTimesOut (.setMriscPowerSetting false) ≠ 0 ∧
      (powerSettingMsgHandler mriscTimesOut false mriscPowerDown bootState).1 = 0 ∧
      bootState .mrisc = true ∧
      (powerSettingMsgHandler mriscTimesOut false mriscPowerDown bootState).2.powerState .mrisc =
        false := by
  decide

end SystemFirmware.BhPower
