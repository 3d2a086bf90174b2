import SystemFirmware.BhPower.PowerSetting
import SystemFirmware.Gddr.Training

/-!
# GDDR — reset of one instance

`toggle_gddr_reset` of `gddr.c` resets the MRISC of one instance, trains it and runs the
memory test again. If the PHYs are tracked as powered down, all of them are woken up first and
powered down at the end. A failed training or test returns in between, and leaves them awake.
On a UBB the power-down does nothing, but there they are never tracked as off
(`mrisc_on_of_ubb`).
-/

namespace SystemFirmware.Gddr

open BhPower

/-- The power messages of `MRISC_MSG_REGISTER`. -/
inductive PowerMsg where
  | phyPowerdown
  | phyWakeup
  deriving DecidableEq

def PowerMsg.ofState (on : Bool) : PowerMsg := if on then .phyWakeup else .phyPowerdown

/-- What the instances answer while a message is sent to them. -/
structure MessageReads where
  msgRegister : ℕ → UInt32
  busy : ℕ → List UInt32

/-- A power message that was sent to an instance. -/
abbrev Sent := ℕ × PowerMsg

/-- The first loop of `mrisc_message`. -/
def sendMessage (op : PowerMsg) (r : MessageReads) : List ℕ → Except Errno Unit × List Sent
  | [] => (.ok (), [])
  | i :: rest =>
    match checkMriscBusy (r.msgRegister i) with
    | .error e => (.error e, [])
    | .ok _ => ((sendMessage op r rest).1, (i, op) :: (sendMessage op r rest).2)

/-- `mrisc_message`: the message goes to every instance, and then each is waited for. -/
def mriscMessage (op : PowerMsg) (r : MessageReads) (insts : List ℕ) :
    Except Errno Unit × List Sent :=
  match sendMessage op r insts with
  | (.error e, sent) => (.error e, sent)
  | (.ok _, sent) => (insts.forM fun i => waitMriscNotBusy (r.busy i), sent)

def setMriscPowerSetting (isUbb on : Bool) (r : MessageReads) (insts : List ℕ) :
    Except Errno Unit × List Sent :=
  if !on && isUbb then (.ok (), []) else mriscMessage (.ofState on) r insts

inductive ResetError where
  | invalidInst
  | harvested
  | masked
  | training
  | bist
  | powerdown
  deriving DecidableEq

/-- What a request depends on besides the tracked state. -/
structure Request where
  gddrInst : ℕ
  /-- `tile_enable.gddr_enabled` and `GetDramMask`. -/
  gddrEnabled : ℕ → Bool
  dramMask : ℕ → Bool
  isUbb : Bool
  wakeup : MessageReads
  powerdown : MessageReads
  reads : Reads

def Request.enabled (rq : Request) : List ℕ := (List.range numGddr).filter rq.dramMask

def Request.retrain (rq : Request) : Except ResetError Unit :=
  match checkGddrTraining rq.reads.tableVersion rq.reads.initStatus with
  | .error _ => .error .training
  | .ok _ =>
    match startHwMemtest rq.reads 26 with
    | .error _ => .error .bist
    | .ok _ =>
      match checkHwMemtestResult rq.reads with
      | .error _ => .error .bist
      | .ok _ => .ok ()

/-- The call that wakes the PHYs up, or powers them down, unless they are tracked as on. -/
def Request.power (rq : Request) (state on : Bool) : Except Errno Unit × List Sent :=
  if state then (.ok (), [])
  else setMriscPowerSetting rq.isUbb on (if on then rq.wakeup else rq.powerdown) rq.enabled

/-- `toggle_gddr_reset`, with the tracked state of `BH_POWER_DOMAIN_MRISC`: the error of the
response, and the power messages sent. -/
def toggleGddrReset (rq : Request) (state : Bool) : Except ResetError Unit × List Sent :=
  if rq.gddrInst ≥ numGddr then (.error .invalidInst, [])
  else if rq.gddrEnabled rq.gddrInst = false then (.error .harvested, [])
  else if rq.dramMask rq.gddrInst = false then (.error .masked, [])
  else
    match rq.power state true with
    | (.error _, sent) => (.error .powerdown, sent)
    | (.ok _, sent) =>
      match rq.retrain with
      | .error e => (.error e, sent)
      | .ok _ =>
        match rq.power state false with
        | (.error _, more) => (.error .powerdown, sent ++ more)
        | (.ok _, more) => (.ok (), sent ++ more)

-- ---
-- The tracked state

def lastSent (sent : List Sent) (inst : ℕ) : Option PowerMsg :=
  ((sent.filter fun m => m.1 = inst).map Prod.snd).getLast?

theorem mrisc_on_of_ubb (hs : List Handled) : powerSettings true bootState hs .mrisc = true := by
  rw [powerSettings_state]
  simp [PowerSettingRqst.tracks, bootState]

variable {r : MessageReads} {insts : List ℕ}

theorem sendMessage_ok {op : PowerMsg} (h : (sendMessage op r insts).1 = .ok ()) :
    (sendMessage op r insts).2 = insts.map fun i => (i, op) := by
  induction insts with
  | nil => rfl
  | cons i insts ih =>
    unfold sendMessage at h ⊢
    split at h
    · cases h
    · rw [ih h]
      rfl

theorem setMriscPowerSetting_ok {on : Bool}
    (h : (setMriscPowerSetting false on r insts).1 = .ok ()) :
    (setMriscPowerSetting false on r insts).2 = insts.map fun i => (i, .ofState on) := by
  unfold setMriscPowerSetting mriscMessage at h ⊢
  rw [Bool.and_false] at h ⊢
  simp only [Bool.false_eq_true, if_false] at h ⊢
  split at h
  · cases h
  · next sent hsend =>
    have hsent := sendMessage_ok (congrArg Prod.fst hsend)
    rw [hsend] at hsent
    exact hsent

theorem lastSent_message (sent : List Sent) (op : PowerMsg) (insts : List ℕ) (inst : ℕ) :
    lastSent (sent ++ insts.map fun i => (i, op)) inst =
      if inst ∈ insts then some op else lastSent sent inst := by
  have hsnd : (((insts.map fun i => (i, op)).filter fun m => m.1 = inst).map Prod.snd) =
      (insts.filter (· = inst)).map fun _ => op := by
    rw [List.filter_map, List.map_map]
    rfl
  rw [lastSent, List.filter_append, List.map_append, hsnd, List.getLast?_append, List.getLast?_map]
  split
  · next hmem =>
    have hne : insts.filter (· = inst) ≠ [] :=
      List.ne_nil_of_mem (List.mem_filter.mpr ⟨hmem, by simp⟩)
    rw [List.getLast?_eq_some_getLast hne]
    rfl
  · next hmem =>
    have hnil : insts.filter (· = inst) = [] := by
      rw [List.filter_eq_nil_iff]
      intro i hi heq
      exact hmem (of_decide_eq_true heq ▸ hi)
    rw [hnil]
    rfl

section

variable (rq : Request) (hs : List Handled)

/-- The tracked state of MRISC after a history of power settings. -/
def Request.tracked : Bool := powerSettings rq.isUbb bootState hs .mrisc

variable {rq hs}

/-- The checks in front of the wake-up refuse the request. -/
def Request.Refused (rq : Request) : Prop :=
  rq.gddrInst ≥ numGddr ∨ rq.gddrEnabled rq.gddrInst = false ∨ rq.dramMask rq.gddrInst = false

theorem toggleGddrReset_refused {state : Bool} (h : rq.Refused) :
    (toggleGddrReset rq state).2 = [] := by
  unfold toggleGddrReset
  split_ifs with hinst henabled hmask
  · rfl
  · rfl
  · rfl
  · exact absurd h fun h => h.elim hinst fun h => h.elim henabled hmask

theorem toggleGddrReset_sent {state : Bool} (hwakeup : (rq.power state true).1 = .ok ())
    (hpowerdown : (rq.power state false).1 = .ok ()) (h : ¬ rq.Refused) :
    (toggleGddrReset rq state).2 = (rq.power state true).2 ++
      if rq.retrain = .ok () then (rq.power state false).2 else [] := by
  simp only [Request.Refused, not_or] at h
  unfold toggleGddrReset
  rw [if_neg h.1, if_neg h.2.1, if_neg h.2.2, show rq.power state true =
    (.ok (), (rq.power state true).2) from Prod.ext hwakeup rfl, show rq.power state false =
    (.ok (), (rq.power state false).2) from Prod.ext hpowerdown rfl]
  cases rq.retrain with
  | error e => simp
  | ok u => simp

theorem toggleGddrReset_on : (toggleGddrReset rq true).2 = [] := by
  have hpower (on : Bool) : rq.power true on = (.ok (), []) := rfl
  unfold toggleGddrReset
  rw [hpower, hpower]
  split_ifs
  · rfl
  · rfl
  · rfl
  · cases rq.retrain <;> rfl

theorem isUbb_of_tracked (hstate : rq.tracked hs = false) : rq.isUbb = false := by
  cases hubb : rq.isUbb with
  | false => rfl
  | true =>
    rw [Request.tracked, hubb, mrisc_on_of_ubb] at hstate
    cases hstate

/-- **When the power state is kept.** The last message that a reset has sent to an instance is the
one for the tracked state: exactly if the PHYs are tracked as on, the request is refused, or the
training and the memory test succeed. -/
theorem reset_keeps_power (rq : Request) (hs : List Handled)
    (hwakeup : (rq.power (rq.tracked hs) true).1 = .ok ())
    (hpowerdown : (rq.power (rq.tracked hs) false).1 = .ok ()) :
    (∀ inst msg, lastSent (toggleGddrReset rq (rq.tracked hs)).2 inst = some msg →
      msg = .ofState (rq.tracked hs)) ↔
    rq.tracked hs = true ∨ rq.Refused ∨ rq.retrain = .ok () := by
  have hnone (inst : ℕ) : lastSent [] inst = none := rfl
  cases hstate : rq.tracked hs with
  | true => simp [toggleGddrReset_on, hnone]
  | false =>
    rw [hstate] at hwakeup hpowerdown
    by_cases hrefused : rq.Refused
    · simp [toggleGddrReset_refused hrefused, hnone, hrefused]
    have hsent := toggleGddrReset_sent hwakeup hpowerdown hrefused
    have hubb := isUbb_of_tracked hstate
    unfold Request.power at hwakeup hpowerdown hsent
    simp only [hubb, Bool.false_eq_true, if_false, if_true] at hwakeup hpowerdown hsent
    rw [setMriscPowerSetting_ok hwakeup, setMriscPowerSetting_ok hpowerdown] at hsent
    have hwake (inst : ℕ) := lastSent_message [] (.ofState true) rq.enabled inst
    simp only [List.nil_append, hnone] at hwake
    rw [hsent]
    by_cases hretrain : rq.retrain = .ok ()
    · -- the message of the power-down went to the same instances as that of the wake-up
      refine iff_of_true (fun inst msg hmsg => ?_) (.inr (.inr hretrain))
      rw [if_pos hretrain, lastSent_message, hwake] at hmsg
      split_ifs at hmsg
      exact (Option.some.inj hmsg).symm
    · refine iff_of_false (fun h => ?_) (by simp [hrefused, hretrain])
      -- the instance of the request is enabled, and was woken up
      simp only [Request.Refused, not_or] at hrefused
      have henabled : rq.gddrInst ∈ rq.enabled := by
        simp only [Request.enabled, List.mem_filter, List.mem_range]
        exact ⟨not_le.mp hrefused.1, Bool.eq_true_of_not_eq_false hrefused.2.2⟩
      have hlast := hwake rq.gddrInst
      rw [if_pos henabled] at hlast
      have hsame := h rq.gddrInst _ (by rw [if_neg hretrain, List.append_nil]; exact hlast)
      cases hsame

end

-- ---
-- A failed training

def resetFirst (initStatus : List UInt32) : Request where
  gddrInst := 0
  gddrEnabled := fun _ => true
  dramMask := fun _ => true
  isUbb := false
  wakeup := ⟨fun _ => 0, fun _ => [0]⟩
  powerdown := ⟨fun _ => 0, fun _ => [0]⟩
  reads := { trainedReads 7 with initStatus := initStatus }

def poweredDown : List Handled := [⟨mriscPowerDown, fun _ => 0⟩]

theorem reset_keeps_power_poweredDown :
    lastSent (toggleGddrReset (resetFirst [0xdeadbeef])
        ((resetFirst [0xdeadbeef]).tracked poweredDown)).2 0 = some .phyPowerdown ∧
      .phyPowerdown = PowerMsg.ofState ((resetFirst [0xdeadbeef]).tracked poweredDown) := by
  have hlast : lastSent (toggleGddrReset (resetFirst [0xdeadbeef])
      ((resetFirst [0xdeadbeef]).tracked poweredDown)).2 0 = some .phyPowerdown := by decide
  exact ⟨hlast, (reset_keeps_power (resetFirst [0xdeadbeef]) poweredDown (by decide)
    (by decide)).mpr (.inr (.inr (by decide))) 0 .phyPowerdown hlast⟩

/-- The training fails: every PHY stays awake, and is tracked as powered down. -/
theorem failed_training_stays_awake :
    (resetFirst [0xfa11]).tracked poweredDown = false ∧
      ((resetFirst [0xfa11]).power false true).1 = .ok () ∧
      (toggleGddrReset (resetFirst [0xfa11]) false).1 = .error .training ∧
      lastSent (toggleGddrReset (resetFirst [0xfa11]) false).2 0 = some .phyWakeup ∧
      .phyWakeup ≠ PowerMsg.ofState false := by
  decide

end SystemFirmware.Gddr
