import SystemFirmware.Cm2Dm.Definitions
import SystemFirmware.Lib.Interrupt

/-!
# DmcApp — the main loop of the DMC

`app/dmc/src/main.c` waits for events and then runs its handlers over all chips: thermal
trip, watchdog, PERST, PGOOD, initial data and CM2DM messages. The resets themselves are in
`lib/tenstorrent/bh_chip/bh_chip.c` and `lib/tenstorrent/jtag_bootrom`, as built with
`CONFIG_JTAG_LOAD_ON_PRESET` and `CONFIG_JTAG_LOAD_BOOTROM`.

A handler is a program in atomic steps, one for each access to data that an interrupt
shares. What a bus, a timer or another chip decides comes in as input. SMBus and JTAG
transfers leave no trace but their outcome. The fault LED, the power readings, the log and
the auto-reset timer (its interrupt can come at any time) are left out.
-/

namespace SystemFirmware.DmcApp

open Lib
open Cm2Dm (Cm2dmMessage Cm2DmMsgId cm2DmMsgCount)

/-! ## State -/

/-- `bh_chip_data`, with the lines of the chip. -/
structure ChipData where
  arcNeedsInitMsg : Bool
  busCancel : Bool
  triggerReset : Bool
  performingReset : Bool
  thermTripTriggered : Bool
  thermTripCount : UInt16
  pgoodFallTriggered : Bool
  pgoodRiseTriggered : Bool
  pgoodSevereFault : Bool
  pgoodLastTripMs : Int
  autoResetTimeout : UInt32
  telemetryHeartbeat : UInt32
  arcHangPc : UInt32
  arcWdogTriggered : Bool
  fanSpeed : UInt8
  fanSpeedForced : Bool
  lastCm2dmSeqNum : UInt8
  lastCm2dmSeqNumValid : Bool
  perstSeen : Bool
  asicReset : Bool
  spiReset : Bool
  /-- For the proofs: the reset sequence is between `jtag_bootrom_reset_asic` and its clearing of
  `trigger_reset`. -/
  inSequence : Bool
  deriving DecidableEq, Repr

inductive Event (n : ℕ) where
  /-- `gpio_asic_reset_callback` has run. -/
  | perst
  /-- `jtag_bootrom_reset_asic` is called. -/
  | resetAsic (chip : Fin n)
  deriving DecidableEq, Repr

structure State (n : ℕ) where
  chips : Fin n → ChipData
  /-- Every duty cycle given to the fan, of 255. -/
  pwm : List ℕ
  log : List (Event n)

structure Input where
  flag : Bool
  word : UInt32
  uptime : Int
  message : Option Cm2dmMessage

structure Config where
  fan : Bool
  reboot : Bool

def State.setChip {n : ℕ} (s : State n) (chip : Fin n) (data : ChipData) : State n :=
  { s with chips := Function.update s.chips chip data }

theorem State.setChip_self {n : ℕ} {s : State n} {chip : Fin n} {data : ChipData} :
    (s.setChip chip data).chips chip = data := by
  simp [State.setChip]

theorem State.setChip_of_ne {n : ℕ} {s : State n} {i chip : Fin n} {data : ChipData}
    (h : i ≠ chip) : (s.setChip chip data).chips i = s.chips i := by
  simp [State.setChip, h]

abbrev Main (n : ℕ) (α : Type) : Type := Prog (State n) Input α

section

variable {n : ℕ}

def modifyChip (chip : Fin n) (f : ChipData → ChipData) : Main n Unit :=
  Prog.act fun s => s.setChip chip (f (s.chips chip))

def readChip (chip : Fin n) (c : ChipData → Bool) : Main n Bool := Prog.test fun s => c (s.chips chip)

def outcome : Main n Bool := do
  let input ← Prog.receive
  return input.flag

def cancelBusTransferSet (chip : Fin n) : Main n Unit :=
  modifyChip chip fun c => { c with busCancel := true }

def cancelBusTransferClear (chip : Fin n) : Main n Unit :=
  modifyChip chip fun c => { c with busCancel := false }

/-! ## Resets -/

/-- `jtag_bootrom_reset_asic` is called, by the reset sequence or not. -/
def resetAsicCalled (chip : Fin n) (inSequence : Bool) (s : State n) : State n :=
  { s.setChip chip { s.chips chip with inSequence := inSequence } with
    log := s.log ++ [.resetAsic chip] }

/-- `jtag_bootrom_reset_asic`: was the JTAG set up? -/
def jtagBootromResetAsic (chip : Fin n) (inSequence : Bool) : Main n Bool := do
  Prog.act (resetAsicCalled chip inSequence)
  modifyChip chip fun c => { c with asicReset := true }
  modifyChip chip fun c => { c with spiReset := true }
  Prog.ifElse outcome
    (do
      modifyChip chip fun c => { c with asicReset := false }
      modifyChip chip fun c => { c with spiReset := false }
      return true)
    (return false)

def jtagBootromSoftResetArc (chip : Fin n) : Main n Unit :=
  Prog.ifThen (readChip chip (·.perstSeen))
    (modifyChip chip fun c => { c with perstSeen := false })

/-- The end of `jtag_bootrom_reset_sequence`, after the patch. -/
def finishResetSequence (chip : Fin n) : Main n Unit :=
  Prog.ifElse (readChip chip (·.triggerReset))
    (do
      jtagBootromSoftResetArc chip
      modifyChip chip fun c => { c with triggerReset := false, inSequence := false })
    (modifyChip chip fun c => { c with inSequence := false })

/-- `jtag_bootrom_reset_sequence`: does it return 0? -/
def jtagBootromResetSequence (chip : Fin n) (forceReset : Bool) : Main n Bool := do
  Prog.ifThen (return forceReset) (modifyChip chip fun c => { c with triggerReset := true })
  cancelBusTransferClear chip
  Prog.ifElse (jtagBootromResetAsic chip true)
    (do
      finishResetSequence chip
      return true)
    (do
      modifyChip chip fun c => { c with inSequence := false }
      return false)

def bhChipResetChip (chip : Fin n) (forceReset : Bool) : Main n Bool := do
  modifyChip chip fun c => { c with lastCm2dmSeqNumValid := false }
  -- `bharc_disable_i2cbus`
  Prog.ifElse outcome
    (do
      let reset ← jtagBootromResetSequence chip forceReset
      -- `bharc_enable_i2cbus`
      let enabled ← outcome
      return enabled && reset)
    (return false)

/-! ## The fan -/

/-- The duty cycle for the fan speeds of all chips. -/
def fanDuty (chips : Fin n → ChipData) : ℕ :=
  let speeds := (List.finRange n).map chips
  let fanSpeed := speeds.foldl (fun m c => max m c.fanSpeed.toNat) 0
  let forcedFanSpeed :=
    speeds.foldl (fun m c => max m (if c.fanSpeedForced then c.fanSpeed.toNat else 0)) 0
  let speed := if forcedFanSpeed ≠ 0 then forcedFanSpeed else fanSpeed
  (speed * 255 + 99) / 100

/-- `pwm_set_cycles` of the fan, on a board that has one. -/
def setPwm (cfg : Config) (duty : State n → ℕ) : Main n Unit :=
  Prog.ifThen (return cfg.fan) (Prog.act fun s => { s with pwm := s.pwm ++ [duty s] })

def updateFanSpeed (cfg : Config) : Main n Unit := setPwm cfg fun s => fanDuty s.chips

/-- Both reset handlers: hold the fan at 100% until the chip says otherwise. -/
def holdFan (cfg : Config) (chip : Fin n) : Main n Unit := do
  modifyChip chip fun c => { c with fanSpeed := 100, fanSpeedForced := true }
  setPwm cfg fun _ => 255

/-! ## Handlers -/

/-- `handle_therm_trip` for one chip. -/
def handleThermTrip (cfg : Config) (chip : Fin n) : Main n Unit :=
  Prog.ifThen (readChip chip (·.thermTripTriggered)) do
    modifyChip chip fun c => { c with thermTripTriggered := false }
    holdFan cfg chip
    Prog.ifThen (readChip chip fun c => !c.triggerReset) do
      modifyChip chip fun c => { c with performingReset := true }
      cancelBusTransferClear chip
      modifyChip chip fun c => { c with thermTripCount := c.thermTripCount + 1 }
      let _ ← bhChipResetChip chip true
      Prog.ifThen (readChip chip (·.triggerReset)) (cancelBusTransferSet chip)
      modifyChip chip fun c => { c with performingReset := false }

def handleWatchdogReset (cfg : Config) (chip : Fin n) : Main n Unit :=
  Prog.ifThen (readChip chip (·.arcWdogTriggered)) do
    modifyChip chip fun c => { c with arcWdogTriggered := false }
    cancelBusTransferClear chip
    -- the JTAG can be set up: read the PC
    Prog.ifThen outcome do
      let input ← Prog.receive
      modifyChip chip fun c => { c with arcHangPc := input.word }
    modifyChip chip fun c => { c with autoResetTimeout := 0 }
    holdFan cfg chip
    modifyChip chip fun c => { c with performingReset := true }
    let _ ← bhChipResetChip chip true
    cancelBusTransferClear chip
    modifyChip chip fun c => { c with performingReset := false }

/-- `atomic_set(&chip->data.trigger_reset, false)`. -/
def takeTriggerReset (chip : Fin n) : Main n Bool :=
  Prog.swap fun s =>
    (s.setChip chip { s.chips chip with triggerReset := false }, (s.chips chip).triggerReset)

def handlePerst (chip : Fin n) : Main n Unit :=
  Prog.ifThen (takeTriggerReset chip) do
    modifyChip chip fun c => { c with performingReset := true }
    modifyChip chip fun c => { c with lastCm2dmSeqNumValid := false }
    cancelBusTransferClear chip
    Prog.ifThen (jtagBootromResetAsic chip false) (jtagBootromSoftResetArc chip)
    Prog.ifThen (readChip chip (·.triggerReset)) (cancelBusTransferSet chip)
    modifyChip chip fun c =>
      { c with thermTripCount := 0, arcHangPc := 0, performingReset := false }

def handlePgoodEvent (chip : Fin n) : Main n Unit := do
  Prog.ifThen (readChip chip fun c => c.pgoodFallTriggered && !c.pgoodSevereFault) do
    let input ← Prog.receive
    modifyChip chip fun c => { c with asicReset := true }
    modifyChip chip fun c => { c with
      pgoodSevereFault := c.pgoodSevereFault ||
        (c.pgoodLastTripMs ≠ 0 && input.uptime - c.pgoodLastTripMs < 1000)
      pgoodLastTripMs := input.uptime }
    modifyChip chip fun c => { c with pgoodFallTriggered := false }
  Prog.ifThen (readChip chip fun c => c.pgoodRiseTriggered && !c.pgoodSevereFault) do
    let _ ← bhChipResetChip chip true
    modifyChip chip fun c => { c with pgoodRiseTriggered := false }

def sendInitData (chip : Fin n) : Main n Unit :=
  Prog.ifThen (readChip chip (·.arcNeedsInitMsg))
    -- all four transfers succeed
    (Prog.ifThen outcome (modifyChip chip fun c => { c with arcNeedsInitMsg := false }))

/-! ## CM2DM messages -/

def resetLevelAsic : UInt32 := 0

def resetLevelDmc : UInt32 := 3

def processResetReq (cfg : Config) (chip : Fin n) (data : UInt32) : Main n Bool :=
  if data = resetLevelAsic then do
    cancelBusTransferClear chip
    let _ ← bhChipResetChip chip true
    return true
  else if data = resetLevelDmc ∧ cfg.reboot then Prog.halt
  else return true

/-- `process_fan_speed_update` and `process_forced_fan_speed_update`. -/
def processFanSpeed (cfg : Config) (chip : Fin n) (forced : Bool) (data : UInt32) :
    Main n Bool := do
  modifyChip chip fun c => { c with fanSpeed := data.toUInt8, fanSpeedForced := forced }
  updateFanSpeed cfg
  return false

def storeProcessor (chip : Fin n) (f : ChipData → ChipData) : Main n Bool := do
  modifyChip chip f
  return false

/-- The processor of a message: is the loop left? The ping, the LED and the GDDR trip
change nothing that is kept here. -/
def msgProcessor (cfg : Config) (chip : Fin n) (msgId : UInt8) (data : UInt32) : Main n Bool :=
  if msgId.toNat = Cm2DmMsgId.resetReq.toNat then processResetReq cfg chip data
  else if msgId.toNat = Cm2DmMsgId.fanSpeedUpdate.toNat then processFanSpeed cfg chip false data
  else if msgId.toNat = Cm2DmMsgId.forcedFanSpeedUpdate.toNat then processFanSpeed cfg chip true data
  else if msgId.toNat = Cm2DmMsgId.ready.toNat then
    storeProcessor chip fun c => { c with arcNeedsInitMsg := true }
  else if msgId.toNat = Cm2DmMsgId.autoResetTimeoutUpdate.toNat then
    storeProcessor chip fun c => { c with autoResetTimeout := data }
  else if msgId.toNat = Cm2DmMsgId.telemHeartbeatUpdate.toNat then
    storeProcessor chip fun c => { c with telemetryHeartbeat := data }
  else return false

/-- The duplicate check of `process_cm2dm_message`. -/
def isDuplicate (chip : Fin n) (msg : Cm2dmMessage) : Main n Bool :=
  readChip chip fun c => c.lastCm2dmSeqNumValid && c.lastCm2dmSeqNum == msg.seqNum

/-- The rounds of `process_cm2dm_message`. -/
def cm2dmRounds (cfg : Config) (chip : Fin n) : ℕ → Main n Unit
  | 0 => return ()
  | rounds + 1 => do
    let input ← Prog.receive
    match input.message with
    | none => return ()
    | some msg =>
      if msg.msgId = 0 then return ()
      else Prog.ifElse (isDuplicate chip msg) (cm2dmRounds cfg chip rounds) do
        modifyChip chip fun c =>
          { c with lastCm2dmSeqNumValid := true, lastCm2dmSeqNum := msg.seqNum }
        Prog.ifElse (msgProcessor cfg chip msg.msgId msg.data) (return ())
          (cm2dmRounds cfg chip rounds)

def processCm2dmMessage (cfg : Config) (chip : Fin n) : Main n Unit :=
  cm2dmRounds cfg chip cm2DmMsgCount

/-! ## The loop -/

def mainBody (cfg : Config) : Main n Unit := do
  Prog.forEach (List.finRange n) (handleThermTrip cfg)
  Prog.forEach (List.finRange n) (handleWatchdogReset cfg)
  Prog.forEach (List.finRange n) handlePerst
  Prog.forEach (List.finRange n) handlePgoodEvent
  Prog.forEach (List.finRange n) sendInitData
  -- `events & (TT_EVENT_CM2DM_POLL | TT_EVENT_WAKE)`
  Prog.ifThen outcome (Prog.forEach (List.finRange n) (processCm2dmMessage cfg))

inductive Irq (n : ℕ) where
  | perst
  | thermTrip (chip : Fin n)
  | watchdog (chip : Fin n)
  | pgood (chip : Fin n) (level : Bool)
  deriving DecidableEq

def gpioAsicResetCallback (s : State n) : State n :=
  { s with
    chips := fun chip =>
      let c := s.chips chip
      { c with
        perstSeen := true
        triggerReset := true
        busCancel := c.busCancel || !c.performingReset }
    log := s.log ++ [.perst] }

def isr : Irq n → State n → State n
  | .perst, s => gpioAsicResetCallback s
  -- `therm_trip_detected`
  | .thermTrip chip, s =>
    s.setChip chip { s.chips chip with thermTripTriggered := true, busCancel := true }
  -- `bh_chip_auto_reset`
  | .watchdog chip, s =>
    s.setChip chip { s.chips chip with arcWdogTriggered := true, busCancel := true }
  -- `pgood_change_detected`
  | .pgood chip true, s => s.setChip chip { s.chips chip with pgoodRiseTriggered := true }
  | .pgood chip false, s => s.setChip chip { s.chips chip with pgoodFallTriggered := true }

end

end SystemFirmware.DmcApp
