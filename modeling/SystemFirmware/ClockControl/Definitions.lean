import Mathlib.Data.Nat.Notation
import Mathlib.Logic.Function.Basic

/-!
# Clock control — definitions

`drivers/clock_control/clock_control_tt_bh.c`, the driver of one PLL.

A call is modelled by the list of register writes it makes, on the registers it found.
The driver also keeps a copy of the settings it last programmed, which neither
`set_rate` for AICLK nor the bypass of `configure` updates.

* The loop of `set_rate` gets fuel, and `none` means that it is still running.
* Whether the PLL locks in time is an input of `init`; `update` ignores it.
* The waits, the register addresses and the fields the driver does not look at are left
  out.
-/

namespace SystemFirmware.ClockControl

-- ---
-- Registers

/-- `postdiv_index`: each PLL has four external post dividers. -/
inductive PostdivIndex where
  | p0
  | p1
  | p2
  | p3
  deriving DecidableEq, Repr

structure PllCntl0 where
  reset : Bool := false
  pd : Bool := false
  resetLock : Bool := false
  pdBandgap : Bool := false
  bypass : Bool := false

structure PllCntl1 where
  refdiv : UInt8
  postdiv : UInt8
  fbdiv : UInt16
  deriving DecidableEq

/-- `struct tt_bh_pll_cntl_5_fields`. -/
abbrev PllCntl5 := PostdivIndex → UInt8

/-- `struct tt_bh_pll_use_postdiv_fields`, the four bits that have a divider. -/
abbrev UsePostdiv := PostdivIndex → Bool

structure Registers where
  pllCntl0 : PllCntl0
  pllCntl1 : PllCntl1
  pllCntl2 : UInt32
  pllCntl3 : UInt32
  pllCntl5 : PllCntl5
  usePostdiv : UsePostdiv
  refclkPeriod : UInt32
  clkCounterEn : UInt32

/-- One write of `clock_control_tt_bh_write_reg` or `sys_write32`. -/
inductive RegWrite where
  | pllCntl0 (val : PllCntl0)
  | pllCntl1 (val : PllCntl1)
  | pllCntl2 (val : UInt32)
  | pllCntl3 (val : UInt32)
  | pllCntl5 (val : PllCntl5)
  | usePostdiv (val : UsePostdiv)
  | refclkPeriod (val : UInt32)
  | clkCounterEn (val : UInt32)

def Registers.write (regs : Registers) : RegWrite → Registers
  | .pllCntl0 val => { regs with pllCntl0 := val }
  | .pllCntl1 val => { regs with pllCntl1 := val }
  | .pllCntl2 val => { regs with pllCntl2 := val }
  | .pllCntl3 val => { regs with pllCntl3 := val }
  | .pllCntl5 val => { regs with pllCntl5 := val }
  | .usePostdiv val => { regs with usePostdiv := val }
  | .refclkPeriod val => { regs with refclkPeriod := val }
  | .clkCounterEn val => { regs with clkCounterEn := val }

def Registers.writes (regs : Registers) (ws : List RegWrite) : Registers :=
  ws.foldl Registers.write regs

-- ---
-- The device

structure Settings where
  pllCntl1 : PllCntl1
  pllCntl2 : UInt32
  pllCntl3 : UInt32
  pllCntl5 : PllCntl5
  usePostdiv : UsePostdiv

structure Config where
  refclkRate : UInt32
  initSettings : Settings

/-- The registers of the PLL and `struct clock_control_tt_bh_data`. -/
structure Device where
  regs : Registers
  settings : Settings
  /-- Someone holds the lock, so that `k_spin_trylock` fails. -/
  locked : Bool

inductive Errno where
  | ebusy
  | einval
  | enosys
  | enotsup
  | erange
  | etimedout
  deriving DecidableEq, Repr

/-- `enum clock_control_tt_bh_clock`; the number of an L2CPU clock is that of its
post divider. -/
inductive Clock where
  | aiclk
  | arcclk
  | axiclk
  | apbclk
  | l2cpuclk (index : PostdivIndex)
  | gddrmemclk
  | initState
  deriving DecidableEq, Repr

/-- What a call returns, the writes it made and the device it leaves behind. -/
structure Outcome where
  ret : Except Errno Unit
  writes : List RegWrite
  dev : Device

def Device.refuse (dev : Device) (e : Errno) : Outcome := ⟨.error e, [], dev⟩

def Device.done (dev : Device) (ws : List RegWrite) (settings : Settings) : Outcome :=
  ⟨.ok (), ws, { dev with regs := dev.regs.writes ws, settings := settings }⟩

-- ---
-- Frequencies

/-- `clock_control_tt_bh_get_ext_postdiv`; 0 means that the clock is disabled. -/
def getExtPostdiv (index : PostdivIndex) (pllCntl5 : PllCntl5) (usePostdiv : UsePostdiv) : UInt32 :=
  let postdivValue := (pllCntl5 index).toUInt32
  if usePostdiv index then
    if postdivValue = 0 then 0
    else if postdivValue ≤ 16 then postdivValue + 1
    else (postdivValue + 1) * 2
  else 1

def calculateFbdiv (refclkRate targetFreqMhz : UInt32) (pllCntl1 : PllCntl1) (pllCntl5 : PllCntl5)
    (usePostdiv : UsePostdiv) (index : PostdivIndex) : UInt32 :=
  let effPostdiv := getExtPostdiv index pllCntl5 usePostdiv
  if effPostdiv = 0 then 0
  else targetFreqMhz * pllCntl1.refdiv.toUInt32 * effPostdiv / refclkRate

def getFreq (cfg : Config) (regs : Registers) (index : PostdivIndex) : UInt32 :=
  let effPostdiv := getExtPostdiv index regs.pllCntl5 regs.usePostdiv
  if effPostdiv = 0 then 0
  else (cfg.refclkRate * regs.pllCntl1.fbdiv.toUInt32) /
    (regs.pllCntl1.refdiv.toUInt32 * effPostdiv)

def getRate (cfg : Config) (dev : Device) (clock : Clock) : Except Errno UInt32 :=
  if dev.locked then .error .ebusy
  else match clock with
    | .aiclk => .ok (getFreq cfg dev.regs .p0)
    | .arcclk => .ok (getFreq cfg dev.regs .p0)
    | .axiclk => .ok (getFreq cfg dev.regs .p1)
    | .apbclk => .ok (getFreq cfg dev.regs .p2)
    | .gddrmemclk => .ok (getFreq cfg dev.regs .p0)
    | .l2cpuclk index => .ok (getFreq cfg dev.regs index)
    | .initState => .error .enotsup

-- ---
-- Programming the PLL

def enableClkCounters : List RegWrite :=
  [.refclkPeriod 1000, .clkCounterEn 0xff]

def configVco (settings : Settings) : List RegWrite :=
  [.pllCntl1 settings.pllCntl1, .pllCntl2 settings.pllCntl2, .pllCntl3 settings.pllCntl3]

def configExtPostdivs (settings : Settings) : List RegWrite :=
  [.usePostdiv fun _ => false, .pllCntl5 settings.pllCntl5, .usePostdiv settings.usePostdiv]

/-- The writes of `update` and `init` before the lock: bypass, power down, VCO, power up. -/
def powerUp (pllCntl0 : PllCntl0) (settings : Settings) : List RegWrite :=
  [.pllCntl0 { pllCntl0 with bypass := false }, .pllCntl0 {}] ++ configVco settings ++
    [.pllCntl0 { pd := true }]

/-- The writes after the PLL has locked: post dividers, end of the bypass. -/
def leaveBypass (settings : Settings) : List RegWrite :=
  configExtPostdivs settings ++ [.pllCntl0 { pd := true, bypass := true }]

def update (dev : Device) (settings : Settings) : Outcome :=
  dev.done (powerUp dev.regs.pllCntl0 settings ++ leaveBypass settings) settings

/-- `clock_control_tt_bh_enable`: the value goes into the post divider of the clock. -/
def enable (dev : Device) (clock : Clock) (value : UInt8) : Outcome :=
  match clock with
  | .l2cpuclk index =>
    update dev { dev.settings with
      pllCntl5 := Function.update dev.settings.pllCntl5 index value }
  | _ => dev.refuse .enosys

def on (dev : Device) (clock : Clock) : Outcome := enable dev clock 1

def off (dev : Device) (clock : Clock) : Outcome := enable dev clock 0

-- ---
-- `set_rate`, `configure`, `init`

def vcoMinFreq : UInt32 := 1600

def vcoMaxFreq : UInt32 := 5000

/-- The GDDRMEMCLK branch of `clock_control_tt_bh_set_rate`. -/
def setRateGddrmemclk (cfg : Config) (dev : Device) (rate : UInt32) : Outcome :=
  let settings := dev.settings
  let fbdiv := calculateFbdiv cfg.refclkRate rate settings.pllCntl1 settings.pllCntl5
    settings.usePostdiv .p0
  if fbdiv = 0 then dev.refuse .einval
  else
    let settings := { settings with pllCntl1 := { settings.pllCntl1 with fbdiv := fbdiv.toUInt16 } }
    let vcoFreq := (cfg.refclkRate * settings.pllCntl1.fbdiv.toUInt32) /
      settings.pllCntl1.refdiv.toUInt32
    if vcoMinFreq ≤ vcoFreq ∧ vcoFreq ≤ vcoMaxFreq then update dev settings
    else dev.refuse .erange

/-- One round of the AICLK loop: `fbdiv` moves by one towards the target. -/
def PllCntl1.stepFbdiv (reg : PllCntl1) (targetFbdiv : UInt32) : PllCntl1 :=
  if targetFbdiv > reg.fbdiv.toUInt32 then { reg with fbdiv := reg.fbdiv + 1 }
  else { reg with fbdiv := reg.fbdiv - 1 }

/-- The AICLK loop: the values it writes to `PLL_CNTL_1`. -/
def moveFbdiv (targetFbdiv : UInt32) : ℕ → PllCntl1 → Option (List PllCntl1)
  | 0, _ => none
  | fuel + 1, reg =>
    if reg.fbdiv.toUInt32 ≠ targetFbdiv then
      let next := reg.stepFbdiv targetFbdiv
      (moveFbdiv targetFbdiv fuel next).map (next :: ·)
    else some []

/-- The AICLK branch of `clock_control_tt_bh_set_rate`. -/
def setRateAiclk (fuel : ℕ) (cfg : Config) (dev : Device) (rate : UInt32) : Option Outcome :=
  let targetFbdiv := calculateFbdiv cfg.refclkRate rate dev.regs.pllCntl1 dev.regs.pllCntl5
    dev.regs.usePostdiv .p0
  (moveFbdiv targetFbdiv fuel dev.regs.pllCntl1).map fun vals =>
    dev.done (vals.map .pllCntl1) dev.settings

def setRate (fuel : ℕ) (cfg : Config) (dev : Device) (clock : Clock) (rate : UInt32) :
    Option Outcome :=
  if dev.locked then some (dev.refuse .ebusy)
  else match clock with
    | .gddrmemclk => some (setRateGddrmemclk cfg dev rate)
    | .aiclk => setRateAiclk fuel cfg dev rate
    | .initState =>
      let ws := powerUp dev.regs.pllCntl0 cfg.initSettings ++ leaveBypass cfg.initSettings
      some (dev.done (ws ++ enableClkCounters) cfg.initSettings)
    | _ => some (dev.refuse .enotsup)

/-- `clock_control_tt_bh_init`. The return after a PLL that does not lock skips the
`k_spin_unlock`. -/
def init (cfg : Config) (dev : Device) (locks : Bool) : Outcome :=
  let settings := cfg.initSettings
  let ws := powerUp dev.regs.pllCntl0 settings
  if dev.locked then dev.refuse .ebusy
  else if locks then dev.done (ws ++ leaveBypass settings ++ enableClkCounters) settings
  else ⟨.error .etimedout, ws,
    { regs := dev.regs.writes ws, settings := settings, locked := true }⟩

end SystemFirmware.ClockControl
