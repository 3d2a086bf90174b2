import SystemFirmware.ClockControl.AiclkRate
import SystemFirmware.Lib.LastWrite

/-!
# Clock control — the L2CPU clocks

The four L2CPU clocks are the post dividers of one PLL. `clock_control_on` writes 1 into
the divider of its clock and `clock_control_off` writes 0, and both then program the
whole PLL from the driver's copy of the settings. So a clock comes back at the rate of a
divider of 1, and the other clocks get the rates of the copy (`l2cpu_off_on_restores`).
-/

namespace SystemFirmware.ClockControl

open Lib

variable {cfg : Config} {dev : Device} {i : PostdivIndex}

-- ---
-- Turning clocks on and off

structure Switch where
  index : PostdivIndex
  isOn : Bool

def Switch.value (sw : Switch) : UInt8 := if sw.isOn then 1 else 0

def Device.switch (dev : Device) (sw : Switch) : Device :=
  if sw.isOn then (on dev (.l2cpuclk sw.index)).dev else (off dev (.l2cpuclk sw.index)).dev

def Device.switches (dev : Device) (sws : List Switch) : Device := sws.foldl Device.switch dev

/-- What `bh_set_l2cpu_enable` calls. -/
def setL2cpuEnable (enable : Bool) : List Switch :=
  [PostdivIndex.p0, .p1, .p2, .p3].map fun i => ⟨i, enable⟩

/-- The registers that the rates depend on are those of the copy. -/
structure Device.Synced (dev : Device) : Prop where
  pllCntl1 : dev.regs.pllCntl1 = dev.settings.pllCntl1
  pllCntl5 : dev.regs.pllCntl5 = dev.settings.pllCntl5
  usePostdiv : dev.regs.usePostdiv = dev.settings.usePostdiv

theorem switch_eq (sw : Switch) : dev.switch sw = (update dev { dev.settings with
    pllCntl5 := Function.update dev.settings.pllCntl5 sw.index sw.value }).dev := by
  unfold Device.switch Switch.value
  cases sw.isOn <;> rfl

theorem switch_synced (sw : Switch) : (dev.switch sw).Synced := by
  rw [switch_eq]
  exact ⟨rfl, rfl, rfl⟩

theorem switches_synced (sws : List Switch) (sw : Switch) :
    (dev.switches (sws ++ [sw])).Synced := by
  rw [Device.switches, List.foldl_append]
  exact switch_synced sw

theorem switches_settings (sws : List Switch) :
    (dev.switches sws).settings = { dev.settings with
      pllCntl5 := sws.foldl (fun divs sw => Function.update divs sw.index sw.value)
        dev.settings.pllCntl5 } := by
  induction sws generalizing dev with
  | nil => rfl
  | cons sw sws ih =>
    refine (@ih (dev.switch sw)).trans ?_
    rw [switch_eq]
    rfl

theorem switches_locked (sws : List Switch) : (dev.switches sws).locked = dev.locked := by
  induction sws generalizing dev with
  | nil => rfl
  | cons sw sws ih =>
    refine (@ih (dev.switch sw)).trans ?_
    rw [switch_eq]
    rfl

def Switch.writes (i : PostdivIndex) (sw : Switch) : Option UInt8 :=
  if sw.index = i then some sw.value else none

def LeftOn (sws : List Switch) : Prop :=
  ∀ i, ∀ value ∈ (sws.filterMap (Switch.writes i)).getLast?, value = 1

theorem dividers_apply (divs : PllCntl5) (sws : List Switch) :
    sws.foldl (fun divs sw => Function.update divs sw.index sw.value) divs i =
      ((sws.filterMap (Switch.writes i)).getLast?).getD (divs i) := by
  refine foldl_lastWrite (fun divs : PllCntl5 => divs i) (fun divs sw => ?_) divs sws
  unfold Switch.writes
  by_cases hsame : sw.index = i
  · rw [if_pos hsame, ← hsame, Function.update_self, Option.getD_some]
  · rw [if_neg hsame, Function.update_of_ne (Ne.symm hsame), Option.getD_none]

theorem getFreq_congr {regs regs' : Registers} (h1 : regs'.pllCntl1 = regs.pllCntl1)
    (h5 : regs'.pllCntl5 i = regs.pllCntl5 i) (huse : regs'.usePostdiv = regs.usePostdiv) :
    getFreq cfg regs' i = getFreq cfg regs i := by
  unfold getFreq getExtPostdiv
  rw [h1, h5, huse]

-- ---
-- Off and on

/-- `clock_control_off` for a clock, calls for other clocks, `clock_control_on`. -/
def offOn (c : PostdivIndex) (sws : List Switch) : List Switch :=
  ⟨c, false⟩ :: sws ++ [⟨c, true⟩]

/-- The dividers that the calls leave in the copy: 1 for the clocks that were switched. -/
def Device.resumed (dev : Device) (c : PostdivIndex) (sws : List Switch) : PllCntl5 :=
  fun i => if i = c ∨ i ∈ sws.map Switch.index then 1 else dev.settings.pllCntl5 i

theorem offOn_dividers {c : PostdivIndex} {sws : List Switch} (hleft : LeftOn sws) :
    (offOn c sws).foldl (fun divs sw => Function.update divs sw.index sw.value)
      dev.settings.pllCntl5 i = dev.resumed c sws i := by
  rw [offOn, List.cons_append, List.foldl_cons, List.foldl_append, Device.resumed]
  show Function.update _ c 1 i = _
  by_cases hc : i = c
  · rw [if_pos (.inl hc), hc, Function.update_self]
  · rw [Function.update_of_ne hc, dividers_apply, Function.update_of_ne hc]
    rcases hlast : (sws.filterMap (Switch.writes i)).getLast? with _ | value
    · -- the clock is not switched at all
      rw [List.getLast?_eq_none_iff, List.filterMap_eq_nil_iff] at hlast
      rw [Option.getD_none, if_neg]
      rintro (hsame | hmem)
      · exact hc hsame
      · obtain ⟨sw, hsw, hindex⟩ := List.mem_map.mp hmem
        have hwrites := hlast sw hsw
        rw [Switch.writes, if_pos hindex] at hwrites
        cases hwrites
    · obtain ⟨sw, hmem, hwrites⟩ := lastWrite_mem hlast
      have hindex : sw.index = i := by
        by_contra hne
        rw [Switch.writes, if_neg hne] at hwrites
        cases hwrites
      rw [Option.getD_some, if_pos (.inr (hindex ▸ List.mem_map_of_mem hmem)),
        hleft i value hlast]

theorem getRate_l2cpuclk (hfree : dev.locked = false) :
    getRate cfg dev (.l2cpuclk i) = .ok (getFreq cfg dev.regs i) := by
  rw [getRate, hfree]
  rfl

theorem locked_of_getRate {clock : Clock} {f : UInt32} (h : getRate cfg dev clock = .ok f) :
    dev.locked = false := by
  by_contra hlocked
  unfold getRate at h
  rw [if_pos (Bool.not_eq_false _ ▸ hlocked)] at h
  exact absurd h (by simp)

/-- The rate of a clock if the copy were programmed, with a divider of 1 for the switched clocks. -/
def Device.resumedRate (cfg : Config) (dev : Device) (c : PostdivIndex) (sws : List Switch)
    (i : PostdivIndex) : UInt32 :=
  getFreq cfg { dev.regs with
    pllCntl1 := dev.settings.pllCntl1
    pllCntl5 := dev.resumed c sws
    usePostdiv := dev.settings.usePostdiv } i

theorem getRate_offOn {c : PostdivIndex} {sws : List Switch} (hleft : LeftOn sws)
    (hfree : dev.locked = false) : getRate cfg (dev.switches (offOn c sws)) (.l2cpuclk i) =
      .ok (dev.resumedRate cfg c sws i) := by
  have hsynced : (dev.switches (offOn c sws)).Synced := switches_synced (⟨c, false⟩ :: sws) _
  have hsettings := @switches_settings dev (offOn c sws)
  rw [getRate_l2cpuclk ((@switches_locked dev (offOn c sws)).trans hfree)]
  refine congrArg _ (getFreq_congr ?_ ?_ ?_)
  · rw [hsynced.pllCntl1, hsettings]
  · rw [hsynced.pllCntl5, hsettings]
    exact offOn_dividers hleft
  · rw [hsynced.usePostdiv, hsettings]

/-- **When off and on restores a clock**, whatever clocks are turned off and on in between: exactly
if every running clock runs at the rate of the copy now, where a clock that is switched counts with
a divider of 1. A stopped clock does not matter. -/
theorem l2cpu_off_on_restores (cfg : Config) (dev : Device) (c : PostdivIndex)
    (sws : List Switch) {f : UInt32} (hleft : LeftOn sws)
    (hrate : getRate cfg dev (.l2cpuclk c) = .ok f) (hrun : 0 < f) :
    (getRate cfg (dev.switches (offOn c sws)) (.l2cpuclk c) = .ok f ∧
      ∀ i g, getRate cfg dev (.l2cpuclk i) = .ok g → 0 < g →
        getRate cfg (dev.switches (offOn c sws)) (.l2cpuclk i) = .ok g) ↔
    ∀ i g, getRate cfg dev (.l2cpuclk i) = .ok g → 0 < g → dev.resumedRate cfg c sws i = g := by
  simp only [getRate_offOn hleft (locked_of_getRate hrate), Except.ok.injEq]
  exact ⟨fun h => h.2, fun h => ⟨h c f hrate hrun, h⟩⟩

-- ---
-- The settings of the device tree

/-- `pll4` of the device tree. -/
def pll4Config : Config where
  refclkRate := 50
  initSettings := {
    pllCntl1 := { refdiv := 2, postdiv := 1, fbdiv := 64 }
    pllCntl2 := 0x18
    pllCntl3 := 1
    pllCntl5 := fun _ => 1
    usePostdiv := fun _ => true }

theorem l2cpu_off_on_restores_pll4 :
    getRate pll4Config (pll4Config.programmed.switches (offOn .p0 [⟨.p1, false⟩, ⟨.p1, true⟩]))
        (.l2cpuclk .p0) = .ok 800 ∧
      ∀ i g, getRate pll4Config pll4Config.programmed (.l2cpuclk i) = .ok g → 0 < g →
        getRate pll4Config (pll4Config.programmed.switches
          (offOn .p0 [⟨.p1, false⟩, ⟨.p1, true⟩])) (.l2cpuclk i) = .ok g := by
  refine (l2cpu_off_on_restores pll4Config pll4Config.programmed .p0 [⟨.p1, false⟩, ⟨.p1, true⟩]
    (fun i => by cases i <;> simp [Switch.writes, Switch.value]) rfl (by decide)).mpr ?_
  intro i g hg _
  refine Eq.trans ?_ (Except.ok.inj hg)
  cases i <;> decide

def pll4Divided : Config :=
  { pll4Config with initSettings := { pll4Config.initSettings with
      pllCntl5 := Function.update (fun _ => 1) .p0 3 } }

/-- **The divider is lost.** A clock at 400 MHz with a divider of 3 comes back at 800 MHz. -/
theorem off_on_loses_divider :
    [PostdivIndex.p0, .p1, .p2, .p3].map pll4Divided.programmed.regs.usePostdiv =
        [true, true, true, true] ∧
      getRate pll4Divided pll4Divided.programmed (.l2cpuclk .p0) = .ok 400 ∧
      getRate pll4Divided (pll4Divided.programmed.switches (offOn .p0 [])) (.l2cpuclk .p0) =
        .ok 800 :=
  ⟨rfl, by decide, by decide⟩

end SystemFirmware.ClockControl
