import SystemFirmware.Lib.Bytes
import SystemFirmware.Lib.Flash

/-!
# D2D — loading the firmware

`tt_d2d_load_fw` of `drivers/misc/tt_d2d/tt_d2d.c`, as its accesses to a tile. The SRAM is
cleared and the image copied by DMA or by the CPU; then the configuration is written, the
magic that makes it available last (`load_fw_clean`). What the registers and the DMA driver
answer is arbitrary (`Answers`); a transfer that was started takes effect.

The offsets of the configuration words come from the headers of the firmware (`Header`).
-/

namespace SystemFirmware.D2d

open Lib

structure Config where
  dmaDev : Bool
  sramSize : ℕ
  bitsPerChannel : UInt32
  refclkPeriodNs : UInt32
  apbClkPeriodPs : UInt32
  pllFreqGhz : UInt32
  packageTypeThisDie : UInt32
  packageTypeOtherDie : UInt32
  bypassPhy : Bool
  bypassVreg : Bool
  disableSideband : Bool

inductive Parm
  | bitsPerChannel | referenceClockPeriodNs | apbClockPeriodInPs | pllFrequencyInGhz
  | txWildClock | rxWildClock | bypassVreg | packageTypeThisDie | packageTypeOtherDie
  | sliceCount4Used | lpbk2Enable | lpbk2PatternType | lpbk2TxSlice | lpbk2RxSlice
  | lpbk2MemPatternInfo | lpbk2PrbsPatternSize | phyBypass | disableSideband
  | diagCommandLoopEnable
  deriving DecidableEq

/-- The constants of the headers. -/
structure Header where
  /-- `TT_D2D_CFG_OFFSET`, which is also `TT_D2D_IMAGE_MAX`. -/
  cfgOffset : ℕ
  parmOffset : Parm → ℕ
  /-- `CFG_AVAILABLE_SPECIAL_CODE`. -/
  magic : UInt32
  txWildClockFast : UInt32
  rxWildClockSlow : UInt32
  vregInitBypass : UInt32
  vregInitExec : UInt32
  sliceCount6StdOr8Adv : UInt32
  internalLpbkDisabled : UInt32
  memPattern : UInt32
  prbs31Bit : UInt32
  phyBypassEnabled : UInt32
  phyBypassDisabled : UInt32
  magic_ne_zero : magic ≠ 0
  /-- The parameters lie behind the magic, -/
  magic_first : ∀ p, cfgOffset + 4 ≤ parmOffset p
  /-- in words of their own. -/
  apart : ∀ p q, p ≠ q → parmOffset p + 4 ≤ parmOffset q ∨ parmOffset q + 4 ≤ parmOffset p

/-- An access to the tile that changes it. -/
inductive Event
  /-- The three resets of the CPU control register. -/
  | ctrl (coreReset uncoreReset debugReset : Bool)
  | store (off : ℕ) (word : UInt32)
  /-- One block, several times; the source does not advance. -/
  | dma (off : ℕ) (block : List UInt8) (stride repetitions : ℕ)
  deriving DecidableEq

def Event.apply (sram : Flash) : Event → Flash
  | .ctrl .. => sram
  | .store off word => sram.program off (le32 word)
  | .dma off block stride repetitions =>
    (List.range repetitions).foldl (fun sram i => sram.program (off + i * stride) block) sram

/-- What a function returns, and the accesses it makes. -/
abbrev Run := ℤ × List Event

/-- The second part is run if the first one has returned 0. -/
def Run.andThen (first second : Run) : Run :=
  if first.1 ≠ 0 then first else (second.1, first.2 ++ second.2)

/-- `tt_d2d_dma_run`, by what `dma_config` and `dma_start` return. -/
def dmaRun (rc : ℤ × ℤ) (transfer : Event) : Run :=
  if rc.1 ≠ 0 then (rc.1, []) else (rc.2, [transfer])

def clearSram (c : Config) (rc : ℤ × ℤ) : Run :=
  if c.dmaDev ∧ c.sramSize % 4096 = 0 then
    dmaRun rc (.dma 0 (List.replicate 4096 0) 4096 (c.sramSize / 4096))
  else (0, (List.range ((c.sramSize + 3) / 4)).map fun i => .store (i * 4) 0)

/-- `tt_d2d_copy_image`; the size of the image is a multiple of 4. -/
def copyImage (c : Config) (rc : ℤ × ℤ) (img : List UInt8) : Run :=
  if c.dmaDev then dmaRun rc (.dma 0 img 0 1)
  else (0, (List.range (img.length / 4)).map fun i =>
    .store (i * 4) (ofLe32 ((img.drop (i * 4)).take 4)))

def Header.value (h : Header) (c : Config) : Parm → UInt32
  | .bitsPerChannel => c.bitsPerChannel
  | .referenceClockPeriodNs => c.refclkPeriodNs
  | .apbClockPeriodInPs => c.apbClkPeriodPs
  | .pllFrequencyInGhz => c.pllFreqGhz
  | .txWildClock => h.txWildClockFast
  | .rxWildClock => h.rxWildClockSlow
  | .bypassVreg => if c.bypassVreg then h.vregInitBypass else h.vregInitExec
  | .packageTypeThisDie => c.packageTypeThisDie
  | .packageTypeOtherDie => c.packageTypeOtherDie
  | .sliceCount4Used => h.sliceCount6StdOr8Adv
  | .lpbk2Enable => h.internalLpbkDisabled
  | .lpbk2PatternType => h.memPattern
  | .lpbk2TxSlice => 0
  | .lpbk2RxSlice => 4
  | .lpbk2MemPatternInfo => 0xABCD
  | .lpbk2PrbsPatternSize => h.prbs31Bit
  | .phyBypass => if c.bypassPhy then h.phyBypassEnabled else h.phyBypassDisabled
  | .disableSideband => if c.disableSideband then 1 else 0
  | .diagCommandLoopEnable => 1

def parms : List Parm :=
  [.bitsPerChannel, .referenceClockPeriodNs, .apbClockPeriodInPs, .pllFrequencyInGhz, .txWildClock,
    .rxWildClock, .bypassVreg, .packageTypeThisDie, .packageTypeOtherDie, .sliceCount4Used,
    .lpbk2Enable, .lpbk2PatternType, .lpbk2TxSlice, .lpbk2RxSlice, .lpbk2MemPatternInfo,
    .lpbk2PrbsPatternSize, .phyBypass, .disableSideband, .diagCommandLoopEnable]

def writeConfig (h : Header) (c : Config) : List Event :=
  parms.map (fun p => .store (h.parmOffset p) (h.value c p)) ++ [.store h.cfgOffset h.magic]

structure Answers where
  /-- The bit of the control register that is read back. -/
  uncoreReset : Bool
  probe : UInt32
  clear : ℤ × ℤ
  copy : ℤ × ℤ
  verifyLoad : Bool
  got : ℕ → UInt32

def Answers.verify (a : Answers) (img : List UInt8) : ℤ :=
  if a.verifyLoad ∧ ∃ i < img.length / 4, a.got (i * 4) ≠ ofLe32 ((img.drop (i * 4)).take 4) then -5
  else 0

/-- `tt_d2d_load_fw` after the checks of its arguments. -/
def loadChecked (h : Header) (c : Config) (a : Answers) (img : List UInt8) : Run :=
  Run.andThen (if a.uncoreReset then -19 else 0, [.ctrl true false true]) <|
  Run.andThen (if a.probe ≠ 0xD2D0F00D then -19 else 0, [.store 0 0xD2D0F00D]) <|
  Run.andThen (clearSram c a.clear) <|
  Run.andThen (copyImage c a.copy img) <|
  Run.andThen (a.verify img, []) (0, writeConfig h c)

/-- `tt_d2d_load_fw`; no image is `NULL`. -/
def loadFw (h : Header) (c : Config) (a : Answers) : (img : Option (List UInt8)) → Run
  | none => (-22, [])
  | some img =>
    if img.length = 0 ∨ img.length % 4 ≠ 0 then (-22, [])
    else if img.length > h.cfgOffset then (-28, [])
    else loadChecked h c a img

-- ---
-- Clearing and copying

variable {h : Header} {c : Config} {sram : Flash} {img : List UInt8} {rc : ℤ × ℤ}

def after (sram : Flash) (events : List Event) : Flash := events.foldl Event.apply sram

theorem after_append {es fs : List Event} : after sram (es ++ fs) = after (after sram es) fs :=
  List.foldl_append

variable {n : ℕ}

theorem after_stores {bytes : List UInt8} {word : ℕ → UInt32} (hn : n * 4 = bytes.length)
    (hword : ∀ i < n, le32 (word i) = (bytes.drop (i * 4)).take 4) :
    after sram ((List.range n).map fun i => .store (i * 4) (word i)) = sram.program 0 bytes := by
  have hpieces := @Flash.program_pieces sram 0 bytes 4 n hn.le
  rw [hn, List.take_length] at hpieces
  rw [after, List.foldl_map, ← hpieces]
  refine List.foldl_ext _ _ _ fun s i hi => ?_
  rw [Event.apply, hword i (List.mem_range.mp hi), Nat.zero_add]

variable {transfer : Event}

theorem dmaRun_zero (hrc : (dmaRun rc transfer).1 = 0) : (dmaRun rc transfer).2 = [transfer] := by
  unfold dmaRun at *
  split_ifs at hrc with hne
  · exact absurd hrc hne
  · rw [if_neg hne]

theorem take_drop_replicate {m k : ℕ} (hle : m + k ≤ n) :
    ((List.replicate n (0 : UInt8)).drop m).take k = List.replicate k 0 := by
  rw [List.drop_replicate, List.take_replicate, Nat.min_eq_left (by omega)]

theorem clearSram_clears (hsize : c.sramSize % 4 = 0) (hrc : (clearSram c rc).1 = 0) :
    after sram (clearSram c rc).2 = sram.program 0 (List.replicate c.sramSize 0) := by
  unfold clearSram at *
  split_ifs at * with hdma
  · rw [dmaRun_zero hrc]
    have hpages : c.sramSize / 4096 * 4096 = c.sramSize := by omega
    have hpieces := @Flash.program_pieces sram 0 (List.replicate c.sramSize 0) 4096
      (c.sramSize / 4096) (by rw [List.length_replicate, hpages])
    rw [hpages, List.take_of_length_le (by rw [List.length_replicate])] at hpieces
    rw [← hpieces, after, List.foldl_cons, List.foldl_nil, Event.apply]
    refine List.foldl_ext _ _ _ fun s i hi => ?_
    have := List.mem_range.mp hi
    rw [take_drop_replicate (by omega)]
  · refine after_stores (by rw [List.length_replicate]; omega) fun i hi => ?_
    rw [take_drop_replicate (by omega)]
    rfl

theorem copyImage_copies (hsize : img.length % 4 = 0) (hrc : (copyImage c rc img).1 = 0) :
    after sram (copyImage c rc img).2 = sram.program 0 img := by
  unfold copyImage at *
  split_ifs at * with hdma
  · rw [dmaRun_zero hrc]
    rfl
  · refine after_stores (by omega) fun i hi => le32_ofLe32 ?_
    rw [List.length_take, List.length_drop]
    omega

-- ---
-- The configuration

def parmStores (h : Header) (c : Config) (ps : List Parm) : List Event :=
  ps.map fun p => .store (h.parmOffset p) (h.value c p)

variable {ps : List Parm}

theorem parmStores_outside {a : ℕ} (ha : ∀ p ∈ ps, a < h.parmOffset p ∨ h.parmOffset p + 4 ≤ a) :
    after sram (parmStores h c ps) a = sram a := by
  induction ps generalizing sram with
  | nil => rfl
  | cons p ps ih =>
    have hstep : after (sram.program (h.parmOffset p) (le32 (h.value c p))) (parmStores h c ps) a =
        sram a := by
      rw [ih fun q hq => ha q (List.mem_cons_of_mem p hq),
        Flash.program_outside (by rw [length_le32]; exact ha p List.mem_cons_self)]
    exact hstep

theorem parmStores_read {p : Parm} (hp : p ∈ ps) :
    (after sram (parmStores h c ps)).read (h.parmOffset p) 4 = le32 (h.value c p) := by
  induction ps generalizing sram with
  | nil => cases hp
  | cons q ps ih =>
    by_cases hlater : p ∈ ps
    · exact ih hlater
    · obtain rfl : p = q := (List.mem_cons.mp hp).resolve_right hlater
      -- the later parameters have words of their own
      have hkeep : (after (sram.program (h.parmOffset p) (le32 (h.value c p)))
          (parmStores h c ps)).read (h.parmOffset p) 4 =
          (sram.program (h.parmOffset p) (le32 (h.value c p))).read (h.parmOffset p) 4 := by
        refine Flash.read_congr fun i hi => parmStores_outside fun q hq => ?_
        have := h.apart p q fun heq => hlater (heq ▸ hq)
        omega
      exact hkeep.trans Flash.read_program_self

theorem mem_parms (p : Parm) : p ∈ parms := by cases p <;> decide

-- ---
-- The whole load

variable {r s : Run}

theorem Run.andThen_zero : (r.andThen s).1 = 0 ↔ r.1 = 0 ∧ s.1 = 0 := by
  unfold andThen
  split_ifs with hr <;> simp_all

theorem Run.andThen_events (hr : r.1 = 0) : (r.andThen s).2 = r.2 ++ s.2 := by
  rw [andThen, if_neg (not_not.mpr hr)]

variable {e : Event}

theorem Run.andThen_spares (hr : e ∉ r.2) (hs : s.1 ≠ 0 → e ∉ s.2) (hrc : (r.andThen s).1 ≠ 0) :
    e ∉ (r.andThen s).2 := by
  unfold andThen at *
  split_ifs at * with hfirst
  · exact hr
  · exact fun hmem => (List.mem_append.mp hmem).elim hr (hs hrc)

variable {a : Answers}

theorem loadChecked_events (hrc : (loadChecked h c a img).1 = 0) :
    ((clearSram c a.clear).1 = 0 ∧ (copyImage c a.copy img).1 = 0) ∧
    (loadChecked h c a img).2 = [.ctrl true false true, .store 0 0xD2D0F00D] ++
      ((clearSram c a.clear).2 ++ ((copyImage c a.copy img).2 ++ writeConfig h c)) := by
  simp only [loadChecked, Run.andThen_zero] at hrc
  obtain ⟨hctrl, hprobe, hclear, hcopy, hverify, -⟩ := hrc
  refine ⟨⟨hclear, hcopy⟩, ?_⟩
  rw [loadChecked, Run.andThen_events hctrl, Run.andThen_events hprobe, Run.andThen_events hclear,
    Run.andThen_events hcopy, Run.andThen_events hverify]
  rfl

theorem dmaRun_mem (he : e ∈ (dmaRun rc transfer).2) : e = transfer := by
  unfold dmaRun at he
  split_ifs at he
  · cases he
  · exact List.mem_singleton.mp he

theorem mem_clear_copy (a : Answers) (hle : img.length ≤ h.cfgOffset)
    (he : e ∈ (clearSram c a.clear).2 ∨ e ∈ (copyImage c a.copy img).2) :
    (∀ core uncore debug, e ≠ .ctrl core uncore debug) ∧ e ≠ .store h.cfgOffset h.magic := by
  unfold clearSram copyImage at he
  rcases he with he | he <;> split_ifs at he
  · rw [dmaRun_mem he]
    exact ⟨nofun, nofun⟩
  · obtain ⟨i, -, rfl⟩ := List.mem_map.mp he
    exact ⟨nofun, fun heq => h.magic_ne_zero (Event.store.inj heq).2.symm⟩
  · rw [dmaRun_mem he]
    exact ⟨nofun, nofun⟩
  · obtain ⟨i, hi, rfl⟩ := List.mem_map.mp he
    have := List.mem_range.mp hi
    refine ⟨nofun, fun heq => ?_⟩
    have := (Event.store.inj heq).1
    omega

structure Loaded (h : Header) (c : Config) (img : List UInt8) (sram : Flash)
    (events : List Event) : Prop where
  image : (after sram events).read 0 img.length = img
  parm : ∀ p, (after sram events).read (h.parmOffset p) 4 = le32 (h.value c p)
  magic : (after sram events).read h.cfgOffset 4 = le32 h.magic
  rest : ∀ i < c.sramSize, img.length ≤ i → (i < h.cfgOffset ∨ h.cfgOffset + 4 ≤ i) →
    (∀ p, i < h.parmOffset p ∨ h.parmOffset p + 4 ≤ i) → after sram events i = 0
  core_reset : events.head? = some (.ctrl true false true) ∧
    ∀ core uncore debug, .ctrl core uncore debug ∈ events → core = true
  magic_last : events.getLast? = some (.store h.cfgOffset h.magic)

theorem loadChecked_loaded (hsize : c.sramSize % 4 = 0) (himg : img.length % 4 = 0)
    (hle : img.length ≤ h.cfgOffset) (hrc : (loadChecked h c a img).1 = 0) :
    Loaded h c img sram (loadChecked h c a img).2 := by
  obtain ⟨⟨hclear, hcopy⟩, hevents⟩ := loadChecked_events hrc
  obtain ⟨s, hs⟩ : ∃ s, after sram [.ctrl true false true, .store 0 0xD2D0F00D] = s := ⟨_, rfl⟩
  obtain ⟨cleared, hcleared⟩ : ∃ s', s.program 0 (List.replicate c.sramSize 0) = s' := ⟨_, rfl⟩
  have hafter : after sram (loadChecked h c a img).2 =
      (after (cleared.program 0 img) (parmStores h c parms)).program h.cfgOffset (le32 h.magic) := by
    rw [hevents, after_append, hs, after_append, clearSram_clears hsize hclear, hcleared,
      after_append, copyImage_copies himg hcopy, writeConfig, after_append]
    rfl
  have hlow : ∀ i < h.cfgOffset + 4, after (cleared.program 0 img) (parmStores h c parms) i =
      cleared.program 0 img i := fun i hi => parmStores_outside fun p _ => by
    have := h.magic_first p
    omega
  constructor
  · rw [hafter, Flash.read_program_outside (by omega)]
    exact (Flash.read_congr fun i hi => hlow _ (by omega)).trans Flash.read_program_self
  · intro p
    have := h.magic_first p
    rw [hafter, Flash.read_program_outside (by rw [length_le32]; omega)]
    exact parmStores_read (mem_parms p)
  · rw [hafter]
    exact Flash.read_program_self
  · intro i hi himage hmagic hparm
    have hzero := @Flash.program_inside s 0 (List.replicate c.sramSize 0) i
      (by rwa [List.length_replicate])
    rw [hcleared, Nat.zero_add, List.getElem_replicate] at hzero
    rw [hafter, Flash.program_outside (by rw [length_le32]; omega),
      parmStores_outside fun p _ => hparm p, Flash.program_outside (by omega), hzero]
  · rw [hevents]
    refine ⟨rfl, fun core uncore debug hmem => ?_⟩
    obtain hmem | hmem := List.mem_append.mp hmem
    · simp_all
    · rw [← List.append_assoc] at hmem
      obtain hmem | hmem := List.mem_append.mp hmem
      · exact absurd rfl ((mem_clear_copy a hle (List.mem_append.mp hmem)).1 core uncore debug)
      · simp [writeConfig] at hmem
  · rw [hevents, writeConfig]
    simp only [← List.append_assoc, List.getLast?_concat]

/-- A load that returns 0 leaves image, configuration and zeroes in the SRAM, with the core in
reset and the magic written last; one that fails has not written it. -/
theorem load_fw_clean (h : Header) (c : Config) (a : Answers) (img : Option (List UInt8))
    (sram : Flash) (hsize : c.sramSize % 4 = 0) :
    ((loadFw h c a img).1 = 0 → ∃ bytes, img = some bytes ∧
      Loaded h c bytes sram (loadFw h c a img).2) ∧
    ((loadFw h c a img).1 ≠ 0 → .store h.cfgOffset h.magic ∉ (loadFw h c a img).2) := by
  cases img with
  | none => exact ⟨nofun, fun _ => nofun⟩
  | some img =>
    simp only [loadFw]
    split_ifs with hempty hlong
    · exact ⟨nofun, fun _ => nofun⟩
    · exact ⟨nofun, fun _ => nofun⟩
    · have hle := not_lt.mp hlong
      refine ⟨fun hrc => ⟨img, rfl, loadChecked_loaded hsize (by omega) hle hrc⟩, ?_⟩
      refine Run.andThen_spares (by simp) (Run.andThen_spares ?_ (Run.andThen_spares ?_
        (Run.andThen_spares ?_ (Run.andThen_spares (by simp) nofun))))
      · intro hmem
        have := (Event.store.inj (List.mem_singleton.mp hmem)).1
        omega
      · exact fun hmem => (mem_clear_copy a hle (.inl hmem)).2 rfl
      · exact fun hmem => (mem_clear_copy a hle (.inr hmem)).2 rfl

def exampleHeader : Header where
  cfgOffset := 0xFCC0
  parmOffset p := 0xFCC4 + 4 * parms.idxOf p
  magic := 0x1234BEAF
  txWildClockFast := 1
  rxWildClockSlow := 1
  vregInitBypass := 1
  vregInitExec := 1
  sliceCount6StdOr8Adv := 1
  internalLpbkDisabled := 1
  memPattern := 1
  prbs31Bit := 1
  phyBypassEnabled := 1
  phyBypassDisabled := 1
  magic_ne_zero := by decide
  magic_first p := by omega
  apart p q hne := by
    have := mt (List.idxOf_inj (mem_parms p)).mp hne
    omega

def exampleConfig : Config := ⟨true, 0x10000, 1, 1, 1, 1, 1, 1, true, true, true⟩

def exampleAnswers : Answers := ⟨false, 0xD2D0F00D, (0, 0), (0, 0), false, fun _ => 0⟩

theorem load_fw_clean_word : Loaded exampleHeader exampleConfig [1, 2, 3, 4] (fun _ => 0xFF)
    (loadFw exampleHeader exampleConfig exampleAnswers (some [1, 2, 3, 4])).2 := by
  obtain ⟨_, heq, hloaded⟩ := (load_fw_clean exampleHeader exampleConfig exampleAnswers
    (some [1, 2, 3, 4]) (fun _ => 0xFF) rfl).1 rfl
  cases heq
  exact hloaded

end SystemFirmware.D2d
