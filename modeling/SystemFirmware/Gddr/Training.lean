import Mathlib.Algebra.Ring.Nat
import Mathlib.Data.List.Basic

/-!
# GDDR — training and the memory test

`gddr_training` of `lib/tenstorrent/bh_arc/gddr.c` waits for the training of every enabled
GDDR instance, collects the calibration settings that MRISC has picked, runs the memory
test, and then writes the settings to flash. What MRISC answers to each read is an input.

An instance whose firmware is too old for the memory test, or whose telemetry table is not
understood, is skipped, and a skipped test is no error (`calWrite_after_pass`).
-/

namespace SystemFirmware.Gddr

def numGddr : ℕ := 8

inductive Errno where
  | ebusy
  | einval
  | eio
  | enotsup
  | etimedout
  deriving DecidableEq, Repr

structure Telemetry where
  tableVersion : UInt32
  fwMajor : UInt16
  fwMinor : UInt16

/-- What MRISC answers for one instance. A list holds the values of a polled register before the
timeout. -/
structure Reads where
  initStatus : List UInt32
  /-- `telemetry_table_version`, read when the training is finished. -/
  tableVersion : UInt32
  /-- The words that hold the settings; `latchVersion` is read in front of them. -/
  latchVersion : UInt32
  caWord : UInt32
  caWord2 : UInt32
  telemetry : Telemetry
  /-- `MRISC_MSG_REGISTER` before the test, and while the test runs. -/
  msgRegister : UInt32
  memtestBusy : List UInt32
  memtestPass : UInt32

-- ---
-- One instance

/-- `IN_RANGE(version, GDDR_TELEMETRY_TABLE_T_VERSION_MIN, GDDR_TELEMETRY_TABLE_T_VERSION)`. -/
def versionSupported (version : UInt32) : Bool := 2 ≤ version && version ≤ 3

def checkGddrTraining (tableVersion : UInt32) : List UInt32 → Except Errno Unit
  | [] => .error .etimedout
  | status :: rest =>
    if status = 0xdeadbeef then
      if versionSupported tableVersion then .ok () else .error .enotsup
    else if status = 0xfa11 then .error .eio
    else checkGddrTraining tableVersion rest

def checkMriscBusy (msgRegister : UInt32) : Except Errno Unit :=
  if msgRegister ≠ 0 then .error .ebusy else .ok ()

def waitMriscNotBusy : List UInt32 → Except Errno Unit
  | [] => .error .etimedout
  | status :: rest => if status ≠ 0 then waitMriscNotBusy rest else .ok ()

/-- MRISC runs a firmware that has the memory test. -/
def Telemetry.HasMemtest (t : Telemetry) : Prop :=
  versionSupported t.tableVersion = true ∧
    ¬ (t.fwMajor < 2 ∨ t.fwMajor = 2 ∧ t.fwMinor < 7)

instance (t : Telemetry) : Decidable t.HasMemtest := inferInstanceAs (Decidable (_ ∧ _))

def startHwMemtest (r : Reads) (addrBits : ℕ) : Except Errno Unit := do
  if ¬ versionSupported r.telemetry.tableVersion then .error .enotsup
  if r.telemetry.fwMajor < 2 ∨ r.telemetry.fwMajor = 2 ∧ r.telemetry.fwMinor < 7 then
    .error .enotsup
  checkMriscBusy r.msgRegister
  if addrBits > 26 then .error .einval

def checkHwMemtestResult (r : Reads) : Except Errno Unit := do
  waitMriscNotBusy r.memtestBusy
  if r.memtestPass ≠ 0 then .error .eio

structure CalEntry where
  caVrefcOffset : ℕ
  caTerminationOffset : ℕ
  caOcdPulldownOffset : ℕ
  valid : Bool
  deriving DecidableEq

def latchGddrCaSettings (r : Reads) (entry : CalEntry) : Option CalEntry :=
  let vrefc := r.caWord.toNat % 2 ^ 8
  let termination := r.caWord.toNat / 2 ^ 8 % 2 ^ 8
  let changed := r.caWord.toNat / 2 ^ 24
  let ocdPulldown := r.caWord2.toNat % 2 ^ 8
  if r.latchVersion < 3 ∨ changed = 0 then none
  else if vrefc > 0xF ∨ termination > 3 ∨ ocdPulldown > 7 ∧ ocdPulldown ≠ 0xFF then none
  else if entry = ⟨vrefc, termination, ocdPulldown, true⟩ then none
  else some ⟨vrefc, termination, ocdPulldown, true⟩

-- ---
-- All instances

/-- What happens to the instances, in order. -/
inductive Event where
  /-- `MRISC_MSG_TYPE_RUN_MEMTEST` is written. -/
  | runMemtest (inst : ℕ)
  | memtestPassed (inst : ℕ)
  deriving DecidableEq

section

variable (reads : ℕ → Reads)

structure HwTest where
  testStarted : List ℕ
  anyError : Bool
  log : List Event

def startInst (s : HwTest) (inst : ℕ) : HwTest :=
  match startHwMemtest (reads inst) 26 with
  | .error .enotsup => s
  | .error _ => { s with anyError := true }
  | .ok _ => { s with testStarted := s.testStarted ++ [inst], log := s.log ++ [.runMemtest inst] }

/-- One round of the loop over the started tests. -/
def checkInst (s : HwTest) (inst : ℕ) : HwTest :=
  match checkHwMemtestResult (reads inst) with
  | .error _ => { s with anyError := true }
  | .ok _ => { s with log := s.log ++ [.memtestPassed inst] }

def checkGddrHwTest (insts : List ℕ) : HwTest :=
  let s := insts.foldl (startInst reads) ⟨[], false, []⟩
  s.testStarted.foldl (checkInst reads) s

structure TrainLoop where
  initErrors : Bool
  calDirty : Bool
  row : Option (ℕ → CalEntry)

def trainInst (latch : Bool) (s : TrainLoop) (inst : ℕ) : TrainLoop :=
  match checkGddrTraining (reads inst).tableVersion (reads inst).initStatus with
  | .error _ => { s with initErrors := true }
  | .ok _ =>
    match if latch then s.row else none with
    | none => s
    | some row =>
      match latchGddrCaSettings (reads inst) (row inst) with
      | none => s
      | some entry =>
        { s with calDirty := true, row := some fun i => if i = inst then entry else row i }

end

structure Boot where
  /-- `CONFIG_TT_SMC_RECOVERY` or not `CONFIG_ARC`, or cable fault mode. -/
  skipped : Bool
  latch : Bool
  dramMask : ℕ → Bool
  row : Option (ℕ → CalEntry)
  reads : ℕ → Reads

def Boot.enabled (b : Boot) : List ℕ := (List.range numGddr).filter b.dramMask

/-- What `gddr_training` returns, and what it has done. -/
structure Outcome where
  ret : Except Errno Unit
  log : List Event
  /-- At its end `gddr_cal_write` was called. -/
  calWrite : Bool

def gddrTraining (b : Boot) : Outcome :=
  if b.skipped then ⟨.ok (), [], false⟩
  else
    let s := b.enabled.foldl (trainInst b.reads b.latch) ⟨false, false, b.row⟩
    if s.initErrors then ⟨.ok (), [], false⟩
    else
      let t := checkGddrHwTest b.reads b.enabled
      if t.anyError then ⟨.error .eio, t.log, false⟩ else ⟨.ok (), t.log, s.calDirty⟩

-- ---
-- What the loops establish

section

variable {reads : ℕ → Reads} {insts : List ℕ} {latch : Bool}

def Reads.Trained (r : Reads) : Prop := checkGddrTraining r.tableVersion r.initStatus = .ok ()

theorem trainInst_initErrors (s : TrainLoop) (i : ℕ) :
    (trainInst reads latch s i).initErrors = false ↔ s.initErrors = false ∧ (reads i).Trained := by
  unfold trainInst Reads.Trained
  split
  · next herror => simp [herror]
  · next hok =>
    rw [and_iff_left hok]
    split
    · exact Iff.rfl
    · split <;> exact Iff.rfl

theorem foldl_initErrors (s : TrainLoop) :
    (insts.foldl (trainInst reads latch) s).initErrors = false ↔
      s.initErrors = false ∧ ∀ i ∈ insts, (reads i).Trained := by
  induction insts generalizing s with
  | nil => simp
  | cons i insts ih =>
    rw [List.foldl_cons, ih, trainInst_initErrors, List.forall_mem_cons, and_assoc]

/-- The settings of the instance are new, for the table as it was read. -/
def Latches (latch : Bool) (row : Option (ℕ → CalEntry)) (reads : ℕ → Reads) (i : ℕ) : Prop :=
  latch = true ∧ ∃ entries, row = some entries ∧ latchGddrCaSettings (reads i) (entries i) ≠ none

theorem trainInst_latch (s : TrainLoop) {i : ℕ} (htrained : (reads i).Trained) :
    ((trainInst reads latch s i).calDirty = true ↔
      s.calDirty = true ∨ Latches latch s.row reads i) ∧
    ∀ j ≠ i, Latches latch (trainInst reads latch s i).row reads j ↔ Latches latch s.row reads j := by
  unfold trainInst Latches
  rw [show checkGddrTraining (reads i).tableVersion (reads i).initStatus = .ok () from htrained]
  cases latch with
  | false => simp
  | true =>
    cases hrow : s.row with
    | none => simp [hrow]
    | some row =>
      cases hnew : latchGddrCaSettings (reads i) (row i) with
      | none => simp [hrow, hnew]
      | some entry =>
        refine ⟨by simp [hnew], fun j hj => ?_⟩
        simp [hnew, hj]

theorem foldl_calDirty (hnodup : insts.Nodup) (htrained : ∀ i ∈ insts, (reads i).Trained)
    (s : TrainLoop) : (insts.foldl (trainInst reads latch) s).calDirty = true ↔
      s.calDirty = true ∨ ∃ i ∈ insts, Latches latch s.row reads i := by
  induction insts generalizing s with
  | nil => simp
  | cons i insts ih =>
    obtain ⟨hi, hrest⟩ := List.forall_mem_cons.mp htrained
    obtain ⟨hdirty, hother⟩ := @trainInst_latch reads latch s i hi
    rw [List.foldl_cons, ih hnodup.of_cons hrest, hdirty, or_assoc, List.exists_mem_cons_iff]
    refine or_congr_right (or_congr_right (exists_congr fun j => and_congr_right fun hj => ?_))
    exact hother j fun heq => (List.nodup_cons.mp hnodup).1 (heq ▸ hj)

theorem startInst_eq (s : HwTest) (i : ℕ) : startInst reads s i =
    if (reads i).telemetry.HasMemtest then
      if (reads i).msgRegister = 0 then
        { s with testStarted := s.testStarted ++ [i], log := s.log ++ [.runMemtest i] }
      else { s with anyError := true }
    else s := by
  have hstart : startHwMemtest (reads i) 26 = if (reads i).telemetry.HasMemtest then
      checkMriscBusy (reads i).msgRegister else .error .enotsup := by
    unfold startHwMemtest Telemetry.HasMemtest
    by_cases hversion : versionSupported (reads i).telemetry.tableVersion = true
    · by_cases hfw : (reads i).telemetry.fwMajor < 2 ∨
          (reads i).telemetry.fwMajor = 2 ∧ (reads i).telemetry.fwMinor < 7
      · simp [hversion, hfw, bind, Except.bind]
      · simp only [hversion, hfw, not_true_eq_false, if_false, not_false_eq_true, and_self, if_true]
        cases checkMriscBusy (reads i).msgRegister <;> rfl
    · simp [hversion, bind, Except.bind]
  unfold startInst
  rw [hstart, checkMriscBusy]
  by_cases hmemtest : (reads i).telemetry.HasMemtest
  · by_cases hidle : (reads i).msgRegister = 0
    · simp [hmemtest, hidle]
    · simp [hmemtest, hidle]
  · simp [hmemtest]

/-- A test that is started: the register of its messages is free. -/
def Reads.Starts (r : Reads) : Prop := r.telemetry.HasMemtest → r.msgRegister = 0

theorem foldl_startInst (s : HwTest) :
    ((insts.foldl (startInst reads) s).anyError = false ↔
      s.anyError = false ∧ ∀ i ∈ insts, (reads i).Starts) ∧
    ((∀ i ∈ insts, (reads i).Starts) →
      (insts.foldl (startInst reads) s).testStarted =
          s.testStarted ++ insts.filter (fun i => (reads i).telemetry.HasMemtest) ∧
        (insts.foldl (startInst reads) s).log = s.log ++
          (insts.filter fun i => (reads i).telemetry.HasMemtest).map .runMemtest) := by
  induction insts generalizing s with
  | nil => simp
  | cons i insts ih =>
    obtain ⟨herror, hstarted⟩ := ih (startInst reads s i)
    rw [List.foldl_cons, herror, List.forall_mem_cons, List.filter_cons]
    rw [startInst_eq] at hstarted ⊢
    unfold Reads.Starts
    by_cases hmemtest : (reads i).telemetry.HasMemtest
    · by_cases hidle : (reads i).msgRegister = 0
      · rw [if_pos hmemtest, if_pos hidle] at hstarted ⊢
        refine ⟨by simp [hidle], fun h => ?_⟩
        obtain ⟨htest, hlog⟩ := hstarted h.2
        simp [htest, hlog, hmemtest]
      · simp [hmemtest, hidle]
    · rw [if_neg hmemtest] at hstarted ⊢
      refine ⟨by simp [hmemtest], fun h => ?_⟩
      obtain ⟨htest, hlog⟩ := hstarted h.2
      simp [htest, hlog, hmemtest]

theorem foldl_checkInst (s : HwTest) :
    ((insts.foldl (checkInst reads) s).anyError = false ↔
      s.anyError = false ∧ ∀ i ∈ insts, checkHwMemtestResult (reads i) = .ok ()) ∧
    ((∀ i ∈ insts, checkHwMemtestResult (reads i) = .ok ()) →
      (insts.foldl (checkInst reads) s).log = s.log ++ insts.map .memtestPassed) := by
  induction insts generalizing s with
  | nil => simp
  | cons i insts ih =>
    obtain ⟨herror, hlog⟩ := ih (checkInst reads s i)
    rw [List.foldl_cons, herror, List.forall_mem_cons]
    cases hresult : checkHwMemtestResult (reads i) with
    | error e => simp [checkInst, hresult]
    | ok u =>
      have hstep : checkInst reads s i = { s with log := s.log ++ [.memtestPassed i] } := by
        rw [checkInst, hresult]
      rw [hstep] at hlog ⊢
      exact ⟨by simp, fun h => by simp [hlog h.2]⟩

/-- A test that is started, and passed. -/
def Reads.Passes (r : Reads) : Prop :=
  r.telemetry.HasMemtest → r.msgRegister = 0 ∧ checkHwMemtestResult r = .ok ()

theorem checkGddrHwTest_spec :
    ((checkGddrHwTest reads insts).anyError = false ↔ ∀ i ∈ insts, (reads i).Passes) ∧
    ((∀ i ∈ insts, (reads i).Passes) → (checkGddrHwTest reads insts).log =
      (insts.filter fun i => (reads i).telemetry.HasMemtest).map .runMemtest ++
        (insts.filter fun i => (reads i).telemetry.HasMemtest).map .memtestPassed) := by
  obtain ⟨hstartError, hstart⟩ := @foldl_startInst reads insts ⟨[], false, []⟩
  obtain ⟨hcheckError, hcheck⟩ := @foldl_checkInst reads
    (insts.foldl (startInst reads) ⟨[], false, []⟩).testStarted
    (insts.foldl (startInst reads) ⟨[], false, []⟩)
  have hpasses : (∀ i ∈ insts, (reads i).Starts) → ((∀ i ∈ insts, (reads i).Passes) ↔
      ∀ i ∈ (insts.foldl (startInst reads) ⟨[], false, []⟩).testStarted,
        checkHwMemtestResult (reads i) = .ok ()) := by
    intro hstarts
    rw [(hstart hstarts).1]
    simp only [List.nil_append, List.mem_filter, decide_eq_true_eq, and_imp]
    exact forall₂_congr fun i hi => forall_congr' fun hmemtest =>
      and_iff_right (hstarts i hi hmemtest)
  have hstarts : (∀ i ∈ insts, (reads i).Passes) → ∀ i ∈ insts, (reads i).Starts :=
    fun h i hi hmemtest => (h i hi hmemtest).1
  unfold checkGddrHwTest
  refine ⟨?_, fun h => ?_⟩
  · rw [hcheckError, hstartError]
    refine ⟨fun ⟨⟨_, h⟩, hresults⟩ => (hpasses h).mpr hresults, fun h => ?_⟩
    exact ⟨⟨rfl, hstarts h⟩, (hpasses (hstarts h)).mp h⟩
  · rw [hcheck ((hpasses (hstarts h)).mp h), (hstart (hstarts h)).1, (hstart (hstarts h)).2]
    rfl

end

/-- What MRISC answers makes `gddr_training` write: every enabled instance is trained, no test that
is made fails, and the settings of one of them are new. -/
structure Boot.Writes (b : Boot) : Prop where
  runs : b.skipped = false
  trained : ∀ i < numGddr, b.dramMask i = true → (b.reads i).Trained
  passes : ∀ i < numGddr, b.dramMask i = true → (b.reads i).Passes
  dirty : ∃ i < numGddr, b.dramMask i = true ∧ Latches b.latch b.row b.reads i

section

variable {b : Boot}

theorem mem_enabled {i : ℕ} : i ∈ b.enabled ↔ i < numGddr ∧ b.dramMask i = true := by
  simp [Boot.enabled]

theorem forall_mem_enabled {P : ℕ → Prop} :
    (∀ i ∈ b.enabled, P i) ↔ ∀ i < numGddr, b.dramMask i = true → P i := by
  simp only [mem_enabled, and_imp]

theorem calWrite_eq_true : (gddrTraining b).calWrite = true ↔ b.Writes := by
  have hnodup : b.enabled.Nodup := List.nodup_range.filter _
  unfold gddrTraining
  by_cases hskipped : b.skipped = true
  · rw [if_pos hskipped]
    exact iff_of_false (by simp) fun h => Bool.eq_false_iff.mp h.runs hskipped
  rw [if_neg hskipped]
  have herrors := @foldl_initErrors b.reads b.enabled b.latch ⟨false, false, b.row⟩
  have htest := (@checkGddrHwTest_spec b.reads b.enabled).1
  dsimp only
  split
  · next hfailed =>
    refine iff_of_false (by simp) fun h => ?_
    rw [herrors.mpr ⟨rfl, forall_mem_enabled.mpr h.trained⟩] at hfailed
    cases hfailed
  · next hok =>
    obtain ⟨-, htrained⟩ := herrors.mp (Bool.eq_false_iff.mpr hok)
    split
    · next hfailed =>
      refine iff_of_false (by simp) fun h => ?_
      rw [htest.mpr (forall_mem_enabled.mpr h.passes)] at hfailed
      cases hfailed
    · next hpassed =>
      have hpasses := htest.mp (Bool.eq_false_iff.mpr hpassed)
      have hdirty := @foldl_calDirty b.reads b.enabled b.latch hnodup htrained
        ⟨false, false, b.row⟩
      simp only [Bool.false_eq_true, false_or, mem_enabled, and_assoc] at hdirty
      rw [hdirty]
      exact ⟨fun h => ⟨Bool.eq_false_iff.mpr hskipped, forall_mem_enabled.mp htrained,
        forall_mem_enabled.mp hpasses, h⟩, Boot.Writes.dirty⟩

theorem log_of_writes (h : b.Writes) : (gddrTraining b).log =
    (b.enabled.filter fun i => (b.reads i).telemetry.HasMemtest).map .runMemtest ++
      (b.enabled.filter fun i => (b.reads i).telemetry.HasMemtest).map .memtestPassed := by
  have hpasses := forall_mem_enabled.mpr h.passes
  obtain ⟨htest, hlog⟩ := @checkGddrHwTest_spec b.reads b.enabled
  have herrors := (@foldl_initErrors b.reads b.enabled b.latch ⟨false, false, b.row⟩).mpr
    ⟨rfl, forall_mem_enabled.mpr h.trained⟩
  rw [gddrTraining, if_neg (Bool.eq_false_iff.mp h.runs), if_neg (Bool.eq_false_iff.mp herrors),
    if_neg (Bool.eq_false_iff.mp (htest.mpr hpasses)), hlog hpasses]

end

/-- **When the settings are written after a pass only.** If they are written, every enabled instance
finished its training and passed the test: exactly if the answers of MRISC do not lead to a write,
or every enabled instance has firmware with the memory test. -/
theorem calWrite_after_pass (b : Boot) :
    ((gddrTraining b).calWrite = true → ∀ i < numGddr, b.dramMask i = true →
      checkGddrTraining (b.reads i).tableVersion (b.reads i).initStatus = .ok () ∧
      .runMemtest i ∈ (gddrTraining b).log ∧ .memtestPassed i ∈ (gddrTraining b).log) ↔
    (b.Writes → ∀ i < numGddr, b.dramMask i = true → (b.reads i).telemetry.HasMemtest) := by
  rw [calWrite_eq_true]
  refine forall_congr' fun h => forall₃_congr fun i hi hmask => ?_
  rw [log_of_writes h]
  have henabled := mem_enabled.mpr ⟨hi, hmask⟩
  refine ⟨fun ⟨_, hrun, _⟩ => ?_, fun hmemtest => ⟨h.trained i hi hmask, ?_⟩⟩
  · simpa [henabled] using hrun
  · simp [henabled, hmemtest]

def trainedReads (fwMinor : UInt16) : Reads where
  initStatus := [0x11111111, 0xdeadbeef]
  tableVersion := 3
  latchVersion := 3
  caWord := 0x01000105
  caWord2 := 0xFF
  telemetry := ⟨3, 2, fwMinor⟩
  msgRegister := 0
  memtestBusy := [8, 0]
  memtestPass := 0

def oneInstance (fwMinor : UInt16) : Boot where
  skipped := false
  latch := true
  dramMask := fun i => i = 0
  row := some fun _ => ⟨0, 0, 0, false⟩
  reads := fun _ => trainedReads fwMinor

/-- Version 2.6 has no memory test. It is skipped, and the settings are written. -/
theorem calWrite_without_test :
    (oneInstance 6).dramMask 0 = true ∧ (gddrTraining (oneInstance 6)).log = [] ∧
      (gddrTraining (oneInstance 6)).calWrite = true := by
  decide

end SystemFirmware.Gddr
