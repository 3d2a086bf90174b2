import SystemFirmware.SpiEeprom.Definitions

/-!
# SPI EEPROM messages — the lock

The flash is only written while it is unlocked, and only unlocked after the host has
declared that it verified every board variable this board requires. An unlock without
variable words is let through while the flash is unlocked; it must neither stand in for the
declaration nor lock the flash (`flash_lock_discipline`).
-/

namespace SystemFirmware.SpiEeprom

open Lib

-- ---
-- What the log says

def FlashUnlockRqst.Declares (request : FlashUnlockRqst) (required : UInt32) : Prop :=
  1 ≤ request.numVariableWords ∧ required &&& ~~~ request.verifiedVariables = 0

/-- A message that locks the flash: `FLASH_LOCK`, or an unlock that was refused. -/
def Locks : Message × Response → Prop
  | (.flashLock, _) => True
  | (.flashUnlock _, response) => response.status ≠ 0
  | _ => False

/-- Since the last lock or refused unlock some unlock declared the required variables, if any. -/
def Unlocked (required : UInt32) (log : List (Message × Response)) : Prop :=
  ∃ before request response since, log = before ++ (.flashUnlock request, response) :: since ∧
    (request.Declares required ∨ required = 0) ∧ ∀ entry ∈ since, ¬ Locks entry

/-- Every unlock was answered with the required set. -/
def Reports (required : UInt32) (log : List (Message × Response)) : Prop :=
  ∀ request response, (.flashUnlock request, response) ∈ log → response.data1 = required

structure Inv (board : Board) (s : World) : Prop where
  unlocked : s.state.flashLocked = false → Unlocked (requiredBoardVariables board) s.log
  reports : Reports (requiredBoardVariables board) s.log

section

variable {required : UInt32} {log : List (Message × Response)} {entry : Message × Response}

theorem Unlocked.concat (h : Unlocked required log) (hentry : ¬ Locks entry) :
    Unlocked required (log ++ [entry]) := by
  obtain ⟨before, request, response, since, rfl, hdeclares, hsince⟩ := h
  refine ⟨before, request, response, since ++ [entry], by simp, hdeclares, fun e he => ?_⟩
  rcases List.mem_append.mp he with he | he
  · exact hsince e he
  · rw [List.mem_singleton.mp he]
    exact hentry

theorem unlocked_of_declares {request : FlashUnlockRqst} {response : Response}
    (h : request.Declares required ∨ required = 0) :
    Unlocked required (log ++ [(.flashUnlock request, response)]) :=
  ⟨log, request, response, [], rfl, h, by simp⟩

theorem Reports.concat (h : Reports required log)
    (hentry : ∀ request, entry.1 = .flashUnlock request → entry.2.data1 = required) :
    Reports required (log ++ [entry]) := by
  intro request response hmem
  rcases List.mem_append.mp hmem with hmem | hmem
  · exact h request response hmem
  · have heq := List.mem_singleton.mp hmem
    have hdata := hentry request (by rw [← heq])
    rw [← heq] at hdata
    exact hdata

end

-- ---
-- The handlers

section

variable {board : Board} {s : State} {outcomes : List FlashOutcome}

theorem readEepromHandler_frame (request : EepromRqst) :
    (readEepromHandler board request outcomes s).2.flashLocked = s.flashLocked ∧
      (readEepromHandler board request outcomes s).2.flash = s.flash := by
  unfold readEepromHandler
  split
  · exact ⟨rfl, rfl⟩
  · dsimp only
    split <;> exact ⟨rfl, rfl⟩

theorem writeEepromHandler_flashLocked (request : EepromRqst) :
    (writeEepromHandler board request outcomes s).2.flashLocked = s.flashLocked := by
  unfold writeEepromHandler
  split
  · rfl
  · split
    · rfl
    · dsimp only
      split <;> rfl

theorem writeEepromHandler_of_locked (request : EepromRqst) (h : s.flashLocked = true) :
    writeEepromHandler board request outcomes s = (2, s) := if_pos h

/-- An unlock without variable words does nothing while unlocked; else it unlocks exactly if it is
accepted, and then the variables were declared. -/
theorem flashUnlockHandler_cases (request : FlashUnlockRqst) :
    (s.flashLocked = false ∧ request.numVariableWords = 0 ∧
        flashUnlockHandler board request s = (⟨0, requiredBoardVariables board⟩, s)) ∨
      ∃ status locked, flashUnlockHandler board request s =
          (⟨status, requiredBoardVariables board⟩, { s with flashLocked := locked }) ∧
        (locked = false → status = 0 ∧ (request.Declares (requiredBoardVariables board) ∨
          requiredBoardVariables board = 0)) := by
  unfold flashUnlockHandler
  dsimp only
  split
  · rename_i hskip
    rw [Bool.and_eq_true, Bool.not_eq_true', beq_iff_eq] at hskip
    exact .inl ⟨hskip.1, hskip.2, rfl⟩
  · refine .inr ⟨_, _, rfl, fun hunlocked => ?_⟩
    rw [Bool.not_eq_false'] at hunlocked
    rw [if_pos hunlocked]
    refine ⟨rfl, ?_⟩
    rw [beq_iff_eq] at hunlocked
    by_cases hwords : 1 ≤ request.numVariableWords
    · rw [if_pos hwords] at hunlocked
      exact .inl ⟨hwords, hunlocked⟩
    · -- without words nothing is verified, so nothing may be required
      rw [if_neg hwords] at hunlocked
      right
      simpa using hunlocked

end

-- ---
-- The main result

section

variable {board : Board} {s t : World}

theorem step_inv {a : Message × List FlashOutcome} (h : Inv board s) (hstep : step board s a = some t) :
    Inv board t := by
  obtain ⟨message, outcomes⟩ := a
  rw [← Option.some.inj hstep]
  cases message
  case flashLock =>
    refine ⟨fun hunlocked => ?_, h.reports.concat fun request heq => ?_⟩
    · simp [flashLockHandler] at hunlocked
    · simp at heq
  case readEeprom request =>
    have hframe := @readEepromHandler_frame board s.state outcomes request
    refine ⟨fun hunlocked => ?_, h.reports.concat fun request heq => ?_⟩
    · exact (h.unlocked (hframe.1 ▸ hunlocked)).concat id
    · simp at heq
  case writeEeprom request =>
    have hframe := @writeEepromHandler_flashLocked board s.state outcomes request
    refine ⟨fun hunlocked => ?_, h.reports.concat fun request heq => ?_⟩
    · exact (h.unlocked (hframe ▸ hunlocked)).concat id
    · simp at heq
  case flashUnlock request =>
    rcases @flashUnlockHandler_cases board s.state request with
      ⟨hs, -, heq⟩ | ⟨status, locked, heq, hdeclares⟩
    · simp only [heq]
      exact ⟨fun _ => (h.unlocked hs).concat fun hlocks => hlocks rfl,
        h.reports.concat fun _ _ => rfl⟩
    · simp only [heq]
      exact ⟨fun hunlocked => unlocked_of_declares (hdeclares hunlocked).2,
        h.reports.concat fun _ _ => rfl⟩

end

/-- **Lock discipline.** From a locked flash on: it is unlocked only if, since the last lock and
the last refused unlock, an unlock declared all required variables (or none are required); an
unlock without variable words received while unlocked changes nothing; every unlock was answered
with the required set; and no message changes a locked flash. -/
theorem flash_lock_discipline {board : Board} {s t : World} {as : List (Message × List FlashOutcome)}
    (hlocked : s.state.flashLocked = true) (hlog : s.log = []) (hrun : exec (step board) s as = some t) :
    (t.state.flashLocked = false → Unlocked (requiredBoardVariables board) t.log) ∧
      Reports (requiredBoardVariables board) t.log ∧
      (∀ request outcomes, t.state.flashLocked = false → request.numVariableWords = 0 →
        (handle board (.flashUnlock request) outcomes t.state).2 = t.state) ∧
      ∀ message outcomes, t.state.flashLocked = true →
        (handle board message outcomes t.state).2.flash = t.state.flash := by
  have hstart : Inv board s := by
    refine ⟨fun hunlocked => ?_, fun request response hmem => ?_⟩
    · simp [hlocked] at hunlocked
    · simp [hlog] at hmem
  have hinv : Inv board t := exec_invariant (fun _ _ _ h hstep => step_inv h hstep) hstart hrun
  refine ⟨hinv.unlocked, hinv.reports, fun request outcomes hunlocked hwords => ?_,
    fun message outcomes hlocked => ?_⟩
  · simp [handle, flashUnlockHandler, hunlocked, hwords]
  · cases message
    case flashLock => rfl
    case readEeprom request => exact (readEepromHandler_frame request).2
    case writeEeprom request =>
      simp only [handle, writeEepromHandler_of_locked request hlocked]
    case flashUnlock request =>
      rcases @flashUnlockHandler_cases board t.state request with
        ⟨-, -, heq⟩ | ⟨status, locked, heq, -⟩
      · simp only [handle, heq]
      · simp only [handle, heq]

def secondSource : Board := ⟨0xEF6020, true, 4096, 0x10000000⟩

def atBoot : World := ⟨⟨true, fun _ => 0xFF, fun _ => 0⟩, []⟩

def unlockAndWrite : List (Message × List FlashOutcome) :=
  [(.flashUnlock ⟨1, 1⟩, []), (.writeEeprom ⟨0, 0x1000, 4, 0x10000000⟩, []),
    (.flashUnlock ⟨0, 0⟩, [])]

theorem unlockAndWrite_disciplined :
    ∃ t, exec (step secondSource) atBoot unlockAndWrite = some t ∧ t.state.flashLocked = false ∧
      Unlocked 1 t.log ∧ Reports 1 t.log := by
  have hrun : (exec (step secondSource) atBoot unlockAndWrite).map
      (fun t => t.state.flashLocked) = some false := by decide +kernel
  obtain ⟨t, ht, hunlocked⟩ := Option.map_eq_some_iff.mp hrun
  have hdiscipline := flash_lock_discipline rfl rfl ht
  exact ⟨t, ht, hunlocked, hdiscipline.1 hunlocked, hdiscipline.2.1⟩

end SystemFirmware.SpiEeprom
