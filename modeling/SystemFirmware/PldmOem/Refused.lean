import SystemFirmware.PldmOem.Results

/-!
# OEM shell commands — refused requests

An EXEC that is refused for its length, or because a command is queued or running, leaves
the context alone. But `k_work_submit_to_queue` is asked last, after the new request has
overwritten the context, and refuses an item that is already in the queue
(`refused_exec_keeps_result_iff`).
-/

namespace SystemFirmware.PldmOem

open Lib

variable {s : World} {ctx ctx' : Context} {payload : List UInt8}

-- ---
-- What GET_RESULT reports

theorem handleGetResult_idle (h : ctx.state = .idle) (h' : ctx'.state = .idle) :
    handleGetResult ctx' payload = handleGetResult ctx payload := by
  unfold handleGetResult
  rw [h, h']
  simp only [true_or, if_true]

theorem handleGetResult_own (h : ctx.state ≠ .idle) :
    ∃ r, handleGetResult ctx (getResultPayload ctx.requestId 0 0) = .result r := by
  have hsize : (getResultPayload ctx.requestId 0 0).length = 5 := rfl
  have hid : ofLe16 ((getResultPayload ctx.requestId 0 0).take 2) = ctx.requestId := ofLe16_le16
  have hoffset : (ofLe16 (((getResultPayload ctx.requestId 0 0).drop 2).take 2)).toNat = 0 := rfl
  have hmine : ¬ (ctx.state = .idle ∨ ctx.requestId ≠ ctx.requestId) := by simp [h]
  rw [handleGetResult, if_neg (not_not_intro hsize)]
  simp only [hid, hoffset, if_neg hmine, if_neg (Nat.not_lt_zero _)]
  exact ⟨_, rfl⟩

-- ---
-- Refused EXECs

/-- The item is in the queue although the command is over and its result is there. -/
def World.Stale (s : World) : Prop :=
  s.queued = true ∧ (s.ctx.state = .done ∨ s.ctx.state = .failed ∨ s.ctx.state = .canceled)

instance (s : World) : Decidable s.Stale := inferInstanceAs (Decidable (_ ∧ _))

def World.execReply (s : World) (payload : List UInt8) : Reply :=
  (handleExec s.ctx s.queued (s.worker ≠ .idle) payload).1

theorem refused_cases (hrefused : (s.execReply payload).cc ≠ .success) :
    ((step s (.exec payload)).ctx = s.ctx ∧
        (execLengthOk payload = false ∨ s.ctx.state = .queued ∨ s.ctx.state = .running)) ∨
      (execLengthOk payload = true ∧ s.queued = true ∧ s.ctx.state ≠ .queued ∧
        s.ctx.state ≠ .running ∧ (step s (.exec payload)).ctx.state = .idle) := by
  unfold World.execReply at hrefused
  simp only [step]
  unfold handleExec at hrefused ⊢
  rcases hlength : execLengthOk payload with _ | _
  · exact Or.inl ⟨rfl, Or.inl rfl⟩
  · by_cases hbusy : s.ctx.state = .queued ∨ s.ctx.state = .running
    · refine Or.inl ⟨?_, Or.inr hbusy⟩
      simp only [Bool.not_true, Bool.false_eq_true, if_false, if_pos hbusy]
    · rcases hqueued : s.queued with _ | _
      · -- an item that is not in the queue is accepted
        exfalso
        rw [hlength, hqueued] at hrefused
        simp only [Bool.not_true, Bool.false_eq_true, if_false, if_neg hbusy] at hrefused
        unfold workSubmit at hrefused
        rcases hworker : decide (s.worker ≠ .idle) with _ | _
        · rw [hworker] at hrefused
          exact hrefused rfl
        · rw [hworker] at hrefused
          exact hrefused rfl
      · refine Or.inr ⟨rfl, rfl, fun h => hbusy (Or.inl h), fun h => hbusy (Or.inr h), ?_⟩
        simp only [Bool.not_true, Bool.false_eq_true, if_false, if_neg hbusy]
        rfl

theorem over_of_ne {state : ShellState} (hidle : state ≠ .idle) (hqueued : state ≠ .queued)
    (hrunning : state ≠ .running) : state = .done ∨ state = .failed ∨ state = .canceled := by
  cases state <;> simp at *

/-- **Refused EXECs.** One that is answered with anything but SUCCESS leaves what GET_RESULT
reports as it was, exactly if it does not find the item of a command that is over in the queue. -/
theorem refused_exec_keeps_result_iff (actions : List Action) (payload : List UInt8)
    (hrefused : ((run {} actions).execReply payload).cc ≠ .success) :
    (∀ query, handleGetResult (step (run {} actions) (.exec payload)).ctx query =
        handleGetResult (run {} actions).ctx query) ↔
      ¬ (execLengthOk payload = true ∧ (run {} actions).Stale) := by
  generalize run {} actions = s at hrefused ⊢
  rcases refused_cases hrefused with ⟨hsame, hearly⟩ | ⟨hlength, hqueued, hnq, hnr, hidle⟩
  · refine iff_of_true (fun query => by rw [hsame]) ?_
    rintro ⟨hlength, -, hover⟩
    rcases hearly with h | h | h
    · exact Bool.false_ne_true (h.symm.trans hlength)
    · rw [h] at hover
      simp at hover
    · rw [h] at hover
      simp at hover
  · by_cases hover : s.ctx.state = .idle
    · refine iff_of_true (fun query => handleGetResult_idle hover hidle) ?_
      rintro ⟨-, -, hstate⟩
      rw [hover] at hstate
      simp at hstate
    · refine iff_of_false (fun hkept => ?_) (not_not_intro ⟨hlength, hqueued, ?_⟩)
      · -- the result that was there is not reported any more
        obtain ⟨r, hr⟩ := handleGetResult_own hover
        have hlost := hkept (getResultPayload s.ctx.requestId 0 0)
        rw [hr, handleGetResult_idle (rfl : ({} : Context).state = .idle) hidle] at hlost
        exact Reply.noConfusion hlost
      · exact over_of_ne hover hnq hnr

theorem refused_exec_keeps_result_running :
    ¬ (execLengthOk [8, 0, 1, 0x77] = true ∧
        (run {} [.exec [7, 0, 1, 0x77], .dequeue, .take]).Stale) ∧
      ∀ query, handleGetResult (step (run {} [.exec [7, 0, 1, 0x77], .dequeue, .take])
          (.exec [8, 0, 1, 0x77])).ctx query =
        handleGetResult (run {} [.exec [7, 0, 1, 0x77], .dequeue, .take]).ctx query :=
  ⟨by decide, (refused_exec_keeps_result_iff [.exec [7, 0, 1, 0x77], .dequeue, .take]
    [8, 0, 1, 0x77] (by decide)).mpr (by decide)⟩

-- ---
-- A result that is lost

/-- Command 7 is canceled when the worker has left the queue for it. Its run takes command 8,
whose item stays in the queue. -/
def doneThenRefused : List Action :=
  [ .exec [7, 0, 2, 0x6C, 0x73], .dequeue, .cancel [7, 0], .exec [8, 0, 2, 0x70, 0x73], .take,
    .execute (some (0, [0x6F, 0x6B])), .put ]

/-- **A refused EXEC destroys a result.** The EXEC of a command 9 is answered with ERROR, and the
output of 8 is gone. -/
theorem refused_exec_destroys_result :
    ((run {} doneThenRefused).execReply [9, 0, 1, 0x77]).cc = .error ∧
      handleGetResult (run {} doneThenRefused).ctx [8, 0, 0, 0, 0] = .result
        { requestId := 8, state := .done, shellRc := 0, totalLen := 2, offset := 0,
          chunk := [0x6F, 0x6B], more := false } ∧
      handleGetResult (step (run {} doneThenRefused) (.exec [9, 0, 1, 0x77])).ctx
        [8, 0, 0, 0, 0] = .ccOnly .errorInvalidData := by
  decide

end SystemFirmware.PldmOem
