import SystemFirmware.Lib.Exec
import SystemFirmware.PldmOem.Definitions

/-!
# OEM shell commands — every accepted command runs once

A cancelled command leaves its work item in the queue, and a command submitted while the
worker starts can be taken by the run of an earlier one. So the state in the context,
not the queue, decides what a run does. `Fate` says what can have become of an EXEC;
`step_inv` keeps it for every EXEC there was.
-/

namespace SystemFirmware.PldmOem

open Lib

variable {s : World} {n : ℕ} {payload : List UInt8}

-- ---
-- The invariant

/-- The command of the `n`-th EXEC is waiting, or the worker has it and is about to run it. -/
def World.Pending (s : World) (n : ℕ) : Prop :=
  n = s.serial ∧ (s.ctx.state = .queued ∨ ∃ cmd, s.worker = .running n cmd)

/-- What became of the `n`-th EXEC. -/
inductive Fate (s : World) (n : ℕ) : Prop where
  | refused (haccepted : ¬ s.Accepted n) (hpending : ¬ s.Pending n) (hcanceled : n ∉ s.canceled)
      (hruns : s.timesExecuted n = 0)
  | pending (haccepted : s.Accepted n) (hpending : s.Pending n) (hcanceled : n ∉ s.canceled)
      (hruns : s.timesExecuted n = 0)
  | canceled (haccepted : s.Accepted n) (hpending : ¬ s.Pending n) (hcanceled : n ∈ s.canceled)
      (hruns : s.timesExecuted n = 0)
  | executed (haccepted : s.Accepted n) (hpending : ¬ s.Pending n) (hcanceled : n ∉ s.canceled)
      (hruns : s.timesExecuted n = 1)

def World.HoldsRequest (s : World) : Prop :=
  ∃ e, s.execs[s.serial]? = some e ∧ e.cc = .success ∧ s.ctx.requestId = execRequestId e.payload ∧
    s.ctx.cmd = execCmd e.payload

def World.HoldsResult (s : World) : Prop :=
  ∃ x ∈ s.executed, x.serial = s.serial ∧ s.ctx.shellRc = x.rc ∧
    s.ctx.outputLen = min x.output.length shellMaxOutputLen ∧
    s.ctx.output.read 0 s.ctx.outputLen = x.output.take shellMaxOutputLen

/-- The worker and the context agree on whether a command is running, and on which. -/
def World.WorkerAgrees (s : World) : Prop :=
  match s.worker with
  | .running serial cmd => serial = s.serial ∧ cmd = s.ctx.cmd ∧ s.ctx.state = .running
  | .executed serial rc output =>
    serial = s.serial ∧ s.ctx.state = .running ∧
      ∃ x ∈ s.executed, x.serial = serial ∧ x.rc = rc ∧ x.output = output
  | _ => s.ctx.state ≠ .running

structure Inv (s : World) : Prop where
  fate : ∀ n, Fate s n
  latest : ∀ n, s.serial < n → ¬ s.Accepted n
  request : s.ctx.state ≠ .idle → s.HoldsRequest
  waiting : s.ctx.state = .queued →
    s.ctx.cancelRequested = false ∧ (s.queued = true ∨ s.worker = .started)
  worker : s.WorkerAgrees
  executed : ∀ x ∈ s.executed, ∃ e, s.execs[x.serial]? = some e ∧ x.cmd = execCmd e.payload
  result : s.ctx.state = .done ∨ s.ctx.state = .failed → s.HoldsResult

variable {s' : World}

theorem Fate.congr (h : Fate s n) (haccepted : s'.Accepted n ↔ s.Accepted n)
    (hpending : s'.Pending n ↔ s.Pending n) (hcanceled : n ∈ s'.canceled ↔ n ∈ s.canceled)
    (hruns : s'.timesExecuted n = s.timesExecuted n) : Fate s' n := by
  cases h with
  | refused h₁ h₂ h₃ h₄ =>
    exact .refused (haccepted.not.mpr h₁) (hpending.not.mpr h₂) (hcanceled.not.mpr h₃)
      (hruns.trans h₄)
  | pending h₁ h₂ h₃ h₄ =>
    exact .pending (haccepted.mpr h₁) (hpending.mpr h₂) (hcanceled.not.mpr h₃) (hruns.trans h₄)
  | canceled h₁ h₂ h₃ h₄ =>
    exact .canceled (haccepted.mpr h₁) (hpending.not.mpr h₂) (hcanceled.mpr h₃) (hruns.trans h₄)
  | executed h₁ h₂ h₃ h₄ =>
    exact .executed (haccepted.mpr h₁) (hpending.not.mpr h₂) (hcanceled.not.mpr h₃)
      (hruns.trans h₄)

theorem init_inv : Inv {} where
  fate n := by
    refine .refused ?_ ?_ (by simp) rfl
    · rintro ⟨e, he, -⟩
      simp at he
    · rintro ⟨-, hqueued | ⟨cmd, hworker⟩⟩
      · cases hqueued
      · cases hworker
  latest n _ := by
    rintro ⟨e, he, -⟩
    simp at he
  request h := absurd rfl h
  waiting h := by cases h
  worker := by
    show ShellState.idle ≠ .running
    decide
  executed := by simp
  result := by rintro (h | h) <;> cases h

-- ---
-- Requests

theorem handleExec_cases (ctx : Context) (queued running : Bool) (payload : List UInt8) :
    (∃ reply, handleExec ctx queued running payload = (reply, ctx, queued) ∧
        reply.cc ≠ .success) ∨
      (ctx.state ≠ .queued ∧ ctx.state ≠ .running ∧
        ∃ reply ctx', handleExec ctx queued running payload = (reply, ctx', queued) ∧
          reply.cc ≠ .success ∧ ctx'.state = .idle) ∨
      (ctx.state ≠ .queued ∧ ctx.state ≠ .running ∧
        ∃ reply ctx', handleExec ctx queued running payload = (reply, ctx', true) ∧
          reply.cc = .success ∧ ctx'.state = .queued ∧ ctx'.cancelRequested = false ∧
          ctx'.requestId = execRequestId payload ∧ ctx'.cmd = execCmd payload) := by
  unfold handleExec
  split
  · exact .inl ⟨_, rfl, by simp [Reply.cc]⟩
  dsimp only
  split
  · exact .inl ⟨_, rfl, by simp [Reply.cc]⟩
  rename_i hstate
  obtain ⟨hqueued, hrunning⟩ := not_or.mp hstate
  cases queued with
  | true => exact .inr (.inl ⟨hqueued, hrunning, _, _, rfl, by simp [Reply.cc], rfl⟩)
  | false =>
    refine .inr (.inr ⟨hqueued, hrunning, ?_⟩)
    cases running <;> exact ⟨_, _, rfl, rfl, rfl, rfl, rfl, rfl⟩

theorem World.WorkerAgrees.not_pending (h : s.WorkerAgrees) (hqueued : s.ctx.state ≠ .queued)
    (hrunning : s.ctx.state ≠ .running) : ¬ s.Pending n := by
  rintro ⟨-, hstate | ⟨cmd, hworker⟩⟩
  · exact hqueued hstate
  · rw [World.WorkerAgrees, hworker] at h
    exact hrunning h.2.2

theorem World.WorkerAgrees.of_not_running (h : s.WorkerAgrees) (hworker : s'.worker = s.worker)
    (hbefore : s.ctx.state ≠ .running) (hafter : s'.ctx.state ≠ .running) : s'.WorkerAgrees := by
  rw [World.WorkerAgrees] at h ⊢
  rw [hworker]
  split at h
  · exact absurd h.2.2 hbefore
  · exact absurd h.2.1 hbefore
  · exact hafter

theorem Inv.executed_concat (h : Inv s) (e : ExecEntry) :
    ∀ x ∈ s.executed, ∃ e', (s.execs ++ [e])[x.serial]? = some e' ∧ x.cmd = execCmd e'.payload := by
  intro x hx
  obtain ⟨e', he', hcmd⟩ := h.executed x hx
  exact ⟨e', getElem?_concat_iff.mpr (.inl he'), hcmd⟩

variable {ctx : Context}

theorem Inv.refuse {e : ExecEntry} (h : Inv s) (he : e.cc ≠ .success)
    (hctx : ctx = s.ctx ∨ s.ctx.state ≠ .queued ∧ s.ctx.state ≠ .running ∧ ctx.state = .idle) :
    Inv { s with ctx := ctx, execs := s.execs ++ [e] } := by
  have haccepted : ∀ n, World.Accepted { s with ctx := ctx, execs := s.execs ++ [e] } n ↔
      s.Accepted n := by
    intro n
    constructor
    · rintro ⟨e', he', hcc⟩
      rcases getElem?_concat_iff.mp he' with hold | ⟨-, rfl⟩
      · exact ⟨e', hold, hcc⟩
      · exact absurd hcc he
    · rintro ⟨e', he', hcc⟩
      exact ⟨e', getElem?_concat_iff.mpr (.inl he'), hcc⟩
  rcases hctx with rfl | ⟨hqueued, hrunning, hidle⟩
  · refine ⟨fun n => (h.fate n).congr (haccepted n) .rfl .rfl rfl,
      fun n hn => (haccepted n).not.mpr (h.latest n hn), fun hne => ?_, h.waiting, h.worker,
      h.executed_concat e, h.result⟩
    obtain ⟨e', he', hrest⟩ := h.request hne
    exact ⟨e', getElem?_concat_iff.mpr (.inl he'), hrest⟩
  · have hnot : ctx.state ≠ .queued ∧ ctx.state ≠ .running := by
      rw [hidle]
      decide
    have hagrees : World.WorkerAgrees { s with ctx := ctx, execs := s.execs ++ [e] } :=
      h.worker.of_not_running rfl hrunning hnot.2
    refine ⟨fun n => (h.fate n).congr (haccepted n)
        (iff_of_false (hagrees.not_pending hnot.1 hnot.2) (h.worker.not_pending hqueued hrunning))
        .rfl rfl,
      fun n hn => (haccepted n).not.mpr (h.latest n hn), fun hne => absurd hidle hne,
      fun hq => absurd hq hnot.1, hagrees, h.executed_concat e, ?_⟩
    rintro (hd | hd)
    · cases hidle.symm.trans hd
    · cases hidle.symm.trans hd

theorem Inv.accept (h : Inv s) (hqueued : s.ctx.state ≠ .queued)
    (hrunning : s.ctx.state ≠ .running) (hstate : ctx.state = .queued)
    (hcancel : ctx.cancelRequested = false) (hid : ctx.requestId = execRequestId payload)
    (hcmd : ctx.cmd = execCmd payload) :
    Inv { s with
      ctx := ctx
      queued := true
      serial := s.execs.length
      execs := s.execs ++ [⟨payload, .success⟩] } := by
  have hagrees : World.WorkerAgrees
      { s with
        ctx := ctx
        queued := true
        serial := s.execs.length
        execs := s.execs ++ [⟨payload, .success⟩] } := by
    refine h.worker.of_not_running rfl hrunning ?_
    show ctx.state ≠ .running
    rw [hstate]
    decide
  have hfresh : ¬ s.Accepted s.execs.length := by
    rintro ⟨e, he, -⟩
    simp at he
  have hnew : (s.execs ++ [(⟨payload, .success⟩ : ExecEntry)])[s.execs.length]? =
      some ⟨payload, .success⟩ := getElem?_concat_iff.mpr (.inr ⟨rfl, rfl⟩)
  refine ⟨fun n => ?_, fun n hn => ?_, fun _ => ⟨_, hnew, rfl, hid, hcmd⟩,
    fun _ => ⟨hcancel, .inl rfl⟩, hagrees, h.executed_concat _, ?_⟩
  · by_cases hn : n = s.execs.length
    · subst hn
      -- its position was not one of an EXEC before
      cases h.fate s.execs.length with
      | refused _ _ hcanceled hruns =>
        exact .pending ⟨_, hnew, rfl⟩ ⟨rfl, .inl hstate⟩ hcanceled hruns
      | pending haccepted => exact absurd haccepted hfresh
      | canceled haccepted => exact absurd haccepted hfresh
      | executed haccepted => exact absurd haccepted hfresh
    · refine (h.fate n).congr ⟨?_, ?_⟩ ?_ .rfl rfl
      · rintro ⟨e, he, hcc⟩
        exact ⟨e, (getElem?_concat_iff.mp he).resolve_right fun h' => hn h'.1, hcc⟩
      · rintro ⟨e, he, hcc⟩
        exact ⟨e, getElem?_concat_iff.mpr (.inl he), hcc⟩
      · exact iff_of_false (fun hp => hn hp.1) (h.worker.not_pending hqueued hrunning)
  · rintro ⟨e, he, -⟩
    have hlt := (List.getElem?_eq_some_iff.mp he).1
    simp only [List.length_append, List.length_singleton] at hlt hn
    omega
  · rintro (hd | hd)
    · cases hstate.symm.trans hd
    · cases hstate.symm.trans hd

theorem exec_inv (h : Inv s) : Inv (step s (.exec payload)) := by
  simp only [step]
  rcases handleExec_cases s.ctx s.queued (decide (s.worker ≠ .idle)) payload with
    ⟨reply, heq, hcc⟩ | ⟨hqueued, hrunning, reply, ctx, heq, hcc, hidle⟩ |
      ⟨hqueued, hrunning, reply, ctx, heq, hcc, hstate, hcancel, hid, hcmd⟩
  · simp only [heq, hcc, if_false]
    exact h.refuse hcc (.inl rfl)
  · simp only [heq, hcc, if_false]
    exact h.refuse hcc (.inr ⟨hqueued, hrunning, hidle⟩)
  · simp only [heq, hcc, if_true]
    exact h.accept hqueued hrunning hstate hcancel hid hcmd

theorem handleCancel_cases (ctx : Context) (payload : List UInt8) :
    (handleCancel ctx payload).2 = ctx ∨
      (ctx.state = .queued ∧ (handleCancel ctx payload).2 =
        { ctx with cancelRequested := true }.storeResult .canceled (-ecanceled) []) ∨
      (ctx.state = .running ∧ (handleCancel ctx payload).2 =
        { ctx with cancelRequested := true }) := by
  unfold handleCancel
  split
  · exact .inl rfl
  dsimp only
  split
  · exact .inl rfl
  split
  · rename_i hqueued
    exact .inr (.inl ⟨hqueued, rfl⟩)
  split
  · rename_i hrunning
    exact .inr (.inr ⟨hrunning, rfl⟩)
  · exact .inl rfl

theorem Inv.of_pending (h : Inv s) (hpending : s.Pending n) :
    s.Accepted n ∧ n ∉ s.canceled ∧ s.timesExecuted n = 0 := by
  cases h.fate n with
  | pending haccepted _ hcanceled hruns => exact ⟨haccepted, hcanceled, hruns⟩
  | refused _ hnot => exact absurd hpending hnot
  | canceled _ hnot => exact absurd hpending hnot
  | executed _ hnot => exact absurd hpending hnot

theorem Inv.cancel (h : Inv s) (hqueued : s.ctx.state = .queued) (hstate : ctx.state = .canceled)
    (hid : ctx.requestId = s.ctx.requestId) (hcmd : ctx.cmd = s.ctx.cmd) :
    Inv { s with ctx := ctx, canceled := s.canceled ++ [s.serial] } := by
  have hbefore : s.ctx.state ≠ .running := by
    rw [hqueued]
    decide
  have hafter : ctx.state ≠ .queued ∧ ctx.state ≠ .running ∧ ctx.state ≠ .done ∧
      ctx.state ≠ .failed := by
    rw [hstate]
    decide
  have hagrees : World.WorkerAgrees { s with ctx := ctx, canceled := s.canceled ++ [s.serial] } :=
    h.worker.of_not_running rfl hbefore hafter.2.1
  refine ⟨fun n => ?_, h.latest, fun _ => ?_, fun hq => absurd hq hafter.1, hagrees, h.executed, ?_⟩
  · have hnot := @World.WorkerAgrees.not_pending _ n hagrees hafter.1 hafter.2.1
    by_cases hn : n = s.serial
    · obtain ⟨haccepted, -, hruns⟩ := h.of_pending ⟨hn, .inl hqueued⟩
      exact .canceled haccepted hnot (by simp [hn]) hruns
    · exact (h.fate n).congr .rfl (iff_of_false hnot fun hp => hn hp.1) (by simp [hn]) rfl
  · obtain ⟨e, he, hcc, hid', hcmd'⟩ := h.request (by rw [hqueued]; decide)
    exact ⟨e, he, hcc, hid.trans hid', hcmd.trans hcmd'⟩
  · exact fun hd => absurd hd (not_or.mpr hafter.2.2)

theorem cancel_inv (h : Inv s) : Inv (step s (.cancel payload)) := by
  simp only [step]
  rcases handleCancel_cases s.ctx payload with heq | ⟨hqueued, heq⟩ | ⟨hrunning, heq⟩
  · have hno : ¬ (s.ctx.state = .queued ∧ s.ctx.state = .canceled) := by
      rintro ⟨h₁, h₂⟩
      cases h₁.symm.trans h₂
    simp only [heq, hno, if_false]
    exact h
  · simp only [heq, hqueued, Context.storeResult, and_self, if_true]
    exact h.cancel hqueued rfl rfl rfl
  · have hno : ¬ s.ctx.state = .queued := by
      rw [hrunning]
      decide
    simp only [heq, hno, false_and, if_false]
    exact { h with
      fate := fun n => (h.fate n).congr .rfl .rfl .rfl rfl
      waiting := fun hq => absurd hq hno }

-- ---
-- The worker

theorem Inv.move {queued : Bool} {worker : Worker} (h : Inv s)
    (hidle : s.worker = .idle ∨ s.worker = .started ∨ s.worker = .returning)
    (hworker : worker = .idle ∨ worker = .started ∨ worker = .returning)
    (hwaiting : s.ctx.state = .queued → queued = true ∨ worker = .started) :
    Inv { s with queued := queued, worker := worker } := by
  have hrunning : s.ctx.state ≠ .running := by
    have hagrees := h.worker
    rw [World.WorkerAgrees] at hagrees
    rcases hidle with hw | hw | hw <;> rwa [hw] at hagrees
  have hagrees : World.WorkerAgrees { s with queued := queued, worker := worker } := by
    rw [World.WorkerAgrees]
    rcases hworker with rfl | rfl | rfl <;> exact hrunning
  refine { h with
    fate := fun n => (h.fate n).congr .rfl ?_ .rfl rfl
    waiting := fun hq => ⟨(h.waiting hq).1, hwaiting hq⟩
    worker := hagrees }
  have hno : ∀ w : Worker, (w = .idle ∨ w = .started ∨ w = .returning) →
      ¬ ∃ cmd, w = .running n cmd := by
    rintro w hw ⟨cmd, rfl⟩
    simp at hw
  simp only [World.Pending, hno _ hidle, hno _ hworker]

theorem finish_inv (h : Inv s) : Inv (step s .finish) := by
  simp only [step]
  split
  · rename_i hworker
    refine h.move (.inr (.inr hworker)) (.inl rfl) fun hq => ?_
    refine .inl ((h.waiting hq).2.resolve_right ?_)
    rw [hworker]
    simp
  · exact h

theorem Inv.take (h : Inv s) (hqueued : s.ctx.state = .queued) :
    Inv { s with
      ctx := { s.ctx with state := .running }
      worker := .running s.serial s.ctx.cmd } := by
  refine ⟨fun n => (h.fate n).congr .rfl ⟨fun hp => ⟨hp.1, .inl hqueued⟩, ?_⟩ .rfl rfl, h.latest,
    fun _ => h.request (by rw [hqueued]; decide), ?_, ⟨rfl, rfl, rfl⟩, h.executed, ?_⟩
  · rintro ⟨rfl, -⟩
    exact ⟨rfl, .inr ⟨_, rfl⟩⟩
  · intro hq
    cases hq
  · rintro (hd | hd) <;> cases hd

theorem take_inv (h : Inv s) : Inv (step s .take) := by
  simp only [step]
  split
  · rename_i hworker
    by_cases hqueued : s.ctx.state = .queued
    · have htake : takeCommand s.ctx = ({ s.ctx with state := .running }, some s.ctx.cmd) := by
        rw [takeCommand, if_neg (not_not_intro hqueued),
          if_neg (Bool.eq_false_iff.mp (h.waiting hqueued).1)]
      simp only [htake]
      exact h.take hqueued
    · simp only [takeCommand, ne_eq, hqueued, not_false_eq_true, if_true]
      exact h.move (.inr (.inl hworker)) (.inr (.inr rfl)) fun hq => absurd hq hqueued
  · exact h

theorem timesExecuted_concat {x : Execution} :
    World.timesExecuted { s with executed := s.executed ++ [x] } n =
      s.timesExecuted n + if x.serial = n then 1 else 0 := by
  simp [World.timesExecuted, List.countP_cons]

variable {output : List UInt8} {rc : Int32}

variable {serial : ℕ}

theorem Inv.execute {cmd : List UInt8} (h : Inv s) (hworker : s.worker = .running serial cmd) :
    Inv { s with
      worker := .executed serial rc output
      executed := s.executed ++ [⟨serial, cmd, rc, output⟩] } := by
  have hagrees := h.worker
  rw [World.WorkerAgrees, hworker] at hagrees
  obtain ⟨rfl, rfl, hrunning⟩ := hagrees
  have hqueued : s.ctx.state ≠ .queued := by
    rw [hrunning]
    decide
  refine ⟨fun n => ?_, h.latest, h.request, fun hq => absurd hq hqueued,
    ⟨rfl, hrunning, _, List.mem_append_right _ (List.mem_singleton_self _), rfl, rfl, rfl⟩,
    fun x hx => ?_, fun hd => ?_⟩
  · have hnot : ¬ World.Pending
        { s with
          worker := .executed s.serial rc output
          executed := s.executed ++ [⟨s.serial, s.ctx.cmd, rc, output⟩] } n := by
      rintro ⟨-, hq | ⟨cmd, hw⟩⟩
      · exact hqueued hq
      · cases hw
    by_cases hn : n = s.serial
    · obtain ⟨haccepted, hcanceled, hruns⟩ := h.of_pending ⟨hn, .inr ⟨_, hn ▸ hworker⟩⟩
      refine .executed haccepted hnot hcanceled ?_
      refine (@timesExecuted_concat s n _).trans ?_
      rw [hruns, if_pos hn.symm]
    · refine (h.fate n).congr .rfl (iff_of_false hnot fun hp => hn hp.1) .rfl ?_
      refine (@timesExecuted_concat s n _).trans ?_
      rw [if_neg (Ne.symm hn), Nat.add_zero]
  · rcases List.mem_append.mp hx with hold | hnew
    · exact h.executed x hold
    · rw [List.mem_singleton.mp hnew]
      obtain ⟨e, he, -, -, hcmd⟩ := h.request (by rw [hrunning]; decide)
      exact ⟨e, he, hcmd⟩
  · rcases hd with hd | hd
    · cases hrunning.symm.trans hd
    · cases hrunning.symm.trans hd

theorem putResult_cases (ctx : Context) (rc : Int32) (output : List UInt8) :
    putResult ctx rc output = ctx.storeResult .canceled (-ecanceled) [] ∨
      putResult ctx rc output = ctx.storeResult .done rc output ∨
      putResult ctx rc output = ctx.storeResult .failed rc output := by
  unfold putResult
  split
  · exact .inl rfl
  split
  · exact .inr (.inl rfl)
  · exact .inr (.inr rfl)

variable {state : ShellState}

theorem read_storeResult :
    (ctx.storeResult state rc output).output.read 0 (ctx.storeResult state rc output).outputLen =
      output.take shellMaxOutputLen := by
  show (ctx.output.program 0 (output.take (min output.length shellMaxOutputLen))).read 0
    (min output.length shellMaxOutputLen) = _
  refine (Flash.read_program (k := 0) (by rw [List.length_take]; omega)).trans ?_
  rw [List.drop_zero, List.take_take, Nat.min_self, List.take_eq_take_iff]
  omega

theorem Inv.put {rc' : Int32} {output' : List UInt8} (h : Inv s)
    (hworker : s.worker = .executed serial rc output)
    (hstate : state = .canceled ∨ (state = .done ∨ state = .failed) ∧ rc' = rc ∧ output' = output) :
    Inv { s with ctx := s.ctx.storeResult state rc' output', worker := .returning } := by
  have hagrees := h.worker
  rw [World.WorkerAgrees, hworker] at hagrees
  obtain ⟨rfl, hrunning, x, hx, hserial, rfl, rfl⟩ := hagrees
  have hqueued : s.ctx.state ≠ .queued := by
    rw [hrunning]
    decide
  have hafter : state ≠ .queued ∧ state ≠ .running := by
    rcases hstate with rfl | ⟨rfl | rfl, -⟩ <;> decide
  refine ⟨fun n => (h.fate n).congr .rfl (iff_of_false ?_ ?_) .rfl rfl, h.latest,
    fun _ => h.request (by rw [hrunning]; decide), fun hq => absurd hq hafter.1, hafter.2,
    h.executed, fun hd => ?_⟩
  · rintro ⟨-, hq | ⟨cmd, hw⟩⟩
    · exact hafter.1 hq
    · cases hw
  · rintro ⟨-, hq | ⟨cmd, hw⟩⟩
    · exact hqueued hq
    · cases hworker.symm.trans hw
  · rcases hstate with rfl | ⟨-, rfl, rfl⟩
    · rcases hd with hd | hd <;> cases hd
    · exact ⟨x, hx, hserial, rfl, rfl, read_storeResult⟩

theorem put_inv (h : Inv s) : Inv (step s .put) := by
  simp only [step]
  split
  · rename_i serial rc output hworker
    rcases putResult_cases s.ctx rc output with heq | heq | heq
    · rw [heq]
      exact h.put hworker (.inl rfl)
    · rw [heq]
      exact h.put hworker (.inr ⟨.inl rfl, rfl, rfl⟩)
    · rw [heq]
      exact h.put hworker (.inr ⟨.inr rfl, rfl, rfl⟩)
  · exact h

theorem step_inv (h : Inv s) (a : Action) : Inv (step s a) := by
  cases a with
  | exec payload => exact exec_inv h
  | getResult payload => exact h
  | cancel payload => exact cancel_inv h
  | dequeue =>
    simp only [step]
    split
    · rename_i hguard
      exact h.move (.inl hguard.1) (.inr (.inl rfl)) fun _ => .inr rfl
    · exact h
  | take => exact take_inv h
  | execute outcome =>
    simp only [step]
    split
    · rename_i serial cmd hworker
      exact h.execute hworker
    · exact h
  | put => exact put_inv h
  | finish => exact finish_inv h

theorem run_inv (h : Inv s) (actions : List Action) : Inv (run s actions) := by
  induction actions generalizing s with
  | nil => exact h
  | cons a actions ih => exact ih (step_inv h a)

theorem Inv.drained (h : Inv s) (hdrained : s.Drained) : ¬ s.Pending n := by
  obtain ⟨hqueue, hworker⟩ := hdrained
  rintro ⟨-, hq | ⟨cmd, hw⟩⟩
  · rcases (h.waiting hq).2 with hqueued | hstarted
    · exact absurd (hqueue.symm.trans hqueued) Bool.false_ne_true
    · cases hworker.symm.trans hstarted
  · cases hworker.symm.trans hw

end SystemFirmware.PldmOem
