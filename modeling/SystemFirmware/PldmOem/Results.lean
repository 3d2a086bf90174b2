import SystemFirmware.PldmOem.ExactlyOnce

/-!
# OEM shell commands — reading results

A result stays as it is until the next EXEC, so a client that follows the chunks of
GET_RESULT reads it whole, whatever else happens in between (`readResult_eq`).
-/

namespace SystemFirmware.PldmOem

open Lib

variable {s : World} {n offset fuel : ℕ} {requestId : UInt16} {maxLen : UInt8} {ctx : Context}

-- ---
-- One request

def Context.HasOutput (ctx : Context) : Prop := ctx.state = .done ∨ ctx.state = .failed

def chunkAllowed (maxLen : UInt8) : ℕ :=
  if maxLen.toNat ≠ 0 then min shellMaxChunkLen maxLen.toNat else shellMaxChunkLen

theorem chunkAllowed_pos : 0 < chunkAllowed maxLen := by
  rw [chunkAllowed, shellMaxChunkLen]
  split <;> omega

theorem handleGetResult_eq (hstate : ctx.HasOutput) (hlen : ctx.outputLen ≤ shellMaxOutputLen)
    (hoffset : offset ≤ ctx.outputLen) :
    handleGetResult ctx (getResultPayload ctx.requestId offset maxLen) = .result
      { requestId := ctx.requestId
        state := ctx.state
        shellRc := ctx.shellRc
        totalLen := ctx.outputLen
        offset := offset
        chunk := ctx.output.read offset (min (ctx.outputLen - offset) (chunkAllowed maxLen))
        more := decide (offset + min (ctx.outputLen - offset) (chunkAllowed maxLen) <
          ctx.outputLen) } := by
  have hid : ofLe16 ((getResultPayload ctx.requestId offset maxLen).take 2) = ctx.requestId :=
    ofLe16_le16
  have hoff : (ofLe16 (((getResultPayload ctx.requestId offset maxLen).drop 2).take 2)).toNat =
      offset := by
    show (ofLe16 (le16 (UInt16.ofNat offset))).toNat = offset
    rw [shellMaxOutputLen] at hlen
    rw [ofLe16_le16, UInt16.toNat_ofNat']
    omega
  have hmax : ((getResultPayload ctx.requestId offset maxLen)[4]?.getD 0) = maxLen := rfl
  have hsize : (getResultPayload ctx.requestId offset maxLen).length = 5 := rfl
  have htotal : min ctx.outputLen 65535 = ctx.outputLen := by
    rw [shellMaxOutputLen] at hlen
    omega
  have hidle : ¬ (ctx.state = .idle ∨ ctx.requestId ≠ ctx.requestId) := by
    rcases hstate with h | h <;> simp [h]
  rw [handleGetResult, if_neg (not_not_intro hsize)]
  simp only [hid, hoff, hmax, htotal, if_neg hidle, if_neg (Nat.not_lt.mpr hoffset), chunkAllowed]
  rw [Context.HasOutput] at hstate
  simp only [hstate, if_true]
  rfl

theorem handleGetResult_chunk {payload : List UInt8} {r : Result}
    (h : handleGetResult ctx payload = .result r) :
    r.requestId = ofLe16 (payload.take 2) ∧ r.requestId = ctx.requestId ∧ r.shellRc = ctx.shellRc ∧
      r.chunk = ((ctx.output.read 0 ctx.outputLen).drop r.offset).take r.chunk.length := by
  rw [handleGetResult] at h
  split at h
  · cases h
  dsimp only at h
  split at h
  · cases h
  rename_i hvalid
  split at h
  · cases h
  obtain rfl := Reply.result.inj h
  refine ⟨rfl, (Decidable.not_not.mp (not_or.mp hvalid).2).symm, rfl, ?_⟩
  dsimp only
  rw [Flash.length_read, Flash.drop_read, Nat.zero_add, Flash.take_read (by split <;> omega)]

-- ---
-- Until the next EXEC

def Action.NoExec : Action → Prop
  | .exec payload => execLengthOk payload = false
  | _ => True

theorem step_keeps_result {a : Action} (h : Inv s) (hstate : s.ctx.HasOutput) (ha : a.NoExec) :
    (step s a).ctx = s.ctx := by
  have hqueued : s.ctx.state ≠ .queued := by rcases hstate with hs | hs <;> simp [hs]
  have hrunning : s.ctx.state ≠ .running := by rcases hstate with hs | hs <;> simp [hs]
  cases a with
  | exec payload =>
    have hlength : execLengthOk payload = false := ha
    simp only [step, handleExec, hlength, Bool.not_false, if_true]
  | getResult payload => rfl
  | cancel payload =>
    rcases handleCancel_cases s.ctx payload with heq | ⟨hq, -⟩ | ⟨hr, -⟩
    · exact heq
    · exact absurd hq hqueued
    · exact absurd hr hrunning
  | dequeue =>
    simp only [step]
    split <;> rfl
  | take =>
    have htake : takeCommand s.ctx = (s.ctx, none) := by rw [takeCommand, if_pos hqueued]
    simp only [step, htake]
    split <;> rfl
  | execute outcome =>
    simp only [step]
    split <;> rfl
  | put =>
    simp only [step]
    split
    · rename_i hworker
      have hagrees := h.worker
      rw [World.WorkerAgrees, hworker] at hagrees
      exact absurd hagrees.2.1 hrunning
    · rfl
  | finish =>
    simp only [step]
    split <;> rfl

theorem run_keeps_result {actions : List Action} (h : Inv s) (hstate : s.ctx.HasOutput)
    (hactions : ∀ a ∈ actions, a.NoExec) : (run s actions).ctx = s.ctx := by
  induction actions generalizing s with
  | nil => rfl
  | cons a actions ih =>
    have hstep := step_keeps_result h hstate (hactions a List.mem_cons_self)
    have hrest := ih (step_inv h a) (hstep.symm ▸ hstate)
      (fun b hb => hactions b (List.mem_cons_of_mem _ hb))
    exact hrest.trans hstep

theorem readResult_eq {meanwhile : ℕ → List Action} (h : Inv s) (hstate : s.ctx.HasOutput)
    (hlen : s.ctx.outputLen ≤ shellMaxOutputLen) (hoffset : offset ≤ s.ctx.outputLen)
    (hmeanwhile : ∀ k, ∀ a ∈ meanwhile k, a.NoExec) (hfuel : s.ctx.outputLen - offset < fuel) :
    readResult s.ctx.requestId maxLen meanwhile fuel s offset =
      some (s.ctx.output.read offset (s.ctx.outputLen - offset)) := by
  induction fuel generalizing s offset with
  | zero => omega
  | succ fuel ih =>
    have hpos := @chunkAllowed_pos maxLen
    have hkeeps := run_keeps_result h hstate (hmeanwhile fuel)
    rw [readResult]
    simp only [hkeeps, handleGetResult_eq hstate hlen hoffset, Flash.length_read, decide_eq_true_eq]
    obtain ⟨k, hk⟩ : ∃ k, k = min (s.ctx.outputLen - offset) (chunkAllowed maxLen) := ⟨_, rfl⟩
    rw [← hk]
    split
    · have hrest := @ih (run s (meanwhile fuel)) (offset + k) (run_inv h _)
        (hkeeps.symm ▸ hstate) (hkeeps.symm ▸ hlen) (by rw [hkeeps]; omega) (by rw [hkeeps]; omega)
      rw [hkeeps] at hrest
      rw [hrest, Option.map_eq_map, Option.map_some, Flash.read_append]
      congr 2
      omega
    · congr 2
      omega

-- ---
-- The record

theorem step_record (a : Action) :
    s.execs <+: (step s a).execs ∧ s.canceled <+: (step s a).canceled := by
  cases a with
  | exec payload => exact ⟨List.prefix_append .., List.prefix_rfl⟩
  | getResult payload => exact ⟨List.prefix_rfl, List.prefix_rfl⟩
  | cancel payload =>
    refine ⟨List.prefix_rfl, ?_⟩
    simp only [step]
    split
    · exact List.prefix_append ..
    · exact List.prefix_rfl
  | dequeue | take | execute outcome | put | finish =>
    simp only [step]
    split <;> exact ⟨List.prefix_rfl, List.prefix_rfl⟩

theorem run_record (actions : List Action) :
    s.execs <+: (run s actions).execs ∧ s.canceled <+: (run s actions).canceled := by
  induction actions generalizing s with
  | nil => exact ⟨List.prefix_rfl, List.prefix_rfl⟩
  | cons a actions ih =>
    obtain ⟨hexecs, hcanceled⟩ := @step_record s a
    exact ⟨hexecs.trans ih.1, hcanceled.trans ih.2⟩

theorem Inv.times_le_one (h : Inv s) : s.timesExecuted n ≤ 1 := by
  cases h.fate n with
  | refused _ _ _ hruns | pending _ _ _ hruns | canceled _ _ _ hruns =>
    rw [hruns]
    exact Nat.zero_le 1
  | executed _ _ _ hruns => exact Nat.le_of_eq hruns

theorem Inv.times_of_drained (h : Inv s) (hdrained : s.Drained) (haccepted : s.Accepted n)
    (hcanceled : n ∉ s.canceled) : s.timesExecuted n = 1 := by
  cases h.fate n with
  | refused hrefused => exact absurd haccepted hrefused
  | pending _ hpending => exact absurd hpending (h.drained hdrained)
  | canceled _ _ hmem => exact absurd hmem hcanceled
  | executed _ _ _ hruns => exact hruns

theorem Inv.times_of_canceled (h : Inv s) (hcanceled : n ∈ s.canceled) :
    s.timesExecuted n = 0 := by
  cases h.fate n with
  | refused _ _ _ hruns | pending _ _ _ hruns | canceled _ _ _ hruns => exact hruns
  | executed _ _ hnot => exact absurd hcanceled hnot

theorem Inv.times_of_refused (h : Inv s) (hrefused : ¬ s.Accepted n) :
    s.timesExecuted n = 0 := by
  cases h.fate n with
  | refused _ _ _ hruns => exact hruns
  | pending haccepted | canceled haccepted | executed haccepted => exact absurd haccepted hrefused

/-- **Accepted commands run exactly once**, in the state `s` after any interleaving of requests
with the steps of the worker and any continuation `later` of it.

* An accepted command is executed at most once, and exactly once when the queue has drained,
  unless a CANCEL moved it from QUEUED to CANCELED; then it is never executed, nor is a command
  that was refused. What is executed is what the EXEC asked for.
* In state DONE or FAILED, GET_RESULT returns the return code and output of the last accepted
  command, to requests with its id.
* A client that follows the chunks, with any `max_len` and anything but another EXEC in between,
  has the first 256 bytes of the output after at most 257 requests. -/
theorem shell_commands_exactly_once (actions later : List Action) (s : World)
    (hs : s = run {} actions) :
    (∀ n, s.Accepted n → s.timesExecuted n ≤ 1 ∧
        (s.Drained → n ∉ s.canceled → s.timesExecuted n = 1)) ∧
      (∀ n ∈ s.canceled, (run s later).timesExecuted n = 0) ∧
      (∀ n e, s.execs[n]? = some e → e.cc ≠ .success → (run s later).timesExecuted n = 0) ∧
      (∀ x ∈ s.executed, ∃ e, s.execs[x.serial]? = some e ∧ x.cmd = execCmd e.payload) ∧
      (s.ctx.state = .done ∨ s.ctx.state = .failed →
        ∃ n e x, s.execs[n]? = some e ∧ e.cc = .success ∧ (∀ m, n < m → ¬ s.Accepted m) ∧
          x ∈ s.executed ∧ x.serial = n ∧
          (∀ payload r, handleGetResult s.ctx payload = .result r →
            ofLe16 (payload.take 2) = execRequestId e.payload ∧ r.shellRc = x.rc ∧
              r.chunk = ((x.output.take shellMaxOutputLen).drop r.offset).take r.chunk.length) ∧
          ∀ (maxLen : UInt8) (meanwhile : ℕ → List Action),
            (∀ k, ∀ a ∈ meanwhile k, a.NoExec) →
            readResult (execRequestId e.payload) maxLen meanwhile (shellMaxOutputLen + 1) s 0 =
              some (x.output.take shellMaxOutputLen)) := by
  have hinv : Inv s := hs ▸ run_inv init_inv actions
  have hlater := run_inv hinv later
  obtain ⟨hexecs, hcanceled⟩ := @run_record s later
  refine ⟨fun n haccepted => ⟨hinv.times_le_one, fun hdrained =>
      hinv.times_of_drained hdrained haccepted⟩,
    fun n hn => hlater.times_of_canceled (hcanceled.subset hn), fun n e he hcc => ?_,
    hinv.executed, fun hstate => ?_⟩
  · refine hlater.times_of_refused ?_
    rintro ⟨e', he', hsuccess⟩
    obtain ⟨rest, hrest⟩ := hexecs
    rw [← hrest, List.getElem?_append_left (List.getElem?_eq_some_iff.mp he).1, he] at he'
    obtain rfl := Option.some.inj he'
    exact hcc hsuccess
  · obtain ⟨e, he, hcc, hid, -⟩ := hinv.request (by rcases hstate with h | h <;> simp [h])
    obtain ⟨x, hx, hserial, hrc, hlen, houtput⟩ := hinv.result hstate
    refine ⟨s.serial, e, x, he, hcc, hinv.latest, hx, hserial, fun payload r hr => ?_,
      fun maxLen meanwhile hmeanwhile => ?_⟩
    · obtain ⟨hpayload, hctx, hrc', hchunk⟩ := handleGetResult_chunk hr
      rw [houtput] at hchunk
      exact ⟨hpayload.symm.trans (hctx.trans hid), hrc'.trans hrc, hchunk⟩
    · have hbound : s.ctx.outputLen ≤ shellMaxOutputLen := hlen ▸ Nat.min_le_right ..
      have hread := @readResult_eq s 0 (shellMaxOutputLen + 1) maxLen meanwhile hinv hstate hbound
        (Nat.zero_le _) hmeanwhile (by omega)
      rwa [hid, Nat.sub_zero, houtput] at hread

def canceledThenRun : List Action :=
  [ .exec [7, 0, 2, 0x6C, 0x73], .dequeue, .cancel [7, 0], .exec [8, 0, 2, 0x70, 0x73], .take,
    .execute (some (0, [0x6F, 0x6B])), .put, .finish, .dequeue, .take, .finish ]

theorem canceledThenRun_exactly_once :
    (run {} canceledThenRun).timesExecuted 0 = 0 ∧ (run {} canceledThenRun).timesExecuted 1 = 1 := by
  obtain ⟨haccepted, hcanceled, -⟩ :=
    shell_commands_exactly_once canceledThenRun [] (run {} canceledThenRun) rfl
  exact ⟨hcanceled 0 (by decide), (haccepted 1 ⟨_, rfl, rfl⟩).2 ⟨rfl, rfl⟩ (by decide)⟩

end SystemFirmware.PldmOem
