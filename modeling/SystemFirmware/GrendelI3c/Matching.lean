import SystemFirmware.GrendelI3c.Definitions

/-!
# GrendelI3c — whose response is it?

A response is matched to a command by its opcode alone, and the last response stays to be
read until the next one is written. If the response or an execution of an earlier command
with the same opcode is still about, `tt_grendel_i3c_run_cmd` takes its result for its own
(`stale_response_accepted`); otherwise it returns its own (`result_belongs`).
-/

namespace SystemFirmware.GrendelI3c

open Lib

-- ---
-- Frames and answers

theorem padPayload_length {payload : List UInt8} (h : payload.length ≤ cmdPayloadMaxLen) :
    (padPayload payload).length = cmdPayloadMaxLen := by
  rw [padPayload, List.length_append, List.length_replicate]
  omega

theorem deliver_eq {t : Target} {bytes : List UInt8} (hrx : t.rxFrame = [])
    (hshort : bytes.length ≤ frameLen) :
    deliver t bytes = if bytes.length = frameLen then { t with
      pendingOpcode := bytes.getD 0 0, pendingPayload := bytes.drop 1, queued := true } else t := by
  obtain ⟨rx, opcode, payload, queued, work, response⟩ := t
  obtain rfl : rx = [] := hrx
  have hlen : bytes.length = 0 ∨ bytes.length = 1 ∨ bytes.length = 2 := by
    simp only [frameLen, cmdPayloadMaxLen] at hshort
    omega
  obtain h | h | h := hlen
  · rw [List.length_eq_zero_iff] at h
    rw [h]
    rfl
  · obtain ⟨a, rfl⟩ := List.length_eq_one_iff.mp h
    rfl
  · obtain ⟨a, b, rfl⟩ := List.length_eq_two.mp h
    rfl

theorem pollResult_zero {buf : Option (List UInt8)} {opcode : UInt8} {expired : Bool}
    (h : pollResult buf opcode expired = some 0) :
    ∃ bytes, buf = some bytes ∧ bytes.getD 1 0 = opcode ∧ bytes.getD 0 0 = resultOk := by
  cases buf with
  | none =>
    simp only [pollResult, readResponse] at h
    split at h
    · exact absurd (Option.some.inj h) (by decide)
    · cases h
  | some bytes =>
    simp only [pollResult, readResponse] at h
    by_cases hopcode : bytes.getD 1 0 = opcode
    · by_cases hresult : bytes.getD 0 0 = resultOk
      · exact ⟨bytes, rfl, hopcode, hresult⟩
      · simp only [hopcode, hresult, ne_eq, not_true, not_false_eq_true, if_true, if_false] at h
        exact absurd (Option.some.inj h) (by decide)
    · simp only [hopcode, ne_eq, not_false_eq_true, if_true] at h
      split at h
      · exact absurd (Option.some.inj h) (by decide)
      · cases h

-- ---
-- What one step does

section

variable {numD2ds : ℕ} {w w' : World}

theorem step_runCmd {opcode : UInt8} {payload : List UInt8} {write : Write}
    (h : step numD2ds w (.runCmd opcode payload write) = some w') :
    w.controller = .idle ∧ payload.length ≤ cmdPayloadMaxLen ∧
      w' = runCmd w opcode payload write := by
  simp only [step] at h
  split at h
  · cases h
  · rename_i hidle
    split at h
    · rename_i hlen
      exact ⟨hidle, hlen, (Option.some.inj h).symm⟩
    · cases h

theorem step_poll {read expired : Bool} (h : step numD2ds w (.poll read expired) = some w') :
    ∃ c, w.controller = .polling c ∧ (w' = w ∨ ∃ ret,
      (ret = 0 → ∃ r, w.target.lastResponse = some r ∧ r.opcode = c.opcode ∧ r.result = resultOk) ∧
      w' = { w with controller := .idle, returns := w.returns ++ [(c, ret)] }) := by
  simp only [step] at h
  split at h
  · cases h
  · rename_i c hpolling
    refine ⟨c, hpolling, ?_⟩
    split at h
    · exact .inl (Option.some.inj h).symm
    · rename_i ret hret
      refine .inr ⟨ret, ?_, (Option.some.inj h).symm⟩
      rintro rfl
      obtain ⟨bytes, hbuf, hopcode, hresult⟩ := pollResult_zero hret
      split at hbuf
      · obtain ⟨r, hr, rfl⟩ := Option.map_eq_some_iff.mp hbuf
        exact ⟨r, hr, hopcode, hresult⟩
      · cases hbuf

theorem step_interrupt (h : step numD2ds w .interrupt = some w') :
    ∃ x later, w.wire = x :: later ∧ w' = { w with
      wire := later
      target := deliver w.target x.bytes
      arrived := if x.bytes.length = frameLen then w.arrived ++ [x.command] else w.arrived } := by
  simp only [step] at h
  split at h
  · cases h
  · rename_i x later hwire
    exact ⟨x, later, hwire, (Option.some.inj h).symm⟩

theorem step_workStart (h : step numD2ds w .workStart = some w') :
    w.target.queued = true ∧
      w' = { w with target := { w.target with queued := false, work := .starting } } := by
  simp only [step] at h
  split at h
  · rename_i hqueued
    exact ⟨hqueued.1, (Option.some.inj h).symm⟩
  · cases h

theorem step_workOpcode (h : step numD2ds w .workOpcode = some w') :
    w.target.work = .starting ∧ w' = { w with
      target := { w.target with work := .running w.target.pendingOpcode w.arrived } } := by
  simp only [step] at h
  split at h
  · rename_i hwork
    exact ⟨hwork, (Option.some.inj h).symm⟩
  · cases h

theorem step_workPayload (h : step numD2ds w .workPayload = some w') :
    ∃ opcode arrived, w.target.work = .running opcode arrived ∧ w' = { w with
      target := { w.target with work := .called ⟨opcode, w.target.pendingPayload, arrived⟩ } } := by
  simp only [step] at h
  split at h
  · rename_i opcode arrived hwork
    exact ⟨opcode, arrived, hwork, (Option.some.inj h).symm⟩
  · cases h

theorem step_workDone {r : D2dResults} (h : step numD2ds w (.workDone r) = some w') :
    ∃ d ret, w.target.work = .called d ∧ w' = { w with
      target := { w.target with work := .answering d.opcode ret }
      dispatches := w.dispatches ++ [(d, ret)] } := by
  simp only [step] at h
  split at h
  · rename_i d hwork
    exact ⟨d, _, hwork, (Option.some.inj h).symm⟩
  · cases h

theorem step_workAnswer {written : Bool} (h : step numD2ds w (.workAnswer written) = some w') :
    ∃ opcode ret, w.target.work = .answering opcode ret ∧ w' = { w with
      target := { w.target with
        work := .idle
        lastResponse := if written then
          some ⟨if ret = 0 then resultOk else resultNotOk, opcode⟩ else w.target.lastResponse } } := by
  simp only [step] at h
  split at h
  · rename_i opcode ret hwork
    exact ⟨opcode, ret, hwork, (Option.some.inj h).symm⟩
  · cases h

end

-- ---
-- Invariants of every run

structure WellFormed (w : World) : Prop where
  rxFrame : w.target.rxFrame = []
  short : ∀ x ∈ w.wire, x.bytes.length ≤ frameLen
  polling : ∀ c, w.controller = .polling c → c.number < w.calls
  returned : ∀ r ∈ w.returns, r.1.number < w.calls

theorem start_wellFormed : WellFormed World.start where
  rxFrame := rfl
  short := fun _ h => by cases h
  polling := fun _ h => by cases h
  returned := fun _ h => by cases h

section

variable {numD2ds : ℕ} {w w' : World}

theorem runCmd_wellFormed {opcode : UInt8} {payload : List UInt8} {write : Write}
    (h : WellFormed w) (hidle : w.controller = .idle) (hlen : payload.length ≤ cmdPayloadMaxLen) :
    WellFormed (runCmd w opcode payload write) := by
  have hframe : (opcode :: padPayload payload).length = frameLen := by
    rw [List.length_cons, padPayload_length hlen]
    rfl
  have hreturned : ∀ r ∈ w.returns, r.1.number < w.calls + 1 := fun r hr =>
    Nat.lt_succ_of_lt (h.returned r hr)
  have hconcat : ∀ ret, ∀ r ∈ w.returns ++ [((⟨w.calls, opcode, padPayload payload⟩ : Command), ret)],
      r.1.number < w.calls + 1 := by
    intro ret r hr
    obtain hr | hr := List.mem_append.mp hr
    · exact hreturned r hr
    · rw [List.mem_singleton.mp hr]
      exact Nat.lt_succ_self _
  have hnone : ∀ c, w.controller = .polling c → c.number < w.calls + 1 := by
    intro c hc
    rw [hidle] at hc
    cases hc
  cases write with
  | noTarget => exact ⟨h.rxFrame, h.short, hnone, hconcat _⟩
  | failed bytes =>
    refine ⟨h.rxFrame, ?_, hnone, hconcat _⟩
    intro x hx
    obtain hx | hx := List.mem_append.mp hx
    · exact h.short x hx
    · rw [List.mem_singleton.mp hx, ← hframe]
      exact List.length_take_le' _ _
  | written =>
    refine ⟨h.rxFrame, ?_, ?_, hreturned⟩
    · intro x hx
      obtain hx | hx := List.mem_append.mp hx
      · exact h.short x hx
      · rw [List.mem_singleton.mp hx]
        exact Nat.le_of_eq hframe
    · intro c hc
      obtain rfl := Controller.polling.inj hc
      exact Nat.lt_succ_self _

theorem step_wellFormed {a : Action} (h : WellFormed w) (hstep : step numD2ds w a = some w') :
    WellFormed w' := by
  cases a with
  | runCmd opcode payload write =>
    obtain ⟨hidle, hlen, rfl⟩ := step_runCmd hstep
    exact runCmd_wellFormed h hidle hlen
  | poll read expired =>
    obtain ⟨c, hpolling, rfl | ⟨ret, -, rfl⟩⟩ := step_poll hstep
    · exact h
    · refine ⟨h.rxFrame, h.short, fun _ hc => (by cases hc), ?_⟩
      intro r hr
      obtain hr | hr := List.mem_append.mp hr
      · exact h.returned r hr
      · rw [List.mem_singleton.mp hr]
        exact h.polling c hpolling
  | interrupt =>
    obtain ⟨x, later, hwire, rfl⟩ := step_interrupt hstep
    refine ⟨rfl, ?_, h.polling, h.returned⟩
    intro y hy
    exact h.short y (by rw [hwire]; exact List.mem_cons_of_mem _ hy)
  | workStart =>
    obtain ⟨-, rfl⟩ := step_workStart hstep
    exact ⟨h.rxFrame, h.short, h.polling, h.returned⟩
  | workOpcode =>
    obtain ⟨-, rfl⟩ := step_workOpcode hstep
    exact ⟨h.rxFrame, h.short, h.polling, h.returned⟩
  | workPayload =>
    obtain ⟨_, _, -, rfl⟩ := step_workPayload hstep
    exact ⟨h.rxFrame, h.short, h.polling, h.returned⟩
  | workDone r =>
    obtain ⟨_, _, -, rfl⟩ := step_workDone hstep
    exact ⟨h.rxFrame, h.short, h.polling, h.returned⟩
  | workAnswer written =>
    obtain ⟨_, _, -, rfl⟩ := step_workAnswer hstep
    exact ⟨h.rxFrame, h.short, h.polling, h.returned⟩

end

-- ---
-- The three phases of a command

def Work.opcode : Work → Option UInt8
  | .idle => none
  | .starting => none
  | .running opcode _ => some opcode
  | .called d => some d.opcode
  | .answering opcode _ => some opcode

/-- The opcode is in no last response, and in no execution under way, queued or still to arrive. -/
structure Unclaimed (opcode : UInt8) (wire : List Transfer) (t : Target) : Prop where
  wire : ∀ x ∈ wire, x.bytes.head? ≠ some opcode
  pending : t.queued = true ∨ t.work = .starting → t.pendingOpcode ≠ opcode
  work : t.work.opcode ≠ some opcode
  response : t.lastResponse.map Response.opcode ≠ some opcode

/-- A dispatch of the command's opcode and payload that started after its frame had arrived has
returned success. -/
def Executed (c : Command) (dispatches : List (Dispatch × Int)) : Prop :=
  ∃ d, (d, 0) ∈ dispatches ∧ d.opcode = c.opcode ∧ d.payload = c.payload ∧ c.number ∈ d.arrived

theorem Executed.append {c : Command} {dispatches more : List (Dispatch × Int)}
    (h : Executed c dispatches) : Executed c (dispatches ++ more) := by
  obtain ⟨d, hd, hours⟩ := h
  exact ⟨d, List.mem_append_left _ hd, hours⟩

/-- The work item, if it runs the command's opcode, runs the command. -/
def OwnWork (c : Command) (dispatches : List (Dispatch × Int)) : Work → Prop
  | .idle => True
  | .starting => True
  | .running opcode arrived => opcode = c.opcode → c.number ∈ arrived
  | .called d => d.opcode = c.opcode → d.payload = c.payload ∧ c.number ∈ d.arrived
  | .answering opcode ret => opcode = c.opcode → ret = 0 → Executed c dispatches

/-- The frame is on the wire, behind others. -/
structure Waiting (c : Command) (w : World) : Prop where
  polling : w.controller = .polling c
  whole : c.frame.length = frameLen
  unclaimed : ∃ ahead, w.wire = ahead ++ [⟨c.number, c.frame⟩] ∧
    Unclaimed c.opcode ahead w.target

/-- The frame has arrived, and none is behind it. -/
structure Served (c : Command) (w : World) : Prop where
  polling : w.controller = .polling c
  wire : w.wire = []
  payload : w.target.pendingPayload = c.payload
  arrived : c.number ∈ w.arrived
  work : OwnWork c w.dispatches w.target.work
  response : ∀ r, w.target.lastResponse = some r → r.opcode = c.opcode → r.result = resultOk →
    Executed c w.dispatches

structure Returned (c : Command) (w : World) : Prop where
  issued : c.number < w.calls
  polling : ∀ c', w.controller = .polling c' → c'.number ≠ c.number
  result : (c, 0) ∈ w.returns → Executed c w.dispatches

def Tracked (c : Command) (w : World) : Prop :=
  (c.number < w.calls ∧ (∀ ret, (c, ret) ∉ w.returns) ∧ (Waiting c w ∨ Served c w)) ∨ Returned c w

section

variable {numD2ds : ℕ} {w w' : World} {c : Command}

variable {opcode : UInt8} {t : Target}

theorem Unclaimed.interrupt {x : Transfer} {later : List Transfer}
    (h : Unclaimed opcode (x :: later) t) (hrx : t.rxFrame = [])
    (hshort : x.bytes.length ≤ frameLen) : Unclaimed opcode later (deliver t x.bytes) := by
  have hlater : ∀ y ∈ later, y.bytes.head? ≠ some opcode := fun y hy =>
    h.wire y (List.mem_cons_of_mem _ hy)
  rw [deliver_eq hrx hshort]
  split
  · rename_i hframe
    refine ⟨hlater, fun _ => ?_, h.work, h.response⟩
    have hhead := h.wire x List.mem_cons_self
    cases hbytes : x.bytes with
    | nil =>
      rw [hbytes] at hframe
      cases hframe
    | cons b bytes =>
      rw [hbytes] at hhead
      intro heq
      exact hhead (congrArg some heq)
  · exact ⟨hlater, h.pending, h.work, h.response⟩

theorem Unclaimed.moveOn {opcode : UInt8} {wire : List Transfer} {t : Target} {work : Work}
    (h : Unclaimed opcode wire t) (hstarted : work ≠ .starting)
    (hwork : work.opcode ≠ some opcode) : Unclaimed opcode wire { t with work := work } := by
  refine ⟨h.wire, ?_, hwork, h.response⟩
  intro hpending
  obtain hqueued | hstarting := hpending
  · exact h.pending (.inl hqueued)
  · exact absurd hstarting hstarted

theorem OwnWork.of_other {dispatches : List (Dispatch × Int)} {work : Work}
    (h : work.opcode ≠ some c.opcode) : OwnWork c dispatches work := by
  cases work with
  | idle => trivial
  | starting => trivial
  | running opcode arrived => exact fun heq => absurd (congrArg some heq) h
  | called d => exact fun heq => absurd (congrArg some heq) h
  | answering opcode ret => exact fun heq => absurd (congrArg some heq) h

theorem Unclaimed.other {wire : List Transfer} {r : Response} (h : Unclaimed opcode wire t)
    (hr : t.lastResponse = some r) : r.opcode ≠ opcode := by
  intro heq
  refine h.response ?_
  rw [hr, ← heq]
  rfl

theorem poll_returned {read expired : Bool} (hissued : c.number < w.calls)
    (hopen : ∀ ret, (c, ret) ∉ w.returns) (hpolling : w.controller = .polling c)
    (hown : ∀ r, w.target.lastResponse = some r → r.opcode = c.opcode → r.result = resultOk →
      Executed c w.dispatches)
    (hstep : step numD2ds w (.poll read expired) = some w') : w' = w ∨ Returned c w' := by
  obtain ⟨c', hc', hsame | ⟨ret, hzero, rfl⟩⟩ := step_poll hstep
  · exact .inl hsame
  · obtain rfl := Controller.polling.inj (hpolling.symm.trans hc')
    refine .inr ⟨hissued, fun _ hidle => (by cases hidle), ?_⟩
    intro hmem
    obtain hmem | hmem := List.mem_append.mp hmem
    · exact absurd hmem (hopen 0)
    · obtain ⟨r, hr, hopcode, hresult⟩ :=
        hzero (congrArg Prod.snd (List.mem_singleton.mp hmem)).symm
      exact hown r hr hopcode hresult

theorem Waiting.arrive (h : Waiting c w) (hwell : WellFormed w)
    (hwire : w.wire = [⟨c.number, c.frame⟩]) (hclear : Unclaimed c.opcode [] w.target)
    (hstep : step numD2ds w .interrupt = some w') : Served c w' := by
  obtain ⟨x, later, hx, rfl⟩ := step_interrupt hstep
  obtain ⟨rfl, rfl⟩ := List.cons.inj (hx.symm.trans hwire)
  have hdeliver := deliver_eq hwell.rxFrame (Nat.le_of_eq h.whole)
  rw [if_pos h.whole] at hdeliver
  refine ⟨h.polling, rfl, ?_, ?_, ?_, ?_⟩
  · rw [hdeliver]
    rfl
  · show c.number ∈ if c.frame.length = frameLen then w.arrived ++ [c.number] else w.arrived
    rw [if_pos h.whole]
    exact List.mem_concat_self
  · rw [hdeliver]
    exact OwnWork.of_other hclear.work
  · rw [hdeliver]
    intro r hr hopcode
    exact absurd hopcode (hclear.other hr)

variable {a : Action}

theorem step_waiting (hwell : WellFormed w) (hissued : c.number < w.calls)
    (hopen : ∀ ret, (c, ret) ∉ w.returns) (h : Waiting c w) (hstep : step numD2ds w a = some w') :
    Tracked c w' := by
  obtain ⟨ahead, hwire, hclear⟩ := h.unclaimed
  -- the steps of the target leave the controller and the wire alone
  have hkeep : ∀ {t : Target} {dispatches : List (Dispatch × Int)}, Unclaimed c.opcode ahead t →
      Tracked c { w with target := t, dispatches := dispatches } :=
    fun ht => .inl ⟨hissued, hopen, .inl ⟨h.polling, h.whole, ahead, hwire, ht⟩⟩
  cases a with
  | runCmd opcode payload write =>
    obtain ⟨hidle, -, -⟩ := step_runCmd hstep
    cases hidle.symm.trans h.polling
  | poll read expired =>
    obtain rfl | hreturned := poll_returned hissued hopen h.polling
      (fun r hr hopcode => absurd hopcode (hclear.other hr)) hstep
    · exact .inl ⟨hissued, hopen, .inl h⟩
    · exact .inr hreturned
  | interrupt =>
    cases ahead with
    | nil =>
      have hserved := h.arrive hwell hwire hclear hstep
      obtain ⟨x, later, -, rfl⟩ := step_interrupt hstep
      exact .inl ⟨hissued, hopen, .inr hserved⟩
    | cons y ahead =>
      obtain ⟨x, later, hx, rfl⟩ := step_interrupt hstep
      rw [List.cons_append] at hwire
      obtain ⟨rfl, rfl⟩ := List.cons.inj (hx.symm.trans hwire)
      have hshort := hwell.short x (by rw [hx]; exact List.mem_cons_self)
      exact .inl ⟨hissued, hopen, .inl ⟨h.polling, h.whole, ahead, rfl,
        hclear.interrupt hwell.rxFrame hshort⟩⟩
  | workStart =>
    obtain ⟨hqueued, rfl⟩ := step_workStart hstep
    exact hkeep ⟨hclear.wire, fun _ => hclear.pending (.inl hqueued), fun heq => (by cases heq),
      hclear.response⟩
  | workOpcode =>
    obtain ⟨hstarting, rfl⟩ := step_workOpcode hstep
    have hother := hclear.pending (.inr hstarting)
    exact hkeep ⟨hclear.wire, fun _ => hother, fun heq => hother (Option.some.inj heq),
      hclear.response⟩
  | workPayload =>
    obtain ⟨opcode, arrived, hwork, rfl⟩ := step_workPayload hstep
    have hother := hclear.work
    rw [hwork] at hother
    exact hkeep (hclear.moveOn (fun heq => by cases heq) hother)
  | workDone r =>
    obtain ⟨d, ret, hwork, rfl⟩ := step_workDone hstep
    have hother := hclear.work
    rw [hwork] at hother
    exact hkeep (hclear.moveOn (fun heq => by cases heq) hother)
  | workAnswer written =>
    obtain ⟨opcode, ret, hwork, rfl⟩ := step_workAnswer hstep
    have hother := hclear.work
    rw [hwork] at hother
    have hidle := @Unclaimed.moveOn _ _ _ .idle hclear (fun heq => by cases heq)
      (fun heq => by cases heq)
    refine hkeep ⟨hidle.wire, hidle.pending, hidle.work, ?_⟩
    cases written with
    | false => exact hclear.response
    | true => exact hother

theorem step_served (hissued : c.number < w.calls) (hopen : ∀ ret, (c, ret) ∉ w.returns)
    (h : Served c w) (hstep : step numD2ds w a = some w') : Tracked c w' := by
  cases a with
  | runCmd opcode payload write =>
    obtain ⟨hidle, -, -⟩ := step_runCmd hstep
    cases hidle.symm.trans h.polling
  | poll read expired =>
    obtain rfl | hreturned := poll_returned hissued hopen h.polling h.response hstep
    · exact .inl ⟨hissued, hopen, .inr h⟩
    · exact .inr hreturned
  | interrupt =>
    obtain ⟨x, later, hx, -⟩ := step_interrupt hstep
    rw [h.wire] at hx
    cases hx
  | workStart =>
    obtain ⟨-, rfl⟩ := step_workStart hstep
    exact .inl ⟨hissued, hopen, .inr { h with work := trivial }⟩
  | workOpcode =>
    obtain ⟨-, rfl⟩ := step_workOpcode hstep
    exact .inl ⟨hissued, hopen, .inr { h with work := fun _ => h.arrived }⟩
  | workPayload =>
    obtain ⟨opcode, arrived, hwork, rfl⟩ := step_workPayload hstep
    have hown := h.work
    rw [hwork] at hown
    exact .inl ⟨hissued, hopen, .inr { h with work := fun heq => ⟨h.payload, hown heq⟩ }⟩
  | workDone r =>
    obtain ⟨d, ret, hwork, rfl⟩ := step_workDone hstep
    have hown := h.work
    rw [hwork] at hown
    refine .inl ⟨hissued, hopen, .inr { h with work := ?_, response := ?_ }⟩
    · rintro heq rfl
      exact ⟨d, List.mem_concat_self, heq, hown heq⟩
    · intro r hr hopcode hresult
      exact (h.response r hr hopcode hresult).append
  | workAnswer written =>
    obtain ⟨opcode, ret, hwork, rfl⟩ := step_workAnswer hstep
    have hown := h.work
    rw [hwork] at hown
    refine .inl ⟨hissued, hopen, .inr { h with work := trivial, response := ?_ }⟩
    cases written with
    | false => exact h.response
    | true =>
      intro r hr hopcode hresult
      obtain rfl := Option.some.inj hr
      refine hown hopcode ?_
      by_contra hret
      rw [show (⟨if ret = 0 then resultOk else resultNotOk, opcode⟩ : Response).result =
        resultNotOk from if_neg hret] at hresult
      exact absurd hresult (by decide)

theorem Returned.other {c' : Command} {ret : Int} (h : Returned c w)
    (hne : c'.number ≠ c.number) (hmem : (c, 0) ∈ w.returns ++ [(c', ret)]) :
    Executed c w.dispatches := by
  obtain hmem | hmem := List.mem_append.mp hmem
  · exact h.result hmem
  · exact absurd (congrArg (fun r => r.1.number) (List.mem_singleton.mp hmem)).symm hne

theorem step_returned (h : Returned c w) (hstep : step numD2ds w a = some w') :
    Returned c w' := by
  cases a with
  | runCmd opcode payload write =>
    obtain ⟨hidle, -, rfl⟩ := step_runCmd hstep
    have hissued : c.number < w.calls + 1 := Nat.lt_succ_of_lt h.issued
    have hnew : w.calls ≠ c.number := Nat.ne_of_gt h.issued
    cases write with
    | noTarget => exact ⟨hissued, h.polling, h.other hnew⟩
    | failed bytes => exact ⟨hissued, h.polling, h.other hnew⟩
    | written =>
      refine ⟨hissued, ?_, h.result⟩
      intro c' hc'
      obtain rfl := Controller.polling.inj hc'
      exact hnew
  | poll read expired =>
    obtain ⟨c', hc', rfl | ⟨ret, -, rfl⟩⟩ := step_poll hstep
    · exact h
    · exact ⟨h.issued, fun _ hc' => (by cases hc'), h.other (h.polling c' hc')⟩
  | interrupt =>
    obtain ⟨x, later, -, rfl⟩ := step_interrupt hstep
    exact ⟨h.issued, h.polling, h.result⟩
  | workStart =>
    obtain ⟨-, rfl⟩ := step_workStart hstep
    exact ⟨h.issued, h.polling, h.result⟩
  | workOpcode =>
    obtain ⟨-, rfl⟩ := step_workOpcode hstep
    exact ⟨h.issued, h.polling, h.result⟩
  | workPayload =>
    obtain ⟨_, _, -, rfl⟩ := step_workPayload hstep
    exact ⟨h.issued, h.polling, h.result⟩
  | workDone r =>
    obtain ⟨d, ret, -, rfl⟩ := step_workDone hstep
    exact ⟨h.issued, h.polling, fun hmem => (h.result hmem).append⟩
  | workAnswer written =>
    obtain ⟨_, _, -, rfl⟩ := step_workAnswer hstep
    exact ⟨h.issued, h.polling, h.result⟩

theorem step_tracked (h : WellFormed w ∧ Tracked c w) (hstep : step numD2ds w a = some w') :
    WellFormed w' ∧ Tracked c w' := by
  refine ⟨step_wellFormed h.1 hstep, ?_⟩
  obtain ⟨hissued, hopen, hwaiting | hserved⟩ | hreturned := h.2
  · exact step_waiting h.1 hissued hopen hwaiting hstep
  · exact step_served hissued hopen hserved hstep
  · exact .inr (step_returned hreturned hstep)

theorem Tracked.result (h : Tracked c w) (hmem : (c, 0) ∈ w.returns) : Executed c w.dispatches := by
  obtain ⟨-, hopen, -⟩ | hreturned := h
  · exact absurd hmem (hopen 0)
  · exact hreturned.result hmem

theorem runCmd_tracked {payload : List UInt8} {write : Write} (hwell : WellFormed w)
    (hclear : Unclaimed opcode w.wire w.target) (hlen : payload.length ≤ cmdPayloadMaxLen)
    (hidle : w.controller = .idle) :
    Tracked ⟨w.calls, opcode, padPayload payload⟩ (runCmd w opcode payload write) := by
  have hnew : ∀ ret, ((⟨w.calls, opcode, padPayload payload⟩ : Command), ret) ∉ w.returns :=
    fun ret hmem => absurd (hwell.returned _ hmem) (Nat.lt_irrefl _)
  have hfailed : ∀ {ret : Int}, ret ≠ 0 →
      ((⟨w.calls, opcode, padPayload payload⟩ : Command), (0 : Int)) ∉
        w.returns ++ [(⟨w.calls, opcode, padPayload payload⟩, ret)] := by
    intro ret hret hmem
    obtain hmem | hmem := List.mem_append.mp hmem
    · exact hnew 0 hmem
    · exact hret (congrArg Prod.snd (List.mem_singleton.mp hmem)).symm
  have hnone : ∀ c', w.controller = .polling c' → c'.number ≠ w.calls := by
    intro c' hc'
    rw [hidle] at hc'
    cases hc'
  cases write with
  | noTarget =>
    exact .inr ⟨Nat.lt_succ_self _, hnone, fun hmem => absurd hmem (hfailed (by decide))⟩
  | failed bytes =>
    exact .inr ⟨Nat.lt_succ_self _, hnone, fun hmem => absurd hmem (hfailed (by decide))⟩
  | written =>
    refine .inl ⟨Nat.lt_succ_self _, hnew, .inl ⟨rfl, ?_, w.wire, rfl, hclear⟩⟩
    show (padPayload payload).length + 1 = frameLen
    rw [padPayload_length hlen]
    rfl

-- ---
-- The result

/-- **A result of 0 is the command's own**, if at the call no response and no execution of its
opcode is about: the target has executed this opcode with this payload in a dispatch that started
after the frame had arrived and that returned success. -/
theorem result_belongs {earlier later : List Action} {opcode : UInt8} {payload : List UInt8}
    {write : Write} (hearlier : exec (step numD2ds) World.start earlier = some w)
    (hclear : Unclaimed opcode w.wire w.target)
    (hlater : exec (step numD2ds) w (.runCmd opcode payload write :: later) = some w')
    (hreturn : (⟨w.calls, opcode, padPayload payload⟩, 0) ∈ w'.returns) :
    ∃ d, (d, 0) ∈ w'.dispatches ∧ d.opcode = opcode ∧ d.payload = padPayload payload ∧
      w.calls ∈ d.arrived := by
  have hwell : WellFormed w := exec_invariant (fun _ _ _ => step_wellFormed) start_wellFormed hearlier
  obtain ⟨t, hcall, hrun⟩ := exec_cons_some.mp hlater
  obtain ⟨hidle, hlen, rfl⟩ := step_runCmd hcall
  have htracked := exec_invariant (fun _ _ _ => step_tracked)
    ⟨step_wellFormed hwell hcall, runCmd_tracked hwell hclear hlen hidle⟩ hrun
  exact htracked.2.result hreturn

end

def noErrors : D2dResults := ⟨0, 0, 0⟩

def initTimesOut : List Action :=
  [.runCmd cmdD2dInit [0] .written, .interrupt, .workStart, .workOpcode, .poll true true]

def initTimedOut : World :=
  ⟨.idle, [], ⟨[], cmdD2dInit, [0], false, .running cmdD2dInit [0], none⟩, 1, [0], [],
    [(⟨0, cmdD2dInit, [0]⟩, -etimedout)]⟩

def startAfterInit : List Action :=
  [.interrupt, .workPayload, .workDone noErrors, .workAnswer true, .poll true false, .workStart,
    .workOpcode, .workPayload, .workDone noErrors, .workAnswer true, .poll true false]

def startedAfterInit : World :=
  ⟨.idle, [], ⟨[], cmdD2dStart, [1], false, .idle, some ⟨resultOk, cmdD2dStart⟩⟩, 2, [0, 1],
    [(⟨cmdD2dInit, [1], [0]⟩, 0), (⟨cmdD2dStart, [1], [0, 1]⟩, 0)],
    [(⟨0, cmdD2dInit, [0]⟩, -etimedout), (⟨1, cmdD2dStart, [1]⟩, 0)]⟩

theorem startAfterInit_belongs :
    exec (step 2) World.start initTimesOut = some initTimedOut ∧
      exec (step 2) initTimedOut (.runCmd cmdD2dStart [1] .written :: startAfterInit) =
        some startedAfterInit ∧
      ∃ d, (d, 0) ∈ startedAfterInit.dispatches ∧ d.opcode = cmdD2dStart ∧ d.payload = [1] ∧
        1 ∈ d.arrived := by
  have hearlier : exec (step 2) World.start initTimesOut = some initTimedOut := by decide
  have hlater : exec (step 2) initTimedOut (.runCmd cmdD2dStart [1] .written :: startAfterInit) =
      some startedAfterInit := by decide
  have hclear : Unclaimed cmdD2dStart initTimedOut.wire initTimedOut.target :=
    ⟨by decide, by decide, by decide, by decide⟩
  exact ⟨hearlier, hlater, result_belongs hearlier hclear hlater (by decide)⟩

def startTwoTiles : List Action :=
  [.runCmd cmdD2dStart [0] .written, .interrupt, .workStart, .workOpcode, .workPayload,
    .workDone noErrors, .workAnswer true, .poll true false, .runCmd cmdD2dStart [1] .written,
    .poll true false]

def startedOneTile : World :=
  ⟨.idle, [⟨1, [cmdD2dStart, 1]⟩], ⟨[], cmdD2dStart, [0], false, .idle, some ⟨resultOk, cmdD2dStart⟩⟩,
    2, [0], [(⟨cmdD2dStart, [0], [0]⟩, 0)],
    [(⟨0, cmdD2dStart, [0]⟩, 0), (⟨1, cmdD2dStart, [1]⟩, 0)]⟩

/-- **A stale response is accepted.** Starting tile 1 returns 0 on the response for tile 0. -/
theorem stale_response_accepted :
    exec (step 2) World.start startTwoTiles = some startedOneTile ∧
      (⟨1, cmdD2dStart, [1]⟩, 0) ∈ startedOneTile.returns ∧
      ¬ Executed ⟨1, cmdD2dStart, [1]⟩ startedOneTile.dispatches := by
  refine ⟨by decide, by decide, ?_⟩
  rintro ⟨d, hd, -, hpayload, -⟩
  obtain rfl : d = ⟨cmdD2dStart, [0], [0]⟩ := congrArg Prod.fst (List.mem_singleton.mp hd)
  exact absurd hpayload (by decide)

end SystemFirmware.GrendelI3c
