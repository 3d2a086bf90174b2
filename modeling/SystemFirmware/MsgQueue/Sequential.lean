import SystemFirmware.MsgQueue.Invariant

/-!
# Host message queue — one call of `process_message_queue`

The call as a function, for a queue that no one else touches
(`fw_runs_processMessageQueue`). Its loop asks `start_next_message` whether to go on, and
pops, handles and answers one request. What a handler answers may change, so every round
has a handler table of its own.
-/

namespace SystemFirmware.MsgQueue

open Lib

-- ---
-- The call

def startNextMessage (q : MessageQueue) : Bool :=
  if q.header.requestQueueWptr = q.header.requestQueueRptr then false
  else
    startNextMessageOk q.header.requestQueueWptr q.header.requestQueueRptr
      q.header.responseQueueWptr q.header.responseQueueRptr

def requestPop (q : MessageQueue) : Request × MessageQueue :=
  (q.requestQueue (entryIndex q.header.requestQueueRptr),
    { q with header := { q.header with
      requestQueueRptr := (q.header.requestQueueRptr + 1) % msgQueuePointerWrap } })

def responsePush (q : MessageQueue) (response : Response) : MessageQueue where
  header := { q.header with
    responseQueueWptr := (q.header.responseQueueWptr + 1) % msgQueuePointerWrap }
  requestQueue := q.requestQueue
  responseQueue :=
    Function.update q.responseQueue (entryIndex q.header.responseQueueWptr) response

def advanceSerial (q : MessageQueue) (request : Request) : MessageQueue :=
  if commandWritesSerial request then q
  else { q with header := { q.header with lastSerial := q.header.lastSerial + 1 } }

def serveNext (messageHandlers : MessageHandlers) (q : MessageQueue) :
    (Request × Response) × MessageQueue :=
  let (request, q) := requestPop q
  let (serial, response) :=
    processQueuedMessage messageHandlers q.header.lastSerial request Response.zero
  let q := { q with header := { q.header with lastSerial := serial } }
  let q := responsePush q response
  ((request, response), advanceSerial q request)

/-- The requests that are handled with their responses, and the queue after the call. There is a
table for every round; `none` if there are not enough. -/
def processMessageQueue : List MessageHandlers → MessageQueue →
    Option (List (Request × Response) × MessageQueue)
  | [], q => if startNextMessage q then none else some ([], q)
  | messageHandlers :: tables, q =>
    if startNextMessage q then
      let (answer, q) := serveNext messageHandlers q
      (processMessageQueue tables q).map fun (answers, q) => (answer :: answers, q)
    else some ([], q)

def zeroQueue (requestWptr requestRptr responseWptr responseRptr : UInt32) : MessageQueue where
  header := ⟨requestWptr, responseRptr, requestRptr, responseWptr, 0⟩
  requestQueue := fun _ => ⟨fun _ => 0⟩
  responseQueue := fun _ => Response.zero

def idleHandlers : MessageHandlers := fun _ => some fun _ response => (response, 0)

-- ---
-- The machine

def IsFw (a : Action) : Prop := ∃ messageHandlers, a = .fw messageHandlers

variable {messageHandlers : MessageHandlers}

theorem fw_reaches {s t : World} (n : ℕ)
    (h : exec step s (List.replicate n (.fw messageHandlers)) = some t) :
    Reaches step IsFw s t := by
  refine ⟨_, ?_, h⟩
  intro a ha
  exact ⟨messageHandlers, (List.mem_replicate.mp ha).2⟩

section

variable {q : MessageQueue} {host : HostPc} {trace : Trace} (messageHandlers : MessageHandlers)

theorem fw_starts (hstart : startNextMessage q = true) :
    Reaches step IsFw ⟨q, .loadRequestWptr, host, trace⟩ ⟨q, .popIndex, host, trace⟩ := by
  rw [startNextMessage] at hstart
  split at hstart
  · cases hstart
  · next hne =>
    apply @fw_reaches (fun _ => none) _ _ 4
    simp only [List.replicate, exec_cons, exec_nil, step, fwStep, Option.bind_some, if_neg hne,
      hstart, if_true]

theorem fw_refuses (hstart : startNextMessage q = false) :
    Reaches step IsFw ⟨q, .loadRequestWptr, host, trace⟩ ⟨q, .loadRequestWptr, host, trace⟩ := by
  rw [startNextMessage] at hstart
  split at hstart
  · next heq =>
    apply @fw_reaches (fun _ => none) _ _ 2
    simp only [List.replicate, exec_cons, exec_nil, step, fwStep, Option.bind_some, if_pos heq]
  · next hne =>
    apply @fw_reaches (fun _ => none) _ _ 4
    simp only [List.replicate, exec_cons, exec_nil, step, fwStep, Option.bind_some, if_neg hne,
      hstart, Bool.false_eq_true, if_false]

theorem fw_pops :
    Reaches step IsFw ⟨q, .popIndex, host, trace⟩
      ⟨(requestPop q).2, .handle (requestPop q).1, host, trace⟩ :=
  @fw_reaches (fun _ => none) _ _ 6 rfl

theorem fw_answers {request : Request} {serial : UInt32} {response : Response}
    (hanswer : processQueuedMessage messageHandlers q.header.lastSerial request Response.zero =
      (serial, response)) :
    Reaches step IsFw ⟨q, .handle request, host, trace⟩
      ⟨responsePush { q with header := { q.header with lastSerial := serial } } response,
        .serialLoad request, host,
        { trace with answered := trace.answered ++ [(request, response)] }⟩ := by
  have hhandle : fwStep messageHandlers ⟨q, .handle request, host, trace⟩ =
      ⟨{ q with header := { q.header with lastSerial := serial } }, .pushIndex request response, host,
        { trace with answered := trace.answered ++ [(request, response)] }⟩ := by
    simp only [fwStep, hanswer]
  have hfirst : Reaches step IsFw ⟨q, .handle request, host, trace⟩
      (fwStep messageHandlers ⟨q, .handle request, host, trace⟩) :=
    Reaches.single ⟨messageHandlers, rfl⟩ rfl
  rw [hhandle] at hfirst
  exact hfirst.trans (@fw_reaches (fun _ => none) _ _ 6 rfl)

theorem fw_advances {request : Request} :
    Reaches step IsFw ⟨q, .serialLoad request, host, trace⟩
      ⟨advanceSerial q request, .loadRequestWptr, host, trace⟩ := by
  rw [advanceSerial]
  split
  · next hwrites =>
    apply @fw_reaches (fun _ => none) _ _ 1
    simp only [List.replicate, exec_cons, exec_nil, step, fwStep, Option.bind_some, if_pos hwrites]
  · next hwrites =>
    apply @fw_reaches (fun _ => none) _ _ 2
    simp only [List.replicate, exec_cons, exec_nil, step, fwStep, Option.bind_some, if_neg hwrites]

theorem fw_serves (hstart : startNextMessage q = true) :
    Reaches step IsFw ⟨q, .loadRequestWptr, host, trace⟩
      ⟨(serveNext messageHandlers q).2, .loadRequestWptr, host,
        { trace with answered := trace.answered ++ [(serveNext messageHandlers q).1] }⟩ :=
  (fw_starts hstart).trans (fw_pops.trans ((fw_answers messageHandlers rfl).trans fw_advances))

/-- **The machine does what the function says**, when the host does not interfere. -/
theorem fw_runs_processMessageQueue {tables : List MessageHandlers} {q' : MessageQueue}
    {answers : List (Request × Response)}
    (h : processMessageQueue tables q = some (answers, q')) :
    Reaches step IsFw ⟨q, .loadRequestWptr, host, trace⟩
      ⟨q', .loadRequestWptr, host, { trace with answered := trace.answered ++ answers }⟩ := by
  induction tables generalizing q trace answers with
  | nil =>
    rw [processMessageQueue] at h
    cases hstart : startNextMessage q with
    | true => simp [hstart] at h
    | false =>
      rw [hstart] at h
      cases h
      rw [List.append_nil]
      exact fw_refuses hstart
  | cons messageHandlers tables ih =>
    rw [processMessageQueue] at h
    cases hstart : startNextMessage q with
    | false =>
      rw [hstart] at h
      cases h
      rw [List.append_nil]
      exact fw_refuses hstart
    | true =>
      rw [hstart, if_pos rfl] at h
      obtain ⟨⟨rest, q''⟩, hrest, heq⟩ := Option.map_eq_some_iff.mp h
      cases heq
      have hlater := @ih _ { trace with
        answered := trace.answered ++ [(serveNext messageHandlers q).1] } _ hrest
      rw [List.append_assoc] at hlater
      exact (fw_serves messageHandlers hstart).trans hlater

theorem fw_runs_processMessageQueue_one :
    ∃ t, Reaches step IsFw ⟨zeroQueue 1 0 0 0, .loadRequestWptr, .idle, ⟨[], [], []⟩⟩ t ∧
      t.trace.answered.length = 1 :=
  ⟨_, @fw_runs_processMessageQueue _ _ _ [idleHandlers] _ _ rfl, rfl⟩

end

-- ---
-- Termination

/-- The requests the pointers say are waiting. -/
def MessageQueue.waiting (q : MessageQueue) : ℕ :=
  (occupancy q.header.requestQueueWptr q.header.requestQueueRptr).toNat

variable {q : MessageQueue}

theorem startNextMessage_eq_true :
    startNextMessage q = true ↔
      q.header.requestQueueWptr ≠ q.header.requestQueueRptr ∧
      (q.header.responseQueueWptr - q.header.responseQueueRptr) % msgQueuePointerWrap ≠
        msgQueueSize.toUInt32 ∧
      q.header.requestQueueWptr < msgQueuePointerWrap ∧
      q.header.requestQueueRptr < msgQueuePointerWrap ∧
      q.header.responseQueueWptr < msgQueuePointerWrap := by
  rw [startNextMessage]
  split
  next hempty => simp [hempty]
  next hne =>
    rw [startNextMessageOk]
    split
    next hfull => simp [hfull]
    next hroom =>
      simp only [Bool.not_eq_true', Bool.or_eq_false_iff, decide_eq_false_iff_not, ge_iff_le,
        UInt32.not_le]
      tauto

theorem header_serveNext :
    (serveNext messageHandlers q).2.header.requestQueueWptr = q.header.requestQueueWptr ∧
      (serveNext messageHandlers q).2.header.requestQueueRptr =
        (q.header.requestQueueRptr + 1) % msgQueuePointerWrap := by
  simp only [serveNext, advanceSerial]
  split <;> exact ⟨rfl, rfl⟩

theorem waiting_serveNext (hstart : startNextMessage q = true) :
    (serveNext messageHandlers q).2.waiting < q.waiting := by
  obtain ⟨hne, -, hw, hr, -⟩ := startNextMessage_eq_true.mp hstart
  obtain ⟨hwptr, hrptr⟩ := @header_serveNext messageHandlers q
  have hw' : q.header.requestQueueWptr.toNat < 8 := UInt32.lt_iff_toNat_lt.mp hw
  have hr' : q.header.requestQueueRptr.toNat < 8 := UInt32.lt_iff_toNat_lt.mp hr
  have hne' := mt UInt32.toNat_inj.mp hne
  obtain ⟨hmod, hlt⟩ := occupancy_spec q.header.requestQueueWptr q.header.requestQueueRptr
  obtain ⟨hmod', hlt'⟩ := occupancy_spec q.header.requestQueueWptr
    ((q.header.requestQueueRptr + 1) % msgQueuePointerWrap)
  rw [toNat_wrap, toNat_bump (by omega)] at hmod'
  rw [MessageQueue.waiting, MessageQueue.waiting, hwptr, hrptr]
  simp only [msgQueueSize] at hmod hlt hmod' hlt'
  omega

/-- **The loop ends**: no queue takes more rounds than it has requests waiting. -/
theorem processMessageQueue_isSome {tables : List MessageHandlers} {q : MessageQueue}
    (hrounds : q.waiting ≤ tables.length) : (processMessageQueue tables q).isSome := by
  induction tables generalizing q with
  | nil =>
    cases hstart : startNextMessage q with
    | false => simp [processMessageQueue, hstart]
    | true =>
      -- the first round would need a request
      have hless := @waiting_serveNext (fun _ => none) q hstart
      rw [List.length_nil] at hrounds
      omega
  | cons messageHandlers tables ih =>
    cases hstart : startNextMessage q with
    | false => simp [processMessageQueue, hstart]
    | true =>
      have hless := @waiting_serveNext messageHandlers q hstart
      rw [List.length_cons] at hrounds
      rw [processMessageQueue, hstart, if_pos rfl, Option.isSome_map]
      exact ih (by omega)

theorem processMessageQueue_isSome_one :
    (processMessageQueue [idleHandlers] (zeroQueue 1 0 0 0)).isSome :=
  processMessageQueue_isSome (by decide)

-- ---
-- Corrupt pointers

/-- **When corrupt pointers are refused.** A queue is left as it is, and no request of it is
handled, exactly if one of the three pointers that `start_next_message` tests is out of range, no
request is waiting, or the responses are full by the pointers' difference. So
`response_queue_rptr` alone, out of range or not, only decides through that difference. -/
theorem corrupt_pointers_refused {q : MessageQueue} (tables : List MessageHandlers) :
    processMessageQueue tables q = some ([], q) ↔
      msgQueuePointerWrap ≤ q.header.requestQueueWptr ∨
      msgQueuePointerWrap ≤ q.header.requestQueueRptr ∨
      msgQueuePointerWrap ≤ q.header.responseQueueWptr ∨
      q.header.requestQueueWptr = q.header.requestQueueRptr ∨
      (q.header.responseQueueWptr - q.header.responseQueueRptr) % msgQueuePointerWrap =
        msgQueueSize.toUInt32 := by
  have hrefused : processMessageQueue tables q = some ([], q) ↔ startNextMessage q ≠ true := by
    cases tables <;> rw [processMessageQueue] <;> cases startNextMessage q <;> simp
  rw [hrefused, Ne, startNextMessage_eq_true, ← UInt32.not_lt, ← UInt32.not_lt, ← UInt32.not_lt]
  tauto

/-- **Counterexample.** With 8 in `response_queue_rptr`, which `start_next_message` does not
test, a request is popped, handled and answered. -/
theorem response_rptr_accepted :
    msgQueuePointerWrap ≤ (zeroQueue 1 0 0 8).header.responseQueueRptr ∧
    ∃ answers q', processMessageQueue [idleHandlers] (zeroQueue 1 0 0 8) = some (answers, q') ∧
      answers.length = 1 ∧ q'.header.requestQueueRptr = 1 ∧ q'.header.responseQueueWptr = 1 ∧
      q'.header.lastSerial = 1 := by
  exact ⟨by decide, _, _, rfl, rfl, rfl, rfl, rfl⟩

end SystemFirmware.MsgQueue
