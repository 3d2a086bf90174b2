import SystemFirmware.MsgQueue.Definitions

/-!
# Host message queue — the serial number

`last_serial` counts the requests of a queue. SET_LAST_SERIAL stores the host's own
number instead, and TEST reports the number that it will have itself.

The firmware stores the number a while after it has handled a request. `World.nextSerial`
is the number once the request at hand is done with, and changes only where a request is
handled (`serial_law`).
-/

namespace SystemFirmware.MsgQueue

open Lib

-- ---
-- The law

/-- `last_serial` after some requests: `data[1]` of the most recent SET_LAST_SERIAL, or the number
at the start, and one more for every request behind it. -/
def serialAfter (start : UInt32) (requests : List Request) : UInt32 :=
  let set := requests.reverse.find? commandWritesSerial
  let later := requests.reverse.takeWhile fun request => !commandWritesSerial request
  (set.map Request.argument).getD start + UInt32.ofNat later.length

variable {start : UInt32} {requests : List Request} {request : Request}

@[simp] theorem serialAfter_nil : serialAfter start [] = start := by
  simp [serialAfter]

theorem serialAfter_concat_set (hwrites : commandWritesSerial request = true) :
    serialAfter start (requests ++ [request]) = request.data 1 := by
  simp [serialAfter, hwrites, Request.argument]

theorem serialAfter_concat_count (hwrites : commandWritesSerial request = false) :
    serialAfter start (requests ++ [request]) = serialAfter start requests + 1 := by
  simp [serialAfter, hwrites, UInt32.ofNat_add, UInt32.add_assoc]

-- ---
-- The machine

/-- `last_serial` once the request at hand is done with. -/
def World.nextSerial (s : World) : UInt32 :=
  match s.fw with
  | .pushIndex request _ | .pushEntry request _ _ | .pushLoad request | .pushBump request _
  | .pushReload request | .pushWrap request _ | .serialLoad request =>
    if commandWritesSerial request then s.queue.header.lastSerial
    else s.queue.header.lastSerial + 1
  | .serialStore serial => serial + 1
  | _ => s.queue.header.lastSerial

def World.handled (s : World) : List Request := s.trace.answered.map Prod.fst

structure SerialInv (start : UInt32) (s : World) : Prop where
  serial : s.nextSerial = serialAfter start s.handled
  tests : ∀ (k : ℕ) (request : Request) (response : Response),
    s.trace.answered[k]? = some (request, response) → request.commandCode = ttSmcMsgTest →
      response.data 2 = serialAfter start (s.handled.take (k + 1))

theorem fwStep_serial {s : World} (messageHandlers : MessageHandlers)
    (hpc : ∀ request, s.fw ≠ .handle request) :
    (fwStep messageHandlers s).nextSerial = s.nextSerial ∧
      (fwStep messageHandlers s).trace.answered = s.trace.answered := by
  obtain ⟨q, fw, host, trace⟩ := s
  cases fw with
  | handle request => exact absurd rfl (hpc request)
  | loadRequestRptr _ | loadResponseRptr _ _ _ =>
    simp only [fwStep]
    split <;> exact ⟨rfl, rfl⟩
  | serialLoad request =>
    cases hwrites : commandWritesSerial request <;> simp [fwStep, World.nextSerial, hwrites]
  | _ => exact ⟨rfl, rfl⟩

theorem SerialInv.congr {s t : World} (h : SerialInv start s) (hserial : t.nextSerial = s.nextSerial)
    (hanswered : t.trace.answered = s.trace.answered) : SerialInv start t := by
  have hhandled : t.handled = s.handled := congrArg (List.map Prod.fst) hanswered
  constructor
  · rw [hserial, hhandled]
    exact h.serial
  · rw [hanswered, hhandled]
    exact h.tests

theorem processQueuedMessage_serial {messageHandlers : MessageHandlers} {lastSerial : UInt32}
    {response : Response} :
    (processQueuedMessage messageHandlers lastSerial request response).1 =
        (if commandWritesSerial request then request.data 1 else lastSerial) ∧
      (request.commandCode = ttSmcMsgTest →
        commandWritesSerial request = false ∧
        (processQueuedMessage messageHandlers lastSerial request response).2.data 2 =
          lastSerial + 1) := by
  rw [processQueuedMessage]
  by_cases hset : request.commandCode = ttSmcMsgSetLastSerial
  · have hwrites : commandWritesSerial request = true := beq_iff_eq.mpr hset
    rw [if_pos hset, if_pos hwrites]
    refine ⟨rfl, fun htest => ?_⟩
    cases hset.symm.trans htest
  · have hwrites : commandWritesSerial request = false := beq_eq_false_iff_ne.mpr hset
    rw [if_neg hset, hwrites]
    by_cases htest : request.commandCode = ttSmcMsgTest
    · rw [if_pos htest]
      refine ⟨rfl, fun _ => ⟨rfl, ?_⟩⟩
      simp [handleTest, Response.setWord]
    · rw [if_neg htest]
      refine ⟨?_, fun h => absurd h htest⟩
      split <;> rfl

theorem handle_serial {q : MessageQueue} {host : HostPc} {trace : Trace}
    (messageHandlers : MessageHandlers) (h : SerialInv start ⟨q, .handle request, host, trace⟩) :
    SerialInv start (fwStep messageHandlers ⟨q, .handle request, host, trace⟩) := by
  obtain ⟨serial, response, hanswer⟩ : ∃ serial response,
      processQueuedMessage messageHandlers q.header.lastSerial request Response.zero =
        (serial, response) := ⟨_, _, rfl⟩
  obtain ⟨hserial, htest⟩ := @processQueuedMessage_serial request messageHandlers
    q.header.lastSerial Response.zero
  simp only [hanswer] at hserial htest
  have hbefore : q.header.lastSerial = serialAfter start (trace.answered.map Prod.fst) := h.serial
  have hstep : fwStep messageHandlers ⟨q, .handle request, host, trace⟩ =
      ⟨{ q with header := { q.header with lastSerial := serial } }, .pushIndex request response, host,
        { trace with answered := trace.answered ++ [(request, response)] }⟩ := by
    simp only [fwStep, hanswer]
  have hhandled : World.handled (fwStep messageHandlers ⟨q, .handle request, host, trace⟩) =
      trace.answered.map Prod.fst ++ [request] := by
    rw [hstep, World.handled, List.map_append]
    rfl
  constructor
  · rw [hhandled, hstep]
    show (if commandWritesSerial request then serial else serial + 1) = _
    cases hwrites : commandWritesSerial request with
    | true => rw [if_pos rfl, serialAfter_concat_set hwrites, hserial, hwrites, if_pos rfl]
    | false =>
      rw [serialAfter_concat_count hwrites, ← hbefore, hserial, hwrites]
      rfl
  · intro k request' response' hget htest'
    rw [hhandled]
    rw [hstep] at hget
    obtain hold | ⟨rfl, hlast⟩ := getElem?_concat_iff.mp hget
    · have hk := (List.getElem?_eq_some_iff.mp hold).1
      rw [List.take_append_of_le_length (by rw [List.length_map]; exact hk)]
      exact h.tests k request' response' hold htest'
    · cases hlast
      obtain ⟨hcounts, hdata⟩ := htest htest'
      rw [List.take_of_length_le (by simp), serialAfter_concat_count hcounts, ← hbefore]
      exact hdata

theorem hostStep_serial {s t : World} (hstep : hostStep s = some t) :
    t.nextSerial = s.nextSerial ∧ t.trace.answered = s.trace.answered := by
  obtain ⟨q, fw, host, trace⟩ := s
  cases host with
  | idle => cases hstep
  | pushEntry request | pushWptr request | popEntry | popRptr response =>
    cases hstep
    exact ⟨rfl, rfl⟩

theorem step_serial {s t : World} {a : Action} (h : SerialInv start s)
    (hstep : step s a = some t) : SerialInv start t := by
  cases a with
  | fw messageHandlers =>
    cases hstep
    by_cases hhandle : ∃ request, s.fw = .handle request
    · obtain ⟨request, hpc⟩ := hhandle
      obtain ⟨q, fw, host, trace⟩ := s
      cases hpc
      exact handle_serial messageHandlers h
    · obtain ⟨hserial, hanswered⟩ :=
        fwStep_serial messageHandlers fun request hpc => hhandle ⟨request, hpc⟩
      exact h.congr hserial hanswered
  | host =>
    obtain ⟨hserial, hanswered⟩ := hostStep_serial hstep
    exact h.congr hserial hanswered
  | hostPush request =>
    simp only [step] at hstep
    split at hstep
    · obtain ⟨-, heq⟩ := Option.ite_none_right_eq_some.mp hstep
      cases heq
      exact h.congr rfl rfl
    · cases hstep
  | hostPop =>
    simp only [step] at hstep
    split at hstep
    · obtain ⟨-, heq⟩ := Option.ite_none_right_eq_some.mp hstep
      cases heq
      exact h.congr rfl rfl
    · cases hstep

-- ---
-- Every run

/-- **The serial number follows the law**, whatever the host does meanwhile: at the loop head
`last_serial` is that of the requests handled so far, and every TEST was told the number it had
after its own turn. -/
theorem serial_law {s t : World} {acts : List Action} (hfw : s.fw = .loadRequestWptr)
    (hanswered : s.trace.answered = []) (hrun : exec step s acts = some t) :
    (t.fw = .loadRequestWptr →
      t.queue.header.lastSerial = serialAfter s.queue.header.lastSerial t.handled) ∧
    ∀ (k : ℕ) (request : Request) (response : Response),
      t.trace.answered[k]? = some (request, response) → request.commandCode = ttSmcMsgTest →
        response.data 2 = serialAfter s.queue.header.lastSerial (t.handled.take (k + 1)) := by
  have hinit : SerialInv s.queue.header.lastSerial s := by
    constructor
    · rw [World.nextSerial, World.handled, hfw, hanswered]
      exact serialAfter_nil.symm
    · intro k request response hget
      rw [hanswered] at hget
      cases hget
  have h := exec_invariant (fun _ _ _ hi hs => step_serial hi hs) hinit hrun
  refine ⟨fun hpc => ?_, h.tests⟩
  have hserial := h.serial
  rw [World.nextSerial, hpc] at hserial
  exact hserial

def oneTest : List Action :=
  [.hostPush ⟨fun _ => 0x90⟩, .host, .host] ++ List.replicate 19 (.fw fun _ => none)

def startAtFortyOne : World := World.start 0 41 (fun _ => ⟨fun _ => 0⟩) (fun _ => Response.zero)

theorem oneTest_serial : ∃ t, exec step startAtFortyOne oneTest = some t ∧
    t.queue.header.lastSerial = 42 ∧
    ∃ request response, t.trace.answered = [(request, response)] ∧ response.data 2 = 42 := by
  refine ⟨_, rfl, ?_⟩
  obtain ⟨hserial, htests⟩ := @serial_law startAtFortyOne _ oneTest rfl rfl rfl
  exact ⟨hserial rfl, _, _, rfl, htests 0 _ _ rfl rfl⟩

end SystemFirmware.MsgQueue
