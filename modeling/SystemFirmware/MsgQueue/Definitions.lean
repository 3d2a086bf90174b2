import SystemFirmware.Lib.Exec
import Mathlib.Logic.Function.Basic

/-!
# Host message queue — definitions

`lib/tenstorrent/fw_common/msgqueue.c`: one queue shared between the host and the
firmware, two rings of `MSG_QUEUE_SIZE` entries with double-wrapped pointers. The
firmware answers requests in `process_message_queue`. The handlers are a table of
functions.

The second half is the machine the concurrency results are about. The firmware is cut at
every single access to a header word or an entry (the two stores of `ptr += 1; ptr %=
MSG_QUEUE_POINTER_WRAP` are two accesses), the host at the accesses of its push and pop,
and a schedule picks who moves.
-/

namespace SystemFirmware.MsgQueue

open Lib

/-! ## Messages and the queue -/

abbrev msgQueueSize : ℕ := 4

def msgQueuePointerWrap : UInt32 := 8

abbrev requestMsgLen : ℕ := 8

abbrev responseMsgLen : ℕ := 8

def numMsgCodes : ℕ := 200

def msgErrorReply : UInt32 := 0xff

def messageQueueStatusScratchOnly : UInt32 := 0xfe

@[ext]
structure Request where
  data : Fin requestMsgLen → UInt32

/-- The first byte of the first word (the target is little-endian). -/
def Request.commandCode (request : Request) : UInt8 := (request.data 0).toUInt8

def Request.argument (request : Request) : UInt32 := request.data 1

@[ext]
structure Response where
  data : Fin responseMsgLen → UInt32

def Response.zero : Response := ⟨fun _ => 0⟩

def Response.setWord (response : Response) (i : Fin responseMsgLen) (w : UInt32) : Response :=
  ⟨Function.update response.data i w⟩

/-- `struct message_queue_header`, without its unused words. -/
structure Header where
  requestQueueWptr : UInt32
  responseQueueRptr : UInt32
  requestQueueRptr : UInt32
  responseQueueWptr : UInt32
  lastSerial : UInt32

structure MessageQueue where
  header : Header
  requestQueue : Fin msgQueueSize → Request
  responseQueue : Fin msgQueueSize → Response

/-- The index `ptr % MSG_QUEUE_SIZE` of `request_entry` and `response_entry`. -/
def entryIndex (ptr : UInt32) : Fin msgQueueSize := Fin.ofNat msgQueueSize ptr.toNat

/-! ## Handlers -/

/-- Only these codes are told apart by the queue itself. -/
def ttSmcMsgReportScratchOnly : UInt8 := 0x16
def ttSmcMsgTest : UInt8 := 0x90
def ttSmcMsgSetLastSerial : UInt8 := 0xBE

/-- `msgqueue_request_handler_t`: the response as the handler leaves it, and
its exit code. -/
abbrev RequestHandler := Request → Response → Response × UInt8

abbrev MessageHandlers := ℕ → Option RequestHandler

def commandWritesSerial (request : Request) : Bool :=
  request.commandCode == ttSmcMsgSetLastSerial

def processL2MessageQueue (messageHandlers : MessageHandlers) (request : Request)
    (response : Response) : Response :=
  let msgCode := request.commandCode.toNat
  if numMsgCodes ≤ msgCode then
    response.setWord 0 msgErrorReply
  else
    match messageHandlers msgCode with
    | none => response.setWord 0 msgErrorReply
    | some handler =>
      let (response, exitCode) := handler request response
      response.setWord 0 (response.data 0 ||| exitCode.toUInt32)

def handleTest (lastSerial : UInt32) (request : Request) (response : Response) : Response :=
  ((response.setWord 0 0).setWord 1 (request.data 1 + 1)).setWord 2 (lastSerial + 1)

def reportScratchOnlyMessage (response : Response) : Response :=
  response.setWord 0 messageQueueStatusScratchOnly

/-- `process_queued_message`. Of the queue it touches `last_serial` only: the
new value of that word comes with the response. -/
def processQueuedMessage (messageHandlers : MessageHandlers) (lastSerial : UInt32)
    (request : Request) (response : Response) : UInt32 × Response :=
  if request.commandCode = ttSmcMsgSetLastSerial then
    (request.data 1, response)
  else if request.commandCode = ttSmcMsgTest then
    (lastSerial, handleTest lastSerial request response)
  else if request.commandCode = ttSmcMsgReportScratchOnly then
    (lastSerial, reportScratchOnlyMessage response)
  else
    (lastSerial, processL2MessageQueue messageHandlers request response)

/-! ## The firmware, one access at a time -/

/-- Where the firmware is in `process_message_queue`, with its live locals. The
name says which access comes next. -/
inductive FwPc where
  /-- Before `start_next_message`: load `request_queue_wptr`. -/
  | loadRequestWptr
  | loadRequestRptr (requestWptr : UInt32)
  | loadResponseWptr (requestWptr requestRptr : UInt32)
  | loadResponseRptr (requestWptr requestRptr responseWptr : UInt32)
  /-- `msgqueue_request_pop`: `request_queue_rptr` for the entry address. -/
  | popIndex
  | popEntry (ptr : UInt32)
  | popLoad (request : Request)
  | popBump (request : Request) (ptr : UInt32)
  | popReload (request : Request)
  | popWrap (request : Request) (ptr : UInt32)
  | handle (request : Request)
  /-- `msgqueue_response_push`: `response_queue_wptr` for the entry address. -/
  | pushIndex (request : Request) (response : Response)
  | pushEntry (request : Request) (response : Response) (ptr : UInt32)
  | pushLoad (request : Request)
  | pushBump (request : Request) (ptr : UInt32)
  | pushReload (request : Request)
  | pushWrap (request : Request) (ptr : UInt32)
  /-- `advance_serial`. -/
  | serialLoad (request : Request)
  | serialStore (serial : UInt32)

/-- Where the host is in a push or a pop. It owns `request_queue_wptr` and `response_queue_rptr`,
so a guard is one shared access. -/
inductive HostPc where
  | idle
  | pushEntry (request : Request)
  | pushWptr (request : Request)
  | popEntry
  | popRptr (response : Response)

/-- The requests the host published, the calls of `process_queued_message` with their responses,
and the responses the host took. -/
structure Trace where
  pushed : List Request
  answered : List (Request × Response)
  popped : List Response

structure World where
  queue : MessageQueue
  fw : FwPc
  host : HostPc
  trace : Trace

/-- The last tests of `start_next_message`, on the four loaded pointers. As in
the source, `request_rptr` is bounded twice and `response_rptr` never. -/
def startNextMessageOk (requestWptr requestRptr responseWptr responseRptr : UInt32) : Bool :=
  if (responseWptr - responseRptr) % msgQueuePointerWrap = msgQueueSize.toUInt32 then false
  else !(decide (requestWptr ≥ msgQueuePointerWrap) || decide (requestRptr ≥ msgQueuePointerWrap) ||
    decide (responseWptr ≥ msgQueuePointerWrap) || decide (requestRptr ≥ msgQueuePointerWrap))

/-- One firmware access. The handler table is that of the moment, so answers may change. -/
def fwStep (messageHandlers : MessageHandlers) (s : World) : World :=
  let q := s.queue
  match s.fw with
  | .loadRequestWptr => { s with fw := .loadRequestRptr q.header.requestQueueWptr }
  | .loadRequestRptr requestWptr =>
    if requestWptr = q.header.requestQueueRptr then { s with fw := .loadRequestWptr }
    else { s with fw := .loadResponseWptr requestWptr q.header.requestQueueRptr }
  | .loadResponseWptr requestWptr requestRptr =>
    { s with fw := .loadResponseRptr requestWptr requestRptr q.header.responseQueueWptr }
  | .loadResponseRptr requestWptr requestRptr responseWptr =>
    if startNextMessageOk requestWptr requestRptr responseWptr q.header.responseQueueRptr then
      { s with fw := .popIndex }
    else { s with fw := .loadRequestWptr }
  | .popIndex => { s with fw := .popEntry q.header.requestQueueRptr }
  | .popEntry ptr => { s with fw := .popLoad (q.requestQueue (entryIndex ptr)) }
  | .popLoad request => { s with fw := .popBump request q.header.requestQueueRptr }
  | .popBump request ptr =>
    { s with
      fw := .popReload request
      queue := { q with header := { q.header with requestQueueRptr := ptr + 1 } } }
  | .popReload request => { s with fw := .popWrap request q.header.requestQueueRptr }
  | .popWrap request ptr =>
    { s with
      fw := .handle request
      queue := { q with
        header := { q.header with requestQueueRptr := ptr % msgQueuePointerWrap } } }
  | .handle request =>
    let (serial, response) :=
      processQueuedMessage messageHandlers q.header.lastSerial request Response.zero
    { s with
      fw := .pushIndex request response
      queue := { q with header := { q.header with lastSerial := serial } }
      trace := { s.trace with answered := s.trace.answered ++ [(request, response)] } }
  | .pushIndex request response =>
    { s with fw := .pushEntry request response q.header.responseQueueWptr }
  | .pushEntry request response ptr =>
    { s with
      fw := .pushLoad request
      queue := { q with
        responseQueue := Function.update q.responseQueue (entryIndex ptr) response } }
  | .pushLoad request => { s with fw := .pushBump request q.header.responseQueueWptr }
  | .pushBump request ptr =>
    { s with
      fw := .pushReload request
      queue := { q with header := { q.header with responseQueueWptr := ptr + 1 } } }
  | .pushReload request => { s with fw := .pushWrap request q.header.responseQueueWptr }
  | .pushWrap request ptr =>
    { s with
      fw := .serialLoad request
      queue := { q with
        header := { q.header with responseQueueWptr := ptr % msgQueuePointerWrap } } }
  | .serialLoad request =>
    if commandWritesSerial request then { s with fw := .loadRequestWptr }
    else { s with fw := .serialStore q.header.lastSerial }
  | .serialStore serial =>
    { s with
      fw := .loadRequestWptr
      queue := { q with header := { q.header with lastSerial := serial + 1 } } }

/-! ## The host -/

/-- `(wptr - rptr) mod MSG_QUEUE_POINTER_WRAP`, as the host computes it. -/
def occupancy (wptr rptr : UInt32) : UInt32 := (wptr - rptr) % msgQueuePointerWrap

/-- The next access of the operation the host is in. -/
def hostStep (s : World) : Option World :=
  let q := s.queue
  match s.host with
  | .idle => none
  | .pushEntry request => some
    { s with
      host := .pushWptr request
      queue := { q with
        requestQueue :=
          Function.update q.requestQueue (entryIndex q.header.requestQueueWptr) request } }
  | .pushWptr request => some
    { s with
      host := .idle
      queue := { q with
        header := { q.header with
          requestQueueWptr := (q.header.requestQueueWptr + 1) % msgQueuePointerWrap } }
      trace := { s.trace with pushed := s.trace.pushed ++ [request] } }
  | .popEntry => some
    { s with host := .popRptr (q.responseQueue (entryIndex q.header.responseQueueRptr)) }
  | .popRptr response => some
    { s with
      host := .idle
      queue := { q with
        header := { q.header with
          responseQueueRptr := (q.header.responseQueueRptr + 1) % msgQueuePointerWrap } }
      trace := { s.trace with popped := s.trace.popped ++ [response] } }

/-- Who moves next. `hostPush` and `hostPop` begin an operation by loading the
firmware's pointer and testing the guard; they need the host to be idle. -/
inductive Action where
  | fw (messageHandlers : MessageHandlers)
  | hostPush (request : Request)
  | hostPop
  | host

def step (s : World) : Action → Option World
  | .fw messageHandlers => some (fwStep messageHandlers s)
  | .hostPush request =>
    match s.host with
    | .idle =>
      if occupancy s.queue.header.requestQueueWptr s.queue.header.requestQueueRptr
          < msgQueueSize.toUInt32 then
        some { s with host := .pushEntry request }
      else none
    | _ => none
  | .hostPop =>
    match s.host with
    | .idle =>
      if s.queue.header.responseQueueWptr ≠ s.queue.header.responseQueueRptr then
        some { s with host := .popEntry }
      else none
    | _ => none
  | .host => hostStep s

def World.start (ptr serial : UInt32) (requestQueue : Fin msgQueueSize → Request)
    (responseQueue : Fin msgQueueSize → Response) : World where
  queue := ⟨⟨ptr, ptr, ptr, ptr, serial⟩, requestQueue, responseQueue⟩
  fw := .loadRequestWptr
  host := .idle
  trace := ⟨[], [], []⟩

end SystemFirmware.MsgQueue
