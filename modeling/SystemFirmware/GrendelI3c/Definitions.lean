import SystemFirmware.Lib.Exec

/-!
# GrendelI3c — commands between two dies

`drivers/misc/tt_grendel_i3c_controller` sends a command frame to the other die and polls
for a response that echoes the opcode; `drivers/misc/tt_grendel_i3c_target` runs the
command on a work queue and leaves the response to be read. The formats are in
`drivers/misc/tt_grendel_i3c.h`.

The controller runs one command at a time. A transfer waits on the wire until the target's
interrupt takes it, in the order of sending. Only the interrupt touches `rx_frame` and
`rx_len`, so a transfer is one step; the work item runs in steps that the interrupt can
come between. A read fails or returns the last response written.
-/

namespace SystemFirmware.GrendelI3c

open Lib

/-! ## Formats -/

def cmdPing : UInt8 := 0x01

def cmdD2dInit : UInt8 := 0x02

def cmdD2dStart : UInt8 := 0x03

def resultOk : UInt8 := 0

def resultNotOk : UInt8 := 1

/-- `TT_GRENDEL_I3C_CMD_PAYLOAD_MAX_LEN`, the size of a `tt_grendel_i3c_d2d_req`. -/
def cmdPayloadMaxLen : ℕ := 1

/-- The size of a `tt_grendel_i3c_cmd_frame`. -/
def frameLen : ℕ := 1 + cmdPayloadMaxLen

def padPayload (payload : List UInt8) : List UInt8 :=
  payload ++ List.replicate (cmdPayloadMaxLen - payload.length) 0

structure Response where
  result : UInt8
  opcode : UInt8
  deriving DecidableEq, Repr

def Response.bytes (r : Response) : List UInt8 := [r.result, r.opcode, 0, 0]

/-- A call of `tt_grendel_i3c_run_cmd`, by its number, with the payload of its frame. -/
structure Command where
  number : ℕ
  opcode : UInt8
  payload : List UInt8
  deriving DecidableEq, Repr

def Command.frame (c : Command) : List UInt8 := c.opcode :: c.payload

/-! ## The target -/

def einval : Int := 22

def enotsup : Int := 134

/-- What the D2D driver returns to a handler. -/
structure D2dResults where
  resetRelease : Int
  loadFw : Int
  start : Int

def handleD2dInit (numD2ds : ℕ) (r : D2dResults) (inst : UInt8) : Int :=
  if inst.toNat ≥ numD2ds then -einval
  else if r.resetRelease ≠ 0 then r.resetRelease
  else if r.loadFw ≠ 0 then r.loadFw
  else 0

def handleD2dStart (numD2ds : ℕ) (r : D2dResults) (inst : UInt8) : Int :=
  if inst.toNat ≥ numD2ds then -einval else r.start

def dispatch (numD2ds : ℕ) (r : D2dResults) (opcode : UInt8) (payload : List UInt8) : Int :=
  if opcode = cmdPing then 0
  else if opcode = cmdD2dInit then handleD2dInit numD2ds r (payload.getD 0 0)
  else if opcode = cmdD2dStart then handleD2dStart numD2ds r (payload.getD 0 0)
  else -enotsup

structure Dispatch where
  opcode : UInt8
  payload : List UInt8
  arrived : List ℕ
  deriving DecidableEq, Repr

/-- Where `tt_grendel_i3c_target_work` is. -/
inductive Work where
  | idle
  /-- Taken off the queue, `pending_opcode` not yet read. -/
  | starting
  /-- Dispatching; the handler has not yet read `pending_payload`. -/
  | running (opcode : UInt8) (arrived : List ℕ)
  | called (d : Dispatch)
  /-- The dispatch has returned, the response is not yet written. -/
  | answering (opcode : UInt8) (ret : Int)
  deriving DecidableEq, Repr

structure Target where
  /-- The first `rx_len` bytes of `rx_frame`. -/
  rxFrame : List UInt8
  pendingOpcode : UInt8
  pendingPayload : List UInt8
  /-- The work item is in the queue. -/
  queued : Bool
  work : Work
  /-- What the last `i3c_target_tx_write` left to be read. -/
  lastResponse : Option Response
  deriving DecidableEq, Repr

/-- `tt_grendel_i3c_write_received`. Submitting a queued item does nothing; a running one is
queued again. -/
def writeReceived (t : Target) (val : UInt8) : Target :=
  let rxFrame := t.rxFrame ++ [val]
  if rxFrame.length < frameLen then { t with rxFrame := rxFrame }
  else { t with
    rxFrame := []
    pendingOpcode := rxFrame.getD 0 0
    pendingPayload := rxFrame.drop 1
    queued := true }

def stop (t : Target) : Target := { t with rxFrame := [] }

def deliver (t : Target) (bytes : List UInt8) : Target := stop (bytes.foldl writeReceived t)

/-! ## The controller -/

def eio : Int := 5

def eagain : Int := 11

def enodev : Int := 19

def etimedout : Int := 116

/-- `tt_grendel_i3c_read_response`, for the bytes of a read that did not fail. -/
def readResponse (buf : Option (List UInt8)) (opcode : UInt8) : Except Int Response :=
  match buf with
  | none => .error (-eio)
  | some bytes =>
    let resp : Response := ⟨bytes.getD 0 0, bytes.getD 1 0⟩
    if resp.opcode ≠ opcode then .error (-eagain) else .ok resp

/-- One round of the polling loop: what `tt_grendel_i3c_run_cmd` returns, if it does. -/
def pollResult (buf : Option (List UInt8)) (opcode : UInt8) (expired : Bool) : Option Int :=
  match readResponse buf opcode with
  | .ok resp => some (if resp.result ≠ resultOk then -eio else 0)
  | .error _ => if expired then some (-etimedout) else none

inductive Controller where
  | idle
  | polling (c : Command)
  deriving DecidableEq, Repr

/-! ## Runs -/

/-- A write on the wire: the first bytes of a command's frame, or all of it. -/
structure Transfer where
  command : ℕ
  bytes : List UInt8
  deriving DecidableEq, Repr

structure World where
  controller : Controller
  wire : List Transfer
  target : Target
  calls : ℕ
  arrived : List ℕ
  dispatches : List (Dispatch × Int)
  returns : List (Command × Int)
  deriving DecidableEq, Repr

def World.start : World :=
  ⟨.idle, [], ⟨[], 0, [0], false, .idle, none⟩, 0, [], [], []⟩

/-- What becomes of the write of a frame. -/
inductive Write where
  | noTarget
  /-- The transfer fails after this many bytes. -/
  | failed (bytes : ℕ)
  | written

inductive Action where
  | runCmd (opcode : UInt8) (payload : List UInt8) (write : Write)
  /-- One round of the loop: is the read successful, has the deadline passed? -/
  | poll (read expired : Bool)
  /-- The target's interrupt takes the next transfer. -/
  | interrupt
  | workStart
  | workOpcode
  | workPayload
  | workDone (r : D2dResults)
  | workAnswer (written : Bool)

def runCmd (w : World) (opcode : UInt8) (payload : List UInt8) (write : Write) : World :=
  let c : Command := ⟨w.calls, opcode, padPayload payload⟩
  match write with
  | .noTarget => { w with calls := w.calls + 1, returns := w.returns ++ [(c, -enodev)] }
  | .failed bytes => { w with
      calls := w.calls + 1
      wire := w.wire ++ [⟨c.number, c.frame.take bytes⟩]
      returns := w.returns ++ [(c, -eio)] }
  | .written => { w with
      calls := w.calls + 1
      wire := w.wire ++ [⟨c.number, c.frame⟩]
      controller := .polling c }

def step (numD2ds : ℕ) (w : World) : Action → Option World
  | .runCmd opcode payload write =>
    match w.controller with
    | .polling _ => none
    | .idle => if payload.length ≤ cmdPayloadMaxLen then some (runCmd w opcode payload write) else none
  | .poll read expired =>
    match w.controller with
    | .idle => none
    | .polling c =>
      let buf := if read then w.target.lastResponse.map Response.bytes else none
      match pollResult buf c.opcode expired with
      | none => some w
      | some ret => some { w with controller := .idle, returns := w.returns ++ [(c, ret)] }
  | .interrupt =>
    match w.wire with
    | [] => none
    | x :: later => some { w with
        wire := later
        target := deliver w.target x.bytes
        arrived := if x.bytes.length = frameLen then w.arrived ++ [x.command] else w.arrived }
  | .workStart =>
    if w.target.queued = true ∧ w.target.work = .idle then
      some { w with target := { w.target with queued := false, work := .starting } }
    else none
  | .workOpcode =>
    match w.target.work with
    | .starting => some { w with
        target := { w.target with work := .running w.target.pendingOpcode w.arrived } }
    | _ => none
  | .workPayload =>
    match w.target.work with
    | .running opcode arrived => some { w with
        target := { w.target with work := .called ⟨opcode, w.target.pendingPayload, arrived⟩ } }
    | _ => none
  | .workDone r =>
    match w.target.work with
    | .called d =>
      let ret := dispatch numD2ds r d.opcode d.payload
      some { w with
        target := { w.target with work := .answering d.opcode ret }
        dispatches := w.dispatches ++ [(d, ret)] }
    | _ => none
  | .workAnswer written =>
    match w.target.work with
    | .answering opcode ret =>
      let resp : Response := ⟨if ret = 0 then resultOk else resultNotOk, opcode⟩
      some { w with target := { w.target with
        work := .idle
        lastResponse := if written then some resp else w.target.lastResponse } }
    | _ => none

end SystemFirmware.GrendelI3c
