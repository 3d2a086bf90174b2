import SystemFirmware.Lib.Bytes
import SystemFirmware.Lib.Flash

/-!
# OEM shell commands — definitions

`tt_pldm_oem.c` lets a management controller run shell commands on the device. An EXEC
request leaves a command in the context and submits a work item; the thread of the work
queue runs it and leaves the result, which GET_RESULT requests read in chunks. CANCEL
takes a command back that is still queued.

* A request handler holds the mutex of the context from its first access to its last, so
  it is one action. The only other thing it touches is the work item, in one call of
  `k_work_submit_to_queue`; the queue's own access to the item (`dequeue`) commutes with
  the rest.
* The worker's run is cut at its two mutex sections and at the command in between.
* The response header is packed from a request header that was unpacked before, which
  succeeds. No one else uses the dummy shell.

The world also has a record of every EXEC that was handled, every command that was
executed, and which ones were canceled while queued. Commands are told apart by the
position of their EXEC.
-/

namespace SystemFirmware.PldmOem

open Lib

-- ---
-- The context

inductive ShellState where
  | idle
  | queued
  | running
  | done
  | failed
  | canceled
  deriving DecidableEq, Repr

def shellMaxCmdLen : ℕ := 96

def shellMaxOutputLen : ℕ := 256

def shellMaxChunkLen : ℕ := 40

def ecanceled : Int32 := 140

def enodev : Int32 := 19

/-- `cmd` is what lies in front of `cmd_len` in `cmd[]`. -/
structure Context where
  state : ShellState := .idle
  cancelRequested : Bool := false
  requestId : UInt16 := 0
  cmd : List UInt8 := []
  shellRc : Int32 := 0
  output : Flash := fun _ => 0
  outputLen : ℕ := 0

def Context.storeResult (ctx : Context) (state : ShellState) (shellRc : Int32)
    (output : List UInt8) : Context :=
  let outputLen := min output.length shellMaxOutputLen
  { ctx with
    state := state
    shellRc := shellRc
    outputLen := outputLen
    output := ctx.output.program 0 (output.take outputLen) }

-- ---
-- Replies

inductive CompletionCode where
  | success
  | error
  | errorInvalidData
  | errorInvalidLength
  | errorNotReady
  deriving DecidableEq, Repr

structure Result where
  requestId : UInt16
  state : ShellState
  shellRc : Int32
  totalLen : ℕ
  offset : ℕ
  chunk : List UInt8
  more : Bool
  deriving DecidableEq

/-- A reply that only has a completion code, one to EXEC or CANCEL, and one to GET_RESULT. -/
inductive Reply where
  | ccOnly (cc : CompletionCode)
  | status (cc : CompletionCode) (requestId : UInt16) (state : ShellState)
  | result (result : Result)
  deriving DecidableEq

def Reply.cc : Reply → CompletionCode
  | .ccOnly cc => cc
  | .status cc _ _ => cc
  | .result _ => .success

-- ---
-- Requests

/-- `k_work_submit_to_queue`: what it returns, and that the item is queued afterwards. -/
def workSubmit (queued running : Bool) : ℤ × Bool :=
  if queued then (0, true) else if running then (2, true) else (1, true)

def execRequestId (payload : List UInt8) : UInt16 := ofLe16 (payload.take 2)

def execCmdLen (payload : List UInt8) : ℕ := (payload[2]?.getD 0).toNat

def execCmd (payload : List UInt8) : List UInt8 := (payload.drop 3).take (execCmdLen payload)

/-- The length checks of an EXEC. -/
def execLengthOk (payload : List UInt8) : Bool :=
  decide (¬ payload.length < 3 ∧ ¬ (execCmdLen payload = 0 ∨ execCmdLen payload > shellMaxCmdLen ∨
    payload.length ≠ 3 + execCmdLen payload))

def handleExec (ctx : Context) (queued running : Bool) (payload : List UInt8) :
    Reply × Context × Bool :=
  if !execLengthOk payload then (.ccOnly .errorInvalidLength, ctx, queued)
  else
    let requestId := execRequestId payload
    if ctx.state = .queued ∨ ctx.state = .running then
      (.status .errorNotReady requestId ctx.state, ctx, queued)
    else
      let ctx :=
        { ctx with
          requestId := requestId
          cmd := execCmd payload
          cancelRequested := false
          outputLen := 0
          shellRc := 0
          state := .queued }
      let (ret, queued) := workSubmit queued running
      if ret ≤ 0 then
        let ctx := { ctx with state := .idle }
        (.status .error requestId ctx.state, ctx, queued)
      else (.status .success requestId ctx.state, ctx, queued)

def handleGetResult (ctx : Context) (payload : List UInt8) : Reply :=
  if payload.length ≠ 5 then .ccOnly .errorInvalidLength
  else
    let requestId := ofLe16 (payload.take 2)
    let offset := (ofLe16 ((payload.drop 2).take 2)).toNat
    let maxLen := (payload[4]?.getD 0).toNat
    if ctx.state = .idle ∨ ctx.requestId ≠ requestId then .ccOnly .errorInvalidData
    else
      let totalLen := min ctx.outputLen 65535
      if offset > totalLen then .ccOnly .errorInvalidData
      else
        let allowed := if maxLen ≠ 0 then min shellMaxChunkLen maxLen else shellMaxChunkLen
        let hasOutput := ctx.state = .done ∨ ctx.state = .failed
        let chunkLen := if hasOutput then min (totalLen - offset) allowed else 0
        .result
          { requestId := requestId
            state := ctx.state
            shellRc := ctx.shellRc
            totalLen := totalLen
            offset := offset
            chunk := ctx.output.read offset chunkLen
            more :=
              if hasOutput then decide (offset + chunkLen < totalLen)
              else decide (ctx.state = .queued ∨ ctx.state = .running) }

def handleCancel (ctx : Context) (payload : List UInt8) : Reply × Context :=
  if payload.length ≠ 2 then (.ccOnly .errorInvalidLength, ctx)
  else
    let requestId := ofLe16 payload
    if ctx.state = .idle ∨ ctx.requestId ≠ requestId then (.ccOnly .errorInvalidData, ctx)
    else if ctx.state = .queued then
      let ctx := { ctx with cancelRequested := true }
      let ctx := ctx.storeResult .canceled (-ecanceled) []
      (.status .success requestId ctx.state, ctx)
    else if ctx.state = .running then
      let ctx := { ctx with cancelRequested := true }
      (.status .errorNotReady requestId ctx.state, ctx)
    else (.status .success requestId ctx.state, ctx)

-- ---
-- The worker

/-- The first mutex section of `tt_pldm_shell_execute_work`: the context, and the command to run. -/
def takeCommand (ctx : Context) : Context × Option (List UInt8) :=
  if ctx.state ≠ .queued then (ctx, none)
  else if ctx.cancelRequested then (ctx.storeResult .canceled (-ecanceled) [], none)
  else ({ ctx with state := .running }, some ctx.cmd)

/-- "shell backend unavailable\n". -/
def backendUnavailable : List UInt8 :=
  "shell backend unavailable\n".toList.map fun c => UInt8.ofNat c.toNat

/-- Between the sections: `none` is a dummy shell that is not there, else its return code and
output. -/
def runShell : Option (Int32 × List UInt8) → Int32 × List UInt8
  | none => (-enodev, backendUnavailable)
  | some result => result

def putResult (ctx : Context) (rc : Int32) (output : List UInt8) : Context :=
  if ctx.cancelRequested then ctx.storeResult .canceled (-ecanceled) []
  else if rc = 0 then ctx.storeResult .done rc output
  else ctx.storeResult .failed rc output

/-- How far the worker is with the item; the item counts as running unless this is `idle`. -/
inductive Worker where
  | idle
  | started
  | running (serial : ℕ) (cmd : List UInt8)
  | executed (serial : ℕ) (rc : Int32) (output : List UInt8)
  | returning
  deriving DecidableEq

-- ---
-- Runs

structure ExecEntry where
  payload : List UInt8
  cc : CompletionCode

/-- A command that was executed, and what it returned and printed; without a dummy shell, the
result it leaves. -/
structure Execution where
  serial : ℕ
  cmd : List UInt8
  rc : Int32
  output : List UInt8

structure World where
  ctx : Context := {}
  queued : Bool := false
  worker : Worker := .idle
  /-- The last EXEC that was answered SUCCESS. -/
  serial : ℕ := 0
  execs : List ExecEntry := []
  executed : List Execution := []
  canceled : List ℕ := []

inductive Action where
  | exec (payload : List UInt8)
  | getResult (payload : List UInt8)
  | cancel (payload : List UInt8)
  | dequeue
  | take
  | execute (outcome : Option (Int32 × List UInt8))
  | put
  | finish

/-- An action of the worker whose turn it is not leaves everything as it is. -/
def step (s : World) : Action → World
  | .exec payload =>
    let (reply, ctx, queued) := handleExec s.ctx s.queued (s.worker ≠ .idle) payload
    { s with
      ctx := ctx
      queued := queued
      serial := if reply.cc = .success then s.execs.length else s.serial
      execs := s.execs ++ [⟨payload, reply.cc⟩] }
  | .getResult _ => s
  | .cancel payload =>
    let (_, ctx) := handleCancel s.ctx payload
    { s with
      ctx := ctx
      canceled :=
        if s.ctx.state = .queued ∧ ctx.state = .canceled then s.canceled ++ [s.serial]
        else s.canceled }
  | .dequeue =>
    if s.worker = .idle ∧ s.queued = true then { s with worker := .started, queued := false } else s
  | .take =>
    if s.worker = .started then
      let (ctx, command) := takeCommand s.ctx
      { s with
        ctx := ctx
        worker :=
          match command with
          | none => .returning
          | some cmd => .running s.serial cmd }
    else s
  | .execute outcome =>
    match s.worker with
    | .running serial cmd =>
      let (rc, output) := runShell outcome
      { s with
        worker := .executed serial rc output
        executed := s.executed ++ [⟨serial, cmd, rc, output⟩] }
    | _ => s
  | .put =>
    match s.worker with
    | .executed _ rc output => { s with ctx := putResult s.ctx rc output, worker := .returning }
    | _ => s
  | .finish => if s.worker = .returning then { s with worker := .idle } else s

def run (s : World) (actions : List Action) : World := actions.foldl step s

def World.Drained (s : World) : Prop := s.queued = false ∧ s.worker = .idle

def World.Accepted (s : World) (n : ℕ) : Prop :=
  ∃ e, s.execs[n]? = some e ∧ e.cc = .success

def World.timesExecuted (s : World) (n : ℕ) : ℕ := s.executed.countP (·.serial = n)

-- ---
-- Reading a result

def getResultPayload (requestId : UInt16) (offset : ℕ) (maxLen : UInt8) : List UInt8 :=
  le16 requestId ++ le16 (UInt16.ofNat offset) ++ [maxLen]

/-- A client that repeats GET_RESULT at the offset it has come to until `more` is 0, at most
`fuel` times; `meanwhile` happens before each request. -/
def readResult (requestId : UInt16) (maxLen : UInt8) (meanwhile : ℕ → List Action) :
    ℕ → World → ℕ → Option (List UInt8)
  | 0, _, _ => none
  | fuel + 1, s, offset =>
    let s := run s (meanwhile fuel)
    match handleGetResult s.ctx (getResultPayload requestId offset maxLen) with
    | .result r =>
      if r.more then
        (r.chunk ++ ·) <$> readResult requestId maxLen meanwhile fuel s (offset + r.chunk.length)
      else some r.chunk
    | _ => none

end SystemFirmware.PldmOem
