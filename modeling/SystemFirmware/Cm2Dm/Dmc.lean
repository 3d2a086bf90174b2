import SystemFirmware.Cm2Dm.Definitions

/-!
# CM2DM messages — the DMC against the SMC

`process_cm2dm_message` of `app/dmc/src/main.c` polls the SMC through
`bh_chip_get_cm2dm_message` of `lib/tenstorrent/bh_chip/bh_chip.c`: read a message,
acknowledge it if it is one, check whether its sequence number is the one processed
last, and dispatch it if not.

The system is the mailbox of the SMC, cut at single memory steps, and the DMC, cut at
its SMBus transfers. The bus carries one transfer at a time. A block read can fail
before the SMC sees the request or at any point after it; an ack can be delivered or
lost, and the DMC goes on in the same way.

A run lasts from one chip reset to the next: `bh_chip_reset_chip` first invalidates the
last sequence number, and ends the run, whatever it returns. Instances are the messages
put into `curr_msg`, in that order.
-/

namespace SystemFirmware.Cm2Dm.Dmc

open Lib

/-- Where the DMC is; `i` counts the rounds of `process_cm2dm_message`. -/
inductive DmcPc where
  | idle
  | request (i : ℕ)
  | reading (i : ℕ)
  /-- A message was read; before the ack. -/
  | acking (i : ℕ) (msg : Cm2dmMessage) (instanceNo : ℕ)
  /-- `bh_chip_get_cm2dm_message` has returned the message. -/
  | checking (i : ℕ) (msg : Cm2dmMessage) (instanceNo : ℕ)
  | resetting

structure System where
  smc : World
  pc : DmcPc
  lastCm2dmSeqNum : UInt8
  lastCm2dmSeqNumValid : Bool
  /-- What the request handler copied out for the read under way, and the last instance put by
  then. -/
  reply : Option (Cm2dmMessage × ℕ)
  dispatched : List (ℕ × Cm2dmMessage)

def System.start (lastSeqNum : UInt8) : System := ⟨World.start, .idle, lastSeqNum, false, none, []⟩

/-- What a message processor leads to: the next round, the end of the loop, or a
chip reset. -/
inductive Answer where
  | goOn
  | stop
  | reset
  deriving DecidableEq

inductive Action where
  | store (thread : ℕ) (id : Cm2DmMsgId) (data : UInt32)
  | setBit (thread : ℕ)
  | smbus
  | poll
  /-- The block read reaches the SMC. -/
  | request
  | readFail
  | readOk
  | ack (delivered : Bool)
  /-- The duplicate check, and the processor of the message if it is no duplicate. -/
  | check (answer : Answer)
  deriving DecidableEq

/-- `msg_id < ARRAY_SIZE(msg_processors) && msg_processors[msg_id]`: every id but
the null id has a processor. -/
def hasProcessor (msgId : UInt8) : Bool := decide (msgId.toNat < cm2DmMsgCount) && msgId != 0

def nextRound (i : ℕ) : DmcPc := if i + 1 < cm2DmMsgCount then .request (i + 1) else .idle

def afterProcessor (i : ℕ) : Answer → DmcPc
  | .goOn => nextRound i
  | .stop => .idle
  | .reset => .resetting

def processMessage (s : System) (i : ℕ) (msg : Cm2dmMessage) (instanceNo : ℕ) (answer : Answer) :
    System :=
  if s.lastCm2dmSeqNumValid = true ∧ s.lastCm2dmSeqNum = msg.seqNum then
    { s with pc := nextRound i }
  else
    let s := { s with lastCm2dmSeqNumValid := true, lastCm2dmSeqNum := msg.seqNum }
    if hasProcessor msg.msgId then
      { s with pc := afterProcessor i answer, dispatched := s.dispatched ++ [(instanceNo, msg)] }
    else { s with pc := nextRound i }

def step (s : System) : Action → Option System
  | .store thread id data =>
    (Cm2Dm.step s.smc (.store thread id data)).map fun smc => { s with smc := smc }
  | .setBit thread => (Cm2Dm.step s.smc (.setBit thread)).map fun smc => { s with smc := smc }
  | .smbus => (Cm2Dm.step s.smc .smbus).map fun smc => { s with
      smc := smc
      reply := if s.smc.smbus = .reqCopy then
        some (s.smc.mailbox.currMsg, s.smc.trace.put.length - 1) else s.reply }
  | .poll =>
    match s.pc with
    | .idle => some { s with pc := .request 0 }
    | _ => none
  | .request =>
    match s.pc with
    | .request i => (Cm2Dm.step s.smc .req).map fun smc =>
        { s with smc := smc, pc := .reading i, reply := none }
    | _ => none
  | .readFail =>
    match s.pc with
    | .request _ | .reading _ => some { s with pc := .idle }
    | _ => none
  | .readOk =>
    match s.pc, s.reply with
    | .reading i, some (msg, instanceNo) =>
      if msg.msgId = 0 then some { s with pc := .idle }
      else some { s with pc := .acking i msg instanceNo }
    | _, _ => none
  | .ack delivered =>
    match s.pc with
    | .acking i msg instanceNo =>
      if delivered then
        (Cm2Dm.step s.smc (.ack [msg.msgId, msg.seqNum])).map fun smc =>
          { s with smc := smc, pc := .checking i msg instanceNo }
      else some { s with pc := .checking i msg instanceNo }
    | _ => none
  | .check answer =>
    match s.pc with
    | .checking i msg instanceNo => some (processMessage s i msg instanceNo answer)
    | _ => none

end SystemFirmware.Cm2Dm.Dmc
