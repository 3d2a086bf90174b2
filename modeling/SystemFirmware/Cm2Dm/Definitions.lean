import SystemFirmware.Lib.Exec
import SystemFirmware.Lib.Bits
import Mathlib.Logic.Function.Basic

/-!
# CM2DM mailbox — definitions

`lib/tenstorrent/bh_arc/cm2dm_msg.c`: threads of the SMC post messages for the
DMC in one slot per message id, and the SMBus side hands them out one at a
time. `PostCm2DmMsg` stores the value and then sets the pending bit of its id;
`Cm2DmMsgReqSmbusHandler` picks a pending id, clears its bit and then reads the
value; `Cm2DmMsgAckSmbusHandler` retires the message.

Both sides are cut at single memory steps. Any number of threads may be inside
a post, but the SMBus side runs one handler at a time.
-/

namespace SystemFirmware.Cm2Dm

open Lib

/-! ## Messages -/

inductive Cm2DmMsgId where
  | null
  | resetReq
  | ping
  | fanSpeedUpdate
  | ready
  | autoResetTimeoutUpdate
  | telemHeartbeatUpdate
  | forcedFanSpeedUpdate
  | ledBlink
  | gddrThermTrip
  deriving DecidableEq, Repr

def Cm2DmMsgId.toNat : Cm2DmMsgId → ℕ
  | .null => 0
  | .resetReq => 1
  | .ping => 2
  | .fanSpeedUpdate => 3
  | .ready => 4
  | .autoResetTimeoutUpdate => 5
  | .telemHeartbeatUpdate => 6
  | .forcedFanSpeedUpdate => 7
  | .ledBlink => 8
  | .gddrThermTrip => 9

def cm2DmMsgCount : ℕ := 10

theorem Cm2DmMsgId.toNat_lt (id : Cm2DmMsgId) : id.toNat < cm2DmMsgCount := by
  cases id <;> decide

theorem Cm2DmMsgId.toNat_inj {a b : Cm2DmMsgId} (h : a.toNat = b.toNat) : a = b := by
  cases a <;> cases b <;> first | rfl | exact absurd h (by decide)

@[ext]
structure Cm2dmMessage where
  msgId : UInt8
  seqNum : UInt8
  data : UInt32
  deriving DecidableEq, Repr

def Cm2dmMessage.zero : Cm2dmMessage := ⟨0, 0, 0⟩

/-! ## State of the mailbox -/

/-- `Cm2DmMsgState`. `nextMsgs` is indexed by the number of the id. -/
structure Cm2DmMsgState where
  pendingMessages : BitVec 32
  nextIdRr : ℕ
  nextSeqNum : UInt8
  currMsgValid : Bool
  currMsg : Cm2dmMessage
  nextMsgs : ℕ → UInt32

def Cm2DmMsgState.init : Cm2DmMsgState := ⟨0, 0, 0, false, Cm2dmMessage.zero, fun _ => 0⟩

/-- `GENMASK(31, l)`. -/
def genmask31 (l : ℕ) : BitVec 32 := BitVec.allOnes 32 <<< l

def nextIdRr (rr : ℕ) (pendingMessages : BitVec 32) : ℕ :=
  let hiPending := pendingMessages &&& genmask31 rr
  let searchMessages := if hiPending ≠ 0 then hiPending else pendingMessages
  lowestSet searchMessages

/-- When an ack retires the current message: two bytes, a valid message, and its `msg_id` and
`seq_num`. -/
def ackMatches (s : Cm2DmMsgState) (data : List UInt8) : Bool :=
  match data with
  | [msgId, seqNum] =>
    s.currMsgValid && msgId == s.currMsg.msgId && seqNum == s.currMsg.seqNum
  | _ => false

/-! ## The machine -/

/-- Where the SMBus side is, named after the access that comes next. -/
inductive SmbusPc where
  | idle
  /-- `Cm2DmMsgReqSmbusHandler`: test `curr_msg_valid`. -/
  | reqTest
  /-- `atomic_get` of the pending bits, then `next_id_rr`. -/
  | reqGet
  | reqClear (id : ℕ)
  | reqMsgId (id : ℕ)
  | reqSeqNum (id : ℕ)
  | reqLoad (id : ℕ)
  | reqData (id : ℕ) (data : UInt32)
  | reqValid
  | reqCopy
  /-- `Cm2DmMsgAckSmbusHandler` after `curr_msg_valid = false`: clear `curr_msg`. -/
  | ackClear
  deriving DecidableEq

/-- The stores to `next_msgs`, the messages put into `curr_msg` (when they become valid), how many
were retired, and what finished requests returned. -/
structure Trace where
  stored : List (Cm2DmMsgId × UInt32)
  put : List Cm2dmMessage
  retired : ℕ
  returned : List Cm2dmMessage

structure World where
  mailbox : Cm2DmMsgState
  smbus : SmbusPc
  /-- The id a thread is posting, after its store and before its bit is set. -/
  posting : ℕ → Option Cm2DmMsgId
  trace : Trace

def World.start : World := ⟨Cm2DmMsgState.init, .idle, fun _ => none, ⟨[], [], 0, []⟩⟩

/-- One access of the SMBus side inside a handler. -/
def smbusStep (s : World) : Option World :=
  let m := s.mailbox
  match s.smbus with
  | .idle => none
  | .reqTest => some { s with smbus := if m.currMsgValid then .reqCopy else .reqGet }
  | .reqGet =>
    if m.pendingMessages ≠ 0 then
      let id := nextIdRr m.nextIdRr m.pendingMessages
      some { s with
        smbus := .reqClear id
        mailbox := { m with nextIdRr := (id + 1) % cm2DmMsgCount } }
    else some { s with smbus := .reqCopy }
  | .reqClear id => some { s with
      smbus := .reqMsgId id
      mailbox := { m with pendingMessages := clearBit m.pendingMessages id } }
  | .reqMsgId id => some { s with
      smbus := .reqSeqNum id
      mailbox := { m with currMsg := { m.currMsg with msgId := id.toUInt8 } } }
  | .reqSeqNum id => some { s with
      smbus := .reqLoad id
      mailbox := { m with
        currMsg := { m.currMsg with seqNum := m.nextSeqNum }
        nextSeqNum := m.nextSeqNum + 1 } }
  | .reqLoad id => some { s with smbus := .reqData id (m.nextMsgs id) }
  | .reqData _ data => some { s with
      smbus := .reqValid
      mailbox := { m with currMsg := { m.currMsg with data := data } } }
  | .reqValid => some { s with
      smbus := .reqCopy
      mailbox := { m with currMsgValid := true }
      trace := { s.trace with put := s.trace.put ++ [m.currMsg] } }
  | .reqCopy => some { s with
      smbus := .idle
      trace := { s.trace with returned := s.trace.returned ++ [m.currMsg] } }
  | .ackClear => some { s with
      smbus := .idle
      mailbox := { m with currMsg := Cm2dmMessage.zero } }

inductive Action where
  /-- A thread runs the store of `PostCm2DmMsg`. -/
  | store (thread : ℕ) (id : Cm2DmMsgId) (data : UInt32)
  /-- The thread then runs its `atomic_set_bit`. -/
  | setBit (thread : ℕ)
  | req
  /-- An ack with these bytes arrives: `Cm2DmMsgAckSmbusHandler` runs its test. -/
  | ack (data : List UInt8)
  | smbus
  deriving DecidableEq

def step (s : World) : Action → Option World
  | .store thread id data =>
    match s.posting thread with
    | none => some { s with
        mailbox := { s.mailbox with
          nextMsgs := Function.update s.mailbox.nextMsgs id.toNat data }
        posting := Function.update s.posting thread (some id)
        trace := { s.trace with stored := s.trace.stored ++ [(id, data)] } }
    | some _ => none
  | .setBit thread =>
    match s.posting thread with
    | some id => some { s with
        mailbox := { s.mailbox with
          pendingMessages := Lib.setBit s.mailbox.pendingMessages id.toNat }
        posting := Function.update s.posting thread none }
    | none => none
  | .req => if s.smbus = .idle then some { s with smbus := .reqTest } else none
  | .ack data =>
    if s.smbus = .idle then
      if ackMatches s.mailbox data then
        some { s with
          smbus := .ackClear
          mailbox := { s.mailbox with currMsgValid := false }
          trace := { s.trace with retired := s.trace.retired + 1 } }
      else some s
    else none
  | .smbus => smbusStep s

/-! ## What each action can do -/

section

variable {s t : World} {a : Action}

theorem step_store_cases {thread : ℕ} {id : Cm2DmMsgId} {data : UInt32}
    (hstep : step s (.store thread id data) = some t) :
    s.posting thread = none ∧ t = { s with
      mailbox := { s.mailbox with nextMsgs := Function.update s.mailbox.nextMsgs id.toNat data }
      posting := Function.update s.posting thread (some id)
      trace := { s.trace with stored := s.trace.stored ++ [(id, data)] } } := by
  simp only [step] at hstep
  split at hstep <;> cases hstep
  rename_i hfree
  exact ⟨hfree, rfl⟩

theorem step_setBit_cases {thread : ℕ} (hstep : step s (.setBit thread) = some t) :
    ∃ id, s.posting thread = some id ∧ t = { s with
      mailbox := { s.mailbox with
        pendingMessages := Lib.setBit s.mailbox.pendingMessages id.toNat }
      posting := Function.update s.posting thread none } := by
  simp only [step] at hstep
  split at hstep <;> cases hstep
  rename_i id hposted
  exact ⟨id, hposted, rfl⟩

theorem step_req_cases (hstep : step s .req = some t) :
    s.smbus = .idle ∧ t = { s with smbus := .reqTest } := by
  simp only [step] at hstep
  split at hstep <;> cases hstep
  rename_i hidle
  exact ⟨hidle, rfl⟩

theorem step_ack_cases {data : List UInt8} (hstep : step s (.ack data) = some t) :
    s.smbus = .idle ∧ (ackMatches s.mailbox data = true ∧ t = { s with
        smbus := .ackClear
        mailbox := { s.mailbox with currMsgValid := false }
        trace := { s.trace with retired := s.trace.retired + 1 } } ∨
      ackMatches s.mailbox data = false ∧ t = s) := by
  simp only [step] at hstep
  split at hstep
  · rename_i hidle
    split at hstep <;> cases hstep
    · rename_i hmatch
      exact ⟨hidle, .inl ⟨hmatch, rfl⟩⟩
    · rename_i hmatch
      exact ⟨hidle, .inr ⟨Bool.not_eq_true _ ▸ hmatch, rfl⟩⟩
  · cases hstep

theorem smbusStep_posts (hstep : smbusStep s = some t) :
    t.posting = s.posting ∧ t.trace.stored = s.trace.stored := by
  obtain ⟨m, smbus, posting, trace⟩ := s
  cases smbus with
  | idle => cases hstep
  | reqGet =>
    simp only [smbusStep] at hstep
    split at hstep <;> cases hstep <;> exact ⟨rfl, rfl⟩
  | reqTest | reqClear | reqMsgId | reqSeqNum | reqLoad | reqData | reqValid | reqCopy | ackClear =>
    cases hstep
    exact ⟨rfl, rfl⟩

theorem step_posts_cases (hstep : step s a = some t) :
    (∃ thread id data, a = .store thread id data ∧
      t.posting = Function.update s.posting thread (some id) ∧
      t.trace.stored = s.trace.stored ++ [(id, data)]) ∨
    (∃ thread, t.posting = Function.update s.posting thread none ∧
      t.trace.stored = s.trace.stored) ∨
    t.posting = s.posting ∧ t.trace.stored = s.trace.stored := by
  cases a with
  | store thread id data =>
    obtain ⟨-, rfl⟩ := step_store_cases hstep
    exact .inl ⟨thread, id, data, rfl, rfl, rfl⟩
  | setBit thread =>
    obtain ⟨id, -, rfl⟩ := step_setBit_cases hstep
    exact .inr (.inl ⟨thread, rfl, rfl⟩)
  | req =>
    obtain ⟨-, rfl⟩ := step_req_cases hstep
    exact .inr (.inr ⟨rfl, rfl⟩)
  | ack data =>
    obtain ⟨-, ⟨-, rfl⟩ | ⟨-, rfl⟩⟩ := step_ack_cases hstep
    · exact .inr (.inr ⟨rfl, rfl⟩)
    · exact .inr (.inr ⟨rfl, rfl⟩)
  | smbus => exact .inr (.inr (smbusStep_posts hstep))

end

end SystemFirmware.Cm2Dm
