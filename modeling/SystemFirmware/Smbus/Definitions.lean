import Mathlib.Data.Int.Notation
import Mathlib.Logic.Function.Iterate
import SystemFirmware.Lib.Exec

/-!
# SMBus target — the driver

`drivers/smbus/target/smbus_target.c`: the callbacks of the I2C controller run a state
machine that collects the bytes of a write and hands out the bytes of a read. What the
application's receive and send handlers return, and what a send handler stores, comes
with the callback that calls them.

The two buffers are functions of the index, and every access is logged with the index it
uses: an access beyond the end is expressible, and to be excluded.
-/

namespace SystemFirmware.Smbus

open Lib

inductive TransType where
  | writeByte
  | readByte
  | writeWord
  | readWord
  | writeBlock
  | readBlock
  | readWriteBlock
  deriving DecidableEq, Repr

structure CmdDef where
  transType : TransType
  pec : Bool
  deriving DecidableEq, Repr

/-- `cmd_defs`. -/
abbrev CmdTable := UInt8 → Option CmdDef

inductive SmbusState where
  | idle
  | cmd
  | rcvData
  | rcvPec
  | sendData
  | sendPec
  | waitIdle
  deriving DecidableEq, Repr

def maxMsgSize : ℕ := 64

structure TargetData where
  errorCount : UInt32
  state : SmbusState
  command : UInt8
  blocksizeR : UInt8
  blocksizeW : UInt8
  rcvIndex : UInt8
  sendIndex : UInt8
  receivedData : ℕ → UInt8
  sendData : ℕ → UInt8

def TargetData.init : TargetData := ⟨0, .idle, 0, 0, 0, 0, 0, fun _ => 0, fun _ => 0⟩

/-- What the driver does to its buffers and its handlers. -/
inductive Access where
  | rcvStore (index : ℕ)
  | rcvLoad (index : ℕ)
  | sendLoad (index : ℕ)
  /-- A call of the receive handler, with the bytes it is shown. -/
  | rcvCall (data : List UInt8) (size : UInt8)
  | sendCall
  /-- A field of a command definition that is a null pointer. -/
  | nullDeref
  deriving DecidableEq, Repr

/-- What a handler leaves behind: the data, what it returns and what it did. -/
structure Result where
  data : TargetData
  ret : ℤ
  log : List Access

/-! ## CRC -/

def crcBit (polynomial crc : UInt8) : UInt8 :=
  if crc &&& 0x80 ≠ 0 then (crc <<< 1) ^^^ polynomial else crc <<< 1

/-- `crc8(&data, 1, polynomial, crc, false)`. -/
def crcByte (polynomial crc data : UInt8) : UInt8 :=
  Nat.iterate (crcBit polynomial) 8 (crc ^^^ data)

def pecCrc8 (crc data : UInt8) : UInt8 := crcByte 0x7 crc data

def crc8 (bytes : List UInt8) : UInt8 := bytes.foldl pecCrc8 0

-- the check value of the polynomial, over "123456789"
example : crc8 [0x31, 0x32, 0x33, 0x34, 0x35, 0x36, 0x37, 0x38, 0x39] = 0xF4 := by
  decide +kernel

def writeAddress (address : UInt16) : UInt8 := UInt8.ofNat (address.toNat * 2)

def readAddress (address : UInt16) : UInt8 := UInt8.ofNat (address.toNat * 2 + 1)

/-! ## Helpers of both handlers -/

/-- `SMBUS_LOG_ERR_RATELIMIT` and `state = SMBUS_STATE_WAIT_IDLE`. -/
def TargetData.fail (d : TargetData) : TargetData :=
  { d with errorCount := d.errorCount + 1, state := .waitIdle }

/-- `received_data[rcv_index++] = val`. -/
def TargetData.store (d : TargetData) (val : UInt8) : TargetData :=
  { d with
    receivedData := fun i => if i = d.rcvIndex.toNat then val else d.receivedData i
    rcvIndex := d.rcvIndex + 1 }

def TargetData.received (d : TargetData) (n : ℕ) : List UInt8 := (List.range n).map d.receivedData

def TargetData.sent (d : TargetData) (n : ℕ) : List UInt8 := (List.range n).map d.sendData

def TargetData.rcvCall (d : TargetData) : Access :=
  .rcvCall (d.received d.blocksizeW.toNat) d.blocksizeW

/-- What follows the receive handler's answer after data or PEC. -/
def TargetData.afterRcv (d : TargetData) (transType : TransType) (answer : ℤ) : TargetData :=
  if answer = 0 ∧ transType = .readWriteBlock then { d with state := .cmd }
  else if answer ≠ 0 then d.fail
  else { d with state := .waitIdle }

/-! ## `smbus_write_handler` -/

/-- State `IDLE`: the command byte. -/
def writeIdle (table : CmdTable) (d : TargetData) (val : UInt8) : Result :=
  let d := { d with command := val }
  match table d.command with
  | none => ⟨d.fail, -1, []⟩
  | some _ => ⟨{ d with state := .cmd }, 0, []⟩

/-- State `CMD`: the block length or the first data byte. -/
def writeCmd (cmd : CmdDef) (d : TargetData) (val : UInt8) (answer : ℤ) : Result :=
  match cmd.transType with
  | .writeBlock | .readWriteBlock =>
    let d := { d with blocksizeW := val }
    if d.blocksizeW.toNat > maxMsgSize then ⟨d.fail, -1, []⟩
    else ⟨{ d with state := .rcvData }, 0, []⟩
  | .writeByte =>
    let stored := Access.rcvStore d.rcvIndex.toNat
    let d := { d with blocksizeW := 1 }.store val
    if cmd.pec then ⟨{ d with state := .rcvPec }, 0, [stored]⟩
    else ⟨{ d with state := .waitIdle }, answer, [stored, d.rcvCall]⟩
  | .writeWord =>
    let stored := Access.rcvStore d.rcvIndex.toNat
    let d := { d with blocksizeW := 2 }.store val
    ⟨{ d with state := .rcvData }, 0, [stored]⟩
  | _ => ⟨d.fail, -1, []⟩

/-- State `RCV_DATA`. -/
def writeRcvData (cmd : CmdDef) (d : TargetData) (val : UInt8) (answer : ℤ) : Result :=
  let stored := Access.rcvStore d.rcvIndex.toNat
  let d := d.store val
  if d.rcvIndex = d.blocksizeW then
    if cmd.pec ∧ cmd.transType ≠ .readWriteBlock then ⟨{ d with state := .rcvPec }, 0, [stored]⟩
    else ⟨d.afterRcv cmd.transType answer, answer, [stored, d.rcvCall]⟩
  else ⟨d, 0, [stored]⟩

def rcvPecOf (address : UInt16) (cmd : CmdDef) (d : TargetData) : UInt8 :=
  let pec := pecCrc8 0 (writeAddress address)
  let pec := pecCrc8 pec d.command
  let pec := if cmd.transType = .writeBlock then pecCrc8 pec d.blocksizeW else pec
  (d.received d.blocksizeW.toNat).foldl pecCrc8 pec

/-- State `RCV_PEC`. -/
def writeRcvPec (address : UInt16) (cmd : CmdDef) (d : TargetData) (val : UInt8) (answer : ℤ) :
    Result :=
  let loads := (List.range d.blocksizeW.toNat).map Access.rcvLoad
  if rcvPecOf address cmd d ≠ val then ⟨d.fail, -1, loads⟩
  else ⟨d.afterRcv cmd.transType answer, answer, loads ++ [d.rcvCall]⟩

/-- Through `curr_cmd`, which is looked up again in every callback. -/
def withCmd (table : CmdTable) (d : TargetData) (handle : CmdDef → Result) : Result :=
  match table d.command with
  | none => ⟨d, 0, [.nullDeref]⟩
  | some cmd => handle cmd

/-- `smbus_write_handler`; `answer` is what the receive handler returns if it is
called. -/
def writeHandler (table : CmdTable) (address : UInt16) (d : TargetData) (val : UInt8)
    (answer : ℤ) : Result :=
  match d.state with
  | .idle => writeIdle table d val
  | .cmd => withCmd table d fun cmd => writeCmd cmd d val answer
  | .rcvData => withCmd table d fun cmd => writeRcvData cmd d val answer
  | .rcvPec => withCmd table d fun cmd => writeRcvPec address cmd d val answer
  | .sendData | .sendPec | .waitIdle => ⟨d.fail, -1, []⟩

/-! ## `smbus_read_handler` -/

/-- What the send handler does if it is called: its return value, `send_data` and
`blocksize_r` behind it. -/
structure SendAnswer where
  ret : ℤ
  data : ℕ → UInt8
  size : UInt8

def TransType.isRead : TransType → Bool
  | .readByte | .readWord | .readBlock | .readWriteBlock => true
  | .writeByte | .writeWord | .writeBlock => false

/-- `pec ? SMBUS_STATE_SEND_PEC : SMBUS_STATE_WAIT_IDLE`. -/
def CmdDef.afterData (cmd : CmdDef) : SmbusState := if cmd.pec then .sendPec else .waitIdle

/-- `*val = send_data[send_index++]`: the byte and the data behind it. -/
def TargetData.load (d : TargetData) : UInt8 × TargetData :=
  (d.sendData d.sendIndex.toNat, { d with sendIndex := d.sendIndex + 1 })

/-- State `CMD`: ask the send handler, and start sending. -/
def readCmd (cmd : CmdDef) (d : TargetData) (answer : SendAnswer) : UInt8 × Result :=
  if !cmd.transType.isRead then (0xFF, ⟨d.fail, -1, []⟩)
  else
    let d := { d with sendData := answer.data, blocksizeR := answer.size }
    if answer.ret ≠ 0 then (0xFF, ⟨d.fail, -1, [.sendCall]⟩)
    else
      match cmd.transType with
      | .readWriteBlock | .readBlock => (d.blocksizeR, ⟨{ d with state := .sendData }, 0, [.sendCall]⟩)
      | .readByte =>
        let loaded := Access.sendLoad d.sendIndex.toNat
        let (val, d) := d.load
        (val, ⟨{ d with state := cmd.afterData }, 0, [.sendCall, loaded]⟩)
      | .readWord =>
        let loaded := Access.sendLoad d.sendIndex.toNat
        let (val, d) := d.load
        (val, ⟨{ d with state := .sendData }, 0, [.sendCall, loaded]⟩)
      | _ => (0xFF, ⟨d.fail, -1, [.sendCall]⟩)

/-- State `SEND_DATA`; the command is looked at only behind the last byte. -/
def readSendData (table : CmdTable) (d : TargetData) : UInt8 × Result :=
  let loaded := Access.sendLoad d.sendIndex.toNat
  let (val, d) := d.load
  if d.sendIndex = d.blocksizeR then
    match table d.command with
    | none => (val, ⟨d, 0, [loaded, .nullDeref]⟩)
    | some cmd => (val, ⟨{ d with state := cmd.afterData }, 0, [loaded]⟩)
  else (val, ⟨d, 0, [loaded]⟩)

/-- The PEC over a read: what was written, and what was sent. -/
def sendPecOf (address : UInt16) (cmd : CmdDef) (d : TargetData) : UInt8 :=
  let pec := pecCrc8 0 (writeAddress address)
  let pec := pecCrc8 pec d.command
  let pec := if cmd.transType = .readWriteBlock then pecCrc8 pec d.blocksizeW else pec
  let pec := (d.received d.rcvIndex.toNat).foldl pecCrc8 pec
  let pec := pecCrc8 pec (readAddress address)
  let pec := if cmd.transType = .readBlock ∨ cmd.transType = .readWriteBlock then
    pecCrc8 pec d.blocksizeR else pec
  (d.sent d.blocksizeR.toNat).foldl pecCrc8 pec

/-- State `SEND_PEC`. -/
def readSendPec (address : UInt16) (cmd : CmdDef) (d : TargetData) : UInt8 × Result :=
  let loads := (List.range d.rcvIndex.toNat).map Access.rcvLoad ++
    (List.range d.blocksizeR.toNat).map Access.sendLoad
  (sendPecOf address cmd d, ⟨{ d with state := .waitIdle }, 0, loads⟩)

/-- `smbus_read_handler`: the byte it hands out, and what it leaves behind. -/
def readHandler (table : CmdTable) (address : UInt16) (d : TargetData) (answer : SendAnswer) :
    UInt8 × Result :=
  match d.state with
  | .cmd =>
    match table d.command with
    | none => (0xFF, ⟨d, 0, [.nullDeref]⟩)
    | some cmd => readCmd cmd d answer
  | .sendData => readSendData table d
  | .sendPec =>
    match table d.command with
    | none => (0xFF, ⟨d, 0, [.nullDeref]⟩)
    | some cmd => readSendPec address cmd d
  | .idle | .rcvData | .rcvPec | .waitIdle => (0xFF, ⟨d.fail, -1, []⟩)

/-! ## Callbacks -/

/-- `reset_state_machine`. The buffers are not erased. -/
def resetStateMachine (d : TargetData) : TargetData :=
  { d with
    state := .idle
    command := 0
    blocksizeR := 0
    blocksizeW := 0
    rcvIndex := 0
    sendIndex := 0 }

/-- `smbus_target_cb_impl`. Both read callbacks are the read handler. -/
inductive Callback where
  | writeRequested
  | writeReceived (val : UInt8) (answer : ℤ)
  | readRequested (answer : SendAnswer)
  | readProcessed (answer : SendAnswer)
  | stop

structure World where
  data : TargetData
  trace : List Access

def World.init : World := ⟨.init, []⟩

def World.after (w : World) (r : Result) : World := ⟨r.data, w.trace ++ r.log⟩

/-- One callback; all of them are always possible. -/
def step (table : CmdTable) (address : UInt16) (w : World) : Callback → Option World
  | .writeRequested | .stop => some { w with data := resetStateMachine w.data }
  | .writeReceived val answer => some (w.after (writeHandler table address w.data val answer))
  | .readRequested answer | .readProcessed answer =>
    some (w.after (readHandler table address w.data answer).2)

end SystemFirmware.Smbus
