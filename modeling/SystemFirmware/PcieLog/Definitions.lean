import SystemFirmware.Lib.Bytes
import SystemFirmware.Lib.Flash
import Mathlib.Algebra.Ring.Nat

/-!
# PCIe log backend — definitions

`tt_pcie_log.c` frames log messages in a local buffer and hands them to the host in
batches, through a buffer in host memory that has one owner at a time.

* Log messages, flushes, setup and release all run under `buffer_mutex`, so each is one
  action. That the mutex was not to be had in time is an input of the action.
* Messages come one at a time, from the thread of deferred logging.
* What the formatter prints comes as the pieces it passes to `putc_in_frame`.
* The host's memory is seen through a TLB window, addressed by the low 24 bits
  (`windowAddr`). What a load finds there is an input. Every access to the host is
  recorded.

The world also has a record of what became of every message.
-/

namespace SystemFirmware.PcieLog

open Lib

-- ---
-- Entries

def entryHeaderSize : ℕ := 12

def bufferHeaderSize : ℕ := 16

def flushThresholdBytes : ℕ := entryHeaderSize + 256

def fwLogSourceSmc : UInt8 := 0

def logLevelNone : UInt8 := 0

def logLevelErr : UInt8 := 1

def fwLogBufferMagic : UInt32 := 0x544C4F47

def ownerFw : UInt32 := 0

def ownerHost : UInt32 := 1

def entryHeader (msgSize : UInt16) (logLevel source : UInt8) (timestamp sequence : UInt32) :
    List UInt8 :=
  le16 msgSize ++ [logLevel, source] ++ le32 timestamp ++ le32 sequence

structure Entry where
  msgSize : ℕ
  logLevel : UInt8
  source : UInt8
  timestamp : UInt32
  sequence : UInt32
  payload : List UInt8
  deriving DecidableEq

def Entry.ofBytes (bytes : List UInt8) : Entry where
  msgSize := (ofLe16 (bytes.take 2)).toNat
  logLevel := bytes[2]?.getD 0
  source := bytes[3]?.getD 0
  timestamp := ofLe32 ((bytes.drop 4).take 4)
  sequence := ofLe32 ((bytes.drop 8).take 4)
  payload := bytes.drop entryHeaderSize

/-- The entries of a buffer, by following `msg_size`: each has room for its header and ends
inside. -/
def parseEntries : ℕ → List UInt8 → Option (List Entry)
  | _, [] => some []
  | 0, _ => none
  | fuel + 1, bytes =>
    let msgSize := (ofLe16 (bytes.take 2)).toNat
    if entryHeaderSize ≤ msgSize ∧ msgSize ≤ bytes.length then
      (Entry.ofBytes (bytes.take msgSize) :: ·) <$> parseEntries fuel (bytes.drop msgSize)
    else none

def Entry.NulTerminated (e : Entry) : Prop := e.payload.getLast? = some 0

-- ---
-- State

structure State where
  hostAvailable : Bool := false
  logBufferIova : UInt64 := 0
  logBufferSize : UInt32 := 0
  sequenceNumber : UInt32 := 0
  framedLogBuffer : Flash := fun _ => 0
  framedBufferPos : ℕ := 0

-- ---
-- Host memory

/-- Where `GetTlbWindowAddr` finds an address in the window of the TLB. -/
def windowAddr (addr : UInt64) : ℕ := addr.toNat % 2 ^ 24

inductive HostOp where
  | read32 (addr : ℕ) (value : UInt32)
  | write32 (addr : ℕ) (data : UInt32)
  | msi
  deriving DecidableEq

/-- The words of some bytes; the last one is filled up with zeros. -/
def wordsOf : List UInt8 → List UInt32
  | [] => []
  | a :: b :: c :: d :: rest => ofLe32 [a, b, c, d] :: wordsOf rest
  | rest => [ofLe32 rest]

/-- The data area, written word by word. `write_addr` is a 32-bit number. -/
def dataWrites (writeAddr : UInt32) : List UInt32 → List HostOp
  | [] => []
  | word :: words =>
    .write32 (windowAddr writeAddr.toUInt64) word :: dataWrites (writeAddr + 4) words

/-- The words that the checks of a flush read from the host: `magic` and `owner`. -/
structure HostHeader where
  magic : UInt32
  owner : UInt32

def flushBufferToHost (host : HostHeader) (s : State) : List HostOp × State :=
  if s.framedBufferPos = 0 ∨ s.hostAvailable = false then ([], s)
  else
    let readMagic := HostOp.read32 (windowAddr (s.logBufferIova + 8)) host.magic
    if host.magic ≠ fwLogBufferMagic then ([readMagic], { s with framedBufferPos := 0 })
    else
      let readOwner := HostOp.read32 (windowAddr (s.logBufferIova + 12)) host.owner
      if host.owner &&& 0xFF = ownerHost then
        ([readMagic, readOwner], { s with framedBufferPos := 0 })
      else
        let writeAddr := (s.logBufferIova + UInt64.ofNat bufferHeaderSize).toUInt32
        let availableHostSpace := s.logBufferSize.toNat - bufferHeaderSize
        let bytesToWrite := min s.framedBufferPos availableHostSpace
        let newWriteOffset := UInt32.ofNat (bufferHeaderSize + bytesToWrite)
        ([readMagic, readOwner] ++
            dataWrites writeAddr (wordsOf (s.framedLogBuffer.read 0 bytesToWrite)) ++
            [ .write32 (windowAddr s.logBufferIova) newWriteOffset,
              .write32 (windowAddr (s.logBufferIova + 12)) ownerHost, .msi ],
          { s with framedBufferPos := 0 })

-- ---
-- Framing

/-- What the backend reads of a log message, and what the formatter prints for it. -/
structure Message where
  level : UInt8
  hasSource : Bool
  timestamp : UInt32
  text : List (List UInt8)

section

variable (bufferSize : ℕ)

def putcInFrame (s : State) (data : List UInt8) : State :=
  let available := bufferSize - s.framedBufferPos
  let bytesToCopy := if available > 1 then min data.length (available - 1) else 0
  if bytesToCopy > 0 then
    { s with
      framedLogBuffer := s.framedLogBuffer.program s.framedBufferPos (data.take bytesToCopy)
      framedBufferPos := s.framedBufferPos + bytesToCopy }
  else s

/-- `backend_process` from the check for space on: the entry is put into the buffer. -/
def frameEntry (msg : Message) (s : State) : State :=
  let entryStartPos := s.framedBufferPos
  let header := entryHeader 0 msg.level fwLogSourceSmc msg.timestamp s.sequenceNumber
  let s :=
    { s with
      sequenceNumber := s.sequenceNumber + 1
      framedLogBuffer := s.framedLogBuffer.program s.framedBufferPos header
      framedBufferPos := s.framedBufferPos + entryHeaderSize }
  let messageStartPos := s.framedBufferPos
  let s := msg.text.foldl (putcInFrame bufferSize) s
  let s :=
    { s with
      framedLogBuffer := s.framedLogBuffer.program s.framedBufferPos [0]
      framedBufferPos := s.framedBufferPos + 1 }
  let messageLen := s.framedBufferPos - messageStartPos
  let totalSize := entryHeaderSize + messageLen
  { s with
    framedLogBuffer := s.framedLogBuffer.program entryStartPos (le16 (UInt16.ofNat totalSize)) }

/-- A message is not one to be forwarded, was dropped, or was framed as the entry. -/
inductive Outcome where
  | ignored
  | dropped
  | framed (entry : Entry)

/-- The accesses are those of the two flushes. -/
def backendProcess (msg : Message) (locked : Bool) (early late : HostHeader) (s : State) :
    Outcome × List HostOp × List HostOp × State :=
  if msg.level = logLevelNone ∧ msg.hasSource = false then (.ignored, [], [], s)
  else if !locked then
    (.dropped, [], [], { s with sequenceNumber := s.sequenceNumber + 1 })
  else
    let (earlyOps, s) :=
      if s.framedBufferPos + flushThresholdBytes > bufferSize then flushBufferToHost early s
      else ([], s)
    if s.framedBufferPos + entryHeaderSize + 1 > bufferSize then
      (.dropped, earlyOps, [], { s with sequenceNumber := s.sequenceNumber + 1 })
    else
      let entryStartPos := s.framedBufferPos
      let s := frameEntry bufferSize msg s
      let entry := Entry.ofBytes
        (s.framedLogBuffer.read entryStartPos (s.framedBufferPos - entryStartPos))
      let (lateOps, s) := if msg.level = logLevelErr then flushBufferToHost late s else ([], s)
      (.framed entry, earlyOps, lateOps, s)

end

-- ---
-- Setup and release

def setupTtPcieLogBackend (bufferAddrLo bufferAddrHi bufferSize : UInt32) (locked : Bool)
    (s : State) : List HostOp × State :=
  if bufferSize.toNat < bufferHeaderSize + entryHeaderSize + 1 ∨ locked = false then ([], s)
  else
    let iova := (bufferAddrHi.toUInt64 <<< 32) ||| bufferAddrLo.toUInt64
    ([ .write32 (windowAddr iova) (UInt32.ofNat bufferHeaderSize),
        .write32 (windowAddr (iova + 4)) bufferSize,
        .write32 (windowAddr (iova + 8)) fwLogBufferMagic,
        .write32 (windowAddr (iova + 12)) ownerFw ],
      { s with
        logBufferIova := iova
        logBufferSize := bufferSize
        hostAvailable := true })

def releaseTtPcieLogBackend (locked : Bool) (s : State) : State :=
  if s.hostAvailable = false ∨ locked = false then s
  else { s with hostAvailable := false, logBufferIova := 0, logBufferSize := 0 }

-- ---
-- Runs

inductive Origin where
  | setup
  | flush
  deriving DecidableEq

/-- The accesses to the host of one setup or flush, and the buffer they are for. -/
structure Access where
  origin : Origin
  iova : UInt64
  bufferSize : UInt32
  ops : List HostOp

structure World where
  state : State := {}
  accesses : List Access := []
  /-- The entry of every message that was to be forwarded, `none` if it was dropped. -/
  outcomes : List (Option Entry) := []

/-- All entries there have been, in the order of framing. -/
def World.framed (w : World) : List Entry := w.outcomes.filterMap id

def Outcome.toList : Outcome → List (Option Entry)
  | .ignored => []
  | .dropped => [none]
  | .framed entry => [some entry]

inductive Action where
  | process (msg : Message) (locked : Bool) (early late : HostHeader)
  /-- `flush_work_handler`, or `backend_panic`. -/
  | flush (locked : Bool) (host : HostHeader)
  | setup (bufferAddrLo bufferAddrHi bufferSize : UInt32) (locked : Bool)
  | release (locked : Bool)

/-- Accesses to the buffer that is set up. -/
def State.access (s : State) (origin : Origin) (ops : List HostOp) : Access :=
  ⟨origin, s.logBufferIova, s.logBufferSize, ops⟩

def step (bufferSize : ℕ) (w : World) : Action → World
  | .process msg locked early late =>
    let (outcome, earlyOps, lateOps, s) := backendProcess bufferSize msg locked early late w.state
    { w with
      state := s
      accesses := w.accesses ++ [s.access .flush earlyOps, s.access .flush lateOps]
      outcomes := w.outcomes ++ outcome.toList }
  | .flush locked host =>
    if locked then
      let (ops, s) := flushBufferToHost host w.state
      { w with
        state := s
        accesses := w.accesses ++ [s.access .flush ops] }
    else w
  | .setup bufferAddrLo bufferAddrHi hostBufferSize locked =>
    let (ops, s) :=
      setupTtPcieLogBackend bufferAddrLo bufferAddrHi hostBufferSize locked w.state
    { w with
      state := s
      accesses := w.accesses ++ [s.access .setup ops] }
  | .release locked => { w with state := releaseTtPcieLogBackend locked w.state }

def run (bufferSize : ℕ) (w : World) (actions : List Action) : World :=
  actions.foldl (step bufferSize) w

end SystemFirmware.PcieLog
