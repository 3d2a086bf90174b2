import SystemFirmware.Lib.Bytes
import SystemFirmware.Lib.Flash
import SystemFirmware.Lib.Retry

/-!
# Open Chiplet Configuration Protocol — definitions

The initiator of `lib/tenstorrent/occp/occp.c`: commands with a checksummed header go to
a target through a backend, each is answered by a response whose flags say whether it
failed, and data is read and written in chunks that fit into one message.

The `send` and `receive` of the backend do anything to the state of the bus and the
target. A session records what the initiator asks of it. `crc8` is the operating
system's.
-/

namespace SystemFirmware.Occp

open Lib

def eio : ℤ := 5

def einval : ℤ := 22

def maxMsgSize : ℕ := 255

def appBase : UInt8 := 0

def baseMsgWriteData : UInt8 := 2

def baseMsgReadData : UInt8 := 3

/-! ## Messages -/

structure CmdHeader where
  appId : UInt8
  msgId : UInt8
  flags : BitVec 5
  length : BitVec 11

structure Header where
  headerCrc : UInt8
  bodyCrcPresent : Bool
  i3cFlags : BitVec 23
  cmdHeader : CmdHeader

/-- `struct occp_write_data_request`, and `struct occp_read_data_request`, which has the
same fields. -/
structure DataRequest where
  header : Header
  addressLow : UInt32
  addressHigh : UInt32
  length : BitVec 11
  attributes : BitVec 5
  reserved : BitVec 16

def CmdHeader.bytes (h : CmdHeader) : List UInt8 :=
  h.appId :: h.msgId :: leBytes 2 (h.flags.toNat + 2 ^ 5 * h.length.toNat)

def Header.bytes (h : Header) : List UInt8 :=
  h.headerCrc :: leBytes 3 (h.bodyCrcPresent.toNat + 2 * h.i3cFlags.toNat) ++ h.cmdHeader.bytes

def DataRequest.bytes (r : DataRequest) : List UInt8 :=
  r.header.bytes ++ le32 r.addressLow ++ le32 r.addressHigh ++
    leBytes 4 (r.length.toNat + 2 ^ 11 * r.attributes.toNat + 2 ^ 16 * r.reserved.toNat)

def headerSize : ℕ := 8

def dataRequestSize : ℕ := 20

def DataRequest.zero : DataRequest := ⟨⟨0, false, 0, ⟨0, 0, 0, 0⟩⟩, 0, 0, 0, 0, 0⟩

/-- The fields `flags` and `length` of the header that a message starts with. -/
def flagsAndLength (message : List UInt8) : ℕ := leValue ((message.drop 6).take 2)

def flagsField (message : List UInt8) : ℕ := flagsAndLength message % 2 ^ 5

def lengthField (message : List UInt8) : ℕ := flagsAndLength message / 2 ^ 5

/-! ## Backends -/

/-- `struct occp_backend`: what a call returns (for `receive` with the bytes in the buffer), and
the state it leaves. -/
structure Backend (σ : Type) where
  send : σ → List UInt8 → ℤ × σ
  receive : σ → ℕ → ℤ × List UInt8 × σ

/-- The bus and the target, the commands sent so far, oldest first, and the numbers of bytes asked
for. -/
structure Session (σ : Type) where
  target : σ
  sent : List (List UInt8)
  asked : List ℕ

section

variable {σ : Type}

/-- `occp_tx_rx`: what it returns and the response. -/
def occpTxRx (backend : Backend σ) (cmd : List UInt8) (responseLen : ℕ) (s : Session σ) :
    (ℤ × List UInt8) × Session σ :=
  let (ret, target) := backend.send s.target cmd
  let s := { s with target := target, sent := s.sent ++ [cmd] }
  if ret ≠ 0 then ((ret, []), s)
  else
    let (ret, response, target) := backend.receive s.target responseLen
    let s := { s with target := target, asked := s.asked ++ [responseLen] }
    if ret ≠ 0 then ((ret, response), s)
    else if flagsField response ≠ 0 then ((-eio, response), s)
    else ((ret, response), s)

/-- `occp_run_transaction`. The counter goes down in the body of the loop, before the
loop's condition reads it. -/
def occpRunTransaction (backend : Backend σ) : (retryCnt : ℕ) → (cmd : List UInt8) →
    (responseLen : ℕ) → Session σ → (ℤ × List UInt8) × Session σ
  | 0, cmd, responseLen, s => occpTxRx backend cmd responseLen s
  | retryCnt + 1, cmd, responseLen, s =>
    let (result, s) := occpTxRx backend cmd responseLen s
    if result.1 ≠ 0 ∧ retryCnt > 0 then
      occpRunTransaction backend retryCnt cmd responseLen s
    else (result, s)

end

/-! ## Reading and writing data -/

/-- `crc8`: the bytes, the polynomial, the initial value and whether bits are reversed. -/
abbrev Crc8 := List UInt8 → UInt8 → UInt8 → Bool → UInt8

/-- The checksum of a message's header: it covers what follows its own field. -/
def headerCrcOf (crc8 : Crc8) (message : List UInt8) : UInt8 :=
  crc8 ((message.drop 1).take (headerSize - 1)) 0xD3 0xFF false

def fillCmdHeader (crc8 : Crc8) (appId msgId : UInt8) (length : ℕ) (hdr : Header) : Header :=
  let hdr := { hdr with cmdHeader :=
    { hdr.cmdHeader with appId := appId, msgId := msgId, length := BitVec.ofNat 11 length } }
  { hdr with headerCrc := headerCrcOf crc8 hdr.bytes }

def DataRequest.fill (crc8 : Crc8) (msgId : UInt8) (headerLength : ℕ) (addr : UInt64)
    (length : ℕ) (req : DataRequest) : DataRequest :=
  { req with
    header := fillCmdHeader crc8 appBase msgId headerLength req.header
    addressLow := addr.toUInt32
    addressHigh := (addr >>> 32).toUInt32
    length := BitVec.ofNat 11 length }

section

variable {σ : Type} (backend : Backend σ) (crc8 : Crc8) (retryCount : UInt8)

/-- The loop of `occp_write_data`; `none` when it is not done after `fuel` rounds. -/
def writeLoop : (fuel : ℕ) → DataRequest → (writeAddr : UInt64) → (data : List UInt8) →
    Session σ → Option (ℤ × Session σ)
  | 0, _, _, _, _ => none
  | fuel + 1, writeReq, writeAddr, data, s =>
    if data.length > 0 then
      let writeLength := min data.length (maxMsgSize - dataRequestSize) / 4 * 4
      let writeReq := writeReq.fill crc8 baseMsgWriteData
        (dataRequestSize - headerSize + writeLength) writeAddr writeLength
      let cmd := writeReq.bytes ++ data.take writeLength
      let ((ret, _), s) := occpRunTransaction backend retryCount.toNat cmd headerSize s
      if ret ≠ 0 then some (ret, s)
      else writeLoop fuel writeReq (writeAddr + UInt64.ofNat writeLength) (data.drop writeLength) s
    else some (0, s)

def occpWriteData (fuel : ℕ) (address : UInt64) (data : List UInt8) (s : Session σ) :
    Option (ℤ × Session σ) :=
  if address % 4 ≠ 0 then some (-einval, s)
  else if data.length % 4 ≠ 0 then some (-einval, s)
  else writeLoop backend crc8 retryCount fuel .zero address data s

/-- The loop of `occp_read_data`; `data` is what it has stored so far. -/
def readLoop : (fuel : ℕ) → DataRequest → (readAddr : UInt64) → (length : ℕ) →
    (data : List UInt8) → Session σ → Option ((ℤ × List UInt8) × Session σ)
  | 0, _, _, _, _, _ => none
  | fuel + 1, readReq, readAddr, length, data, s =>
    if length > 0 then
      let readLength := min length maxMsgSize / 4 * 4
      let crcLen := if readLength > 13 then 4 else 1
      let readReq := readReq.fill crc8 baseMsgReadData (dataRequestSize - headerSize) readAddr
        readLength
      let ((ret, response), s) := occpRunTransaction backend retryCount.toNat readReq.bytes
        (headerSize + readLength + crcLen) s
      if ret ≠ 0 then some ((ret, data), s)
      else readLoop fuel readReq (readAddr + UInt64.ofNat readLength) (length - readLength)
        (data ++ (response.drop headerSize).take readLength) s
    else some ((0, data), s)

def occpReadData (fuel : ℕ) (address : UInt64) (length : ℕ) (s : Session σ) :
    Option ((ℤ × List UInt8) × Session σ) :=
  if address % 4 ≠ 0 then some ((-einval, []), s)
  else if length % 4 ≠ 0 then some ((-einval, []), s)
  else readLoop backend crc8 retryCount fuel .zero address length [] s

end

end SystemFirmware.Occp
