import SystemFirmware.Pldm.Pdr

/-!
# The PDR provider — GetPDR

A management controller reads a record in parts: a FIRSTPART request names the record,
and every NEXTPART request names it again together with the data transfer handle that
came with the part before. The provider keeps one transfer state for all of its clients.

* `handleGetPdr` is the request handler of `pldm_platform.c` over `pldm_pdr_get_chunk`.
  It returns the provider as it leaves it, also when the request fails.
* A request comes as libpldm decodes it; `pldm_edac_crc8` is a parameter.
* `Provider.step` is everything that happens after init: requests, and updates of the
  terminus locator record.
-/

namespace SystemFirmware.Pldm

open Lib

-- ---
-- State

structure Transfer where
  active : Bool := false
  recordHandle : UInt32 := 0
  recordIndex : ℕ := 0
  nextDataHandle : UInt32 := 0
  deriving DecidableEq

structure Provider where
  repo : Repository
  transfer : Transfer := {}

inductive TransferFlag where
  | pldmStart
  | pldmMiddle
  | pldmEnd
  | pldmStartAndEnd
  deriving DecidableEq, Repr

def pldmGetNextpart : UInt8 := 0

def pldmGetFirstpart : UInt8 := 1

structure ChunkRequest where
  recordHandle : UInt32
  dataTransferHandle : UInt32
  transferOpFlag : UInt8
  requestCount : UInt16
  maxResponseCount : ℕ

/-- `record_data` and `response_count` are the bytes that are returned. -/
structure ChunkResponse where
  nextRecordHandle : UInt32
  nextDataTransferHandle : UInt32
  transferFlag : TransferFlag
  recordData : List UInt8
  transferCrc : UInt8
  deriving DecidableEq

-- ---
-- Chunks

def transferFlag (isFirst isLast : Bool) : TransferFlag :=
  if isFirst && isLast then .pldmStartAndEnd
  else if isFirst then .pldmStart
  else if isLast then .pldmEnd
  else .pldmMiddle

section

variable (crc8 : List UInt8 → UInt8) (cfg : ProviderConfig)

def buildChunk (p : Provider) (recordIndex offset : ℕ) (req : ChunkRequest) :
    Except Errno ChunkResponse × Provider :=
  match getRecordAtIndex cfg p.repo recordIndex with
  | .error e => (.error e, p)
  | .ok record =>
    if offset ≥ record.recordData.length then (.error .erange, p)
    else
      let responseCount := min req.requestCount.toNat (record.recordData.length - offset)
      let responseCount := min responseCount req.maxResponseCount
      let isFirst := decide (offset = 0)
      let isLast := decide (offset + responseCount ≥ record.recordData.length)
      let nextDataTransferHandle := if isLast then 0 else UInt32.ofNat (offset + responseCount)
      (.ok
        { nextRecordHandle := record.nextRecordHandle
          nextDataTransferHandle := nextDataTransferHandle
          transferFlag := transferFlag isFirst isLast
          recordData := (record.recordData.drop offset).take responseCount
          transferCrc := if isLast then crc8 record.recordData else 0 },
        { p with
          transfer :=
            { active := !isLast
              recordHandle := if isLast then 0 else record.recordHandle
              recordIndex := if isLast then 0 else recordIndex
              nextDataHandle := nextDataTransferHandle } })

def getChunk (p : Provider) (req : ChunkRequest) : Except Errno ChunkResponse × Provider :=
  if req.requestCount = 0 ∨ req.maxResponseCount = 0 then (.error .einval, p)
  else if req.transferOpFlag = pldmGetFirstpart then
    match selectRecord p.repo req.recordHandle with
    | .error e => (.error e, p)
    | .ok recordIndex => buildChunk crc8 cfg p recordIndex 0 req
  else if req.transferOpFlag = pldmGetNextpart then
    if !p.transfer.active || req.recordHandle != p.transfer.recordHandle ||
        req.dataTransferHandle != p.transfer.nextDataHandle then
      (.error .ebadmsg, p)
    else buildChunk crc8 cfg p p.transfer.recordIndex req.dataTransferHandle.toNat req
  else (.error .eopnotsupp, p)

-- ---
-- The request handler

/-- The completion codes of a failed GetPDR; `decoding` is one from `decode_get_pdr_req`. -/
inductive CompletionCode where
  | decoding (cc : UInt8)
  | error
  | errorInvalidData
  | platformInvalidDataTransferHandle
  | platformInvalidTransferOperationFlag
  | platformInvalidRecordHandle
  | platformInvalidRecordChangeNumber
  deriving DecidableEq, Repr

structure GetPdrRequest where
  recordHandle : UInt32
  dataTransferHandle : UInt32
  transferOpFlag : UInt8
  requestCount : UInt16
  recordChangeNumber : UInt16

def getPdrMaxDataLen : ℕ := 48

def GetPdrRequest.toChunkRequest (req : GetPdrRequest) : ChunkRequest where
  recordHandle := req.recordHandle
  dataTransferHandle := req.dataTransferHandle
  transferOpFlag := req.transferOpFlag
  requestCount := req.requestCount
  maxResponseCount := getPdrMaxDataLen

def completionCode : Errno → CompletionCode
  | .enoent => .platformInvalidRecordHandle
  | .ebadmsg | .erange => .platformInvalidDataTransferHandle
  | .eopnotsupp => .platformInvalidTransferOperationFlag
  | _ => .error

def handleGetPdr (p : Provider) (decoded : Except UInt8 GetPdrRequest) :
    Except CompletionCode ChunkResponse × Provider :=
  match decoded with
  | .error cc => (.error (.decoding cc), p)
  | .ok req =>
    if req.recordChangeNumber ≠ pdrRecordChangeNum then
      (.error .platformInvalidRecordChangeNumber, p)
    else if req.requestCount = 0 then (.error .errorInvalidData, p)
    else if req.transferOpFlag ≠ pldmGetFirstpart ∧ req.transferOpFlag ≠ pldmGetNextpart then
      (.error .platformInvalidTransferOperationFlag, p)
    else
      match getChunk crc8 cfg p req.toChunkRequest with
      | (.error e, p) => (.error (completionCode e), p)
      | (.ok resp, p) => (.ok resp, p)

-- ---
-- Updates

/-- `offsetof(struct pldm_pdr_hdr, type)`. -/
def pdrTypeOffset : ℕ := 5

/-- `offsetof(struct pldm_terminus_locator_pdr, tid)`. -/
def tidOffset : ℕ := 13

/-- `offsetof(struct pldm_terminus_locator_pdr, terminus_locator_value)`. -/
def terminusLocatorValueOffset : ℕ := 18

def updateTidEid (p : Provider) (tid endpointId : UInt8) : Except Errno Unit × Provider :=
  match p.repo.records[0]? with
  -- an unused entry of the table is all zero, so too short
  | none => (.error .einval, p)
  | some info =>
    if info.length < terminusLocatorPdrSize ∨ cfg.pdrRepoCapacity < terminusLocatorPdrSize ∨
        info.offset > cfg.pdrRepoCapacity - terminusLocatorPdrSize then
      (.error .einval, p)
    else if p.repo.bytes (info.offset + pdrTypeOffset) ≠ terminusLocatorPdrType then
      (.error .einval, p)
    else
      let bytes := p.repo.bytes.program (info.offset + tidOffset) [tid]
      let bytes := bytes.program (info.offset + terminusLocatorValueOffset) [endpointId]
      (.ok (), { p with repo := { p.repo with bytes := bytes } })

-- ---
-- Runs

inductive Action where
  | getPdr (decoded : Except UInt8 GetPdrRequest)
  | updateTidEid (tid endpointId : UInt8)

def Provider.step (p : Provider) : Action → Provider
  | .getPdr decoded => (handleGetPdr crc8 cfg p decoded).2
  | .updateTidEid tid endpointId => (Pldm.updateTidEid cfg p tid endpointId).2

structure Exchange (κ : Type*) where
  client : κ
  request : Except UInt8 GetPdrRequest
  reply : Except CompletionCode ChunkResponse

/-- The exchanges of a run of requests, whichever clients they come from. -/
def serve {κ : Type*} (p : Provider) : List (κ × Except UInt8 GetPdrRequest) → List (Exchange κ)
  | [] => []
  | (client, decoded) :: requests =>
    ⟨client, decoded, (handleGetPdr crc8 cfg p decoded).1⟩ ::
      serve (handleGetPdr crc8 cfg p decoded).2 requests

end

end SystemFirmware.Pldm
